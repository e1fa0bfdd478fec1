import SuiArbitrage.Rust.Config
import SuiArbitrage.Rust.Liquidation
import SuiArbitrage.Rust.Objects

/-! The obligation index of `offchain/src/liquidation/index.rs`: an obligation is read
again by walking its two tables, and replaces its entry. -/
namespace SuiArbitrage.Rust.Liquidation
open MachineWord Fallible
open Move (ObjectId)

/-- What a read of the node returns. Its errors are values, with their contexts. -/
abbrev Reply := Except (List String)

def hexMarked (s : String) : Bool := "0x".toList.isPrefixOf s.toList

def normalizeType (s : String) : String :=
  let s := trim s
  if hexMarked s then s else "0x" ++ s

mutual
def typeNameFromJson : Json → Option TokenId
  | .text s => some (normalizeType s)
  | .object fields => typeNameIn fields
  | _ => none

def typeNameIn : List (String × Json) → Option TokenId
  | [] => none
  | (key,val) :: rest => if key = "name" then typeNameFromJson val else typeNameIn rest
end

def jsonU64 (v : Json) : Option U64 := v.asU64.or (v.asStr.bind (parseUnsigned 64))

mutual
/-- The amount of a table entry, within any wrappers. -/
def amountFromValue : Json → Option U64
  | .object fields =>
    ((fields.lookup "amount").bind jsonU64).or ((amountIn "value" fields).or (amountIn "fields" fields))
  | _ => none

def amountIn (wrapper : String) : List (String × Json) → Option U64
  | [] => none
  | (key,val) :: rest => if key = wrapper then amountFromValue val else amountIn wrapper rest
end

def extractTableId (sdk : Sdk) (content : Json) (field : String) : Option ObjectId := do
  let node ← content.get field
  let table ← node.findKey "table"
  table.findUid sdk.parseId

def fieldAmount (field : SuiObjectResponse) : Option U64 := field.moveFields.bind amountFromValue

/-- An entry of a table as the node presents it. What the chain holds there is not read,
but what is read of it is true. -/
structure EntryReads where
  held : Position
  name : Json
  field : Reply SuiObjectResponse
  named : ∀ coinType, typeNameFromJson name = some coinType → coinType = held.coinType
  valued : ∀ value amount, field = .ok value → fieldAmount value = some amount → amount = held.amount

/-- The answers to the page reads of one walk, in turn. Where a read fails the walk ends,
with the rest of the table unread. -/
inductive TableReads
  | failed (chain : List String) (unread : List Position)
  | last (data : List EntryReads)
  | page (data : List EntryReads) (next : TableReads)

structure ObligationReads where
  object : String → Reply SuiObjectResponse
  collaterals : ObjectId → TableReads
  debts : ObjectId → TableReads

def readEntry (info : EntryReads) : Reply (Option Position) :=
  match typeNameFromJson info.name with
  | none => .ok none
  | some coinType => do
    let field ← info.field
    return (fieldAmount field).bind fun amount => if 0 < amount then some ⟨coinType,amount⟩ else none

def readPage (data : List EntryReads) : Reply (List Position) := do
  let found ← data.mapM readEntry
  return found.reduceOption

def readPositions : TableReads → Reply (List Position)
  | .failed chain _ => .error chain
  | .last data => readPage data
  | .page data next => do
    let found ← readPage data
    let rest ← readPositions next
    return found ++ rest

section decode
variable (sdk : Sdk)

/-- The positions of a table that an obligation names: none, where the walk fails. -/
def readTable (tables : ObjectId → TableReads) (content : Json) (field : String) : List Position :=
  match extractTableId sdk content field with
  | some tid => (readPositions (tables tid)).toOption.getD []
  | none => []

/-- An id that does not parse is among the failures of the object read. -/
def readContent (reads : ObligationReads) (id : String) : Reply Json := do
  let obj ← reads.object id
  match obj.data with
  | none => .error ["no object data"]
  | some _ =>
    match obj.moveFields with
    | none => .error ["obligation has no move content"]
    | some content => return content

def decodeObligation (reads : ObligationReads) (id : String) : Reply Obligation := do
  let content ← readContent reads id
  return ⟨id,.scallop,readTable sdk reads.collaterals content "collaterals",readTable sdk reads.debts content "debts"⟩

abbrev ObligationIndex := String → Option Obligation

/-- The outcome of a refresh, and the index that it leaves. -/
def refreshObligation (reads : ObligationReads) (id : String) (index : ObligationIndex) : Reply Unit × ObligationIndex :=
  match decodeObligation sdk reads id with
  | .ok ob => (.ok (),Function.update index id (some ob))
  | .error chain => (.error chain,index)

end decode

/-! A refresh is all or nothing where no walk loses a position. -/

namespace EntryReads

/-- The entry can be read: its name is that of a coin type, and its field has an amount. -/
def legible (info : EntryReads) : Bool :=
  (typeNameFromJson info.name).isSome && ((info.field.toOption.bind fieldAmount).isSome)

/-- No read of the entry fails. An entry whose name is no coin type is not read. -/
def Answers (info : EntryReads) : Prop := (typeNameFromJson info.name).isSome → info.field.isOk = true

def worth (info : EntryReads) : Bool := 0 < info.held.amount

def finding (info : EntryReads) : Option Position := if info.legible && info.worth then some info.held else none

end EntryReads

namespace TableReads

/-- What the chain holds in the table, read or not. -/
def table : TableReads → List Position
  | .failed _ unread => unread
  | .last data => data.map EntryReads.held
  | .page data next => data.map EntryReads.held ++ next.table

/-- The positions of the table that have a positive amount. -/
def positions (reads : TableReads) : List Position := reads.table.filter fun p => 0 < p.amount

def entries : TableReads → List EntryReads
  | .failed _ _ => []
  | .last data => data
  | .page data next => data ++ next.entries

/-- Every page of the walk is read, and no read of an entry fails. -/
def Answered : TableReads → Prop
  | .failed _ _ => False
  | .last data => ∀ info ∈ data, info.Answers
  | .page data next => (∀ info ∈ data, info.Answers) ∧ next.Answered

/-- The walk loses no position: no read fails, and no entry that is worth something is
illegible. -/
def Whole (reads : TableReads) : Prop :=
  reads.Answered ∧ ∀ info ∈ reads.entries, info.worth = true → info.legible = true

end TableReads

section walk
variable {info : EntryReads} {data : List EntryReads} {reads : TableReads}

theorem readEntry_ok {found : Option Position} :
    readEntry info = .ok found ↔ info.Answers ∧ found = info.finding := by
  unfold readEntry EntryReads.finding EntryReads.Answers EntryReads.legible EntryReads.worth
  cases coin : typeNameFromJson info.name with
  | none =>
    rw [Except.ok.injEq,and_iff_right fun named => by cases named]
    exact eq_comm
  | some coinType =>
    obtain rfl := info.named coinType coin
    cases field : info.field with
    | error chain => exact iff_of_false (fun ran => by cases ran) fun both => by cases both.1 rfl
    | ok value =>
      have isOk : (Except.ok value : Reply SuiObjectResponse).isOk = true := rfl
      rw [isOk,and_iff_right fun _ => rfl]
      simp only [ok_bind,pure_eq_ok,Except.ok.injEq,Option.isSome_some,Bool.true_and,Except.toOption,Option.bind_some]
      cases amount : fieldAmount value with
      | none => exact eq_comm
      | some amount' =>
        obtain rfl := info.valued value amount' field amount
        simp only [Option.bind_some,Option.isSome_some,Bool.true_and,decide_eq_true_eq]
        exact eq_comm

/-- What a walk finds among such entries. -/
def findings (data : List EntryReads) : List Position := data.filterMap EntryReads.finding

theorem readPage_ok {found : List Position} :
    readPage data = .ok found ↔ (∀ info ∈ data, info.Answers) ∧ found = findings data := by
  unfold readPage
  have reduced {read : List (Option Position)} (mapped : data.mapM readEntry = .ok read) :
      read.reduceOption = findings data := by
    rw [mapM_eq_map (fun _ _ ran => (readEntry_ok.mp ran).2) mapped]
    exact List.filterMap_map
  constructor
  · intro ran
    obtain ⟨read,mapped,ran⟩ := bind_ok.mp ran
    obtain rfl := pure_ok.mp ran
    refine ⟨fun info member => ?_,reduced mapped⟩
    obtain ⟨_,-,ran⟩ := mapM_ran mapped member
    exact (readEntry_ok.mp ran).1
  · intro ⟨answers,same⟩
    obtain ⟨read,mapped⟩ := mapM_of_forall fun info member => ⟨_,readEntry_ok.mpr ⟨answers info member,rfl⟩⟩
    exact bind_ok.mpr ⟨read,mapped,pure_ok.mpr ((reduced mapped).trans same.symm)⟩

theorem readPositions_ok {found : List Position} :
    readPositions reads = .ok found ↔ reads.Answered ∧ found = findings reads.entries := by
  induction reads generalizing found with
  | failed chain unread => exact iff_of_false (fun ran => by cases ran) fun both => both.1
  | last data => exact readPage_ok
  | page data next ih =>
    have together : findings (data ++ next.entries) = findings data ++ findings next.entries := List.filterMap_append
    constructor
    · intro ran
      obtain ⟨first,here,ran⟩ := bind_ok.mp ran
      obtain ⟨rest,later,ran⟩ := bind_ok.mp ran
      obtain rfl := pure_ok.mp ran
      obtain ⟨answers,rfl⟩ := readPage_ok.mp here
      obtain ⟨answered,rfl⟩ := ih.mp later
      exact ⟨⟨answers,answered⟩,together.symm⟩
    · intro ⟨⟨answers,answered⟩,same⟩
      refine bind_ok.mpr ⟨_,readPage_ok.mpr ⟨answers,rfl⟩,bind_ok.mpr ⟨_,ih.mpr ⟨answered,rfl⟩,?_⟩⟩
      exact pure_ok.mpr (together.symm.trans same.symm)

/-- What the chain holds of positive amount under such entries. -/
def holdings (data : List EntryReads) : List Position := (data.map EntryReads.held).filter fun p => 0 < p.amount

theorem holdings_cons (info : EntryReads) (rest : List EntryReads) :
    holdings (info :: rest) = if info.worth then info.held :: holdings rest else holdings rest := by
  unfold holdings EntryReads.worth
  rw [List.map_cons,List.filter_cons]

theorem findings_cons (info : EntryReads) (rest : List EntryReads) :
    findings (info :: rest) = if info.legible && info.worth then info.held :: findings rest else findings rest := by
  unfold findings
  by_cases found : (info.legible && info.worth) = true
  · have finds : info.finding = some info.held := if_pos found
    rw [if_pos found,List.filterMap_cons_some finds]
  · have finds : info.finding = none := if_neg found
    rw [if_neg found,List.filterMap_cons_none finds]

theorem findings_sublist (data : List EntryReads) : (findings data).Sublist (holdings data) := by
  induction data with
  | nil => exact List.Sublist.refl _
  | cons info rest ih =>
    rw [findings_cons,holdings_cons]
    cases info.worth with
    | false => simpa using ih
    | true =>
      cases info.legible with
      | false => exact ih.cons _
      | true => exact ih.cons_cons _

theorem findings_eq : findings data = holdings data ↔ ∀ info ∈ data, info.worth = true → info.legible = true := by
  induction data with
  | nil => exact iff_of_true rfl fun _ member => absurd member List.not_mem_nil
  | cons info rest ih =>
    rw [findings_cons,holdings_cons,List.forall_mem_cons,← ih]
    cases info.worth with
    | false => simp
    | true =>
      cases info.legible with
      | true => simp
      | false =>
        -- The position is lost: what is found is shorter than what is held.
        refine iff_of_false (fun same => ?_) fun both => by cases both.1 rfl
        have fewer := (findings_sublist rest).length_le
        have longer := congrArg List.length same
        simp only [Bool.false_and,Bool.false_eq_true,if_false,if_true,List.length_cons] at longer
        omega

theorem answered_positions (answered : reads.Answered) : reads.positions = holdings reads.entries := by
  unfold TableReads.positions holdings
  congr 1
  induction reads with
  | failed chain unread => exact absurd answered id
  | last data => rfl
  | page data next ih => rw [TableReads.table,TableReads.entries,List.map_append,ih answered.2]

/-- A walk that fails leaves nothing. -/
theorem readPositions_whole :
    (readPositions reads).toOption.getD [] = reads.positions ↔ reads.positions = [] ∨ reads.Whole := by
  cases ran : readPositions reads with
  | error chain =>
    have unanswered : ¬ reads.Answered := fun answered => by
      rw [readPositions_ok.mpr ⟨answered,rfl⟩] at ran
      cases ran
    constructor
    · exact fun nothing => .inl nothing.symm
    · exact fun lost => lost.elim Eq.symm fun whole => absurd whole.1 unanswered
  | ok found =>
    obtain ⟨answered,rfl⟩ := readPositions_ok.mp ran
    change findings reads.entries = reads.positions ↔ _
    rw [answered_positions answered]
    constructor
    · exact fun same => .inr ⟨answered,findings_eq.mp same⟩
    · rintro (nothing | whole)
      · rw [nothing]
        exact List.sublist_nil.mp (nothing ▸ findings_sublist reads.entries)
      · exact findings_eq.mpr whole.2

end walk

section refresh
variable (sdk : Sdk) (reads : ObligationReads) (id : String)

/-- The positions of positive amount of the table that an obligation names, if it names one. -/
def tablePositions (tables : ObjectId → TableReads) (content : Json) (field : String) : List Position :=
  match extractTableId sdk content field with
  | some tid => (tables tid).positions
  | none => []

/-- Whatever the index was, it is left so, or the entry is replaced by one with every
position of both tables. -/
def AllOrNothing : Prop :=
  ∀ index, (refreshObligation sdk reads id index).2 = index ∨ ∃ content ob, readContent reads id = .ok content ∧
    (refreshObligation sdk reads id index).2 = Function.update index id (some ob) ∧
    ob.collaterals = tablePositions sdk reads.collaterals content "collaterals" ∧
    ob.debts = tablePositions sdk reads.debts content "debts"

/-- A table that the obligation names is read as a whole, or has nothing to lose. -/
def Intact (tables : ObjectId → TableReads) (content : Json) (field : String) : Prop :=
  ∀ tid, extractTableId sdk content field = some tid → (tables tid).positions = [] ∨ (tables tid).Whole

variable {sdk reads id}

theorem readTable_intact {tables : ObjectId → TableReads} {content : Json} {field : String} :
    readTable sdk tables content field = tablePositions sdk tables content field ↔ Intact sdk tables content field := by
  unfold readTable tablePositions Intact
  cases extractTableId sdk content field with
  | none => exact iff_of_true rfl fun _ same => by cases same
  | some tid =>
    simp only [Option.some.injEq,forall_eq']
    exact readPositions_whole

/-- A refresh is all or nothing if and only if the object read fails or both tables are
read without a loss. -/
theorem refreshObligation_iff : AllOrNothing sdk reads id ↔ ∀ content, readContent reads id = .ok content →
    Intact sdk reads.collaterals content "collaterals" ∧ Intact sdk reads.debts content "debts" := by
  unfold AllOrNothing refreshObligation decodeObligation
  cases read : readContent reads id with
  | error chain => exact iff_of_true (fun _ => .inl rfl) fun _ same => by cases same
  | ok content =>
    simp only [ok_bind,pure_eq_ok,← readTable_intact]
    constructor
    · intro holds other same
      obtain rfl := Except.ok.inj same
      -- An index without the entry is changed in any case.
      rcases holds fun _ => none with unchanged | ⟨content,ob,same,updated,collaterals,debts⟩
      · have entry := congrFun unchanged id
        rw [Function.update_self] at entry
        cases entry
      · obtain rfl := Except.ok.inj same
        have entry := congrFun updated id
        rw [Function.update_self,Function.update_self] at entry
        obtain rfl := Option.some.inj entry
        exact ⟨collaterals,debts⟩
    · intro intact index
      obtain ⟨collaterals,debts⟩ := intact content rfl
      exact .inr ⟨content,_,rfl,rfl,collaterals,debts⟩

end refresh

/-! A page of the collateral table that cannot be read. -/
namespace Forgets

def sdk : Sdk := ⟨some,id,.ok⟩

def named (coinType : TokenId) : Json := .object [("name",.text coinType)]

def holding (amount : U64) : SuiObjectResponse :=
  ⟨some ⟨"0xf",1,none,some (.moveObject (.object [("value",.object [("amount",.number (some amount))])]))⟩⟩

def entry (held : Position) (canonical : normalizeType held.coinType = held.coinType) : EntryReads where
  held := held
  name := named held.coinType
  field := .ok (holding held.amount)
  named _ same := (Option.some.inj same).symm.trans canonical
  valued _ _ read same := by
    obtain rfl := Except.ok.inj read
    exact (Option.some.inj same).symm

def suiHeld : Position := ⟨"0x2::sui::SUI",7⟩

def usdcOwed : Position := ⟨"0xa::usdc::USDC",5⟩

theorem sui_canonical : normalizeType suiHeld.coinType = suiHeld.coinType := by decide +kernel

theorem usdc_canonical : normalizeType usdcOwed.coinType = usdcOwed.coinType := by decide +kernel

def table (uid : String) : Json := .object [("table",.object [("id",.text uid)])]

def content : Json := .object [("collaterals",table "0x7"),("debts",table "0x9")]

def reads (collaterals : TableReads) : ObligationReads where
  object _ := .ok ⟨some ⟨"0xb",1,none,some (.moveObject content)⟩⟩
  collaterals _ := collaterals
  debts _ := .last [entry usdcOwed usdc_canonical]

def good : ObligationReads := reads (.last [entry suiHeld sui_canonical])

def failing : ObligationReads := reads (.failed ["timeout"] [suiHeld])

def indexed : ObligationIndex := (refreshObligation sdk good "0xb" fun _ => none).2

/-- The entry had both positions, and loses the collateral to a page that fails. -/
theorem failed_page_forgets : indexed "0xb" = some ⟨"0xb",.scallop,[suiHeld],[usdcOwed]⟩ ∧
    (refreshObligation sdk failing "0xb" indexed).2 "0xb" = some ⟨"0xb",.scallop,[],[usdcOwed]⟩ ∧
    ¬ AllOrNothing sdk failing "0xb" := by
  have lost : (refreshObligation sdk failing "0xb" indexed).2 "0xb" = some ⟨"0xb",.scallop,[],[usdcOwed]⟩ := by decide +kernel
  refine ⟨by decide +kernel,lost,fun holds => ?_⟩
  rcases holds indexed with unchanged | ⟨read,ob,same,updated,collaterals,-⟩
  · have entry := congrFun unchanged "0xb"
    rw [lost] at entry
    exact absurd entry (by decide +kernel)
  · have entry := congrFun updated "0xb"
    rw [lost,Function.update_self] at entry
    obtain rfl := Option.some.inj entry
    obtain rfl := Except.ok.inj same
    exact absurd collaterals (by decide +kernel)

end Forgets

end SuiArbitrage.Rust.Liquidation
