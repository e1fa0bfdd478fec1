import SuiArbitrage.Lib.LinearContext
import SuiArbitrage.Move.Transaction

/-! The types of a block. Every value that a command returns has a kind, none of which can
be copied or dropped; a command takes the kinds that its function declares. Shared objects
and pure values are no values of the block, and an object argument names no type. -/
namespace SuiArbitrage.Move
open LinearContext

inductive Kind
  | coin (T : TypeTag)
  | arbReceipt
  | flashReceipt
  | flashLoan (T : TypeTag)
  | vaa
  | hotPotatoVector (T : TypeTag)
  deriving DecidableEq, Repr

inductive Parameter
  | value (kind : Kind)
  | object
  | u64
  | bytes
  deriving DecidableEq, Repr

structure Signature where
  parameters : List Parameter
  results : List Kind
  deriving DecidableEq, Repr

/-- Where the functions of a block are published, and the coin that pays for gas. -/
structure Packages where
  arbitrage : ObjectId
  lender : ObjectId
  wormhole : ObjectId
  pyth : ObjectId
  gas : TypeTag
  deriving DecidableEq, Repr

namespace Packages
variable (packages : Packages)

def priceInfo : TypeTag := packages.pyth ++ "::price_info::PriceInfo"

def oracleFunction (name : ObjectId × String × String) : Option Signature :=
  if name = (packages.wormhole,"vaa","parse_and_verify") then some ⟨[.object,.bytes,.object],[.vaa]⟩
  else if name = (packages.pyth,"pyth","create_authenticated_price_infos_using_accumulator") then
    some ⟨[.object,.bytes,.value .vaa,.object],[.hotPotatoVector packages.priceInfo]⟩
  else if name = (packages.pyth,"pyth","update_single_price_feed") then
    some ⟨[.object,.value (.hotPotatoVector packages.priceInfo),.object,.value (.coin sui),.object],
      [.hotPotatoVector packages.priceInfo]⟩
  else none

def coinFunction (T : TypeTag) (name : ObjectId × String × String) : Option Signature :=
  if name = (packages.arbitrage,"executor","begin") then some ⟨[.value (.coin T),.u64],[.coin T,.arbReceipt]⟩
  else if name = (packages.arbitrage,"executor","settle") then some ⟨[.value .arbReceipt,.value (.coin T)],[]⟩
  else if name = (packages.arbitrage,"executor","settle_and_return") then
    some ⟨[.value .arbReceipt,.value (.coin T)],[.coin T]⟩
  else if name = (packages.lender,"flash","borrow") then some ⟨[.object,.u64],[.coin T,.flashReceipt]⟩
  else if name = (packages.lender,"flash","repay") then
    some ⟨[.object,.value .flashReceipt,.value (.coin T)],[.coin T]⟩
  else if name = (packages.lender,"flash_loan","borrow_flash_loan") then
    some ⟨[.object,.object,.u64],[.coin T,.flashLoan T]⟩
  else if name = (packages.lender,"flash_loan","repay_flash_loan") then
    some ⟨[.object,.object,.value (.coin T),.value (.flashLoan T)],[]⟩
  else if name = (packages.pyth,"hot_potato_vector","destroy") then some ⟨[.value (.hotPotatoVector T)],[]⟩
  else none

def pairFunction (A B : TypeTag) (name : ObjectId × String × String) : Option Signature :=
  if name = (packages.arbitrage,"amm_v2_adapter","swap_exact_in_a_to_b") then
    some ⟨[.object,.value (.coin A),.u64],[.coin B]⟩
  else if name = (packages.arbitrage,"amm_v2_adapter","swap_exact_in_b_to_a") then
    some ⟨[.object,.value (.coin B),.u64],[.coin A]⟩
  else if name = (packages.arbitrage,"cetus_adapter","swap_exact_in_a_to_b") then
    some ⟨[.object,.object,.value (.coin A),.u64,.object],[.coin B]⟩
  else if name = (packages.arbitrage,"cetus_adapter","swap_exact_in_b_to_a") then
    some ⟨[.object,.object,.value (.coin B),.u64,.object],[.coin A]⟩
  else if name = (packages.lender,"liquidate","liquidate") then
    some ⟨[.object,.object,.object,.value (.coin A),.object,.object,.object],[.coin A,.coin B]⟩
  else none

def feeFunction (A B : TypeTag) (name : ObjectId × String × String) : Option Signature :=
  if name = (packages.arbitrage,"turbos_adapter","swap_exact_in_a_to_b") then
    some ⟨[.object,.value (.coin A),.u64,.object,.object],[.coin B]⟩
  else if name = (packages.arbitrage,"turbos_adapter","swap_exact_in_b_to_a") then
    some ⟨[.object,.value (.coin B),.u64,.object,.object],[.coin A]⟩
  else none

/-- The declared types of the function a command calls. -/
def signature (c : MoveCall) : Option Signature :=
  let name := (c.package,c.module,c.function)
  match c.typeArguments with
  | [] => packages.oracleFunction name
  | [T] => packages.coinFunction T name
  | [A,B] => packages.pairFunction A B name
  | [A,B,_] => packages.feeFunction A B name
  | _ => none

end Packages

/-- The kinds of the values that each command so far has returned. -/
abbrev Env := List (List Kind)

/-- A value by its place: the command that returned it, and which of its results it is. -/
abbrev Slot := (ℕ × ℕ) × Kind

/-- A whole result names a value only if there is one value. -/
def Env.slot (env : Env) : Argument → Option Slot
  | .result i =>
    match env[i]? with
    | some [kind] => some ((i,0),kind)
    | _ => none
  | .nestedResult i j => ((env[i]?).bind (·[j]?)).map fun kind => ((i,j),kind)
  | _ => none

def Parameter.accepts (env : Env) : Parameter → Argument → Option (List Slot)
  | .value kind,argument => (env.slot argument).bind fun slot => if slot.2 = kind then some [slot] else none
  | .object,.object _ => some []
  | .u64,.pure (.u64 _) => some []
  | .bytes,.pure (.bytes _) => some []
  | _,_ => none

def accepts (env : Env) : List Parameter → List Argument → Option (List Slot)
  | [],[] => some []
  | parameter :: parameters,argument :: arguments => do
    let first ← parameter.accepts env argument
    let rest ← accepts env parameters arguments
    return first ++ rest
  | _,_ => none

def Env.coin (env : Env) (argument : Argument) : Option (Slot × TypeTag) :=
  match env.slot argument with
  | some (place,.coin T) => some ((place,.coin T),T)
  | _ => none

/-- What a command takes, what it must be given and does not take, and what it returns. -/
structure Typed where
  taken : List Slot
  kept : List Slot
  results : List Kind
  deriving DecidableEq, Repr

def Typed.effect (i : ℕ) (typed : Typed) : Effect Slot :=
  ⟨typed.taken,typed.kept,typed.results.zipIdx.map fun (kind,j) => ((i,j),kind)⟩

def isU64 : Argument → Bool
  | .pure (.u64 _) => true
  | _ => false

def isAddress : Argument → Bool
  | .pure (.address _) => true
  | _ => false

/-- A coin that is split, or that others are merged into, stays where it is. -/
def Packages.typed (packages : Packages) (env : Env) : Command → Option Typed
  | .moveCall c => do
    let signature ← packages.signature c
    let taken ← accepts env signature.parameters c.arguments
    return ⟨taken,[],signature.results⟩
  | .splitCoins coin amounts =>
    if amounts.all isU64 then
      if coin = .gasCoin then some ⟨[],[],List.replicate amounts.length (.coin packages.gas)⟩
      else (env.coin coin).map fun (slot,T) => ⟨[],[slot],List.replicate amounts.length (.coin T)⟩
    else none
  | .mergeCoins target sources => do
    let (slot,T) ← env.coin target
    let taken ← accepts env (List.replicate sources.length (.value (.coin T))) sources
    return ⟨taken,[slot],[]⟩
  | .transferObjects objects recipient =>
    if isAddress recipient then (objects.mapM env.coin).map fun coins => ⟨coins.map (·.1),[],[]⟩ else none

/-- The kinds that the commands return, and their effects. -/
def Packages.elaborate (packages : Packages) : Env → List Command → Option (Env × List (Effect Slot))
  | _,[] => some ([],[])
  | env,command :: commands => do
    let typed ← packages.typed env command
    let (rows,effects) ← packages.elaborate (env ++ [typed.results]) commands
    return (typed.results :: rows,typed.effect env.length :: effects)

/-- These commands, run after those of `env` with such values, are well typed and leave the
values `after`. -/
def Packages.Checks (packages : Packages) (env : Env) (context : Multiset Slot) (commands : List Command) (rows : Env)
    (after : Multiset Slot) : Prop :=
  ∃ effects, packages.elaborate env commands = some (rows,effects) ∧ runs effects context = some after

/-- Every command gets values of the types it declares, each value is there when it is used,
and no value is left at the end. -/
def Packages.WellTyped (packages : Packages) (commands : List Command) : Prop :=
  ∃ rows, packages.Checks [] 0 commands rows 0

/-- Whether a command calls one of some functions. -/
def Command.callsOneOf (names : List (String × String)) : Command → Bool
  | .moveCall c => (c.module,c.function) ∈ names
  | _ => false

def Command.settles : Command → Bool := Command.callsOneOf [("executor","settle"),("executor","settle_and_return")]

def Command.repays : Command → Bool := Command.callsOneOf [("flash","repay"),("flash_loan","repay_flash_loan")]

/-- Before any repayment the profit has been settled. -/
def SettlesFirst (commands : List Command) : Prop :=
  ∀ before command after, commands = before ++ command :: after → command.repays = true →
    ∃ settled ∈ before, settled.settles = true

section rules
variable {packages : Packages} {env rows later : Env} {context middle after : Multiset Slot} {command : Command}
  {commands rest : List Command} {typed : Typed} {argument : Argument} {slot : Slot}

theorem checks_nil (env : Env) (context : Multiset Slot) : packages.Checks env context [] [] context :=
  ⟨[],rfl,rfl⟩

theorem checks_cons (elaborated : packages.typed env command = some typed)
    (applied : (typed.effect env.length).apply context = some middle)
    (checks : packages.Checks (env ++ [typed.results]) middle commands rows after) :
    packages.Checks env context (command :: commands) (typed.results :: rows) after := by
  obtain ⟨effects,elaboratedRest,ran⟩ := checks
  refine ⟨typed.effect env.length :: effects,?_,runs_cons.mpr ⟨middle,applied,ran⟩⟩
  simp [Packages.elaborate,elaborated,elaboratedRest]

/-- A command may take and need any of the values that exist; the rest is left. -/
theorem checks_step {taken kept : List Slot} {results : List Kind} (rest : Multiset Slot)
    (elaborated : packages.typed env command = some ⟨taken,kept,results⟩) (same : context = taken + rest)
    (keeps : (kept : Multiset Slot) ≤ rest)
    (checks : packages.Checks (env ++ [results])
      ((results.zipIdx.map fun (kind,j) => ((env.length,j),kind) : List Slot) + rest) commands rows after) :
    packages.Checks env context (command :: commands) (results :: rows) after :=
  checks_cons elaborated (apply_eq_some.mpr ⟨rest,same,keeps,rfl⟩) checks

theorem coin_of_slot {place : ℕ × ℕ} {T : TypeTag} (there : env.slot argument = some (place,.coin T)) :
    env.coin argument = some ((place,.coin T),T) := by
  rw [Env.coin,there]

theorem slot_last (env : Env) (kind : Kind) : Env.slot (env ++ [[kind]]) (.result env.length) = some ((env.length,0),kind) := by
  simp [Env.slot]

theorem slot_pair (env : Env) (first second : Kind) :
    Env.slot (env ++ [[first,second]]) (.nestedResult env.length 0) = some ((env.length,0),first) ∧
      Env.slot (env ++ [[first,second]]) (.nestedResult env.length 1) = some ((env.length,1),second) := by
  simp [Env.slot]

theorem elaborate_append {effects effects' : List (Effect Slot)} (one : packages.elaborate env commands = some (rows,effects))
    (two : packages.elaborate (env ++ rows) rest = some (later,effects')) :
    packages.elaborate env (commands ++ rest) = some (rows ++ later,effects ++ effects') := by
  induction commands generalizing env rows effects with
  | nil =>
    cases Option.some.inj one
    simpa using two
  | cons command commands ih =>
    simp only [Packages.elaborate,Option.bind_eq_bind,Option.bind_eq_some_iff,Prod.exists] at one
    obtain ⟨typed,elaborated,rows',effects'',inner,made⟩ := one
    cases Option.some.inj made
    have further := ih inner (by simpa using two)
    simp [Packages.elaborate,elaborated,further]

theorem Packages.Checks.append (one : packages.Checks env context commands rows middle)
    (two : packages.Checks (env ++ rows) middle rest later after) :
    packages.Checks env context (commands ++ rest) (rows ++ later) after := by
  obtain ⟨effects,elaborated,ran⟩ := one
  obtain ⟨effects',elaborated',ran'⟩ := two
  exact ⟨effects ++ effects',elaborate_append elaborated elaborated',runs_append.mpr ⟨middle,ran,ran'⟩⟩

/-- Values that the commands do not use stay as they are. -/
theorem Packages.Checks.frame (checks : packages.Checks env context commands rows after) (frame : Multiset Slot) :
    packages.Checks env (context + frame) commands rows (after + frame) := by
  obtain ⟨effects,elaborated,ran⟩ := checks
  exact ⟨effects,elaborated,runs_frame ran frame⟩

theorem Packages.Checks.length (checks : packages.Checks env context commands rows after) :
    rows.length = commands.length := by
  obtain ⟨effects,elaborated,-⟩ := checks
  induction commands generalizing env rows effects with
  | nil =>
    cases Option.some.inj elaborated
    rfl
  | cons command commands ih =>
    simp only [Packages.elaborate,Option.bind_eq_bind,Option.bind_eq_some_iff,Prod.exists] at elaborated
    obtain ⟨typed,-,rows',effects',inner,made⟩ := elaborated
    cases Option.some.inj made
    rw [List.length_cons,List.length_cons,ih _ inner]

/-- Each value has a place of its own. -/
theorem made_nodup {effects : List (Effect Slot)} (elaborated : packages.elaborate env commands = some (rows,effects)) :
    (madeBy effects).Nodup ∧ ∀ slot ∈ madeBy effects, env.length ≤ slot.1.1 := by
  induction commands generalizing env rows effects with
  | nil =>
    cases Option.some.inj elaborated
    simp [madeBy]
  | cons command commands ih =>
    simp only [Packages.elaborate,Option.bind_eq_bind,Option.bind_eq_some_iff,Prod.exists] at elaborated
    obtain ⟨typed,-,rows',effects',inner,made⟩ := elaborated
    cases Option.some.inj made
    obtain ⟨apart,further⟩ := ih inner
    have here {slot : Slot} (member : slot ∈ (typed.effect env.length).made) : slot.1.1 = env.length := by
      obtain ⟨entry,-,rfl⟩ := List.mem_map.mp (Multiset.mem_coe.mp member)
      rfl
    have split : madeBy (typed.effect env.length :: effects') = (typed.effect env.length).made + madeBy effects' := by
      simp [madeBy]
    rw [split,Multiset.nodup_add]
    refine ⟨⟨?_,apart,?_⟩,?_⟩
    · have places : ((typed.results.zipIdx.map fun (kind,j) => (((env.length,j),kind) : Slot)).map fun slot => slot.1.2).Nodup := by
        rw [List.map_map,show ((fun slot : Slot => slot.1.2) ∘ fun (kind,j) => ((env.length,j),kind)) = Prod.snd from rfl,
          List.zipIdx_map_snd]
        exact List.nodup_range'
      exact Multiset.coe_nodup.mpr (List.Nodup.of_map _ places)
    · rw [Multiset.disjoint_left]
      intro slot first second
      have later := further slot second
      rw [here first,List.length_append,List.length_singleton] at later
      omega
    · intro slot member
      rcases Multiset.mem_add.mp member with first | second
      · exact (here first).ge
      · have later := further slot second
        rw [List.length_append,List.length_singleton] at later
        omega

/-- In a well-typed block each value is taken exactly once, and a value that a command takes or
needs was made, and not yet taken, by the commands before it. -/
theorem Packages.WellTyped.linear (typed : packages.WellTyped commands) :
    ∃ rows effects, packages.elaborate [] commands = some (rows,effects) ∧
      (∀ slot, (takenBy effects).count slot = if slot ∈ madeBy effects then 1 else 0) ∧
      ∀ before effect later, effects = before ++ effect :: later →
        takenBy before + effect.taken + effect.kept ≤ madeBy before := by
  obtain ⟨rows,effects,elaborated,ran⟩ := typed
  refine ⟨rows,effects,elaborated,fun slot => ?_,fun before effect later same => ?_⟩
  · rw [taken_eq_made ran]
    exact Multiset.count_eq_of_nodup (made_nodup elaborated).1
  · subst same
    exact used_after_made ran

theorem Env.slot_append (found : env.slot argument = some slot) (rows : Env) : (env ++ rows).slot argument = some slot := by
  have further {i : ℕ} {row : List Kind} (here : env[i]? = some row) : (env ++ rows)[i]? = some row := by
    rw [List.getElem?_append_left (List.getElem?_eq_some_iff.mp here).1,here]
  cases argument with
  | result i =>
    simp only [Env.slot] at found ⊢
    split at found
    · rename_i here
      rw [further here]
      exact found
    · cases found
  | nestedResult i j =>
    simp only [Env.slot,Option.map_eq_some_iff,Option.bind_eq_some_iff] at found ⊢
    obtain ⟨kind,⟨row,here,inside⟩,same⟩ := found
    exact ⟨kind,⟨row,further here,inside⟩,same⟩
  | _ => cases found

theorem SettlesFirst.intro {before : List Command} {settle : Command} {rest : List Command} (quiet : ∀ c ∈ before, c.repays = false)
    (settles : settle.settles = true) (other : settle.repays = false) : SettlesFirst (before ++ settle :: rest) := by
  intro front command back same repays
  rcases List.append_eq_append_iff.mp same with ⟨inner,rfl,parts⟩ | ⟨inner,rfl,parts⟩
  · cases inner with
    | nil =>
      obtain ⟨rfl,rfl⟩ := List.cons.inj parts
      cases other.symm.trans repays
    | cons first inner =>
      obtain ⟨rfl,-⟩ := List.cons.inj parts
      exact ⟨_,List.mem_append_right _ List.mem_cons_self,settles⟩
  · cases inner with
    | nil =>
      obtain ⟨rfl,rfl⟩ := List.cons.inj parts
      cases other.symm.trans repays
    | cons first inner =>
      obtain ⟨rfl,-⟩ := List.cons.inj parts
      cases (quiet _ (List.mem_append_right _ List.mem_cons_self)).symm.trans repays

end rules

end SuiArbitrage.Move
