import Mathlib.Data.List.DropRight
import SuiArbitrage.Rust.BestPool
import SuiArbitrage.Rust.ObligationIndex
import SuiArbitrage.Rust.Ws

/-! The coin types that positions, parameters and pools are joined on. Normalizing adds
a missing `0x` and nothing else, so that two renderings of one type agree exactly where
they write its address with the same digits. -/
namespace SuiArbitrage.Rust.Liquidation
open MachineWord Fallible Scanner Brackets
open Move (ObjectId)

section trimmed

/-- There is nothing to trim at either end. -/
def Trimmed (chars : List Char) : Prop :=
  (∀ c ∈ chars.head?, whiteSpace c = false) ∧ ∀ c ∈ chars.getLast?, whiteSpace c = false

theorem trimmed_trim (s : String) : Trimmed (trim s).toList := by
  unfold trim
  rw [String.toList_ofList]
  change Trimmed ((s.toList.dropWhile whiteSpace).rdropWhile whiteSpace)
  constructor
  · intro c first
    obtain ⟨cut,split⟩ := List.rdropWhile_prefix whiteSpace (s.toList.dropWhile whiteSpace)
    have kept : (s.toList.dropWhile whiteSpace).head? = some c := by
      rw [← split,List.head?_append,Option.mem_def.mp first]
      rfl
    have stops := List.head?_dropWhile_not whiteSpace s.toList
    rw [kept] at stops
    exact stops
  · intro c last
    obtain ⟨some_char,rfl⟩ := List.mem_getLast?_eq_getLast last
    exact Bool.eq_false_of_not_eq_true (List.rdropWhile_last_not _ _ some_char)

theorem Trimmed.front {chars : List Char} (trimmed : Trimmed chars) : chars.dropWhile whiteSpace = chars := by
  cases chars with
  | nil => rfl
  | cons c rest => exact List.dropWhile_cons_of_neg (by simp [trimmed.1 c rfl])

theorem Trimmed.back {chars : List Char} (trimmed : Trimmed chars) : chars.rdropWhile whiteSpace = chars := by
  refine List.rdropWhile_eq_self_iff.mpr fun some_char => ?_
  simp [trimmed.2 _ (List.getLast?_eq_some_getLast some_char)]

theorem trim_of_trimmed {s : String} (trimmed : Trimmed s.toList) : trim s = s := by
  change String.ofList ((s.toList.dropWhile whiteSpace).rdropWhile whiteSpace) = s
  rw [trimmed.front,trimmed.back,String.ofList_toList]

def spaces (count : ℕ) : List Char := .replicate count ' '

theorem white_spaces (count : ℕ) : ∀ c ∈ spaces count, whiteSpace c = true := by
  intro c member
  obtain rfl := List.eq_of_mem_replicate member
  decide

/-- The spaces around an argument are trimmed. -/
theorem trim_padded {chars : List Char} (trimmed : Trimmed chars) (before after : ℕ) :
    trim (.ofList (spaces before ++ chars ++ spaces after)) = .ofList chars := by
  have left : (spaces before ++ (chars ++ spaces after)).dropWhile whiteSpace = (chars ++ spaces after).dropWhile whiteSpace :=
    List.dropWhile_append_of_pos (white_spaces before)
  have right : (chars ++ spaces after).rdropWhile whiteSpace = chars := by
    rw [List.rdropWhile,List.reverse_append,List.dropWhile_append_of_pos (by simpa using white_spaces after)]
    exact trimmed.back
  change String.ofList (((String.ofList _).toList.dropWhile whiteSpace).rdropWhile whiteSpace) = _
  rw [String.toList_ofList,List.append_assoc,left]
  cases chars with
  | nil => simp [List.dropWhile_eq_nil_iff.mpr (white_spaces after)]
  | cons c rest => rw [List.cons_append,List.dropWhile_cons_of_neg (by simp [trimmed.1 c rfl]),← List.cons_append,right]

theorem hexMarked_append (s : String) : hexMarked ("0x" ++ s) = true := by
  unfold hexMarked
  rw [String.toList_append,List.isPrefixOf_iff_prefix]
  exact List.prefix_append _ _

theorem trimmed_append {s : String} (trimmed : Trimmed s.toList) : Trimmed ("0x" ++ s).toList := by
  rw [String.toList_append]
  refine ⟨fun c first => ?_,fun c last => ?_⟩
  · obtain rfl := Option.some.inj first
    decide
  · rw [List.getLast?_append] at last
    cases ends : s.toList.getLast? with
    | none =>
      rw [ends] at last
      obtain rfl := Option.some.inj last
      decide
    | some d =>
      rw [ends] at last
      obtain rfl := Option.some.inj last
      exact trimmed.2 d ends

theorem normalizeType_of_marked {s : String} (trimmed : Trimmed s.toList) (marked : hexMarked s = true) :
    normalizeType s = s := by
  unfold normalizeType
  rw [trim_of_trimmed trimmed,if_pos marked]

theorem normalizeType_normalizeType (s : String) : normalizeType (normalizeType s) = normalizeType s := by
  have trimmed := trimmed_trim s
  have marks : normalizeType s = if hexMarked (trim s) then trim s else "0x" ++ trim s := rfl
  rw [marks]
  split
  next marked => exact normalizeType_of_marked trimmed marked
  next => exact normalizeType_of_marked (trimmed_append trimmed) (hexMarked_append _)

end trimmed

section renderings

def isHex (c : Char) : Bool := c.isDigit || ('a' ≤ c && c ≤ 'f') || ('A' ≤ c && c ≤ 'F')

def hexValue (c : Char) : ℕ :=
  if c.isDigit then c.toNat - '0'.toNat
  else if 'a' ≤ c then c.toNat - 'a'.toNat + 10
  else c.toNat - 'A'.toNat + 10

def identifier (s : String) : Bool :=
  match s.toList with
  | [] => false
  | c :: rest => (c.isAlpha || c = '_') && rest.all fun c => c.isAlphanum || c = '_'

/-- A way of writing a coin type: the digits of its address, of which the leading zeros
and the mark in front are optional, its module and its name. -/
structure Rendering where
  marked : Bool
  digits : List Char
  moduleName : String
  typeName : String
  hex : ∀ c ∈ digits, isHex c = true
  short : 0 < digits.length ∧ digits.length ≤ 64
  named : identifier moduleName = true ∧ identifier typeName = true

namespace Rendering

def address (r : Rendering) : ℕ := r.digits.foldl (fun n c => 16 * n + hexValue c) 0

def path (r : Rendering) : String := "::" ++ r.moduleName ++ "::" ++ r.typeName

def text (r : Rendering) : String := (if r.marked then "0x" else "") ++ String.ofList r.digits ++ r.path

/-- Both denote the same coin type. -/
def Same (r s : Rendering) : Prop :=
  r.address = s.address ∧ r.moduleName = s.moduleName ∧ r.typeName = s.typeName

def mark (r : Rendering) : Rendering := {r with marked := true}

end Rendering

variable {r s : Rendering}

theorem graphic_not_white {c : Char} (low : '!' ≤ c) (high : c ≤ '~') : whiteSpace c = false := by
  refine Bool.eq_false_of_not_eq_true fun white => ?_
  rcases (Bool.or_eq_true _ _).mp white with listed | spaced
  · have listed := of_decide_eq_true listed
    simp only [List.mem_cons,List.not_mem_nil,or_false] at listed
    rcases listed with rfl | rfl | rfl | rfl | rfl | rfl | rfl | rfl | rfl | rfl | rfl | rfl | rfl | rfl <;>
      first | exact absurd low (by decide) | exact absurd high (by decide)
  · have wide := of_decide_eq_true ((Bool.and_eq_true _ _).mp spaced).1
    exact absurd (Char.le_trans wide high) (by decide)

theorem isAlphanum_iff {c : Char} : c.isAlphanum = true ↔
    ('A' ≤ c ∧ c ≤ 'Z' ∨ 'a' ≤ c ∧ c ≤ 'z') ∨ '0' ≤ c ∧ c ≤ '9' := by
  change ((decide ('A' ≤ c ∧ c ≤ 'Z') || (decide ('a' ≤ c) && decide (c ≤ 'z'))) ||
    (decide ('0' ≤ c) && decide (c ≤ '9'))) = true ↔ _
  simp only [Bool.or_eq_true,Bool.and_eq_true,decide_eq_true_eq]

theorem alphanum_graphic {c : Char} (alphanum : c.isAlphanum = true) : '!' ≤ c ∧ c ≤ '~' := by
  have within {first last : Char} (above : '!' ≤ first) (below : last ≤ '~') (between : first ≤ c ∧ c ≤ last) :
      '!' ≤ c ∧ c ≤ '~' := ⟨Char.le_trans above between.1,Char.le_trans between.2 below⟩
  rcases isAlphanum_iff.mp alphanum with (upper | lower) | digit
  · exact within (by decide) (by decide) upper
  · exact within (by decide) (by decide) lower
  · exact within (by decide) (by decide) digit

/-- A character of an identifier. -/
def isWord (c : Char) : Bool := c.isAlphanum || c = '_'

theorem word_not_white {c : Char} (word : isWord c = true) : whiteSpace c = false := by
  rcases (Bool.or_eq_true _ _).mp word with alphanum | underscore
  · exact graphic_not_white (alphanum_graphic alphanum).1 (alphanum_graphic alphanum).2
  · obtain rfl := of_decide_eq_true underscore
    decide

theorem hex_alphanum {c : Char} (hex : isHex c = true) : c.isAlphanum = true := by
  simp only [isHex,Bool.or_eq_true,Bool.and_eq_true,decide_eq_true_eq] at hex
  rcases hex with (digit | ⟨low,high⟩) | ⟨low,high⟩
  · exact (Bool.or_eq_true _ _).mpr (.inr digit)
  · exact isAlphanum_iff.mpr (.inl (.inr ⟨low,Char.le_trans high (by decide)⟩))
  · exact isAlphanum_iff.mpr (.inl (.inl ⟨low,Char.le_trans high (by decide)⟩))

theorem x_not_hex : isHex 'x' = false := by decide

theorem identifier_words {name : String} (named : identifier name = true) :
    name.toList ≠ [] ∧ ∀ c ∈ name.toList, isWord c = true := by
  unfold identifier at named
  split at named
  · cases named
  · rename_i c rest chars
    obtain ⟨first,others⟩ := (Bool.and_eq_true _ _).mp named
    rw [chars,List.forall_mem_cons]
    refine ⟨List.cons_ne_nil c rest,?_,List.all_eq_true.mp others⟩
    rw [Bool.or_eq_true] at first
    rw [isWord,Bool.or_eq_true]
    exact first.imp_left fun alpha => (Bool.or_eq_true _ _).mpr (.inl alpha)

theorem identifier_last {name : String} (named : identifier name = true) :
    ∃ c, name.toList.getLast? = some c ∧ whiteSpace c = false := by
  obtain ⟨some_char,words⟩ := identifier_words named
  exact ⟨_,List.getLast?_eq_some_getLast some_char,word_not_white (words _ (List.getLast_mem some_char))⟩

theorem text_toList (r : Rendering) :
    r.text.toList = (if r.marked then ['0','x'] else []) ++ r.digits ++ r.path.toList := by
  unfold Rendering.text
  rw [String.toList_append,String.toList_append,String.toList_ofList]
  cases r.marked <;> rfl

theorem trimmed_text (r : Rendering) : Trimmed r.text.toList := by
  obtain ⟨last,ends,plain⟩ := identifier_last r.named.2
  constructor
  · intro c first
    rw [text_toList] at first
    cases marked : r.marked with
    | true =>
      rw [marked] at first
      obtain rfl := Option.some.inj first
      decide
    | false =>
      cases digits : r.digits with
      | nil => exact absurd r.short.1 (by simp [digits])
      | cons d rest =>
        rw [marked,digits] at first
        obtain rfl := Option.some.inj first
        exact word_not_white (by rw [isWord,hex_alphanum (r.hex d (by simp [digits])),Bool.true_or])
  · intro c final
    have tail : r.text.toList.getLast? = some last := by
      rw [text_toList,Rendering.path,String.toList_append,List.getLast?_append,List.getLast?_append,ends]
      rfl
    rw [tail] at final
    obtain rfl := Option.some.inj final
    exact plain

theorem path_toList (r : Rendering) : ∃ rest, r.path.toList = ':' :: rest := by
  have colons : "::".toList = [':',':'] := by decide
  unfold Rendering.path
  rw [String.toList_append,String.toList_append,String.toList_append,colons]
  exact ⟨_,rfl⟩

theorem hexMarked_text (r : Rendering) : hexMarked r.text = r.marked := by
  unfold hexMarked
  rw [text_toList]
  cases r.marked with
  | true => rfl
  | false =>
    -- The second character is a digit or the colon after the only one.
    refine Bool.eq_false_of_not_eq_true fun marks => ?_
    have mark : "0x".toList = ['0','x'] := by decide
    rw [mark] at marks
    obtain ⟨rest,split⟩ := List.isPrefixOf_iff_prefix.mp marks
    have second : some 'x' = (r.digits ++ r.path.toList)[1]? := congrArg (fun chars => chars[1]?) split
    cases digits : r.digits with
    | nil => exact absurd r.short.1 (by simp [digits])
    | cons d others =>
      rw [digits] at second
      cases others with
      | nil =>
        obtain ⟨rest,colon⟩ := path_toList r
        rw [colon] at second
        exact absurd (Option.some.inj second) (by decide)
      | cons e others =>
        have hex := r.hex e (by simp [digits])
        rw [← Option.some.inj second,x_not_hex] at hex
        cases hex

theorem normalizeType_text (r : Rendering) : normalizeType r.text = r.mark.text := by
  unfold normalizeType
  dsimp only
  rw [trim_of_trimmed (trimmed_text r),hexMarked_text]
  unfold Rendering.text
  cases r.marked with
  | true => rfl
  | false => exact (String.append_assoc ..).symm

theorem mark_text_eq (same : r.Same s) : r.mark.text = s.text ↔ r.digits = s.digits ∧ s.marked = true := by
  have path : r.mark.path = s.path := by
    unfold Rendering.path
    rw [← same.2.1,← same.2.2]
    rfl
  rw [← String.toList_inj,text_toList,text_toList,path,List.append_left_inj]
  cases s.marked with
  | true => simp [Rendering.mark]
  | false =>
    refine iff_of_false (fun same => ?_) fun both => by cases both.2
    have member : 'x' ∈ s.digits := by
      rw [← List.nil_append s.digits]
      exact same ▸ (by simp [Rendering.mark])
    have hex := s.hex _ member
    rw [x_not_hex] at hex
    cases hex

theorem mark_text_inj (same : r.Same s) : r.mark.text = s.mark.text ↔ r.digits = s.digits := by
  rw [mark_text_eq (s := s.mark) same]
  exact and_iff_left rfl

/-- The name is this text, within any wrappers. -/
inductive Names : Json → String → Prop
  | text (s : String) : Names (.text s) s
  | wrapped {fields : List (String × Json)} {val : Json} {s : String} (found : fields.lookup "name" = some val)
      (names : Names val s) : Names (.object fields) s

theorem typeNameIn_eq (fields : List (String × Json)) :
    typeNameIn fields = (fields.lookup "name").bind typeNameFromJson := by
  induction fields with
  | nil => rfl
  | cons field rest ih =>
    obtain ⟨key,val⟩ := field
    rw [typeNameIn,List.lookup_cons]
    by_cases here : key = "name"
    · subst here
      rw [if_pos rfl,beq_self_eq_true]
      rfl
    · rw [if_neg here,beq_eq_false_iff_ne.mpr (Ne.symm here)]
      exact ih

theorem typeNameFromJson_names {v : Json} {s : String} (names : Names v s) : typeNameFromJson v = some (normalizeType s) := by
  induction names with
  | text s => rfl
  | wrapped found names ih =>
    rw [typeNameFromJson,typeNameIn_eq,found]
    exact ih

/-- The keys of one coin type, read under two names. -/
theorem keys_agree {v w : Json} (one : Names v r.text) (other : Names w s.text) (same : r.Same s) :
    typeNameFromJson v = typeNameFromJson w ↔ r.digits = s.digits := by
  rw [typeNameFromJson_names one,typeNameFromJson_names other,normalizeType_text,normalizeType_text,Option.some.injEq]
  exact mark_text_inj same

end renderings

/-! What the operator writes and what a pool's type says is kept as it stands. -/
section sources

/-- The parts between the colons. -/
def splitColon (cur : List Char) : List Char → List (List Char)
  | [] => [cur]
  | c :: rest => if c = ':' then cur :: splitColon [] rest else splitColon (cur ++ [c]) rest

/-- Malformed entries are skipped. -/
def parseAssetMeta {F : Type} (parseF64 : String → Option F) (entries : List String) : List (AssetMeta F) :=
  entries.filterMap fun e => do
    let (coin,rest) ← splitOnce e
    let parts := (splitColon [] rest.toList).map fun part => trim (.ofList part)
    let decimals ← parts[0]?.bind (parseUnsigned 8)
    let liquidationThreshold ← parts[1]?.bind parseF64
    let borrowWeight ← parts[2]?.bind parseF64
    return ⟨trim coin,decimals.val,liquidationThreshold,borrowWeight⟩

variable {r s : Rendering}

theorem text_chars (r : Rendering) : ∀ c ∈ r.text.toList, isWord c = true ∨ c = ':' := by
  intro c member
  have colons : "::".toList = [':',':'] := by decide
  have mark : c ∈ (if r.marked then ['0','x'] else []) → isWord c = true := by
    split
    · intro listed
      simp only [List.mem_cons,List.not_mem_nil,or_false] at listed
      rcases listed with rfl | rfl <;> decide
    · exact fun listed => absurd listed List.not_mem_nil
  rw [text_toList,Rendering.path] at member
  simp only [String.toList_append,List.mem_append,colons,List.mem_cons,List.not_mem_nil,or_false,or_self] at member
  rcases member with (marked | digit) | ((colon | name) | colon) | name
  · exact .inl (mark marked)
  · exact .inl (by rw [isWord,hex_alphanum (r.hex c digit),Bool.true_or])
  · exact .inr colon
  · exact .inl ((identifier_words r.named.1).2 c name)
  · exact .inr colon
  · exact .inl ((identifier_words r.named.2).2 c name)

theorem text_lacks {d : Char} (other : isWord d = false) (no_colon : d ≠ ':') (r : Rendering) : d ∉ r.text.toList := by
  intro member
  rcases text_chars r d member with word | colon
  · rw [other] at word
    cases word
  · exact no_colon colon

theorem splitOnce_text (r : Rendering) (values : String) : splitOnce (r.text ++ "=" ++ values) = some (r.text,values) := by
  have before : ∀ c ∈ r.text.toList, (c != '=') = true := fun c member =>
    bne_iff_ne.mpr fun same => text_lacks (by decide) (by decide) r (same ▸ member)
  have equals : "=".toList = ['='] := by decide
  unfold splitOnce
  rw [String.toList_append,String.toList_append,equals,List.append_assoc,List.span_eq_takeWhile_dropWhile,
    List.takeWhile_append_of_pos before,List.dropWhile_append_of_pos before]
  simp

theorem parseAssetMeta_text {F : Type} {parseF64 : String → Option F} {values : String} {asset : AssetMeta F}
    (parsed : asset ∈ parseAssetMeta parseF64 [r.text ++ "=" ++ values]) : asset.coinType = r.text := by
  obtain ⟨e,listed,parsed⟩ := List.mem_filterMap.mp parsed
  obtain rfl := List.mem_singleton.mp listed
  simp only [splitOnce_text,Option.bind_eq_bind,Option.bind_some,Option.bind_eq_some_iff] at parsed
  obtain ⟨_,-,_,-,_,-,same⟩ := parsed
  obtain rfl := Option.some.inj same
  exact trim_of_trimmed (trimmed_text r)

/-- The type of a pool object, as the node presents it. -/
def poolType (pool : String) (a b : Rendering) (fee : Option Rendering) : String :=
  pool ++ "<" ++ a.text ++ ", " ++ b.text ++ (fee.elim "" fun fee => ", " ++ fee.text) ++ ">"

/-- The arguments as they stand between the brackets. -/
def poolArgs (a b : Rendering) (fee : Option Rendering) : String :=
  a.text ++ ", " ++ b.text ++ (fee.elim "" fun fee => ", " ++ fee.text)

theorem text_plain (r : Rendering) : ∀ c ∈ r.text.toList, c ≠ '<' ∧ c ≠ '>' ∧ c ≠ ',' := by
  intro c member
  refine ⟨?_,?_,?_⟩
  · rintro rfl
    exact text_lacks (by decide) (by decide) r member
  · rintro rfl
    exact text_lacks (by decide) (by decide) r member
  · rintro rfl
    exact text_lacks (by decide) (by decide) r member

theorem text_balanced {commas : Bool} (r : Rendering) : Balanced Ws.typeMarks commas r.text.toList := balanced_of_plain (text_plain r)

theorem balanced_spaces {commas : Bool} (count : ℕ) : Balanced Ws.typeMarks commas (spaces count) := by
  refine balanced_of_plain fun c member => ?_
  obtain rfl := List.eq_of_mem_replicate member
  exact ⟨by decide,by decide,by decide⟩

/-- An argument with the blanks in front of it. -/
def padded (blanks : ℕ) (r : Rendering) : List Char := spaces blanks ++ r.text.toList ++ spaces 0

theorem padded_balanced (blanks : ℕ) (r : Rendering) : Balanced Ws.typeMarks false (padded blanks r) :=
  ((balanced_spaces blanks).append (text_balanced r)).append (balanced_spaces 0)

theorem trim_text (blanks : ℕ) (r : Rendering) : trim (.ofList (padded blanks r)) = r.text :=
  (trim_padded (trimmed_text r) blanks 0).trans String.ofList_toList

theorem poolArgs_joined (r s : Rendering) (fee : Option Rendering) :
    (poolArgs r s fee).toList = joined Ws.typeMarks (padded 0 r :: padded 1 s :: fee.toList.map (padded 1)) := by
  have sep : ", ".toList = [',',' '] := by decide
  cases fee with
  | none => simp [poolArgs,sep,joined,padded,spaces,Ws.typeMarks]
  | some fee => simp [poolArgs,sep,joined,padded,spaces,Ws.typeMarks]

theorem topLevelParts_poolArgs (r s : Rendering) (fee : Option Rendering) :
    Ws.topLevelParts 0 [] (poolArgs r s fee).toList = r.text :: s.text :: fee.toList.map Rendering.text := by
  have each : ∀ part ∈ padded 0 r :: padded 1 s :: fee.toList.map (padded 1), Balanced Ws.typeMarks false part := by
    refine List.forall_mem_cons.mpr ⟨padded_balanced 0 r,List.forall_mem_cons.mpr ⟨padded_balanced 1 s,fun part member => ?_⟩⟩
    obtain ⟨fee,-,rfl⟩ := List.mem_map.mp member
    exact padded_balanced 1 fee
  rw [poolArgs_joined,Ws.topLevelParts_cut,cut_joined each (List.cons_ne_nil _ _)]
  simp [trim_text]

theorem genericArgs_poolType {pool : String} (plain : '<' ∉ pool.toList) (fee : Option Rendering) :
    Ws.genericArgs (poolType pool r s fee) = some (poolArgs r s fee).toList := by
  have opens : "<".toList = ['<'] := by decide
  have closes : ">".toList = ['>'] := by decide
  have text : poolType pool r s fee = .ofList (pool.toList ++ bracketed Ws.typeMarks (poolArgs r s fee).toList) := by
    apply String.toList_injective
    simp [poolType,poolArgs,opens,closes,bracketed,Ws.typeMarks]
  rw [text,Ws.genericArgs_bracketed plain]

theorem parsePoolTypeArgs_text {pool : String} (plain : '<' ∉ pool.toList) (fee : Option Rendering) :
    Ws.parsePoolTypeArgs (poolType pool r s fee) = .ok (r.text,s.text,fee.map Rendering.text) := by
  unfold Ws.parsePoolTypeArgs
  rw [genericArgs_poolType plain]
  change (do
    let parts := Ws.topLevelParts 0 [] (poolArgs r s fee).toList
    let a ← orBail "missing type_a" parts[0]?
    let b ← orBail "missing type_b" parts[1]?
    return (a,b,parts[2]?) : Anyhow (String × String × Option String)) = _
  rw [topLevelParts_poolArgs]
  cases fee <;> rfl

theorem decodePool_tokens {sdk : Sdk} {dex : Dex} {obj : SuiObjectResponse} {data : ObjectData} {pool : String}
    {fee : Option Rendering} {decoded : PoolState × Executor.LivePoolRef} (plain : '<' ∉ pool.toList) (some_data : obj.data = some data)
    (typed : data.type = some (poolType pool r s fee)) (ran : Ws.decodePool sdk dex obj = .ok decoded) :
    decoded.1.tokenA = r.text ∧ decoded.1.tokenB = s.text := by
  obtain ⟨_,read,ran⟩ := bind_ok.mp ran
  obtain rfl := Option.some.inj ((orBail_ok.mp read).symm.trans some_data)
  obtain ⟨_,read,ran⟩ := bind_ok.mp ran
  obtain rfl := Option.some.inj ((orBail_ok.mp read).symm.trans typed)
  rw [parsePoolTypeArgs_text plain fee,ok_bind] at ran
  obtain ⟨fields,-,ran⟩ := bind_ok.mp ran
  obtain ⟨sqrtPrice,-,ran⟩ := bind_ok.mp ran
  obtain ⟨liquidity,-,ran⟩ := bind_ok.mp ran
  obtain ⟨typeA,-,ran⟩ := bind_ok.mp ran
  obtain ⟨typeB,-,ran⟩ := bind_ok.mp ran
  obtain ⟨feeType,-,ran⟩ := bind_ok.mp ran
  obtain rfl := pure_ok.mp ran
  exact ⟨rfl,rfl⟩

end sources

section joins

/-- A position under this name has the parameters of each asset configured under that key
whose price is read. -/
def Priced (name : Json) (configured : TokenId) : Prop :=
  ∀ coinType, typeNameFromJson name = some coinType → ∀ (metas : List (AssetMeta ℚ)) prices params asset, asset ∈ metas →
    asset.coinType = configured → (prices asset.coinType).isSome → (refreshParams metas prices params coinType).isSome

/-- A position under this name is swapped, either way, by each pool that trades that token. -/
def Swapped (name : Json) (token : TokenId) : Prop :=
  ∀ coinType, typeNameFromJson name = some coinType → ∀ pools p other, p ∈ pools → Trades p token other →
    (findSwapBack pools coinType other).isSome ∧ (findSwapBack pools other coinType).isSome

variable {name : Json} {coinType key : TokenId}

theorem readPrices_isSome {prices : TokenId → Option ℚ} {metas : List (AssetMeta ℚ)} {asset : AssetMeta ℚ}
    (member : asset ∈ metas) (read : (prices asset.coinType).isSome) :
    (metas.foldl (readPrice prices) (fun _ => none) asset.coinType).isSome := by
  induction metas using List.reverseRecOn with
  | nil => cases member
  | append_singleton rest last ih =>
    rw [List.foldl_append,List.foldl_cons,List.foldl_nil]
    by_cases here : asset.coinType = last.coinType
    · rw [here] at read ⊢
      obtain ⟨price,found⟩ := Option.isSome_iff_exists.mp read
      simp [readPrice,found]
    · rw [readPrice_other here]
      rcases List.mem_append.mp member with before | now
      · exact ih before
      · exact absurd (congrArg AssetMeta.coinType (List.mem_singleton.mp now)) here

theorem priced_same_key (read : typeNameFromJson name = some coinType) : Priced name key ↔ coinType = key := by
  constructor
  · intro priced
    by_contra other
    have found := priced coinType read [⟨key,0,1,1⟩] (fun _ => some 1) (fun _ => none) ⟨key,0,1,1⟩ List.mem_cons_self rfl rfl
    rw [refreshParams_eq ⟨⟨key,0,1,1⟩,List.mem_cons_self,rfl⟩,List.foldl_cons,List.foldl_nil,readPrice_other other] at found
    cases found
  · rintro rfl other same metas prices params asset member rfl found
    obtain rfl := Option.some.inj (same.symm.trans read)
    rw [refreshParams_eq ⟨asset,member,found⟩]
    exact readPrices_isSome member found

theorem findSwapBack_isSome {pools : List PoolState} {collateral debt : TokenId} :
    (findSwapBack pools collateral debt).isSome ↔ ∃ p ∈ pools, Trades p collateral debt := by
  rw [findSwapBack_eq,List.findSome?_isSome_iff]
  exact exists_congr fun p => and_congr_right fun _ => swapBackOf_isSome

theorem swapped_same_key (read : typeNameFromJson name = some coinType) : Swapped name key ↔ coinType = key := by
  constructor
  · intro swapped
    -- A pool of the token with itself has no other key to match.
    have found := (swapped coinType read [.clmm "" .cetus key key ⟨0,0,0,[]⟩] _ key List.mem_cons_self
      ⟨⟨_,rfl⟩,.inl ⟨rfl,rfl⟩⟩).1
    obtain ⟨p,member,-,trades⟩ := findSwapBack_isSome.mp found
    obtain rfl := List.mem_singleton.mp member
    exact trades.elim (fun both => both.1.symm) fun both => both.1.symm
  · rintro rfl other same pools p token member trades
    obtain rfl := Option.some.inj (same.symm.trans read)
    refine ⟨findSwapBack_isSome.mpr ⟨p,member,trades⟩,findSwapBack_isSome.mpr ⟨p,member,trades.1,?_⟩⟩
    exact trades.2.symm.imp (fun both => both.symm) fun both => both.symm

end joins

/-- Two renderings of a coin type have one key if and only if they write the address with
the same digits, and a position joins what is kept under the second if and only if that
one is marked as well. -/
theorem coinTypes_iff {v w : Json} {r s : Rendering} (one : Names v r.text) (other : Names w s.text) (same : r.Same s) :
    (typeNameFromJson v = typeNameFromJson w ↔ r.digits = s.digits) ∧
      (Priced v s.text ↔ r.digits = s.digits ∧ s.marked = true) ∧
      (Swapped v s.text ↔ r.digits = s.digits ∧ s.marked = true) ∧
      ∀ text, normalizeType (normalizeType text) = normalizeType text := by
  have read := typeNameFromJson_names one
  rw [normalizeType_text] at read
  refine ⟨keys_agree one other same,?_,?_,normalizeType_normalizeType⟩
  · rw [priced_same_key read]
    exact mark_text_eq same
  · rw [swapped_same_key read]
    exact mark_text_eq same

def suiType (marked : Bool) (zeros : Fin 64) : Rendering where
  marked := marked
  digits := List.replicate zeros '0' ++ ['2']
  moduleName := "sui"
  typeName := "SUI"
  hex c member := by
    rcases List.mem_append.mp member with zero | two
    · rw [List.eq_of_mem_replicate zero]
      decide
    · rw [List.mem_singleton.mp two]
      decide
  short := by
    rw [List.length_append,List.length_replicate,List.length_singleton]
    omega
  named := by decide

theorem coinTypes_sui :
    let v := Json.object [("name",.text "2::sui::SUI")]
    (typeNameFromJson v = typeNameFromJson (.text "0x2::sui::SUI")) ∧
      Priced v "0x2::sui::SUI" ∧ Swapped v "0x2::sui::SUI" := by
  have texts : (suiType false 0).text = "2::sui::SUI" ∧ (suiType true 0).text = "0x2::sui::SUI" := by decide
  have same : (suiType false 0).Same (suiType true 0) := ⟨rfl,rfl,rfl⟩
  obtain ⟨keys,priced,swapped,-⟩ := coinTypes_iff (v := .object [("name",.text _)]) (.wrapped rfl (.text _)) (.text _) same
  rw [texts.1,texts.2] at *
  exact ⟨keys.mpr rfl,priced.mpr ⟨rfl,rfl⟩,swapped.mpr ⟨rfl,rfl⟩⟩

/-- The chain writes all the digits of an address, and a configured type may leave out
zeros: a position in SUI then has no parameters and no pool. -/
theorem padded_sui_differs : (suiType false 63).Same (suiType true 0) ∧ (suiType true 0).text = "0x2::sui::SUI" ∧
    typeNameFromJson (.text (suiType false 63).text) ≠ typeNameFromJson (.text "0x2::sui::SUI") ∧
    ¬ Priced (.text (suiType false 63).text) "0x2::sui::SUI" ∧ ¬ Swapped (.text (suiType false 63).text) "0x2::sui::SUI" := by
  have differ : normalizeType (suiType false 63).text ≠ "0x2::sui::SUI" := by decide +kernel
  refine ⟨⟨by decide +kernel,rfl,rfl⟩,by decide,by decide +kernel,?_,?_⟩
  · exact (priced_same_key rfl).not.mpr differ
  · exact (swapped_same_key rfl).not.mpr differ

end SuiArbitrage.Rust.Liquidation
