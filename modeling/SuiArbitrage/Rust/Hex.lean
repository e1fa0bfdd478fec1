import SuiArbitrage.Lib.TextSlices
import SuiArbitrage.Rust.Oracle

/-! The hex decoder of `offchain/src/liquidation/oracle.rs`. It cuts the text at byte
offsets, and reads each piece with the parser of signed and unsigned integers. -/
namespace SuiArbitrage.Rust.Oracle
open MachineWord Fallible TextSlices
open String (utf8Len)

/-- `char::to_digit` in base 16. -/
def hexDigit (c : Char) : Option ℕ :=
  if '0' ≤ c ∧ c ≤ '9' then some (c.toNat - '0'.toNat)
  else if 'a' ≤ c ∧ c ≤ 'f' then some (c.toNat - 'a'.toNat + 10)
  else if 'A' ≤ c ∧ c ≤ 'F' then some (c.toNat - 'A'.toNat + 10)
  else none

def pushDigit (n : U8) (c : Char) : Except String U8 :=
  match hexDigit c with
  | none => .error "invalid digit found in string"
  | some d => if h : n.val * 16 + d < 2^8 then .ok ⟨n.val * 16 + d,h⟩ else .error "number too large to fit in target type"

/-- `u8::from_str_radix` in base 16. As every integer parser of Rust it takes a sign. -/
def fromStrRadix16 : List Char → Except String U8
  | [] => .error "cannot parse integer from empty string"
  | ['+'] => .error "invalid digit found in string"
  | '+' :: digits => digits.foldlM pushDigit 0
  | digits => digits.foldlM pushDigit 0

/-- The text after an optional `0x`. -/
def stripped (s : String) : List Char :=
  match s.toList with
  | '0' :: 'x' :: rest => rest
  | text => text

def parsePair (pair : List Char) : Anyhow U8 :=
  match fromStrRadix16 pair with
  | .ok byte => .ok byte
  | .error e => bail ("bad hex: " ++ e)

/-- The byte that two bytes of the text spell. A slice that splits a character is a panic, of
whose message only the kind is kept. -/
def decodePair (text : List Char) (i : ℕ) : Anyhow U8 :=
  match slice text i (i + 2) with
  | none => .error (.panic "not a char boundary")
  | some pair => parsePair pair

/-- The bytes at the offsets 0, 2, and so on. -/
def decodePairs (text : List Char) (count : ℕ) : Anyhow (List U8) :=
  ((List.range count).map (2 * ·)).mapM (decodePair text)

def decodeHex (s : String) : Anyhow (List U8) :=
  let text := stripped s
  if utf8Len text % 2 ≠ 0 then bail "odd-length hex from Hermes"
  else decodePairs text (utf8Len text / 2)

def lowerDigits : List Char := ['0','1','2','3','4','5','6','7','8','9','a','b','c','d','e','f']

def upperDigits : List Char := ['0','1','2','3','4','5','6','7','8','9','A','B','C','D','E','F']

/-- A digit, in either case, and its value. -/
def Denotes (c : Char) (value : ℕ) : Prop := lowerDigits[value]? = some c ∨ upperDigits[value]? = some c

instance (c : Char) (value : ℕ) : Decidable (Denotes c value) :=
  inferInstanceAs (Decidable (lowerDigits[value]? = some c ∨ upperDigits[value]? = some c))

/-- Two hexadecimal digits and their byte. -/
def HexPair (pair : Char × Char) (byte : U8) : Prop :=
  ∃ high low, Denotes pair.1 high ∧ Denotes pair.2 low ∧ byte.val = high * 16 + low

def joined (pairs : List (Char × Char)) : List Char := pairs.flatMap fun pair => [pair.1,pair.2]

/-- The text is the hexadecimal form of the bytes. -/
def HexOf (text : List Char) (bytes : List U8) : Prop := ∃ pairs, text = joined pairs ∧ List.Forall₂ HexPair pairs bytes

section digits
variable {c : Char} {value : ℕ}

theorem Denotes.small (denotes : Denotes c value) : value < 16 := by
  rcases denotes with found | found
  · exact (List.getElem?_eq_some_iff.mp found).1
  · exact (List.getElem?_eq_some_iff.mp found).1

theorem hexDigit_ascii (digit : hexDigit c = some value) : c.toNat < 128 := by
  have below {top : Char} (under : c ≤ top) (ascii : top.toNat < 128) : c.toNat < 128 := lt_of_le_of_lt under ascii
  unfold hexDigit at digit
  split at digit
  · rename_i range
    exact below range.2 (by decide)
  · split at digit
    · rename_i range
      exact below range.2 (by decide)
    · split at digit
      · rename_i range
        exact below range.2 (by decide)
      · cases digit

theorem hexDigit_denotes : hexDigit c = some value ↔ Denotes c value := by
  refine ⟨fun digit => ?_,fun denotes => ?_⟩
  · have every : ∀ n < 128, ∀ d ∈ hexDigit (Char.ofNat n), Denotes (Char.ofNat n) d := by decide
    have here := every c.toNat (hexDigit_ascii digit)
    rw [Char.ofNat_toNat] at here
    exact here value digit
  · have small : value < 16 := denotes.small
    have lower : ∀ d < 16, lowerDigits[d]?.bind hexDigit = some d := by decide
    have upper : ∀ d < 16, upperDigits[d]?.bind hexDigit = some d := by decide
    rcases denotes with found | found
    · have read := lower value small
      rwa [found,Option.bind_some] at read
    · have read := upper value small
      rwa [found,Option.bind_some] at read

theorem Denotes.size (denotes : Denotes c value) : c.utf8Size = 1 := by
  have lower : ∀ d < 16, lowerDigits[d]?.map Char.utf8Size = some 1 := by decide
  have upper : ∀ d < 16, upperDigits[d]?.map Char.utf8Size = some 1 := by decide
  have small := denotes.small
  rcases denotes with found | found
  · have size := lower value small
    rwa [found,Option.map_some,Option.some.injEq] at size
  · have size := upper value small
    rwa [found,Option.map_some,Option.some.injEq] at size

end digits

section pairs

/-- A piece that the parser reads: two digits, or a plus sign and a digit. -/
def Number (pair : Char × Char) (byte : U8) : Prop :=
  ∃ high low, (pair.1 = '+' ∧ high = 0 ∨ Denotes pair.1 high) ∧ Denotes pair.2 low ∧ byte.val = high * 16 + low

/-- The first two bytes end inside a character. -/
def Splits (text : List Char) : Prop :=
  ∃ c rest, text = c :: rest ∧ (2 < c.utf8Size ∨ c.utf8Size = 1 ∧ ∃ d, rest.head? = some d ∧ 1 < d.utf8Size)

variable {text front rest : List Char} {pair : Char × Char} {byte n : U8} {c : Char}

theorem pushDigit_ok : pushDigit n c = .ok byte ↔ ∃ d, Denotes c d ∧ byte.val = n.val * 16 + d := by
  unfold pushDigit
  constructor
  · intro pushed
    cases digit : hexDigit c with
    | none =>
      rw [digit] at pushed
      cases pushed
    | some d =>
      simp only [digit] at pushed
      split at pushed
      · obtain rfl := Except.ok.inj pushed
        exact ⟨d,hexDigit_denotes.mp digit,rfl⟩
      · cases pushed
  · intro denoted
    obtain ⟨d,denotes,value⟩ := denoted
    rw [hexDigit_denotes.mpr denotes]
    dsimp only
    rw [dif_pos (value ▸ byte.isLt)]
    congr 1
    exact Fin.ext value.symm

theorem plus_not_digit {value : ℕ} : ¬ Denotes '+' value := by
  rw [← hexDigit_denotes]
  simp [hexDigit]

theorem fromStrRadix16_pair : fromStrRadix16 [pair.1,pair.2] = .ok byte ↔ Number pair byte := by
  obtain ⟨first,second⟩ := pair
  by_cases sign : first = '+'
  · simp [fromStrRadix16,Number,sign,plus_not_digit,bind_ok,pushDigit_ok]
  · simp only [fromStrRadix16,sign,Number,List.foldlM_cons,List.foldlM_nil,bind_ok,pushDigit_ok,pure_ok,false_and,false_or,
      Fin.val_zero,zero_mul,zero_add,List.cons.injEq,IsEmpty.forall_iff,implies_true]
    refine ⟨fun pushed => ?_,fun number => ?_⟩
    · obtain ⟨n,⟨high,denotes,value⟩,_,⟨low,second_denotes,total⟩,rfl⟩ := pushed
      exact ⟨high,low,denotes,second_denotes,value ▸ total⟩
    · obtain ⟨high,low,denotes,second_denotes,total⟩ := number
      exact ⟨⟨high,denotes.small.trans (by norm_num)⟩,⟨high,denotes,rfl⟩,byte,⟨low,second_denotes,total⟩,rfl⟩

theorem Number.sizes (number : Number pair byte) : pair.1.utf8Size = 1 ∧ pair.2.utf8Size = 1 := by
  obtain ⟨high,low,sign | denotes,second,-⟩ := number
  · rw [sign.1]
    exact ⟨rfl,second.size⟩
  · exact ⟨denotes.size,second.size⟩

/-- Two bytes are one character or two. -/
theorem two_bytes (two : utf8Len front = 2) : (∃ c, front = [c] ∧ c.utf8Size = 2) ∨
    ∃ c d, front = [c,d] ∧ c.utf8Size = 1 ∧ d.utf8Size = 1 := by
  match front, two with
  | [c], two => exact .inl ⟨c,rfl,by simpa using two⟩
  | [c,d], two =>
    have first := c.utf8Size_pos
    have second := d.utf8Size_pos
    simp only [String.utf8Len_cons,String.utf8Len_nil] at two
    exact .inr ⟨c,d,rfl,by omega,by omega⟩
  | c :: d :: e :: more, two =>
    have first := c.utf8Size_pos
    have second := d.utf8Size_pos
    have third := e.utf8Size_pos
    simp only [String.utf8Len_cons] at two
    omega

theorem not_splits (two : utf8Len front = 2) : ¬ Splits (front ++ rest) := by
  intro splits
  obtain ⟨c,tail,shape,wide⟩ := splits
  rcases two_bytes two with ⟨a,rfl,size⟩ | ⟨a,b,rfl,first,second⟩
  · obtain ⟨rfl,rfl⟩ := List.cons.inj shape
    omega
  · obtain ⟨rfl,rfl⟩ := List.cons.inj shape
    rcases wide with wide | ⟨-,d,head,wide⟩
    · omega
    · obtain rfl := Option.some.inj head
      omega

theorem splits_or (text : List Char) (long : 2 ≤ utf8Len text) :
    Splits text ∨ ∃ front rest, text = front ++ rest ∧ utf8Len front = 2 := by
  match text with
  | [] => simp at long
  | [c] =>
    by_cases wide : 2 < c.utf8Size
    · exact .inl ⟨c,[],rfl,.inl wide⟩
    · simp only [String.utf8Len_cons,String.utf8Len_nil] at long
      exact .inr ⟨[c],[],rfl,by simp; omega⟩
  | c :: d :: more =>
    have first := c.utf8Size_pos
    have second := d.utf8Size_pos
    by_cases wide : 2 < c.utf8Size
    · exact .inl ⟨c,d :: more,rfl,.inl wide⟩
    · by_cases both : c.utf8Size = 2
      · exact .inr ⟨[c],d :: more,rfl,by simpa using both⟩
      · by_cases inside : 1 < d.utf8Size
        · exact .inl ⟨c,d :: more,rfl,.inr ⟨by omega,d,rfl,inside⟩⟩
        · exact .inr ⟨[c,d],more,rfl,by simp; omega⟩

end pairs

section decode
variable {text front rest : List Char} {pairs : List (Char × Char)} {bytes : List U8} {byte : U8} {count : ℕ}

/-- A pair of which the parser makes a byte. -/
def Readable (pair : Char × Char) : Prop := (pair.1 = '+' ∨ ∃ high, Denotes pair.1 high) ∧ ∃ low, Denotes pair.2 low

theorem number_iff {pair : Char × Char} : (∃ byte, Number pair byte) ↔ Readable pair := by
  refine ⟨fun number => ?_,fun readable => ?_⟩
  · obtain ⟨byte,high,low,sign | denotes,second,-⟩ := number
    · exact ⟨.inl sign.1,low,second⟩
    · exact ⟨.inr ⟨high,denotes⟩,low,second⟩
  · obtain ⟨first,low,second⟩ := readable
    have below := second.small
    rcases first with sign | ⟨high,denotes⟩
    · exact ⟨⟨low,by omega⟩,0,low,.inl ⟨sign,rfl⟩,second,by simp⟩
    · have small := denotes.small
      exact ⟨⟨high * 16 + low,by omega⟩,high,low,.inr denotes,second,rfl⟩

theorem parsePair_ok : parsePair front = .ok byte ↔ fromStrRadix16 front = .ok byte := by
  unfold parsePair
  cases fromStrRadix16 front with
  | ok value => simp
  | error e => simp [bail]

theorem parsePair_not_panic (front : List Char) (message : String) : parsePair front ≠ .error (.panic message) := by
  unfold parsePair
  cases fromStrRadix16 front with
  | ok value => exact nofun
  | error e => simp [bail]

theorem decodePair_zero (two : utf8Len front = 2) : decodePair (front ++ rest) 0 = parsePair front := by
  have first : slice (front ++ rest) 0 2 = some front := by
    rw [slice,dropBytes_zero,Option.bind_some,← two]
    exact takeBytes_append
  rw [decodePair,first]

theorem decodePair_succ (two : utf8Len front = 2) (i : ℕ) :
    decodePair (front ++ rest) (2 * (i + 1)) = decodePair rest (2 * i) := by
  have shifted : slice (front ++ rest) (utf8Len front + 2 * i) (utf8Len front + (2 * i + 2)) = slice rest (2 * i) (2 * i + 2) :=
    slice_append
  have place : 2 * (i + 1) = 2 + 2 * i := by ring
  rw [two] at shifted
  rw [decodePair,decodePair,place,Nat.add_assoc,shifted]

theorem decodePair_splits (splits : Splits text) : decodePair text 0 = .error (.panic "not a char boundary") := by
  have none_taken : slice text 0 2 = none := by
    rw [slice,dropBytes_zero,Option.bind_some,Option.eq_none_iff_forall_ne_some]
    intro front taken
    obtain ⟨rest,rfl,two⟩ := takeBytes_some.mp taken
    exact not_splits two splits
  rw [decodePair,none_taken]

theorem decodePairs_succ (two : utf8Len front = 2) : decodePairs (front ++ rest) (count + 1) =
    parsePair front >>= fun byte => decodePairs rest count >>= fun bytes => .ok (byte :: bytes) := by
  have first : decodePair (front ++ rest) 0 = parsePair front := decodePair_zero two
  simp only [decodePairs,List.range_succ_eq_map,List.map_cons,List.map_map,List.mapM_cons,List.mapM_map,Function.comp_def,
    decodePair_succ two,mul_zero,Nat.succ_eq_add_one,pure_eq_ok,first]

theorem decodePairs_splits (splits : Splits text) :
    decodePairs text (count + 1) = .error (.panic "not a char boundary") := by
  simp only [decodePairs,List.range_succ_eq_map,List.map_cons,List.mapM_cons,mul_zero,decodePair_splits splits,error_bind]

/-- A panic after the first piece is a panic on the rest. -/
theorem decodePairs_succ_panic (two : utf8Len front = 2) {message : String} :
    decodePairs (front ++ rest) (count + 1) = .error (.panic message) ↔
      ∃ byte, parsePair front = .ok byte ∧ decodePairs rest count = .error (.panic message) := by
  rw [decodePairs_succ two]
  refine ⟨fun panics => ?_,fun panics => ?_⟩
  · rcases bind_error.mp panics with parsed | ⟨byte,parsed,panics⟩
    · exact absurd parsed (parsePair_not_panic front message)
    · rcases bind_error.mp panics with later | ⟨bytes,-,panics⟩
      · exact ⟨byte,parsed,later⟩
      · cases panics
  · obtain ⟨byte,parsed,later⟩ := panics
    rw [parsed,ok_bind,later,error_bind]

theorem joined_cons {pair : Char × Char} : joined (pair :: pairs) = [pair.1,pair.2] ++ joined pairs := rfl

theorem number_front (two : utf8Len front = 2) (parsed : parsePair front = .ok byte) :
    ∃ pair, front = [pair.1,pair.2] ∧ Number pair byte := by
  rw [parsePair_ok] at parsed
  rcases two_bytes two with ⟨c,rfl,size⟩ | ⟨c,d,rfl,-,-⟩
  · have other : c ≠ '+' := by
      rintro rfl
      cases size
    simp only [fromStrRadix16,List.cons.injEq,other,false_and,imp_self,implies_true,List.foldlM_cons,List.foldlM_nil,bind_ok,
      pushDigit_ok] at parsed
    obtain ⟨_,⟨d,denotes,-⟩,-⟩ := parsed
    rw [denotes.size] at size
    cases size
  · exact ⟨(c,d),rfl,fromStrRadix16_pair.mp parsed⟩

theorem Number.two {pair : Char × Char} (number : Number pair byte) : utf8Len [pair.1,pair.2] = 2 := by
  simp [number.sizes]

/-- The bytes come from pieces that are all numbers. -/
theorem decodePairs_ok (even : utf8Len text = 2 * count) :
    decodePairs text count = .ok bytes ↔ ∃ pairs, text = joined pairs ∧ List.Forall₂ Number pairs bytes := by
  induction count generalizing text bytes with
  | zero =>
    obtain rfl := String.utf8Len_eq_zero.mp even
    refine ⟨fun ran => ?_,fun read => ?_⟩
    · obtain rfl := Except.ok.inj ran
      exact ⟨[],rfl,.nil⟩
    · obtain ⟨pairs,spelt,numbers⟩ := read
      cases numbers with
      | nil => rfl
      | cons first later => cases spelt
  | succ count ih =>
    refine ⟨fun ran => ?_,fun read => ?_⟩
    · rcases splits_or text (by omega) with splits | ⟨front,rest,rfl,two⟩
      · rw [decodePairs_splits splits] at ran
        cases ran
      · rw [decodePairs_succ two] at ran
        simp only [bind_ok] at ran
        obtain ⟨byte,parsed,later,ran,made⟩ := ran
        obtain rfl := Except.ok.inj made
        obtain ⟨pair,rfl,number⟩ := number_front two parsed
        rw [String.utf8Len_append,two] at even
        obtain ⟨pairs,rfl,numbers⟩ := (ih (by omega)).mp ran
        exact ⟨pair :: pairs,rfl,.cons number numbers⟩
    · obtain ⟨pairs,rfl,numbers⟩ := read
      cases numbers with
      | nil => cases even
      | @cons pair byte pairs later number numbers =>
        rw [joined_cons,String.utf8Len_append,number.two] at even
        have ran : decodePairs (joined pairs) count = .ok later := (ih (by omega)).mpr ⟨pairs,rfl,numbers⟩
        rw [joined_cons,decodePairs_succ number.two,parsePair_ok.mpr (fromStrRadix16_pair.mpr number),ok_bind,ran,ok_bind]

theorem decodePairs_panics (even : utf8Len text = 2 * count) : (∃ message, decodePairs text count = .error (.panic message)) ↔
    ∃ pairs rest, text = joined pairs ++ rest ∧ (∀ pair ∈ pairs, Readable pair) ∧ Splits rest := by
  induction count generalizing text with
  | zero =>
    obtain rfl := String.utf8Len_eq_zero.mp even
    refine ⟨fun panics => ?_,fun read => ?_⟩
    · obtain ⟨message,ran⟩ := panics
      cases ran
    · obtain ⟨pairs,rest,spelt,-,c,more,rfl,-⟩ := read
      cases List.append_eq_nil_iff.mp spelt.symm |>.2
  | succ count ih =>
    refine ⟨fun panics => ?_,fun read => ?_⟩
    · rcases splits_or text (by omega) with splits | ⟨front,rest,rfl,two⟩
      · exact ⟨[],text,rfl,List.forall_mem_nil _,splits⟩
      · obtain ⟨message,ran⟩ := panics
        obtain ⟨byte,parsed,later⟩ := (decodePairs_succ_panic two).mp ran
        obtain ⟨pair,rfl,number⟩ := number_front two parsed
        rw [String.utf8Len_append,two] at even
        obtain ⟨pairs,rest,rfl,readable,splits⟩ := (ih (by omega)).mp ⟨message,later⟩
        exact ⟨pair :: pairs,rest,rfl,List.forall_mem_cons.mpr ⟨number_iff.mp ⟨byte,number⟩,readable⟩,splits⟩
    · obtain ⟨pairs,rest,rfl,readable,splits⟩ := read
      cases pairs with
      | nil => exact ⟨_,decodePairs_splits splits⟩
      | cons pair pairs =>
        obtain ⟨first,readable⟩ := List.forall_mem_cons.mp readable
        obtain ⟨byte,number⟩ := number_iff.mpr first
        rw [joined_cons,List.append_assoc,String.utf8Len_append,number.two] at even
        obtain ⟨message,ran⟩ := (ih (by omega)).mpr ⟨pairs,rest,rfl,readable,splits⟩
        have parsed : parsePair [pair.1,pair.2] = .ok byte := parsePair_ok.mpr (fromStrRadix16_pair.mpr number)
        rw [joined_cons,List.append_assoc]
        exact ⟨message,(decodePairs_succ_panic number.two).mpr ⟨byte,parsed,ran⟩⟩

theorem joined_injective : Function.Injective joined := by
  intro pairs
  induction pairs with
  | nil =>
    intro others same
    cases others with
    | nil => rfl
    | cons other others => cases same
  | cons pair pairs ih =>
    intro others same
    cases others with
    | nil => cases same
    | cons other others =>
      simp only [joined_cons,List.cons_append,List.nil_append,List.cons.injEq] at same
      obtain ⟨first,second,later⟩ := same
      rw [ih later,Prod.ext first second]

theorem HexPair.number {pair : Char × Char} (hex : HexPair pair byte) : Number pair byte := by
  obtain ⟨high,low,first,second,value⟩ := hex
  exact ⟨high,low,.inr first,second,value⟩

theorem Number.hexPair {pair : Char × Char} (number : Number pair byte) (unsigned : pair.1 ≠ '+') : HexPair pair byte := by
  obtain ⟨high,low,sign | first,second,value⟩ := number
  · exact absurd sign.1 unsigned
  · exact ⟨high,low,first,second,value⟩

theorem HexPair.unsigned {pair : Char × Char} (hex : HexPair pair byte) : pair.1 ≠ '+' := by
  intro sign
  obtain ⟨high,low,first,-⟩ := hex
  exact plus_not_digit (sign ▸ first)

theorem numbers_readable (numbers : List.Forall₂ Number pairs bytes) : ∀ pair ∈ pairs, Readable pair := by
  have both := numbers.imp fun _ byte number => And.intro (number_iff.mp ⟨byte,number⟩) number
  exact (List.forall₂_and_left _ _).mp both |>.1

theorem readable_numbers (readable : ∀ pair ∈ pairs, Readable pair) : ∃ bytes, List.Forall₂ Number pairs bytes := by
  induction pairs with
  | nil => exact ⟨[],.nil⟩
  | cons pair pairs ih =>
    obtain ⟨first,later⟩ := List.forall_mem_cons.mp readable
    obtain ⟨byte,number⟩ := number_iff.mpr first
    obtain ⟨bytes,numbers⟩ := ih later
    exact ⟨byte :: bytes,.cons number numbers⟩

/-- The numbers without a sign are hexadecimal. -/
theorem hexPairs_iff : List.Forall₂ HexPair pairs bytes ↔ (∀ pair ∈ pairs, pair.1 ≠ '+') ∧ List.Forall₂ Number pairs bytes := by
  rw [← List.forall₂_and_left]
  refine ⟨fun hex => ?_,fun numbers => ?_⟩
  · exact hex.imp fun _ _ hex => ⟨hex.unsigned,hex.number⟩
  · exact numbers.imp fun _ _ number => number.2.hexPair number.1

theorem HexOf.even (hex : HexOf text bytes) : utf8Len text = 2 * bytes.length := by
  obtain ⟨pairs,rfl,spelt⟩ := hex
  induction spelt with
  | nil => rfl
  | cons first later ih =>
    rw [joined_cons,String.utf8Len_append,first.number.two,ih,List.length_cons]
    ring

theorem HexOf.decoded (hex : HexOf text bytes) : decodePairs text (utf8Len text / 2) = .ok bytes := by
  have even := hex.even
  obtain ⟨pairs,spelt,numbers⟩ := hex
  exact (decodePairs_ok (by omega)).mpr ⟨pairs,spelt,numbers.imp fun _ _ => HexPair.number⟩

theorem HexOf.stripped {s : String} (hex : HexOf s.toList bytes) : stripped s = s.toList := by
  unfold Oracle.stripped
  split
  · rename_i rest shape
    obtain ⟨pairs,text,spelt⟩ := hex
    rw [text] at shape
    cases spelt with
    | nil => cases shape
    | cons first later =>
      obtain ⟨high,low,-,second,-⟩ := first
      simp only [joined_cons,List.cons_append,List.nil_append,List.cons.injEq] at shape
      rw [shape.2.1,← hexDigit_denotes] at second
      cases second
  · rfl

end decode

/-- Decoding accepts the hexadecimal texts with their bytes, and all others are errors. -/
structure Exact (s : String) : Prop where
  accepts : ∀ bytes, decodeHex s = .ok bytes ↔ HexOf (stripped s) bytes
  rejects : (¬ ∃ bytes, HexOf (stripped s) bytes) → ∃ chain, decodeHex s = .error (.error chain)
  no_panic : ∀ message, decodeHex s ≠ .error (.panic message)

/-- The pieces read as numbers up to a split character, or to the end, with a sign. -/
def Misread (text : List Char) : Prop :=
  ∃ pairs rest, text = joined pairs ++ rest ∧ (∀ pair ∈ pairs, Readable pair) ∧
    (Splits rest ∨ rest = [] ∧ ∃ pair ∈ pairs, pair.1 = '+')

section exact
variable {s : String}

theorem exact_of_odd (odd : utf8Len (stripped s) % 2 ≠ 0) : Exact s := by
  have refused : decodeHex s = bail "odd-length hex from Hermes" := if_pos odd
  refine ⟨fun bytes => ?_,fun _ => ⟨_,refused⟩,fun message => ?_⟩
  · rw [refused]
    refine ⟨nofun,fun hex => ?_⟩
    have even := hex.even
    omega
  · rw [refused]
    exact nofun

theorem exact_of_not_misread (even : utf8Len (stripped s) % 2 = 0) (read : ¬ Misread (stripped s)) : Exact s := by
  have ran : decodeHex s = decodePairs (stripped s) (utf8Len (stripped s) / 2) := if_neg (not_not.mpr even)
  have accepts (bytes : List U8) : decodeHex s = .ok bytes ↔ HexOf (stripped s) bytes := by
    rw [ran]
    refine ⟨fun decoded => ?_,fun hex => hex.decoded⟩
    obtain ⟨pairs,spelt,numbers⟩ := (decodePairs_ok (by omega)).mp decoded
    have unsigned : ∀ pair ∈ pairs, pair.1 ≠ '+' := by
      intro pair member sign
      exact read ⟨pairs,[],by rw [List.append_nil,spelt],numbers_readable numbers,.inr ⟨rfl,pair,member,sign⟩⟩
    exact ⟨pairs,spelt,hexPairs_iff.mpr ⟨unsigned,numbers⟩⟩
  have no_panic (message : String) : decodeHex s ≠ .error (.panic message) := by
    rw [ran]
    intro panics
    obtain ⟨pairs,rest,spelt,readable,splits⟩ := (decodePairs_panics (by omega)).mp ⟨message,panics⟩
    exact read ⟨pairs,rest,spelt,readable,.inl splits⟩
  refine ⟨accepts,fun other => ?_,no_panic⟩
  cases result : decodeHex s with
  | ok bytes => exact absurd ⟨bytes,(accepts bytes).mp result⟩ other
  | error stop =>
    cases stop with
    | error chain => exact ⟨chain,rfl⟩
    | panic message => exact absurd result (no_panic message)

theorem not_misread_of_exact (even : utf8Len (stripped s) % 2 = 0) (exact_s : Exact s) : ¬ Misread (stripped s) := by
  have half : utf8Len (stripped s) = 2 * (utf8Len (stripped s) / 2) := by omega
  have ran : decodeHex s = decodePairs (stripped s) (utf8Len (stripped s) / 2) := if_neg (not_not.mpr even)
  intro misread
  obtain ⟨pairs,rest,spelt,readable,splits | ⟨rfl,pair,member,sign⟩⟩ := misread
  · obtain ⟨message,panics⟩ := (decodePairs_panics half).mpr ⟨pairs,rest,spelt,readable,splits⟩
    exact exact_s.no_panic message (ran.trans panics)
  · rw [List.append_nil] at spelt
    obtain ⟨bytes,numbers⟩ := readable_numbers readable
    have decoded := ran.trans ((decodePairs_ok half).mpr ⟨pairs,spelt,numbers⟩)
    obtain ⟨others,same,hex⟩ := (exact_s.accepts bytes).mp decoded
    obtain rfl : pairs = others := joined_injective (spelt.symm.trans same)
    exact (hexPairs_iff.mp hex).1 pair member sign

end exact

/-- Decoding is exact unless the text is of even length and misread. It undoes every
hexadecimal form, with the prefix and without. -/
theorem decodeHex_exact (s : String) : (Exact s ↔ utf8Len (stripped s) % 2 ≠ 0 ∨ ¬ Misread (stripped s)) ∧
    ∀ bytes, HexOf s.toList bytes → decodeHex s = .ok bytes ∧ decodeHex ("0x" ++ s) = .ok bytes := by
  refine ⟨?_,fun bytes hex => ?_⟩
  · by_cases even : utf8Len (stripped s) % 2 = 0
    · refine ⟨fun exact_s => .inr (not_misread_of_exact even exact_s),fun condition => ?_⟩
      exact exact_of_not_misread even (condition.resolve_left (not_not.mpr even))
    · exact iff_of_true (exact_of_odd even) (.inl even)
  · have even : utf8Len s.toList % 2 = 0 := by
      have := hex.even
      omega
    have prefixed : stripped ("0x" ++ s) = s.toList := by
      have mark : "0x".toList = ['0','x'] := by decide +kernel
      simp [stripped,mark]
    rw [decodeHex,decodeHex,hex.stripped,prefixed]
    exact ⟨(if_neg (not_not.mpr even)).trans hex.decoded,(if_neg (not_not.mpr even)).trans hex.decoded⟩

/-- The first text is read as 15. The second has a character across its first pair. -/
theorem decodeHex_inexact : ¬ Exact "+f" ∧ ¬ Exact "1\u00e91" := by
  refine ⟨fun exact_s => ?_,fun exact_s => ?_⟩
  · have read : decodeHex "+f" = .ok [15] := by decide +kernel
    have text : stripped "+f" = ['+','f'] := by decide +kernel
    obtain ⟨pairs,spelt,hex⟩ := (exact_s.accepts [15]).mp read
    rw [text] at spelt
    cases hex with
    | cons first later => exact first.unsigned (List.cons.inj spelt).1.symm
  · have panics : decodeHex "1\u00e91" = .error (.panic "not a char boundary") := by decide +kernel
    exact exact_s.no_panic _ panics

end SuiArbitrage.Rust.Oracle
