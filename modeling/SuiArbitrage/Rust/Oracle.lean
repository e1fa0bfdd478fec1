import SuiArbitrage.Rust.Core

/-! The accumulator format of `offchain/src/liquidation/oracle.rs`. -/
namespace SuiArbitrage.Rust.Oracle
open MachineWord Fallible

def pnau : List U8 := [80,78,65,85]

def extractVaaFromAccumulator (acc : List U8) : Anyhow (List U8) :=
  if header : 8 ≤ acc.length ∧ acc.take 4 = pnau then do
    have bound : 6 < acc.length := by omega
    let trailing := acc[6].val
    let cur := 7 + trailing + 1
    let hi ← orBail "accumulator truncated before vaa length" acc[cur]?
    let lo ← orBail "accumulator truncated before vaa length" acc[cur + 1]?
    let len := hi.val * 256 + lo.val
    if cur + 2 + len ≤ acc.length then .ok ((acc.drop (cur + 2)).take len)
    else bail ("vaa length " ++ toString len ++ " exceeds accumulator")
  else bail "not a PNAU accumulator update"

/-- An accumulator update. The header counts its trailing bytes in one byte, and the
length of the VAA stands before it in two. -/
structure Accumulator where
  major : U8
  minor : U8
  trailing : List U8
  updateType : U8
  vaa : List U8
  rest : List U8
  trailing_small : trailing.length < 2^8
  vaa_small : vaa.length < 2^16

namespace Accumulator
variable (update : Accumulator)

def size : U8 := ⟨update.trailing.length,update.trailing_small⟩

def lengthHigh : U8 := ⟨update.vaa.length / 256,by have := update.vaa_small; omega⟩

def lengthLow : U8 := ⟨update.vaa.length % 256,by omega⟩

/-- Its bytes, as the comment over the function lays them out. -/
def encode : List U8 :=
  pnau ++ update.major :: update.minor :: update.size ::
    (update.trailing ++ update.updateType :: update.lengthHigh :: update.lengthLow :: (update.vaa ++ update.rest))

theorem length_eq : update.lengthHigh.val * 256 + update.lengthLow.val = update.vaa.length :=
  Nat.div_add_mod' update.vaa.length 256

end Accumulator

section bytes
variable {acc vaa tail : List U8} {major minor size : U8}

theorem header_body (long : 8 ≤ acc.length) (magic : acc.take 4 = pnau) :
    ∃ major minor size tail, acc = pnau ++ major :: minor :: size :: tail := by
  have body : 3 ≤ (acc.drop 4).length := by simp; omega
  match kept : acc.drop 4, body with
  | major :: minor :: size :: tail, _ =>
    exact ⟨major,minor,size,tail,by rw [← magic,← kept,List.take_append_drop]⟩

theorem body_getElem? (i : ℕ) : (pnau ++ major :: minor :: size :: tail)[7 + i]? = tail[i]? := by
  rw [Nat.add_comm]
  rfl

theorem body_drop (i : ℕ) : (pnau ++ major :: minor :: size :: tail).drop (7 + i) = tail.drop i := by
  rw [Nat.add_comm]
  rfl

/-- What is read after the three bytes that follow the magic. -/
theorem extract_body : extractVaaFromAccumulator (pnau ++ major :: minor :: size :: tail) = .ok vaa ↔
    ∃ hi lo : U8, tail[size.val + 1]? = some hi ∧ tail[size.val + 2]? = some lo ∧
      size.val + 3 + (hi.val * 256 + lo.val) ≤ tail.length ∧ (tail.drop (size.val + 3)).take (hi.val * 256 + lo.val) = vaa := by
  have long : (pnau ++ major :: minor :: size :: tail).length = 7 + tail.length := by simp [pnau]; omega
  have sixth : (pnau ++ major :: minor :: size :: tail)[6]? = some size := rfl
  unfold extractVaaFromAccumulator
  split
  · rename_i header
    have read := (List.getElem?_eq_some_iff.mp sixth).2
    simp only [bind_ok,orBail_ok,read,Nat.add_assoc,body_getElem?,body_drop,Nat.reduceAdd,long,Nat.add_le_add_iff_left]
    refine ⟨fun ran => ?_,fun laid => ?_⟩
    · obtain ⟨hi,first,lo,second,ran⟩ := ran
      split at ran
      · rename_i fits
        exact ⟨hi,lo,first,second,by omega,Except.ok.inj ran⟩
      · cases ran
    · obtain ⟨hi,lo,first,second,fits,taken⟩ := laid
      exact ⟨hi,first,lo,second,by rw [if_pos (by omega),taken]⟩
  · rename_i other
    have short : tail = [] := by
      by_contra some_tail
      have := List.length_pos_iff.mpr some_tail
      exact other ⟨by omega,rfl⟩
    simp [short,bail]

/-- A tail with two length bytes begins with the trailing bytes and the type. -/
theorem tail_iff {count : ℕ} {hi lo : U8} : tail[count + 1]? = some hi ∧ tail[count + 2]? = some lo ↔
    ∃ trailing updateType body, trailing.length = count ∧ tail = trailing ++ updateType :: hi :: lo :: body := by
  refine ⟨fun read => ?_,fun laid => ?_⟩
  · obtain ⟨first,second⟩ := read
    rw [← List.getElem?_drop] at first second
    have long : count ≤ tail.length := by
      by_contra short
      rw [List.drop_eq_nil_of_le (by omega)] at first
      cases first
    match kept : tail.drop count, first, second with
    | updateType :: hi' :: lo' :: body, first, second =>
      obtain rfl := Option.some.inj first
      obtain rfl := Option.some.inj second
      exact ⟨tail.take count,updateType,body,List.length_take_of_le long,by rw [← kept,List.take_append_drop]⟩
  · obtain ⟨trailing,updateType,body,rfl,rfl⟩ := laid
    simp

theorem extract_ok : extractVaaFromAccumulator acc = .ok vaa ↔ ∃ update : Accumulator, update.encode = acc ∧ update.vaa = vaa := by
  refine ⟨fun ran => ?_,fun laid => ?_⟩
  · have header : 8 ≤ acc.length ∧ acc.take 4 = pnau := by
      by_contra other
      rw [extractVaaFromAccumulator,dif_neg other] at ran
      cases ran
    obtain ⟨major,minor,size,tail,rfl⟩ := header_body header.1 header.2
    obtain ⟨hi,lo,first,second,fits,taken⟩ := extract_body.mp ran
    obtain ⟨trailing,updateType,body,counted,split⟩ := tail_iff.mp ⟨first,second⟩
    have rest : tail.drop (size.val + 3) = body := by simp [split,← counted]
    have total : tail.length = size.val + 3 + body.length := by simp [split,counted]; omega
    rw [rest] at taken
    have vaa_length : vaa.length = hi.val * 256 + lo.val := by rw [← taken,List.length_take_of_le (by omega)]
    have high : vaa.length / 256 = hi.val := by omega
    have low : vaa.length % 256 = lo.val := by omega
    refine ⟨⟨major,minor,trailing,updateType,vaa,body.drop (hi.val * 256 + lo.val),by omega,by omega⟩,?_,rfl⟩
    simp only [Accumulator.encode,Accumulator.size,Accumulator.lengthHigh,Accumulator.lengthLow,counted,high,low,Fin.eta]
    rw [split,← taken,List.take_append_drop]
  · obtain ⟨update,rfl,rfl⟩ := laid
    refine extract_body.mpr ⟨update.lengthHigh,update.lengthLow,?_⟩
    obtain ⟨first,second⟩ := tail_iff.mpr ⟨update.trailing,update.updateType,update.vaa ++ update.rest,rfl,rfl⟩
    refine ⟨first,second,?_⟩
    rw [update.length_eq]
    simp [Accumulator.size]
    omega

theorem raises_orBail {α : Type} (message : String) (x : Option α) :
    Raises (fun stop => ∃ chain, stop = .error chain) (orBail message x) := by
  intro stop failed
  cases x with
  | none => exact ⟨_,(Except.error.inj failed).symm⟩
  | some value => cases failed

theorem raises_bail {α : Type} (message : String) :
    Raises (fun stop => ∃ chain, stop = .error chain) (bail message : Anyhow α) := raises_orBail message none

theorem extract_raises : Raises (fun stop => ∃ chain, stop = .error chain) (extractVaaFromAccumulator acc) := by
  unfold extractVaaFromAccumulator
  split
  · refine (raises_orBail _ _).bind fun hi _ => (raises_orBail _ _).bind fun lo _ => Raises.ite ?_ ?_
    · exact raises_ok _
    · exact raises_bail _
  · exact raises_bail _

end bytes

/-- The VAA is taken from exactly the bytes of the format, and all others are an error. -/
theorem extractVaaFromAccumulator_layout (acc : List U8) :
    (∀ vaa, extractVaaFromAccumulator acc = .ok vaa ↔ ∃ update : Accumulator, update.encode = acc ∧ update.vaa = vaa) ∧
      ((¬ ∃ update : Accumulator, update.encode = acc) → ∃ chain, extractVaaFromAccumulator acc = .error (.error chain)) ∧
      ∀ message, extractVaaFromAccumulator acc ≠ .error (.panic message) := by
  refine ⟨fun vaa => extract_ok,fun other => ?_,fun message panics => ?_⟩
  · have failed : ¬ ∃ vaa, extractVaaFromAccumulator acc = .ok vaa := by
      intro ran
      obtain ⟨vaa,ran⟩ := ran
      obtain ⟨update,laid,-⟩ := extract_ok.mp ran
      exact other ⟨update,laid⟩
    obtain ⟨stop,failed⟩ := not_ok_iff.mp failed
    obtain ⟨chain,rfl⟩ := extract_raises stop failed
    exact ⟨chain,failed⟩
  · obtain ⟨chain,impossible⟩ := extract_raises _ panics
    cases impossible

/-- The layout of the tests: an empty trailing header, then the length and the bytes. -/
example : extractVaaFromAccumulator (pnau ++ [1,0,0,0,0,3,7,8,9]) = .ok [7,8,9] := by decide +kernel

end SuiArbitrage.Rust.Oracle
