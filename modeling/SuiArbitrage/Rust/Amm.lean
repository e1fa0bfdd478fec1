import SuiArbitrage.Rust.Core
import SuiArbitrage.Move.Math

/-! The constant-product pricing of `offchain/src/amm.rs`, and when it agrees with
the Move functions it mirrors. -/
namespace SuiArbitrage.Rust.Amm
open MachineWord Fallible

def feeDenom : U64 := 10000

def getAmountOut (build : Build) (amountIn reserveIn reserveOut feeBps : U64) : Rust (Option U64) := do
  if amountIn = 0 ∨ reserveIn = 0 ∨ reserveOut = 0 ∨ feeDenom ≤ feeBps then
    return none
  let kept ← sub build feeDenom feeBps
  let amountInWithFee ← mul build (u128 amountIn) (u128 kept)
  let numerator ← mul build amountInWithFee (u128 reserveOut)
  let scaledReserve ← mul build (u128 reserveIn) (u128 feeDenom)
  let denominator ← add build scaledReserve amountInWithFee
  let quotient ← div numerator denominator
  return some (asU64 quotient)

def getAmountIn (build : Build) (amountOut reserveIn reserveOut feeBps : U64) : Rust (Option U64) := do
  if amountOut = 0 ∨ reserveIn = 0 ∨ reserveOut ≤ amountOut ∨ feeDenom ≤ feeBps then
    return none
  let product ← mul build (u128 reserveIn) (u128 amountOut)
  let numerator ← mul build product (u128 feeDenom)
  let rest ← sub build reserveOut amountOut
  let kept ← sub build feeDenom feeBps
  let denominator ← mul build (u128 rest) (u128 kept)
  let quotient ← div numerator denominator
  return some (← add build (asU64 quotient) 1)

section out
variable {build : Build} {amountIn reserveIn reserveOut feeBps : U64}

open Move.Math (Quotable exactOut)

@[simp] theorem feeDenom_val : feeDenom.val = 10000 := rfl

def scaledInput (amountIn feeBps : U64) : ℕ := amountIn.val * (10000 - feeBps.val)

theorem getAmountOut_quotable (quotable : Quotable amountIn reserveIn reserveOut feeBps) :
    getAmountOut build amountIn reserveIn reserveOut feeBps =
      (word build 128 (scaledInput amountIn feeBps * reserveOut.val : ℕ)).map fun numerator =>
        some (wrap 64 (numerator.val / (reserveIn.val * 10000 + scaledInput amountIn feeBps) : ℕ)) := by
  obtain ⟨amountPos,inPos,outPos,feeLt⟩ := quotable
  have accepted : ¬ (amountIn = 0 ∨ reserveIn = 0 ∨ reserveOut = 0 ∨ feeDenom ≤ feeBps) := by
    simp only [Fin.ext_iff,Fin.le_def,feeDenom_val,Fin.val_zero]
    omega
  have inputLe : scaledInput amountIn feeBps ≤ amountIn.val * 10000 := Nat.mul_le_mul_left _ (by omega)
  have kept : sub build feeDenom feeBps = .ok ⟨10000 - feeBps.val,by omega⟩ := sub_of_le feeLt.le
  have input : mul build (u128 amountIn) (u128 ⟨10000 - feeBps.val,by omega⟩) =
      .ok ⟨scaledInput amountIn feeBps,by omega⟩ := mul_of_lt _
  have scaled : mul build (u128 reserveIn) (u128 feeDenom) = .ok ⟨reserveIn.val * 10000,by omega⟩ := mul_of_lt _
  have sum : add build (⟨reserveIn.val * 10000,by omega⟩ : U128) ⟨scaledInput amountIn feeBps,by omega⟩ =
      .ok ⟨reserveIn.val * 10000 + scaledInput amountIn feeBps,by omega⟩ := add_of_lt _
  simp only [getAmountOut,accepted,if_false,pure_eq_ok,ok_bind,kept,input,scaled]
  rw [mul,u128_val,← Nat.cast_mul]
  cases word build 128 (scaledInput amountIn feeBps * reserveOut.val : ℕ) with
  | error fault => rfl
  | ok numerator =>
    rw [ok_bind,sum,ok_bind,div_of_pos (Nat.add_pos_left (Nat.mul_pos inPos (by norm_num)) _)]
    rfl

theorem getAmountOut_degenerate (degenerate : ¬ Quotable amountIn reserveIn reserveOut feeBps) :
    getAmountOut build amountIn reserveIn reserveOut feeBps = .ok none := by
  have refused : amountIn = 0 ∨ reserveIn = 0 ∨ reserveOut = 0 ∨ feeDenom ≤ feeBps := by
    simp only [Fin.ext_iff,Fin.le_def,feeDenom_val,Fin.val_zero]
    unfold Quotable at degenerate
    omega
  simp [getAmountOut,refused]

theorem getAmountOut_of_fits (build : Build) (quotable : Quotable amountIn reserveIn reserveOut feeBps)
    (fits : scaledInput amountIn feeBps * reserveOut.val < 2^128) :
    ∃ out, getAmountOut build amountIn reserveIn reserveOut feeBps = .ok (some out) ∧
      out.val = exactOut amountIn reserveIn reserveOut feeBps := by
  have below : exactOut amountIn reserveIn reserveOut feeBps < 2^64 :=
    (Move.Math.exactOut_lt_reserve quotable).trans reserveOut.isLt
  rw [getAmountOut_quotable quotable,word_of_fits fits]
  exact ⟨_,rfl,wrap_val_of_lt below⟩

theorem getAmountOut_fits (quotable : Quotable amountIn reserveIn reserveOut feeBps) {result : Option U64}
    (ok : getAmountOut .debug amountIn reserveIn reserveOut feeBps = .ok result) :
    scaledInput amountIn feeBps * reserveOut.val < 2^128 := by
  by_contra large
  have overflow : word .debug 128 (scaledInput amountIn feeBps * reserveOut.val : ℕ) = panic (.arithmetic 128) :=
    if_pos ⟨rfl,fun inside => large (fits_natCast.mp inside)⟩
  rw [getAmountOut_quotable quotable,overflow] at ok
  cases ok

theorem getAmountOut_debug {out : U64}
    (ok : getAmountOut .debug amountIn reserveIn reserveOut feeBps = .ok (some out)) :
    Quotable amountIn reserveIn reserveOut feeBps ∧ out.val = exactOut amountIn reserveIn reserveOut feeBps := by
  by_cases quotable : Quotable amountIn reserveIn reserveOut feeBps
  · obtain ⟨exact,computed,value⟩ := getAmountOut_of_fits .debug quotable (getAmountOut_fits quotable ok)
    obtain rfl := Option.some.inj (Except.ok.inj (computed.symm.trans ok))
    exact ⟨quotable,value⟩
  · rw [getAmountOut_degenerate quotable] at ok
    cases ok

/-- A larger input that is quoted without overflow has an output, and no smaller one. -/
theorem getAmountOut_larger {larger out : U64} {result : Option U64} (ordered : amountIn ≤ larger)
    (ok : getAmountOut .debug amountIn reserveIn reserveOut feeBps = .ok (some out))
    (ran : getAmountOut .debug larger reserveIn reserveOut feeBps = .ok result) :
    ∃ more, result = some more ∧ out ≤ more := by
  obtain ⟨quotable,outEq⟩ := getAmountOut_debug ok
  have quotable' : Quotable larger reserveIn reserveOut feeBps :=
    ⟨lt_of_lt_of_le quotable.1 ordered,quotable.2.1,quotable.2.2.1,quotable.2.2.2⟩
  obtain ⟨more,computed,moreEq⟩ := getAmountOut_of_fits .debug quotable' (getAmountOut_fits quotable' ran)
  refine ⟨more,Except.ok.inj (ran.symm.trans computed),?_⟩
  rw [Fin.le_def,outEq,moreEq]
  exact ConstantProduct.floorOutput_mono (by norm_num) quotable.2.1 ordered

/-- Where wrapping changes a quote it lowers it. -/
theorem getAmountOut_le {out : U64}
    (ok : getAmountOut build amountIn reserveIn reserveOut feeBps = .ok (some out)) :
    Quotable amountIn reserveIn reserveOut feeBps ∧
      out.val ≤ exactOut amountIn reserveIn reserveOut feeBps := by
  by_cases quotable : Quotable amountIn reserveIn reserveOut feeBps
  · rw [getAmountOut_quotable quotable] at ok
    cases computed : word build 128 (scaledInput amountIn feeBps * reserveOut.val : ℕ) with
    | error fault =>
      rw [computed] at ok
      cases ok
    | ok numerator =>
      rw [computed] at ok
      obtain rfl := Option.some.inj (Except.ok.inj ok)
      refine ⟨quotable,(wrap_natCast_le _ _).trans ?_⟩
      exact Nat.div_le_div_right (word_le computed)
  · rw [getAmountOut_degenerate quotable] at ok
    cases ok

/-- No quote beats the spot price of its pool. -/
theorem getAmountOut_le_spot {out : U64}
    (ok : getAmountOut build amountIn reserveIn reserveOut feeBps = .ok (some out)) :
    out.val * reserveIn.val ≤ amountIn.val * reserveOut.val := by
  obtain ⟨⟨-,inPos,-,-⟩,atMost⟩ := getAmountOut_le ok
  have spot : exactOut amountIn reserveIn reserveOut feeBps * reserveIn.val ≤ amountIn.val * reserveOut.val :=
    ConstantProduct.floorOutput_le_spot (by norm_num) (Nat.sub_le 10000 feeBps.val) inPos
  exact (Nat.mul_le_mul_right _ atMost).trans spot

end out

section parity
variable {amountIn amountOut reserveIn reserveOut feeBps : U64}

open Move.Math (Quotable Requestable exactOut neededIn)

theorem getAmountIn_degenerate {build : Build} (degenerate : ¬ Requestable amountOut reserveIn reserveOut feeBps) :
    getAmountIn build amountOut reserveIn reserveOut feeBps = .ok none := by
  have refused : amountOut = 0 ∨ reserveIn = 0 ∨ reserveOut ≤ amountOut ∨ feeDenom ≤ feeBps := by
    simp only [Fin.ext_iff,Fin.le_def,feeDenom_val,Fin.val_zero]
    unfold Requestable at degenerate
    omega
  simp [getAmountIn,refused]

theorem getAmountIn_release (requestable : Requestable amountOut reserveIn reserveOut feeBps) :
    getAmountIn .release amountOut reserveIn reserveOut feeBps = .ok (some (wrap 64
      ((wrap 64 (reserveIn.val * amountOut.val * 10000 % 2^128 /
        ((reserveOut.val - amountOut.val) * (10000 - feeBps.val)) : ℕ)).val + 1))) := by
  obtain ⟨amountPos,inPos,outPos,feeLt⟩ := requestable
  have accepted : ¬ (amountOut = 0 ∨ reserveIn = 0 ∨ reserveOut ≤ amountOut ∨ feeDenom ≤ feeBps) := by
    simp only [Fin.ext_iff,Fin.le_def,feeDenom_val,Fin.val_zero]
    omega
  have productLe : reserveIn.val * amountOut.val ≤ (2^64 - 1) * (2^64 - 1) :=
    Nat.mul_le_mul (by omega) (by omega)
  have denominatorLe : (reserveOut.val - amountOut.val) * (10000 - feeBps.val) ≤ (2^64 - 1) * 10000 :=
    Nat.mul_le_mul (by omega) (by omega)
  have denominatorPos : 0 < (reserveOut.val - amountOut.val) * (10000 - feeBps.val) :=
    Nat.mul_pos (by omega) (by omega)
  have product : mul .release (u128 reserveIn) (u128 amountOut) =
      .ok ⟨reserveIn.val * amountOut.val,by omega⟩ := mul_of_lt _
  have numerator : mul .release (⟨reserveIn.val * amountOut.val,by omega⟩ : U128) (u128 feeDenom) =
      .ok (wrap 128 (reserveIn.val * amountOut.val * 10000 : ℕ)) := by
    rw [mul,word_release]
    rfl
  have rest : sub .release reserveOut amountOut = .ok ⟨reserveOut.val - amountOut.val,by omega⟩ :=
    sub_of_le outPos.le
  have kept : sub .release feeDenom feeBps = .ok ⟨10000 - feeBps.val,by omega⟩ := sub_of_le feeLt.le
  have denominator : mul .release (u128 ⟨reserveOut.val - amountOut.val,by omega⟩)
      (u128 ⟨10000 - feeBps.val,by omega⟩) =
      .ok ⟨(reserveOut.val - amountOut.val) * (10000 - feeBps.val),by omega⟩ := mul_of_lt _
  simp only [getAmountIn,accepted,if_false,pure_eq_ok,ok_bind,product,rest,kept]
  rw [numerator,ok_bind,denominator,ok_bind,div_of_pos denominatorPos,ok_bind,add,word_release,ok_bind]
  simp only [asU64,wrap_natCast]
  rfl

/-- A quote agrees with the chain where one returns a value exactly when the other
does, and nothing exactly when the other aborts. -/
def Agrees (quote : Rust (Option U64)) (chain : Move.Exec U64) : Prop :=
  (∀ amount, quote = .ok (some amount) ↔ chain = .ok amount) ∧
  (quote = .ok none ↔ ∃ abort, chain = .error abort)

theorem agrees_of_none {quote : Rust (Option U64)} {chain : Move.Exec U64} (nothing : quote = .ok none)
    (aborts : ¬ ∃ amount, chain = .ok amount) : Agrees quote chain := by
  refine ⟨fun amount => ?_,?_⟩
  · rw [nothing]
    exact ⟨nofun,fun ok => absurd ⟨amount,ok⟩ aborts⟩
  · rw [nothing]
    exact ⟨fun _ => not_ok_iff.mp aborts,fun _ => rfl⟩

theorem agrees_of_some {quote : Rust (Option U64)} {chain : Move.Exec U64} {amount : U64}
    (quoted : quote = .ok (some amount)) : Agrees quote chain ↔ chain = .ok amount := by
  constructor
  · intro agrees
    exact (agrees.1 amount).mp quoted
  · intro ok
    rw [quoted,ok]
    refine ⟨fun other => ?_,?_⟩
    · simp
    · simp

theorem getAmountOut_agrees_iff :
    Agrees (getAmountOut .release amountIn reserveIn reserveOut feeBps)
        (Move.Math.getAmountOut amountIn reserveIn reserveOut feeBps) ↔
      ¬ Quotable amountIn reserveIn reserveOut feeBps ∨
        amountIn.val * (10000 - feeBps.val) * reserveOut.val < 2^128 := by
  by_cases quotable : Quotable amountIn reserveIn reserveOut feeBps
  · rw [agrees_of_some (by rw [getAmountOut_quotable quotable,word_release]; rfl),Move.Math.getAmountOut_ok]
    simp only [quotable,not_true_eq_false,true_and,false_or]
    constructor
    · rintro ⟨fits,-⟩
      exact fits
    · intro fits
      obtain ⟨out,quoted,outEq⟩ := getAmountOut_of_fits .release quotable fits
      rw [getAmountOut_quotable quotable,word_release] at quoted
      exact ⟨fits,(congrArg Fin.val (Option.some.inj (Except.ok.inj quoted))).trans outEq⟩
  · simp only [quotable,not_false_eq_true,true_or,iff_true]
    apply agrees_of_none (getAmountOut_degenerate quotable)
    rintro ⟨amount,ok⟩
    exact quotable (Move.Math.getAmountOut_ok.mp ok).1

theorem getAmountIn_agrees_iff :
    Agrees (getAmountIn .release amountOut reserveIn reserveOut feeBps)
        (Move.Math.getAmountIn amountOut reserveIn reserveOut feeBps) ↔
      ¬ Requestable amountOut reserveIn reserveOut feeBps ∨
        (reserveIn.val * amountOut.val * 10000 < 2^128 ∧
          neededIn amountOut reserveIn reserveOut feeBps + 1 < 2^64) := by
  by_cases requestable : Requestable amountOut reserveIn reserveOut feeBps
  · rw [agrees_of_some (getAmountIn_release requestable),Move.Math.getAmountIn_ok]
    simp only [requestable,not_true_eq_false,true_and,false_or]
    constructor
    · rintro ⟨fits,resultEq⟩
      exact ⟨fits,resultEq ▸ Fin.isLt _⟩
    · rintro ⟨fits,small⟩
      refine ⟨fits,?_⟩
      have quotient : neededIn amountOut reserveIn reserveOut feeBps < 2^64 := by omega
      rw [Nat.mod_eq_of_lt fits]
      change (wrap 64 ((wrap 64 ((neededIn amountOut reserveIn reserveOut feeBps : ℕ) : ℤ)).val + 1)).val = _
      rw [wrap_val_of_lt quotient]
      exact wrap_val_of_lt small
  · simp only [requestable,not_false_eq_true,true_or,iff_true]
    apply agrees_of_none (getAmountIn_degenerate requestable)
    rintro ⟨amount,ok⟩
    exact requestable (Move.Math.getAmountIn_ok.mp ok).1

/-- Exactly where each of the two release-build functions mirrors its Move original. -/
theorem quotes_agree_iff (amount reserveIn reserveOut feeBps : U64) :
    (Agrees (getAmountOut .release amount reserveIn reserveOut feeBps)
        (Move.Math.getAmountOut amount reserveIn reserveOut feeBps) ↔
      ¬ Quotable amount reserveIn reserveOut feeBps ∨
        amount.val * (10000 - feeBps.val) * reserveOut.val < 2^128) ∧
    (Agrees (getAmountIn .release amount reserveIn reserveOut feeBps)
        (Move.Math.getAmountIn amount reserveIn reserveOut feeBps) ↔
      ¬ Requestable amount reserveIn reserveOut feeBps ∨
        (reserveIn.val * amount.val * 10000 < 2^128 ∧
          neededIn amount reserveIn reserveOut feeBps + 1 < 2^64)) :=
  ⟨getAmountOut_agrees_iff,getAmountIn_agrees_iff⟩

theorem getAmountOut_disagrees :
    let large : U64 := 1000000000000000000
    getAmountOut .release large large large 30 = .ok (some 5098215287570583) ∧
      Move.Math.getAmountOut large large large 30 = .error .arithmetic ∧
      ¬ Agrees (getAmountOut .release large large large 30) (Move.Math.getAmountOut large large large 30) := by
  intro large
  have quoted : getAmountOut .release large large large 30 = .ok (some 5098215287570583) := by
    decide +kernel
  have aborts : Move.Math.getAmountOut large large large 30 = .error .arithmetic := by decide +kernel
  refine ⟨quoted,aborts,fun agrees => ?_⟩
  have returned := (agrees.1 _).mp quoted
  rw [aborts] at returned
  cases returned

end parity

end SuiArbitrage.Rust.Amm
