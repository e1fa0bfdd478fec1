import SuiArbitrage.Lib.ConstantProduct
import SuiArbitrage.Move.Core

/-! The constant-product pricing functions of `sources/math.move`. -/
namespace SuiArbitrage.Move.Math
open MachineWord Fallible ConstantProduct

def feeDenom : U64 := 10000

def eZeroInput : ℕ := 100
def eInsufficientLiquidity : ℕ := 101
def eBadFee : ℕ := 102

def getAmountOut (amountIn reserveIn reserveOut feeBps : U64) : Exec U64 := do
  assert (0 < amountIn) .math eZeroInput
  assert (0 < reserveIn ∧ 0 < reserveOut) .math eInsufficientLiquidity
  assert (feeBps < feeDenom) .math eBadFee
  let kept ← checkedSub feeDenom feeBps
  let amountInWithFee ← checked 128 (amountIn.val * kept.val)
  let numerator ← checked 128 (amountInWithFee.val * reserveOut.val)
  let scaledReserve ← checked 128 (reserveIn.val * feeDenom.val)
  let denominator ← checked 128 (scaledReserve.val + amountInWithFee.val)
  let quotient ← checkedDiv numerator denominator
  checked 64 quotient.val

def getAmountIn (amountOut reserveIn reserveOut feeBps : U64) : Exec U64 := do
  assert (0 < amountOut) .math eZeroInput
  assert (0 < reserveIn ∧ amountOut < reserveOut) .math eInsufficientLiquidity
  assert (feeBps < feeDenom) .math eBadFee
  let product ← checked 128 (reserveIn.val * amountOut.val)
  let numerator ← checked 128 (product.val * feeDenom.val)
  let rest ← checkedSub reserveOut amountOut
  let kept ← checkedSub feeDenom feeBps
  let denominator ← checked 128 (rest.val * kept.val)
  let quotient ← checkedDiv numerator denominator
  let truncated ← checked 64 quotient.val
  checked 64 (truncated.val + 1)

@[simp] theorem feeDenom_val : feeDenom.val = 10000 := rfl

abbrev exactOut (amountIn reserveIn reserveOut feeBps : U64) : ℕ :=
  floorOutput 10000 (10000 - feeBps.val) amountIn.val reserveIn.val reserveOut.val

def Quotable (amountIn reserveIn reserveOut feeBps : U64) : Prop :=
  0 < amountIn.val ∧ 0 < reserveIn.val ∧ 0 < reserveOut.val ∧ feeBps.val < 10000

instance (amountIn reserveIn reserveOut feeBps : U64) :
    Decidable (Quotable amountIn reserveIn reserveOut feeBps) :=
  inferInstanceAs (Decidable (_ ∧ _ ∧ _ ∧ _))

/-- A quote succeeds exactly on quotable arguments whose numerator fits in 128
bits; every other check of the function follows from these. -/
theorem getAmountOut_ok {amountIn reserveIn reserveOut feeBps result : U64} :
    getAmountOut amountIn reserveIn reserveOut feeBps = .ok result ↔
      Quotable amountIn reserveIn reserveOut feeBps ∧
      amountIn.val * (10000 - feeBps.val) * reserveOut.val < 2^128 ∧
      result.val = exactOut amountIn reserveIn reserveOut feeBps := by
  have amountBound := amountIn.isLt
  have reserveBound := reserveIn.isLt
  have outBound := reserveOut.isLt
  constructor
  · intro ok
    simp only [getAmountOut,bind_ok,assert_ok,checked_ok,checkedSub_ok,checkedDiv_ok,
      exists_const,Fin.lt_def,feeDenom_val] at ok
    obtain ⟨amountPos,⟨inPos,outPos⟩,feeLt,kept,keptEq,input,inputEq,numerator,numeratorEq,
      scaled,scaledEq,denominator,denominatorEq,quotient,⟨-,quotientEq⟩,resultEq⟩ := ok
    have keptVal : kept.val = 10000 - feeBps.val := by omega
    refine ⟨⟨amountPos,inPos,outPos,feeLt⟩,?_,?_⟩
    · have bound := numerator.isLt
      rw [← numeratorEq,← inputEq,keptVal] at bound
      exact bound
    · rw [← resultEq,quotientEq,← numeratorEq,← denominatorEq,← scaledEq,← inputEq,keptVal]
      rfl
  · rintro ⟨⟨amountPos,inPos,outPos,feeLt⟩,fits,resultEq⟩
    have inputLe : amountIn.val * (10000 - feeBps.val) ≤ amountIn.val * 10000 :=
      Nat.mul_le_mul_left _ (by omega)
    have input : amountIn.val * (10000 - feeBps.val) < 2^128 := by omega
    simp only [getAmountOut,bind_ok,assert_ok,checked_ok,checkedSub_ok,checkedDiv_ok,
      exists_const,Fin.lt_def,feeDenom_val]
    refine ⟨amountPos,⟨inPos,outPos⟩,feeLt,⟨10000 - feeBps.val,by omega⟩,by simp only []; omega,
      ⟨_,input⟩,rfl,⟨_,fits⟩,rfl,⟨reserveIn.val * 10000,by omega⟩,rfl,
      ⟨reserveIn.val * 10000 + amountIn.val * (10000 - feeBps.val),by omega⟩,rfl,
      ⟨exactOut amountIn reserveIn reserveOut feeBps,?_⟩,⟨by simp only []; omega,rfl⟩,resultEq.symm⟩
    have := result.isLt
    omega

theorem raises_getAmountOut {amountIn reserveIn reserveOut feeBps : U64}
    (quotable : Quotable amountIn reserveIn reserveOut feeBps) :
    Raises (· = .arithmetic) (getAmountOut amountIn reserveIn reserveOut feeBps) := by
  obtain ⟨amountPos,inPos,outPos,feeLt⟩ := quotable
  exact (raises_assert amountPos).bind fun _ _ => (raises_assert ⟨inPos,outPos⟩).bind fun _ _ =>
    (raises_assert feeLt).bind fun _ _ => (raises_checkedSub _ _).bind fun _ _ => (raises_checked _ _).bind fun _ _ =>
      (raises_checked _ _).bind fun _ _ => (raises_checked _ _).bind fun _ _ => (raises_checked _ _).bind fun _ _ =>
        (raises_checkedDiv _ _).bind fun _ _ => raises_checked _ _

theorem exactOut_lt_reserve {amountIn reserveIn reserveOut feeBps : U64}
    (quotable : Quotable amountIn reserveIn reserveOut feeBps) :
    exactOut amountIn reserveIn reserveOut feeBps < reserveOut.val :=
  floorOutput_lt_reserve (by norm_num) quotable.2.1 quotable.2.2.1

def Requestable (amountOut reserveIn reserveOut feeBps : U64) : Prop :=
  0 < amountOut.val ∧ 0 < reserveIn.val ∧ amountOut.val < reserveOut.val ∧ feeBps.val < 10000

instance (amountOut reserveIn reserveOut feeBps : U64) :
    Decidable (Requestable amountOut reserveIn reserveOut feeBps) :=
  inferInstanceAs (Decidable (_ ∧ _ ∧ _ ∧ _))

/-- The input before the last unit that rounds it up. -/
def neededIn (amountOut reserveIn reserveOut feeBps : U64) : ℕ :=
  reserveIn.val * amountOut.val * 10000 / ((reserveOut.val - amountOut.val) * (10000 - feeBps.val))

theorem getAmountIn_ok {amountOut reserveIn reserveOut feeBps result : U64} :
    getAmountIn amountOut reserveIn reserveOut feeBps = .ok result ↔
      Requestable amountOut reserveIn reserveOut feeBps ∧
      reserveIn.val * amountOut.val * 10000 < 2^128 ∧
      result.val = neededIn amountOut reserveIn reserveOut feeBps + 1 := by
  constructor
  · intro ok
    simp only [getAmountIn,bind_ok,assert_ok,checked_ok,checkedSub_ok,checkedDiv_ok,
      exists_const,Fin.lt_def,feeDenom_val] at ok
    obtain ⟨amountPos,⟨inPos,outPos⟩,feeLt,product,productEq,numerator,numeratorEq,rest,restEq,
      kept,keptEq,denominator,denominatorEq,quotient,⟨-,quotientEq⟩,truncated,truncatedEq,resultEq⟩ := ok
    have restVal : rest.val = reserveOut.val - amountOut.val := by omega
    have keptVal : kept.val = 10000 - feeBps.val := by omega
    refine ⟨⟨amountPos,inPos,outPos,feeLt⟩,?_,?_⟩
    · have bound := numerator.isLt
      rw [← numeratorEq,← productEq] at bound
      exact bound
    · rw [← resultEq,← truncatedEq,quotientEq,← numeratorEq,← denominatorEq,← productEq,restVal,keptVal]
      rfl
  · rintro ⟨⟨amountPos,inPos,outPos,feeLt⟩,fits,resultEq⟩
    have product : reserveIn.val * amountOut.val ≤ (2^64 - 1) * (2^64 - 1) :=
      Nat.mul_le_mul (by omega) (by omega)
    have denominator : (reserveOut.val - amountOut.val) * (10000 - feeBps.val) ≤ (2^64 - 1) * 10000 :=
      Nat.mul_le_mul (by omega) (by omega)
    have positive : 0 < (reserveOut.val - amountOut.val) * (10000 - feeBps.val) :=
      Nat.mul_pos (by omega) (by omega)
    have bound := result.isLt
    simp only [getAmountIn,bind_ok,assert_ok,checked_ok,checkedSub_ok,checkedDiv_ok,
      exists_const,Fin.lt_def,feeDenom_val]
    exact ⟨amountPos,⟨inPos,outPos⟩,feeLt,⟨_,by omega⟩,rfl,⟨_,fits⟩,rfl,
      ⟨reserveOut.val - amountOut.val,by omega⟩,Nat.sub_add_cancel outPos.le,
      ⟨10000 - feeBps.val,by omega⟩,Nat.sub_add_cancel feeLt.le,
      ⟨(reserveOut.val - amountOut.val) * (10000 - feeBps.val),by omega⟩,rfl,
      ⟨neededIn amountOut reserveIn reserveOut feeBps,by omega⟩,⟨positive.ne',rfl⟩,
      ⟨neededIn amountOut reserveIn reserveOut feeBps,by omega⟩,rfl,resultEq.symm⟩

section inverse
variable {amountIn amountOut reserveIn reserveOut feeBps : U64}

/-- An input pays for an output exactly where it reaches the quotient of `getAmountIn`
rounded up. -/
theorem le_exactOut_iff (requestable : Requestable amountOut reserveIn reserveOut feeBps) :
    amountOut.val ≤ exactOut amountIn reserveIn reserveOut feeBps ↔
      reserveIn.val * amountOut.val * 10000 ≤
        amountIn.val * ((reserveOut.val - amountOut.val) * (10000 - feeBps.val)) := by
  obtain ⟨-,inPos,outPos,-⟩ := requestable
  rw [exactOut,le_floorOutput_iff (by norm_num) inPos outPos.le,Nat.mul_left_comm amountOut.val,← Nat.mul_assoc,
    Nat.mul_assoc amountIn.val,Nat.mul_comm (10000 - feeBps.val)]

/-- The asked input is enough, and all that it asks beyond need is its last unit. -/
theorem getAmountIn_tight {asked : U64} (ok : getAmountIn amountOut reserveIn reserveOut feeBps = .ok asked) :
    (∀ paid, getAmountOut asked reserveIn reserveOut feeBps = .ok paid → amountOut ≤ paid) ∧
      ∀ amount paid : U64, 1 ≤ amount → amount.val ≤ asked.val - 2 →
        getAmountOut amount reserveIn reserveOut feeBps = .ok paid → paid < amountOut := by
  obtain ⟨requestable,-,askedEq⟩ := getAmountIn_ok.mp ok
  have positive : 0 < (reserveOut.val - amountOut.val) * (10000 - feeBps.val) :=
    Nat.mul_pos (Nat.sub_pos_of_lt requestable.2.2.1) (Nat.sub_pos_of_lt requestable.2.2.2)
  refine ⟨fun paid quoted => ?_,fun amount paid some_in few quoted => ?_⟩
  · obtain ⟨-,-,paidEq⟩ := getAmountOut_ok.mp quoted
    rw [Fin.le_def,paidEq,le_exactOut_iff requestable,askedEq,neededIn]
    exact (Nat.lt_div_mul_add positive).le.trans (Nat.add_one_mul _ _).ge
  · obtain ⟨-,-,paidEq⟩ := getAmountOut_ok.mp quoted
    rw [Fin.lt_def,paidEq,← not_le,le_exactOut_iff requestable,not_le]
    have least : 1 ≤ amount.val := some_in
    have fewer : amount.val + 1 ≤ neededIn amountOut reserveIn reserveOut feeBps := by omega
    have reached : (amount.val + 1) * ((reserveOut.val - amountOut.val) * (10000 - feeBps.val)) ≤
        reserveIn.val * amountOut.val * 10000 := (Nat.le_div_iff_mul_le positive).mp fewer
    rw [Nat.add_one_mul] at reached
    omega

theorem getAmountIn_tight_pool :
    (∀ paid, getAmountOut 1115 10000 10000 30 = .ok paid → 1000 ≤ paid) ∧
      ∀ amount paid : U64, 1 ≤ amount → amount.val ≤ 1113 → getAmountOut amount 10000 10000 30 = .ok paid → paid < 1000 := by
  have ok : getAmountIn 1000 10000 10000 30 = .ok 1115 := by decide +kernel
  exact getAmountIn_tight ok

end inverse

end SuiArbitrage.Move.Math
