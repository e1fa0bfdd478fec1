import Mathlib.Algebra.Order.Field.Basic
import Mathlib.Algebra.Order.Floor.Semifield
import Mathlib.Data.Rat.Floor
import Mathlib.Tactic.FieldSimp
import Mathlib.Tactic.Positivity
import Mathlib.Tactic.Ring
import Mathlib.Tactic.Linarith

/-! Exact-input pricing on the curve `reserveIn * reserveOut = k` with a fee
taken from the input, over any ordered field, and its integer version, which
rounds the output down. `share` is the part of the input that is not fee. -/
namespace ConstantProduct

section curve
variable {K : Type*} [Field K] [LinearOrder K] [IsStrictOrderedRing K]
variable {share x reserveIn reserveOut y : K}

def output (share x reserveIn reserveOut : K) : K :=
  share * x * reserveOut / (reserveIn + share * x)

theorem output_lt_reserve (sharePos : 0 ≤ share) (xPos : 0 ≤ x) (inPos : 0 < reserveIn)
    (outPos : 0 < reserveOut) : output share x reserveIn reserveOut < reserveOut := by
  have positive : 0 < reserveIn + share * x := by positivity
  rw [output,div_lt_iff₀ positive]
  nlinarith [mul_pos inPos outPos]

/-- The output is never worth more than the input at the pool's spot price. -/
theorem output_le_spot (sharePos : 0 ≤ share) (shareLe : share ≤ 1) (xPos : 0 ≤ x)
    (inPos : 0 < reserveIn) (outPos : 0 ≤ reserveOut) :
    output share x reserveIn reserveOut * reserveIn ≤ x * reserveOut := by
  have positive : 0 < reserveIn + share * x := by positivity
  have scaled : share * x * reserveOut * reserveIn ≤ x * reserveOut * (reserveIn + share * x) := by
    have first : share * (x * reserveOut * reserveIn) ≤ 1 * (x * reserveOut * reserveIn) :=
      mul_le_mul_of_nonneg_right shareLe (by positivity)
    have second : 0 ≤ x * reserveOut * (share * x) := by positivity
    linarith
  calc output share x reserveIn reserveOut * reserveIn
      = share * x * reserveOut * reserveIn / (reserveIn + share * x) := by
        rw [output,div_mul_eq_mul_div]
    _ ≤ x * reserveOut := (div_le_iff₀ positive).mpr scaled

theorem product_le (sharePos : 0 ≤ share) (shareLe : share ≤ 1) (xPos : 0 ≤ x)
    (inPos : 0 < reserveIn) (outPos : 0 ≤ reserveOut) (paid : y ≤ output share x reserveIn reserveOut) :
    reserveIn * reserveOut ≤ (reserveIn + x) * (reserveOut - y) := by
  have positive : 0 < reserveIn + share * x := by positivity
  have kept : reserveIn * reserveOut / (reserveIn + share * x) =
      reserveOut - output share x reserveIn reserveOut := by
    rw [output]
    field_simp
    ring
  have grown : reserveIn + share * x ≤ reserveIn + x := by
    have := mul_le_mul_of_nonneg_right shareLe xPos
    linarith
  have quotient : 0 ≤ reserveIn * reserveOut / (reserveIn + share * x) := by positivity
  calc reserveIn * reserveOut
      = (reserveIn + share * x) * (reserveIn * reserveOut / (reserveIn + share * x)) := by
        field_simp
    _ ≤ (reserveIn + x) * (reserveIn * reserveOut / (reserveIn + share * x)) :=
        mul_le_mul_of_nonneg_right grown quotient
    _ ≤ (reserveIn + x) * (reserveOut - y) := by
        apply mul_le_mul_of_nonneg_left _ (by positivity)
        rw [kept]
        linarith

end curve

section integer
variable {denominator kept x reserveIn reserveOut : ℕ}

/-- The output in whole units, where the fee leaves `kept` of each `denominator`
parts of the input. -/
def floorOutput (denominator kept x reserveIn reserveOut : ℕ) : ℕ :=
  x * kept * reserveOut / (reserveIn * denominator + x * kept)

theorem floorOutput_eq_floor (denominatorPos : 0 < denominator) (inPos : 0 < reserveIn) :
    floorOutput denominator kept x reserveIn reserveOut =
      ⌊output ((kept : ℚ) / denominator) x reserveIn reserveOut⌋₊ := by
  have scaled : output ((kept : ℚ) / denominator) x reserveIn reserveOut =
      ((x * kept * reserveOut : ℕ) : ℚ) / ((reserveIn * denominator + x * kept : ℕ) : ℚ) := by
    have positive : (0 : ℚ) < denominator := by exact_mod_cast denominatorPos
    have first : (0 : ℚ) < reserveIn + kept / denominator * x := by positivity
    have second : (0 : ℚ) < reserveIn * denominator + x * kept := by positivity
    push_cast
    rw [output,div_eq_div_iff first.ne' second.ne']
    field_simp
  rw [scaled,Nat.floor_div_eq_div]
  rfl

theorem floorOutput_le_output (denominatorPos : 0 < denominator) (inPos : 0 < reserveIn) :
    (floorOutput denominator kept x reserveIn reserveOut : ℚ) ≤
      output ((kept : ℚ) / denominator) x reserveIn reserveOut := by
  rw [floorOutput_eq_floor denominatorPos inPos]
  apply Nat.floor_le
  unfold output
  positivity

private theorem share_le_one (denominatorPos : 0 < denominator) (keptLe : kept ≤ denominator) :
    (kept : ℚ) / denominator ≤ 1 := by
  have positive : (0 : ℚ) < denominator := by exact_mod_cast denominatorPos
  rw [div_le_one positive]
  exact_mod_cast keptLe

theorem floorOutput_lt_reserve (denominatorPos : 0 < denominator) (inPos : 0 < reserveIn)
    (outPos : 0 < reserveOut) :
    floorOutput denominator kept x reserveIn reserveOut < reserveOut := by
  have below : (floorOutput denominator kept x reserveIn reserveOut : ℚ) ≤ _ :=
    floorOutput_le_output denominatorPos inPos
  have strict : output ((kept : ℚ) / denominator) x reserveIn reserveOut < reserveOut :=
    output_lt_reserve (by positivity) (by positivity) (by exact_mod_cast inPos)
      (by exact_mod_cast outPos)
  exact_mod_cast below.trans_lt strict

theorem floorOutput_mono {y : ℕ} (denominatorPos : 0 < denominator) (inPos : 0 < reserveIn) (ordered : x ≤ y) :
    floorOutput denominator kept x reserveIn reserveOut ≤ floorOutput denominator kept y reserveIn reserveOut := by
  have scaled : 0 < reserveIn * denominator := Nat.mul_pos inPos denominatorPos
  have paid : x * kept ≤ y * kept := Nat.mul_le_mul_right kept ordered
  have atMost : floorOutput denominator kept x reserveIn reserveOut ≤ reserveOut := by
    rw [floorOutput]
    apply Nat.div_le_of_le_mul
    exact Nat.mul_le_mul_right reserveOut (Nat.le_add_left _ _)
  have exact : floorOutput denominator kept x reserveIn reserveOut * (reserveIn * denominator + x * kept) ≤
      x * kept * reserveOut := Nat.div_mul_le_self _ _
  have further : floorOutput denominator kept x reserveIn reserveOut * (y * kept - x * kept) ≤
      reserveOut * (y * kept - x * kept) := Nat.mul_le_mul_right _ atMost
  have grown : reserveIn * denominator + y * kept = reserveIn * denominator + x * kept + (y * kept - x * kept) := by
    omega
  have onward : x * kept * reserveOut + reserveOut * (y * kept - x * kept) = y * kept * reserveOut := by
    rw [Nat.mul_comm reserveOut,← Nat.add_mul,Nat.add_sub_cancel' paid]
  conv => rhs; rw [floorOutput]
  rw [Nat.le_div_iff_mul_le (by omega),grown,Nat.mul_add,← onward]
  exact Nat.add_le_add exact further

theorem floorOutput_le_spot (denominatorPos : 0 < denominator) (keptLe : kept ≤ denominator)
    (inPos : 0 < reserveIn) :
    floorOutput denominator kept x reserveIn reserveOut * reserveIn ≤ x * reserveOut := by
  have below : (floorOutput denominator kept x reserveIn reserveOut : ℚ) ≤ _ :=
    floorOutput_le_output denominatorPos inPos
  have spot : output ((kept : ℚ) / denominator) x reserveIn reserveOut * reserveIn ≤ x * reserveOut :=
    output_le_spot (by positivity) (share_le_one denominatorPos keptLe) (by positivity)
      (by exact_mod_cast inPos) (by positivity)
  have scaled : (floorOutput denominator kept x reserveIn reserveOut : ℚ) * reserveIn ≤
      x * reserveOut :=
    (mul_le_mul_of_nonneg_right below (by positivity)).trans spot
  exact_mod_cast scaled

theorem floorOutput_product_le (denominatorPos : 0 < denominator) (keptLe : kept ≤ denominator)
    (inPos : 0 < reserveIn) (outPos : 0 < reserveOut) :
    reserveIn * reserveOut ≤ (reserveIn + x) *
      (reserveOut - floorOutput denominator kept x reserveIn reserveOut) := by
  have strict : floorOutput denominator kept x reserveIn reserveOut < reserveOut :=
    floorOutput_lt_reserve denominatorPos inPos outPos
  have grown : (reserveIn : ℚ) * reserveOut ≤ (reserveIn + x) *
      (reserveOut - floorOutput denominator kept x reserveIn reserveOut) :=
    product_le (by positivity) (share_le_one denominatorPos keptLe) (by positivity)
      (by exact_mod_cast inPos) (by positivity) (floorOutput_le_output denominatorPos inPos)
  rw [← Nat.cast_sub strict.le] at grown
  exact_mod_cast grown

/-- An output is paid once the input covers it at the price after the swap. -/
theorem le_floorOutput_iff {wanted : ℕ} (denominatorPos : 0 < denominator) (inPos : 0 < reserveIn)
    (within : wanted ≤ reserveOut) :
    wanted ≤ floorOutput denominator kept x reserveIn reserveOut ↔
      wanted * (reserveIn * denominator) ≤ x * kept * (reserveOut - wanted) := by
  have scaled : 0 < reserveIn * denominator + x * kept := Nat.add_pos_left (Nat.mul_pos inPos denominatorPos) _
  have asked : x * kept * wanted ≤ x * kept * reserveOut := Nat.mul_le_mul_left _ within
  rw [floorOutput,Nat.le_div_iff_mul_le scaled,Nat.mul_add,Nat.mul_sub,Nat.mul_comm wanted (x * kept)]
  omega

/-- The fee of a first part is left in the pool for the second, and the larger of two
roundings is never smaller than their sum. -/
theorem floorOutput_split {y : ℕ} (denominatorPos : 0 < denominator) (keptLe : kept ≤ denominator)
    (inPos : 0 < reserveIn) (outPos : 0 < reserveOut) :
    floorOutput denominator kept x reserveIn reserveOut +
        floorOutput denominator kept y (reserveIn + x)
          (reserveOut - floorOutput denominator kept x reserveIn reserveOut) ≤
      floorOutput denominator kept (x + y) reserveIn reserveOut := by
  have strict : floorOutput denominator kept x reserveIn reserveOut < reserveOut :=
    floorOutput_lt_reserve denominatorPos inPos outPos
  generalize first : floorOutput denominator kept x reserveIn reserveOut = one at strict ⊢
  have rest : floorOutput denominator kept y (reserveIn + x) (reserveOut - one) ≤ reserveOut - one :=
    (floorOutput_lt_reserve denominatorPos (Nat.add_pos_left inPos x) (Nat.sub_pos_of_lt strict)).le
  generalize second : floorOutput denominator kept y (reserveIn + x) (reserveOut - one) = two at rest ⊢
  have early := (le_floorOutput_iff denominatorPos inPos strict.le).mp first.ge
  have late := (le_floorOutput_iff denominatorPos (Nat.add_pos_left inPos x) rest).mp second.ge
  apply (le_floorOutput_iff denominatorPos inPos (by omega)).mpr
  obtain ⟨left,reserve⟩ : ∃ left, reserveOut = one + two + left := ⟨reserveOut - one - two,by omega⟩
  rw [reserve,show one + two + left - one = two + left by omega] at early
  rw [reserve,show one + two + left - one - two = left by omega] at late
  rw [reserve,show one + two + left - (one + two) = left by omega]
  have fee : x * kept * two ≤ two * (x * denominator) := by
    calc x * kept * two = two * x * kept := by ring
      _ ≤ two * x * denominator := Nat.mul_le_mul_left _ keptLe
      _ = two * (x * denominator) := by ring
  calc (one + two) * (reserveIn * denominator)
      = one * (reserveIn * denominator) + two * (reserveIn * denominator) := by ring
    _ ≤ x * kept * (two + left) + two * (reserveIn * denominator) := Nat.add_le_add_right early _
    _ = x * kept * left + (x * kept * two + two * (reserveIn * denominator)) := by ring
    _ ≤ x * kept * left + (two * (x * denominator) + two * (reserveIn * denominator)) :=
        Nat.add_le_add_left (Nat.add_le_add_right fee _) _
    _ = x * kept * left + two * ((reserveIn + x) * denominator) := by ring
    _ ≤ x * kept * left + y * kept * left := Nat.add_le_add_left late _
    _ = (x + y) * kept * left := by ring

end integer

end ConstantProduct
