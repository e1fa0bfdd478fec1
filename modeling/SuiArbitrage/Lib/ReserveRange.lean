import SuiArbitrage.Lib.ConcentratedLiquidity
import SuiArbitrage.Lib.ConstantProduct

/-! A range of constant liquidity that holds the reserves of a constant-product pool at
its price. Paying into it moves along the same curve, up to the rounding of the price
and of the amount paid out. -/
namespace ReserveRange
open ConcentratedLiquidity ConstantProduct

variable {q L price next first second n : ℕ}

/-- The range holds the reserves `first` and `second` at this price. -/
structure Holds (q L price first second : ℕ) : Prop where
  first : price * first = L * q
  second : L * price = second * q

theorem holds_of_squares (ratio : price^2 * first = second * q^2) (depth : L^2 = first * second) :
    Holds q L price first second := by
  constructor
  · apply Nat.pow_left_injective two_ne_zero
    calc (price * first)^2 = price^2 * first * first := by ring
      _ = second * q^2 * first := by rw [ratio]
      _ = first * second * q^2 := by ring
      _ = (L * q)^2 := by rw [← depth]; ring
  · apply Nat.pow_left_injective two_ne_zero
    calc (L * price)^2 = L^2 * price^2 := by ring
      _ = price^2 * first * second := by rw [depth]; ring
      _ = second * q^2 * second := by rw [ratio]
      _ = (second * q)^2 := by ring

theorem lt_div_add_one (a : ℕ) {b : ℕ} (positive : 0 < b) : (a : ℚ) < ((a / b : ℕ) + 1) * b := by
  have whole : a < (a / b + 1) * b := by
    rw [Nat.mul_comm]
    exact Nat.lt_mul_div_succ a positive
  exact_mod_cast whole

section paid_first
variable (holds : Holds q L price first second) (unit : 0 < q)
include holds unit

/-- At or above the price that the curve asks for, no more is paid out than along it. -/
theorem secondDown_le (above : price * first ≤ next * (first + n)) :
    secondDown q L next price * (first + n) ≤ second * n := by
  have moved : (price - next) * (first + n) ≤ price * n := by
    rw [Nat.sub_mul,Nat.mul_add]
    omega
  apply Nat.le_of_mul_le_mul_right _ unit
  calc secondDown q L next price * (first + n) * q = secondDown q L next price * q * (first + n) := by ring
    _ ≤ L * (price - next) * (first + n) := Nat.mul_le_mul_right _ (Nat.div_mul_le_self _ _)
    _ = L * ((price - next) * (first + n)) := by ring
    _ ≤ L * (price * n) := Nat.mul_le_mul_left _ moved
    _ = L * price * n := by ring
    _ = second * n * q := by rw [holds.second]; ring

theorem lt_secondDown (positive : 0 < first) (ordered : next ≤ price)
    (near : next * (first + n) ≤ price * first + (first + n)) :
    (second : ℚ) * n / (first + n) < secondDown q L next price + L / q + 1 := by
  have unit' : (0 : ℚ) < q := by exact_mod_cast unit
  have room : (0 : ℚ) < first + n := by positivity
  have liquid : (0 : ℚ) ≤ L := Nat.cast_nonneg L
  have curve : (L : ℚ) * price = second * q := by exact_mod_cast holds.second
  have close : (next : ℚ) * (first + n) ≤ price * first + (first + n) := by exact_mod_cast near
  have out := lt_div_add_one (L * (price - next)) unit
  push_cast [ordered] at out
  have costs : (L : ℚ) * (next * (first + n)) ≤ L * (price * first + (first + n)) :=
    mul_le_mul_of_nonneg_left close liquid
  have scaled : (L : ℚ) * (price - next) * (first + n) < (secondDown q L next price + 1) * q * (first + n) :=
    mul_lt_mul_of_pos_right out room
  have shown : (second : ℚ) * q * n < ((secondDown q L next price + 1) * q + L) * (first + n) := by
    rw [← curve]
    linarith
  calc (second : ℚ) * n / (first + n) = second * q * n / (q * (first + n)) := by field_simp
    _ < ((secondDown q L next price + 1) * q + L) * (first + n) / (q * (first + n)) :=
      div_lt_div_of_pos_right shown (mul_pos unit' room)
    _ = secondDown q L next price + L / q + 1 := by field_simp; ring

end paid_first

section paid_second
variable (holds : Holds q L price first second) (unit : 0 < q) (liquid : 0 < price)
include holds unit liquid

/-- A price that is not beyond the curve's pays out no more than along it. -/
theorem firstDown_le (ordered : price ≤ next) (below : L * (next - price) ≤ n * q) :
    firstDown q L price next * (second + n) ≤ first * n := by
  have moved : second * (next - price) ≤ price * n := by
    apply Nat.le_of_mul_le_mul_right _ unit
    calc second * (next - price) * q = second * q * (next - price) := by ring
      _ = price * (L * (next - price)) := by rw [← holds.second]; ring
      _ ≤ price * (n * q) := Nat.mul_le_mul_left _ below
      _ = price * n * q := by ring
  have shorter : (next - price) * (second + n) ≤ n * next := by
    obtain ⟨rise,rfl⟩ := Nat.exists_eq_add_of_le ordered
    rw [Nat.add_sub_cancel_left] at moved ⊢
    linarith
  have positive : 0 < next := liquid.trans_le ordered
  apply Nat.le_of_mul_le_mul_right _ (Nat.mul_pos positive liquid)
  calc firstDown q L price next * (second + n) * (next * price)
      = firstDown q L price next * (next * price) * (second + n) := by ring
    _ ≤ L * q * (next - price) * (second + n) := Nat.mul_le_mul_right _ (Nat.div_mul_le_self _ _)
    _ = price * first * ((next - price) * (second + n)) := by rw [holds.first]; ring
    _ ≤ price * first * (n * next) := Nat.mul_le_mul_left _ shorter
    _ = first * n * (next * price) := by ring

theorem lt_firstDown (positive : 0 < second) (ordered : price ≤ next)
    (near : n * q ≤ L * (next - price) + L) :
    (first : ℚ) * n / (second + n) < firstDown q L price next + first / price + 1 := by
  have unit' : (0 : ℚ) < q := by exact_mod_cast unit
  have liquid' : (0 : ℚ) < price := by exact_mod_cast liquid
  have further : (price : ℚ) ≤ next := by exact_mod_cast ordered
  have next_pos : (0 : ℚ) < next := liquid'.trans_le further
  have room : (0 : ℚ) < second + n := by positivity
  have held : (0 : ℚ) ≤ first := Nat.cast_nonneg first
  have curve : (L : ℚ) * price = second * q := by exact_mod_cast holds.second
  have depth : (price : ℚ) * first = L * q := by exact_mod_cast holds.first
  have out := lt_div_add_one (L * q * (next - price)) (Nat.mul_pos (liquid.trans_le ordered) liquid)
  push_cast [ordered] at out
  -- The rise that is missing is worth less than the second reserve.
  have close : (n : ℚ) * price ≤ second * (next - price) + second := by
    have near' : (n : ℚ) * q ≤ L * (next - price) + L := by
      have cast : ((n * q : ℕ) : ℚ) ≤ ((L * (next - price) + L : ℕ) : ℚ) := by exact_mod_cast near
      push_cast [ordered] at cast
      exact cast
    have scaled := mul_le_mul_of_nonneg_left near' liquid'.le
    apply le_of_mul_le_mul_right _ unit'
    calc (n : ℚ) * price * q = price * (n * q) := by ring
      _ ≤ price * (L * (next - price) + L) := scaled
      _ = L * price * (next - price) + L * price := by ring
      _ = (second * (next - price) + second) * q := by rw [curve]; ring
  have paid : (first : ℚ) * (next - price) / next < firstDown q L price next + 1 := by
    rw [div_lt_iff₀ next_pos]
    apply lt_of_mul_lt_mul_right _ liquid'.le
    calc (first : ℚ) * (next - price) * price = L * q * (next - price) := by rw [← depth]; ring
      _ < (firstDown q L price next + 1) * (next * price) := out
      _ = (firstDown q L price next + 1) * next * price := by ring
  have lost : (first : ℚ) * n / (second + n) - first * (next - price) / next ≤ first / price := by
    have split : (first : ℚ) * n / (second + n) - first * (next - price) / next =
        first * (n * price - second * (next - price)) / (next * (second + n)) := by
      field_simp
      ring
    rw [split,div_le_div_iff₀ (mul_pos next_pos room) liquid']
    have bound : ((n : ℚ) * price - second * (next - price)) * price ≤ next * (second + n) := by
      have worth : ((n : ℚ) * price - second * (next - price)) * price ≤ second * price :=
        mul_le_mul_of_nonneg_right (by linarith) liquid'.le
      have more : (second : ℚ) * price ≤ next * (second + n) := by nlinarith
      exact worth.trans more
    calc (first : ℚ) * (n * price - second * (next - price)) * price
        = first * ((n * price - second * (next - price)) * price) := by ring
      _ ≤ first * (next * (second + n)) := mul_le_mul_of_nonneg_left bound held
  linarith

end paid_second

section fee
variable {denominator kept x reserveIn reserveOut out : ℕ}

/-- An input cut down to whole units after the fee buys no more than before. -/
theorem le_floorOutput (positive : 0 < reserveIn) (denominatorPos : 0 < denominator)
    (net : n * denominator ≤ x * kept) (within : out * (reserveIn + n) ≤ reserveOut * n) :
    out ≤ floorOutput denominator kept x reserveIn reserveOut := by
  have less : out ≤ reserveOut := by
    apply Nat.le_of_mul_le_mul_right _ (Nat.add_pos_left positive n)
    exact within.trans (Nat.mul_le_mul_left _ (Nat.le_add_left _ _))
  have left : out * reserveIn ≤ (reserveOut - out) * n := by
    rw [Nat.mul_add] at within
    rw [Nat.sub_mul]
    omega
  unfold floorOutput
  rw [Nat.le_div_iff_mul_le (Nat.add_pos_left (Nat.mul_pos positive denominatorPos) _)]
  have scaled : out * reserveIn * denominator ≤ (reserveOut - out) * (x * kept) :=
    calc out * reserveIn * denominator ≤ (reserveOut - out) * n * denominator := Nat.mul_le_mul_right _ left
      _ = (reserveOut - out) * (n * denominator) := by ring
      _ ≤ (reserveOut - out) * (x * kept) := Nat.mul_le_mul_left _ net
  calc out * (reserveIn * denominator + x * kept) = out * reserveIn * denominator + out * (x * kept) := by ring
    _ ≤ (reserveOut - out) * (x * kept) + out * (x * kept) := Nat.add_le_add_right scaled _
    _ = x * kept * reserveOut := by rw [← Nat.add_mul,Nat.sub_add_cancel less]; ring

theorem floorOutput_lt (positive : 0 < reserveIn) (outPos : 0 < reserveOut) (denominatorPos : 0 < denominator)
    (net : n * denominator ≤ x * kept) (next : x * kept < (n + 1) * denominator) :
    (floorOutput denominator kept x reserveIn reserveOut : ℚ) <
      reserveOut * n / (reserveIn + n) + reserveOut / reserveIn := by
  have inPos : (0 : ℚ) < reserveIn := by exact_mod_cast positive
  have outPos' : (0 : ℚ) < reserveOut := by exact_mod_cast outPos
  have denominatorPos' : (0 : ℚ) < denominator := by exact_mod_cast denominatorPos
  have net' : (n : ℚ) * denominator ≤ x * kept := by exact_mod_cast net
  have next' : (x : ℚ) * kept < (n + 1) * denominator := by exact_mod_cast next
  have room : (0 : ℚ) < reserveIn + n := by positivity
  have scaledRoom : (0 : ℚ) < reserveIn * denominator + x * kept := by positivity
  have below : (floorOutput denominator kept x reserveIn reserveOut : ℚ) ≤
      x * kept * reserveOut / (reserveIn * denominator + x * kept) := by
    rw [le_div_iff₀ scaledRoom]
    have whole := Nat.div_mul_le_self (x * kept * reserveOut) (reserveIn * denominator + x * kept)
    exact_mod_cast whole
  refine below.trans_lt ?_
  have gap : (x : ℚ) * kept * reserveOut / (reserveIn * denominator + x * kept) - reserveOut * n / (reserveIn + n) =
      reserveOut * (reserveIn * (x * kept - n * denominator)) /
        ((reserveIn * denominator + x * kept) * (reserveIn + n)) := by
    field_simp
    ring
  have small : (reserveIn : ℚ) * (x * kept - n * denominator) * reserveIn <
      (reserveIn * denominator + x * kept) * (reserveIn + n) := by
    have part : (x : ℚ) * kept - n * denominator < denominator := by linarith
    have squared : (reserveIn : ℚ) * (x * kept - n * denominator) * reserveIn < reserveIn * denominator * reserveIn := by
      have := mul_lt_mul_of_pos_left part inPos
      exact mul_lt_mul_of_pos_right this inPos
    have first : (reserveIn : ℚ) * denominator * reserveIn ≤ reserveIn * denominator * (reserveIn + n) :=
      mul_le_mul_of_nonneg_left (by linarith [(Nat.cast_nonneg n : (0 : ℚ) ≤ n)]) (by positivity)
    have second : (0 : ℚ) ≤ x * kept * (reserveIn + n) := by positivity
    linarith
  have less : (reserveOut : ℚ) * (reserveIn * (x * kept - n * denominator)) /
      ((reserveIn * denominator + x * kept) * (reserveIn + n)) < reserveOut / reserveIn := by
    rw [div_lt_div_iff₀ (mul_pos scaledRoom room) inPos]
    calc (reserveOut : ℚ) * (reserveIn * (x * kept - n * denominator)) * reserveIn
        = reserveOut * (reserveIn * (x * kept - n * denominator) * reserveIn) := by ring
      _ < reserveOut * ((reserveIn * denominator + x * kept) * (reserveIn + n)) :=
        mul_lt_mul_of_pos_left small outPos'
  linarith

end fee

section curve
variable (unit : 0 < q) (liquid : 0 < L)

/-- What the input `n` of the first token buys along the curve of the range. -/
def curveOutput (q L price n : ℕ) : ℚ := L * n * price^2 / (q * (L * q + n * price))

include unit liquid

theorem secondDown_le_curve : (secondDown q L (afterFirst q L price n) price : ℚ) ≤ curveOutput q L price n := by
  have depth : 0 < L * q := Nat.mul_pos liquid unit
  have unit' : (0 : ℚ) < q := by exact_mod_cast unit
  have liquid' : (0 : ℚ) ≤ L := Nat.cast_nonneg L
  have room : (0 : ℚ) < L * q + n * price := by exact_mod_cast Nat.add_pos_left depth _
  have ordered : afterFirst q L price n ≤ price := afterFirst_le depth
  have above : (L : ℚ) * q * price ≤ afterFirst q L price n * (L * q + n * price) := by
    exact_mod_cast le_afterFirst_mul depth price n
  have paid : (secondDown q L (afterFirst q L price n) price : ℚ) * q ≤ L * (price - afterFirst q L price n) := by
    have whole : secondDown q L (afterFirst q L price n) price * q ≤ L * (price - afterFirst q L price n) :=
      Nat.div_mul_le_self _ _
    have cast : ((secondDown q L (afterFirst q L price n) price * q : ℕ) : ℚ) ≤
        ((L * (price - afterFirst q L price n) : ℕ) : ℚ) := by exact_mod_cast whole
    push_cast [ordered] at cast
    exact cast
  rw [curveOutput,le_div_iff₀ (mul_pos unit' room)]
  have scaled := mul_le_mul_of_nonneg_right paid room.le
  have costs := mul_le_mul_of_nonneg_left above liquid'
  linarith

/-- The rounded price and the rounded amount lose less than one step of the price and one unit. -/
theorem curve_lt_secondDown :
    curveOutput q L price n < secondDown q L (afterFirst q L price n) price + L / q + 1 := by
  have depth : 0 < L * q := Nat.mul_pos liquid unit
  have unit' : (0 : ℚ) < q := by exact_mod_cast unit
  have liquid' : (0 : ℚ) ≤ L := Nat.cast_nonneg L
  have room : (0 : ℚ) < L * q + n * price := by exact_mod_cast Nat.add_pos_left depth _
  have ordered : afterFirst q L price n ≤ price := afterFirst_le depth
  have near : afterFirst q L price n * (L * q + n * price) ≤ L * q * price + (L * q + n * price) := ceilDiv_mul_le _ _
  have close : (afterFirst q L price n : ℚ) * (L * q + n * price) ≤ L * q * price + (L * q + n * price) := by
    exact_mod_cast near
  have out := lt_div_add_one (L * (price - afterFirst q L price n)) unit
  push_cast [ordered] at out
  have shown : (L : ℚ) * n * price^2 <
      ((secondDown q L (afterFirst q L price n) price + 1) * q + L) * (L * q + n * price) := by
    have scaled : (L : ℚ) * (price - afterFirst q L price n) * (L * q + n * price) <
      (secondDown q L (afterFirst q L price n) price + 1) * q * (L * q + n * price) := mul_lt_mul_of_pos_right out room
    have costs := mul_le_mul_of_nonneg_left close liquid'
    linarith
  rw [curveOutput,div_lt_iff₀ (mul_pos unit' room)]
  calc (L : ℚ) * n * price^2
      < ((secondDown q L (afterFirst q L price n) price + 1) * q + L) * (L * q + n * price) := shown
    _ = (secondDown q L (afterFirst q L price n) price + L / q + 1) * (q * (L * q + n * price)) := by
        field_simp
        ring

end curve

end ReserveRange
