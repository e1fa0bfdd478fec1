import Mathlib.Algebra.Order.Floor.Div
import Mathlib.Algebra.Order.Ring.Nat
import Mathlib.Tactic.Linarith
import Mathlib.Tactic.Ring

/-! One range of constant liquidity `L` on a square-root price axis in fixed point
with unit `q`. Between the prices `low ≤ high` lie `L·q·(high - low)/(high·low)` of
the first token and `L·(high - low)/q` of the second; an amount that is paid in is
rounded up and one that is paid out is rounded down. -/
namespace ConcentratedLiquidity

variable {q L low high price target amount : ℕ}

def firstUp (q L low high : ℕ) : ℕ := L * q * (high - low) ⌈/⌉ (high * low)

def firstDown (q L low high : ℕ) : ℕ := L * q * (high - low) / (high * low)

def secondUp (q L low high : ℕ) : ℕ := L * (high - low) ⌈/⌉ q

def secondDown (q L low high : ℕ) : ℕ := L * (high - low) / q

/-- The price after paying in `amount` of the first token, rounded up. -/
def afterFirst (q L price amount : ℕ) : ℕ := L * q * price ⌈/⌉ (L * q + amount * price)

/-- The price after paying in `amount` of the second token, rounded down. -/
def afterSecond (q L price amount : ℕ) : ℕ := price + amount * q / L

theorem ceilDiv_mul_le (a b : ℕ) : (a ⌈/⌉ b) * b ≤ a + b := by
  rw [Nat.ceilDiv_eq_add_pred_div]
  exact (Nat.div_mul_le_self _ _).trans (Nat.sub_le _ _)

theorem firstUp_le_iff (positive : 0 < high * low) :
    firstUp q L low high ≤ amount ↔ L * q * (high - low) ≤ high * low * amount :=
  ceilDiv_le_iff_le_mul positive

theorem secondUp_le_iff (unit : 0 < q) : secondUp q L low high ≤ amount ↔ L * (high - low) ≤ q * amount :=
  ceilDiv_le_iff_le_mul unit

theorem le_firstUp_mul (positive : 0 < high * low) :
    L * q * (high - low) ≤ firstUp q L low high * (high * low) := by
  rw [Nat.mul_comm (firstUp q L low high)]
  exact (firstUp_le_iff positive).mp le_rfl

theorem le_secondUp_mul (L low high : ℕ) (unit : 0 < q) : L * (high - low) ≤ secondUp q L low high * q := by
  rw [Nat.mul_comm _ q]
  exact (secondUp_le_iff unit).mp le_rfl

/-- Between two prices the second token is worth no more than the first it is paid for. -/
theorem secondDown_mul_le (positive : 0 < high * low) :
    secondDown q L low high * (q * q) ≤ firstUp q L low high * (high * low) := by
  have down : secondDown q L low high * q ≤ L * (high - low) := Nat.div_mul_le_self _ _
  calc secondDown q L low high * (q * q) = secondDown q L low high * q * q := by ring
    _ ≤ L * (high - low) * q := Nat.mul_le_mul_right _ down
    _ = L * q * (high - low) := by ring
    _ ≤ firstUp q L low high * (high * low) := le_firstUp_mul positive

theorem firstDown_mul_le (unit : 0 < q) :
    firstDown q L low high * (high * low) ≤ secondUp q L low high * (q * q) := by
  have up := Nat.mul_le_mul_right q (le_secondUp_mul L low high unit)
  calc firstDown q L low high * (high * low) ≤ L * q * (high - low) := Nat.div_mul_le_self _ _
    _ = L * (high - low) * q := by ring
    _ ≤ secondUp q L low high * q * q := up
    _ = secondUp q L low high * (q * q) := by ring

section paid_first
variable (liquid : 0 < L * q)
include liquid

theorem le_afterFirst_mul (price amount : ℕ) : L * q * price ≤ afterFirst q L price amount * (L * q + amount * price) := by
  rw [Nat.mul_comm (afterFirst q L price amount)]
  exact (ceilDiv_le_iff_le_mul (Nat.add_pos_left liquid _)).mp le_rfl

theorem afterFirst_le : afterFirst q L price amount ≤ price := by
  apply (ceilDiv_le_iff_le_mul (Nat.add_pos_left liquid _)).mpr
  rw [Nat.add_mul]
  exact Nat.le_add_right _ _

theorem afterFirst_pos (amount : ℕ) (positive : 0 < price) : 0 < afterFirst q L price amount := by
  by_contra zero
  have bound := le_afterFirst_mul liquid price amount
  rw [Nat.eq_zero_of_not_pos zero,Nat.zero_mul] at bound
  have := Nat.mul_pos liquid positive
  omega

@[simp] theorem afterFirst_zero : afterFirst q L price 0 = price := by
  apply le_antisymm (afterFirst_le liquid)
  have bound := le_afterFirst_mul liquid price 0
  rw [Nat.zero_mul,Nat.add_zero,Nat.mul_comm] at bound
  exact Nat.le_of_mul_le_mul_right bound liquid

theorem firstUp_afterFirst_le (positive : 0 < price) :
    firstUp q L (afterFirst q L price amount) price ≤ amount := by
  have after := afterFirst_pos liquid amount positive
  apply (firstUp_le_iff (Nat.mul_pos positive after)).mpr
  have bound := le_afterFirst_mul liquid price amount
  rw [Nat.mul_sub]
  apply Nat.sub_le_of_le_add
  linarith [Nat.mul_comm (afterFirst q L price amount) (L * q)]

theorem lt_afterFirst (below : target ≤ price) (positive : 0 < target)
    (short : amount < firstUp q L target price) : target < afterFirst q L price amount := by
  have room : 0 < price * target := Nat.mul_pos (positive.trans_le below) positive
  have beyond : price * target * amount < L * q * (price - target) := by
    by_contra enough
    exact Nat.not_le.mpr short ((firstUp_le_iff room).mpr (Nat.not_lt.mp enough))
  rw [Nat.mul_sub] at beyond
  have reached : target * (L * q + amount * price) < L * q * price := by
    have split := Nat.mul_le_mul_left (L * q) below
    have same : target * (L * q + amount * price) = L * q * target + price * target * amount := by ring
    omega
  exact Nat.lt_of_mul_lt_mul_right (reached.trans_le (le_afterFirst_mul liquid price amount))

end paid_first

section paid_second
variable (unit : 0 < q)
include unit

theorem secondUp_afterSecond_le : secondUp q L price (afterSecond q L price amount) ≤ amount := by
  apply (secondUp_le_iff unit).mpr
  rw [afterSecond,Nat.add_sub_cancel_left,Nat.mul_comm q]
  exact Nat.mul_div_le _ _

theorem afterSecond_lt (above : price ≤ target)
    (short : amount < secondUp q L price target) : afterSecond q L price amount < target := by
  have beyond : q * amount < L * (target - price) := by
    by_contra enough
    exact Nat.not_le.mpr short ((secondUp_le_iff unit).mpr (Nat.not_lt.mp enough))
  have added : amount * q / L < target - price := by
    apply Nat.div_lt_of_lt_mul
    rw [Nat.mul_comm]
    exact beyond
  rw [afterSecond]
  omega

end paid_second

theorem le_afterSecond : price ≤ afterSecond q L price amount := Nat.le_add_right _ _

section further
variable {amount' low' high' : ℕ}

theorem afterFirst_anti (liquid : 0 < L * q) (more : amount ≤ amount') :
    afterFirst q L price amount' ≤ afterFirst q L price amount := by
  apply (ceilDiv_le_iff_le_mul (Nat.add_pos_left liquid _)).mpr
  have bound := le_afterFirst_mul liquid price amount
  have grows := Nat.mul_le_mul_right price more
  calc L * q * price ≤ afterFirst q L price amount * (L * q + amount * price) := bound
    _ ≤ afterFirst q L price amount * (L * q + amount' * price) :=
      Nat.mul_le_mul_left _ (Nat.add_le_add_left grows _)
    _ = (L * q + amount' * price) * afterFirst q L price amount := Nat.mul_comm _ _

theorem afterSecond_mono (more : amount ≤ amount') : afterSecond q L price amount ≤ afterSecond q L price amount' :=
  Nat.add_le_add_left (Nat.div_le_div_right (Nat.mul_le_mul_right q more)) price

theorem secondDown_mono (lower : low' ≤ low) : secondDown q L low high ≤ secondDown q L low' high :=
  Nat.div_le_div_right (Nat.mul_le_mul_left L (Nat.sub_le_sub_left lower high))

theorem firstDown_mono (positive : 0 < low) (ordered : low ≤ high) (higher : high ≤ high') :
    firstDown q L low high ≤ firstDown q L low high' := by
  have room : 0 < high * low := Nat.mul_pos (positive.trans_le ordered) positive
  apply (Nat.le_div_iff_mul_le (Nat.mul_pos (positive.trans_le (ordered.trans higher)) positive)).mpr
  apply Nat.le_of_mul_le_mul_right (c := high * low) ?_ room
  have spread : (high - low) * (high' * low) ≤ (high' - low) * (high * low) := by
    have first : (high - low) * high' ≤ (high' - low) * high := by
      rw [Nat.sub_mul,Nat.sub_mul,Nat.mul_comm high' high]
      exact Nat.sub_le_sub_left (Nat.mul_le_mul_left low higher) _
    calc (high - low) * (high' * low) = (high - low) * high' * low := by ring
      _ ≤ (high' - low) * high * low := Nat.mul_le_mul_right low first
      _ = (high' - low) * (high * low) := by ring
  calc firstDown q L low high * (high' * low) * (high * low)
      = firstDown q L low high * (high * low) * (high' * low) := by ring
    _ ≤ L * q * (high - low) * (high' * low) := Nat.mul_le_mul_right _ (Nat.div_mul_le_self _ _)
    _ = L * q * ((high - low) * (high' * low)) := by ring
    _ ≤ L * q * ((high' - low) * (high * low)) := Nat.mul_le_mul_left _ spread
    _ = L * q * (high' - low) * (high * low) := by ring

end further

end ConcentratedLiquidity
