import SuiArbitrage.Lib.ConcentratedLiquidity
import Mathlib.Order.Monotone.Basic

/-! A swap through one range towards a target price that may lie on either side of its
start. It stops at the target where the input reaches it, and pays out for the distance
it went. More input pays no less. -/
namespace ConcentratedLiquidity

variable {q L target price low high amount more : ℕ}

/-- Between two prices in either order. -/
def between (delta : ℕ → ℕ → ℕ) (one other : ℕ) : ℕ := delta (min one other) (max one other)

theorem between_comm (delta : ℕ → ℕ → ℕ) (one other : ℕ) : between delta one other = between delta other one := by
  rw [between,between,min_comm,max_comm]

theorem between_of_le {delta : ℕ → ℕ → ℕ} (ordered : low ≤ high) : between delta low high = delta low high := by
  rw [between,min_eq_left ordered,max_eq_right ordered]

theorem between_of_ge {delta : ℕ → ℕ → ℕ} (ordered : low ≤ high) : between delta high low = delta low high := by
  rw [between_comm,between_of_le ordered]

def endOfFirst (q L target price amount : ℕ) : ℕ :=
  if between (firstUp q L) target price ≤ amount then target else afterFirst q L price amount

def payFirst (q L target price amount : ℕ) : ℕ :=
  between (secondDown q L) (endOfFirst q L target price amount) price

def endOfSecond (q L target price amount : ℕ) : ℕ :=
  if between (secondUp q L) target price ≤ amount then target else afterSecond q L price amount

def paySecond (q L target price amount : ℕ) : ℕ :=
  between (firstDown q L) (endOfSecond q L target price amount) price

/-- Short of the target the price moves less than the whole way. -/
theorem afterFirst_within (liquid : 0 < L * q) (positive : 0 < target)
    (short : amount < between (firstUp q L) target price) :
    secondDown q L (afterFirst q L price amount) price ≤ between (secondDown q L) target price := by
  rcases le_or_gt target price with below | above
  · rw [between_of_le below] at short ⊢
    exact secondDown_mono (lt_afterFirst liquid below positive short).le
  · rw [between_of_ge above.le] at short ⊢
    refine Nat.div_le_div_right (Nat.mul_le_mul_left L ?_)
    have started : 0 < price := by
      by_contra zero
      rw [Nat.eq_zero_of_not_pos zero] at short
      simp [firstUp] at short
    have beyond : target * price * amount < L * q * (target - price) := by
      by_contra enough
      exact Nat.not_le.mpr short ((firstUp_le_iff (Nat.mul_pos positive started)).mpr (Nat.not_lt.mp enough))
    -- the drop of the price times the depth after the swap is what the input pays for
    have depth := le_afterFirst_mul liquid price amount
    have dropped : (price - afterFirst q L price amount) * (L * q + amount * price) ≤ price * (amount * price) := by
      rw [Nat.sub_mul,Nat.mul_add]
      have := Nat.mul_comm price (L * q)
      omega
    have further : price * (amount * price) ≤ (target - price) * (L * q + amount * price) := by
      have paid : price * (amount * price) ≤ target * price * amount := by
        calc price * (amount * price) = price * (price * amount) := by ring
          _ ≤ target * (price * amount) := Nat.mul_le_mul_right _ above.le
          _ = target * price * amount := by ring
      calc price * (amount * price) ≤ L * q * (target - price) := paid.trans beyond.le
        _ = (target - price) * (L * q) := Nat.mul_comm _ _
        _ ≤ (target - price) * (L * q + amount * price) := Nat.mul_le_mul_left _ (Nat.le_add_right _ _)
    exact Nat.le_of_mul_le_mul_right (dropped.trans further) (Nat.add_pos_left liquid _)

theorem payFirst_mono (liquid : 0 < L * q) (positive : 0 < target) : Monotone (payFirst q L target price) := by
  intro amount more ordered
  have before (n : ℕ) : between (secondDown q L) (afterFirst q L price n) price =
      secondDown q L (afterFirst q L price n) price := between_of_le (afterFirst_le liquid)
  unfold payFirst endOfFirst
  by_cases reached : between (firstUp q L) target price ≤ amount
  · rw [if_pos reached,if_pos (reached.trans ordered)]
  · by_cases further : between (firstUp q L) target price ≤ more
    · rw [if_neg reached,if_pos further,before]
      exact afterFirst_within liquid positive (not_le.mp reached)
    · rw [if_neg reached,if_neg further,before,before]
      exact secondDown_mono (afterFirst_anti liquid ordered)

theorem afterSecond_within (unit : 0 < q) (positive : 0 < target) (started : 0 < price)
    (short : amount < between (secondUp q L) target price) :
    firstDown q L price (afterSecond q L price amount) ≤ between (firstDown q L) target price := by
  rcases le_or_gt price target with above | below
  · rw [between_of_ge above] at short ⊢
    exact firstDown_mono started le_afterSecond (afterSecond_lt unit above short).le
  · rw [between_of_le below.le] at short ⊢
    have beyond : amount * q < L * (price - target) := by
      by_contra enough
      refine Nat.not_le.mpr short ((secondUp_le_iff unit).mpr ?_)
      rw [Nat.mul_comm q]
      exact Nat.not_lt.mp enough
    have added : amount * q / L ≤ price - target := (Nat.div_lt_of_lt_mul beyond).le
    have moved : afterSecond q L price amount - price = amount * q / L := Nat.add_sub_cancel_left _ _
    rw [firstDown,firstDown,moved]
    refine Nat.div_le_div (Nat.mul_le_mul_left _ added) ?_ (Nat.mul_pos started positive).ne'
    exact Nat.mul_le_mul le_afterSecond below.le

theorem paySecond_mono (unit : 0 < q) (positive : 0 < target) : Monotone (paySecond q L target price) := by
  intro amount more ordered
  rcases Nat.eq_zero_or_pos price with rfl | started
  · simp [paySecond,between,firstDown]
  have before (n : ℕ) : between (firstDown q L) (afterSecond q L price n) price =
      firstDown q L price (afterSecond q L price n) := between_of_ge le_afterSecond
  unfold paySecond endOfSecond
  by_cases reached : between (secondUp q L) target price ≤ amount
  · rw [if_pos reached,if_pos (reached.trans ordered)]
  · by_cases further : between (secondUp q L) target price ≤ more
    · rw [if_neg reached,if_pos further,before]
      exact afterSecond_within unit positive started (not_le.mp reached)
    · rw [if_neg reached,if_neg further,before,before]
      exact firstDown_mono started le_afterSecond (afterSecond_mono ordered)

end ConcentratedLiquidity
