import Mathlib.Data.ENat.Lattice

/-! Amounts that are paid through a chain of maps, each of which pays no less for more.
What such a chain asks of every amount on its way is asked of its first amount: to be at
least, or to stay below, a threshold that is found from the end of the chain. -/
namespace Thresholds

/-- The least amount for which `wanted` is paid; `⊤` where none is enough. -/
noncomputable def leastFor (pays : ℕ → ℕ) (wanted : ℕ∞) : ℕ∞ :=
  sInf {amount | ∃ n : ℕ, amount = n ∧ wanted ≤ pays n}

section one
variable {pays : ℕ → ℕ} {wanted : ℕ∞} {n : ℕ}

theorem leastFor_le_iff (mono : Monotone pays) : leastFor pays wanted ≤ n ↔ wanted ≤ pays n := by
  constructor
  · intro enough
    have reached : {amount : ℕ∞ | ∃ n : ℕ, amount = n ∧ wanted ≤ pays n}.Nonempty := by
      by_contra nothing
      rw [leastFor,Set.not_nonempty_iff_eq_empty.mp nothing,sInf_empty] at enough
      exact absurd enough (by simp)
    obtain ⟨least,same,paid⟩ := csInf_mem reached
    rw [leastFor,same] at enough
    exact paid.trans (Nat.cast_le.mpr (mono (Nat.cast_le.mp enough)))
  · intro paid
    exact sInf_le ⟨n,rfl,paid⟩

theorem lt_leastFor_iff (mono : Monotone pays) : n < leastFor pays wanted ↔ (pays n : ℕ∞) < wanted := by
  rw [← not_le,leastFor_le_iff mono,not_le]

end one

/-- No amount that is paid into the chain is zero. -/
def Positive : List (ℕ → ℕ) → ℕ → Prop
  | [],_ => True
  | pays :: rest,n => 0 < n ∧ Positive rest (pays n)

/-- No amount that the chain pays out reaches `limit`. -/
def Below (limit : ℕ) : List (ℕ → ℕ) → ℕ → Prop
  | [],_ => True
  | pays :: rest,n => pays n < limit ∧ Below limit rest (pays n)

noncomputable def dust : List (ℕ → ℕ) → ℕ∞
  | [] => 0
  | pays :: rest => max 1 (leastFor pays (dust rest))

noncomputable def ceiling (limit : ℕ) : List (ℕ → ℕ) → ℕ∞
  | [] => ⊤
  | pays :: rest => leastFor pays (min limit (ceiling limit rest))

section chains
variable {chain : List (ℕ → ℕ)} {n limit : ℕ}

theorem positive_iff (mono : ∀ pays ∈ chain, Monotone pays) : Positive chain n ↔ dust chain ≤ n := by
  induction chain generalizing n with
  | nil => simp [Positive,dust]
  | cons pays rest ih =>
    have first := mono pays List.mem_cons_self
    rw [Positive,dust,max_le_iff,leastFor_le_iff first,ih fun later member => mono later (List.mem_cons_of_mem _ member)]
    exact and_congr_left' (by rw [← Nat.cast_one,Nat.cast_le]; exact Iff.rfl)

theorem below_iff (mono : ∀ pays ∈ chain, Monotone pays) : Below limit chain n ↔ n < ceiling limit chain := by
  induction chain generalizing n with
  | nil => simp [Below,ceiling]
  | cons pays rest ih =>
    have first := mono pays List.mem_cons_self
    rw [Below,ceiling,lt_leastFor_iff first,lt_min_iff,Nat.cast_lt,
      ih fun later member => mono later (List.mem_cons_of_mem _ member)]

end chains

end Thresholds
