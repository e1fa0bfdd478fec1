import Mathlib.Order.Lattice
import Mathlib.Order.Nat
import Mathlib.Tactic.ByContra

/-! A search by thirds. It compares the values at the two inner thirds of its window
and drops the side that ends at the smaller one, the upper side if they are equal,
until at most three points are left. -/
namespace TernarySearch

universe u
variable {κ : Type u} [LinearOrder κ] {value : ℕ → κ} {best lo hi : ℕ}

def lowerThird (lo hi : ℕ) : ℕ := lo + (hi - lo) / 3

def upperThird (lo hi : ℕ) : ℕ := hi - (hi - lo) / 3

/-- The search never drops `best`. -/
inductive Keeps (value : ℕ → κ) (best : ℕ) : ℕ → ℕ → Prop
  | window {lo hi : ℕ} (near : hi - lo ≤ 2) (low : lo ≤ best) (high : best ≤ hi) : Keeps value best lo hi
  | rise {lo hi : ℕ} (wide : 2 < hi - lo) (rising : value (lowerThird lo hi) < value (upperThird lo hi))
      (rest : Keeps value best (lowerThird lo hi + 1) hi) : Keeps value best lo hi
  | fall {lo hi : ℕ} (wide : 2 < hi - lo) (falling : value (upperThird lo hi) ≤ value (lowerThird lo hi))
      (rest : Keeps value best lo (upperThird lo hi - 1)) : Keeps value best lo hi

theorem Keeps.inside (kept : Keeps value best lo hi) : lo ≤ best ∧ best ≤ hi := by
  induction kept with
  | window near low high => exact ⟨low,high⟩
  | rise wide rising rest ih =>
    unfold lowerThird at ih
    omega
  | fall wide falling rest ih =>
    unfold upperThird at ih
    omega

theorem keeps_near (near : hi - lo ≤ 2) : Keeps value best lo hi ↔ lo ≤ best ∧ best ≤ hi := by
  constructor
  · exact Keeps.inside
  · intro inside
    exact .window near inside.1 inside.2

theorem keeps_rise (wide : 2 < hi - lo) (rising : value (lowerThird lo hi) < value (upperThird lo hi)) :
    Keeps value best lo hi ↔ Keeps value best (lowerThird lo hi + 1) hi := by
  constructor
  · intro kept
    cases kept with
    | window near => omega
    | rise _ _ rest => exact rest
    | fall _ falling => exact absurd rising (not_lt.mpr falling)
  · exact .rise wide rising

theorem keeps_fall (wide : 2 < hi - lo) (falling : value (upperThird lo hi) ≤ value (lowerThird lo hi)) :
    Keeps value best lo hi ↔ Keeps value best lo (upperThird lo hi - 1) := by
  constructor
  · intro kept
    cases kept with
    | window near => omega
    | rise _ rising => exact absurd rising (not_lt.mpr falling)
    | fall _ _ rest => exact rest
  · exact .fall wide falling

/-- The values rise strictly up to `peak` and never rise after it. -/
structure Peaked (value : ℕ → κ) (peak lo hi : ℕ) : Prop where
  low : lo ≤ peak
  high : peak ≤ hi
  rises : ∀ x y, lo ≤ x → x < y → y ≤ peak → value x < value y
  falls : ∀ x y, peak ≤ x → x ≤ y → y ≤ hi → value y ≤ value x

theorem peaked_of_steps {peak : ℕ} (low : lo ≤ peak) (high : peak ≤ hi)
    (rises : ∀ x, lo ≤ x → x < peak → value x < value (x + 1))
    (falls : ∀ x, peak ≤ x → x < hi → value (x + 1) ≤ value x) : Peaked value peak lo hi := by
  refine ⟨low,high,fun x y inside ordered => ?_,fun x y after ordered => ?_⟩
  · induction y,ordered using Nat.le_induction with
    | base => exact rises x inside
    | succ y further ih =>
      intro before
      exact (ih (by omega)).trans (rises y (by omega) before)
  · induction y,ordered using Nat.le_induction with
    | base => exact fun _ => le_rfl
    | succ y further ih =>
      intro inside
      exact (falls y (by omega) inside).trans (ih (by omega))

theorem Peaked.largest {peak x : ℕ} (peaked : Peaked value peak lo hi) (low : lo ≤ x) (high : x ≤ hi) :
    value x ≤ value peak := by
  rcases lt_or_ge x peak with before | after
  · exact (peaked.rises x peak low before le_rfl).le
  · exact peaked.falls peak x le_rfl after high

/-- Such a peak is never dropped. -/
theorem Peaked.keeps {peak : ℕ} (peaked : Peaked value peak lo hi) : Keeps value peak lo hi := by
  -- by induction on the width of the window, over which the peak stays one
  induction width : hi - lo using Nat.strongRecOn generalizing lo hi with
  | ind width ih =>
    obtain ⟨low,high,rises,falls⟩ := peaked
    by_cases wide : 2 < hi - lo
    · have thirds : lo ≤ lowerThird lo hi ∧ lowerThird lo hi < upperThird lo hi ∧ upperThird lo hi ≤ hi := by
        unfold lowerThird upperThird
        omega
      obtain ⟨first,middle,last⟩ := thirds
      rcases lt_or_ge (value (lowerThird lo hi)) (value (upperThird lo hi)) with rising | falling
      · have beyond : lowerThird lo hi < peak := by
          by_contra before
          exact absurd rising (not_lt.mpr (falls _ _ (not_lt.mp before) middle.le last))
        refine .rise wide rising (ih _ ?_ ⟨beyond,high,?_,falls⟩ rfl)
        · omega
        · intro x y inside
          exact rises x y (by omega)
      · have below : peak < upperThird lo hi := by
          by_contra after
          exact absurd (rises _ _ first middle (not_lt.mp after)) (not_lt.mpr falling)
        refine .fall wide falling (ih _ ?_ ⟨low,by omega,rises,?_⟩ rfl)
        · omega
        · intro x y after ordered inside
          exact falls x y after ordered (by omega)
    · exact .window (by omega) low high

end TernarySearch
