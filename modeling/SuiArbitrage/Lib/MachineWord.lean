import Mathlib.Data.Fin.Basic
import Mathlib.Data.Int.Order.Basic
import Mathlib.Algebra.Order.Ring.Int
import Mathlib.Tactic.Ring
import Mathlib.Tactic.Linarith

/-! Unsigned machine words of a fixed width, with the three ways a language can
narrow an exact integer into one: reduce it, reject it, or clamp it. -/
namespace MachineWord

abbrev U8 := Fin (2^8)
abbrev U32 := Fin (2^32)
abbrev U64 := Fin (2^64)
abbrev U128 := Fin (2^128)

-- Constants of their own, so that a literal of a word type is the same term in every module.
instance neZeroU8 : NeZero (2^8) := ⟨by norm_num⟩
instance neZeroU32 : NeZero (2^32) := ⟨by norm_num⟩
instance neZeroU64 : NeZero (2^64) := ⟨by norm_num⟩
instance neZeroU128 : NeZero (2^128) := ⟨by norm_num⟩

/-- Two's complement words keep their range as a field. -/
abbrev I32 := {z : ℤ // -2^31 ≤ z ∧ z < 2^31}
abbrev I128 := {z : ℤ // -2^127 ≤ z ∧ z < 2^127}

def Fits (w : ℕ) (z : ℤ) : Prop := 0 ≤ z ∧ z < 2^w

instance (w : ℕ) (z : ℤ) : Decidable (Fits w z) := inferInstanceAs (Decidable (_ ∧ _))

/-- Reduction modulo `2^w`: what wrapping arithmetic and truncating casts do. -/
def wrap (w : ℕ) (z : ℤ) : Fin (2^w) :=
  ⟨(z % 2^w).toNat,by
    have positive : (0 : ℤ) < 2^w := by positivity
    have bound := Int.emod_lt_of_pos z positive
    have nonnegative := Int.emod_nonneg z positive.ne'
    have cast : ((2^w : ℕ) : ℤ) = 2^w := by push_cast; rfl
    omega⟩

def asI32 (x : U32) : I32 :=
  ⟨if x.val < 2^31 then x.val else x.val - 2^32,by have := x.isLt; split <;> omega⟩

def asI128 (x : U128) : I128 :=
  ⟨if x.val < 2^127 then x.val else x.val - 2^128,by have := x.isLt; split <;> omega⟩

def saturatingAdd {w : ℕ} (x y : Fin (2^w)) : Fin (2^w) :=
  ⟨min (x.val + y.val) (2^w - 1),by have := Nat.two_pow_pos w; omega⟩

def saturatingSub {w : ℕ} (x y : Fin (2^w)) : Fin (2^w) :=
  ⟨x.val - y.val,by omega⟩

theorem div_bound {w : ℕ} (x y : Fin (2^w)) : x.val / y.val < 2^w :=
  (Nat.div_le_self _ _).trans_lt x.isLt

theorem fits_natCast {w n : ℕ} : Fits w (n : ℤ) ↔ n < 2^w := by
  constructor
  · intro fits
    exact_mod_cast fits.2
  · intro bound
    exact ⟨Int.natCast_nonneg n,by exact_mod_cast bound⟩

theorem wrap_val (w : ℕ) (z : ℤ) : ((wrap w z).val : ℤ) = z % 2^w := by
  have positive : (0 : ℤ) < 2^w := by positivity
  exact Int.toNat_of_nonneg (Int.emod_nonneg z positive.ne')

theorem wrap_of_fits {w : ℕ} {z : ℤ} (fits : Fits w z) : ((wrap w z).val : ℤ) = z := by
  rw [wrap_val,Int.emod_eq_of_lt fits.1 fits.2]

theorem wrap_natCast (w n : ℕ) : (wrap w (n : ℤ)).val = n % 2^w := by
  have exact := wrap_val w (n : ℤ)
  exact_mod_cast exact

@[simp] theorem wrap_val_of_lt {w n : ℕ} (bound : n < 2^w) : (wrap w (n : ℤ)).val = n := by
  rw [wrap_natCast,Nat.mod_eq_of_lt bound]

theorem wrap_natCast_le (w n : ℕ) : (wrap w (n : ℤ)).val ≤ n := by
  rw [wrap_natCast]
  exact Nat.mod_le n (2^w)

@[simp] theorem saturatingAdd_val {w : ℕ} (x y : Fin (2^w)) :
    (saturatingAdd x y).val = min (x.val + y.val) (2^w - 1) := rfl

@[simp] theorem saturatingSub_val {w : ℕ} (x y : Fin (2^w)) :
    (saturatingSub x y).val = x.val - y.val := rfl

end MachineWord
