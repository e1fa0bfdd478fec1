import Mathlib.Algebra.GroupWithZero.Nat
import Mathlib.Algebra.Order.BigOperators.Group.List
import Mathlib.Algebra.Order.Group.Nat
import Mathlib.Data.List.Perm.Subperm
import Mathlib.Data.Nat.Lattice
import Mathlib.Tactic.Common

/-! Covering a need with as few weighted items as possible. The first items of a
descending list weigh the most among as many, so the shortest of its beginnings that
covers the need is a fewest cover. -/
namespace GreedyCover
open List

variable {α : Type*} (weight : α → ℕ)

def weigh (items : List α) : ℕ := (items.map weight).sum

/-- The sizes of the covers of the need among the items. -/
def coverSizes (items : List α) (need : ℕ) : Set ℕ :=
  {count | ∃ chosen, chosen <+~ items ∧ chosen.length = count ∧ need ≤ weigh weight chosen}

/-- The heaviest item comes first. -/
def Descending (items : List α) : Prop := items.Pairwise fun a b => weight b ≤ weight a

variable {weight} {items others chosen : List α} {need count : ℕ}

@[simp] theorem weigh_nil : weigh weight [] = 0 := rfl

@[simp] theorem weigh_cons {a : α} : weigh weight (a :: items) = weight a + weigh weight items := by
  simp [weigh]

theorem weigh_perm (same : chosen ~ items) : weigh weight chosen = weigh weight items := (same.map weight).sum_eq

theorem weigh_sublist_le (sub : chosen <+ items) : weigh weight chosen ≤ weigh weight items :=
  (sub.map weight).sum_le_sum fun _ _ => Nat.zero_le _

/-- Any items of a descending list weigh at most what as many of its first ones do. -/
theorem weigh_sublist_take (descending : Descending weight items) (sub : chosen <+ items) (short : chosen.length ≤ count) :
    weigh weight chosen ≤ weigh weight (items.take count) := by
  induction items generalizing chosen count with
  | nil =>
    obtain rfl := List.sublist_nil.mp sub
    simp
  | cons a rest ih =>
    obtain ⟨heaviest,descending⟩ := List.pairwise_cons.mp descending
    cases chosen with
    | nil => simp
    | cons b chosen =>
      obtain ⟨count,rfl⟩ := Nat.exists_eq_add_one_of_ne_zero (Nat.ne_zero_of_lt short)
      have lighter : weight b ≤ weight a := by
        rcases List.mem_cons.mp (sub.subset List.mem_cons_self) with rfl | later
        · exact le_rfl
        · exact heaviest b later
      have tail := ih descending sub.tail (Nat.le_of_succ_le_succ short)
      simpa using Nat.add_le_add lighter tail

theorem weigh_subperm_take (descending : Descending weight items) (sub : chosen <+~ items) (short : chosen.length ≤ count) :
    weigh weight chosen ≤ weigh weight (items.take count) := by
  obtain ⟨same,reordered,sub⟩ := sub
  rw [← weigh_perm reordered]
  exact weigh_sublist_take descending sub (reordered.length_eq.trans_le short)

/-- Fewer items of a part of them do not cover the need. -/
theorem weigh_take_lt {fewer : ℕ} (least : IsLeast (coverSizes weight others need) count) (part : items <+~ others)
    (less : fewer < count) : weigh weight (items.take fewer) < need := by
  by_contra covers
  have size : (items.take fewer).length ≤ fewer := List.length_take_le fewer items
  have member : (items.take fewer).length ∈ coverSizes weight others need :=
    ⟨_,(List.take_sublist fewer items).subperm.trans part,rfl,not_lt.mp covers⟩
  exact absurd (least.2 member) (not_le.mpr (size.trans_lt less))

theorem exists_least (enough : need ≤ weigh weight items) : ∃ count, IsLeast (coverSizes weight items need) count := by
  have covers : (coverSizes weight items need).Nonempty := ⟨_,items,Subperm.refl items,rfl,enough⟩
  exact ⟨_,Nat.sInf_mem covers,fun _ member => Nat.sInf_le member⟩

/-- Of a descending list the first items are a fewest cover. -/
theorem le_weigh_take (descending : Descending weight items) (same : items ~ others)
    (least : IsLeast (coverSizes weight others need) count) : need ≤ weigh weight (items.take count) := by
  obtain ⟨chosen,sub,size,enough⟩ := least.1
  exact enough.trans (weigh_subperm_take descending (sub.trans same.symm.subperm) size.le)

end GreedyCover
