import Mathlib.Algebra.BigOperators.Group.Multiset.Basic
import Mathlib.Algebra.Order.Group.Multiset
import Mathlib.Tactic.Abel

/-! Straight-line programs over values that can be neither copied nor dropped. The values
that exist between two commands are a multiset; a command takes some away, needs others to
be there and makes new ones. A program that starts and ends with nothing takes each value
exactly as often as it makes it, and only after it made it. -/
namespace LinearContext

structure Effect (V : Type*) where
  taken : Multiset V
  kept : Multiset V
  made : Multiset V

variable {V : Type*} {effect : Effect V} {effects later : List (Effect V)} {context middle after : Multiset V}

def takenBy (effects : List (Effect V)) : Multiset V := (effects.map Effect.taken).sum

def madeBy (effects : List (Effect V)) : Multiset V := (effects.map Effect.made).sum

variable [DecidableEq V]

def Effect.apply (effect : Effect V) (context : Multiset V) : Option (Multiset V) :=
  if effect.taken ≤ context ∧ effect.kept ≤ context - effect.taken then some (effect.made + (context - effect.taken))
  else none

def runs (effects : List (Effect V)) (context : Multiset V) : Option (Multiset V) :=
  effects.foldlM (fun context effect => effect.apply context) context

theorem apply_eq_some : effect.apply context = some after ↔
    ∃ rest, context = effect.taken + rest ∧ effect.kept ≤ rest ∧ after = effect.made + rest := by
  rw [Effect.apply]
  constructor
  · intro applied
    split at applied
    · rename_i there
      refine ⟨context - effect.taken,?_,there.2,(Option.some.inj applied).symm⟩
      rw [add_tsub_cancel_of_le there.1]
    · cases applied
  · intro ⟨rest,same,kept,made⟩
    have left : context - effect.taken = rest := by rw [same,add_tsub_cancel_left]
    rw [left,if_pos ⟨same ▸ le_add_of_nonneg_right (Multiset.zero_le rest),kept⟩,made]

/-- What a command does not touch stays as it is. -/
theorem apply_frame (applied : effect.apply context = some after) (frame : Multiset V) :
    effect.apply (context + frame) = some (after + frame) := by
  obtain ⟨rest,same,kept,made⟩ := apply_eq_some.mp applied
  refine apply_eq_some.mpr ⟨rest + frame,?_,kept.trans (Multiset.le_add_right rest frame),?_⟩
  · rw [same,add_assoc]
  · rw [made,add_assoc]

theorem runs_cons : runs (effect :: effects) context = some after ↔
    ∃ middle, effect.apply context = some middle ∧ runs effects middle = some after := by
  rw [runs,List.foldlM_cons]
  exact Option.bind_eq_some_iff

theorem runs_append : runs (effects ++ later) context = some after ↔
    ∃ middle, runs effects context = some middle ∧ runs later middle = some after := by
  rw [runs,List.foldlM_append]
  exact Option.bind_eq_some_iff

theorem runs_frame (ran : runs effects context = some after) (frame : Multiset V) :
    runs effects (context + frame) = some (after + frame) := by
  induction effects generalizing context with
  | nil => rw [runs,List.foldlM_nil,← Option.some.inj ran]; rfl
  | cons effect effects ih =>
    obtain ⟨middle,applied,ran⟩ := runs_cons.mp ran
    exact runs_cons.mpr ⟨_,apply_frame applied frame,ih ran⟩

theorem runs_balance (ran : runs effects context = some after) :
    context + madeBy effects = takenBy effects + after := by
  induction effects generalizing context with
  | nil =>
    obtain rfl := Option.some.inj ran
    simp [madeBy,takenBy]
  | cons effect effects ih =>
    obtain ⟨middle,applied,ran⟩ := runs_cons.mp ran
    obtain ⟨rest,rfl,-,rfl⟩ := apply_eq_some.mp applied
    have balanced := ih ran
    simp only [madeBy,takenBy,List.map_cons,List.sum_cons] at balanced ⊢
    calc effect.taken + rest + (effect.made + (effects.map Effect.made).sum)
        = effect.taken + (effect.made + rest + (effects.map Effect.made).sum) := by abel
      _ = effect.taken + (effects.map Effect.taken).sum + after := by rw [balanced,add_assoc]

/-- Nothing is left over, so each value is taken exactly as often as it is made. -/
theorem taken_eq_made (ran : runs effects 0 = some 0) : takenBy effects = madeBy effects := by
  have balanced := runs_balance ran
  rw [zero_add,add_zero] at balanced
  exact balanced.symm

/-- What a command takes or needs was made by the commands before it, and not taken by them. -/
theorem used_after_made (ran : runs (effects ++ effect :: later) 0 = some after) :
    takenBy effects + effect.taken + effect.kept ≤ madeBy effects := by
  obtain ⟨middle,before,ran⟩ := runs_append.mp ran
  obtain ⟨next,applied,-⟩ := runs_cons.mp ran
  obtain ⟨rest,rfl,kept,-⟩ := apply_eq_some.mp applied
  have balanced := runs_balance before
  rw [zero_add,← add_assoc] at balanced
  rw [balanced]
  exact add_le_add_right kept _

end LinearContext
