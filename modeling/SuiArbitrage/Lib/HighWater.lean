import Mathlib.Data.List.Infix
import Mathlib.Order.MinMax
import Mathlib.Logic.Function.Basic
import Mathlib.Tactic.Common

/-! High-water marks: for each key the highest value met so far. Readings are taken one
by one, and a key is raised when its reading is above its mark. -/
namespace HighWater

variable {κ ν : Type*} [DecidableEq κ] [LinearOrder ν]

def Covers (marks : κ → Option ν) (key : κ) (value : ν) : Prop := ∃ mark, marks key = some mark ∧ value ≤ mark

omit [DecidableEq κ] in
theorem any_iff_covers {marks : κ → Option ν} {key : κ} {value : ν} :
    (marks key).any (value ≤ ·) = true ↔ Covers marks key value := by
  simp [Covers,Option.any_eq_true]

instance (marks : κ → Option ν) (key : κ) (value : ν) : Decidable (Covers marks key value) :=
  decidable_of_iff _ any_iff_covers

/-- The marks after the readings, and the keys that were raised on the way. -/
def advance (marks : κ → Option ν) : List (κ × ν) → (κ → Option ν) × List κ
  | [] => (marks,[])
  | (key,value) :: rest =>
    if Covers marks key value then advance marks rest
    else
      let (marks,raised) := advance (Function.update marks key (some value)) rest
      (marks,key :: raised)

variable {marks : κ → Option ν} {key other : κ} {value level : ν} {readings : List (κ × ν)}

omit [DecidableEq κ] in
theorem Covers.mono (covers : Covers marks key value) (lower : level ≤ value) : Covers marks key level := by
  obtain ⟨mark,found,below⟩ := covers
  exact ⟨mark,found,lower.trans below⟩

theorem covers_update (raised : ¬ Covers marks key value) :
    Covers (Function.update marks key (some value)) other level ↔ Covers marks other level ∨ other = key ∧ level ≤ value := by
  by_cases same : other = key
  · subst same
    simp only [Covers,Function.update_self,Option.some.injEq,exists_eq_left',true_and]
    refine ⟨.inr,?_⟩
    rintro (⟨mark,found,below⟩ | below)
    · by_contra above
      exact raised ⟨mark,found,(not_le.mp above).le.trans below⟩
    · exact below
  · simp only [Covers,Function.update_of_ne same,same,false_and,or_false]

theorem covers_advance :
    Covers (advance marks readings).1 key level ↔ Covers marks key level ∨ ∃ value, (key,value) ∈ readings ∧ level ≤ value := by
  induction readings generalizing marks with
  | nil => simp [advance]
  | cons reading rest ih =>
    obtain ⟨first,height⟩ := reading
    rw [advance]
    split
    · rename_i covered
      rw [ih]
      constructor
      · rintro (before | ⟨value,listed,below⟩)
        · exact .inl before
        · exact .inr ⟨value,List.mem_cons_of_mem _ listed,below⟩
      · rintro (before | ⟨value,listed,below⟩)
        · exact .inl before
        · rcases List.mem_cons.mp listed with same | later
          · obtain ⟨rfl,rfl⟩ := Prod.mk.inj same
            exact .inl (covered.mono below)
          · exact .inr ⟨value,later,below⟩
    · rename_i raised
      dsimp only
      rw [ih,covers_update raised]
      simp only [List.mem_cons,Prod.mk.injEq]
      constructor
      · rintro ((before | ⟨rfl,below⟩) | ⟨value,listed,below⟩)
        · exact .inl before
        · exact .inr ⟨height,.inl ⟨rfl,rfl⟩,below⟩
        · exact .inr ⟨value,.inr listed,below⟩
      · rintro (before | ⟨value,⟨rfl,rfl⟩ | listed,below⟩)
        · exact .inl (.inl before)
        · exact .inl (.inr ⟨rfl,below⟩)
        · exact .inr ⟨value,listed,below⟩

/-- A key is raised exactly when one of its readings is above its first mark. -/
theorem mem_raised : key ∈ (advance marks readings).2 ↔ ∃ value, (key,value) ∈ readings ∧ ¬ Covers marks key value := by
  induction readings generalizing marks with
  | nil => simp [advance]
  | cons reading rest ih =>
    obtain ⟨first,height⟩ := reading
    rw [advance]
    split
    · rename_i covered
      rw [ih]
      constructor
      · rintro ⟨value,listed,above⟩
        exact ⟨value,List.mem_cons_of_mem _ listed,above⟩
      · rintro ⟨value,listed,above⟩
        rcases List.mem_cons.mp listed with same | later
        · obtain ⟨rfl,rfl⟩ := Prod.mk.inj same
          exact absurd covered above
        · exact ⟨value,later,above⟩
    · rename_i raised
      dsimp only
      rw [List.mem_cons,ih]
      constructor
      · rintro (rfl | ⟨value,listed,above⟩)
        · exact ⟨height,List.mem_cons_self,raised⟩
        · refine ⟨value,List.mem_cons_of_mem _ listed,fun covered => above ?_⟩
          exact (covers_update raised).mpr (.inl covered)
      · rintro ⟨value,listed,above⟩
        by_cases same : key = first
        · exact .inl same
        · refine .inr ⟨value,(List.mem_cons.mp listed).resolve_left fun here => same (Prod.mk.inj here).1,?_⟩
          rw [covers_update raised]
          exact fun covered => covered.elim above fun here => same here.1

theorem covers_of_not_raised (kept : key ∉ (advance marks readings).2) (reading : (key,value) ∈ readings) :
    Covers marks key value := by
  by_contra above
  exact kept (mem_raised.mpr ⟨value,reading,above⟩)

theorem covers_advance_of_not_raised (kept : key ∉ (advance marks readings).2)
    (covers : Covers (advance marks readings).1 key level) : Covers marks key level := by
  rcases covers_advance.mp covers with before | ⟨value,reading,below⟩
  · exact before
  · exact (covers_of_not_raised kept reading).mono below

section history

/-- Each item with those before it. -/
def withPast {α : Type*} (items : List α) : List (List α × α) := items.inits.zip items

theorem withPast_cons {α : Type*} {item : α} {items : List α} :
    withPast (item :: items) = ([],item) :: (withPast items).map fun entry => (item :: entry.1,entry.2) := by
  simp [withPast,List.zip_map_left,Prod.map]

/-- Higher than every past reading of its key. -/
def New (past : List (κ × ν)) (reading : κ × ν) : Prop := ∀ earlier ∈ past, earlier.1 = reading.1 → earlier.2 < reading.2

instance (past : List (κ × ν)) (reading : κ × ν) : Decidable (New past reading) :=
  inferInstanceAs (Decidable (∀ earlier ∈ past, earlier.1 = reading.1 → earlier.2 < reading.2))

/-- The marks cover what the past readings cover. -/
def Recounts (marks : κ → Option ν) (past : List (κ × ν)) : Prop :=
  ∀ key level, Covers marks key level ↔ ∃ value, (key,value) ∈ past ∧ level ≤ value

variable {past : List (κ × ν)}

omit [DecidableEq κ] in
theorem recounts_start : Recounts (fun _ : κ => (none : Option ν)) [] := by
  simp [Recounts,Covers]

theorem Recounts.advance (recounts : Recounts marks past) : Recounts (advance marks readings).1 (past ++ readings) := by
  intro key level
  simp only [covers_advance,recounts key level,List.mem_append,or_and_right,exists_or]

omit [DecidableEq κ] in
theorem Recounts.new_iff (recounts : Recounts marks past) : New past (key,value) ↔ ¬ Covers marks key value := by
  rw [recounts key value]
  refine ⟨fun new held => ?_,fun above earlier member same => ?_⟩
  · obtain ⟨higher,member,below⟩ := held
    exact (new _ member rfl).not_ge below
  · obtain rfl : earlier.1 = key := same
    exact not_le.mp fun below => above ⟨earlier.2,member,below⟩

/-- The keys raised are those of the new readings, in their order. -/
theorem Recounts.raised (recounts : Recounts marks past) :
    (HighWater.advance marks readings).2 = ((withPast readings).filter fun entry => New (past ++ entry.1) entry.2).map (·.2.1) := by
  induction readings generalizing marks past with
  | nil => rfl
  | cons reading rest ih =>
    obtain ⟨first,height⟩ := reading
    have step : Recounts (HighWater.advance marks [(first,height)]).1 (past ++ [(first,height)]) := recounts.advance
    rw [HighWater.advance,withPast_cons,List.filter_cons,List.append_nil,List.filter_map,Function.comp_def]
    by_cases covered : Covers marks first height
    · have same : (HighWater.advance marks [(first,height)]).1 = marks := by simp [HighWater.advance,covered]
      rw [same] at step
      rw [if_pos covered,if_neg (by simp [recounts.new_iff,covered]),ih step,List.map_map]
      simp only [List.append_assoc,List.singleton_append]
      rfl
    · have moved : (HighWater.advance marks [(first,height)]).1 = Function.update marks first (some height) := by
        simp [HighWater.advance,covered]
      rw [moved] at step
      rw [if_neg covered,if_pos (by simp [recounts.new_iff,covered]),List.map_cons,List.map_map]
      simp only [ih step,List.append_assoc,List.singleton_append]
      rfl

/-- Each mark is the highest reading of its key. -/
theorem Recounts.mark (recounts : Recounts marks past) :
    marks key = ((past.filter (·.1 = key)).map Prod.snd).max? := by
  have : Std.LawfulOrderMax ν := {max_eq_or := max_choice, max_le_iff _ _ _ := max_le_iff}
  have listed {value : ν} : value ∈ (past.filter (·.1 = key)).map Prod.snd ↔ (key,value) ∈ past := by simp
  cases found : marks key with
  | none =>
    have none_read (value : ν) : value ∉ (past.filter (·.1 = key)).map Prod.snd := by
      intro member
      obtain ⟨mark,held,-⟩ := (recounts key value).mpr ⟨value,listed.mp member,le_rfl⟩
      rw [found] at held
      cases held
    rw [List.eq_nil_iff_forall_not_mem.mpr none_read]
    rfl
  | some mark =>
    have highest (value : ν) (member : (key,value) ∈ past) : value ≤ mark := by
      obtain ⟨held,same,below⟩ := (recounts key value).mpr ⟨value,member,le_rfl⟩
      rw [found] at same
      exact below.trans (Option.some.inj same).ge
    obtain ⟨value,member,below⟩ := (recounts key mark).mp ⟨mark,found,le_rfl⟩
    obtain rfl := le_antisymm below (highest value member)
    exact (List.max?_eq_some_iff.mpr ⟨listed.mpr member,fun other held => highest other (listed.mp held)⟩).symm

end history

end HighWater
