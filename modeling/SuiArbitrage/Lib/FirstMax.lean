import SuiArbitrage.Lib.Fallible
import Mathlib.Order.Lattice
import Mathlib.Data.List.Induction
import Mathlib.Data.List.ReduceOption

/-! The first of the largest: a candidate replaces the best one so far only if its
key is strictly larger. -/
namespace FirstMax
open Fallible

universe u v

section keep
variable {α : Type u} {κ : Type v} [LinearOrder κ] (key : α → κ)

def keep (best : Option α) (candidate : α) : Option α :=
  match best with
  | none => some candidate
  | some best => if key best < key candidate then some candidate else some best

def firstMax (candidates : List α) : Option α := candidates.foldl (keep key) none

@[simp] theorem keep_none (candidate : α) : keep key none candidate = some candidate := rfl

@[simp] theorem keep_some (best candidate : α) :
    keep key (some best) candidate = if key best < key candidate then some candidate else some best := rfl

@[simp] theorem firstMax_nil : firstMax key [] = none := rfl

theorem firstMax_concat (candidates : List α) (candidate : α) :
    firstMax key (candidates ++ [candidate]) = keep key (firstMax key candidates) candidate := by
  simp [firstMax]

theorem keep_isSome (best : Option α) (candidate : α) : (keep key best candidate).isSome := by
  cases best with
  | none => rfl
  | some best =>
    rw [keep_some]
    split <;> rfl

theorem keep_covers (best : Option α) (candidate : α) :
    ∃ kept, keep key best candidate = some kept ∧ key candidate ≤ key kept ∧
      (∀ former, best = some former → key former ≤ key kept) ∧ (kept = candidate ∨ best = some kept) := by
  cases best with
  | none => exact ⟨candidate,rfl,le_rfl,nofun,.inl rfl⟩
  | some former =>
    rw [keep_some]
    split
    · rename_i larger
      refine ⟨candidate,rfl,le_rfl,fun _ same => ?_,.inl rfl⟩
      obtain rfl := Option.some.inj same
      exact larger.le
    · rename_i kept
      refine ⟨former,rfl,not_lt.mp kept,fun _ same => ?_,.inr rfl⟩
      obtain rfl := Option.some.inj same
      exact le_rfl

theorem firstMax_eq_none {candidates : List α} : firstMax key candidates = none ↔ candidates = [] := by
  constructor
  · intro nothing
    rcases List.eq_nil_or_concat candidates with rfl | ⟨rest,last,rfl⟩
    · rfl
    · have kept := keep_isSome key (firstMax key rest) last
      rw [List.concat_eq_append,firstMax_concat] at nothing
      rw [nothing] at kept
      cases kept
  · rintro rfl
    rfl

/-- The candidate chosen exceeds every one before it and reaches every one after it. -/
theorem firstMax_some {candidates : List α} {best : α} (chosen : firstMax key candidates = some best) :
    ∃ before after, candidates = before ++ best :: after ∧
      (∀ earlier ∈ before, key earlier < key best) ∧ ∀ later ∈ after, key later ≤ key best := by
  induction candidates using List.reverseRecOn generalizing best with
  | nil => cases chosen
  | append_singleton rest last ih =>
    rw [firstMax_concat] at chosen
    cases previous : firstMax key rest with
    | none =>
      obtain rfl := (firstMax_eq_none key).mp previous
      obtain rfl := Option.some.inj chosen
      exact ⟨[],[],rfl,nofun,nofun⟩
    | some former =>
      obtain ⟨before,after,rfl,smaller,reached⟩ := ih previous
      rw [previous,keep_some] at chosen
      split at chosen
      · rename_i larger
        obtain rfl := Option.some.inj chosen
        refine ⟨before ++ former :: after,[],rfl,?_,nofun⟩
        intro earlier member
        rcases List.mem_append.mp member with first | second
        · exact (smaller earlier first).trans larger
        · rcases List.mem_cons.mp second with rfl | later
          · exact larger
          · exact (reached earlier later).trans_lt larger
      · rename_i kept
        obtain rfl := Option.some.inj chosen
        refine ⟨before,after ++ [last],by simp,smaller,?_⟩
        intro later member
        rcases List.mem_append.mp member with first | second
        · exact reached later first
        · obtain rfl := List.mem_singleton.mp second
          exact not_lt.mp kept

theorem firstMax_mem {candidates : List α} {best : α} (chosen : firstMax key candidates = some best) :
    best ∈ candidates ∧ ∀ other ∈ candidates, key other ≤ key best := by
  obtain ⟨before,after,rfl,smaller,reached⟩ := firstMax_some key chosen
  refine ⟨by simp,fun other member => ?_⟩
  rcases List.mem_append.mp member with first | second
  · exact (smaller other first).le
  · rcases List.mem_cons.mp second with rfl | later
    · exact le_rfl
    · exact reached other later

theorem firstMax_reaches {candidates : List α} {candidate : α} (member : candidate ∈ candidates) :
    ∃ best, firstMax key candidates = some best ∧ key candidate ≤ key best := by
  cases chosen : firstMax key candidates with
  | none =>
    rw [(firstMax_eq_none key).mp chosen] at member
    cases member
  | some best => exact ⟨best,rfl,(firstMax_mem key chosen).2 candidate member⟩

theorem firstMax_key_congr {first second : List α} (same : ∀ candidate, candidate ∈ first ↔ candidate ∈ second) :
    (firstMax key first).map key = (firstMax key second).map key := by
  cases one : firstMax key first with
  | none =>
    obtain rfl := (firstMax_eq_none key).mp one
    obtain rfl : second = [] := List.eq_nil_iff_forall_not_mem.mpr fun candidate member =>
      List.not_mem_nil ((same candidate).mpr member)
    rfl
  | some best =>
    obtain ⟨member,largest⟩ := firstMax_mem key one
    cases two : firstMax key second with
    | none =>
      obtain rfl := (firstMax_eq_none key).mp two
      exact absurd ((same best).mp member) List.not_mem_nil
    | some best' =>
      obtain ⟨member',largest'⟩ := firstMax_mem key two
      have below := largest best' ((same best').mpr member')
      have above := largest' best ((same best).mp member)
      exact congrArg some (le_antisymm above below)

theorem firstMax_cons_of_le {first : α} {rest : List α} (largest : ∀ other ∈ rest, key other ≤ key first) :
    firstMax key (first :: rest) = some first := by
  induction rest using List.reverseRecOn with
  | nil => rfl
  | append_singleton rest last ih =>
    have before := ih (fun other member => largest other (List.mem_append_left _ member))
    have notLarger : ¬ key first < key last := not_lt.mpr (largest last (by simp))
    rw [← List.cons_append,firstMax_concat,before,keep_some,if_neg notLarger]

theorem firstMax_append (first second : List α) :
    firstMax key (first ++ second) =
      match firstMax key second with
      | none => firstMax key first
      | some best => keep key (firstMax key first) best := by
  induction second using List.reverseRecOn with
  | nil => simp
  | append_singleton rest last ih =>
    rw [← List.append_assoc,firstMax_concat,firstMax_concat,ih]
    cases firstMax key rest with
    | none => simp
    | some best =>
      cases firstMax key first with
      | none => simp only [keep_none,keep_some]; split <;> rfl
      | some former =>
        simp only [keep_some]
        by_cases better : key former < key best
        · by_cases larger : key best < key last
          · simp [better,larger,better.trans larger]
          · simp [better,larger]
        · by_cases larger : key best < key last
          · simp [better,larger]
          · have small : ¬ key former < key last := not_lt.mpr ((not_lt.mp larger).trans (not_lt.mp better))
            simp [better,larger,small]

/-- Choosing within groups and then among their choices is choosing at once. -/
theorem firstMax_flatten (groups : List (List α)) :
    firstMax key (groups.map (firstMax key)).reduceOption = firstMax key groups.flatten := by
  induction groups using List.reverseRecOn with
  | nil => rfl
  | append_singleton rest last ih =>
    have flattened : (rest ++ [last]).flatten = rest.flatten ++ last := by simp
    rw [flattened,firstMax_append,← ih,List.map_append,List.reduceOption_append]
    cases chosen : firstMax key last with
    | none => simp [chosen,List.reduceOption]
    | some best => simpa [chosen,List.reduceOption] using firstMax_concat key _ best

end keep

section loop
variable {α : Type u} {β ε : Type u} {κ : Type v} [LinearOrder κ] (key : β → κ)

/-- The loop that evaluates each item, passes over those without a result and keeps
the best of the others. -/
def bestOf (evaluate : α → Except ε (Option β)) (items : List α) : Except ε (Option β) :=
  items.foldlM (fun best item => do
    match ← evaluate item with
    | none => pure best
    | some candidate => pure (keep key best candidate)) none

theorem bestOf_concat (evaluate : α → Except ε (Option β)) (items : List α) (item : α) :
    bestOf key evaluate (items ++ [item]) = bestOf key evaluate items >>= fun best =>
      evaluate item >>= fun value =>
        match value with
        | none => pure best
        | some candidate => pure (keep key best candidate) := by
  simp only [bestOf,List.foldlM_append,List.foldlM_cons,List.foldlM_nil,bind_pure]

theorem mapM_concat_ok {γ : Type u} {evaluate : α → Except ε γ} {items : List α} {item : α} {values : List γ} :
    (items ++ [item]).mapM evaluate = .ok values ↔
      ∃ former value, items.mapM evaluate = .ok former ∧ evaluate item = .ok value ∧
        values = former ++ [value] := by
  simp only [List.mapM_append,List.mapM_cons,List.mapM_nil,bind_ok,pure_ok]
  constructor
  · rintro ⟨former,first,last,⟨value,second,rest,rfl,rfl⟩,rfl⟩
    exact ⟨former,value,first,second,rfl⟩
  · rintro ⟨former,value,first,second,rfl⟩
    exact ⟨former,first,[value],⟨value,second,[],rfl,rfl⟩,rfl⟩

theorem bestOf_ok {evaluate : α → Except ε (Option β)} {items : List α} {result : Option β} :
    bestOf key evaluate items = .ok result ↔
      ∃ values, items.mapM evaluate = .ok values ∧ result = firstMax key values.reduceOption := by
  induction items using List.reverseRecOn generalizing result with
  | nil => simp [bestOf,eq_comm]
  | append_singleton rest last ih =>
    rw [bestOf_concat]
    simp only [bind_ok,ih,mapM_concat_ok]
    constructor
    · rintro ⟨best,⟨values,mapped,rfl⟩,value,evaluated,kept⟩
      refine ⟨values ++ [value],⟨values,value,mapped,evaluated,rfl⟩,?_⟩
      cases value with
      | none => simpa [List.reduceOption_append,List.reduceOption] using (pure_ok.mp kept).symm
      | some candidate =>
        rw [List.reduceOption_append]
        exact (pure_ok.mp kept).symm.trans (firstMax_concat key _ candidate).symm
    · rintro ⟨values,⟨former,value,mapped,evaluated,rfl⟩,rfl⟩
      refine ⟨_,⟨former,mapped,rfl⟩,value,evaluated,?_⟩
      cases value with
      | none => simp [List.reduceOption]
      | some candidate =>
        rw [List.reduceOption_append]
        exact pure_ok.mpr (firstMax_concat key _ candidate).symm

/-- What it keeps is the result of some item. -/
theorem bestOf_some {evaluate : α → Except ε (Option β)} {items : List α} {best : β}
    (found : bestOf key evaluate items = .ok (some best)) : ∃ item ∈ items, evaluate item = .ok (some best) := by
  obtain ⟨values,mapped,chosen⟩ := (bestOf_ok key).mp found
  have member := (firstMax_mem key chosen.symm).1
  exact mapM_mem mapped (List.reduceOption_mem_iff.mp member)

theorem bestOf_returns {evaluate : α → Except ε (Option β)} {items : List α}
    (each : ∀ item ∈ items, ∃ value, evaluate item = .ok value) : ∃ result, bestOf key evaluate items = .ok result := by
  obtain ⟨values,mapped⟩ := mapM_of_forall each
  exact ⟨_,(bestOf_ok key).mpr ⟨values,mapped,rfl⟩⟩

theorem bestOf_error {evaluate : α → Except ε (Option β)} {items : List α} {fault : ε}
    (failed : bestOf key evaluate items = .error fault) : ∃ item ∈ items, evaluate item = .error fault := by
  induction items using List.reverseRecOn with
  | nil => cases failed
  | append_singleton rest last ih =>
    rw [bestOf_concat] at failed
    rcases bind_error.mp failed with former | ⟨best,-,failed⟩
    · obtain ⟨item,member,faulty⟩ := ih former
      exact ⟨item,List.mem_append_left _ member,faulty⟩
    · rcases bind_error.mp failed with faulty | ⟨value,-,failed⟩
      · exact ⟨last,by simp,faulty⟩
      · cases value with
        | none => cases failed
        | some candidate => cases failed

end loop

end FirstMax
