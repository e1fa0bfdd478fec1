import Mathlib.Data.List.Nodup
import Mathlib.Algebra.BigOperators.Group.List.Basic
import Mathlib.Algebra.GroupWithZero.Nat
import Mathlib.Tactic.Common

/-! A finite store of entries that carry their own key, each key once. Writing an
entry replaces the one of its key, so no operation creates or drops a key. -/

structure KeyedStore {κ ν : Type*} (key : ν → κ) where
  entries : List ν
  unique : (entries.map key).Nodup

namespace KeyedStore

instance {κ ν : Type*} {key : ν → κ} [DecidableEq ν] : DecidableEq (KeyedStore key) := fun first second =>
  decidable_of_iff (first.entries = second.entries) <| by
    cases first
    cases second
    simp

variable {κ ν : Type*} {key : ν → κ} [DecidableEq κ]

omit [DecidableEq κ] in
def empty : KeyedStore key := ⟨[],List.nodup_nil⟩

def get (store : KeyedStore key) (k : κ) : Option ν :=
  store.entries.find? fun entry => key entry = k

def put (store : KeyedStore key) (new : ν) : KeyedStore key where
  entries := store.entries.map fun entry => if key entry = key new then new else entry
  unique := by
    have same : key ∘ (fun entry => if key entry = key new then new else entry) = key := by
      funext entry
      by_cases equal : key entry = key new <;> simp [equal]
    rw [List.map_map,same]
    exact store.unique

def total (store : KeyedStore key) (quantity : ν → ℕ) : ℕ :=
  (store.entries.map quantity).sum

theorem get_key {store : KeyedStore key} {k : κ} {entry : ν} (found : store.get k = some entry) :
    key entry = k := by
  simpa using List.find?_some found

theorem get_mem {store : KeyedStore key} {k : κ} {entry : ν} (found : store.get k = some entry) :
    entry ∈ store.entries :=
  List.mem_of_find?_eq_some found

theorem get_of_mem {store : KeyedStore key} {entry : ν} (member : entry ∈ store.entries) :
    store.get (key entry) = some entry := by
  obtain ⟨entries,unique⟩ := store
  dsimp only [get] at *
  induction entries with
  | nil => simp at member
  | cons first rest ih =>
    obtain ⟨absent,unique⟩ := List.nodup_cons.mp unique
    rcases List.mem_cons.mp member with rfl | member
    · simp
    · have other : key first ≠ key entry := by
        intro equal
        exact absent (equal ▸ List.mem_map_of_mem member)
      simpa [other] using ih unique member

theorem get_put_self {store : KeyedStore key} {old new : ν}
    (found : store.get (key new) = some old) : (store.put new).get (key new) = some new := by
  have member : new ∈ (store.put new).entries :=
    List.mem_map.mpr ⟨old,get_mem found,by simp [get_key found]⟩
  exact get_of_mem member

theorem get_put_other (store : KeyedStore key) {new : ν} {k : κ} (other : key new ≠ k) :
    (store.put new).get k = store.get k := by
  obtain ⟨entries,unique⟩ := store
  dsimp only [get,put]
  induction entries with
  | nil => rfl
  | cons first rest ih =>
    obtain ⟨-,unique⟩ := List.nodup_cons.mp unique
    by_cases written : key first = key new
    · simpa [written,other] using ih unique
    · by_cases wanted : key first = k
      · simp [wanted,show k ≠ key new from other.symm]
      · simpa [written,wanted] using ih unique

/-- Of two writes to one key the second counts. -/
theorem put_put (store : KeyedStore key) {first second : ν} (same : key first = key second) :
    (store.put first).put second = store.put second := by
  have entries : ((store.put first).put second).entries = (store.put second).entries := by
    simp only [put,List.map_map]
    apply List.map_congr_left
    intro entry _
    by_cases written : key entry = key second
    · simp [written,same]
    · simp [written,same]
  cases stored : (store.put first).put second
  cases once : store.put second
  rw [stored,once] at entries
  simp only [mk.injEq]
  exact entries

/-- A write changes a sum by exactly the entry it replaces. -/
theorem total_put {store : KeyedStore key} {old new : ν} (quantity : ν → ℕ)
    (found : store.get (key new) = some old) :
    (store.put new).total quantity + quantity old = store.total quantity + quantity new := by
  obtain ⟨entries,unique⟩ := store
  dsimp only [get,put,total] at *
  induction entries with
  | nil => simp at found
  | cons first rest ih =>
    obtain ⟨absent,unique⟩ := List.nodup_cons.mp unique
    by_cases written : key first = key new
    · have same : first = old := by simpa [written] using found
      have untouched : rest.map (fun entry => if key entry = key new then new else entry) =
          rest.map id := by
        apply List.map_congr_left
        intro entry member
        have other : key entry ≠ key new := by
          intro equal
          exact absent (written ▸ equal ▸ List.mem_map_of_mem member)
        simp [other]
      rw [List.map_cons,if_pos written,untouched,List.map_id,List.map_cons,List.map_cons,List.sum_cons,
        List.sum_cons,same]
      omega
    · have inner := ih unique (by simpa [written] using found)
      simp only [List.map_cons,written,if_false,List.sum_cons]
      omega

end KeyedStore
