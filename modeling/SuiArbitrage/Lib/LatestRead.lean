import Mathlib.Data.List.Induction
import Mathlib.Logic.Function.Basic

/-! A store that every read of a key overwrites, unless the read fails. Over any sequence of
reads it holds the latest successful read of each key. -/
namespace LatestRead

variable {κ ν : Type*} [DecidableEq κ]

def absorb (store : κ → Option ν) (read : κ × Option ν) : κ → Option ν :=
  match read.2 with
  | none => store
  | some value => Function.update store read.1 (some value)

def latest (reads : List (κ × Option ν)) (k : κ) : Option ν :=
  (reads.filterMap fun read => if read.1 = k then read.2 else none).getLast?

@[simp] theorem latest_nil (k : κ) : latest ([] : List (κ × Option ν)) k = none := rfl

theorem latest_concat (reads : List (κ × Option ν)) (read : κ × Option ν) (k : κ) :
    latest (reads ++ [read]) k = if read.1 = k then read.2.or (latest reads k) else latest reads k := by
  unfold latest
  rw [List.filterMap_append,List.getLast?_append]
  split
  next here =>
    cases found : read.2 with
    | none => simp [found]
    | some value => simp [here,found]
  next elsewhere => simp [elsewhere]

@[simp] theorem latest_concat_self (reads : List (κ × Option ν)) (k : κ) (value : ν) :
    latest (reads ++ [(k,some value)]) k = some value := by
  rw [latest_concat,if_pos rfl,Option.some_or]

theorem absorb_latest (reads : List (κ × Option ν)) (read : κ × Option ν) :
    absorb (latest reads) read = latest (reads ++ [read]) := by
  ext1 k
  rw [latest_concat]
  obtain ⟨key,found⟩ := read
  cases found with
  | none => simp [absorb]
  | some value =>
    by_cases here : key = k
    · subst here
      simp [absorb]
    · simp [absorb,here,Function.update_of_ne (Ne.symm here)]

/-- The latest success and what came after it: only failures, as far as this key goes. -/
theorem latest_eq_some {reads : List (κ × Option ν)} {k : κ} {value : ν} :
    latest reads k = some value ↔
      ∃ before after, reads = before ++ (k,some value) :: after ∧ ∀ read ∈ after, read.1 = k → read.2 = none := by
  induction reads using List.reverseRecOn with
  | nil => simp
  | append_singleton rest last ih =>
    rw [latest_concat]
    constructor
    · intro found
      split at found
      next here =>
        obtain ⟨key,result⟩ := last
        obtain rfl : key = k := here
        cases result with
        | some newer =>
          obtain rfl := Option.some.inj found
          exact ⟨rest,[],rfl,nofun⟩
        | none =>
          obtain ⟨before,after,rfl,failed⟩ := ih.mp found
          refine ⟨before,after ++ [(key,none)],by simp,fun read member same => ?_⟩
          rcases List.mem_append.mp member with earlier | newest
          · exact failed read earlier same
          · rw [List.mem_singleton.mp newest]
      next elsewhere =>
        obtain ⟨before,after,rfl,failed⟩ := ih.mp found
        refine ⟨before,after ++ [last],by simp,fun read member same => ?_⟩
        rcases List.mem_append.mp member with earlier | newest
        · exact failed read earlier same
        · rw [List.mem_singleton.mp newest] at same
          exact absurd same elsewhere
    · rintro ⟨before,after,split,failed⟩
      rcases List.eq_nil_or_concat after with rfl | ⟨others,newest,rfl⟩
      · obtain ⟨rfl,same⟩ := List.append_inj' split rfl
        obtain rfl := List.singleton_inj.mp same
        simp
      · rw [List.concat_eq_append,← List.cons_append,← List.append_assoc] at split
        obtain ⟨rfl,same⟩ := List.append_inj' split rfl
        obtain rfl := List.singleton_inj.mp same
        have earlier := ih.mpr ⟨before,others,rfl,fun read member => failed read (by simp [member])⟩
        split_ifs with here
        · rw [failed last (by simp) here,Option.none_or,earlier]
        · exact earlier

end LatestRead
