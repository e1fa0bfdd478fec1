import Mathlib.Data.List.Forall2
import Mathlib.Logic.Relation

/-! Steps that may fail and the two ways of running a list of them: as one
transaction, which fails with its first failing step, and one by one, where a
failed step leaves the state as it was. -/
namespace Fallible

universe u v

section inversion
variable {ε : Type v} {α β : Type u}

theorem bind_ok {x : Except ε α} {next : α → Except ε β} {result : β} :
    (x >>= next) = .ok result ↔ ∃ value, x = .ok value ∧ next value = .ok result := by
  cases x with
  | error fault => simp [bind,Except.bind]
  | ok value => simp [bind,Except.bind]

theorem bind_error {x : Except ε α} {next : α → Except ε β} {fault : ε} :
    (x >>= next) = .error fault ↔ x = .error fault ∨ ∃ value, x = .ok value ∧ next value = .error fault := by
  cases x with
  | error other => simp [bind,Except.bind]
  | ok value => simp [bind,Except.bind]

-- Not proved by `rfl`: as a definitional rewrite it would leave the kernel to compare
-- the computations on both sides by running them.
@[simp] theorem ok_bind (value : α) (next : α → Except ε β) :
    ((Except.ok value : Except ε α) >>= next) = next value := by
  simp only [bind,Except.bind]

@[simp] theorem error_bind (fault : ε) (next : α → Except ε β) :
    ((Except.error fault : Except ε α) >>= next) = .error fault := by
  simp only [bind,Except.bind]

theorem pure_ok {value result : α} : (pure value : Except ε α) = .ok result ↔ value = result := by
  simp [pure,Except.pure]

@[simp] theorem pure_eq_ok (value : α) : (pure value : Except ε α) = .ok value := rfl

theorem map_ok {f : α → β} {x : Except ε α} {result : β} : x.map f = .ok result ↔ ∃ value, x = .ok value ∧ f value = result := by
  cases x with
  | error fault => simp [Except.map]
  | ok value => simp [Except.map]

theorem map_error {f : α → β} {x : Except ε α} {fault : ε} : x.map f = .error fault ↔ x = .error fault := by
  cases x with
  | error other => simp [Except.map]
  | ok value => simp [Except.map]

theorem exists_ok {x : Except ε α} (returns : x.isOk = true) : ∃ value, x = .ok value := by
  cases x with
  | error fault => cases returns
  | ok value => exact ⟨value,rfl⟩

theorem toOption_some {x : Except ε α} {value : α} : x.toOption = some value ↔ x = .ok value := by
  cases x <;> simp [Except.toOption]

theorem not_ok_iff {x : Except ε α} : (¬ ∃ value, x = .ok value) ↔ ∃ fault, x = .error fault := by
  cases x <;> simp

theorem mapM_ok {f : α → Except ε β} {items : List α} {values : List β}
    (mapped : items.mapM f = .ok values) :
    List.Forall₂ (fun item value => f item = .ok value) items values := by
  induction items generalizing values with
  | nil =>
    simp only [List.mapM_nil,pure_ok] at mapped
    subst values
    exact .nil
  | cons item items ih =>
    simp only [List.mapM_cons,bind_ok,pure_ok] at mapped
    obtain ⟨value,head,rest,tail,rfl⟩ := mapped
    exact .cons head (ih tail)

theorem mapM_mem {f : α → Except ε β} {items : List α} {values : List β}
    (mapped : items.mapM f = .ok values) {value : β} (member : value ∈ values) :
    ∃ item ∈ items, f item = .ok value := by
  have related := mapM_ok mapped
  clear mapped
  induction related with
  | nil => cases member
  | @cons item first items values head tail ih =>
    rcases List.mem_cons.mp member with rfl | later
    · exact ⟨item,List.mem_cons_self,head⟩
    · obtain ⟨found,listed,ran⟩ := ih later
      exact ⟨found,List.mem_cons_of_mem _ listed,ran⟩

theorem mapM_ran {f : α → Except ε β} {items : List α} {values : List β}
    (mapped : items.mapM f = .ok values) {item : α} (member : item ∈ items) :
    ∃ value ∈ values, f item = .ok value := by
  have related := mapM_ok mapped
  clear mapped
  induction related with
  | nil => cases member
  | @cons first value items values head tail ih =>
    rcases List.mem_cons.mp member with rfl | later
    · exact ⟨value,List.mem_cons_self,head⟩
    · obtain ⟨found,listed,ran⟩ := ih later
      exact ⟨found,List.mem_cons_of_mem _ listed,ran⟩

theorem mapM_eq_map {f : α → Except ε β} {g : α → β} {items : List α} {values : List β}
    (each : ∀ item value, f item = .ok value → value = g item) (mapped : items.mapM f = .ok values) :
    values = items.map g := by
  have related := mapM_ok mapped
  clear mapped
  induction related with
  | nil => rfl
  | cons head tail ih => rw [ih,List.map_cons,each _ _ head]

theorem mapM_of_forall {f : α → Except ε β} {items : List α}
    (each : ∀ item ∈ items, ∃ value, f item = .ok value) : ∃ values, items.mapM f = .ok values := by
  induction items with
  | nil => exact ⟨[],rfl⟩
  | cons item items ih =>
    obtain ⟨value,head⟩ := each item List.mem_cons_self
    obtain ⟨values,tail⟩ := ih fun later member => each later (List.mem_cons_of_mem _ member)
    refine ⟨value :: values,?_⟩
    rw [List.mapM_cons,head,ok_bind,tail,ok_bind,pure_eq_ok]

end inversion

section faults
variable {ε : Type v} {α β : Type u} {kind : ε → Prop}

/-- Every failure of the computation is of this kind. -/
def Raises (kind : ε → Prop) (x : Except ε α) : Prop := ∀ fault, x = .error fault → kind fault

theorem raises_ok (value : α) : Raises kind (.ok value : Except ε α) := nofun

theorem Raises.bind {x : Except ε α} {next : α → Except ε β} (first : Raises kind x)
    (second : ∀ value, x = .ok value → Raises kind (next value)) : Raises kind (x >>= next) := by
  intro fault failed
  rcases bind_error.mp failed with former | ⟨value,ran,latter⟩
  · exact first fault former
  · exact second value ran fault latter

theorem Raises.map {x : Except ε α} (raises : Raises kind x) (f : α → β) : Raises kind (x.map f) :=
  fun fault failed => raises fault (map_error.mp failed)

theorem Raises.ite {condition : Prop} [Decidable condition] {x y : Except ε α} (first : Raises kind x)
    (second : Raises kind y) : Raises kind (if condition then x else y) := by
  split
  · exact first
  · exact second

end faults

section returns
variable {ε : Type v} {α β : Type u} {Good : α → Prop}

/-- Whatever the computation returns is good. -/
def Returns (Good : α → Prop) (x : Except ε α) : Prop := ∀ value, x = .ok value → Good value

theorem returns_ok {value : α} (good : Good value) : Returns Good (.ok value : Except ε α) := by
  intro result same
  exact Except.ok.inj same ▸ good

/-- What comes after a read may use what was read. -/
theorem Returns.bind {x : Except ε β} {next : β → Except ε α} (each : ∀ value, x = .ok value → Returns Good (next value)) :
    Returns Good (x >>= next) := by
  intro result ran
  obtain ⟨value,read,ran⟩ := bind_ok.mp ran
  exact each value read result ran

end returns

section simulation
variable {ε : Type v} {α β α' β' : Type u} {Agree : α → β → Prop} {x : Except ε α} {y : Except ε β}

/-- Two computations that fail alike, or both return and their results agree. -/
def Simulates (Agree : α → β → Prop) (x : Except ε α) (y : Except ε β) : Prop :=
  (∃ fault, x = .error fault ∧ y = .error fault) ∨ ∃ value result, x = .ok value ∧ y = .ok result ∧ Agree value result

theorem simulates_ok {value : α} {result : β} (agree : Agree value result) :
    Simulates Agree (.ok value : Except ε α) (.ok result) := .inr ⟨value,result,rfl,rfl,agree⟩

theorem simulates_error (fault : ε) : Simulates Agree (.error fault : Except ε α) (.error fault : Except ε β) :=
  .inl ⟨fault,rfl,rfl⟩

theorem Simulates.bind {Agree' : α' → β' → Prop} {next : α → Except ε α'} {next' : β → Except ε β'}
    (first : Simulates Agree x y)
    (second : ∀ value result, x = .ok value → y = .ok result → Agree value result →
      Simulates Agree' (next value) (next' result)) : Simulates Agree' (x >>= next) (y >>= next') := by
  rcases first with ⟨fault,rfl,rfl⟩ | ⟨value,result,rfl,rfl,agree⟩
  · rw [error_bind,error_bind]
    exact simulates_error fault
  · rw [ok_bind,ok_bind]
    exact second value result rfl rfl agree

theorem Simulates.imp {Agree' : α → β → Prop} (simulates : Simulates Agree x y)
    (more : ∀ value result, x = .ok value → y = .ok result → Agree value result → Agree' value result) : Simulates Agree' x y := by
  rcases simulates with ⟨fault,failed,stopped⟩ | ⟨value,result,returned,ran,agree⟩
  · exact .inl ⟨fault,failed,stopped⟩
  · exact .inr ⟨value,result,returned,ran,more value result returned ran agree⟩

theorem Simulates.returns (simulates : Simulates Agree x y) {value : α} (returned : x = .ok value) :
    ∃ result, y = .ok result ∧ Agree value result := by
  rcases simulates with ⟨fault,failed,-⟩ | ⟨value',result,same,ran,agree⟩
  · cases failed.symm.trans returned
  · obtain rfl := Except.ok.inj (same.symm.trans returned)
    exact ⟨result,ran,agree⟩

theorem Simulates.computes (simulates : Simulates Agree x y) {result : β} (ran : y = .ok result) :
    ∃ value, x = .ok value ∧ Agree value result := by
  rcases simulates with ⟨fault,-,failed⟩ | ⟨value,result',returned,same,agree⟩
  · cases failed.symm.trans ran
  · obtain rfl := Except.ok.inj (same.symm.trans ran)
    exact ⟨value,returned,agree⟩

end simulation

section runs
variable {σ α : Type u} {ε : Type v} (step : σ → α → Except ε σ)

def transact (start : σ) (steps : List α) : Except ε σ := steps.foldlM step start

def attempt (before : σ) (action : α) : σ :=
  match step before action with
  | .ok after => after
  | .error _ => before

def attempts (start : σ) (actions : List α) : σ := actions.foldl (attempt step) start

@[simp] theorem transact_nil (start : σ) : transact step start [] = .ok start := rfl

@[simp] theorem transact_cons (start : σ) (action : α) (rest : List α) :
    transact step start (action :: rest) =
      step start action >>= fun next => transact step next rest := by
  simp [transact]

theorem transact_append (start : σ) (first second : List α) :
    transact step start (first ++ second) =
      transact step start first >>= fun next => transact step next second := by
  simp [transact,List.foldlM_append]

theorem attempts_append (start : σ) (first second : List α) :
    attempts step start (first ++ second) = attempts step (attempts step start first) second := by
  simp [attempts]

theorem transact_split {start final : σ} {steps : List α} (n : ℕ)
    (ran : transact step start steps = .ok final) :
    ∃ middle, transact step start (steps.take n) = .ok middle ∧
      transact step middle (steps.drop n) = .ok final := by
  rw [← List.take_append_drop n steps,transact_append,bind_ok] at ran
  exact ran

/-- A reflexive and transitive relation that every successful step respects,
from states of an invariant, holds between the two ends of a transaction. -/
theorem transact_relates (Inv : σ → Prop) (R : σ → σ → Prop)
    (refl : ∀ s, R s s) (trans : ∀ {a b c}, R a b → R b c → R a c)
    (preserved : ∀ s a s', Inv s → step s a = .ok s' → Inv s' ∧ R s s')
    {start final : σ} {steps : List α} (inv : Inv start)
    (ran : transact step start steps = .ok final) : Inv final ∧ R start final := by
  induction steps generalizing start with
  | nil =>
    simp only [transact_nil,Except.ok.injEq] at ran
    exact ran ▸ ⟨inv,refl start⟩
  | cons action rest ih =>
    rw [transact_cons,bind_ok] at ran
    obtain ⟨next,first,ran⟩ := ran
    obtain ⟨kept,related⟩ := preserved start action next inv first
    obtain ⟨last,onward⟩ := ih kept ran
    exact ⟨last,trans related onward⟩

theorem transact_preserves (Inv : σ → Prop)
    (preserved : ∀ s a s', Inv s → step s a = .ok s' → Inv s')
    {start final : σ} {steps : List α} (inv : Inv start)
    (ran : transact step start steps = .ok final) : Inv final :=
  (transact_relates step Inv (fun _ _ => True) (fun _ => trivial) (fun _ _ => trivial)
    (fun s a s' kept moved => ⟨preserved s a s' kept moved,trivial⟩) inv ran).1

theorem attempts_relates (Inv : σ → Prop) (R : σ → σ → Prop)
    (refl : ∀ s, R s s) (trans : ∀ {a b c}, R a b → R b c → R a c)
    (preserved : ∀ s a s', Inv s → step s a = .ok s' → Inv s' ∧ R s s')
    {start : σ} (actions : List α) (inv : Inv start) :
    Inv (attempts step start actions) ∧ R start (attempts step start actions) := by
  induction actions generalizing start with
  | nil => exact ⟨inv,refl start⟩
  | cons action rest ih =>
    have first : Inv (attempt step start action) ∧ R start (attempt step start action) := by
      unfold attempt
      cases moved : step start action with
      | ok next => exact preserved start action next inv moved
      | error fault => exact ⟨inv,refl start⟩
    obtain ⟨last,onward⟩ := ih first.1
    exact ⟨last,trans first.2 onward⟩

/-- A step that a transaction takes on the way, from the state before it to the one after. -/
def Takes (start : σ) (steps : List α) (before : σ) (action : α) (after : σ) : Prop :=
  ∃ done rest, steps = done ++ action :: rest ∧ transact step start done = .ok before ∧
    step before action = .ok after

theorem takes_nil {start before after : σ} {action : α} : ¬ Takes step start [] before action after := by
  rintro ⟨done,rest,split,-⟩
  exact List.append_ne_nil_of_right_ne_nil _ (List.cons_ne_nil _ _) split.symm

theorem takes_cons {start before after : σ} {first action : α} {rest : List α} :
    Takes step start (first :: rest) before action after ↔
      ∃ next, step start first = .ok next ∧
        ((before = start ∧ action = first ∧ after = next) ∨ Takes step next rest before action after) := by
  constructor
  · rintro ⟨done,later,split,reached,taken⟩
    cases done with
    | nil =>
      obtain ⟨rfl,rfl⟩ := List.cons.inj split
      obtain rfl : start = before := Except.ok.inj reached
      exact ⟨after,taken,.inl ⟨rfl,rfl,rfl⟩⟩
    | cons second done =>
      obtain ⟨rfl,rfl⟩ := List.cons.inj split
      rw [transact_cons,bind_ok] at reached
      obtain ⟨next,moved,reached⟩ := reached
      exact ⟨next,moved,.inr ⟨done,later,rfl,reached,taken⟩⟩
  · rintro ⟨next,moved,⟨rfl,rfl,rfl⟩ | ⟨done,later,rfl,reached,taken⟩⟩
    · exact ⟨[],rest,rfl,rfl,moved⟩
    · refine ⟨first :: done,later,rfl,?_,taken⟩
      rw [transact_cons,moved,ok_bind,reached]

theorem Takes.mem {start before after : σ} {steps : List α} {action : α}
    (taken : Takes step start steps before action after) : action ∈ steps := by
  obtain ⟨done,rest,rfl,-,-⟩ := taken
  exact List.mem_append_right _ List.mem_cons_self

theorem Takes.moved {start before after : σ} {steps : List α} {action : α}
    (taken : Takes step start steps before action after) : step before action = .ok after :=
  taken.choose_spec.choose_spec.2.2

theorem takes_kept (Inv : σ → Prop) {start : σ} {steps : List α} (inv : Inv start)
    (kept : ∀ before action after, Takes step start steps before action after → Inv before → Inv after)
    {before after : σ} {action : α} (taken : Takes step start steps before action after) : Inv before := by
  induction steps generalizing start with
  | nil => exact absurd taken (takes_nil step)
  | cons first rest ih =>
    obtain ⟨next,moved,⟨rfl,-,-⟩ | taken⟩ := (takes_cons step).mp taken
    · exact inv
    · refine ih (kept _ _ _ ((takes_cons step).mpr ⟨next,moved,.inl ⟨rfl,rfl,rfl⟩⟩) inv) ?_ taken
      exact fun b a s later => kept b a s ((takes_cons step).mpr ⟨next,moved,.inr later⟩)

/-- An invariant of the steps holds wherever a step is taken from. -/
theorem takes_invariant (Inv : σ → Prop) {start : σ} {steps : List α} (inv : Inv start)
    (preserved : ∀ s a s', a ∈ steps → Inv s → step s a = .ok s' → Inv s')
    {before after : σ} {action : α} (taken : Takes step start steps before action after) : Inv before :=
  takes_kept step Inv inv (fun _ _ _ other held => preserved _ _ _ (other.mem step) held (other.moved step)) taken

theorem takes_final {Good : σ → Prop} {start final : σ} {steps : List α} (good : Good start)
    (always : ∀ before action after, Takes step start steps before action after → Good after)
    (ran : transact step start steps = .ok final) : Good final := by
  induction steps generalizing start with
  | nil => exact Except.ok.inj ran ▸ good
  | cons first rest ih =>
    rw [transact_cons,bind_ok] at ran
    obtain ⟨next,moved,ran⟩ := ran
    refine ih (always _ _ _ ((takes_cons step).mpr ⟨next,moved,.inl ⟨rfl,rfl,rfl⟩⟩)) ?_ ran
    exact fun before action after later => always _ _ _ ((takes_cons step).mpr ⟨next,moved,.inr later⟩)

/-- Where each step from a good state leads to a good one unless it slips, a
transaction meets only good states exactly when none of its steps slips. -/
theorem takes_good_iff (Inv : σ → Prop) {Good : σ → Prop} {Slips : σ → α → Prop} {start : σ} {steps : List α}
    (inv : Inv start) (good : Good start)
    (preserved : ∀ s a s', a ∈ steps → Inv s → step s a = .ok s' → Inv s')
    (decided : ∀ s a s', a ∈ steps → Inv s → Good s → step s a = .ok s' → (Good s' ↔ ¬ Slips s a)) :
    (∀ before action after, Takes step start steps before action after → Good after) ↔
      ∀ before action after, Takes step start steps before action after → ¬ Slips before action := by
  induction steps generalizing start with
  | nil => exact ⟨fun _ _ _ _ taken => absurd taken (takes_nil step),
      fun _ _ _ _ taken => absurd taken (takes_nil step)⟩
  | cons first rest ih =>
    have onward (next : σ) (moved : step start first = .ok next) (reached : Good next) :=
      ih (preserved _ _ _ List.mem_cons_self inv moved) reached
        (fun s a s' later => preserved s a s' (List.mem_cons_of_mem _ later))
        (fun s a s' later => decided s a s' (List.mem_cons_of_mem _ later))
    constructor
    · intro always before action after taken
      obtain ⟨next,moved,⟨rfl,rfl,rfl⟩ | later⟩ := (takes_cons step).mp taken
      · exact (decided _ _ _ List.mem_cons_self inv good moved).mp (always _ _ _ taken)
      · have reached : Good next := always _ _ _ ((takes_cons step).mpr ⟨next,moved,.inl ⟨rfl,rfl,rfl⟩⟩)
        refine (onward next moved reached).mp (fun b a s other => ?_) _ _ _ later
        exact always b a s ((takes_cons step).mpr ⟨next,moved,.inr other⟩)
    · intro never before action after taken
      obtain ⟨next,moved,⟨rfl,rfl,rfl⟩ | later⟩ := (takes_cons step).mp taken
      · exact (decided _ _ _ List.mem_cons_self inv good moved).mpr (never _ _ _ taken)
      · have reached : Good next := (decided _ _ _ List.mem_cons_self inv good moved).mpr
          (never _ _ _ ((takes_cons step).mpr ⟨next,moved,.inl ⟨rfl,rfl,rfl⟩⟩))
        refine (onward next moved reached).mpr (fun b a s other => ?_) _ _ _ later
        exact never b a s ((takes_cons step).mpr ⟨next,moved,.inr other⟩)

end runs

end Fallible
