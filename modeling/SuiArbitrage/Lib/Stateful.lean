import SuiArbitrage.Lib.Fallible

/-! Computations that act on a state and may fail, where a failure leaves the state as it
was then. Their triples say what holds of the state on either way out. -/
namespace Stateful

variable {σ ε α β : Type}

abbrev Act (σ ε : Type) := ExceptT ε (StateM σ)

namespace Act

def exec (x : Act σ ε α) (s : σ) : Except ε α × σ := StateT.run (ExceptT.run x) s

def lift (x : Except ε α) : Act σ ε α := ExceptT.mk (pure x)

theorem exec_lift (x : Except ε α) (s : σ) : (lift x : Act σ ε α).exec s = (x,s) := rfl

theorem exec_bind (x : Act σ ε α) (next : α → Act σ ε β) (s : σ) :
    (x >>= next).exec s =
      match x.exec s with
      | (.ok value,after) => (next value).exec after
      | (.error fault,after) => (.error fault,after) := by
  unfold exec
  rw [ExceptT.run_bind,StateT.run_bind]
  rcases StateT.run (ExceptT.run x) s with ⟨fault | value,after⟩ <;> rfl

/-- Turns the failures that `handled` picks into results. -/
def catching (handled : ε → Option α) (x : Act σ ε α) : Act σ ε α := ExceptT.mk do
  match ← ExceptT.run x with
  | .ok value => pure (.ok value)
  | .error fault => pure ((handled fault).elim (.error fault) .ok)

theorem exec_catching (handled : ε → Option α) (x : Act σ ε α) (s : σ) :
    (x.catching handled).exec s =
      match x.exec s with
      | (.ok value,after) => (.ok value,after)
      | (.error fault,after) => ((handled fault).elim (.error fault) .ok,after) := by
  unfold exec catching
  rw [ExceptT.run_mk,StateT.run_bind]
  rcases StateT.run (ExceptT.run x) s with ⟨fault | value,after⟩ <;> rfl

end Act

/-- What holds on either way out. -/
def Ends (Post : α → σ → Prop) (Fail : ε → σ → Prop) : Except ε α × σ → Prop
  | (.ok value,after) => Post value after
  | (.error fault,after) => Fail fault after

def Triple (Pre : σ → Prop) (x : Act σ ε α) (Post : α → σ → Prop) (Fail : ε → σ → Prop) : Prop :=
  ∀ s, Pre s → Ends Post Fail (x.exec s)

theorem Ends.always {Post : σ → Prop} {outcome : Except ε α × σ} (ended : Ends (fun _ => Post) (fun _ => Post) outcome) :
    Post outcome.2 := by
  rcases outcome with ⟨fault | value,after⟩
  · exact ended
  · exact ended

section rules
variable {Pre Pre' : σ → Prop} {Fail Fail' : ε → σ → Prop} {Post Post' : α → σ → Prop} {x : Act σ ε α}

theorem triple_pure {value : α} (holds : ∀ s, Pre s → Post value s) :
    Triple Pre (pure value : Act σ ε α) Post Fail := holds

theorem triple_lift {y : Except ε α} (returns : ∀ value s, y = .ok value → Pre s → Post value s)
    (fails : ∀ fault s, y = .error fault → Pre s → Fail fault s) : Triple Pre (Act.lift y) Post Fail := by
  intro s pre
  rw [Act.exec_lift]
  cases y with
  | ok value => exact returns value s rfl pre
  | error fault => exact fails fault s rfl pre

theorem Triple.bind {Middle : α → σ → Prop} {Final : β → σ → Prop} {next : α → Act σ ε β}
    (first : Triple Pre x Middle Fail) (second : ∀ value, Triple (Middle value) (next value) Final Fail) :
    Triple Pre (x >>= next) Final Fail := by
  intro s pre
  have ended := first s pre
  rw [Act.exec_bind]
  generalize x.exec s = outcome at ended ⊢
  rcases outcome with ⟨fault | value,after⟩
  · exact ended
  · exact second value after ended

theorem triple_assuming {fact : Prop} (triple : fact → Triple Pre x Post Fail) :
    Triple (fun s => Pre s ∧ fact) x Post Fail :=
  fun s ⟨pre,known⟩ => triple known s pre

/-- A pure step in front: what it returned is known from there on. -/
theorem triple_lift_bind {y : Except ε β} {next : β → Act σ ε α}
    (fails : ∀ fault s, y = .error fault → Pre s → Fail fault s)
    (onward : ∀ value, y = .ok value → Triple Pre (next value) Post Fail) : Triple Pre (Act.lift y >>= next) Post Fail := by
  intro s pre
  rw [Act.exec_bind,Act.exec_lift]
  cases y with
  | ok value => exact onward value rfl s pre
  | error fault => exact fails fault s rfl pre

theorem Triple.consequence (triple : Triple Pre x Post Fail) (pre : ∀ s, Pre' s → Pre s)
    (post : ∀ value s, Post value s → Post' value s) (fail : ∀ fault s, Fail fault s → Fail' fault s) :
    Triple Pre' x Post' Fail' := by
  intro s holds
  have ended := triple s (pre s holds)
  generalize x.exec s = outcome at ended ⊢
  rcases outcome with ⟨fault | value,after⟩
  · exact fail fault after ended
  · exact post value after ended

theorem Triple.catching {handled : ε → Option α} (triple : Triple Pre x Post Fail)
    (recovers : ∀ fault value s, handled fault = some value → Fail fault s → Post value s) :
    Triple Pre (x.catching handled) Post Fail := by
  intro s pre
  have ended := triple s pre
  rw [Act.exec_catching]
  generalize x.exec s = outcome at ended ⊢
  rcases outcome with ⟨fault | value,after⟩
  · dsimp only
    cases picked : handled fault with
    | none => exact ended
    | some value => exact recovers fault value after picked ended
  · exact ended

/-- A fold whose invariant speaks of the items that it has passed. -/
theorem triple_foldlM_passed {step : β → α → Act σ ε β} {Inv : List α → β → σ → Prop} {items : List α}
    (each : ∀ passed item rest held, items = passed ++ item :: rest →
      Triple (Inv passed held) (step held item) (Inv (passed ++ [item])) Fail) (start : β) :
    Triple (Inv [] start) (items.foldlM step start) (Inv items) Fail := by
  have from_here (passed rest : List α) (split : items = passed ++ rest) (held : β) :
      Triple (Inv passed held) (rest.foldlM step held) (Inv items) Fail := by
    induction rest generalizing passed held with
    | nil =>
      rw [List.append_nil] at split
      exact split ▸ fun _ holds => holds
    | cons item rest ih =>
      rw [List.foldlM_cons]
      apply (each passed item rest held split).bind
      exact ih (passed ++ [item]) (by rw [split,List.append_assoc,List.singleton_append])
  exact from_here [] items rfl start

theorem triple_foldlM {step : β → α → Act σ ε β} {Inv : β → σ → Prop} {items : List α}
    (each : ∀ held, ∀ item ∈ items, Triple (Inv held) (step held item) Inv Fail) (start : β) :
    Triple (Inv start) (items.foldlM step start) Inv Fail := by
  let Same : List α → β → σ → Prop := fun _ => Inv
  have through : ∀ passed item rest held, items = passed ++ item :: rest →
      Triple (Same passed held) (step held item) (Same (passed ++ [item])) Fail :=
    fun passed item rest held split => each held item (split ▸ List.mem_append_right _ List.mem_cons_self)
  exact triple_foldlM_passed through start

end rules

section traces

/-- What holds of every event of a trace and what came before it. -/
def Throughout (P : List α → α → Prop) (trace : List α) : Prop :=
  ∀ before event after, trace = before ++ event :: after → P before event

variable {P : List α → α → Prop} {trace : List α} {event : α}

theorem throughout_nil : Throughout P [] := by
  intro before event after split
  exact absurd split.symm (List.append_ne_nil_of_right_ne_nil _ (List.cons_ne_nil _ _))

theorem Throughout.concat (held : Throughout P trace) (now : P trace event) : Throughout P (trace ++ [event]) := by
  intro before other after split
  rcases List.eq_nil_or_concat after with rfl | ⟨rest,last,rfl⟩
  · obtain ⟨rfl,same⟩ := List.append_inj' split rfl
    exact (List.cons.inj same).1 ▸ now
  · rw [List.concat_eq_append,← List.cons_append,← List.append_assoc] at split
    exact held before other rest (List.append_inj' split rfl).1

/-- A list has one split at the only element of a kind. -/
theorem split_unique (kind : α → Prop) {front back front' back' : List α} {x y : α}
    (same : front ++ x :: back = front' ++ y :: back') (other : kind y) (first : ∀ a ∈ front, ¬ kind a)
    (last : ∀ a ∈ back, ¬ kind a) : front = front' ∧ x = y ∧ back = back' := by
  induction front generalizing front' with
  | nil =>
    cases front' with
    | nil => exact ⟨rfl,List.cons.inj same⟩
    | cons z rest =>
      obtain ⟨-,tails⟩ := List.cons.inj same
      exact absurd other (last y (tails ▸ List.mem_append_right _ List.mem_cons_self))
  | cons a rest ih =>
    cases front' with
    | nil =>
      obtain ⟨rfl,-⟩ := List.cons.inj same
      exact absurd other (first _ List.mem_cons_self)
    | cons z rest' =>
      obtain ⟨rfl,tails⟩ := List.cons.inj same
      obtain ⟨rfl,rfl,rfl⟩ := ih tails fun b member => first b (List.mem_cons_of_mem _ member)
      exact ⟨rfl,rfl,rfl⟩

end traces

end Stateful
