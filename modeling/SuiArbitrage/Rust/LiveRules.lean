import SuiArbitrage.Rust.Live
import SuiArbitrage.Rust.ProfitGate

/-! How the parts of a round of the live loop act on its trace. Most of them append only
records, so that any invariant which records cannot break goes through them. -/
namespace SuiArbitrage.Rust.Live
open MachineWord Stateful Scanner
open Move (TypeTag ObjectId Address Command)
open Executor (LivePoolRef Node)

variable {F : Type}

def Event.isPlain : Event F → Bool
  | .chosen _ | .decided _ _ _ _ | .executed _ _ => false
  | _ => true

def Session.push (s : Session F) (event : Event F) : Session F := {s with trace := s.trace ++ [event]}

/-- An invariant that no record can break. -/
def Plainly (Inv : Session F → Prop) : Prop := ∀ s event, event.isPlain = true → Inv s → Inv (s.push event)

theorem push_rule {event : Event F} {Inv Post : Session F → Prop} {Fail : Stop → Session F → Prop}
    (post : ∀ s, Inv s → Post (s.push event)) : Triple Inv (push event) (fun _ => Post) Fail := post

theorem updateGuard_rule {entry : RiskGuard F → RiskGuard F} {Inv Post : Session F → Prop}
    {Fail : Stop → Session F → Prop} (post : ∀ s, Inv s → Post {s with guard := entry s.guard}) :
    Triple Inv (updateGuard entry) (fun _ => Post) Fail := post

theorem unwind_ok {α : Type} {x : Rust α} {value : α} : unwind x = .ok value ↔ x = .ok value := by
  cases x <;> simp [unwind,Except.mapError]

theorem unwind_error {α : Type} {x : Rust α} {stop : Stop} (stopped : unwind x = .error stop) :
    ∃ message, stop = .panic message := by
  rcases x with ⟨reason | -⟩ | value
  · exact ⟨_,(Except.error.inj stopped).symm⟩
  · exact ⟨_,(Except.error.inj stopped).symm⟩
  · cases stopped

section plain
variable {α β : Type} {Inv : Session F → Prop} {Post : β → Session F → Prop} {Fail : Stop → Session F → Prop}
  (keeps : Plainly Inv) (fails : ∀ stop s, Inv s → Fail stop s)

include keeps in
/-- A read: what it returns is an answer to some history. -/
theorem ask_plain {answer : History F → α} {next : α → Bot F β}
    (onward : ∀ history, Triple Inv (next (answer history)) Post Fail) : Triple Inv (ask answer >>= next) Post Fail :=
  fun s inv => onward s.trace (s.push .observed) (keeps s .observed rfl inv)

include keeps in
theorem now_rule {world : World F} {Post : ℕ → Session F → Prop} (post : ∀ time s, Inv s → Post time (s.push (.clock time))) :
    Triple Inv (now world) Post Fail :=
  ask_plain keeps fun _ => (push_rule (post _)).bind fun _ => triple_pure fun _ holds => holds

include fails in
theorem lift_plain {x : Anyhow α} {next : α → Bot F β} (onward : ∀ value, x = .ok value → Triple Inv (next value) Post Fail) :
    Triple Inv (Act.lift x >>= next) Post Fail :=
  triple_lift_bind (fun stop s _ inv => fails stop s inv) onward

include fails in
theorem caught_plain {x : Anyhow α} {next : Except (List String) α → Bot F β}
    (onward : ∀ result, (∀ value, result = .ok value → x = .ok value) → Triple Inv (next result) Post Fail) :
    Triple Inv (caught x >>= next) Post Fail := by
  intro s inv
  rcases x with ⟨chain | message⟩ | value
  · exact onward (.error chain) (fun _ same => by cases same) s inv
  · exact fails _ s inv
  · exact onward (.ok value) (fun _ same => by rw [Except.ok.inj same]) s inv

end plain

section parts
variable [SignedF64 F] {build : Build} {world : World F} {config : LiveConfig F} {Inv : Session F → Prop}
  {Fail : Stop → Session F → Prop} (keeps : Plainly Inv) (fails : ∀ stop s, Inv s → Fail stop s)

include keeps fails

omit [SignedF64 F] in
theorem dryRun_rule {tx : TransactionData} {baseType : TypeTag} {sender : Address} {Post : DryRun → Session F → Prop}
    (post : ∀ dry s, Inv s → Post dry (s.push (.dryRan tx dry))) :
    Triple Inv (dryRun build world tx baseType sender) Post Fail := by
  unfold dryRun
  apply ask_plain keeps
  intro history
  apply lift_plain fails
  intro resp _
  apply lift_plain fails
  intro used _
  apply lift_plain fails
  intro netBase _
  apply (push_rule (post ⟨resp.success,netBase,used⟩)).bind
  intro _
  exact triple_pure fun _ holds => holds

theorem assemble_plain {opp : Opportunity} : Triple Inv (assemble world config opp)
    (fun made s => Inv s ∧ ∃ history, (world.node history).typeTag config.baseToken = .ok made.2) Fail := by
  unfold assemble
  apply ask_plain keeps
  intro history
  apply lift_plain fails
  intro refs _
  split
  · exact triple_lift (fun _ _ failed => by cases failed) fun stop s _ inv => fails stop s inv
  · apply ask_plain keeps
    intro history
    apply lift_plain fails
    intro sender _
    apply lift_plain fails
    intro baseType parsed
    apply lift_plain fails
    intro pt _
    apply ask_plain keeps
    intro history
    apply ask_plain keeps
    intro history
    apply lift_plain fails
    intro gasPrice _
    apply lift_plain fails
    intro gasCoin _
    exact triple_pure fun _ inv => ⟨inv,_,context_ok.mp parsed⟩

theorem findCandidates_plain {pools : List PoolState} : Triple Inv (findCandidates build world config pools) (fun _ => Inv) Fail := by
  unfold findCandidates
  apply lift_plain fails
  intro arb _
  split
  · apply ask_plain keeps
    intro history
    apply ask_plain keeps
    intro history
    apply lift_plain fails
    intro liquidations _
    exact triple_pure fun _ inv => inv
  · exact triple_pure fun _ inv => inv

end parts

/-! The transaction of the owned mode starts with the input that it splits off the gas coin. -/

theorem buildOwned_head {plan : List Ptb.PtbStep} {inputs : Ptb.OwnedInputs} {pt : List Command}
    (built : Ptb.buildOwned plan inputs = .ok pt) :
    pt.head? = some (.splitCoins .gasCoin [.pure (.u64 inputs.amount)]) := by
  obtain ⟨argument,ran⟩ := Ptb.finish_ok.mp built
  obtain ⟨split,first,made,ran⟩ := Ptb.run_bind.mp ran
  obtain ⟨-,rfl⟩ := Ptb.run_command.mp made
  obtain ⟨opened,second,made,ran⟩ := Ptb.run_bind.mp ran
  obtain ⟨-,rfl⟩ := Ptb.run_command.mp made
  obtain ⟨coin,third,made,ran⟩ := Ptb.run_bind.mp ran
  obtain ⟨swaps,rfl⟩ := Ptb.lowerSwaps_appends made
  obtain ⟨-,rfl⟩ := Ptb.run_command.mp ran
  rfl

theorem buildOwnedPtb_head {node : Node} {config : Config F} {route : List Hop} {refs : List (LivePoolRef × Bool)}
    {floors : List U64} {amount minProfit : U64} {pt : List Command}
    (built : Executor.buildOwnedPtb node config route refs floors amount minProfit = .ok pt) :
    pt.head? = some (.splitCoins .gasCoin [.pure (.u64 amount)]) := by
  obtain ⟨baseType,-,built⟩ := Fallible.bind_ok.mp built
  obtain ⟨pkg,-,built⟩ := Fallible.bind_ok.mp built
  obtain ⟨hops,-,built⟩ := Fallible.bind_ok.mp built
  exact buildOwned_head built

/-- A size beyond the cap and one that is not quoted have neither an output nor a net. -/
theorem quoteSize_cases {build : Build} {pools : List PoolState} {route : List Hop} {cap size : U64} {quoted : OwnedSizeResult}
    (ran : quoteSize build pools route cap size = .ok quoted) : quoted.size = size ∧
      (quoted.expectedOut = 0 ∧ quoted.expectedNet = 0 ∨ size ≤ cap ∧ ∃ hops,
        simulateCollect build (lookup pools) route size = .ok (some hops) ∧ quoted.expectedOut = hops.getLast?.getD 0 ∧
          quoted.expectedNet = quoted.expectedOut.val - size.val) := by
  unfold quoteSize at ran
  split at ran
  · obtain rfl := Except.ok.inj ran
    exact ⟨rfl,.inl ⟨rfl,rfl⟩⟩
  · rename_i within
    obtain ⟨hops,simulated,ran⟩ := Fallible.bind_ok.mp ran
    cases hops with
    | none =>
      obtain rfl := Except.ok.inj ran
      exact ⟨rfl,.inl ⟨rfl,rfl⟩⟩
    | some hops =>
      obtain rfl := Except.ok.inj ran
      exact ⟨rfl,.inr ⟨not_lt.mp within,hops,simulated,rfl,rfl⟩⟩

section sweep
variable [SignedF64 F] {build : Build} {world : World F} {config : LiveConfig F} {pools : List PoolState} {route : List Hop}
  {refs : List (LivePoolRef × Bool)} {sender : Address} {baseType : TypeTag} {gasPrice : U64} {sweep : Sweep}
  {quoted : OwnedSizeResult} {i : ℕ}

/-- An attempt at a size of a sweep without a winner: what it comes to is up to the
rehearsal of a transaction with this very input. -/
theorem attemptSize_rule {Inv : Session F → Prop} {Post : Sweep → Session F → Prop} {Fail : Stop → Session F → Prop}
    (keeps : Plainly Inv) (fails : ∀ stop s, Inv s → Fail stop s) (same : ∀ s, Inv s → Post sweep s)
    (noted : ∀ note s, Inv s → Post (sweep.noted i note) s)
    (rehearsed : ∀ tx, tx.sender = sender → tx.pt.head? = some (.splitCoins .gasCoin [.pure (.u64 quoted.size)]) →
      quoted.expectedOut ≠ 0 → sweep.winner = none → Triple Inv (rehearse build world config sender baseType sweep i quoted.size tx) Post Fail) :
    Triple Inv (attemptSize build world config pools route refs sender baseType gasPrice sweep (quoted,i)) Post Fail := by
  unfold attemptSize
  dsimp only
  split
  next => exact triple_pure same
  next sizable =>
    have nothing : sweep.winner = none := by
      by_contra some_winner
      exact sizable (.inl (Option.isSome_iff_ne_none.mpr some_winner))
    have returns : quoted.expectedOut ≠ 0 := fun zero => sizable (.inr (.inr zero))
    apply lift_plain fails
    intro hopOuts _
    cases hopOuts with
    | none => exact triple_pure same
    | some hopOuts =>
      apply ask_plain keeps
      intro history
      apply caught_plain fails
      intro built pt_built
      cases built with
      | error chain => exact triple_pure (noted _)
      | ok pt =>
        apply lift_plain fails
        intro need _
        apply ask_plain keeps
        intro history
        apply caught_plain fails
        intro picked _
        cases picked with
        | error chain => exact triple_pure (noted _)
        | ok gasCoins => exact rehearsed _ rfl (buildOwnedPtb_head (pt_built pt rfl)) returns nothing

variable {baseDecimals : ℕ} {priceUsd : F}

/-- The owned execution by its parts: its reads, the sweep over the sizes that were quoted,
the decision on the winner, and the submission. -/
theorem tryExecuteOwnedSized_rule {Inv Post : Session F → Prop} {Fail : Stop → Session F → Prop} (Opened : U128 → Session F → Prop)
    (Swept : Address → TypeTag → U128 → Sweep → Session F → Prop)
    (Decided : Address → TypeTag → U128 → Winner → Decision → Session F → Prop)
    (keeps : Plainly Inv) (fails : ∀ stop s, Inv s → Fail stop s)
    (balanced : ∀ total s, Inv s → Opened total (s.push (.balance total)))
    (keepsOpened : ∀ total, Plainly (Opened total)) (failsOpened : ∀ total stop s, Opened total s → Fail stop s)
    (sweeps : ∀ history refs sender baseType gasPrice total sized,
      (world.node history).typeTag config.baseToken = .ok baseType →
      config.ownedSizes.mapM (quoteSize build pools route (walletCap config total)) = .ok sized →
      Triple (Opened total) ((sized.zipIdx.insertionSort fun s t => t.1.expectedNet ≤ s.1.expectedNet).foldlM
        (attemptSize build world config pools route refs sender baseType gasPrice) ⟨none,sized⟩)
        (Swept sender baseType total) Fail)
    (decides : ∀ sender baseType total sweep w, sweep.winner = some w →
      Triple (Swept sender baseType total sweep) (decide (mistToUsd (gain w.netBase) baseDecimals priceUsd) route)
        (Decided sender baseType total w) Fail)
    (submits : ∀ sender baseType total w, config.submitEnabled = true →
      Triple (Decided sender baseType total w .submit) (submit build world config baseDecimals priceUsd w.tx baseType sender
        (mistToUsd (gain w.netBase) baseDecimals priceUsd) w.dryRunAt) (fun _ => Post) Fail)
    (lost : ∀ sender baseType total sweep s, sweep.winner = none → Swept sender baseType total sweep s → Post s)
    (held : ∀ sender baseType total w decision s, Decided sender baseType total w decision s → Post s) :
    Triple Inv (tryExecuteOwnedSized build world config baseDecimals priceUsd pools route) (fun _ => Post) Fail := by
  unfold tryExecuteOwnedSized
  apply ask_plain keeps
  intro history
  apply lift_plain fails
  intro sender _
  apply lift_plain fails
  intro baseType typed
  apply ask_plain keeps
  intro registry
  apply lift_plain fails
  intro refs _
  apply ask_plain keeps
  intro answer
  apply lift_plain fails
  intro total _
  apply (push_rule (balanced total)).bind
  intro _
  apply lift_plain (failsOpened total)
  intro sized quoted
  apply ask_plain (keepsOpened total)
  intro answer
  apply lift_plain (failsOpened total)
  intro gasPrice _
  apply (sweeps history refs sender baseType gasPrice total sized (context_ok.mp typed) (unwind_ok.mp quoted)).bind
  intro sweep
  split
  next nothing => exact triple_pure fun s => lost _ _ _ sweep s nothing
  next w won =>
    apply (decides sender baseType total sweep w won).bind
    intro decision
    cases decision with
    | skip reason => exact triple_pure (held _ _ _ _ _)
    | submit =>
      dsimp only
      split
      next enabled => exact (submits sender baseType total w enabled).bind fun _ => triple_pure fun _ post => post
      next => exact triple_pure (held _ _ _ _ _)

end sweep

section rounds
variable [SignedF64 F] {build : Build} {world : World F} {config : LiveConfig F} {Inv : Session F → Prop}
  {Chosen : Opportunity → Session F → Prop} {Fail : Stop → Session F → Prop}

/-- A round: an invariant may be suspended from the choice of a candidate to the end of its
execution, where an error gives it back. -/
theorem tick_rule (keeps : Plainly Inv) (fails : ∀ stop s, Inv s → Fail stop s)
    (chosen : ∀ opp s, Inv s → Chosen opp (s.push (.chosen opp)))
    (sized : ∀ opp pools, owned config opp = true → Triple (Chosen opp)
      (tryExecuteOwnedSized build world config 9 config.suiPriceUsd pools opp.route) (fun _ => Inv) Fail)
    (borrowed : ∀ opp, owned config opp = false → Triple (Chosen opp)
      (tryExecute build world config 9 config.suiPriceUsd opp) (fun _ => Inv) Fail)
    (recovers : ∀ chain s, Fail (.error chain) s → Inv s) : Triple Inv (tick build world config) (fun _ => Inv) Fail := by
  have returns {α : Type} (value : α) : Triple Inv (pure value : Bot F α) (fun _ => Inv) Fail := triple_pure fun _ inv => inv
  unfold tick
  apply ask_plain keeps
  intro history
  apply (findCandidates_plain keeps fails).bind
  intro candidates
  split
  next => exact returns ()
  next opp _ =>
    apply (push_rule (chosen opp)).bind
    intro _
    refine Triple.catching ?_ fun stop _ s handled failed => ?_
    · unfold execute
      split
      next own => exact (sized opp _ own).bind fun _ => returns ()
      next other => exact (borrowed opp (Bool.eq_false_of_not_eq_true other)).bind fun _ => returns ()
    · cases stop with
      | error chain => exact recovers chain s failed
      | panic message => cases handled

theorem ticks_rule (round : Triple Inv (tick build world config) (fun _ => Inv) Fail) (n : ℕ) :
    Triple Inv (ticks build world config n) (fun _ => Inv) Fail := by
  induction n with
  | zero => exact triple_pure fun _ inv => inv
  | succ n ih => exact round.bind fun _ => ih

end rounds

end SuiArbitrage.Rust.Live
