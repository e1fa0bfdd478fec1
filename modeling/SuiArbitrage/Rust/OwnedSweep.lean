import SuiArbitrage.Rust.LiveRules

/-! The sweep of the owned mode over the configured sizes. What a call appends to the
trace is the reads before its sweep, then attempts at sizes that fail, those of the
highest simulated net first, then perhaps one that succeeds and is decided on. -/
namespace SuiArbitrage.Rust.Live
open MachineWord Stateful Scanner
open Move (TypeTag ObjectId Address Command)
open Executor (LivePoolRef)

section attempts
variable {F : Type} [SignedF64 F] (build : Build) (world : World F) (config : LiveConfig F) (pools : List PoolState)
  (route : List Hop)

/-- The net that the route simulation gives for a size, where it gives one. -/
def Simulated (size : U64) (net : ℤ) : Prop :=
  ∃ hops, simulateCollect build (lookup pools) route size = .ok (some hops) ∧ net = (hops.getLast?.getD 0).val - size.val

/-- What a call has read when its sweep begins. -/
structure Opening where
  sender : Address
  baseType : TypeTag
  refs : List (LivePoolRef × Bool)
  total : U128
  gasPrice : U64

structure Opens (start : History F) (o : Opening) (opened : History F) : Prop where
  sender : world.parseAddress config.senderAddress = .ok o.sender
  typed : (world.node start).typeTag config.baseToken = .ok o.baseType
  resolved : resolveRefs (world.registry (start ++ [.observed])) route = .ok o.refs
  balance : world.balance (start ++ [.observed,.observed]) = .ok o.total
  price : world.gasPrice (start ++ [.observed,.observed,.observed,.balance o.total]) = .ok o.gasPrice
  events : opened = start ++ [.observed,.observed,.observed,.balance o.total,.observed]

variable (o : Opening)

/-- Building the commands for a size, as the node answers then. -/
def Building (size : U64) (history : History F) (result : Anyhow (List Command)) : Prop :=
  ∃ hopOuts, simulateCollect build (lookup pools) route size = .ok (some hopOuts) ∧
    Executor.buildOwnedPtb (world.node history) config.toConfig route o.refs
      (hopOuts.map fun out => applySlippageFloor out config.perHopSlippageBps) size config.effectiveMinProfitMist = result

/-- Selecting coins for a size and the gas, among those the node lists then. -/
def Selecting (size : U64) (history : History F) (result : Anyhow (List ObjectId)) : Prop :=
  ∃ need, add build size config.gasBudget = .ok need ∧
    (world.coins history >>= pickGasCoinsCovering build o.sender need) = result

/-- An attempt at a size up to the outcome of its dry run. -/
structure Rehearsal (size : U64) (before after : History F) (tx : TransactionData) (dry : DryRun) : Prop where
  sender : tx.sender = o.sender
  gas : tx.gasBudget = config.gasBudget ∧ tx.gasPrice = o.gasPrice
  building : Building build world config pools route o size before (.ok tx.pt)
  selecting : Selecting build world config o size (before ++ [.observed]) (.ok tx.gasPayment)
  dryRun : ∃ resp, world.dryRun (before ++ [.observed,.observed]) tx = .ok resp ∧ resp.success = dry.success ∧
    gasUsed build resp.gas = .ok dry.gasUsed ∧ netBaseChange build resp.balanceChanges o.baseType o.sender = .ok dry.netBase
  events : ∃ time, after = before ++ [.observed,.observed,.observed,.dryRan tx dry,.observed,.clock time]

/-- An attempt at a size that fails, from one trace to another. -/
inductive Fails (size : U64) (before : History F) : History F → Prop
  | building {chain : List String} (failed : Building build world config pools route o size before (.error (.error chain))) :
      Fails size before (before ++ [.observed])
  | coins {pt : List Command} {chain : List String} (built : Building build world config pools route o size before (.ok pt))
      (failed : Selecting build world config o size (before ++ [.observed]) (.error (.error chain))) :
      Fails size before (before ++ [.observed,.observed])
  | dryRun {after : History F} {tx : TransactionData} {dry : DryRun}
      (rehearsal : Rehearsal build world config pools route o size before after tx dry) (reverted : dry.success = false) :
      Fails size before after
  | threshold {after : History F} {tx : TransactionData} {dry : DryRun}
      (rehearsal : Rehearsal build world config pools route o size before after tx dry) (success : dry.success = true)
      (below : dry.netBase.val < config.effectiveMinProfitMist.val) : Fails size before after

/-- Attempts at these sizes, one after the other, that all fail. -/
inductive AllFail : List U64 → History F → History F → Prop
  | nil (trace : History F) : AllFail [] trace trace
  | concat {sizes : List U64} {size : U64} {before between after : History F} (earlier : AllFail sizes before between)
      (last : Fails build world config pools route o size between after) : AllFail (sizes ++ [size]) before after

structure Succeeds (size : U64) (before after : History F) (tx : TransactionData) (dry : DryRun) : Prop where
  rehearsal : Rehearsal build world config pools route o size before after tx dry
  success : dry.success = true
  enough : config.effectiveMinProfitMist.val ≤ dry.netBase.val

end attempts

section exact
variable {F : Type} {α β : Type} {s : Session F} {Post : β → Session F → Prop} {Fail : Stop → Session F → Prop}

/-! Rules for a session that is known exactly. -/

theorem ask_at {answer : History F → α} {next : α → Bot F β}
    (onward : Triple (· = s.push .observed) (next (answer s.trace)) Post Fail) : Triple (· = s) (ask answer >>= next) Post Fail := by
  rintro _ rfl
  exact onward _ rfl

theorem lift_at {x : Anyhow α} {next : α → Bot F β} (fails : ∀ stop, Fail stop s)
    (onward : ∀ value, x = .ok value → Triple (· = s) (next value) Post Fail) : Triple (· = s) (Act.lift x >>= next) Post Fail := by
  refine triple_lift_bind (fun stop t _ same => ?_) onward
  rw [same]
  exact fails stop

theorem push_at {event : Event F} {next : Unit → Bot F β} (onward : Triple (· = s.push event) (next ()) Post Fail) :
    Triple (· = s) (push event >>= next) Post Fail := by
  rintro _ rfl
  exact onward _ rfl

theorem caught_at {x : Anyhow α} {next : Except (List String) α → Bot F β} (panics : ∀ message, Fail (.panic message) s)
    (fails : ∀ chain, x = .error (.error chain) → Triple (· = s) (next (.error chain)) Post Fail)
    (onward : ∀ value, x = .ok value → Triple (· = s) (next (.ok value)) Post Fail) :
    Triple (· = s) (caught x >>= next) Post Fail := by
  rintro _ rfl
  rcases x with ⟨chain | message⟩ | value
  · exact fails chain rfl _ rfl
  · exact panics message
  · exact onward value rfl _ rfl

theorem now_at {world : World F} {Fail : Stop → Session F → Prop} :
    Triple (· = s) (now world) (fun time t => t = (s.push .observed).push (.clock time)) Fail :=
  ask_at (push_at (triple_pure fun _ same => same))

end exact

def Event.isDecision {F : Type} : Event F → Bool
  | .decided _ _ _ _ => true
  | _ => false

/-- What was appended has no decision. -/
def Quiet {F : Type} (before after : History F) : Prop :=
  ∃ more, after = before ++ more ∧ ∀ event ∈ more, event.isDecision = false

section quiet
variable {F : Type} {before between after : History F}

theorem Quiet.refl (before : History F) : Quiet before before := ⟨[],(List.append_nil _).symm,List.forall_mem_nil _⟩

theorem Quiet.trans (first : Quiet before between) (second : Quiet between after) : Quiet before after := by
  obtain ⟨more,rfl,quiet⟩ := first
  obtain ⟨more',rfl,quiet'⟩ := second
  exact ⟨more ++ more',List.append_assoc _ _ _,List.forall_mem_append.mpr ⟨quiet,quiet'⟩⟩

theorem Quiet.push {event : Event F} (first : Quiet before after) (quiet : event.isDecision = false) :
    Quiet before (after ++ [event]) :=
  first.trans ⟨[event],rfl,List.forall_mem_singleton.mpr quiet⟩

theorem Quiet.undecided {event : Event F} {later : History F} {start final : History F} (quiet : Quiet start final)
    (split : final = before ++ event :: later) (since : start <+: before) : event.isDecision = false := by
  obtain ⟨more,rfl,undecided⟩ := quiet
  obtain ⟨more',rfl⟩ := since
  rw [List.append_assoc] at split
  rw [List.append_cancel_left split] at undecided
  exact undecided event (List.mem_append_right _ List.mem_cons_self)

end quiet

section attempt
variable {F : Type} [SignedF64 F] {build : Build} {world : World F} {config : LiveConfig F} {pools : List PoolState}
  {route : List Hop} {o : Opening} {size : U64} {before after : History F} {s : Session F} {sweep : Sweep}
  {quoted : OwnedSizeResult} {i : ℕ}

omit [SignedF64 F] in
theorem dryRun_at {tx : TransactionData} {Fail : Stop → Session F → Prop} (fails : ∀ stop, Fail stop (s.push .observed)) :
    Triple (· = s) (dryRun build world tx o.baseType o.sender)
      (fun dry t => t = (s.push .observed).push (.dryRan tx dry) ∧ ∃ resp, world.dryRun s.trace tx = .ok resp ∧
        resp.success = dry.success ∧ gasUsed build resp.gas = .ok dry.gasUsed ∧
        netBaseChange build resp.balanceChanges o.baseType o.sender = .ok dry.netBase) Fail := by
  unfold dryRun
  apply ask_at
  apply lift_at fails
  intro resp answered
  apply lift_at fails
  intro used gas
  apply lift_at fails
  intro netBase changed
  apply push_at
  rintro _ rfl
  exact ⟨rfl,resp,answered,rfl,unwind_ok.mp gas,unwind_ok.mp changed⟩

theorem Rehearsal.quiet {tx : TransactionData} {dry : DryRun}
    (rehearsal : Rehearsal build world config pools route o size before after tx dry) : Quiet before after := by
  obtain ⟨time,rfl⟩ := rehearsal.events
  exact ⟨_,rfl,by simp [Event.isDecision]⟩

theorem Fails.quiet (failed : Fails build world config pools route o size before after) : Quiet before after := by
  cases failed with
  | building failed => exact ⟨_,rfl,by simp [Event.isDecision]⟩
  | coins built failed => exact ⟨_,rfl,by simp [Event.isDecision]⟩
  | dryRun rehearsal reverted => exact rehearsal.quiet
  | threshold rehearsal success below => exact rehearsal.quiet

theorem AllFail.quiet {sizes : List U64} (failed : AllFail build world config pools route o sizes before after) :
    Quiet before after := by
  induction failed with
  | nil trace => exact .refl trace
  | concat earlier last ih => exact ih.trans last.quiet

variable (build world config pools route o size before) in
/-- What an attempt at a size comes to, in a sweep that had no winner. -/
def Attempted (sweep : Sweep) (after : History F) : Prop :=
  match sweep.winner with
  | none => Fails build world config pools route o size before after
  | some w => w.size = size ∧ ∃ dry, w.netBase = dry.netBase ∧ Succeeds build world config pools route o size before after w.tx dry

theorem rehearse_at {tx : TransactionData} (nothing : sweep.winner = none) (events : s.trace = before ++ [.observed,.observed])
    (rehearsal : ∀ dry time, (∃ resp, world.dryRun s.trace tx = .ok resp ∧ resp.success = dry.success ∧
      gasUsed build resp.gas = .ok dry.gasUsed ∧ netBaseChange build resp.balanceChanges o.baseType o.sender = .ok dry.netBase) →
      Rehearsal build world config pools route o size before
        (before ++ [.observed,.observed,.observed,.dryRan tx dry,.observed,.clock time]) tx dry) :
    Triple (· = s) (rehearse build world config o.sender o.baseType sweep i size tx)
      (fun swept t => Attempted build world config pools route o size before swept t.trace) (fun _ t => Quiet before t.trace) := by
  have start : Quiet before s.trace := ⟨_,events,by simp [Event.isDecision]⟩
  unfold rehearse
  apply Triple.bind (dryRun_at fun _ => start.push rfl)
  intro dry
  apply triple_assuming
  intro ran
  apply now_at.bind
  intro time
  have after : (((s.push .observed).push (.dryRan tx dry)).push .observed).push (.clock time) =
      {s with trace := before ++ [.observed,.observed,.observed,.dryRan tx dry,.observed,.clock time]} := by
    simp [Session.push,events]
  rw [after]
  have rehearsed := rehearsal dry time ran
  split
  next reverted =>
    refine triple_pure fun t same => ?_
    rw [Attempted,Sweep.dried,nothing,same]
    exact .dryRun rehearsed reverted
  next success =>
    have success := Bool.eq_true_of_not_eq_false success
    split
    next below =>
      refine triple_pure fun t same => ?_
      rw [Attempted,Sweep.dried,nothing,same]
      exact .threshold rehearsed success below
    next enough =>
      refine triple_pure fun t same => ?_
      rw [same]
      exact ⟨rfl,dry,rfl,rehearsed,success,not_lt.mp enough⟩

theorem attemptSize_at (nothing : sweep.winner = none) (positive : 0 < quoted.expectedNet) (returns : quoted.expectedOut ≠ 0)
    (simulated : ∃ hops, simulateCollect build (lookup pools) route quoted.size = .ok (some hops)) :
    Triple (· = s) (attemptSize build world config pools route o.refs o.sender o.baseType o.gasPrice sweep (quoted,i))
      (fun swept t => Attempted build world config pools route o quoted.size s.trace swept t.trace)
      (fun _ t => Quiet s.trace t.trace) := by
  obtain ⟨hops,simulated⟩ := simulated
  have sizable : ¬ (sweep.winner.isSome = true ∨ quoted.expectedNet ≤ 0 ∨ quoted.expectedOut = 0) := by
    rw [nothing]
    simp [positive,returns]
  have start := Quiet.refl s.trace
  unfold attemptSize
  dsimp only
  rw [if_neg sizable]
  apply lift_at fun _ => start
  intro hopOuts ran
  obtain rfl := Except.ok.inj (simulated.symm.trans (unwind_ok.mp ran))
  apply ask_at
  apply caught_at
  · exact fun _ => start.push rfl
  · intro chain failed
    refine triple_pure fun t same => ?_
    rw [Attempted,Sweep.noted,nothing,same]
    exact .building ⟨hops,simulated,failed⟩
  intro pt built
  have building : Building build world config pools route o quoted.size s.trace (.ok pt) := ⟨hops,simulated,built⟩
  apply lift_at fun _ => start.push rfl
  intro need added
  apply ask_at
  apply caught_at
  · exact fun _ => (start.push rfl).push rfl
  · intro chain failed
    refine triple_pure fun t same => ?_
    rw [Attempted,Sweep.noted,nothing,same]
    have events : ((s.push .observed).push .observed).trace = s.trace ++ [.observed,.observed] := by simp [Session.push]
    rw [events]
    exact .coins building ⟨need,unwind_ok.mp added,failed⟩
  intro gasCoins picked
  have events : ((s.push .observed).push .observed).trace = s.trace ++ [.observed,.observed] := by simp [Session.push]
  refine rehearse_at nothing events fun dry time ran => ?_
  rw [events] at ran
  exact ⟨rfl,⟨rfl,rfl⟩,building,⟨need,unwind_ok.mp added,picked⟩,ran,time,rfl⟩

end attempt

section sweep
variable {F : Type} [SignedF64 F] {build : Build} {world : World F} {config : LiveConfig F} {pools : List PoolState}
  {route : List Hop} {o : Opening} {s : Session F} {cap : U64}

/-- The net of a size within the cap is the simulated one, and none other is positive. -/
theorem quoteSize_simulated {size : U64} {quoted : OwnedSizeResult} (ran : quoteSize build pools route cap size = .ok quoted) :
    quoted.size = size ∧ (0 < quoted.expectedNet → size ≤ cap ∧ quoted.expectedOut ≠ 0 ∧
      Simulated build pools route size quoted.expectedNet) := by
  obtain ⟨same,nothing | ⟨within,hops,simulated,out,net⟩⟩ := quoteSize_cases ran
  · exact ⟨same,fun positive => absurd nothing.2 positive.ne'⟩
  · refine ⟨same,fun positive => ⟨within,fun zero => ?_,hops,simulated,by rw [net,out]⟩⟩
    rw [net,zero,Fin.val_zero] at positive
    omega

theorem quoteSize_net {size : U64} {quoted : OwnedSizeResult} {net : ℤ} (ran : quoteSize build pools route cap size = .ok quoted)
    (within : size ≤ cap) (simulated : Simulated build pools route size net) : quoted.expectedNet = net := by
  obtain ⟨hops,returned,rfl⟩ := simulated
  rw [quoteSize,if_neg (not_lt.mpr within),returned] at ran
  obtain rfl := Except.ok.inj ran
  rfl

/-- The sizes with a higher net than this all failed before it. -/
def Foremost (quotes : List (OwnedSizeResult × ℕ)) (net : ℤ) (failed : List U64) : Prop :=
  ∀ q ∈ quotes, net < q.1.expectedNet → q.1.size ∈ failed

variable (build world config pools route o) in
/-- Where the sweep stands after these quotes of all. -/
def Swept (opened : History F) (quotes done : List (OwnedSizeResult × ℕ)) (sweep : Sweep) (trace : History F) : Prop :=
  match sweep.winner with
  | none => ∃ failed, AllFail build world config pools route o failed opened trace ∧
      ∀ q ∈ done, 0 < q.1.expectedNet → q.1.size ∈ failed
  | some w => ∃ failed swept dry, AllFail build world config pools route o failed opened swept ∧ w.netBase = dry.netBase ∧
      Succeeds build world config pools route o w.size swept trace w.tx dry ∧
      ∃ q ∈ quotes, q.1.size = w.size ∧ 0 < q.1.expectedNet ∧ Foremost quotes q.1.expectedNet failed

abbrev ByNet (s t : OwnedSizeResult × ℕ) : Prop := t.1.expectedNet ≤ s.1.expectedNet

instance : Std.Total ByNet := ⟨fun s t => le_total t.1.expectedNet s.1.expectedNet⟩

instance : IsTrans (OwnedSizeResult × ℕ) ByNet := ⟨fun _ _ _ first second => second.trans first⟩

/-- In a sorted list a quote with a higher net than this one was passed. -/
theorem foremost_of_passed {quotes passed rest : List (OwnedSizeResult × ℕ)} {q : OwnedSizeResult × ℕ} {failed : List U64}
    (split : quotes = passed ++ q :: rest) (sorted : quotes.Pairwise ByNet) (positive : 0 < q.1.expectedNet)
    (attempted : ∀ other ∈ passed, 0 < other.1.expectedNet → other.1.size ∈ failed) :
    Foremost quotes q.1.expectedNet failed := by
  intro other listed higher
  rw [split] at listed sorted
  refine attempted other ?_ (positive.trans higher)
  rcases List.mem_append.mp listed with before | later
  · exact before
  · rcases List.mem_cons.mp later with rfl | later
    · exact absurd higher (lt_irrefl _)
    · have ordered := (List.pairwise_cons.mp (List.pairwise_append.mp sorted).2.1).1 other later
      exact absurd higher (not_lt.mpr ordered)

theorem attemptSize_swept {opened : History F} {quotes passed rest : List (OwnedSizeResult × ℕ)} {q : OwnedSizeResult × ℕ}
    (split : quotes = passed ++ q :: rest) (sorted : quotes.Pairwise ByNet)
    (quoted : ∃ size, quoteSize build pools route cap size = .ok q.1) (sweep : Sweep) :
    Triple (fun t => Swept build world config pools route o opened quotes passed sweep t.trace)
      (attemptSize build world config pools route o.refs o.sender o.baseType o.gasPrice sweep q)
      (fun sweep t => Swept build world config pools route o opened quotes (passed ++ [q]) sweep t.trace)
      (fun _ t => Quiet opened t.trace) := by
  intro t holds
  cases won : sweep.winner with
  | some w =>
    rw [attemptSize,if_pos (.inl (Option.isSome_iff_exists.mpr ⟨w,won⟩))]
    rw [Swept,won] at holds
    change Swept build world config pools route o opened quotes (passed ++ [q]) sweep t.trace
    rw [Swept,won]
    exact holds
  | none =>
    rw [Swept,won] at holds
    obtain ⟨failed,all,attempted⟩ := holds
    by_cases positive : 0 < q.1.expectedNet
    · obtain ⟨size,ran⟩ := quoted
      obtain ⟨named,gains⟩ := quoteSize_simulated ran
      obtain ⟨-,returns,hops,simulated,-⟩ := gains positive
      refine Triple.consequence (attemptSize_at won positive returns ⟨hops,named ▸ simulated⟩) (fun _ same => same) ?_
        (fun _ _ quiet => all.quiet.trans quiet) t rfl
      intro swept after outcome
      cases gained : swept.winner with
      | none =>
        rw [Attempted,gained] at outcome
        rw [Swept,gained]
        refine ⟨failed ++ [q.1.size],all.concat outcome,fun other member gains => ?_⟩
        rcases List.mem_append.mp member with before | here
        · exact List.mem_append_left _ (attempted other before gains)
        · rw [List.mem_singleton.mp here]
          exact List.mem_append_right _ (List.mem_singleton_self _)
      | some w =>
        rw [Attempted,gained] at outcome
        rw [Swept,gained]
        obtain ⟨sized,dry,net,succeeds⟩ := outcome
        have member : q ∈ quotes := split ▸ List.mem_append_right _ List.mem_cons_self
        have foremost : Foremost quotes q.1.expectedNet failed := foremost_of_passed split sorted positive attempted
        exact ⟨failed,t.trace,dry,all,net,sized ▸ succeeds,q,member,sized.symm,positive,foremost⟩
    · rw [attemptSize,if_pos (.inr (.inl (not_lt.mp positive)))]
      change Swept build world config pools route o opened quotes (passed ++ [q]) sweep t.trace
      rw [Swept,won]
      refine ⟨failed,all,fun other member gains => ?_⟩
      rcases List.mem_append.mp member with before | here
      · exact attempted other before gains
      · obtain rfl := List.mem_singleton.mp here
        exact absurd gains positive

theorem sweep_swept {opened : History F} {quotes : List (OwnedSizeResult × ℕ)} {sized : List OwnedSizeResult}
    (sorted : quotes.Pairwise ByNet) (quoted : ∀ q ∈ quotes, ∃ size, quoteSize build pools route cap size = .ok q.1) :
    Triple (fun t => t.trace = opened)
      (quotes.foldlM (attemptSize build world config pools route o.refs o.sender o.baseType o.gasPrice) ⟨none,sized⟩)
      (fun sweep t => Swept build world config pools route o opened quotes quotes sweep t.trace)
      (fun _ t => Quiet opened t.trace) := by
  let Inv : List (OwnedSizeResult × ℕ) → Sweep → Session F → Prop := fun passed sweep t =>
    Swept build world config pools route o opened quotes passed sweep t.trace
  have each : ∀ passed q rest sweep, quotes = passed ++ q :: rest → Triple (Inv passed sweep)
      (attemptSize build world config pools route o.refs o.sender o.baseType o.gasPrice sweep q) (Inv (passed ++ [q]))
      (fun _ t => Quiet opened t.trace) := by
    intro passed q rest sweep split
    exact attemptSize_swept split sorted (quoted q (split ▸ List.mem_append_right _ List.mem_cons_self)) sweep
  refine Triple.consequence (triple_foldlM_passed each ⟨none,sized⟩) (fun t same => ?_) (fun _ _ holds => holds) fun _ _ quiet => quiet
  obtain rfl := same
  exact ⟨[],.nil t.trace,fun _ member => absurd member List.not_mem_nil⟩

end sweep

/-- After the decision on a transaction no other one is sent, and nothing else is decided. -/
def Event.Submits {F : Type} (tx : TransactionData) : Event F → Prop
  | .executed sent _ => sent = tx
  | .decided _ _ _ _ | .chosen _ => False
  | _ => True

section decision
variable {F : Type} [SignedF64 F] {build : Build} {world : World F} {config : LiveConfig F} {baseDecimals : ℕ} {priceUsd : F}

/-- What is appended from here on belongs to the submission of this transaction. -/
def Submitting (tx : TransactionData) (decided : History F) (t : Session F) : Prop :=
  ∃ later, t.trace = decided ++ later ∧ ∀ event ∈ later, event.Submits tx

variable {tx : TransactionData} {decided : History F}

omit [SignedF64 F] in
theorem Submitting.push {t : Session F} {event : Event F} (submitting : Submitting tx decided t) (submits : event.Submits tx) :
    Submitting tx decided (t.push event) := by
  obtain ⟨later,split,all⟩ := submitting
  refine ⟨later ++ [event],?_,List.forall_mem_append.mpr ⟨all,List.forall_mem_singleton.mpr submits⟩⟩
  rw [Session.push,split,List.append_assoc]

omit [SignedF64 F] in
theorem submitting_plainly : Plainly (Submitting tx decided) := by
  intro t event plain submitting
  refine submitting.push ?_
  cases event <;> trivial

theorem submit_submitting {baseType : TypeTag} {sender : Address} {predictedUsd : F} {dryRunAt : ℕ} :
    Triple (Submitting tx decided) (submit build world config baseDecimals priceUsd tx baseType sender predictedUsd dryRunAt)
      (fun _ => Submitting tx decided) (fun _ => Submitting tx decided) := by
  have fails : ∀ (stop : Stop) (t : Session F), Submitting tx decided t → Submitting tx decided t := fun _ _ holds => holds
  have guarded (entry : RiskGuard F → RiskGuard F) : Triple (Submitting tx decided) (updateGuard entry)
      (fun _ => Submitting tx decided) (fun _ => Submitting tx decided) := updateGuard_rule fun _ holds => holds
  have skips : Triple (Submitting tx decided) (recordSkip >>= fun _ => pure Outcome.skipped)
      (fun _ => Submitting tx decided) (fun _ => Submitting tx decided) :=
    (guarded _).bind fun _ => triple_pure fun _ holds => holds
  unfold submit
  split
  · exact triple_lift (fun _ _ failed => by cases failed) fun stop t _ => fails stop t
  · apply ask_plain submitting_plainly
    intro history
    apply lift_plain fails
    intro _ _
    apply (push_rule fun _ submitting => submitting.push trivial).bind
    intro _
    apply Triple.bind (now_rule submitting_plainly fun _ _ submitting => submitting.push trivial)
    intro checkedAt
    split
    next => exact skips
    next =>
      apply ask_plain submitting_plainly
      intro history
      apply (push_rule fun _ submitting => submitting.push rfl).bind
      intro _
      apply lift_plain fails
      intro resp _
      apply (guarded _).bind
      intro _
      apply lift_plain fails
      intro realized _
      exact (guarded _).bind fun _ => triple_pure fun _ holds => holds

/-- A decision was taken where this stood, and what was appended since belongs to it. -/
def Judging (Stands : History F → Prop) (tx : TransactionData) (netUsd : F) (route : List Hop) (decision : Decision)
    (t : Session F) : Prop :=
  ∃ before guard, Stands before ∧ Submitting tx (before ++ [.decided guard netUsd (route.map Hop.poolId) decision]) t

variable {Stands : History F → Prop} {netUsd : F} {route : List Hop} {decision : Decision}

theorem decide_judging {Fail : Stop → Session F → Prop} :
    Triple (fun t => Stands t.trace) (decide netUsd route) (Judging Stands tx netUsd route) Fail := by
  intro t stands
  exact ⟨t.trace,t.guard,stands,[],(List.append_nil _).symm,List.forall_mem_nil _⟩

theorem submit_judging {baseType : TypeTag} {sender : Address} {predictedUsd : F} {dryRunAt : ℕ} :
    Triple (Judging Stands tx netUsd route decision)
      (submit build world config baseDecimals priceUsd tx baseType sender predictedUsd dryRunAt)
      (fun _ => Judging Stands tx netUsd route decision) (fun _ => Judging Stands tx netUsd route decision) := by
  intro t judging
  obtain ⟨before,guard,stands,submitting⟩ := judging
  have kept (u : Session F) (onward : Submitting tx (before ++ [.decided guard netUsd (route.map Hop.poolId) decision]) u) :
      Judging Stands tx netUsd route decision u := ⟨before,guard,stands,onward⟩
  exact Triple.consequence submit_submitting (fun _ holds => holds) (fun _ => kept) (fun _ => kept) t submitting

end decision

section best
variable {F : Type} [SignedF64 F] (build : Build) (world : World F) (config : LiveConfig F) (baseDecimals : ℕ) (priceUsd : F)
  (pools : List PoolState) (route : List Hop)

/-- A call that decided on a size: its sweep from one trace to another, the sizes that
failed in it, and the transaction that it dry-ran last. -/
structure Pick (F : Type) where
  opening : Opening
  opened : History F
  failed : List U64
  swept : History F
  size : U64
  net : ℤ
  tx : TransactionData
  dry : DryRun

/-- The size is within the cap and gains, its dry run passed the threshold, every size
within the cap that was expected to gain more had failed before, and what is submitted is
its transaction. -/
structure Best (pick : Pick F) (start before : History F) (netUsd : F) (poolIds : List PoolId) (later : History F) : Prop where
  opens : Opens world config route start pick.opening pick.opened
  fails : AllFail build world config pools route pick.opening pick.failed pick.opened pick.swept
  succeeds : Succeeds build world config pools route pick.opening pick.size pick.swept before pick.tx pick.dry
  configured : pick.size ∈ config.ownedSizes
  within : pick.size ≤ walletCap config pick.opening.total
  simulated : Simulated build pools route pick.size pick.net
  positive : 0 < pick.net
  usd : netUsd = mistToUsd (gain pick.dry.netBase) baseDecimals priceUsd
  hops : poolIds = route.map Hop.poolId
  foremost : ∀ size ∈ config.ownedSizes, size ≤ walletCap config pick.opening.total → ∀ net,
    Simulated build pools route size net → pick.net < net → size ∈ pick.failed
  submits : ∀ event ∈ later, event.Submits pick.tx

/-- Every size within the cap that was expected to gain was attempted and failed. -/
def Exhausted (start final : History F) : Prop :=
  ∃ o opened failed, Opens world config route start o opened ∧ AllFail build world config pools route o failed opened final ∧
    ∀ size ∈ config.ownedSizes, size ≤ walletCap config o.total → ∀ net, Simulated build pools route size net → 0 < net →
      size ∈ failed

/-- A trace with one decision since the start, on the best size. -/
def Decides (start final : History F) : Prop :=
  ∃ before guard netUsd poolIds decision later pick, final = before ++ .decided guard netUsd poolIds decision :: later ∧
    Quiet start before ∧ Best build world config baseDecimals priceUsd pools route pick start before netUsd poolIds later

variable {build world config baseDecimals priceUsd pools route} {s : Session F}

omit [SignedF64 F] in
theorem Opens.quiet {start opened : History F} {o : Opening} (opens : Opens world config route start o opened) :
    Quiet start opened := ⟨_,opens.events,by simp [Event.isDecision]⟩

section quoted
variable {o : Opening} {sized : List OwnedSizeResult} {opened : History F}
  (quoted : config.ownedSizes.mapM (quoteSize build pools route (walletCap config o.total)) = .ok sized)

include quoted

omit [SignedF64 F] in
theorem quoted_sorted : ∀ q ∈ sized.zipIdx.insertionSort ByNet, ∃ size ∈ config.ownedSizes,
    quoteSize build pools route (walletCap config o.total) size = .ok q.1 := by
  intro q member
  exact Fallible.mapM_mem quoted (List.fst_mem_of_mem_zipIdx ((List.mem_insertionSort _).mp member))

omit [SignedF64 F] in
theorem quoted_listed {size : U64} {net : ℤ} (member : size ∈ config.ownedSizes) (within : size ≤ walletCap config o.total)
    (simulated : Simulated build pools route size net) :
    ∃ q ∈ sized.zipIdx.insertionSort ByNet, q.1.size = size ∧ q.1.expectedNet = net := by
  obtain ⟨r,listed,ran⟩ := Fallible.mapM_ran quoted member
  obtain ⟨i,there⟩ := List.mem_iff_getElem?.mp listed
  have indexed : (r,i) ∈ sized.zipIdx := List.mk_mem_zipIdx_iff_getElem?.mpr there
  exact ⟨(r,i),(List.mem_insertionSort _).mpr indexed,(quoteSize_simulated ran).1,quoteSize_net ran within simulated⟩

theorem swept_exhausted {start trace : History F} (opens : Opens world config route start o opened) {sweep : Sweep}
    (nothing : sweep.winner = none)
    (swept : Swept build world config pools route o opened (sized.zipIdx.insertionSort ByNet)
      (sized.zipIdx.insertionSort ByNet) sweep trace) : Exhausted build world config pools route start trace := by
  rw [Swept,nothing] at swept
  obtain ⟨failed,all,attempted⟩ := swept
  refine ⟨o,opened,failed,opens,all,fun size member within net simulated positive => ?_⟩
  obtain ⟨q,listed,rfl,rfl⟩ := quoted_listed quoted member within simulated
  exact attempted q listed positive

/-- What a decision on the winner is followed by belongs to the best size. -/
theorem swept_decides {start before : History F} (opens : Opens world config route start o opened) {sweep : Sweep} {w : Winner}
    (won : sweep.winner = some w)
    (swept : Swept build world config pools route o opened (sized.zipIdx.insertionSort ByNet)
      (sized.zipIdx.insertionSort ByNet) sweep before) {guard : RiskGuard F} {decision : Decision} {t : Session F}
    (submitting : Submitting w.tx (before ++ [.decided guard (mistToUsd (gain w.netBase) baseDecimals priceUsd)
      (route.map Hop.poolId) decision]) t) :
    Decides build world config baseDecimals priceUsd pools route start t.trace := by
  rw [Swept,won] at swept
  obtain ⟨failed,between,dry,all,net,succeeds,q,listed,sized',positive,foremost⟩ := swept
  obtain ⟨size,configured,ran⟩ := quoted_sorted quoted q listed
  obtain ⟨rfl,gains⟩ := quoteSize_simulated ran
  obtain ⟨within,-,simulated⟩ := gains positive
  obtain ⟨later,events,submits⟩ := submitting
  have higher : ∀ size ∈ config.ownedSizes, size ≤ walletCap config o.total → ∀ net, Simulated build pools route size net →
      q.1.expectedNet < net → size ∈ failed := by
    intro other member fits net' expected higher
    obtain ⟨r,there,rfl,rfl⟩ := quoted_listed quoted member fits expected
    exact foremost r there higher
  refine ⟨before,guard,mistToUsd (gain w.netBase) baseDecimals priceUsd,route.map Hop.poolId,decision,later,⟨o,opened,failed,between,q.1.size,q.1.expectedNet,w.tx,dry⟩,?_,?_,
    opens,all,sized' ▸ succeeds,configured,within,simulated,positive,by rw [net],rfl,higher,submits⟩
  · rw [events,List.append_assoc,List.singleton_append]
  · exact opens.quiet.trans (all.quiet.trans succeeds.rehearsal.quiet)

end quoted

variable (build world config baseDecimals priceUsd pools route) in
theorem tryExecuteOwnedSized_ends :
    Triple (· = s) (tryExecuteOwnedSized build world config baseDecimals priceUsd pools route)
      (fun _ t => Exhausted build world config pools route s.trace t.trace ∨
        Decides build world config baseDecimals priceUsd pools route s.trace t.trace)
      (fun _ t => Quiet s.trace t.trace ∨ Decides build world config baseDecimals priceUsd pools route s.trace t.trace) := by
  have start := Quiet.refl s.trace
  unfold tryExecuteOwnedSized
  apply ask_at
  apply lift_at fun _ => .inl (start.push rfl)
  intro sender parsed
  apply lift_at fun _ => .inl (start.push rfl)
  intro baseType typed
  apply ask_at
  apply lift_at fun _ => .inl ((start.push rfl).push rfl)
  intro refs resolved
  apply ask_at
  apply lift_at fun _ => .inl (((start.push rfl).push rfl).push rfl)
  intro total balance
  apply push_at
  apply lift_at fun _ => .inl ((((start.push rfl).push rfl).push rfl).push rfl)
  intro sized quoted
  apply ask_at
  apply lift_at fun _ => .inl (((((start.push rfl).push rfl).push rfl).push rfl).push rfl)
  intro gasPrice price
  let o : Opening := ⟨sender,baseType,refs,total,gasPrice⟩
  let opened : History F := s.trace ++ [.observed,.observed,.observed,.balance total,.observed]
  have quoted : config.ownedSizes.mapM (quoteSize build pools route (walletCap config o.total)) = .ok sized := unwind_ok.mp quoted
  have opens : Opens world config route s.trace o opened := by
    refine ⟨context_ok.mp parsed,context_ok.mp typed,resolved,?_,?_,rfl⟩
    · simpa [Session.push] using balance
    · simpa [Session.push] using price
  let quotes := sized.zipIdx.insertionSort ByNet
  let Stands : Sweep → History F → Prop := Swept build world config pools route o opened quotes quotes
  have fold : Triple (fun t : Session F => t.trace = opened)
      (quotes.foldlM (attemptSize build world config pools route o.refs o.sender o.baseType o.gasPrice) ⟨none,sized⟩)
      (fun sweep t => Stands sweep t.trace) (fun _ t => Quiet opened t.trace) :=
    sweep_swept (List.pairwise_insertionSort ByNet sized.zipIdx) fun q member =>
      (quoted_sorted quoted q member).imp fun _ both => both.2
  refine Triple.bind (Triple.consequence fold (fun t same => ?_) (fun _ _ swept => swept) fun _ t quiet => ?_) fun sweep => ?_
  · rw [same]
    simp [Session.push,opened]
  · exact .inl (opens.quiet.trans quiet)
  split
  next nothing => exact triple_pure fun t swept => .inl (swept_exhausted quoted opens nothing swept)
  next w won =>
    have ends {decision : Decision} {t : Session F}
        (judging : Judging (Stands sweep) w.tx (mistToUsd (gain w.netBase) baseDecimals priceUsd) route decision t) :
        Decides build world config baseDecimals priceUsd pools route s.trace t.trace := by
      obtain ⟨before,guard,swept,submitting⟩ := judging
      exact swept_decides quoted opens won swept submitting
    apply decide_judging.bind
    intro decision
    cases decision with
    | skip reason => exact triple_pure fun t judging => .inr (ends judging)
    | submit =>
      dsimp only
      split
      next enabled =>
        apply (submit_judging.consequence (fun _ holds => holds) (fun _ _ holds => holds) fun _ _ judging => .inr (ends judging)).bind
        intro outcome
        exact triple_pure fun t judging => .inr (ends judging)
      next disabled => exact triple_pure fun t judging => .inr (ends judging)

theorem Exhausted.quiet {start final : History F} (exhausted : Exhausted build world config pools route start final) :
    Quiet start final := by
  obtain ⟨o,opened,failed,opens,all,-⟩ := exhausted
  exact opens.quiet.trans all.quiet

variable (build world config baseDecimals priceUsd pools route) in
/-- Whatever a call decides on is the best size that can be funded, and a call that
decides on nothing ran out of sizes or stopped early. -/
structure PicksBest (s : Session F) (outcome : Except Stop (List OwnedSizeResult) × Session F) : Prop where
  decided : ∀ before guard netUsd poolIds decision later,
    outcome.2.trace = before ++ .decided guard netUsd poolIds decision :: later → s.trace <+: before →
      ∃ pick, Best build world config baseDecimals priceUsd pools route pick s.trace before netUsd poolIds later
  undecided : Quiet s.trace outcome.2.trace → (∃ stop, outcome.1 = .error stop) ∨
    Exhausted build world config pools route s.trace outcome.2.trace

omit [SignedF64 F] in
theorem Event.Submits.undecided {tx : TransactionData} {event : Event F} (submits : event.Submits tx) :
    ¬ event.isDecision = true := by
  cases event <;> first | exact submits.elim | exact Bool.false_ne_true

theorem Decides.best {start final : History F} (decides : Decides build world config baseDecimals priceUsd pools route start final)
    {before later : History F} {guard : RiskGuard F} {netUsd : F} {poolIds : List PoolId} {decision : Decision}
    (split : final = before ++ .decided guard netUsd poolIds decision :: later) (since : start <+: before) :
    ∃ pick, Best build world config baseDecimals priceUsd pools route pick start before netUsd poolIds later := by
  obtain ⟨front,guard',netUsd',poolIds',decision',back,pick,rfl,⟨more,rfl,quiet⟩,best⟩ := decides
  obtain ⟨more',rfl⟩ := since
  rw [List.append_assoc,List.append_assoc] at split
  have before_it : ∀ event ∈ more, ¬ event.isDecision = true := fun event member => Bool.not_eq_true _ ▸ quiet event member
  have after_it : ∀ event ∈ back, ¬ event.isDecision = true := fun event member => (best.submits event member).undecided
  have parts := split_unique (fun event : Event F => event.isDecision = true) (List.append_cancel_left split) rfl before_it after_it
  obtain ⟨rfl,same,rfl⟩ := parts
  obtain ⟨rfl,rfl,rfl,rfl⟩ := Event.decided.inj same
  exact ⟨pick,best⟩

/-- The owned mode decides on the best size that it can fund, whatever the wallet, the
node and the dry runs answer. -/
theorem tryExecuteOwnedSized_best (build : Build) (world : World F) (config : LiveConfig F) (baseDecimals : ℕ) (priceUsd : F)
    (pools : List PoolState) (route : List Hop) (s : Session F) :
    PicksBest build world config baseDecimals priceUsd pools route s
      ((tryExecuteOwnedSized build world config baseDecimals priceUsd pools route).exec s) := by
  have ends := tryExecuteOwnedSized_ends build world config baseDecimals priceUsd pools route s rfl
  generalize (tryExecuteOwnedSized build world config baseDecimals priceUsd pools route).exec s = outcome at ends
  constructor
  · intro before guard netUsd poolIds decision later split since
    have quiet_or : Quiet s.trace outcome.2.trace ∨
        Decides build world config baseDecimals priceUsd pools route s.trace outcome.2.trace := by
      rcases outcome with ⟨stop | sized,final⟩
      · exact ends
      · exact ends.imp_left Exhausted.quiet
    rcases quiet_or with quiet | decides
    · cases quiet.undecided split since
    · exact decides.best split since
  · intro quiet
    rcases outcome with ⟨stop | sized,final⟩
    · exact .inl ⟨stop,rfl⟩
    · rcases ends with exhausted | decides
      · exact .inr exhausted
      · obtain ⟨before,guard,netUsd,poolIds,decision,later,-,split,⟨more,since,-⟩,-⟩ := decides
        cases quiet.undecided split ⟨more,since.symm⟩

end best

end SuiArbitrage.Rust.Live
