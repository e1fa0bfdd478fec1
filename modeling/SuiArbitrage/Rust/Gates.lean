import SuiArbitrage.Rust.LiveRules

/-! Nothing is submitted without passing every gate. The live loop is followed through its
trace: an event of a submission is only appended where the events it needs stand before it. -/
namespace SuiArbitrage.Rust.Live
open MachineWord Stateful Scanner
open Move (TypeTag ObjectId Address Argument Command)
open Executor (LivePoolRef Node)

structure Clearance (F : Type) where
  dry : DryRun
  dryRunAt : ℕ
  guard : RiskGuard F
  checkedAt : ℕ

section gates
variable {F : Type} [SignedF64 F] (config : LiveConfig F)

def usdOf (dry : DryRun) : F := mistToUsd (gain dry.netBase) 9 config.suiPriceUsd

def Clearance.events (opp : Opportunity) (tx : TransactionData) (c : Clearance F) : History F :=
  [.dryRan tx c.dry,.clock c.dryRunAt,.decided c.guard (usdOf config c.dry) (opp.route.map Hop.poolId) .submit,
    .signed tx,.clock c.checkedAt]

/-- The input that a transaction of the owned mode splits off the gas coin is within the
wallet's balance, after the gas budget, and within the configured capital. -/
def Affordable (tx : TransactionData) (total : U128) : Prop :=
  ∃ size : U64, tx.pt.head? = some (.splitCoins .gasCoin [.pure (.u64 size)]) ∧
    size.val + config.gasBudget.val ≤ total.val ∧ size ≤ config.maxWalletCapital

/-- Every gate, passed in this order by this very transaction since the opportunity was
chosen. -/
structure Clears (opp : Opportunity) (tx : TransactionData) (since : History F) (c : Clearance F) : Prop where
  order : (c.events config opp tx).Sublist since
  success : c.dry.success = true
  positive : 0 < c.dry.netBase.val
  enough : (effectiveMin config opp.kind).val ≤ c.dry.netBase.val
  approved : c.guard.shouldSubmit (usdOf config c.dry) (opp.route.map Hop.poolId) = .submit
  halted : config.killSwitch = false
  losses : c.guard.lossLimit = false
  listed : ∀ hop ∈ opp.route, hop.poolId ∉ config.poolBlacklist
  enabled : config.submitEnabled = true
  fresh : (c.checkedAt - c.dryRunAt) / 1000000 ≤ config.maxQuoteAgeMs.val
  cfg : c.guard.cfg = riskConfig config
  affordable : owned config opp = true → ∃ total, .balance total ∈ since ∧ Affordable config tx total

def Event.isChoice : Event F → Bool
  | .chosen _ => true
  | _ => false

def Cleared (before : History F) (tx : TransactionData) : Prop :=
  ∃ opp earlier since c, before = earlier ++ .chosen opp :: since ∧ (∀ event ∈ since, event.isChoice = false) ∧
    Clears config opp tx since c

/-- Every submission of a trace is cleared by what happened before it. -/
def Gated (trace : History F) : Prop :=
  Throughout (fun before event => ∀ tx delivery, event = .executed tx delivery → Cleared config before tx) trace

variable {config} {trace : History F} {event : Event F}

def Event.isQuiet : Event F → Bool
  | .chosen _ | .executed _ _ => false
  | _ => true

theorem gated_quiet (gated : Gated config trace) (quiet : event.isQuiet = true) : Gated config (trace ++ [event]) := by
  apply Throughout.concat gated
  rintro tx delivery rfl
  cases quiet

/-- Between two rounds: the trace is gated, and the guard is the configured one. -/
structure Safe (config : LiveConfig F) (s : Session F) : Prop where
  gated : Gated config s.trace
  cfg : s.guard.cfg = riskConfig config

/-- Within a round that has not submitted: these events stand in this order since the
choice. -/
structure Running (config : LiveConfig F) (opp : Opportunity) (seen : History F) (s : Session F) : Prop where
  safe : Safe config s
  events : ∃ earlier since, s.trace = earlier ++ .chosen opp :: since ∧ (∀ e ∈ since, e.isChoice = false) ∧ seen.Sublist since

section rules
variable {opp : Opportunity} {seen : History F} {α β : Type} {Fail : Stop → Session F → Prop}

theorem Running.weaken {fewer : History F} {s : Session F} (running : Running config opp seen s) (sub : fewer.Sublist seen) :
    Running config opp fewer s := by
  obtain ⟨safe,earlier,since,split,choices,within⟩ := running
  exact ⟨safe,earlier,since,split,choices,sub.trans within⟩

theorem Running.push {s : Session F} (running : Running config opp seen s) (quiet : event.isQuiet = true) :
    Running config opp (seen ++ [event]) (s.push event) := by
  obtain ⟨safe,earlier,since,split,choices,within⟩ := running
  refine ⟨⟨gated_quiet safe.gated quiet,safe.cfg⟩,earlier,since ++ [event],?_,?_,within.append (List.Sublist.refl _)⟩
  · rw [Session.push,split,List.append_assoc,List.cons_append]
  · intro e member
    rcases List.mem_append.mp member with before | here
    · exact choices e before
    · obtain rfl := List.mem_singleton.mp here
      cases e <;> first | rfl | cases quiet

omit [SignedF64 F] in
theorem quiet_of_plain (plain : event.isPlain = true) : event.isQuiet = true := by
  cases event <;> first | rfl | cases plain

theorem safe_plainly : Plainly (Safe config) :=
  fun _ _ plain safe => ⟨gated_quiet safe.gated (quiet_of_plain plain),safe.cfg⟩

theorem running_plainly : Plainly (Running config opp seen) :=
  fun _ _ plain running => (running.push (quiet_of_plain plain)).weaken (List.sublist_append_left _ _)

theorem recordSkip_running {next : Bot F α} (onward : Triple (Safe config) next (fun _ => Safe config) Fail) :
    Triple (Running config opp seen) (recordSkip >>= fun _ => next) (fun _ => Safe config) Fail :=
  Triple.bind (updateGuard_rule fun _ running => ⟨running.safe.gated,running.safe.cfg⟩) fun _ => onward

theorem updateGuard_safe {entry : RiskGuard F → RiskGuard F} (same : ∀ guard, (entry guard).cfg = guard.cfg) :
    Triple (Safe config) (updateGuard entry) (fun _ => Safe config) Fail :=
  updateGuard_rule fun s safe => ⟨safe.gated,(same s.guard).trans safe.cfg⟩

theorem safe_return {value : α} : Triple (Safe config) (pure value : Bot F α) (fun _ => Safe config) Fail :=
  triple_pure fun _ safe => safe

theorem decide_running {netUsd : F} {route : List Hop} :
    Triple (Running config opp seen) (decide netUsd route)
      (fun decision s => ∃ guard, guard.cfg = riskConfig config ∧
        decision = guard.shouldSubmit netUsd (route.map Hop.poolId) ∧
        Running config opp (seen ++ [.decided guard netUsd (route.map Hop.poolId) decision]) s) Fail :=
  fun s running => ⟨s.guard,running.safe.cfg,rfl,running.push rfl⟩

theorem executed_safe {tx : TransactionData} {delivery : Delivery}
    (clears : ∀ since, seen.Sublist since → ∃ c, Clears config opp tx since c) :
    Triple (Running config opp seen) (push (.executed tx delivery)) (fun _ => Safe config) Fail := by
  intro s running
  obtain ⟨safe,earlier,since,split,choices,within⟩ := running
  refine ⟨safe.gated.concat ?_,safe.cfg⟩
  rintro other _ same
  obtain ⟨rfl,-⟩ := Event.executed.inj same
  obtain ⟨c,cleared⟩ := clears since within
  exact ⟨opp,earlier,since,c,split,choices,cleared⟩

theorem submit_safe {build : Build} {world : World F} {baseDecimals : ℕ} {priceUsd predictedUsd : F} {tx : TransactionData}
    {baseType : TypeTag} {sender : Address} {dryRunAt : ℕ}
    (clears : ∀ checkedAt, (checkedAt - dryRunAt) / 1000000 ≤ config.maxQuoteAgeMs.val → ∀ since,
      (seen ++ [Event.signed tx] ++ [Event.clock checkedAt]).Sublist since → ∃ c, Clears config opp tx since c) :
    Triple (Running config opp seen)
      (submit build world config baseDecimals priceUsd tx baseType sender predictedUsd dryRunAt)
      (fun _ => Safe config) (fun _ => Safe config) := by
  unfold submit
  split
  · exact triple_lift (fun _ _ failed => by cases failed) fun _ _ _ running => running.safe
  · apply ask_plain running_plainly
    intro history
    apply lift_plain fun _ _ => Running.safe
    intro _ _
    apply (push_rule fun _ running => running.push rfl).bind
    intro _
    apply Triple.bind (now_rule running_plainly fun _ _ running => running.push rfl)
    intro checkedAt
    split
    next => exact recordSkip_running safe_return
    next young =>
      apply ask_plain running_plainly
      intro history
      apply (executed_safe (clears checkedAt (not_lt.mp young))).bind
      intro _
      apply lift_plain fun _ _ safe => safe
      intro resp _
      refine Triple.bind (updateGuard_safe ?_) fun _ => ?_
      · exact fun _ => rfl
      apply lift_plain fun _ _ safe => safe
      intro realized _
      refine Triple.bind (updateGuard_safe ?_) fun _ => safe_return
      exact fun _ => rfl

end rules

section flash
variable {opp : Opportunity} {seen : History F} {build : Build} {world : World F}

/-- What IEEE 754 says of zero: divided by a power of ten it is zero, and times a finite
number it is a zero of either sign. -/
structure Ieee (F : Type) [SignedF64 F] : Prop where
  zero_div : ∀ n, F64.ofU64 0 / F64.powi (F64.ofU64 10) n = (F64.ofU64 0 : F)
  zero_mul : ∀ price : F, SignedF64.isFinite price = true → F64.atMost (F64.ofU64 0 * price) (F64.ofU64 0) = true

/-- The guard only lets a gain through: without one there is nothing in dollars either. -/
theorem positive_of_submit (ieee : Ieee F) (finite : SignedF64.isFinite config.suiPriceUsd = true) {guard : RiskGuard F}
    {dry : DryRun} {poolIds : List PoolId} (approved : guard.shouldSubmit (usdOf config dry) poolIds = .submit) :
    0 < dry.netBase.val := by
  by_contra loss
  have zero : gain dry.netBase = 0 := by
    rw [gain,max_eq_right (not_lt.mp loss)]
    rfl
  have nothing := (RiskGuard.shouldSubmit_submit.mp approved).2.2.2
  rw [usdOf,zero,mistToUsd,ieee.zero_div,ieee.zero_mul _ finite] at nothing
  cases nothing

theorem clears_intro (ieee : Ieee F) (finite : SignedF64.isFinite config.suiPriceUsd = true) {front since : History F}
    {tx : TransactionData} {dry : DryRun} {dryRunAt checkedAt : ℕ} {guard : RiskGuard F} (success : ¬ dry.success = false)
    (enough : ¬ dry.netBase.val < (effectiveMin config opp.kind).val) (cfg : guard.cfg = riskConfig config)
    (approved : Decision.submit = guard.shouldSubmit (usdOf config dry) (opp.route.map Hop.poolId))
    (enabled : config.submitEnabled = true)
    (affordable : owned config opp = true → ∃ total, .balance total ∈ front ∧ Affordable config tx total)
    (fresh : (checkedAt - dryRunAt) / 1000000 ≤ config.maxQuoteAgeMs.val)
    (within : List.Sublist (front ++ [Event.dryRan tx dry] ++ [Event.clock dryRunAt] ++
      [Event.decided guard (usdOf config dry) (opp.route.map Hop.poolId) .submit] ++ [Event.signed tx] ++
      [Event.clock checkedAt]) since) : ∃ c, Clears config opp tx since c := by
  simp only [List.append_assoc,List.cons_append,List.nil_append] at within
  have passed := RiskGuard.shouldSubmit_submit.mp approved.symm
  rw [cfg] at passed
  refine ⟨⟨dry,dryRunAt,guard,checkedAt⟩,?_⟩
  constructor
  · exact (List.sublist_append_right front _).trans within
  · exact Bool.not_eq_false _ ▸ success
  · exact positive_of_submit ieee finite approved.symm
  · exact not_lt.mp enough
  · exact approved.symm
  · exact passed.1
  · exact passed.2.1
  · exact fun hop member => passed.2.2.1 _ (List.mem_map_of_mem member)
  · exact enabled
  · exact fresh
  · exact cfg
  · intro own
    obtain ⟨total,member,affords⟩ := affordable own
    exact ⟨total,within.mem (List.mem_append_left _ member),affords⟩

theorem tryExecute_safe (ieee : Ieee F) (finite : SignedF64.isFinite config.suiPriceUsd = true)
    (borrowed : owned config opp = false) : Triple (Running config opp [])
      (tryExecute build world config 9 config.suiPriceUsd opp) (fun _ => Safe config) (fun _ => Safe config) := by
  unfold tryExecute
  apply (assemble_plain running_plainly fun _ _ => Running.safe).bind
  rintro ⟨tx,baseType⟩
  apply triple_assuming
  intro _
  apply Triple.bind (dryRun_rule running_plainly (fun _ _ => Running.safe) fun _ _ running => running.push rfl)
  intro dry
  apply Triple.bind (now_rule running_plainly fun _ _ running => running.push rfl)
  intro dryRunAt
  split
  next => exact recordSkip_running safe_return
  next success =>
    split
    next => exact recordSkip_running safe_return
    next enough =>
      apply decide_running.bind
      intro decision s holds
      obtain ⟨guard,cfg,decided,running⟩ := holds
      cases decision with
      | skip reason => exact recordSkip_running safe_return s running
      | submit =>
        dsimp only
        split
        next enabled =>
          refine submit_safe (fun checkedAt fresh since within => ?_) s running
          refine clears_intro ieee finite success enough cfg decided enabled (fun own => ?_) fresh within
          rw [borrowed] at own
          cases own
        next => exact running.safe

end flash

end gates

/-! The owned mode: a size that wins was quoted, so it is positive and within the cap. -/
section sizes
variable {build : Build} {pools : List PoolState} {route : List Hop}

theorem quoteHop_zero (build : Build) (pool : PoolState) (hop : Hop) : quoteHop build pool hop 0 = .ok none := by
  have noV2 (reserveIn reserveOut feeBps : U64) : Amm.getAmountOut build 0 reserveIn reserveOut feeBps = .ok none := by
    rw [Amm.getAmountOut,if_pos (.inl rfl)]
    rfl
  unfold quoteHop
  split
  · rw [noV2,noV2,ite_self]
  · rw [Clmm.quoteExactIn,if_pos (.inl rfl)]
    rfl

theorem simulateCollect_zero (build : Build) (byId : PoolId → Option PoolState) (route : List Hop) :
    simulateCollect build byId route 0 = .ok none := by
  unfold simulateCollect
  split
  · rfl
  · cases route with
    | nil => contradiction
    | cons hop rest =>
      rw [collect]
      cases byId hop.poolId with
      | none => rfl
      | some pool =>
        change andThen (quoteHop build pool hop 0) _ = _
        rw [quoteHop_zero]
        rfl

theorem quoteSize_ok {cap size : U64} {quoted : OwnedSizeResult} (ran : quoteSize build pools route cap size = .ok quoted)
    (returns : quoted.expectedOut ≠ 0) : 0 < quoted.size ∧ quoted.size ≤ cap := by
  obtain ⟨rfl,nothing | ⟨within,hops,simulated,-⟩⟩ := quoteSize_cases ran
  · exact absurd nothing.1 returns
  · refine ⟨Fin.pos_iff_ne_zero.mpr fun zero => ?_,within⟩
    rw [zero,simulateCollect_zero] at simulated
    cases simulated

theorem walletCap_affords {F : Type} {config : LiveConfig F} {total : U128} {size : U64} (positive : 0 < size)
    (within : size ≤ walletCap config total) :
    size.val + config.gasBudget.val ≤ total.val ∧ size ≤ config.maxWalletCapital := by
  obtain ⟨balance,capital⟩ := le_min_iff.mp within
  have spendable : size.val ≤ total.val - config.gasBudget.val := (Fin.le_def.mp balance).trans (wrap_natCast_le _ _)
  have some_input : 0 < size.val := positive
  exact ⟨by omega,capital⟩

end sizes

section owned
variable {F : Type} [SignedF64 F] {config : LiveConfig F} {opp : Opportunity} {seen : History F} {build : Build}
  {world : World F} {total : U128}

structure Rehearsed (config : LiveConfig F) (total : U128) (dry : DryRun) (w : Winner) : Prop where
  success : ¬ dry.success = false
  net : w.netBase = dry.netBase
  enough : ¬ dry.netBase.val < config.effectiveMinProfitMist.val
  affordable : Affordable config w.tx total

def Holds (config : LiveConfig F) (opp : Opportunity) (total : U128) (sweep : Sweep) (s : Session F) : Prop :=
  match sweep.winner with
  | none => Running config opp [.balance total] s
  | some w => ∃ dry, Rehearsed config total dry w ∧
      Running config opp ([.balance total] ++ [.dryRan w.tx dry] ++ [.clock w.dryRunAt]) s

theorem holds_none {sweep : Sweep} {s : Session F} (nothing : sweep.winner = none) :
    Holds config opp total sweep s ↔ Running config opp [.balance total] s := by
  rw [Holds,nothing]

theorem rehearse_holds {sweep : Sweep} {i : ℕ} {size : U64} {tx : TransactionData} {baseType : TypeTag} {sender : Address}
    (nothing : sweep.winner = none) (affordable : Affordable config tx total) :
    Triple (Running config opp [.balance total]) (rehearse build world config sender baseType sweep i size tx)
      (Holds config opp total) (fun _ => Safe config) := by
  unfold rehearse
  apply Triple.bind (dryRun_rule running_plainly (fun _ _ => Running.safe) fun _ _ running => running.push rfl)
  intro dry
  apply Triple.bind (now_rule running_plainly fun _ _ running => running.push rfl)
  intro dryRunAt
  -- Without a win the sweep goes on as if this dry run had not happened.
  have onward (note : String) (s : Session F)
      (running : Running config opp ([.balance total] ++ [.dryRan tx dry] ++ [.clock dryRunAt]) s) :
      Holds config opp total (sweep.dried i dry note) s := by
    have unchanged : (sweep.dried i dry note).winner = none := nothing
    refine (holds_none unchanged).mpr (running.weaken ?_)
    exact (List.sublist_append_left _ _).trans (List.sublist_append_left _ _)
  split
  next => exact triple_pure (onward _)
  next success =>
    split
    next => exact triple_pure (onward _)
    next enough => exact triple_pure fun s running => ⟨dry,⟨success,rfl,enough,affordable⟩,running⟩

theorem attemptSize_holds {pools : List PoolState} {route : List Hop} {refs : List (LivePoolRef × Bool)} {sender : Address}
    {baseType : TypeTag} {gasPrice : U64} {sweep : Sweep} {quoted : OwnedSizeResult} {i : ℕ}
    (sized : quoted.expectedOut ≠ 0 → 0 < quoted.size ∧ quoted.size ≤ walletCap config total) :
    Triple (Holds config opp total sweep)
      (attemptSize build world config pools route refs sender baseType gasPrice sweep (quoted,i))
      (Holds config opp total) (fun _ => Safe config) := by
  cases won : sweep.winner with
  | some w =>
    rw [attemptSize,if_pos (.inl (Option.isSome_iff_exists.mpr ⟨w,won⟩))]
    exact triple_pure fun _ holds => holds
  | none =>
    refine Triple.consequence (attemptSize_rule running_plainly (fun _ _ => Running.safe) ?_ ?_ ?_)
      (fun _ holds => (holds_none won).mp holds) (fun _ _ holds => holds) fun _ _ safe => safe
    · exact fun _ running => (holds_none won).mpr running
    · exact fun _ _ running => (holds_none won).mpr running
    · intro tx _ head returns nothing
      obtain ⟨positive,within⟩ := sized returns
      exact rehearse_holds nothing ⟨quoted.size,head,walletCap_affords positive within⟩

/-- The guard has decided on the winner of a sweep. -/
def Judged (config : LiveConfig F) (opp : Opportunity) (total : U128) (w : Winner) (decision : Decision) (s : Session F) :
    Prop :=
  ∃ dry guard, Rehearsed config total dry w ∧ guard.cfg = riskConfig config ∧
    decision = guard.shouldSubmit (usdOf config dry) (opp.route.map Hop.poolId) ∧
    Running config opp ([.balance total] ++ [.dryRan w.tx dry] ++ [.clock w.dryRunAt] ++
      [.decided guard (usdOf config dry) (opp.route.map Hop.poolId) decision]) s

theorem decide_judged {sweep : Sweep} {w : Winner} (won : sweep.winner = some w) {Fail : Stop → Session F → Prop} :
    Triple (Holds config opp total sweep) (decide (mistToUsd (gain w.netBase) 9 config.suiPriceUsd) opp.route)
      (Judged config opp total w) Fail := by
  intro s holds
  rw [Holds,won] at holds
  obtain ⟨dry,rehearsed,running⟩ := holds
  rw [rehearsed.net]
  refine Triple.consequence decide_running (fun _ running => running) ?_ (fun _ _ failed => failed) s running
  intro decision after ⟨guard,cfg,decided,running⟩
  exact ⟨dry,guard,rehearsed,cfg,decided,running⟩

theorem submit_judged {w : Winner} {baseType : TypeTag} {sender : Address} (ieee : Ieee F)
    (finite : SignedF64.isFinite config.suiPriceUsd = true) (arb : opp.kind = .arb) (enabled : config.submitEnabled = true) :
    Triple (Judged config opp total w .submit)
      (submit build world config 9 config.suiPriceUsd w.tx baseType sender (mistToUsd (gain w.netBase) 9 config.suiPriceUsd)
        w.dryRunAt) (fun _ => Safe config) (fun _ => Safe config) := by
  rintro s ⟨dry,guard,rehearsed,cfg,decided,running⟩
  refine submit_safe (fun checkedAt fresh since within => ?_) s running
  refine clears_intro ieee finite rehearsed.success ?_ cfg decided enabled (fun _ => ?_) fresh within
  · rw [arb]
    exact rehearsed.enough
  · exact ⟨total,List.mem_singleton_self _,rehearsed.affordable⟩

theorem Holds.safe {sweep : Sweep} {s : Session F} (holds : Holds config opp total sweep s) : Safe config s := by
  unfold Holds at holds
  split at holds
  · exact holds.safe
  · obtain ⟨_,_,running⟩ := holds
    exact running.safe

theorem tryExecuteOwnedSized_safe {pools : List PoolState} (ieee : Ieee F)
    (finite : SignedF64.isFinite config.suiPriceUsd = true) (arb : opp.kind = .arb) :
    Triple (Running config opp []) (tryExecuteOwnedSized build world config 9 config.suiPriceUsd pools opp.route)
      (fun _ => Safe config) (fun _ => Safe config) := by
  apply tryExecuteOwnedSized_rule (fun total => Running config opp [.balance total])
    (fun _ _ total => Holds config opp total) (fun _ _ total => Judged config opp total)
  · exact running_plainly
  · exact fun _ _ => Running.safe
  · exact fun _ _ running => running.push rfl
  · exact fun _ => running_plainly
  · exact fun _ _ _ => Running.safe
  · intro history refs sender baseType gasPrice total sized _ quoted
    have within : ∀ r ∈ sized, r.expectedOut ≠ 0 → 0 < r.size ∧ r.size ≤ walletCap config total := by
      intro r member
      obtain ⟨size,-,ran⟩ := Fallible.mapM_mem quoted member
      exact quoteSize_ok ran
    refine triple_foldlM (fun sweep item member => attemptSize_holds (within item.1 ?_)) (⟨none,sized⟩ : Sweep)
    exact List.fst_mem_of_mem_zipIdx ((List.mem_insertionSort _).mp member)
  · exact fun _ _ _ _ _ won => decide_judged won
  · exact fun _ _ _ _ enabled => submit_judged ieee finite arb enabled
  · exact fun _ _ _ _ _ _ holds => holds.safe
  · intro sender baseType total w decision s judged
    obtain ⟨_,_,_,_,_,running⟩ := judged
    exact running.safe

end owned

section loop
variable {F : Type} [SignedF64 F] {config : LiveConfig F} {build : Build} {world : World F}

theorem running_chosen {opp : Opportunity} {s : Session F} (safe : Safe config s) :
    Running config opp [] (s.push (.chosen opp)) := by
  refine ⟨⟨safe.gated.concat ?_,safe.cfg⟩,s.trace,[],rfl,List.forall_mem_nil _,List.Sublist.refl _⟩
  intro tx delivery same
  cases same

theorem tick_safe (ieee : Ieee F) (finite : SignedF64.isFinite config.suiPriceUsd = true) :
    Triple (Safe config) (tick build world config) (fun _ => Safe config) (fun _ => Safe config) := by
  apply tick_rule safe_plainly
  · exact fun _ _ safe => safe
  · exact fun _ _ => running_chosen
  · intro opp pools own
    exact tryExecuteOwnedSized_safe ieee finite (of_decide_eq_true own).2
  · exact fun opp borrowed => tryExecute_safe ieee finite borrowed
  · exact fun _ _ safe => safe

/-- The loop only starts with a price that is finite and positive. -/
theorem startUp_price (started : startUp world config = .ok ()) :
    SignedF64.isFinite config.suiPriceUsd = true ∧ F64.atMost config.suiPriceUsd (F64.ofU64 0) = false := by
  by_contra bad
  have refused : SignedF64.isFinite config.suiPriceUsd = false ∨ F64.atMost config.suiPriceUsd (F64.ofU64 0) = true := by
    rw [not_and_or] at bad
    exact bad.imp Bool.eq_false_of_not_eq_true Bool.eq_true_of_not_eq_false
  rw [startUp,if_pos refused] at started
  cases started

/-- In every run of the live loop, whatever the node and the chain answer, each submission
is cleared by what happened before it. -/
theorem live_gated (ieee : Ieee F) (build : Build) (world : World F) (config : LiveConfig F) (n : ℕ) :
    Gated config (runLive build world config n).2.trace := by
  unfold runLive
  dsimp only
  cases started : startUp world config with
  | error stop => exact throughout_nil
  | ok =>
    have safe : Safe config (⟨.new (riskConfig config),[]⟩ : Session F) := ⟨throughout_nil,rfl⟩
    exact (ticks_rule (tick_safe ieee (startUp_price started).1) n _ safe).always.gated

end loop

instance : SignedF64 ℚ where
  isFinite _ := true

theorem rational_ieee : Ieee ℚ where
  zero_div _ := zero_div _
  zero_mul price _ := by
    have zero : (F64.ofU64 0 : ℚ) = 0 := rfl
    rw [zero,zero_mul]
    rfl

namespace Wallet

def me : Address := "0x00000000000000000000000000000000000000000000000000000000000000b0"

def config : LiveConfig ℚ where
  toConfig := Executor.vaultConfig 0
  gasBudget := 5000000
  gasCostEstimate := 0
  maxHops := 3
  candidateInputs := [1000]
  flashEnabled := false
  poolBlacklist := []
  killSwitch := false
  maxDailyLossUsd := 10
  submitEnabled := true
  maxQuoteAgeMs := 1500
  perHopSlippageBps := 30
  liqEnabled := false
  liqCloseFactor := 1 / 2
  liqBonus := 1 / 20
  liqHealthMargin := 1 / 50
  keystorePath := "keystore"
  senderAddress := me
  executionMode := .owned
  ownedSizes := [500,1000]
  maxWalletCapital := 1000

def units (amount : ℤ) : I128 := asI128 (wrap 128 amount)

def landed (amount : ℤ) : List BalanceChange := [⟨.address me,Move.sui,units amount⟩]

def replied (amount : ℤ) : Delivery := .replied (landed amount) ⟨some (landed amount)⟩

/-- The wallet gains five units with each dry run, and `delivery` says what becomes of
what it sends. -/
def world (delivery : History ℚ → Delivery) : World ℚ where
  connect := .ok ()
  pools _ := [.v2 "0x1" .ammV2 Move.sui Move.usdc 1000000 5000000 30,.v2 "0x2" .ammV2 Move.sui Move.usdc 1010000 5000000 30]
  registry _ id := some ⟨.ammV2,id,Move.sui,Move.usdc,none⟩
  obligations _ := []
  liqParams _ := []
  node _ := Executor.plainNode
  parseAddress := .ok
  gasPrice _ := .ok 1000
  coins _ := .ok [⟨"0xc1",6000000⟩]
  balance _ := .ok 6000000
  dryRun _ _ := .ok ⟨true,⟨900,200,100⟩,landed 5⟩
  clock history := 1000000 * history.length
  sign _ _ _ _ := .ok ()
  execute history _ := delivery history

/-- One round, in which the wallet submits. -/
theorem live_gated_owned : Gated config (runLive .debug (world fun _ => replied 4) config 1).2.trace ∧
    (runLive .debug (world fun _ => replied 4) config 1).2.guard.submits = 1 :=
  ⟨live_gated rational_ieee .debug (world fun _ => replied 4) config 1,by decide +kernel⟩

end Wallet

end SuiArbitrage.Rust.Live
