import SuiArbitrage.Rust.Gates
import SuiArbitrage.Rust.Lands
import SuiArbitrage.Rust.MixedBlocks

/-! What the live loop sends cannot lose. Over a whole run, whatever the node answers and in
whatever state the chain is by then, each transaction changes nothing or pays; so no order of
these transactions among what others do takes from the sender. Gas is not counted. -/
namespace SuiArbitrage.Rust
open MachineWord Fallible Stateful Scanner
open Move (Venues FlashOutcome OwnedOutcome Interleaved TypeTag ObjectId Address Command)

namespace Executor

section outcome
variable {F : Type} {node : Node} {config : Config F} {baseType : TypeTag} {package : ObjectId} {venues : Venues}
  {sender : Address} {refs : List (LivePoolRef × Bool)} {floors : List U64} {pt : List Command}

/-- The floors of the resolved hops are those that were asked for. -/
theorem zipWith_floors (counted : refs.length = floors.length) (cetusCfg turbosVer : Option Move.ObjectArg) :
    (List.zipWith (fun ref minOut => resolveHop ref.1 ref.2 minOut cetusCfg turbosVer) refs floors).map Ptb.ResolvedHop.minOut =
      floors := by
  induction refs generalizing floors with
  | nil => exact (List.eq_nil_of_length_eq_zero counted.symm).symm
  | cons ref rest ih =>
    cases floors with
    | nil => cases counted
    | cons minOut floors => exact congrArg (minOut :: ·) (ih (Nat.succ.inj counted))

/-- A block of the flash mode, with the vault as lender. -/
theorem buildPtb_outcome [F64 F] (base : node.typeTag config.baseToken = .ok baseType)
    (published : node.objectId config.packageId = .ok package) (vault : config.flashProvider = "mock") {opp : Opportunity}
    (kind : opp.kind ≠ .liquidation) (counted : refs.length = floors.length)
    (built : buildPtb node config opp refs floors sender = .ok pt) (confined : venues.Confined sender) (before : Move.World) :
    Move.commit (venues.chain package sender) before pt = before ∨
      ∃ lender final fee, node.sharedArg config.flashLenderId true = .ok lender ∧
        FlashOutcome (venues.chain package sender) pt baseType lender.id opp.inputAmount config.effectiveMinProfitMist floors before
          (Move.commit (venues.chain package sender) before pt) final fee := by
  have provider : flashProvider config = .ok (.mock config.scallopPackageId config.flashLenderId config.flashFeeBps) := by
    simp [flashProvider,Flashloan.providerFrom,vault,orBail]
  have hops := fun cetusCfg turbosVer => floored_hops refs floors cetusCfg turbosVer counted
  simp only [buildPtb,base,published,context,Except.mapError,ok_bind,if_neg kind,buildFlashPtb,provider] at built
  rw [hops,ok_bind] at built
  simp only [bind_ok] at built
  obtain ⟨lender,shared,objects,provided,built⟩ := built
  obtain rfl : (package,none) = objects := Except.ok.inj provided
  rcases Ptb.build_outcome venues confined rfl rfl built before with ⟨failure,-,unchanged⟩ | ⟨after,final,fee,landed,outcome⟩
  · exact .inl unchanged
  · have landed : Move.commit (venues.chain package sender) before pt = after := landed
    rw [zipWith_floors counted] at outcome
    exact .inr ⟨lender,final,fee,shared,landed ▸ outcome⟩

/-- A block of the owned mode. -/
theorem buildOwnedPtb_outcome {route : List Hop} {amount minProfit : U64} (base : node.typeTag config.baseToken = .ok baseType)
    (published : node.objectId config.packageId = .ok package) (counted : refs.length = floors.length)
    (built : buildOwnedPtb node config route refs floors amount minProfit = .ok pt) (confined : venues.Confined sender)
    (before : Move.World) :
    Move.commit (venues.chain package sender) before pt = before ∨
      baseType = Move.sui ∧ ∃ final, OwnedOutcome (venues.chain package sender) pt amount minProfit floors before
        (Move.commit (venues.chain package sender) before pt) final := by
  have hops := fun cetusCfg turbosVer => floored_hops refs floors cetusCfg turbosVer counted
  simp only [buildOwnedPtb,base,published,context,Except.mapError,ok_bind] at built
  rw [hops,ok_bind] at built
  rcases Ptb.buildOwned_outcome venues confined built before with ⟨failure,-,unchanged⟩ | ⟨same,after,final,landed,outcome⟩
  · exact .inl unchanged
  · have landed : Move.commit (venues.chain package sender) before pt = after := landed
    rw [zipWith_floors counted] at outcome
    exact .inr ⟨same,final,landed ▸ outcome⟩

end outcome

end Executor

namespace Live
open Executor (LivePoolRef)

/-- The loop has read a snapshot and then chosen its best cycle. -/
structure Chose {F : Type} [SignedF64 F] (build : Build) (world : World F) (config : LiveConfig F) (trace earlier : History F)
    (opp : Opportunity) : Prop where
  read : earlier <+: trace
  found : findBest build (world.pools earlier) (scanParams config) = .ok (some opp)
  chosen : .chosen opp ∈ trace

/-- How a transaction of the bot comes about: from the cycle that was chosen, or from its route
and a size that was quoted on the same snapshot. Its floors allow the configured slippage. -/
inductive Composes {F : Type} [SignedF64 F] (build : Build) (world : World F) (config : LiveConfig F) (trace : History F)
    (tx : TransactionData) : Prop
  | flash (earlier history : History F) (opp : Opportunity) (refs : List (LivePoolRef × Bool))
      (chose : Chose build world config trace earlier opp) (counted : refs.length = opp.route.length)
      (sender : world.parseAddress config.senderAddress = .ok tx.sender)
      (built : Executor.buildPtb (world.node history) config.toConfig opp refs
        (opp.hopOutputs.map fun out => applySlippageFloor out config.perHopSlippageBps) tx.sender = .ok tx.pt)
  | owned (earlier history : History F) (opp : Opportunity) (refs : List (LivePoolRef × Bool)) (size : U64) (hopOuts : List U64)
      (chose : Chose build world config trace earlier opp)
      (quoted : simulateCollect build (lookup (world.pools earlier)) opp.route size = .ok (some hopOuts))
      (counted : refs.length = opp.route.length) (sender : world.parseAddress config.senderAddress = .ok tx.sender)
      (built : Executor.buildOwnedPtb (world.node history) config.toConfig opp.route refs
        (hopOuts.map fun out => applySlippageFloor out config.perHopSlippageBps) size config.effectiveMinProfitMist = .ok tx.pt)

/-- Every transaction that has been sent was composed by the bot, which has a key store to sign with. -/
def AllComposed {F : Type} [SignedF64 F] (build : Build) (world : World F) (config : LiveConfig F) (s : Session F) : Prop :=
  ∀ tx delivery, .executed tx delivery ∈ s.trace → config.keystorePath ≠ "" ∧ Composes build world config s.trace tx

/-- The same, and the loop has come so far. -/
structure Sends {F : Type} [SignedF64 F] (build : Build) (world : World F) (config : LiveConfig F) (seen : History F)
    (s : Session F) : Prop where
  composed : AllComposed build world config s
  seen : seen <+: s.trace

section sent
variable {F : Type} [SignedF64 F] {build : Build} {world : World F} {config : LiveConfig F} {seen : History F} {α : Type}
  {Fail : Stop → Session F → Prop}

theorem resolveRefs_length {registry : PoolId → Option LivePoolRef} {route : List Hop} {refs : List (LivePoolRef × Bool)}
    (resolved : resolveRefs registry route = .ok refs) : refs.length = route.length := (mapM_ok resolved).length_eq.symm

theorem Chose.later {trace after earlier : History F} {opp : Opportunity} (chose : Chose build world config trace earlier opp)
    (onward : trace <+: after) : Chose build world config after earlier opp :=
  ⟨chose.read.trans onward,chose.found,onward.subset chose.chosen⟩

theorem Composes.later {trace after : History F} {tx : TransactionData} (composed : Composes build world config trace tx)
    (onward : trace <+: after) : Composes build world config after tx := by
  cases composed with
  | flash earlier history opp refs chose counted sender built =>
    exact .flash earlier history opp refs (chose.later onward) counted sender built
  | owned earlier history opp refs size hopOuts chose quoted counted sender built =>
    exact .owned earlier history opp refs size hopOuts (chose.later onward) quoted counted sender built

theorem composed_push {s : Session F} {event : Event F} (sent : AllComposed build world config s)
    (composed : ∀ tx delivery, event = .executed tx delivery → config.keystorePath ≠ "" ∧ Composes build world config s.trace tx) :
    AllComposed build world config (s.push event) := by
  have onward : s.trace <+: (s.push event).trace := List.prefix_append _ _
  intro tx delivery member
  rcases List.mem_append.mp member with before | here
  · exact (sent tx delivery before).imp_right fun composed => composed.later onward
  · exact (composed tx delivery (List.mem_singleton.mp here).symm).imp_right fun composed => composed.later onward

theorem sent_push {s : Session F} {event : Event F} (sends : Sends build world config seen s)
    (composed : ∀ tx delivery, event = .executed tx delivery → config.keystorePath ≠ "" ∧ Composes build world config seen tx) :
    Sends build world config seen (s.push event) where
  composed := composed_push sends.composed fun tx delivery same =>
    (composed tx delivery same).imp_right fun composed => composed.later sends.seen
  seen := sends.seen.trans (List.prefix_append _ _)

theorem sent_plainly : Plainly (Sends build world config seen) := by
  intro s event plain sends
  refine sent_push sends fun tx delivery same => ?_
  subst same
  cases plain

/-- Reading a snapshot, one knows how far the loop has come. -/
theorem ask_seen {β : Type} {answer : History F → α} {next : α → Bot F β} {Post : β → Session F → Prop}
    (onward : ∀ earlier, Triple (Sends build world config earlier) (next (answer earlier)) Post Fail) :
    Triple (AllComposed build world config) (ask answer >>= next) Post Fail := by
  intro s sent
  have composed : AllComposed build world config (s.push .observed) := composed_push sent nofun
  exact onward s.trace (s.push .observed) ⟨composed,List.prefix_append _ _⟩

theorem triple_seen {x : Bot F α} {Post : α → Session F → Prop} (Known : History F → Prop)
    (onward : ∀ seen, Known seen → Triple (Sends build world config seen) x Post Fail) :
    Triple (fun s => AllComposed build world config s ∧ Known s.trace) x Post Fail := by
  intro s sent
  exact onward s.trace sent.2 s ⟨sent.1,List.prefix_rfl⟩

theorem sent_return {value : α} {Post : Session F → Prop} (post : ∀ s, Sends build world config seen s → Post s) :
    Triple (Sends build world config seen) (pure value : Bot F α) (fun _ => Post) Fail := triple_pure post

theorem updateGuard_sent {entry : RiskGuard F → RiskGuard F} :
    Triple (Sends build world config seen) (updateGuard entry) (fun _ => Sends build world config seen) Fail := updateGuard_rule fun _ sends => ⟨sends.composed,sends.seen⟩

theorem decide_sent {netUsd : F} {route : List Hop} :
    Triple (Sends build world config seen) (decide netUsd route) (fun _ => Sends build world config seen) Fail := by
  intro s sent
  refine sent_push sent fun tx delivery same => ?_
  cases same

theorem executed_composed {tx : TransactionData} {delivery : Delivery} (keyed : config.keystorePath ≠ "")
    (composed : Composes build world config seen tx) :
    Triple (Sends build world config seen) (push (.executed tx delivery)) (fun _ => Sends build world config seen) Fail := by
  refine push_rule fun s sent => sent_push sent fun other _ same => ?_
  obtain ⟨rfl,-⟩ := Event.executed.inj same
  exact ⟨keyed,composed⟩

theorem recordSkip_sent {value : α} :
    Triple (Sends build world config seen) (recordSkip >>= fun _ => pure value) (fun _ => Sends build world config seen) Fail :=
  updateGuard_sent.bind fun _ => sent_return fun _ sent => sent

variable {baseDecimals : ℕ} {priceUsd predictedUsd : F}

theorem submit_sent {tx : TransactionData} {baseType : TypeTag} {sender : Address} {dryRunAt : ℕ}
    (composed : Composes build world config seen tx) :
    Triple (Sends build world config seen) (submit build world config baseDecimals priceUsd tx baseType sender predictedUsd dryRunAt)
      (fun _ => Sends build world config seen) (fun _ => Sends build world config seen) := by
  unfold submit
  split
  next => exact triple_lift (fun _ _ failed => by cases failed) fun _ _ _ sent => sent
  next keyed =>
    apply ask_plain sent_plainly
    intro history
    apply lift_plain fun _ _ sent => sent
    intro _ _
    apply (push_rule fun s sent => sent_plainly s _ rfl sent).bind
    intro _
    apply Triple.bind (now_rule sent_plainly fun _ s sent => sent_plainly s _ rfl sent)
    intro checkedAt
    split
    next => exact recordSkip_sent
    next =>
      apply ask_plain sent_plainly
      intro history
      apply (executed_composed keyed composed).bind
      intro _
      apply lift_plain fun _ _ sent => sent
      intro resp _
      apply updateGuard_sent.bind
      intro _
      apply lift_plain fun _ _ sent => sent
      intro realized _
      apply updateGuard_sent.bind
      exact fun _ => sent_return fun _ sent => sent

/-- The flash mode: what is assembled is composed of the candidate. -/
theorem assemble_composes {earlier : History F} {opp : Opportunity}
    (chose : config.submitEnabled = true → Chose build world config seen earlier opp) :
    Triple (Sends build world config seen) (assemble world config opp)
      (fun made s => Sends build world config seen s ∧ (config.submitEnabled = true → Composes build world config seen made.1))
      (fun _ => Sends build world config seen) := by
  unfold assemble
  apply ask_plain sent_plainly
  intro registry
  apply lift_plain fun _ _ sent => sent
  intro refs resolved
  split
  · exact triple_lift (fun _ _ failed => by cases failed) fun _ _ _ sent => sent
  · apply ask_plain sent_plainly
    intro history
    apply lift_plain fun _ _ sent => sent
    intro sender parsed
    apply lift_plain fun _ _ sent => sent
    intro baseType _
    apply lift_plain fun _ _ sent => sent
    intro pt built
    apply ask_plain sent_plainly
    intro _
    apply ask_plain sent_plainly
    intro _
    apply lift_plain fun _ _ sent => sent
    intro gasPrice _
    apply lift_plain fun _ _ sent => sent
    intro gasCoin _
    refine triple_pure fun _ sent => ⟨sent,fun enabled => ?_⟩
    exact .flash earlier history opp refs (chose enabled) (resolveRefs_length resolved) (context_ok.mp parsed) built

theorem tryExecute_sent {earlier : History F} {opp : Opportunity}
    (chose : config.submitEnabled = true → Chose build world config seen earlier opp) :
    Triple (Sends build world config seen) (tryExecute build world config baseDecimals priceUsd opp)
      (fun _ => Sends build world config seen) (fun _ => Sends build world config seen) := by
  unfold tryExecute
  apply (assemble_composes chose).bind
  rintro ⟨tx,baseType⟩
  apply triple_assuming
  intro composed
  apply Triple.bind (dryRun_rule sent_plainly (fun _ _ sent => sent) fun _ s sent => sent_plainly s _ rfl sent)
  intro dry
  apply Triple.bind (now_rule sent_plainly fun _ s sent => sent_plainly s _ rfl sent)
  intro dryRunAt
  split
  next => exact recordSkip_sent
  next =>
    split
    next => exact recordSkip_sent
    next =>
      apply decide_sent.bind
      intro decision
      cases decision with
      | skip reason => exact recordSkip_sent
      | submit =>
        dsimp only
        split
        next enabled => exact submit_sent (composed enabled)
        next => exact sent_return fun _ sent => sent

end sent

section sweep
variable {F : Type} [SignedF64 F] {build : Build} {world : World F} {config : LiveConfig F} {seen : History F}

/-- The winner of a sweep, if there is one, is composed. -/
def Sweeps (build : Build) (world : World F) (config : LiveConfig F) (seen : History F) (sweep : Sweep) (s : Session F) : Prop :=
  Sends build world config seen s ∧ ∀ w, sweep.winner = some w → config.submitEnabled = true → Composes build world config seen w.tx

theorem rehearse_sweeps {sweep : Sweep} {i : ℕ} {size : U64} {tx : TransactionData} {baseType : TypeTag} {sender : Address}
    (composed : config.submitEnabled = true → Composes build world config seen tx)
    (before : ∀ w, sweep.winner = some w → config.submitEnabled = true → Composes build world config seen w.tx) :
    Triple (Sends build world config seen) (rehearse build world config sender baseType sweep i size tx)
      (Sweeps build world config seen) (fun _ => Sends build world config seen) := by
  unfold rehearse
  apply Triple.bind (dryRun_rule sent_plainly (fun _ _ sent => sent) fun _ s sent => sent_plainly s _ rfl sent)
  intro dry
  apply Triple.bind (now_rule sent_plainly fun _ s sent => sent_plainly s _ rfl sent)
  intro dryRunAt
  split
  next => exact triple_pure fun _ sent => ⟨sent,before⟩
  next =>
    split
    next => exact triple_pure fun _ sent => ⟨sent,before⟩
    next =>
      refine triple_pure fun _ sent => ⟨sent,fun w won => ?_⟩
      obtain rfl := Option.some.inj won
      exact composed

theorem attemptSize_sweeps {earlier : History F} {opp : Opportunity} {refs : List (LivePoolRef × Bool)} {sender : Address}
    {baseType : TypeTag} {gasPrice : U64} {sweep : Sweep} {quoted : OwnedSizeResult} {i : ℕ}
    (chose : config.submitEnabled = true → Chose build world config seen earlier opp)
    (parsed : world.parseAddress config.senderAddress = .ok sender) (counted : refs.length = opp.route.length) :
    Triple (Sweeps build world config seen sweep)
      (attemptSize build world config (world.pools earlier) opp.route refs sender baseType gasPrice sweep (quoted,i))
      (Sweeps build world config seen) (fun _ => Sends build world config seen) := by
  apply triple_assuming
  intro before
  have same : Triple (Sends build world config seen) (pure sweep : Bot F Sweep) (Sweeps build world config seen)
      (fun _ => Sends build world config seen) := triple_pure fun _ sent => ⟨sent,before⟩
  have noted (note : String) : Triple (Sends build world config seen) (pure (sweep.noted i note) : Bot F Sweep)
      (Sweeps build world config seen) (fun _ => Sends build world config seen) := triple_pure fun _ sent => ⟨sent,before⟩
  unfold attemptSize
  dsimp only
  split
  next => exact same
  next =>
    apply lift_plain fun _ _ sent => sent
    intro hopOuts simulated
    cases hopOuts with
    | none => exact same
    | some hopOuts =>
      apply ask_plain sent_plainly
      intro history
      apply caught_plain fun _ _ sent => sent
      intro built assembled
      cases built with
      | error chain => exact noted _
      | ok pt =>
        apply lift_plain fun _ _ sent => sent
        intro need _
        apply ask_plain sent_plainly
        intro _
        apply caught_plain fun _ _ sent => sent
        intro picked _
        cases picked with
        | error chain => exact noted _
        | ok gasCoins =>
          refine rehearse_sweeps (fun enabled => ?_) before
          exact .owned earlier history opp refs quoted.size hopOuts (chose enabled) (unwind_ok.mp simulated) counted parsed
            (assembled pt rfl)

/-- The owned mode, by the sweep over its sizes. -/
theorem tryExecuteOwnedSized_sent {baseDecimals : ℕ} {priceUsd : F} {earlier : History F} {opp : Opportunity}
    (chose : config.submitEnabled = true → Chose build world config seen earlier opp) :
    Triple (Sends build world config seen)
      (tryExecuteOwnedSized build world config baseDecimals priceUsd (world.pools earlier) opp.route)
      (fun _ => Sends build world config seen) (fun _ => Sends build world config seen) := by
  unfold tryExecuteOwnedSized
  apply ask_plain sent_plainly
  intro _
  apply lift_plain fun _ _ sent => sent
  intro sender parsed
  apply lift_plain fun _ _ sent => sent
  intro baseType _
  apply ask_plain sent_plainly
  intro registry
  apply lift_plain fun _ _ sent => sent
  intro refs resolved
  apply ask_plain sent_plainly
  intro _
  apply lift_plain fun _ _ sent => sent
  intro total _
  apply (push_rule fun s sent => sent_plainly s _ rfl sent).bind
  intro _
  apply lift_plain fun _ _ sent => sent
  intro sized _
  apply ask_plain sent_plainly
  intro _
  apply lift_plain fun _ _ sent => sent
  intro gasPrice _
  have swept : Triple (Sweeps build world config seen ⟨none,sized⟩)
      ((sized.zipIdx.insertionSort fun s t => t.1.expectedNet ≤ s.1.expectedNet).foldlM
        (attemptSize build world config (world.pools earlier) opp.route refs sender baseType gasPrice) ⟨none,sized⟩)
      (Sweeps build world config seen) (fun _ => Sends build world config seen) :=
    triple_foldlM (fun _ _ _ => attemptSize_sweeps chose (context_ok.mp parsed) (resolveRefs_length resolved)) _
  refine Triple.bind (swept.consequence ?_ (fun _ _ post => post) fun _ _ fail => fail) fun sweep => ?_
  · exact fun s sent => ⟨sent,fun w none_won => by cases none_won⟩
  · apply triple_assuming
    intro composed
    split
    next => exact sent_return fun _ sent => sent
    next w won =>
      apply decide_sent.bind
      intro decision
      cases decision with
      | skip reason => exact sent_return fun _ sent => sent
      | submit =>
        dsimp only
        split
        next enabled => exact (submit_sent (composed w won enabled)).bind fun _ => sent_return fun _ sent => sent
        next => exact sent_return fun _ sent => sent

end sweep

section rounds
variable {F : Type} [SignedF64 F] {build : Build} {world : World F} {config : LiveConfig F}

/-- Without liquidations the only candidate is the best cycle. -/
theorem findCandidates_found {seen : History F} {pools : List PoolState} :
    Triple (Sends build world config seen) (findCandidates build world config pools)
      (fun candidates s => Sends build world config seen s ∧ (config.liqEnabled = false →
        ∀ opp ∈ candidates, findBest build pools (scanParams config) = .ok (some opp))) (fun _ => Sends build world config seen) := by
  unfold findCandidates
  apply lift_plain fun _ _ sent => sent
  intro arb found
  split
  next enabled =>
    apply ask_plain sent_plainly
    intro _
    apply ask_plain sent_plainly
    intro _
    apply lift_plain fun _ _ sent => sent
    intro liquidations _
    refine triple_pure fun _ sent => ⟨sent,fun disabled => ?_⟩
    rw [enabled] at disabled
    cases disabled
  next =>
    refine triple_pure fun _ sent => ⟨sent,fun _ opp member => ?_⟩
    rw [← Option.mem_toList.mp member]
    exact unwind_ok.mp found

theorem chosen_sent {earlier : History F} {opp : Opportunity}
    (found : config.submitEnabled = true → findBest build (world.pools earlier) (scanParams config) = .ok (some opp))
    {Fail : Stop → Session F → Prop} :
    Triple (Sends build world config earlier) (push (.chosen opp)) (fun _ s => AllComposed build world config s ∧
      (config.submitEnabled = true → Chose build world config s.trace earlier opp)) Fail := by
  refine push_rule fun s sends => ⟨composed_push sends.composed nofun,fun enabled => ?_⟩
  exact ⟨sends.seen.trans (List.prefix_append _ _),found enabled,List.mem_append_right _ List.mem_cons_self⟩

theorem tick_sent (disabled : config.submitEnabled = true → config.liqEnabled = false) :
    Triple (AllComposed build world config) (tick build world config) (fun _ => AllComposed build world config)
      (fun _ => AllComposed build world config) := by
  have weaker {α : Type} {seen : History F} {x : Bot F α} (holds : Triple (Sends build world config seen) x
      (fun _ => Sends build world config seen) (fun _ => Sends build world config seen)) : Triple (Sends build world config seen) x
      (fun _ => AllComposed build world config) (fun _ => AllComposed build world config) :=
    holds.consequence (fun _ pre => pre) (fun _ _ post => post.composed) fun _ _ fail => fail.composed
  unfold tick
  apply ask_seen
  intro earlier
  refine Triple.bind (findCandidates_found.consequence (fun _ pre => pre) (fun _ _ post => post) fun _ _ fail => fail.composed)
    fun candidates => ?_
  apply triple_assuming
  intro scanned
  split
  next => exact triple_pure fun _ sends => sends.composed
  next opp best =>
    have listed : opp ∈ candidates := List.mem_reverse.mp (FirstMax.firstMax_mem _ best).1
    apply (chosen_sent fun enabled => scanned (disabled enabled) opp listed).bind
    intro _
    refine Triple.catching (triple_seen (fun seen => config.submitEnabled = true → Chose build world config seen earlier opp)
      fun seen chose => weaker ?_) fun _ _ s _ sent => sent
    unfold execute
    split
    next => exact (tryExecuteOwnedSized_sent chose).bind fun _ => sent_return fun _ sent => sent
    next => exact (tryExecute_sent chose).bind fun _ => sent_return fun _ sent => sent

/-- The loop does not start where it would send liquidations. -/
theorem startUp_disabled (started : startUp world config = .ok ()) : config.submitEnabled = true → config.liqEnabled = false := by
  intro enabled
  by_contra liquidates
  simp only [startUp,bail,enabled,Bool.eq_true_of_not_eq_false liquidates,and_self,if_true] at started
  split_ifs at started <;> simp at started

theorem runLive_sent (n : ℕ) : AllComposed build world config (runLive build world config n).2 := by
  have start : AllComposed build world config (⟨.new (riskConfig config),[]⟩ : Session F) := fun _ _ member => by cases member
  unfold runLive
  dsimp only
  cases started : startUp world config with
  | error stop => exact start
  | ok => exact (ticks_rule (tick_sent (startUp_disabled started)) n _ start).always

end rounds

section safety
variable {F : Type} [SignedF64 F] {build : Build} {world : World F} {config : LiveConfig F} {venues : Venues}
  {baseType : TypeTag} {package : ObjectId} {sender : Address}

/-- The configuration names the published package, a coin and a sender, and the vault lends. -/
structure Configured (world : World F) (config : LiveConfig F) (baseType : TypeTag) (package : ObjectId) (sender : Address) :
    Prop where
  base : ∀ history, (world.node history).typeTag config.baseToken = .ok baseType
  package : ∀ history, (world.node history).objectId config.packageId = .ok package
  sender : world.parseAddress config.senderAddress = .ok sender
  vault : config.flashProvider = "mock"

/-- A transaction of a run that has landed: how it was composed, and what its execution has
come to, with the floors of what was quoted. -/
inductive Landed (build : Build) (world : World F) (config : LiveConfig F) (venues : Venues) (baseType : TypeTag)
    (package : ObjectId) (trace : History F) (tx : TransactionData) (before after : Move.World) : Prop
  | flash (earlier history : History F) (opp : Opportunity) (refs : List (LivePoolRef × Bool)) (lender : Move.ObjectArg)
      (final fee : U64) (chose : Chose build world config trace earlier opp)
      (built : Executor.buildPtb (world.node history) config.toConfig opp refs
        (opp.hopOutputs.map fun out => applySlippageFloor out config.perHopSlippageBps) tx.sender = .ok tx.pt)
      (vault : (world.node history).sharedArg config.flashLenderId true = .ok lender)
      (outcome : FlashOutcome (venues.chain package tx.sender) tx.pt baseType lender.id opp.inputAmount config.effectiveMinProfitMist
        (opp.hopOutputs.map fun out => applySlippageFloor out config.perHopSlippageBps) before after final fee)
  | owned (earlier history : History F) (opp : Opportunity) (refs : List (LivePoolRef × Bool)) (size : U64) (hopOuts : List U64)
      (final : U64) (chose : Chose build world config trace earlier opp)
      (quoted : simulateCollect build (lookup (world.pools earlier)) opp.route size = .ok (some hopOuts))
      (built : Executor.buildOwnedPtb (world.node history) config.toConfig opp.route refs
        (hopOuts.map fun out => applySlippageFloor out config.perHopSlippageBps) size config.effectiveMinProfitMist = .ok tx.pt)
      (sui : baseType = Move.sui)
      (outcome : OwnedOutcome (venues.chain package tx.sender) tx.pt size config.effectiveMinProfitMist
        (hopOuts.map fun out => applySlippageFloor out config.perHopSlippageBps) before after final)

theorem Landed.holds {trace : History F} {tx : TransactionData} {before after : Move.World}
    (landed : Landed build world config venues baseType package trace tx before after) (T : TypeTag) :
    before.holds tx.sender T ≤ after.holds tx.sender T := by
  cases landed with
  | flash _ _ _ _ _ _ _ _ _ _ outcome => exact outcome.holds T
  | owned _ _ _ _ _ _ _ _ _ _ _ outcome => exact outcome.holds T

theorem Composes.sent_by {trace : History F} {tx : TransactionData} (composed : Composes build world config trace tx)
    (parsed : world.parseAddress config.senderAddress = .ok sender) : tx.sender = sender := by
  cases composed with
  | flash _ _ _ _ _ _ named => exact Except.ok.inj (named.symm.trans parsed)
  | owned _ _ _ _ _ _ _ _ _ named => exact Except.ok.inj (named.symm.trans parsed)

theorem Composes.lands {trace : History F} {tx : TransactionData} (composed : Composes build world config trace tx)
    (configured : Configured world config baseType package sender) (confined : venues.Confined sender) (before : Move.World) :
    Move.commit (venues.chain package sender) before tx.pt = before ∨
      Landed build world config venues baseType package trace tx before (Move.commit (venues.chain package sender) before tx.pt) := by
  obtain rfl := composed.sent_by configured.sender
  cases composed with
  | flash earlier history opp refs chose counted parsed built =>
    obtain ⟨route,-,input,evaluated⟩ := findBest_some chose.found
    obtain ⟨outs,output,collected,-,-,rfl,-⟩ := evaluateInput_some.mp evaluated
    have size : outs.length = route.length := collect_length (simulateCollect_some.mp collected).2
    have counted : refs.length = route.length := counted
    rcases Executor.buildPtb_outcome (configured.base history) (configured.package history) configured.vault
        (by simp [opportunityAt]) (by simp [opportunityAt,counted,size]) built confined before with
      unchanged | ⟨lender,final,fee,vault,outcome⟩
    · exact .inl unchanged
    · exact .inr (.flash earlier history _ refs lender final fee chose built vault outcome)
  | owned earlier history opp refs size hopOuts chose quoted counted parsed built =>
    have length : hopOuts.length = opp.route.length := collect_length (simulateCollect_some.mp quoted).2
    rcases Executor.buildOwnedPtb_outcome (configured.base history) (configured.package history)
        (by simp [counted,length]) built confined before with unchanged | ⟨same,final,outcome⟩
    · exact .inl unchanged
    · exact .inr (.owned earlier history opp refs size hopOuts final chose quoted built same outcome)

end safety

namespace Wallet

def Event.sentTx {F : Type} : Event F → Option TransactionData
  | .executed tx _ => some tx
  | _ => none

theorem Event.sentTx_some {F : Type} {event : Event F} {tx : TransactionData} (sent : Event.sentTx event = some tx) :
    ∃ delivery, event = .executed tx delivery := by
  cases event with
  | executed tx' delivery => exact ⟨delivery,by rw [Option.some.inj sent]⟩
  | _ => cases sent

/-- The pools of the snapshot, and the coins of the wallet. -/
def ledger : Move.World :=
  ⟨⟨[⟨Move.sui,Move.usdc,⟨"0x1",1000000,5000000,30⟩⟩,⟨Move.sui,Move.usdc,⟨"0x2",1012000,5000000,30⟩⟩],by decide⟩,.empty,
    fun _ _ => 0,6000000⟩

end Wallet

end Live

end SuiArbitrage.Rust
