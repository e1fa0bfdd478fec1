import SuiArbitrage.Rust.Gates
import Mathlib.Data.Int.ModEq

/-! The cap on the daily loss against what really landed. The guard enters a result in its
ledger when the node has replied, so that the ledger may miss what landed without a reply.
Money is exact here. -/
namespace SuiArbitrage.Rust.Live
open MachineWord Fallible Stateful Scanner
open Move (TypeTag Address)

section amounts
variable {build : Build} {baseType : TypeTag} {sender : Address}

def netOf (baseType : TypeTag) (sender : Address) (changes : List BalanceChange) : ℤ :=
  ((changes.filter fun c => c.coinType = baseType ∧ c.owner = .address sender).map (·.amount.val)).sum

theorem asI128_modEq (z : ℤ) : (asI128 (wrap 128 z)).val ≡ z [ZMOD 2^128] := by
  have reduced : ((wrap 128 z).val : ℤ) ≡ z [ZMOD 2^128] := by
    rw [wrap_val]
    exact Int.mod_modEq _ _
  unfold asI128
  dsimp only
  split
  · exact reduced
  · exact (Int.modEq_iff_dvd.mpr ⟨1,by ring⟩).trans reduced

theorem addI128_modEq {x y z : I128} (added : addI128 build x y = .ok z) : z.val ≡ x.val + y.val [ZMOD 2^128] := by
  unfold addI128 at added
  split at added
  · obtain rfl := Except.ok.inj added
    exact Int.ModEq.rfl
  · split at added
    · cases added
    · obtain rfl := Except.ok.inj added
      exact asI128_modEq _

theorem sum_modEq {changes : List BalanceChange} {start z : I128}
    (summed : changes.foldlM (fun sum c => addI128 build sum c.amount) start = .ok z) :
    z.val ≡ start.val + (changes.map (·.amount.val)).sum [ZMOD 2^128] := by
  induction changes generalizing start with
  | nil =>
    obtain rfl := Except.ok.inj summed
    rw [List.map_nil,List.sum_nil,add_zero]
  | cons c rest ih =>
    rw [List.foldlM_cons,bind_ok] at summed
    obtain ⟨middle,added,summed⟩ := summed
    rw [List.map_cons,List.sum_cons,← add_assoc]
    exact (ih summed).trans ((addI128_modEq added).add_right _)

theorem netBaseChange_exact {changes : List BalanceChange} {z : I128}
    (summed : netBaseChange build changes baseType sender = .ok z)
    (above : -2^127 ≤ netOf baseType sender changes) (below : netOf baseType sender changes < 2^127) :
    z.val = netOf baseType sender changes := by
  have same : z.val ≡ netOf baseType sender changes [ZMOD 2^128] := by
    have total := sum_modEq summed
    rwa [zeroI128,zero_add] at total
  obtain ⟨turns,apart⟩ := same.dvd
  have lower := z.property.1
  have upper := z.property.2
  omega

end amounts

/-- What the chain did, whether the sender learned of it or not. -/
def Delivery.landed : Delivery → List BalanceChange
  | .replied landed _ | .lost landed _ => landed
  | .failed _ => []

/-- The result of a landed transaction reaches the ledger: it is in the reply and a
possible amount of a coin. Otherwise it is not a loss. -/
def Accounted (baseType : TypeTag) (sender : Address) : Delivery → Prop
  | .replied landed resp =>
    resp.balanceChanges = some landed ∧ -2^64 < netOf baseType sender landed ∧ netOf baseType sender landed < 2^127 ∨
      resp.balanceChanges = none ∧ 0 ≤ netOf baseType sender landed
  | .failed _ => True
  | .lost landed _ => 0 ≤ netOf baseType sender landed

instance (baseType : TypeTag) (sender : Address) : (delivery : Delivery) → Decidable (Accounted baseType sender delivery)
  | .replied _ _ => inferInstanceAs (Decidable (_ ∧ _ ∧ _ ∨ _ ∧ _))
  | .failed _ => inferInstanceAs (Decidable True)
  | .lost _ _ => inferInstanceAs (Decidable (_ ≤ _))

def usd (priceUsd : ℚ) (net : ℤ) : ℚ := net / 10^9 * priceUsd

section entries
variable {build : Build} {baseType : TypeTag} {sender : Address}

theorem mistToUsd_eq (mist : U64) (priceUsd : ℚ) : mistToUsd mist 9 priceUsd = usd priceUsd mist.val := by
  have ten : (F64.ofU64 10 : ℚ) = 10 := by
    change (((10 : U64).val : ℕ) : ℚ) = 10
    norm_num
  have power : F64.powi (F64.ofU64 10 : ℚ) 9 = 10^9 := by
    rw [ten]
    rfl
  rw [mistToUsd,usd,power]
  rfl

theorem usd_mono {price : ℚ} (positive : 0 < price) {smaller larger : ℤ} (le : smaller ≤ larger) :
    usd price smaller ≤ usd price larger := by
  unfold usd
  have cast : (smaller : ℚ) ≤ larger := by exact_mod_cast le
  gcongr

theorem usd_add (price : ℚ) (x y : ℤ) : usd price (x + y) = usd price x + usd price y := by
  unfold usd
  push_cast
  ring

theorem usd_zero (price : ℚ) : usd price 0 = 0 := by simp [usd]

theorem gain_loss {z : I128} (loss : z.val < 0) : gain z = 0 := by
  rw [gain,max_eq_right loss.le]
  rfl

theorem gain_le {z : I128} (won : 0 ≤ z.val) : ((gain z).val : ℤ) ≤ z.val := by
  obtain ⟨n,units⟩ := Int.eq_ofNat_of_zero_le won
  rw [gain,max_eq_left won,units]
  exact_mod_cast wrap_natCast_le 64 n

theorem negI128_val {x y : I128} (inside : -2^127 < x.val) (negated : negI128 build x = .ok y) : y.val = -x.val := by
  unfold negI128 at negated
  split at negated
  · obtain rfl := Except.ok.inj negated
    rfl
  · omega

/-- The ledger entry never exceeds what really landed. -/
theorem realizedUsd_le {price entry : ℚ} {landed : List BalanceChange} {resp : ExecuteResponse} (positive : 0 < price)
    (accounted : Accounted baseType sender (.replied landed resp))
    (entered : realizedUsd build 9 price baseType sender resp = .ok entry) :
    entry ≤ usd price (netOf baseType sender landed) := by
  unfold realizedUsd at entered
  obtain ⟨z,summed,entered⟩ := bind_ok.mp entered
  have bounds : z.val ≤ netOf baseType sender landed ∧ -2^64 < z.val := by
    unfold realizedBase at summed
    rcases accounted with ⟨shown,above,below⟩ | ⟨missing,gained⟩
    · rw [shown] at summed
      have exact := netBaseChange_exact summed (by omega) below
      omega
    · rw [missing] at summed
      obtain rfl := Except.ok.inj summed
      exact ⟨gained,by decide⟩
  obtain ⟨most,inside⟩ := bounds
  refine le_trans ?_ (usd_mono positive most)
  simp only [mistToUsd_eq] at entered
  split at entered
  · rename_i loss
    obtain ⟨opposite,negated,entered⟩ := bind_ok.mp entered
    obtain rfl := Except.ok.inj entered
    have size := negI128_val (by omega) negated
    have exact : ((wrap 64 opposite.val).val : ℤ) = -z.val := by
      rw [size]
      exact wrap_of_fits ⟨by omega,by omega⟩
    have nothing : (((0 : U64).val : ℕ) : ℤ) = 0 := rfl
    rw [exact,gain_loss loss,nothing,usd_zero,zero_sub]
    unfold usd
    push_cast
    exact le_of_eq (by ring)
  · rename_i won
    obtain rfl := Except.ok.inj entered
    have zero : (F64.ofU64 0 : ℚ) = 0 := rfl
    rw [zero,sub_zero]
    exact usd_mono positive (gain_le (not_lt.mp won))

end entries

section ledger
variable (config : LiveConfig ℚ) (baseType : TypeTag)

def Event.result : Event ℚ → ℤ
  | .executed tx delivery => netOf baseType tx.sender delivery.landed
  | _ => 0

def landedUsd (trace : History ℚ) : ℚ := usd config.suiPriceUsd (trace.map (Event.result baseType)).sum

/-- Whenever the guard lets a candidate through, the losses are below the cap. -/
def Capped (trace : History ℚ) : Prop :=
  Throughout (fun before event => ∀ guard netUsd poolIds, event = .decided guard netUsd poolIds .submit →
    -config.maxDailyLossUsd < landedUsd config baseType before) trace

def Event.Told : Event ℚ → Prop
  | .executed tx delivery => Accounted baseType tx.sender delivery
  | _ => True

instance : (event : Event ℚ) → Decidable (event.Told baseType)
  | .executed tx delivery => inferInstanceAs (Decidable (Accounted baseType tx.sender delivery))
  | .observed | .chosen _ | .balance _ | .dryRan _ _ | .clock _ | .decided _ _ _ _ | .signed _ =>
    inferInstanceAs (Decidable True)

def Told (trace : History ℚ) : Prop := ∀ event ∈ trace, event.Told baseType

instance (trace : History ℚ) : Decidable (Told baseType trace) := inferInstanceAs (Decidable (∀ _ ∈ trace, _))

structure Ledger (s : Session ℚ) : Prop where
  cfg : s.guard.cfg = riskConfig config
  recorded : s.guard.realizedUsd ≤ landedUsd config baseType s.trace
  capped : Capped config baseType s.trace

/-- The invariant of the loop, as long as all results so far are accounted for. -/
def Kept (s : Session ℚ) : Prop := Told baseType s.trace → Ledger config baseType s

/-- After a panic nothing more is decided. -/
def Ended : Stop → Session ℚ → Prop
  | .error _,s => Kept config baseType s
  | .panic _,s => Told baseType s.trace → Capped config baseType s.trace

variable {config} {baseType} {trace : History ℚ} {event : Event ℚ}

theorem landedUsd_push : landedUsd config baseType (trace ++ [event]) =
    landedUsd config baseType trace + usd config.suiPriceUsd (event.result baseType) := by
  rw [landedUsd,List.map_append,List.sum_append,usd_add,List.map_singleton,List.sum_singleton,landedUsd]

theorem Told.of_push (told : Told baseType (trace ++ [event])) : Told baseType trace :=
  fun event member => told event (List.mem_append_left _ member)

theorem kept_push {s : Session ℚ} (none_landed : event.result baseType = 0)
    (decided : ∀ guard netUsd poolIds, event = .decided guard netUsd poolIds .submit →
      Ledger config baseType s → -config.maxDailyLossUsd < landedUsd config baseType s.trace)
    (kept : Kept config baseType s) : Kept config baseType (s.push event) := by
  intro told
  have ledger := kept told.of_push
  refine ⟨ledger.cfg,?_,?_⟩
  · rw [Session.push,landedUsd_push,none_landed,usd_zero,add_zero]
    exact ledger.recorded
  · exact ledger.capped.concat fun guard netUsd poolIds same => decided guard netUsd poolIds same ledger

theorem kept_plainly : Plainly (Kept config baseType) := by
  intro s event plain
  apply kept_push
  · cases event <;> first | rfl | cases plain
  · rintro guard netUsd poolIds rfl
    cases plain

theorem kept_ended (stop : Stop) (s : Session ℚ) (kept : Kept config baseType s) : Ended config baseType stop s := by
  cases stop with
  | error chain => exact kept
  | panic message => exact fun told => (kept told).capped

theorem decide_kept (capped : 0 < config.maxDailyLossUsd) {netUsd : ℚ} {route : List Hop} {Fail : Stop → Session ℚ → Prop} :
    Triple (Kept config baseType) (decide netUsd route) (fun _ => Kept config baseType) Fail := by
  intro s kept
  refine kept_push rfl ?_ kept
  intro guard usd poolIds decided ledger
  obtain ⟨rfl,rfl,rfl,approved⟩ := Event.decided.inj decided
  have limit := (RiskGuard.shouldSubmit_submit.mp approved).2.1
  have cap : s.guard.cfg.maxDailyLossUsd = config.maxDailyLossUsd := by rw [ledger.cfg,riskConfig]
  rw [RiskGuard.lossLimit,cap,Bool.and_eq_false_iff] at limit
  have above : -config.maxDailyLossUsd < s.guard.realizedUsd := by
    rcases limit with unset | below
    · exact absurd capped (of_decide_eq_false unset)
    · exact not_le.mp (of_decide_eq_false below)
  exact above.trans_le ledger.recorded

/-- A transaction has been sent, and its result is not in the ledger yet. -/
def Sent (config : LiveConfig ℚ) (baseType : TypeTag) (sender : Address) (delivery : Delivery) (s : Session ℚ) : Prop :=
  Told baseType s.trace → Accounted baseType sender delivery ∧ s.guard.cfg = riskConfig config ∧
    s.guard.realizedUsd + usd config.suiPriceUsd (netOf baseType sender delivery.landed) ≤
      landedUsd config baseType s.trace ∧ Capped config baseType s.trace

theorem executed_sent {tx : TransactionData} {delivery : Delivery} {Fail : Stop → Session ℚ → Prop} :
    Triple (Kept config baseType) (push (.executed tx delivery)) (fun _ => Sent config baseType tx.sender delivery) Fail := by
  refine push_rule fun s kept told => ?_
  have ledger := kept told.of_push
  refine ⟨told _ (List.mem_append_right _ (List.mem_singleton_self _)),ledger.cfg,?_,?_⟩
  · rw [Session.push,landedUsd_push,Event.result]
    exact add_le_add_left ledger.recorded _
  · apply ledger.capped.concat
    intro guard netUsd poolIds same
    cases same

/-- Without a reply nothing is entered: what landed was no loss. -/
theorem unreplied_kept {sender : Address} {delivery : Delivery} {stop : Stop} {s : Session ℚ}
    (positive : 0 < config.suiPriceUsd) (unreplied : delivery.reply = .error stop)
    (sent : Sent config baseType sender delivery s) : Kept config baseType s := by
  intro told
  obtain ⟨accounted,cfg,recorded,capped⟩ := sent told
  have gained : 0 ≤ netOf baseType sender delivery.landed := by
    cases delivery with
    | replied landed resp => cases unreplied
    | failed stop => exact le_rfl
    | lost landed stop => exact accounted
  have gainedUsd := usd_mono positive gained
  rw [usd_zero] at gainedUsd
  exact ⟨cfg,by linarith,capped⟩

variable {build : Build} {world : World ℚ}

theorem skip_kept {α : Type} {next : Bot ℚ α} {Fail : Stop → Session ℚ → Prop}
    (onward : Triple (Kept config baseType) next (fun _ => Kept config baseType) Fail) :
    Triple (Kept config baseType) (recordSkip >>= fun _ => next) (fun _ => Kept config baseType) Fail := by
  refine Triple.bind (updateGuard_rule fun s kept told => ?_) fun _ => onward
  exact ⟨(kept told).cfg,(kept told).recorded,(kept told).capped⟩

theorem kept_return {α : Type} {value : α} {Fail : Stop → Session ℚ → Prop} :
    Triple (Kept config baseType) (pure value : Bot ℚ α) (fun _ => Kept config baseType) Fail :=
  triple_pure fun _ kept => kept

theorem submit_kept {tx : TransactionData} {predictedUsd : ℚ} {dryRunAt : ℕ} (positive : 0 < config.suiPriceUsd) :
    Triple (Kept config baseType)
      (submit build world config 9 config.suiPriceUsd tx baseType tx.sender predictedUsd dryRunAt)
      (fun _ => Kept config baseType) (Ended config baseType) := by
  unfold submit
  split
  · exact triple_lift (fun _ _ failed => by cases failed) fun stop s _ kept => kept_ended stop s kept
  · apply ask_plain kept_plainly
    intro history
    apply lift_plain kept_ended
    intro _ _
    apply (push_rule fun s kept => kept_plainly s _ rfl kept).bind
    intro _
    apply Triple.bind (now_rule kept_plainly fun _ s kept => kept_plainly s _ rfl kept)
    intro checkedAt
    split
    next => exact skip_kept kept_return
    next =>
      apply ask_plain kept_plainly
      intro history
      generalize world.execute history tx = delivery
      apply executed_sent.bind
      intro _
      refine triple_lift_bind (fun stop s unreplied sent => ?_) fun resp replied => ?_
      · exact kept_ended stop s (unreplied_kept positive unreplied sent)
      · have landed : ∃ landed, delivery = .replied landed resp := by
          cases delivery with
          | replied landed resp => exact ⟨landed,by rw [Except.ok.inj replied]⟩
          | failed stop => cases replied
          | lost landed stop => cases replied
        obtain ⟨landed,rfl⟩ := landed
        have counted : Triple (Sent config baseType tx.sender (.replied landed resp))
            (updateGuard fun guard => guard.recordSubmit predictedUsd)
            (fun _ => Sent config baseType tx.sender (.replied landed resp)) (Ended config baseType) :=
          updateGuard_rule fun _ sent => sent
        apply counted.bind
        intro _
        refine triple_lift_bind (fun stop s stopped sent => ?_) fun entry entered => ?_
        · obtain ⟨message,rfl⟩ := unwind_error stopped
          exact fun told => (sent told).2.2.2
        · refine Triple.bind (updateGuard_rule fun s sent told => ?_) fun _ => kept_return
          obtain ⟨accounted,cfg,recorded,capped⟩ := sent told
          have most := realizedUsd_le positive accounted (unwind_ok.mp entered)
          exact ⟨cfg,(add_le_add_right most _).trans recorded,capped⟩

theorem tryExecute_kept {opp : Opportunity} (positive : 0 < config.suiPriceUsd) (capped : 0 < config.maxDailyLossUsd)
    (parses : ∀ history T, (world.node history).typeTag config.baseToken = .ok T → T = baseType) :
    Triple (Kept config baseType) (tryExecute build world config 9 config.suiPriceUsd opp)
      (fun _ => Kept config baseType) (Ended config baseType) := by
  unfold tryExecute
  apply (assemble_plain kept_plainly kept_ended).bind
  rintro ⟨tx,T⟩
  apply triple_assuming
  rintro ⟨history,parsed⟩
  obtain rfl := parses history T parsed
  apply Triple.bind (dryRun_rule kept_plainly kept_ended fun _ s kept => kept_plainly s _ rfl kept)
  intro dry
  apply Triple.bind (now_rule kept_plainly fun _ s kept => kept_plainly s _ rfl kept)
  intro dryRunAt
  split
  next => exact skip_kept kept_return
  next =>
    split
    next => exact skip_kept kept_return
    next =>
      apply (decide_kept capped).bind
      intro decision
      cases decision with
      | skip reason => exact skip_kept kept_return
      | submit =>
        dsimp only
        split
        next => exact submit_kept positive
        next => exact kept_return

def Sweep.Sends (sender : Address) (sweep : Sweep) : Prop := ∀ w, sweep.winner = some w → w.tx.sender = sender

theorem rehearse_kept {T : TypeTag} {sender : Address} {sweep : Sweep} {i : ℕ} {size : U64} {tx : TransactionData}
    (sends : sweep.Sends sender) (own : tx.sender = sender) :
    Triple (Kept config baseType) (rehearse build world config sender T sweep i size tx)
      (fun after s => Kept config baseType s ∧ after.Sends sender) (Ended config baseType) := by
  unfold rehearse
  apply Triple.bind (dryRun_rule kept_plainly kept_ended fun _ s kept => kept_plainly s _ rfl kept)
  intro dry
  apply Triple.bind (now_rule kept_plainly fun _ s kept => kept_plainly s _ rfl kept)
  intro dryRunAt
  split
  next => exact triple_pure fun _ kept => ⟨kept,sends⟩
  next =>
    split
    next => exact triple_pure fun _ kept => ⟨kept,sends⟩
    next =>
      refine triple_pure fun _ kept => ⟨kept,?_⟩
      intro w won
      obtain rfl := Option.some.inj won
      exact own

theorem attemptSize_kept {pools : List PoolState} {route : List Hop} {refs : List (Executor.LivePoolRef × Bool)} {sender : Address}
    {T : TypeTag} {gasPrice : U64} {sweep : Sweep} {item : OwnedSizeResult × ℕ} :
    Triple (fun s => Kept config baseType s ∧ sweep.Sends sender)
      (attemptSize build world config pools route refs sender T gasPrice sweep item)
      (fun after s => Kept config baseType s ∧ after.Sends sender) (Ended config baseType) := by
  apply triple_assuming
  intro sends
  refine attemptSize_rule kept_plainly kept_ended ?_ ?_ ?_
  · exact fun _ kept => ⟨kept,sends⟩
  · exact fun _ _ kept => ⟨kept,sends⟩
  · exact fun tx own _ _ _ => rehearse_kept sends own

theorem tryExecuteOwnedSized_kept {pools : List PoolState} {route : List Hop} (positive : 0 < config.suiPriceUsd)
    (capped : 0 < config.maxDailyLossUsd)
    (parses : ∀ history T, (world.node history).typeTag config.baseToken = .ok T → T = baseType) :
    Triple (Kept config baseType) (tryExecuteOwnedSized build world config 9 config.suiPriceUsd pools route)
      (fun _ => Kept config baseType) (Ended config baseType) := by
  apply tryExecuteOwnedSized_rule (fun _ => Kept config baseType)
    (fun sender T _ sweep s => (Kept config baseType s ∧ sweep.Sends sender) ∧ T = baseType)
    (fun sender T _ w _ s => Kept config baseType s ∧ w.tx.sender = sender ∧ T = baseType)
  · exact kept_plainly
  · exact kept_ended
  · exact fun _ s kept => kept_plainly s _ rfl kept
  · exact fun _ => kept_plainly
  · exact fun _ => kept_ended
  · intro history refs sender T gasPrice total sized typed _
    obtain rfl := parses history T typed
    have start : (⟨none,sized⟩ : Sweep).Sends sender := fun w won => by cases won
    exact (triple_foldlM (fun _ _ _ => attemptSize_kept) (⟨none,sized⟩ : Sweep)).consequence (fun _ kept => ⟨kept,start⟩)
      (fun _ _ swept => ⟨swept,rfl⟩) fun _ _ ended => ended
  · intro sender T total sweep w won
    have decided : Triple (Kept config baseType) (decide (mistToUsd (gain w.netBase) 9 config.suiPriceUsd) route)
        (fun _ => Kept config baseType) (Ended config baseType) := decide_kept capped
    intro s ⟨⟨kept,sends⟩,same⟩
    exact ⟨decided s kept,sends w won,same⟩
  · rintro sender T total w _ s ⟨kept,rfl,rfl⟩
    exact submit_kept positive s kept
  · exact fun _ _ _ _ _ _ swept => swept.1.1
  · exact fun _ _ _ _ _ _ decided => decided.1

theorem tick_kept (positive : 0 < config.suiPriceUsd) (capped : 0 < config.maxDailyLossUsd)
    (parses : ∀ history T, (world.node history).typeTag config.baseToken = .ok T → T = baseType) :
    Triple (Kept config baseType) (tick build world config) (fun _ => Kept config baseType) (Ended config baseType) := by
  apply tick_rule kept_plainly kept_ended
  · exact fun _ s kept => kept_push rfl (fun _ _ _ same => by cases same) kept
  · exact fun _ _ _ => tryExecuteOwnedSized_kept positive capped parses
  · exact fun _ _ => tryExecute_kept positive capped parses
  · exact fun _ _ ended => ended

theorem ended_capped {α : Type} {outcome : Except Stop α × Session ℚ}
    (ended : Ends (fun _ => Kept config baseType) (Ended config baseType) outcome)
    (told : Told baseType outcome.2.trace) : Capped config baseType outcome.2.trace := by
  rcases outcome with ⟨chain | message⟩ | value
  · exact (ended told).capped
  · exact ended told
  · exact (ended told).capped

end ledger

/-- In every run in which all results are accounted for, whenever the guard lets a
candidate through, what landed so far is worth more than the losses allowed. -/
theorem losses_capped (build : Build) (world : World ℚ) (config : LiveConfig ℚ) (baseType : TypeTag)
    (parses : ∀ history T, (world.node history).typeTag config.baseToken = .ok T → T = baseType)
    (capped : 0 < config.maxDailyLossUsd) (n : ℕ)
    (told : Told baseType (runLive build world config n).2.trace) :
    Capped config baseType (runLive build world config n).2.trace := by
  have price (started : startUp world config = .ok ()) : 0 < config.suiPriceUsd :=
    not_le.mp (of_decide_eq_false (startUp_price started).2)
  unfold runLive at told ⊢
  dsimp only at told ⊢
  generalize startUp world config = outcome at told price ⊢
  cases outcome with
  | error stop => exact throughout_nil
  | ok =>
    have kept : Kept config baseType ⟨.new (riskConfig config),[]⟩ := by
      intro _
      refine ⟨rfl,?_,throughout_nil⟩
      rw [landedUsd,List.map_nil,List.sum_nil,usd_zero]
      exact le_rfl
    exact ended_capped (ticks_rule (tick_kept (price rfl) capped parses) n _ kept) told

theorem capped_take {config : LiveConfig ℚ} {baseType : TypeTag} {events : History ℚ} (capped : Capped config baseType events)
    {i : ℕ} {guard : RiskGuard ℚ} {netUsd : ℚ} {poolIds : List PoolId}
    (decided : events[i]? = some (.decided guard netUsd poolIds .submit)) :
    -config.maxDailyLossUsd < landedUsd config baseType (events.take i) := by
  obtain ⟨inside,here⟩ := List.getElem?_eq_some_iff.mp decided
  refine capped (events.take i) _ (events.drop (i + 1)) ?_ guard netUsd poolIds rfl
  rw [← here,← List.drop_eq_getElem_cons,List.take_append_drop]

namespace Wallet

/-- Two losses of six dollars that the node reports, after which the cap stops the loop. -/
theorem losses_capped_reported :
    Capped config Move.sui (runLive .debug (world fun _ => replied (-2000000000)) config 3).2.trace ∧
      (runLive .debug (world fun _ => replied (-2000000000)) config 3).2.guard.submits = 2 :=
  ⟨losses_capped .debug (world fun _ => replied (-2000000000)) config Move.sui
    (fun _ _ parsed => (Except.ok.inj parsed).symm) (by decide +kernel) 3 (by decide +kernel),by decide +kernel⟩

def unanswered : Delivery := .lost (landed (-4000000000)) (.error ["timeout"])

/-- A loss of twelve dollars lands, the call times out, and the next candidate is let
through with a cap of ten. -/
theorem losses_uncapped : 0 < config.maxDailyLossUsd ∧
    ¬ Capped config Move.sui (runLive .debug (world fun _ => unanswered) config 2).2.trace := by
  refine ⟨by decide +kernel,fun capped => ?_⟩
  have decided : ((runLive .debug (world fun _ => unanswered) config 2).2.trace[33]?.any fun event =>
      match event with
      | .decided _ _ _ .submit => true
      | _ => false) = true := by decide +kernel
  have lost : landedUsd config Move.sui ((runLive .debug (world fun _ => unanswered) config 2).2.trace.take 33) =
      -12 := by decide +kernel
  obtain ⟨event,found,approved⟩ := (Option.any_eq_true _ _).mp decided
  split at approved
  next =>
    have below := capped_take capped found
    rw [lost] at below
    exact absurd below (by decide +kernel)
  next => cases approved

end Wallet

end SuiArbitrage.Rust.Live
