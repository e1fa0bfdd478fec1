import SuiArbitrage.Move.BlockMeaning
import SuiArbitrage.Move.Venues

/-! Arbitrage over any mix of venues, whatever the venues' own packages do. They cannot reach
our pools and vaults, nor what the sender owns, for none of these is passed to them. -/
namespace SuiArbitrage.Move
open MachineWord Fallible Executor Flash

/-- Code that is passed none of our objects: it may give to the sender, and take nothing. -/
structure Apart (sender : Address) (before after : World) : Prop where
  pools : after.pools = before.pools
  vaults : after.vaults = before.vaults
  gas : after.gas = before.gas
  owned : ∀ T, before.balances sender T ≤ after.balances sender T

/-- The functions of the two packages stay apart from our objects. -/
structure Venues.Confined (venues : Venues) (sender : Address) : Prop where
  flashSwap : ∀ world config pool A B a2b byAmountIn amount limit clock after recvA recvB receipt,
    venues.cetus.flashSwap world config pool A B a2b byAmountIn amount limit clock = .ok (after,recvA,recvB,receipt) →
      Apart sender world after
  repayFlashSwap : ∀ world config pool A B payA payB receipt after,
    venues.cetus.repayFlashSwap world config pool A B payA payB receipt = .ok after → Apart sender world after
  swapWithReturn : ∀ (aToB : Bool) world pool A B feeType coins amount threshold limit isExactIn recipient deadline clock versioned
    after out change,
    (if aToB then venues.turbos.swapABWithReturn else venues.turbos.swapBAWithReturn) world pool A B feeType coins amount
      threshold limit isExactIn recipient deadline clock versioned = .ok (after,out,change) → Apart sender world after

/-- What no part of a route does: take from a vault, from the gas coin or from the sender,
or lower the product of a pool of ours. -/
structure Kept (sender : Address) (before after : World) : Prop where
  vaults : after.vaults = before.vaults
  gas : after.gas = before.gas
  owned : ∀ T, before.balances sender T ≤ after.balances sender T
  products : ∀ id listed, before.pools.get id = some listed →
    ∃ now, after.pools.get id = some now ∧ listed.product ≤ now.product

theorem Kept.refl (sender : Address) (world : World) : Kept sender world world :=
  ⟨rfl,rfl,fun _ => le_rfl,fun _ listed here => ⟨listed,here,le_rfl⟩⟩

theorem Kept.trans {sender : Address} {w₁ w₂ w₃ : World} (first : Kept sender w₁ w₂) (second : Kept sender w₂ w₃) :
    Kept sender w₁ w₃ := by
  refine ⟨second.vaults.trans first.vaults,second.gas.trans first.gas,
    fun T => (first.owned T).trans (second.owned T),?_⟩
  intro id listed here
  obtain ⟨middle,there,grown⟩ := first.products id listed here
  obtain ⟨last,found,onward⟩ := second.products id middle there
  exact ⟨last,found,grown.trans onward⟩

theorem Apart.trans {sender : Address} {w₁ w₂ w₃ : World} (first : Apart sender w₁ w₂) (second : Apart sender w₂ w₃) :
    Apart sender w₁ w₃ :=
  ⟨second.pools.trans first.pools,second.vaults.trans first.vaults,second.gas.trans first.gas,
    fun T => (first.owned T).trans (second.owned T)⟩

theorem apart_credit (sender : Address) (world : World) (owner : Address) (T : TypeTag) (amount : U64) :
    Apart sender world (world.credit owner T amount) := ⟨rfl,rfl,rfl,fun _ => Nat.le_add_right _ _⟩

theorem Apart.kept {sender : Address} {before after : World} (apart : Apart sender before after) :
    Kept sender before after :=
  ⟨apart.vaults,apart.gas,apart.owned,fun _ listed here => ⟨listed,apart.pools ▸ here,le_rfl⟩⟩

theorem kept_credit (sender : Address) (world : World) (owner : Address) (T : TypeTag) (amount : U64) :
    Kept sender world (world.credit owner T amount) := (apart_credit sender world owner T amount).kept

/-- A swap that pays at least its floor and takes nothing but its coin. -/
def Guarded {chain : Chain} (minOut : U64) (swap : Swapper chain) : Prop :=
  ∀ world T amount after T' out, swap.trade world T amount = .ok (after,T',out) → minOut ≤ out ∧ Kept chain.sender world after

/-- Each swap of a chain has paid its floor, and the chain has taken nothing but its coin. -/
theorem trades_kept {chain : Chain} {floors : List U64} {swaps : List (Swapper chain)} (guarded : List.Forall₂ Guarded floors swaps)
    {world after : World} {T T' : TypeTag} {amount final : U64} (traded : trades swaps world T amount = .ok (after,T',final)) :
    Kept chain.sender world after ∧ ∀ i floor, floors[i]? = some floor →
      ∃ middle U out, trades (swaps.take (i + 1)) world T amount = .ok (middle,U,out) ∧ floor ≤ out := by
  induction guarded generalizing world T amount with
  | nil =>
    obtain ⟨rfl,rfl,rfl⟩ := Except.ok.inj traded
    exact ⟨.refl chain.sender _,fun _ _ missing => by cases missing⟩
  | cons here _ ih =>
    rw [trades,bind_ok] at traded
    obtain ⟨⟨middle,T₁,out⟩,first,traded⟩ := traded
    obtain ⟨reached,kept⟩ := here _ _ _ _ _ _ first
    obtain ⟨later,floors⟩ := ih traded
    refine ⟨kept.trans later,fun i floor listed => ?_⟩
    cases i with
    | zero =>
      obtain rfl := Option.some.inj listed
      refine ⟨middle,T₁,out,?_,reached⟩
      simp only [List.take_succ_cons,List.take_zero,trades,first,ok_bind]
    | succ i =>
      obtain ⟨onward,U,paid,ran,enough⟩ := floors i floor listed
      refine ⟨onward,U,paid,?_,enough⟩
      simp only [List.take_succ_cons,trades,first,ok_bind]
      exact ran

def HopCall.minOut : HopCall → U64
  | .ammV2 swap => swap.minOut
  | .cetus _ _ _ _ _ minOut => minOut
  | .turbos _ _ _ _ _ minOut => minOut

section hops
variable {venues : Venues} {package : ObjectId} {sender : Address}

theorem floor_le {pools after : Pools} {A B : TypeTag} {id : ObjectId} {aToB : Bool} {amountIn minOut out : U64}
    (ran : pools.swap A B id aToB amountIn minOut = .ok (after,out)) : minOut ≤ out := by
  simp only [Pools.swap,bind_ok] at ran
  obtain ⟨pool,-,ran⟩ := ran
  cases aToB with
  | true =>
    simp only [if_true,bind_ok,call_ok,Prod.exists,AmmV2.swapAToB_ok,pure_ok,Prod.mk.injEq] at ran
    obtain ⟨new,coinOut,swapped,-,rfl⟩ := ran
    exact swapped.floor
  | false =>
    simp only [Bool.false_eq_true,if_false,bind_ok,call_ok,Prod.exists,AmmV2.swapBToA_ok,pure_ok,Prod.mk.injEq] at ran
    obtain ⟨new,coinOut,swapped,-,rfl⟩ := ran
    exact swapped.floor

theorem swap_kept {swap : V2Call} {world : World} {T T' : TypeTag} {amount out : U64} {pools : Pools}
    (traded : swap.trade world.pools T amount = .ok (pools,T',out)) :
    swap.minOut ≤ out ∧ Kept sender world (world.withPools pools) := by
  obtain ⟨aToB,typeArgs,pool,minOut⟩ := swap
  rcases typeArgs with _ | ⟨A,_ | ⟨B,_ | ⟨C,rest⟩⟩⟩
  · cases traded
  · cases traded
  · by_cases typed : pool.mutable = true ∧ T = if aToB then A else B
    · simp only [V2Call.trade] at traded
      rw [if_pos typed] at traded
      simp only [bind_ok,Prod.exists,pure_ok,Prod.mk.injEq] at traded
      obtain ⟨pools',out',ran,rfl,-,rfl⟩ := traded
      exact ⟨floor_le ran,rfl,rfl,fun _ => le_rfl,fun id listed here => (Pools.swap_traded ran).product_le here⟩
    · simp only [V2Call.trade] at traded
      rw [if_neg typed] at traded
      cases traded
  · cases traded

theorem venueTrade_ok {report : VenueAbort → Failure} {aToB : Bool} {A B T T' : TypeTag} {pool : ObjectArg}
    {swap : World → U64 → Except VenueAbort (World × U64)} {world after : World} {amount out : U64}
    (traded : venueTrade report aToB A B pool swap world T amount = .ok (after,T',out)) :
    swap world amount = .ok (after,out) := by
  by_cases typed : pool.mutable = true ∧ T = if aToB then A else B
  · rw [venueTrade,if_pos typed,map_ok] at traded
    obtain ⟨⟨_,_⟩,ran,same⟩ := traded
    obtain ⟨rfl,-,rfl⟩ := same
    cases swapped : swap world amount with
    | error abort =>
      rw [swapped] at ran
      cases ran
    | ok moved =>
      rw [swapped] at ran
      exact congrArg Except.ok (Except.ok.inj ran)
  · rw [venueTrade,if_neg typed] at traded
    cases traded

theorem cetus_apart {who : Address} (confined : venues.Confined who) {aToB : Bool} {world after : World} {config pool : ObjectId}
    {A B : TypeTag} {coinIn minOut out : U64} {clock : ObjectId}
    (swapped : venues.cetus.swapExactIn aToB world config pool A B coinIn minOut clock = .ok (after,out)) :
    minOut ≤ out ∧ Apart who world after := by
  obtain ⟨middle,recvA,recvB,receipt,lent,-,-,repaid,-,floor⟩ := Cetus.swapExactIn_ok.mp swapped
  have first := confined.flashSwap _ _ _ _ _ _ _ _ _ _ _ _ _ _ lent
  have second := confined.repayFlashSwap _ _ _ _ _ _ _ _ _ repaid
  exact ⟨floor,first.trans second⟩

theorem turbos_apart {who : Address} (confined : venues.Confined who) {aToB : Bool} {world after : World} {timestampMs : U64}
    {pool : ObjectId} {A B feeType : TypeTag} {coinIn minOut out : U64} {clock versioned : ObjectId}
    (swapped : venues.turbos.swapExactIn aToB world sender timestampMs pool A B feeType coinIn minOut clock versioned =
      .ok (after,out)) : minOut ≤ out ∧ Apart who world after := by
  obtain ⟨deadline,limit,middle,change,-,-,ran,floor,rfl⟩ := Turbos.swapExactIn_ok.mp swapped
  have first := confined.swapWithReturn _ _ _ _ _ _ _ _ _ _ _ _ _ _ _ _ _ _ ran
  refine ⟨floor,?_⟩
  unfold Turbos.returnChange
  split
  · exact first
  · exact first.trans (apart_credit who middle sender _ change)

theorem cetusTrade_apart {who : Address} (confined : venues.Confined who) {aToB : Bool} {typeArgs : List TypeTag}
    {config pool clock : ObjectArg} {minOut : U64} {world after : World} {T T' : TypeTag} {amount out : U64}
    (traded : venues.cetusTrade aToB typeArgs config pool clock minOut world T amount = .ok (after,T',out)) :
    minOut ≤ out ∧ Apart who world after := by
  rcases typeArgs with _ | ⟨A,_ | ⟨B,_ | ⟨C,rest⟩⟩⟩
  · cases traded
  · cases traded
  · simp only [Venues.cetusTrade] at traded
    have swapped := venueTrade_ok traded
    cases aToB with
    | true => exact cetus_apart confined swapped
    | false => exact cetus_apart confined swapped
  · cases traded

theorem turbosTrade_apart {who : Address} (confined : venues.Confined who) {aToB : Bool} {typeArgs : List TypeTag}
    {pool clock versioned : ObjectArg} {minOut : U64} {world after : World} {T T' : TypeTag} {amount out : U64}
    (traded : venues.turbosTrade sender aToB typeArgs pool clock versioned minOut world T amount = .ok (after,T',out)) :
    minOut ≤ out ∧ Apart who world after := by
  rcases typeArgs with _ | ⟨A,_ | ⟨B,_ | ⟨C,_ | ⟨D,rest⟩⟩⟩⟩
  · cases traded
  · cases traded
  · cases traded
  · simp only [Venues.turbosTrade] at traded
    have swapped := venueTrade_ok traded
    cases aToB with
    | true => exact turbos_apart confined swapped
    | false => exact turbos_apart confined swapped
  · cases traded

/-- Whatever its venue, a hop pays at least its floor and takes nothing but its coin. -/
theorem hop_kept (confined : venues.Confined sender) {call : HopCall} {world after : World} {T T' : TypeTag}
    {amount out : U64} (traded : (call.swapper venues package sender).trade world T amount = .ok (after,T',out)) :
    call.minOut ≤ out ∧ Kept sender world after := by
  cases call with
  | ammV2 swap =>
    obtain ⟨⟨pools,_,_⟩,swapped,same⟩ := map_ok.mp traded
    obtain ⟨rfl,rfl,rfl⟩ := same
    exact swap_kept swapped
  | cetus aToB typeArgs config pool clock minOut =>
    obtain ⟨floor,apart⟩ := cetusTrade_apart confined traded
    exact ⟨floor,apart.kept⟩
  | turbos aToB typeArgs pool clock versioned minOut =>
    obtain ⟨floor,apart⟩ := turbosTrade_apart confined traded
    exact ⟨floor,apart.kept⟩

/-- What runs outside our modules is code elsewhere, or an adapter that is passed one coin and
returns another. -/
theorem outside_cases {world after : World} {c : MoveCall} {values row : List Value}
    (ran : venues.outside package sender world c values = .ok (after,row)) :
    venues.elsewhere world c values = .ok (after,row) ∨ ∃ T U amount out, values = [.coin T amount] ∧ row = [.coin U out] ∧
      ∀ who, venues.Confined who → Apart who world after := by
  unfold Venues.outside at ran
  dsimp only at ran
  split at ran
  next =>
    split at ran
    next aToB config pool _ minOut clock T amount _ _ =>
      obtain ⟨⟨reached,U,out⟩,traded,same⟩ := map_ok.mp ran
      obtain ⟨rfl,rfl⟩ := Prod.mk.inj same
      exact .inr ⟨T,U,amount,out,rfl,rfl,fun who confined => (cetusTrade_apart confined traded).2⟩
    next => cases ran
  next =>
    split at ran
    next =>
      split at ran
      next aToB pool _ minOut clock versioned T amount _ _ =>
        obtain ⟨⟨reached,U,out⟩,traded,same⟩ := map_ok.mp ran
        obtain ⟨rfl,rfl⟩ := Prod.mk.inj same
        exact .inr ⟨T,U,amount,out,rfl,rfl,fun who confined => (turbosTrade_apart confined traded).2⟩
      next => cases ran
    next => exact .inl ran

/-- A hop of a route is guarded by its floor. -/
theorem HopCall.guarded (confined : venues.Confined sender) (call : HopCall) :
    Guarded call.minOut (call.swapper venues package sender) := fun _ _ _ _ _ _ => hop_kept confined

end hops

/-- What a flash arbitrage over any venues has done when it lands. The swaps stand behind the
loan and `begin`; `final` is what the gate of that `begin` has accepted. -/
structure FlashOutcome (chain : Chain) (commands : List Command) (coinType : TypeTag) (lender : ObjectId) (amount minProfit : U64)
    (floors : List U64) (before after : World) (final fee : U64) : Prop where
  executed : execute chain before commands = .ok after
  floored : ∀ i floor, floors[i]? = some floor →
    ∃ T out, yields chain before commands (2 + i) 0 = some (.coin T out) ∧ floor ≤ out
  last : yields chain before commands (1 + floors.length) 0 = some (.coin coinType final)
  settled : settlements chain before commands = [⟨1,coinType,final⟩]
  profit : amount.val + minProfit.val ≤ final.val
  repaid : amount.val + fee.val ≤ final.val
  paid : before.balances chain.sender coinType + (final.val - (amount.val + fee.val)) ≤ after.balances chain.sender coinType
  owned : ∀ T, before.balances chain.sender T ≤ after.balances chain.sender T
  charged : ∃ old new : FlashLender coinType, before.vaults.get lender = some ⟨coinType,old⟩ ∧
    after.vaults.get lender = some ⟨coinType,new⟩ ∧ fee.val = exactFee amount.val old.feeBps.val ∧
    new.reserve.val = old.reserve.val + fee.val
  others : ∀ id, id ≠ lender → after.vaults.get id = before.vaults.get id
  gas : after.gas = before.gas
  products : ∀ id listed, before.pools.get id = some listed →
    ∃ now, after.pools.get id = some now ∧ listed.product ≤ now.product

/-- What an arbitrage with the sender's own coin has done when it lands. -/
structure OwnedOutcome (chain : Chain) (commands : List Command) (amount minProfit : U64) (floors : List U64) (before after : World)
    (final : U64) : Prop where
  executed : execute chain before commands = .ok after
  floored : ∀ i floor, floors[i]? = some floor →
    ∃ T out, yields chain before commands (2 + i) 0 = some (.coin T out) ∧ floor ≤ out
  last : yields chain before commands (1 + floors.length) 0 = some (.coin sui final)
  settled : settlements chain before commands = [⟨1,sui,final⟩]
  profit : amount.val + minProfit.val ≤ final.val
  spent : after.gas.val + amount.val = before.gas.val
  paid : before.balances chain.sender sui + final.val ≤ after.balances chain.sender sui
  owned : ∀ T, before.balances chain.sender T ≤ after.balances chain.sender T
  vaults : after.vaults = before.vaults
  products : ∀ id listed, before.pools.get id = some listed →
    ∃ now, after.pools.get id = some now ∧ listed.product ≤ now.product

section outcomes
variable {chain : Chain} {floors : List U64} {before after : World}

/-- Where the commands of the swaps show what a chain has paid, they show that it reached its floors. -/
theorem floors_yield {swaps : List (Swapper chain)} {commands : List Command} {world : World} {T : TypeTag} {amount : U64}
    (counted : floors.length = swaps.length)
    (floored : ∀ i floor, floors[i]? = some floor →
      ∃ middle U out, trades (swaps.take (i + 1)) world T amount = .ok (middle,U,out) ∧ floor ≤ out)
    (shown : ∀ {n : ℕ} {U : TypeTag} {out : U64} {middle : World}, n ≤ swaps.length →
      trades (swaps.take n) world T amount = .ok (middle,U,out) → yields chain before commands (1 + n) 0 = some (.coin U out))
    {i : ℕ} {floor : U64} (listed : floors[i]? = some floor) :
    ∃ U out, yields chain before commands (2 + i) 0 = some (.coin U out) ∧ floor ≤ out := by
  obtain ⟨middle,U,out,ran,enough⟩ := floored i floor listed
  have short : i + 1 ≤ swaps.length := counted ▸ (List.getElem?_eq_some_iff.mp listed).1
  have yielded := shown short ran
  rw [← Nat.add_assoc,Nat.add_right_comm] at yielded
  exact ⟨U,out,yielded,enough⟩

theorem flash_outcome {trade : FlashTrade chain} (guarded : List.Forall₂ Guarded floors trade.swaps)
    (landed : execute chain before trade.block = .ok after) :
    ∃ final fee, FlashOutcome chain trade.block trade.coinType trade.lender.id trade.amount trade.minProfit floors before after
      final fee := by
  obtain ⟨⟨_,loan⟩,⟨middle,T,final⟩,computed,settled⟩ := flash_landed landed
  obtain ⟨mutable,old,lent,found,borrowed,rfl⟩ := lend_ok.mp computed.lends
  obtain ⟨rfl,profit,lent',new,change,found',returned,rfl⟩ := close_ok.mp computed.closes
  dsimp only at profit returned
  obtain ⟨kept,floored⟩ := trades_kept guarded computed.trades
  obtain ⟨⟨lentId,-,split⟩,-,-,size,charged⟩ := borrow_ok.mp borrowed
  obtain ⟨⟨newId,-,joined⟩,-,-,rest⟩ := repay_ok.mp returned
  have lentHere := get_put_lender found lentId
  rw [kept.vaults] at found'
  obtain rfl : lent = lent' := by
    have same := lentHere.symm.trans found'
    simpa using same
  have whole : change.val + (loan.amount.val + loan.fee.val) = final.val := rest
  have vaults : middle.vaults.put ⟨trade.coinType,new⟩ = before.vaults.put ⟨trade.coinType,new⟩ :=
    (congrArg (·.put ⟨trade.coinType,new⟩) kept.vaults).trans
      (before.vaults.put_put (show Vault.id ⟨trade.coinType,lent⟩ = Vault.id ⟨trade.coinType,new⟩ from newId.symm))
  have located : lent.id = trade.lender.id := lentId.trans (located_id found)
  rw [size] at joined whole
  refine ⟨final,loan.fee,landed,?_,?_,settled,profit,by omega,?_,?_,?_,?_,kept.gas,kept.products⟩
  · exact fun i floor listed => floors_yield guarded.length_eq floored (flash_yields computed) listed
  · rw [guarded.length_eq]
    exact flash_yields computed le_rfl ((congrArg (trades · _ _ _) List.take_length).trans computed.trades)
  · have more := kept.owned trade.coinType
    simp only [World.credit,and_self,if_true] at more ⊢
    omega
  · exact fun T => (kept.owned T).trans (Nat.le_add_right _ _)
  · refine ⟨old,new,found,?_,charged,by omega⟩
    change (middle.vaults.put ⟨trade.coinType,new⟩).get trade.lender.id = _
    rw [vaults]
    exact get_put_lender found (newId.trans lentId)
  · intro id other
    change (middle.vaults.put ⟨trade.coinType,new⟩).get id = _
    rw [vaults]
    exact KeyedStore.get_put_other before.vaults fun same => other (same.symm.trans (newId.trans located))

theorem owned_outcome {trade : OwnedTrade chain} (guarded : List.Forall₂ Guarded floors trade.swaps)
    (landed : execute chain before trade.block = .ok after) :
    trade.baseType = sui ∧ ∃ final, OwnedOutcome chain trade.block trade.amount trade.minProfit floors before after final := by
  obtain ⟨_,⟨middle,_,final⟩,computed,settled⟩ := owned_landed landed
  obtain ⟨base,rest,parts,rfl⟩ := split_ok.mp computed.splits
  obtain ⟨rfl,profit,rfl⟩ := settled_iff.mp computed.closes
  obtain ⟨kept,floored⟩ := trades_kept guarded computed.trades
  have last := owned_yields computed le_rfl ((congrArg (trades · _ _ _) List.take_length).trans computed.trades)
  rw [base] at settled last
  refine ⟨base,final,landed,?_,?_,settled,profit,?_,?_,?_,kept.vaults,kept.products⟩
  · exact fun i floor listed => floors_yield guarded.length_eq floored (owned_yields computed) listed
  · rw [guarded.length_eq]
    exact last
  · rw [← parts]
    exact congrArg (fun gas : U64 => gas.val + trade.amount.val) kept.gas
  · have more := kept.owned sui
    rw [base]
    simp only [World.credit,and_self,if_true] at more ⊢
    omega
  · exact fun T => (kept.owned T).trans (Nat.le_add_right _ _)

end outcomes

/-- What a sender has of a coin: what it owns, and the gas coin. -/
def World.holds (world : World) (sender : Address) (T : TypeTag) : ℕ :=
  world.balances sender T + if T = sui then world.gas.val else 0

section holds
variable {chain : Chain} {commands : List Command} {amount minProfit final fee : U64} {floors : List U64} {before after : World}

theorem FlashOutcome.holds {coinType : TypeTag} {lender : ObjectId}
    (outcome : FlashOutcome chain commands coinType lender amount minProfit floors before after final fee) (T : TypeTag) :
    before.holds chain.sender T ≤ after.holds chain.sender T := by
  unfold World.holds
  rw [outcome.gas]
  exact Nat.add_le_add_right (outcome.owned T) _

theorem OwnedOutcome.earns (outcome : OwnedOutcome chain commands amount minProfit floors before after final) :
    before.holds chain.sender sui + minProfit.val ≤ after.holds chain.sender sui := by
  have spent := outcome.spent
  have paid := outcome.paid
  have profit := outcome.profit
  simp only [World.holds,if_true]
  omega

theorem OwnedOutcome.holds (outcome : OwnedOutcome chain commands amount minProfit floors before after final) (T : TypeTag) :
    before.holds chain.sender T ≤ after.holds chain.sender T := by
  by_cases base : T = sui
  · subst base
    exact (Nat.le_add_right _ _).trans outcome.earns
  · simp only [World.holds,if_neg base]
    exact outcome.owned T

end holds

/-- The chain between two states: blocks of the sender that are sent, in any order and any
number of times, among steps of others that take nothing from the sender. -/
inductive Interleaved (chain : Chain) (sent : List Command → Prop) : World → World → Prop
  | refl (world : World) : Interleaved chain sent world world
  | ours {before world : World} {commands : List Command} (run : Interleaved chain sent before world) (ours : sent commands) :
      Interleaved chain sent before (commit chain world commands)
  | others {before world after : World} (run : Interleaved chain sent before world)
      (spares : ∀ T, world.holds chain.sender T ≤ after.holds chain.sender T) : Interleaved chain sent before after

theorem Interleaved.holds {chain : Chain} {sent : List Command → Prop} {before after : World}
    (run : Interleaved chain sent before after)
    (keeps : ∀ commands, sent commands → ∀ world T, world.holds chain.sender T ≤ (commit chain world commands).holds chain.sender T)
    (T : TypeTag) : before.holds chain.sender T ≤ after.holds chain.sender T := by
  induction run with
  | refl => exact le_rfl
  | ours run ours ih => exact ih.trans (keeps _ ours _ T)
  | others run spares ih => exact ih.trans (spares T)

end SuiArbitrage.Move
