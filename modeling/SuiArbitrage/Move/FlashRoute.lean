import SuiArbitrage.Move.Sessions

/-! The flash-arbitrage block over `amm_v2` pools: borrow, begin, any number of swaps,
settle_and_return, repay, transfer. Between two swaps the machine holds one coin and
the two receipts, and nothing else. -/
namespace SuiArbitrage.Move
open MachineWord Fallible Executor Flash

structure V2Call where
  aToB : Bool
  typeArgs : List TypeTag
  pool : ObjectArg
  minOut : U64
  deriving DecidableEq, Repr

structure FlashArb where
  coinType : TypeTag
  lender : ObjectArg
  amount : U64
  minProfit : U64
  swaps : List V2Call
  deriving DecidableEq, Repr

section block
variable (chain : Chain)

def V2Call.command (swap : V2Call) (coin : Argument) : Command :=
  .moveCall ⟨chain.package,"amm_v2_adapter",if swap.aToB then "swap_exact_in_a_to_b" else "swap_exact_in_b_to_a",
    swap.typeArgs,[.object swap.pool,coin,.pure (.u64 swap.minOut)]⟩

/-- Each swap takes the result of the command before it. -/
def swapCommands : ℕ → Argument → List V2Call → List Command
  | _,_,[] => []
  | n,coin,swap :: rest => swap.command chain coin :: swapCommands (n + 1) (.result n) rest

def lastCoin : ℕ → Argument → List V2Call → Argument
  | _,coin,[] => coin
  | n,_,_ :: rest => lastCoin (n + 1) (.result n) rest

theorem length_swapCommands (n : ℕ) (coin : Argument) (swaps : List V2Call) :
    (swapCommands chain n coin swaps).length = swaps.length := by
  induction swaps generalizing n coin with
  | nil => rfl
  | cons swap rest ih => simp [swapCommands,ih]

namespace FlashArb
variable (arb : FlashArb)

def opening : List Command := [
  .moveCall ⟨chain.package,"flash","borrow",[arb.coinType],[.object arb.lender,.pure (.u64 arb.amount)]⟩,
  .moveCall ⟨chain.package,"executor","begin",[arb.coinType],[.nestedResult 0 0,.pure (.u64 arb.minProfit)]⟩]

def closing (n : ℕ) (coin : Argument) : List Command := [
  .moveCall ⟨chain.package,"executor","settle_and_return",[arb.coinType],[.nestedResult 1 1,coin]⟩,
  .moveCall ⟨chain.package,"flash","repay",[arb.coinType],[.object arb.lender,.nestedResult 0 1,.result n]⟩,
  .transferObjects [.result (n + 1)] (.pure (.address chain.sender))]

def block : List Command :=
  arb.opening chain ++ swapCommands chain 2 (.nestedResult 1 0) arb.swaps ++
    arb.closing chain (2 + arb.swaps.length) (lastCoin 2 (.nestedResult 1 0) arb.swaps)

end FlashArb

end block

/-- Between two swaps: the coin at hand, and where the two receipts lie. -/
structure Carrying (m : Machine) (loan : FlashReceipt) (receipt : ArbReceipt) (n : ℕ) (coin : Argument)
    (T : TypeTag) (amount : U64) : Prop where
  held : m.peek coin = some (.coin T amount)
  rest : (m.store coin none).results =
    [none,some (.flashReceipt loan)] :: [none,some (.arbReceipt receipt)] :: List.replicate n [none]

/-- What swaps do to the shared objects while one coin becomes another. -/
structure Routed (before after : World) (T T' : TypeTag) (amount amount' : U64) : Prop where
  vaults : after.vaults = before.vaults
  balances : after.balances = before.balances
  gas : after.gas = before.gas
  products : ∀ id listed, before.pools.get id = some listed →
    ∃ now, after.pools.get id = some now ∧ listed.product ≤ now.product
  pooled : ∀ U, after.pools.total (Listed.held U) + (if T' = U then amount'.val else 0) =
    before.pools.total (Listed.held U) + if T = U then amount.val else 0

theorem Routed.refl (world : World) (T : TypeTag) (amount : U64) : Routed world world T T amount amount :=
  ⟨rfl,rfl,rfl,fun _ listed here => ⟨listed,here,le_rfl⟩,fun _ => rfl⟩

theorem Routed.trans {w₁ w₂ w₃ : World} {T₁ T₂ T₃ : TypeTag} {x₁ x₂ x₃ : U64} (first : Routed w₁ w₂ T₁ T₂ x₁ x₂)
    (second : Routed w₂ w₃ T₂ T₃ x₂ x₃) : Routed w₁ w₃ T₁ T₃ x₁ x₃ := by
  refine ⟨second.vaults.trans first.vaults,second.balances.trans first.balances,second.gas.trans first.gas,?_,?_⟩
  · intro id listed here
    obtain ⟨middle,there,grown⟩ := first.products id listed here
    obtain ⟨last,found,onward⟩ := second.products id middle there
    exact ⟨last,found,grown.trans onward⟩
  · exact fun U => (second.pooled U).trans (first.pooled U)

section steps
variable {chain : Chain} {m after : Machine}

open Machine

theorem mutableObject_ok {argument : Argument} {id : ObjectId} :
    mutableObject argument = .ok id ↔ argument = .object ⟨id,true⟩ := by
  unfold mutableObject
  split
  · simp
  · rename_i other
    simp only [reduceCtorEq,false_iff]
    exact fun same => other id same

theorem pureU64_ok {argument : Argument} {value : U64} : pureU64 argument = .ok value ↔ argument = .pure (.u64 value) := by
  unfold pureU64
  split
  · simp
  · rename_i other
    simp only [reduceCtorEq,false_iff]
    exact fun same => other value same

@[simp] theorem world_store (m : Machine) (argument : Argument) (value : Option Value) :
    (m.store argument value).world = m.world := by
  unfold store
  split <;> rfl

theorem length_rows (loan receipt : List (Option Value)) (n : ℕ) :
    (loan :: receipt :: List.replicate n [(none : Option Value)]).length = 2 + n := by
  simp only [List.length_cons,List.length_replicate]
  omega

theorem carrying_push {loan : FlashReceipt} {receipt : ArbReceipt} {n : ℕ}
    (rest : m.results =
      [none,some (.flashReceipt loan)] :: [none,some (.arbReceipt receipt)] :: List.replicate n [none])
    (T : TypeTag) (amount : U64) :
    Carrying (m.push [.coin T amount]) loan receipt (n + 1) (.result (2 + n)) T amount := by
  have pushed : (m.push [.coin T amount]).results = m.results ++ [[some (.coin T amount)]] := rfl
  rw [rest] at pushed
  rw [← length_rows]
  refine ⟨peek_last pushed,?_⟩
  rw [store_last pushed,List.replicate_succ']
  rfl

theorem swap_carrying {loan : FlashReceipt} {receipt : ArbReceipt} {n : ℕ} {coin : Argument} {T : TypeTag}
    {amount : U64} {swap : V2Call} (carrying : Carrying m loan receipt n coin T amount)
    (ran : m.step chain (swap.command chain coin) = .ok after) :
    after.opened = m.opened ∧ after.settled = m.settled ∧ ∃ T' amount',
      Carrying after loan receipt (n + 1) (.result (2 + n)) T' amount' ∧ Routed m.world after.world T T' amount amount' := by
  obtain ⟨middle,row,invoked,rfl⟩ := step_moveCall.mp ran
  have callee : chain.callee ⟨chain.package,"amm_v2_adapter",
      if swap.aToB then "swap_exact_in_a_to_b" else "swap_exact_in_b_to_a",swap.typeArgs,
      [.object swap.pool,coin,.pure (.u64 swap.minOut)]⟩ = .swap swap.aToB := by
    cases swap.aToB <;> simp [Chain.callee]
  simp only [invoke,callee] at invoked
  split at invoked <;> try contradiction
  rename_i aToB A B poolArg coinArg minOutArg sameCallee types arguments
  simp only [Callee.swap.injEq] at sameCallee
  simp only [List.cons.injEq,and_true] at arguments
  obtain ⟨rfl,rfl,rfl⟩ := arguments
  subst sameCallee
  simp only [callSwap,bind_ok,Prod.exists,takeCoin_ok,pure_ok,Prod.mk.injEq] at invoked
  obtain ⟨id,-,minOut,-,taken,payment,⟨here,rfl⟩,pools,out,traded,rfl,rfl⟩ := invoked
  obtain ⟨rfl,rfl⟩ := Value.coin.inj (Option.some.inj (carrying.held.symm.trans here))
  have swapped := Pools.swap_traded traded
  have quiet := quiet_take m coin
  rw [world_store] at swapped
  refine ⟨quiet.opened,quiet.settled,if swap.aToB then B else A,out,?_,?_⟩
  · apply carrying_push
    exact carrying.rest
  · simp only [push,withWorld,world_store]
    exact ⟨rfl,rfl,rfl,fun _ _ listed => swapped.product_le listed,swapped.total⟩

/-- Any number of swaps, by induction on the route. -/
theorem swaps_carrying {loan : FlashReceipt} {receipt : ArbReceipt} {n : ℕ} {coin : Argument} {T : TypeTag}
    {amount : U64} {swaps : List V2Call} (carrying : Carrying m loan receipt n coin T amount)
    (ran : transact (Machine.step chain) m (swapCommands chain (2 + n) coin swaps) = .ok after) :
    after.opened = m.opened ∧ after.settled = m.settled ∧ ∃ T' amount',
      Carrying after loan receipt (n + swaps.length) (lastCoin (2 + n) coin swaps) T' amount' ∧
      Routed m.world after.world T T' amount amount' := by
  induction swaps generalizing m n coin T amount with
  | nil =>
    obtain rfl := Except.ok.inj ran
    exact ⟨rfl,rfl,T,amount,carrying,.refl _ _ _⟩
  | cons swap rest ih =>
    simp only [swapCommands,transact_cons,bind_ok] at ran
    obtain ⟨next,first,ran⟩ := ran
    obtain ⟨opened,settled,T₁,amount₁,onward,routed⟩ := swap_carrying carrying first
    obtain ⟨laterOpened,laterSettled,T₂,amount₂,last,route⟩ := ih onward ran
    refine ⟨laterOpened.trans opened,laterSettled.trans settled,T₂,amount₂,?_,routed.trans route⟩
    rw [List.length_cons,Nat.add_comm rest.length,← Nat.add_assoc]
    exact last

theorem opening_ok {world : World} {arb : FlashArb}
    (ran : transact (Machine.step chain) (Machine.start world) (arb.opening chain) = .ok m) :
    ∃ (old new : FlashLender arb.coinType) (loan : FlashReceipt),
      arb.lender.mutable = true ∧ world.vaults.get arb.lender.id = some ⟨arb.coinType,old⟩ ∧
      borrow old arb.amount = .ok (new,⟨arb.amount⟩,loan) ∧
      m.world = {world with vaults := world.vaults.put ⟨arb.coinType,new⟩} ∧ m.settled = [] ∧
      Carrying m loan ⟨chain.sender,arb.amount,arb.minProfit⟩ 0 (.nestedResult 1 0) arb.coinType arb.amount := by
  obtain ⟨T,⟨lenderId,mutable⟩,amount,minProfit,swaps⟩ := arb
  simp only [FlashArb.opening,transact_cons,transact_nil,bind_ok,step_moveCall,Except.ok.injEq] at ran
  obtain ⟨next,⟨middle,row,borrowed,rfl⟩,last,⟨middle',row',begun,rfl⟩,rfl⟩ := ran
  have borrowCallee : chain.callee ⟨chain.package,"flash","borrow",[T],[.object ⟨lenderId,mutable⟩,.pure (.u64 amount)]⟩ =
      .borrow := by simp [Chain.callee]
  have beginCallee : chain.callee ⟨chain.package,"executor","begin",[T],[.nestedResult 0 0,.pure (.u64 minProfit)]⟩ =
      .begin := by simp [Chain.callee]
  simp only [invoke,borrowCallee,callBorrow,bind_ok,Prod.exists,mutableObject_ok,pureU64_ok,locate_ok,call_ok,
    pure_ok,Prod.mk.injEq] at borrowed
  obtain ⟨id,object,size,same,old,here,new,coin,loan,lent,rfl,rfl⟩ := borrowed
  simp only [Argument.object.injEq,ObjectArg.mk.injEq] at object
  obtain ⟨rfl,rfl⟩ := object
  obtain rfl := Pure.u64.inj (Argument.pure.inj same)
  obtain rfl : coin = ⟨amount⟩ := congrArg Coin.mk (borrow_ok.mp lent).2.1
  simp only [invoke,beginCallee,callBegin,bind_ok,Prod.exists,takeCoin_ok,pureU64_ok,pure_ok,Prod.mk.injEq] at begun
  obtain ⟨taken,input,⟨held,rfl⟩,profit,same,rfl,rfl⟩ := begun
  obtain rfl := Pure.u64.inj (Argument.pure.inj same)
  obtain rfl : input = ⟨amount⟩ := congrArg Coin.mk (Value.coin.inj (Option.some.inj held)).2.symm
  exact ⟨old,new,loan,rfl,here,lent,rfl,rfl,⟨rfl,rfl⟩⟩

section closing
variable {loan : FlashReceipt} {receipt : ArbReceipt} {n : ℕ} {coin : Argument} {T T' : TypeTag} {final : U64}

/-- The profit gate. The coin must be of the session's type, or the call does not typecheck. -/
theorem settled_ok (carrying : Carrying m loan receipt n coin T' final)
    (ran : m.step chain (.moveCall ⟨chain.package,"executor","settle_and_return",[T],[.nestedResult 1 1,coin]⟩) =
      .ok after) :
    T' = T ∧ receipt.initialAmount.val + receipt.minProfit.val ≤ final.val ∧ after.world = m.world ∧
      after.settled = m.settled ++ [⟨1,T,final⟩] ∧
      after.results = ([none,some (.flashReceipt loan)] :: [none,none] :: List.replicate n [none]) ++
        [[some (.coin T final)]] := by
  obtain ⟨middle,row,invoked,rfl⟩ := step_moveCall.mp ran
  have callee : chain.callee ⟨chain.package,"executor","settle_and_return",[T],[.nestedResult 1 1,coin]⟩ =
      .settleAndReturn := by simp [Chain.callee]
  simp only [invoke,callee,callSettleAndReturn,bind_ok,Prod.exists,takeCoin_ok,takeArbReceipt_ok,call_ok,
    settleAndReturn_ok,pure_ok,Prod.mk.injEq] at invoked
  obtain ⟨taken,⟨amount⟩,⟨here,rfl⟩,taken',receipt',⟨kept,rfl⟩,output,⟨reached,rfl⟩,rfl,rfl⟩ := invoked
  obtain ⟨rfl,rfl⟩ := Value.coin.inj (Option.some.inj (carrying.held.symm.trans here))
  have receiptHere : (m.store coin none).peek (.nestedResult 1 1) = some (.arbReceipt receipt) := by
    change (m.store coin none).cell 1 1 = _
    rw [cell,carrying.rest]
    rfl
  obtain rfl := Value.arbReceipt.inj (Option.some.inj (receiptHere.symm.trans kept))
  refine ⟨rfl,reached,?_,?_,?_⟩
  · exact (world_store _ _ _).trans (world_store m coin none)
  · change ((m.store coin none).store (.nestedResult 1 1) none).settled ++ _ = _
    rw [(quiet_take _ _).settled,(quiet_take m coin).settled]
    rfl
  · change (m.store coin none).results.modify 1 (·.set 1 none) ++ _ = _
    rw [carrying.rest]
    rfl

theorem repaid_ok {lender : ObjectArg} (results : m.results =
      ([none,some (.flashReceipt loan)] :: [none,none] :: List.replicate n [none]) ++ [[some (.coin T final)]])
    (ran : m.step chain (.moveCall ⟨chain.package,"flash","repay",[T],
      [.object lender,.nestedResult 0 1,.result (2 + n)]⟩) = .ok after) :
    ∃ (old new : FlashLender T) (change : U64), m.world.vaults.get lender.id = some ⟨T,old⟩ ∧
      repay old loan ⟨final⟩ = .ok (new,⟨change⟩) ∧
      after.world = {m.world with vaults := m.world.vaults.put ⟨T,new⟩} ∧ after.settled = m.settled ∧
      after.results = ([none,none] :: [none,none] :: List.replicate (n + 1) [none]) ++ [[some (.coin T change)]] := by
  obtain ⟨middle,row,invoked,rfl⟩ := step_moveCall.mp ran
  have callee : chain.callee ⟨chain.package,"flash","repay",[T],[.object lender,.nestedResult 0 1,.result (2 + n)]⟩ =
      .repay := by simp [Chain.callee]
  simp only [invoke,callee,callRepay,bind_ok,Prod.exists,mutableObject_ok,takeCoin_ok,takeFlashReceipt_ok,locate_ok,
    call_ok,pure_ok,Prod.mk.injEq] at invoked
  obtain ⟨id,object,taken,⟨payment⟩,⟨here,rfl⟩,taken',loan',⟨kept,rfl⟩,old,found,new,⟨change⟩,repaid,rfl,rfl⟩ := invoked
  obtain rfl := Argument.object.inj object
  have atHand : m.peek (.result (2 + n)) = some (.coin T final) := by
    rw [← length_rows [none,some (.flashReceipt loan)] [none,none]]
    exact peek_last results
  obtain ⟨-,rfl⟩ := Value.coin.inj (Option.some.inj (atHand.symm.trans here))
  have left : (m.store (.result (2 + n)) none).results =
      ([none,some (.flashReceipt loan)] :: [none,none] :: List.replicate n [none]) ++ [[none]] := by
    rw [← length_rows [none,some (.flashReceipt loan)] [none,none]]
    exact store_last results none
  have loanHere : (m.store (.result (2 + n)) none).peek (.nestedResult 0 1) = some (.flashReceipt loan) := by
    change (m.store (.result (2 + n)) none).cell 0 1 = _
    rw [cell,left]
    rfl
  obtain rfl := Value.flashReceipt.inj (Option.some.inj (loanHere.symm.trans kept))
  simp only [world_store] at found ⊢
  refine ⟨old,new,change,found,repaid,rfl,?_,?_⟩
  · exact (quiet_take _ _).settled.trans (quiet_take m _).settled
  · change (m.store (.result (2 + n)) none).results.modify 0 (·.set 1 none) ++ _ = _
    rw [left,List.replicate_succ']
    rfl

theorem transferred_ok {rows : List (List (Option Value))} (empty : rows.all (·.all Option.isNone) = true)
    (results : m.results = rows ++ [[some (.coin T final)]]) {owner : Address}
    (ran : m.step chain (.transferObjects [.result rows.length] (.pure (.address owner))) = .ok after) :
    after.world = m.world.credit owner T final ∧ after.settled = m.settled ∧ after.spent = true := by
  simp only [Machine.step,transferObjects,bind_ok,Prod.exists,take_ok,pure_ok] at ran
  obtain ⟨moved,⟨taken,value,⟨here,rfl⟩,ran⟩,rfl⟩ := ran
  obtain rfl := Option.some.inj ((peek_last results).symm.trans here)
  obtain rfl := Except.ok.inj ran
  refine ⟨?_,(quiet_take m _).settled,?_⟩
  · exact congrArg (World.credit · owner T final) (world_store m _ none)
  · change ((m.store (.result rows.length) none).results ++ [[]]).all _ = true
    rw [store_last results]
    simpa using empty

end closing

/-- Both gates and the transfer: what remains of the coin after the repayment is the sender's. -/
theorem closing_ok {arb : FlashArb} {loan : FlashReceipt} {receipt : ArbReceipt} {n : ℕ} {coin : Argument} {T : TypeTag}
    {final : U64} (carrying : Carrying m loan receipt n coin T final)
    (ran : transact (Machine.step chain) m (arb.closing chain (2 + n) coin) = .ok after) :
    T = arb.coinType ∧ receipt.initialAmount.val + receipt.minProfit.val ≤ final.val ∧
      ∃ (old new : FlashLender arb.coinType) (change : U64),
        m.world.vaults.get arb.lender.id = some ⟨arb.coinType,old⟩ ∧ repay old loan ⟨final⟩ = .ok (new,⟨change⟩) ∧
        after.world = {m.world with vaults := m.world.vaults.put ⟨arb.coinType,new⟩}.credit chain.sender arb.coinType change ∧
        after.settled = m.settled ++ [⟨1,arb.coinType,final⟩] ∧ after.spent = true := by
  simp only [FlashArb.closing,transact_cons,transact_nil,bind_ok,Except.ok.injEq] at ran
  obtain ⟨gated,settled,paid,repaid,last,moved,rfl⟩ := ran
  obtain ⟨sameType,reached,sameWorld,logged,results⟩ := settled_ok carrying settled
  obtain ⟨old,new,change,found,returned,world,kept,results⟩ := repaid_ok results repaid
  have size : 2 + n + 1 = ([none,none] :: [none,none] :: List.replicate (n + 1) [(none : Option Value)]).length := by
    rw [length_rows]
    omega
  rw [size] at moved
  obtain ⟨credited,stays,spent⟩ := transferred_ok (by simp) results moved
  rw [sameWorld] at found world
  exact ⟨sameType,reached,old,new,change,found,returned,credited.trans (world ▸ rfl),
    stays.trans (kept.trans logged),spent⟩

end steps

def Vault.held (T : TypeTag) (vault : Vault) : ℕ := if vault.coinType = T then vault.lender.reserve.val else 0

/-- All there is of a coin type in the pools, in the vaults and with one owner. -/
def World.total (world : World) (owner : Address) (T : TypeTag) : ℕ :=
  world.pools.total (Listed.held T) + world.vaults.total (Vault.held T) + world.balances owner T

section vaults
variable {vaults : Vaults} {T : TypeTag} {old new : FlashLender T} {id : ObjectId}

theorem get_put_lender (found : vaults.get id = some ⟨T,old⟩) (sameId : new.id = old.id) :
    (vaults.put ⟨T,new⟩).get id = some ⟨T,new⟩ := by
  obtain rfl := located_id found
  exact located_put (show vaults.get (Vault.id ⟨T,old⟩) = some ⟨T,old⟩ from found) sameId

theorem total_put_lender (found : vaults.get id = some ⟨T,old⟩) (sameId : new.id = old.id) (U : TypeTag) :
    (vaults.put ⟨T,new⟩).total (Vault.held U) + (if T = U then old.reserve.val else 0) =
      vaults.total (Vault.held U) + if T = U then new.reserve.val else 0 := by
  obtain rfl := located_id found
  have here : vaults.get (Vault.id ⟨T,new⟩) = some ⟨T,old⟩ := by
    rw [show Vault.id ⟨T,new⟩ = old.id from sameId]
    exact found
  exact KeyedStore.total_put (Vault.held U) here

end vaults

/-- What a flash arbitrage does when it completes, from what its last swap paid and
the fee of its loan. -/
structure Completed (chain : Chain) (arb : FlashArb) (before after : World) (final fee : U64) : Prop where
  charged : ∃ old new : FlashLender arb.coinType, before.vaults.get arb.lender.id = some ⟨arb.coinType,old⟩ ∧
    after.vaults.get arb.lender.id = some ⟨arb.coinType,new⟩ ∧ feeAmount arb.amount old.feeBps = .ok fee ∧
    new.reserve.val = old.reserve.val + fee.val
  paid : (after.balances chain.sender arb.coinType : ℤ) =
    before.balances chain.sender arb.coinType + (final.val - arb.amount.val - fee.val)
  repaid : (0 : ℤ) ≤ final.val - arb.amount.val - fee.val
  profit : (arb.minProfit.val : ℤ) - fee.val ≤ final.val - arb.amount.val - fee.val
  others : ∀ owner T, ¬ (owner = chain.sender ∧ T = arb.coinType) → after.balances owner T = before.balances owner T
  products : ∀ id listed, before.pools.get id = some listed →
    ∃ now, after.pools.get id = some now ∧ listed.product ≤ now.product
  conserved : ∀ T, after.total chain.sender T = before.total chain.sender T

section runs
variable {chain : Chain} {m : Machine} {world : World} {arb : FlashArb}

theorem block_ok (ran : transact (Machine.step chain) (Machine.start world) (arb.block chain) = .ok m) :
    ∃ final fee, m.settled = [⟨1,arb.coinType,final⟩] ∧ m.spent = true ∧ Completed chain arb world m.world final fee := by
  rw [FlashArb.block,transact_append,bind_ok] at ran
  obtain ⟨routed,ran,closed⟩ := ran
  rw [transact_append,bind_ok] at ran
  obtain ⟨opened,ran,swapped⟩ := ran
  obtain ⟨old,lent,loan,-,found,borrowed,world₁,unsettled,carrying⟩ := opening_ok ran
  obtain ⟨-,stays,T,final,carrying,route⟩ := swaps_carrying carrying swapped
  rw [Nat.zero_add] at carrying
  obtain ⟨rfl,reached,lent',new,change,found',returned,world₂,settled,spent⟩ := closing_ok carrying closed
  obtain ⟨⟨lentId,-,split⟩,-,-,loanAmount,loanFee⟩ := borrow_ok.mp borrowed
  obtain ⟨⟨newId,-,joined⟩,-,-,rest⟩ := repay_ok.mp returned
  rw [route.vaults,world₁] at found' world₂
  have lentHere := get_put_lender found lentId
  obtain rfl : lent = lent' := by simpa using lentHere.symm.trans found'
  rw [loanAmount] at joined rest
  have change_add : change.val + (arb.amount.val + loan.fee.val) = final.val := rest
  have gate : arb.amount.val + arb.minProfit.val ≤ final.val := reached
  have balances : routed.world.balances = world.balances := route.balances.trans (by rw [world₁])
  have pools : opened.world.pools = world.pools := by rw [world₁]
  refine ⟨final,loan.fee,by rw [settled,stays,unsettled]; rfl,spent,?_,?_,by omega,by omega,?_,?_,?_⟩
  · exact ⟨old,new,found,world₂ ▸ get_put_lender lentHere newId,feeAmount_ok.mpr loanFee,by omega⟩
  · rw [world₂]
    simp only [World.credit,balances,and_self,if_true]
    omega
  · intro owner U other
    rw [world₂]
    simp only [World.credit,balances,other,if_false,Nat.add_zero]
  · intro id listed here
    obtain ⟨now,there,grown⟩ := route.products id listed (pools ▸ here)
    exact ⟨now,world₂ ▸ there,grown⟩
  · intro U
    have first := total_put_lender found lentId U
    have second := total_put_lender lentHere newId U
    have pooled := route.pooled U
    rw [pools] at pooled
    rw [world₂]
    simp only [World.total,World.credit,balances,true_and]
    by_cases same : arb.coinType = U
    · subst same
      simp only [if_true] at first second pooled ⊢
      omega
    · have other : U ≠ arb.coinType := fun equal => same equal.symm
      simp only [same,other,if_false] at first second pooled ⊢
      omega

/-- A block either fails, and changes nothing, or completes. -/
theorem block_executes (chain : Chain) (world : World) (arb : FlashArb) :
    (∃ failure, execute chain world (arb.block chain) = .error failure ∧ commit chain world (arb.block chain) = world) ∨
    ∃ m final fee, transact (Machine.step chain) (Machine.start world) (arb.block chain) = .ok m ∧
      m.settled = [⟨1,arb.coinType,final⟩] ∧ execute chain world (arb.block chain) = .ok m.world ∧
      commit chain world (arb.block chain) = m.world ∧ Completed chain arb world m.world final fee := by
  cases ran : transact (Machine.step chain) (Machine.start world) (arb.block chain) with
  | error failure =>
    have failed : execute chain world (arb.block chain) = .error failure := by simp only [execute,ran,error_bind]
    exact .inl ⟨failure,failed,by simp only [commit,attempt,failed]⟩
  | ok m =>
    obtain ⟨final,fee,settled,spent,completed⟩ := block_ok ran
    have completes : execute chain world (arb.block chain) = .ok m.world := by
      simp only [execute,ran,ok_bind,spent,if_true]
    exact .inr ⟨m,final,fee,rfl,settled,completes,by simp only [commit,attempt,completes],completed⟩

end runs

end SuiArbitrage.Move
