import SuiArbitrage.Move.Swappers

/-! What the two kinds of arbitrage block mean: the flash loan around the swaps, and the
swaps of the sender's own coin. Running the commands is computing the meaning, failures
included, whatever venues the swaps use. -/
namespace SuiArbitrage.Move
open MachineWord Fallible Executor Flash

structure FlashTrade (chain : Chain) where
  coinType : TypeTag
  lender : ObjectArg
  amount : U64
  minProfit : U64
  swaps : List (Swapper chain)

structure OwnedTrade (chain : Chain) where
  baseType : TypeTag
  amount : U64
  minProfit : U64
  swaps : List (Swapper chain)

namespace FlashTrade
variable {chain : Chain} (trade : FlashTrade chain) (world : World)

/-- The block but for its swaps. -/
def frame : FlashArb := ⟨trade.coinType,trade.lender,trade.amount,trade.minProfit,[]⟩

def block : List Command :=
  trade.frame.opening chain ++ swapperCommands 2 (.nestedResult 1 0) trade.swaps ++
    trade.frame.closing chain (2 + trade.swaps.length) (swappedCoin 2 (.nestedResult 1 0) trade.swaps)

def lend : Except Failure (World × FlashReceipt) := do
  let id ← mutableObject (.object trade.lender)
  let lender ← world.vaults.locate trade.coinType id
  let (lender,_,loan) ← call (borrow lender trade.amount)
  return ({world with vaults := world.vaults.put ⟨trade.coinType,lender⟩},loan)

/-- The profit gate, the repayment and what is left of the coin. -/
def close (loan : FlashReceipt) (T : TypeTag) (final : U64) : Except Failure World :=
  if T = trade.coinType then do
    let proceeds : Coin trade.coinType ← call (settleAndReturn ⟨chain.sender,trade.amount,trade.minProfit⟩ ⟨final⟩)
    let lender ← world.vaults.locate trade.coinType trade.lender.id
    let (lender,change) ← call (repay lender loan proceeds)
    return World.credit {world with vaults := world.vaults.put ⟨trade.coinType,lender⟩} chain.sender trade.coinType
      change.value
  else .error .argument

def meaning : Except Failure World := do
  let (world,loan) ← trade.lend world
  let (world,T,final) ← trades trade.swaps world trade.coinType trade.amount
  trade.close world loan T final

end FlashTrade

namespace OwnedTrade
variable {chain : Chain} (trade : OwnedTrade chain) (world : World)

def block : List Command :=
  [.splitCoins .gasCoin [.pure (.u64 trade.amount)],
    .moveCall ⟨chain.package,"executor","begin",[trade.baseType],[.nestedResult 0 0,.pure (.u64 trade.minProfit)]⟩] ++
    swapperCommands 2 (.nestedResult 1 0) trade.swaps ++
    [.moveCall ⟨chain.package,"executor","settle",[trade.baseType],
      [.nestedResult 1 1,swappedCoin 2 (.nestedResult 1 0) trade.swaps]⟩]

/-- Only coins of the gas type can be split off the gas coin. -/
def split : Except Failure World := do
  let (rest,_) ← call (balanceSplit world.gas trade.amount)
  if trade.baseType = sui then return {world with gas := rest} else .error .argument

def close (T : TypeTag) (final : U64) : Except Failure World :=
  if T = trade.baseType then do
    let (initiator,output) ← call (settle ⟨chain.sender,trade.amount,trade.minProfit⟩ (⟨final⟩ : Coin trade.baseType))
    return world.credit initiator trade.baseType output.value
  else .error .argument

def meaning : Except Failure World := do
  let world ← trade.split world
  let (world,T,final) ← trades trade.swaps world trade.baseType trade.amount
  trade.close world T final

end OwnedTrade

section parts
variable {chain : Chain}

theorem lend_ok {trade : FlashTrade chain} {world lent : World} {loan : FlashReceipt} :
    trade.lend world = .ok (lent,loan) ↔ trade.lender.mutable = true ∧
      ∃ old new, world.vaults.get trade.lender.id = some ⟨trade.coinType,old⟩ ∧
        borrow old trade.amount = .ok (new,⟨trade.amount⟩,loan) ∧
        lent = {world with vaults := world.vaults.put ⟨trade.coinType,new⟩} := by
  obtain ⟨T,⟨id,mutable⟩,amount,minProfit,swaps⟩ := trade
  simp only [FlashTrade.lend,bind_ok,mutableObject_ok,locate_ok,call_ok,Prod.exists,pure_ok,Prod.mk.injEq]
  constructor
  · rintro ⟨other,object,old,found,new,coin,loan',borrowed,rfl,rfl⟩
    obtain ⟨rfl,rfl⟩ := ObjectArg.mk.inj (Argument.object.inj object)
    obtain rfl : coin = ⟨amount⟩ := congrArg Coin.mk (borrow_ok.mp borrowed).2.1
    exact ⟨rfl,old,new,found,borrowed,rfl⟩
  · rintro ⟨rfl,old,new,found,borrowed,rfl⟩
    exact ⟨id,rfl,old,found,new,_,loan,borrowed,rfl,rfl⟩

theorem close_ok {trade : FlashTrade chain} {before after : World} {loan : FlashReceipt} {T : TypeTag} {final : U64} :
    trade.close before loan T final = .ok after ↔ T = trade.coinType ∧
      trade.amount.val + trade.minProfit.val ≤ final.val ∧
      ∃ old new change, before.vaults.get trade.lender.id = some ⟨trade.coinType,old⟩ ∧
        repay old loan ⟨final⟩ = .ok (new,⟨change⟩) ∧
        after = World.credit {before with vaults := before.vaults.put ⟨trade.coinType,new⟩} chain.sender trade.coinType
          change := by
  unfold FlashTrade.close
  split
  · rename_i same
    simp only [bind_ok,call_ok,settleAndReturn_ok,locate_ok,Prod.exists,pure_ok,same,true_and]
    constructor
    · rintro ⟨proceeds,⟨reached,rfl⟩,old,found,new,⟨change⟩,returned,rfl⟩
      exact ⟨reached,old,new,change,found,returned,rfl⟩
    · rintro ⟨reached,old,new,change,found,returned,rfl⟩
      exact ⟨_,⟨reached,rfl⟩,old,found,new,_,returned,rfl⟩
  · rename_i other
    simp only [reduceCtorEq,other,false_and]

theorem split_ok {trade : OwnedTrade chain} {world after : World} :
    trade.split world = .ok after ↔ trade.baseType = sui ∧
      ∃ rest : U64, rest.val + trade.amount.val = world.gas.val ∧ after = {world with gas := rest} := by
  unfold OwnedTrade.split
  simp only [bind_ok,call_ok,Prod.exists,balanceSplit_ok]
  constructor
  · rintro ⟨rest,_,⟨rfl,parts⟩,ran⟩
    split at ran
    · rename_i same
      exact ⟨same,rest,parts,(Except.ok.inj ran).symm⟩
    · cases ran
  · rintro ⟨same,rest,parts,rfl⟩
    exact ⟨rest,_,⟨rfl,parts⟩,if_pos same⟩

theorem settled_iff {trade : OwnedTrade chain} {before after : World} {T : TypeTag} {final : U64} :
    trade.close before T final = .ok after ↔ T = trade.baseType ∧
      trade.amount.val + trade.minProfit.val ≤ final.val ∧ after = before.credit chain.sender trade.baseType final := by
  unfold OwnedTrade.close
  split
  · rename_i same
    simp only [bind_ok,call_ok,settle_ok,pure_ok,same,true_and]
    constructor
    · rintro ⟨_,⟨reached,rfl⟩,rfl⟩
      exact ⟨reached,rfl⟩
    · rintro ⟨reached,rfl⟩
      exact ⟨_,⟨reached,rfl⟩,rfl⟩
  · rename_i other
    simp only [reduceCtorEq,other,false_and]

end parts

/-- The end of a run: its world, with nothing left over, and what its gate has accepted. -/
structure Finished (accepted : Settled) (after : World) (last : Machine) : Prop where
  world : last.world = after
  spent : last.spent = true
  settled : last.settled = [accepted]

theorem execute_of_simulates {chain : Chain} {world : World} {commands : List Command} {meaning : Except Failure World}
    {Agree : World → Machine → Prop} (lands : ∀ after last, Agree after last → last.world = after ∧ last.spent = true)
    (runs : Simulates Agree meaning (transact (Machine.step chain) (Machine.start world) commands)) :
    execute chain world commands = meaning := by
  rcases runs with ⟨failure,refused,failed⟩ | ⟨after,last,returned,ran,agree⟩
  · rw [execute,failed,refused,error_bind]
  · obtain ⟨rfl,spent⟩ := lands after last agree
    rw [execute,ran,returned,ok_bind,if_pos spent]

theorem execute_ok {chain : Chain} {before after : World} {commands : List Command} :
    execute chain before commands = .ok after ↔
      ∃ m, transact (Machine.step chain) (Machine.start before) commands = .ok m ∧ m.spent = true ∧ m.world = after := by
  simp only [execute,bind_ok]
  refine exists_congr fun m => and_congr_right fun _ => ?_
  by_cases spent : m.spent = true
  · simp [spent]
  · simp [spent]

section flash
variable {chain : Chain} {m : Machine}

open Machine

/-- The places of the two receipts in front of the swaps. -/
def receiptRows (loan : FlashReceipt) (receipt : ArbReceipt) : List (List (Option Value)) :=
  [[none,some (.flashReceipt loan)],[none,some (.arbReceipt receipt)]]

theorem Threaded.carrying {loan : FlashReceipt} {receipt : ArbReceipt} {n : ℕ} {coin : Argument}
    {traded : World × TypeTag × U64} (threaded : Threaded (receiptRows loan receipt) n coin traded m) :
    Carrying m loan receipt n coin traded.2.1 traded.2.2 := ⟨threaded.held,threaded.rest⟩

theorem opening_run (trade : FlashTrade chain) (world : World) :
    Simulates (fun lent m => trade.lender.mutable = true ∧
        Threaded (receiptRows lent.2 ⟨chain.sender,trade.amount,trade.minProfit⟩) 0 (.nestedResult 1 0)
          (lent.1,trade.coinType,trade.amount) m)
      (trade.lend world) (transact (Machine.step chain) (Machine.start world) (trade.frame.opening chain)) := by
  obtain ⟨T,⟨lenderId,mutable⟩,amount,minProfit,swaps⟩ := trade
  have borrowCallee : chain.callee ⟨chain.package,"flash","borrow",[T],[.object ⟨lenderId,mutable⟩,.pure (.u64 amount)]⟩ =
      .borrow := by simp [Chain.callee]
  have beginCallee : chain.callee ⟨chain.package,"executor","begin",[T],[.nestedResult 0 0,.pure (.u64 minProfit)]⟩ =
      .begin := by simp [Chain.callee]
  simp only [FlashTrade.lend,FlashTrade.frame,FlashArb.opening,transact_cons,transact_nil,Machine.step,invoke,borrowCallee,
    callBorrow]
  cases mutable with
  | false => exact simulates_error _
  | true =>
    simp only [mutableObject,pureU64,ok_bind]
    cases found : world.vaults.locate T lenderId with
    | error failure =>
      simp only [start,found,error_bind]
      exact simulates_error failure
    | ok old =>
      simp only [start,found,ok_bind]
      cases lent : call (borrow old amount) with
      | error failure =>
        simp only [error_bind]
        exact simulates_error failure
      | ok given =>
        obtain ⟨new,coin,loan⟩ := given
        obtain rfl : coin = ⟨amount⟩ := congrArg Coin.mk (borrow_ok.mp (call_ok.mp lent)).2.1
        have held : (((start world).withWorld {world with vaults := world.vaults.put ⟨T,new⟩}).push
            [.coin T amount,.flashReceipt loan]).peek (.nestedResult 0 0) = some (.coin T amount) := rfl
        unfold start at held
        simp only [ok_bind,pure_eq_ok,beginCallee,callBegin,takeCoin_of_peek held,if_true,pureU64]
        exact simulates_ok ⟨trivial,rfl,rfl,rfl,rfl⟩

section closing
variable {loan : FlashReceipt} {receipt : ArbReceipt} {n : ℕ} {coin : Argument} {T : TypeTag} {final : U64}

theorem settle_step (carrying : Carrying m loan receipt n coin T final) :
    Simulates (fun _ after => m.step chain (.moveCall ⟨chain.package,"executor","settle_and_return",[T],
        [.nestedResult 1 1,coin]⟩) = .ok after)
      (call (settleAndReturn receipt (⟨final⟩ : Coin T)))
      (m.step chain (.moveCall ⟨chain.package,"executor","settle_and_return",[T],[.nestedResult 1 1,coin]⟩)) := by
  have callee : chain.callee ⟨chain.package,"executor","settle_and_return",[T],[.nestedResult 1 1,coin]⟩ =
      .settleAndReturn := by simp [Chain.callee]
  have kept : (m.store coin none).peek (.nestedResult 1 1) = some (.arbReceipt receipt) := by
    change (m.store coin none).cell 1 1 = _
    rw [cell,carrying.rest]
    rfl
  have taken : (m.store coin none).takeArbReceipt (.nestedResult 1 1) =
      .ok ((m.store coin none).store (.nestedResult 1 1) none,receipt) := takeArbReceipt_ok.mpr ⟨kept,rfl⟩
  simp only [Machine.step,invoke,callee,callSettleAndReturn,takeCoin_of_peek carrying.held,if_true,ok_bind,taken]
  cases call (settleAndReturn receipt (⟨final⟩ : Coin T)) with
  | error failure => exact simulates_error failure
  | ok output => exact simulates_ok rfl

theorem repay_step (chain : Chain) {lender : ObjectArg} (mutable : lender.mutable = true) (results : m.results =
      ([none,some (.flashReceipt loan)] :: [none,none] :: List.replicate n [none]) ++ [[some (.coin T final)]]) :
    Simulates (fun _ after => m.step chain (.moveCall ⟨chain.package,"flash","repay",[T],
        [.object lender,.nestedResult 0 1,.result (2 + n)]⟩) = .ok after)
      (m.world.vaults.locate T lender.id >>= fun lent => call (repay lent loan ⟨final⟩))
      (m.step chain (.moveCall ⟨chain.package,"flash","repay",[T],
        [.object lender,.nestedResult 0 1,.result (2 + n)]⟩)) := by
  obtain ⟨id,writable⟩ := lender
  obtain rfl : writable = true := mutable
  have callee : chain.callee ⟨chain.package,"flash","repay",[T],
      [.object ⟨id,true⟩,.nestedResult 0 1,.result (2 + n)]⟩ = .repay := by simp [Chain.callee]
  have size := length_rows [none,some (.flashReceipt loan)] [none,none] n
  have atHand : m.peek (.result (2 + n)) = some (.coin T final) := by
    rw [← size]
    exact peek_last results
  have left : (m.store (.result (2 + n)) none).results =
      ([none,some (.flashReceipt loan)] :: [none,none] :: List.replicate n [none]) ++ [[none]] := by
    rw [← size]
    exact store_last results none
  have kept : (m.store (.result (2 + n)) none).peek (.nestedResult 0 1) = some (.flashReceipt loan) := by
    change (m.store (.result (2 + n)) none).cell 0 1 = _
    rw [cell,left]
    rfl
  have taken : (m.store (.result (2 + n)) none).takeFlashReceipt (.nestedResult 0 1) =
      .ok ((m.store (.result (2 + n)) none).store (.nestedResult 0 1) none,loan) := takeFlashReceipt_ok.mpr ⟨kept,rfl⟩
  simp only [Machine.step,invoke,callee,callRepay,mutableObject,takeCoin_of_peek atHand,if_true,ok_bind,taken,
    world_store]
  cases m.world.vaults.locate T id with
  | error failure =>
    simp only [error_bind]
    exact simulates_error failure
  | ok lent =>
    simp only [ok_bind]
    cases call (repay lent loan ⟨final⟩) with
    | error failure => exact simulates_error failure
    | ok returned => exact simulates_ok rfl

theorem transfer_step (chain : Chain) {rows : List (List (Option Value))} (owner : Address) (empty : rows.all (·.all Option.isNone) = true)
    (results : m.results = rows ++ [[some (.coin T final)]]) :
    ∃ after, m.step chain (.transferObjects [.result rows.length] (.pure (.address owner))) = .ok after ∧
      after.world = m.world.credit owner T final ∧ after.settled = m.settled ∧ after.spent = true := by
  have taken : m.take (.result rows.length) = .ok (m.store (.result rows.length) none,.coin T final) :=
    take_ok.mpr ⟨peek_last results,rfl⟩
  have moved : m.step chain (.transferObjects [.result rows.length] (.pure (.address owner))) =
      .ok (((m.store (.result rows.length) none).withWorld (m.world.credit owner T final)).push []) := by
    simp only [Machine.step,transferObjects,taken,ok_bind,world_store,pure_eq_ok]
  exact ⟨_,moved,transferred_ok empty results moved⟩

theorem closing_run {trade : FlashTrade chain} {traded : World × TypeTag × U64} (mutable : trade.lender.mutable = true)
    (threaded : Threaded (receiptRows loan ⟨chain.sender,trade.amount,trade.minProfit⟩) n coin traded m) :
    Simulates (Finished ⟨1,trade.coinType,traded.2.2⟩) (trade.close traded.1 loan traded.2.1 traded.2.2)
      (transact (Machine.step chain) m (trade.frame.closing chain (2 + n) coin)) := by
  obtain ⟨world,T,final⟩ := traded
  have carrying := threaded.carrying
  rw [FlashTrade.close,FlashArb.closing,transact_cons]
  by_cases same : T = trade.coinType
  · obtain rfl := same
    rw [if_pos rfl]
    refine (settle_step carrying).bind fun proceeds settled gated _ ran => ?_
    obtain ⟨-,-,sameWorld,accepted,results⟩ := settled_ok carrying ran
    obtain rfl : proceeds = ⟨final⟩ := (settleAndReturn_ok.mp (call_ok.mp gated)).2
    have there : settled.world = world := sameWorld.trans threaded.world
    have repays := repay_step chain mutable results
    rw [there] at repays
    rw [transact_cons,← bind_assoc]
    refine repays.bind fun returned repaid paid _ ran => ?_
    obtain ⟨old,new,change,found,again,left,kept,results⟩ := repaid_ok results ran
    rw [there] at found left
    rw [locate_ok.mpr found,ok_bind,call_ok,again] at paid
    obtain rfl := Except.ok.inj paid
    have size : 2 + n + 1 = ([none,none] :: [none,none] :: List.replicate (n + 1) [(none : Option Value)]).length := by
      rw [length_rows]
      omega
    obtain ⟨last,moved,credited,stays,spent⟩ := transfer_step chain chain.sender (by simp) results
    rw [transact_cons,size,moved,ok_bind]
    refine simulates_ok ⟨?_,spent,?_⟩
    · rw [credited,left]
    · rw [stays,kept,accepted,threaded.unsettled]
      rfl
  · have other : ¬ T = trade.frame.coinType := same
    have callee : chain.callee ⟨chain.package,"executor","settle_and_return",[trade.frame.coinType],
        [.nestedResult 1 1,coin]⟩ = .settleAndReturn := by simp [Chain.callee]
    have refused : m.step chain (.moveCall ⟨chain.package,"executor","settle_and_return",[trade.frame.coinType],
        [.nestedResult 1 1,coin]⟩) = .error .argument := by
      simp only [Machine.step,invoke,callee,callSettleAndReturn,takeCoin_of_peek carrying.held,other,if_false,error_bind]
    rw [if_neg same,refused,error_bind]
    exact simulates_error _

end closing

/-- What a flash block that lands has computed on its way: the loan, and what the swaps come to. -/
structure FlashTrade.Computed (trade : FlashTrade chain) (before after : World) (lent : World × FlashReceipt)
    (traded : World × TypeTag × U64) : Prop where
  lends : trade.lend before = .ok lent
  trades : trades trade.swaps lent.1 trade.coinType trade.amount = .ok traded
  closes : trade.close traded.1 lent.2 traded.2.1 traded.2.2 = .ok after

theorem flash_run (trade : FlashTrade chain) (world : World) :
    Simulates (fun after last => ∃ lent traded, trade.Computed world after lent traded ∧
        Finished ⟨1,trade.coinType,traded.2.2⟩ after last)
      (trade.meaning world) (transact (Machine.step chain) (Machine.start world) trade.block) := by
  rw [FlashTrade.meaning,FlashTrade.block,transact_append,transact_append,bind_assoc]
  refine (opening_run trade world).bind fun lent opened lends _ begun => ?_
  obtain ⟨mutable,threaded⟩ := begun
  refine (swappers_run rfl threaded trade.swaps).bind fun traded swapped trades _ threaded => ?_
  rw [Nat.zero_add] at threaded
  refine (closing_run mutable threaded).imp fun after last closes _ finished => ?_
  exact ⟨lent,traded,⟨lends,trades,closes⟩,finished⟩

/-- Executing a flash block is computing its meaning. -/
theorem execute_flash (trade : FlashTrade chain) (world : World) :
    execute chain world trade.block = trade.meaning world := by
  refine execute_of_simulates (fun after last computed => ?_) (flash_run trade world)
  obtain ⟨lent,traded,-,finished⟩ := computed
  exact ⟨finished.world,finished.spent⟩

theorem flash_landed {trade : FlashTrade chain} {before after : World} (landed : execute chain before trade.block = .ok after) :
    ∃ lent traded, trade.Computed before after lent traded ∧
      settlements chain before trade.block = [⟨1,trade.coinType,traded.2.2⟩] := by
  obtain ⟨m,ran,-,rfl⟩ := execute_ok.mp landed
  obtain ⟨after,-,lent,traded,computed,finished⟩ := (flash_run trade before).computes ran
  obtain rfl := finished.world
  exact ⟨lent,traded,computed,(settlements_of_run ran).trans finished.settled⟩

/-- Each swap of a flash block leaves what the trades up to it come to. -/
theorem flash_yields {trade : FlashTrade chain} {before after : World} {lent : World × FlashReceipt}
    {traded : World × TypeTag × U64} (computed : trade.Computed before after lent traded) {n : ℕ} {T : TypeTag} {out : U64}
    {middle : World} (short : n ≤ trade.swaps.length)
    (ran : Move.trades (trade.swaps.take n) lent.1 trade.coinType trade.amount = .ok (middle,T,out)) :
    yields chain before trade.block (1 + n) 0 = some (.coin T out) := by
  obtain ⟨m,opened,-,threaded⟩ := (opening_run trade before).returns computed.lends
  have found := trades_yield opened rfl rfl threaded ran (trade.swaps.drop n)
    (trade.frame.closing chain (2 + trade.swaps.length) (swappedCoin 2 (.nestedResult 1 0) trade.swaps))
  rw [List.take_append_drop,List.length_take_of_le short] at found
  exact found

end flash

section owned
variable {chain : Chain} {m : Machine}

open Machine

def ownRows (receipt : ArbReceipt) : List (List (Option Value)) := [[none],[none,some (.arbReceipt receipt)]]

theorem begin_run (trade : OwnedTrade chain) (world : World) :
    Simulates (fun split => Threaded (ownRows ⟨chain.sender,trade.amount,trade.minProfit⟩) 0 (.nestedResult 1 0)
        (split,trade.baseType,trade.amount))
      (trade.split world) (transact (Machine.step chain) (Machine.start world) [.splitCoins .gasCoin [.pure (.u64 trade.amount)],
        .moveCall ⟨chain.package,"executor","begin",[trade.baseType],[.nestedResult 0 0,.pure (.u64 trade.minProfit)]⟩]) := by
  obtain ⟨T,amount,minProfit,swaps⟩ := trade
  have callee : chain.callee ⟨chain.package,"executor","begin",[T],[.nestedResult 0 0,.pure (.u64 minProfit)]⟩ =
      .begin := by simp [Chain.callee]
  simp only [OwnedTrade.split,transact_cons,transact_nil,Machine.step,splitCoins,pureU64,ok_bind,splitCoin,if_true,start,
    invoke,callee,callBegin]
  cases taken : call (balanceSplit world.gas amount) with
  | error failure =>
    simp only [error_bind]
    exact simulates_error failure
  | ok parts =>
    obtain ⟨rest,coin⟩ := parts
    obtain rfl : coin = amount := (balanceSplit_ok.mp (call_ok.mp taken)).1
    have held : (((start world).withWorld {world with gas := rest}).push [.coin sui coin]).peek (.nestedResult 0 0) =
        some (.coin sui coin) := rfl
    unfold start at held
    simp only [ok_bind,pure_eq_ok,takeCoin_of_peek held,eq_comm (a := sui)]
    split
    · exact simulates_ok ⟨rfl,rfl,rfl,rfl⟩
    · exact simulates_error _

theorem settle_run {trade : OwnedTrade chain} {n : ℕ} {coin : Argument} {traded : World × TypeTag × U64}
    (threaded : Threaded (ownRows ⟨chain.sender,trade.amount,trade.minProfit⟩) n coin traded m) :
    Simulates (Finished ⟨1,trade.baseType,traded.2.2⟩) (trade.close traded.1 traded.2.1 traded.2.2)
      (transact (Machine.step chain) m [.moveCall ⟨chain.package,"executor","settle",[trade.baseType],
        [.nestedResult 1 1,coin]⟩]) := by
  obtain ⟨world,T,final⟩ := traded
  have callee : chain.callee ⟨chain.package,"executor","settle",[trade.baseType],[.nestedResult 1 1,coin]⟩ = .settle := by
    simp [Chain.callee]
  have kept : (m.store coin none).peek (.nestedResult 1 1) =
      some (.arbReceipt ⟨chain.sender,trade.amount,trade.minProfit⟩) := by
    change (m.store coin none).cell 1 1 = _
    rw [cell,threaded.rest]
    rfl
  have taken : (m.store coin none).takeArbReceipt (.nestedResult 1 1) =
      .ok ((m.store coin none).store (.nestedResult 1 1) none,⟨chain.sender,trade.amount,trade.minProfit⟩) :=
    takeArbReceipt_ok.mpr ⟨kept,rfl⟩
  simp only [transact_cons,transact_nil,OwnedTrade.close,Machine.step,invoke,callee,callSettle,
    takeCoin_of_peek threaded.held]
  by_cases same : T = trade.baseType
  · obtain rfl := same
    simp only [if_true,ok_bind,taken]
    cases call (settle ⟨chain.sender,trade.amount,trade.minProfit⟩ (⟨final⟩ : Coin trade.baseType)) with
    | error failure =>
      simp only [error_bind]
      exact simulates_error failure
    | ok proceeds =>
      obtain ⟨initiator,output⟩ := proceeds
      simp only [ok_bind,pure_eq_ok]
      refine simulates_ok ⟨?_,?_,?_⟩
      · change World.credit ((m.store coin none).store (.nestedResult 1 1) none).world _ _ _ = _
        rw [world_store,world_store,threaded.world]
      · change ((m.store coin none).results.modify 1 (·.set 1 none) ++ [[]]).all _ = true
        rw [threaded.rest]
        simp [ownRows]
      · change ((m.store coin none).store (.nestedResult 1 1) none).settled ++ _ = _
        rw [(quiet_take _ _).settled,(quiet_take m coin).settled,threaded.unsettled]
        rfl
  · simp only [same,if_false,error_bind]
    exact simulates_error _

structure OwnedTrade.Computed (trade : OwnedTrade chain) (before after split : World) (traded : World × TypeTag × U64) : Prop where
  splits : trade.split before = .ok split
  trades : trades trade.swaps split trade.baseType trade.amount = .ok traded
  closes : trade.close traded.1 traded.2.1 traded.2.2 = .ok after

theorem owned_run (trade : OwnedTrade chain) (world : World) :
    Simulates (fun after last => ∃ split traded, trade.Computed world after split traded ∧
        Finished ⟨1,trade.baseType,traded.2.2⟩ after last)
      (trade.meaning world) (transact (Machine.step chain) (Machine.start world) trade.block) := by
  rw [OwnedTrade.meaning,OwnedTrade.block,transact_append,transact_append,bind_assoc]
  refine (begin_run trade world).bind fun split opened splits _ threaded => ?_
  refine (swappers_run rfl threaded trade.swaps).bind fun traded swapped trades _ threaded => ?_
  refine (settle_run threaded).imp fun after last closes _ finished => ?_
  exact ⟨split,traded,⟨splits,trades,closes⟩,finished⟩

/-- Executing an owned block is computing its meaning. -/
theorem execute_owned (trade : OwnedTrade chain) (world : World) :
    execute chain world trade.block = trade.meaning world := by
  refine execute_of_simulates (fun after last computed => ?_) (owned_run trade world)
  obtain ⟨split,traded,-,finished⟩ := computed
  exact ⟨finished.world,finished.spent⟩

theorem owned_landed {trade : OwnedTrade chain} {before after : World} (landed : execute chain before trade.block = .ok after) :
    ∃ split traded, trade.Computed before after split traded ∧
      settlements chain before trade.block = [⟨1,trade.baseType,traded.2.2⟩] := by
  obtain ⟨m,ran,-,rfl⟩ := execute_ok.mp landed
  obtain ⟨after,-,split,traded,computed,finished⟩ := (owned_run trade before).computes ran
  obtain rfl := finished.world
  exact ⟨split,traded,computed,(settlements_of_run ran).trans finished.settled⟩

theorem owned_yields {trade : OwnedTrade chain} {before after split : World} {traded : World × TypeTag × U64}
    (computed : trade.Computed before after split traded) {n : ℕ} {T : TypeTag} {out : U64} {middle : World}
    (short : n ≤ trade.swaps.length)
    (ran : Move.trades (trade.swaps.take n) split trade.baseType trade.amount = .ok (middle,T,out)) :
    yields chain before trade.block (1 + n) 0 = some (.coin T out) := by
  obtain ⟨m,begun,threaded⟩ := (begin_run trade before).returns computed.splits
  have found := trades_yield begun rfl rfl threaded ran (trade.swaps.drop n)
    [.moveCall ⟨chain.package,"executor","settle",[trade.baseType],
      [.nestedResult 1 1,swappedCoin 2 (.nestedResult 1 0) trade.swaps]⟩]
  rw [List.take_append_drop,List.length_take_of_le short] at found
  exact found

end owned

end SuiArbitrage.Move
