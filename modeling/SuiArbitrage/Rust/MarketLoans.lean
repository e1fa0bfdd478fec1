import SuiArbitrage.Move.Financed
import SuiArbitrage.Rust.LiveSafety
import SuiArbitrage.Rust.ProfitGate

/-! Transactions that the lending market finances: flash arbitrage with its loans, and
liquidations. Whatever the market, the oracle and the venues do with what they are passed,
such a block changes nothing, or its gate has been passed, the market has what it is owed,
and the rest is the sender's. -/
namespace SuiArbitrage.Rust
open MachineWord Fallible Scanner Flashloan
open Move (Venues LoanBlock LoanOutcome Exposed Kept Interleaved TypeTag ObjectId ObjectArg Address Argument Command MoveCall spent spent_append)

section market
variable {venues : Venues} {package market : ObjectId} {sender : Address}

/-- Code elsewhere takes nothing of ours, and the market hands out the coin that it is asked for. -/
structure LendingMarket (venues : Venues) (sender : Address) (market : ObjectId) : Prop where
  apart : ∀ world c values after row, venues.elsewhere world c values = .ok (after,row) → Move.Apart sender world after
  lends : ∀ world T arguments amount values after row, arguments.getLast? = some (.pure (.u64 amount)) →
    venues.elsewhere world ⟨market,ScallopPins.flashModule,ScallopPins.borrowFn,[T],arguments⟩ values = .ok (after,row) →
      row[0]? = some (.coin T amount)

/-- All that runs outside our modules spares the sender: the adapters over venues that do, and
the code elsewhere. -/
theorem venues_spare (confined : venues.Confined sender) (lending : LendingMarket venues sender market) :
    (venues.chain package sender).Spares := by
  intro world c values after row ran
  rcases Move.outside_cases ran with elsewhere | ⟨T,U,amount,out,-,-,apart⟩
  · exact (lending.apart _ _ _ _ _ elsewhere).kept
  · exact (apart sender confined).kept

end market

namespace Ptb
open Builder

section spends
variable {α β : Type}

/-- A builder whose commands split so much off the gas coin. -/
def Spends (x : Builder α) (amount : ℕ) : Prop :=
  ∀ commands value after, x.run commands = .ok (value,after) → ∃ more, after = commands ++ more ∧ spent more = amount

theorem Spends.bind {x : Builder α} {next : α → Builder β} {first second : ℕ} (here : Spends x first)
    (later : ∀ value, Spends (next value) second) : Spends (x >>= next) (first + second) := by
  intro commands result after ran
  obtain ⟨value,middle,ran,onward⟩ := run_bind.mp ran
  obtain ⟨more,rfl,rfl⟩ := here commands value middle ran
  obtain ⟨rest,rfl,rfl⟩ := later value _ result after onward
  exact ⟨more ++ rest,List.append_assoc _ _ _,spent_append more rest⟩

theorem spends_command (c : Command) : Spends (command c) c.spent := by
  intro commands value after ran
  exact ⟨[c],(run_command.mp ran).2,List.sum_singleton⟩

theorem spends_lift (x : Anyhow α) : Spends (liftM x : Builder α) 0 := by
  intro commands value after ran
  exact ⟨[],by rw [(run_lift.mp ran).2,List.append_nil],rfl⟩

theorem spends_foldlM {step : β → α → Builder β} {amount : ℕ} (each : ∀ held item, Spends (step held item) amount)
    (items : List α) (start : β) : Spends (items.foldlM step start) (items.length * amount) := by
  induction items generalizing start with
  | nil =>
    rw [List.length_nil,Nat.zero_mul]
    exact spends_lift (.ok start)
  | cons item items ih =>
    rw [List.foldlM_cons,List.length_cons,Nat.succ_mul,Nat.add_comm]
    exact (each start item).bind ih

theorem spends_lowerSwap (package : ObjectId) (coin : Argument) (swap : PtbStep × ResolvedHop) :
    Spends (lowerSwap package coin swap) 0 := by
  obtain ⟨step,hop⟩ := swap
  cases step with
  | swap module function poolId minOut =>
    have nothing : Spends (lowerSwap package coin (.swap module function poolId minOut,hop)) (0 + (0 + (0 + 0))) :=
      (spends_lift _).bind fun _ => (spends_lift _).bind fun _ => (spends_lift _).bind fun _ => spends_command _
    exact nothing
  | _ => exact spends_lift _

theorem spends_lowerSwaps (package : ObjectId) (plan : List PtbStep) (hops : List ResolvedHop) (coin : Argument) :
    Spends (lowerSwaps package plan hops coin) 0 := by
  unfold lowerSwaps
  dsimp only
  split
  · exact spends_foldlM (spends_lowerSwap package) _ _
  · exact spends_lift _

/-- Each price that is refreshed costs a fee. -/
theorem spends_updatePrices (inputs : LiquidationInputs) :
    Spends (updatePrices inputs) (inputs.priceInfos.length * inputs.pythFee.val) := by
  have feed (hpv : Argument) (info : ObjectArg) : Spends (updatePriceFeed inputs hpv info) inputs.pythFee.val := by
    have both : Spends (updatePriceFeed inputs hpv info)
        ((Command.splitCoins .gasCoin [.pure (.u64 inputs.pythFee)]).spent + 0) :=
      (spends_command _).bind fun _ => spends_command _
    simpa [Command.spent,Argument.mist] using both
  have feeds := spends_foldlM feed inputs.priceInfos
  have each : Spends (updatePrices inputs) (0 + (0 + (inputs.priceInfos.length * inputs.pythFee.val + 0))) :=
    (spends_command _).bind fun _ => (spends_command _).bind fun _ => (feeds _).bind fun _ => spends_command _
  simpa only [Nat.zero_add,Nat.add_zero] using each

end spends

section discreet
variable {package : ObjectId} {commands after : List Command} {coin last : Argument} {k : ℕ}

/-- A command that settles no session and names no result of the command `k`. -/
def Discreet (k : ℕ) (c : Command) : Prop := c.settles = false ∧ ∀ argument ∈ c.arguments, argument.command ≠ some k

theorem settles_none {chain : Move.Chain} {c : Command} (quiet : c.settles = false) : chain.settles c = none := by
  cases c with
  | moveCall call =>
    obtain ⟨settle,settleAndReturn⟩ : (call.module,call.function) ≠ ("executor","settle") ∧
        (call.module,call.function) ≠ ("executor","settle_and_return") := by
      simpa [Command.settles,Command.callsOneOf,not_or] using quiet
    have callee : chain.callee call ≠ .settle ∧ chain.callee call ≠ .settleAndReturn := by
      simp only [Move.Chain.callee,if_neg settle,if_neg settleAndReturn]
      split_ifs <;> simp
    unfold Move.Chain.settles
    dsimp only
    split
    next same _ _ => exact absurd same callee.1
    next same _ _ => exact absurd same callee.2
    next => rfl
  | splitCoins => rfl
  | mergeCoins => rfl
  | transferObjects => rfl

theorem swapArguments_discreet {resolved : ResolvedHop} {arguments : List Argument}
    (given : swapArguments resolved coin = .ok arguments) (other : coin.command ≠ some k) :
    ∀ argument ∈ arguments, argument.command ≠ some k := by
  obtain ⟨front,back,around,rfl⟩ := swapArguments_around given
  have plain := around.plain
  simp only [List.mem_append,List.mem_cons]
  rintro argument (inside | rfl | inside) same
  · cases (plain.1 argument inside).symm.trans same
  · exact other same
  · cases (plain.2 argument inside).symm.trans same

theorem adapter_settles (package : ObjectId) (dex : Dex) (function : String) (typeArguments : List TypeTag)
    (arguments : List Argument) :
    (Command.moveCall ⟨package,adapterModule dex,function,typeArguments,arguments⟩).settles = false := by
  cases dex <;> simp [Command.settles,Command.callsOneOf,adapterModule]

/-- The swaps of a route name the coin they are given and each other, and nothing else. -/
theorem foldlM_discreet {route : List Hop} {hops : List ResolvedHop}
    (ran : (((pushSwaps route).zip hops).foldlM (lowerSwap package) coin).run commands = .ok (last,after))
    (other : coin.command ≠ some k) (behind : k < commands.length) :
    last.command ≠ some k ∧ ∃ more, after = commands ++ more ∧ ∀ c ∈ more, Discreet k c := by
  induction route generalizing hops coin commands with
  | nil =>
    cases ran
    exact ⟨other,[],(List.append_nil _).symm,List.forall_mem_nil _⟩
  | cons hop route ih =>
    cases hops with
    | nil =>
      cases ran
      exact ⟨other,[],(List.append_nil _).symm,List.forall_mem_nil _⟩
    | cons resolved hops =>
      rw [show pushSwaps (hop :: route) =
        .swap (adapterCall hop).1 (adapterCall hop).2 hop.poolId 0 :: pushSwaps route from rfl,
        List.zip_cons_cons,List.foldlM_cons,run_bind] at ran
      obtain ⟨next,middle,swapped,ran⟩ := ran
      obtain ⟨arguments,given,rfl,rfl⟩ := lowerSwap_ok swapped
      have later : (Argument.result commands.length).command ≠ some k := fun same => behind.ne (Option.some.inj same).symm
      obtain ⟨final,more,rfl,discreet⟩ := ih ran later (by rw [List.length_append]; omega)
      refine ⟨final,_ :: more,List.append_assoc _ _ _,List.forall_mem_cons.mpr ⟨?_,discreet⟩⟩
      exact ⟨adapter_settles package hop.dex _ _ _,swapArguments_discreet given other⟩

theorem lowerSwaps_discreet {plan : List PtbStep} {route : List Hop} {hops : List ResolvedHop}
    (planned : plan.filter PtbStep.isSwap = pushSwaps route)
    (ran : (lowerSwaps package plan hops coin).run commands = .ok (last,after)) (other : coin.command ≠ some k)
    (behind : k < commands.length) : last.command ≠ some k ∧ ∃ more, after = commands ++ more ∧ ∀ c ∈ more, Discreet k c := by
  by_cases counted : (plan.filter PtbStep.isSwap).length = hops.length
  · rw [lowerSwaps,if_pos counted,planned] at ran
    exact foldlM_discreet ran other behind
  · exact absurd ran (lowerSwaps_mismatch counted)

/-- Refreshing prices settles nothing. -/
theorem updatePrices_quiet (inputs : LiquidationInputs) : Emits (fun c => c.settles = false) (updatePrices inputs) := by
  have calls {c : Command} (quiet : c.settles = false) : Emits (fun c => c.settles = false) (command c) := emits_command quiet
  have feed (hpv : Argument) (info : ObjectArg) : Emits (fun c => c.settles = false) (updatePriceFeed inputs hpv info) :=
    (calls rfl).bind fun _ => calls rfl
  refine (calls rfl).bind fun _ => (calls rfl).bind fun _ => ?_
  exact (emits_foldlM feed inputs.priceInfos _).bind fun _ => calls rfl

end discreet

/-- The block of a market loan: the loan is its own receipt's, and so is the repayment. -/
def marketBlock (market : ObjectId) (version lender : ObjectArg) (T : TypeTag) (amount minProfit owed : U64)
    (first middle : List Command) (coin : Argument) : LoanBlock where
  first := first
  lend := ⟨market,ScallopPins.flashModule,ScallopPins.borrowFn,[T],[.object version,.object lender,.pure (.u64 amount)]⟩
  coinType := T
  minProfit := minProfit
  middle := middle
  coin := coin
  owed := owed
  repay := ⟨market,ScallopPins.flashModule,ScallopPins.repayFn,[T],
    [.object version,.object lender,.nestedResult (first.length + 2 + middle.length + 1) 0,.nestedResult first.length 1]⟩

theorem marketBlock_lent {venues : Venues} {package market : ObjectId} {sender : Address} {version lender : ObjectArg}
    {T : TypeTag} {amount minProfit owed : U64} {first middle : List Command} {coin : Argument}
    (lending : LendingMarket venues sender market) (quiet : ∀ c ∈ first, c.settles = false)
    (discreet : ∀ c ∈ middle, Discreet first.length c) (other : coin.command ≠ some first.length) :
    (marketBlock market version lender T amount minProfit owed first middle coin).Lent (venues.chain package sender) amount where
  lends := by simp [marketBlock,Move.Chain.callee,ScallopPins.flashModule,ScallopPins.borrowFn]
  coin world values after row ran := by
    have ran : venues.outside package sender world _ values = .ok (after,row) := ran
    simp only [Venues.outside,marketBlock,ScallopPins.flashModule,String.reduceEq,and_false,if_false] at ran
    exact lending.lends world T _ amount values after row rfl ran
  repays := by simp [marketBlock,Move.Chain.callee,ScallopPins.flashModule,ScallopPins.repayFn]
  pays := ⟨[.object version,.object lender],by simp [Argument.command],rfl⟩
  other := other
  unread c member := (discreet c member).2
  quiet c member := by
    rcases List.mem_append.mp member with before | inside
    · exact settles_none (quiet c before)
    · exact settles_none (discreet c inside).1

/-- A flash arbitrage that the market finances. -/
theorem build_market {provider : FlashLoanProvider} {opp : Opportunity} {minProfit : U64} {inputs : BuildInputs}
    {commands : List Command} (style : inputs.flashStyle = .scallop)
    (built : build (flashArbPlan provider opp minProfit) inputs = .ok commands) :
    ∃ version swaps coin, commands = (marketBlock inputs.providerPackage version inputs.lender inputs.baseType inputs.amount
      inputs.minProfit inputs.repayTotal [] swaps coin).commands inputs.package inputs.sender ∧ spent commands = 0 ∧
      (∀ c ∈ swaps, Discreet 0 c) ∧ coin.command ≠ some 0 := by
  simp only [build,finish_ok,run_bind,call,run_command,flashBorrow,flashRepay,style,run_lift] at built
  obtain ⟨last,b,_,⟨version,_,⟨given,rfl⟩,rfl,rfl⟩,begin,_,⟨rfl,rfl⟩,coin,_,swapped,proceeds,_,⟨rfl,rfl⟩,owed,_,⟨rfl,rfl⟩,
    version',_,⟨given',rfl⟩,paid,_,⟨rfl,rfl⟩,rfl,rfl⟩ := built
  obtain rfl : version = version' := Except.ok.inj (given.symm.trans given')
  have discreet := lowerSwaps_discreet (flashArbPlan_swaps provider opp minProfit) swapped (by simp [nested,Argument.command])
    (show 0 < _ by simp)
  obtain ⟨swaps,rfl,free⟩ := spends_lowerSwaps _ _ _ _ _ _ _ swapped
  obtain ⟨other,more,same,discreet⟩ := discreet
  obtain rfl := List.append_cancel_left same
  refine ⟨version,swaps,coin,?_,?_,discreet,other⟩
  · simp [LoanBlock.commands,LoanBlock.opening,LoanBlock.begins,LoanBlock.settles,LoanBlock.splits,LoanBlock.transfers,
      LoanBlock.gate,marketBlock,nested,Nat.add_comm,Nat.add_left_comm]
  · have free : (swaps.map Command.spent).sum = 0 := free
    simp [spent,Command.spent,free]

theorem buildLiquidation_market {plan : List PtbStep} {inputs : LiquidationInputs} {commands : List Command}
    (built : buildLiquidation plan inputs = .ok commands) :
    ∃ prices middle coin, commands = (marketBlock inputs.scallopPackage inputs.version inputs.market inputs.debtType
      inputs.repayAmount inputs.minProfit inputs.repayTotal prices middle coin).commands inputs.package inputs.sender ∧
      spent commands = inputs.priceInfos.length * inputs.pythFee.val ∧ (∀ c ∈ prices, c.settles = false) ∧
      (∀ c ∈ middle, Discreet prices.length c) ∧ coin.command ≠ some prices.length := by
  obtain ⟨last,prices,arguments,refreshed,given,rfl⟩ := buildLiquidation_ok built
  obtain ⟨more,same,fees⟩ := spends_updatePrices inputs _ _ _ refreshed
  obtain rfl : prices = more := same
  obtain ⟨more,same,quiet⟩ := updatePrices_quiet inputs _ _ _ refreshed
  obtain rfl : prices = more := same
  refine ⟨prices,((liquidationCommands inputs arguments prices.length).drop 2).take 3,.result (prices.length + 3),?_,?_,quiet,?_,?_⟩
  · simp [LoanBlock.commands,LoanBlock.opening,LoanBlock.begins,LoanBlock.settles,LoanBlock.splits,LoanBlock.transfers,
      LoanBlock.gate,marketBlock,liquidationCommands,Nat.add_assoc]
  · rw [spent_append,fees]
    simp [spent,Command.spent,liquidationCommands]
  · intro c member
    have passed := swapArguments_discreet given (k := prices.length) (by simp [Argument.command])
    simp only [liquidationCommands,List.drop_succ_cons,List.drop_zero,List.take_succ_cons,List.take_zero,List.mem_cons,
      List.not_mem_nil,or_false] at member
    rcases member with rfl | rfl | rfl
    · exact ⟨rfl,by simp [Command.arguments,Argument.command]⟩
    · exact ⟨adapter_settles inputs.package inputs.swap.dex _ _ _,passed⟩
    · exact ⟨rfl,by simp [Command.arguments,Argument.command]⟩
  · simp [Argument.command]

end Ptb

namespace Executor
open Ptb
variable {F : Type} {node : Node} {config : Config F} {opp : Opportunity} {refs : List (LivePoolRef × Bool)}
  {floors : List U64} {sender : Address} {pt : List Command} {venues : Venues} {package market : ObjectId}

/-- The coin that is lent: the debt of a liquidation, and else the base token. -/
def loanToken (config : Config F) (opp : Opportunity) : TokenId :=
  match opp.kind,opp.liquidation with
  | .liquidation,some leg => leg.debtType
  | _,_ => config.baseToken

/-- A liquidation refreshes the prices of two coins. -/
def oracleFees (config : Config F) (opp : Opportunity) : ℕ := if opp.kind = .liquidation then 2 * config.pythFee.val else 0

theorem loanSize_arb (kind : opp.kind ≠ .liquidation) : loanSize opp = opp.inputAmount := by
  unfold loanSize
  split
  next liquidation _ => exact absurd liquidation kind
  next => rfl

theorem loanToken_arb (kind : opp.kind ≠ .liquidation) : loanToken config opp = config.baseToken := by
  unfold loanToken
  split
  next liquidation _ => exact absurd liquidation kind
  next => rfl

/-- The block of a loan of the size, the profit and the debt that the configuration asks for. -/
def marketLoan [F64 F] (config : Config F) (opp : Opportunity) (market : ObjectId) (T : TypeTag) (version lender : ObjectArg)
    (first middle : List Command) (coin : Argument) : LoanBlock :=
  marketBlock market version lender T (loanSize opp) (configuredMin config opp)
    (saturatingAdd (loanSize opp) (quoteFeeBps (loanSize opp) config.flashFeeBps)) first middle coin

/-- A block that the market finances is one of its loans. -/
theorem buildPtb_market [F64 F] (published : node.objectId config.packageId = .ok package)
    (scallop : node.objectId config.scallopPackageId = .ok market)
    (financed : opp.kind = .liquidation ∨ config.flashProvider = "scallop")
    (built : buildPtb node config opp refs floors sender = .ok pt) :
    ∃ T version lender first middle coin, node.typeTag (loanToken config opp) = .ok T ∧
      pt = (marketLoan config opp market T version lender first middle coin).commands package sender ∧
      spent pt = oracleFees config opp ∧ (∀ c ∈ first, c.settles = false) ∧ (∀ c ∈ middle, Discreet first.length c) ∧
      coin.command ≠ some first.length := by
  simp only [buildPtb,bind_ok,context_ok] at built
  obtain ⟨baseType,base,pkg,found,built⟩ := built
  obtain rfl : package = pkg := Except.ok.inj (published.symm.trans found)
  unfold marketLoan
  by_cases kind : opp.kind = .liquidation
  · rw [if_pos kind] at built
    simp only [buildLiquidationPtb,bind_ok,orBail_ok,context_ok,Prod.exists] at built
    obtain ⟨leg,liquidation,debtType,debt,collateralType,-,provider,named,plan,-,lref,aToB,-,debtPi,-,collPi,-,debtFeed,-,
      collFeed,-,accumulatorMsg,-,vaaBytes,-,debtInfo,-,collInfo,-,pkg,again,scallopPackage,there,version,-,obligation,-,
      lender,-,registry,-,xOracle,-,wormholePackage,-,pythPackage,-,wormholeState,-,pythState,-,built⟩ := built
    obtain rfl : package = pkg := Except.ok.inj (published.symm.trans again)
    obtain rfl : market = scallopPackage := Except.ok.inj (scallop.symm.trans there)
    obtain ⟨prices,middle,coin,same,fees,quiet⟩ := buildLiquidation_market built
    have token : loanToken config opp = leg.debtType := by simp only [loanToken,kind,liquidation]
    have size : loanSize opp = leg.repayAmount := by simp only [loanSize,kind,liquidation]
    rw [token,size,configuredMin,if_pos kind,oracleFees,if_pos kind,← repayTotal_eq named]
    exact ⟨debtType,version,lender,prices,middle,coin,debt,same,fees,quiet⟩
  · rw [if_neg kind] at built
    have provider : flashProvider config =
        .ok (.scallop config.scallopPackageId config.flashLenderId config.flashVersionId config.flashFeeBps) := by
      simp [flashProvider,Flashloan.providerFrom,financed.resolve_left kind,orBail]
    simp only [buildFlashPtb,provider,ok_bind,bind_ok] at built
    obtain ⟨hops,-,lender,-,objects,provided,built⟩ := built
    simp only [FlashLoanProvider.style,providerObjects,scallop,ok_bind,bind_ok,pure_ok] at provided
    obtain ⟨version,-,rfl⟩ := provided
    obtain ⟨version,swaps,coin,same,free,discreet⟩ := build_market rfl built
    rw [loanToken_arb kind,loanSize_arb kind,configuredMin,if_neg kind,oracleFees,if_neg kind,← repayTotal_eq provider]
    exact ⟨baseType,version,lender,[],swaps,coin,base,same,free,List.forall_mem_nil _,discreet⟩

theorem buildPtb_market_landed [F64 F] (published : node.objectId config.packageId = .ok package)
    (scallop : node.objectId config.scallopPackageId = .ok market)
    (financed : opp.kind = .liquidation ∨ config.flashProvider = "scallop")
    (built : buildPtb node config opp refs floors sender = .ok pt)
    (confined : venues.Confined sender) (lending : LendingMarket venues sender market) (before : Move.World) :
    ∃ T version lender first middle coin, node.typeTag (loanToken config opp) = .ok T ∧
      pt = (marketLoan config opp market T version lender first middle coin).commands package sender ∧
      (Move.commit (venues.chain package sender) before pt = before ∨
        ∃ final, LoanOutcome (venues.chain package sender) (marketLoan config opp market T version lender first middle coin)
          (loanSize opp) (oracleFees config opp) before (Move.commit (venues.chain package sender) before pt) final) := by
  obtain ⟨T,version,lender,first,middle,coin,token,rfl,fees,quiet,discreet,other⟩ := buildPtb_market published scallop financed built
  refine ⟨T,version,lender,first,middle,coin,token,rfl,?_⟩
  have lent : (marketLoan config opp market T version lender first middle coin).Lent (venues.chain package sender) (loanSize opp) :=
    marketBlock_lent lending quiet discreet other
  unfold Move.commit attempt
  split
  next after landed =>
    right
    obtain ⟨final,outcome⟩ := Move.loan_outcome (venues_spare confined lending) lent landed
    exact ⟨final,fees ▸ outcome⟩
  next => exact .inl rfl

/-- A transaction that the market finances, arbitrage or liquidation, changes nothing or has
passed its gate and repaid the loan, and the sender has the rest. But for the two fees, of the
loan and of the oracle, it has the minimum profit more of the coin that was lent; and of no
coin, whatever runs outside our modules, has it lost more than the fees of the oracle. -/
theorem buildPtb_market_outcome [F64 F] (published : node.objectId config.packageId = .ok package)
    (scallop : node.objectId config.scallopPackageId = .ok market)
    (financed : opp.kind = .liquidation ∨ config.flashProvider = "scallop")
    (built : buildPtb node config opp refs floors sender = .ok pt)
    (confined : venues.Confined sender) (lending : LendingMarket venues sender market) (before : Move.World) :
    ∃ T version lender first middle coin after, node.typeTag (loanToken config opp) = .ok T ∧
      pt = (marketLoan config opp market T version lender first middle coin).commands package sender ∧
      Move.commit (venues.chain package sender) before pt = after ∧
      (after = before ∨ ∃ final,
        LoanOutcome (venues.chain package sender) (marketLoan config opp market T version lender first middle coin) (loanSize opp)
          (oracleFees config opp) before after final ∧
        before.holds sender T + (configuredMin config opp).val ≤
          after.holds sender T + (quoteFeeBps (loanSize opp) config.flashFeeBps).val + oracleFees config opp ∧
        ∀ U, before.holds sender U ≤ after.holds sender U + oracleFees config opp) := by
  obtain ⟨T,version,lender,first,middle,coin,token,same,landed⟩ :=
    buildPtb_market_landed published scallop financed built confined lending before
  refine ⟨T,version,lender,first,middle,coin,_,token,same,rfl,landed.imp_right fun reached => ?_⟩
  obtain ⟨final,outcome⟩ := reached
  have owed : (saturatingAdd (loanSize opp) (quoteFeeBps (loanSize opp) config.flashFeeBps)).val ≤
      (loanSize opp).val + (quoteFeeBps (loanSize opp) config.flashFeeBps).val := by
    rw [saturatingAdd_val]
    exact min_le_left _ _
  have earns := outcome.earns owed
  exact ⟨final,outcome,earns,outcome.holds⟩

end Executor

/-! A market that lends without a condition and pays eleven for ten of a debt. -/
section eleven

/-- What the calls of a block are answered with, beside the coin they are passed. -/
def marketReply (c : MoveCall) (values : List Move.Value) : Except Move.Failure (List Move.Value) :=
  if c.function = ScallopPins.borrowFn then
    match c.typeArguments,c.arguments.getLast? with
    | [T],some (.pure (.u64 amount)) => .ok [.coin T amount,.foreign "FlashLoan" amount.val]
    | _,_ => .error .argument
  else if c.function = ScallopPins.repayFn then
    match values with
    | [.coin _ paid,.foreign _ lent] => if lent ≤ paid.val then .ok [] else .error .argument
    | _ => .error .argument
  else if c.function = ScallopPins.liquidateFn then
    match c.typeArguments,values with
    | [debt,collateral],[.coin _ repaid] => .ok [.coin debt 0,.coin collateral (repaid / 10 * 11)]
    | _,_ => .error .argument
  else if c.function = "destroy" then .ok []
  else .ok [.foreign c.function 0]

def marketVenues : Venues :=
  {Ptb.mixedVenues with elsewhere := fun world c values => (marketReply c values).map fun row => (world,row)}

theorem marketVenues_confined (sender : Address) : marketVenues.Confined sender where
  flashSwap := (Ptb.mixedVenues_confined sender).flashSwap
  repayFlashSwap := (Ptb.mixedVenues_confined sender).repayFlashSwap
  swapWithReturn := (Ptb.mixedVenues_confined sender).swapWithReturn

theorem marketVenues_lending (sender : Address) (market : ObjectId) : LendingMarket marketVenues sender market where
  apart world c values after row ran := by
    obtain ⟨paid,-,same⟩ := map_ok.mp ran
    obtain ⟨rfl,-⟩ := Prod.mk.inj same
    exact ⟨rfl,rfl,rfl,fun _ => le_rfl⟩
  lends world T arguments amount values after row last ran := by
    obtain ⟨paid,replied,same⟩ := map_ok.mp ran
    obtain ⟨-,rfl⟩ := Prod.mk.inj same
    simp only [marketReply,if_true,last] at replied
    rw [← Except.ok.inj replied]
    rfl

end eleven

namespace Executor

def seizedLeg : LiquidationLeg := ⟨.scallop,"0x11",Move.sui,Move.usdc,1000,[]⟩

def seizedOpp : Opportunity where
  kind := .liquidation
  liquidation := some seizedLeg
  route := [⟨"0x12",.cetus,Move.usdc,Move.sui,true⟩]
  inputAmount := 1000
  outputAmount := 1089
  hopOutputs := [1089]
  grossProfit := 89
  flashFee := 3
  netProfit := 86

def marketConfig (flashFeeBps : U64) : Config ℚ :=
  {vaultConfig flashFeeBps with
    flashProvider := "scallop"
    scallopPackageId := "0xd"
    pythPriceInfoObjects := [Move.sui ++ "=0x21",Move.usdc ++ "=0x22"]
    pythFeedIds := [Move.sui ++ "=0xf1",Move.usdc ++ "=0xf2"]}

/-- The node has an accumulator message with a one-byte VAA. -/
def oracleNode : Node := {plainNode with fetchPythAccumulator := fun _ _ => .ok [80,78,65,85,1,0,0,0,0,1,7]}

def debtWorld : Move.World := ⟨.empty,.empty,fun _ _ => 0,2000⟩

def seizedPtb : Anyhow (List Command) :=
  buildPtb oracleNode (marketConfig 30) seizedOpp [(⟨.cetus,"0x12",Move.usdc,Move.sui,none⟩,true)] [1080] "0xb"

/-- A liquidation lands, and costs the two fees of the oracle. -/
theorem buildPtb_market_outcome_liquidation : ∃ pt version lender first middle coin final, seizedPtb = .ok pt ∧
    pt = (marketLoan (marketConfig 30) seizedOpp "0xd" Move.sui version lender first middle coin).commands "0xa" "0xb" ∧
    LoanOutcome (marketVenues.chain "0xa" "0xb") (marketLoan (marketConfig 30) seizedOpp "0xd" Move.sui version lender first middle coin)
      1000 2 debtWorld (Move.commit (marketVenues.chain "0xa" "0xb") debtWorld pt) final := by
  have moves : (seizedPtb.toOption.map fun pt => decide ((Move.commit (marketVenues.chain "0xa" "0xb") debtWorld pt).gas = 2000)) =
      some false := by decide +kernel
  obtain ⟨pt,built,changed⟩ := Option.map_eq_some_iff.mp moves
  have built : seizedPtb = .ok pt := toOption_some.mp built
  obtain ⟨T,version,lender,first,middle,coin,after,token,same,committed,landed⟩ := buildPtb_market_outcome
    (show oracleNode.objectId (marketConfig 30).packageId = .ok "0xa" from rfl)
    (show oracleNode.objectId (marketConfig 30).scallopPackageId = .ok "0xd" from rfl) (.inl rfl) built
    (marketVenues_confined "0xb") (marketVenues_lending "0xb" "0xd") debtWorld
  obtain rfl : Move.sui = T := Except.ok.inj token
  rcases landed with unchanged | ⟨final,outcome,-,-⟩
  · rw [committed,unchanged] at changed
    cases changed
  · exact ⟨pt,version,lender,first,middle,coin,final,built,same,committed ▸ outcome⟩

end Executor

namespace Live

section safety
variable {F : Type} [SignedF64 F] {build : Build} {world : World F} {config : LiveConfig F} {venues : Venues}
  {baseType : TypeTag} {package market : ObjectId} {sender : Address}

/-- The configuration names the published package, a coin, a sender and the market, which lends. -/
structure MarketConfigured (world : World F) (config : LiveConfig F) (baseType : TypeTag) (package market : ObjectId)
    (sender : Address) : Prop where
  base : ∀ history, (world.node history).typeTag config.baseToken = .ok baseType
  package : ∀ history, (world.node history).objectId config.packageId = .ok package
  market : ∀ history, (world.node history).objectId config.scallopPackageId = .ok market
  sender : world.parseAddress config.senderAddress = .ok sender
  lender : config.flashProvider = "scallop"

/-- A transaction of a run that has landed, where the market lends. -/
inductive MarketLanded (build : Build) (world : World F) (config : LiveConfig F) (venues : Venues) (baseType : TypeTag)
    (package market : ObjectId) (trace : History F) (tx : TransactionData) (before after : Move.World) : Prop
  | loan (earlier history : History F) (opp : Opportunity) (refs : List (Executor.LivePoolRef × Bool)) (version lender : ObjectArg)
      (first middle : List Command) (coin : Argument) (final : U64) (chose : Chose build world config trace earlier opp)
      (built : Executor.buildPtb (world.node history) config.toConfig opp refs
        (opp.hopOutputs.map fun out => applySlippageFloor out config.perHopSlippageBps) tx.sender = .ok tx.pt)
      (same : tx.pt = (Executor.marketLoan config.toConfig opp market baseType version lender first middle coin).commands package
        tx.sender)
      (outcome : LoanOutcome (venues.chain package tx.sender)
        (Executor.marketLoan config.toConfig opp market baseType version lender first middle coin) opp.inputAmount 0 before after final)
  | owned (landed : Landed build world config venues baseType package trace tx before after)

theorem MarketLanded.holds {trace : History F} {tx : TransactionData} {before after : Move.World}
    (landed : MarketLanded build world config venues baseType package market trace tx before after) (T : TypeTag) :
    before.holds tx.sender T ≤ after.holds tx.sender T := by
  cases landed with
  | owned landed => exact landed.holds T
  | loan _ _ _ _ _ _ _ _ _ _ _ _ _ outcome => exact outcome.holds T

theorem Composes.lands_market {trace : History F} {tx : TransactionData} (composed : Composes build world config trace tx)
    (configured : MarketConfigured world config baseType package market sender) (confined : venues.Confined sender)
    (lending : LendingMarket venues sender market) (before : Move.World) :
    Move.commit (venues.chain package sender) before tx.pt = before ∨
      MarketLanded build world config venues baseType package market trace tx before
        (Move.commit (venues.chain package sender) before tx.pt) := by
  obtain rfl := composed.sent_by configured.sender
  cases composed with
  | flash earlier history opp refs chose counted parsed built =>
    have kind : opp.kind ≠ .liquidation := by
      obtain ⟨route,-,input,evaluated⟩ := findBest_some chose.found
      obtain ⟨outs,output,-,-,-,rfl,-⟩ := evaluateInput_some.mp evaluated
      simp [opportunityAt]
    obtain ⟨T,version,lender,first,middle,coin,token,same,landed⟩ := Executor.buildPtb_market_landed (configured.package history)
      (configured.market history) (.inr configured.lender) built confined lending before
    rw [Executor.loanToken_arb kind] at token
    obtain rfl : baseType = T := Except.ok.inj ((configured.base history).symm.trans token)
    rcases landed with unchanged | ⟨final,outcome⟩
    · exact .inl unchanged
    · rw [Executor.loanSize_arb kind,Executor.oracleFees,if_neg kind] at outcome
      exact .inr (.loan earlier history opp refs version lender first middle coin final chose built same outcome)
  | owned earlier history opp refs size hopOuts chose quoted counted parsed built =>
    have length : hopOuts.length = opp.route.length := collect_length (simulateCollect_some.mp quoted).2
    rcases Executor.buildOwnedPtb_outcome (configured.base history) (configured.package history)
        (by simp [counted,length]) built confined before with unchanged | ⟨sui,final,outcome⟩
    · exact .inl unchanged
    · exact .inr (.owned (.owned earlier history opp refs size hopOuts final chose quoted built sui outcome))

end safety

namespace Wallet

/-- The wallet with flash arbitrage and the market as its lender. -/
def marketConfig : LiveConfig ℚ :=
  {config with
    toConfig := Executor.marketConfig 0
    executionMode := .flash
    flashEnabled := true}

end Wallet

end Live

end SuiArbitrage.Rust
