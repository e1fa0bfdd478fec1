import SuiArbitrage.Move.MixedRoutes
import SuiArbitrage.Rust.LiquidationTyping

/-! Blocks over any mix of venues. The builders lower a route to guarded swaps, so that what
executing the block then does is bounded, whatever the packages of the venues do. -/
namespace SuiArbitrage.Rust.Ptb
open MachineWord Fallible Scanner Flashloan Builder
open Move (Chain World Venues HopCall Swapper Guarded FlashTrade OwnedTrade FlashOutcome OwnedOutcome TypeTag ObjectId Address
  ObjectArg Command Argument Machine execute commit swapperCommands swappedCoin)

/-- The arguments of an adapter stand around the coin. -/
inductive Around (minOut : U64) : Dex → List Argument → List Argument → Prop
  | ammV2 (pool : ObjectArg) : Around minOut .ammV2 [.object pool] [.pure (.u64 minOut)]
  | cetus (config pool clock : ObjectArg) :
      Around minOut .cetus [.object config,.object pool] [.pure (.u64 minOut),.object clock]
  | turbos (pool clock versioned : ObjectArg) :
      Around minOut .turbos [.object pool] [.pure (.u64 minOut),.object clock,.object versioned]

theorem Around.plain {minOut : U64} {dex : Dex} {front back : List Argument} (around : Around minOut dex front back) :
    (∀ argument ∈ front, argument.command = none) ∧ ∀ argument ∈ back, argument.command = none := by
  cases around <;> simp [Argument.command]

theorem swapArguments_around {resolved : ResolvedHop} {coin : Argument} {arguments : List Argument}
    (given : swapArguments resolved coin = .ok arguments) :
    ∃ front back, Around resolved.minOut resolved.dex front back ∧ arguments = front ++ coin :: back := by
  unfold swapArguments at given
  cases venue : resolved.dex with
  | ammV2 =>
    rw [venue] at given
    obtain rfl := Except.ok.inj given
    exact ⟨_,_,.ammV2 resolved.pool,rfl⟩
  | cetus =>
    simp only [venue,bind_ok,pure_ok] at given
    obtain ⟨config,-,clock,-,rfl⟩ := given
    exact ⟨_,_,.cetus config resolved.pool clock,rfl⟩
  | turbos =>
    simp only [venue,bind_ok,pure_ok] at given
    obtain ⟨clock,-,versioned,-,rfl⟩ := given
    exact ⟨_,_,.turbos resolved.pool clock versioned,rfl⟩

section lowering
variable {venues : Venues} {package : ObjectId} {sender : Address} {minOut : U64} {front back : List Argument}

theorem callee_adapter (dex : Dex) (aToB : Bool) (typeArgs : List TypeTag) (arguments : List Argument) :
    (venues.chain package sender).callee ⟨package,adapterModule dex,adapterFunction aToB,typeArgs,arguments⟩ =
      if dex = .ammV2 then .swap aToB else .outside := by
  cases dex <;> cases aToB <;> simp [Venues.chain,Chain.callee,adapterModule,adapterFunction]

/-- An adapter that is passed the arguments of another one refuses them. -/
theorem crossed_refused {dex venue : Dex} (around : Around minOut dex front back) (crossed : dex ≠ venue) (aToB : Bool)
    (typeArgs : List TypeTag) (m : Machine) (coin : Argument) (T : TypeTag) (amount : U64) (result : coin.command.isSome)
    (held : m.peek coin = some (.coin T amount)) :
    m.step (venues.chain package sender)
      (.moveCall ⟨package,adapterModule venue,adapterFunction aToB,typeArgs,front ++ coin :: back⟩) = .error .argument := by
  have callee : (venues.chain package sender).callee
      ⟨package,adapterModule venue,adapterFunction aToB,typeArgs,front ++ coin :: back⟩ =
      if venue = .ammV2 then .swap aToB else .outside := callee_adapter venue aToB typeArgs _
  have taken := Move.takeValues_coin front result held around.plain.1 around.plain.2
  by_cases own : venue = .ammV2
  · subst own
    rw [if_pos rfl] at callee
    have refused : m.invoke (venues.chain package sender)
        ⟨package,adapterModule .ammV2,adapterFunction aToB,typeArgs,front ++ coin :: back⟩ = .error .argument := by
      unfold Machine.invoke
      rw [callee]
      cases around with
      | ammV2 => exact absurd rfl crossed
      | cetus => simp
      | turbos => simp
    rw [Machine.step,refused,error_bind]
  · rw [if_neg own] at callee
    have outside : (venues.chain package sender).outside m.world
        ⟨package,adapterModule venue,adapterFunction aToB,typeArgs,front ++ coin :: back⟩ [.coin T amount] =
        .error .argument := by
      cases venue with
      | ammV2 => exact absurd rfl own
      | cetus =>
        cases around with
        | cetus => exact absurd rfl crossed
        | ammV2 => simp [Venues.chain,Venues.outside,adapterModule]
        | turbos =>
          cases coin with
          | result => simp [Venues.chain,Venues.outside,adapterModule]
          | nestedResult => simp [Venues.chain,Venues.outside,adapterModule]
          | gasCoin => cases result
          | pure => cases result
          | object => cases result
      | turbos =>
        cases around with
        | turbos => exact absurd rfl crossed
        | ammV2 => simp [Venues.chain,Venues.outside,adapterModule]
        | cetus => simp [Venues.chain,Venues.outside,adapterModule]
    have refused : m.step (venues.chain package sender)
        (.moveCall ⟨package,adapterModule venue,adapterFunction aToB,typeArgs,front ++ coin :: back⟩) =
        (Except.error Move.Failure.argument).map (m.exchanged coin) := Move.step_outside callee taken outside
    exact refused

/-- Every call that a builder makes of an adapter is a guarded swap. -/
theorem around_guarded (confined : venues.Confined sender) {dex : Dex} (around : Around minOut dex front back) (venue : Dex)
    (aToB : Bool) (typeArgs : List TypeTag) :
    ∃ swap : Swapper (venues.chain package sender), Guarded minOut swap ∧ ∀ coin, swap.command coin =
      .moveCall ⟨package,adapterModule venue,adapterFunction aToB,typeArgs,front ++ coin :: back⟩ := by
  by_cases same : dex = venue
  · subst same
    cases around with
    | ammV2 pool => exact ⟨_,HopCall.guarded confined (.ammV2 ⟨aToB,typeArgs,pool,minOut⟩),fun _ => rfl⟩
    | cetus config pool clock =>
      exact ⟨_,HopCall.guarded confined (.cetus aToB typeArgs config pool clock minOut),fun _ => rfl⟩
    | turbos pool clock versioned =>
      exact ⟨_,HopCall.guarded confined (.turbos aToB typeArgs pool clock versioned minOut),fun _ => rfl⟩
  · refine ⟨⟨_,fun _ _ _ => .error .argument,crossed_refused around same aToB typeArgs⟩,?_,fun _ => rfl⟩
    intro world T amount after T' out traded
    cases traded

variable (package) in
theorem lowerSwap_guarded (confined : venues.Confined sender) {commands after : List Command} {coin last : Argument} {hop : Hop}
    {resolved : ResolvedHop}
    (ran : (lowerSwap package coin (.swap (adapterCall hop).1 (adapterCall hop).2 hop.poolId 0,resolved)).run commands =
      .ok (last,after)) :
    ∃ swap : Swapper (venues.chain package sender), Guarded resolved.minOut swap ∧ last = .result commands.length ∧
      after = commands ++ [swap.command coin] := by
  obtain ⟨arguments,given,rfl,rfl⟩ := lowerSwap_ok ran
  obtain ⟨front,back,around,rfl⟩ := swapArguments_around given
  obtain ⟨swap,guarded,command⟩ := around_guarded confined around hop.dex hop.aToB resolved.typeArgs
  exact ⟨swap,guarded,rfl,by rw [command]⟩

/-- A route is lowered to guarded swaps, each on the coin of the one before. -/
theorem foldlM_guarded (confined : venues.Confined sender) {route : List Hop} {hops : List ResolvedHop}
    (counted : route.length = hops.length) {commands after : List Command} {coin last : Argument}
    (ran : (((pushSwaps route).zip hops).foldlM (lowerSwap package) coin).run commands = .ok (last,after)) :
    ∃ swaps : List (Swapper (venues.chain package sender)), List.Forall₂ Guarded (hops.map ResolvedHop.minOut) swaps ∧
      last = swappedCoin commands.length coin swaps ∧ after = commands ++ swapperCommands commands.length coin swaps := by
  induction route generalizing hops coin commands with
  | nil =>
    obtain rfl := List.eq_nil_of_length_eq_zero counted.symm
    cases ran
    exact ⟨[],.nil,rfl,(List.append_nil _).symm⟩
  | cons hop route ih =>
    cases hops with
    | nil => cases counted
    | cons resolved hops =>
      rw [show pushSwaps (hop :: route) =
        .swap (adapterCall hop).1 (adapterCall hop).2 hop.poolId 0 :: pushSwaps route from rfl,
        List.zip_cons_cons,List.foldlM_cons,run_bind] at ran
      obtain ⟨next,middle,swapped,ran⟩ := ran
      obtain ⟨swap,here,rfl,rfl⟩ := lowerSwap_guarded package confined swapped
      obtain ⟨swaps,guarded,rfl,rfl⟩ := ih (Nat.succ.inj counted) ran
      refine ⟨swap :: swaps,.cons here guarded,?_,?_⟩
      · simp [swappedCoin]
      · simp [swapperCommands]

theorem lowerSwaps_guarded (confined : venues.Confined sender) {plan : List PtbStep} {route : List Hop} {hops : List ResolvedHop}
    (planned : plan.filter PtbStep.isSwap = pushSwaps route) {commands after : List Command} {coin last : Argument}
    (ran : (lowerSwaps package plan hops coin).run commands = .ok (last,after)) :
    ∃ swaps : List (Swapper (venues.chain package sender)), List.Forall₂ Guarded (hops.map ResolvedHop.minOut) swaps ∧
      last = swappedCoin commands.length coin swaps ∧ after = commands ++ swapperCommands commands.length coin swaps := by
  by_cases counted : (plan.filter PtbStep.isSwap).length = hops.length
  · rw [lowerSwaps,if_pos counted,planned] at ran
    rw [planned,pushSwaps,List.length_map] at counted
    exact foldlM_guarded confined counted ran
  · exact absurd ran (lowerSwaps_mismatch counted)

end lowering

section blocks
variable (venues : Venues) {opp : Opportunity} {commands : List Command}

theorem build_guarded {provider : FlashLoanProvider} {inputs : BuildInputs} {minProfit : U64}
    (confined : venues.Confined inputs.sender) (vault : inputs.flashStyle = .mockVault)
    (lender : inputs.providerPackage = inputs.package) (built : build (flashArbPlan provider opp minProfit) inputs = .ok commands) :
    ∃ swaps, List.Forall₂ Guarded (inputs.hops.map ResolvedHop.minOut) swaps ∧
      commands = FlashTrade.block (⟨inputs.baseType,inputs.lender,inputs.amount,inputs.minProfit,swaps⟩ :
        FlashTrade (venues.chain inputs.package inputs.sender)) := by
  simp only [build,finish_ok,run_bind,flashBorrow,vault,call,run_command,flashRepay,lender] at built
  obtain ⟨_,_,_,⟨rfl,rfl⟩,_,_,⟨rfl,rfl⟩,coin,_,ran,_,_,⟨rfl,rfl⟩,_,_,⟨rfl,rfl⟩,-,rfl⟩ := built
  obtain ⟨swaps,guarded,rfl,rfl⟩ := lowerSwaps_guarded confined (flashArbPlan_swaps provider opp minProfit) ran
  refine ⟨swaps,guarded,?_⟩
  simp [FlashTrade.block,FlashTrade.frame,Move.FlashArb.opening,Move.FlashArb.closing,nested,Move.length_swapperCommands]
  omega

theorem buildOwned_guarded {inputs : OwnedInputs} {minProfit : U64} {sender : Address} (confined : venues.Confined sender)
    (built : buildOwned (ownedArbPlan opp minProfit) inputs = .ok commands) :
    ∃ swaps, List.Forall₂ Guarded (inputs.hops.map ResolvedHop.minOut) swaps ∧
      commands = OwnedTrade.block (⟨inputs.baseType,inputs.amount,inputs.minProfit,swaps⟩ :
        OwnedTrade (venues.chain inputs.package sender)) := by
  simp only [buildOwned,finish_ok,run_bind,call,run_command] at built
  obtain ⟨_,_,_,⟨rfl,rfl⟩,_,_,⟨rfl,rfl⟩,coin,_,ran,-,rfl⟩ := built
  obtain ⟨swaps,guarded,rfl,rfl⟩ := lowerSwaps_guarded confined (ownedArbPlan_swaps opp minProfit) ran
  refine ⟨swaps,guarded,?_⟩
  simp [OwnedTrade.block,nested]

/-- Whatever the packages of the venues do with what they are passed: the block fails and
nothing has changed, or every hop has paid its floor, the loan and its fee are back in the
vault, and what is left is the sender's. -/
theorem build_outcome {provider : FlashLoanProvider} {inputs : BuildInputs} {minProfit : U64}
    (confined : venues.Confined inputs.sender) (vault : inputs.flashStyle = .mockVault)
    (lender : inputs.providerPackage = inputs.package) (built : build (flashArbPlan provider opp minProfit) inputs = .ok commands)
    (world : World) :
    (∃ failure, execute (venues.chain inputs.package inputs.sender) world commands = .error failure ∧
      commit (venues.chain inputs.package inputs.sender) world commands = world) ∨
    ∃ after final fee, commit (venues.chain inputs.package inputs.sender) world commands = after ∧
      FlashOutcome (venues.chain inputs.package inputs.sender) commands inputs.baseType inputs.lender.id inputs.amount
        inputs.minProfit (inputs.hops.map ResolvedHop.minOut) world after final fee := by
  obtain ⟨swaps,guarded,rfl⟩ := build_guarded venues confined vault lender built
  rw [commit,attempt]
  cases landed : execute (venues.chain inputs.package inputs.sender) world (FlashTrade.block
      (⟨inputs.baseType,inputs.lender,inputs.amount,inputs.minProfit,swaps⟩ :
        FlashTrade (venues.chain inputs.package inputs.sender))) with
  | error failure => exact .inl ⟨failure,rfl,rfl⟩
  | ok after =>
    obtain ⟨final,fee,outcome⟩ := Move.flash_outcome guarded landed
    exact .inr ⟨after,final,fee,rfl,outcome⟩

/-- The same of the sender's own coin: only SUI can be split off the gas coin, and it is back
with the profit or the block has changed nothing. -/
theorem buildOwned_outcome {inputs : OwnedInputs} {minProfit : U64} {sender : Address} (confined : venues.Confined sender)
    (built : buildOwned (ownedArbPlan opp minProfit) inputs = .ok commands) (world : World) :
    (∃ failure, execute (venues.chain inputs.package sender) world commands = .error failure ∧
      commit (venues.chain inputs.package sender) world commands = world) ∨
    inputs.baseType = Move.sui ∧ ∃ after final, commit (venues.chain inputs.package sender) world commands = after ∧
      OwnedOutcome (venues.chain inputs.package sender) commands inputs.amount inputs.minProfit
        (inputs.hops.map ResolvedHop.minOut) world after final := by
  obtain ⟨swaps,guarded,rfl⟩ := buildOwned_guarded venues confined built
  rw [commit,attempt]
  cases landed : execute (venues.chain inputs.package sender) world (OwnedTrade.block
      (⟨inputs.baseType,inputs.amount,inputs.minProfit,swaps⟩ : OwnedTrade (venues.chain inputs.package sender))) with
  | error failure => exact .inl ⟨failure,rfl,rfl⟩
  | ok after =>
    obtain ⟨base,final,outcome⟩ := Move.owned_outcome guarded landed
    exact .inr ⟨base,after,final,rfl,outcome⟩

end blocks

section mixed

/-- Two pools that are not ours: one takes a hundredth of what it trades, the other trades at
two for one and leaves nothing unspent. -/
def mixedVenues : Venues where
  cetus := {
    Receipt := U64
    flashSwap := fun world _ _ _ _ a2b _ amount _ _ =>
      let out := MachineWord.saturatingSub amount (amount / 100)
      .ok (world,if a2b then 0 else out,if a2b then out else 0,amount)
    swapPayAmount := id
    repayFlashSwap := fun world _ _ _ _ _ _ _ => .ok world
    minSqrtPrice := Move.Turbos.minSqrtPriceX64
    maxSqrtPrice := Move.Turbos.maxSqrtPriceX64 }
  turbos := {
    swapABWithReturn := fun world _ _ _ _ _ amount _ _ _ _ _ _ _ => .ok (world,amount * 2,0)
    swapBAWithReturn := fun world _ _ _ _ _ amount _ _ _ _ _ _ _ => .ok (world,amount / 2,0) }
  timestampMs := 0
  report := fun _ => .argument
  elsewhere := fun _ _ _ => .error .argument

theorem mixedVenues_confined (sender : Address) : mixedVenues.Confined sender := by
  have still (world : World) : Move.Apart sender world world := ⟨rfl,rfl,rfl,fun _ => le_rfl⟩
  refine ⟨?_,?_,?_⟩
  · intro world config pool A B a2b byAmountIn amount limit clock after recvA recvB receipt lent
    obtain ⟨rfl,-⟩ := Prod.mk.inj (Except.ok.inj lent)
    exact still world
  · intro world config pool A B payA payB receipt after repaid
    obtain rfl := Except.ok.inj repaid
    exact still world
  · intro aToB world pool A B feeType coins amount threshold limit isExactIn recipient deadline clock versioned after out change ran
    cases aToB with
    | true =>
      obtain ⟨rfl,-⟩ := Prod.mk.inj (Except.ok.inj ran)
      exact still world
    | false =>
      obtain ⟨rfl,-⟩ := Prod.mk.inj (Except.ok.inj ran)
      exact still world

def mixedWorld : World :=
  ⟨⟨[⟨Move.sui,Move.usdc,⟨"0x1",2000000,6000000,30⟩⟩],by decide⟩,⟨[⟨Move.sui,⟨"0xf",1000000,30⟩⟩],by decide⟩,fun _ _ => 0,2000⟩

def mixedVault : BuildInputs := {mixedInputs .mockVault mixedHops with providerPackage := "0xa"}

theorem build_outcome_mixed : ∃ commands after final fee,
    build (flashArbPlan (.mock "0xa" "0xf" 30) mixedOpp 10) mixedVault = .ok commands ∧
    commit (mixedVenues.chain "0xa" "0xb") mixedWorld commands = after ∧
    FlashOutcome (mixedVenues.chain "0xa" "0xb") commands Move.sui "0xf" 1000 10 (mixedHops.map ResolvedHop.minOut) mixedWorld after
      final fee := by
  have ran : ((build (flashArbPlan (.mock "0xa" "0xf" 30) mixedOpp 10) mixedVault).toOption.map
      fun commands => (execute (mixedVenues.chain "0xa" "0xb") mixedWorld commands).isOk) = some true := by decide +kernel
  obtain ⟨commands,built,executed⟩ := Option.map_eq_some_iff.mp ran
  have built := toOption_some.mp built
  rcases build_outcome mixedVenues (mixedVenues_confined "0xb") rfl rfl built mixedWorld with
    ⟨failure,failed,-⟩ | ⟨after,final,fee,committed,outcome⟩
  · have stopped : execute (mixedVenues.chain "0xa" "0xb") mixedWorld commands = .error failure := failed
    rw [stopped] at executed
    cases executed
  · exact ⟨commands,after,final,fee,built,committed,outcome⟩

theorem buildOwned_outcome_mixed : ∃ commands after final,
    buildOwned (ownedArbPlan mixedOpp 10) ⟨"0xa",Move.sui,1000,10,mixedHops⟩ = .ok commands ∧
    commit (mixedVenues.chain "0xa" "0xb") mixedWorld commands = after ∧
    OwnedOutcome (mixedVenues.chain "0xa" "0xb") commands 1000 10 (mixedHops.map ResolvedHop.minOut) mixedWorld after final := by
  have ran : ((buildOwned (ownedArbPlan mixedOpp 10) ⟨"0xa",Move.sui,1000,10,mixedHops⟩).toOption.map
      fun commands => (execute (mixedVenues.chain "0xa" "0xb") mixedWorld commands).isOk) = some true := by decide +kernel
  obtain ⟨commands,built,executed⟩ := Option.map_eq_some_iff.mp ran
  have built := toOption_some.mp built
  rcases buildOwned_outcome mixedVenues (mixedVenues_confined "0xb") built mixedWorld with
    ⟨failure,failed,-⟩ | ⟨-,after,final,committed,outcome⟩
  · have stopped : execute (mixedVenues.chain "0xa" "0xb") mixedWorld commands = .error failure := failed
    rw [stopped] at executed
    cases executed
  · exact ⟨commands,after,final,built,committed,outcome⟩

end mixed

end SuiArbitrage.Rust.Ptb
