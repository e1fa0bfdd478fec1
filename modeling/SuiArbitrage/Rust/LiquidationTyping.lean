import SuiArbitrage.Rust.PtbTyping

/-! The liquidation block is linear and well typed: the oracle's vector is handed from one
price update to the next and destroyed before the loan is taken, and what the liquidation
leaves of the debt coin joins the proceeds of the swap. -/
namespace SuiArbitrage.Rust.Ptb
open MachineWord Fallible Scanner Flashloan LinearContext Builder
open Move (TypeTag ObjectId ObjectArg Argument Command Kind Packages Env Slot Typed SettlesFirst sui)
open Executor (LivePoolRef resolveHop)

section oracle
variable {packages : Packages} {inputs : LiquidationInputs} {env : Env} {commands after : List Command} {hpv last : Argument}
  {place : ℕ × ℕ}

/-- One price update: a fee is split off the gas coin, and the vector goes in and comes out. -/
theorem updatePriceFeed_ok (pyth : packages.pyth = inputs.pythPackage) (gas : packages.gas = sui) {priceInfo : ObjectArg}
    (sized : env.length = commands.length) (there : env.slot hpv = some (place,.hotPotatoVector packages.priceInfo))
    (ran : (updatePriceFeed inputs hpv priceInfo).run commands = .ok (last,after)) :
    ∃ update rows out, after = commands ++ update ∧ (∀ c ∈ update, c.repays = false) ∧
      packages.Checks env {(place,.hotPotatoVector packages.priceInfo)} update rows {(out,.hotPotatoVector packages.priceInfo)} ∧
      Env.slot (env ++ rows) last = some (out,.hotPotatoVector packages.priceInfo) := by
  simp only [updatePriceFeed,call,run_bind,run_command] at ran
  rw [← pyth,← sized] at ran
  obtain ⟨_,_,⟨rfl,rfl⟩,rfl,rfl⟩ := ran
  have split : packages.typed env (.splitCoins .gasCoin [.pure (.u64 inputs.pythFee)]) = some ⟨[],[],[.coin sui]⟩ := by
    rw [← gas]
    rfl
  have paid : Env.slot (env ++ [[.coin sui]]) (.nestedResult env.length 0) = some ((env.length,0),.coin sui) := by
    simp [Env.slot]
  have typed : packages.typed (env ++ [[.coin sui]]) (.moveCall ⟨packages.pyth,"pyth","update_single_price_feed",[],
      [.object inputs.pythState,hpv,.object priceInfo,.nestedResult env.length 0,.object inputs.clock]⟩) =
      some ⟨[(place,.hotPotatoVector packages.priceInfo),((env.length,0),.coin sui)],[],
        [.hotPotatoVector packages.priceInfo]⟩ := by
    simp [Packages.typed,Packages.signature,Packages.oracleFunction,Move.accepts,Move.Parameter.accepts,paid,
      Move.Env.slot_append there]
  rw [List.append_assoc]
  refine ⟨_,[[.coin sui],[.hotPotatoVector packages.priceInfo]],(env.length + 1,0),rfl,?_,?_,?_⟩
  · intro c member
    rcases List.mem_cons.mp member with rfl | member
    · rfl
    · rw [List.mem_singleton.mp member]
      rfl
  · refine Move.checks_step {(place,.hotPotatoVector packages.priceInfo)} split (zero_add _).symm (Multiset.zero_le _) ?_
    have updated : packages.Checks (env ++ [[.coin sui]])
        ({((env.length,0),.coin sui)} + {(place,.hotPotatoVector packages.priceInfo)}) [_]
        [[.hotPotatoVector packages.priceInfo]] {(((env ++ [[Kind.coin sui]]).length,0),.hotPotatoVector packages.priceInfo)} :=
      Move.checks_step 0 typed (add_comm _ _) (Multiset.zero_le _) (Move.checks_nil _ _)
    rw [List.length_append] at updated
    exact updated
  · simp [Env.slot,← sized]

theorem updatePriceFeeds_ok (pyth : packages.pyth = inputs.pythPackage) (gas : packages.gas = sui) {priceInfos : List ObjectArg}
    (sized : env.length = commands.length) (there : env.slot hpv = some (place,.hotPotatoVector packages.priceInfo))
    (ran : (priceInfos.foldlM (updatePriceFeed inputs) hpv).run commands = .ok (last,after)) :
    ∃ updates rows out, after = commands ++ updates ∧ (∀ c ∈ updates, c.repays = false) ∧
      packages.Checks env {(place,.hotPotatoVector packages.priceInfo)} updates rows {(out,.hotPotatoVector packages.priceInfo)} ∧
      Env.slot (env ++ rows) last = some (out,.hotPotatoVector packages.priceInfo) := by
  induction priceInfos generalizing env hpv place commands with
  | nil =>
    cases ran
    refine ⟨[],[],place,(List.append_nil _).symm,?_,Move.checks_nil _ _,?_⟩
    · intro _ absent
      cases absent
    · rw [List.append_nil]
      exact there
  | cons priceInfo priceInfos ih =>
    rw [List.foldlM_cons,run_bind] at ran
    obtain ⟨next,middle,updated,ran⟩ := ran
    obtain ⟨update,rows,out,rfl,quiet,checks,found⟩ := updatePriceFeed_ok pyth gas sized there updated
    have longer : (env ++ rows).length = (commands ++ update).length := by
      rw [List.length_append,List.length_append,sized,checks.length]
    obtain ⟨updates,rows',out',rfl,quiet',checks',found'⟩ := ih longer found ran
    refine ⟨update ++ updates,rows ++ rows',out',List.append_assoc _ _ _,?_,checks.append checks',?_⟩
    · intro c member
      rcases List.mem_append.mp member with first | second
      · exact quiet c first
      · exact quiet' c second
    · rw [← List.append_assoc]
      exact found'

theorem destroy_typed (there : env.slot hpv = some (place,.hotPotatoVector packages.priceInfo)) :
    packages.typed env (.moveCall ⟨packages.pyth,"hot_potato_vector","destroy",[packages.priceInfo],[hpv]⟩) =
      some ⟨[(place,.hotPotatoVector packages.priceInfo)],[],[]⟩ := by
  simp [Packages.typed,Packages.signature,Packages.coinFunction,Move.accepts,Move.Parameter.accepts,there]

/-- The whole refresh leaves nothing behind: the vector is destroyed. -/
theorem updatePrices_ok (wormhole : packages.wormhole = inputs.wormholePackage) (pyth : packages.pyth = inputs.pythPackage)
    (gas : packages.gas = sui) (ran : (updatePrices inputs).run [] = .ok (last,after)) :
    (∀ c ∈ after, c.repays = false) ∧ ∃ rows, packages.Checks [] 0 after rows 0 := by
  simp only [updatePrices,call,run_bind,run_command] at ran
  rw [← wormhole,← pyth] at ran
  obtain ⟨_,_,⟨rfl,rfl⟩,_,_,⟨rfl,rfl⟩,hpv,_,updated,-,rfl⟩ := ran
  have verified : packages.typed [] (.moveCall ⟨packages.wormhole,"vaa","parse_and_verify",[],
      [.object inputs.wormholeState,.pure (.bytes inputs.vaaBytes),.object inputs.clock]⟩) = some ⟨[],[],[.vaa]⟩ := by
    simp [Packages.typed,Packages.signature,Packages.oracleFunction,Move.accepts,Move.Parameter.accepts]
  have created : packages.typed [[.vaa]] (.moveCall
      ⟨packages.pyth,"pyth","create_authenticated_price_infos_using_accumulator",[],
        [.object inputs.pythState,.pure (.bytes inputs.accumulatorMsg),.result 0,.object inputs.clock]⟩) =
      some ⟨[((0,0),.vaa)],[],[.hotPotatoVector packages.priceInfo]⟩ := by
    simp [Packages.typed,Packages.signature,Packages.oracleFunction,Move.accepts,Move.Parameter.accepts,Env.slot]
  let env : Env := [[.vaa],[.hotPotatoVector packages.priceInfo]]
  have there : env.slot (.result 1) = some ((1,0),.hotPotatoVector packages.priceInfo) := rfl
  obtain ⟨updates,rows,out,rfl,quiet,checks,found⟩ := updatePriceFeeds_ok pyth gas rfl there updated
  have destroyed := destroy_typed found
  have ends : packages.Checks (env ++ rows) {(out,.hotPotatoVector packages.priceInfo)} [_] [[]] 0 :=
    Move.checks_step 0 destroyed rfl (Multiset.zero_le _) (Move.checks_nil _ _)
  have creates : packages.Checks [[.vaa]] {((0,0),.vaa)} (_ :: (updates ++ [_])) (_ :: (rows ++ [[]])) 0 :=
    Move.checks_step 0 created rfl (Multiset.zero_le _) (checks.append ends)
  have verifies := Move.checks_step 0 verified rfl (Multiset.zero_le _) creates
  constructor
  · intro c member
    simp only [List.nil_append,List.mem_append,List.mem_singleton] at member
    rcases member with ((rfl | rfl) | inside) | rfl
    · rfl
    · rfl
    · exact quiet c inside
    · rfl
  · rw [List.append_assoc,List.append_assoc]
    exact ⟨_,verifies⟩

end oracle

section legs
variable {packages : Packages} {env rows : Env} {D C : TypeTag} {after frame : Multiset Slot} {commands : List Command}
  {coin other : Argument} {place held : ℕ × ℕ}

theorem loan_checked (version market : ObjectArg) (amount : U64)
    (checks : packages.Checks (env ++ [[.coin D,.flashLoan D]])
      ({((env.length,0),.coin D)} + ({((env.length,1),.flashLoan D)} + frame)) commands rows after) :
    packages.Checks env frame (.moveCall ⟨packages.lender,"flash_loan","borrow_flash_loan",[D],
      [.object version,.object market,.pure (.u64 amount)]⟩ :: commands) ([.coin D,.flashLoan D] :: rows) after := by
  have typed : packages.typed env (.moveCall ⟨packages.lender,"flash_loan","borrow_flash_loan",[D],
      [.object version,.object market,.pure (.u64 amount)]⟩) = some ⟨[],[],[.coin D,.flashLoan D]⟩ := by
    simp [Packages.typed,Packages.signature,Packages.coinFunction,Move.accepts,Move.Parameter.accepts]
  rw [← add_assoc] at checks
  exact Move.checks_step frame typed (zero_add _).symm (Multiset.zero_le _) checks

/-- The liquidation takes the loan and returns what it leaves of it and the seized collateral. -/
theorem liquidate_checked (version obligation market registry xOracle clock : ObjectArg)
    (there : env.slot coin = some (place,.coin D))
    (checks : packages.Checks (env ++ [[.coin D,.coin C]])
      ({((env.length,0),.coin D)} + ({((env.length,1),.coin C)} + frame)) commands rows after) :
    packages.Checks env ({(place,.coin D)} + frame) (.moveCall ⟨packages.lender,"liquidate","liquidate",[D,C],
      [.object version,.object obligation,.object market,coin,.object registry,.object xOracle,.object clock]⟩ :: commands)
      ([.coin D,.coin C] :: rows) after := by
  have typed : packages.typed env (.moveCall ⟨packages.lender,"liquidate","liquidate",[D,C],
      [.object version,.object obligation,.object market,coin,.object registry,.object xOracle,.object clock]⟩) =
      some ⟨[(place,.coin D)],[],[.coin D,.coin C]⟩ := by
    simp [Packages.typed,Packages.signature,Packages.pairFunction,Move.accepts,Move.Parameter.accepts,there]
  rw [← add_assoc] at checks
  exact Move.checks_step frame typed rfl (Multiset.zero_le _) checks

theorem merge_checked (there : env.slot coin = some (place,.coin D)) (left : env.slot other = some (held,.coin D))
    (checks : packages.Checks (env ++ [[]]) ({(place,.coin D)} + frame) commands rows after) :
    packages.Checks env ({(place,.coin D)} + ({(held,.coin D)} + frame)) (.mergeCoins coin [other] :: commands)
      ([] :: rows) after := by
  have typed : packages.typed env (.mergeCoins coin [other]) = some ⟨[(held,.coin D)],[(place,.coin D)],[]⟩ := by
    simp [Packages.typed,Move.coin_of_slot there,Move.accepts,Move.Parameter.accepts,left]
  refine Move.checks_step ({(place,.coin D)} + frame) typed ?_ (Multiset.le_add_right _ _) ?_
  · rw [← add_assoc,add_comm {(place,Kind.coin D)},add_assoc]
    rfl
  · rw [← zero_add ({(place,Kind.coin D)} + frame)] at checks
    exact checks

theorem swap_checked {tag : TokenId → TypeTag} {hop : Hop} {resolved : ResolvedHop} {arguments : List Argument}
    (resolves : Resolves tag hop resolved) (given : swapArguments resolved coin = .ok arguments)
    (there : env.slot coin = some (place,.coin (tag hop.tokenIn)))
    (checks : packages.Checks (env ++ [[.coin (tag hop.tokenOut)]])
      ({((env.length,0),.coin (tag hop.tokenOut))} + frame) commands rows after) :
    packages.Checks env ({(place,.coin (tag hop.tokenIn))} + frame) (.moveCall
      ⟨packages.arbitrage,adapterModule hop.dex,adapterFunction hop.aToB,resolved.typeArgs,arguments⟩ :: commands)
      ([.coin (tag hop.tokenOut)] :: rows) after :=
  Move.checks_step frame (swap_typed packages resolves given there) rfl (Multiset.zero_le _) checks

end legs

section body
variable {tag : TokenId → TypeTag} {inputs : LiquidationInputs} {hop : Hop} {env : Env} {arguments : List Argument}

theorem liquidationCommands_checked (resolves : Resolves tag hop inputs.swap)
    (given : swapArguments inputs.swap (.nestedResult (env.length + 2) 1) = .ok arguments)
    (debt : inputs.debtType = tag hop.tokenOut) (collateral : inputs.collateralType = tag hop.tokenIn) (packages : Packages)
    (arbitrage : packages.arbitrage = inputs.package) (lender : packages.lender = inputs.scallopPackage) :
    ∃ rows, packages.Checks env 0 (liquidationCommands inputs arguments env.length) rows 0 := by
  have venue : inputs.swap.dex = hop.dex ∧ inputs.swap.aToB = hop.aToB := by
    obtain ⟨lref,minOut,cetusCfg,turbosVer,references,same⟩ := resolves
    rw [same]
    exact ⟨references.dex,rfl⟩
  unfold liquidationCommands
  rw [← arbitrage,← lender,venue.1,venue.2,debt,collateral]
  let debtCoin : Kind := .coin (tag hop.tokenOut)
  refine ⟨[[debtCoin,.flashLoan (tag hop.tokenOut)],[debtCoin,.arbReceipt],[debtCoin,.coin (tag hop.tokenIn)],[debtCoin],[],
    [debtCoin],[debtCoin],[],[]],?_⟩
  refine loan_checked _ _ _ ?_
  refine begin_checked _ (by simp [Env.slot]) ?_
  refine liquidate_checked _ _ _ _ _ _ (by simp [Env.slot]) ?_
  rw [add_left_comm]
  refine swap_checked resolves given (by simp [Env.slot]) ?_
  refine merge_checked (by simp [Env.slot]) (by simp [Env.slot]) ?_
  refine settle_checked (by simp [Env.slot]) (by simp [Env.slot]) ?_
  rw [add_zero]
  exact loan_repaid _ _ _ _ (by simp [Env.slot]) (by simp [Env.slot]) (by simp) (by simp)

/-- The liquidation builder, for a swap from the collateral back to the debt. -/
theorem buildLiquidation_assembled {plan : List PtbStep} {commands : List Command} (resolves : Resolves tag hop inputs.swap)
    (debt : inputs.debtType = tag hop.tokenOut) (collateral : inputs.collateralType = tag hop.tokenIn) (packages : Packages)
    (arbitrage : packages.arbitrage = inputs.package) (lender : packages.lender = inputs.scallopPackage)
    (wormhole : packages.wormhole = inputs.wormholePackage) (pyth : packages.pyth = inputs.pythPackage)
    (gas : packages.gas = sui) (built : buildLiquidation plan inputs = .ok commands) : Assembled packages commands := by
  obtain ⟨last,prices,swapArgs,refreshed,given,rfl⟩ := buildLiquidation_ok built
  obtain ⟨quiet,rows,checks⟩ := updatePrices_ok wormhole pyth gas refreshed
  rw [← checks.length] at given ⊢
  obtain ⟨rows',checks'⟩ := liquidationCommands_checked resolves given debt collateral packages arbitrage lender
  refine ⟨⟨_,checks.append checks'⟩,?_⟩
  have opening : ∀ c ∈ prices ++ (liquidationCommands inputs swapArgs rows.length).take 5,c.repays = false := by
    intro c member
    rcases List.mem_append.mp member with inside | member
    · exact quiet c inside
    · simp only [liquidationCommands,List.take_succ_cons,List.take_zero,List.mem_cons,List.not_mem_nil,or_false] at member
      rcases member with rfl | rfl | rfl | rfl | rfl
      · rfl
      · rfl
      · rfl
      · exact adapter_quiet inputs.package inputs.swap.dex _ _ _
      · rfl
  simpa [liquidationCommands] using SettlesFirst.intro opening rfl rfl

end body

section blocks

/-- For every cycle and every liquidation with one hop: what the builders assemble is linear and
well typed and settles before it repays, and a plan for another number of swaps is refused. -/
theorem blocks_assembled (tag : TokenId → TypeTag) :
    (∀ pools base maxHops, ∀ opp : Opportunity, opp.route ∈ findCycles (buildAdjacency pools) base maxHops →
      (∀ provider minProfit inputs commands, List.Forall₂ (Resolves tag) opp.route inputs.hops → inputs.baseType = tag base →
        build (flashArbPlan provider opp minProfit) inputs = .ok commands →
        ∀ packages : Packages, packages.arbitrage = inputs.package → packages.lender = inputs.providerPackage →
          Assembled packages commands) ∧
      (∀ minProfit inputs commands, List.Forall₂ (Resolves tag) opp.route inputs.hops → inputs.baseType = tag base →
        buildOwned (ownedArbPlan opp minProfit) inputs = .ok commands →
        ∀ packages : Packages, packages.arbitrage = inputs.package → packages.gas = inputs.baseType →
          Assembled packages commands)) ∧
    (∀ provider minProfit plan inputs commands, ∀ opp : Opportunity, ∀ leg hop, opp.liquidation = some leg → opp.route = [hop] →
      hop.tokenIn = leg.collateralType → hop.tokenOut = leg.debtType → Resolves tag hop inputs.swap →
      inputs.debtType = tag leg.debtType → inputs.collateralType = tag leg.collateralType →
      liquidationPlan provider opp minProfit = .ok plan → buildLiquidation plan inputs = .ok commands →
      ∀ packages : Packages, packages.arbitrage = inputs.package → packages.lender = inputs.scallopPackage →
        packages.wormhole = inputs.wormholePackage → packages.pyth = inputs.pythPackage → packages.gas = sui →
        Assembled packages commands) ∧
    ∀ plan : List PtbStep,
      (∀ inputs : BuildInputs, (plan.filter PtbStep.isSwap).length ≠ inputs.hops.length →
        ∀ commands, build plan inputs ≠ .ok commands) ∧
      ∀ inputs : OwnedInputs, (plan.filter PtbStep.isSwap).length ≠ inputs.hops.length →
        ∀ commands, buildOwned plan inputs ≠ .ok commands := by
  refine ⟨?_,?_,?_⟩
  · intro pools base maxHops opp found
    have linked := (findCycles_cycle found).linked
    constructor
    · intro provider minProfit inputs commands resolves baseType built packages arbitrage lender
      exact build_assembled linked resolves baseType packages arbitrage lender built
    · intro minProfit inputs commands resolves baseType built packages arbitrage gas
      exact buildOwned_assembled linked resolves baseType packages arbitrage gas built
  · intro provider minProfit plan inputs commands opp leg hop _ _ seized back resolves debt collateral _ built packages arbitrage
      lender wormhole pyth gas
    rw [← back] at debt
    rw [← seized] at collateral
    exact buildLiquidation_assembled resolves debt collateral packages arbitrage lender wormhole pyth gas built
  · intro plan
    constructor
    · intro inputs differ commands built
      simp only [build,finish_ok,run_bind,call,run_command] at built
      obtain ⟨_,_,_,-,_,_,-,_,_,ran,-⟩ := built
      exact lowerSwaps_mismatch differ ran
    · intro inputs differ commands built
      simp only [buildOwned,finish_ok,run_bind,call,run_command] at built
      obtain ⟨_,_,_,-,_,_,-,_,_,ran,-⟩ := built
      exact lowerSwaps_mismatch differ ran

def usdt : TypeTag := "0x5::coin::USDT"

/-- A cycle through one pool of each venue, in both directions. -/
def mixedPools : List PoolState := [
  .v2 "0x1" .ammV2 sui Move.usdc 1000000 5000000 30,
  .clmm "0x2" .cetus Move.usdc usdt (Clmm.singleRange 18446744073709551616 1000000000000 500),
  .clmm "0x3" .turbos sui usdt (Clmm.singleRange 18446744073709551616 1000000000000 3000)]

def mixedRoute : List Hop :=
  [⟨"0x1",.ammV2,sui,Move.usdc,true⟩,⟨"0x2",.cetus,Move.usdc,usdt,true⟩,⟨"0x3",.turbos,usdt,sui,false⟩]

def mixedOpp : Opportunity := ⟨.arb,none,mixedRoute,1000,1980,[4980,4970,1980],980,3,977⟩

def mixedHop (lref : LivePoolRef) (aToB : Bool) : ResolvedHop := resolveHop lref aToB 0 (some ⟨"0xc",false⟩) (some ⟨"0xd",false⟩)

def mixedHops : List ResolvedHop := [mixedHop ⟨.ammV2,"0x1",sui,Move.usdc,none⟩ true,
  mixedHop ⟨.cetus,"0x2",Move.usdc,usdt,none⟩ true,mixedHop ⟨.turbos,"0x3",sui,usdt,some "0x6::fee::FEE"⟩ false]

def mixedInputs (flashStyle : FlashStyle) (hops : List ResolvedHop) : BuildInputs where
  package := "0xa"
  providerPackage := "0xe"
  baseType := sui
  lender := ⟨"0xf",true⟩
  amount := 1000
  minProfit := 10
  hops := hops
  sender := "0xb"
  flashStyle := flashStyle
  version := some ⟨"0x10",false⟩
  repayTotal := 1003

def backHop : Hop := ⟨"0x1",.ammV2,sui,Move.usdc,true⟩

def backLeg : LiquidationLeg := ⟨.scallop,"0x11",Move.usdc,sui,200,[]⟩

def backInputs : LiquidationInputs where
  package := "0xa"
  scallopPackage := "0xe"
  debtType := Move.usdc
  collateralType := sui
  version := ⟨"0x10",false⟩
  obligation := ⟨"0x11",true⟩
  market := ⟨"0xf",true⟩
  registry := ⟨"0x12",false⟩
  xOracle := ⟨"0x13",false⟩
  clock := Executor.clockArg
  wormholePackage := "0x14"
  pythPackage := "0x15"
  wormholeState := ⟨"0x16",false⟩
  pythState := ⟨"0x17",false⟩
  vaaBytes := []
  accumulatorMsg := []
  pythFee := 1
  priceInfos := [⟨"0x18",true⟩,⟨"0x19",true⟩]
  repayAmount := 200
  repayTotal := 201
  minProfit := 10
  swap := mixedHop ⟨.ammV2,"0x1",sui,Move.usdc,none⟩ true
  sender := "0xb"

def backOpp : Opportunity := ⟨.liquidation,some backLeg,[backHop],200,0,[0],0,0,0⟩

def backPlan : List PtbStep := [.priceUpdate [Move.usdc,sui],.flashBorrow ⟨"0xe","flash","borrow"⟩ "0xf" 200,.begin 10,
  .liquidate .scallop "0x11",.swap "amm_v2_adapter" "swap_exact_in_a_to_b" "0x1" 0,.settleAndReturn,
  .flashRepay ⟨"0xe","flash","repay"⟩,.transferToSender]

theorem built_of_isOk {x : Anyhow (List Command)} {P : List Command → Prop} (builds : x.isOk = true)
    (holds : ∀ commands, x = .ok commands → P commands) : ∃ commands, x = .ok commands ∧ P commands := by
  obtain ⟨commands,built⟩ := exists_ok builds
  exact ⟨commands,built,holds commands built⟩

/-- Both lenders, the owned mode and a liquidation; and a plan of three swaps with no hops. -/
theorem blocks_assembled_mixed :
    (∀ style, ∃ commands, build (flashArbPlan (.mock "0xe" "0xf" 30) mixedOpp 10) (mixedInputs style mixedHops) = .ok commands ∧
      Assembled ⟨"0xa","0xe","0x14","0x15",sui⟩ commands) ∧
    (∃ commands, buildOwned (ownedArbPlan mixedOpp 10) ⟨"0xa",sui,1000,10,mixedHops⟩ = .ok commands ∧
      Assembled ⟨"0xa","0xe","0x14","0x15",sui⟩ commands) ∧
    (∃ commands, buildLiquidation backPlan backInputs = .ok commands ∧
      Assembled ⟨"0xa","0xe","0x14","0x15",sui⟩ commands) ∧
    ∀ commands, build (flashArbPlan (.mock "0xe" "0xf" 30) mixedOpp 10) (mixedInputs .mockVault []) ≠ .ok commands := by
  obtain ⟨arbitrages,liquidations,mismatches⟩ := blocks_assembled id
  have found : mixedOpp.route ∈ findCycles (buildAdjacency mixedPools) sui 3 := by decide +kernel
  obtain ⟨flash,owned⟩ := arbitrages mixedPools sui 3 mixedOpp found
  have resolves : List.Forall₂ (Resolves id) mixedOpp.route mixedHops := by
    refine .cons ⟨_,_,_,_,⟨rfl,rfl,rfl,by decide⟩,rfl⟩ (.cons ⟨_,_,_,_,⟨rfl,rfl,rfl,by decide⟩,rfl⟩
      (.cons ⟨_,_,_,_,⟨rfl,rfl,rfl,by decide⟩,rfl⟩ .nil))
  have back : Resolves id backHop backInputs.swap := ⟨_,_,_,_,⟨rfl,rfl,rfl,by decide⟩,rfl⟩
  refine ⟨fun style => ?_,?_,?_,?_⟩
  · apply built_of_isOk
    · cases style <;> decide +kernel
    · intro commands built
      exact flash _ _ _ commands resolves rfl built _ rfl rfl
  · apply built_of_isOk
    · decide +kernel
    · intro commands built
      exact owned _ _ commands resolves rfl built _ rfl rfl
  · have planned : liquidationPlan (some (.mock "0xe" "0xf" 30)) backOpp 10 = .ok backPlan := rfl
    apply built_of_isOk
    · decide +kernel
    · intro commands built
      exact liquidations _ _ _ _ commands backOpp backLeg backHop rfl rfl rfl rfl back rfl rfl planned built _ rfl rfl rfl rfl rfl
  · exact (mismatches _).1 _ (by decide +kernel)

end blocks

end SuiArbitrage.Rust.Ptb
