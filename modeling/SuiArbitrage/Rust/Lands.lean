import SuiArbitrage.Move.FlashLands
import SuiArbitrage.Rust.FlashArb
import SuiArbitrage.Rust.Gates
import SuiArbitrage.Rust.Predicts
import SuiArbitrage.Rust.ProfitGate

/-! From the scan to the chain. What the scan finds on a snapshot that the chain still
holds is assembled into a block that executes and pays what was predicted. -/
namespace SuiArbitrage.Rust
open MachineWord Fallible Scanner
open Move (V2Call FlashArb Pools TypeTag)

namespace Scanner

def flooredCall (hop : Hop) (minOut : U64) : V2Call := ⟨hop.aToB,[hop.coins.1,hop.coins.2],⟨hop.poolId,true⟩,minOut⟩

theorem Hop.coins_in (hop : Hop) : (if hop.aToB then hop.coins.1 else hop.coins.2) = hop.tokenIn := by
  unfold Hop.coins
  split <;> simp [*]

theorem Hop.coins_out (hop : Hop) : (if hop.aToB then hop.coins.2 else hop.coins.1) = hop.tokenOut := by
  unfold Hop.coins
  split <;> simp [*]

/-- A floor that the output reaches changes nothing. -/
theorem swap_floor {pools after : Pools} {A B : TypeTag} {id : PoolId} {aToB : Bool} {amountIn minOut out : U64}
    (ran : pools.swap A B id aToB amountIn 0 = .ok (after,out)) (reached : minOut ≤ out) :
    pools.swap A B id aToB amountIn minOut = .ok (after,out) := by
  simp only [Pools.swap,bind_ok] at ran ⊢
  obtain ⟨pool,located,ran⟩ := ran
  refine ⟨pool,located,?_⟩
  cases aToB with
  | true =>
    simp only [if_true,bind_ok,Move.call_ok,Prod.exists,Move.AmmV2.swapAToB_ok,pure_ok,Prod.mk.injEq] at ran ⊢
    obtain ⟨new,coinOut,swapped,rfl,rfl⟩ := ran
    exact ⟨new,coinOut,{swapped with floor := reached},rfl,rfl⟩
  | false =>
    simp only [Bool.false_eq_true,if_false,bind_ok,Move.call_ok,Prod.exists,Move.AmmV2.swapBToA_ok,pure_ok,
      Prod.mk.injEq] at ran ⊢
    obtain ⟨new,coinOut,swapped,rfl,rfl⟩ := ran
    exact ⟨new,coinOut,{swapped with floor := reached},rfl,rfl⟩

/-- A route that executes without floors trades with any floors that its outputs reach. -/
theorem trades_of_execute {market final : Pools} {route : List Hop} {amount : U64} {outs floors : List U64}
    {start last : TokenId} (linked : Linked start route last) (executed : execute market route amount = .ok (final,outs))
    (reached : List.Forall₂ (· ≤ ·) floors outs) :
    V2Call.trades (List.zipWith flooredCall route floors) market start amount =
      .ok (final,last,outs.getLast?.getD amount) := by
  induction route generalizing market amount outs floors start with
  | nil =>
    obtain ⟨rfl,rfl⟩ := Prod.mk.inj (Except.ok.inj executed)
    obtain rfl : start = last := linked
    rfl
  | cons hop rest ih =>
    obtain ⟨rfl,onward⟩ := linked
    simp only [execute,bind_ok,Prod.exists,pure_ok,Prod.mk.injEq] at executed
    obtain ⟨middle,out,swapped,_,later,executed,rfl,rfl⟩ := executed
    cases reached with
    | @cons least _ floors _ floor reached =>
      have traded := ih onward executed reached
      have first : V2Call.trade (flooredCall hop least) market hop.tokenIn amount = .ok (middle,hop.tokenOut,out) := by
        refine (if_pos ⟨rfl,hop.coins_in.symm⟩).trans ?_
        change (market.swap hop.coins.1 hop.coins.2 hop.poolId hop.aToB amount least >>= _) = _
        rw [swap_floor swapped floor,ok_bind]
        exact congrArg (fun T => Except.ok (middle,T,out)) hop.coins_out
      rw [List.zipWith_cons_cons,V2Call.trades,first,ok_bind,List.getLast?_cons,Option.getD_some]
      exact traded

end Scanner

namespace Ptb
open Flashloan
open Move (Chain World execute commit Lands)

section exact
variable (chain : Chain)

/-- The assembled transaction computes what borrowing, trading, settling and repaying do one
after the other; when it lands, and what it then leaves, is exactly what `Lands` says. -/
theorem flashArb_lands_iff (provider : FlashLoanProvider) (opp : Opportunity) (inputs : BuildInputs)
    (vault : inputs.flashStyle = .mockVault) (package : inputs.package = chain.package)
    (lender : inputs.providerPackage = chain.package) (sender : inputs.sender = chain.sender)
    (venues : ∀ hop ∈ opp.route, hop.dex = .ammV2) (same : ∀ hop ∈ inputs.hops, hop.dex = .ammV2)
    (resolved : inputs.hops.length = opp.route.length) :
    ∃ commands, build (flashArbPlan provider opp inputs.minProfit) inputs = .ok commands ∧ ∀ world : World,
      execute chain world commands = ((flashArb opp.route inputs).trade chain).meaning world ∧
      ∀ after, execute chain world commands = .ok after ↔
        ∃ old fee pools final, Lands chain (flashArb opp.route inputs) world after old fee pools final := by
  refine ⟨_,build_v2 chain provider vault package lender sender venues same resolved,fun world => ?_⟩
  refine ⟨?_,fun after => Move.execute_block⟩
  rw [← Move.trade_block,Move.execute_flash]

theorem flashArb_lands_iff_small : ∃ commands, build (flashArbPlan (.mock "0xa" "0x3" 30) smallOpp 10) smallInputs = .ok commands ∧
    ∃ after old fee pools final, execute Move.bareChain smallWorld commands = .ok after ∧
      Lands Move.bareChain (flashArb smallRoute smallInputs) smallWorld after old fee pools final := by
  have ran : ((build (flashArbPlan (.mock "0xa" "0x3" 30) smallOpp 10) smallInputs).toOption.map
      fun commands => (execute Move.bareChain smallWorld commands).isOk) = some true := by decide +kernel
  obtain ⟨commands,built,exact⟩ := flashArb_lands_iff Move.bareChain (.mock "0xa" "0x3" 30) smallOpp
    smallInputs rfl rfl rfl rfl (by decide) (by decide) rfl
  have built : build (flashArbPlan (.mock "0xa" "0x3" 30) smallOpp 10) smallInputs = .ok commands := built
  rw [built] at ran
  obtain ⟨after,executed⟩ := exists_ok (Option.some.inj ran)
  obtain ⟨old,fee,pools,final,lands⟩ := ((exact smallWorld).2 after).mp executed
  exact ⟨commands,built,after,old,fee,pools,final,executed,lands⟩

end exact

end Ptb

namespace Executor
open Ptb (ResolvedHop)

/-- With a floor for every hop no index is out of bounds. -/
theorem floored_hops (refs : List (LivePoolRef × Bool)) (floors : List U64) (cetusCfg turbosVer : Option Move.ObjectArg)
    (counted : refs.length = floors.length) :
    (refs.zipIdx.mapM fun item => do
      let minOut ← floorAt floors item.2
      return resolveHop item.1.1 item.1.2 minOut cetusCfg turbosVer : Anyhow (List ResolvedHop)) =
      .ok (List.zipWith (fun ref minOut => resolveHop ref.1 ref.2 minOut cetusCfg turbosVer) refs floors) := by
  have shifted (front : List U64) : ∀ (refs : List (LivePoolRef × Bool)) (floors : List U64), refs.length = floors.length →
      ((refs.zipIdx front.length).mapM fun item => do
        let minOut ← floorAt (front ++ floors) item.2
        return resolveHop item.1.1 item.1.2 minOut cetusCfg turbosVer : Anyhow (List ResolvedHop)) =
        .ok (List.zipWith (fun ref minOut => resolveHop ref.1 ref.2 minOut cetusCfg turbosVer) refs floors) := by
    intro refs
    induction refs generalizing front with
    | nil => exact fun _ _ => rfl
    | cons ref rest ih =>
      intro floors counted
      cases floors with
      | nil => cases counted
      | cons minOut floors =>
        have here : floorAt (front ++ minOut :: floors) front.length = .ok minOut := by simp [floorAt]
        have later := ih (front ++ [minOut]) floors (by simpa using counted)
        rw [List.length_append,List.length_singleton,List.append_assoc,List.singleton_append] at later
        rw [List.zipIdx_cons,List.mapM_cons]
        simp only [here,ok_bind,pure_bind]
        rw [later,ok_bind]
        rfl
  exact shifted [] refs floors counted

section vault
variable {F : Type} [F64 F] {node : Node} {config : Config F} {chain : Move.Chain}

/-- The references of the pools of a route, under their own types. -/
def routeRefs (route : List Hop) : List (LivePoolRef × Bool) :=
  route.map fun hop => (⟨hop.dex,hop.poolId,hop.coins.1,hop.coins.2,none⟩,hop.aToB)

/-- What the node and the configuration say of the chain that the bot trades on, with the
vault of its own package as lender. -/
structure OnVault (node : Node) (config : Config F) (chain : Move.Chain) (vault : Move.ObjectArg) : Prop where
  base : node.typeTag config.baseToken = .ok config.baseToken
  package : node.objectId config.packageId = .ok chain.package
  provider : config.flashProvider = "mock"
  lender : node.sharedArg config.flashLenderId true = .ok vault

theorem zipWith_v2Call (route : List Hop) (floors : List U64) (cetusCfg turbosVer : Option Move.ObjectArg) :
    List.zipWith Ptb.v2Call route
        (List.zipWith (fun ref minOut => resolveHop ref.1 ref.2 minOut cetusCfg turbosVer) (routeRefs route) floors) =
      List.zipWith flooredCall route floors := by
  induction route generalizing floors with
  | nil => rfl
  | cons hop rest ih =>
    cases floors with
    | nil => rfl
    | cons minOut floors => exact congrArg (flooredCall hop minOut :: ·) (ih floors)

/-- Over `amm_v2` pools and the vault, the executor assembles the flash-arbitrage block. -/
theorem buildPtb_vault {vault : Move.ObjectArg} (on : OnVault node config chain vault) {opp : Opportunity}
    {floors : List U64} (kind : opp.kind ≠ .liquidation) (venues : ∀ hop ∈ opp.route, hop.dex = .ammV2)
    (counted : opp.route.length = floors.length) :
    buildPtb node config opp (routeRefs opp.route) floors chain.sender = .ok (FlashArb.block chain
      ⟨config.baseToken,vault,opp.inputAmount,config.effectiveMinProfitMist,List.zipWith flooredCall opp.route floors⟩) := by
  have provider : flashProvider config = .ok
      (.mock config.scallopPackageId config.flashLenderId config.flashFeeBps) := by
    simp [flashProvider,Flashloan.providerFrom,on.provider,orBail]
  have size : (routeRefs opp.route).length = floors.length := by simp [routeRefs,counted]
  have hops := fun cetusCfg turbosVer => floored_hops (routeRefs opp.route) floors cetusCfg turbosVer size
  simp only [buildPtb,on.base,on.package,context,Except.mapError,ok_bind,if_neg kind,buildFlashPtb,provider,on.lender]
  rw [show (Flashloan.FlashLoanProvider.mock config.scallopPackageId config.flashLenderId config.flashFeeBps).style =
    .mockVault from rfl]
  simp only [providerObjects]
  rw [hops,ok_bind,ok_bind]
  refine (Ptb.build_v2 chain _ rfl rfl rfl rfl venues ?_ ?_).trans ?_
  · intro resolved member
    obtain ⟨i,bound,rfl⟩ := List.getElem_of_mem member
    simp only [List.getElem_zipWith,routeRefs,List.getElem_map]
    exact venues _ (List.getElem_mem _)
  · simp [size,counted]
  · exact congrArg (fun swaps => Except.ok (FlashArb.block chain
      ⟨config.baseToken,vault,opp.inputAmount,config.effectiveMinProfitMist,swaps⟩)) (zipWith_v2Call opp.route floors _ _)

end vault

end Executor

namespace Executor

theorem sharedArg_mutable {node : Node} {id : String} {mutable : Bool} {object : Move.ObjectArg}
    (shared : node.sharedArg id mutable = .ok object) : object.mutable = mutable := by
  simp only [Node.sharedArg,bind_ok,pure_ok] at shared
  obtain ⟨_,_,_,_,rfl⟩ := shared
  rfl

end Executor

namespace Live
open Executor (LivePoolRef Node OnVault)

/-- The registry holds the reference that belongs to a snapshot. -/
def Registers (registry : PoolId → Option LivePoolRef) (pool : PoolState) : Prop :=
  registry pool.id = some ⟨pool.dex,pool.id,pool.tokenA,pool.tokenB,none⟩

theorem resolveRefs_registered {pools : List PoolState} {registry : PoolId → Option LivePoolRef} {route : List Hop}
    (offered : ∀ hop ∈ route, Offered pools hop) (registers : ∀ pool ∈ pools, Registers registry pool) :
    resolveRefs registry route = .ok (Executor.routeRefs route) := by
  induction route with
  | nil => rfl
  | cons hop rest ih =>
    obtain ⟨pool,listed,crosses,venue⟩ := offered hop List.mem_cons_self
    have found : registry hop.poolId = some ⟨hop.dex,hop.poolId,hop.coins.1,hop.coins.2,none⟩ := by
      rw [crosses.coins,venue,crosses.1]
      exact registers pool listed
    have later := ih fun other member => offered other (List.mem_cons_of_mem _ member)
    unfold resolveRefs at later ⊢
    rw [List.mapM_cons,found,later]
    rfl

theorem applySlippageFloor_le (out slippageBps : U64) : applySlippageFloor out slippageBps ≤ out := by
  have less : out.val * (10000 - slippageBps.val) ≤ out.val * 10000 := Nat.mul_le_mul_left _ (Nat.sub_le _ _)
  have divided : out.val * (10000 - slippageBps.val) / 10000 ≤ out.val := by omega
  rw [Fin.le_def,applySlippageFloor,asU64,wrap_val_of_lt (divided.trans_lt out.isLt)]
  exact divided

/-- The quoted fee is the one that the vault takes. -/
theorem flashFee_exact (params : ScanParams) (amount : U64) (created : params.flashFeeBps.val < 10000) :
    (flashFee params amount).val = Move.Flash.exactFee amount.val params.flashFeeBps.val := by
  have less : amount.val * params.flashFeeBps.val ≤ amount.val * 9999 := Nat.mul_le_mul_left _ (by omega)
  have word := amount.isLt
  have small : Move.Flash.exactFee amount.val params.flashFeeBps.val < 2^64 := by
    rw [Move.Flash.exactFee_eq]
    omega
  unfold flashFee
  split
  · exact Flashloan.quoteFeeBps_of_lt small
  · rename_i free
    have zero : params.flashFeeBps.val = 0 := by
      rw [Fin.lt_def] at free
      simpa using free
    rw [zero,Move.Flash.exactFee_eq,Nat.mul_zero]
    rfl

section lands
variable {F : Type} [SignedF64 F] {build : Build} {config : LiveConfig F} {node : Node} {chain : Move.Chain} {world : Move.World}
  {registry : PoolId → Option LivePoolRef} {pools : List PoolState} {opp : Opportunity} {vault : Move.ObjectArg}

/-- The block of an opportunity: each hop has the floor of its output. -/
def floored (config : LiveConfig F) (vault : Move.ObjectArg) (opp : Opportunity) : FlashArb :=
  ⟨config.baseToken,vault,opp.inputAmount,config.effectiveMinProfitMist,
    List.zipWith flooredCall opp.route (opp.hopOutputs.map fun out => applySlippageFloor out config.perHopSlippageBps)⟩

/-- An opportunity that the scan finds is assembled wherever its pools are registered. -/
theorem found_assembles {sender : Move.Address} (venues : ∀ pool ∈ pools, pool.dex = .ammV2)
    (registers : ∀ pool ∈ pools, Registers registry pool) (on : OnVault node config.toConfig chain vault)
    (same : chain.sender = sender) (found : findBest build pools (scanParams config) = .ok (some opp)) :
    opp.kind = .arb ∧ opp.hopOutputs.length = opp.route.length ∧
      resolveRefs registry opp.route = .ok (Executor.routeRefs opp.route) ∧
      Executor.buildPtb node config.toConfig opp (Executor.routeRefs opp.route)
        (opp.hopOutputs.map fun out => applySlippageFloor out config.perHopSlippageBps) sender =
        .ok (FlashArb.block chain (floored config vault opp)) := by
  subst same
  obtain ⟨route,searched,input,evaluated⟩ := findBest_some found
  obtain ⟨-,offered⟩ := mem_findCycles.mp searched
  obtain ⟨outs,output,collected,-,-,rfl,-⟩ := evaluateInput_some.mp evaluated
  have size : outs.length = route.length := collect_length (simulateCollect_some.mp collected).2
  refine ⟨rfl,size,resolveRefs_registered offered registers,Executor.buildPtb_vault on (by simp [opportunityAt]) ?_
    (by simp [opportunityAt,size])⟩
  intro hop member
  obtain ⟨pool,listed,-,venue⟩ := offered hop member
  exact venue.trans (venues pool listed)

/-- Its block executes on a chain that the snapshot mirrors, and pays exactly what was predicted. -/
theorem found_lands {lender : Move.Flash.FlashLender config.baseToken} (unique : (pools.map PoolState.id).Nodup)
    (mirrors : ∀ pool ∈ pools, Mirrors world.pools pool) (mutable : vault.mutable = true)
    (lends : world.vaults.get vault.id = some ⟨config.baseToken,lender⟩) (sameFee : lender.feeBps = config.flashFeeBps)
    (created : lender.feeBps < Move.Flash.feeDenom) (positive : 0 < config.effectiveMinProfitMist)
    (found : findBest build pools (scanParams config) = .ok (some opp)) (covered : opp.inputAmount ≤ lender.reserve)
    (room : lender.reserve.val + opp.flashFee.val < 2^64)
    (fits : Scanner.execute world.pools opp.route opp.inputAmount ≠ .error (.abort .arithmetic)) :
    ∃ after, Move.execute chain world (FlashArb.block chain (floored config vault opp)) = .ok after ∧
      after.balances chain.sender config.baseToken =
        world.balances chain.sender config.baseToken + (opp.netProfit.val + config.gasCostEstimate.val) ∧
      after.vaults.get vault.id = some ⟨config.baseToken,{lender with reserve := ⟨_,room⟩}⟩ := by
  obtain ⟨-,predicted,follows⟩ := findBest_predicts unique mirrors found
  obtain ⟨final,executed⟩ := follows fits
  obtain ⟨route,searched,input,evaluated⟩ := findBest_some found
  obtain ⟨cycle,-⟩ := mem_findCycles.mp searched
  obtain ⟨outs,output,collected,last,gains,rfl,clears⟩ := evaluateInput_some.mp evaluated
  have executed : Scanner.execute world.pools route input = .ok (final,outs) := executed
  have bounded : config.flashFeeBps.val < 10000 := by
    rw [← sameFee]
    exact created
  have fee : (flashFee (scanParams config) input).val = Move.Flash.exactFee input.val lender.feeBps.val := by
    rw [sameFee]
    exact flashFee_exact (scanParams config) input bounded
  have paid : (opportunityAt (scanParams config) route input output outs).netProfit.val + config.gasCostEstimate.val +
      (flashFee (scanParams config) input).val + input.val = output.val := by
    have net : ((opportunityAt (scanParams config) route input output outs).netProfit.val : ℤ) =
        max 0 (signedNet (scanParams config) input output) := opportunityAt_net gains
    have least : 0 < (opportunityAt (scanParams config) route input output outs).netProfit.val := positive.trans_le clears
    rw [signedNet,show (scanParams config).gasCost = config.gasCostEstimate from rfl] at net
    omega
  have floors : List.Forall₂ (· ≤ ·) (outs.map fun out => applySlippageFloor out config.perHopSlippageBps) outs :=
    List.forall₂_map_left_iff.mpr (List.forall₂_same.mpr fun out _ => applySlippageFloor_le out _)
  have traded := trades_of_execute cycle.linked executed floors
  rw [last,Option.getD_some] at traded
  have gate : input.val + config.effectiveMinProfitMist.val ≤ output.val := by
    have reached : config.effectiveMinProfitMist.val ≤
      (opportunityAt (scanParams config) route input output outs).netProfit.val := clears
    omega
  have repaid : input.val + (flashFee (scanParams config) input).val ≤ output.val := by omega
  have landed : Move.Lands chain (floored config vault (opportunityAt (scanParams config) route input output outs)) world _ lender
      (flashFee (scanParams config) input) final output :=
    ⟨mutable,lends,covered,fee,traded,gate,repaid,room,rfl⟩
  refine ⟨_,Move.execute_block.mpr ⟨_,_,_,_,landed⟩,?_,Move.get_put_lender lends rfl⟩
  have lent : (opportunityAt (scanParams config) route input output outs).inputAmount = input := rfl
  simp only [floored,Move.World.credit,and_self,if_true,saturatingSub_val,lent]
  omega

/-- What the scan finds on a snapshot that the chain still holds is assembled, executes and
leaves the sender exactly the predicted profit: no floor, no gate and no loan stands in its
way, and its vault has earned its fee. -/
theorem findBest_lands {lender : Move.Flash.FlashLender config.baseToken} (unique : (pools.map PoolState.id).Nodup)
    (mirrors : ∀ pool ∈ pools, Mirrors world.pools pool) (venues : ∀ pool ∈ pools, pool.dex = .ammV2)
    (registers : ∀ pool ∈ pools, Registers registry pool) (on : OnVault node config.toConfig chain vault)
    (lends : world.vaults.get vault.id = some ⟨config.baseToken,lender⟩) (sameFee : lender.feeBps = config.flashFeeBps)
    (created : lender.feeBps < Move.Flash.feeDenom) (positive : 0 < config.effectiveMinProfitMist)
    (found : findBest build pools (scanParams config) = .ok (some opp)) (covered : opp.inputAmount ≤ lender.reserve)
    (room : lender.reserve.val + opp.flashFee.val < 2^64)
    (fits : Scanner.execute world.pools opp.route opp.inputAmount ≠ .error (.abort .arithmetic)) :
    ∃ refs commands after, resolveRefs registry opp.route = .ok refs ∧
      Executor.buildPtb node config.toConfig opp refs
        (opp.hopOutputs.map fun out => applySlippageFloor out config.perHopSlippageBps) chain.sender = .ok commands ∧
      Move.execute chain world commands = .ok after ∧
      after.balances chain.sender config.baseToken =
        world.balances chain.sender config.baseToken + (opp.netProfit.val + config.gasCostEstimate.val) ∧
      after.vaults.get vault.id = some ⟨config.baseToken,{lender with reserve := ⟨_,room⟩}⟩ := by
  obtain ⟨-,-,resolved,built⟩ := found_assembles venues registers on rfl found
  obtain ⟨after,executed,paid,earned⟩ := found_lands unique mirrors (Executor.sharedArg_mutable on.lender) lends sameFee created
    positive found covered room fits
  exact ⟨_,_,after,resolved,built,executed,paid,earned⟩

end lands

section small

def flashConfig : LiveConfig ℚ :=
  {Wallet.config with
    toConfig := Executor.vaultConfig 30
    perHopSlippageBps := 50
    flashEnabled := true
    executionMode := .flash}

def flashPools : List PoolState :=
  [.v2 "0x1" .ammV2 Move.sui Move.usdc 1000000 5000000 30,.v2 "0x2" .ammV2 Move.sui Move.usdc 2000000 5000000 30]

def flashRegistry (id : PoolId) : Option LivePoolRef :=
  if id ∈ flashPools.map PoolState.id then some ⟨.ammV2,id,Move.sui,Move.usdc,none⟩ else none

def flashOpp : Opportunity := {Ptb.smallOpp with outputAmount := 1984, hopOutputs := [4980,1984], grossProfit := 984, netProfit := 981}

theorem findBest_lands_small : ∃ opp refs commands after,
    findBest .release flashPools (scanParams flashConfig) = .ok (some opp) ∧
    resolveRefs flashRegistry opp.route = .ok refs ∧
    Executor.buildPtb Executor.plainNode flashConfig.toConfig opp refs
      (opp.hopOutputs.map fun out => applySlippageFloor out flashConfig.perHopSlippageBps) Move.bareChain.sender =
      .ok commands ∧
    Move.execute Move.bareChain Ptb.smallWorld commands = .ok after ∧
    after.balances Move.bareChain.sender Move.sui = 0 + (opp.netProfit.val + 0) := by
  have found : findBest .release flashPools (scanParams flashConfig) = .ok (some flashOpp) := by decide +kernel
  have mirrors : ∀ pool ∈ flashPools, Mirrors Ptb.smallWorld.pools pool := by
    intro pool member
    rcases List.mem_pair.mp member with rfl | rfl
    · exact ⟨1000000,5000000,30,rfl,by decide +kernel⟩
    · exact ⟨2000000,5000000,30,rfl,by decide +kernel⟩
  have registers : ∀ pool ∈ flashPools, Registers flashRegistry pool := by
    intro pool member
    rcases List.mem_pair.mp member with rfl | rfl
    · rfl
    · rfl
  have on : Executor.OnVault Executor.plainNode flashConfig.toConfig Move.bareChain ⟨"0x3",true⟩ := ⟨rfl,rfl,rfl,rfl⟩
  have lends : Ptb.smallWorld.vaults.get "0x3" = some ⟨flashConfig.baseToken,⟨"0x3",1000000,30⟩⟩ := by decide +kernel
  obtain ⟨refs,commands,after,resolved,built,ran,paid,-⟩ := findBest_lands (by decide) mirrors (by decide) registers on lends
    rfl (by decide) (by decide +kernel) found (by decide) (by decide) (by decide +kernel)
  exact ⟨_,refs,commands,after,found,resolved,built,ran,paid⟩

end small

end Live

end SuiArbitrage.Rust
