import SuiArbitrage.Move.FlashRoute
import SuiArbitrage.Rust.Ptb

/-! The flash-arbitrage transaction end to end: what the builder assembles for a route
of `amm_v2` pools with the vault as lender, and what executing it does. -/
namespace SuiArbitrage.Rust.Ptb
open MachineWord Fallible Scanner Flashloan Builder
open Move (Chain World Machine Command Argument V2Call FlashArb Completed execute commit)

def v2Call (hop : Hop) (resolved : ResolvedHop) : V2Call :=
  ⟨hop.aToB,resolved.typeArgs,resolved.pool,resolved.minOut⟩

def flashArb (route : List Hop) (inputs : BuildInputs) : FlashArb :=
  ⟨inputs.baseType,inputs.lender,inputs.amount,inputs.minProfit,List.zipWith v2Call route inputs.hops⟩

theorem identifier_adapter (dex : Dex) : identifier (adapterModule dex) = .ok (adapterModule dex) := by
  cases dex <;> decide +kernel

theorem identifier_function (aToB : Bool) : identifier (adapterFunction aToB) = .ok (adapterFunction aToB) := by
  cases aToB <;> decide +kernel

theorem pushSwaps_swaps (route : List Hop) : (pushSwaps route).filter PtbStep.isSwap = pushSwaps route := by
  simp [pushSwaps,List.filter_eq_self,PtbStep.isSwap]

theorem flashArbPlan_swaps (provider : FlashLoanProvider) (opp : Opportunity) (minProfit : U64) :
    (flashArbPlan provider opp minProfit).filter PtbStep.isSwap = pushSwaps opp.route := by
  simp only [flashArbPlan,List.filter_append,pushSwaps_swaps]
  simp [PtbStep.isSwap]

section v2
variable (chain : Chain)

theorem lowerSwap_v2 (commands : List Command) (coin : Argument) {hop : Hop} {resolved : ResolvedHop}
    (venue : hop.dex = .ammV2) (same : resolved.dex = .ammV2) :
    (lowerSwap chain.package coin
      (.swap (adapterCall hop).1 (adapterCall hop).2 hop.poolId 0,resolved)).run commands =
      .ok (.result commands.length,commands ++ [(v2Call hop resolved).command chain coin]) := by
  simp only [lowerSwap,run_bind,run_lift]
  refine ⟨_,_,⟨by rw [swapArguments,same],rfl⟩,_,_,⟨identifier_adapter hop.dex,rfl⟩,_,_,⟨identifier_function hop.aToB,rfl⟩,?_⟩
  rw [venue]
  rfl

theorem foldlM_v2 (commands : List Command) (coin : Argument) {route : List Hop} {hops : List ResolvedHop}
    (venues : ∀ hop ∈ route, hop.dex = .ammV2) (same : ∀ hop ∈ hops, hop.dex = .ammV2) :
    (((pushSwaps route).zip hops).foldlM (lowerSwap chain.package) coin).run commands =
      .ok (Move.lastCoin commands.length coin (List.zipWith v2Call route hops),
        commands ++ Move.swapCommands chain commands.length coin (List.zipWith v2Call route hops)) := by
  induction route generalizing hops coin commands with
  | nil => simp [pushSwaps,Move.lastCoin,Move.swapCommands]
  | cons hop route ih =>
    cases hops with
    | nil => simp [pushSwaps,Move.lastCoin,Move.swapCommands]
    | cons resolved hops =>
      have first := lowerSwap_v2 chain commands coin (venues hop List.mem_cons_self) (same resolved List.mem_cons_self)
      have later := ih (commands ++ [(v2Call hop resolved).command chain coin]) (.result commands.length)
        (fun other member => venues other (List.mem_cons_of_mem _ member))
        (fun other member => same other (List.mem_cons_of_mem _ member))
      rw [show pushSwaps (hop :: route) =
        .swap (adapterCall hop).1 (adapterCall hop).2 hop.poolId 0 :: pushSwaps route from rfl]
      rw [List.zip_cons_cons,List.foldlM_cons,StateT.run_bind,first,ok_bind,later]
      simp only [List.zipWith_cons_cons,Move.lastCoin,Move.swapCommands,List.length_append,List.length_singleton,
        List.append_assoc,List.singleton_append]

/-- Over `amm_v2` hops and the vault, the builder assembles the flash-arbitrage block. -/
theorem build_v2 (provider : FlashLoanProvider) {opp : Opportunity} {inputs : BuildInputs}
    (vault : inputs.flashStyle = .mockVault) (package : inputs.package = chain.package)
    (lender : inputs.providerPackage = chain.package) (sender : inputs.sender = chain.sender)
    (venues : ∀ hop ∈ opp.route, hop.dex = .ammV2) (same : ∀ hop ∈ inputs.hops, hop.dex = .ammV2)
    (resolved : inputs.hops.length = opp.route.length) :
    build (flashArbPlan provider opp inputs.minProfit) inputs = .ok ((flashArb opp.route inputs).block chain) := by
  have counted : (pushSwaps opp.route).length = inputs.hops.length := by simp [pushSwaps,resolved]
  simp only [build,finish_ok,run_bind,flashBorrow,vault,call,run_command,lowerSwaps,flashArbPlan_swaps,counted,if_true,
    flashRepay,package,lender,sender]
  refine ⟨_,_,_,⟨rfl,rfl⟩,_,_,⟨rfl,rfl⟩,_,_,foldlM_v2 chain _ _ venues same,_,_,⟨rfl,rfl⟩,_,_,⟨rfl,rfl⟩,rfl,?_⟩
  simp [FlashArb.block,FlashArb.opening,FlashArb.closing,flashArb,nested,Move.length_swapCommands,resolved]
  omega

/-- Whatever the pools, the vault and the numbers: the assembled transaction either fails,
and nothing has changed, or everything `Completed` says holds of it. -/
theorem flashArb_executes (world : World) (provider : FlashLoanProvider) (opp : Opportunity) (inputs : BuildInputs)
    (vault : inputs.flashStyle = .mockVault) (package : inputs.package = chain.package)
    (lender : inputs.providerPackage = chain.package) (sender : inputs.sender = chain.sender)
    (venues : ∀ hop ∈ opp.route, hop.dex = .ammV2) (same : ∀ hop ∈ inputs.hops, hop.dex = .ammV2)
    (resolved : inputs.hops.length = opp.route.length) :
    ∃ commands, build (flashArbPlan provider opp inputs.minProfit) inputs = .ok commands ∧
      ((∃ failure, execute chain world commands = .error failure ∧ commit chain world commands = world) ∨
      ∃ m final fee, transact (Machine.step chain) (Machine.start world) commands = .ok m ∧
        m.settled = [⟨1,inputs.baseType,final⟩] ∧ execute chain world commands = .ok m.world ∧
        commit chain world commands = m.world ∧
        Completed chain (flashArb opp.route inputs) world m.world final fee) :=
  ⟨_,build_v2 chain provider vault package lender sender venues same resolved,
    Move.block_executes chain world (flashArb opp.route inputs)⟩

end v2

section small

def smallWorld : World :=
  ⟨⟨[⟨Move.sui,Move.usdc,⟨"0x1",1000000,5000000,30⟩⟩,⟨Move.sui,Move.usdc,⟨"0x2",2000000,5000000,30⟩⟩],by decide⟩,
    ⟨[⟨Move.sui,⟨"0x3",1000000,30⟩⟩],by decide⟩,fun _ _ => 0,0⟩

def smallRoute : List Hop := [⟨"0x1",.ammV2,Move.sui,Move.usdc,true⟩,⟨"0x2",.ammV2,Move.usdc,Move.sui,false⟩]

def smallOpp : Opportunity := ⟨.arb,none,smallRoute,1000,1980,[4980,1980],980,3,977⟩

def smallInputs : BuildInputs where
  package := "0xa"
  providerPackage := "0xa"
  baseType := Move.sui
  lender := ⟨"0x3",true⟩
  amount := 1000
  minProfit := 10
  hops := smallRoute.map fun hop => ⟨.ammV2,hop.aToB,⟨hop.poolId,true⟩,[Move.sui,Move.usdc],0,none,none,none⟩
  sender := "0xb"
  flashStyle := .mockVault
  version := none
  repayTotal := 1003

theorem flashArb_executes_small : ∃ m final fee,
    (build (flashArbPlan (.mock "0xa" "0x3" 30) smallOpp 10) smallInputs).map (commit Move.bareChain smallWorld) =
      .ok m ∧ Completed Move.bareChain (flashArb smallRoute smallInputs) smallWorld m final fee := by
  have ran : ((build (flashArbPlan (.mock "0xa" "0x3" 30) smallOpp 10) smallInputs).toOption.map
      fun commands => (execute Move.bareChain smallWorld commands).isOk) = some true := by decide +kernel
  obtain ⟨commands,built,outcome⟩ := flashArb_executes Move.bareChain smallWorld (.mock "0xa" "0x3" 30) smallOpp
    smallInputs rfl rfl rfl rfl (by decide) (by decide) rfl
  rw [show (10 : U64) = smallInputs.minProfit from rfl,built] at ran ⊢
  rcases outcome with ⟨failure,failed,-⟩ | ⟨m,final,fee,-,-,-,committed,completed⟩
  · have stopped : (execute Move.bareChain smallWorld commands).isOk = true := Option.some.inj ran
    rw [failed] at stopped
    cases stopped
  · exact ⟨m.world,final,fee,congrArg Except.ok committed,completed⟩

end small

end SuiArbitrage.Rust.Ptb
