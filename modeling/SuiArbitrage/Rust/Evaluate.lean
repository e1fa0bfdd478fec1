import SuiArbitrage.Rust.Cycles
import SuiArbitrage.Rust.QuoteFaults

/-! One evaluation of a route: what a quoted route, a candidate and a found
opportunity consist of. -/
namespace SuiArbitrage.Rust.Scanner
open MachineWord Fallible

variable {build : Build} {byId : PoolId → Option PoolState} {route : List Hop} {params : ScanParams} {input : U64}

theorem collect_cons {hop : Hop} {rest : List Hop} {outs : List U64} :
    collect build byId (hop :: rest) input = .ok (some outs) ↔
      ∃ pool out tail, byId hop.poolId = some pool ∧ quoteHop build pool hop input = .ok (some out) ∧
        collect build byId rest out = .ok (some tail) ∧ outs = out :: tail := by
  simp only [collect,andThen_some,Except.ok.injEq,Option.some.injEq]
  constructor
  · rintro ⟨pool,listed,out,quoted,tail,collected,rfl⟩
    exact ⟨pool,out,tail,listed,quoted,collected,rfl⟩
  · rintro ⟨pool,out,tail,listed,quoted,collected,rfl⟩
    exact ⟨pool,listed,out,quoted,tail,collected,rfl⟩

theorem collect_length {outs : List U64} (collected : collect build byId route input = .ok (some outs)) :
    outs.length = route.length := by
  induction route generalizing input outs with
  | nil =>
    obtain rfl := Option.some.inj (Except.ok.inj collected)
    rfl
  | cons hop rest ih =>
    obtain ⟨pool,out,tail,-,-,onward,rfl⟩ := collect_cons.mp collected
    simp [ih onward]

theorem simulateCollect_some {outs : List U64} :
    simulateCollect build byId route input = .ok (some outs) ↔
      route ≠ [] ∧ collect build byId route input = .ok (some outs) := by
  unfold simulateCollect
  split
  · rename_i empty
    simp [empty]
  · rename_i nonempty
    simp [nonempty]

theorem simulate_some {output : U64} :
    simulate build byId route input = .ok (some output) ↔
      ∃ outs, simulateCollect build byId route input = .ok (some outs) ∧ outs.getLast? = some output := by
  simp only [simulate,andThen_some,Except.ok.injEq]

def signedNet (params : ScanParams) (input output : U64) : ℤ :=
  output.val - input.val - params.gasCost.val - (flashFee params input).val

theorem netSigned_some {net : ℤ} :
    netSigned build byId route params input = .ok (some net) ↔
      ∃ output, simulate build byId route input = .ok (some output) ∧ net = signedNet params input output := by
  simp only [netSigned,andThen_some,Except.ok.injEq,Option.some.injEq]
  exact exists_congr fun output => and_congr_right fun _ => eq_comm

/-- The opportunity that is built for a size, before the floor is applied. -/
def opportunityAt (params : ScanParams) (route : List Hop) (input output : U64) (hopOutputs : List U64) :
    Opportunity :=
  ⟨.arb,none,route,input,output,hopOutputs,saturatingSub output input,flashFee params input,
    saturatingSub (saturatingSub (saturatingSub output input) params.gasCost) (flashFee params input)⟩

theorem evaluateInput_of_collected {outs : List U64} {output : U64}
    (collected : simulateCollect build byId route input = .ok (some outs)) (last : outs.getLast? = some output) :
    evaluateInput build byId route params input =
      if output ≤ input then .ok none
      else if (opportunityAt params route input output outs).netProfit < params.minProfit then .ok none
      else .ok (some (opportunityAt params route input output outs)) := by
  rw [evaluateInput,collected,ok_some_andThen,last,ok_some_andThen]
  rfl

theorem evaluateInput_some {opp : Opportunity} :
    evaluateInput build byId route params input = .ok (some opp) ↔
      ∃ outs output, simulateCollect build byId route input = .ok (some outs) ∧ outs.getLast? = some output ∧
        input < output ∧ opp = opportunityAt params route input output outs ∧ params.minProfit ≤ opp.netProfit := by
  constructor
  · intro evaluated
    have parts := evaluated
    simp only [evaluateInput,andThen_some,Except.ok.injEq] at parts
    obtain ⟨outs,collected,output,last,-⟩ := parts
    rw [evaluateInput_of_collected collected last] at evaluated
    split at evaluated
    · cases evaluated
    rename_i gains
    split at evaluated
    · cases evaluated
    rename_i clears
    obtain rfl := Option.some.inj (Except.ok.inj evaluated)
    exact ⟨outs,output,collected,last,not_le.mp gains,rfl,not_lt.mp clears⟩
  · rintro ⟨outs,output,collected,last,gains,rfl,clears⟩
    rw [evaluateInput_of_collected collected last,if_neg (not_le.mpr gains),if_neg (not_lt.mpr clears)]

theorem opportunityAt_net {output : U64} {outs : List U64} (gains : input < output) :
    ((opportunityAt params route input output outs).netProfit.val : ℤ) = max 0 (signedNet params input output) := by
  have gains : input.val < output.val := gains
  simp only [opportunityAt,signedNet,saturatingSub_val]
  omega

/-- A size that gains and clears the floor gives an opportunity of exactly its net. -/
theorem evaluateInput_clears {output : U64} (simulated : simulate build byId route input = .ok (some output))
    (gains : input < output) (clears : (params.minProfit.val : ℤ) ≤ signedNet params input output) :
    ∃ opp, evaluateInput build byId route params input = .ok (some opp) ∧
      opp.netProfit.val = signedNet params input output := by
  obtain ⟨outs,collected,last⟩ := simulate_some.mp simulated
  have nonnegative : 0 ≤ signedNet params input output := (Int.natCast_nonneg _).trans clears
  have exact : ((opportunityAt params route input output outs).netProfit.val : ℤ) = signedNet params input output := by
    rw [opportunityAt_net gains,max_eq_right nonnegative]
  refine ⟨opportunityAt params route input output outs,?_,exact⟩
  refine evaluateInput_some.mpr ⟨outs,output,collected,last,gains,rfl,?_⟩
  rw [← exact] at clears
  exact_mod_cast clears

theorem raises_collect (build : Build) (byId : PoolId → Option PoolState) (route : List Hop) (input : U64) :
    Raises QuoteFault (collect build byId route input) := by
  induction route generalizing input with
  | nil => exact raises_ok _
  | cons hop rest ih =>
    refine raises_andThen (raises_ok _) fun pool => raises_andThen ?_ fun out =>
      raises_andThen (ih out) fun _ => raises_ok _
    unfold quoteHop
    split
    · exact .ite (Amm.raises_getAmountOut build _ _ _ _) (Amm.raises_getAmountOut build _ _ _ _)
    · exact Clmm.raises_quoteExactIn build _ _ _

theorem raises_simulateCollect (build : Build) (byId : PoolId → Option PoolState) (route : List Hop) (input : U64) :
    Raises QuoteFault (simulateCollect build byId route input) :=
  .ite (raises_ok _) (raises_collect build byId route input)

theorem raises_netSigned (build : Build) (byId : PoolId → Option PoolState) (route : List Hop) (params : ScanParams)
    (input : U64) : Raises QuoteFault (netSigned build byId route params input) :=
  raises_andThen (raises_andThen (raises_simulateCollect build byId route input) fun _ => raises_ok _) fun _ =>
    raises_ok _

theorem raises_evaluateInput (build : Build) (byId : PoolId → Option PoolState) (route : List Hop)
    (params : ScanParams) (input : U64) : Raises QuoteFault (evaluateInput build byId route params input) :=
  raises_andThen (raises_simulateCollect build byId route input) fun _ => raises_andThen (raises_ok _) fun _ =>
    .ite (raises_ok _) (.ite (raises_ok _) (raises_ok _))

/-- A route is sized by its first best candidate. -/
theorem sizeRoute_ok {result : Option Opportunity} (nonempty : route ≠ [])
    (sized : sizeRoute build byId params route = .ok result) :
    ∃ inputs values, candidates build byId route params = .ok inputs ∧
      inputs.mapM (evaluateInput build byId route params) = .ok values ∧
      result = FirstMax.firstMax Opportunity.netProfit values.reduceOption := by
  unfold sizeRoute at sized
  split at sized
  · rename_i refused
    rcases refused with empty | none
    · exact absurd empty nonempty
    · refine ⟨[],[],?_,rfl,(Except.ok.inj sized).symm⟩
      simp [candidates,none]
  · rw [bind_ok] at sized
    obtain ⟨inputs,listed,sized⟩ := sized
    obtain ⟨values,evaluated,chosen⟩ := (FirstMax.bestOf_ok _).mp sized
    exact ⟨inputs,values,listed,evaluated,chosen⟩

theorem sizeRoute_some {opp : Opportunity} (sized : sizeRoute build byId params route = .ok (some opp)) :
    ∃ input, evaluateInput build byId route params input = .ok (some opp) := by
  unfold sizeRoute at sized
  split at sized
  · cases sized
  · obtain ⟨inputs,-,sized⟩ := bind_ok.mp sized
    obtain ⟨input,-,evaluated⟩ := FirstMax.bestOf_some _ sized
    exact ⟨input,evaluated⟩

theorem Cycle.nonempty {pools : List PoolState} {base : TokenId} {maxHops : ℕ}
    (cycle : Cycle pools base maxHops route) : route ≠ [] := by
  rintro rfl
  exact absurd cycle.long (by simp)

/-- A found opportunity is some cycle evaluated at some size. -/
theorem findBest_some {pools : List PoolState} {opp : Opportunity}
    (found : findBest build pools params = .ok (some opp)) :
    ∃ route ∈ findCycles (buildAdjacency pools) params.baseToken params.maxHops, ∃ input,
      evaluateInput build (lookup pools) route params input = .ok (some opp) := by
  obtain ⟨route,listed,sized⟩ := FirstMax.bestOf_some _ found
  exact ⟨route,listed,sizeRoute_some sized⟩

end SuiArbitrage.Rust.Scanner
