import SuiArbitrage.Rust.Balanced

/-! The scan misses no size of its grid, and what it reports does not depend on the
order of the pools, as far as its size optimizer returns. -/
namespace SuiArbitrage.Rust.Scanner
open MachineWord Fallible

/-- A size of the grid at which a cycle leaves at least the floor. -/
structure Profitable (build : Build) (pools : List PoolState) (params : ScanParams) (route : List Hop)
    (input output : U64) : Prop where
  cycle : Cycle pools params.baseToken params.maxHops route
  offered : ∀ hop ∈ route, Offered pools hop
  candidate : input ∈ params.candidateInputs
  simulated : simulate build (lookup pools) route input = .ok (some output)
  gains : input < output
  clears : (params.minProfit.val : ℤ) ≤ signedNet params input output

structure MissesNothing (build : Build) (pools : List PoolState) (params : ScanParams) : Prop where
  found : ∀ route input output, Profitable build pools params route input output →
    ∃ opp, findBest build pools params = .ok (some opp) ∧ signedNet params input output ≤ opp.netProfit.val
  genuine : ∀ opp, findBest build pools params = .ok (some opp) →
    Cycle pools params.baseToken params.maxHops opp.route ∧ (∀ hop ∈ opp.route, Offered pools hop) ∧
      simulateCollect build (lookup pools) opp.route opp.inputAmount = .ok (some opp.hopOutputs)
  unordered : ∀ pools', pools'.Perm pools → ∀ best, findBest build pools params = .ok best →
    ∃ best', findBest build pools' params = .ok best' ∧
      best'.map Opportunity.netProfit = best.map Opportunity.netProfit

section complete
variable {build : Build} {pools : List PoolState} {params : ScanParams} {route : List Hop}

theorem mem_candidates {byId : PoolId → Option PoolState} {inputs : List U64} {input : U64}
    (listed : candidates build byId route params = .ok inputs) (member : input ∈ params.candidateInputs) :
    input ∈ inputs := by
  unfold candidates at listed
  split at listed
  · split at listed
    · rw [bind_ok] at listed
      obtain ⟨searched,-,listed⟩ := listed
      split at listed
      · obtain rfl := Except.ok.inj listed
        exact List.mem_append_left _ member
      · obtain rfl := Except.ok.inj listed
        exact member
    · obtain rfl := Except.ok.inj listed
      exact member
  · obtain rfl := Except.ok.inj listed
    exact member

theorem Profitable.evaluated {input output : U64} (profit : Profitable build pools params route input output) :
    ∃ opp, evaluateInput build (lookup pools) route params input = .ok (some opp) ∧
      opp.netProfit.val = signedNet params input output :=
  evaluateInput_clears profit.simulated profit.gains profit.clears

theorem sizeRoute_reaches {input output : U64} (profit : Profitable build pools params route input output)
    {result : Option Opportunity} (sized : sizeRoute build (lookup pools) params route = .ok result) :
    ∃ opp, result = some opp ∧ signedNet params input output ≤ opp.netProfit.val := by
  obtain ⟨inputs,values,listed,mapped,rfl⟩ := sizeRoute_ok profit.cycle.nonempty sized
  obtain ⟨opp,evaluated,net⟩ := profit.evaluated
  obtain ⟨value,member,ran⟩ := mapM_ran mapped (mem_candidates listed profit.candidate)
  obtain rfl := Except.ok.inj (evaluated.symm.trans ran)
  obtain ⟨best,chosen,reached⟩ := FirstMax.firstMax_reaches Opportunity.netProfit (List.reduceOption_mem_iff.mpr member)
  refine ⟨best,chosen,?_⟩
  rw [← net]
  exact_mod_cast reached

theorem findBest_reaches {input output : U64} (profit : Profitable build pools params route input output)
    {result : Option Opportunity} (scanned : findBest build pools params = .ok result) :
    ∃ opp, result = some opp ∧ signedNet params input output ≤ opp.netProfit.val := by
  obtain ⟨values,mapped,rfl⟩ := findBest_ok.mp scanned
  obtain ⟨value,member,sized⟩ := mapM_ran mapped (mem_findCycles.mpr ⟨profit.cycle,profit.offered⟩)
  obtain ⟨opp,rfl,least⟩ := sizeRoute_reaches profit sized
  obtain ⟨best,chosen,reached⟩ := FirstMax.firstMax_reaches Opportunity.netProfit (List.reduceOption_mem_iff.mpr member)
  refine ⟨best,chosen,least.trans ?_⟩
  exact_mod_cast reached

theorem findBest_genuine {opp : Opportunity} (scanned : findBest build pools params = .ok (some opp)) :
    Cycle pools params.baseToken params.maxHops opp.route ∧ (∀ hop ∈ opp.route, Offered pools hop) ∧
      simulateCollect build (lookup pools) opp.route opp.inputAmount = .ok (some opp.hopOutputs) := by
  obtain ⟨route,listed,input,evaluated⟩ := findBest_some scanned
  obtain ⟨cycle,offered⟩ := mem_findCycles.mp listed
  obtain ⟨outs,output,collected,-,-,rfl,-⟩ := evaluateInput_some.mp evaluated
  exact ⟨cycle,offered,collected⟩

theorem findBest_unordered {pools' : List PoolState} (unique : (pools.map PoolState.id).Nodup)
    (permuted : pools'.Perm pools) {best : Option Opportunity} (scanned : findBest build pools params = .ok best) :
    ∃ best', findBest build pools' params = .ok best' ∧
      best'.map Opportunity.netProfit = best.map Opportunity.netProfit := by
  obtain ⟨values,mapped,rfl⟩ := findBest_ok.mp scanned
  have each : ∀ route ∈ findCycles (buildAdjacency pools') params.baseToken params.maxHops,
      ∃ value, sizeRoute build (lookup pools) params route = .ok value := by
    intro route listed
    obtain ⟨value,-,sized⟩ := mapM_ran mapped ((mem_findCycles_perm permuted).mp listed)
    exact ⟨value,sized⟩
  obtain ⟨values',mapped'⟩ := mapM_of_forall each
  refine ⟨_,findBest_ok.mpr ⟨values',?_,rfl⟩,FirstMax.firstMax_key_congr _ fun opp => ?_⟩
  · rw [lookup_perm unique permuted]
    exact mapped'
  rw [List.reduceOption_mem_iff,List.reduceOption_mem_iff]
  constructor
  · intro member
    obtain ⟨route,listed,sized⟩ := mapM_mem mapped' member
    obtain ⟨value,inside,same⟩ := mapM_ran mapped ((mem_findCycles_perm permuted).mp listed)
    exact Except.ok.inj (sized.symm.trans same) ▸ inside
  · intro member
    obtain ⟨route,listed,sized⟩ := mapM_mem mapped member
    obtain ⟨value,inside,same⟩ := mapM_ran mapped' ((mem_findCycles_perm permuted).mpr listed)
    exact Except.ok.inj (sized.symm.trans same) ▸ inside

/-- The scan keeps its promises exactly where no searched cycle makes the optimizer
climb to the last `u64`, or nothing on the grid is profitable anyway. -/
theorem findBest_complete_iff (unique : (pools.map PoolState.id).Nodup) (quotes : QuotesReturn build pools params) :
    MissesNothing build pools params ↔
      ((∃ route input output, Profitable build pools params route input output) →
        ∀ route ∈ findCycles (buildAdjacency pools) params.baseToken params.maxHops,
          ¬ ClimbsToTop build (lookup pools) params route) := by
  constructor
  · rintro complete ⟨route,input,output,profit⟩ searched listed
    obtain ⟨opp,scanned,-⟩ := complete.found route input output profit
    exact findBest_settles scanned listed
  · intro settles
    refine ⟨?_,fun opp => findBest_genuine,fun pools' permuted best => findBest_unordered unique permuted⟩
    intro route input output profit
    cases scanned : findBest build pools params with
    | ok result =>
      obtain ⟨opp,rfl,least⟩ := findBest_reaches profit scanned
      exact ⟨opp,rfl,least⟩
    | error fault =>
      obtain ⟨searched,listed,failed⟩ := FirstMax.bestOf_error _ scanned
      exact absurd (sizeRoute_error failed (quotes fault scanned)) (settles ⟨route,input,output,profit⟩ searched listed)

def cheapAsk : PoolState := .v2 "ask" .ammV2 "A" "B" 1000000 1000000 30

def dearBid : PoolState := .v2 "bid" .ammV2 "A" "B" 1100000 1000000 30

theorem findBest_complete_small : MissesNothing .debug [cheapAsk,dearBid] ⟨"A",3,[500,1000],10,0,1⟩ := by
  have scans : (findBest .debug [cheapAsk,dearBid] ⟨"A",3,[500,1000],10,0,1⟩).toOption.isSome := by decide +kernel
  cases scanned : findBest .debug [cheapAsk,dearBid] ⟨"A",3,[500,1000],10,0,1⟩ with
  | error fault =>
    rw [scanned] at scans
    cases scans
  | ok result =>
    exact (findBest_complete_iff (by decide) (quotesReturn_of_ok scanned)).mpr fun _ _ listed => findBest_settles scanned listed

/-- However large the input, it pays out all but one of its tokens. -/
def coarsePool : PoolState := .v2 "coarse" .ammV2 "A" "B" 1 1099511627776 0

def steepPool : PoolState := .clmm "steep" .cetus "B" "A" ⟨75567087660935489255168,18446744073709551616,0,[]⟩

/-- Both quotes of the cycle return, and the smaller size gains one unit, but the
grid ends at the last `u64`. -/
theorem findBest_incomplete :
    let pools := [coarsePool,steepPool]
    let params : ScanParams := ⟨"A",2,[18446744073709551614,18446744073709551615],0,0,1⟩
    let route : List Hop := [⟨"coarse",.ammV2,"A","B",true⟩,⟨"steep",.cetus,"B","A",true⟩]
    (pools.map PoolState.id).Nodup ∧ QuotesReturn .debug pools params ∧
      Profitable .debug pools params route 18446744073709551614 18446744073709551615 ∧
      findBest .debug pools params = .error (.panic (.arithmetic 64)) ∧ ¬ MissesNothing .debug pools params := by
  intro pools params route
  have panics : findBest .debug pools params = .error (.panic (.arithmetic 64)) := by decide +kernel
  have listed : route ∈ findCycles (buildAdjacency pools) params.baseToken params.maxHops := by decide +kernel
  have simulated : simulate .debug (lookup pools) route 18446744073709551614 = .ok (some 18446744073709551615) := by
    decide +kernel
  have profit : Profitable .debug pools params route 18446744073709551614 18446744073709551615 :=
    ⟨(mem_findCycles.mp listed).1,(mem_findCycles.mp listed).2,by decide,simulated,by decide,by decide⟩
  refine ⟨by decide,quotesReturn_of_overflow panics,profit,panics,fun complete => ?_⟩
  obtain ⟨opp,scanned,-⟩ := complete.found _ _ _ profit
  rw [panics] at scanned
  cases scanned

end complete

end SuiArbitrage.Rust.Scanner
