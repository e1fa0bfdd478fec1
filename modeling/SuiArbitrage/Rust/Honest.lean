import SuiArbitrage.Rust.Evaluate
import SuiArbitrage.Rust.Liquidation

/-! What an emitted opportunity says about itself. Both sources clamp a loss to a net
of zero, so an opportunity is honest exactly where the clamp did not bite at the one
that was chosen. -/
namespace SuiArbitrage.Rust
open MachineWord Fallible

namespace Scanner

/-- The amounts of the opportunity add up over the integers and clear the floor. -/
structure Opportunity.Honest (gasCost minProfit : U64) (opp : Opportunity) : Prop where
  balance : opp.outputAmount.val =
    opp.inputAmount.val + gasCost.val + opp.flashFee.val + opp.netProfit.val
  floor : minProfit ≤ opp.netProfit
  gross : opp.grossProfit.val + opp.inputAmount.val = opp.outputAmount.val
  hops : opp.hopOutputs.length = opp.route.length
  last : opp.hopOutputs.getLast? = some opp.outputAmount

def Opportunity.signed (gasCost : U64) (opp : Opportunity) : ℤ :=
  opp.outputAmount.val - opp.inputAmount.val - gasCost.val - opp.flashFee.val

/-- What both sources guarantee of every opportunity they build. -/
structure Opportunity.Clamped (gasCost minProfit : U64) (opp : Opportunity) : Prop where
  net : (opp.netProfit.val : ℤ) = max 0 (opp.signed gasCost)
  floor : minProfit ≤ opp.netProfit
  gross : opp.grossProfit.val = opp.outputAmount.val - opp.inputAmount.val
  hops : opp.hopOutputs.length = opp.route.length
  last : opp.hopOutputs.getLast? = some opp.outputAmount

/-- The first of the nets is no loss, or one of them is a profit. -/
def Covers (nets : List ℤ) : Prop := (∃ net ∈ nets, 0 < net) ∨ ∀ net ∈ nets.head?, 0 ≤ net

section choice
variable {gasCost minProfit : U64} {opps : List Opportunity} {nets : List ℤ}

theorem Opportunity.Clamped.honest_iff {opp : Opportunity} (clamped : opp.Clamped gasCost minProfit) :
    opp.Honest gasCost minProfit ↔ 0 ≤ opp.signed gasCost := by
  have net := clamped.net
  unfold Opportunity.signed at net ⊢
  constructor
  · intro honest
    have balance := honest.balance
    omega
  · intro positive
    have gross := clamped.gross
    exact ⟨by omega,clamped.floor,by omega,clamped.hops,clamped.last⟩

/-- The opportunities built in a sweep, and the nets of all that it could have built. -/
structure Swept (gasCost minProfit : U64) (opps : List Opportunity) (nets : List ℤ) : Prop where
  clamped : ∀ opp ∈ opps, opp.Clamped gasCost minProfit
  complete : minProfit = 0 → opps.map (Opportunity.signed gasCost) = nets

theorem Swept.nil : Swept gasCost minProfit [] [] := ⟨nofun,fun _ => rfl⟩

theorem Swept.append {opps' : List Opportunity} {nets' : List ℤ} (first : Swept gasCost minProfit opps nets)
    (second : Swept gasCost minProfit opps' nets') : Swept gasCost minProfit (opps ++ opps') (nets ++ nets') := by
  refine ⟨fun opp member => ?_,fun free => ?_⟩
  · rcases List.mem_append.mp member with one | two
    · exact first.clamped opp one
    · exact second.clamped opp two
  · rw [List.map_append,first.complete free,second.complete free]

/-- Without a floor the choice is honest exactly where the nets cover it. -/
theorem Swept.choice_iff (swept : Swept gasCost 0 opps nets) :
    (∀ opp, FirstMax.firstMax Opportunity.netProfit opps = some opp → 0 ≤ opp.signed gasCost) ↔ Covers nets := by
  have netsEq := swept.complete rfl
  constructor
  · intro honest
    by_cases profit : ∃ net ∈ nets, 0 < net
    · exact .inl profit
    right
    intro net first
    rw [← netsEq] at profit first
    cases opps with
    | nil => cases first
    | cons opp rest =>
      obtain rfl := Option.some.inj first
      apply honest
      apply FirstMax.firstMax_cons_of_le
      intro other member
      have listed : other ∈ opp :: rest := List.mem_cons_of_mem _ member
      have zero := (swept.clamped other listed).net
      have loss : ¬ 0 < other.signed gasCost := fun positive =>
        profit ⟨_,List.mem_map_of_mem listed,positive⟩
      rw [Fin.le_def]
      omega
  · intro covers opp chosen
    obtain ⟨member,largest⟩ := FirstMax.firstMax_mem _ chosen
    have net := (swept.clamped opp member).net
    by_cases zero : opp.netProfit.val = 0
    · rcases covers with ⟨net',listed,positive⟩ | first
      · rw [← netsEq] at listed
        obtain ⟨other,found,rfl⟩ := List.mem_map.mp listed
        have atMost : other.netProfit.val ≤ opp.netProfit.val := largest other found
        have otherNet := (swept.clamped other found).net
        omega
      · cases opps with
        | nil => cases member
        | cons head rest =>
          have kept : FirstMax.firstMax Opportunity.netProfit (head :: rest) = some head := by
            apply FirstMax.firstMax_cons_of_le
            intro other found
            have atMost : other.netProfit.val ≤ opp.netProfit.val := largest other (List.mem_cons_of_mem _ found)
            rw [Fin.le_def]
            omega
          obtain rfl := Option.some.inj (kept.symm.trans chosen)
          apply first
          rw [← netsEq]
          rfl
    · omega

theorem Swept.honest_iff (swept : Swept gasCost minProfit opps nets) :
    (∀ opp, FirstMax.firstMax Opportunity.netProfit opps = some opp → opp.Honest gasCost minProfit) ↔
      0 < minProfit ∨ Covers nets := by
  have reduce : (∀ opp, FirstMax.firstMax Opportunity.netProfit opps = some opp → opp.Honest gasCost minProfit) ↔
      ∀ opp, FirstMax.firstMax Opportunity.netProfit opps = some opp → 0 ≤ opp.signed gasCost :=
    forall₂_congr fun opp chosen =>
      (swept.clamped opp (FirstMax.firstMax_mem _ chosen).1).honest_iff
  rw [reduce]
  by_cases free : minProfit = 0
  · subst free
    rw [swept.choice_iff]
    simp
  · have floored : 0 < minProfit := Fin.pos_iff_ne_zero.mpr free
    simp only [floored,true_or,iff_true]
    intro opp chosen
    have clamped := swept.clamped opp (FirstMax.firstMax_mem _ chosen).1
    have net := clamped.net
    have above : 0 < opp.netProfit.val := lt_of_lt_of_le floored clamped.floor
    omega

end choice

section loops
variable {α : Type} {gasCost minProfit : U64} {items : List α}

theorem sweep_options {evaluate : α → Rust (Option Opportunity)} {net : α → Rust (Option ℤ)}
    (faithful : ∀ item value, evaluate item = .ok value →
      ∃ n, net item = .ok n ∧ Swept gasCost minProfit value.toList n.toList)
    {values : List (Option Opportunity)} (mapped : items.mapM evaluate = .ok values) :
    ∃ nets, items.mapM net = .ok nets ∧ Swept gasCost minProfit values.reduceOption nets.reduceOption := by
  induction items generalizing values with
  | nil =>
    obtain rfl := Except.ok.inj mapped
    exact ⟨[],rfl,.nil⟩
  | cons item rest ih =>
    simp only [List.mapM_cons,bind_ok,pure_ok] at mapped
    obtain ⟨value,evaluated,later,mapped,rfl⟩ := mapped
    obtain ⟨n,ran,here⟩ := faithful item value evaluated
    obtain ⟨nets,onward,there⟩ := ih mapped
    refine ⟨n :: nets,?_,?_⟩
    · simp only [List.mapM_cons,ran,onward,ok_bind,pure_eq_ok]
    · have whole := here.append there
      cases value <;> cases n <;> simpa [List.reduceOption] using whole

theorem sweep_groups {size : α → Rust (Option Opportunity)} {netsOf : α → Rust (List ℤ)}
    (faithful : ∀ item ∈ items, ∀ value, size item = .ok value → ∃ opps nets, netsOf item = .ok nets ∧
      value = FirstMax.firstMax Opportunity.netProfit opps ∧ Swept gasCost minProfit opps nets)
    {result : Option Opportunity} (ran : FirstMax.bestOf Opportunity.netProfit size items = .ok result) :
    ∃ opps nets, items.mapM netsOf = .ok nets ∧ result = FirstMax.firstMax Opportunity.netProfit opps ∧
      Swept gasCost minProfit opps nets.flatten := by
  obtain ⟨values,mapped,chosen⟩ := (FirstMax.bestOf_ok _).mp ran
  have groups : ∃ (opps : List (List Opportunity)) (nets : List (List ℤ)), items.mapM netsOf = .ok nets ∧
      values = opps.map (FirstMax.firstMax Opportunity.netProfit) ∧
      Swept gasCost minProfit opps.flatten nets.flatten := by
    clear chosen ran
    induction items generalizing values with
    | nil =>
      obtain rfl := Except.ok.inj mapped
      exact ⟨[],[],rfl,rfl,.nil⟩
    | cons item rest ih =>
      simp only [List.mapM_cons,bind_ok,pure_ok] at mapped
      obtain ⟨value,sized,later,mapped,rfl⟩ := mapped
      obtain ⟨opps,nets,here,rfl,swept⟩ := faithful item List.mem_cons_self value sized
      obtain ⟨oppss,netss,onward,rfl,sweptLater⟩ :=
        ih (fun item member => faithful item (List.mem_cons_of_mem _ member)) later mapped
      refine ⟨opps :: oppss,nets :: netss,?_,rfl,?_⟩
      · simp only [List.mapM_cons,here,onward,ok_bind,pure_eq_ok]
      · simpa using swept.append sweptLater
  obtain ⟨opps,nets,onward,rfl,swept⟩ := groups
  exact ⟨opps.flatten,nets,onward,chosen.trans (FirstMax.firstMax_flatten _ opps),swept⟩

end loops

section scan
variable (build : Build) (byId : PoolId → Option PoolState)

def gainNet (route : List Hop) (params : ScanParams) (input : U64) : Rust (Option ℤ) :=
  andThen (simulate build byId route input) fun output =>
    .ok (if output ≤ input then none else some (signedNet params input output))

def routeNets (params : ScanParams) (route : List Hop) : Rust (List ℤ) := do
  let inputs ← candidates build byId route params
  let nets ← inputs.mapM (gainNet build byId route params)
  return nets.reduceOption

/-- The signed nets of all sizes that the scan evaluates and that end with more than
they start with, in its order. -/
def gainNets (pools : List PoolState) (params : ScanParams) : Rust (List ℤ) := do
  let cycles := findCycles (buildAdjacency pools) params.baseToken params.maxHops
  let nets ← cycles.mapM (routeNets build (lookup pools) params)
  return nets.flatten

variable {build byId}

theorem opportunityAt_clamped {route : List Hop} {params : ScanParams} {input output : U64} {outs : List U64}
    (collected : simulateCollect build byId route input = .ok (some outs)) (last : outs.getLast? = some output)
    (gains : input < output)
    (clears : params.minProfit ≤ (opportunityAt params route input output outs).netProfit) :
    (opportunityAt params route input output outs).Clamped params.gasCost params.minProfit := by
  refine ⟨opportunityAt_net gains,clears,?_,?_,last⟩
  · exact saturatingSub_val _ _
  · exact collect_length (simulateCollect_some.mp collected).2

theorem evaluateInput_swept {route : List Hop} {params : ScanParams} {input : U64} {value : Option Opportunity}
    (evaluated : evaluateInput build byId route params input = .ok value) :
    ∃ n, gainNet build byId route params input = .ok n ∧
      Swept params.gasCost params.minProfit value.toList n.toList := by
  cases collected : simulateCollect build byId route input with
  | error fault =>
    rw [evaluateInput,collected,andThen,error_bind] at evaluated
    cases evaluated
  | ok found =>
    cases found with
    | none =>
      rw [evaluateInput,collected,andThen,ok_bind] at evaluated
      obtain rfl := Except.ok.inj evaluated
      refine ⟨none,?_,.nil⟩
      rw [gainNet,simulate,collected]
      rfl
    | some outs =>
      cases last : outs.getLast? with
      | none =>
        rw [evaluateInput,collected,ok_some_andThen,last] at evaluated
        obtain rfl := Except.ok.inj evaluated
        refine ⟨none,?_,.nil⟩
        rw [gainNet,simulate,collected,ok_some_andThen,last]
        rfl
      | some output =>
        have simulated : simulate build byId route input = .ok (some output) :=
          simulate_some.mpr ⟨outs,collected,last⟩
        rw [gainNet,simulated,ok_some_andThen]
        refine ⟨_,rfl,?_⟩
        rw [evaluateInput_of_collected collected last] at evaluated
        by_cases gains : output ≤ input
        · rw [if_pos gains] at evaluated ⊢
          obtain rfl := Except.ok.inj evaluated
          exact .nil
        · rw [if_neg gains] at evaluated ⊢
          have gains := not_le.mp gains
          split at evaluated
          · rename_i short
            obtain rfl := Except.ok.inj evaluated
            refine ⟨List.forall_mem_nil _,fun free => ?_⟩
            rw [free] at short
            exact absurd short (Fin.not_lt_zero _)
          · rename_i clears
            obtain rfl := Except.ok.inj evaluated
            refine ⟨fun opp member => ?_,fun _ => rfl⟩
            obtain rfl := List.mem_singleton.mp member
            exact opportunityAt_clamped collected last gains (not_lt.mp clears)

theorem sizeRoute_swept {route : List Hop} {params : ScanParams} (nonempty : route ≠ [])
    {value : Option Opportunity} (sized : sizeRoute build byId params route = .ok value) :
    ∃ opps nets, routeNets build byId params route = .ok nets ∧
      value = FirstMax.firstMax Opportunity.netProfit opps ∧ Swept params.gasCost params.minProfit opps nets := by
  obtain ⟨inputs,values,listed,mapped,chosen⟩ := sizeRoute_ok nonempty sized
  obtain ⟨nets,onward,swept⟩ := sweep_options (fun _ _ => evaluateInput_swept) mapped
  refine ⟨values.reduceOption,nets.reduceOption,?_,chosen,swept⟩
  simp only [routeNets,listed,onward,ok_bind,pure_eq_ok]

theorem findBest_swept {pools : List PoolState} {params : ScanParams} {result : Option Opportunity}
    (scanned : findBest build pools params = .ok result) :
    ∃ opps nets, gainNets build pools params = .ok nets ∧
      result = FirstMax.firstMax Opportunity.netProfit opps ∧ Swept params.gasCost params.minProfit opps nets := by
  obtain ⟨opps,nets,mapped,chosen,swept⟩ := sweep_groups
    (fun route listed _ sized => sizeRoute_swept (findCycles_cycle listed).nonempty sized) scanned
  refine ⟨opps,nets.flatten,?_,chosen,swept⟩
  simp only [gainNets,mapped,ok_bind,pure_eq_ok]

/-- The scanner's own signed objective at the chosen size is the opportunity's. -/
theorem findBest_objective {pools : List PoolState} {params : ScanParams} {opp : Opportunity}
    (found : findBest build pools params = .ok (some opp)) :
    netSigned build (lookup pools) opp.route params opp.inputAmount = .ok (some (opp.signed params.gasCost)) := by
  obtain ⟨route,-,input,evaluated⟩ := findBest_some found
  obtain ⟨outs,output,collected,last,-,rfl,-⟩ := evaluateInput_some.mp evaluated
  exact netSigned_some.mpr ⟨output,simulate_some.mpr ⟨outs,collected,last⟩,rfl⟩

end scan

end Scanner

namespace Liquidation
open Scanner

section sweep
variable {F : Type} [F64 F] (build : Build)

def fractionNet (debt collateral : AssetParams F) (swap : SwapBack) (lp : LiqParams F) (maxRepay available : U64)
    (frac : F) : Rust (Option ℤ) :=
  let repay := F64.toU64 (F64.ofU64 maxRepay * frac)
  let seized := seizedForRepay repay debt collateral lp.liquidationBonus available
  if repay = 0 ∨ seized = 0 then .ok none
  else
    andThen (Clmm.quoteExactIn build swap.state seized swap.aToB) fun debtOut =>
      .ok (some (debtOut.val - repay.val - lp.gasCost.val - (Flashloan.quoteFeeBps repay lp.flashFeeBps).val))

def pairNets (ob : Obligation) (params : TokenId → Option (AssetParams F)) (pools : List PoolState)
    (lp : LiqParams F) (pair : Position × Position) : Rust (List ℤ) :=
  match pairing params pools pair with
  | none => .ok []
  | some (debt,collateral,swap) =>
    match repayable ob debt collateral lp with
    | none => .ok []
    | some (maxRepay,available) => do
      let nets ← lp.candidateFractions.mapM (fractionNet build debt collateral swap lp maxRepay available)
      return nets.reduceOption

/-- The signed nets of all repay fractions whose proceeds can be quoted, in the order
of the sweep. -/
def liquidationNets (ob : Obligation) (params : TokenId → Option (AssetParams F)) (pools : List PoolState)
    (lp : LiqParams F) (healthMargin : F) : Rust (List ℤ) :=
  if isLiquidatable ob params healthMargin then do
    let nets ← (positionPairs ob).mapM (pairNets build ob params pools lp)
    return nets.flatten
  else .ok []

variable {build} {ob : Obligation} {lp : LiqParams F}

omit [F64 F] in
theorem opportunity_clamped {debt collateral : AssetParams F} {swap : SwapBack} {repay debtOut : U64}
    (clears : lp.minProfit ≤ saturatingSub debtOut
      (saturatingAdd (saturatingAdd repay (Flashloan.quoteFeeBps repay lp.flashFeeBps)) lp.gasCost)) :
    (opportunity ob debt collateral swap repay debtOut (Flashloan.quoteFeeBps repay lp.flashFeeBps)
      (saturatingSub debtOut (saturatingAdd (saturatingAdd repay (Flashloan.quoteFeeBps repay lp.flashFeeBps))
        lp.gasCost))).Clamped lp.gasCost lp.minProfit := by
  refine ⟨?_,clears,saturatingSub_val _ _,rfl,rfl⟩
  have most := debtOut.isLt
  simp only [opportunity,Opportunity.signed,saturatingSub_val,saturatingAdd_val]
  omega

theorem sizeFraction_swept {debt collateral : AssetParams F} {swap : SwapBack} {maxRepay available : U64}
    {frac : F} {value : Option Opportunity}
    (sized : sizeFraction build ob debt collateral swap lp maxRepay available frac = .ok value) :
    ∃ n, fractionNet build debt collateral swap lp maxRepay available frac = .ok n ∧
      Swept lp.gasCost lp.minProfit value.toList n.toList := by
  simp only [sizeFraction] at sized
  simp only [fractionNet]
  split at sized
  · rename_i refused
    obtain rfl := Except.ok.inj sized
    rw [if_pos refused]
    exact ⟨none,rfl,.nil⟩
  rename_i accepted
  rw [if_neg accepted]
  cases quoted : Clmm.quoteExactIn build swap.state
      (seizedForRepay (F64.toU64 (F64.ofU64 maxRepay * frac)) debt collateral lp.liquidationBonus available)
      swap.aToB with
  | error fault =>
    rw [quoted,andThen,error_bind] at sized
    cases sized
  | ok found =>
    cases found with
    | none =>
      rw [quoted,andThen,ok_bind] at sized
      obtain rfl := Except.ok.inj sized
      rw [andThen,ok_bind]
      exact ⟨none,rfl,.nil⟩
    | some debtOut =>
      rw [quoted,ok_some_andThen] at sized
      rw [ok_some_andThen]
      refine ⟨_,rfl,?_⟩
      split at sized
      · rename_i short
        obtain rfl := Except.ok.inj sized
        refine ⟨List.forall_mem_nil _,fun free => ?_⟩
        rw [free] at short
        exact absurd short (Fin.not_lt_zero _)
      · rename_i clears
        obtain rfl := Except.ok.inj sized
        refine ⟨fun opp member => ?_,fun _ => rfl⟩
        obtain rfl := List.mem_singleton.mp member
        exact opportunity_clamped (not_lt.mp clears)

theorem sizeLiquidation_swept {params : TokenId → Option (AssetParams F)} {pools : List PoolState}
    {pair : Position × Position} {value : Option Opportunity}
    (sized : (andThen (.ok (pairing params pools pair)) fun (debt,collateral,swap) =>
      sizeLiquidation build ob debt collateral swap lp) = .ok value) :
    ∃ opps nets, pairNets build ob params pools lp pair = .ok nets ∧
      value = FirstMax.firstMax Opportunity.netProfit opps ∧ Swept lp.gasCost lp.minProfit opps nets := by
  unfold pairNets
  cases paired : pairing params pools pair with
  | none =>
    rw [paired,andThen,ok_bind] at sized
    exact ⟨[],[],rfl,(Except.ok.inj sized).symm,.nil⟩
  | some found =>
    obtain ⟨debt,collateral,swap⟩ := found
    rw [paired,ok_some_andThen] at sized
    simp only [sizeLiquidation] at sized ⊢
    cases bounds : repayable ob debt collateral lp with
    | none =>
      rw [bounds,andThen,ok_bind] at sized
      exact ⟨[],[],rfl,(Except.ok.inj sized).symm,.nil⟩
    | some limits =>
      rw [bounds,ok_some_andThen] at sized
      obtain ⟨values,mapped,chosen⟩ := (FirstMax.bestOf_ok _).mp sized
      obtain ⟨nets,onward,swept⟩ := sweep_options (fun _ _ => sizeFraction_swept) mapped
      refine ⟨values.reduceOption,nets.reduceOption,?_,chosen,swept⟩
      simp only [onward,ok_bind,pure_eq_ok]

theorem detectObligation_swept {params : TokenId → Option (AssetParams F)} {pools : List PoolState}
    {healthMargin : F} {result : Option Opportunity}
    (detected : detectObligation build ob params pools lp healthMargin = .ok result) :
    ∃ opps nets, liquidationNets build ob params pools lp healthMargin = .ok nets ∧
      result = FirstMax.firstMax Opportunity.netProfit opps ∧ Swept lp.gasCost lp.minProfit opps nets := by
  unfold detectObligation at detected
  unfold liquidationNets
  split at detected
  · rename_i liquidatable
    obtain ⟨opps,nets,mapped,chosen,swept⟩ :=
      sweep_groups (fun _ _ _ sized => sizeLiquidation_swept sized) detected
    refine ⟨opps,nets.flatten,?_,chosen,swept⟩
    simp only [liquidatable,if_true,mapped,ok_bind,pure_eq_ok]
  · rename_i healthy
    rw [if_neg healthy]
    exact ⟨[],[],rfl,(Except.ok.inj detected).symm,.nil⟩

end sweep

end Liquidation

namespace Scanner
open Liquidation

/-- An emitted opportunity is honest exactly under a floor of at least one, or where
the first of the signed nets is no loss or one of them is a profit. -/
theorem opportunities_honest_iff (build : Build) :
    (∀ (pools : List PoolState) (params : ScanParams) (result : Option Opportunity),
      findBest build pools params = .ok result →
      ∃ nets, gainNets build pools params = .ok nets ∧
        ((∀ opp, result = some opp → opp.Honest params.gasCost params.minProfit ∧
          netSigned build (lookup pools) opp.route params opp.inputAmount = .ok (some opp.netProfit.val)) ↔
        0 < params.minProfit ∨ Covers nets)) ∧
    ∀ (F : Type) [F64 F] (ob : Obligation) (params : TokenId → Option (AssetParams F))
      (pools : List PoolState) (lp : LiqParams F) (healthMargin : F) (result : Option Opportunity),
      detectObligation build ob params pools lp healthMargin = .ok result →
      ∃ nets, liquidationNets build ob params pools lp healthMargin = .ok nets ∧
        ((∀ opp, result = some opp → opp.Honest lp.gasCost lp.minProfit) ↔ 0 < lp.minProfit ∨ Covers nets) := by
  constructor
  · intro pools params result scanned
    obtain ⟨opps,nets,computed,rfl,swept⟩ := findBest_swept scanned
    refine ⟨nets,computed,?_⟩
    rw [← swept.honest_iff]
    refine forall₂_congr fun opp chosen => and_iff_left_of_imp fun honest => ?_
    have objective := findBest_objective (scanned.trans (congrArg _ chosen))
    have balance := honest.balance
    have net : opp.signed params.gasCost = opp.netProfit.val := by
      simp only [Opportunity.signed]
      omega
    rw [objective,net]
  · intro F _ ob params pools lp healthMargin result detected
    obtain ⟨opps,nets,computed,rfl,swept⟩ := detectObligation_swept detected
    exact ⟨nets,computed,swept.honest_iff⟩

def cheapPool : PoolState := .v2 "cheap" .ammV2 "A" "B" 1000000 1000000 30

def dearPool : PoolState := .v2 "dear" .ammV2 "A" "B" 1100000 1000000 30

/-- A profit of 90 units before gas, and gas of 50 units. -/
theorem opportunities_honest_small :
    let params : ScanParams := ⟨"A",2,[1000],50,0,0⟩
    let opp : Opportunity := ⟨.arb,none,[⟨"cheap",.ammV2,"A","B",true⟩,⟨"dear",.ammV2,"B","A",false⟩],1000,1091,
      [996,1091],91,0,41⟩
    findBest .debug [cheapPool,dearPool] params = .ok (some opp) ∧ opp.Honest 50 0 := by
  intro params opp
  have found : findBest .debug [cheapPool,dearPool] params = .ok (some opp) := by decide +kernel
  obtain ⟨nets,computed,honest⟩ := (opportunities_honest_iff .debug).1 _ _ _ found
  have nets' : gainNets .debug [cheapPool,dearPool] params = .ok [41] := by decide +kernel
  obtain rfl := Except.ok.inj (computed.symm.trans nets')
  exact ⟨found,(honest.mpr (.inr (.inl ⟨41,by simp,by norm_num⟩)) opp rfl).1⟩

/-- The same market with gas of 1000 units: a loss of 909 units is emitted as a net of zero. -/
theorem opportunity_dishonest :
    let params : ScanParams := ⟨"A",2,[1000],1000,0,0⟩
    ∃ opp, findBest .debug [cheapPool,dearPool] params = .ok (some opp) ∧
      netSigned .debug (lookup [cheapPool,dearPool]) opp.route params opp.inputAmount = .ok (some (-909)) ∧
      opp.netProfit = 0 ∧ ¬ opp.Honest params.gasCost params.minProfit := by
  intro params
  let opp : Opportunity := ⟨.arb,none,[⟨"cheap",.ammV2,"A","B",true⟩,⟨"dear",.ammV2,"B","A",false⟩],1000,1091,
    [996,1091],91,0,0⟩
  have found : findBest .debug [cheapPool,dearPool] params = .ok (some opp) := by decide +kernel
  refine ⟨opp,found,by decide +kernel,rfl,fun honest => ?_⟩
  exact absurd honest.balance (by decide)

end Scanner

end SuiArbitrage.Rust
