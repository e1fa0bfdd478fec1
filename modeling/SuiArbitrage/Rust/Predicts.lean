import SuiArbitrage.Move.Market
import SuiArbitrage.Rust.Evaluate

/-! The simulation against the chain. The simulation quotes every hop on the same
snapshot while each swap changes its pool, so the two agree because no found route
comes back to a pool. -/
namespace SuiArbitrage.Rust.Scanner
open MachineWord Fallible Move

def Hop.coins (hop : Hop) : TypeTag × TypeTag :=
  if hop.aToB then (hop.tokenIn,hop.tokenOut) else (hop.tokenOut,hop.tokenIn)

/-- The route hop by hop on the chain, without floors: the amount after each hop. -/
def execute (market : Pools) : List Hop → U64 → Except Failure (Pools × List U64)
  | [],_ => .ok (market,[])
  | hop :: rest,amount => do
    let (market,out) ← market.swap hop.coins.1 hop.coins.2 hop.poolId hop.aToB amount 0
    let (market,outs) ← execute market rest out
    return (market,out :: outs)

/-- The chain holds this pool with the reserves and the fee of the snapshot. -/
def Mirrors (market : Pools) (pool : PoolState) : Prop :=
  ∃ reserveA reserveB feeBps, pool.kind = .v2 reserveA reserveB feeBps ∧
    market.get pool.id = some ⟨pool.tokenA,pool.tokenB,⟨pool.id,reserveA,reserveB,feeBps⟩⟩

section hop
variable {build : Build} {market : Pools} {pool : PoolState} {hop : Hop} {amount out : U64}

theorem Crosses.coins (crosses : Crosses pool hop) : hop.coins = (pool.tokenA,pool.tokenB) := by
  obtain ⟨-,tokens⟩ := crosses
  unfold Hop.coins
  split at tokens
  · rename_i forward
    rw [if_pos forward,tokens.1,tokens.2]
  · rename_i backward
    rw [if_neg backward,tokens.1,tokens.2]

theorem quoteHop_mirrored {listed : Listed}
    (kind : pool.kind = .v2 listed.pool.reserveA listed.pool.reserveB listed.pool.feeBps) :
    quoteHop build pool hop amount = Amm.getAmountOut build amount (Pools.quoted listed hop.aToB).1
      (Pools.quoted listed hop.aToB).2 listed.pool.feeBps := by
  unfold quoteHop Pools.quoted
  rw [kind]
  cases hop.aToB with
  | true => simp only [if_true]
  | false => simp only [Bool.false_eq_true,if_false]

theorem swap_predicted (mirrored : Mirrors market pool) (crosses : Crosses pool hop)
    (quoted : quoteHop build pool hop amount = .ok (some out)) :
    market.swap hop.coins.1 hop.coins.2 hop.poolId hop.aToB amount 0 = .error (.abort .arithmetic) ∨
      ∃ after, market.swap hop.coins.1 hop.coins.2 hop.poolId hop.aToB amount 0 = .ok (after,out) := by
  obtain ⟨reserveA,reserveB,feeBps,kind,here⟩ := mirrored
  let onChain : AmmV2.Pool pool.tokenA pool.tokenB := ⟨pool.id,reserveA,reserveB,feeBps⟩
  let listed : Listed := ⟨pool.tokenA,pool.tokenB,onChain⟩
  rw [quoteHop_mirrored (show pool.kind = .v2 listed.pool.reserveA listed.pool.reserveB listed.pool.feeBps from kind)]
    at quoted
  have quotable := (Amm.getAmountOut_le quoted).1
  rw [crosses.coins,crosses.1]
  rcases Pools.swap_of_quotable (show market.get onChain.id = some listed from here) quotable with
    overflow | ⟨after,paid,ran,fits,exact⟩
  · exact .inl overflow
  · obtain ⟨out',quoted',outEq⟩ := Amm.getAmountOut_of_fits build quotable fits
    obtain rfl : out' = out := Option.some.inj (Except.ok.inj (quoted'.symm.trans quoted))
    obtain rfl : paid = out' := Fin.ext (exact.trans outEq.symm)
    exact .inr ⟨after,ran⟩

end hop

section route
variable {build : Build} {pools : List PoolState} {market : Pools} {route : List Hop}

/-- Over distinct pools the chain either follows the simulation or overflows. -/
theorem execute_predicted (unique : (pools.map PoolState.id).Nodup) (distinct : (route.map Hop.poolId).Nodup)
    (crosses : ∀ hop ∈ route, ∃ pool ∈ pools, Crosses pool hop)
    (mirrored : ∀ pool ∈ pools, pool.id ∈ route.map Hop.poolId → Mirrors market pool) {amount : U64}
    {outs : List U64} (collected : collect build (lookup pools) route amount = .ok (some outs)) :
    execute market route amount = .error (.abort .arithmetic) ∨
      ∃ final, execute market route amount = .ok (final,outs) := by
  induction route generalizing market amount outs with
  | nil =>
    obtain rfl := Option.some.inj (Except.ok.inj collected)
    exact .inr ⟨market,rfl⟩
  | cons hop rest ih =>
    obtain ⟨pool,out,tail,found,quoted,onward,rfl⟩ := collect_cons.mp collected
    obtain ⟨crossed,listed,crossing⟩ := crosses hop List.mem_cons_self
    obtain rfl : crossed = pool := Option.some.inj ((lookup_crosses unique listed crossing).symm.trans found)
    rw [List.map_cons,List.nodup_cons] at distinct
    obtain ⟨fresh,distinct⟩ := distinct
    have mirror := mirrored crossed listed (by simp [crossing.1])
    rw [execute]
    rcases swap_predicted mirror crossing quoted with overflow | ⟨after,swapped⟩
    · rw [overflow,error_bind]
      exact .inl rfl
    · rw [swapped,ok_bind]
      have traded := Pools.swap_traded swapped
      have others : ∀ pool ∈ pools, pool.id ∈ rest.map Hop.poolId → Mirrors after pool := by
        intro other member later
        obtain ⟨reserveA,reserveB,feeBps,kind,here⟩ := mirrored other member (List.mem_cons_of_mem _ later)
        have different : hop.poolId ≠ other.id := fun same => fresh (same ▸ later)
        exact ⟨reserveA,reserveB,feeBps,kind,(traded.get_other different).trans here⟩
      rcases ih distinct (fun hop member => crosses hop (List.mem_cons_of_mem _ member)) others onward with
        overflow | ⟨final,executed⟩
      · left
        simp only [overflow,error_bind]
      · simp only [executed,ok_bind]
        exact .inr ⟨final,rfl⟩

/-- A trip through one constant-product pool and back never ends with more. -/
theorem round_trip_no_gain (unique : (pools.map PoolState.id).Nodup) {pool : PoolState} {first second : Hop}
    {reserveA reserveB feeBps input output : U64} (listed : pool ∈ pools)
    (kind : pool.kind = .v2 reserveA reserveB feeBps) (one : Crosses pool first) (two : Crosses pool second)
    (opposite : first.aToB ≠ second.aToB)
    (simulated : simulate build (lookup pools) [first,second] input = .ok (some output)) : output ≤ input := by
  obtain ⟨outs,collected,last⟩ := simulate_some.mp simulated
  obtain ⟨-,collected⟩ := simulateCollect_some.mp collected
  have here := lookup_of_mem unique listed
  obtain ⟨pool₁,middle,tail,found₁,out,onward,rfl⟩ := collect_cons.mp collected
  obtain ⟨pool₂,final,rest,found₂,back,finished,rfl⟩ := collect_cons.mp onward
  obtain rfl := Option.some.inj (Except.ok.inj finished)
  rw [one.1,here] at found₁
  rw [two.1,here] at found₂
  obtain rfl := Option.some.inj found₁
  obtain rfl := Option.some.inj found₂
  obtain rfl : final = output := Option.some.inj last
  let listed : Listed := ⟨pool.tokenA,pool.tokenB,⟨pool.id,reserveA,reserveB,feeBps⟩⟩
  have kind : pool.kind = .v2 listed.pool.reserveA listed.pool.reserveB listed.pool.feeBps := kind
  rw [quoteHop_mirrored kind] at out back
  have there := Amm.getAmountOut_le_spot out
  have again := Amm.getAmountOut_le_spot back
  have flipped : Pools.quoted listed second.aToB =
      ((Pools.quoted listed first.aToB).2,(Pools.quoted listed first.aToB).1) := by
    cases direction : first.aToB <;> cases other : second.aToB <;> simp_all [Pools.quoted]
  have outPos := (Amm.getAmountOut_le out).1.2.2.1
  rw [flipped] at again
  have product : final.val * (Pools.quoted listed first.aToB).2.val ≤
      input.val * (Pools.quoted listed first.aToB).2.val := again.trans there
  exact Nat.le_of_mul_le_mul_right product outPos

/-- A found opportunity visits no pool twice, and its amounts are those of the chain
wherever the chain does not overflow. -/
theorem findBest_predicts {params : ScanParams} {opp : Opportunity} (unique : (pools.map PoolState.id).Nodup)
    (mirrors : ∀ pool ∈ pools, Mirrors market pool) (found : findBest build pools params = .ok (some opp)) :
    (opp.route.map Hop.poolId).Nodup ∧ opp.hopOutputs.getLast? = some opp.outputAmount ∧
      (execute market opp.route opp.inputAmount ≠ .error (.abort .arithmetic) →
        ∃ final, execute market opp.route opp.inputAmount = .ok (final,opp.hopOutputs)) := by
  obtain ⟨route,searched,input,evaluated⟩ := findBest_some found
  have cycle := findCycles_cycle searched
  obtain ⟨outs,output,collected,last,gains,rfl,-⟩ := evaluateInput_some.mp evaluated
  have distinct : (route.map Hop.poolId).Nodup := by
    rcases cycle.distinct_or_round_trip unique with distinct | ⟨first,second,pool,rfl,listed,one,two,opposite⟩
    · exact distinct
    · obtain ⟨reserveA,reserveB,feeBps,kind,-⟩ := mirrors pool listed
      have atMost := round_trip_no_gain unique listed kind one two opposite
        (simulate_some.mpr ⟨outs,collected,last⟩)
      exact absurd gains (not_lt.mpr atMost)
  refine ⟨distinct,last,fun fits => ?_⟩
  have collected := (simulateCollect_some.mp collected).2
  rcases execute_predicted unique distinct cycle.crosses (fun pool member _ => mirrors pool member) collected with
    overflow | executed
  · exact absurd overflow fits
  · exact executed

theorem findBest_predicts_small :
    let pools : List PoolState := [.v2 "cheap" .ammV2 "A" "B" 1000000 1000000 30,.v2 "dear" .ammV2 "A" "B" 1100000 1000000 30]
    let market : Pools := ⟨[⟨"A","B",⟨"cheap",1000000,1000000,30⟩⟩,⟨"A","B",⟨"dear",1100000,1000000,30⟩⟩],by decide⟩
    let params : ScanParams := ⟨"A",2,[1000],50,0,1⟩
    ∃ opp final, findBest .release pools params = .ok (some opp) ∧
      execute market opp.route 1000 = .ok (final,[996,1091]) := by
  intro pools market params
  let opp : Opportunity := ⟨.arb,none,[⟨"cheap",.ammV2,"A","B",true⟩,⟨"dear",.ammV2,"B","A",false⟩],1000,1091,
    [996,1091],91,0,41⟩
  have found : findBest .release pools params = .ok (some opp) := by decide +kernel
  have mirrors : ∀ pool ∈ pools, Mirrors market pool := by
    intro pool member
    rcases List.mem_pair.mp member with rfl | rfl
    · exact ⟨1000000,1000000,30,rfl,by decide⟩
    · exact ⟨1100000,1000000,30,rfl,by decide⟩
  obtain ⟨-,-,follows⟩ := findBest_predicts (by decide) mirrors found
  obtain ⟨final,executed⟩ := follows (by decide +kernel)
  exact ⟨opp,final,found,executed⟩

end route

end SuiArbitrage.Rust.Scanner
