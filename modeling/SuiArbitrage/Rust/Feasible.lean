import SuiArbitrage.Lib.OneRange
import SuiArbitrage.Lib.Thresholds
import SuiArbitrage.Rust.BestSize
import SuiArbitrage.Rust.ClmmRounds

/-! Which inputs of a route over constant-product and single-range pools are quoted: an
interval, below which some hop pays out nothing to trade on. -/
namespace SuiArbitrage.Rust
open MachineWord Fallible ConcentratedLiquidity Thresholds

namespace Clmm

section deltas
variable {build : Build} {aToB roundUp : Bool} {sa sb price next target l amount result : U128}

private theorem sorted_comm (sa sb : U128) :
    (if sa < sb then (sa,sb) else (sb,sa)) = if sb < sa then (sb,sa) else (sa,sb) := by
  rcases lt_trichotomy sa sb with less | same | greater
  · rw [if_pos less,if_neg less.le.not_gt]
  · rw [same]
  · rw [if_neg greater.le.not_gt,if_pos greater]

theorem amount0Delta_comm : amount0Delta build sa sb l roundUp = amount0Delta build sb sa l roundUp := by
  rw [amount0Delta,amount0Delta,sorted_comm]

theorem amount1Delta_comm : amount1Delta build sa sb l roundUp = amount1Delta build sb sa l roundUp := by
  rw [amount1Delta,amount1Delta,sorted_comm]

theorem amount0Delta_between (ran : amount0Delta build sa sb l roundUp = .ok result) :
    result.val = if roundUp then between (firstUp q64.val l.val) sa.val sb.val
      else between (firstDown q64.val l.val) sa.val sb.val := by
  wlog below : sa ≤ sb generalizing sa sb
  · rw [amount0Delta_comm] at ran
    rw [between_comm,between_comm (firstDown q64.val l.val)]
    exact this ran (not_le.mp below).le
  rw [between_of_le below,between_of_le below]
  rcases Nat.eq_zero_or_pos sa.val with zero | positive
  · have nothing : sa = 0 := Fin.ext zero
    have returned : result = 0 := by
      by_cases less : sa < sb
      · simp only [amount0Delta,if_pos less,if_pos nothing,pure_eq_ok,Except.ok.injEq] at ran
        exact ran.symm
      · have same : sb = 0 := by rw [← nothing]; exact (le_antisymm below (not_lt.mp less)).symm
        simp only [amount0Delta,if_neg less,if_pos same,pure_eq_ok,Except.ok.injEq] at ran
        exact ran.symm
    rw [returned,zero]
    simp [firstUp,firstDown]
  · exact ((amount0Delta_ok positive below).mp ran).2

theorem amount1Delta_between (ran : amount1Delta build sa sb l roundUp = .ok result) :
    result.val = if roundUp then between (secondUp q64.val l.val) sa.val sb.val
      else between (secondDown q64.val l.val) sa.val sb.val := by
  wlog below : sa ≤ sb generalizing sa sb
  · rw [amount1Delta_comm] at ran
    rw [between_comm,between_comm (secondDown q64.val l.val)]
    exact this ran (not_le.mp below).le
  rw [between_of_le below,between_of_le below]
  exact (amount1Delta_ok below).mp ran

theorem nextSqrtFromAmount1In_after (ran : nextSqrtFromAmount1In price l amount = .ok result) :
    result.val = afterSecond q64.val l.val price.val amount.val := by
  simp only [nextSqrtFromAmount1In,bind_ok,u256_ok,asU128_ok] at ran
  obtain ⟨product,⟨-,productEq⟩,added,divided,sum,⟨-,sumEq⟩,narrowed⟩ := ran
  unfold u256Div at divided
  split at divided
  · cases divided
  · rw [← narrowed,← sumEq,← Except.ok.inj divided,← productEq,afterSecond]

end deltas

/-- What a pool of one range pays for an amount, in exact arithmetic. -/
def rangePays (state : ClmmState) (aToB : Bool) (amount : ℕ) : ℕ :=
  let kept := amount * (1000000 - state.feePips.val) / 1000000
  if aToB then payFirst q64.val state.liquidity.val (bound true).val state.sqrtPrice.val kept
  else paySecond q64.val state.liquidity.val (bound false).val state.sqrtPrice.val kept

theorem rangePays_mono {state : ClmmState} (aToB : Bool) (liquid : 0 < state.liquidity.val) :
    Monotone (rangePays state aToB) := by
  intro amount more ordered
  have kept : amount * (1000000 - state.feePips.val) / 1000000 ≤ more * (1000000 - state.feePips.val) / 1000000 :=
    Nat.div_le_div_right (Nat.mul_le_mul_right _ ordered)
  cases aToB with
  | true =>
    simp only [rangePays,if_true]
    exact payFirst_mono (Nat.mul_pos liquid q64_pos) (bound_pos true) kept
  | false =>
    simp only [rangePays,Bool.false_eq_true,if_false]
    exact paySecond_mono q64_pos (bound_pos false) kept

section single
variable {build : Build} {aToB : Bool} {price next target l remaining : U128} {feePips amountIn : U64} {step : SwapStep}
  {state : ClmmState} {result : Option U64}

theorem finish_out {amount : U128} (ran : finish build aToB price target l remaining feePips next amount = .ok step) :
    step.amountOut.val = if aToB then between (secondDown q64.val l.val) next.val price.val
      else between (firstDown q64.val l.val) next.val price.val := by
  obtain ⟨amountOut,paid,ran⟩ := bind_ok.mp ran
  have kept : step.amountOut = amountOut := by
    by_cases same : next = target
    · simp only [same,ne_eq,not_true_eq_false,if_false,bind_ok,pure_ok] at ran
      obtain ⟨_,-,feeAmount,-,rfl⟩ := ran
      rfl
    · simp only [same,ne_eq,not_false_eq_true,if_true,bind_ok,pure_ok] at ran
      obtain ⟨feeAmount,-,rfl⟩ := ran
      rfl
  rw [kept]
  cases aToB with
  | true =>
    rw [deltaOut_first] at paid
    exact amount1Delta_between paid
  | false =>
    rw [deltaOut_second] at paid
    have paidVal := amount0Delta_between paid
    rw [between_comm (firstDown q64.val l.val)] at paidVal
    exact paidVal

theorem computeSwapStep_pays (liquid : 0 < l.val) (fee : feePips.val < 1000000) (small : remaining.val < 2^64)
    (ran : computeSwapStep build price target l remaining feePips aToB = .ok step) :
    step.amountOut.val =
      if aToB then payFirst q64.val l.val target.val price.val (remaining.val * (1000000 - feePips.val) / 1000000)
      else paySecond q64.val l.val target.val price.val (remaining.val * (1000000 - feePips.val) / 1000000) := by
  obtain ⟨kept,keptOk,keptVal⟩ := pipsKept build fee
  obtain ⟨amountLf,amountOk,amountVal⟩ := mulDivFloor_of_le (show 0 < pipsDenom.val by decide)
    (show kept.val ≤ pipsDenom.val by rw [keptVal,pipsDenom_val]; omega)
  rw [computeSwapStep_eq,keptOk,ok_bind,amountOk,ok_bind] at ran
  rw [pipsDenom_val,keptVal] at amountVal
  rw [← amountVal]
  have short : amountLf.val < 2^64 := by
    rw [amountVal]
    exact (Nat.div_le_of_le_mul (by rw [Nat.mul_comm 1000000]; exact Nat.mul_le_mul_left _ (Nat.sub_le _ _))).trans_lt small
  obtain ⟨toTarget,charged,ran⟩ := bind_ok.mp ran
  cases aToB with
  | true =>
    rw [deltaIn_first] at charged
    have toTargetVal := amount0Delta_between charged
    rw [if_pos rfl] at toTargetVal
    rw [if_pos rfl,payFirst,endOfFirst,← toTargetVal]
    split at ran
    · rename_i reached
      rw [finish_out ran,if_pos rfl,if_pos (Fin.le_def.mp reached)]
    · rename_i missed
      obtain ⟨next,moved,ran⟩ := bind_ok.mp ran
      obtain ⟨_,-,ran⟩ := bind_ok.mp ran
      rw [nextSqrt_first,nextSqrtFromAmount0In_ok liquid short] at moved
      rw [finish_out ran,if_pos rfl,if_neg (fun reached => missed (Fin.le_def.mpr reached)),moved.2]
  | false =>
    rw [deltaIn_second] at charged
    have toTargetVal := amount1Delta_between charged
    rw [if_pos rfl,between_comm] at toTargetVal
    rw [if_neg Bool.false_ne_true,paySecond,endOfSecond,← toTargetVal]
    split at ran
    · rename_i reached
      rw [finish_out ran,if_neg Bool.false_ne_true,if_pos (Fin.le_def.mp reached)]
    · rename_i missed
      obtain ⟨next,moved,ran⟩ := bind_ok.mp ran
      obtain ⟨_,-,ran⟩ := bind_ok.mp ran
      rw [nextSqrt_second] at moved
      rw [finish_out ran,if_neg Bool.false_ne_true,if_neg (fun reached => missed (Fin.le_def.mpr reached)),
        nextSqrtFromAmount1In_after moved]

/-- A pool of one range quotes exactly what it pays, where that is a `u64`. -/
theorem quoteExactIn_bare (bare : state.ticks = []) (ran : quoteExactIn .debug state amountIn aToB = .ok result)
    (out : U64) : result = some out ↔
      (0 < amountIn.val ∧ 0 < state.liquidity.val ∧ state.feePips.val < 1000000) ∧
        out.val = rangePays state aToB amountIn.val := by
  have crossed : boundaries state aToB = [] := by
    cases aToB <;> simp [boundaries,bare]
  have ran := quoteExactIn_ok.mp ran
  by_cases accepted : 0 < amountIn.val ∧ 0 < state.liquidity.val ∧ state.feePips.val < 1000000
  · rw [if_neg (fun refused => refused_iff.mp refused accepted),crossed,bare] at ran
    obtain ⟨final,looped,settled⟩ := ran
    obtain ⟨positive,liquid,fee⟩ := accepted
    have left : ¬ u128 amountIn = 0 := fun zero => positive.ne' (congrArg Fin.val zero)
    have target : (if aToB then minSqrtPrice else maxSqrtPrice) = bound aToB := rfl
    rw [swapLoop,if_neg left,target] at looped
    obtain ⟨step,stepped,advanced⟩ := bind_ok.mp looped
    obtain ⟨spent,-,moved⟩ := bind_ok.mp advanced
    obtain ⟨paid,added,same⟩ := bind_ok.mp moved
    obtain rfl := pure_ok.mp same
    have paidVal : paid.val = rangePays state aToB amountIn.val := by
      have sum := add_debug added
      rw [Fin.val_zero,Nat.zero_add] at sum
      rw [sum,computeSwapStep_pays liquid fee amountIn.isLt stepped]
      cases aToB with
      | true => simp only [rangePays,if_true,u128_val]
      | false => simp only [rangePays,Bool.false_eq_true,if_false,u128_val]
    rw [settled,settle_some,← paidVal]
    simp [positive,liquid,fee]
  · rw [if_pos (refused_iff.mpr accepted)] at ran
    rw [ran]
    exact iff_of_false (fun same => by cases same) fun both => accepted both.1

end single

end Clmm

namespace Scanner
open ConstantProduct

/-- A pool of one curve: constant-product, or concentrated without ticks. -/
def SingleCurve (pool : PoolState) : Prop :=
  match pool.kind with
  | .v2 _ _ _ => True
  | .clmm state => state.ticks = []

/-- A pool that turns down no positive input: it has both tokens, or depth, and keeps a
part of the input. -/
def Trades (pool : PoolState) : Prop :=
  match pool.kind with
  | .v2 reserveA reserveB feeBps => 0 < reserveA.val ∧ 0 < reserveB.val ∧ feeBps.val < 10000
  | .clmm state => 0 < state.liquidity.val ∧ state.feePips.val < 1000000

/-- What a hop pays for an amount, in exact arithmetic. -/
def hopPays (pool : PoolState) (hop : Hop) (amount : ℕ) : ℕ :=
  match pool.kind with
  | .v2 reserveA reserveB feeBps =>
    if hop.aToB then floorOutput 10000 (10000 - feeBps.val) amount reserveA.val reserveB.val
    else floorOutput 10000 (10000 - feeBps.val) amount reserveB.val reserveA.val
  | .clmm state => Clmm.rangePays state hop.aToB amount

section hops
variable {pool : PoolState} {hop : Hop} {amount : U64}

theorem hopPays_mono (trades : Trades pool) : Monotone (hopPays pool hop) := by
  intro amount more ordered
  unfold Trades at trades
  unfold hopPays
  split
  · rename_i kind
    rw [kind] at trades
    obtain ⟨first,second,-⟩ := trades
    split
    · exact floorOutput_mono (by norm_num) first ordered
    · exact floorOutput_mono (by norm_num) second ordered
  · rename_i kind
    rw [kind] at trades
    exact Clmm.rangePays_mono hop.aToB trades.1 ordered

theorem getAmountOut_pays {reserveIn reserveOut feeBps : U64} {result : Option U64}
    (ran : Amm.getAmountOut .debug amount reserveIn reserveOut feeBps = .ok result) (out : U64) :
    result = some out ↔ Move.Math.Quotable amount reserveIn reserveOut feeBps ∧
      out.val = Move.Math.exactOut amount reserveIn reserveOut feeBps := by
  constructor
  · intro found
    subst found
    exact Amm.getAmountOut_debug ran
  · intro ⟨quotable,outEq⟩
    obtain ⟨exact,computed,value⟩ := Amm.getAmountOut_of_fits .debug quotable (Amm.getAmountOut_fits quotable ran)
    rw [Except.ok.inj (ran.symm.trans computed),Option.some.injEq,Fin.ext_iff,value,outEq]

/-- A hop quotes exactly what it pays, where that is a `u64`. -/
theorem quoteHop_pays {result : Option U64} (single : SingleCurve pool)
    (ran : quoteHop .debug pool hop amount = .ok result) (out : U64) :
    result = some out ↔ (0 < amount.val ∧ Trades pool) ∧ out.val = hopPays pool hop amount.val := by
  unfold SingleCurve at single
  unfold quoteHop at ran
  unfold Trades hopPays
  cases kind : pool.kind with
  | v2 reserveA reserveB feeBps =>
    simp only [kind] at ran ⊢
    split at ran
    next forward => rw [getAmountOut_pays ran,if_pos forward,Move.Math.Quotable]
    next backward =>
      rw [getAmountOut_pays ran,if_neg backward,Move.Math.Quotable]
      exact and_congr_left' (by rw [and_left_comm (a := 0 < reserveB.val)])
  | clmm state =>
    simp only [kind] at single ran ⊢
    exact Clmm.quoteExactIn_bare single ran out

end hops

/-- What the hops of a route pay; one whose pool is not listed pays nothing. -/
def routePays (pools : List PoolState) (route : List Hop) : List (ℕ → ℕ) :=
  route.map fun hop =>
    match lookup pools hop.poolId with
    | none => fun _ => 0
    | some pool => hopPays pool hop

/-- Every hop has its pool, and no pool turns down a positive input. -/
def Tradable (pools : List PoolState) (route : List Hop) : Prop :=
  ∀ hop ∈ route, ∃ pool, lookup pools hop.poolId = some pool ∧ Trades pool

def Quoted (build : Build) (pools : List PoolState) (route : List Hop) (input : U64) : Prop :=
  ∃ output, simulate build (lookup pools) route input = .ok (some output)

section routes
variable {build : Build} {pools : List PoolState} {route : List Hop} {input : U64}

theorem routePays_mono (tradable : Tradable pools route) : ∀ pays ∈ routePays pools route, Monotone pays := by
  intro pays member
  obtain ⟨hop,listed,rfl⟩ := List.mem_map.mp member
  obtain ⟨pool,found,trades⟩ := tradable hop listed
  rw [found]
  exact hopPays_mono trades

/-- A route is quoted where every hop has something to trade and pays out a `u64`. -/
theorem collect_isSome (single : ∀ pool ∈ pools, SingleCurve pool) {result : Option (List U64)}
    (ran : collect .debug (lookup pools) route input = .ok result) :
    result.isSome ↔ Tradable pools route ∧ Positive (routePays pools route) input.val ∧
      Below (2^64) (routePays pools route) input.val := by
  induction route generalizing input result with
  | nil =>
    obtain rfl := Except.ok.inj ran
    simp [Tradable,routePays,Positive,Below]
  | cons hop rest ih =>
    have split : Tradable pools (hop :: rest) ↔
        (∃ pool, lookup pools hop.poolId = some pool ∧ Trades pool) ∧ Tradable pools rest := List.forall_mem_cons
    rw [collect] at ran
    cases found : lookup pools hop.poolId with
    | none =>
      rw [found] at ran
      obtain rfl : result = none := (Except.ok.inj ran).symm
      refine iff_of_false (by simp) fun both => ?_
      obtain ⟨pool,listed,-⟩ := (split.mp both.1).1
      rw [found] at listed
      cases listed
    | some pool =>
      have chain : routePays pools (hop :: rest) = hopPays pool hop :: routePays pools rest := by
        simp only [routePays,List.map_cons,found]
      have curve := single pool (lookup_mem found).1
      rw [found,ok_some_andThen] at ran
      rw [chain,Positive,Below,split]
      rcases andThen_ok.mp ran with ⟨nothing,rfl⟩ | ⟨out,quoted,onward⟩
      · refine iff_of_false (by simp) fun both => ?_
        obtain ⟨⟨⟨pool',listed,trades⟩,-⟩,⟨positive,-⟩,small,-⟩ := both
        obtain rfl := Option.some.inj (found.symm.trans listed)
        have paid := (quoteHop_pays curve nothing ⟨hopPays pool hop input.val,small⟩).mpr ⟨⟨positive,trades⟩,rfl⟩
        cases paid
      · obtain ⟨⟨positive,trades⟩,outEq⟩ := (quoteHop_pays curve quoted out).mp rfl
        have small : hopPays pool hop input.val < 2^64 := outEq ▸ out.isLt
        have rest : result.isSome ↔ Tradable pools rest ∧ Positive (routePays pools rest) out.val ∧
            Below (2^64) (routePays pools rest) out.val := by
          rcases andThen_ok.mp onward with ⟨nothing,rfl⟩ | ⟨tail,collected,same⟩
          · exact ih nothing
          · obtain rfl := Except.ok.inj same
            have onward := ih collected
            exact onward
        rw [rest,outEq]
        have listed : ∃ pool, lookup pools hop.poolId = some pool ∧ Trades pool := ⟨pool,found,trades⟩
        simp only [positive,small,listed,true_and]

/-- Where nothing overflows, the quoted inputs of a route are an interval. -/
theorem quoted_iff (build : Build) (single : ∀ pool ∈ pools, SingleCurve pool)
    (calm : ∃ result, simulate .debug (lookup pools) route input = .ok result) :
    Quoted build pools route input ↔ (route ≠ [] ∧ Tradable pools route) ∧
      dust (routePays pools route) ≤ input.val ∧ input.val < ceiling (2^64) (routePays pools route) := by
  obtain ⟨result,ran⟩ := calm
  have same : Quoted build pools route input ↔ result.isSome := by
    rw [Quoted,follows_simulate build _ _ _ result ran,Option.isSome_iff_exists]
    exact exists_congr fun output => by rw [Except.ok.injEq]
  rw [same]
  by_cases empty : route = []
  · rw [simulate,simulateCollect,if_pos empty] at ran
    obtain rfl : result = none := (Except.ok.inj ran).symm
    simp [empty]
  · rw [simulate,simulateCollect,if_neg empty] at ran
    have collected : result.isSome ↔ Tradable pools route ∧ Positive (routePays pools route) input.val ∧
        Below (2^64) (routePays pools route) input.val := by
      rcases andThen_ok.mp ran with ⟨nothing,rfl⟩ | ⟨outs,collected,last⟩
      · exact collect_isSome single nothing
      · rw [← collect_isSome single collected,← Except.ok.inj last]
        have long := collect_length collected
        have full : outs ≠ [] := by
          intro none
          rw [none] at long
          exact empty (List.length_eq_zero_iff.mp long.symm)
        simp [List.getLast?_eq_some_getLast full]
    rw [collected,and_iff_right (show route ≠ [] from empty)]
    refine and_congr_right fun tradable => ?_
    rw [positive_iff (routePays_mono tradable),below_iff (routePays_mono tradable)]

/-- A route that is quoted for an input is quoted for a smaller one unless the smaller
is below its dust and the larger is not. -/
theorem quoted_below_iff {smaller larger : U64} (build : Build) (single : ∀ pool ∈ pools, SingleCurve pool)
    (ordered : smaller ≤ larger) (calm : ∃ result, simulate .debug (lookup pools) route smaller = .ok result)
    (calmer : ∃ result, simulate .debug (lookup pools) route larger = .ok result) :
    (Quoted build pools route larger → Quoted build pools route smaller) ↔
      ¬ ((route ≠ [] ∧ Tradable pools route) ∧ smaller.val < dust (routePays pools route) ∧
        dust (routePays pools route) ≤ larger.val ∧ larger.val < ceiling (2^64) (routePays pools route)) := by
  rw [quoted_iff build single calm,quoted_iff build single calmer]
  have below : (smaller.val : ℕ∞) ≤ larger.val := Nat.cast_le.mpr ordered
  constructor
  · intro kept ⟨tradable,short,enough,small⟩
    exact absurd (kept ⟨tradable,enough,small⟩).2.1 (not_le.mpr short)
  · intro kept ⟨tradable,enough,small⟩
    refine ⟨tradable,?_,below.trans_lt small⟩
    by_contra short
    exact kept ⟨tradable,not_le.mp short,enough,small⟩

theorem coarse_single : ∀ pool ∈ [coarseAsk,coarseBid], SingleCurve pool := by
  intro pool member
  rcases List.mem_cons.mp member with rfl | member
  · exact trivial
  · obtain rfl := List.mem_singleton.mp member
    exact trivial

theorem coarse_calm : simulate .debug (lookup [coarseAsk,coarseBid]) roundTrip 21 = .ok (some 29) ∧
    simulate .debug (lookup [coarseAsk,coarseBid]) roundTrip 20 = .ok none := by
  decide +kernel

theorem coarse_slips (build : Build) : ¬ (Quoted build [coarseAsk,coarseBid] roundTrip 21 →
    Quoted build [coarseAsk,coarseBid] roundTrip 20) := by
  intro kept
  obtain ⟨output,quoted⟩ := kept ⟨29,follows_simulate build _ _ _ _ coarse_calm.1⟩
  rw [follows_simulate build _ _ _ _ coarse_calm.2] at quoted
  cases quoted

/-- At 20 the first hop pays out nothing. -/
theorem quoted_above_only :
    let pools := [coarseAsk,coarseBid]
    (pools.map PoolState.id).Nodup ∧ (∀ pool ∈ pools, SingleCurve pool) ∧ (0 : U64) < 20 ∧ (20 : U64) ≤ 21 ∧
      (∃ result, simulate .debug (lookup pools) roundTrip 20 = .ok result) ∧
      (∃ result, simulate .debug (lookup pools) roundTrip 21 = .ok result) ∧
      ∀ build, ¬ (Quoted build pools roundTrip 21 → Quoted build pools roundTrip 20) := by
  intro pools
  exact ⟨by decide,coarse_single,by decide,by decide,⟨_,coarse_calm.2⟩,⟨_,coarse_calm.1⟩,coarse_slips⟩

/-- The dust of this route is 21: the theorem finds it between two inputs. -/
theorem quoted_below_coarse :
    20 < dust (routePays [coarseAsk,coarseBid] roundTrip) ∧ dust (routePays [coarseAsk,coarseBid] roundTrip) ≤ 21 := by
  have decided : (Quoted .release [coarseAsk,coarseBid] roundTrip 21 → Quoted .release [coarseAsk,coarseBid] roundTrip 20) ↔
      _ := quoted_below_iff .release coarse_single (by decide) ⟨_,coarse_calm.2⟩ ⟨_,coarse_calm.1⟩
  obtain ⟨-,short,enough,-⟩ := not_not.mp (mt decided.mpr (coarse_slips .release))
  exact ⟨short,enough⟩

end routes

end Scanner

end SuiArbitrage.Rust
