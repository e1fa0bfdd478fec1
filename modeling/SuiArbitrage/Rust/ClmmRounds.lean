import SuiArbitrage.Rust.ClmmWorth

/-! The rounds of the swap loop: what one of them can do, once for all inductions over the
loop, and how two swaps of different sizes and fees go through the same range. -/
namespace SuiArbitrage.Rust.Clmm
open MachineWord Fallible ConcentratedLiquidity

section directions
variable {aToB : Bool} {L price next further amount amount' : ℕ}

theorem payout_mono (positive : 0 < price) (ahead : Ahead aToB price next) (onward : Ahead aToB next further) :
    payout aToB L price next ≤ payout aToB L price further := by
  cases aToB with
  | true =>
    rw [payout_first,payout_first]
    exact secondDown_mono (ahead_first.mp onward)
  | false =>
    rw [payout_second,payout_second]
    exact firstDown_mono positive (ahead_second.mp ahead) (ahead_second.mp onward)

theorem moved_mono (liquid : 0 < L) (more : amount ≤ amount') :
    Ahead aToB (moved aToB L price amount) (moved aToB L price amount') := by
  cases aToB with
  | true =>
    rw [ahead_first,moved_first,moved_first]
    exact afterFirst_anti (Nat.mul_pos liquid q64_pos) more
  | false =>
    rw [ahead_second,moved_second,moved_second]
    exact afterSecond_mono more

end directions

namespace Range
variable {aToB : Bool} {feePips feePips' : ℕ} {range wider : Range}

/-- The same range, entered with at least as much input and at most the fee. -/
structure Under (feePips feePips' : ℕ) (range wider : Range) : Prop where
  price : range.price = wider.price
  target : range.target = wider.target
  liquidity : range.liquidity = wider.liquidity
  remaining : range.remaining ≤ wider.remaining
  fee : feePips' ≤ feePips

theorem spent_short (entered : range.Entered aToB feePips) (short : ¬ range.Reached aToB feePips) :
    range.remaining - (range.amountIn aToB feePips + range.feeAmount aToB feePips) = 0 := by
  have affordable := entered.amountIn_le.trans net_le
  rw [feeAmount,if_neg short]
  omega

namespace Under
variable (under : Under feePips feePips' range wider)
include under

theorem net_le : range.net feePips ≤ wider.net feePips' := by
  apply Nat.div_le_div_right
  exact Nat.mul_le_mul under.remaining (Nat.sub_le_sub_left under.fee _)

theorem toTarget_eq : range.toTarget aToB = wider.toTarget aToB := by
  rw [toTarget,toTarget,under.price,under.target,under.liquidity]

theorem reached (reached : range.Reached aToB feePips) : wider.Reached aToB feePips' := by
  have toTarget : range.toTarget aToB = wider.toTarget aToB := under.toTarget_eq
  rw [Reached,← toTarget]
  exact le_trans reached under.net_le

theorem next_ahead (entered : range.Entered aToB feePips) :
    Ahead aToB (range.next aToB feePips) (wider.next aToB feePips') := by
  by_cases arrives : wider.Reached aToB feePips'
  · rw [next_of_reached arrives,← under.target]
    exact entered.ahead_target
  · have short : ¬ range.Reached aToB feePips := fun arrived => arrives (under.reached arrived)
    rw [next_of_short arrives,next_of_short short,← under.liquidity,← under.price]
    exact moved_mono entered.liquid under.net_le

theorem amountOut_le (entered : range.Entered aToB feePips) :
    range.amountOut aToB feePips ≤ wider.amountOut aToB feePips' := by
  rw [amountOut,amountOut,← under.liquidity,← under.price]
  exact payout_mono entered.price entered.next_ahead (under.next_ahead entered)

theorem amountOut_eq (reached : range.Reached aToB feePips) :
    range.amountOut aToB feePips = wider.amountOut aToB feePips' := by
  rw [amountOut,amountOut,next_of_reached reached,next_of_reached (under.reached reached),under.target,under.liquidity,
    under.price]

theorem amountIn_eq (reached : range.Reached aToB feePips) :
    range.amountIn aToB feePips = wider.amountIn aToB feePips' := by
  rw [amountIn,amountIn,next_of_reached reached,next_of_reached (under.reached reached),under.target,under.liquidity,
    under.price]

theorem feeAmount_le (fee : feePips < 1000000) (reached : range.Reached aToB feePips) :
    wider.feeAmount aToB feePips' ≤ range.feeAmount aToB feePips := by
  have kept : 0 < 1000000 - feePips := by omega
  have less := under.fee
  rw [feeAmount,feeAmount,if_pos reached,if_pos (under.reached reached),← under.amountIn_eq reached]
  apply (ceilDiv_le_iff_le_mul (by omega)).mpr
  have charged := (ceilDiv_le_iff_le_mul (b := range.amountIn aToB feePips * feePips) kept).mp le_rfl
  calc range.amountIn aToB feePips * feePips' ≤ range.amountIn aToB feePips * feePips := Nat.mul_le_mul_left _ less
    _ ≤ _ := charged
    _ ≤ _ := Nat.mul_le_mul_right _ (Nat.sub_le_sub_left less _)

theorem left_le (fee : feePips < 1000000) (reached : range.Reached aToB feePips) :
    range.remaining - (range.amountIn aToB feePips + range.feeAmount aToB feePips) ≤
      wider.remaining - (wider.amountIn aToB feePips' + wider.feeAmount aToB feePips') := by
  have sameIn : range.amountIn aToB feePips = wider.amountIn aToB feePips' := under.amountIn_eq reached
  have feeLe := under.feeAmount_le fee reached
  have remaining := under.remaining
  omega

end Under

end Range

section rounds
variable {build : Build} {aToB hasRealTicks : Bool} {feePips : U64} {start amount : ℕ} {state after final : SwapState}
  {target : U128} {boundary : TickBoundary} {rest : List TickBoundary}

/-- What a round does to its state. In a release build the output may wrap downwards. -/
structure Advanced (build : Build) (aToB : Bool) (feePips : ℕ) (range : Range) (state after : SwapState) : Prop where
  price : after.sqrtPrice.val = range.next aToB feePips
  liquidity : after.liquidity = state.liquidity
  remaining : after.remaining.val =
    state.remaining.val - (range.amountIn aToB feePips + range.feeAmount aToB feePips)
  out : after.out.val ≤ state.out.val + range.amountOut aToB feePips
  exact : build = .debug → after.out.val = state.out.val + range.amountOut aToB feePips

theorem Loop.advanced {step : SwapStep} (entered : (state.range target).Entered aToB feePips.val)
    (stepped : computeSwapStep build state.sqrtPrice target state.liquidity state.remaining feePips aToB = .ok step)
    (ran : state.advance build step = .ok after) :
    Advanced build aToB feePips.val (state.range target) state after ∧
      (step.sqrtNext = target ↔ (state.range target).Reached aToB feePips.val) := by
  obtain ⟨-,exact⟩ := (computeSwapStep_ok entered (state.range_of target)).mp stepped
  rw [advance_of_exact build state entered exact,bind_ok] at ran
  obtain ⟨out,added,made⟩ := ran
  obtain rfl := Except.ok.inj made
  refine ⟨⟨exact.next,rfl,rfl,?_,?_⟩,?_⟩
  · rw [← exact.amountOut]
    exact add_le added
  · intro debug
    subst debug
    rw [← exact.amountOut]
    exact add_debug added
  · rw [Fin.ext_iff,exact.next]
    exact entered.next_eq_target

/-- How the loop goes on from a state with this boundary ahead. -/
inductive Round (build : Build) (feePips : U64) (hasRealTicks aToB : Bool) (boundary : TickBoundary)
    (rest : List TickBoundary) (state final : SwapState) : Prop
  | spent (nothing : state.remaining.val = 0) (same : final = state)
  | stopped (left : 0 < state.remaining.val)
    (advanced : Advanced build aToB feePips.val (state.range boundary.sqrtPrice) state final)
    (short : ¬ (state.range boundary.sqrtPrice).Reached aToB feePips.val)
  | drained (after : SwapState) (left : 0 < state.remaining.val)
    (advanced : Advanced build aToB feePips.val (state.range boundary.sqrtPrice) state after)
    (reached : (state.range boundary.sqrtPrice).Reached aToB feePips.val)
    (applied : applyNet build state.liquidity boundary.liquidityNet aToB = .ok 0)
    (same : final = {after with liquidity := 0})
  | crossed (after : SwapState) (liquidity : U128) (left : 0 < state.remaining.val)
    (advanced : Advanced build aToB feePips.val (state.range boundary.sqrtPrice) state after)
    (reached : (state.range boundary.sqrtPrice).Reached aToB feePips.val)
    (applied : applyNet build state.liquidity boundary.liquidityNet aToB = .ok liquidity)
    (liquid : liquidity ≠ 0) (here : after.sqrtPrice = boundary.sqrtPrice)
    (ran : swapLoop build feePips hasRealTicks aToB rest {after with liquidity := liquidity} = .ok final)

/-- How it ends behind the last boundary. -/
inductive Last (build : Build) (feePips : U64) (hasRealTicks aToB : Bool) (state final : SwapState) : Prop
  | done (enough : state.remaining.val = 0 ∨ hasRealTicks = true) (same : final = state)
  | far (left : 0 < state.remaining.val) (bare : hasRealTicks = false)
    (advanced : Advanced build aToB feePips.val (state.range (bound aToB)) state final)

/-- What every round needs of its state: a price, liquidity, and an amount of 64 bits. -/
structure Ready (aToB : Bool) (state : SwapState) : Prop where
  price : 0 < state.sqrtPrice.val
  toBound : Ahead aToB state.sqrtPrice.val (bound aToB).val
  liquid : 0 < state.liquidity.val
  remaining : state.remaining.val < 2^64

theorem Ready.entered (ready : Ready aToB state) (fee : feePips.val < 1000000) (positive : 0 < target.val)
    (ahead : Ahead aToB state.sqrtPrice.val target.val) : (state.range target).Entered aToB feePips.val :=
  ⟨ready.price,positive,ahead,ready.liquid,ready.remaining,fee⟩

theorem Travel.entered (travel : Travel aToB state.sqrtPrice.val (boundary :: rest)) (ready : Ready aToB state)
    (fee : feePips.val < 1000000) : (state.range boundary.sqrtPrice).Entered aToB feePips.val :=
  ready.entered fee (travel.positive _ List.mem_cons_self) (travel.ahead _ List.mem_cons_self)

theorem swapLoop_round (ready : Ready aToB state) (fee : feePips.val < 1000000)
    (travel : Travel aToB state.sqrtPrice.val (boundary :: rest))
    (ran : swapLoop build feePips hasRealTicks aToB (boundary :: rest) state = .ok final) :
    Round build feePips hasRealTicks aToB boundary rest state final := by
  have entered := travel.entered ready fee
  rw [swapLoop] at ran
  split at ran
  · rename_i empty
    exact .spent (congrArg Fin.val empty) (Except.ok.inj ran).symm
  rename_i some_left
  have left : 0 < state.remaining.val := Nat.pos_of_ne_zero fun zero => some_left (Fin.ext zero)
  obtain ⟨step,stepped,ran⟩ := bind_ok.mp ran
  obtain ⟨after,moved,ran⟩ := bind_ok.mp ran
  obtain ⟨advanced,arrives⟩ := Loop.advanced entered stepped moved
  split at ran
  · rename_i arrived
    have reached := arrives.mp arrived
    obtain ⟨liquidity,applied,ran⟩ := bind_ok.mp ran
    rw [advanced.liquidity] at applied
    split at ran
    · rename_i empty
      exact .drained after left advanced reached (empty ▸ applied) (empty ▸ (Except.ok.inj ran).symm)
    · rename_i liquid
      refine .crossed after liquidity left advanced reached applied liquid (Fin.ext ?_) ran
      rw [advanced.price,Range.next_of_reached reached]
      rfl
  · rename_i elsewhere
    obtain rfl := Except.ok.inj ran
    exact .stopped left advanced fun reached => elsewhere (arrives.mpr reached)

theorem swapLoop_last (ready : Ready aToB state) (fee : feePips.val < 1000000)
    (ran : swapLoop build feePips hasRealTicks aToB [] state = .ok final) :
    Last build feePips hasRealTicks aToB state final := by
  rw [swapLoop] at ran
  split at ran
  · rename_i empty
    exact .done (.inl (congrArg Fin.val empty)) (Except.ok.inj ran).symm
  rename_i some_left
  split at ran
  · rename_i real
    exact .done (.inr real) (Except.ok.inj ran).symm
  · rename_i bare
    obtain ⟨step,stepped,moved⟩ := bind_ok.mp ran
    have entered := ready.entered fee (bound_pos aToB) ready.toBound
    refine .far (Nat.pos_of_ne_zero fun zero => some_left (Fin.ext zero)) (Bool.eq_false_iff.mpr bare) ?_
    exact (Loop.advanced entered stepped moved).1

/-- A round that goes on leaves its state ready for the boundaries behind. -/
theorem Advanced.ready (advanced : Advanced build aToB feePips.val (state.range boundary.sqrtPrice) state after)
    (ready : Ready aToB state) (travel : Travel aToB state.sqrtPrice.val (boundary :: rest))
    (here : after.sqrtPrice = boundary.sqrtPrice) {liquidity : U128} (liquid : liquidity ≠ 0) :
    Ready aToB {after with liquidity := liquidity} ∧ Travel aToB after.sqrtPrice.val rest := by
  have remaining := advanced.remaining
  have small := ready.remaining
  rw [here]
  refine ⟨⟨?_,?_,Nat.pos_of_ne_zero fun zero => liquid (Fin.ext zero),by simp only []; omega⟩,travel.tail⟩
  · exact travel.positive _ List.mem_cons_self
  · exact travel.toBound _ List.mem_cons_self

end rounds

section quote
variable {build : Build} {aToB : Bool} {state : ClmmState} {amountIn : U64}

theorem initial_ready (within : state.Within minSqrtPrice.val maxSqrtPrice.val) (liquid : 0 < state.liquidity.val)
    (amountIn : U64) : Ready aToB ⟨state.sqrtPrice,state.liquidity,u128 amountIn,0⟩ :=
  ⟨lt_of_lt_of_le (by decide) within.price.1,bound_ahead within.price,liquid,amountIn.isLt⟩

/-- What a quote is once it is not refused. -/
def settle (hasRealTicks : Bool) (final : SwapState) : Option U64 :=
  if hasRealTicks ∧ 0 < final.remaining then none else tryU64 final.out

theorem quoteExactIn_ok {result : Option U64} : quoteExactIn build state amountIn aToB = .ok result ↔
    if amountIn = 0 ∨ state.liquidity = 0 ∨ pipsDenom ≤ u128 state.feePips then result = none
    else ∃ final, swapLoop build state.feePips (!state.ticks.isEmpty) aToB (boundaries state aToB)
      ⟨state.sqrtPrice,state.liquidity,u128 amountIn,0⟩ = .ok final ∧ result = settle (!state.ticks.isEmpty) final := by
  rw [quoteExactIn]
  split
  · rw [pure_eq_ok,Except.ok.injEq]
    exact eq_comm
  · simp only [bind_ok]
    refine exists_congr fun final => and_congr_right fun _ => ?_
    unfold settle
    split
    · rw [pure_eq_ok,Except.ok.injEq]
      exact eq_comm
    · rw [pure_eq_ok,Except.ok.injEq]
      exact eq_comm

theorem settle_some {hasRealTicks : Bool} {final : SwapState} {out : U64} :
    settle hasRealTicks final = some out ↔ (hasRealTicks = true → final.remaining.val = 0) ∧ out.val = final.out.val := by
  unfold settle
  split
  · rename_i beyond
    have left : 0 < final.remaining.val := beyond.2
    refine iff_of_false (fun same => by cases same) fun both => ?_
    exact left.ne' (both.1 beyond.1)
  · rename_i within
    rw [tryU64_eq_some]
    refine (and_iff_right fun real => ?_).symm
    by_contra left
    exact within ⟨real,Nat.pos_of_ne_zero left⟩

theorem quoteExactIn_some {out : U64} : quoteExactIn build state amountIn aToB = .ok (some out) ↔
    (0 < amountIn.val ∧ 0 < state.liquidity.val ∧ state.feePips.val < 1000000) ∧
      ∃ final, swapLoop build state.feePips (!state.ticks.isEmpty) aToB (boundaries state aToB)
        ⟨state.sqrtPrice,state.liquidity,u128 amountIn,0⟩ = .ok final ∧
        ((!state.ticks.isEmpty) = true → final.remaining.val = 0) ∧ out.val = final.out.val := by
  rw [quoteExactIn_ok]
  split
  · rename_i refused
    exact iff_of_false (fun same => by cases same) fun both => refused_iff.mp refused both.1
  · rename_i accepted
    rw [and_iff_right (not_not.mp (mt refused_iff.mpr accepted))]
    refine exists_congr fun final => and_congr_right fun _ => ?_
    rw [eq_comm,settle_some]

end quote

end SuiArbitrage.Rust.Clmm
