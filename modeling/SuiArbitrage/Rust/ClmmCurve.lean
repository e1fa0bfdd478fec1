import Mathlib.Data.Nat.Cast.Order.Field
import Mathlib.Tactic.Rify
import SuiArbitrage.Rust.Builds
import SuiArbitrage.Rust.ClmmPanics
import SuiArbitrage.Rust.ClmmRounds
import SuiArbitrage.Lib.PiecewiseCurve

/-! A quote beside the exact curve of its pool. Each round of the engine pays at least the
exact cost of the price it stops at and is paid out at most the exact output, so the price
at which the swap ends is one that the amount can pay for on the curve. -/
namespace SuiArbitrage.Rust.Clmm
open MachineWord Fallible ConcentratedLiquidity PiecewiseCurve

/-- A tick on the curve. Going down, its net is taken away. -/
def knot (aToB : Bool) (boundary : TickBoundary) : Knot :=
  ⟨boundary.sqrtPrice.val,((if aToB then -boundary.liquidityNet.val else boundary.liquidityNet.val : ℤ) : ℝ)⟩

def knots (aToB : Bool) (boundaries : List TickBoundary) : List Knot := boundaries.map (knot aToB)

noncomputable def gross (feePips : U64) : ℝ := 1000000 / (1000000 - feePips.val)

/-- The net of a tick that is crossed leaves the liquidity in its machine integer. -/
def Visit.Balanced (aToB : Bool) (feePips : ℕ) (visit : Visit) : Prop :=
  visit.range.Reached aToB feePips → ∀ net ∈ visit.net,
    0 ≤ (visit.range.liquidity : ℤ) + (if aToB then -net else net) ∧
      (visit.range.liquidity : ℤ) + (if aToB then -net else net) < 2^128

instance (aToB : Bool) (feePips : ℕ) (visit : Visit) : Decidable (visit.Balanced aToB feePips) :=
  inferInstanceAs (Decidable (_ → _))

section amounts
variable {aToB : Bool} {L price next : ℕ} {boundaries : List TickBoundary}

theorem onward_cast : Onward aToB (price : ℝ) (next : ℝ) ↔ Ahead aToB price next := by
  cases aToB with
  | true => simp only [Onward,if_true,Nat.cast_le,ahead_first]
  | false => simp only [Onward,Bool.false_eq_true,if_false,Nat.cast_le,ahead_second]

theorem q64_real : (q64.val : ℝ) = 2^64 := by
  rw [q64_val]
  norm_num

theorem cost_le_charge (positive : 0 < price) (positiveNext : 0 < next) (ahead : Ahead aToB price next) :
    cost (2^64) aToB L price next ≤ charge aToB L price next := by
  cases aToB with
  | true =>
    have below := ahead_first.mp ahead
    have room : 0 < price * next := Nat.mul_pos positive positiveNext
    have paid : L * q64.val * (price - next) ≤ firstUp q64.val L next price * (price * next) := le_firstUp_mul room
    rify [below] at paid room
    rw [charge_first,cost,if_pos rfl,← q64_real,div_le_iff₀ room]
    exact paid
  | false =>
    have above := ahead_second.mp ahead
    have paid := le_secondUp_mul L price next q64_pos
    rify [above] at paid
    rw [q64_real] at paid
    rw [charge_second,cost,if_neg Bool.false_ne_true,div_le_iff₀ (by norm_num)]
    exact paid

theorem payout_le_output (ahead : Ahead aToB price next) :
    (payout aToB L price next : ℝ) ≤ output (2^64) aToB L price next := by
  cases aToB with
  | true =>
    have below := ahead_first.mp ahead
    rw [payout_first,secondDown,output,if_pos rfl,← q64_real,← Nat.cast_sub below]
    exact_mod_cast Nat.cast_div_le
  | false =>
    have above := ahead_second.mp ahead
    rw [payout_second,firstDown,output,if_neg Bool.false_ne_true,← q64_real,← Nat.cast_sub above,mul_comm (price : ℝ)]
    exact_mod_cast Nat.cast_div_le

theorem knots_cons (aToB : Bool) (boundary : TickBoundary) (boundaries : List TickBoundary) :
    knots aToB (boundary :: boundaries) = knot aToB boundary :: knots aToB boundaries := List.map_cons

theorem knots_ordered (travel : Travel aToB price boundaries) : Ordered aToB (price : ℝ) (knots aToB boundaries) := by
  refine ⟨fun knot member => ?_,?_⟩
  · obtain ⟨boundary,inside,rfl⟩ := List.mem_map.mp member
    exact ⟨Nat.cast_pos.mpr (travel.positive _ inside),onward_cast.mpr (travel.ahead _ inside)⟩
  · rw [knots,List.pairwise_map]
    exact travel.ordered.imp fun ahead => onward_cast.mpr ahead

end amounts

theorem gross_nonneg {feePips : U64} (fee : feePips.val < 1000000) : 0 ≤ gross feePips := by
  have : (feePips.val : ℝ) < 1000000 := by exact_mod_cast fee
  exact div_nonneg (by norm_num) (by linarith)

namespace Range
variable {aToB : Bool} {feePips : U64} {range : Range}

/-- What a range charges for its input covers the share that the fee takes of it. -/
theorem grossed (entered : range.Entered aToB feePips.val) :
    (range.amountIn aToB feePips.val : ℝ) * gross feePips +
      ((range.remaining - (range.amountIn aToB feePips.val + range.feeAmount aToB feePips.val) : ℕ) : ℝ) ≤
        range.remaining := by
  have fee : feePips.val < 1000000 := entered.fee
  have kept : (0 : ℝ) < 1000000 - feePips.val := by
    have : (feePips.val : ℝ) < 1000000 := by exact_mod_cast fee
    linarith
  have affordable : (range.amountIn aToB feePips.val : ℝ) * gross feePips ≤ range.remaining := by
    have floored := Nat.mul_le_of_le_div _ _ _ entered.amountIn_le
    rify [fee.le] at floored
    rw [gross,mul_div_assoc',div_le_iff₀ kept]
    exact floored
  by_cases reached : range.Reached aToB feePips.val
  · have ceiled : range.amountIn aToB feePips.val * feePips.val ≤
        (1000000 - feePips.val) * range.feeAmount aToB feePips.val := by
      rw [feeAmount,if_pos reached]
      exact (ceilDiv_le_iff_le_mul (by omega)).mp le_rfl
    have charged : (range.amountIn aToB feePips.val : ℝ) * gross feePips ≤
        range.amountIn aToB feePips.val + range.feeAmount aToB feePips.val := by
      rify [fee.le] at ceiled
      rw [gross,mul_div_assoc',div_le_iff₀ kept]
      linarith
    rcases Nat.le_total (range.amountIn aToB feePips.val + range.feeAmount aToB feePips.val) range.remaining with fits | beyond
    · rw [Nat.cast_sub fits,Nat.cast_add]
      linarith
    · rw [Nat.sub_eq_zero_of_le beyond,Nat.cast_zero,add_zero]
      exact affordable
  · rw [spent_short entered reached,Nat.cast_zero,add_zero]
    exact affordable

end Range

section loop
variable {aToB hasRealTicks : Bool} {feePips : U64} {state after final : SwapState} {target : U128}
  {boundary : TickBoundary} {boundaries : List TickBoundary}

/-- Saturation takes nothing away from a net that stays in range. -/
theorem liquidity_beyond {l liquidity : U128} {net : I128} (applied : applyNet .debug l net aToB = .ok liquidity)
    (inRange : 0 ≤ (l.val : ℤ) + (if aToB then -net.val else net.val) ∧
      (l.val : ℤ) + (if aToB then -net.val else net.val) < 2^128) :
    (liquidity.val : ℝ) = l.val + ((if aToB then -net.val else net.val : ℤ) : ℝ) := by
  have beyond : (liquidity.val : ℤ) = l.val + if aToB then -net.val else net.val := by
    rw [(applyNet_debug.mp applied).2,crossed]
    omega
  exact_mod_cast congrArg (Int.cast : ℤ → ℝ) beyond

/-- Where a swap has got to: a price that its input can pay for, and what the curve yields up to there. -/
structure Arrives (aToB : Bool) (feePips : U64) (boundaries : List TickBoundary) (state final : SwapState) (next : ℝ) : Prop
    extends Reachable (2^64) aToB (gross feePips) (bound aToB).val (knots aToB boundaries) state.sqrtPrice.val
      state.liquidity.val state.remaining.val next where
  out : (final.out.val : ℝ) ≤ state.out.val +
    outputTo (2^64) aToB (knots aToB boundaries) state.sqrtPrice.val state.liquidity.val next

theorem Arrives.here (positive : 0 < state.sqrtPrice.val) (toBound : Ahead aToB state.sqrtPrice.val (bound aToB).val)
    (travel : Travel aToB state.sqrtPrice.val boundaries) :
    Arrives aToB feePips boundaries state state state.sqrtPrice.val := by
  have ordered := knots_ordered travel
  refine ⟨.start (Nat.cast_pos.mpr positive) (onward_cast.mpr toBound) ordered (Nat.cast_nonneg _),?_⟩
  rw [(to_self ordered).2,add_zero]

/-- In the range in which a swap stops, its input pays for the price it stops at. -/
theorem Advanced.arrives (advanced : Advanced .debug aToB feePips.val (state.range target) state final)
    (entered : (state.range target).Entered aToB feePips.val) (toBound : Ahead aToB target.val (bound aToB).val)
    (before : ∀ boundary ∈ boundaries.head?, ¬ Ahead aToB boundary.sqrtPrice.val ((state.range target).next aToB feePips.val)) :
    Arrives aToB feePips boundaries state final ((state.range target).next aToB feePips.val) := by
  have onward : Ahead aToB state.sqrtPrice.val ((state.range target).next aToB feePips.val) := entered.next_ahead
  have room : (0 : ℝ) ≤ gross feePips := gross_nonneg entered.fee
  have first : ∀ knot ∈ (knots aToB boundaries).head?,
      ¬ Onward aToB knot.price ((state.range target).next aToB feePips.val : ℝ) := by
    intro knot member
    rw [knots,List.head?_map] at member
    obtain ⟨boundary,found,rfl⟩ := Option.mem_map.mp member
    exact fun beyond => before boundary found (onward_cast.mp beyond)
  refine ⟨⟨Nat.cast_pos.mpr entered.next_pos,onward_cast.mpr onward,?_,?_⟩,?_⟩
  · exact onward_cast.mpr (entered.ahead_target.trans toBound)
  · rw [(to_before first).1]
    have charged := cost_le_charge entered.price entered.next_pos (L := state.liquidity.val) onward
    have grossed := Range.grossed entered
    calc cost (2^64) aToB state.liquidity.val state.sqrtPrice.val _ * gross feePips
        ≤ ((state.range target).amountIn aToB feePips.val : ℝ) * gross feePips := mul_le_mul_of_nonneg_right charged room
      _ ≤ state.remaining.val := by
        have := Nat.cast_nonneg (α := ℝ) (state.remaining.val -
          ((state.range target).amountIn aToB feePips.val + (state.range target).feeAmount aToB feePips.val))
        exact (le_add_of_nonneg_right this).trans grossed
  · rw [(to_before first).2]
    have paid := payout_le_output (L := state.liquidity.val) onward
    have out := advanced.out
    rify at out
    exact out.trans (add_le_add_right paid _)

/-- A range that a swap crosses is paid for out of the input, and the curve goes on behind its
tick with the liquidity that the engine has there. -/
theorem Arrives.behind {next : ℝ} {liquidity : U128}
    (arrives : Arrives aToB feePips boundaries {after with liquidity := liquidity} final next)
    (advanced : Advanced .debug aToB feePips.val (state.range boundary.sqrtPrice) state after)
    (entered : (state.range boundary.sqrtPrice).Entered aToB feePips.val)
    (reached : (state.range boundary.sqrtPrice).Reached aToB feePips.val)
    (applied : applyNet .debug state.liquidity boundary.liquidityNet aToB = .ok liquidity)
    (balanced : (⟨state.range boundary.sqrtPrice,some boundary.liquidityNet.val⟩ : Visit).Balanced aToB feePips.val) :
    Arrives aToB feePips (boundary :: boundaries) state final next := by
  have here : after.sqrtPrice.val = boundary.sqrtPrice.val := advanced.price.trans (Range.next_of_reached reached)
  have room : (0 : ℝ) ≤ gross feePips := gross_nonneg entered.fee
  have ahead : Ahead aToB state.sqrtPrice.val boundary.sqrtPrice.val := entered.ahead
  obtain ⟨⟨positive,onward,within,paid⟩,out⟩ := arrives
  simp only [here,advanced.remaining] at onward paid out
  have beyond := liquidity_beyond applied (balanced reached _ rfl)
  rw [beyond] at paid out
  have reachedKnot : Onward aToB (knot aToB boundary).price next := onward
  obtain ⟨costs,yields⟩ := to_beyond (2^64) (knots aToB boundaries) state.sqrtPrice.val state.liquidity.val reachedKnot
  refine ⟨⟨positive,(onward_cast.mpr ahead).trans onward,within,?_⟩,?_⟩
  · have charged : cost (2^64) aToB state.liquidity.val state.sqrtPrice.val boundary.sqrtPrice.val * gross feePips ≤
        (state.range boundary.sqrtPrice).amountIn aToB feePips.val * gross feePips := by
      rw [Range.amountIn,Range.next_of_reached reached]
      exact mul_le_mul_of_nonneg_right (cost_le_charge entered.price entered.target ahead) room
    rw [knots_cons,costs,add_mul]
    exact (add_le_add charged paid).trans (Range.grossed entered)
  · have received : (after.out.val : ℝ) ≤ state.out.val +
        output (2^64) aToB state.liquidity.val state.sqrtPrice.val boundary.sqrtPrice.val := by
      have out := advanced.out
      rw [Range.amountOut,Range.next_of_reached reached] at out
      rify at out
      exact out.trans (add_le_add_right (payout_le_output ahead) _)
    rw [knots_cons,yields,← add_assoc]
    exact out.trans (add_le_add_left received _)

/-- A debug run of the loop ends at a price that its input can pay for on the curve. -/
theorem swapLoop_arrives (ready : Ready aToB state) (fee : feePips.val < 1000000)
    (travel : Travel aToB state.sqrtPrice.val boundaries)
    (balanced : ∀ visit ∈ walk aToB feePips.val hasRealTicks boundaries state.sqrtPrice.val state.liquidity.val
      state.remaining.val,visit.Balanced aToB feePips.val)
    (ran : swapLoop .debug feePips hasRealTicks aToB boundaries state = .ok final) :
    ∃ next, Arrives aToB feePips boundaries state final next := by
  induction boundaries generalizing state with
  | nil =>
    cases swapLoop_last ready fee ran with
    | done enough same =>
      subst same
      exact ⟨_,.here ready.price ready.toBound travel⟩
    | far left bare advanced =>
      have entered := ready.entered fee (bound_pos aToB) ready.toBound
      exact ⟨_,advanced.arrives entered (Ahead.refl _) (fun _ absent => by cases absent)⟩
  | cons boundary rest ih =>
    have entered := travel.entered ready fee
    have toBound := travel.toBound boundary List.mem_cons_self
    have head (left : 0 < state.remaining.val) :
        (⟨state.range boundary.sqrtPrice,some boundary.liquidityNet.val⟩ : Visit).Balanced aToB feePips.val := by
      rw [walk,if_neg left.ne'] at balanced
      exact balanced _ List.mem_cons_self
    cases swapLoop_round ready fee travel ran with
    | spent nothing same =>
      subst same
      exact ⟨_,.here ready.price ready.toBound travel⟩
    | stopped left advanced short =>
      refine ⟨_,advanced.arrives entered toBound ?_⟩
      intro _ found beyond
      obtain rfl := Option.some.inj found
      exact short (entered.next_eq_target.mp (Ahead.antisymm entered.ahead_target beyond))
    | drained after left advanced reached applied same =>
      have here : after.sqrtPrice.val = boundary.sqrtPrice.val := advanced.price.trans (Range.next_of_reached reached)
      have positive : 0 < after.sqrtPrice.val := here ▸ entered.target
      have onward : Travel aToB after.sqrtPrice.val rest := here ▸ travel.tail
      have arrives : Arrives aToB feePips rest {after with liquidity := 0} {after with liquidity := 0} after.sqrtPrice.val :=
        .here positive (here ▸ toBound) onward
      rw [same]
      exact ⟨_,arrives.behind advanced entered reached applied (head left)⟩
    | crossed after liquidity left advanced reached applied liquid here ran =>
      obtain ⟨onward,further⟩ := advanced.ready ready travel here liquid
      have behind : ∀ visit ∈ walk aToB feePips.val hasRealTicks rest after.sqrtPrice.val liquidity.val
          after.remaining.val,visit.Balanced aToB feePips.val := by
        have beyond : liquidity.val = crossed aToB state.liquidity.val boundary.liquidityNet.val := (applyNet_debug.mp applied).2
        have some_liquid : crossed aToB state.liquidity.val boundary.liquidityNet.val ≠ 0 :=
          fun dry => liquid (Fin.ext (beyond.trans dry))
        rw [walk,if_neg left.ne'] at balanced
        rw [here,beyond,advanced.remaining]
        intro visit member
        apply balanced visit
        apply List.mem_cons_of_mem
        exact (if_pos (⟨reached,some_liquid⟩ : _ ∧ _)).symm ▸ member
      obtain ⟨next,arrives⟩ := ih onward further behind ran
      exact ⟨next,arrives.behind advanced entered reached applied (head left)⟩

end loop

section quote
variable {build : Build} {aToB : Bool} {state : ClmmState} {amountIn out : U64}

/-- What the curve of a pool yields for an amount, up to the price bound of the engine. -/
def yields (state : ClmmState) (amountIn : U64) (aToB : Bool) : Set ℝ :=
  outputs (2^64) aToB (gross state.feePips) (bound aToB).val (knots aToB (boundaries state aToB)) state.sqrtPrice.val
    state.liquidity.val amountIn.val

noncomputable def exactOut (state : ClmmState) (amountIn : U64) (aToB : Bool) : ℝ :=
  exactOutput (2^64) aToB (gross state.feePips) (bound aToB).val (knots aToB (boundaries state aToB)) state.sqrtPrice.val
    state.liquidity.val amountIn.val

/-- A quote is at most the exact output of the curve, which is the supremum of what the curve
yields at the prices that the amount can pay for. -/
theorem quoteExactIn_le_exactOut (build : Build) (within : state.Within minSqrtPrice.val maxSqrtPrice.val)
    (balanced : ∀ visit ∈ visits state amountIn aToB,visit.Balanced aToB state.feePips.val)
    (returns : ∃ result, quoteExactIn .debug state amountIn aToB = .ok result)
    (quoted : quoteExactIn build state amountIn aToB = .ok (some out)) :
    IsLUB (yields state amountIn aToB) (exactOut state amountIn aToB) ∧ (out.val : ℝ) ≤ exactOut state amountIn aToB := by
  obtain ⟨result,ran⟩ := returns
  obtain rfl := Except.ok.inj ((follows_quoteExactIn build _ _ _ _ ran).symm.trans quoted)
  obtain ⟨⟨positive,liquid,fee⟩,final,looped,-,outEq⟩ := quoteExactIn_some.mp ran
  have travel : Travel aToB state.sqrtPrice.val (boundaries state aToB) := boundaries_travel within
  have ready : Ready aToB ⟨state.sqrtPrice,state.liquidity,u128 amountIn,0⟩ := initial_ready within liquid amountIn
  have unit : (0 : ℝ) < 2^64 := by norm_num
  have price : (0 : ℝ) < state.sqrtPrice.val := Nat.cast_pos.mpr ready.price
  have amount : (0 : ℝ) ≤ amountIn.val := Nat.cast_nonneg _
  have toBound : Onward aToB (state.sqrtPrice.val : ℝ) (bound aToB).val := onward_cast.mpr ready.toBound
  have ordered := knots_ordered travel
  refine ⟨exactOutput_isLUB unit price toBound ordered amount _ _,?_⟩
  have accepted : ¬ (amountIn = 0 ∨ state.liquidity = 0 ∨ pipsDenom ≤ u128 state.feePips) :=
    fun refused => refused_iff.mp refused ⟨positive,liquid,fee⟩
  rw [visits,if_neg accepted] at balanced
  obtain ⟨next,arrives⟩ := swapLoop_arrives ready fee travel balanced looped
  have reached := arrives.out
  rw [← outEq] at reached
  calc (out.val : ℝ) ≤ ((0 : U128).val : ℝ) +
        outputTo (2^64) aToB (knots aToB (boundaries state aToB)) state.sqrtPrice.val state.liquidity.val next := reached
    _ = outputTo (2^64) aToB (knots aToB (boundaries state aToB)) state.sqrtPrice.val state.liquidity.val next := by simp
    _ ≤ exactOut state amountIn aToB := arrives.toReachable.le_exactOutput unit price ordered amount

/-- A swap that crosses a tick where half of the liquidity ends. -/
theorem quoteExactIn_le_exactOut_crossing : ∃ state : ClmmState, state.feePips = 3000 ∧ state.ticks.length = 2 ∧
    (visits state 60000000000 true).length = 2 ∧
    quoteExactIn .release state 60000000000 true = .ok (some 56382111465) ∧
    ((56382111465 : U64).val : ℝ) ≤ exactOut state 60000000000 true := by
  let ticks : List TickBoundary := [⟨16691387729992146528,asI128 500000000000⟩,⟨17547129613991598781,asI128 500000000000⟩]
  let state : ClmmState := ⟨18446744073709551616,1000000000000,3000,ticks⟩
  have within : state.Within minSqrtPrice.val maxSqrtPrice.val := ⟨by decide,by decide⟩
  have quoted (build : Build) : quoteExactIn build state 60000000000 true = .ok (some 56382111465) := by
    cases build <;> decide +kernel
  have balanced : ∀ visit ∈ visits state 60000000000 true,visit.Balanced true state.feePips.val := by decide +kernel
  have path : (visits state 60000000000 true).length = 2 := by decide +kernel
  have bounded := quoteExactIn_le_exactOut .release within balanced ⟨_,quoted .debug⟩ (quoted .release)
  exact ⟨state,rfl,rfl,path,quoted .release,bounded.2⟩

end quote

end SuiArbitrage.Rust.Clmm
