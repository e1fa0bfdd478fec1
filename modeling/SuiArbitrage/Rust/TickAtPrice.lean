import SuiArbitrage.Lib.ReserveRange
import SuiArbitrage.Rust.ClmmRounds
import SuiArbitrage.Rust.Ticks

/-! A tick at the current price. A downward quote does not see it, so that it prices the
whole swap with the liquidity above the tick. -/
namespace SuiArbitrage.Rust.Clmm
open MachineWord Fallible ConcentratedLiquidity ReserveRange

section erased
variable {build : Build} {state : ClmmState} {tick : TickBoundary}

theorem boundaries_erase (same : tick.sqrtPrice = state.sqrtPrice) :
    boundaries {state with ticks := state.ticks.erase tick} true = boundaries state true := by
  have kept : (state.ticks.erase tick).filter (·.sqrtPrice < state.sqrtPrice) =
      state.ticks.filter (·.sqrtPrice < state.sqrtPrice) := by
    rw [← List.erase_filter]
    refine List.erase_of_not_mem fun member => ?_
    have below := List.of_mem_filter member
    rw [decide_eq_true_eq,same] at below
    exact lt_irrefl _ below
  rw [boundaries,boundaries,if_pos rfl,if_pos rfl,kept]

/-- A downward quote does not look at a tick at the current price. -/
theorem quoteExactIn_erase (state : ClmmState) (same : tick.sqrtPrice = state.sqrtPrice)
    (further : ∃ lower ∈ state.ticks, lower.sqrtPrice < state.sqrtPrice) (amountIn : U64) :
    quoteExactIn build {state with ticks := state.ticks.erase tick} amountIn true =
      quoteExactIn build state amountIn true := by
  obtain ⟨lower,listed,below⟩ := further
  have differ : lower ≠ tick := by
    intro equal
    rw [equal,same] at below
    exact lt_irrefl _ below
  have nonempty : state.ticks.isEmpty = false := List.isEmpty_eq_false_iff.mpr (List.ne_nil_of_mem listed)
  have others : (state.ticks.erase tick).isEmpty = false :=
    List.isEmpty_eq_false_iff.mpr (List.ne_nil_of_mem ((List.mem_erase_of_ne differ).mpr listed))
  simp only [quoteExactIn,boundaries_erase same,nonempty,others]

end erased

/-- The highest of the ticks below the price. -/
structure Nearest (state : ClmmState) (lower : TickBoundary) : Prop where
  listed : lower ∈ state.ticks
  below : lower.sqrtPrice < state.sqrtPrice
  highest : ∀ other ∈ state.ticks, other.sqrtPrice < state.sqrtPrice → other.sqrtPrice ≤ lower.sqrtPrice

/-- From the price down to a tick. -/
def rangeTo (lower : TickBoundary) (state : ClmmState) (amountIn : U64) : Range :=
  ⟨state.sqrtPrice.val,lower.sqrtPrice.val,state.liquidity.val,amountIn.val⟩

section first
variable {state : ClmmState} {lower : TickBoundary} {amountIn : U64}

theorem Nearest.boundaries (nearest : Nearest state lower) :
    ∃ first rest, boundaries state true = first :: rest ∧ first.sqrtPrice = lower.sqrtPrice := by
  have member : lower ∈ Clmm.boundaries state true := by
    rw [Clmm.boundaries,if_pos rfl,List.mem_insertionSort,List.mem_filter,decide_eq_true_eq]
    exact ⟨nearest.listed,nearest.below⟩
  cases listed : Clmm.boundaries state true with
  | nil =>
    rw [listed] at member
    cases member
  | cons first rest =>
    refine ⟨first,rest,rfl,le_antisymm ?_ ?_⟩
    · have head : first ∈ Clmm.boundaries state true := by rw [listed]; exact List.mem_cons_self
      rw [Clmm.boundaries,if_pos rfl,List.mem_insertionSort,List.mem_filter,decide_eq_true_eq] at head
      exact nearest.highest first head.1 head.2
    · have ordered : (Clmm.boundaries state true).Pairwise _ := boundaries_ordered
      rw [listed,List.pairwise_cons] at ordered
      rw [listed] at member
      rcases List.mem_cons.mp member with rfl | later
      · exact le_rfl
      · exact ahead_first.mp (ordered.1 lower later)

/-- A quote that ends above the next tick pays out what this range pays out. -/
theorem quoteExactIn_first (within : state.Within minSqrtPrice.val maxSqrtPrice.val) (nearest : Nearest state lower)
    (short : ¬ (rangeTo lower state amountIn).Reached true state.feePips.val) {out : U64}
    (quoted : quoteExactIn .debug state amountIn true = .ok (some out)) :
    0 < state.liquidity.val ∧ out.val = (rangeTo lower state amountIn).amountOut true state.feePips.val := by
  obtain ⟨⟨positive,liquid,fee⟩,final,ran,-,outEq⟩ := quoteExactIn_some.mp quoted
  refine ⟨liquid,?_⟩
  obtain ⟨first,rest,listed,same⟩ := nearest.boundaries
  have travel : Travel true state.sqrtPrice.val (boundaries state true) := boundaries_travel within
  rw [listed] at ran travel
  have range : SwapState.range ⟨state.sqrtPrice,state.liquidity,u128 amountIn,0⟩ first.sqrtPrice =
      rangeTo lower state amountIn := by
    rw [SwapState.range,same]
    rfl
  cases swapLoop_round (initial_ready within liquid amountIn) fee travel ran with
  | spent nothing => exact absurd nothing positive.ne'
  | stopped left advanced stays =>
    rw [range] at advanced
    rw [outEq,advanced.exact rfl]
    exact Nat.zero_add _
  | drained after left advanced reached =>
    rw [range] at reached
    exact absurd reached short
  | crossed after liquidity left advanced reached =>
    rw [range] at reached
    exact absurd reached short

/-- It stays within one step of the price and one unit of its curve. -/
theorem quoteExactIn_near (within : state.Within minSqrtPrice.val maxSqrtPrice.val) (nearest : Nearest state lower)
    (short : ¬ (rangeTo lower state amountIn).Reached true state.feePips.val) {out : U64}
    (quoted : quoteExactIn .debug state amountIn true = .ok (some out)) :
    let curve := curveOutput q64.val state.liquidity.val state.sqrtPrice.val ((rangeTo lower state amountIn).net state.feePips.val)
    (out.val : ℚ) ≤ curve ∧ curve < out.val + state.liquidity.val / q64.val + 1 := by
  obtain ⟨liquid,outEq⟩ := quoteExactIn_first within nearest short quoted
  rw [outEq,Range.amountOut,Range.next_of_short short,payout_first,moved_first]
  exact ⟨secondDown_le_curve q64_pos liquid,curve_lt_secondDown q64_pos liquid⟩

/-- A round that fits and does not reach its tick is the last one, and returns. -/
theorem swapLoop_short {build : Build} {hasRealTicks aToB : Bool} {feePips : U64} {state : SwapState} {boundary : TickBoundary}
    {rest : List TickBoundary} (entered : (state.range boundary.sqrtPrice).Entered aToB feePips.val)
    (short : ¬ (state.range boundary.sqrtPrice).Reached aToB feePips.val)
    (fits : (state.range boundary.sqrtPrice).Fits aToB feePips.val)
    (room : state.out.val + (state.range boundary.sqrtPrice).amountOut aToB feePips.val < 2^128) :
    ∃ final, swapLoop build feePips hasRealTicks aToB (boundary :: rest) state = .ok final := by
  rw [swapLoop]
  split
  · exact ⟨state,rfl⟩
  obtain ⟨step,exact⟩ := exists_step entered (state.range_of boundary.sqrtPrice) fits.paid
  have stepped : computeSwapStep build state.sqrtPrice boundary.sqrtPrice state.liquidity state.remaining feePips aToB =
      .ok step := (computeSwapStep_ok entered (state.range_of boundary.sqrtPrice)).mpr ⟨fits,exact⟩
  rw [← exact.amountOut] at room
  have elsewhere : step.sqrtNext ≠ boundary.sqrtPrice := by
    intro arrived
    have here := exact.next.symm.trans (congrArg Fin.val arrived)
    exact short (entered.next_eq_target.mp here)
  dsimp only
  rw [stepped,ok_bind,advance_of_exact build state entered exact,add_of_lt room,ok_bind,ok_bind,if_neg elsewhere]
  exact ⟨_,rfl⟩

/-- The fee takes the whole input, and what it would cost to reach the next tick fits its
machine integers. -/
structure Dust (state : ClmmState) (lower : TickBoundary) (amountIn : U64) : Prop where
  liquid : 0 < state.liquidity.val
  spent : (rangeTo lower state amountIn).net state.feePips.val = 0
  width : state.liquidity.val * q64.val * (state.sqrtPrice.val - lower.sqrtPrice.val) < 2^256
  charged : (rangeTo lower state amountIn).toTarget true < 2^128

namespace Dust
variable (dust : Dust state lower amountIn)
include dust

theorem short (positive : 0 < lower.sqrtPrice.val) (below : lower.sqrtPrice.val < state.sqrtPrice.val) :
    ¬ (rangeTo lower state amountIn).Reached true state.feePips.val := by
  have product : 0 < (rangeTo lower state amountIn).price * (rangeTo lower state amountIn).target :=
    Nat.mul_pos (positive.trans below) positive
  rw [Range.Reached,dust.spent,Range.toTarget,charge_first,firstUp_le_iff product,Nat.mul_zero,not_le]
  exact Nat.mul_pos (Nat.mul_pos dust.liquid q64_pos) (Nat.sub_pos_of_lt below)

theorem amountOut (short : ¬ (rangeTo lower state amountIn).Reached true state.feePips.val) :
    (rangeTo lower state amountIn).amountOut true state.feePips.val = 0 := by
  have stays : (rangeTo lower state amountIn).next true state.feePips.val = state.sqrtPrice.val := by
    rw [Range.next_of_short short,dust.spent,moved_first]
    exact afterFirst_zero (Nat.mul_pos dust.liquid q64_pos)
  rw [Range.amountOut,stays,payout_first]
  simp [rangeTo,secondDown]

theorem fits (short : ¬ (rangeTo lower state amountIn).Reached true state.feePips.val) :
    (rangeTo lower state amountIn).Fits true state.feePips.val := by
  refine ⟨fun _ => dust.width,dust.charged,fun _ some_left => ?_,?_⟩
  · rw [dust.spent] at some_left
    exact absurd some_left (lt_irrefl 0)
  · rw [dust.amountOut short]
    norm_num

/-- Dust moves no price and pays nothing out, whatever the liquidity. -/
theorem quote (within : state.Within minSqrtPrice.val maxSqrtPrice.val) (nearest : Nearest state lower)
    (positive : 0 < amountIn.val) (fee : state.feePips.val < 1000000) (build : Build) :
    quoteExactIn build state amountIn true = .ok (some 0) := by
  obtain ⟨first,rest,listed,same⟩ := nearest.boundaries
  let start : SwapState := ⟨state.sqrtPrice,state.liquidity,u128 amountIn,0⟩
  have travel : Travel true state.sqrtPrice.val (boundaries state true) := boundaries_travel within
  rw [listed] at travel
  have ready : Ready true start := initial_ready within dust.liquid amountIn
  have range : start.range first.sqrtPrice = rangeTo lower state amountIn := by
    rw [SwapState.range,same]
    rfl
  have entered : (rangeTo lower state amountIn).Entered true state.feePips.val := range ▸ travel.entered ready fee
  have short : ¬ (rangeTo lower state amountIn).Reached true state.feePips.val := dust.short entered.target nearest.below
  have nothing := dust.amountOut short
  obtain ⟨final,ran⟩ : ∃ final, swapLoop build state.feePips true true (first :: rest) start = .ok final := by
    apply swapLoop_short (range ▸ entered) (range ▸ short) (range ▸ dust.fits short)
    rw [range,nothing]
    norm_num [start]
  have loaded : (!state.ticks.isEmpty) = true := by simp [List.ne_nil_of_mem nearest.listed]
  refine quoteExactIn_some.mpr ⟨⟨positive,dust.liquid,fee⟩,final,by rw [loaded,listed]; exact ran,?_⟩
  cases swapLoop_round ready fee travel ran with
  | spent none => exact absurd none positive.ne'
  | stopped left advanced stays =>
    rw [range] at advanced
    have out := advanced.out
    rw [nothing] at out
    exact ⟨fun _ => advanced.remaining.trans (Range.spent_short entered short),(Nat.le_zero.mp out).symm⟩
  | drained after left advanced reached => exact absurd reached (range ▸ short)
  | crossed after liquidity left advanced reached => exact absurd reached (range ▸ short)

end Dust

end first

/-- The swap ends above the next tick whichever liquidity prices it, and the outputs along
the two curves are further apart than the rounding. -/
structure Exposed (state : ClmmState) (reduced : U128) (lower : TickBoundary) (amountIn : U64) : Prop where
  within : state.Within minSqrtPrice.val maxSqrtPrice.val
  nearest : Nearest state lower
  stays : ¬ (rangeTo lower state amountIn).Reached true state.feePips.val
  staysReduced : ¬ (rangeTo lower {state with liquidity := reduced} amountIn).Reached true state.feePips.val
  apart :
    let curve := fun L : U128 =>
      curveOutput q64.val L.val state.sqrtPrice.val ((rangeTo lower state amountIn).net state.feePips.val)
    curve reduced + state.liquidity.val / q64.val + 1 ≤ curve state.liquidity ∨
      curve state.liquidity + reduced.val / q64.val + 1 ≤ curve reduced

/-- The tick does not change the liquidity, the quote ends before it looks at it, or the input
is dust with either liquidity. -/
def Unaffected (state : ClmmState) (tick : TickBoundary) (reduced : U128) (amountIn : U64) : Prop :=
  tick.liquidityNet.val = 0 ∨ amountIn = 0 ∨ 1000000 ≤ state.feePips.val ∨
    state.Within minSqrtPrice.val maxSqrtPrice.val ∧ ∃ lower, Nearest state lower ∧ Dust state lower amountIn ∧
      Dust {state with liquidity := reduced} lower amountIn

section sides
variable {state : ClmmState} {tick : TickBoundary}

theorem Unaffected.quote {amountIn : U64} {reduced : U128} (unaffected : Unaffected state tick reduced amountIn)
    (taken : (reduced.val : ℤ) = state.liquidity.val - tick.liquidityNet.val) (build : Build) :
    quoteExactIn build {state with liquidity := reduced} amountIn true = quoteExactIn build state amountIn true := by
  have refused (early : amountIn = 0 ∨ pipsDenom ≤ u128 state.feePips) :
      quoteExactIn build {state with liquidity := reduced} amountIn true = quoteExactIn build state amountIn true := by
    rcases early with none | fee
    · simp only [quoteExactIn,none,true_or,if_true]
    · simp only [quoteExactIn,fee,or_true,if_true]
  rcases unaffected with nothing | none | fee | ⟨within,lower,nearest,dust,other⟩
  · have unchanged : reduced = state.liquidity := Fin.ext (by omega)
    rw [unchanged]
  · exact refused (.inl none)
  · exact refused (.inr fee)
  · by_cases early : amountIn = 0 ∨ pipsDenom ≤ u128 state.feePips
    · exact refused early
    · obtain ⟨some_in,fee⟩ := not_or.mp early
      have positive : 0 < amountIn.val := Nat.pos_of_ne_zero fun zero => some_in (Fin.ext zero)
      have fee : state.feePips.val < 1000000 := not_le.mp fee
      rw [dust.quote within nearest positive fee]
      exact other.quote ⟨within.price,within.ticks⟩ ⟨nearest.listed,nearest.below,nearest.highest⟩ positive fee build

theorem Exposed.differ {lower : TickBoundary} {amountIn : U64} {reduced : U128}
    (exposed : Exposed state reduced lower amountIn) {out : U64}
    (quoted : quoteExactIn .debug state amountIn true = .ok (some out)) :
    quoteExactIn .debug {state with liquidity := reduced} amountIn true ≠ .ok (some out) := by
  intro same
  obtain ⟨within,nearest,stays,staysReduced,apart⟩ := exposed
  obtain ⟨atMost,near⟩ := quoteExactIn_near within nearest stays quoted
  have within' : ClmmState.Within minSqrtPrice.val maxSqrtPrice.val {state with liquidity := reduced} :=
    ⟨within.price,within.ticks⟩
  have nearest' : Nearest {state with liquidity := reduced} lower := ⟨nearest.listed,nearest.below,nearest.highest⟩
  obtain ⟨atMost',near'⟩ := quoteExactIn_near within' nearest' staysReduced same
  have net : (rangeTo lower {state with liquidity := reduced} amountIn).net state.feePips.val =
    (rangeTo lower state amountIn).net state.feePips.val := rfl
  simp only [net] at atMost' near'
  rcases apart with more | less
  · linarith
  · linarith

/-- The liquidity below the tick prices a downward swap where the tick does not matter, and
never where the two liquidities lead to outputs that rounding cannot hide. -/
theorem quote_at_tick (tick : TickBoundary) (reduced : U128) (same : tick.sqrtPrice = state.sqrtPrice)
    (further : ∃ lower ∈ state.ticks, lower.sqrtPrice < state.sqrtPrice)
    (taken : (reduced.val : ℤ) = state.liquidity.val - tick.liquidityNet.val) (amountIn : U64) :
    (Unaffected state tick reduced amountIn → ∀ build, quoteExactIn build state amountIn true =
      quoteExactIn build {state with liquidity := reduced, ticks := state.ticks.erase tick} amountIn true) ∧
    ∀ lower, Exposed state reduced lower amountIn → ∀ out, quoteExactIn .debug state amountIn true = .ok (some out) →
      quoteExactIn .debug {state with liquidity := reduced, ticks := state.ticks.erase tick} amountIn true ≠
        .ok (some out) := by
  have ignored : ∀ build, quoteExactIn build {state with liquidity := reduced, ticks := state.ticks.erase tick} amountIn true =
      quoteExactIn build {state with liquidity := reduced} amountIn true := by
    intro build
    exact quoteExactIn_erase {state with liquidity := reduced} same further amountIn
  constructor
  · intro unaffected build
    rw [ignored build,unaffected.quote taken build]
  · intro lower exposed out quoted
    rw [ignored .debug]
    exact exposed.differ quoted

/-- Half of the liquidity at the price is the tick's own, and a downward swap is priced with all of it. -/
theorem quote_at_tick_misprices : ¬ ∀ (build : Build) (state : ClmmState) (tick : TickBoundary) (reduced : U128),
    tick ∈ state.ticks → tick.sqrtPrice = state.sqrtPrice →
      (∃ lower ∈ state.ticks, lower.sqrtPrice < state.sqrtPrice) →
      (reduced.val : ℤ) = state.liquidity.val - tick.liquidityNet.val → 0 < reduced →
      ∀ amountIn, quoteExactIn build state amountIn true =
        quoteExactIn build {state with liquidity := reduced, ticks := state.ticks.erase tick} amountIn true := by
  intro claimed
  let lower : TickBoundary := ⟨16691387729992146528,asI128 (wrap 128 500000000000)⟩
  let tick : TickBoundary := ⟨18446744073709551616,asI128 (wrap 128 500000000000)⟩
  let state : ClmmState := ⟨18446744073709551616,1000000000000,3000,[lower,tick]⟩
  have same := claimed .debug state tick 500000000000 (by decide) rfl ⟨lower,by decide,by decide⟩ (by decide) (by decide)
    10000000000
  have quoted : quoteExactIn .debug state 10000000000 true = .ok (some 9871580343) := by decide +kernel
  have right : quoteExactIn .debug {state with liquidity := 500000000000, ticks := state.ticks.erase tick} 10000000000 true =
      .ok (some 9775084808) := by decide +kernel
  have differ := quoted.symm.trans (same.trans right)
  exact absurd (Option.some.inj (Except.ok.inj differ)) (by decide)

/-- A tick without liquidity, and one with half of it, which matters but not to a unit of input. -/
theorem quote_at_tick_empty : ∃ empty half : ClmmState, empty.ticks.length = 2 ∧ half.ticks.length = 2 ∧
    (∀ amountIn, quoteExactIn .debug empty amountIn true =
      quoteExactIn .debug {empty with ticks := empty.ticks.take 1} amountIn true) ∧
    quoteExactIn .debug {half with liquidity := 500000000000, ticks := half.ticks.take 1} 10000000000 true ≠
      .ok (some 9871580343) ∧
    quoteExactIn .debug half 1 true =
      quoteExactIn .debug {half with liquidity := 500000000000, ticks := half.ticks.take 1} 1 true := by
  let lower : TickBoundary := ⟨16691387729992146528,asI128 (wrap 128 500000000000)⟩
  let none : TickBoundary := ⟨18446744073709551616,asI128 0⟩
  let tick : TickBoundary := ⟨18446744073709551616,asI128 (wrap 128 500000000000)⟩
  let empty : ClmmState := ⟨18446744073709551616,1000000000000,3000,[lower,none]⟩
  let half : ClmmState := ⟨18446744073709551616,1000000000000,3000,[lower,tick]⟩
  have within : half.Within minSqrtPrice.val maxSqrtPrice.val := ⟨by decide,by decide⟩
  have nearest : Nearest half lower := ⟨by decide,by decide,by decide⟩
  refine ⟨empty,half,rfl,rfl,fun amountIn => ?_,?_,?_⟩
  · exact (quote_at_tick none 1000000000000 rfl ⟨lower,by decide,by decide⟩ (by decide) amountIn).1 (.inl rfl) .debug
  · have quoted : quoteExactIn .debug half 10000000000 true = .ok (some 9871580343) := by decide +kernel
    have exposed : Exposed half 500000000000 lower 10000000000 := by
      have full : half.liquidity.val = 1000000000000 := by decide
      have part : (500000000000 : U128).val = 500000000000 := by decide
      have price : half.sqrtPrice.val = 18446744073709551616 := by decide
      have net : (rangeTo lower half 10000000000).net half.feePips.val = 9970000000 := by decide +kernel
      refine ⟨within,nearest,by decide +kernel,by decide +kernel,?_⟩
      intro curve
      left
      simp only [curve,net,full,part,price,q64_val]
      norm_num [curveOutput]
    exact (quote_at_tick tick 500000000000 rfl ⟨lower,by decide,by decide⟩ (by decide) 10000000000).2 lower exposed _ quoted
  · have dust : Dust half lower 1 := ⟨by decide,by decide +kernel,by decide +kernel,by decide +kernel⟩
    have other : Dust {half with liquidity := 500000000000} lower 1 :=
      ⟨by decide,by decide +kernel,by decide +kernel,by decide +kernel⟩
    exact (quote_at_tick tick 500000000000 rfl ⟨lower,by decide,by decide⟩ (by decide) 1).1
      (.inr (.inr (.inr ⟨within,lower,nearest,dust,other⟩))) .debug

end sides

end SuiArbitrage.Rust.Clmm
