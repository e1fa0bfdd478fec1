import SuiArbitrage.Rust.Builds
import SuiArbitrage.Rust.ClmmRounds

/-! More input at no higher fee never quotes less, and a pool that has the depth for a
larger swap has it for a smaller one. Two swaps go through the same ranges in lockstep,
the smaller with no more input left, until it stops. -/
namespace SuiArbitrage.Rust.Clmm
open MachineWord Fallible ConcentratedLiquidity

section loop
variable {build : Build} {aToB hasRealTicks : Bool} {feePips feePips' : U64} {state final wider widerFinal : SwapState}
  {boundaries : List TickBoundary}

theorem Advanced.out_le {range : Range} {after : SwapState} (advanced : Advanced .debug aToB feePips.val range state after) :
    state.out.val ≤ after.out.val := by
  rw [advanced.exact rfl]
  exact Nat.le_add_right _ _

/-- Where nothing overflows the output only grows. -/
theorem swapLoop_out_le (ready : Ready aToB state) (fee : feePips.val < 1000000)
    (travel : Travel aToB state.sqrtPrice.val boundaries)
    (ran : swapLoop .debug feePips hasRealTicks aToB boundaries state = .ok final) : state.out.val ≤ final.out.val := by
  induction boundaries generalizing state with
  | nil =>
    cases swapLoop_last ready fee ran with
    | done enough same => rw [same]
    | far left bare advanced => exact advanced.out_le
  | cons boundary rest ih =>
    cases swapLoop_round ready fee travel ran with
    | spent nothing same => rw [same]
    | stopped left advanced short => exact advanced.out_le
    | drained after left advanced reached applied same =>
      rw [same]
      exact advanced.out_le
    | crossed after liquidity left advanced reached applied liquid here ran =>
      obtain ⟨onward,further⟩ := advanced.ready ready travel here liquid
      have grown := ih onward further ran
      exact advanced.out_le.trans grown

/-- Two swaps at the same price and liquidity, the second with at least as much input left,
at most the fee, and at least as much output. -/
structure Lockstep (state wider : SwapState) : Prop where
  price : state.sqrtPrice = wider.sqrtPrice
  liquidity : state.liquidity = wider.liquidity
  remaining : state.remaining.val ≤ wider.remaining.val
  out : state.out.val ≤ wider.out.val

theorem Lockstep.under (lockstep : Lockstep state wider) (fee : feePips'.val ≤ feePips.val) (target : U128) :
    Range.Under feePips.val feePips'.val (state.range target) (wider.range target) :=
  ⟨congrArg Fin.val lockstep.price,rfl,congrArg Fin.val lockstep.liquidity,lockstep.remaining,fee⟩

/-- In a range that both enter the larger swap pays no less. -/
theorem Lockstep.pays {target : U128} {after widerAfter : SwapState} (lockstep : Lockstep state wider)
    (less : feePips'.val ≤ feePips.val) (entered : (state.range target).Entered aToB feePips.val)
    (advanced : Advanced .debug aToB feePips.val (state.range target) state after)
    (widerAdvanced : Advanced .debug aToB feePips'.val (wider.range target) wider widerAfter) :
    after.out.val ≤ widerAfter.out.val := by
  rw [advanced.exact rfl,widerAdvanced.exact rfl]
  exact Nat.add_le_add lockstep.out ((lockstep.under less target).amountOut_le entered)

/-- In a range that the smaller swap crosses the larger one pays as much and is charged no more. -/
theorem Lockstep.round {boundary : TickBoundary} {after widerAfter : SwapState} (lockstep : Lockstep state wider)
    (less : feePips'.val ≤ feePips.val) (fee : feePips.val < 1000000)
    (reached : (state.range boundary.sqrtPrice).Reached aToB feePips.val)
    (advanced : Advanced .debug aToB feePips.val (state.range boundary.sqrtPrice) state after)
    (widerAdvanced : Advanced .debug aToB feePips'.val (wider.range boundary.sqrtPrice) wider widerAfter)
    (liquidity : U128) : Lockstep {after with liquidity := liquidity} {widerAfter with liquidity := liquidity} := by
  have under := lockstep.under less boundary.sqrtPrice
  refine ⟨Fin.ext ?_,rfl,?_,?_⟩
  · rw [advanced.price,widerAdvanced.price,Range.next_of_reached reached,Range.next_of_reached (under.reached reached)]
    rfl
  · simp only []
    rw [advanced.remaining,widerAdvanced.remaining]
    exact under.left_le fee reached
  · simp only []
    rw [advanced.exact rfl,widerAdvanced.exact rfl,under.amountOut_eq reached]
    exact Nat.add_le_add_right lockstep.out _

/-- Behind the last boundary the larger swap pays no less, and has input left where the smaller one has. -/
theorem Lockstep.last (lockstep : Lockstep state wider) (ready : Ready aToB state) (widerReady : Ready aToB wider)
    (less : feePips'.val ≤ feePips.val) (fee : feePips.val < 1000000)
    (ran : swapLoop .debug feePips hasRealTicks aToB [] state = .ok final)
    (widerRan : swapLoop .debug feePips' hasRealTicks aToB [] wider = .ok widerFinal) :
    final.out.val ≤ widerFinal.out.val ∧
      (hasRealTicks = true → widerFinal.remaining.val = 0 → final.remaining.val = 0) := by
  have remaining := lockstep.remaining
  cases swapLoop_last ready fee ran with
  | done enough same =>
    subst same
    cases swapLoop_last widerReady (less.trans_lt fee) widerRan with
    | done widerEnough widerSame =>
      rw [widerSame]
      exact ⟨lockstep.out,fun _ spent => by omega⟩
    | far left bare advanced => exact ⟨lockstep.out.trans advanced.out_le,fun real => by cases bare.symm.trans real⟩
  | far left bare advanced =>
    refine ⟨?_,fun real => by cases bare.symm.trans real⟩
    cases swapLoop_last widerReady (less.trans_lt fee) widerRan with
    | done enough same =>
      rcases enough with nothing | real
      · omega
      · cases bare.symm.trans real
    | far widerLeft widerBare widerAdvanced =>
      exact lockstep.pays less (ready.entered fee (bound_pos aToB) ready.toBound) advanced widerAdvanced

theorem swapLoop_lockstep (lockstep : Lockstep state wider) (ready : Ready aToB state) (widerReady : Ready aToB wider)
    (less : feePips'.val ≤ feePips.val) (fee : feePips.val < 1000000)
    (travel : Travel aToB state.sqrtPrice.val boundaries)
    (ran : swapLoop .debug feePips hasRealTicks aToB boundaries state = .ok final)
    (widerRan : swapLoop .debug feePips' hasRealTicks aToB boundaries wider = .ok widerFinal) :
    final.out.val ≤ widerFinal.out.val ∧
      (hasRealTicks = true → widerFinal.remaining.val = 0 → final.remaining.val = 0) := by
  have widerFee : feePips'.val < 1000000 := less.trans_lt fee
  induction boundaries generalizing state wider with
  | nil => exact lockstep.last ready widerReady less fee ran widerRan
  | cons boundary rest ih =>
    have under := lockstep.under less boundary.sqrtPrice
    have remaining := lockstep.remaining
    have entered := travel.entered ready fee
    have widerTravel : Travel aToB wider.sqrtPrice.val (boundary :: rest) := lockstep.price ▸ travel
    cases swapLoop_round ready fee travel ran with
    | spent nothing same =>
      subst same
      exact ⟨lockstep.out.trans (swapLoop_out_le widerReady widerFee widerTravel widerRan),fun _ _ => nothing⟩
    | stopped left advanced short =>
      refine ⟨?_,fun _ _ => advanced.remaining.trans (Range.spent_short entered short)⟩
      cases swapLoop_round widerReady widerFee widerTravel widerRan with
      | spent nothing same => omega
      | stopped widerLeft widerAdvanced widerShort => exact lockstep.pays less entered advanced widerAdvanced
      | drained after widerLeft widerAdvanced widerReached applied same =>
        have paid := lockstep.pays less entered advanced widerAdvanced
        rw [same]
        exact paid
      | crossed after liquidity widerLeft widerAdvanced widerReached applied liquid here widerRan =>
        obtain ⟨onward,further⟩ := widerAdvanced.ready widerReady widerTravel here liquid
        have grown := swapLoop_out_le onward widerFee further widerRan
        exact (lockstep.pays less entered advanced widerAdvanced).trans grown
    | drained after left advanced reached applied same =>
      cases swapLoop_round widerReady widerFee widerTravel widerRan with
      | spent nothing same => omega
      | stopped widerLeft widerAdvanced widerShort => exact absurd (under.reached reached) widerShort
      | drained widerAfter widerLeft widerAdvanced widerReached widerApplied widerSame =>
        have onward := lockstep.round less fee reached advanced widerAdvanced 0
        rw [same,widerSame]
        exact ⟨onward.out,fun _ nothing => Nat.le_zero.mp (nothing ▸ onward.remaining)⟩
      | crossed widerAfter liquidity widerLeft widerAdvanced widerReached widerApplied liquid here widerRan =>
        rw [← lockstep.liquidity] at widerApplied
        exact absurd (Except.ok.inj (widerApplied.symm.trans applied)) liquid
    | crossed after liquidity left advanced reached applied liquid here ran =>
      cases swapLoop_round widerReady widerFee widerTravel widerRan with
      | spent nothing same => omega
      | stopped widerLeft widerAdvanced widerShort => exact absurd (under.reached reached) widerShort
      | drained widerAfter widerLeft widerAdvanced widerReached widerApplied widerSame =>
        rw [← lockstep.liquidity] at widerApplied
        exact absurd (Except.ok.inj (applied.symm.trans widerApplied)) liquid
      | crossed widerAfter widerLiquidity widerLeft widerAdvanced widerReached widerApplied widerLiquid widerHere widerRan =>
        rw [← lockstep.liquidity] at widerApplied
        obtain rfl := Except.ok.inj (applied.symm.trans widerApplied)
        obtain ⟨onward,further⟩ := advanced.ready ready travel here liquid
        obtain ⟨widerOnward,-⟩ := widerAdvanced.ready widerReady widerTravel widerHere liquid
        exact ih (lockstep.round less fee reached advanced widerAdvanced liquidity) onward widerOnward further ran widerRan

end loop

section quote
variable {build : Build} {aToB : Bool} {price : SqrtPriceX64} {liquidity : Liquidity} {ticks : List TickBoundary}
  {feePips feePips' amountIn amountIn' : U64}

/-- The quote of the larger amount at the lower fee implies that of the smaller one, and is no less. -/
theorem quoteExactIn_lockstep (within : (⟨price,liquidity,feePips,ticks⟩ : ClmmState).Within minSqrtPrice.val maxSqrtPrice.val)
    (positive : 0 < amountIn) (more : amountIn ≤ amountIn') (less : feePips' ≤ feePips) (fee : feePips.val < 1000000)
    {result : Option U64} (ran : quoteExactIn .debug ⟨price,liquidity,feePips,ticks⟩ amountIn aToB = .ok result) {out' : U64}
    (quoted : quoteExactIn .debug ⟨price,liquidity,feePips',ticks⟩ amountIn' aToB = .ok (some out')) :
    ∃ out, result = some out ∧ out ≤ out' := by
  obtain ⟨⟨-,liquid,-⟩,widerFinal,widerRan,spent,outEq⟩ := quoteExactIn_some.mp quoted
  have accepted : ¬ (amountIn = 0 ∨ liquidity = 0 ∨ pipsDenom ≤ u128 feePips) :=
    fun refused => refused_iff.mp refused ⟨positive,liquid,fee⟩
  have ran := quoteExactIn_ok.mp ran
  rw [if_neg accepted] at ran
  obtain ⟨final,ran,settled⟩ := ran
  have ready : Ready aToB ⟨price,liquidity,u128 amountIn,0⟩ := initial_ready within liquid amountIn
  have widerReady : Ready aToB ⟨price,liquidity,u128 amountIn',0⟩ := initial_ready within liquid amountIn'
  have lockstep : Lockstep ⟨price,liquidity,u128 amountIn,0⟩ ⟨price,liquidity,u128 amountIn',0⟩ :=
    ⟨rfl,rfl,more,le_rfl⟩
  obtain ⟨outLe,onward⟩ := swapLoop_lockstep lockstep ready widerReady less fee (boundaries_travel within) ran widerRan
  have small : final.out.val < 2^64 := by
    have := out'.isLt
    omega
  refine ⟨⟨final.out.val,small⟩,?_,?_⟩
  · rw [settled,settle_some]
    exact ⟨fun real => onward real (spent real),rfl⟩
  · rw [Fin.le_def,outEq]
    exact outLe

/-- Quotes grow with the amount and fall with the fee, and depth is a threshold: in either
build, for amounts and fees at which no arithmetic overflows. -/
theorem quoteExactIn_monotone (build : Build) (aToB : Bool)
    (within : (⟨price,liquidity,feePips,ticks⟩ : ClmmState).Within minSqrtPrice.val maxSqrtPrice.val)
    (positive : 0 < amountIn) (more : amountIn ≤ amountIn') (less : feePips' ≤ feePips) (fee : feePips.val < 1000000)
    (returns : ∃ result, quoteExactIn .debug ⟨price,liquidity,feePips,ticks⟩ amountIn aToB = .ok result)
    (returnsMore : ∃ result, quoteExactIn .debug ⟨price,liquidity,feePips,ticks⟩ amountIn' aToB = .ok result)
    (returnsLess : ∃ result, quoteExactIn .debug ⟨price,liquidity,feePips',ticks⟩ amountIn' aToB = .ok result) :
    (∀ out out', quoteExactIn build ⟨price,liquidity,feePips,ticks⟩ amountIn aToB = .ok (some out) →
      quoteExactIn build ⟨price,liquidity,feePips',ticks⟩ amountIn' aToB = .ok (some out') → out ≤ out') ∧
    ((∃ out', quoteExactIn build ⟨price,liquidity,feePips,ticks⟩ amountIn' aToB = .ok (some out')) →
      ∃ out, quoteExactIn build ⟨price,liquidity,feePips,ticks⟩ amountIn aToB = .ok (some out)) := by
  obtain ⟨result,ran⟩ := returns
  have ranBuild := follows_quoteExactIn build _ _ _ _ ran
  constructor
  · intro out out' quoted quoted'
    obtain ⟨wider,widerRan⟩ := returnsLess
    obtain rfl := Except.ok.inj ((follows_quoteExactIn build _ _ _ _ widerRan).symm.trans quoted')
    obtain ⟨found,rfl,ordered⟩ := quoteExactIn_lockstep within positive more less fee ran widerRan
    rw [Option.some.inj (Except.ok.inj (quoted.symm.trans ranBuild))]
    exact ordered
  · intro ⟨out',quoted'⟩
    obtain ⟨wider,widerRan⟩ := returnsMore
    obtain rfl := Except.ok.inj ((follows_quoteExactIn build _ _ _ _ widerRan).symm.trans quoted')
    obtain ⟨found,rfl,-⟩ := quoteExactIn_lockstep within positive more le_rfl fee ran widerRan
    exact ⟨found,ranBuild⟩

/-- The smaller swap ends before a tick that the larger one crosses. -/
theorem quoteExactIn_monotone_crossing : ∃ state : ClmmState, state.feePips = 3000 ∧ state.ticks.length = 2 ∧
    ∃ out out' : U64, quoteExactIn .release state 50000000000 true = .ok (some out) ∧
      quoteExactIn .release {state with feePips := 500} 60000000000 true = .ok (some out') ∧ out ≤ out' := by
  let ticks : List TickBoundary := [⟨16691387729992146528,asI128 500000000000⟩,⟨17547129613991598781,asI128 500000000000⟩]
  let state : ClmmState := ⟨18446744073709551616,1000000000000,3000,ticks⟩
  have within : state.Within minSqrtPrice.val maxSqrtPrice.val := ⟨by decide,by decide⟩
  have quoted (build : Build) : quoteExactIn build state 50000000000 true = .ok (some 47482973758) := by
    cases build <;> decide +kernel
  have quotedMore : quoteExactIn .debug state 60000000000 true = .ok (some 56382111465) := by decide +kernel
  have quotedLess (build : Build) : quoteExactIn build {state with feePips := 500} 60000000000 true =
      .ok (some 56513490090) := by
    cases build <;> decide +kernel
  have monotone := quoteExactIn_monotone .release true within (by decide) (by decide) (by decide) (by decide)
    ⟨_,quoted .debug⟩ ⟨_,quotedMore⟩ ⟨_,quotedLess .debug⟩
  exact ⟨state,rfl,rfl,_,_,quoted .release,quotedLess .release,monotone.1 _ _ (quoted .release) (quotedLess .release)⟩

end quote

end SuiArbitrage.Rust.Clmm
