import SuiArbitrage.Rust.ClmmWorth

/-! When a quote returns at all. The exact swap visits ranges of natural numbers;
the engine returns exactly when each of them has room in its machine integers. -/
namespace SuiArbitrage.Rust.Clmm
open MachineWord Fallible ConcentratedLiquidity

/-- A range of the exact swap and the net liquidity of the tick it ends at. -/
structure Visit where
  range : Range
  net : Option ℤ
  deriving DecidableEq, Repr

def crossed (aToB : Bool) (L : ℕ) (net : ℤ) : ℕ :=
  (max 0 (min (2^128 - 1) ((L : ℤ) + if aToB then -net else net))).toNat

def walk (aToB : Bool) (feePips : ℕ) (hasRealTicks : Bool) :
    List TickBoundary → (price liquidity remaining : ℕ) → List Visit
  | [],price,liquidity,remaining =>
    if remaining = 0 ∨ hasRealTicks then []
    else [⟨⟨price,(bound aToB).val,liquidity,remaining⟩,none⟩]
  | boundary :: boundaries,price,liquidity,remaining =>
    if remaining = 0 then []
    else
      let range : Range := ⟨price,boundary.sqrtPrice.val,liquidity,remaining⟩
      let beyond := crossed aToB liquidity boundary.liquidityNet.val
      ⟨range,some boundary.liquidityNet.val⟩ ::
        if range.Reached aToB feePips ∧ beyond ≠ 0 then
          walk aToB feePips hasRealTicks boundaries boundary.sqrtPrice.val beyond
            (remaining - (range.amountIn aToB feePips + range.feeAmount aToB feePips))
        else []

/-- The ranges a quote enters with input left; none where it is refused at once. -/
def visits (state : ClmmState) (amountIn : U64) (aToB : Bool) : List Visit :=
  if amountIn = 0 ∨ state.liquidity = 0 ∨ pipsDenom ≤ u128 state.feePips then []
  else walk aToB state.feePips.val (!state.ticks.isEmpty) (boundaries state aToB) state.sqrtPrice.val
    state.liquidity.val amountIn.val

/-- What can still overflow between the venues' price bounds: three amounts of a
range, and the negation of a net that is crossed downwards. -/
structure Visit.Roomy (aToB : Bool) (feePips : ℕ) (visit : Visit) : Prop where
  width : aToB = true →
    visit.range.liquidity * q64.val * (visit.range.price - visit.range.target) < 2^256
  charged : visit.range.toTarget aToB < 2^128
  scaled : aToB = true → 0 < visit.range.net feePips → visit.range.net feePips < visit.range.toTarget aToB →
    visit.range.liquidity * q64.val * visit.range.price < 2^256
  negated : aToB = true → visit.range.Reached aToB feePips → ∀ net ∈ visit.net, net ≠ -2^127

theorem negI128_debug {x result : I128} :
    negI128 .debug x = .ok result ↔ x.val ≠ -2^127 ∧ result.val = -x.val := by
  have low := x.property.1
  unfold negI128
  split
  · rw [Except.ok.injEq,Subtype.ext_iff]
    constructor
    · intro same
      exact ⟨by omega,same.symm⟩
    · rintro ⟨-,same⟩
      exact same.symm
  · rw [if_pos rfl,panic_ne_ok,false_iff]
    rintro ⟨least,-⟩
    omega

theorem applyNet_debug {l result : U128} {net : I128} {aToB : Bool} :
    applyNet .debug l net aToB = .ok result ↔
      (aToB = true → net.val ≠ -2^127) ∧ result.val = crossed aToB l.val net.val := by
  have shift : ∀ delta : I128, (if 0 ≤ delta.val then (.ok (saturatingAdd l (wrap 128 delta.val)) : Rust U128)
      else .ok (saturatingSub l (wrap 128 (-delta.val)))) = .ok result ↔
      result.val = (max 0 (min (2^128 - 1) ((l.val : ℤ) + delta.val))).toNat := by
    intro delta
    obtain ⟨low,high⟩ := delta.property
    split
    · have whole := wrap_of_fits (w := 128) (z := delta.val) ⟨by omega,by omega⟩
      rw [Except.ok.injEq,eq_comm,Fin.ext_iff,saturatingAdd_val]
      omega
    · have whole := wrap_of_fits (w := 128) (z := -delta.val) ⟨by omega,by omega⟩
      rw [Except.ok.injEq,eq_comm,Fin.ext_iff,saturatingSub_val]
      omega
  cases aToB with
  | true =>
    simp only [applyNet,if_true,bind_ok,negI128_debug,pure_eq_ok,shift,crossed,true_implies]
    constructor
    · rintro ⟨delta,⟨least,same⟩,value⟩
      rw [same] at value
      exact ⟨least,value⟩
    · rintro ⟨least,value⟩
      obtain ⟨low,high⟩ := net.property
      exact ⟨⟨-net.val,by omega,by omega⟩,⟨least,rfl⟩,value⟩
  | false =>
    simp only [applyNet,Bool.false_eq_true,if_false,pure_eq_ok,ok_bind,shift,crossed,false_implies,true_and]

theorem crossed_lt (aToB : Bool) (l : ℕ) (net : ℤ) : crossed aToB l net < 2^128 := by
  rw [crossed]
  omega

theorem applyNet_crossed {l : U128} {net : I128} {aToB : Bool} (least : aToB = true → net.val ≠ -2^127) :
    applyNet .debug l net aToB = .ok ⟨_,crossed_lt aToB l.val net.val⟩ := applyNet_debug.mpr ⟨least,rfl⟩

section loop
variable {aToB hasRealTicks : Bool} {feePips : U64} {start amount : ℕ} {state : SwapState} {target : U128}

/-- At such a starting price a `u64` amount is worth a `u128` amount of the other token. -/
structure Rated (aToB : Bool) (start : ℕ) : Prop where
  positive : 0 < rateIn aToB start
  rates : 2^64 * rateIn aToB start ≤ 2^128 * rateOut aToB start

theorem Rated.lt {out spent : ℕ} (rated : Rated aToB start) (small : spent < 2^64)
    (worth : out * rateOut aToB start ≤ spent * rateIn aToB start) : out < 2^128 := by
  apply Nat.lt_of_mul_lt_mul_right (a := rateOut aToB start)
  calc out * rateOut aToB start ≤ spent * rateIn aToB start := worth
    _ < 2^64 * rateIn aToB start := Nat.mul_lt_mul_of_pos_right small rated.positive
    _ ≤ 2^128 * rateOut aToB start := rated.rates

theorem Loop.fits_iff (loop : Loop aToB start amount state) (rated : Rated aToB start)
    (entered : (state.range target).Entered aToB feePips.val) (net : Option ℤ)
    (safe : aToB = true → (state.range target).Reached aToB feePips.val → ∀ crossing ∈ net, crossing ≠ -2^127) :
    (state.range target).Fits aToB feePips.val ↔
      (⟨state.range target,net⟩ : Visit).Roomy aToB feePips.val := by
  constructor
  · intro fits
    exact ⟨fits.width,fits.charged,fits.scaled,safe⟩
  · intro roomy
    have small := (entered.amountIn_le.trans Range.net_le).trans_lt entered.remaining
    exact ⟨roomy.width,roomy.charged,roomy.scaled,rated.lt small (entered.worth loop.onward)⟩

theorem Loop.returns (loop : Loop aToB start amount state) (rated : Rated aToB start)
    (small : amount < 2^64) (fee : feePips.val < 1000000) (positive : 0 < target.val)
    (ahead : Ahead aToB state.sqrtPrice.val target.val) (toBound : Ahead aToB target.val (bound aToB).val)
    (fits : (state.range target).Fits aToB feePips.val) :
    ∃ step after,
      computeSwapStep .debug state.sqrtPrice target state.liquidity state.remaining feePips aToB = .ok step ∧
      state.advance .debug step = .ok after ∧ Loop aToB start amount after ∧
      after.sqrtPrice = step.sqrtNext ∧
      (step.sqrtNext = target ↔ (state.range target).Reached aToB feePips.val) ∧
      after.liquidity = state.liquidity ∧
      after.remaining.val = state.remaining.val - ((state.range target).amountIn aToB feePips.val +
        (state.range target).feeAmount aToB feePips.val) := by
  have entered := loop.entered fee positive ahead
  obtain ⟨step,exact⟩ := exists_step entered (state.range_of target) fits.paid
  have stepped : computeSwapStep .debug state.sqrtPrice target state.liquidity state.remaining feePips aToB =
      .ok step := (computeSwapStep_ok entered (state.range_of target)).mpr ⟨fits,exact⟩
  have worth := round_worth loop entered (state.out.val + step.amountOut.val)
    (by rw [exact.amountOut])
  have room : state.out.val + step.amountOut.val < 2^128 := rated.lt small (by omega)
  have advanced := advance_of_exact .debug state entered exact
  rw [add_of_lt room,ok_bind] at advanced
  obtain ⟨kept,here⟩ := loop.round fee positive ahead toBound stepped advanced
  refine ⟨step,_,stepped,advanced,kept,here,?_,rfl,rfl⟩
  rw [Fin.ext_iff,exact.next]
  exact entered.next_eq_target

theorem Loop.with_liquidity (loop : Loop aToB start amount state) {l : U128} (positive : 0 < l.val) :
    Loop aToB start amount {state with liquidity := l} :=
  ⟨loop.price,loop.onward,loop.toBound,positive,loop.remaining,loop.worth⟩

theorem Loop.last_returns_iff (loop : Loop aToB start amount state) (rated : Rated aToB start) (small : amount < 2^64)
    (fee : feePips.val < 1000000) :
    (∃ final, (computeSwapStep .debug state.sqrtPrice (bound aToB) state.liquidity state.remaining feePips aToB >>=
      fun step => state.advance .debug step) = .ok final) ↔
      (⟨state.range (bound aToB),none⟩ : Visit).Roomy aToB feePips.val := by
  have entered := loop.entered fee (bound_pos aToB) loop.toBound
  rw [← loop.fits_iff rated entered none (fun _ _ _ absent => by cases absent)]
  constructor
  · rintro ⟨final,ran⟩
    obtain ⟨step,stepped,-⟩ := bind_ok.mp ran
    exact ((computeSwapStep_ok entered (state.range_of _)).mp stepped).1
  · intro room
    obtain ⟨step,after,stepped,advanced,-⟩ := loop.returns rated small fee (bound_pos aToB) loop.toBound (Ahead.refl _) room
    exact ⟨after,by rw [stepped,ok_bind,advanced]⟩

/-- In a debug build the loop returns exactly when every range it visits has room. -/
theorem swapLoop_returns_iff (hasRealTicks : Bool) {boundaries : List TickBoundary} (loop : Loop aToB start amount state)
    (rated : Rated aToB start) (small : amount < 2^64) (fee : feePips.val < 1000000)
    (travel : Travel aToB state.sqrtPrice.val boundaries) :
    (∃ final, swapLoop .debug feePips hasRealTicks aToB boundaries state = .ok final) ↔
      ∀ visit ∈ walk aToB feePips.val hasRealTicks boundaries state.sqrtPrice.val state.liquidity.val
        state.remaining.val, visit.Roomy aToB feePips.val := by
  induction boundaries generalizing state with
  | nil =>
    rw [swapLoop,walk]
    by_cases spent : state.remaining = 0
    · have nothing : state.remaining.val = 0 := congrArg Fin.val spent
      simp [spent]
    · have some : ¬ state.remaining.val = 0 := fun nothing => spent (Fin.ext nothing)
      rw [if_neg spent]
      cases hasRealTicks with
      | true => simp
      | false =>
        simp only [Bool.false_eq_true,if_false,some,or_self,List.mem_singleton,forall_eq]
        exact loop.last_returns_iff rated small fee
  | cons boundary boundaries ih =>
    rw [swapLoop,walk]
    by_cases spent : state.remaining = 0
    · have nothing : state.remaining.val = 0 := congrArg Fin.val spent
      simp [spent]
    have some : ¬ state.remaining.val = 0 := fun nothing => spent (Fin.ext nothing)
    rw [if_neg spent,if_neg some]
    have member := List.mem_cons_self (a := boundary) (l := boundaries)
    have entered := loop.entered fee (travel.positive _ member) (travel.ahead _ member)
    have fits := loop.fits_iff rated entered (.some boundary.liquidityNet.val)
    change (∃ final, (computeSwapStep .debug state.sqrtPrice boundary.sqrtPrice state.liquidity
      state.remaining feePips aToB >>= fun step => state.advance .debug step >>= fun after =>
        if step.sqrtNext = boundary.sqrtPrice then
          applyNet .debug after.liquidity boundary.liquidityNet aToB >>= fun liquidity =>
            if liquidity = 0 then .ok {after with liquidity := liquidity}
            else swapLoop .debug feePips hasRealTicks aToB boundaries {after with liquidity := liquidity}
        else .ok after) = .ok final) ↔
      ∀ visit ∈ (⟨state.range boundary.sqrtPrice,Option.some boundary.liquidityNet.val⟩ : Visit) ::
        if (state.range boundary.sqrtPrice).Reached aToB feePips.val ∧
            crossed aToB state.liquidity.val boundary.liquidityNet.val ≠ 0 then
          walk aToB feePips.val hasRealTicks boundaries boundary.sqrtPrice.val
            (crossed aToB state.liquidity.val boundary.liquidityNet.val)
            (state.remaining.val - ((state.range boundary.sqrtPrice).amountIn aToB feePips.val +
              (state.range boundary.sqrtPrice).feeAmount aToB feePips.val))
        else [],visit.Roomy aToB feePips.val
    rw [List.forall_mem_cons]
    by_cases room : (state.range boundary.sqrtPrice).Fits aToB feePips.val
    · obtain ⟨step,after,stepped,advanced,kept,here,arrived,liquidity,remaining⟩ :=
        loop.returns rated small fee (travel.positive _ member) (travel.ahead _ member)
          (travel.toBound _ member) room
      rw [stepped,ok_bind,advanced,ok_bind]
      by_cases reached : (state.range boundary.sqrtPrice).Reached aToB feePips.val
      · rw [if_pos (arrived.mpr reached),liquidity]
        by_cases least : aToB = true → boundary.liquidityNet.val ≠ -2^127
        · have head := (fits fun direction _ net same => Option.some.inj same ▸ least direction).mp room
          rw [applyNet_crossed least,ok_bind,and_iff_right head]
          by_cases dry : crossed aToB state.liquidity.val boundary.liquidityNet.val = 0
          · rw [if_pos (Fin.ext dry),if_neg (fun both => both.2 dry)]
            simp
          · have crossing := kept.with_liquidity (l := ⟨_,crossed_lt aToB state.liquidity.val boundary.liquidityNet.val⟩)
              (Nat.pos_of_ne_zero dry)
            have tail := travel.tail
            have there : after.sqrtPrice = boundary.sqrtPrice := here.trans (arrived.mpr reached)
            rw [if_neg (fun zero => dry (congrArg Fin.val zero)),if_pos ⟨reached,dry⟩,← remaining,← there]
            rw [← there] at tail
            exact ih crossing tail
        · have head : ¬ (⟨state.range boundary.sqrtPrice,Option.some boundary.liquidityNet.val⟩ : Visit).Roomy
              aToB feePips.val :=
            fun roomy => least fun direction => roomy.negated direction reached _ rfl
          simp only [head,false_and,iff_false]
          rintro ⟨final,ran⟩
          obtain ⟨beyond,applied,-⟩ := bind_ok.mp ran
          exact least (applyNet_debug.mp applied).1
      · have head := (fits fun _ impossible => absurd impossible reached).mp room
        rw [if_neg (fun here => reached (arrived.mp here)),if_neg (fun both => reached both.1)]
        simp [head]
    · have head : ¬ (⟨state.range boundary.sqrtPrice,Option.some boundary.liquidityNet.val⟩ : Visit).Roomy
          aToB feePips.val :=
        fun roomy => room ((fits roomy.negated).mpr roomy)
      simp only [head,false_and,iff_false]
      rintro ⟨final,ran⟩
      obtain ⟨step,stepped,-⟩ := bind_ok.mp ran
      exact room ((computeSwapStep_ok entered (state.range_of _)).mp stepped).1

end loop

/-- The venues' own bounds, as `sources/adapters/turbos_adapter.move` has them. -/
def venueMinSqrtPrice : ℕ := 4295048016
def venueMaxSqrtPrice : ℕ := 79226673515401279992447579055

section venue
variable {state : ClmmState}

theorem within_engine (within : state.Within venueMinSqrtPrice venueMaxSqrtPrice) :
    state.Within minSqrtPrice.val maxSqrtPrice.val := by
  have low : minSqrtPrice.val ≤ venueMinSqrtPrice := by decide
  have high : venueMaxSqrtPrice ≤ maxSqrtPrice.val := by decide
  refine ⟨⟨low.trans within.price.1,within.price.2.trans high⟩,fun tick member => ?_⟩
  obtain ⟨above,below⟩ := within.ticks tick member
  exact ⟨low.trans above,below.trans high⟩

theorem rated_of_within {start : ℕ} (within : venueMinSqrtPrice ≤ start ∧ start ≤ venueMaxSqrtPrice)
    (aToB : Bool) : Rated aToB start := by
  have low : 2^32 ≤ start := le_trans (by decide) within.1
  have high : start ≤ 2^96 := within.2.trans (by decide)
  cases aToB with
  | true =>
    refine ⟨?_,?_⟩
    · rw [rateIn,if_pos rfl]
      exact Nat.mul_pos (by omega) (by omega)
    · rw [rateIn,rateOut,if_pos rfl,if_pos rfl,q64_val]
      have := Nat.mul_le_mul high high
      omega
  | false =>
    refine ⟨?_,?_⟩
    · rw [rateIn,if_neg Bool.false_ne_true]
      exact Nat.mul_pos q64_pos q64_pos
    · rw [rateIn,rateOut,if_neg Bool.false_ne_true,if_neg Bool.false_ne_true,q64_val]
      have := Nat.mul_le_mul low low
      omega

/-- Between the venues' price bounds a debug-build quote returns exactly when every
range it enters has room in the engine's integers. -/
theorem quoteExactIn_returns_iff (within : state.Within venueMinSqrtPrice venueMaxSqrtPrice)
    (amountIn : U64) (aToB : Bool) :
    (∃ result, quoteExactIn .debug state amountIn aToB = .ok result) ↔
      ∀ visit ∈ visits state amountIn aToB, visit.Roomy aToB state.feePips.val := by
  rw [quoteExactIn,visits]
  by_cases refused : amountIn = 0 ∨ state.liquidity = 0 ∨ pipsDenom ≤ u128 state.feePips
  · rw [if_pos refused,if_pos refused]
    simp
  · rw [if_neg refused,if_neg refused]
    obtain ⟨-,positive,fee⟩ := not_not.mp (mt refused_iff.mpr refused)
    have liquid : state.liquidity ≠ 0 := fun zero => positive.ne' (congrArg Fin.val zero)
    have returns := swapLoop_returns_iff (!state.ticks.isEmpty)
      (initial_loop (within_engine within) liquid) (rated_of_within within.price aToB) amountIn.isLt fee
      (boundaries_travel (within_engine within))
    refine Iff.trans ?_ returns
    constructor
    · rintro ⟨result,ran⟩
      obtain ⟨final,looped,-⟩ := bind_ok.mp ran
      exact ⟨final,looped⟩
    · rintro ⟨final,looped⟩
      dsimp only
      rw [looped,ok_bind]
      split
      · exact ⟨_,rfl⟩
      · exact ⟨_,rfl⟩

theorem quoteExactIn_returns_shallow :
    quoteExactIn .debug (singleRange 18446744073709551616 1000000000000 3000) 1000000 true = .ok (some 996999) ∧
    ∀ visit ∈ visits (singleRange 18446744073709551616 1000000000000 3000) 1000000 true,
      visit.Roomy true 3000 := by
  have within : (singleRange 18446744073709551616 1000000000000 3000).Within venueMinSqrtPrice
      venueMaxSqrtPrice := ⟨by decide,fun _ absent => by cases absent⟩
  have quoted : quoteExactIn .debug (singleRange 18446744073709551616 1000000000000 3000) 1000000 true =
      .ok (some 996999) := by decide +kernel
  exact ⟨quoted,(quoteExactIn_returns_iff within 1000000 true).mp ⟨_,quoted⟩⟩

/-- A pool of one range at price 1 with liquidity `2^81`, and a quote of one unit. -/
theorem quoteExactIn_panics :
    (singleRange 18446744073709551616 2417851639229258349412352 3000).Within venueMinSqrtPrice
        venueMaxSqrtPrice ∧
    ∀ build, quoteExactIn build (singleRange 18446744073709551616 2417851639229258349412352 3000) 1 true =
      panic .narrowing := by
  refine ⟨⟨by decide,fun _ absent => by cases absent⟩,fun build => ?_⟩
  cases build <;> decide +kernel

end venue

end SuiArbitrage.Rust.Clmm
