import SuiArbitrage.Rust.ClmmStep

/-! What a swap pays out against what it takes in, over the whole loop: at the
price the pool starts from, the output is never worth more than the input. -/
namespace SuiArbitrage.Rust.Clmm
open MachineWord Fallible ConcentratedLiquidity

def bound (aToB : Bool) : U128 := if aToB then minSqrtPrice else maxSqrtPrice

/-- What the loop keeps: the price has moved away from `start` and not past the
engine's bound, and the output with the input still held is worth no more than the
input it began with. -/
structure Loop (aToB : Bool) (start amount : ℕ) (state : SwapState) : Prop where
  price : 0 < state.sqrtPrice.val
  onward : Ahead aToB start state.sqrtPrice.val
  toBound : Ahead aToB state.sqrtPrice.val (bound aToB).val
  liquid : 0 < state.liquidity.val
  remaining : state.remaining.val < 2^64
  worth : state.out.val * rateOut aToB start + state.remaining.val * rateIn aToB start ≤
    amount * rateIn aToB start

/-- Boundaries that lie ahead of a price, in travel order. -/
structure Travel (aToB : Bool) (price : ℕ) (boundaries : List TickBoundary) : Prop where
  positive : ∀ boundary ∈ boundaries, 0 < boundary.sqrtPrice.val
  ahead : ∀ boundary ∈ boundaries, Ahead aToB price boundary.sqrtPrice.val
  toBound : ∀ boundary ∈ boundaries, Ahead aToB boundary.sqrtPrice.val (bound aToB).val
  ordered : boundaries.Pairwise fun first second => Ahead aToB first.sqrtPrice.val second.sqrtPrice.val

theorem bound_pos (aToB : Bool) : 0 < (bound aToB).val := by
  cases aToB <;> decide

theorem Ahead.trans {aToB : Bool} {first second third : ℕ} (one : Ahead aToB first second)
    (two : Ahead aToB second third) : Ahead aToB first third := by
  cases aToB with
  | true => exact ahead_first.mpr ((ahead_first.mp two).trans (ahead_first.mp one))
  | false => exact ahead_second.mpr ((ahead_second.mp one).trans (ahead_second.mp two))

theorem Ahead.refl {aToB : Bool} (price : ℕ) : Ahead aToB price price := by
  cases aToB <;> simp

theorem Ahead.antisymm {aToB : Bool} {first second : ℕ} (one : Ahead aToB first second) (two : Ahead aToB second first) :
    first = second := by
  cases aToB with
  | true => exact le_antisymm (ahead_first.mp two) (ahead_first.mp one)
  | false => exact le_antisymm (ahead_second.mp one) (ahead_second.mp two)

theorem Travel.tail {aToB : Bool} {price : ℕ} {boundary : TickBoundary} {boundaries : List TickBoundary}
    (travel : Travel aToB price (boundary :: boundaries)) :
    Travel aToB boundary.sqrtPrice.val boundaries where
  positive := fun later member => travel.positive later (List.mem_cons_of_mem _ member)
  ahead := fun _ member => List.rel_of_pairwise_cons travel.ordered member
  toBound := fun later member => travel.toBound later (List.mem_cons_of_mem _ member)
  ordered := travel.ordered.of_cons

section round
variable {build : Build} {aToB : Bool} {feePips : U64} {start amount : ℕ} {state after : SwapState}
  {target : U128} {step : SwapStep}

def SwapState.range (state : SwapState) (target : U128) : Range :=
  ⟨state.sqrtPrice.val,target.val,state.liquidity.val,state.remaining.val⟩

theorem SwapState.range_of (state : SwapState) (target : U128) :
    (state.range target).Of state.sqrtPrice target state.liquidity state.remaining :=
  ⟨rfl,rfl,rfl,rfl⟩

theorem Loop.entered (loop : Loop aToB start amount state) (fee : feePips.val < 1000000)
    (positive : 0 < target.val) (ahead : Ahead aToB state.sqrtPrice.val target.val) :
    (state.range target).Entered aToB feePips.val :=
  ⟨loop.price,positive,ahead,loop.liquid,loop.remaining,fee⟩

theorem round_worth (loop : Loop aToB start amount state)
    (entered : (state.range target).Entered aToB feePips.val) (out : ℕ)
    (paid : out ≤ state.out.val + (state.range target).amountOut aToB feePips.val) :
    out * rateOut aToB start + (state.remaining.val - ((state.range target).amountIn aToB feePips.val +
      (state.range target).feeAmount aToB feePips.val)) * rateIn aToB start ≤ amount * rateIn aToB start := by
  have affordable : (state.range target).amountIn aToB feePips.val ≤ state.remaining.val :=
    entered.amountIn_le.trans Range.net_le
  have worth := entered.worth loop.onward
  generalize (state.range target).amountIn aToB feePips.val = amountIn at *
  generalize (state.range target).amountOut aToB feePips.val = amountOut at *
  generalize (state.range target).feeAmount aToB feePips.val = feeAmount at *
  calc out * rateOut aToB start + (state.remaining.val - (amountIn + feeAmount)) * rateIn aToB start
      ≤ (state.out.val + amountOut) * rateOut aToB start + (state.remaining.val - amountIn) * rateIn aToB start :=
        Nat.add_le_add (Nat.mul_le_mul_right _ paid) (Nat.mul_le_mul_right _ (by omega))
    _ = state.out.val * rateOut aToB start + amountOut * rateOut aToB start +
          (state.remaining.val - amountIn) * rateIn aToB start := by rw [Nat.add_mul]
    _ ≤ state.out.val * rateOut aToB start + amountIn * rateIn aToB start +
          (state.remaining.val - amountIn) * rateIn aToB start := by omega
    _ = state.out.val * rateOut aToB start + state.remaining.val * rateIn aToB start := by
        rw [Nat.add_assoc,← Nat.add_mul,Nat.add_sub_of_le affordable]
    _ ≤ amount * rateIn aToB start := loop.worth

/-- A round that returns keeps everything the loop keeps, and stops no further than
its target. -/
theorem Loop.round (loop : Loop aToB start amount state) (fee : feePips.val < 1000000)
    (positive : 0 < target.val) (ahead : Ahead aToB state.sqrtPrice.val target.val)
    (toBound : Ahead aToB target.val (bound aToB).val)
    (stepped : computeSwapStep build state.sqrtPrice target state.liquidity state.remaining feePips aToB = .ok step)
    (advanced : state.advance build step = .ok after) :
    Loop aToB start amount after ∧ after.sqrtPrice = step.sqrtNext := by
  have entered := loop.entered fee positive ahead
  obtain ⟨-,exact⟩ := (computeSwapStep_ok entered (state.range_of target)).mp stepped
  rw [advance_of_exact build state entered exact,bind_ok] at advanced
  obtain ⟨out,added,advanced⟩ := advanced
  obtain rfl := Except.ok.inj advanced
  have paid := add_le added
  rw [exact.amountOut] at paid
  have small := loop.remaining
  have nextPos := entered.next_pos
  have onward := loop.onward.trans entered.next_ahead
  have further := entered.ahead_target.trans toBound
  rw [← exact.next] at nextPos onward further
  exact ⟨⟨nextPos,onward,further,loop.liquid,by simp only []; omega,round_worth loop entered _ paid⟩,rfl⟩

theorem swapLoop_worth {hasRealTicks : Bool} {boundaries : List TickBoundary} {final : SwapState}
    (loop : Loop aToB start amount state) (fee : feePips.val < 1000000)
    (travel : Travel aToB state.sqrtPrice.val boundaries)
    (ran : swapLoop build feePips hasRealTicks aToB boundaries state = .ok final) :
    final.out.val * rateOut aToB start + final.remaining.val * rateIn aToB start ≤
      amount * rateIn aToB start := by
  induction boundaries generalizing state with
  | nil =>
    rw [swapLoop] at ran
    split at ran
    · obtain rfl := Except.ok.inj ran
      exact loop.worth
    · split at ran
      · obtain rfl := Except.ok.inj ran
        exact loop.worth
      · obtain ⟨step,stepped,advanced⟩ := bind_ok.mp ran
        exact (loop.round fee (bound_pos aToB) loop.toBound (Ahead.refl _) stepped advanced).1.worth
  | cons boundary boundaries ih =>
    rw [swapLoop] at ran
    split at ran
    · obtain rfl := Except.ok.inj ran
      exact loop.worth
    · obtain ⟨step,stepped,ran⟩ := bind_ok.mp ran
      obtain ⟨after,advanced,ran⟩ := bind_ok.mp ran
      have member := List.mem_cons_self (a := boundary) (l := boundaries)
      obtain ⟨kept,here⟩ := loop.round fee (travel.positive _ member) (travel.ahead _ member)
        (travel.toBound _ member) stepped advanced
      split at ran
      · rename_i arrived
        obtain ⟨liquidity,-,ran⟩ := bind_ok.mp ran
        split at ran
        · obtain rfl := Except.ok.inj ran
          exact kept.worth
        · rename_i liquid
          have crossed : Loop aToB start amount {after with liquidity := liquidity} :=
            ⟨kept.price,kept.onward,kept.toBound,
              Nat.pos_of_ne_zero fun zero => liquid (Fin.ext zero),kept.remaining,kept.worth⟩
          refine ih crossed ?_ ran
          have tail := travel.tail
          rw [← arrived,← here] at tail
          exact tail
      · obtain rfl := Except.ok.inj ran
        exact kept.worth

end round

structure ClmmState.Within (low high : ℕ) (state : ClmmState) : Prop where
  price : low ≤ state.sqrtPrice.val ∧ state.sqrtPrice.val ≤ high
  ticks : ∀ tick ∈ state.ticks, low ≤ tick.sqrtPrice.val ∧ tick.sqrtPrice.val ≤ high

section quote
variable {build : Build} {aToB : Bool} {state : ClmmState} {amountIn : U64}

theorem bound_ahead {price : ℕ} (within : minSqrtPrice.val ≤ price ∧ price ≤ maxSqrtPrice.val) :
    Ahead aToB price (bound aToB).val := by
  cases aToB with
  | true => exact ahead_first.mpr within.1
  | false => exact ahead_second.mpr within.2

theorem mem_boundaries {boundary : TickBoundary} (member : boundary ∈ boundaries state aToB) :
    boundary ∈ state.ticks ∧ Ahead aToB state.sqrtPrice.val boundary.sqrtPrice.val := by
  cases aToB with
  | true =>
    rw [boundaries,if_pos rfl,List.mem_insertionSort,List.mem_filter,decide_eq_true_eq] at member
    exact ⟨member.1,ahead_first.mpr (le_of_lt member.2)⟩
  | false =>
    rw [boundaries,if_neg Bool.false_ne_true,List.mem_insertionSort,List.mem_filter,decide_eq_true_eq] at member
    exact ⟨member.1,ahead_second.mpr (le_of_lt member.2)⟩

theorem boundaries_ordered : (boundaries state aToB).Pairwise fun first second =>
    Ahead aToB first.sqrtPrice.val second.sqrtPrice.val := by
  cases aToB with
  | true =>
    have total : Std.Total fun s t : TickBoundary => t.sqrtPrice ≤ s.sqrtPrice := ⟨fun s t => le_total _ _⟩
    have trans : IsTrans TickBoundary fun s t => t.sqrtPrice ≤ s.sqrtPrice :=
      ⟨fun _ _ _ one two => two.trans one⟩
    rw [boundaries,if_pos rfl]
    exact (List.pairwise_insertionSort _ _).imp fun later => ahead_first.mpr later
  | false =>
    have total : Std.Total fun s t : TickBoundary => s.sqrtPrice ≤ t.sqrtPrice := ⟨fun s t => le_total _ _⟩
    have trans : IsTrans TickBoundary fun s t => s.sqrtPrice ≤ t.sqrtPrice :=
      ⟨fun _ _ _ one two => one.trans two⟩
    rw [boundaries,if_neg Bool.false_ne_true]
    exact (List.pairwise_insertionSort _ _).imp fun later => ahead_second.mpr later

theorem boundaries_travel (within : state.Within minSqrtPrice.val maxSqrtPrice.val) :
    Travel aToB state.sqrtPrice.val (boundaries state aToB) where
  positive := fun boundary member =>
    lt_of_lt_of_le (by decide) (within.ticks boundary (mem_boundaries member).1).1
  ahead := fun _ member => (mem_boundaries member).2
  toBound := fun boundary member => bound_ahead (within.ticks boundary (mem_boundaries member).1)
  ordered := boundaries_ordered

theorem initial_loop (within : state.Within minSqrtPrice.val maxSqrtPrice.val)
    (liquid : state.liquidity ≠ 0) :
    Loop aToB state.sqrtPrice.val amountIn.val ⟨state.sqrtPrice,state.liquidity,u128 amountIn,0⟩ where
  price := lt_of_lt_of_le (by decide) within.price.1
  onward := Ahead.refl _
  toBound := bound_ahead within.price
  liquid := Nat.pos_of_ne_zero fun zero => liquid (Fin.ext zero)
  remaining := amountIn.isLt
  worth := by simp

theorem tryU64_eq_some {x : U128} {out : U64} : tryU64 x = some out ↔ out.val = x.val := by
  unfold tryU64
  split
  · rw [Option.some.injEq,Fin.ext_iff]
    exact eq_comm
  · rename_i large
    simp only [reduceCtorEq,false_iff]
    intro same
    exact large (same ▸ out.isLt)

/-- A quote is worth no more than its input at the price the pool starts from,
whatever the ticks, the fee and the build. -/
theorem quoteExactIn_worth {out : U64} (within : state.Within minSqrtPrice.val maxSqrtPrice.val)
    (quoted : quoteExactIn build state amountIn aToB = .ok (some out)) :
    out.val * rateOut aToB state.sqrtPrice.val ≤ amountIn.val * rateIn aToB state.sqrtPrice.val := by
  rw [quoteExactIn] at quoted
  split at quoted
  · cases quoted
  · rename_i accepted
    obtain ⟨final,ran,returned⟩ := bind_ok.mp quoted
    split at returned
    · cases returned
    · have outEq := tryU64_eq_some.mp (Except.ok.inj returned)
      have liquid : state.liquidity ≠ 0 := fun zero => accepted (.inr (.inl zero))
      have fee : state.feePips.val < 1000000 := by
        by_contra large
        exact accepted (.inr (.inr (Nat.not_lt.mp large)))
      have worth := swapLoop_worth (initial_loop within liquid) fee (boundaries_travel within) ran
      rw [outEq]
      omega

end quote

end SuiArbitrage.Rust.Clmm
