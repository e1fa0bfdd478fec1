import SuiArbitrage.Rust.ClmmRounds

/-! The iterations of a quote, recorded. Each one spends no more than what remains, and
together they account for the whole input and for the fee on it. -/
namespace SuiArbitrage.Rust.Clmm
open MachineWord Fallible ConcentratedLiquidity

/-- One iteration of the loop: the state it begins in, its target and its step. -/
structure Iteration where
  before : SwapState
  target : U128
  step : SwapStep
  deriving DecidableEq, Repr

/-- What the loop went through, up to a panic if there is one. -/
structure Recording where
  iterations : List Iteration
  final : Rust SwapState

section record
variable (build : Build) (feePips : U64) (hasRealTicks aToB : Bool)

/-- An iteration whose step returns is recorded in front of what follows. -/
def recordStep (state : SwapState) (target : U128) (next : SwapStep → SwapState → Recording) : Recording :=
  match computeSwapStep build state.sqrtPrice target state.liquidity state.remaining feePips aToB with
  | .error fault => ⟨[],.error fault⟩
  | .ok step =>
    match state.advance build step with
    | .error fault => ⟨[⟨state,target,step⟩],.error fault⟩
    | .ok after => ⟨⟨state,target,step⟩ :: (next step after).iterations,(next step after).final⟩

/-- The loop of `quote_exact_in` with its record. -/
def recordLoop : List TickBoundary → SwapState → Recording
  | [],state =>
    if state.remaining = 0 ∨ hasRealTicks = true then ⟨[],.ok state⟩
    else recordStep build feePips aToB state (bound aToB) fun _ after => ⟨[],.ok after⟩
  | boundary :: rest,state =>
    if state.remaining = 0 then ⟨[],.ok state⟩
    else recordStep build feePips aToB state boundary.sqrtPrice fun step after =>
      if step.sqrtNext = boundary.sqrtPrice then
        match applyNet build after.liquidity boundary.liquidityNet aToB with
        | .error fault => ⟨[],.error fault⟩
        | .ok liquidity =>
          if liquidity = 0 then ⟨[],.ok {after with liquidity := liquidity}⟩
          else recordLoop rest {after with liquidity := liquidity}
      else ⟨[],.ok after⟩

def SwapState.initial (state : ClmmState) (amountIn : U64) : SwapState :=
  ⟨state.sqrtPrice,state.liquidity,u128 amountIn,0⟩

/-- A refused quote has no iterations. -/
def recorded (state : ClmmState) (amountIn : U64) : Recording :=
  if amountIn = 0 ∨ state.liquidity = 0 ∨ pipsDenom ≤ u128 state.feePips then ⟨[],.ok (.initial state amountIn)⟩
  else recordLoop build state.feePips (!state.ticks.isEmpty) aToB (boundaries state aToB) (.initial state amountIn)

variable {build feePips hasRealTicks aToB}

theorem recordStep_final (state : SwapState) (target : U128) (next : SwapStep → SwapState → Recording) :
    (recordStep build feePips aToB state target next).final =
      computeSwapStep build state.sqrtPrice target state.liquidity state.remaining feePips aToB >>= fun step =>
        state.advance build step >>= fun after => (next step after).final := by
  unfold recordStep
  cases computeSwapStep build state.sqrtPrice target state.liquidity state.remaining feePips aToB with
  | error fault => rfl
  | ok step =>
    rw [ok_bind]
    dsimp only
    cases state.advance build step with
    | error fault => rfl
    | ok after => rfl

/-- The record does not change what the loop returns. -/
theorem recordLoop_final (boundaries : List TickBoundary) (state : SwapState) :
    (recordLoop build feePips hasRealTicks aToB boundaries state).final =
      swapLoop build feePips hasRealTicks aToB boundaries state := by
  induction boundaries generalizing state with
  | nil =>
    rw [recordLoop,swapLoop]
    by_cases spent : state.remaining = 0
    · rw [if_pos (.inl spent),if_pos spent]
      rfl
    · rw [if_neg spent]
      cases hasRealTicks with
      | true =>
        rw [if_pos (.inr rfl),if_pos rfl]
        rfl
      | false =>
        rw [if_neg (not_or.mpr ⟨spent,Bool.false_ne_true⟩),if_neg Bool.false_ne_true,recordStep_final]
        refine congrArg _ (funext fun step => ?_)
        cases state.advance build step <;> rfl
  | cons boundary rest ih =>
    rw [recordLoop,swapLoop]
    by_cases spent : state.remaining = 0
    · rw [if_pos spent,if_pos spent]
      rfl
    · rw [if_neg spent,if_neg spent,recordStep_final]
      refine congrArg _ (funext fun step => congrArg _ (funext fun after => ?_))
      by_cases arrived : step.sqrtNext = boundary.sqrtPrice
      · simp only [if_pos arrived]
        cases applyNet build after.liquidity boundary.liquidityNet aToB with
        | error fault => rfl
        | ok liquidity =>
          rw [ok_bind]
          by_cases empty : liquidity = 0
          · simp only [if_pos empty,pure_eq_ok]
          · simp only [if_neg empty,ih]
      · simp only [if_neg arrived,pure_eq_ok]

end record

namespace Range
variable {aToB : Bool} {feePips : ℕ} {range : Range}

theorem amountIn_mul_le (entered : range.Entered aToB feePips) :
    range.amountIn aToB feePips * 1000000 ≤ range.remaining * (1000000 - feePips) :=
  (Nat.mul_le_mul_right _ entered.amountIn_le).trans (Nat.div_mul_le_self _ _)

theorem charge_covers (fee : feePips < 1000000) (reached : range.Reached aToB feePips) :
    range.amountIn aToB feePips * feePips ≤ range.feeAmount aToB feePips * (1000000 - feePips) := by
  rw [feeAmount,if_pos reached,Nat.mul_comm (_ ⌈/⌉ _)]
  exact (ceilDiv_le_iff_le_mul (by omega)).mp le_rfl

/-- The input and the fee of a step are there to be spent. -/
theorem spent_le (entered : range.Entered aToB feePips) :
    range.amountIn aToB feePips + range.feeAmount aToB feePips ≤ range.remaining := by
  have affordable := entered.amountIn_le.trans net_le
  obtain ⟨left,total⟩ := Nat.exists_eq_add_of_le affordable
  by_cases reached : range.Reached aToB feePips
  · have within := amountIn_mul_le entered
    have parts : range.amountIn aToB feePips * 1000000 =
        range.amountIn aToB feePips * feePips + range.amountIn aToB feePips * (1000000 - feePips) := by
      rw [← Nat.mul_add,Nat.add_sub_cancel' entered.fee.le]
    rw [total,Nat.add_mul] at within
    have covered : range.amountIn aToB feePips * feePips ≤ (1000000 - feePips) * left := by
      rw [Nat.mul_comm _ left]
      omega
    have charged : range.feeAmount aToB feePips ≤ left := by
      rw [feeAmount,if_pos reached]
      exact (ceilDiv_le_iff_le_mul (Nat.sub_pos_of_lt entered.fee)).mpr covered
    omega
  · rw [feeAmount,if_neg reached]
    omega

/-- The fee is at least its share of what is spent. -/
theorem fee_share (entered : range.Entered aToB feePips) :
    feePips * (range.amountIn aToB feePips + range.feeAmount aToB feePips) ≤ 1000000 * range.feeAmount aToB feePips := by
  have parts (amount : ℕ) : 1000000 * amount = feePips * amount + (1000000 - feePips) * amount := by
    rw [← Nat.add_mul,Nat.add_sub_cancel' entered.fee.le]
  rw [parts,Nat.mul_add,Nat.add_comm]
  apply Nat.add_le_add_left
  by_cases reached : range.Reached aToB feePips
  · have covered := charge_covers entered.fee reached
    rwa [Nat.mul_comm feePips,Nat.mul_comm (1000000 - feePips)]
  · have within := amountIn_mul_le entered
    obtain ⟨left,total⟩ := Nat.exists_eq_add_of_le (entered.amountIn_le.trans net_le)
    have rest : range.feeAmount aToB feePips = left := by
      rw [feeAmount,if_neg reached]
      omega
    rw [total,Nat.add_mul,Nat.mul_comm _ 1000000,parts,Nat.mul_comm left] at within
    rw [rest]
    have same := Nat.mul_comm (1000000 - feePips) (range.amountIn aToB feePips)
    omega

end Range

/-- What holds at an iteration. The next price is between the price and the target, and
is the target exactly where the net input covers the distance. Nothing saturates. -/
structure Sound (aToB : Bool) (feePips : ℕ) (it : Iteration) : Prop where
  liquid : 0 < it.before.liquidity.val
  onward : Ahead aToB it.before.sqrtPrice.val it.step.sqrtNext.val
  within : Ahead aToB it.step.sqrtNext.val it.target.val
  arrives : it.step.sqrtNext = it.target ↔ (it.before.range it.target).Reached aToB feePips
  affordable : it.step.amountIn.val + it.step.feeAmount.val ≤ it.before.remaining.val
  share : feePips * (it.step.amountIn.val + it.step.feeAmount.val) ≤ 1000000 * it.step.feeAmount.val

/-- The inputs and the fees of all iterations, and the fees alone. -/
def consumed (iterations : List Iteration) : ℕ :=
  (iterations.map fun it => it.step.amountIn.val + it.step.feeAmount.val).sum

def fees (iterations : List Iteration) : ℕ := (iterations.map fun it => it.step.feeAmount.val).sum

@[simp] theorem consumed_nil : consumed [] = 0 := rfl

@[simp] theorem fees_nil : fees [] = 0 := rfl

@[simp] theorem consumed_cons {it : Iteration} {iterations : List Iteration} :
    consumed (it :: iterations) = it.step.amountIn.val + it.step.feeAmount.val + consumed iterations := List.sum_cons

@[simp] theorem fees_cons {it : Iteration} {iterations : List Iteration} :
    fees (it :: iterations) = it.step.feeAmount.val + fees iterations := List.sum_cons

/-- What a record from this remaining input keeps. -/
structure Conserves (aToB : Bool) (feePips remaining : ℕ) (recording : Recording) : Prop where
  sound : ∀ it ∈ recording.iterations, Sound aToB feePips it
  total : ∀ final, recording.final = .ok final → consumed recording.iterations + final.remaining.val = remaining
  share : feePips * consumed recording.iterations ≤ 1000000 * fees recording.iterations

section conservation
variable {build : Build} {aToB hasRealTicks : Bool} {feePips : U64} {state after : SwapState} {target : U128} {step : SwapStep}
  {boundary : TickBoundary} {boundaries rest : List TickBoundary} {recording : Recording} {remaining : ℕ}

theorem conserves_here (state : SwapState) : Conserves aToB feePips.val state.remaining.val ⟨[],.ok state⟩ := by
  refine ⟨List.forall_mem_nil _,fun final same => ?_,le_rfl⟩
  obtain rfl := Except.ok.inj same
  exact Nat.zero_add _

theorem conserves_fault (fault : Fault) : Conserves aToB feePips.val remaining ⟨[],.error fault⟩ :=
  ⟨List.forall_mem_nil _,nofun,le_rfl⟩

theorem sound_of_step (entered : (state.range target).Entered aToB feePips.val)
    (stepped : computeSwapStep build state.sqrtPrice target state.liquidity state.remaining feePips aToB = .ok step) :
    Sound aToB feePips.val ⟨state,target,step⟩ := by
  obtain ⟨-,exact⟩ := (computeSwapStep_ok entered (state.range_of target)).mp stepped
  refine ⟨entered.liquid,?_,?_,?_,?_,?_⟩
  · dsimp only
    rw [exact.next]
    exact entered.next_ahead
  · dsimp only
    rw [exact.next]
    exact entered.ahead_target
  · rw [Fin.ext_iff,exact.next]
    exact entered.next_eq_target
  · rw [exact.amountIn,exact.feeAmount]
    exact Range.spent_le entered
  · rw [exact.amountIn,exact.feeAmount]
    exact Range.fee_share entered

theorem advance_remaining (entered : (state.range target).Entered aToB feePips.val)
    (stepped : computeSwapStep build state.sqrtPrice target state.liquidity state.remaining feePips aToB = .ok step)
    (moved : state.advance build step = .ok after) :
    step.amountIn.val + step.feeAmount.val + after.remaining.val = state.remaining.val := by
  have affordable : step.amountIn.val + step.feeAmount.val ≤ state.remaining.val := (sound_of_step entered stepped).affordable
  obtain ⟨-,exact⟩ := (computeSwapStep_ok entered (state.range_of target)).mp stepped
  rw [(Loop.advanced entered stepped moved).1.remaining,← exact.amountIn,← exact.feeAmount]
  exact Nat.add_sub_cancel' affordable

/-- An iteration goes in front of a record that begins with what it leaves. -/
theorem Conserves.cons {it : Iteration} (sound : Sound aToB feePips.val it)
    (left : it.step.amountIn.val + it.step.feeAmount.val + after.remaining.val = it.before.remaining.val)
    (conserves : Conserves aToB feePips.val after.remaining.val recording) :
    Conserves aToB feePips.val it.before.remaining.val ⟨it :: recording.iterations,recording.final⟩ where
  sound := List.forall_mem_cons.mpr ⟨sound,conserves.sound⟩
  total final ended := by
    rw [consumed_cons,Nat.add_assoc,conserves.total final ended]
    exact left
  share := by
    rw [consumed_cons,fees_cons,Nat.mul_add,Nat.mul_add 1000000]
    exact Nat.add_le_add sound.share conserves.share

/-- A step in front of a record that conserves what the step leaves. -/
theorem recordStep_conserves {next : SwapStep → SwapState → Recording} (entered : (state.range target).Entered aToB feePips.val)
    (onward : ∀ step after, computeSwapStep build state.sqrtPrice target state.liquidity state.remaining feePips aToB = .ok step →
      state.advance build step = .ok after → Conserves aToB feePips.val after.remaining.val (next step after)) :
    Conserves aToB feePips.val state.remaining.val (recordStep build feePips aToB state target next) := by
  unfold recordStep
  cases stepped : computeSwapStep build state.sqrtPrice target state.liquidity state.remaining feePips aToB with
  | error fault => exact conserves_fault fault
  | ok step =>
    have sound : Sound aToB feePips.val ⟨state,target,step⟩ := sound_of_step entered stepped
    dsimp only
    cases moved : state.advance build step with
    | error fault =>
      refine ⟨List.forall_mem_singleton.mpr sound,nofun,?_⟩
      simpa using sound.share
    | ok after =>
      have left := advance_remaining entered stepped moved
      exact (onward step after stepped moved).cons sound left

/-- The loop conserves its input, from any state that is ready for its boundaries. -/
theorem recordLoop_conserves (ready : Ready aToB state) (fee : feePips.val < 1000000)
    (travel : Travel aToB state.sqrtPrice.val boundaries) :
    Conserves aToB feePips.val state.remaining.val (recordLoop build feePips hasRealTicks aToB boundaries state) := by
  induction boundaries generalizing state with
  | nil =>
    rw [recordLoop]
    split
    · exact conserves_here state
    · exact recordStep_conserves (ready.entered fee (bound_pos aToB) ready.toBound) fun _ after _ _ => conserves_here after
  | cons boundary rest ih =>
    rw [recordLoop]
    split
    · exact conserves_here state
    · have entered := travel.entered ready fee
      refine recordStep_conserves entered fun step after stepped moved => ?_
      obtain ⟨advanced,arrives⟩ := Loop.advanced entered stepped moved
      split
      · rename_i arrived
        cases applyNet build after.liquidity boundary.liquidityNet aToB with
        | error fault => exact conserves_fault fault
        | ok liquidity =>
          dsimp only
          split
          · exact conserves_here {after with liquidity := liquidity}
          · rename_i liquid
            have here : after.sqrtPrice = boundary.sqrtPrice := by
              apply Fin.ext
              rw [advanced.price,Range.next_of_reached (arrives.mp arrived)]
              rfl
            obtain ⟨ready_after,travel_after⟩ := advanced.ready ready travel here liquid
            exact ih ready_after travel_after
      · exact conserves_here after

end conservation

/-- The recorded quote is the quote, and its iterations conserve the input. -/
theorem quoteExactIn_conserves (build : Build) (state : ClmmState) (amountIn : U64) (aToB : Bool)
    (within : state.Within minSqrtPrice.val maxSqrtPrice.val) (fee : state.feePips.val < 1000000) :
    quoteExactIn build state amountIn aToB = ((recorded build aToB state amountIn).final >>= fun final => .ok
      (if amountIn = 0 ∨ state.liquidity = 0 ∨ pipsDenom ≤ u128 state.feePips then none
        else settle (!state.ticks.isEmpty) final)) ∧
    Conserves aToB state.feePips.val amountIn.val (recorded build aToB state amountIn) := by
  by_cases refused : amountIn = 0 ∨ state.liquidity = 0 ∨ pipsDenom ≤ u128 state.feePips
  · rw [quoteExactIn,recorded,if_pos refused,if_pos refused]
    simp only [if_pos refused]
    exact ⟨rfl,conserves_here (.initial state amountIn)⟩
  · rw [quoteExactIn,recorded,if_neg refused,if_neg refused]
    simp only [if_neg refused]
    obtain ⟨-,liquid,-⟩ := not_not.mp (mt refused_iff.mpr refused)
    refine ⟨?_,?_⟩
    · rw [recordLoop_final]
      refine congrArg _ (funext fun final => ?_)
      unfold settle
      split
      · rfl
      · rfl
    · exact recordLoop_conserves (initial_ready within liquid amountIn) fee (boundaries_travel within)

namespace Crossing

def pool : ClmmState := ⟨18446744073709551616,1000000000000,3000,
  [⟨16691387729992146528,asI128 500000000000⟩,⟨17547129613991598781,asI128 500000000000⟩]⟩

/-- This quote crosses the nearer tick and ends before the other. -/
theorem quoteExactIn_conserves_pool : (recorded .debug true pool 60000000000).iterations.length = 2 ∧
    Conserves true pool.feePips.val (60000000000 : U64).val (recorded .debug true pool 60000000000) :=
  ⟨by decide +kernel,(quoteExactIn_conserves .debug pool 60000000000 true ⟨by decide,by decide⟩ (by decide)).2⟩

end Crossing

end SuiArbitrage.Rust.Clmm
