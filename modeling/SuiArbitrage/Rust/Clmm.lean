import SuiArbitrage.Lib.ConcentratedLiquidity
import SuiArbitrage.Rust.Core
import Mathlib.Data.List.Sort

/-! The concentrated-liquidity engine of `offchain/src/clmm.rs`. A `U256` is a
natural number whose every operation checks its range. -/
namespace SuiArbitrage.Rust.Clmm
open MachineWord Fallible

abbrev SqrtPriceX64 := U128
abbrev Liquidity := U128

def q64 : U128 := 18446744073709551616
def pipsDenom : U128 := 1000000
def minSqrtPrice : SqrtPriceX64 := 65536
def maxSqrtPrice : SqrtPriceX64 := 1329227995784915872903807060280344576

structure TickBoundary where
  sqrtPrice : SqrtPriceX64
  liquidityNet : I128
  deriving DecidableEq

structure ClmmState where
  sqrtPrice : SqrtPriceX64
  liquidity : Liquidity
  feePips : U64
  ticks : List TickBoundary
  deriving DecidableEq

def u256Div (num den : ℕ) : Rust ℕ := if den = 0 then panic .divideByZero else .ok (num / den)

def u256DivCeil (num den : ℕ) : Rust ℕ := do
  let q ← u256Div num den
  if num % den = 0 then return q else u256 (q + 1)

def mulDivFloor (a b den : U128) : Rust U128 := do
  asU128 (← u256Div (← u256 (a.val * b.val)) den.val)

def mulDivCeil (a b den : U128) : Rust U128 := do
  asU128 (← u256DivCeil (← u256 (a.val * b.val)) den.val)

def amount0Delta (build : Build) (sa sb l : U128) (roundUp : Bool) : Rust U128 := do
  let (lo,hi) := if sa < sb then (sa,sb) else (sb,sa)
  if lo = 0 then
    return 0
  let scaled ← u256 (l.val * q64.val)
  let numerator ← u256 (scaled * (← sub build hi lo).val)
  let denom ← u256 (hi.val * lo.val)
  let q ← if roundUp then u256DivCeil numerator denom else u256Div numerator denom
  asU128 q

def amount1Delta (build : Build) (sa sb l : U128) (roundUp : Bool) : Rust U128 := do
  let (lo,hi) := if sa < sb then (sa,sb) else (sb,sa)
  let numerator ← u256 (l.val * (← sub build hi lo).val)
  let q ← if roundUp then u256DivCeil numerator q64.val else u256Div numerator q64.val
  asU128 q

def nextSqrtFromAmount0In (sqrtPrice l amount : U128) : Rust U128 := do
  if amount = 0 then
    return sqrtPrice
  let numerator ← u256 (l.val * q64.val)
  let product ← u256 (amount.val * sqrtPrice.val)
  let denom ← u256 (numerator + product)
  asU128 (← u256DivCeil (← u256 (numerator * sqrtPrice.val)) denom)

def nextSqrtFromAmount1In (sqrtPrice l amount : U128) : Rust U128 := do
  let added ← u256Div (← u256 (amount.val * q64.val)) l.val
  asU128 (← u256 (sqrtPrice.val + added))

structure SwapStep where
  sqrtNext : U128
  amountIn : U128
  amountOut : U128
  feeAmount : U128
  deriving DecidableEq, Repr

def computeSwapStep (build : Build) (sqrtCur sqrtTarget l amountRemaining : U128) (feePips : U64)
    (aToB : Bool) : Rust SwapStep := do
  let fee := u128 feePips
  let amountLf ← mulDivFloor amountRemaining (← sub build pipsDenom fee) pipsDenom
  let (sqrtNext,amountIn) ← if aToB then do
      let toTarget ← amount0Delta build sqrtTarget sqrtCur l true
      if toTarget ≤ amountLf then
        pure (sqrtTarget,toTarget)
      else do
        let sqrtNext ← nextSqrtFromAmount0In sqrtCur l amountLf
        pure (sqrtNext,← amount0Delta build sqrtNext sqrtCur l true)
    else do
      let toTarget ← amount1Delta build sqrtCur sqrtTarget l true
      if toTarget ≤ amountLf then
        pure (sqrtTarget,toTarget)
      else do
        let sqrtNext ← nextSqrtFromAmount1In sqrtCur l amountLf
        pure (sqrtNext,← amount1Delta build sqrtCur sqrtNext l true)
  let amountOut ← if aToB then amount1Delta build sqrtNext sqrtCur l false
    else amount0Delta build sqrtCur sqrtNext l false
  let feeAmount ← if sqrtNext ≠ sqrtTarget then sub build amountRemaining amountIn
    else do mulDivCeil amountIn fee (← sub build pipsDenom fee)
  return ⟨sqrtNext,amountIn,amountOut,feeAmount⟩

def applyNet (build : Build) (l : U128) (net : I128) (aToB : Bool) : Rust U128 := do
  let delta ← if aToB then negI128 build net else pure net
  if 0 ≤ delta.val then return saturatingAdd l (wrap 128 delta.val)
  else return saturatingSub l (wrap 128 (-delta.val))

structure SwapState where
  sqrtPrice : U128
  liquidity : U128
  remaining : U128
  out : U128
  deriving DecidableEq, Repr

def SwapState.advance (build : Build) (state : SwapState) (step : SwapStep) : Rust SwapState := do
  let spent ← add build step.amountIn step.feeAmount
  let out ← add build state.out step.amountOut
  return {state with
    sqrtPrice := step.sqrtNext, remaining := saturatingSub state.remaining spent, out := out}

/-- The loop of `quote_exact_in`. It takes one boundary in each round, and a round
without a boundary is its last. -/
def swapLoop (build : Build) (feePips : U64) (hasRealTicks aToB : Bool) :
    List TickBoundary → SwapState → Rust SwapState
  | boundaries,state => do
    if state.remaining = 0 then
      return state
    match boundaries with
    | [] =>
      if hasRealTicks then
        return state
      let target := if aToB then minSqrtPrice else maxSqrtPrice
      let step ← computeSwapStep build state.sqrtPrice target state.liquidity state.remaining feePips aToB
      state.advance build step
    | boundary :: boundaries =>
      let target := boundary.sqrtPrice
      let step ← computeSwapStep build state.sqrtPrice target state.liquidity state.remaining feePips aToB
      let state ← state.advance build step
      if step.sqrtNext = target then
        let liquidity ← applyNet build state.liquidity boundary.liquidityNet aToB
        let state := {state with liquidity := liquidity}
        if liquidity = 0 then
          return state
        swapLoop build feePips hasRealTicks aToB boundaries state
      else
        return state

/-- The ticks a swap may cross, in travel order. Sorting by a key is stable. -/
def boundaries (state : ClmmState) (aToB : Bool) : List TickBoundary :=
  if aToB then
    (state.ticks.filter (·.sqrtPrice < state.sqrtPrice)).insertionSort (fun s t => t.sqrtPrice ≤ s.sqrtPrice)
  else
    (state.ticks.filter (state.sqrtPrice < ·.sqrtPrice)).insertionSort (fun s t => s.sqrtPrice ≤ t.sqrtPrice)

def quoteExactIn (build : Build) (state : ClmmState) (amountIn : U64) (aToB : Bool) : Rust (Option U64) := do
  if amountIn = 0 ∨ state.liquidity = 0 ∨ pipsDenom ≤ u128 state.feePips then
    return none
  let hasRealTicks := !state.ticks.isEmpty
  let final ← swapLoop build state.feePips hasRealTicks aToB (boundaries state aToB)
    ⟨state.sqrtPrice,state.liquidity,u128 amountIn,0⟩
  if hasRealTicks ∧ 0 < final.remaining then
    return none
  return tryU64 final.out

def singleRange (sqrtPrice : SqrtPriceX64) (liquidity : Liquidity) (feePips : U64) : ClmmState :=
  ⟨sqrtPrice,liquidity,feePips,[]⟩

end SuiArbitrage.Rust.Clmm
