import SuiArbitrage.Rust.ClmmStep
import SuiArbitrage.Rust.Amm

/-! Which faults a quote can raise: it always returns or panics, and it computes in
128 or 256 bits. -/
namespace SuiArbitrage.Rust
open MachineWord Fallible

section raises
variable {α β : Type} {kind : Fault → Prop}

theorem raises_panic {reason : Panic} (allowed : kind (.panic reason)) : Raises kind (panic reason : Rust α) := by
  intro fault failed
  obtain rfl := Except.error.inj failed
  exact allowed

theorem raises_andThen {x : Rust (Option α)} {next : α → Rust (Option β)} (first : Raises kind x)
    (second : ∀ value, Raises kind (next value)) : Raises kind (andThen x next) := by
  intro fault failed
  rcases andThen_error.mp failed with early | ⟨value,-,late⟩
  · exact first fault early
  · exact second value fault late

end raises

def QuoteFault (fault : Fault) : Prop := ∃ reason, fault = .panic reason ∧ reason ≠ .arithmetic 64

section quoteFaults

theorem raises_word (build : Build) (z : ℤ) : Raises QuoteFault (word build 128 z) :=
  .ite (raises_panic ⟨_,rfl,by decide⟩) (raises_ok _)

theorem raises_u256 (n : ℕ) : Raises QuoteFault (u256 n) :=
  .ite (raises_ok _) (raises_panic ⟨_,rfl,by decide⟩)

theorem raises_asU128 (n : ℕ) : Raises QuoteFault (asU128 n) := by
  unfold asU128
  split
  · exact raises_ok _
  · exact raises_panic ⟨_,rfl,by decide⟩

theorem raises_negI128 (build : Build) (x : I128) : Raises QuoteFault (negI128 build x) := by
  unfold negI128
  split
  · exact raises_ok _
  · exact .ite (raises_panic ⟨_,rfl,by decide⟩) (raises_ok _)

namespace Clmm
variable (build : Build)

theorem raises_u256Div (num den : ℕ) : Raises QuoteFault (u256Div num den) :=
  .ite (raises_panic ⟨_,rfl,by decide⟩) (raises_ok _)

theorem raises_u256DivCeil (num den : ℕ) : Raises QuoteFault (u256DivCeil num den) :=
  (raises_u256Div num den).bind fun _ _ => .ite (raises_ok _) (raises_u256 _)

theorem raises_mulDivFloor (a b den : U128) : Raises QuoteFault (mulDivFloor a b den) :=
  (raises_u256 _).bind fun _ _ => (raises_u256Div _ _).bind fun _ _ => raises_asU128 _

theorem raises_mulDivCeil (a b den : U128) : Raises QuoteFault (mulDivCeil a b den) :=
  (raises_u256 _).bind fun _ _ => (raises_u256DivCeil _ _).bind fun _ _ => raises_asU128 _

theorem raises_amount0Delta (sa sb l : U128) (roundUp : Bool) :
    Raises QuoteFault (amount0Delta build sa sb l roundUp) := by
  unfold amount0Delta
  exact .ite (raises_ok _) <| (raises_u256 _).bind fun _ _ => (raises_word _ _).bind fun _ _ =>
    (raises_u256 _).bind fun _ _ => (raises_u256 _).bind fun _ _ =>
      .ite ((raises_u256DivCeil _ _).bind fun _ _ => raises_asU128 _)
        ((raises_u256Div _ _).bind fun _ _ => raises_asU128 _)

theorem raises_amount1Delta (sa sb l : U128) (roundUp : Bool) :
    Raises QuoteFault (amount1Delta build sa sb l roundUp) := by
  unfold amount1Delta
  exact (raises_word _ _).bind fun _ _ => (raises_u256 _).bind fun _ _ =>
    .ite ((raises_u256DivCeil _ _).bind fun _ _ => raises_asU128 _)
      ((raises_u256Div _ _).bind fun _ _ => raises_asU128 _)

theorem raises_nextSqrtFromAmount0In (sqrtPrice l amount : U128) :
    Raises QuoteFault (nextSqrtFromAmount0In sqrtPrice l amount) := by
  unfold nextSqrtFromAmount0In
  exact .ite (raises_ok _) <| (raises_u256 _).bind fun _ _ => (raises_u256 _).bind fun _ _ =>
    (raises_u256 _).bind fun _ _ => (raises_u256 _).bind fun _ _ =>
      (raises_u256DivCeil _ _).bind fun _ _ => raises_asU128 _

theorem raises_nextSqrtFromAmount1In (sqrtPrice l amount : U128) :
    Raises QuoteFault (nextSqrtFromAmount1In sqrtPrice l amount) :=
  (raises_u256 _).bind fun _ _ => (raises_u256Div _ _).bind fun _ _ => (raises_u256 _).bind fun _ _ =>
    raises_asU128 _

theorem raises_deltaIn (aToB : Bool) (price next l : U128) : Raises QuoteFault (deltaIn build aToB price next l) :=
  .ite (raises_amount0Delta build _ _ _ _) (raises_amount1Delta build _ _ _ _)

theorem raises_deltaOut (aToB : Bool) (price next l : U128) :
    Raises QuoteFault (deltaOut build aToB price next l) :=
  .ite (raises_amount1Delta build _ _ _ _) (raises_amount0Delta build _ _ _ _)

theorem raises_finish (aToB : Bool) (price target l remaining : U128) (feePips : U64) (next amountIn : U128) :
    Raises QuoteFault (finish build aToB price target l remaining feePips next amountIn) := by
  unfold finish
  exact (raises_deltaOut build _ _ _ _).bind fun _ _ => .ite ((raises_word _ _).bind fun _ _ => raises_ok _)
    ((raises_word _ _).bind fun _ _ => (raises_mulDivCeil _ _ _).bind fun _ _ => raises_ok _)

theorem raises_computeSwapStep (price target l remaining : U128) (feePips : U64) (aToB : Bool) :
    Raises QuoteFault (computeSwapStep build price target l remaining feePips aToB) := by
  rw [computeSwapStep_eq]
  exact (raises_word _ _).bind fun _ _ => (raises_mulDivFloor _ _ _).bind fun _ _ =>
    (raises_deltaIn build _ _ _ _).bind fun _ _ => .ite (raises_finish build _ _ _ _ _ _ _ _)
      (Raises.bind (.ite (raises_nextSqrtFromAmount0In _ _ _) (raises_nextSqrtFromAmount1In _ _ _)) fun _ _ =>
        (raises_deltaIn build _ _ _ _).bind fun _ _ => raises_finish build _ _ _ _ _ _ _ _)

theorem raises_advance (state : SwapState) (step : SwapStep) : Raises QuoteFault (state.advance build step) :=
  (raises_word _ _).bind fun _ _ => (raises_word _ _).bind fun _ _ => raises_ok _

theorem raises_applyNet (l : U128) (net : I128) (aToB : Bool) : Raises QuoteFault (applyNet build l net aToB) := by
  unfold applyNet
  have tail : ∀ delta : I128, Raises QuoteFault (if 0 ≤ delta.val then pure (saturatingAdd l (wrap 128 delta.val))
      else pure (saturatingSub l (wrap 128 (-delta.val)))) :=
    fun delta => .ite (raises_ok _) (raises_ok _)
  exact .ite ((raises_negI128 build net).bind fun _ _ => tail _) ((raises_ok _).bind fun _ _ => tail _)

theorem raises_swapLoop (feePips : U64) (hasRealTicks aToB : Bool) (boundaries : List TickBoundary)
    (state : SwapState) : Raises QuoteFault (swapLoop build feePips hasRealTicks aToB boundaries state) := by
  induction boundaries generalizing state with
  | nil =>
    exact .ite (raises_ok _) <| .ite (raises_ok _) <|
      (raises_computeSwapStep build _ _ _ _ _ _).bind fun _ _ => raises_advance build _ _
  | cons boundary boundaries ih =>
    exact .ite (raises_ok _) <| (raises_computeSwapStep build _ _ _ _ _ _).bind fun _ _ =>
      (raises_advance build _ _).bind fun _ _ => .ite ((raises_applyNet build _ _ _).bind fun _ _ =>
        .ite (raises_ok _) (ih _)) (raises_ok _)

theorem raises_quoteExactIn (state : ClmmState) (amountIn : U64) (aToB : Bool) :
    Raises QuoteFault (quoteExactIn build state amountIn aToB) := by
  unfold quoteExactIn
  exact .ite (raises_ok _) <| (raises_swapLoop build _ _ _ _ _).bind fun _ _ => .ite (raises_ok _) (raises_ok _)

end Clmm

theorem Amm.raises_getAmountOut (build : Build) (amountIn reserveIn reserveOut feeBps : U64) :
    Raises QuoteFault (getAmountOut build amountIn reserveIn reserveOut feeBps) := by
  by_cases quotable : Move.Math.Quotable amountIn reserveIn reserveOut feeBps
  · rw [getAmountOut_quotable quotable]
    exact (raises_word build _).map _
  · rw [getAmountOut_degenerate quotable]
    exact raises_ok _

end quoteFaults

end SuiArbitrage.Rust
