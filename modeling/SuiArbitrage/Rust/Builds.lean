import SuiArbitrage.Rust.ClmmStep
import SuiArbitrage.Rust.Scanner

/-! What a debug build returns every build returns: the two differ only where
arithmetic overflows, and there a debug build does not return. -/
namespace SuiArbitrage.Rust
open MachineWord Fallible

section follows
variable {α β : Type}

/-- The second computation returns whatever the first one does. -/
def Follows (x y : Rust α) : Prop := ∀ result, x = .ok result → y = .ok result

theorem follows_refl (x : Rust α) : Follows x x := fun _ ran => ran

theorem Follows.bind {x y : Rust α} {next next' : α → Rust β} (first : Follows x y)
    (second : ∀ value, Follows (next value) (next' value)) : Follows (x >>= next) (y >>= next') := by
  intro result ran
  obtain ⟨value,early,late⟩ := bind_ok.mp ran
  exact bind_ok.mpr ⟨value,first value early,second value result late⟩

theorem Follows.ite {condition : Prop} [Decidable condition] {x y x' y' : Rust α} (first : Follows x x')
    (second : Follows y y') : Follows (if condition then x else y) (if condition then x' else y') := by
  split
  · exact first
  · exact second

theorem follows_andThen {x y : Rust (Option α)} {next next' : α → Rust (Option β)} (first : Follows x y)
    (second : ∀ value, Follows (next value) (next' value)) : Follows (andThen x next) (andThen y next') := by
  refine first.bind fun found => ?_
  cases found with
  | none => exact follows_refl _
  | some value => exact second value

theorem follows_word (build : Build) (w : ℕ) (z : ℤ) : Follows (word .debug w z) (word build w z) :=
  fun _ ran => word_of_debug ran build

theorem follows_negI128 (build : Build) (x : I128) : Follows (negI128 .debug x) (negI128 build x) := by
  intro result ran
  unfold negI128 at ran ⊢
  split
  · rename_i opposite
    rwa [dif_pos opposite] at ran
  · rename_i least
    rw [dif_neg least,if_pos rfl] at ran
    cases ran

end follows

namespace Clmm
variable (build : Build)

theorem follows_amount0Delta (sa sb l : U128) (roundUp : Bool) :
    Follows (amount0Delta .debug sa sb l roundUp) (amount0Delta build sa sb l roundUp) := by
  unfold amount0Delta
  exact .ite (follows_refl _) <| (follows_refl _).bind fun _ => (follows_word build _ _).bind fun _ => follows_refl _

theorem follows_amount1Delta (sa sb l : U128) (roundUp : Bool) :
    Follows (amount1Delta .debug sa sb l roundUp) (amount1Delta build sa sb l roundUp) := by
  unfold amount1Delta
  exact (follows_word build _ _).bind fun _ => follows_refl _

theorem follows_deltaIn (aToB : Bool) (price next l : U128) :
    Follows (deltaIn .debug aToB price next l) (deltaIn build aToB price next l) :=
  .ite (follows_amount0Delta build _ _ _ _) (follows_amount1Delta build _ _ _ _)

theorem follows_deltaOut (aToB : Bool) (price next l : U128) :
    Follows (deltaOut .debug aToB price next l) (deltaOut build aToB price next l) :=
  .ite (follows_amount1Delta build _ _ _ _) (follows_amount0Delta build _ _ _ _)

theorem follows_finish (aToB : Bool) (price target l remaining : U128) (feePips : U64) (next amountIn : U128) :
    Follows (finish .debug aToB price target l remaining feePips next amountIn)
      (finish build aToB price target l remaining feePips next amountIn) := by
  unfold finish
  exact (follows_deltaOut build _ _ _ _).bind fun _ =>
    .ite ((follows_word build _ _).bind fun _ => follows_refl _)
      ((follows_word build _ _).bind fun _ => follows_refl _)

theorem follows_computeSwapStep (price target l remaining : U128) (feePips : U64) (aToB : Bool) :
    Follows (computeSwapStep .debug price target l remaining feePips aToB)
      (computeSwapStep build price target l remaining feePips aToB) := by
  rw [computeSwapStep_eq,computeSwapStep_eq]
  exact (follows_word build _ _).bind fun _ => (follows_refl _).bind fun _ => (follows_deltaIn build _ _ _ _).bind fun _ =>
    .ite (follows_finish build _ _ _ _ _ _ _ _) <| (follows_refl _).bind fun _ =>
      (follows_deltaIn build _ _ _ _).bind fun _ => follows_finish build _ _ _ _ _ _ _ _

theorem follows_advance (state : SwapState) (step : SwapStep) : Follows (state.advance .debug step) (state.advance build step) :=
  (follows_word build _ _).bind fun _ => (follows_word build _ _).bind fun _ => follows_refl _

theorem follows_applyNet (l : U128) (net : I128) (aToB : Bool) :
    Follows (applyNet .debug l net aToB) (applyNet build l net aToB) := by
  unfold applyNet
  exact .ite ((follows_negI128 build net).bind fun _ => follows_refl _) (follows_refl _)

theorem follows_swapLoop (feePips : U64) (hasRealTicks aToB : Bool) (boundaries : List TickBoundary)
    (state : SwapState) : Follows (swapLoop .debug feePips hasRealTicks aToB boundaries state)
      (swapLoop build feePips hasRealTicks aToB boundaries state) := by
  induction boundaries generalizing state with
  | nil =>
    exact .ite (follows_refl _) <| .ite (follows_refl _) <|
      (follows_computeSwapStep build _ _ _ _ _ _).bind fun _ => follows_advance build _ _
  | cons boundary boundaries ih =>
    exact .ite (follows_refl _) <| (follows_computeSwapStep build _ _ _ _ _ _).bind fun _ =>
      (follows_advance build _ _).bind fun _ => .ite ((follows_applyNet build _ _ _).bind fun _ =>
        .ite (follows_refl _) (ih _)) (follows_refl _)

theorem follows_quoteExactIn (state : ClmmState) (amountIn : U64) (aToB : Bool) :
    Follows (quoteExactIn .debug state amountIn aToB) (quoteExactIn build state amountIn aToB) := by
  unfold quoteExactIn
  exact .ite (follows_refl _) ((follows_swapLoop build _ _ _ _ _).bind fun _ => follows_refl _)

end Clmm

theorem Amm.follows_getAmountOut (build : Build) (amountIn reserveIn reserveOut feeBps : U64) :
    Follows (getAmountOut .debug amountIn reserveIn reserveOut feeBps)
      (getAmountOut build amountIn reserveIn reserveOut feeBps) := by
  unfold getAmountOut
  exact .ite (follows_refl _) <| (follows_word build _ _).bind fun _ => (follows_word build _ _).bind fun _ =>
    (follows_word build _ _).bind fun _ => (follows_word build _ _).bind fun _ =>
      (follows_word build _ _).bind fun _ => follows_refl _

namespace Scanner
variable (build : Build)

theorem follows_quoteHop (pool : PoolState) (hop : Hop) (amount : U64) :
    Follows (quoteHop .debug pool hop amount) (quoteHop build pool hop amount) := by
  unfold quoteHop
  split
  · exact .ite (Amm.follows_getAmountOut build _ _ _ _) (Amm.follows_getAmountOut build _ _ _ _)
  · exact Clmm.follows_quoteExactIn build _ _ _

theorem follows_collect (byId : PoolId → Option PoolState) (route : List Hop) (input : U64) :
    Follows (collect .debug byId route input) (collect build byId route input) := by
  induction route generalizing input with
  | nil => exact follows_refl _
  | cons hop rest ih =>
    exact follows_andThen (follows_refl _) fun pool => follows_andThen (follows_quoteHop build pool hop _) fun amount =>
      follows_andThen (ih amount) fun _ => follows_refl _

theorem follows_simulate (byId : PoolId → Option PoolState) (route : List Hop) (input : U64) :
    Follows (simulate .debug byId route input) (simulate build byId route input) :=
  follows_andThen (.ite (follows_refl _) (follows_collect build _ _ _)) fun _ => follows_refl _

theorem follows_netSigned (byId : PoolId → Option PoolState) (route : List Hop) (params : ScanParams) (input : U64) :
    Follows (netSigned .debug byId route params input) (netSigned build byId route params input) :=
  follows_andThen (follows_simulate build _ _ _) fun _ => follows_refl _

end Scanner

end SuiArbitrage.Rust
