import SuiArbitrage.Rust.ClmmStep
import SuiArbitrage.Rust.Ticks
import Mathlib.Data.Int.ConditionallyCompleteOrder

/-! A quote over a window of a pool's ticks is a quote over all of them: the window
reaches the current price from both sides and leaves no tick out, and a quote that
would go past its ends is refused. -/
namespace SuiArbitrage.Rust.Clmm
open MachineWord Fallible

section loop
variable {build : Build} {feePips : U64} {aToB : Bool}

/-- A run that spends its input never sees the ticks behind those it was given. -/
theorem swapLoop_append {near far : List TickBoundary} {state final : SwapState}
    (ran : swapLoop build feePips true aToB near state = .ok final) (spent : final.remaining = 0) :
    swapLoop build feePips true aToB (near ++ far) state = .ok final := by
  induction near generalizing state with
  | nil =>
    rw [swapLoop] at ran
    have same : state = final := by
      split at ran
      · exact Except.ok.inj ran
      · exact Except.ok.inj ran
    subst same
    cases far with
    | nil => rw [List.nil_append,swapLoop,if_pos spent,pure_eq_ok]
    | cons boundary far => rw [List.nil_append,swapLoop,if_pos spent,pure_eq_ok]
  | cons boundary near ih =>
    rw [List.cons_append]
    rw [swapLoop] at ran ⊢
    split
    · rename_i empty
      rw [if_pos empty] at ran
      exact ran
    · rename_i left
      rw [if_neg left] at ran
      simp only [bind_ok] at ran ⊢
      obtain ⟨step,stepped,next,advanced,ran⟩ := ran
      refine ⟨step,stepped,next,advanced,?_⟩
      split
      · rename_i reached
        rw [if_pos reached] at ran
        simp only [bind_ok] at ran ⊢
        obtain ⟨liquidity,applied,ran⟩ := ran
        refine ⟨liquidity,applied,?_⟩
        split
        · rename_i empty
          rw [if_pos empty] at ran
          exact ran
        · rename_i active
          rw [if_neg active] at ran
          exact ih ran
      · rename_i short
        rw [if_neg short] at ran
        exact ran

theorem quoteExactIn_append {price : SqrtPriceX64} {liquidity : Liquidity} {near full far : List TickBoundary}
    (loaded : near ≠ []) (same : full ≠ [])
    (onward : boundaries ⟨price,liquidity,feePips,full⟩ aToB = boundaries ⟨price,liquidity,feePips,near⟩ aToB ++ far)
    {amountIn x : U64} (quoted : quoteExactIn build ⟨price,liquidity,feePips,near⟩ amountIn aToB = .ok (some x)) :
    quoteExactIn build ⟨price,liquidity,feePips,full⟩ amountIn aToB = .ok (some x) := by
  unfold quoteExactIn at quoted ⊢
  split at quoted
  · cases quoted
  rename_i accepted
  rw [if_neg accepted]
  simp only [List.isEmpty_eq_false_iff.mpr loaded,List.isEmpty_eq_false_iff.mpr same,Bool.not_false,true_and,
    bind_ok] at quoted ⊢
  obtain ⟨final,ran,quoted⟩ := quoted
  split at quoted
  · cases quoted
  · rename_i spent
    have nothing : final.remaining = 0 := nonpos_iff_eq_zero.mp (not_lt.mp spent)
    refine ⟨final,?_,?_⟩
    · rw [onward]
      exact swapLoop_append ran nothing
    · rw [if_neg spent]
      exact quoted

end loop

def Rising (ticks : List TickBoundary) : Prop := ticks.Pairwise fun s t => s.sqrtPrice < t.sqrtPrice

instance (ticks : List TickBoundary) : Decidable (Rising ticks) :=
  inferInstanceAs (Decidable (ticks.Pairwise fun s t => s.sqrtPrice < t.sqrtPrice))

section order
variable {ticks low high : List TickBoundary} {price : SqrtPriceX64} {liquidity : Liquidity} {feePips : U64}

theorem Rising.inj (rising : Rising ticks) {first second : TickBoundary} (one : first ∈ ticks)
    (two : second ∈ ticks) (same : first.sqrtPrice = second.sqrtPrice) : first = second := by
  have distinct : (ticks.map TickBoundary.sqrtPrice).Nodup :=
    List.pairwise_map.mpr (rising.imp fun smaller => smaller.ne)
  exact List.inj_on_of_nodup_map distinct one two same

theorem boundaries_down (rising : Rising ticks) :
    boundaries ⟨price,liquidity,feePips,ticks⟩ true = (ticks.filter (·.sqrtPrice < price)).reverse := by
  have total : Std.Total fun s t : TickBoundary => t.sqrtPrice ≤ s.sqrtPrice := ⟨fun s t => le_total _ _⟩
  have trans : IsTrans TickBoundary fun s t => t.sqrtPrice ≤ s.sqrtPrice := ⟨fun _ _ _ one two => two.trans one⟩
  rw [boundaries,if_pos rfl]
  have permuted := (List.perm_insertionSort (fun s t : TickBoundary => t.sqrtPrice ≤ s.sqrtPrice)
    (ticks.filter (·.sqrtPrice < price))).trans (List.reverse_perm _).symm
  refine permuted.eq_of_pairwise ?_ (List.pairwise_insertionSort _ _) ?_
  · intro first second one two above below
    rw [List.mem_insertionSort] at one
    rw [List.mem_reverse] at two
    exact rising.inj (List.mem_of_mem_filter one) (List.mem_of_mem_filter two) (le_antisymm below above)
  · exact List.pairwise_reverse.mpr ((rising.filter _).imp le_of_lt)

theorem boundaries_up (rising : Rising ticks) :
    boundaries ⟨price,liquidity,feePips,ticks⟩ false = ticks.filter (price < ·.sqrtPrice) := by
  rw [boundaries,if_neg Bool.false_ne_true]
  exact ((rising.filter _).imp le_of_lt).insertionSort_eq

theorem boundaries_loaded {left loaded right : List TickBoundary} (rising : Rising (left ++ (loaded ++ right)))
    (below : ∀ tick ∈ left, tick.sqrtPrice ≤ price) (above : ∀ tick ∈ right, price ≤ tick.sqrtPrice) (aToB : Bool) :
    ∃ far, boundaries ⟨price,liquidity,feePips,left ++ (loaded ++ right)⟩ aToB =
      boundaries ⟨price,liquidity,feePips,loaded⟩ aToB ++ far := by
  have inner : Rising loaded := rising.sublist ((List.sublist_append_left _ _).trans (List.sublist_append_right _ _))
  cases aToB with
  | true =>
    have none : right.filter (·.sqrtPrice < price) = [] := by
      refine List.filter_eq_nil_iff.mpr fun tick member => ?_
      rw [decide_eq_true_eq]
      exact not_lt.mpr (above tick member)
    rw [boundaries_down rising,boundaries_down inner,List.filter_append,List.filter_append,none,List.append_nil,
      List.reverse_append]
    exact ⟨_,rfl⟩
  | false =>
    have none : left.filter (price < ·.sqrtPrice) = [] := by
      refine List.filter_eq_nil_iff.mpr fun tick member => ?_
      rw [decide_eq_true_eq]
      exact not_lt.mpr (below tick member)
    rw [boundaries_up rising,boundaries_up inner,List.filter_append,List.filter_append,none,List.nil_append]
    exact ⟨_,rfl⟩

end order

section window
variable {build : Build} {price : SqrtPriceX64} {liquidity : Liquidity} {feePips amountIn x : U64} {aToB : Bool}

/-- A quote over ticks that adjoin the price is the quote over the whole table. -/
theorem quoteExactIn_loaded {left loaded right : List TickBoundary} (rising : Rising (left ++ (loaded ++ right)))
    (nonempty : loaded ≠ []) (below : ∀ tick ∈ left, tick.sqrtPrice ≤ price)
    (above : ∀ tick ∈ right, price ≤ tick.sqrtPrice)
    (quoted : quoteExactIn build ⟨price,liquidity,feePips,loaded⟩ amountIn aToB = .ok (some x)) :
    quoteExactIn build ⟨price,liquidity,feePips,left ++ (loaded ++ right)⟩ amountIn aToB = .ok (some x) := by
  obtain ⟨far,onward⟩ := boundaries_loaded rising below above aToB
  exact quoteExactIn_append nonempty (by simp [nonempty]) onward quoted

theorem quoteExactIn_window {κ : Type} [LinearOrder κ] {keyed : List (κ × TickBoundary)} {center : κ} {size : ℕ}
    (positive : 0 < size) (increasing : keyed.Pairwise (·.1 < ·.1)) (rising : Rising (keyed.map Prod.snd))
    (below : ∀ tick ∈ keyed, tick.1 ≤ center → tick.2.sqrtPrice ≤ price)
    (above : ∀ tick ∈ keyed, center < tick.1 → price < tick.2.sqrtPrice)
    (quoted : quoteExactIn build ⟨price,liquidity,feePips,
      (SortedWindow.window Prod.fst keyed center size).map Prod.snd⟩ amountIn aToB = .ok (some x)) :
    quoteExactIn build ⟨price,liquidity,feePips,keyed.map Prod.snd⟩ amountIn aToB = .ok (some x) := by
  obtain ⟨low,high,rfl,lower,upper⟩ := SortedWindow.exists_split increasing center
  obtain ⟨before,after,chosen⟩ := SortedWindow.window_split positive increasing rfl lower upper
  by_cases empty : low ++ high = []
  · rw [empty] at quoted ⊢
    exact quoted
  have nonempty := SortedWindow.window_ne_nil Prod.fst center positive empty
  rw [chosen] at quoted nonempty
  have whole : (low ++ high).map Prod.snd = (low.take before).map Prod.snd ++
      ((low.drop before ++ high.take after).map Prod.snd ++ (high.drop after).map Prod.snd) := by
    rw [← List.map_append,← List.map_append,List.append_assoc,List.take_append_drop,← List.append_assoc,
      List.take_append_drop]
  rw [whole] at rising ⊢
  refine quoteExactIn_loaded rising (by simpa using nonempty) ?_ ?_ quoted
  · intro tick member
    obtain ⟨keyedTick,inside,rfl⟩ := List.mem_map.mp member
    have listed := List.mem_of_mem_take inside
    exact below _ (List.mem_append_left _ listed) (lower _ listed)
  · intro tick member
    obtain ⟨keyedTick,inside,rfl⟩ := List.mem_map.mp member
    have listed := List.mem_of_mem_drop inside
    exact (above _ (List.mem_append_right _ listed) (upper _ listed)).le

end window

end SuiArbitrage.Rust.Clmm

namespace SuiArbitrage.Rust
open MachineWord Clmm

/-- All initialized ticks of a pool, in the order of their indices and of their prices. -/
structure TickTable where
  ticks : List (I32 × TickBoundary)
  increasing : ticks.Pairwise (·.1 < ·.1)
  rising : Rising (ticks.map Prod.snd)

namespace TickTable

def full (table : TickTable) : List TickBoundary := table.ticks.map Prod.snd

def scored (table : TickTable) : List (U64 × TickBoundary) :=
  table.ticks.map fun tick => (CetusTicks.score tick.1,tick.2)

/-- A pool at this price has this current tick, the ticks being at their true prices. -/
structure Stands (table : TickTable) (priceAt : ℤ → ℕ) (current : I32) (price : SqrtPriceX64) : Prop where
  monotone : Monotone priceAt
  exact : ∀ tick ∈ table.ticks, tick.2.sqrtPrice.val = priceAt tick.1.val
  low : priceAt current.val ≤ price.val
  high : price.val < priceAt (current.val + 1)

end TickTable

/-- The score of an index is the index plus the offset: the cast does not wrap. -/
def CetusTicks.Scored (index : I32) : Prop := ((score index).val : ℤ) = index.val + tickOffset

instance (index : I32) : Decidable (CetusTicks.Scored index) :=
  inferInstanceAs (Decidable (((CetusTicks.score index).val : ℤ) = index.val + CetusTicks.tickOffset))

theorem CetusTicks.scored_iff {index : I32} : Scored index ↔ 0 ≤ index.val + tickOffset := by
  constructor
  · intro scored
    rw [← scored]
    exact Int.natCast_nonneg _
  · intro nonnegative
    have bound := index.property.2
    refine wrap_of_fits ⟨nonnegative,?_⟩
    rw [tickOffset]
    omega

section tables
variable {table : TickTable} {priceAt : ℤ → ℕ} {current : I32} {price : SqrtPriceX64}

theorem TickTable.Stands.below (stands : table.Stands priceAt current price) {tick : I32 × TickBoundary}
    (listed : tick ∈ table.ticks) (under : tick.1.val ≤ current.val) : tick.2.sqrtPrice ≤ price := by
  rw [Fin.le_def,stands.exact tick listed]
  exact (stands.monotone under).trans stands.low

theorem TickTable.Stands.above (stands : table.Stands priceAt current price) {tick : I32 × TickBoundary}
    (listed : tick ∈ table.ticks) (above : current.val < tick.1.val) : price < tick.2.sqrtPrice := by
  rw [Fin.lt_def,stands.exact tick listed]
  exact stands.high.trans_le (stands.monotone above)

theorem TickTable.scores_increasing (scored : ∀ tick ∈ table.ticks, CetusTicks.Scored tick.1) :
    table.ticks.Pairwise fun first second => CetusTicks.score first.1 < CetusTicks.score second.1 := by
  refine table.increasing.imp_of_mem ?_
  intro first second one two smaller
  have left := scored first one
  have right := scored second two
  have ordered : first.1.val < second.1.val := smaller
  rw [CetusTicks.Scored] at left right
  change (CetusTicks.score first.1).val < (CetusTicks.score second.1).val
  omega

/-- Whatever a window of either venue quotes, the whole table quotes as well. -/
theorem windowed_quote (build : Build) (stands : table.Stands priceAt current price) {window : ℕ}
    (positive : 0 < window) (liquidity : Liquidity) (feePips amountIn x : U64) (aToB : Bool) :
    ((∀ tick ∈ table.ticks, CetusTicks.Scored tick.1) → CetusTicks.Scored current →
      quoteExactIn build ⟨price,liquidity,feePips,
        CetusTicks.selectWindow table.scored (CetusTicks.score current) window⟩ amountIn aToB = .ok (some x) →
      quoteExactIn build ⟨price,liquidity,feePips,table.full⟩ amountIn aToB = .ok (some x)) ∧
    (quoteExactIn build ⟨price,liquidity,feePips,
        (TurbosTicks.selectWindow table.ticks current window).map Prod.snd⟩ amountIn aToB = .ok (some x) →
      quoteExactIn build ⟨price,liquidity,feePips,table.full⟩ amountIn aToB = .ok (some x)) := by
  constructor
  · intro scored center quoted
    have same : table.full = table.scored.map Prod.snd := by
      simp [TickTable.full,TickTable.scored]
    rw [same]
    refine quoteExactIn_window positive ?_ (same ▸ table.rising) ?_ ?_ quoted
    · exact List.pairwise_map.mpr (TickTable.scores_increasing scored)
    · intro keyed member under
      obtain ⟨tick,listed,rfl⟩ := List.mem_map.mp member
      have here := scored tick listed
      have under : (CetusTicks.score tick.1).val ≤ (CetusTicks.score current).val := under
      rw [CetusTicks.Scored] at here center
      exact stands.below listed (by omega)
    · intro keyed member beyond
      obtain ⟨tick,listed,rfl⟩ := List.mem_map.mp member
      have here := scored tick listed
      have beyond : (CetusTicks.score current).val < (CetusTicks.score tick.1).val := beyond
      rw [CetusTicks.Scored] at here center
      exact stands.above listed (by omega)
  · intro quoted
    exact quoteExactIn_window positive table.increasing table.rising (fun tick listed under => stands.below listed under)
      (fun tick listed beyond => stands.above listed beyond) quoted

/-- Ticks whose prices are one unit apart. -/
def unitPrice (index : ℤ) : ℕ := (2^64 + index).toNat

def unitTick (index net : ℤ) : I32 × TickBoundary :=
  (asI32 (wrap 32 index),⟨wrap 128 (unitPrice index),asI128 (wrap 128 net)⟩)

def fiveTicks : TickTable where
  ticks := [unitTick (-20) 1000,unitTick (-10) 1000,unitTick 0 1000,unitTick 10 (-1000),unitTick 20 (-2000)]
  increasing := by decide
  rising := by decide

theorem unitPrice_monotone : Monotone unitPrice := by
  intro first second ordered
  unfold unitPrice
  omega

theorem windowed_quote_five :
    let price : SqrtPriceX64 := 18446744073709551619
    let window : List TickBoundary := CetusTicks.selectWindow fiveTicks.scored (CetusTicks.score (asI32 3)) 2
    quoteExactIn .debug ⟨price,10000000000000000000000,3000,window⟩ 1000 true = .ok (some 542) ∧
      quoteExactIn .debug ⟨price,10000000000000000000000,3000,fiveTicks.full⟩ 1000 true = .ok (some 542) := by
  intro price window
  have stands : fiveTicks.Stands unitPrice (asI32 3) price :=
    ⟨unitPrice_monotone,by decide,by decide,by decide⟩
  have quoted : quoteExactIn .debug ⟨price,10000000000000000000000,3000,window⟩ 1000 true = .ok (some 542) := by
    decide +kernel
  have scored : ∀ tick ∈ fiveTicks.ticks, CetusTicks.Scored tick.1 := by decide
  have center : CetusTicks.Scored (asI32 3) := by decide
  exact ⟨quoted,(windowed_quote .debug stands (by decide) _ _ _ _ _).1 scored center quoted⟩

end tables

end SuiArbitrage.Rust
