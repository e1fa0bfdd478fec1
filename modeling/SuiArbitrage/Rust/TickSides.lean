import SuiArbitrage.Rust.Ticks

/-! On which side of the price a quote crosses a tick. The ticks above are crossed upward
and those below downward, and a tick at the price itself, whose liquidity is active, is
crossed in neither direction. -/
namespace SuiArbitrage.Rust.Clmm
open MachineWord Fallible

section sides
variable {build : Build} {state : ClmmState} {tick : TickBoundary}

theorem boundaries_perm (state : ClmmState) :
    (boundaries state true).Perm (state.ticks.filter (·.sqrtPrice < state.sqrtPrice)) ∧
      (boundaries state false).Perm (state.ticks.filter (state.sqrtPrice < ·.sqrtPrice)) := by
  rw [boundaries,boundaries,if_pos rfl,if_neg Bool.false_ne_true]
  exact ⟨List.perm_insertionSort _ _,List.perm_insertionSort _ _⟩

end sides

end SuiArbitrage.Rust.Clmm

namespace SuiArbitrage.Rust.TurbosTicks
open MachineWord Fallible Clmm
open Move (ObjectId)

/-- The indices and nets of the ticks that a window loads. -/
def loadedTicks (reads : TickReads) (pool : ObjectId) (currentTick : I32) (window : ℕ) : Anyhow (List (I32 × I128)) := do
  let pages ← reads.dynamicFields pool
  let nodes := (pages.flatten.filter fun info => "::pool::Tick".toList.isSuffixOf info.objectType.toList).filterMap fun info =>
    info.name.bits.map fun idx => (asI32 (wrap 32 idx.val),info.objectId)
  let nodes := nodes.insertionSort fun first second => first.1.val ≤ second.1.val
  let responses ← ((selectWindow nodes currentTick window).toChunks 50).mapM fun chunk => do
    return chunk.zip (← reads.multiGetObject (chunk.map Prod.snd))
  return responses.flatten.filterMap fun ((tick,_),r) => (decodeLiquidityNet r).map fun net => (tick,net)

section sides
variable {scale : U128 → ℤ → U128} {reads : TickReads} {pool : ObjectId} {price : U128} {current : I32} {window : ℕ}
  {loaded : List (I32 × I128)}

def boundaryOf (scale : U128 → ℤ → U128) (price : U128) (current : I32) (tick : I32 × I128) : TickBoundary :=
  ⟨sqrtPriceAtTick scale price current tick.1,tick.2⟩

theorem loadWindow_loaded : loadWindow scale reads pool price current window = do
    return byPrice ((← loadedTicks reads pool current window).map (boundaryOf scale price current)) := by
  unfold loadWindow loadedTicks
  simp only [bind_assoc,pure_bind]
  cases reads.dynamicFields pool with
  | error fault => rfl
  | ok pages =>
    simp only [ok_bind]
    split
    · rename_i empty
      rw [empty]
      rfl
    · simp only [List.map_filterMap,Option.map_map]
      rfl

/-- The boundaries downward are the ticks up to the current one, and those upward the ticks above it. -/
structure Sides (scale : U128 → ℤ → U128) (state : ClmmState) (current : I32) (loaded : List (I32 × I128)) : Prop where
  down : (boundaries state true).Perm
    ((loaded.filter fun tick => tick.1.val ≤ current.val).map (boundaryOf scale state.sqrtPrice current))
  up : (boundaries state false).Perm
    ((loaded.filter fun tick => current.val < tick.1.val).map (boundaryOf scale state.sqrtPrice current))

variable (scale price current) in
/-- The price rises with the index over the current tick and these. -/
def Rises (indices : List I32) : Prop := ∀ s ∈ current :: indices, ∀ t ∈ current :: indices, s.val < t.val →
  sqrtPriceAtTick scale price current s < sqrtPriceAtTick scale price current t

theorem Rises.lt_iff {indices : List I32} (rises : Rises scale price current indices) {s t : I32}
    (one : s ∈ current :: indices) (two : t ∈ current :: indices) :
    sqrtPriceAtTick scale price current s < sqrtPriceAtTick scale price current t ↔ s.val < t.val := by
  refine ⟨fun below => ?_,rises s one t two⟩
  rcases lt_trichotomy s.val t.val with before | same | after
  · exact before
  · rw [Subtype.ext same] at below
    exact absurd below (lt_irrefl _)
  · exact absurd below (rises t two s one after).not_gt

theorem sqrtPriceAtTick_current : sqrtPriceAtTick scale price current current = price := if_pos rfl

section state
variable {ticks : List TickBoundary} {liquidity : Liquidity} {feePips : U64}

variable (liquidity feePips) in
theorem boundaries_split (listed : loadedTicks reads pool current window = .ok loaded)
    (ran : loadWindow scale reads pool price current window = .ok ticks)
    (rises : Rises scale price current (loaded.map Prod.fst)) :
    (boundaries ⟨price,liquidity,feePips,ticks⟩ true).Perm
      ((loaded.filter fun tick => tick.1.val < current.val).map (boundaryOf scale price current)) ∧
    (boundaries ⟨price,liquidity,feePips,ticks⟩ false).Perm
      ((loaded.filter fun tick => current.val < tick.1.val).map (boundaryOf scale price current)) := by
  rw [loadWindow_loaded,listed] at ran
  obtain rfl : byPrice (loaded.map (boundaryOf scale price current)) = ticks := Except.ok.inj ran
  have sorted : (byPrice (loaded.map (boundaryOf scale price current))).Perm _ := List.perm_insertionSort _ _
  have member {tick : I32 × I128} (inside : tick ∈ loaded) : tick.1 ∈ current :: loaded.map Prod.fst :=
    List.mem_cons_of_mem _ (List.mem_map_of_mem inside)
  obtain ⟨down,up⟩ := boundaries_perm ⟨price,liquidity,feePips,byPrice (loaded.map (boundaryOf scale price current))⟩
  constructor
  · refine (down.trans (sorted.filter _)).trans (List.Perm.of_eq ?_)
    rw [List.filter_map]
    refine congrArg (List.map _) (List.filter_congr fun tick inside => decide_eq_decide.mpr ?_)
    have sides := rises.lt_iff (member inside) List.mem_cons_self
    rwa [sqrtPriceAtTick_current] at sides
  · refine (up.trans (sorted.filter _)).trans (List.Perm.of_eq ?_)
    rw [List.filter_map]
    refine congrArg (List.map _) (List.filter_congr fun tick inside => decide_eq_decide.mpr ?_)
    have sides := rises.lt_iff List.mem_cons_self (member inside)
    rwa [sqrtPriceAtTick_current] at sides

/-- Every loaded tick is crossed on its own side exactly where none is the current tick. -/
theorem sides_iff (listed : loadedTicks reads pool current window = .ok loaded)
    (ran : loadWindow scale reads pool price current window = .ok ticks)
    (rises : Rises scale price current (loaded.map Prod.fst)) :
    Sides scale ⟨price,liquidity,feePips,ticks⟩ current loaded ↔ ∀ tick ∈ loaded, tick.1 ≠ current := by
  obtain ⟨down,up⟩ := boundaries_split liquidity feePips listed ran rises
  constructor
  · intro sides tick inside same
    have crossed : boundaryOf scale price current tick ∈
        (loaded.filter fun tick => tick.1.val ≤ current.val).map (boundaryOf scale price current) :=
      List.mem_map_of_mem (List.mem_filter.mpr ⟨inside,decide_eq_true (same ▸ le_rfl)⟩)
    have below := List.of_mem_filter ((boundaries_perm _).1.mem_iff.mp (sides.down.mem_iff.mpr crossed))
    rw [decide_eq_true_eq,boundaryOf,same,sqrtPriceAtTick_current] at below
    exact lt_irrefl _ below
  · intro apart
    refine ⟨down.trans (List.Perm.of_eq ?_),up⟩
    refine congrArg (List.map _) (List.filter_congr fun tick inside => decide_eq_decide.mpr ?_)
    have differ : tick.1.val ≠ current.val := fun same => apart tick inside (Subtype.ext same)
    omega

end state

end sides

/-- Prices a unit apart, for lack of the exponential. -/
def unitScale (price : U128) (ticks : ℤ) : U128 := wrap 128 (price.val + ticks)

/-- The node has one tick of the pool, at this index. -/
def readsOne (index : ℕ) : TickReads where
  dynamicFields _ := .ok [[⟨.number (wrap 64 index),"node","0x91::pool::Tick"⟩]]
  multiGetObject ids := .ok (ids.map fun id => ⟨some ⟨id,1,none,some (.moveObject (.object [("liquidity_net",.text "7")]))⟩⟩)

theorem sides_apart : ∃ ticks loaded, loadWindow unitScale (readsOne 90) "pool" 18446744073709551616 (asI32 100) 4 = .ok ticks ∧
    ticks.length = 1 ∧ Sides unitScale ⟨18446744073709551616,1000,3000,ticks⟩ (asI32 100) loaded := by
  have listed : loadedTicks (readsOne 90) "pool" (asI32 100) 4 = .ok [(asI32 90,asI128 7)] := by decide +kernel
  have ran : loadWindow unitScale (readsOne 90) "pool" 18446744073709551616 (asI32 100) 4 =
      .ok [⟨18446744073709551606,asI128 7⟩] := by decide +kernel
  have rises : Rises unitScale 18446744073709551616 (asI32 100) [asI32 90] := by
    unfold Rises
    decide +kernel
  exact ⟨_,_,ran,rfl,(sides_iff listed ran rises).mpr (by decide)⟩

/-- An initialized current tick is on neither side. -/
theorem sides_current : ¬ ∀ (scale : U128 → ℤ → U128) (reads : TickReads) (pool : ObjectId) (price : U128) (current : I32)
    (window : ℕ) (loaded : List (I32 × I128)) (ticks : List TickBoundary) (liquidity : Liquidity) (feePips : U64),
    loadedTicks reads pool current window = .ok loaded → loadWindow scale reads pool price current window = .ok ticks →
      Rises scale price current (loaded.map Prod.fst) → Sides scale ⟨price,liquidity,feePips,ticks⟩ current loaded := by
  intro claimed
  have listed : loadedTicks (readsOne 100) "pool" (asI32 100) 4 = .ok [(asI32 100,asI128 7)] := by decide +kernel
  have ran : loadWindow unitScale (readsOne 100) "pool" 18446744073709551616 (asI32 100) 4 =
      .ok [⟨18446744073709551616,asI128 7⟩] := by decide +kernel
  have rises : Rises unitScale 18446744073709551616 (asI32 100) [asI32 100] := by
    unfold Rises
    decide +kernel
  have down := (claimed _ _ _ _ _ _ _ _ 1000 3000 listed ran rises).down
  exact absurd down.length_eq (by decide)

end SuiArbitrage.Rust.TurbosTicks
