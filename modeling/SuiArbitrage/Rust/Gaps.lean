import SuiArbitrage.Rust.StaleTicks

/-! When a loaded window has holes. A node that is lost, by its name in the enumeration, by
its reply or by its content, is left out in silence, and the window is closed over it. -/
namespace SuiArbitrage.Rust
open MachineWord Fallible Clmm
open Move (ObjectId)

section losses
variable {α β : Type} {f : α → Option β} {g : α → β} {items : List α}

theorem filterMap_somes (each : ∀ item ∈ items, ∀ value, f item = some value → value = g item) :
    items.filterMap f = (items.filter fun item => (f item).isSome).map g := by
  induction items with
  | nil => rfl
  | cons item items ih =>
    have rest := ih fun later member => each later (List.mem_cons_of_mem _ member)
    cases found : f item with
    | none => rw [List.filterMap_cons_none found,List.filter_cons_of_neg (by simp [found]),rest]
    | some value =>
      rw [List.filterMap_cons_some found,List.filter_cons_of_pos (by simp [found]),List.map_cons,rest,
        each item List.mem_cons_self value found]

/-- What is parsed of a listing of the items, in whatever order. -/
theorem filterMap_listed {γ : Type} {nodes : List γ} {listing : α → γ} {parse : γ → Option β} {named : α → Bool}
    (listed : nodes.Perm (items.map listing)) (names : ∀ item, (parse (listing item)).isSome = named item)
    (each : ∀ item ∈ items, ∀ value, parse (listing item) = some value → value = g item) :
    (nodes.filterMap parse).Perm ((items.filter named).map g) := by
  obtain rfl := funext names
  refine (listed.filterMap _).trans (List.Perm.of_eq ?_)
  rw [List.filterMap_map]
  exact filterMap_somes each

/-- What a sorted list keeps of a part without gaps has a gap only at an item it lost. -/
theorem kept_between {κ : Type} [LinearOrder κ] {key : α → κ} {named read : α → Bool} {chosen : List α}
    (increasing : items.Pairwise (key · < key ·)) (part : chosen <:+: items.filter named) {low item high : α}
    (member : item ∈ items) (isNamed : named item = true) (isRead : read item = true) (first : low ∈ chosen.filter read)
    (last : high ∈ chosen.filter read) (above : key low < key item) (below : key item < key high) :
    item ∈ chosen.filter read := by
  obtain ⟨before,after,split⟩ := part
  have sorted : (before ++ chosen ++ after).Pairwise (key · < key ·) := split ▸ increasing.filter _
  obtain ⟨front,-,apart⟩ := List.pairwise_append.mp sorted
  obtain ⟨-,-,ahead⟩ := List.pairwise_append.mp front
  have listed : item ∈ before ++ chosen ++ after := split ▸ List.mem_filter.mpr ⟨member,isNamed⟩
  rcases List.mem_append.mp listed with listed | behind
  · rcases List.mem_append.mp listed with early | inside
    · exact absurd above (ahead item early low (List.mem_of_mem_filter first)).not_gt
    · exact List.mem_filter.mpr ⟨inside,isRead⟩
  · have later := apart high (List.mem_append_right _ (List.mem_of_mem_filter last)) item behind
    exact absurd below later.not_gt

end losses

namespace TickTable

/-- No tick of the table between two of these ticks is missing from them. -/
def Contiguous (table : TickTable) (ticks : List TickBoundary) : Prop :=
  ∀ tick ∈ table.full, ∀ low ∈ ticks, ∀ high ∈ ticks, low.sqrtPrice < tick.sqrtPrice →
    tick.sqrtPrice < high.sqrtPrice → tick ∈ ticks

theorem order_iff {table : TickTable} {first second : I32 × TickBoundary} (one : first ∈ table.ticks)
    (two : second ∈ table.ticks) : first.1.val < second.1.val ↔ first.2.sqrtPrice < second.2.sqrtPrice := by
  obtain ⟨i,inside,rfl⟩ := List.getElem_of_mem one
  obtain ⟨j,within,rfl⟩ := List.getElem_of_mem two
  have indices := List.pairwise_iff_getElem.mp
    (show table.ticks.Pairwise fun s t => s.1.val < t.1.val from table.increasing)
  have prices := List.pairwise_iff_getElem.mp (List.pairwise_map.mp table.rising)
  rcases lt_trichotomy i j with before | same | after
  · exact iff_of_true (indices i j inside within before) (prices i j inside within before)
  · subst same
    exact iff_of_false (lt_irrefl _) (lt_irrefl _)
  · exact iff_of_false (indices j i within inside after).not_gt (prices j i within inside after).not_gt

theorem tick_inj {table : TickTable} {first second : I32 × TickBoundary} (one : first ∈ table.ticks)
    (two : second ∈ table.ticks) (same : first.2 = second.2) : first = second := by
  have distinct : (table.ticks.map fun tick => tick.2.sqrtPrice).Nodup :=
    List.pairwise_map.mpr ((List.pairwise_map.mp table.rising).imp fun smaller => smaller.ne)
  exact List.inj_on_of_nodup_map distinct one two (congrArg TickBoundary.sqrtPrice same)

end TickTable

namespace TickChain
variable (chain : TickChain) (entry : I32 → DynamicFieldInfo) (scale : U128 → ℤ → U128) (reads : TickReads)

/-- The enumeration has an entry for every tick, whatever its pages. A name or a reply that
cannot be read is allowed for any of them, and the others tell the truth. -/
def Reports : Indexer.TickSrc → Prop
  | .cetus skiplist _ => chain.Returns reads ∧
    (∀ pages, reads.dynamicFields skiplist = .ok pages →
      pages.flatten.Perm (chain.table.ticks.map fun tick => entry tick.1)) ∧
    ∀ tick ∈ chain.table.ticks, CetusTicks.Scored tick.1 ∧ (entry tick.1).objectId = chain.node tick.1 ∧
      (∀ s, (entry tick.1).name.jsonU128 = some s → asU64 s = CetusTicks.score tick.1) ∧
      ∀ read, CetusTicks.decodeNode (chain.content (chain.node tick.1)) = some read → read = tick.2
  | .turbos pool sqrt current => chain.Returns reads ∧
    (∀ pages, reads.dynamicFields pool = .ok pages →
      (pages.flatten.filter fun info => "::pool::Tick".toList.isSuffixOf info.objectType.toList).Perm
        (chain.table.ticks.map fun tick => entry tick.1)) ∧
    ∀ tick ∈ chain.table.ticks, TurbosTicks.sqrtPriceAtTick scale sqrt current tick.1 = tick.2.sqrtPrice ∧
      (entry tick.1).objectId = chain.node tick.1 ∧
      (∀ idx, (entry tick.1).name.bits = some idx → asI32 (wrap 32 idx.val) = tick.1) ∧
      ∀ net, TurbosTicks.decodeLiquidityNet (chain.content (chain.node tick.1)) = some net → net = tick.2.liquidityNet

/-- The name of the tick's entry parses. -/
def Named : Indexer.TickSrc → I32 × TickBoundary → Bool
  | .cetus _ _,tick => (entry tick.1).name.jsonU128.isSome
  | .turbos _ _ _,tick => (entry tick.1).name.bits.isSome

/-- The reply for the tick's node is there and decodes. -/
def Decoded : Indexer.TickSrc → I32 × TickBoundary → Bool
  | .cetus _ _,tick => (CetusTicks.decodeNode (chain.content (chain.node tick.1))).isSome
  | .turbos _ _ _,tick => (TurbosTicks.decodeLiquidityNet (chain.content (chain.node tick.1))).isSome

/-- The window among the ticks whose names parse. -/
def selected (window : ℕ) (src : Indexer.TickSrc) : List (I32 × TickBoundary) :=
  let named := chain.table.ticks.filter (Named entry src)
  match src with
  | .cetus _ center => CetusTicks.selectWindow (named.map fun tick => (CetusTicks.score tick.1,tick)) center window
  | .turbos _ _ center => TurbosTicks.selectWindow named center window

/-- No lost tick lies between two ticks of the window that decode. -/
def NoLoss (window : ℕ) (src : Indexer.TickSrc) : Prop :=
  ∀ lost ∈ chain.table.ticks, ¬ (Named entry src lost ∧ chain.Decoded src lost) →
    ∀ low ∈ chain.selected entry window src, chain.Decoded src low →
      ∀ high ∈ chain.selected entry window src, chain.Decoded src high → low.1.val < lost.1.val → ¬ lost.1.val < high.1.val

instance (window : ℕ) (src : Indexer.TickSrc) : Decidable (chain.NoLoss entry window src) :=
  inferInstanceAs (Decidable (∀ lost ∈ chain.table.ticks, ¬ (Named entry src lost ∧ chain.Decoded src lost) →
    ∀ low ∈ chain.selected entry window src, chain.Decoded src low →
      ∀ high ∈ chain.selected entry window src, chain.Decoded src high → low.1.val < lost.1.val → ¬ lost.1.val < high.1.val))

end TickChain

section load
variable {chain : TickChain} {entry : I32 → DynamicFieldInfo} {scale : U128 → ℤ → U128} {reads : TickReads}
  {window : ℕ} {src : Indexer.TickSrc} {ticks : List TickBoundary}

theorem TickChain.selected_cetus {skiplist : ObjectId} {center : U64} :
    chain.selected entry window (.cetus skiplist center) =
      SortedWindow.window (fun tick => CetusTicks.score tick.1)
        (chain.table.ticks.filter (Named entry (.cetus skiplist center))) center window := by
  rw [selected,CetusTicks.selectWindow,SortedWindow.window_map,List.map_map]
  exact List.map_id' _

theorem TickChain.selected_part : chain.selected entry window src <:+: chain.table.ticks.filter (Named entry src) := by
  cases src with
  | cetus skiplist center =>
    rw [selected_cetus]
    exact SortedWindow.window_infix _ _ _
  | turbos pool sqrt center => exact SortedWindow.window_infix _ _ _

theorem TickChain.selected_listed {tick : I32 × TickBoundary} (chosen : tick ∈ chain.selected entry window src) :
    tick ∈ chain.table.ticks ∧ Named entry src tick = true := List.mem_filter.mp (selected_part.mem chosen)

theorem TickChain.kept_rising (read : I32 × TickBoundary → Bool) :
    Rising (((chain.selected entry window src).filter read).map Prod.snd) :=
  chain.table.rising.sublist
    ((List.filter_sublist.trans (selected_part.sublist.trans List.filter_sublist)).map Prod.snd)

theorem CetusTicks.loadWindow_kept {skiplist : ObjectId} {center : U64}
    (reports : chain.Reports entry scale reads (.cetus skiplist center))
    (ran : loadWindow reads skiplist center window = .ok ticks) :
    ticks = ((chain.selected entry window (.cetus skiplist center)).filter
      (chain.Decoded (.cetus skiplist center))).map Prod.snd := by
  obtain ⟨returns,lists,outcomes⟩ := reports
  have increasing := (TickTable.scores_increasing fun tick listed => (outcomes tick listed).1).filter
    (TickChain.Named entry (.cetus skiplist center))
  have parsed (pages : List (List DynamicFieldInfo)) (listed : reads.dynamicFields skiplist = .ok pages) :
      (pages.flatten.filterMap fun info => info.name.jsonU128.map fun s => (asU64 s,info.objectId)).Perm
        ((chain.table.ticks.filter (TickChain.Named entry (.cetus skiplist center))).map fun tick =>
          (score tick.1,chain.node tick.1)) := by
    refine filterMap_listed (lists pages listed) (fun tick => Option.isSome_map) fun tick member node found => ?_
    obtain ⟨-,same,named,-⟩ := outcomes tick member
    obtain ⟨s,name,rfl⟩ := Option.map_eq_some_iff.mp found
    rw [named s name,same]
  have selected : chain.selected entry window (.cetus skiplist center) = _ := TickChain.selected_cetus
  rw [loadWindow_read returns increasing parsed ran,← selected,filterMap_somes (g := Prod.snd)]
  · exact byPrice_rising (TickChain.kept_rising _)
  · intro tick member value decoded
    exact (outcomes tick (TickChain.selected_listed member).1).2.2.2 value decoded

theorem TurbosTicks.loadWindow_kept {pool : ObjectId} {sqrt : U128} {center : I32}
    (reports : chain.Reports entry scale reads (.turbos pool sqrt center))
    (ran : loadWindow scale reads pool sqrt center window = .ok ticks) :
    ticks = ((chain.selected entry window (.turbos pool sqrt center)).filter
      (chain.Decoded (.turbos pool sqrt center))).map Prod.snd := by
  obtain ⟨returns,lists,outcomes⟩ := reports
  have increasing := chain.table.increasing.filter (TickChain.Named entry (.turbos pool sqrt center))
  have parsed (pages : List (List DynamicFieldInfo)) (listed : reads.dynamicFields pool = .ok pages) :
      ((pages.flatten.filter fun info => "::pool::Tick".toList.isSuffixOf info.objectType.toList).filterMap
        fun info => info.name.bits.map fun idx => (asI32 (wrap 32 idx.val),info.objectId)).Perm
        ((chain.table.ticks.filter (TickChain.Named entry (.turbos pool sqrt center))).map fun tick =>
          (tick.1,chain.node tick.1)) := by
    refine filterMap_listed (lists pages listed) (fun tick => Option.isSome_map) fun tick member node found => ?_
    obtain ⟨-,same,named,-⟩ := outcomes tick member
    obtain ⟨idx,name,rfl⟩ := Option.map_eq_some_iff.mp found
    rw [named idx name,same]
  have selected : chain.selected entry window (.turbos pool sqrt center) = SortedWindow.window Prod.fst
      (chain.table.ticks.filter (TickChain.Named entry (.turbos pool sqrt center))) center window := rfl
  rw [loadWindow_read returns increasing parsed ran,← selected,filterMap_somes (g := Prod.snd)]
  · simp only [Option.isSome_map]
    exact byPrice_rising (TickChain.kept_rising _)
  · intro tick member value decoded
    obtain ⟨priced,-,-,read⟩ := outcomes tick (TickChain.selected_listed member).1
    obtain ⟨net,found,rfl⟩ := Option.map_eq_some_iff.mp decoded
    simp only [priced,read net found]

theorem Indexer.loadTicksFor_kept {config : Indexer.IndexerConfig} (reports : chain.Reports entry scale reads src)
    (ran : Indexer.loadTicksFor scale config reads src = .ok ticks) :
    ticks = ((chain.selected entry config.maxTicks src).filter (chain.Decoded src)).map Prod.snd := by
  cases src with
  | cetus skiplist center => exact CetusTicks.loadWindow_kept reports ran
  | turbos pool sqrt center => exact TurbosTicks.loadWindow_kept reports ran

/-- A loaded window is a run of the pool's ticks without holes exactly where no node between
two that it reads is lost. -/
theorem Indexer.loaded_contiguous_iff {config : Indexer.IndexerConfig} (reports : chain.Reports entry scale reads src)
    (ran : Indexer.loadTicksFor scale config reads src = .ok ticks) :
    chain.table.Contiguous ticks ↔ chain.NoLoss entry config.maxTicks src := by
  obtain rfl := Indexer.loadTicksFor_kept reports ran
  constructor
  · intro contiguous lost listed missing low lowChosen lowRead high highChosen highRead above below
    have lowListed := (TickChain.selected_listed lowChosen).1
    have highListed := (TickChain.selected_listed highChosen).1
    have there := contiguous lost.2 (List.mem_map_of_mem listed)
      low.2 (List.mem_map_of_mem (List.mem_filter.mpr ⟨lowChosen,lowRead⟩))
      high.2 (List.mem_map_of_mem (List.mem_filter.mpr ⟨highChosen,highRead⟩))
      ((TickTable.order_iff lowListed listed).mp above) ((TickTable.order_iff listed highListed).mp below)
    obtain ⟨kept,member,same⟩ := List.mem_map.mp there
    obtain ⟨chosen,isRead⟩ := List.mem_filter.mp member
    obtain ⟨keptListed,isNamed⟩ := TickChain.selected_listed chosen
    obtain rfl := TickTable.tick_inj keptListed listed same
    exact missing ⟨isNamed,isRead⟩
  · intro noLoss tick inTable low lowKept high highKept above below
    obtain ⟨tick,listed,rfl⟩ := List.mem_map.mp inTable
    obtain ⟨low,lowFound,rfl⟩ := List.mem_map.mp lowKept
    obtain ⟨high,highFound,rfl⟩ := List.mem_map.mp highKept
    obtain ⟨lowChosen,lowRead⟩ := List.mem_filter.mp lowFound
    obtain ⟨highChosen,highRead⟩ := List.mem_filter.mp highFound
    have after := (TickTable.order_iff (TickChain.selected_listed lowChosen).1 listed).mpr above
    have before := (TickTable.order_iff listed (TickChain.selected_listed highChosen).1).mpr below
    by_cases kept : TickChain.Named entry src tick = true ∧ chain.Decoded src tick = true
    · refine List.mem_map_of_mem ?_
      exact kept_between chain.table.increasing TickChain.selected_part listed kept.1 kept.2 lowFound highFound after before
    · exact absurd before (noLoss tick listed kept low lowChosen lowRead high highChosen highRead after)

end load

namespace Indexer.Venue

def entry (index : I32) : DynamicFieldInfo := ⟨digits (CetusTicks.score index).val,node index,"::tick::Tick"⟩

/-- The chain seen through replies in which the node of one tick is missing. -/
def without (index : I32) : TickChain := ⟨table,node,fun oid => if oid = node index then ⟨none⟩ else content oid⟩

def readsWithout (index : I32) : TickReads := ⟨tickReads.dynamicFields,fun oids => .ok (oids.map (without index).content)⟩

theorem entry_named : ∀ tick ∈ table.ticks,
    (entry tick.1).name.jsonU128.map asU64 = some (CetusTicks.score tick.1) := by decide +kernel

theorem reports_without (index : I32) (skiplist : ObjectId) (center : U64) :
    (without index).Reports entry (fun price _ => price) (readsWithout index) (.cetus skiplist center) := by
  obtain ⟨-,-,decodes⟩ := answers (fun price _ => price) skiplist center
  refine ⟨?_,?_,?_⟩
  · intro ids responses answered
    exact (Except.ok.inj answered).symm
  · intro pages listed
    obtain rfl := Except.ok.inj listed
    exact List.Perm.of_eq (List.append_nil _)
  · intro tick listed
    obtain ⟨scored,decoded⟩ := decodes tick listed
    refine ⟨scored,rfl,?_,?_⟩
    · intro s name
      have named := entry_named tick listed
      rw [name] at named
      exact Option.some.inj named
    · intro read found
      simp only [without] at found
      split at found
      · cases found
      · exact Option.some.inj (found.symm.trans decoded)

/-- A node missing at the end of the window leaves it whole. -/
theorem contiguous_end : ∃ ticks, ticks.length = 4 ∧
    loadTicksFor (fun price _ => price) (config true 5) (readsWithout (asI32 (wrap 32 2000))) (.cetus (id 20) 0) = .ok ticks ∧
    table.Contiguous ticks := by
  have ran : loadTicksFor (fun price _ => price) (config true 5) (readsWithout (asI32 (wrap 32 2000)))
      (.cetus (id 20) 0) = .ok ((table.ticks.take 4).map Prod.snd) := by decide +kernel
  have reports := reports_without (asI32 (wrap 32 2000)) (id 20) 0
  exact ⟨_,rfl,ran,(loaded_contiguous_iff reports ran).mpr (by decide +kernel)⟩

/-- A node missing inside it leaves a hole. -/
theorem loaded_hole : ¬ ∀ (chain : TickChain) (entry : I32 → DynamicFieldInfo) (scale : U128 → ℤ → U128) (reads : TickReads)
    (src : TickSrc) (config : IndexerConfig) (ticks : List TickBoundary), chain.Reports entry scale reads src →
      loadTicksFor scale config reads src = .ok ticks → chain.table.Contiguous ticks := by
  intro claimed
  have ran : loadTicksFor (fun price _ => price) (config true 5) (readsWithout (asI32 0)) (.cetus (id 20) 0) =
      .ok [(tick (-2000) 16691387729992146528 1000000000000).2,(tick (-1000) 17547129613991598781 1000000000000).2,
        (tick 1000 19392480388906836277 (-1000000000000)).2,(tick 2000 20386703156472572688 (-2000000000000)).2] := by
    decide +kernel
  have contiguous := claimed _ _ _ _ _ _ _ (reports_without (asI32 0) (id 20) 0) ran
  have there := contiguous (tick 0 18446744073709551616 1000000000000).2 (by decide)
    (tick (-1000) 17547129613991598781 1000000000000).2 (by decide) (tick 1000 19392480388906836277 (-1000000000000)).2
    (by decide) (by decide) (by decide)
  exact absurd there (by decide)

end Indexer.Venue

end SuiArbitrage.Rust
