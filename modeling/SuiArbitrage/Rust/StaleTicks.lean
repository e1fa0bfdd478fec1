import SuiArbitrage.Rust.Windowed
import SuiArbitrage.Rust.TickRule

/-! Whether ticks from the cache still give the pool's quotes once its price has moved.
They are a part of the pool's ticks without gaps, and so they do, as long as the price has
not passed a tick that was never loaded. -/
namespace SuiArbitrage.Rust
open MachineWord Fallible Clmm
open Move (ObjectId)

section chunks
variable {α β : Type}

theorem go_flatten (n : ℕ) (rest : List α) (chunk : Array α) (chunks : Array (List α)) :
    (List.toChunks.go n rest chunk chunks).flatten = chunks.toList.flatten ++ (chunk.toList ++ rest) := by
  induction rest generalizing chunk chunks with
  | nil => simp [List.toChunks.go]
  | cons item rest ih =>
    rw [List.toChunks.go]
    split <;> simp [ih]

theorem toChunks_flatten (n : ℕ) (items : List α) : (items.toChunks n).flatten = items := by
  unfold List.toChunks
  split
  · rfl
  · simp
  · rw [go_flatten]
    simp

theorem chunks_read {ε : Type} {read : List α → Except ε (List β)} {content : α → β} {n : ℕ} {items : List α}
    {responses : List (List β)} (each : ∀ chunk values, read chunk = .ok values → values = chunk.map content)
    (mapped : (items.toChunks n).mapM read = .ok responses) : responses.flatten = items.map content := by
  rw [mapM_eq_map each mapped,← List.map_flatten,toChunks_flatten]

end chunks

/-- A pool's ticks as the chain has them, each in an object of its own. -/
structure TickChain where
  table : TickTable
  node : I32 → ObjectId
  content : ObjectId → SuiObjectResponse

namespace TickChain
variable (chain : TickChain) (scale : U128 → ℤ → U128) (reads : TickReads)

def Returns : Prop := ∀ ids responses, reads.multiGetObject ids = .ok responses → responses = ids.map chain.content

/-- What the node answers about the ticks that this source asks for, where it answers at
all. The prices of a Turbos pool's ticks, which are computed, are taken to be right. -/
def Answers : Indexer.TickSrc → Prop
  | .cetus skiplist _ => chain.Returns reads ∧
    (∀ pages, reads.dynamicFields skiplist = .ok pages →
      (pages.flatten.filterMap fun info => info.name.jsonU128.map fun s => (asU64 s,info.objectId)).Perm
        (chain.table.ticks.map fun tick => (CetusTicks.score tick.1,chain.node tick.1))) ∧
    ∀ tick ∈ chain.table.ticks, CetusTicks.Scored tick.1 ∧
      CetusTicks.decodeNode (chain.content (chain.node tick.1)) = some tick.2
  | .turbos pool sqrt current => chain.Returns reads ∧
    (∀ pages, reads.dynamicFields pool = .ok pages →
      ((pages.flatten.filter fun info => "::pool::Tick".toList.isSuffixOf info.objectType.toList).filterMap fun info =>
        info.name.bits.map fun idx => (asI32 (wrap 32 idx.val),info.objectId)).Perm
        (chain.table.ticks.map fun tick => (tick.1,chain.node tick.1))) ∧
    ∀ tick ∈ chain.table.ticks, TurbosTicks.sqrtPriceAtTick scale sqrt current tick.1 = tick.2.sqrtPrice ∧
      TurbosTicks.decodeLiquidityNet (chain.content (chain.node tick.1)) = some tick.2.liquidityNet

end TickChain

theorem byPrice_rising {ticks : List TickBoundary} (rising : Rising ticks) : byPrice ticks = ticks :=
  (rising.imp le_of_lt).insertionSort_eq

section load
variable {chain : TickChain} {scale : U128 → ℤ → U128} {reads : TickReads} {window : ℕ} {ticks : List TickBoundary}

theorem TickChain.window_rising {κ : Type} [LinearOrder κ] (key : I32 × TickBoundary → κ) (center : κ) :
    Rising ((SortedWindow.window key chain.table.ticks center window).map Prod.snd) :=
  chain.table.rising.sublist ((SortedWindow.window_infix _ center window).sublist.map Prod.snd)

/-- Whatever the order of the pages, the chosen nodes are those of the window of the table. -/
theorem TickChain.chosen_nodes {κ : Type} [LinearOrder κ] {key : I32 × TickBoundary → κ} {items : List (I32 × TickBoundary)}
    {nodes : List (κ × ObjectId)} (increasing : items.Pairwise (key · < key ·))
    (listing : nodes.Perm (items.map fun tick => (key tick,chain.node tick.1))) (center : κ) (window : ℕ) :
    SortedWindow.window Prod.fst (nodes.insertionSort fun first second => first.1 ≤ second.1) center window =
      (SortedWindow.window key items center window).map fun tick => (key tick,chain.node tick.1) := by
  have sorted := SortedWindow.insertionSort_of_perm Prod.fst (List.pairwise_map.mpr increasing) listing
  rw [sorted,SortedWindow.window_map]
  rfl

section reads
variable {items : List (I32 × TickBoundary)}

/-- The boundaries that a load returns are decoded from the nodes of the window. -/
theorem CetusTicks.loadWindow_read {skiplist : ObjectId} {center : U64} (returns : chain.Returns reads)
    (increasing : items.Pairwise fun first second => score first.1 < score second.1)
    (listing : ∀ pages, reads.dynamicFields skiplist = .ok pages →
      (pages.flatten.filterMap fun info => info.name.jsonU128.map fun s => (asU64 s,info.objectId)).Perm
        (items.map fun tick => (score tick.1,chain.node tick.1)))
    (ran : loadWindow reads skiplist center window = .ok ticks) :
    ticks = byPrice ((SortedWindow.window (fun tick => score tick.1) items center window).filterMap
      fun tick => decodeNode (chain.content (chain.node tick.1))) := by
  simp only [loadWindow,bind_ok] at ran
  obtain ⟨pages,listed,ran⟩ := ran
  have listing := listing pages listed
  generalize (pages.flatten.filterMap fun info => info.name.jsonU128.map fun s => (asU64 s,info.objectId)) = nodes at listing ran
  split at ran
  next empty =>
    rw [empty] at listing
    rw [List.map_eq_nil_iff.mp listing.nil_eq.symm]
    exact (Except.ok.inj ran).symm
  next =>
    simp only [bind_ok,pure_ok] at ran
    obtain ⟨responses,read,rfl⟩ := ran
    rw [chunks_read returns read,selectWindow,TickChain.chosen_nodes increasing listing center window,List.map_map,
      List.map_map,List.filterMap_map]
    rfl

theorem TurbosTicks.zipped (returns : chain.Returns reads) (chunk : List (I32 × ObjectId))
    (values : List ((I32 × ObjectId) × SuiObjectResponse))
    (read : (do return chunk.zip (← reads.multiGetObject (chunk.map Prod.snd))) = Except.ok values) :
    values = chunk.map fun node => (node,chain.content node.2) := by
  simp only [bind_ok,pure_ok] at read
  obtain ⟨responses,read,rfl⟩ := read
  rw [returns _ _ read,List.map_map,← List.map_prod_left_eq_zip]
  rfl

theorem TurbosTicks.loadWindow_read {pool : ObjectId} {sqrt : U128} {center : I32} (returns : chain.Returns reads)
    (increasing : items.Pairwise fun first second => first.1 < second.1)
    (listing : ∀ pages, reads.dynamicFields pool = .ok pages →
      ((pages.flatten.filter fun info => "::pool::Tick".toList.isSuffixOf info.objectType.toList).filterMap fun info =>
        info.name.bits.map fun idx => (asI32 (wrap 32 idx.val),info.objectId)).Perm
        (items.map fun tick => (tick.1,chain.node tick.1)))
    (ran : loadWindow scale reads pool sqrt center window = .ok ticks) :
    ticks = byPrice ((SortedWindow.window Prod.fst items center window).filterMap fun tick =>
      (decodeLiquidityNet (chain.content (chain.node tick.1))).map fun net => ⟨sqrtPriceAtTick scale sqrt center tick.1,net⟩) := by
  simp only [loadWindow,bind_ok] at ran
  obtain ⟨pages,listed,ran⟩ := ran
  have listing := listing pages listed
  generalize ((pages.flatten.filter fun info => "::pool::Tick".toList.isSuffixOf info.objectType.toList).filterMap
    fun info => info.name.bits.map fun idx => (asI32 (wrap 32 idx.val),info.objectId)) = nodes at listing ran
  split at ran
  next empty =>
    rw [empty] at listing
    rw [List.map_eq_nil_iff.mp listing.nil_eq.symm]
    exact (Except.ok.inj ran).symm
  next =>
    simp only [bind_ok,pure_ok] at ran
    obtain ⟨responses,read,rfl⟩ := ran
    have chosen : SortedWindow.window Prod.fst (nodes.insertionSort fun first second => first.1.val ≤ second.1.val) center
        window = _ := TickChain.chosen_nodes increasing listing center window
    rw [chunks_read (zipped returns) read,selectWindow,chosen,List.map_map,List.filterMap_map]
    rfl

end reads

theorem CetusTicks.loadWindow_window {skiplist : ObjectId} {center : U64}
    (answers : chain.Answers scale reads (.cetus skiplist center))
    (ran : loadWindow reads skiplist center window = .ok ticks) :
    ticks = (SortedWindow.window (fun tick => score tick.1) chain.table.ticks center window).map Prod.snd := by
  obtain ⟨returns,lists,decodes⟩ := answers
  have increasing := TickTable.scores_increasing fun tick listed => (decodes tick listed).1
  rw [loadWindow_read returns increasing lists ran,List.filterMap_congr (g := fun tick => some tick.2),
    List.filterMap_eq_map',byPrice_rising]
  · exact TickChain.window_rising _ _
  · intro tick member
    exact (decodes tick ((SortedWindow.window_infix _ _ _).mem member)).2

theorem TurbosTicks.loadWindow_window {pool : ObjectId} {sqrt : U128} {center : I32}
    (answers : chain.Answers scale reads (.turbos pool sqrt center))
    (ran : loadWindow scale reads pool sqrt center window = .ok ticks) :
    ticks = (SortedWindow.window Prod.fst chain.table.ticks center window).map Prod.snd := by
  obtain ⟨returns,lists,decodes⟩ := answers
  rw [loadWindow_read returns chain.table.increasing lists ran,List.filterMap_congr (g := fun tick => some tick.2),
    List.filterMap_eq_map',byPrice_rising]
  · exact TickChain.window_rising _ _
  · intro tick member
    obtain ⟨priced,decoded⟩ := decodes tick ((SortedWindow.window_infix _ _ _).mem member)
    simp only [decoded,priced,Option.map_some]

end load

namespace Indexer
open Executor (LivePoolRef)

section run
variable {build : Build} {sdk : Sdk} {scale : U128 → ℤ → U128} {config : IndexerConfig} {dexes : List String}
  {chain : TickChain} {pool : PoolId}

theorem fetchTicks_infix {reads : SyncReads} {src : TickSrc} {ticks : List TickBoundary}
    (answers : ∀ attempt, chain.Answers scale (reads.ticks pool attempt) src)
    (ran : fetchTicks scale config reads pool src = .ok ticks) : ticks <:+: chain.table.full := by
  obtain ⟨attempt,ran⟩ := retry_ok ran
  cases src with
  | cetus skiplist center =>
    rw [CetusTicks.loadWindow_window (answers attempt) ran]
    exact (SortedWindow.window_infix _ _ _).map _
  | turbos object sqrt current =>
    rw [TurbosTicks.loadWindow_window (answers attempt) ran]
    exact (SortedWindow.window_infix _ _ _).map _

variable (sdk scale config dexes chain pool) in
/-- In this refresh the node tells the truth about the pool's ticks. -/
def Truthful (r : Refresh) : Prop :=
  ∀ adapter, (buildAdapters sdk dexes)[r.adapter]? = some adapter →
    ∀ ids, ∀ kept ∈ keptPools sdk config adapter r.reads ids, kept.state.id = pool → ∀ src, kept.src = some src → ∀ attempt, chain.Answers scale (r.reads.ticks pool attempt) src

/-- The ticks of the pool, in the tick cache and in the cache that the scanner reads, are
parts of its full table without gaps. -/
structure Gapless (full : List TickBoundary) (pool : PoolId) (graph : Graph) : Prop where
  cached : ∀ ticks, graph.tickCache pool = some ticks → ticks <:+: full
  quoted : ∀ state c, graph.cache pool = some state → state.kind = .clmm c → c.ticks <:+: full

theorem injectTicks_clmm {state : PoolState} {ticks : List TickBoundary} {c : ClmmState}
    (kind : (injectTicks state ticks).kind = .clmm c) : c.ticks = ticks := by
  unfold injectTicks at kind
  split at kind
  next => exact (congrArg ClmmState.ticks (PoolKind.clmm.inj kind)).symm
  next other =>
    rw [other] at kind
    cases kind

section step
variable {full : List TickBoundary}

theorem initial_gapless (full : List TickBoundary) (pool : PoolId) : Gapless full pool .initial := by
  constructor
  · intro ticks cached
    cases cached
  · intro state c cached
    cases cached

theorem ingest_gapless {adapter : PoolAdapter} {reads : SyncReads} {refetchTicks : Bool} {ids : List String}
    {tickCache after : TickCache} {upserted : List Loaded} (listed : adapter ∈ buildAdapters sdk dexes)
    (loads : ∀ kept ∈ keptPools sdk config adapter reads ids, kept.state.id = pool → ∀ src ticks, kept.src = some src →
      fetchTicks scale config reads pool src = .ok ticks → ticks <:+: full)
    (cached : ∀ ticks, tickCache pool = some ticks → ticks <:+: full)
    (ran : ingest build sdk scale config adapter reads refetchTicks ids tickCache = .ok (after,upserted)) :
    (∀ ticks, after pool = some ticks → ticks <:+: full) ∧
      ∀ l ∈ upserted, l.state.id = pool → ∀ c, l.state.kind = .clmm c → c.ticks <:+: full := by
  have account := ingest_accounts (fun mid => ∀ ticks, mid pool = some ticks → ticks <:+: full) ?_ cached ran
  · refine ⟨account.inv,fun l member mine c kind => ?_⟩
    obtain ⟨kept,known,mid,next,held,way⟩ := account.source l member
    rw [way.id] at mine
    cases way with
    | unsourced absent =>
      obtain ⟨-,-,obj,-,-,taken⟩ := mem_keptPools known
      have bare := buildAdapters_bare listed (keep_some taken).1
      have none : c.ticks = [] := by
        by_contra some_tick
        refine bare fun c' kind' => ?_
        rw [show kept.state.kind = .clmm c from kind] at kind'
        exact PoolKind.clmm.inj kind' ▸ some_tick
      rw [none]
      exact List.nil_infix
    | reused sourced found =>
      rw [injectTicks_clmm kind]
      exact held _ (mine ▸ found)
    | fetched sourced some_tick read =>
      rw [injectTicks_clmm kind]
      exact loads kept known mine _ _ sourced (mine ▸ read)
  · intro kept known mid next result held way
    cases way with
    | unsourced absent => exact held
    | reused sourced found => exact held
    | dropped sourced uncached unread => exact held
    | fetched sourced some_tick read =>
      intro ticks found
      by_cases mine : pool = kept.state.id
      · subst mine
        rw [Function.update_self] at found
        obtain rfl := Option.some.inj found
        exact loads kept known rfl _ _ sourced read
      · rw [Function.update_of_ne mine] at found
        exact held ticks found

theorem refresh_gapless {graph after : Graph} {r : Refresh} (truthful : Truthful sdk scale config dexes chain pool r)
    (gapless : Gapless chain.table.full pool graph)
    (ran : refresh build sdk scale config (buildAdapters sdk dexes) graph r = .ok after) :
    Gapless chain.table.full pool after := by
  obtain ⟨-,rfl⟩ | ⟨adapter,ids,refetchTicks,tickCache,upserted,-,present,ingested,rfl⟩ := refresh_ok ran
  · constructor
    · rw [discover_tickCache]
      exact gapless.cached
    · rw [discover_cache]
      exact gapless.quoted
  · obtain ⟨cached,fresh⟩ := ingest_gapless (List.mem_of_getElem? present)
      (fun kept known mine src ticks sourced read =>
        fetchTicks_infix (truthful adapter present ids kept known mine src sourced) read)
      gapless.cached ingested
    constructor
    · rw [installActiveSet_tickCache,upserts_tickCache]
      exact cached
    · intro state c held kind
      rcases upserts_cache (installActiveSet_cache held) with before | ⟨l,listed,rfl,mine⟩
      · have before : (discover (buildAdapters sdk dexes) graph r).cache pool = some state := before
        rw [discover_cache] at before
        exact gapless.quoted state c before kind
      · exact fresh l listed mine c kind

/-- No tick that is missing below the given ones lies above the price, and none that is
missing above them lies below it. -/
def Adjoins (full ticks : List TickBoundary) (price : SqrtPriceX64) : Prop :=
  ∀ tick ∈ full, ((∀ kept ∈ ticks, tick.sqrtPrice < kept.sqrtPrice) → tick.sqrtPrice ≤ price) ∧
    ((∀ kept ∈ ticks, kept.sqrtPrice < tick.sqrtPrice) → price ≤ tick.sqrtPrice)

instance (full ticks : List TickBoundary) (price : SqrtPriceX64) : Decidable (Adjoins full ticks price) :=
  inferInstanceAs (Decidable (∀ tick ∈ full, ((∀ kept ∈ ticks, tick.sqrtPrice < kept.sqrtPrice) → tick.sqrtPrice ≤ price) ∧
    ((∀ kept ∈ ticks, kept.sqrtPrice < tick.sqrtPrice) → price ≤ tick.sqrtPrice)))

theorem quoteExactIn_infix {c : ClmmState} (rising : Rising full) (part : c.ticks <:+: full) (some_tick : c.ticks ≠ [])
    (adjoins : Adjoins full c.ticks c.sqrtPrice) {amountIn x : U64} {aToB : Bool}
    (quoted : quoteExactIn build c amountIn aToB = .ok (some x)) :
    quoteExactIn build {c with ticks := full} amountIn aToB = .ok (some x) := by
  obtain ⟨left,right,rfl⟩ := part
  rw [List.append_assoc] at rising adjoins ⊢
  obtain ⟨-,-,apart⟩ := List.pairwise_append.mp rising
  obtain ⟨-,-,behind⟩ := List.pairwise_append.mp (List.pairwise_append.mp rising).2.1
  refine quoteExactIn_loaded rising some_tick ?_ ?_ quoted
  · intro tick member
    refine (adjoins tick (List.mem_append_left _ member)).1 fun kept loaded => ?_
    exact apart tick member kept (List.mem_append_left _ loaded)
  · intro tick member
    refine (adjoins tick (List.mem_append_right _ (List.mem_append_right _ member))).2 fun kept loaded => ?_
    exact behind kept loaded tick member

/-- In every run whose node tells the truth about the pool's ticks, which do not change,
whatever is quoted from a cached state with ticks is what the full table quotes, as long
as the price of the state has not passed a tick beyond the ends of those it has. -/
theorem cached_quote (build : Build) (sdk : Sdk) (scale : U128 → ℤ → U128) (config : IndexerConfig)
    (dexes : List String) (chain : TickChain) (pool : PoolId) (refreshes : List Refresh)
    (truthful : ∀ r ∈ refreshes, Truthful sdk scale config dexes chain pool r) :
    ∀ before r after, Takes (refresh build sdk scale config (buildAdapters sdk dexes)) .initial refreshes before r after →
      ∀ state c, after.cache pool = some state → state.kind = .clmm c → c.ticks ≠ [] →
        Adjoins chain.table.full c.ticks c.sqrtPrice →
          ∀ amountIn aToB x, quoteExactIn build c amountIn aToB = .ok (some x) →
            quoteExactIn build {c with ticks := chain.table.full} amountIn aToB = .ok (some x) := by
  intro before r after taken state c held kind some_tick adjoins amountIn aToB x quoted
  have gapless : Gapless chain.table.full pool before :=
    takes_invariant _ _ (initial_gapless _ _) (fun _ r _ listed held ran => refresh_gapless (truthful r listed) held ran) taken
  have now := refresh_gapless (truthful r (taken.mem _)) gapless (taken.moved _)
  exact quoteExactIn_infix chain.table.rising (now.quoted state c held kind) some_tick adjoins quoted

end step

end run

theorem tickSource_cetus {sdk : Sdk} {obj : SuiObjectResponse} {lref : LivePoolRef} {state : PoolState} {src : TickSrc}
    (found : tickSource sdk .cetus obj lref state = some src) : ∃ skiplist center, src = .cetus skiplist center := by
  obtain ⟨skiplist,-,found⟩ := Option.bind_eq_some_iff.mp found
  obtain ⟨center,-,found⟩ := Option.bind_eq_some_iff.mp found
  exact ⟨skiplist,center,(Option.some.inj found).symm⟩

namespace Venue

def tick (index : ℤ) (sqrtPrice : SqrtPriceX64) (net : ℤ) : I32 × TickBoundary :=
  (asI32 (wrap 32 index),⟨sqrtPrice,asI128 (wrap 128 net)⟩)

/-- Ticks a thousand indices apart. -/
def table : TickTable where
  ticks := [tick (-2000) 16691387729992146528 1000000000000,tick (-1000) 17547129613991598781 1000000000000,
    tick 0 18446744073709551616 1000000000000,tick 1000 19392480388906836277 (-1000000000000),
    tick 2000 20386703156472572688 (-2000000000000)]
  increasing := by decide
  rising := by decide

def node (index : I32) : ObjectId := id ((index.val + 2000).toNat / 1000)

def content (oid : ObjectId) : SuiObjectResponse :=
  match table.ticks.find? fun tick => node tick.1 = oid with
  | some tick => ⟨some ⟨oid,1,none,some (.moveObject (.object [("sqrt_price",digits tick.2.sqrtPrice.val),
      ("liquidity_net",.object [("bits",digits (wrap 128 tick.2.liquidityNet.val).val)])]))⟩⟩
  | none => ⟨none⟩

def chain : TickChain := ⟨table,node,content⟩

def tickReads : TickReads where
  dynamicFields _ := .ok [table.ticks.map fun tick => ⟨digits (CetusTicks.score tick.1).val,node tick.1,"::tick::Tick"⟩]
  multiGetObject oids := .ok (oids.map content)

/-- The pool is discovered below tick -1000 and refreshed once its price has moved. -/
def moved (sqrtPrice liquidity : String) (current : ℤ) : List Refresh :=
  [⟨0,.discovery (some [id 10]),reads (fun oids => .ok (oids.map (poolAt "17113910831121015348" "1000000000000" (-1500))))
      fun _ _ => tickReads⟩,
    ⟨0,.fast,reads (fun oids => .ok (oids.map (poolAt sqrtPrice liquidity current))) fun _ _ => tickReads⟩]

theorem answers (scale : U128 → ℤ → U128) (skiplist : ObjectId) (center : U64) :
    chain.Answers scale tickReads (.cetus skiplist center) := by
  refine ⟨?_,?_,by decide +kernel⟩
  · intro ids responses answered
    exact (Except.ok.inj answered).symm
  · intro pages listed
    obtain rfl := Except.ok.inj listed
    exact List.Perm.of_eq (by decide +kernel)

theorem moved_truthful (sqrtPrice liquidity : String) (current : ℤ) (window : ℕ) (pool : PoolId) :
    ∀ r ∈ moved sqrtPrice liquidity current,
      Truthful sdk (fun price _ => price) (config true window) ["cetus"] chain pool r := by
  intro r listed adapter present ids kept known mine src sourced attempt
  have only : adapter ∈ adapters := List.mem_of_getElem? present
  rw [adapters_eq] at only
  obtain rfl := List.mem_singleton.mp only
  obtain ⟨-,-,obj,-,-,taken⟩ := mem_keptPools known
  rw [(keep_some taken).2] at sourced
  obtain ⟨skiplist,center,rfl⟩ := tickSource_cetus (Option.ite_none_right_eq_some.mp sourced).2
  rcases List.mem_pair.mp listed with rfl | rfl
  · exact answers _ skiplist center
  · exact answers _ skiplist center

/-- What the refresh leaves of the pool, with a window of so many ticks from the discovery. -/
def refreshed (sqrtPrice liquidity : String) (current : ℤ) (window : ℕ) : Rust (Option PoolState) :=
  (run .debug sdk (fun price _ => price) (config true window) adapters .initial (moved sqrtPrice liquidity current)).map
    fun graph => graph.cache (id 10)

def movedState (sqrtPrice : SqrtPriceX64) (liquidity : Liquidity) (window : ℕ) : ClmmState :=
  ⟨sqrtPrice,liquidity,2500,(table.ticks.take window).map Prod.snd⟩

/-- After a small move the four ticks that were loaded still tell what a swap across tick
-1000 pays out. -/
theorem cached_quote_near :
    let c := movedState 17372541442796994609 1000000000000 4
    refreshed "17372541442796994609" "1000000000000" (-1200) 4 =
      .ok (some (.clmm (id 10) .cetus "0x2::sui::SUI" "0x5::usdc::USDC" c)) ∧
    Adjoins chain.table.full c.ticks c.sqrtPrice ∧ quoteExactIn .debug c 15000000000 false = .ok (some 16623644805) ∧
    quoteExactIn .debug {c with ticks := chain.table.full} 15000000000 false = .ok (some 16623644805) := by
  intro c
  have cached : refreshed "17372541442796994609" "1000000000000" (-1200) 4 =
      .ok (some (.clmm (id 10) .cetus "0x2::sui::SUI" "0x5::usdc::USDC" c)) := by decide +kernel
  have adjoins : Adjoins chain.table.full c.ticks c.sqrtPrice := by decide +kernel
  have quoted : quoteExactIn .debug c 15000000000 false = .ok (some 16623644805) := by decide +kernel
  obtain ⟨final,ran,held⟩ := map_ok.mp cached
  refine ⟨cached,adjoins,quoted,?_⟩
  have always := cached_quote .debug sdk (fun price _ => price) (config true 4) ["cetus"] chain (id 10)
    (moved "17372541442796994609" "1000000000000" (-1200)) (moved_truthful _ _ _ _ _)
  have told := takes_final _ (by intro state c missing; cases missing) always ran _ c held rfl (List.cons_ne_nil _ _)
  exact told adjoins 15000000000 false _ quoted

/-- Once the price is above tick 0, which was not loaded, the cached window misquotes. -/
theorem cached_misquote :
    (∀ r ∈ moved "18913701982652573318" "3000000000000" 500,
      Truthful sdk (fun price _ => price) (config true 2) ["cetus"] chain (id 10) r) ∧
    ¬ ∀ before r after, Takes (refresh .debug sdk (fun price _ => price) (config true 2) adapters) .initial
      (moved "18913701982652573318" "3000000000000" 500) before r after →
      ∀ state c, after.cache (id 10) = some state → state.kind = .clmm c → c.ticks ≠ [] →
        ∀ amountIn aToB x, quoteExactIn .debug c amountIn aToB = .ok (some x) →
          quoteExactIn .debug {c with ticks := chain.table.full} amountIn aToB = .ok (some x) := by
  refine ⟨moved_truthful _ _ _ _ _,fun always => ?_⟩
  let c := movedState 18913701982652573318 3000000000000 2
  have cached : refreshed "18913701982652573318" "3000000000000" 500 2 =
      .ok (some (.clmm (id 10) .cetus "0x2::sui::SUI" "0x5::usdc::USDC" c)) := by decide +kernel
  have quoted : quoteExactIn .debug c 90000000000 true = .ok (some 91568087384) := by decide +kernel
  have right : quoteExactIn .debug {c with ticks := chain.table.full} 90000000000 true = .ok (some 91527494818) := by
    decide +kernel
  obtain ⟨final,ran,held⟩ := map_ok.mp cached
  have same := takes_final _ (by intro state c missing; cases missing) always ran _ c held rfl (List.cons_ne_nil _ _)
    90000000000 true _ quoted
  have same := Option.some.inj (Except.ok.inj (same.symm.trans right))
  exact absurd same (by decide)

end Venue

end Indexer

end SuiArbitrage.Rust
