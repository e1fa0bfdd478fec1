import SuiArbitrage.Rust.Refresh

/-! The rule that the indexer never falls back to empty ticks. Tick ingestion drops a
pool without ticks only when its tick source was read from its object. -/
namespace SuiArbitrage.Rust.Indexer
open MachineWord Fallible Clmm
open Move (ObjectId)
open Executor (LivePoolRef)

def Ticked (state : PoolState) : Prop := ∀ c, state.kind = .clmm c → c.ticks ≠ []

def Stocked (tickCache : TickCache) : Prop := ∀ id, tickCache id ≠ some []

theorem ticked_injectTicks {state : PoolState} {ticks : List TickBoundary} (some_tick : ticks ≠ []) :
    Ticked (injectTicks state ticks) := by
  intro c kind
  unfold injectTicks at kind
  split at kind
  next => exact PoolKind.clmm.inj kind ▸ some_tick
  next kind' =>
    rw [kind'] at kind
    cases kind

theorem decodePool_bare {sdk : Sdk} {dex : Dex} {obj : SuiObjectResponse} {state : PoolState} {lref : LivePoolRef}
    (decoded : Ws.decodePool sdk dex obj = .ok (state,lref)) : ¬ Ticked state := by
  simp only [Ws.decodePool,bind_ok,pure_ok,Prod.mk.injEq] at decoded
  obtain ⟨_,-,_,-,_,-,_,-,_,-,_,-,_,-,_,-,_,-,rfl,-⟩ := decoded
  exact fun ticked => ticked _ rfl rfl

theorem mem_buildAdapters {sdk : Sdk} {dexes : List String} {adapter : PoolAdapter}
    (listed : adapter ∈ buildAdapters sdk dexes) :
    adapter = cetusAdapter sdk ∨ adapter = turbosAdapter sdk ∨ adapter = deepBookAdapter := by
  unfold buildAdapters at listed
  obtain ⟨d,-,built⟩ := List.mem_filterMap.mp listed
  dsimp only at built
  generalize (trim d).map Char.toLower = name at built
  split at built
  · exact .inl (Option.some.inj built).symm
  · split at built
    · exact .inr (.inl (Option.some.inj built).symm)
    · obtain ⟨-,made⟩ := Option.ite_none_right_eq_some.mp built
      exact .inr (.inr (Option.some.inj made).symm)

theorem buildAdapters_bare {sdk : Sdk} {dexes : List String} {adapter : PoolAdapter}
    (listed : adapter ∈ buildAdapters sdk dexes) {obj : SuiObjectResponse} {state : PoolState} {lref : LivePoolRef}
    (decoded : adapter.decode obj = .ok (state,lref)) : ¬ Ticked state := by
  rcases mem_buildAdapters listed with rfl | rfl | rfl
  · have decoded : Ws.decodePool sdk .cetus obj = .ok (state,lref) := decoded
    exact decodePool_bare decoded
  · have decoded : Ws.decodePool sdk .turbos obj = .ok (state,lref) := decoded
    exact decodePool_bare decoded
  · cases decoded

section refresh
variable {build : Build} {sdk : Sdk} {scale : U128 → ℤ → U128} {config : IndexerConfig} {adapter : PoolAdapter}
  {adapters : List PoolAdapter} {reads : SyncReads} {refetchTicks : Bool} {ids : List String}
  {tickCache after : TickCache} {upserted : List Loaded}

theorem ingested_stocked {pool : KeptPool} {result : Option Loaded} (stocked : Stocked tickCache)
    (way : Ingested scale config reads tickCache pool after result) : Stocked after := by
  intro id
  cases way with
  | fetched sourced some_tick read =>
    by_cases same : id = pool.state.id
    · subst same
      rw [Function.update_self]
      exact fun empty => some_tick (Option.some.inj empty)
    · rw [Function.update_of_ne same]
      exact stocked id
  | unsourced absent => exact stocked id
  | reused sourced cached => exact stocked id
  | dropped sourced uncached unread => exact stocked id

/-- With a source for every kept pool and no empty list in the cache, every way to the
upsert brings ticks. -/
theorem ingest_ticked (stocked : Stocked tickCache)
    (sourced : ∀ pool ∈ keptPools sdk config adapter reads ids, pool.src ≠ none)
    (ran : ingest build sdk scale config adapter reads refetchTicks ids tickCache = .ok (after,upserted)) :
    ∀ l ∈ upserted, Ticked l.state := by
  intro l member
  have account := ingest_accounts Stocked (fun _ _ _ _ _ held way => ingested_stocked held way) stocked ran
  obtain ⟨pool,kept,mid,next,held,way⟩ := account.source l member
  cases way with
  | unsourced absent => exact absurd absent (sourced pool kept)
  | reused origin cached => exact ticked_injectTicks fun empty => held _ (empty ▸ cached)
  | fetched origin some_tick read => exact ticked_injectTicks some_tick

theorem ingest_unsourced {pool : KeptPool} (kept : pool ∈ keptPools sdk config adapter reads ids)
    (absent : pool.src = none)
    (ran : ingest build sdk scale config adapter reads refetchTicks ids tickCache = .ok (after,upserted)) :
    ⟨pool.state,pool.lref⟩ ∈ upserted := by
  have account := ingest_accounts (fun _ => True) (fun _ _ _ _ _ _ _ => trivial) trivial ran
  obtain ⟨mid,next,result,-,way,listed⟩ := account.settled pool kept
  cases way with
  | unsourced => exact listed _ rfl
  | reused sourced | fetched sourced | dropped sourced => exact absurd (sourced.symm.trans absent) (Option.some_ne_none _)

variable (build sdk scale config adapters) in
def upserts (graph : Graph) (r : Refresh) : Rust (List Loaded) :=
  match asked adapters graph r with
  | some (adapter,ids,refetchTicks) =>
    (ingest build sdk scale config adapter r.reads refetchTicks ids graph.tickCache).map Prod.snd
  | none => .ok []

variable (sdk config adapters) in
/-- Every pool that a refresh keeps has a tick source: its skip list and score, or its
current tick, could be read from its object. -/
def Sourced (graph : Graph) (r : Refresh) : Prop :=
  ∀ adapter ids refetchTicks, asked adapters graph r = some (adapter,ids,refetchTicks) →
    ∀ pool ∈ keptPools sdk config adapter r.reads ids, pool.src ≠ none

theorem asked_listed {graph : Graph} {r : Refresh} (request : asked adapters graph r = some (adapter,ids,refetchTicks)) :
    adapter ∈ adapters := by
  obtain ⟨found,present,asks⟩ := Option.bind_eq_some_iff.mp request
  have listed : found ∈ adapters := List.mem_of_getElem? (Option.filter_eq_some_iff.mp present).1
  cases kind : r.kind with
  | discovery found' =>
    rw [kind] at asks
    cases asks
    exact listed
  | fast =>
    rw [kind] at asks
    dsimp only at asks
    split at asks
    · cases asks
    · cases asks
      exact listed

theorem upserts_tickCache (upserted : List Loaded) (graph : Graph) :
    (upserted.foldl Graph.upsert graph).tickCache = graph.tickCache := by
  induction upserted generalizing graph with
  | nil => rfl
  | cons pool rest ih => exact ih (graph.upsert pool)

theorem installActiveSet_tickCache (graph : Graph) (i : ℕ) (new : List PoolId) (whole : Bool) :
    (installActiveSet graph i new whole).tickCache = graph.tickCache := by
  have evicts (out : List PoolId) (graph : Graph) : (out.foldl Graph.evict graph).tickCache = graph.tickCache := by
    induction out generalizing graph with
    | nil => rfl
    | cons id rest ih => exact ih (graph.evict id)
  unfold installActiveSet
  simp only
  split
  · rfl
  · exact evicts _ graph

theorem refresh_stocked {graph final : Graph} {r : Refresh} (stocked : Stocked graph.tickCache)
    (ran : refresh build sdk scale config adapters graph r = .ok final) : Stocked final.tickCache := by
  obtain ⟨-,rfl⟩ | ⟨adapter,ids,refetchTicks,tickCache,upserted,-,-,ingested,rfl⟩ := refresh_ok ran
  · rw [discover_tickCache]
    exact stocked
  · rw [installActiveSet_tickCache,upserts_tickCache]
    exact (ingest_accounts Stocked (fun _ _ _ _ _ held way => ingested_stocked held way) stocked ingested).inv

variable (build sdk scale config adapters) in
def SourcedRun (start : Graph) (refreshes : List Refresh) : Prop :=
  ∀ before r after, Takes (refresh build sdk scale config adapters) start refreshes before r after →
    Sourced sdk config adapters before r

variable (build sdk scale config adapters) in
def TickedRun (start : Graph) (refreshes : List Refresh) : Prop :=
  ∀ before r after, Takes (refresh build sdk scale config adapters) start refreshes before r after →
    ∀ upserted, upserts build sdk scale config adapters before r = .ok upserted → ∀ l ∈ upserted, Ticked l.state

theorem upserts_ok {graph : Graph} {r : Refresh} (ran : upserts build sdk scale config adapters graph r = .ok upserted) :
    (asked adapters graph r = none ∧ upserted = []) ∨
    ∃ adapter ids refetchTicks tickCache, asked adapters graph r = some (adapter,ids,refetchTicks) ∧
      ingest build sdk scale config adapter r.reads refetchTicks ids graph.tickCache = .ok (tickCache,upserted) := by
  unfold upserts at ran
  split at ran
  next adapter ids refetchTicks request =>
    cases ingested : ingest build sdk scale config adapter r.reads refetchTicks ids graph.tickCache with
    | error fault =>
      rw [ingested] at ran
      cases ran
    | ok result =>
      rw [ingested] at ran
      obtain rfl : result.2 = upserted := Except.ok.inj ran
      exact .inr ⟨adapter,ids,refetchTicks,result.1,request,ingested⟩
  next request => exact .inl ⟨request,(Except.ok.inj ran).symm⟩

/-- No concentrated-liquidity pool is upserted without ticks in a run where every kept
pool has a tick source, from a tick cache without empty lists, and only in such a run. -/
theorem upserts_ticked (build : Build) (sdk : Sdk) (scale : U128 → ℤ → U128) (config : IndexerConfig)
    (dexes : List String) (start : Graph) (refreshes : List Refresh) :
    (Stocked start.tickCache ∧ SourcedRun build sdk scale config (buildAdapters sdk dexes) start refreshes →
      TickedRun build sdk scale config (buildAdapters sdk dexes) start refreshes) ∧
    (TickedRun build sdk scale config (buildAdapters sdk dexes) start refreshes →
      SourcedRun build sdk scale config (buildAdapters sdk dexes) start refreshes) := by
  constructor
  · intro ⟨stocked,sourced⟩ before r after taken upserted ran l member
    have held : Stocked before.tickCache :=
      takes_invariant _ (fun graph => Stocked graph.tickCache) stocked (fun _ _ _ _ held moved => refresh_stocked held moved) taken
    obtain ⟨-,rfl⟩ | ⟨adapter,ids,refetchTicks,tickCache,request,ingested⟩ := upserts_ok ran
    · exact absurd member List.not_mem_nil
    · exact ingest_ticked held (sourced before r after taken adapter ids refetchTicks request) ingested l member
  · intro ticked before r after taken adapter ids refetchTicks request pool kept absent
    obtain ⟨unasked,-⟩ | ⟨adapter',_,_,tickCache,upserted,request',present,ingested,-⟩ := refresh_ok (taken.moved _)
    · exact Option.some_ne_none _ (request.symm.trans unasked)
    cases request.symm.trans request'
    obtain ⟨-,-,obj,-,-,taken_in⟩ := mem_keptPools kept
    refine buildAdapters_bare (List.mem_of_getElem? present) (keep_some taken_in).1 ?_
    refine ticked before r after taken upserted ?_ _ (ingest_unsourced kept absent ingested)
    rw [upserts,request]
    simp only [ingested,Except.map]

end refresh

def shownTick : TickReads where
  dynamicFields _ := .ok [[⟨Venue.digits (CetusTicks.score (asI32 (wrap 32 (-1000)))).val,Venue.id 30,"::tick::Tick"⟩]]
  multiGetObject oids := .ok (oids.map fun oid => ⟨some ⟨oid,1,none,some (.moveObject (.object
    [("sqrt_price",Venue.digits 17547129613991598781),("liquidity_net",.object [("bits",Venue.digits 1000000)])]))⟩⟩)

def refusedTicks : TickReads := ⟨fun _ => bail "429",fun _ => bail "429"⟩

def sourcedPool (oid : ObjectId) : SuiObjectResponse := Venue.poolAt "18446744073709551616" "1000000" 0 oid

/-- Every pool that is asked for is there. -/
def pooled (ticks : PoolId → ℕ → TickReads) : SyncReads := Venue.reads (fun oids => .ok (oids.map sourcedPool)) ticks

/-- Two pools are discovered: a tick of the first is shown to the first retry, those of the
second to none. Later no tick can be read. -/
def partlyRead : List Refresh :=
  [⟨0,.discovery (some [Venue.id 0,Venue.id 1]),
      pooled fun pool attempt => if pool = Venue.id 0 ∧ attempt = 1 then shownTick else refusedTicks⟩,
    ⟨0,.fast,pooled fun _ _ => refusedTicks⟩]

theorem sourcedPool_source (oid : ObjectId) (lref : LivePoolRef) (state : PoolState) :
    tickSource Venue.sdk .cetus (sourcedPool oid) lref state = some (.cetus (Venue.id 20) 443636) := by
  have skiplist : CetusTicks.skiplistId Venue.sdk.parseId (sourcedPool (Venue.id 0)) = some (Venue.id 20) := by decide +kernel
  have score : CetusTicks.currentScore (sourcedPool (Venue.id 0)) = some 443636 := by decide +kernel
  have skiplist : CetusTicks.skiplistId Venue.sdk.parseId (sourcedPool oid) = some (Venue.id 20) := skiplist
  have score : CetusTicks.currentScore (sourcedPool oid) = some 443636 := score
  rw [tickSource,skiplist,score]
  rfl

theorem pooled_sourced {ticks : PoolId → ℕ → TickReads} {graph : Graph} {r : Refresh} (same : r.reads = pooled ticks) :
    Sourced Venue.sdk (Venue.config true 10) Venue.adapters graph r := by
  intro adapter ids refetchTicks request pool kept
  have only := asked_listed request
  rw [Venue.adapters_eq] at only
  obtain rfl := List.mem_singleton.mp only
  obtain ⟨oids,objs,obj,answered,returned,taken⟩ := mem_keptPools kept
  rw [same] at answered
  obtain rfl := Except.ok.inj answered
  obtain ⟨oid,-,rfl⟩ := List.mem_map.mp returned
  rw [(keep_some taken).2,if_pos (show (Venue.config true 10).loadTicks = true from rfl)]
  exact Option.ne_none_iff_exists'.mpr ⟨_,sourcedPool_source oid _ _⟩

theorem upserts_ticked_partlyRead :
    (run .release Venue.sdk (fun price _ => price) (Venue.config true 10) Venue.adapters .initial partlyRead).map
      (fun graph => (graph.active 0,(graph.tickCache (Venue.id 0)).map List.length)) = .ok ([Venue.id 0],some 1) ∧
    SourcedRun .release Venue.sdk (fun price _ => price) (Venue.config true 10) Venue.adapters .initial partlyRead ∧
    TickedRun .release Venue.sdk (fun price _ => price) (Venue.config true 10) Venue.adapters .initial partlyRead := by
  have sourced : SourcedRun .release Venue.sdk (fun price _ => price) (Venue.config true 10) Venue.adapters .initial
      partlyRead := by
    intro before r after taken
    rcases List.mem_pair.mp (taken.mem _) with rfl | rfl
    · exact pooled_sourced rfl
    · exact pooled_sourced rfl
  have stocked : Stocked Graph.initial.tickCache := nofun
  refine ⟨by decide +kernel,sourced,?_⟩
  exact (upserts_ticked .release Venue.sdk (fun price _ => price) (Venue.config true 10) ["cetus"] .initial partlyRead).1
    ⟨stocked,sourced⟩

/-- A bootstrap that reads one pool, whose object has no tick manager. -/
def bareDiscovery : Refresh := ⟨0,.discovery (some [Venue.id 0]),Venue.shown⟩

theorem upserts_unticked :
    ¬ TickedRun .release Venue.sdk (fun price _ => price) (Venue.config true 10) Venue.adapters .initial [bareDiscovery] := by
  intro ticked
  have upserted : upserts .release Venue.sdk (fun price _ => price) (Venue.config true 10) Venue.adapters .initial
      bareDiscovery = .ok [⟨.clmm (Venue.id 0) .cetus "0x2::sui::SUI" "0x5::usdc::USDC" ⟨18446744073709551616,1000000,2500,[]⟩,
        ⟨.cetus,Venue.id 0,"0x2::sui::SUI","0x5::usdc::USDC",none⟩⟩] := by decide +kernel
  have moved : (refresh .release Venue.sdk (fun price _ => price) (Venue.config true 10) Venue.adapters .initial
      bareDiscovery).toBool = true := by decide +kernel
  cases reached : refresh .release Venue.sdk (fun price _ => price) (Venue.config true 10) Venue.adapters .initial
      bareDiscovery with
  | error fault =>
    rw [reached] at moved
    cases moved
  | ok after =>
    exact ticked _ _ _ ((takes_cons _).mpr ⟨after,reached,.inl ⟨rfl,rfl,rfl⟩⟩) _ upserted _ List.mem_cons_self _ rfl rfl

end SuiArbitrage.Rust.Indexer
