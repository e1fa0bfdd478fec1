import SuiArbitrage.Rust.Indexer

/-! What one refresh of the indexer does: which pools it keeps, how each of them comes
by its ticks, and what is left in the shared maps. -/
namespace SuiArbitrage.Rust.Indexer
open MachineWord Fallible Clmm
open Move (ObjectId)
open Executor (LivePoolRef)

section kept
variable {sdk : Sdk} {config : IndexerConfig} {adapter : PoolAdapter} {reads : SyncReads} {ids : List String}

theorem mem_keptPools {pool : KeptPool} (member : pool ∈ keptPools sdk config adapter reads ids) :
    ∃ oids objs obj, reads.multiGetObject oids = .ok objs ∧ obj ∈ objs ∧ keep sdk config adapter obj = some pool := by
  have listed := (List.mem_insertionSort _).mp (List.mem_of_mem_take member)
  obtain ⟨batch,read,member⟩ := List.mem_flatMap.mp listed
  obtain ⟨obj,returned,kept⟩ := List.mem_filterMap.mp member
  obtain ⟨oids,-,rfl⟩ := List.mem_map.mp ((reads.batches_perm _).mem_iff.mp read)
  cases answer : reads.multiGetObject oids with
  | error fault =>
    rw [answer] at returned
    exact absurd returned List.not_mem_nil
  | ok objs =>
    rw [answer] at returned
    exact ⟨oids,objs,obj,answer,returned,kept⟩

theorem keep_some {obj : SuiObjectResponse} {pool : KeptPool} (kept : keep sdk config adapter obj = some pool) :
    adapter.decode obj = .ok (pool.state,pool.lref) ∧
      pool.src = if config.loadTicks then tickSource sdk adapter.dex obj pool.lref pool.state else none := by
  unfold keep at kept
  cases decoded : adapter.decode obj with
  | error fault =>
    rw [decoded] at kept
    cases kept
  | ok result =>
    obtain ⟨state,lref⟩ := result
    simp only [decoded,Option.ite_none_right_eq_some,Option.some.injEq] at kept
    obtain ⟨-,rfl⟩ := kept
    exact ⟨rfl,rfl⟩

end kept

theorem retry_ok {α : Type} {load : ℕ → Anyhow α} {retries attempt : ℕ} {value : α}
    (ran : retry load retries attempt = .ok value) : ∃ attempt, load attempt = .ok value := by
  induction retries generalizing attempt with
  | zero => exact ⟨attempt,ran⟩
  | succ retries ih =>
    rw [retry] at ran
    split at ran
    next loaded => exact ⟨attempt,loaded.trans ran⟩
    next => exact ih ran

@[simp] theorem injectTicks_id (state : PoolState) (ticks : List TickBoundary) :
    (injectTicks state ticks).id = state.id := by
  unfold injectTicks
  split <;> rfl

section ticks
variable {build : Build} {sdk : Sdk} {scale : U128 → ℤ → U128} {config : IndexerConfig} {adapter : PoolAdapter}
  {reads : SyncReads} {refetchTicks : Bool} {tickCache after : TickCache} {pool : KeptPool} {ids : List String}

variable (scale config reads refetchTicks) in
/-- The ways of a kept pool through tick ingestion, with the tick cache it leaves. -/
inductive Ingested (tickCache : TickCache) (pool : KeptPool) : TickCache → Option Loaded → Prop
  | unsourced (absent : pool.src = none) : Ingested tickCache pool tickCache (some ⟨pool.state,pool.lref⟩)
  | reused {src : TickSrc} {ticks : List TickBoundary} (sourced : pool.src = some src)
      (cached : tickCache pool.state.id = some ticks) :
      Ingested tickCache pool tickCache (some ⟨injectTicks pool.state ticks,pool.lref⟩)
  | fetched {src : TickSrc} {ticks : List TickBoundary} (sourced : pool.src = some src) (some_tick : ticks ≠ [])
      (read : fetchTicks scale config reads pool.state.id src = .ok ticks) :
      Ingested tickCache pool (Function.update tickCache pool.state.id (some ticks))
        (some ⟨injectTicks pool.state ticks,pool.lref⟩)
  | dropped {src : TickSrc} (sourced : pool.src = some src) (uncached : tickCache pool.state.id = none)
      (unread : ∀ ticks ≠ [], fetchTicks scale config reads pool.state.id src ≠ .ok ticks) :
      Ingested tickCache pool tickCache none

theorem ingestTicks_ingested {result : Option Loaded}
    (ran : ingestTicks build scale config reads refetchTicks tickCache pool = .ok (after,result)) :
    Ingested scale config reads tickCache pool after result := by
  unfold ingestTicks at ran
  cases sourced : pool.src with
  | none =>
    simp only [sourced,Except.ok.injEq,Prod.mk.injEq] at ran
    obtain ⟨rfl,rfl⟩ := ran
    exact .unsourced sourced
  | some src =>
    simp only [sourced] at ran
    split at ran
    next ticks reuse =>
      obtain ⟨rfl,rfl⟩ := Prod.mk.inj (Except.ok.inj ran)
      refine .reused sourced ?_
      cases refetchTicks with
      | false => exact reuse
      | true => cases reuse
    next =>
      -- A failed or empty load leaves what the cache had, if anything.
      have kept (unread : ∀ ticks ≠ [], fetchTicks scale config reads pool.state.id src ≠ .ok ticks)
          (ran : (.ok (tickCache,(tickCache pool.state.id).map fun ticks => ⟨injectTicks pool.state ticks,pool.lref⟩) :
            Rust (TickCache × Option Loaded)) = .ok (after,result)) :
          Ingested scale config reads tickCache pool after result := by
        obtain ⟨rfl,rfl⟩ := Prod.mk.inj (Except.ok.inj ran)
        cases cached : tickCache pool.state.id with
        | none => exact .dropped sourced cached unread
        | some ticks => exact .reused sourced cached
      split at ran
      next fault failed =>
        exact kept (fun ticks _ read => by rw [read] at failed; cases failed) ran
      next empty =>
        exact kept (fun ticks some_tick read => some_tick (Except.ok.inj (read.symm.trans empty))) ran
      next ticks some_tick read =>
        obtain ⟨_,-,ran⟩ := bind_ok.mp ran
        obtain ⟨rfl,rfl⟩ := Prod.mk.inj (pure_ok.mp ran)
        exact .fetched sourced some_tick read

/-- What a tick ingestion upserts comes from the pools it was given, each met with some
tick cache on the way, where whatever the ingestion preserves holds. -/
structure Accounts (scale : U128 → ℤ → U128) (config : IndexerConfig) (reads : SyncReads)
    (Inv : TickCache → Prop) (pools : List KeptPool) (after : TickCache) (upserted : List Loaded) : Prop where
  inv : Inv after
  source : ∀ l ∈ upserted, ∃ pool ∈ pools, ∃ tickCache next, Inv tickCache ∧
    Ingested scale config reads tickCache pool next (some l)
  settled : ∀ pool ∈ pools, ∃ tickCache next result, Inv tickCache ∧
    Ingested scale config reads tickCache pool next result ∧ ∀ l, result = some l → l ∈ upserted

theorem ingestAll_accounts {Inv : TickCache → Prop} {pools : List KeptPool} {upserted : List Loaded}
    (preserved : ∀ pool ∈ pools, ∀ tickCache next result, Inv tickCache →
      Ingested scale config reads tickCache pool next result → Inv next)
    (inv : Inv tickCache)
    (ran : ingestAll build scale config reads refetchTicks pools tickCache = .ok (after,upserted)) :
    Accounts scale config reads Inv pools after upserted := by
  induction pools generalizing tickCache upserted with
  | nil =>
    obtain ⟨rfl,rfl⟩ := Prod.mk.inj (Except.ok.inj ran)
    exact ⟨inv,List.forall_mem_nil _,List.forall_mem_nil _⟩
  | cons pool rest ih =>
    simp only [ingestAll,bind_ok,pure_ok,Prod.exists,Prod.mk.injEq] at ran
    obtain ⟨next,result,first,last,results,later,rfl,rfl⟩ := ran
    have head := ingestTicks_ingested first
    have tail := ih (fun pool member => preserved pool (List.mem_cons_of_mem _ member))
      (preserved pool List.mem_cons_self _ _ _ inv head) later
    refine ⟨tail.inv,?_,?_⟩
    · intro l member
      rcases List.mem_append.mp member with here | there
      · obtain rfl : result = some l := Option.mem_toList.mp here
        exact ⟨pool,List.mem_cons_self,tickCache,next,inv,head⟩
      · obtain ⟨pool,member,found⟩ := tail.source l there
        exact ⟨pool,List.mem_cons_of_mem _ member,found⟩
    · intro other member
      rcases List.mem_cons.mp member with rfl | member
      · exact ⟨tickCache,next,result,inv,head,
          fun l kept => List.mem_append_left _ (Option.mem_toList.mpr kept)⟩
      · obtain ⟨mid,next,result,held,way,listed⟩ := tail.settled other member
        exact ⟨mid,next,result,held,way,fun l kept => List.mem_append_right _ (listed l kept)⟩

theorem ingest_accounts (Inv : TickCache → Prop) {upserted : List Loaded}
    (preserved : ∀ pool ∈ keptPools sdk config adapter reads ids, ∀ tickCache next result, Inv tickCache →
      Ingested scale config reads tickCache pool next result → Inv next)
    (inv : Inv tickCache)
    (ran : ingest build sdk scale config adapter reads refetchTicks ids tickCache = .ok (after,upserted)) :
    Accounts scale config reads Inv (keptPools sdk config adapter reads ids) after upserted := by
  unfold ingest at ran
  simp only at ran
  split at ran
  next =>
    have same (pool : KeptPool) := (reads.ticks_perm (keptPools sdk config adapter reads ids)).mem_iff (a := pool)
    have account := ingestAll_accounts (fun pool member => preserved pool ((same pool).mp member)) inv ran
    refine ⟨account.inv,?_,fun pool member => account.settled pool ((same pool).mpr member)⟩
    intro l member
    obtain ⟨pool,member,way⟩ := account.source l member
    exact ⟨pool,(same pool).mp member,way⟩
  next off =>
    obtain ⟨rfl,rfl⟩ := Prod.mk.inj (Except.ok.inj ran)
    have way (pool : KeptPool) (member : pool ∈ keptPools sdk config adapter reads ids) :
        Ingested scale config reads tickCache pool tickCache (some ⟨pool.state,pool.lref⟩) := by
      obtain ⟨-,-,obj,-,-,kept⟩ := mem_keptPools member
      have absent := (keep_some kept).2
      rw [if_neg off] at absent
      exact .unsourced absent
    refine ⟨inv,?_,?_⟩
    · intro l member
      obtain ⟨pool,kept,rfl⟩ := List.mem_map.mp member
      exact ⟨pool,kept,tickCache,tickCache,inv,way pool kept⟩
    · intro pool kept
      refine ⟨tickCache,tickCache,_,inv,way pool kept,?_⟩
      intro l passed
      exact List.mem_map.mpr ⟨pool,kept,Option.some.inj passed⟩

theorem Ingested.id {l : Loaded} (way : Ingested scale config reads tickCache pool after (some l)) :
    l.state.id = pool.state.id := by
  cases way with
  | unsourced absent => rfl
  | reused sourced cached => exact injectTicks_id ..
  | fetched sourced some_tick read => exact injectTicks_id ..

variable (scale config reads) in
/-- A kept pool that needs no ticks, has some in the cache or can load some. -/
def Obtains (tickCache : TickCache) (pool : KeptPool) : Prop :=
  pool.src = none ∨ tickCache pool.state.id ≠ none ∨
    ∃ src ticks, pool.src = some src ∧ ticks ≠ [] ∧ fetchTicks scale config reads pool.state.id src = .ok ticks

theorem ingest_ids {upserted : List Loaded} (id : PoolId)
    (ran : ingest build sdk scale config adapter reads refetchTicks ids tickCache = .ok (after,upserted)) :
    id ∈ upserted.map (·.state.id) ↔
      ∃ pool ∈ keptPools sdk config adapter reads ids, pool.state.id = id ∧ Obtains scale config reads tickCache pool := by
  -- The tick cache only grows, by pools that could load their ticks.
  have account := ingest_accounts (fun mid => (tickCache id ≠ none → mid id ≠ none) ∧
    (mid id ≠ none → tickCache id ≠ none ∨ ∃ pool ∈ keptPools sdk config adapter reads ids, pool.state.id = id ∧
      Obtains scale config reads tickCache pool)) ?_ ⟨fun found => found,.inl⟩ ran
  · constructor
    · intro member
      obtain ⟨l,listed,rfl⟩ := List.mem_map.mp member
      obtain ⟨pool,kept,mid,next,⟨-,grown⟩,way⟩ := account.source l listed
      rw [way.id] at grown ⊢
      cases way with
      | unsourced absent => exact ⟨pool,kept,rfl,.inl absent⟩
      | reused sourced cached =>
        rcases grown (by rw [cached]; exact Option.some_ne_none _) with before | loaded
        · exact ⟨pool,kept,rfl,.inr (.inl before)⟩
        · exact loaded
      | fetched sourced some_tick read => exact ⟨pool,kept,rfl,.inr (.inr ⟨_,_,sourced,some_tick,read⟩)⟩
    · rintro ⟨pool,kept,rfl,obtains⟩
      obtain ⟨mid,next,result,⟨stays,-⟩,way,listed⟩ := account.settled pool kept
      cases result with
      | some l => exact List.mem_map.mpr ⟨l,listed l rfl,way.id⟩
      | none =>
        exfalso
        cases way with
        | dropped sourced uncached unread =>
          rcases obtains with absent | before | ⟨src,ticks,origin,some_tick,read⟩
          · exact Option.some_ne_none _ (sourced.symm.trans absent)
          · exact stays before uncached
          · obtain rfl := Option.some.inj (sourced.symm.trans origin)
            exact unread ticks some_tick read
  · intro pool kept mid next result ⟨stays,grown⟩ way
    cases way with
    | fetched sourced some_tick read =>
      by_cases same : id = pool.state.id
      · subst same
        refine ⟨fun _ => ?_,fun _ => .inr ⟨pool,kept,rfl,.inr (.inr ⟨_,_,sourced,some_tick,read⟩)⟩⟩
        rw [Function.update_self]
        exact Option.some_ne_none _
      · rw [Function.update_of_ne same]
        exact ⟨stays,grown⟩
    | unsourced absent => exact ⟨stays,grown⟩
    | reused sourced cached => exact ⟨stays,grown⟩
    | dropped sourced uncached unread => exact ⟨stays,grown⟩

end ticks

section refresh
variable {build : Build} {sdk : Sdk} {scale : U128 → ℤ → U128} {config : IndexerConfig} {adapters : List PoolAdapter}

theorem discover_active (graph : Graph) (r : Refresh) : (discover adapters graph r).active = graph.active := by
  unfold discover
  split <;> rfl

theorem discover_tickCache (graph : Graph) (r : Refresh) :
    (discover adapters graph r).tickCache = graph.tickCache := by
  unfold discover
  split <;> rfl

theorem refresh_ok {graph after : Graph} {r : Refresh}
    (ran : refresh build sdk scale config adapters graph r = .ok after) :
    (asked adapters graph r = none ∧ after = discover adapters graph r) ∨
    ∃ adapter ids refetchTicks tickCache upserted, asked adapters graph r = some (adapter,ids,refetchTicks) ∧
      adapters[r.adapter]? = some adapter ∧
      ingest build sdk scale config adapter r.reads refetchTicks ids graph.tickCache = .ok (tickCache,upserted) ∧
      after = installActiveSet (upserted.foldl Graph.upsert {discover adapters graph r with tickCache := tickCache})
        r.adapter (upserted.map (·.state.id)) (complete sdk r.reads ids) := by
  unfold refresh at ran
  split at ran
  next adapter ids refetchTicks request =>
    simp only [sync,bind_ok,pure_ok,Prod.exists] at ran
    obtain ⟨tickCache,upserted,ingested,rfl⟩ := ran
    rw [discover_tickCache] at ingested
    refine .inr ⟨adapter,ids,refetchTicks,tickCache,upserted,request,?_,ingested,rfl⟩
    obtain ⟨found,present,request⟩ := Option.bind_eq_some_iff.mp request
    obtain ⟨present,-⟩ := Option.filter_eq_some_iff.mp present
    rw [present]
    split at request
    · cases request
      rfl
    · obtain ⟨-,request⟩ := Option.ite_none_left_eq_some.mp request
      cases request
      rfl
  next request => exact .inl ⟨request,(Except.ok.inj ran).symm⟩

@[simp] theorem upsert_cache (graph : Graph) (pool : Loaded) :
    (graph.upsert pool).cache = Function.update graph.cache pool.state.id (some pool.state) := rfl

@[simp] theorem evict_cache (graph : Graph) (id : PoolId) :
    (graph.evict id).cache = Function.update graph.cache id none := rfl

theorem upserts_cache {upserted : List Loaded} {graph : Graph} {id : PoolId} {state : PoolState}
    (held : (upserted.foldl Graph.upsert graph).cache id = some state) :
    graph.cache id = some state ∨ ∃ l ∈ upserted, l.state = state ∧ state.id = id := by
  induction upserted generalizing graph with
  | nil => exact .inl held
  | cons pool rest ih =>
    rcases ih held with before | ⟨l,listed,found⟩
    · by_cases same : id = pool.state.id
      · subst same
        rw [upsert_cache,Function.update_self] at before
        obtain rfl := Option.some.inj before
        exact .inr ⟨pool,List.mem_cons_self,rfl,rfl⟩
      · rw [upsert_cache,Function.update_of_ne same] at before
        exact .inl before
    · exact .inr ⟨l,List.mem_cons_of_mem _ listed,found⟩

theorem evicts_cache {out : List PoolId} {graph : Graph} {id : PoolId} {state : PoolState}
    (held : (out.foldl Graph.evict graph).cache id = some state) : graph.cache id = some state := by
  induction out generalizing graph with
  | nil => exact held
  | cons first rest ih =>
    have before := ih held
    by_cases same : id = first
    · subst same
      rw [evict_cache,Function.update_self] at before
      cases before
    · rwa [evict_cache,Function.update_of_ne same] at before

theorem installActiveSet_cache {graph : Graph} {i : ℕ} {new : List PoolId} {whole : Bool} {id : PoolId}
    {state : PoolState} (held : (installActiveSet graph i new whole).cache id = some state) :
    graph.cache id = some state := by
  unfold installActiveSet at held
  simp only at held
  split at held
  · exact held
  · exact evicts_cache held

theorem discover_cache (graph : Graph) (r : Refresh) : (discover adapters graph r).cache = graph.cache := by
  unfold discover
  split <;> rfl

end refresh

theorem mem_refreshes {adapters : List PoolAdapter} {cycles : List Cycle} {r : Refresh}
    (listed : r ∈ cycles.flatMap (·.refreshes adapters)) : r.adapter < adapters.length := by
  obtain ⟨cycle,-,turn⟩ := List.mem_flatMap.mp listed
  obtain ⟨i,within,rfl⟩ := List.mem_map.mp turn
  exact List.mem_range.mp within

/-! A small venue: ids are canonical, and the node's answers are given outright. -/
namespace Venue

def sdk : Sdk := ⟨some,fun oid => oid,.ok⟩

def id (n : ℕ) : String :=
  "0x00000000000000000000000000000000000000000000000000000000000000" ++ .ofList (Nat.toDigits 16 (n + 16))

def fields (sqrtPrice liquidity : String) : List (String × Json) :=
  [("current_sqrt_price",.text sqrtPrice),("liquidity",.text liquidity),("fee_rate",.text "2500")]

def object (fields : List (String × Json)) (oid : ObjectId) : SuiObjectResponse :=
  ⟨some ⟨oid,1,some "0xcc::pool::Pool<0x2::sui::SUI, 0x5::usdc::USDC>",some (.moveObject (.object fields))⟩⟩

def digits (n : ℕ) : Json := .text (.ofList (Nat.toDigits 10 n))

/-- A pool with its current tick and the skip list of its ticks. -/
def poolAt (sqrtPrice liquidity : String) (current : ℤ) (oid : ObjectId) : SuiObjectResponse :=
  object (fields sqrtPrice liquidity ++ [("current_tick_index",.object [("bits",digits (wrap 32 current).val)]),
    ("tick_manager",.object [("ticks",.object [("id",.object [("id",.text (id 20))])])])]) oid

def reads (multiGetObject : List ObjectId → Anyhow (List SuiObjectResponse))
    (ticks : PoolId → ℕ → TickReads) : SyncReads where
  multiGetObject := multiGetObject
  ticks := ticks
  batchOrder batches := batches
  batches_perm _ := .rfl
  tickOrder pools := pools
  ticks_perm _ := .rfl

def noTicks (_ : PoolId) (_ : ℕ) : TickReads := ⟨fun _ => .ok [],fun _ => .ok []⟩

/-- Every pool that is asked for is there, without ticks. -/
def shown : SyncReads :=
  reads (fun oids => .ok (oids.map (object (fields "18446744073709551616" "1000000")))) noTicks

def config (loadTicks : Bool) (maxTicks : ℕ) : IndexerConfig := ⟨0,100,[],loadTicks,maxTicks⟩

def adapters : List PoolAdapter := buildAdapters sdk ["cetus"]

theorem adapters_eq : adapters = [cetusAdapter sdk] := by
  have name : (trim "cetus").map Char.toLower = "cetus" := by decide +kernel
  simp [adapters,buildAdapters,name]

theorem adapters_length : adapters.length = 1 := by rw [adapters_eq,List.length_singleton]

end Venue

end SuiArbitrage.Rust.Indexer
