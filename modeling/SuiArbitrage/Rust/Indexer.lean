import SuiArbitrage.Rust.Ticks
import SuiArbitrage.Rust.Ws

/-! The pool indexer of `offchain/src/indexer.rs`. The hash maps it shares with the
scanner are functions to options. What the node answers, and the order in which
concurrent reads finish, are inputs of each refresh. -/
namespace SuiArbitrage.Rust.Indexer
open MachineWord Fallible Clmm
open Move (ObjectId)
open Executor (LivePoolRef)

abbrev ReserveCache := PoolId → Option PoolState
abbrev LiveRegistry := PoolId → Option LivePoolRef
abbrev TickCache := PoolId → Option (List TickBoundary)

inductive TickSrc
  | cetus (skiplist : ObjectId) (score : U64)
  | turbos (pool : ObjectId) (sqrt : U128) (tick : I32)
  deriving DecidableEq

structure KeptPool where
  state : PoolState
  lref : LivePoolRef
  liq : U128
  src : Option TickSrc

structure PoolAdapter where
  dex : Dex
  decode : SuiObjectResponse → Anyhow (PoolState × LivePoolRef)
  normalize : PoolState → Bool
  quotable : Bool

def cetusAdapter (sdk : Sdk) : PoolAdapter := ⟨.cetus,Ws.decodePool sdk .cetus,fun _ => true,true⟩

def turbosAdapter (sdk : Sdk) : PoolAdapter := ⟨.turbos,Ws.decodePool sdk .turbos,fun _ => true,true⟩

def deepBookAdapter : PoolAdapter :=
  ⟨.cetus,fun _ => bail "deepbook order-book decode not implemented",fun _ => true,false⟩

def buildAdapters (sdk : Sdk) (dexes : List String) : List PoolAdapter :=
  dexes.filterMap fun d =>
    let name := (trim d).map Char.toLower
    if name = "cetus" then some (cetusAdapter sdk)
    else if name = "turbos" then some (turbosAdapter sdk)
    else if name = "deepbook" then some deepBookAdapter
    else none

structure IndexerConfig where
  minLiquidity : U128
  maxPools : ℕ
  quoteTokens : List String
  loadTicks : Bool
  maxTicks : ℕ

/-- What a refresh of one venue meets: the answers to its reads, of the ticks of a pool
by attempt, and the orders in which its reads finish. -/
structure SyncReads where
  multiGetObject : List ObjectId → Anyhow (List SuiObjectResponse)
  ticks : PoolId → ℕ → TickReads
  batchOrder : List (Anyhow (List SuiObjectResponse)) → List (Anyhow (List SuiObjectResponse))
  batches_perm : ∀ batches, (batchOrder batches).Perm batches
  tickOrder : List KeptPool → List KeptPool
  ticks_perm : ∀ pools, (tickOrder pools).Perm pools

def liquidityOf (state : PoolState) : U128 :=
  match state.kind with
  | .clmm c => c.liquidity
  | .v2 reserveA reserveB _ => min (u128 reserveA) (u128 reserveB)

def pairAllowed (state : PoolState) (quoteTokens : List String) : Bool :=
  quoteTokens.isEmpty || quoteTokens.any fun t => t = state.tokenA || t = state.tokenB

def injectTicks (state : PoolState) (ticks : List TickBoundary) : PoolState :=
  match state.kind with
  | .clmm c => {state with kind := .clmm {c with ticks := ticks}}
  | .v2 _ _ _ => state

def clmmSqrt (state : PoolState) : U128 :=
  match state.kind with
  | .clmm c => c.sqrtPrice
  | .v2 _ _ _ => 0

section sync
variable (build : Build) (sdk : Sdk) (scale : U128 → ℤ → U128) (config : IndexerConfig) (adapter : PoolAdapter)

def tickSource (dex : Dex) (obj : SuiObjectResponse) (lref : LivePoolRef) (state : PoolState) : Option TickSrc :=
  match dex with
  | .cetus => do
    let skiplist ← CetusTicks.skiplistId sdk.parseId obj
    let score ← CetusTicks.currentScore obj
    return .cetus skiplist score
  | .turbos => (TurbosTicks.currentTick obj).map fun tick => .turbos lref.poolId (clmmSqrt state) tick
  | .ammV2 => none

def keep (obj : SuiObjectResponse) : Option KeptPool :=
  match adapter.decode obj with
  | .ok (state,lref) =>
    let liq := liquidityOf state
    if config.minLiquidity ≤ liq ∧ pairAllowed state config.quoteTokens ∧ adapter.normalize state then
      some ⟨state,lref,liq,if config.loadTicks then tickSource sdk adapter.dex obj lref state else none⟩
    else none
  | .error _ => none

/-- The ids that parse, fifty strings at a time. -/
def idChunks (ids : List String) : List (List ObjectId) :=
  ((ids.toChunks 50).map fun chunk => chunk.filterMap sdk.parseId).filter (· ≠ [])

def readBatches (reads : SyncReads) (ids : List String) : List (Anyhow (List SuiObjectResponse)) :=
  reads.batchOrder ((idChunks sdk ids).map reads.multiGetObject)

def complete (reads : SyncReads) (ids : List String) : Bool :=
  (readBatches sdk reads ids).all (·.toBool)

/-- The pools that pass the filters, those of most liquidity first, up to the cap. -/
def keptPools (reads : SyncReads) (ids : List String) : List KeptPool :=
  let kept := (readBatches sdk reads ids).flatMap fun batch =>
    (batch.toOption.getD []).filterMap (keep sdk config adapter)
  (kept.insertionSort fun first second => second.liq ≤ first.liq).take config.maxPools

def loadTicksFor (reads : TickReads) (src : TickSrc) : Anyhow (List TickBoundary) :=
  match src with
  | .cetus skiplist score => CetusTicks.loadWindow reads skiplist score config.maxTicks
  | .turbos pool sqrt tick => TurbosTicks.loadWindow scale reads pool sqrt tick config.maxTicks

/-- The first success among an attempt and so many retries, else the last failure. -/
def retry {α : Type} (load : ℕ → Anyhow α) : ℕ → ℕ → Anyhow α
  | 0,attempt => load attempt
  | retries + 1,attempt =>
    match load attempt with
    | .ok value => .ok value
    | .error _ => retry load retries (attempt + 1)

/-- A pool's window, by a first attempt and three more. -/
def fetchTicks (reads : SyncReads) (id : PoolId) (src : TickSrc) : Anyhow (List TickBoundary) :=
  retry (fun attempt => loadTicksFor scale config (reads.ticks id attempt) src) 3 0

/-- A diagnostic quote, which may panic as any quote. -/
def tickQuoteCompare (state : PoolState) (ticks : List TickBoundary) : Rust (U64 × U64) :=
  match state.kind with
  | .v2 _ _ _ => .ok (0,0)
  | .clmm base => do
    let before ← quoteExactIn build base 100000000000 true
    let after ← quoteExactIn build {base with ticks := ticks} 100000000000 true
    return (before.getD 0,after.getD 0)

structure Loaded where
  state : PoolState
  lref : LivePoolRef
  deriving DecidableEq

/-- One pool's ticks: from the cache on a fast refresh, else loaded, else from the
cache after all; without any the pool is dropped. -/
def ingestTicks (reads : SyncReads) (refetchTicks : Bool) (tickCache : TickCache) (pool : KeptPool) :
    Rust (TickCache × Option Loaded) :=
  match pool.src with
  | none => .ok (tickCache,some ⟨pool.state,pool.lref⟩)
  | some src =>
    let cached := tickCache pool.state.id
    match if refetchTicks then none else cached with
    | some ticks => .ok (tickCache,some ⟨injectTicks pool.state ticks,pool.lref⟩)
    | none =>
      let reuse := cached.map fun ticks => ⟨injectTicks pool.state ticks,pool.lref⟩
      match fetchTicks scale config reads pool.state.id src with
      | .error _ => .ok (tickCache,reuse)
      | .ok [] => .ok (tickCache,reuse)
      | .ok ticks => do
        let _ ← tickQuoteCompare build pool.state ticks
        return (Function.update tickCache pool.state.id (some ticks),some ⟨injectTicks pool.state ticks,pool.lref⟩)

def ingestAll (reads : SyncReads) (refetchTicks : Bool) : List KeptPool → TickCache → Rust (TickCache × List Loaded)
  | [],tickCache => .ok (tickCache,[])
  | pool :: rest,tickCache => do
    let (tickCache,result) ← ingestTicks build scale config reads refetchTicks tickCache pool
    let (tickCache,results) ← ingestAll reads refetchTicks rest tickCache
    return (tickCache,result.toList ++ results)

/-- The pools that a refresh upserts, and the tick cache it leaves. -/
def ingest (reads : SyncReads) (refetchTicks : Bool) (ids : List String) (tickCache : TickCache) :
    Rust (TickCache × List Loaded) :=
  let kept := keptPools sdk config adapter reads ids
  if config.loadTicks then ingestAll build scale config reads refetchTicks (reads.tickOrder kept) tickCache
  else .ok (tickCache,kept.map fun pool => ⟨pool.state,pool.lref⟩)

end sync

/-- The maps shared with the scanner and, for each adapter by its place in the list,
its candidate ids and its active ids. -/
structure Graph where
  cache : ReserveCache
  registry : LiveRegistry
  tickCache : TickCache
  candidates : ℕ → List String
  active : ℕ → List PoolId

def Graph.upsert (graph : Graph) (pool : Loaded) : Graph :=
  {graph with registry := Function.update graph.registry pool.state.id (some pool.lref),
                cache := Function.update graph.cache pool.state.id (some pool.state)}

def Graph.evict (graph : Graph) (id : PoolId) : Graph :=
  {graph with cache := Function.update graph.cache id none, registry := Function.update graph.registry id none}

def installActiveSet (graph : Graph) (i : ℕ) (new : List PoolId) (complete : Bool) : Graph :=
  let old := graph.active i
  if complete = false ∧ old ≠ [] then graph
  else
    let graph := (old.filter (· ∉ new)).foldl Graph.evict graph
    {graph with active := Function.update graph.active i new}

section run
variable (build : Build) (sdk : Sdk) (scale : U128 → ℤ → U128) (config : IndexerConfig)

/-- `sync_pools` and `install_active_set` for one adapter. -/
def sync (adapter : PoolAdapter) (i : ℕ) (ids : List String) (reads : SyncReads) (refetchTicks : Bool)
    (graph : Graph) : Rust Graph := do
  let (tickCache,upserted) ← ingest build sdk scale config adapter reads refetchTicks ids graph.tickCache
  let graph := upserted.foldl Graph.upsert {graph with tickCache := tickCache}
  return installActiveSet graph i (upserted.map (·.state.id)) (complete sdk reads ids)

/-- A discovery that fails keeps the candidates of the one before. -/
inductive Kind
  | discovery (found : Option (List String))
  | fast

structure Refresh where
  adapter : ℕ
  kind : Kind
  reads : SyncReads

/-- What a refresh has `sync_pools` do, if anything: with which adapter, on which ids,
and whether it refetches the ticks. -/
def asked (adapters : List PoolAdapter) (graph : Graph) (r : Refresh) : Option (PoolAdapter × List String × Bool) :=
  (adapters[r.adapter]?.filter (·.quotable)).bind fun adapter =>
    match r.kind with
    | .discovery found => some (adapter,found.getD (graph.candidates r.adapter),true)
    | .fast => if graph.active r.adapter = [] then none else some (adapter,graph.active r.adapter,false)

def discover (adapters : List PoolAdapter) (graph : Graph) (r : Refresh) : Graph :=
  match adapters[r.adapter]?,r.kind with
  | some _,.discovery (some found) => {graph with candidates := Function.update graph.candidates r.adapter found}
  | _,_ => graph

def refresh (adapters : List PoolAdapter) (graph : Graph) (r : Refresh) : Rust Graph :=
  match asked adapters graph r with
  | some (adapter,ids,refetchTicks) =>
    sync build sdk scale config adapter r.adapter ids r.reads refetchTicks (discover adapters graph r)
  | none => .ok (discover adapters graph r)

/-- What one round of the loop, or the bootstrap before it, meets for each adapter. -/
structure Cycle where
  discovery : Bool
  found : ℕ → Option (List String)
  reads : ℕ → SyncReads

def Cycle.refreshes (cycle : Cycle) (adapters : List PoolAdapter) : List Refresh :=
  (List.range adapters.length).map fun i =>
    ⟨i,if cycle.discovery then .discovery (cycle.found i) else .fast,cycle.reads i⟩

/-- The refreshes of a run, one after the other: an adapter's turn begins when the turn
before it has ended. -/
def run (adapters : List PoolAdapter) (graph : Graph) (refreshes : List Refresh) : Rust Graph :=
  transact (refresh build sdk scale config adapters) graph refreshes

end run

def Graph.initial : Graph := ⟨fun _ => none,fun _ => none,fun _ => none,fun _ => [],fun _ => []⟩

end SuiArbitrage.Rust.Indexer
