import SuiArbitrage.Rust.Refresh
import Mathlib.Data.Set.Lattice

/-! Whether the indexer's maps hold exactly its active pools. Pools are written before
`install_active_set` decides on the membership, so a partial refresh may leave some
behind that no adapter lists. -/
namespace SuiArbitrage.Rust.Indexer
open MachineWord Fallible
open Move (ObjectId)
open Executor (LivePoolRef)

namespace Graph

def cacheIds (graph : Graph) : Set PoolId := {id | graph.cache id ≠ none}

def registryIds (graph : Graph) : Set PoolId := {id | graph.registry id ≠ none}

def activeIds (graph : Graph) : Set PoolId := {id | ∃ i, id ∈ graph.active i}

/-- The scanner's cache and the registry both hold exactly the active pools. -/
def Exact (graph : Graph) : Prop := graph.cacheIds = graph.activeIds ∧ graph.registryIds = graph.activeIds

theorem initial_exact : initial.Exact := by
  simp [Exact,cacheIds,registryIds,activeIds,initial]

end Graph

/-- The keys of a shared map: upserts add one, evictions remove one and nothing else
of the graph touches them. -/
structure Keys (keys : Graph → Set PoolId) : Prop where
  upsert : ∀ graph pool, keys (graph.upsert pool) = insert pool.state.id (keys graph)
  evict : ∀ graph id, keys (graph.evict id) = keys graph \ {id}
  others : ∀ graph tickCache candidates active,
    keys {graph with tickCache := tickCache, candidates := candidates, active := active} = keys graph

theorem cacheIds_keys : Keys Graph.cacheIds where
  upsert graph pool := by
    ext id
    by_cases same : id = pool.state.id <;> simp [Graph.cacheIds,Graph.upsert,Function.update_apply,same]
  evict graph out := by
    ext id
    by_cases same : id = out <;> simp [Graph.cacheIds,Graph.evict,Function.update_apply,same]
  others graph tickCache candidates active := rfl

theorem registryIds_keys : Keys Graph.registryIds where
  upsert graph pool := by
    ext id
    by_cases same : id = pool.state.id <;> simp [Graph.registryIds,Graph.upsert,Function.update_apply,same]
  evict graph out := by
    ext id
    by_cases same : id = out <;> simp [Graph.registryIds,Graph.evict,Function.update_apply,same]
  others graph tickCache candidates active := rfl

theorem upserts_active (upserted : List Loaded) (graph : Graph) :
    (upserted.foldl Graph.upsert graph).active = graph.active := by
  induction upserted generalizing graph with
  | nil => rfl
  | cons pool rest ih => exact ih (graph.upsert pool)

theorem evicts_active (out : List PoolId) (graph : Graph) :
    (out.foldl Graph.evict graph).active = graph.active := by
  induction out generalizing graph with
  | nil => rfl
  | cons id rest ih => exact ih (graph.evict id)

section keys
variable {keys : Graph → Set PoolId} (law : Keys keys)
include law

theorem Keys.upserts (upserted : List Loaded) (graph : Graph) :
    keys (upserted.foldl Graph.upsert graph) = keys graph ∪ {id | id ∈ upserted.map (·.state.id)} := by
  induction upserted generalizing graph with
  | nil => simp
  | cons pool rest ih =>
    rw [List.foldl_cons,ih,law.upsert]
    ext id
    simp only [Set.mem_union,Set.mem_insert_iff,Set.mem_ofPred_eq,List.map_cons,List.mem_cons]
    tauto

theorem Keys.evicts (out : List PoolId) (graph : Graph) :
    keys (out.foldl Graph.evict graph) = keys graph \ {id | id ∈ out} := by
  induction out generalizing graph with
  | nil => simp
  | cons id rest ih =>
    rw [List.foldl_cons,ih,law.evict]
    ext other
    simp only [Set.mem_sdiff,Set.mem_singleton_iff,Set.mem_ofPred_eq,List.mem_cons]
    tauto

end keys

section sync
variable {build : Build} {sdk : Sdk} {scale : U128 → ℤ → U128} {config : IndexerConfig} {adapters : List PoolAdapter}

def Owned (adapters : List PoolAdapter) (owner : PoolId → ℕ) (r : Refresh) : Prop :=
  ∀ adapter, adapters[r.adapter]? = some adapter → ∀ oids objs, r.reads.multiGetObject oids = .ok objs →
    ∀ obj ∈ objs, ∀ state lref, adapter.decode obj = .ok (state,lref) → owner state.id = r.adapter

def Owners (owner : PoolId → ℕ) (graph : Graph) : Prop := ∀ i, ∀ id ∈ graph.active i, owner id = i

variable (sdk scale config adapters) in
/-- A refresh that loses a batch, while the adapter has active pools, and still keeps a
pool, with its ticks, that is not among them. -/
def Strays (graph : Graph) (r : Refresh) : Prop :=
  ∃ adapter ids refetchTicks, asked adapters graph r = some (adapter,ids,refetchTicks) ∧
    complete sdk r.reads ids = false ∧ graph.active r.adapter ≠ [] ∧
    ∃ pool ∈ keptPools sdk config adapter r.reads ids, Obtains scale config r.reads graph.tickCache pool ∧
      pool.state.id ∉ graph.active r.adapter

theorem not_strays_of_answers {graph : Graph} {r : Refresh} (answers : ∀ oids, (r.reads.multiGetObject oids).toBool = true) :
    ¬ Strays sdk scale config adapters graph r := by
  intro strays
  obtain ⟨adapter,ids,refetchTicks,-,lost,-⟩ := strays
  refine absurd lost (ne_of_eq_of_ne (b := true) ?_ Bool.noConfusion)
  rw [complete,List.all_eq_true]
  intro batch read
  obtain ⟨oids,-,rfl⟩ := List.mem_map.mp ((r.reads.batches_perm _).mem_iff.mp read)
  exact answers oids

theorem not_strays_of_silence {graph : Graph} {r : Refresh} (silence : ∀ oids, (r.reads.multiGetObject oids).toBool = false) :
    ¬ Strays sdk scale config adapters graph r := by
  intro strays
  obtain ⟨adapter,ids,refetchTicks,-,-,-,pool,kept,-⟩ := strays
  obtain ⟨oids,objs,obj,answered,-⟩ := mem_keptPools kept
  have failed := silence oids
  rw [answered] at failed
  cases failed

theorem members_within {owner : PoolId → ℕ} {active : ℕ → List PoolId} {i : ℕ} {new : List PoolId}
    (owners : ∀ j, ∀ id ∈ active j, owner id = j) (own : ∀ id ∈ new, owner id = i) :
    {id | ∃ j, id ∈ active j} ∪ {id | id ∈ new} = {id | ∃ j, id ∈ active j} ↔ ∀ id ∈ new, id ∈ active i := by
  rw [Set.union_eq_left]
  constructor
  · intro within id member
    obtain ⟨j,listed⟩ := within member
    obtain rfl : j = i := (owners j id listed).symm.trans (own id member)
    exact listed
  · exact fun inside id member => ⟨i,inside id member⟩

theorem members_replaced {owner : PoolId → ℕ} {active : ℕ → List PoolId} {i : ℕ} {new : List PoolId}
    (owners : ∀ j, ∀ id ∈ active j, owner id = j) :
    ({id | ∃ j, id ∈ active j} ∪ {id | id ∈ new}) \ {id | id ∈ (active i).filter (· ∉ new)} =
      {id | ∃ j, id ∈ Function.update active i new j} := by
  ext id
  simp only [Set.mem_sdiff,Set.mem_union,Set.mem_ofPred_eq,List.mem_filter,decide_eq_true_eq]
  constructor
  · rintro ⟨⟨j,listed⟩ | member,stays⟩
    · by_cases mine : j = i
      · subst mine
        refine ⟨j,?_⟩
        rw [Function.update_self]
        by_contra gone
        exact stays ⟨listed,gone⟩
      · refine ⟨j,?_⟩
        rwa [Function.update_of_ne mine]
    · refine ⟨i,?_⟩
      rwa [Function.update_self]
  · rintro ⟨j,listed⟩
    by_cases mine : j = i
    · subst mine
      rw [Function.update_self] at listed
      exact ⟨.inr listed,fun gone => gone.2 listed⟩
    · rw [Function.update_of_ne mine] at listed
      refine ⟨.inl ⟨j,listed⟩,fun gone => mine ?_⟩
      exact (owners j id listed).symm.trans (owners i id gone.1)

/-- A map that held the active pools still does after a refresh, unless the membership
is preserved and a pool beyond it was written. -/
theorem installActiveSet_exact {keys : Graph → Set PoolId} (law : Keys keys) {owner : PoolId → ℕ}
    {graph written : Graph} {i : ℕ} {new : List PoolId} (owners : Owners owner graph)
    (own : ∀ id ∈ new, owner id = i) (members : written.active = graph.active)
    (held : keys written = graph.activeIds ∪ {id | id ∈ new}) (whole : Bool) :
    keys (installActiveSet written i new whole) = (installActiveSet written i new whole).activeIds ↔
      ¬ (whole = false ∧ graph.active i ≠ [] ∧ ∃ id ∈ new, id ∉ graph.active i) := by
  unfold installActiveSet
  simp only [members]
  split
  next preserve =>
    have listed : written.activeIds = graph.activeIds := by
      rw [Graph.activeIds,members,Graph.activeIds]
    rw [held,listed]
    refine (members_within owners own).trans ?_
    simp [preserve]
  next preserve =>
    refine iff_of_true ?_ (fun ⟨lost,active,_⟩ => preserve ⟨lost,active⟩)
    rw [law.others,law.evicts,held,Graph.activeIds,Graph.activeIds,evicts_active,members]
    exact members_replaced owners

theorem installActiveSet_active (graph : Graph) (i : ℕ) (new : List PoolId) (whole : Bool) :
    (installActiveSet graph i new whole).active = graph.active ∨
      (installActiveSet graph i new whole).active = Function.update graph.active i new := by
  unfold installActiveSet
  simp only
  split
  · exact .inl rfl
  · exact .inr (by rw [evicts_active])

theorem discover_keys {keys : Graph → Set PoolId} (law : Keys keys) (adapters : List PoolAdapter) (graph : Graph)
    (r : Refresh) :
    keys (discover adapters graph r) = keys graph := by
  unfold discover
  split
  · exact law.others graph graph.tickCache _ graph.active
  · rfl

theorem ingest_owned {owner : PoolId → ℕ} {r : Refresh} {adapter : PoolAdapter} {ids : List String}
    {refetchTicks : Bool} {before tickCache : TickCache} {upserted : List Loaded} (owned : Owned adapters owner r)
    (present : adapters[r.adapter]? = some adapter)
    (ingested : ingest build sdk scale config adapter r.reads refetchTicks ids before = .ok (tickCache,upserted)) :
    ∀ id ∈ upserted.map (·.state.id), owner id = r.adapter := by
  intro id member
  obtain ⟨pool,kept,rfl,-⟩ := (ingest_ids id ingested).mp member
  obtain ⟨oids,objs,obj,answer,returned,kept⟩ := mem_keptPools kept
  exact owned adapter present oids objs answer obj returned _ _ (keep_some kept).1

theorem refresh_owners {owner : PoolId → ℕ} {graph after : Graph} {r : Refresh} (owned : Owned adapters owner r)
    (owners : Owners owner graph) (ran : refresh build sdk scale config adapters graph r = .ok after) :
    Owners owner after := by
  intro j id listed
  obtain ⟨-,rfl⟩ | ⟨adapter,ids,refetchTicks,tickCache,upserted,-,present,ingested,rfl⟩ := refresh_ok ran
  · rw [discover_active] at listed
    exact owners j id listed
  · have before (listed : id ∈ (upserted.foldl Graph.upsert {discover adapters graph r with tickCache := tickCache}).active j) :
        owner id = j := by
      rw [upserts_active] at listed
      exact owners j id (discover_active graph r ▸ listed)
    rcases installActiveSet_active _ _ _ _ with same | replaced
    · exact before (same ▸ listed)
    · rw [replaced] at listed
      by_cases mine : j = r.adapter
      · subst mine
        rw [Function.update_self] at listed
        exact ingest_owned owned present ingested id listed
      · rw [Function.update_of_ne mine] at listed
        exact before listed

theorem run_owners {owner : PoolId → ℕ} {final : Graph} {refreshes : List Refresh}
    (owned : ∀ r ∈ refreshes, Owned adapters owner r)
    (ran : run build sdk scale config adapters .initial refreshes = .ok final) : Owners owner final := by
  have start : Owners owner .initial := fun _ => List.forall_mem_nil _
  refine takes_final _ start (fun before r after taken => ?_) ran
  refine refresh_owners (owned r (taken.mem _)) (takes_invariant _ _ start ?_ taken) (taken.moved _)
  exact fun _ r _ listed owners ran => refresh_owners (owned r listed) owners ran

theorem refresh_exact {owner : PoolId → ℕ} {graph after : Graph} {r : Refresh} (owned : Owned adapters owner r)
    (owners : Owners owner graph) (exact_before : graph.Exact)
    (ran : refresh build sdk scale config adapters graph r = .ok after) :
    after.Exact ↔ ¬ Strays sdk scale config adapters graph r := by
  obtain ⟨request,rfl⟩ | ⟨adapter,ids,refetchTicks,tickCache,upserted,request,present,ingested,rfl⟩ := refresh_ok ran
  · refine iff_of_true ?_ ?_
    · rw [Graph.Exact,Graph.activeIds,discover_active,discover_keys cacheIds_keys adapters,discover_keys registryIds_keys adapters]
      exact exact_before
    · rintro ⟨adapter,ids,refetchTicks,other,-⟩
      exact Option.some_ne_none _ (other.symm.trans request)
  · have strays : Strays sdk scale config adapters graph r ↔ complete sdk r.reads ids = false ∧
        graph.active r.adapter ≠ [] ∧ ∃ id ∈ upserted.map (·.state.id), id ∉ graph.active r.adapter := by
      simp only [ingest_ids _ ingested]
      constructor
      · rintro ⟨_,_,_,other,lost,active,pool,kept,obtains,outside⟩
        cases request.symm.trans other
        exact ⟨lost,active,pool.state.id,⟨pool,kept,rfl,obtains⟩,outside⟩
      · rintro ⟨lost,active,_,⟨pool,kept,rfl,obtains⟩,outside⟩
        exact ⟨adapter,ids,refetchTicks,request,lost,active,pool,kept,obtains,outside⟩
    have members : (upserted.foldl Graph.upsert {discover adapters graph r with tickCache := tickCache}).active =
        graph.active := by
      rw [upserts_active]
      exact discover_active graph r
    have decided {keys : Graph → Set PoolId} (law : Keys keys) (held : keys graph = graph.activeIds) := by
      refine installActiveSet_exact law owners (ingest_owned owned present ingested) members ?_ (complete sdk r.reads ids)
      rw [law.upserts,← held,← discover_keys law adapters graph r]
      exact congrArg (· ∪ _) (law.others (discover adapters graph r) tickCache _ _)
    rw [strays,Graph.Exact,decided cacheIds_keys exact_before.1,decided registryIds_keys exact_before.2,and_self]

/-- Over a run from empty maps, the cache and the registry hold exactly the active pools
after every refresh if and only if none strays. -/
theorem active_exact_iff (build : Build) (sdk : Sdk) (scale : U128 → ℤ → U128) (config : IndexerConfig)
    (adapters : List PoolAdapter) (owner : PoolId → ℕ) (refreshes : List Refresh)
    (owned : ∀ r ∈ refreshes, Owned adapters owner r) :
    (∀ before r after, Takes (refresh build sdk scale config adapters) .initial refreshes before r after → after.Exact) ↔
      ∀ before r after, Takes (refresh build sdk scale config adapters) .initial refreshes before r after →
        ¬ Strays sdk scale config adapters before r :=
  takes_good_iff _ (Owners owner) (fun _ => List.forall_mem_nil _) Graph.initial_exact
    (fun _ r _ listed owners ran => refresh_owners (owned r listed) owners ran)
    (fun _ r _ listed owners exact_before ran => refresh_exact (owned r listed) owners exact_before ran)

end sync

theorem owned_venue (cycles : List Cycle) :
    ∀ r ∈ cycles.flatMap (·.refreshes Venue.adapters), Owned Venue.adapters (fun _ => 0) r := by
  intro r listed adapter present oids objs answer obj returned state lref decoded
  have within := mem_refreshes listed
  rw [Venue.adapters_length] at within
  exact (Nat.lt_one_iff.mp within).symm

def silent : SyncReads := Venue.reads (fun _ => bail "429") Venue.noTicks

/-- Between two discoveries of different pools the node is silent. -/
def outage : List Cycle :=
  [⟨true,fun _ => some [Venue.id 0,Venue.id 1],fun _ => Venue.shown⟩,⟨false,fun _ => none,fun _ => silent⟩,
    ⟨true,fun _ => some [Venue.id 1,Venue.id 2],fun _ => Venue.shown⟩]

def outageRefreshes : List Refresh := outage.flatMap (·.refreshes Venue.adapters)

theorem outage_stays {graph : Graph} {r : Refresh} (listed : r ∈ outageRefreshes) :
    ¬ Strays Venue.sdk (fun price _ => price) (Venue.config false 10) Venue.adapters graph r := by
  have either : r.reads = Venue.shown ∨ r.reads = silent := by
    obtain ⟨cycle,among,turn⟩ := List.mem_flatMap.mp listed
    obtain ⟨i,-,rfl⟩ := List.mem_map.mp turn
    simp only [outage,List.mem_cons,List.not_mem_nil,or_false] at among
    obtain rfl | rfl | rfl := among
    · exact .inl rfl
    · exact .inr rfl
    · exact .inl rfl
  rcases either with answered | silenced
  · exact not_strays_of_answers fun oids => by rw [answered]; rfl
  · exact not_strays_of_silence fun oids => by rw [silenced]; rfl

/-- What an outage leaves in place is exact, and the next discovery evicts what it no longer finds. -/
theorem active_exact_outage :
    (run .release Venue.sdk (fun price _ => price) (Venue.config false 10) Venue.adapters .initial outageRefreshes).map
      (fun graph => (graph.active 0,(graph.cache (Venue.id 0)).isSome)) = .ok ([Venue.id 1,Venue.id 2],false) ∧
    ∀ before r after, Takes (refresh .release Venue.sdk (fun price _ => price) (Venue.config false 10) Venue.adapters)
      .initial outageRefreshes before r after → after.Exact := by
  refine ⟨by decide +kernel,?_⟩
  apply (active_exact_iff .release Venue.sdk (fun price _ => price) (Venue.config false 10) Venue.adapters (fun _ => 0)
    outageRefreshes (owned_venue outage)).mpr
  intro before r after taken
  exact outage_stays (taken.mem _)

/-- A second discovery whose last batch is refused, after a new pool was read. -/
def lostBatch : List Cycle :=
  [⟨true,fun _ => some [Venue.id 0],fun _ => Venue.shown⟩,
    ⟨true,fun _ => some ((List.range 51).map Venue.id),fun _ => Venue.reads (fun oids =>
      if Venue.id 50 ∈ oids then bail "429"
      else .ok ((oids.take 2).map (Venue.object (Venue.fields "18446744073709551616" "1000000")) ++
        (oids.drop 2).map fun _ => ⟨none⟩)) Venue.noTicks⟩]

def lostBatchRefreshes : List Refresh := lostBatch.flatMap (·.refreshes Venue.adapters)

set_option maxRecDepth 10000 in
theorem active_inexact :
    ¬ ∀ before r after, Takes (refresh .release Venue.sdk (fun price _ => price) (Venue.config false 10) Venue.adapters)
      .initial lostBatchRefreshes before r after → after.Exact := by
  intro always
  have left : (run .release Venue.sdk (fun price _ => price) (Venue.config false 10) Venue.adapters .initial
      lostBatchRefreshes).map (fun graph => (graph.active 0,(graph.cache (Venue.id 1)).isSome)) =
      .ok ([Venue.id 0],true) := by decide +kernel
  cases ran : run .release Venue.sdk (fun price _ => price) (Venue.config false 10) Venue.adapters .initial
      lostBatchRefreshes with
  | error fault =>
    rw [ran] at left
    cases left
  | ok final =>
    rw [ran] at left
    obtain ⟨listed,held⟩ := Prod.mk.inj (Except.ok.inj left)
    have owners : Owners (fun _ => 0) final := run_owners (owned_venue lostBatch) ran
    obtain ⟨cached,-⟩ := takes_final _ Graph.initial_exact always ran
    have member : Venue.id 1 ∈ final.cacheIds := Option.isSome_iff_ne_none.mp held
    rw [cached] at member
    obtain ⟨i,member⟩ := member
    obtain rfl : 0 = i := owners i _ member
    rw [listed] at member
    exact absurd member (by decide +kernel)

end SuiArbitrage.Rust.Indexer
