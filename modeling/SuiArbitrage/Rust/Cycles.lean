import SuiArbitrage.Rust.Scanner

/-! What the cycle search returns: simple cycles through the base token. Only a
cycle of two hops can use one pool twice. -/
namespace SuiArbitrage.Rust.Scanner
open MachineWord Fallible

def Linked : TokenId → List Hop → TokenId → Prop
  | start,[],final => start = final
  | start,hop :: rest,final => hop.tokenIn = start ∧ Linked hop.tokenOut rest final

def Crosses (pool : PoolState) (hop : Hop) : Prop :=
  hop.poolId = pool.id ∧
    if hop.aToB then hop.tokenIn = pool.tokenA ∧ hop.tokenOut = pool.tokenB
    else hop.tokenIn = pool.tokenB ∧ hop.tokenOut = pool.tokenA

structure Cycle (pools : List PoolState) (base : TokenId) (maxHops : ℕ) (route : List Hop) : Prop where
  linked : Linked base route base
  simple : (route.map Hop.tokenIn).Nodup
  crosses : ∀ hop ∈ route, ∃ pool ∈ pools, Crosses pool hop
  long : 2 ≤ route.length
  short : route.length ≤ maxHops

theorem linked_append {start final : TokenId} {first second : List Hop} :
    Linked start (first ++ second) final ↔ ∃ middle, Linked start first middle ∧ Linked middle second final := by
  induction first generalizing start with
  | nil => simp [Linked]
  | cons hop rest ih => simp only [List.cons_append,Linked,ih,and_assoc,exists_and_left]

theorem linked_head {start final : TokenId} {route : List Hop} (linked : Linked start route final)
    (inside : 0 < route.length) : route[0].tokenIn = start := by
  cases route with
  | nil => simp at inside
  | cons hop rest => exact linked.1

theorem linked_tokenOut {start final : TokenId} {route : List Hop} (linked : Linked start route final)
    {i : ℕ} (inside : i < route.length) :
    route[i].tokenOut = if next : i + 1 < route.length then route[i + 1].tokenIn else final := by
  induction route generalizing start i with
  | nil => simp at inside
  | cons hop rest ih =>
    obtain ⟨-,linked⟩ := linked
    cases i with
    | zero =>
      cases rest with
      | nil => exact linked
      | cons second rest => exact linked.1.symm
    | succ i => simpa using ih linked (by simpa using inside)

section search
variable {pools : List PoolState} {base current : TokenId} {maxHops depth : ℕ} {visited : List TokenId}
  {path route : List Hop}

/-- The state of the search on entering a token: the path there, whose tokens are all marked. -/
structure Trail (pools : List PoolState) (base current : TokenId) (visited : List TokenId)
    (path : List Hop) : Prop where
  linked : Linked base path current
  simple : (path.map Hop.tokenIn ++ [current]).Nodup
  seen : ∀ token ∈ path.map Hop.tokenIn ++ [current], token ∈ visited
  crosses : ∀ hop ∈ path, ∃ pool ∈ pools, Crosses pool hop

theorem mem_buildAdjacency {edge : Edge} (member : edge ∈ buildAdjacency pools current) :
    edge.source = current ∧ ∃ pool ∈ pools, Crosses pool (hopOf edge) := by
  simp only [buildAdjacency,List.mem_filter,List.mem_flatMap,decide_eq_true_eq] at member
  obtain ⟨⟨pool,listed,member⟩,source⟩ := member
  refine ⟨source,pool,listed,?_⟩
  rcases List.mem_pair.mp member with rfl | rfl
  · exact ⟨rfl,rfl,rfl⟩
  · exact ⟨rfl,rfl,rfl⟩

theorem Trail.walk {edge : Edge} (trail : Trail pools base current visited path)
    (member : edge ∈ buildAdjacency pools current) :
    Linked base (path ++ [hopOf edge]) edge.target ∧
      (path ++ [hopOf edge]).map Hop.tokenIn = path.map Hop.tokenIn ++ [current] ∧
      ∀ hop ∈ path ++ [hopOf edge], ∃ pool ∈ pools, Crosses pool hop := by
  obtain ⟨source,crossed⟩ := mem_buildAdjacency member
  refine ⟨linked_append.mpr ⟨current,trail.linked,source,rfl⟩,by simp [hopOf,source],?_⟩
  intro hop found
  rcases List.mem_append.mp found with former | last
  · exact trail.crosses hop former
  · obtain rfl := List.mem_singleton.mp last
    exact crossed

theorem Trail.extend {edge : Edge} (trail : Trail pools base current visited path)
    (member : edge ∈ buildAdjacency pools current) (fresh : edge.target ∉ visited) :
    Trail pools base edge.target (edge.target :: visited) (path ++ [hopOf edge]) := by
  obtain ⟨linked,tokens,crosses⟩ := trail.walk member
  refine ⟨linked,?_,?_,crosses⟩
  · rw [tokens]
    refine List.nodup_append.mpr ⟨trail.simple,List.nodup_singleton _,?_⟩
    rintro token old _ new rfl
    obtain rfl := List.mem_singleton.mp new
    exact fresh (trail.seen _ old)
  · intro token found
    rw [tokens] at found
    rcases List.mem_append.mp found with old | new
    · exact List.mem_cons_of_mem _ (trail.seen token old)
    · exact List.mem_singleton.mp new ▸ List.mem_cons_self

theorem dfs_cycle (trail : Trail pools base current visited path)
    (found : route ∈ dfs (buildAdjacency pools) base maxHops depth current visited path) :
    Cycle pools base maxHops route := by
  induction depth generalizing current visited path with
  | zero => cases found
  | succ depth ih =>
    simp only [dfs,List.mem_flatMap] at found
    obtain ⟨edge,member,found⟩ := found
    split at found
    · rename_i closes
      split at found
      · rename_i length
        obtain rfl := List.mem_singleton.mp found
        obtain ⟨linked,tokens,crosses⟩ := trail.walk member
        exact ⟨closes ▸ linked,tokens ▸ trail.simple,crosses,by simpa using length.1,by simpa using length.2⟩
      · cases found
    · split at found
      · rename_i fresh
        exact ih (trail.extend member fresh.1) found
      · cases found

theorem findCycles_cycle (found : route ∈ findCycles (buildAdjacency pools) base maxHops) :
    Cycle pools base maxHops route :=
  dfs_cycle ⟨by simp only [Linked],by simp,by simp,by simp⟩ found

end search

section complete
variable {pools : List PoolState} {base current : TokenId} {maxHops depth : ℕ} {visited : List TokenId}
  {path route : List Hop}

def Offered (pools : List PoolState) (hop : Hop) : Prop :=
  ∃ pool ∈ pools, Crosses pool hop ∧ hop.dex = pool.dex

theorem offered_iff {hop : Hop} :
    Offered pools hop ↔ ∃ edge ∈ buildAdjacency pools hop.tokenIn, hopOf edge = hop := by
  constructor
  · rintro ⟨pool,listed,crosses,venue⟩
    obtain ⟨poolId,dex,tokenIn,tokenOut,aToB⟩ := hop
    obtain ⟨same,tokens⟩ := crosses
    refine ⟨⟨poolId,dex,tokenIn,tokenOut,aToB⟩,?_,rfl⟩
    simp only [buildAdjacency,List.mem_filter,List.mem_flatMap,decide_eq_true_eq]
    refine ⟨⟨pool,listed,?_⟩,trivial⟩
    simp only at same venue tokens
    cases aToB with
    | true =>
      obtain ⟨rfl,rfl⟩ := tokens
      simp [poolEdges,same,venue]
    | false =>
      obtain ⟨rfl,rfl⟩ := tokens
      simp [poolEdges,same,venue]
  · rintro ⟨edge,member,rfl⟩
    simp only [buildAdjacency,List.mem_filter,List.mem_flatMap] at member
    obtain ⟨⟨pool,listed,member⟩,-⟩ := member
    rcases List.mem_pair.mp member with rfl | rfl
    · exact ⟨pool,listed,⟨rfl,rfl,rfl⟩,rfl⟩
    · exact ⟨pool,listed,⟨rfl,rfl,rfl⟩,rfl⟩

theorem dfs_offered (before : ∀ hop ∈ path, Offered pools hop)
    (found : route ∈ dfs (buildAdjacency pools) base maxHops depth current visited path) :
    ∀ hop ∈ route, Offered pools hop := by
  induction depth generalizing current visited path with
  | zero => cases found
  | succ depth ih =>
    simp only [dfs,List.mem_flatMap] at found
    obtain ⟨edge,member,found⟩ := found
    have extended : ∀ hop ∈ path ++ [hopOf edge], Offered pools hop := by
      intro hop inside
      rcases List.mem_append.mp inside with former | last
      · exact before hop former
      · obtain rfl := List.mem_singleton.mp last
        obtain ⟨rfl,-⟩ := mem_buildAdjacency member
        exact offered_iff.mpr ⟨edge,member,rfl⟩
    split at found
    · split at found
      · obtain rfl := List.mem_singleton.mp found
        exact extended
      · cases found
    · split at found
      · exact ih extended found
      · cases found

/-- The search follows every walk back to the base that stays off the marked tokens. -/
theorem dfs_complete {rest : List Hop} (nonempty : rest ≠ []) (linked : Linked current rest base)
    (offered : ∀ hop ∈ rest, Offered pools hop) (simple : (rest.map Hop.tokenIn).Nodup)
    (fresh : ∀ hop ∈ rest.tail, hop.tokenIn ∉ visited) (marked : base ∈ visited) (deep : rest.length ≤ depth)
    (long : 2 ≤ path.length + rest.length) (short : path.length + rest.length ≤ maxHops) :
    path ++ rest ∈ dfs (buildAdjacency pools) base maxHops depth current visited path := by
  induction rest generalizing depth current visited path with
  | nil => exact absurd rfl nonempty
  | cons hop rest ih =>
    obtain ⟨rfl,linked⟩ := linked
    obtain ⟨edge,member,same⟩ := offered_iff.mp (offered hop List.mem_cons_self)
    have target : edge.target = hop.tokenOut := congrArg Hop.tokenOut same
    cases depth with
    | zero => simp at deep
    | succ depth =>
      simp only [dfs,List.mem_flatMap]
      refine ⟨edge,member,?_⟩
      cases rest with
      | nil =>
        obtain rfl : hop.tokenOut = base := linked
        rw [if_pos target,if_pos ⟨long,short⟩,same]
        exact List.mem_singleton_self _
      | cons next rest =>
        have entered : next.tokenIn = hop.tokenOut := linked.1
        have new : edge.target ∉ visited := by
          rw [target,← entered]
          exact fresh next List.mem_cons_self
        have inner : edge.target ≠ base := fun closes => new (closes ▸ marked)
        have longer : (path ++ [hop]).length = path.length + 1 := by simp
        simp only [List.length_cons] at deep short long
        rw [if_neg inner,if_pos ⟨new,by omega⟩,same,target,
          List.append_cons path hop (next :: rest)]
        rw [List.map_cons,List.nodup_cons] at simple
        apply ih (by simp) linked (fun hop inside => offered hop (List.mem_cons_of_mem _ inside)) simple.2
        · intro later inside
          rw [List.mem_cons,not_or,← entered]
          refine ⟨?_,fresh later (List.mem_cons_of_mem _ inside)⟩
          intro repeated
          rw [List.map_cons,List.nodup_cons] at simple
          exact simple.2.1 (repeated ▸ List.mem_map_of_mem inside)
        · exact List.mem_cons_of_mem _ marked
        · rw [List.length_cons]
          omega
        · rw [longer,List.length_cons]
          omega
        · rw [longer,List.length_cons]
          omega

theorem mem_findCycles :
    route ∈ findCycles (buildAdjacency pools) base maxHops ↔
      Cycle pools base maxHops route ∧ ∀ hop ∈ route, Offered pools hop := by
  constructor
  · intro found
    exact ⟨findCycles_cycle found,dfs_offered (by simp) found⟩
  · rintro ⟨cycle,offered⟩
    have nonempty : route ≠ [] := by
      rintro rfl
      exact absurd cycle.long (by simp)
    have atBase : ∀ hop ∈ route.tail, hop.tokenIn ∉ [base] := by
      cases route with
      | nil => simp
      | cons hop rest =>
        intro later inside
        rw [List.mem_singleton,← cycle.linked.1]
        have simple := cycle.simple
        rw [List.map_cons,List.nodup_cons] at simple
        intro repeated
        exact simple.1 (repeated ▸ List.mem_map_of_mem inside)
    have long : 2 ≤ ([] : List Hop).length + route.length := by simpa using cycle.long
    exact dfs_complete nonempty cycle.linked offered cycle.simple atBase (List.mem_singleton_self _) cycle.short
      long (by simpa using cycle.short)

theorem Offered.perm {pools' : List PoolState} (permuted : pools'.Perm pools) {hop : Hop} :
    Offered pools' hop ↔ Offered pools hop := by
  simp only [Offered,permuted.mem_iff]

theorem Cycle.perm {pools' : List PoolState} (permuted : pools'.Perm pools) :
    Cycle pools' base maxHops route ↔ Cycle pools base maxHops route := by
  constructor
  · rintro ⟨linked,simple,crosses,long,short⟩
    exact ⟨linked,simple,by simpa only [permuted.mem_iff] using crosses,long,short⟩
  · rintro ⟨linked,simple,crosses,long,short⟩
    exact ⟨linked,simple,by simpa only [permuted.mem_iff] using crosses,long,short⟩

theorem mem_findCycles_perm {pools' : List PoolState} (permuted : pools'.Perm pools) :
    route ∈ findCycles (buildAdjacency pools') base maxHops ↔
      route ∈ findCycles (buildAdjacency pools) base maxHops := by
  simp only [mem_findCycles,Cycle.perm permuted,Offered.perm permuted]

end complete

section lookup
variable {pools : List PoolState}

theorem lookup_mem {id : PoolId} {pool : PoolState} (found : lookup pools id = some pool) :
    pool ∈ pools ∧ pool.id = id := by
  refine ⟨List.mem_reverse.mp (List.mem_of_find?_eq_some found),?_⟩
  simpa using List.find?_some found

theorem lookup_of_mem (unique : (pools.map PoolState.id).Nodup) {pool : PoolState} (member : pool ∈ pools) :
    lookup pools pool.id = some pool := by
  cases found : lookup pools pool.id with
  | none =>
    have absent := List.find?_eq_none.mp found pool (List.mem_reverse.mpr member)
    simp at absent
  | some other =>
    obtain ⟨listed,same⟩ := lookup_mem found
    rw [List.inj_on_of_nodup_map unique listed member same]

theorem lookup_crosses (unique : (pools.map PoolState.id).Nodup) {pool : PoolState} {hop : Hop} (member : pool ∈ pools)
    (crosses : Crosses pool hop) : lookup pools hop.poolId = some pool := by
  rw [crosses.1]
  exact lookup_of_mem unique member

theorem lookup_perm {pools' : List PoolState} (unique : (pools.map PoolState.id).Nodup)
    (permuted : pools'.Perm pools) : lookup pools' = lookup pools := by
  have unique' : (pools'.map PoolState.id).Nodup := (permuted.map _).nodup_iff.mpr unique
  ext1 id
  cases found : lookup pools id with
  | some pool =>
    obtain ⟨listed,rfl⟩ := lookup_mem found
    exact lookup_of_mem unique' (permuted.mem_iff.mpr listed)
  | none =>
    cases found' : lookup pools' id with
    | none => rfl
    | some pool =>
      obtain ⟨listed,rfl⟩ := lookup_mem found'
      rw [lookup_of_mem unique (permuted.mem_iff.mp listed)] at found
      cases found

end lookup

section distinct
variable {pools : List PoolState} {base : TokenId} {maxHops : ℕ} {route : List Hop}

theorem Crosses.same_tokens {pool : PoolState} {first second : Hop} (one : Crosses pool first)
    (two : Crosses pool second) (same : first.aToB = second.aToB) : first.tokenIn = second.tokenIn := by
  obtain ⟨-,one⟩ := one
  obtain ⟨-,two⟩ := two
  rw [← same] at two
  split at one
  · rename_i forward
    rw [if_pos forward] at two
    exact one.1.trans two.1.symm
  · rename_i backward
    rw [if_neg backward] at two
    exact one.1.trans two.1.symm

theorem Crosses.opposite_tokens {pool : PoolState} {first second : Hop} (one : Crosses pool first)
    (two : Crosses pool second) (opposite : first.aToB ≠ second.aToB) :
    first.tokenIn = second.tokenOut ∧ first.tokenOut = second.tokenIn := by
  obtain ⟨-,one⟩ := one
  obtain ⟨-,two⟩ := two
  split at one
  · rename_i forward
    have backward : ¬ second.aToB = true := fun forward' => opposite (forward.trans forward'.symm)
    rw [if_neg backward] at two
    exact ⟨one.1.trans two.2.symm,one.2.trans two.1.symm⟩
  · rename_i backward
    have forward : second.aToB = true := by
      cases direction : second.aToB with
      | true => rfl
      | false => exact absurd ((Bool.eq_false_iff.mpr backward).trans direction.symm) opposite
    rw [if_pos forward] at two
    exact ⟨one.1.trans two.2.symm,one.2.trans two.1.symm⟩

theorem Cycle.tokenIn_inj (cycle : Cycle pools base maxHops route) {i j : ℕ} (first : i < route.length)
    (second : j < route.length) (same : route[i].tokenIn = route[j].tokenIn) : i = j := by
  have left : i < (route.map Hop.tokenIn).length := by simpa using first
  have right : j < (route.map Hop.tokenIn).length := by simpa using second
  have tokens : (route.map Hop.tokenIn)[i] = (route.map Hop.tokenIn)[j] := by simpa using same
  exact cycle.simple.getElem_inj_iff.mp tokens

/-- A route that uses a pool twice goes through it and straight back. -/
theorem Cycle.distinct_or_round_trip (unique : (pools.map PoolState.id).Nodup)
    (cycle : Cycle pools base maxHops route) :
    (route.map Hop.poolId).Nodup ∨ ∃ first second pool, route = [first,second] ∧ pool ∈ pools ∧
      Crosses pool first ∧ Crosses pool second ∧ first.aToB ≠ second.aToB := by
  by_cases distinct : (route.map Hop.poolId).Nodup
  · exact .inl distinct
  right
  simp only [List.Nodup,List.pairwise_iff_getElem,List.length_map,List.getElem_map,not_forall,not_not] at distinct
  obtain ⟨i,j,iInside,jInside,order,samePool⟩ := distinct
  obtain ⟨pool,listed,one⟩ := cycle.crosses _ (List.getElem_mem iInside)
  obtain ⟨pool',listed',two⟩ := cycle.crosses _ (List.getElem_mem jInside)
  obtain rfl : pool' = pool := List.inj_on_of_nodup_map unique listed' listed
    (two.1.symm.trans (samePool.symm.trans one.1))
  have opposite : route[i].aToB ≠ route[j].aToB := fun same =>
    order.ne (cycle.tokenIn_inj iInside jInside (one.same_tokens two same))
  obtain ⟨inOut,outIn⟩ := one.opposite_tokens two opposite
  have outI := linked_tokenOut cycle.linked iInside
  have outJ := linked_tokenOut cycle.linked jInside
  rw [dif_pos (by omega)] at outI
  have next : i + 1 = j := cycle.tokenIn_inj (by omega) jInside (outI.symm.trans outIn)
  have last : ¬ j + 1 < route.length := by
    intro more
    rw [dif_pos more] at outJ
    have back := cycle.tokenIn_inj iInside more (inOut.trans outJ)
    omega
  rw [dif_neg last] at outJ
  have start := linked_head cycle.linked (by omega)
  have first : i = 0 := cycle.tokenIn_inj iInside (by omega) (inOut.trans (outJ.trans start.symm))
  subst first
  obtain rfl : j = 1 := by omega
  obtain ⟨first,second,rfl⟩ := List.length_eq_two.mp (show route.length = 2 by omega)
  exact ⟨first,second,pool',rfl,listed,one,two,opposite⟩

end distinct

end SuiArbitrage.Rust.Scanner
