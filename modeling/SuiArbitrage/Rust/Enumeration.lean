import SuiArbitrage.Rust.Cycles

/-! The cycle search enumerates the simple cycles of the pool graph, each of them once.
Pools may be parallel, and a pool of a token with itself is an edge that no simple cycle
can use. -/
namespace SuiArbitrage.Rust.Scanner

/-- A directed edge of the pool. Only the first direction sets the flag. -/
structure Directed (pool : PoolState) (hop : Hop) : Prop where
  id : hop.poolId = pool.id
  dex : hop.dex = pool.dex
  tokens : hop.tokenIn = pool.tokenA ∧ hop.tokenOut = pool.tokenB ∨
    hop.tokenIn = pool.tokenB ∧ hop.tokenOut = pool.tokenA
  forward : hop.aToB = true ↔ hop.tokenIn = pool.tokenA ∧ hop.tokenOut = pool.tokenB

structure SimpleCycle (pools : List PoolState) (base : TokenId) (maxHops : ℕ) (route : List Hop) : Prop where
  long : 2 ≤ route.length
  short : route.length ≤ maxHops
  edges : ∀ hop ∈ route, ∃ pool ∈ pools, Directed pool hop
  starts : ∀ hop ∈ route.head?, hop.tokenIn = base
  linked : route.IsChain fun hop next => hop.tokenOut = next.tokenIn
  ends : ∀ hop ∈ route.getLast?, hop.tokenOut = base
  inner : (route.tail.map Hop.tokenIn).Nodup
  avoids : base ∉ route.tail.map Hop.tokenIn

section simple
variable {pools : List PoolState} {base : TokenId} {maxHops : ℕ} {route : List Hop}

theorem linked_iff {start final : TokenId} (nonempty : route ≠ []) :
    Linked start route final ↔ (∀ hop ∈ route.head?, hop.tokenIn = start) ∧
      route.IsChain (fun hop next => hop.tokenOut = next.tokenIn) ∧ ∀ hop ∈ route.getLast?, hop.tokenOut = final := by
  induction route generalizing start with
  | nil => contradiction
  | cons hop rest ih =>
    cases rest with
    | nil => simp [Linked]
    | cons next rest =>
      rw [Linked,ih (List.cons_ne_nil _ _)]
      simp only [List.head?_cons,Option.mem_some_iff,forall_eq',List.isChain_cons_cons,List.getLast?_cons_cons]
      constructor
      · rintro ⟨start,entered,chain,final⟩
        exact ⟨start,⟨entered.symm,chain⟩,final⟩
      · rintro ⟨start,⟨entered,chain⟩,final⟩
        exact ⟨start,entered.symm,chain,final⟩

theorem Cycle.no_loop (cycle : Cycle pools base maxHops route) {hop : Hop} (member : hop ∈ route) :
    hop.tokenIn ≠ hop.tokenOut := by
  obtain ⟨i,inside,rfl⟩ := List.getElem_of_mem member
  have long := cycle.long
  intro loop
  rw [linked_tokenOut cycle.linked inside] at loop
  split at loop
  · rename_i more
    have stays := cycle.tokenIn_inj inside more loop
    omega
  · rename_i last
    have first := cycle.tokenIn_inj inside (by omega) (loop.trans (linked_head cycle.linked (by omega)).symm)
    omega

theorem Crosses.directed {pool : PoolState} {hop : Hop} (crosses : Crosses pool hop) (venue : hop.dex = pool.dex)
    (no_loop : hop.tokenIn ≠ hop.tokenOut) : Directed pool hop := by
  obtain ⟨id,tokens⟩ := crosses
  cases direction : hop.aToB with
  | true =>
    rw [direction,if_pos rfl] at tokens
    exact ⟨id,venue,.inl tokens,iff_of_true direction tokens⟩
  | false =>
    rw [direction,if_neg Bool.false_ne_true] at tokens
    refine ⟨id,venue,.inr tokens,iff_of_false (ne_true_of_eq_false direction) ?_⟩
    intro ⟨source,target⟩
    exact no_loop (source.trans tokens.2.symm)

theorem Directed.crosses {pool : PoolState} {hop : Hop} (directed : Directed pool hop) : Crosses pool hop := by
  refine ⟨directed.id,?_⟩
  split
  · rename_i forward
    exact directed.forward.mp forward
  · rename_i backward
    exact directed.tokens.resolve_left fun tokens => backward (directed.forward.mpr tokens)

theorem simple_iff (nonempty : route ≠ []) (starts : ∀ hop ∈ route.head?, hop.tokenIn = base) :
    (route.map Hop.tokenIn).Nodup ↔ (route.tail.map Hop.tokenIn).Nodup ∧ base ∉ route.tail.map Hop.tokenIn := by
  cases route with
  | nil => contradiction
  | cons hop rest =>
    rw [List.map_cons,List.nodup_cons,starts hop rfl,List.tail_cons]
    exact and_comm

theorem simpleCycle_iff :
    SimpleCycle pools base maxHops route ↔ Cycle pools base maxHops route ∧ ∀ hop ∈ route, Offered pools hop := by
  constructor
  · intro simple
    have nonempty : route ≠ [] := List.ne_nil_of_length_pos (by have := simple.long; omega)
    refine ⟨⟨?_,?_,?_,simple.long,simple.short⟩,?_⟩
    · exact (linked_iff nonempty).mpr ⟨simple.starts,simple.linked,simple.ends⟩
    · exact (simple_iff nonempty simple.starts).mpr ⟨simple.inner,simple.avoids⟩
    · intro hop member
      obtain ⟨pool,listed,directed⟩ := simple.edges hop member
      exact ⟨pool,listed,directed.crosses⟩
    · intro hop member
      obtain ⟨pool,listed,directed⟩ := simple.edges hop member
      exact ⟨pool,listed,directed.crosses,directed.dex⟩
  · intro ⟨cycle,offered⟩
    have nonempty : route ≠ [] := List.ne_nil_of_length_pos (by have := cycle.long; omega)
    obtain ⟨starts,linked,ends⟩ := (linked_iff nonempty).mp cycle.linked
    obtain ⟨inner,avoids⟩ := (simple_iff nonempty starts).mp cycle.simple
    refine ⟨cycle.long,cycle.short,?_,starts,linked,ends,inner,avoids⟩
    intro hop member
    obtain ⟨pool,listed,crosses,venue⟩ := offered hop member
    exact ⟨pool,listed,crosses.directed venue (cycle.no_loop member)⟩

end simple

section distinct
variable {adj : TokenId → List Edge} {base current : TokenId} {maxHops depth : ℕ} {visited : List TokenId}
  {path route : List Hop}

theorem hopOf_injective : Function.Injective hopOf := by
  intro first second same
  obtain ⟨id,dex,source,target,aToB⟩ := Hop.mk.inj same
  exact Edge.mk.injEq .. ▸ ⟨id,dex,source,target,aToB⟩

/-- What is found on a path goes on with one of the edges there. -/
theorem dfs_extends (found : route ∈ dfs adj base maxHops depth current visited path) :
    ∃ edge ∈ adj current, path ++ [hopOf edge] <+: route := by
  induction depth generalizing current visited path with
  | zero => cases found
  | succ depth ih =>
    simp only [dfs,List.mem_flatMap] at found
    obtain ⟨edge,member,found⟩ := found
    refine ⟨edge,member,?_⟩
    split at found
    · split at found
      · rw [List.mem_singleton.mp found]
      · cases found
    · split at found
      · obtain ⟨next,-,longer⟩ := ih found
        exact (List.prefix_append _ _).trans longer
      · cases found

theorem dfs_nodup (edges : ∀ token, (adj token).Nodup) : (dfs adj base maxHops depth current visited path).Nodup := by
  induction depth generalizing current visited path with
  | zero => exact List.nodup_nil
  | succ depth ih =>
    rw [dfs,List.nodup_flatMap]
    constructor
    · intro edge _
      dsimp only
      split
      · split
        · exact List.nodup_singleton _
        · exact List.nodup_nil
      · split
        · exact ih
        · exact List.nodup_nil
    -- Two edges part the routes found through them right after the path.
    · have begins {edge : Edge} {route : List Hop} (found : route ∈
          if edge.target = base then if 2 ≤ path.length + 1 ∧ path.length + 1 ≤ maxHops then [path ++ [hopOf edge]] else []
          else if edge.target ∉ visited ∧ path.length + 1 < maxHops then
            dfs adj base maxHops depth edge.target (edge.target :: visited) (path ++ [hopOf edge])
          else []) : path ++ [hopOf edge] <+: route := by
        split at found
        · split at found
          · rw [List.mem_singleton.mp found]
          · cases found
        · split at found
          · obtain ⟨next,-,longer⟩ := dfs_extends found
            exact (List.prefix_append _ _).trans longer
          · cases found
      apply (edges current).imp
      intro first second differ route one two
      have length : (path ++ [hopOf first]).length = (path ++ [hopOf second]).length := by simp
      have same := List.prefix_of_prefix_length_le (begins one) (begins two) length.le
      have last := List.append_cancel_left (same.eq_of_length length)
      exact differ (hopOf_injective (List.singleton_inj.mp last))

theorem buildAdjacency_nodup {pools : List PoolState} (unique : (pools.map PoolState.id).Nodup) (token : TokenId) :
    (buildAdjacency pools token).Nodup := by
  apply List.Nodup.filter
  rw [List.nodup_flatMap]
  constructor
  · intro pool _
    simp [poolEdges]
  · apply (List.pairwise_map.mp unique).imp
    intro first second differ edge one two
    have ids {pool : PoolState} (member : edge ∈ poolEdges pool) : edge.poolId = pool.id := by
      rcases List.mem_pair.mp member with rfl | rfl <;> rfl
    exact differ ((ids one).symm.trans (ids two))

end distinct

/-- The search returns exactly the simple cycles, each of them once. -/
theorem findCycles_exact (pools : List PoolState) (unique : (pools.map PoolState.id).Nodup) (base : TokenId)
    (maxHops : ℕ) : (findCycles (buildAdjacency pools) base maxHops).Nodup ∧
      ∀ route, route ∈ findCycles (buildAdjacency pools) base maxHops ↔ SimpleCycle pools base maxHops route := by
  refine ⟨dfs_nodup (buildAdjacency_nodup unique),fun route => ?_⟩
  rw [mem_findCycles,simpleCycle_iff]

/-- Two parallel pools and one of a token with itself: of the four round trips two go out
and back through one pool. -/
theorem findCycles_exact_parallel : ∃ pools : List PoolState, pools.map PoolState.id = ["first","second","loop"] ∧
    (findCycles (buildAdjacency pools) "A" 2).length = 4 ∧ (findCycles (buildAdjacency pools) "A" 2).Nodup ∧
    ∀ route, route ∈ findCycles (buildAdjacency pools) "A" 2 ↔ SimpleCycle pools "A" 2 route := by
  refine ⟨[.v2 "first" .ammV2 "A" "B" 1 1 0,.v2 "second" .ammV2 "B" "A" 1 1 0,.v2 "loop" .ammV2 "B" "B" 1 1 0],rfl,?_,?_⟩
  · decide +kernel
  · exact findCycles_exact _ (by decide) "A" 2

end SuiArbitrage.Rust.Scanner
