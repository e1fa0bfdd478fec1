import SuiArbitrage.Lib.TernarySearch
import SuiArbitrage.Rust.Builds
import SuiArbitrage.Rust.ScanComplete

/-! When the size optimizer finds the best size of a route over constant-product
pools. Its objective is a composition of floors, not a curve with one peak, so that a
comparison of two sizes can lead away from every best one. -/
namespace SuiArbitrage.Rust
open MachineWord Fallible TernarySearch

namespace Sizing

/-- What the search compares: a size without a value counts as the least `i128`. -/
def score (f : U64 → Rust (Option ℤ)) (x : ℕ) : ℤ :=
  match f (wrap 64 x) with
  | .ok value => value.getD i128Min
  | .error _ => i128Min

section search
variable {build : Build} {f : U64 → Rust (Option ℤ)} {lo hi : U64} {rounds : ℕ}

theorem score_of_ok {x : ℕ} {y : U64} {value : Option ℤ} (same : y.val = x) (quoted : f y = .ok value) :
    score f x = value.getD i128Min := by
  have wrapped : wrap 64 x = y := by
    rw [← same]
    exact Fin.ext (wrap_val_of_lt y.isLt)
  rw [score,wrapped,quoted]

/-- The last window has exactly the sizes that the search never drops. -/
theorem narrow_keeps {lo' hi' : U64} (ordered : lo ≤ hi) (ran : narrow build f rounds lo hi = .ok (lo',hi')) (x : U64) :
    lo' ≤ x ∧ x ≤ hi' ↔ Keeps (score f) x.val lo.val hi.val := by
  induction rounds generalizing lo hi with
  | zero => cases ran
  | succ rounds ih =>
    by_cases wide : 2 < hi.val - lo.val
    · obtain ⟨m1,m2,next,previous,lower,upper,onward,back,step⟩ := narrow_wide build f rounds ordered wide
      rw [step] at ran
      simp only [bind_ok] at ran
      obtain ⟨v1,low,v2,high,ran⟩ := ran
      have first : score f (lowerThird lo.val hi.val) = v1.getD i128Min := score_of_ok lower low
      have second : score f (upperThird lo.val hi.val) = v2.getD i128Min := score_of_ok upper high
      split at ran
      · rename_i rising
        have after : next.val = lowerThird lo.val hi.val + 1 := by rw [onward,lower,lowerThird]
        rw [ih (show next ≤ hi by rw [Fin.le_def]; omega) ran,keeps_rise wide (by rwa [first,second]),after]
      · rename_i falling
        have before : previous.val = upperThird lo.val hi.val - 1 := by rw [upperThird]; omega
        rw [ih (show lo ≤ previous by rw [Fin.le_def]; omega) ran,
          keeps_fall wide (by rwa [first,second,← not_lt]),before]
    · rw [narrow_near ordered wide] at ran
      obtain ⟨rfl,rfl⟩ := Prod.mk.inj (Except.ok.inj ran)
      rw [keeps_near (by omega)]
      rfl

/-- The scan from `x` on has kept the best value of the sizes it passed. -/
structure Scanned (f : U64 → Rust (Option ℤ)) (x hi : U64) (best result : Option (U64 × ℤ)) : Prop where
  kept : ∀ former, best = some former → ∃ found, result = some found ∧ former.2 ≤ found.2
  reached : ∀ y value, x ≤ y → y ≤ hi → f y = .ok (some value) → ∃ found, result = some found ∧ value ≤ found.2
  genuine : ∀ found, result = some found →
    best = some found ∨ x ≤ found.1 ∧ found.1 ≤ hi ∧ f found.1 = .ok (some found.2)

theorem scan_ok {x : U64} {best result : Option (U64 × ℤ)} (ran : scan build f hi rounds x best = .ok result) :
    Scanned f x hi best result := by
  have below : hi.val + 1 < 2^64 := by
    have highest := hi.isLt
    by_contra top
    exact scan_top (by omega) ran
  induction rounds generalizing x best with
  | zero => cases ran
  | succ rounds ih =>
    by_cases inside : x ≤ hi
    · have bound : x.val ≤ hi.val := inside
      have next : add build x 1 = .ok ⟨x.val + 1,by omega⟩ := add_of_lt (show x.val + 1 < 2^64 by omega)
      rw [scan,if_pos inside,next] at ran
      simp only [ok_bind] at ran
      rw [bind_ok] at ran
      obtain ⟨value,quoted,ran⟩ := ran
      obtain ⟨kept,reached,genuine⟩ := ih ran
      have later : ∀ {y : U64}, x ≤ y → y ≠ x → (⟨x.val + 1,by omega⟩ : U64) ≤ y := by
        intro y after distinct
        have strict := lt_of_le_of_ne after distinct.symm
        exact strict
      have earlier : x ≤ (⟨x.val + 1,by omega⟩ : U64) := Nat.le_succ x.val
      cases value with
      | none =>
        refine ⟨kept,fun y value after last found => ?_,fun found same => ?_⟩
        · by_cases here : y = x
          · rw [here,quoted] at found
            cases found
          · exact reached y value (later after here) last found
        · rcases genuine found same with former | ⟨after,last,valued⟩
          · exact .inl former
          · exact .inr ⟨earlier.trans after,last,valued⟩
      | some value =>
        obtain ⟨held,heldEq,least,former,source⟩ := FirstMax.keep_covers Prod.snd best (x,value)
        obtain ⟨final,finalEq,above⟩ := kept held heldEq
        refine ⟨fun start same => ⟨final,finalEq,(former start same).trans above⟩,
          fun y other after last found => ?_,fun found same => ?_⟩
        · by_cases here : y = x
          · rw [here,quoted] at found
            obtain rfl := Option.some.inj (Except.ok.inj found)
            exact ⟨final,finalEq,least.trans above⟩
          · exact reached y other (later after here) last found
        · rcases genuine found same with start | ⟨after,last,valued⟩
          · obtain rfl := Option.some.inj (heldEq.symm.trans start)
            rcases source with rfl | start
            · exact .inr ⟨le_rfl,inside,quoted⟩
            · exact .inl start
          · exact .inr ⟨earlier.trans after,last,valued⟩
    · rw [scan,if_neg inside] at ran
      obtain rfl := Except.ok.inj ran
      refine ⟨fun former same => ⟨former,same,le_rfl⟩,fun y value after last => ?_,fun found same => .inl same⟩
      exact absurd (after.trans last) inside

/-- On a range where every size is quoted and the largest has a value, the search
returns unless it climbs to the last `u64`, and it returns the best size it never drops. -/
theorem ternaryMax_keeps (build : Build) (ordered : lo ≤ hi) (quotes : ∀ x, lo ≤ x → x ≤ hi → ∃ value, f x = .ok value) {top : ℤ}
    (feasible : f hi = .ok (some top)) (stays : ¬ (hi.val + 1 = 2^64 ∧ Climbs f hi lo)) :
    ∃ result, ternaryMax build f lo hi = .ok result ∧
      (∀ x value, Keeps (score f) x.val lo.val hi.val → f x = .ok (some value) →
        ∃ found, result = some found ∧ value ≤ found.2) ∧
      ∀ found, result = some found →
        Keeps (score f) found.1.val lo.val hi.val ∧ f found.1 = .ok (some found.2) := by
  cases searched : ternaryMax build f lo hi with
  | error fault =>
    rcases ternaryMax_error searched with ⟨x,low,high,faulty⟩ | ⟨last,-,climbs⟩
    · obtain ⟨value,quoted⟩ := quotes x low high
      rw [quoted] at faulty
      cases faulty
    · exact absurd ⟨last,climbs⟩ stays
  | ok result =>
    have bounded : feasibleUpperBound build f lo hi = .ok (some hi) := by
      rw [feasibleUpperBound,feasible,ok_bind]
      rfl
    rw [ternaryMax,if_neg (not_lt.mpr ordered),bounded,ok_some_andThen,bind_ok] at searched
    obtain ⟨⟨lo',hi'⟩,narrowed,searched⟩ := searched
    obtain ⟨kept,reached,genuine⟩ := scan_ok searched
    have window := narrow_keeps ordered narrowed
    refine ⟨result,rfl,fun x value keeps quoted => ?_,fun found same => ?_⟩
    · obtain ⟨low,high⟩ := (window x).mpr keeps
      exact reached x value low high quoted
    · rcases genuine found same with nothing | ⟨low,high,valued⟩
      · cases nothing
      · exact ⟨(window found.1).mp ⟨low,high⟩,valued⟩

end search

end Sizing

namespace Scanner
open Sizing

def ConstantProductOnly (pools : List PoolState) : Prop :=
  ∀ pool ∈ pools, ∃ reserveA reserveB feeBps, pool.kind = .v2 reserveA reserveB feeBps

section quotes
variable {build : Build} {pools : List PoolState} {route : List Hop} {params : ScanParams} {input : U64}

theorem quoteHop_larger {pool : PoolState} {hop : Hop} {reserveA reserveB feeBps larger out : U64}
    {result : Option U64} (kind : pool.kind = .v2 reserveA reserveB feeBps) (ordered : input ≤ larger)
    (ok : quoteHop .debug pool hop input = .ok (some out)) (ran : quoteHop .debug pool hop larger = .ok result) :
    ∃ more, result = some more ∧ out ≤ more := by
  simp only [quoteHop,kind] at ok ran
  split at ok
  · rename_i forward
    rw [if_pos forward] at ran
    exact Amm.getAmountOut_larger ordered ok ran
  · rename_i backward
    rw [if_neg backward] at ran
    exact Amm.getAmountOut_larger ordered ok ran

/-- Only small sizes fail to be quoted: an output of nothing cannot be traded on. -/
theorem collect_larger (constant : ConstantProductOnly pools) {larger : U64} {outs : List U64}
    {result : Option (List U64)} (ordered : input ≤ larger)
    (ok : collect .debug (lookup pools) route input = .ok (some outs))
    (ran : collect .debug (lookup pools) route larger = .ok result) : result.isSome := by
  induction route generalizing input larger outs result with
  | nil =>
    obtain rfl := Except.ok.inj ran
    rfl
  | cons hop rest ih =>
    obtain ⟨pool,out,tail,found,quoted,onward,rfl⟩ := collect_cons.mp ok
    obtain ⟨reserveA,reserveB,feeBps,kind⟩ := constant pool (lookup_mem found).1
    rw [collect,found,ok_some_andThen,andThen_ok] at ran
    rcases ran with ⟨nothing,-⟩ | ⟨more,quoted',ran⟩
    · obtain ⟨more,absurdity,-⟩ := quoteHop_larger kind ordered quoted nothing
      cases absurdity
    · obtain ⟨more',same,grown⟩ := quoteHop_larger kind ordered quoted quoted'
      obtain rfl := Option.some.inj same
      rw [andThen_ok] at ran
      rcases ran with ⟨nothing,-⟩ | ⟨tail',collected,returned⟩
      · exact absurd (ih grown onward nothing) (by simp)
      · obtain rfl := Except.ok.inj returned
        rfl

theorem simulateCollect_returns {result : Option ℤ}
    (ok : netSigned build (lookup pools) route params input = .ok result) :
    ∃ outs, simulateCollect build (lookup pools) route input = .ok outs ∧ (result.isSome → outs.isSome) := by
  rw [netSigned,simulate,andThen_ok] at ok
  rcases ok with ⟨nothing,rfl⟩ | ⟨output,simulated,-⟩
  · rw [andThen_ok] at nothing
    rcases nothing with ⟨nothing,-⟩ | ⟨outs,collected,-⟩
    · exact ⟨none,nothing,fun found => found⟩
    · exact ⟨some outs,collected,fun _ => rfl⟩
  · obtain ⟨outs,collected,-⟩ := andThen_some.mp simulated
    exact ⟨some outs,collected,fun _ => rfl⟩

theorem netSigned_larger (constant : ConstantProductOnly pools) {larger : U64} {net : ℤ} {result : Option ℤ}
    (ordered : input ≤ larger) (ok : netSigned .debug (lookup pools) route params input = .ok (some net))
    (ran : netSigned .debug (lookup pools) route params larger = .ok result) : ∃ more, result = some more := by
  obtain ⟨output,simulated,-⟩ := netSigned_some.mp ok
  obtain ⟨outs,collected,-⟩ := simulate_some.mp simulated
  obtain ⟨nonempty,collected⟩ := simulateCollect_some.mp collected
  cases result with
  | some more => exact ⟨more,rfl⟩
  | none =>
    rw [netSigned,simulate,simulateCollect,if_neg nonempty,andThen_ok] at ran
    rcases ran with ⟨nothing,-⟩ | ⟨output',-,absurdity⟩
    · rw [andThen_ok] at nothing
      rcases nothing with ⟨nothing,-⟩ | ⟨outs',collected',last⟩
      · exact absurd (collect_larger constant ordered collected nothing) (by simp)
      · have empty := List.getLast?_eq_none_iff.mp (Except.ok.inj last)
        have long := collect_length collected'
        rw [empty] at long
        exact absurd (List.length_eq_zero_iff.mp long.symm) nonempty
    · cases absurdity

end quotes

/-- No size of the range nets more. -/
def Best (f : U64 → Rust (Option ℤ)) (lo hi x : U64) : Prop :=
  lo ≤ x ∧ x ≤ hi ∧ ∃ net, f x = .ok (some net) ∧
    ∀ y, lo ≤ y → y ≤ hi → ∀ other, f y = .ok (some other) → other ≤ net

def LandsOnBest (build : Build) (byId : PoolId → Option PoolState) (params : ScanParams) (route : List Hop)
    (lo hi : U64) : Prop :=
  ∃ opp, sizeRoute build byId params route = .ok (some opp) ∧
    ∀ x, lo ≤ x → x ≤ hi → ∀ net, netSigned build byId route params x = .ok (some net) → net ≤ opp.netProfit.val

/-- A largest net is on the grid, or the search drops some size of largest net at none
of its comparisons. -/
def KeepsBest (build : Build) (byId : PoolId → Option PoolState) (params : ScanParams) (route : List Hop)
    (lo hi : U64) : Prop :=
  ∃ x, Best (netSigned build byId route params) lo hi x ∧
    (x ∈ params.candidateInputs ∨ Keeps (score (netSigned build byId route params)) x.val lo.val hi.val)

section best
variable {build : Build} {pools : List PoolState} {route : List Hop} {params : ScanParams} {lo hi : U64}

theorem evaluateInput_net {input : U64} {net : ℤ} (floor : 0 < params.minProfit.val)
    (signed : netSigned build (lookup pools) route params input = .ok (some net))
    (clears : (params.minProfit.val : ℤ) ≤ net) :
    ∃ opp, evaluateInput build (lookup pools) route params input = .ok (some opp) ∧ opp.netProfit.val = net := by
  obtain ⟨output,simulated,rfl⟩ := netSigned_some.mp signed
  refine evaluateInput_clears simulated ?_ clears
  rw [Fin.lt_def]
  unfold signedNet at clears
  omega

theorem net_of_evaluated {input : U64} {opp : Opportunity} (floor : 0 < params.minProfit.val)
    (evaluated : evaluateInput build (lookup pools) route params input = .ok (some opp)) :
    netSigned build (lookup pools) route params input = .ok (some opp.netProfit.val) := by
  obtain ⟨outs,output,collected,last,gains,rfl,clears⟩ := evaluateInput_some.mp evaluated
  refine netSigned_some.mpr ⟨output,simulate_some.mpr ⟨outs,collected,last⟩,?_⟩
  have net : ((opportunityAt params route input output outs).netProfit.val : ℤ) = max 0 (signedNet params input output) :=
    opportunityAt_net gains
  have positive : 0 < (opportunityAt params route input output outs).netProfit.val := lt_of_lt_of_le floor clears
  omega

theorem evaluateInput_returns {input : U64} {result : Option ℤ}
    (signed : netSigned build (lookup pools) route params input = .ok result) :
    ∃ opp, evaluateInput build (lookup pools) route params input = .ok opp := by
  obtain ⟨outs,collected,-⟩ := simulateCollect_returns signed
  have never : Raises (fun _ => False) (evaluateInput build (lookup pools) route params input) := by
    refine raises_andThen ?_ fun _ => raises_andThen (raises_ok _) fun _ =>
      .ite (raises_ok _) (.ite (raises_ok _) (raises_ok _))
    rw [collected]
    exact raises_ok _
  cases evaluated : evaluateInput build (lookup pools) route params input with
  | ok opp => exact ⟨opp,rfl⟩
  | error fault => exact (never fault evaluated).elim

/-- The sizes a route is evaluated at are those of the grid and one that the search
never drops, and none that it never drops nets more. -/
theorem candidates_keep (least : params.candidateInputs.min? = some lo)
    (largest : params.candidateInputs.max? = some hi)
    (quotes : ∀ x, lo ≤ x → x ≤ hi → ∃ net, netSigned build (lookup pools) route params x = .ok net) {top : ℤ}
    (feasible : netSigned build (lookup pools) route params hi = .ok (some top))
    (stays : ¬ ClimbsToTop build (lookup pools) params route) :
    ∃ inputs, candidates build (lookup pools) route params = .ok inputs ∧
      (∀ c ∈ inputs, c ∈ params.candidateInputs ∨
        Keeps (score (netSigned build (lookup pools) route params)) c.val lo.val hi.val) ∧
      ∀ x net, x ∈ params.candidateInputs ∨
          Keeps (score (netSigned build (lookup pools) route params)) x.val lo.val hi.val →
        netSigned build (lookup pools) route params x = .ok (some net) →
        ∃ c ∈ inputs, ∃ reached, netSigned build (lookup pools) route params c = .ok (some reached) ∧
          net ≤ reached := by
  obtain ⟨first,before⟩ := List.min?_eq_some_iff.mp least
  obtain ⟨last,after⟩ := List.max?_eq_some_iff.mp largest
  by_cases ordered : lo < hi
  · have stays : ¬ (hi.val + 1 = 2^64 ∧ Climbs (netSigned build (lookup pools) route params) hi lo) :=
      fun climbs => stays ⟨lo,hi,least,largest,ordered,climbs.1,⟨top,feasible⟩,climbs.2⟩
    obtain ⟨result,searched,reached,genuine⟩ := ternaryMax_keeps build ordered.le quotes feasible stays
    cases result with
    | none =>
      refine ⟨params.candidateInputs,?_,fun c member => .inl member,fun x net chosen signed => ?_⟩
      · simp only [candidates,least,largest,ordered,if_true,searched,ok_bind,pure_eq_ok]
      · rcases chosen with member | keeps
        · exact ⟨x,member,net,signed,le_rfl⟩
        · obtain ⟨found,absurdity,-⟩ := reached x net keeps signed
          cases absurdity
    | some found =>
      obtain ⟨keeps,valued⟩ := genuine found rfl
      refine ⟨params.candidateInputs ++ [found.1],?_,fun c member => ?_,fun x net chosen signed => ?_⟩
      · simp only [candidates,least,largest,ordered,if_true,searched,ok_bind,pure_eq_ok]
      · rcases List.mem_append.mp member with member | added
        · exact .inl member
        · obtain rfl := List.mem_singleton.mp added
          exact .inr keeps
      · rcases chosen with member | keeps
        · exact ⟨x,List.mem_append_left _ member,net,signed,le_rfl⟩
        · obtain ⟨final,same,above⟩ := reached x net keeps signed
          obtain rfl := Option.some.inj same
          exact ⟨found.1,by simp,found.2,valued,above⟩
  · refine ⟨params.candidateInputs,?_,fun c member => .inl member,fun x net chosen signed => ?_⟩
    · simp only [candidates,least,largest,ordered,if_false]
    · rcases chosen with member | keeps
      · exact ⟨x,member,net,signed,le_rfl⟩
      · have inside := keeps.inside
        rw [Fin.lt_def] at ordered
        obtain rfl : x = lo := Fin.ext (by omega)
        exact ⟨x,first,net,signed,le_rfl⟩

theorem sizeRoute_of_candidates {inputs : List U64} {values : List (Option Opportunity)} (nonempty : route ≠ [])
    (gridded : params.candidateInputs ≠ []) (listed : candidates build (lookup pools) route params = .ok inputs)
    (mapped : inputs.mapM (evaluateInput build (lookup pools) route params) = .ok values) :
    sizeRoute build (lookup pools) params route =
      .ok (FirstMax.firstMax Opportunity.netProfit values.reduceOption) := by
  rw [sizeRoute,if_neg (not_or.mpr ⟨nonempty,gridded⟩),listed,ok_bind]
  exact (FirstMax.bestOf_ok _).mpr ⟨values,mapped,rfl⟩

/-- A route is sized at least as well as at any of its candidates. -/
theorem sizeRoute_covers {inputs : List U64} (nonempty : route ≠ []) (gridded : params.candidateInputs ≠ [])
    (floor : 0 < params.minProfit.val) (listed : candidates build (lookup pools) route params = .ok inputs)
    (quotes : ∀ c ∈ inputs, ∃ net, netSigned build (lookup pools) route params c = .ok net) {c : U64} {net : ℤ}
    (member : c ∈ inputs) (signed : netSigned build (lookup pools) route params c = .ok (some net))
    (clears : (params.minProfit.val : ℤ) ≤ net) :
    ∃ opp, sizeRoute build (lookup pools) params route = .ok (some opp) ∧ net ≤ opp.netProfit.val := by
  have each : ∀ c ∈ inputs, ∃ opp, evaluateInput build (lookup pools) route params c = .ok opp := by
    intro c member
    obtain ⟨net,signed⟩ := quotes c member
    exact evaluateInput_returns signed
  obtain ⟨values,mapped⟩ := mapM_of_forall each
  have sized := sizeRoute_of_candidates nonempty gridded listed mapped
  obtain ⟨opp,evaluated,netEq⟩ := evaluateInput_net floor signed clears
  obtain ⟨value,inside,ran⟩ := mapM_ran mapped member
  obtain rfl := Except.ok.inj (evaluated.symm.trans ran)
  obtain ⟨best,chosen,reached⟩ := FirstMax.firstMax_reaches Opportunity.netProfit (List.reduceOption_mem_iff.mpr inside)
  refine ⟨best,by rw [sized,chosen],?_⟩
  rw [← netEq]
  exact_mod_cast reached

/-- The optimizer lands on the best size exactly where it keeps one and does not climb
to the last `u64`. -/
theorem landsOnBest_iff (constant : ConstantProductOnly pools) (floor : 1 ≤ params.minProfit.val)
    (least : params.candidateInputs.min? = some lo) (largest : params.candidateInputs.max? = some hi)
    (calm : ∀ x, lo ≤ x → x ≤ hi → ∃ net, netSigned .debug (lookup pools) route params x = .ok net)
    (worth : ∃ x net, lo ≤ x ∧ x ≤ hi ∧ netSigned build (lookup pools) route params x = .ok (some net) ∧
      (params.minProfit.val : ℤ) ≤ net) :
    LandsOnBest build (lookup pools) params route lo hi ↔
      ¬ ClimbsToTop build (lookup pools) params route ∧ KeepsBest build (lookup pools) params route lo hi := by
  obtain ⟨x,net,low,high,signed,clears⟩ := worth
  obtain ⟨first,before⟩ := List.min?_eq_some_iff.mp least
  obtain ⟨last,after⟩ := List.max?_eq_some_iff.mp largest
  have gridded : params.candidateInputs ≠ [] := List.ne_nil_of_mem first
  have nonempty : route ≠ [] := by
    obtain ⟨output,simulated,-⟩ := netSigned_some.mp signed
    obtain ⟨outs,collected,-⟩ := simulate_some.mp simulated
    exact (simulateCollect_some.mp collected).1
  have quotes : ∀ x, lo ≤ x → x ≤ hi → ∃ net, netSigned build (lookup pools) route params x = .ok net := by
    intro x low high
    obtain ⟨net,quoted⟩ := calm x low high
    exact ⟨net,follows_netSigned build _ _ _ _ _ quoted⟩
  have feasible : ∃ top, netSigned build (lookup pools) route params hi = .ok (some top) := by
    obtain ⟨found,quoted⟩ := calm x low high
    obtain rfl := Except.ok.inj ((follows_netSigned build _ _ _ _ _ quoted).symm.trans signed)
    obtain ⟨result,ran⟩ := calm hi (low.trans high) le_rfl
    obtain ⟨top,rfl⟩ := netSigned_larger constant high quoted ran
    exact ⟨top,follows_netSigned build _ _ _ _ _ ran⟩
  obtain ⟨top,feasible⟩ := feasible
  have ranged : ∀ c, c ∈ params.candidateInputs ∨
      Keeps (score (netSigned build (lookup pools) route params)) c.val lo.val hi.val → lo ≤ c ∧ c ≤ hi := by
    intro c chosen
    rcases chosen with member | keeps
    · exact ⟨before c member,after c member⟩
    · exact keeps.inside
  constructor
  · intro ⟨opp,sized,reaches⟩
    have stays := sizeRoute_settles nonempty sized
    obtain ⟨inputs,listed,chosen,-⟩ := candidates_keep least largest quotes feasible stays
    obtain ⟨inputs',values,listed',mapped,found⟩ := sizeRoute_ok nonempty sized
    obtain rfl := Except.ok.inj (listed.symm.trans listed')
    have member := List.reduceOption_mem_iff.mp (FirstMax.firstMax_mem _ found.symm).1
    obtain ⟨c,inside,evaluated⟩ := mapM_mem mapped member
    obtain ⟨above,below⟩ := ranged c (chosen c inside)
    exact ⟨stays,c,⟨above,below,opp.netProfit.val,net_of_evaluated floor evaluated,reaches⟩,chosen c inside⟩
  · intro ⟨stays,best,⟨above,below,most,valued,reaches⟩,chosen⟩
    obtain ⟨inputs,listed,sources,kept⟩ := candidates_keep least largest quotes feasible stays
    obtain ⟨c,inside,reached,signed',atLeast⟩ := kept best most chosen valued
    have enough : (params.minProfit.val : ℤ) ≤ reached := (clears.trans (reaches x low high net signed)).trans atLeast
    have each : ∀ c ∈ inputs, ∃ net, netSigned build (lookup pools) route params c = .ok net := by
      intro c member
      obtain ⟨from_lo,to_hi⟩ := ranged c (sources c member)
      exact quotes c from_lo to_hi
    obtain ⟨opp,sized,covered⟩ := sizeRoute_covers nonempty gridded floor listed each inside signed' enough
    exact ⟨opp,sized,fun y low high other quoted => ((reaches y low high other quoted).trans atLeast).trans covered⟩

theorem keepsBest_of_peaked {byId : PoolId → Option PoolState} {peak : U64} {net : ℤ}
    (peaked : Peaked (score (netSigned build byId route params)) peak.val lo.val hi.val)
    (signed : netSigned build byId route params peak = .ok (some net)) : KeepsBest build byId params route lo hi := by
  refine ⟨peak,⟨peaked.low,peaked.high,net,signed,fun y low high other quoted => ?_⟩,.inr peaked.keeps⟩
  have largest := peaked.largest low high
  rw [score_of_ok rfl quoted,score_of_ok rfl signed] at largest
  exact largest

theorem quoted_within {f : U64 → Rust (Option ℤ)}
    (returns : ∀ n, lo.val ≤ n → n ≤ hi.val → (f (wrap 64 n)).toOption.isSome) (x : U64) (low : lo ≤ x) (high : x ≤ hi) :
    ∃ value, f x = .ok value := by
  have returned := returns x.val low high
  rw [show wrap 64 x.val = x from Fin.ext (wrap_val_of_lt x.isLt)] at returned
  cases quoted : f x with
  | ok value => exact ⟨value,rfl⟩
  | error fault =>
    rw [quoted] at returned
    cases returned

/-- The second token of both pools is so coarse that the net of this cycle jumps up
once and then falls by one from size to size. -/
def coarseAsk : PoolState := .v2 "ask" .ammV2 "A" "B" 60 4 30

def coarseBid : PoolState := .v2 "bid" .ammV2 "B" "A" 4 150 30

def smoothAsk : PoolState := .v2 "ask" .ammV2 "A" "B" 1000 1000 30

def steepBid : PoolState := .v2 "bid" .ammV2 "B" "A" 5 40 30

def roundTrip : List Hop := [⟨"ask",.ammV2,"A","B",true⟩,⟨"bid",.ammV2,"B","A",true⟩]

theorem landsOnBest_peaked :
    LandsOnBest .release (lookup [smoothAsk,steepBid]) ⟨"A",2,[1,20],0,0,1⟩ roundTrip 1 20 := by
  have calm : ∀ x : U64, 1 ≤ x → x ≤ 20 →
      ∃ net, netSigned .debug (lookup [smoothAsk,steepBid]) roundTrip ⟨"A",2,[1,20],0,0,1⟩ x = .ok net :=
    quoted_within (by decide +kernel)
  have peaked : Peaked (score (netSigned .release (lookup [smoothAsk,steepBid]) roundTrip ⟨"A",2,[1,20],0,0,1⟩))
      8 1 20 := peaked_of_steps (by decide) (by decide) (by decide +kernel) (by decide +kernel)
  have signed : netSigned .release (lookup [smoothAsk,steepBid]) roundTrip ⟨"A",2,[1,20],0,0,1⟩ 8 = .ok (some 15) := by
    decide +kernel
  have constant : ConstantProductOnly [smoothAsk,steepBid] := by
    intro pool member
    rcases List.mem_cons.mp member with rfl | member
    · exact ⟨_,_,_,rfl⟩
    · obtain rfl := List.mem_singleton.mp member
      exact ⟨_,_,_,rfl⟩
  refine (landsOnBest_iff constant (by decide) (by decide) (by decide) calm
    ⟨8,15,by decide,by decide,signed,by decide⟩).mpr ⟨?_,keepsBest_of_peaked peaked signed⟩
  intro ⟨lo,hi,least,largest,ordered,top,feasible,climbs⟩
  obtain rfl : (20 : U64) = hi := Option.some.inj ((by decide : [1,20].max? = some (20 : U64)).symm.trans largest)
  exact absurd top (by decide)

/-- Nothing is found between 1 and 29, although 21 nets 8. -/
theorem sizeRoute_drops_best :
    let pools := [coarseAsk,coarseBid]
    let params : ScanParams := ⟨"A",2,[1,29],0,0,1⟩
    (pools.map PoolState.id).Nodup ∧ ConstantProductOnly pools ∧
      roundTrip ∈ findCycles (buildAdjacency pools) params.baseToken params.maxHops ∧
      params.candidateInputs.min? = some 1 ∧ params.candidateInputs.max? = some 29 ∧
      (∀ x, 1 ≤ x → x ≤ 29 → ∃ net, netSigned .debug (lookup pools) roundTrip params x = .ok net) ∧
      netSigned .release (lookup pools) roundTrip params 21 = .ok (some 8) ∧
      sizeRoute .release (lookup pools) params roundTrip = .ok none ∧
      ¬ LandsOnBest .release (lookup pools) params roundTrip 1 29 := by
  intro pools params
  have nothing : sizeRoute .release (lookup pools) params roundTrip = .ok none := by decide +kernel
  refine ⟨by decide,?_,by decide +kernel,by decide,by decide,quoted_within (by decide +kernel),by decide +kernel,nothing,?_⟩
  · intro pool member
    rcases List.mem_cons.mp member with rfl | member
    · exact ⟨_,_,_,rfl⟩
    · obtain rfl := List.mem_singleton.mp member
      exact ⟨_,_,_,rfl⟩
  · intro ⟨opp,sized,_⟩
    rw [nothing] at sized
    cases sized

end best

end Scanner

end SuiArbitrage.Rust
