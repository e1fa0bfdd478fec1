import SuiArbitrage.Rust.Shortlist

/-! Which pool a liquidation is sized against. The selector takes the first pool of a
snapshot that trades the two coins, and a snapshot has no order; what it finds is the best
over all pools exactly where, for some pair of positions, every pool reaches that best. -/
namespace SuiArbitrage.Rust.Liquidation
open MachineWord Fallible Scanner

section pools
variable {F : Type} [F64 F]

/-- How one pool swaps collateral back to debt, if it can. -/
def swapBackOf (collateral debt : TokenId) (p : PoolState) : Option SwapBack :=
  match p.kind with
  | .v2 .. => none
  | .clmm state =>
    if p.tokenA = collateral ∧ p.tokenB = debt then some ⟨p.id,p.dex,true,state⟩
    else if p.tokenB = collateral ∧ p.tokenA = debt then some ⟨p.id,p.dex,false,state⟩
    else none

theorem findSwapBack_eq (pools : List PoolState) (collateral debt : TokenId) :
    findSwapBack pools collateral debt = pools.findSome? (swapBackOf collateral debt) := rfl

/-- How one pool serves a pair of positions, if it does. -/
def wayOf (params : TokenId → Option (AssetParams F)) (pair : Position × Position) (p : PoolState) :
    Option (AssetParams F × AssetParams F × SwapBack) := do
  let debt ← params pair.1.coinType
  let collateral ← params pair.2.coinType
  let swap ← swapBackOf pair.2.coinType pair.1.coinType p
  return (debt,collateral,swap)

/-- The nets of all repay fractions that clear the floor. -/
def swapNets (build : Build) (ob : Obligation) (lp : LiqParams F) (way : AssetParams F × AssetParams F × SwapBack) :
    Rust (List U64) :=
  match repayable ob way.1 way.2.1 lp with
  | none => .ok []
  | some (maxRepay,available) => do
    let opps ← lp.candidateFractions.mapM (sizeFraction build ob way.1 way.2.1 way.2.2 lp maxRepay available)
    return opps.reduceOption.map Opportunity.netProfit

/-- The nets over all pairs of positions, all repay fractions and all pools that can swap back. -/
def allNets (build : Build) (ob : Obligation) (params : TokenId → Option (AssetParams F)) (pools : List PoolState)
    (lp : LiqParams F) : Rust (List U64) := do
  let ways := (positionPairs ob).flatMap fun pair => pools.filterMap (wayOf params pair)
  let nets ← ways.mapM (swapNets build ob lp)
  return nets.flatten

/-- Whatever the order of the snapshot, the same net is found, and for an obligation that
is shortlisted it is the highest of all. -/
def OrderFree (build : Build) (ob : Obligation) (params : TokenId → Option (AssetParams F)) (lp : LiqParams F)
    (healthMargin : F) (pools : List PoolState) : Prop :=
  ∀ order : List PoolState, order.Perm pools → ∃ result result',
    detectObligation build ob params pools lp healthMargin = .ok result ∧
    detectObligation build ob params order lp healthMargin = .ok result' ∧
    result.map Opportunity.netProfit = result'.map Opportunity.netProfit ∧
    (isLiquidatable ob params healthMargin = true →
      ∃ nets, allNets build ob params pools lp = .ok nets ∧ result.map Opportunity.netProfit = nets.max?)

def Serves (params : TokenId → Option (AssetParams F)) (pair : Position × Position) (p : PoolState) : Prop :=
  (wayOf params pair p).isSome

/-- No net clears the floor, or for some pair of positions each pool that serves it
attains the highest net on its own. -/
def EveryPoolBest (build : Build) (ob : Obligation) (params : TokenId → Option (AssetParams F)) (lp : LiqParams F)
    (pools : List PoolState) (nets : List U64) : Prop :=
  nets = [] ∨ ∃ pair ∈ positionPairs ob, (∃ p ∈ pools, Serves params pair p) ∧
    ∀ p ∈ pools, Serves params pair p → ∃ own, allNets build ob params [p] lp = .ok own ∧ own.max? = nets.max?

end pools

section ways
variable {F : Type} {params : TokenId → Option (AssetParams F)} {pools order : List PoolState} {pair other : Position × Position}
  {p q : PoolState} {way : AssetParams F × AssetParams F × SwapBack}

theorem pairing_eq : pairing params pools pair = pools.findSome? (wayOf params pair) := by
  unfold pairing wayOf
  cases params pair.1.coinType with
  | none => exact (List.findSome?_eq_none_iff.mpr fun _ _ => rfl).symm
  | some debt =>
    cases params pair.2.coinType with
    | none => exact (List.findSome?_eq_none_iff.mpr fun _ _ => rfl).symm
    | some collateral =>
      rw [findSwapBack_eq]
      induction pools with
      | nil => rfl
      | cons p rest ih =>
        rw [List.findSome?_cons,List.findSome?_cons]
        cases swapBackOf pair.2.coinType pair.1.coinType p with
        | none => exact ih
        | some swap => rfl

/-- The pool trades these two coins, in either orientation. -/
def Trades (p : PoolState) (collateral debt : TokenId) : Prop :=
  (∃ state, p.kind = .clmm state) ∧ (p.tokenA = collateral ∧ p.tokenB = debt ∨ p.tokenB = collateral ∧ p.tokenA = debt)

theorem swapBackOf_isSome {collateral debt : TokenId} : (swapBackOf collateral debt p).isSome ↔ Trades p collateral debt := by
  unfold swapBackOf Trades
  split
  · rename_i kind
    simp [kind]
  · rename_i state kind
    have curve : ∃ state, p.kind = .clmm state := ⟨state,kind⟩
    by_cases forward : p.tokenA = collateral ∧ p.tokenB = debt
    · rw [if_pos forward]
      exact iff_of_true rfl ⟨curve,.inl forward⟩
    · rw [if_neg forward]
      by_cases backward : p.tokenB = collateral ∧ p.tokenA = debt
      · rw [if_pos backward]
        exact iff_of_true rfl ⟨curve,.inr backward⟩
      · rw [if_neg backward]
        exact iff_of_false (by simp) fun both => both.2.elim forward backward

theorem serves_iff : Serves params pair p ↔
    ((params pair.1.coinType).isSome ∧ (params pair.2.coinType).isSome) ∧ Trades p pair.2.coinType pair.1.coinType := by
  rw [← swapBackOf_isSome]
  unfold Serves wayOf
  cases params pair.1.coinType with
  | none => simp
  | some debt =>
    cases params pair.2.coinType with
    | none => simp
    | some collateral => cases swapBackOf pair.2.coinType pair.1.coinType p <;> simp

/-- Pools that serve one pair in common serve the same pairs. -/
theorem serves_same (first : Serves params pair p) (second : Serves params other p) :
    Serves params pair q ↔ Serves params other q := by
  rw [serves_iff] at first second
  obtain ⟨known,-,tokens⟩ := first
  obtain ⟨known',-,tokens'⟩ := second
  rw [serves_iff,serves_iff,and_iff_right known,and_iff_right known']
  refine and_congr_right fun _ => ?_
  rcases tokens with ⟨a,b⟩ | ⟨b,a⟩
  · rcases tokens' with ⟨a',b'⟩ | ⟨b',a'⟩
    · rw [← a,← b,← a',← b']
    · rw [← a,← b,← a',← b',or_comm]
      exact or_congr and_comm and_comm
  · rcases tokens' with ⟨a',b'⟩ | ⟨b',a'⟩
    · rw [← a,← b,← a',← b',or_comm]
      exact or_congr and_comm and_comm
    · rw [← a,← b,← a',← b']

/-- The first pool of an order that serves a pair is the first for each pair that it serves. -/
theorem first_serves (taken : order.findSome? (wayOf params pair) = some way) :
    ∃ q ∈ order, Serves params pair q ∧ ∀ other way', wayOf params other q = some way' →
      order.findSome? (wayOf params other) = some way' := by
  obtain ⟨before,q,after,split,serves,others⟩ := List.findSome?_eq_some_iff.mp taken
  have served : Serves params pair q := by rw [Serves,serves]; rfl
  refine ⟨q,by rw [split]; simp,served,fun other way' serves' => ?_⟩
  have served' : Serves params other q := by rw [Serves,serves']; rfl
  refine List.findSome?_eq_some_iff.mpr ⟨before,q,after,split,serves',fun x earlier => ?_⟩
  have absent : ¬ Serves params pair x := by rw [Serves,others x earlier]; simp
  rw [serves_same served served'] at absent
  exact Option.not_isSome_iff_eq_none.mp absent

end ways

section sizing
variable {F : Type} [F64 F] {build : Build} {ob : Obligation} {params : TokenId → Option (AssetParams F)} {lp : LiqParams F}
  {healthMargin : F} {pools order : List PoolState} {way : AssetParams F × AssetParams F × SwapBack}

theorem firstMax_max (opps : List Opportunity) : (FirstMax.firstMax Opportunity.netProfit opps).map Opportunity.netProfit =
    (opps.map Opportunity.netProfit).max? := by
  cases chosen : FirstMax.firstMax Opportunity.netProfit opps with
  | none =>
    rw [(FirstMax.firstMax_eq_none _).mp chosen]
    rfl
  | some best =>
    obtain ⟨member,largest⟩ := FirstMax.firstMax_mem _ chosen
    refine (List.max?_eq_some_iff.mpr ⟨List.mem_map_of_mem member,fun net listed => ?_⟩).symm
    obtain ⟨opp,inside,rfl⟩ := List.mem_map.mp listed
    exact largest opp inside

/-- A pair is sized at the highest net of its repay fractions. -/
theorem sizeLiquidation_nets {result : Option Opportunity}
    (sized : sizeLiquidation build ob way.1 way.2.1 way.2.2 lp = .ok result) :
    ∃ own, swapNets build ob lp way = .ok own ∧ result.map Opportunity.netProfit = own.max? := by
  unfold sizeLiquidation at sized
  unfold swapNets
  cases bounds : repayable ob way.1 way.2.1 lp with
  | none =>
    rw [bounds] at sized
    obtain rfl : result = none := (Except.ok.inj sized).symm
    exact ⟨[],rfl,rfl⟩
  | some limits =>
    rw [bounds,ok_some_andThen] at sized
    obtain ⟨values,mapped,rfl⟩ := (FirstMax.bestOf_ok _).mp sized
    refine ⟨values.reduceOption.map Opportunity.netProfit,?_,firstMax_max _⟩
    simp only [mapped,ok_bind,pure_eq_ok]

theorem sizeLiquidation_returns {own : List U64} (listed : swapNets build ob lp way = .ok own) :
    ∃ result, sizeLiquidation build ob way.1 way.2.1 way.2.2 lp = .ok result := by
  unfold sizeLiquidation
  unfold swapNets at listed
  cases bounds : repayable ob way.1 way.2.1 lp with
  | none => exact ⟨none,rfl⟩
  | some limits =>
    rw [bounds] at listed
    obtain ⟨values,mapped,-⟩ := bind_ok.mp listed
    rw [ok_some_andThen]
    exact ⟨_,(FirstMax.bestOf_ok _).mpr ⟨values,mapped,rfl⟩⟩

/-- What an order finds is a net of some way that it takes, and no such net is higher. -/
theorem detectObligation_nets {result : Option Opportunity} (liquidatable : isLiquidatable ob params healthMargin = true)
    (detected : detectObligation build ob params order lp healthMargin = .ok result) :
    (∀ net, result.map Opportunity.netProfit = some net → ∃ pair ∈ positionPairs ob, ∃ way,
      order.findSome? (wayOf params pair) = some way ∧ ∃ own, swapNets build ob lp way = .ok own ∧ net ∈ own) ∧
    ∀ pair ∈ positionPairs ob, ∀ way, order.findSome? (wayOf params pair) = some way →
      ∃ own, swapNets build ob lp way = .ok own ∧
        ∀ net ∈ own, ∃ best, result.map Opportunity.netProfit = some best ∧ net ≤ best := by
  rw [detectObligation,if_pos liquidatable] at detected
  obtain ⟨values,mapped,rfl⟩ := (FirstMax.bestOf_ok _).mp detected
  refine ⟨fun net found => ?_,fun pair member way taken => ?_⟩
  · obtain ⟨opp,chosen,rfl⟩ := Option.map_eq_some_iff.mp found
    obtain ⟨inside,-⟩ := FirstMax.firstMax_mem _ chosen
    obtain ⟨pair,member,sized⟩ := mapM_mem mapped (List.reduceOption_mem_iff.mp inside)
    obtain ⟨way,taken,sized⟩ := andThen_some.mp sized
    obtain ⟨own,listed,most⟩ := sizeLiquidation_nets sized
    refine ⟨pair,member,way,pairing_eq.symm.trans (Except.ok.inj taken),own,listed,?_⟩
    exact (List.max?_eq_some_iff.mp most.symm).1
  · obtain ⟨value,inside,sized⟩ := mapM_ran mapped member
    rw [pairing_eq,taken,ok_some_andThen] at sized
    obtain ⟨own,listed,most⟩ := sizeLiquidation_nets sized
    refine ⟨own,listed,fun net reached => ?_⟩
    cases value with
    | none =>
      rw [List.max?_eq_none_iff.mp most.symm] at reached
      cases reached
    | some opp =>
      obtain ⟨best,chosen,above⟩ := FirstMax.firstMax_reaches Opportunity.netProfit (List.reduceOption_mem_iff.mpr inside)
      refine ⟨best.netProfit,by rw [chosen]; rfl,?_⟩
      exact ((List.max?_eq_some_iff.mp most.symm).2 net reached).trans above

theorem detectObligation_returns (liquidatable : isLiquidatable ob params healthMargin = true)
    (each : ∀ pair ∈ positionPairs ob, ∀ way, order.findSome? (wayOf params pair) = some way →
      ∃ own, swapNets build ob lp way = .ok own) :
    ∃ result, detectObligation build ob params order lp healthMargin = .ok result := by
  rw [detectObligation,if_pos liquidatable]
  refine FirstMax.bestOf_returns _ fun pair member => ?_
  rw [pairing_eq]
  cases taken : order.findSome? (wayOf params pair) with
  | none => exact ⟨none,rfl⟩
  | some way =>
    obtain ⟨own,listed⟩ := each pair member way taken
    rw [ok_some_andThen]
    exact sizeLiquidation_returns listed

theorem allNets_ok {nets : List U64} : allNets build ob params pools lp = .ok nets →
    (∀ pair ∈ positionPairs ob, ∀ p ∈ pools, ∀ way, wayOf params pair p = some way →
      ∃ own, swapNets build ob lp way = .ok own) ∧
    ∀ net, net ∈ nets ↔ ∃ pair ∈ positionPairs ob, ∃ p ∈ pools, ∃ way, wayOf params pair p = some way ∧
      ∃ own, swapNets build ob lp way = .ok own ∧ net ∈ own := by
  intro listed
  obtain ⟨groups,mapped,flattened⟩ := bind_ok.mp listed
  obtain rfl := pure_ok.mp flattened
  have ways : ∀ {way}, (way ∈ (positionPairs ob).flatMap fun pair => pools.filterMap (wayOf params pair)) ↔
      ∃ pair ∈ positionPairs ob, ∃ p ∈ pools, wayOf params pair p = some way := by
    intro way
    simp only [List.mem_flatMap,List.mem_filterMap]
  refine ⟨fun pair member p inside way serves => ?_,fun net => ⟨fun reached => ?_,fun reached => ?_⟩⟩
  · obtain ⟨own,-,ran⟩ := mapM_ran mapped (ways.mpr ⟨pair,member,p,inside,serves⟩)
    exact ⟨own,ran⟩
  · obtain ⟨own,group,reached⟩ := List.mem_flatten.mp reached
    obtain ⟨way,taken,ran⟩ := mapM_mem mapped group
    obtain ⟨pair,member,p,inside,serves⟩ := ways.mp taken
    exact ⟨pair,member,p,inside,way,serves,own,ran,reached⟩
  · obtain ⟨pair,member,p,inside,way,serves,own,ran,reached⟩ := reached
    obtain ⟨own',group,ran'⟩ := mapM_ran mapped (ways.mpr ⟨pair,member,p,inside,serves⟩)
    obtain rfl := Except.ok.inj (ran.symm.trans ran')
    exact List.mem_flatten.mpr ⟨own,group,reached⟩

theorem allNets_returns (each : ∀ pair ∈ positionPairs ob, ∀ p ∈ pools, ∀ way, wayOf params pair p = some way →
    ∃ own, swapNets build ob lp way = .ok own) : ∃ nets, allNets build ob params pools lp = .ok nets := by
  have ran : ∀ way ∈ (positionPairs ob).flatMap fun pair => pools.filterMap (wayOf params pair),
      ∃ own, swapNets build ob lp way = .ok own := by
    intro way taken
    simp only [List.mem_flatMap,List.mem_filterMap] at taken
    obtain ⟨pair,member,p,inside,serves⟩ := taken
    exact each pair member p inside way serves
  obtain ⟨groups,mapped⟩ := mapM_of_forall ran
  refine ⟨groups.flatten,?_⟩
  unfold allNets
  simp only [mapped,ok_bind,pure_eq_ok]

/-- A pool attains the highest net on its own where one of the pairs that it serves does. -/
theorem alone_best {nets : List U64} {most : U64} {q : PoolState} (listed : allNets build ob params pools lp = .ok nets)
    (highest : nets.max? = some most) (inside : q ∈ pools) :
    (∃ own, allNets build ob params [q] lp = .ok own ∧ own.max? = some most) ↔
      ∃ pair ∈ positionPairs ob, ∃ way, wayOf params pair q = some way ∧
        ∃ own, swapNets build ob lp way = .ok own ∧ most ∈ own := by
  obtain ⟨calm,members⟩ := allNets_ok listed
  constructor
  · intro alone
    obtain ⟨own,alone,best⟩ := alone
    obtain ⟨pair,member,q',single,rest⟩ := ((allNets_ok alone).2 most).mp (List.max?_eq_some_iff.mp best).1
    obtain rfl := List.mem_singleton.mp single
    exact ⟨pair,member,rest⟩
  · intro earned
    obtain ⟨pair,member,rest⟩ := earned
    have quoted : ∀ pair ∈ positionPairs ob, ∀ p ∈ [q], ∀ way, wayOf params pair p = some way →
        ∃ own, swapNets build ob lp way = .ok own := by
      intro pair member p single
      rw [List.mem_singleton.mp single]
      exact calm pair member q inside
    obtain ⟨own,alone⟩ := allNets_returns quoted
    have mine := (allNets_ok alone).2
    refine ⟨own,alone,List.max?_eq_some_iff.mpr ⟨(mine most).mpr ⟨pair,member,q,List.mem_singleton_self q,rest⟩,?_⟩⟩
    intro net reached
    obtain ⟨pair',member',q',single,rest'⟩ := (mine net).mp reached
    rw [List.mem_singleton.mp single] at rest'
    exact (List.max?_eq_some_iff.mp highest).2 net ((members net).mpr ⟨pair',member',q,inside,rest'⟩)

/-- Where every quote returns, every order finds a net of some pool or nothing. -/
theorem detectObligation_listed {nets : List U64} (liquidatable : isLiquidatable ob params healthMargin = true)
    (listed : allNets build ob params pools lp = .ok nets) (perm : order.Perm pools) :
    ∃ result, detectObligation build ob params order lp healthMargin = .ok result ∧
      ∀ net, result.map Opportunity.netProfit = some net → net ∈ nets := by
  obtain ⟨calm,members⟩ := allNets_ok listed
  have taken_from {pair : Position × Position} {way : AssetParams F × AssetParams F × SwapBack}
      (taken : order.findSome? (wayOf params pair) = some way) : ∃ p ∈ pools, wayOf params pair p = some way := by
    obtain ⟨p,inside,serves⟩ := List.exists_of_findSome?_eq_some taken
    exact ⟨p,perm.mem_iff.mp inside,serves⟩
  obtain ⟨result,detected⟩ := detectObligation_returns liquidatable fun pair member way taken => by
    obtain ⟨p,inside,serves⟩ := taken_from taken
    exact calm pair member p inside way serves
  refine ⟨result,detected,fun net found => ?_⟩
  obtain ⟨pair,member,way,taken,own,ran,reached⟩ := (detectObligation_nets liquidatable detected).1 net found
  obtain ⟨p,inside,serves⟩ := taken_from taken
  exact (members net).mpr ⟨pair,member,p,inside,way,serves,own,ran,reached⟩

/-- Where each pool of some pair is best, every order finds the highest net. -/
theorem detectObligation_best {nets : List U64} (liquidatable : isLiquidatable ob params healthMargin = true)
    (listed : allNets build ob params pools lp = .ok nets) (best : EveryPoolBest build ob params lp pools nets)
    (perm : order.Perm pools) : ∃ result, detectObligation build ob params order lp healthMargin = .ok result ∧
      result.map Opportunity.netProfit = nets.max? := by
  obtain ⟨result,detected,genuine⟩ := detectObligation_listed liquidatable listed perm
  refine ⟨result,detected,?_⟩
  cases highest : nets.max? with
  | none =>
    have empty := List.max?_eq_none_iff.mp highest
    cases found : result.map Opportunity.netProfit with
    | none => rfl
    | some net =>
      have inside := genuine net found
      rw [empty] at inside
      cases inside
  | some most =>
    obtain ⟨attained,above⟩ := List.max?_eq_some_iff.mp highest
    rcases best with empty | ⟨pair,member,⟨p,inside,serves⟩,each⟩
    · rw [empty] at attained
      cases attained
    -- the first pool of the order that serves the pair serves another one at the highest net
    have some_way : (order.findSome? (wayOf params pair)).isSome :=
      List.findSome?_isSome_iff.mpr ⟨p,perm.mem_iff.mpr inside,serves⟩
    obtain ⟨first,taken⟩ := Option.isSome_iff_exists.mp some_way
    obtain ⟨q,ordered,serves,foremost⟩ := first_serves taken
    have inside := perm.mem_iff.mp ordered
    have alone := each q inside serves
    rw [highest] at alone
    obtain ⟨pair',member',way',serves',own,ran,reached⟩ := (alone_best listed highest inside).mp alone
    obtain ⟨own',ran',covers⟩ := (detectObligation_nets liquidatable detected).2 pair' member' way' (foremost pair' way' serves')
    obtain rfl := Except.ok.inj (ran.symm.trans ran')
    obtain ⟨found,same,atLeast⟩ := covers most reached
    rw [same,le_antisymm (above found (genuine found same)) atLeast]

open Classical in
/-- An obligation is sized independently of the order of the snapshot, at the highest net
over all pools, if and only if it is not shortlisted, or every quote returns and each pool
of some pair of positions attains that net. -/
theorem orderFree_iff (build : Build) (ob : Obligation) (params : TokenId → Option (AssetParams F)) (lp : LiqParams F)
    (healthMargin : F) (pools : List PoolState) :
    OrderFree build ob params lp healthMargin pools ↔
      (isLiquidatable ob params healthMargin = true →
        ∃ nets, allNets build ob params pools lp = .ok nets ∧ EveryPoolBest build ob params lp pools nets) := by
  constructor
  · intro free liquidatable
    obtain ⟨result,-,detected,-,-,highest⟩ := free pools (List.Perm.refl _)
    obtain ⟨nets,listed,found⟩ := highest liquidatable
    refine ⟨nets,listed,?_⟩
    by_contra lacking
    rw [EveryPoolBest,not_or] at lacking
    obtain ⟨full,lacking⟩ := lacking
    -- the worst order lists the pools first that do not attain the highest net on their own
    let worse : PoolState → Prop := fun p => ¬ ∃ own, allNets build ob params [p] lp = .ok own ∧ own.max? = nets.max?
    let order := pools.filter (worse ·) ++ pools.filter (fun p => !decide (worse p))
    obtain ⟨result₁,result₂,detected₁,detected₂,same,-⟩ := free order (List.filter_append_perm _ _)
    obtain rfl := Except.ok.inj (detected.symm.trans detected₁)
    cases highest : nets.max? with
    | none => exact full (List.max?_eq_none_iff.mp highest)
    | some most =>
      rw [found,highest] at same
      obtain ⟨pair,member,way,taken,own,ran,reached⟩ := (detectObligation_nets liquidatable detected₂).1 most same.symm
      have served : ∃ p ∈ pools, Serves params pair p := by
        obtain ⟨p,inside,serves⟩ := List.exists_of_findSome?_eq_some taken
        exact ⟨p,(List.filter_append_perm _ _).mem_iff.mp inside,by rw [Serves,serves]; rfl⟩
      have someWorse : ∃ p ∈ pools, Serves params pair p ∧ worse p := by
        by_contra none
        refine lacking ⟨pair,member,served,fun p inside serves => ?_⟩
        by_contra bad
        exact none ⟨p,inside,serves,bad⟩
      obtain ⟨p,inside,serves,bad⟩ := someWorse
      have early : ((pools.filter (worse ·)).findSome? (wayOf params pair)).isSome :=
        List.findSome?_isSome_iff.mpr ⟨p,List.mem_filter.mpr ⟨inside,decide_eq_true bad⟩,serves⟩
      obtain ⟨way',early⟩ := Option.isSome_iff_exists.mp early
      rw [List.findSome?_append,early] at taken
      obtain rfl : way' = way := Option.some.inj taken
      obtain ⟨q,worst,serves'⟩ := List.exists_of_findSome?_eq_some early
      obtain ⟨qInside,qWorse⟩ := List.mem_filter.mp worst
      refine of_decide_eq_true qWorse ?_
      rw [highest]
      exact (alone_best listed highest qInside).mpr ⟨pair,member,way',serves',own,ran,reached⟩
  · intro best order perm
    by_cases liquidatable : isLiquidatable ob params healthMargin = true
    · obtain ⟨nets,listed,every⟩ := best liquidatable
      obtain ⟨result,detected,found⟩ := detectObligation_best liquidatable listed every (List.Perm.refl _)
      obtain ⟨result',detected',found'⟩ := detectObligation_best liquidatable listed every perm
      exact ⟨result,result',detected,detected',found.trans found'.symm,fun _ => ⟨nets,listed,found⟩⟩
    · have nothing : ∀ snapshot, detectObligation build ob params snapshot lp healthMargin = .ok none :=
        fun _ => if_neg liquidatable
      exact ⟨none,none,nothing pools,nothing order,rfl,fun shortlisted => absurd shortlisted liquidatable⟩

/-- Two pools of one pair, one of them too thin to sell the collateral into. -/
def deepPool : PoolState := ⟨"deep",.cetus,"SUI","USDC",.clmm (Clmm.singleRange Clmm.q64 100000000000000000 500)⟩

def thinPool : PoolState := ⟨"thin",.cetus,"SUI","USDC",.clmm (Clmm.singleRange Clmm.q64 1000000000 500)⟩

def oneDebt : Obligation := ⟨"ob",.scallop,[⟨"SUI",1000000000000⟩],[⟨"USDC",1000000000000⟩]⟩

def dollars : Params := fun coinType => if coinType ∈ ["SUI","USDC"] then some ⟨coinType,9,1,7/10,1⟩ else none

def sweep : LiqParams ℚ := ⟨1/5,2/25,0,0,1,[1,1/2,1/4]⟩

theorem deep_first (build : Build) :
    (detectObligation build oneDebt dollars [deepPool,thinPool] sweep 0).map (Option.map Opportunity.netProfit) =
      .ok (some 15891533907) := by
  cases build <;> decide +kernel

theorem thin_first (build : Build) : detectObligation build oneDebt dollars [thinPool,deepPool] sweep 0 = .ok none := by
  cases build <;> decide +kernel

theorem order_matters (build : Build) : ¬ OrderFree build oneDebt dollars sweep 0 [deepPool,thinPool] := by
  intro free
  obtain ⟨result,result',detected,detected',same,-⟩ := free [thinPool,deepPool] (List.Perm.swap _ _ _)
  have found := deep_first build
  rw [detected] at found
  obtain rfl := Except.ok.inj (detected'.symm.trans (thin_first build))
  cases same.symm.trans (Except.ok.inj found)

/-- The deep pool liquidates at a profit, and is not looked at behind the thin one. -/
theorem detect_depends_on_order :
    [deepPool.id,thinPool.id].Nodup ∧ [thinPool,deepPool].Perm [deepPool,thinPool] ∧
      (detectObligation .release oneDebt dollars [deepPool,thinPool] sweep 0).map (Option.map Opportunity.netProfit) =
        .ok (some 15891533907) ∧
      detectObligation .release oneDebt dollars [thinPool,deepPool] sweep 0 = .ok none ∧
      ¬ OrderFree .release oneDebt dollars sweep 0 [deepPool,thinPool] ∧
      ¬ OrderFree .debug oneDebt dollars sweep 0 [deepPool,thinPool] :=
  ⟨by decide,List.Perm.swap _ _ _,deep_first .release,thin_first .release,order_matters .release,order_matters .debug⟩

end sizing

end SuiArbitrage.Rust.Liquidation
