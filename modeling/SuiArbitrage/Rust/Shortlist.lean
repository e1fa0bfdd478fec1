import SuiArbitrage.Rust.Liquidation
import SuiArbitrage.Rust.ProfitGate
import Mathlib.Algebra.BigOperators.Group.List.Basic
import Mathlib.Algebra.Order.BigOperators.Group.List
import Mathlib.Algebra.Order.Field.Basic

/-! The local health filter in exact arithmetic, where rationals stand in for `f64`, when
some of the assets of an obligation have no price. A missing collateral lowers the health
factor that the filter sees, a missing debt raises it. -/
namespace SuiArbitrage.Rust.Liquidation
open MachineWord

abbrev Params := TokenId → Option (AssetParams ℚ)

/-- A map that lacks some of the entries of another. -/
def Submap (part whole : Params) : Prop := ∀ coinType asset, part coinType = some asset → whole coinType = some asset

def NonNegative (params : Params) : Prop :=
  ∀ coinType asset, params coinType = some asset →
    0 ≤ asset.priceUsd ∧ 0 ≤ asset.liquidationThreshold ∧ 0 ≤ asset.borrowWeight

/-- The health factor is below 1. -/
def Underwater (ob : Obligation) (params : Params) : Prop := ∃ hf, healthFactor ob params = some hf ∧ hf < 1

/-- The filter passes the obligation at every margin. -/
def Shortlisted (ob : Obligation) (params : Params) : Prop :=
  ∀ margin : ℚ, 0 ≤ margin → isLiquidatable ob params margin = true

/-- The weighted value of those positions that have a price. -/
def weighted (weight : AssetParams ℚ → ℚ) (params : Params) (positions : List Position) : ℚ :=
  (positions.filterMap fun p => (params p.coinType).map fun ap => ap.valueUsd p.amount * weight ap).sum

/-- The weighted value that a part of the prices does not see. -/
def leftOut (weight : AssetParams ℚ → ℚ) (whole part : Params) (positions : List Position) : ℚ :=
  weighted weight whole (positions.filter fun p => (part p.coinType).isNone)

section sums
variable {weight : AssetParams ℚ → ℚ} {whole part params : Params} {ob : Obligation}

@[simp] theorem ofU64_val (n : U64) : (F64.ofU64 n : ℚ) = n.val := rfl

theorem atMost_iff {x y : ℚ} : F64.atMost x y = true ↔ x ≤ y := decide_eq_true_iff

theorem less_iff {x y : ℚ} : F64.less x y = true ↔ x < y := decide_eq_true_iff

theorem foldl_eq_sum (values : List ℚ) : values.foldl (· + ·) (F64.ofU64 0) = values.sum := by
  rw [List.sum_eq_foldl,ofU64_val,Fin.val_zero,Nat.cast_zero]

theorem weightedDebtUsd_eq : weightedDebtUsd ob params = weighted AssetParams.borrowWeight params ob.debts :=
  foldl_eq_sum _

theorem liqWeightedCollateralUsd_eq :
    liqWeightedCollateralUsd ob params = weighted AssetParams.liquidationThreshold params ob.collaterals :=
  foldl_eq_sum _

theorem valueUsd_eq (asset : AssetParams ℚ) (amount : U64) :
    asset.valueUsd amount = amount.val / 10^asset.decimals * asset.priceUsd := rfl

theorem weighted_cons (position : Position) (rest : List Position) :
    weighted weight params (position :: rest) =
      (((params position.coinType).map fun ap => ap.valueUsd position.amount * weight ap).getD 0) +
        weighted weight params rest := by
  unfold weighted
  cases found : params position.coinType with
  | none => simp [found]
  | some asset => simp [found]

variable (weight) in
theorem weighted_split (sub : Submap part whole) (positions : List Position) :
    weighted weight whole positions = weighted weight part positions + leftOut weight whole part positions := by
  induction positions with
  | nil => simp [weighted,leftOut]
  | cons position rest ih =>
    unfold leftOut at ih ⊢
    rw [weighted_cons,weighted_cons,ih]
    cases found : part position.coinType with
    | none =>
      rw [List.filter_cons_of_pos (by rw [found]; rfl),weighted_cons]
      simp only [Option.map_none,Option.getD_none]
      ring
    | some asset =>
      rw [List.filter_cons_of_neg (by rw [found]; simp),sub _ _ found]
      ring

theorem weighted_nonneg (weights : ∀ coinType asset, params coinType = some asset → 0 ≤ asset.priceUsd ∧ 0 ≤ weight asset)
    (positions : List Position) : 0 ≤ weighted weight params positions := by
  apply List.sum_nonneg
  intro value member
  obtain ⟨position,-,mapped⟩ := List.mem_filterMap.mp member
  obtain ⟨asset,found,rfl⟩ := Option.map_eq_some_iff.mp mapped
  obtain ⟨price,share⟩ := weights _ _ found
  rw [valueUsd_eq]
  positivity

end sums

section filter
variable {ob : Obligation} {whole part params : Params} {margin : ℚ}

theorem healthFactor_some {hf : ℚ} : healthFactor ob params = some hf ↔
    0 < weightedDebtUsd ob params ∧ hf = liqWeightedCollateralUsd ob params / weightedDebtUsd ob params := by
  unfold healthFactor
  have covered : F64.atMost (weightedDebtUsd ob params) (F64.ofU64 0) = true ↔ weightedDebtUsd ob params ≤ 0 := by
    rw [atMost_iff,ofU64_val,Fin.val_zero,Nat.cast_zero]
  by_cases free : weightedDebtUsd ob params ≤ 0
  · rw [if_pos (covered.mpr free)]
    refine iff_of_false (fun same => by cases same) fun both => ?_
    exact absurd both.1 (not_lt.mpr free)
  · rw [if_neg fun covers => free (covered.mp covers),Option.some.injEq,and_iff_right (not_le.mp free)]
    exact eq_comm

theorem underwater_iff (nonneg : NonNegative params) :
    Underwater ob params ↔ liqWeightedCollateralUsd ob params < weightedDebtUsd ob params := by
  have positive : 0 ≤ liqWeightedCollateralUsd ob params := by
    rw [liqWeightedCollateralUsd_eq]
    exact weighted_nonneg (fun coinType asset found => ⟨(nonneg _ _ found).1,(nonneg _ _ found).2.1⟩) _
  constructor
  · intro ⟨hf,found,below⟩
    obtain ⟨debt,rfl⟩ := healthFactor_some.mp found
    rwa [div_lt_one debt] at below
  · intro short
    have debt := positive.trans_lt short
    exact ⟨_,healthFactor_some.mpr ⟨debt,rfl⟩,(div_lt_one debt).mpr short⟩

theorem isLiquidatable_true : isLiquidatable ob params margin = true ↔
    ∃ hf, healthFactor ob params = some hf ∧ hf < 1 + margin := by
  unfold isLiquidatable
  cases found : healthFactor ob params with
  | none => simp
  | some hf =>
    have below : F64.less hf (F64.ofU64 1 + margin) = true ↔ hf < 1 + margin := by
      rw [less_iff,ofU64_val]
      exact Iff.of_eq (congrArg (hf < · + margin) Nat.cast_one)
    simp only [below,Option.some.injEq,exists_eq_left']

theorem shortlisted_iff_underwater : Shortlisted ob params ↔ Underwater ob params := by
  constructor
  · intro always
    obtain ⟨hf,found,below⟩ := isLiquidatable_true.mp (always 0 le_rfl)
    exact ⟨hf,found,by rwa [add_zero] at below⟩
  · intro ⟨hf,found,below⟩ margin wide
    exact isLiquidatable_true.mpr ⟨hf,found,by linarith⟩

/-- An obligation that is underwater is shortlisted from a part of the prices if and only
if the weighted debt left out is less than its shortfall together with the weighted
collateral left out. -/
theorem shortlisted_iff (nonneg : NonNegative whole) (sub : Submap part whole) :
    (Underwater ob whole → Shortlisted ob part) ↔ (Underwater ob whole →
      leftOut AssetParams.borrowWeight whole part ob.debts <
        (weightedDebtUsd ob whole - liqWeightedCollateralUsd ob whole) +
          leftOut AssetParams.liquidationThreshold whole part ob.collaterals) := by
  have kept : NonNegative part := fun coinType asset found => nonneg coinType asset (sub _ _ found)
  have debts := weighted_split AssetParams.borrowWeight sub ob.debts
  have collaterals := weighted_split AssetParams.liquidationThreshold sub ob.collaterals
  rw [← weightedDebtUsd_eq,← weightedDebtUsd_eq] at debts
  rw [← liqWeightedCollateralUsd_eq,← liqWeightedCollateralUsd_eq] at collaterals
  refine forall_congr' fun _ => ?_
  rw [shortlisted_iff_underwater,underwater_iff kept,debts,collaterals]
  constructor
  · intro below
    linarith
  · intro below
    linarith

/-- Ten units of collateral at a threshold of 4/5, and debts of six units in two coins. -/
def twoDebts : Obligation := ⟨"ob",.scallop,[⟨"COLL",10⟩],[⟨"USDC",6⟩,⟨"USDT",6⟩]⟩

def priced (coinTypes : List TokenId) : Params := fun coinType =>
  if coinType ∈ coinTypes then some ⟨coinType,0,1,4/5,1⟩ else none

theorem priced_nonneg (coinTypes : List TokenId) : NonNegative (priced coinTypes) := by
  intro coinType asset found
  unfold priced at found
  split at found
  · obtain rfl := Option.some.inj found
    norm_num
  · cases found

theorem priced_submap {fewer more : List TokenId} (subset : fewer ⊆ more) : Submap (priced fewer) (priced more) := by
  intro coinType asset found
  unfold priced at found ⊢
  split at found
  · rename_i member
    rw [if_pos (subset member)]
    exact found
  · cases found

/-- Without the price of its second debt an obligation at a health factor of 2/3 appears
at one of 4/3. -/
theorem unpriced_debt_hides :
    let whole := priced ["COLL","USDC","USDT"]
    let part := priced ["COLL","USDC"]
    (∀ p ∈ twoDebts.debts ++ twoDebts.collaterals, (whole p.coinType).isSome) ∧ NonNegative whole ∧
      Submap part whole ∧ healthFactor twoDebts whole = some (2/3) ∧ healthFactor twoDebts part = some (4/3) ∧
      isLiquidatable twoDebts part (1/50) = false ∧ ¬ (Underwater twoDebts whole → Shortlisted twoDebts part) := by
  intro whole part
  have below : healthFactor twoDebts whole = some (2/3) := by decide +kernel
  have hidden : isLiquidatable twoDebts part (1/50) = false := by decide +kernel
  refine ⟨by decide +kernel,priced_nonneg _,priced_submap (by decide),below,by decide +kernel,hidden,fun kept => ?_⟩
  have passed := kept ⟨2/3,below,by norm_num⟩ (1/50) (by norm_num)
  rw [hidden] at passed
  cases passed

/-- Without the price of its collateral it is shortlisted all the same. -/
theorem shortlisted_without_collateral : Shortlisted twoDebts (priced ["USDC","USDT"]) := by
  have below : healthFactor twoDebts (priced ["COLL","USDC","USDT"]) = some (2/3) := by decide +kernel
  refine (shortlisted_iff (priced_nonneg _) (priced_submap (by decide))).mpr (fun _ => ?_) ⟨2/3,below,by norm_num⟩
  decide +kernel

end filter

section refresh

structure AssetMeta (F : Type) where
  coinType : TokenId
  decimals : ℕ
  liquidationThreshold : F
  borrowWeight : F

def AssetMeta.withPrice {F : Type} (asset : AssetMeta F) (priceUsd : F) : AssetParams F :=
  ⟨asset.coinType,asset.decimals,priceUsd,asset.liquidationThreshold,asset.borrowWeight⟩

/-- One asset of the loop of `refresh_params`: one whose price cannot be read is omitted. -/
def readPrice {F : Type} (prices : TokenId → Option F) (next : TokenId → Option (AssetParams F)) (asset : AssetMeta F)
    (coinType : TokenId) : Option (AssetParams F) :=
  match prices asset.coinType with
  | none => next coinType
  | some price => if coinType = asset.coinType then some (asset.withPrice price) else next coinType

/-- The map is replaced only if some price could be read. -/
def refreshParams {F : Type} (metas : List (AssetMeta F)) (prices : TokenId → Option F)
    (params : TokenId → Option (AssetParams F)) : TokenId → Option (AssetParams F) :=
  if metas.all fun asset => (prices asset.coinType).isNone then params
  else metas.foldl (readPrice prices) fun _ => none

theorem readPrice_other {prices : TokenId → Option ℚ} {next : Params} {asset : AssetMeta ℚ} {coinType : TokenId}
    (other : coinType ≠ asset.coinType) : readPrice prices next asset coinType = next coinType := by
  unfold readPrice
  split
  · rfl
  · rw [if_neg other]

theorem readPrices_none {prices : TokenId → Option ℚ} {metas : List (AssetMeta ℚ)} {coinType : TokenId}
    (absent : coinType ∉ metas.map AssetMeta.coinType) : metas.foldl (readPrice prices) (fun _ => none) coinType = none := by
  induction metas using List.reverseRecOn with
  | nil => rfl
  | append_singleton rest last ih =>
    rw [List.map_append,List.mem_append,not_or] at absent
    have other : coinType ≠ last.coinType := fun same => absent.2 (by simp [same])
    rw [List.foldl_append,List.foldl_cons,List.foldl_nil,readPrice_other other]
    exact ih absent.1

theorem readPrices_submap {few all : TokenId → Option ℚ} {metas : List (AssetMeta ℚ)}
    (distinct : (metas.map AssetMeta.coinType).Nodup) (fewer : ∀ coinType price, few coinType = some price → all coinType = some price) :
    Submap (metas.foldl (readPrice few) fun _ => none) (metas.foldl (readPrice all) fun _ => none) := by
  induction metas using List.reverseRecOn with
  | nil => exact fun _ _ found => found
  | append_singleton rest last ih =>
    rw [List.map_append,List.nodup_append] at distinct
    obtain ⟨distinct,-,disjoint⟩ := distinct
    intro coinType asset found
    rw [List.foldl_append,List.foldl_cons,List.foldl_nil] at found ⊢
    by_cases here : coinType = last.coinType
    · have absent : coinType ∉ rest.map AssetMeta.coinType := fun member =>
        disjoint coinType member last.coinType (by simp) here
      cases read : few last.coinType with
      | none =>
        simp only [readPrice,read] at found
        rw [readPrices_none absent] at found
        cases found
      | some price =>
        simp only [readPrice,read,fewer _ _ read,if_pos here] at found ⊢
        exact found
    · rw [readPrice_other here] at found ⊢
      exact ih distinct coinType asset found

theorem refreshParams_eq {prices : TokenId → Option ℚ} {metas : List (AssetMeta ℚ)} {params : Params}
    (read : ∃ asset ∈ metas, (prices asset.coinType).isSome) :
    refreshParams metas prices params = metas.foldl (readPrice prices) fun _ => none := by
  obtain ⟨asset,member,found⟩ := read
  refine if_neg fun nothing => ?_
  rw [Option.isNone_iff_eq_none.mp (List.all_eq_true.mp nothing asset member)] at found
  cases found

/-- Where only some of the price reads fail, the map that is installed lacks some of the
entries it would have. -/
theorem refreshParams_submap {few all : TokenId → Option ℚ} {metas : List (AssetMeta ℚ)} {params params' : Params}
    (distinct : (metas.map AssetMeta.coinType).Nodup) (fewer : ∀ coinType price, few coinType = some price → all coinType = some price)
    (read : ∃ asset ∈ metas, (few asset.coinType).isSome) :
    Submap (refreshParams metas few params) (refreshParams metas all params') := by
  obtain ⟨asset,member,found⟩ := read
  obtain ⟨price,same⟩ := Option.isSome_iff_exists.mp found
  have read' : ∃ asset ∈ metas, (all asset.coinType).isSome := ⟨asset,member,by rw [fewer _ _ same]; rfl⟩
  rw [refreshParams_eq ⟨asset,member,found⟩,refreshParams_eq read']
  exact readPrices_submap distinct fewer

end refresh

end SuiArbitrage.Rust.Liquidation
