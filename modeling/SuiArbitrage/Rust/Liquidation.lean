import SuiArbitrage.Rust.Scanner

/-! The liquidation sizing of `offchain/src/liquidation`: the positions and their
local health, and the repay fraction that is worth the most. -/
namespace SuiArbitrage.Rust
open MachineWord

namespace Liquidation
open Scanner

structure Position where
  coinType : TokenId
  amount : U64
  deriving DecidableEq, Repr

structure AssetParams (F : Type) where
  coinType : TokenId
  decimals : ℕ
  priceUsd : F
  liquidationThreshold : F
  borrowWeight : F

structure Obligation where
  id : String
  protocol : Protocol
  collaterals : List Position
  debts : List Position
  deriving DecidableEq, Repr

def Obligation.debt (ob : Obligation) (coinType : TokenId) : Option Position :=
  ob.debts.find? (·.coinType = coinType)

def Obligation.collateral (ob : Obligation) (coinType : TokenId) : Option Position :=
  ob.collaterals.find? (·.coinType = coinType)

structure SwapBack where
  poolId : PoolId
  dex : Dex
  aToB : Bool
  state : Clmm.ClmmState

structure LiqParams (F : Type) where
  closeFactor : F
  liquidationBonus : F
  flashFeeBps : U64
  gasCost : U64
  minProfit : U64
  candidateFractions : List F

section health
variable {F : Type} [F64 F]

def AssetParams.valueUsd (asset : AssetParams F) (amountRaw : U64) : F :=
  F64.ofU64 amountRaw / F64.powi (F64.ofU64 10) asset.decimals * asset.priceUsd

def weightedDebtUsd (ob : Obligation) (params : TokenId → Option (AssetParams F)) : F :=
  (ob.debts.filterMap fun p => (params p.coinType).map fun ap => ap.valueUsd p.amount * ap.borrowWeight).foldl
    (· + ·) (F64.ofU64 0)

def liqWeightedCollateralUsd (ob : Obligation) (params : TokenId → Option (AssetParams F)) : F :=
  (ob.collaterals.filterMap fun p =>
    (params p.coinType).map fun ap => ap.valueUsd p.amount * ap.liquidationThreshold).foldl (· + ·) (F64.ofU64 0)

def healthFactor (ob : Obligation) (params : TokenId → Option (AssetParams F)) : Option F :=
  let debt := weightedDebtUsd ob params
  if F64.atMost debt (F64.ofU64 0) then none else some (liqWeightedCollateralUsd ob params / debt)

def isLiquidatable (ob : Obligation) (params : TokenId → Option (AssetParams F)) (margin : F) : Bool :=
  match healthFactor ob params with
  | some hf => F64.less hf (F64.ofU64 1 + margin)
  | none => false

end health

def findSwapBack (pools : List PoolState) (collateral debt : TokenId) : Option SwapBack :=
  pools.findSome? fun p =>
    match p.kind with
    | .v2 .. => none
    | .clmm state =>
      if p.tokenA = collateral ∧ p.tokenB = debt then some ⟨p.id,p.dex,true,state⟩
      else if p.tokenB = collateral ∧ p.tokenA = debt then some ⟨p.id,p.dex,false,state⟩
      else none

section sizing
variable {F : Type} [F64 F]

def seizedForRepay (repayRaw : U64) (debt collateral : AssetParams F) (bonus : F)
    (collateralAvailableRaw : U64) : U64 :=
  let seizedValueUsd := debt.valueUsd repayRaw * (F64.ofU64 1 + bonus)
  let seized := seizedValueUsd / collateral.priceUsd * F64.powi (F64.ofU64 10) collateral.decimals
  min (F64.toU64 seized) collateralAvailableRaw

def opportunity (ob : Obligation) (debt collateral : AssetParams F) (swap : SwapBack)
    (repay debtOut flashFee net : U64) : Opportunity :=
  let hop : Hop := ⟨swap.poolId,swap.dex,collateral.coinType,debt.coinType,swap.aToB⟩
  let leg : LiquidationLeg := ⟨ob.protocol,ob.id,debt.coinType,collateral.coinType,repay,[]⟩
  ⟨.liquidation,some leg,[hop],repay,debtOut,[debtOut],saturatingSub debtOut repay,flashFee,net⟩

/-- One round of the sweep of `size_liquidation`. -/
def sizeFraction (build : Build) (ob : Obligation) (debt collateral : AssetParams F) (swap : SwapBack)
    (lp : LiqParams F) (maxRepay available : U64) (frac : F) : Rust (Option Opportunity) :=
  let repay := F64.toU64 (F64.ofU64 maxRepay * frac)
  let seized := seizedForRepay repay debt collateral lp.liquidationBonus available
  if repay = 0 ∨ seized = 0 then .ok none
  else
    andThen (Clmm.quoteExactIn build swap.state seized swap.aToB) fun debtOut =>
      let flashFee := Flashloan.quoteFeeBps repay lp.flashFeeBps
      let cost := saturatingAdd (saturatingAdd repay flashFee) lp.gasCost
      let net := saturatingSub debtOut cost
      if net < lp.minProfit then .ok none
      else .ok (some (opportunity ob debt collateral swap repay debtOut flashFee net))

def repayable (ob : Obligation) (debt collateral : AssetParams F) (lp : LiqParams F) : Option (U64 × U64) := do
  let debtPos ← ob.debt debt.coinType
  let collPos ← ob.collateral collateral.coinType
  let maxRepay := F64.toU64 (F64.ofU64 debtPos.amount * lp.closeFactor)
  if maxRepay = 0 then none else some (maxRepay,collPos.amount)

def sizeLiquidation (build : Build) (ob : Obligation) (debt collateral : AssetParams F) (swap : SwapBack)
    (lp : LiqParams F) : Rust (Option Opportunity) :=
  andThen (.ok (repayable ob debt collateral lp)) fun bounds =>
    FirstMax.bestOf Opportunity.netProfit (sizeFraction build ob debt collateral swap lp bounds.1 bounds.2)
      lp.candidateFractions

/-- What the loops of `detect_obligation` look up for a pair of positions. -/
def pairing (params : TokenId → Option (AssetParams F)) (pools : List PoolState) (pair : Position × Position) :
    Option (AssetParams F × AssetParams F × SwapBack) := do
  let debt ← params pair.1.coinType
  let collateral ← params pair.2.coinType
  let swap ← findSwapBack pools pair.2.coinType pair.1.coinType
  return (debt,collateral,swap)

def positionPairs (ob : Obligation) : List (Position × Position) :=
  ob.debts.flatMap fun debt => ob.collaterals.map fun collateral => (debt,collateral)

def detectObligation (build : Build) (ob : Obligation) (params : TokenId → Option (AssetParams F))
    (pools : List PoolState) (lp : LiqParams F) (healthMargin : F) : Rust (Option Opportunity) :=
  if isLiquidatable ob params healthMargin then
    FirstMax.bestOf Opportunity.netProfit (fun pair =>
      andThen (.ok (pairing params pools pair)) fun (debt,collateral,swap) =>
        sizeLiquidation build ob debt collateral swap lp) (positionPairs ob)
  else .ok none

end sizing

end Liquidation

end SuiArbitrage.Rust
