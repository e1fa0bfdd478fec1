import SuiArbitrage.Rust.Config
import SuiArbitrage.Rust.Oracle
import SuiArbitrage.Rust.Ptb

/-! The assembly of a transaction for an opportunity, of `offchain/src/executor.rs`. The
node, the parsers of the chain's library and the price service are parameters. -/
namespace SuiArbitrage.Rust.Executor
open MachineWord Scanner Flashloan Ptb
open Move (TypeTag ObjectId Address ObjectArg Command)

structure Node where
  typeTag : String → Anyhow TypeTag
  objectId : String → Anyhow ObjectId
  initialSharedVersion : ObjectId → Anyhow ℕ
  fetchPythAccumulator : String → List String → Anyhow (List U8)

/-- `ObjRefCache::shared_arg`; the version itself is not kept in an argument. -/
def Node.sharedArg (node : Node) (idStr : String) (mutable : Bool) : Anyhow ObjectArg := do
  let id ← context ("object id " ++ idStr) (node.objectId idStr)
  let _ ← node.initialSharedVersion id
  return ⟨id,mutable⟩

structure LivePoolRef where
  dex : Dex
  poolId : ObjectId
  typeA : TypeTag
  typeB : TypeTag
  feeType : Option TypeTag
  deriving DecidableEq, Repr

def clockArg : ObjectArg := ⟨"0x6",false⟩

/-- The adapters' objects are looked up once; a failed look-up is no error yet. -/
def resolveHop (lref : LivePoolRef) (aToB : Bool) (minOut : U64) (cetusCfg turbosVer : Option ObjectArg) : ResolvedHop where
  dex := lref.dex
  aToB := aToB
  pool := ⟨lref.poolId,true⟩
  typeArgs := [lref.typeA,lref.typeB] ++ lref.feeType.toList
  minOut := minOut
  cetusConfig := cetusCfg
  clock := some clockArg
  turbosVersioned := turbosVer

/-- `floors[i]`, which panics out of bounds. -/
def floorAt (floors : List U64) (i : ℕ) : Anyhow U64 :=
  match floors[i]? with
  | some minOut => .ok minOut
  | none => .error (.panic ("index out of bounds: the len is " ++ toString floors.length ++
      " but the index is " ++ toString i))

section build
variable {F : Type} [F64 F] (node : Node) (config : Config F) (opp : Opportunity) (refs : List (LivePoolRef × Bool))
  (floors : List U64) (sender : Address)

omit [F64 F] in
def flashProvider : Anyhow FlashLoanProvider :=
  orBail ("unknown flash provider '" ++ config.flashProvider ++ "'")
    (providerFrom config.flashProvider config.scallopPackageId config.flashLenderId config.flashFeeBps config.flashVersionId)

omit [F64 F] in
def buildLiquidationPtb : Anyhow (List Command) := do
  let leg ← orBail "liquidation opp missing leg" opp.liquidation
  let debtType ← context "debt type" (node.typeTag leg.debtType)
  let collateralType ← context "collateral type" (node.typeTag leg.collateralType)
  let provider ← flashProvider config
  let plan ← liquidationPlan (some provider) opp config.minProfit
  let repayTotal := provider.repayTotal leg.repayAmount
  let (lref,aToB) ← orBail "liquidation route has no swap hop" refs.head?
  let cetusCfg := (node.sharedArg config.cetusGlobalConfigId false).toOption
  let turbosVer := (node.sharedArg config.turbosVersionedId false).toOption
  let swap := resolveHop lref aToB (floors.head?.getD 0) cetusCfg turbosVer
  let debtPi ← orBail ("no PriceInfoObject configured for debt " ++ leg.debtType) (config.priceInfoObject leg.debtType)
  let collPi ← orBail ("no PriceInfoObject configured for collateral " ++ leg.collateralType)
    (config.priceInfoObject leg.collateralType)
  let debtFeed ← orBail ("no Pyth feed id for debt " ++ leg.debtType) (config.pythFeedId leg.debtType)
  let collFeed ← orBail ("no Pyth feed id for collateral " ++ leg.collateralType) (config.pythFeedId leg.collateralType)
  let accumulatorMsg ← node.fetchPythAccumulator config.hermesUrl [debtFeed,collFeed]
  let vaaBytes ← Oracle.extractVaaFromAccumulator accumulatorMsg
  let debtInfo ← node.sharedArg debtPi true
  let collInfo ← node.sharedArg collPi true
  let package ← context "ARB_PACKAGE_ID" (node.objectId config.packageId)
  let scallopPackage ← node.objectId config.scallopPackageId
  let version ← node.sharedArg config.flashVersionId false
  let obligation ← node.sharedArg leg.obligationId true
  let market ← node.sharedArg config.flashLenderId true
  let registry ← node.sharedArg config.scallopRegistryId false
  let xOracle ← node.sharedArg config.scallopXOracleId false
  let wormholePackage ← context "ARB_WORMHOLE_PACKAGE_ID" (node.objectId config.wormholePackageId)
  let pythPackage ← context "ARB_PYTH_PACKAGE_ID" (node.objectId config.pythPackageId)
  let wormholeState ← node.sharedArg config.wormholeStateId false
  let pythState ← node.sharedArg config.pythStateId false
  buildLiquidation plan
    { package, scallopPackage, debtType, collateralType, version, obligation, market, registry, xOracle,
      clock := clockArg, wormholePackage, pythPackage, wormholeState, pythState, vaaBytes, accumulatorMsg,
      pythFee := config.pythFee, priceInfos := [debtInfo,collInfo], repayAmount := leg.repayAmount, repayTotal,
      minProfit := config.minProfit, swap, sender }

omit [F64 F] in
/-- The vault is in our own package; the other lender has its own and a version object. -/
def providerObjects (pkg : ObjectId) : FlashStyle → Anyhow (ObjectId × Option ObjectArg)
  | .mockVault => .ok (pkg,none)
  | .scallop => do
    let package ← node.objectId config.scallopPackageId
    let version ← node.sharedArg config.flashVersionId false
    return (package,some version)

def buildFlashPtb (baseType : TypeTag) (pkg : ObjectId) : Anyhow (List Command) := do
  let provider ← flashProvider config
  let effectiveMin := config.effectiveMinProfitMist
  let plan := flashArbPlan provider opp effectiveMin
  let cetusCfg := (node.sharedArg config.cetusGlobalConfigId false).toOption
  let turbosVer := (node.sharedArg config.turbosVersionedId false).toOption
  let hops ← refs.zipIdx.mapM fun ((lref,aToB),i) => do
    let minOut ← floorAt floors i
    return resolveHop lref aToB minOut cetusCfg turbosVer
  let lender ← node.sharedArg config.flashLenderId true
  let (providerPackage,version) ← providerObjects node config pkg provider.style
  build plan
    { package := pkg, providerPackage, baseType, lender, amount := opp.inputAmount, minProfit := effectiveMin, hops,
      sender, flashStyle := provider.style, version, repayTotal := provider.repayTotal opp.inputAmount }

def buildPtb : Anyhow (List Command) := do
  let baseType ← node.typeTag config.baseToken
  let pkg ← context "ARB_PACKAGE_ID" (node.objectId config.packageId)
  if opp.kind = .liquidation then buildLiquidationPtb node config opp refs floors sender
  else buildFlashPtb node config opp refs floors sender baseType pkg

end build

/-- The transaction of the owned mode: the input is split off the gas coin. -/
def buildOwnedPtb {F : Type} (node : Node) (config : Config F) (route : List Hop) (refs : List (LivePoolRef × Bool))
    (floors : List U64) (amount minProfit : U64) : Anyhow (List Command) := do
  let baseType ← node.typeTag config.baseToken
  let pkg ← context "ARB_PACKAGE_ID" (node.objectId config.packageId)
  let cetusCfg := (node.sharedArg config.cetusGlobalConfigId false).toOption
  let turbosVer := (node.sharedArg config.turbosVersionedId false).toOption
  let hops ← refs.zipIdx.mapM fun ((lref,aToB),i) => do
    let minOut ← floorAt floors i
    return resolveHop lref aToB minOut cetusCfg turbosVer
  let planOpp : Opportunity :=
    { kind := .arb, liquidation := none, route, inputAmount := amount, outputAmount := 0,
      hopOutputs := List.replicate route.length 0, grossProfit := 0, flashFee := 0, netProfit := 0 }
  buildOwned (ownedArbPlan planOpp minProfit) { package := pkg, baseType, amount, minProfit, hops }

end SuiArbitrage.Rust.Executor
