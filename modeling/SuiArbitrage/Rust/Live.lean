import SuiArbitrage.Lib.Stateful
import SuiArbitrage.Rust.Executor
import SuiArbitrage.Rust.Liquidation
import SuiArbitrage.Rust.Risk

/-! The live loop of `offchain/src/main.rs` and the executors of `offchain/src/executor.rs`.
Every answer from outside is a function of what happened before it, so that two reads of
the same thing need not agree. -/
namespace SuiArbitrage.Rust.Live
open MachineWord Stateful Scanner
open Move (TypeTag ObjectId Address Command)
open Executor (LivePoolRef Node)

inductive ExecMode
  | flash | owned
  deriving DecidableEq, Repr

structure LiveConfig (F : Type) extends Config F where
  gasBudget : U64
  gasCostEstimate : U64
  maxHops : ℕ
  candidateInputs : List U64
  flashEnabled : Bool
  poolBlacklist : List String
  killSwitch : Bool
  maxDailyLossUsd : F
  submitEnabled : Bool
  maxQuoteAgeMs : U64
  perHopSlippageBps : U64
  liqEnabled : Bool
  liqCloseFactor : F
  liqBonus : F
  liqHealthMargin : F
  keystorePath : String
  senderAddress : String
  executionMode : ExecMode
  ownedSizes : List U64
  maxWalletCapital : U64

inductive Owner
  | address (a : Address)
  | other
  deriving DecidableEq, Repr

structure BalanceChange where
  owner : Owner
  coinType : TypeTag
  amount : I128
  deriving DecidableEq

structure Coin where
  objectRef : ObjectId
  balance : U64
  deriving DecidableEq, Repr

structure GasCostSummary where
  computationCost : U64
  storageCost : U64
  storageRebate : U64
  deriving DecidableEq, Repr

structure DryRunResponse where
  success : Bool
  gas : GasCostSummary
  balanceChanges : List BalanceChange
  deriving DecidableEq

structure TransactionData where
  sender : Address
  gasPayment : List ObjectId
  pt : List Command
  gasBudget : U64
  gasPrice : U64
  deriving DecidableEq, Repr

structure DryRun where
  success : Bool
  netBase : I128
  gasUsed : U64
  deriving DecidableEq

structure ExecuteResponse where
  balanceChanges : Option (List BalanceChange)
  deriving DecidableEq

/-- What becomes of a transaction that is sent: it may land without its sender learning
of it. -/
inductive Delivery
  | replied (landed : List BalanceChange) (resp : ExecuteResponse)
  | failed (stop : Stop)
  | lost (landed : List BalanceChange) (stop : Stop)
  deriving DecidableEq

def Delivery.reply : Delivery → Anyhow ExecuteResponse
  | .replied _ resp => .ok resp
  | .failed stop | .lost _ stop => .error stop

/-- Events are a record for the proofs; the code logs some of them. `observed` stands for
any other read. -/
inductive Event (F : Type)
  | observed
  | chosen (opp : Opportunity)
  | balance (total : U128)
  | dryRan (tx : TransactionData) (dry : DryRun)
  | clock (now : ℕ)
  | decided (guard : RiskGuard F) (netUsd : F) (poolIds : List PoolId) (decision : Decision)
  | signed (tx : TransactionData)
  | executed (tx : TransactionData) (delivery : Delivery)

abbrev History (F : Type) := List (Event F)

/-- The clock counts nanoseconds. `connect` is all that is read before the loop starts. -/
structure World (F : Type) where
  connect : Anyhow Unit
  pools : History F → List PoolState
  registry : History F → PoolId → Option LivePoolRef
  obligations : History F → List Liquidation.Obligation
  liqParams : History F → List (TokenId × Liquidation.AssetParams F)
  node : History F → Node
  parseAddress : String → Anyhow Address
  gasPrice : History F → Anyhow U64
  coins : History F → Anyhow (List Coin)
  balance : History F → Anyhow U128
  dryRun : History F → TransactionData → Anyhow DryRunResponse
  clock : History F → ℕ
  sign : History F → String → Address → TransactionData → Anyhow Unit
  execute : History F → TransactionData → Delivery

structure Session (F : Type) where
  guard : RiskGuard F
  trace : History F

abbrev Bot (F : Type) := Act (Session F) Stop

inductive Outcome
  | skipped | dryRunOnly | submitted
  deriving DecidableEq, Repr

/-- A panic ends the loop, and so does a computation that never returns. -/
def unwind {α : Type} (x : Rust α) : Anyhow α :=
  x.mapError fun
    | .panic _ => .panic "arithmetic"
    | .diverges => .panic "no return"

def addI128 (build : Build) (x y : I128) : Rust I128 :=
  if h : -2^127 ≤ x.val + y.val ∧ x.val + y.val < 2^127 then .ok ⟨x.val + y.val,h⟩
  else if build = .debug then panic (.arithmetic 128)
  else .ok (asI128 (wrap 128 (x.val + y.val)))

def zeroI128 : I128 := ⟨0,by norm_num⟩

def netBaseChange (build : Build) (changes : List BalanceChange) (baseType : TypeTag) (sender : Address) : Rust I128 :=
  (changes.filter fun c => c.coinType = baseType ∧ c.owner = .address sender).foldlM
    (fun sum c => addI128 build sum c.amount) zeroI128

def applySlippageFloor (out slippageBps : U64) : U64 :=
  asU64 ⟨out.val * (10000 - slippageBps.val) / 10000,by
    have small : out.val * (10000 - slippageBps.val) ≤ out.val * 10000 := Nat.mul_le_mul_left _ (Nat.sub_le _ _)
    have word := out.isLt
    omega⟩

section money
variable {F : Type} [F64 F]

def mistToUsd (mist : U64) (decimals : ℕ) (priceUsd : F) : F :=
  F64.ofU64 mist / F64.powi (F64.ofU64 10) decimals * priceUsd

end money

section bot
variable {F : Type}

def push (event : Event F) : Bot F Unit := modify fun s => {s with trace := s.trace ++ [event]}

def ask {α : Type} (answer : History F → α) : Bot F α := do
  let s ← get
  push .observed
  return answer s.trace

def now (world : World F) : Bot F ℕ := do
  let time ← ask world.clock
  push (.clock time)
  return time

/-- An error is a value here; a panic goes on. -/
def caught {α : Type} : Anyhow α → Bot F (Except (List String) α)
  | .ok value => pure (.ok value)
  | .error (.error chain) => pure (.error chain)
  | .error (.panic message) => Act.lift (.error (.panic message))

def updateGuard (entry : RiskGuard F → RiskGuard F) : Bot F Unit := modify fun s => {s with guard := entry s.guard}

def recordSkip : Bot F Unit := updateGuard RiskGuard.recordSkip

end bot

def resolveRefs (registry : PoolId → Option LivePoolRef) (route : List Hop) : Anyhow (List (LivePoolRef × Bool)) :=
  route.mapM fun h => orBail ("no live ref for pool " ++ h.poolId) ((registry h.poolId).map fun r => (r,h.aToB))

/-- Of the largest coins the last one. -/
def pickGasCoin (sender : Address) (coins : List Coin) : Anyhow ObjectId :=
  (orBail ("no SUI coins to pay gas for " ++ sender) (FirstMax.firstMax Coin.balance coins.reverse)).map Coin.objectRef

def cover (build : Build) (need : U64) : List Coin → U64 → List ObjectId → Rust (U64 × List ObjectId)
  | [],sum,picked => .ok (sum,picked)
  | c :: rest,sum,picked =>
    if need ≤ sum then .ok (sum,picked)
    else do cover build need rest (← add build sum c.balance) (picked ++ [c.objectRef])

def pickGasCoinsCovering (build : Build) (sender : Address) (need : U64) (coins : List Coin) : Anyhow (List ObjectId) := do
  let (sum,picked) ← unwind (cover build need (coins.insertionSort fun c d => d.balance ≤ c.balance) 0 [])
  if sum < need ∨ picked = [] then
    bail ("wallet SUI " ++ toString sum ++ " < required " ++ toString need ++ " (input + gas) for " ++ sender)
  else return picked

def gasUsed (build : Build) (g : GasCostSummary) : Rust U64 := do
  let total ← add build g.computationCost g.storageCost
  let bound ← add build g.storageCost g.computationCost
  sub build total (min g.storageRebate bound)

section executor
variable {F : Type} [SignedF64 F] (build : Build) (world : World F) (config : LiveConfig F) (baseDecimals : ℕ) (priceUsd : F)

def dryRun (tx : TransactionData) (baseType : TypeTag) (sender : Address) : Bot F DryRun := do
  let answer ← ask fun history => world.dryRun history tx
  let resp ← Act.lift answer
  let used ← Act.lift (unwind (gasUsed build resp.gas))
  let netBase ← Act.lift (unwind (netBaseChange build resp.balanceChanges baseType sender))
  let dry : DryRun := ⟨resp.success,netBase,used⟩
  push (.dryRan tx dry)
  return dry

def gain (net : I128) : U64 := wrap 64 (max net.val 0)

def decide (netUsd : F) (route : List Hop) : Bot F Decision := do
  let poolIds := route.map Hop.poolId
  let s ← get
  let decision := s.guard.shouldSubmit netUsd poolIds
  push (.decided s.guard netUsd poolIds decision)
  return decision

/-- What a transaction landed with: nothing, where the reply has no changes. -/
def realizedBase (baseType : TypeTag) (sender : Address) (resp : ExecuteResponse) : Rust I128 :=
  match resp.balanceChanges with
  | some changes => netBaseChange build changes baseType sender
  | none => .ok zeroI128

def realizedUsd (baseType : TypeTag) (sender : Address) (resp : ExecuteResponse) : Rust F := do
  let realized ← realizedBase build baseType sender resp
  let won := mistToUsd (gain realized) baseDecimals priceUsd
  if realized.val < 0 then
    let loss ← negI128 build realized
    return won - mistToUsd (wrap 64 loss.val) baseDecimals priceUsd
  else return won - F64.ofU64 0

def submit (tx : TransactionData) (baseType : TypeTag) (sender : Address) (predictedUsd : F) (dryRunAt : ℕ) :
    Bot F Outcome := do
  if config.keystorePath = "" then
    Act.lift (bail "submit_enabled but ARB_KEYSTORE_PATH is unset")
  else
    let sig ← ask fun history => world.sign history config.keystorePath sender tx
    let _ ← Act.lift sig
    push (.signed tx)
    let checkedAt ← now world
    if config.maxQuoteAgeMs.val < (checkedAt - dryRunAt) / 1000000 then
      recordSkip
      return .skipped
    else
      let delivery ← ask fun history => world.execute history tx
      push (.executed tx delivery)
      let resp ← Act.lift delivery.reply
      updateGuard fun guard => guard.recordSubmit predictedUsd
      let realized ← Act.lift (unwind (realizedUsd build baseDecimals priceUsd baseType sender resp))
      updateGuard fun guard => guard.recordRealized realized
      return .submitted

def effectiveMin : OppKind → U64
  | .arb | .backrun => config.effectiveMinProfitMist
  | .liquidation => config.minProfit

def assemble (opp : Opportunity) : Bot F (TransactionData × TypeTag) := do
  let registry ← ask world.registry
  let refs ← Act.lift (resolveRefs registry opp.route)
  if opp.hopOutputs.length ≠ opp.route.length then
    Act.lift (bail ("opportunity hop_outputs (" ++ toString opp.hopOutputs.length ++ ") != route hops (" ++
      toString opp.route.length ++ ")"))
  else
    let floors := opp.hopOutputs.map fun out => applySlippageFloor out config.perHopSlippageBps
    let node ← ask world.node
    let sender ← Act.lift (context "ARB_SENDER_ADDRESS" (world.parseAddress config.senderAddress))
    let baseType ← Act.lift (context "base token type" (node.typeTag config.baseToken))
    let pt ← Act.lift (Executor.buildPtb node config.toConfig opp refs floors sender)
    let gasPrice ← ask world.gasPrice
    let coins ← ask world.coins
    let gasPrice ← Act.lift gasPrice
    let gasCoin ← Act.lift (coins >>= pickGasCoin sender)
    return (⟨sender,[gasCoin],pt,config.gasBudget,gasPrice⟩,baseType)

def tryExecute (opp : Opportunity) : Bot F Outcome := do
  let (tx,baseType) ← assemble world config opp
  let dry ← dryRun build world tx baseType tx.sender
  let dryRunAt ← now world
  if dry.success = false then
    recordSkip
    return .skipped
  else if dry.netBase.val < (effectiveMin config opp.kind).val then
    recordSkip
    return .skipped
  else
    let netUsd := mistToUsd (gain dry.netBase) baseDecimals priceUsd
    match ← decide netUsd opp.route with
    | .skip _ =>
      recordSkip
      return .skipped
    | .submit =>
      if config.submitEnabled then
        submit build world config baseDecimals priceUsd tx baseType tx.sender netUsd dryRunAt
      else return .dryRunOnly

end executor

/-- The expected net is a difference of two `u64` values. -/
structure OwnedSizeResult where
  size : U64
  expectedOut : U64
  expectedNet : ℤ
  drySuccess : Bool
  dryNetBase : I128
  dryGas : U64
  note : String
  deriving DecidableEq

structure Winner where
  size : U64
  tx : TransactionData
  netBase : I128
  dryRunAt : ℕ
  deriving DecidableEq

def quoteSize (build : Build) (pools : List PoolState) (route : List Hop) (cap size : U64) : Rust OwnedSizeResult :=
  if cap < size then .ok ⟨size,0,0,false,zeroI128,0,"skipped: exceeds wallet cap"⟩
  else do
    match ← simulateCollect build (lookup pools) route size with
    | some hops =>
      let out := hops.getLast?.getD 0
      return ⟨size,out,out.val - size.val,false,zeroI128,0,""⟩
    | none => return ⟨size,0,0,false,zeroI128,0,"quote failed"⟩

section owned
variable {F : Type} [SignedF64 F] (build : Build) (world : World F) (config : LiveConfig F) (baseDecimals : ℕ) (priceUsd : F)
  (pools : List PoolState) (route : List Hop) (refs : List (LivePoolRef × Bool)) (sender : Address) (baseType : TypeTag)
  (gasPrice : U64)

structure Sweep where
  winner : Option Winner
  sized : List OwnedSizeResult

def Sweep.noted (sweep : Sweep) (i : ℕ) (note : String) : Sweep :=
  {sweep with sized := sweep.sized.modify i fun r => {r with note := note}}

def Sweep.dried (sweep : Sweep) (i : ℕ) (dry : DryRun) (note : String) : Sweep :=
  {sweep with
    sized := sweep.sized.modify i fun r =>
      {r with
        drySuccess := dry.success
        dryNetBase := dry.netBase
        dryGas := dry.gasUsed
        note := note}}

def rehearse (sweep : Sweep) (i : ℕ) (size : U64) (tx : TransactionData) : Bot F Sweep := do
  let dry ← dryRun build world tx baseType sender
  let dryRunAt ← now world
  if dry.success = false then
    return sweep.dried i dry "dry-run reverted"
  else if dry.netBase.val < config.effectiveMinProfitMist.val then
    return sweep.dried i dry ("below min_profit (net " ++ toString dry.netBase.val ++ " < " ++
      toString config.effectiveMinProfitMist ++ ")")
  else
    return {sweep.dried i dry "dry-run OK, profitable" with winner := some ⟨size,tx,dry.netBase,dryRunAt⟩}

/-- The second stage for one size: its failures are noted, but for those of the dry run. -/
def attemptSize (sweep : Sweep) : OwnedSizeResult × ℕ → Bot F Sweep := fun (quoted,i) => do
  if sweep.winner.isSome ∨ quoted.expectedNet ≤ 0 ∨ quoted.expectedOut = 0 then
    return sweep
  else
    match ← Act.lift (unwind (simulateCollect build (lookup pools) route quoted.size)) with
    | none => return sweep
    | some hopOuts =>
      let floors := hopOuts.map fun out => applySlippageFloor out config.perHopSlippageBps
      let node ← ask world.node
      match ← caught (Executor.buildOwnedPtb node config.toConfig route refs floors quoted.size
          config.effectiveMinProfitMist) with
      | .error chain => return sweep.noted i ("ptb build failed: " ++ chain.headD "")
      | .ok pt =>
        let need ← Act.lift (unwind (add build quoted.size config.gasBudget))
        let coins ← ask world.coins
        match ← caught (coins >>= pickGasCoinsCovering build sender need) with
        | .error chain => return sweep.noted i ("gas coins: " ++ chain.headD "")
        | .ok gasCoins =>
          rehearse build world config sender baseType sweep i quoted.size ⟨sender,gasCoins,pt,config.gasBudget,gasPrice⟩

omit [SignedF64 F] in
/-- What the wallet can spend: the cast of its balance to a `u64` only drops high bits. -/
def walletCap (balance : U128) : U64 :=
  min (wrap 64 (balance.val - config.gasBudget.val : ℕ)) config.maxWalletCapital

def tryExecuteOwnedSized : Bot F (List OwnedSizeResult) := do
  let node ← ask world.node
  let sender ← Act.lift (context "ARB_SENDER_ADDRESS" (world.parseAddress config.senderAddress))
  let baseType ← Act.lift (context "base token type" (node.typeTag config.baseToken))
  let registry ← ask world.registry
  let refs ← Act.lift (resolveRefs registry route)
  let answer ← ask world.balance
  let total ← Act.lift answer
  push (.balance total)
  let sized ← Act.lift (unwind (config.ownedSizes.mapM (quoteSize build pools route (walletCap config total))))
  let answer ← ask world.gasPrice
  let gasPrice ← Act.lift answer
  let order := sized.zipIdx.insertionSort fun s t => t.1.expectedNet ≤ s.1.expectedNet
  let sweep ← order.foldlM (attemptSize build world config pools route refs sender baseType gasPrice) ⟨none,sized⟩
  match sweep.winner with
  | none => return sweep.sized
  | some winner =>
    let netUsd := mistToUsd (gain winner.netBase) baseDecimals priceUsd
    match ← decide netUsd route with
    | .skip _ => return sweep.sized
    | .submit =>
      if config.submitEnabled then
        let _ ← submit build world config baseDecimals priceUsd winner.tx baseType sender netUsd winner.dryRunAt
        return sweep.sized
      else return sweep.sized

end owned

section loop
variable {F : Type} [SignedF64 F] (build : Build) (world : World F) (config : LiveConfig F)

def scanParams : ScanParams where
  baseToken := config.baseToken
  maxHops := config.maxHops
  candidateInputs := config.candidateInputs
  gasCost := config.gasCostEstimate
  flashFeeBps := config.flashFeeBps
  minProfit := config.effectiveMinProfitMist

def liqParams : Liquidation.LiqParams F where
  closeFactor := config.liqCloseFactor
  liquidationBonus := config.liqBonus
  flashFeeBps := config.flashFeeBps
  gasCost := config.gasCostEstimate
  minProfit := config.minProfit
  candidateFractions := [F64.ofU64 1,F64.ofU64 3 / F64.ofU64 4,F64.ofU64 1 / F64.ofU64 2,F64.ofU64 1 / F64.ofU64 4]

/-- `LiquidationSource::scan`: without prices it never acts. -/
def scanObligations (pools : List PoolState) (obligations : List Liquidation.Obligation)
    (params : List (TokenId × Liquidation.AssetParams F)) : Rust (List Opportunity) :=
  if params = [] then .ok []
  else do
    let found ← obligations.mapM fun ob =>
      Liquidation.detectObligation build ob (fun coinType => params.lookup coinType) pools (liqParams config)
        config.liqHealthMargin
    return found.reduceOption

def findCandidates (pools : List PoolState) : Bot F (List Opportunity) := do
  let arb ← Act.lift (unwind (findBest build pools (scanParams config)))
  if config.liqEnabled then
    let obligations ← ask world.obligations
    let params ← ask world.liqParams
    let liquidations ← Act.lift (unwind (scanObligations build config pools obligations params))
    return arb.toList ++ liquidations
  else return arb.toList

/-- Only a panic leaves the loop. -/
def logged : Stop → Option Unit
  | .error _ => some ()
  | .panic _ => none

def owned (opp : Opportunity) : Bool := config.executionMode = .owned ∧ opp.kind = .arb

def execute (pools : List PoolState) (opp : Opportunity) : Bot F Unit :=
  if owned config opp then do
    let _ ← tryExecuteOwnedSized build world config 9 config.suiPriceUsd pools opp.route
  else do
    let _ ← tryExecute build world config 9 config.suiPriceUsd opp

/-- One round of the loop: of the best candidates the last one is executed. -/
def tick : Bot F Unit := do
  let pools ← ask world.pools
  let candidates ← findCandidates build world config pools
  match FirstMax.firstMax Opportunity.netProfit candidates.reverse with
  | none => return ()
  | some opp =>
    push (.chosen opp)
    (execute build world config pools opp).catching logged

def ticks : ℕ → Bot F Unit
  | 0 => return ()
  | n + 1 => do
    tick build world config
    ticks n

def startUp : Anyhow Unit := do
  if SignedF64.isFinite config.suiPriceUsd = false ∨ F64.atMost config.suiPriceUsd (F64.ofU64 0) then
    bail "ARB_SUI_PRICE_USD must be finite and > 0"
  if config.maxQuoteAgeMs = 0 then
    bail "ARB_MAX_QUOTE_AGE_MS must be > 0"
  if config.executionMode = .owned ∧ config.baseToken ≠ "0x2::sui::SUI" then
    bail "owned execution currently requires ARB_BASE_TOKEN=0x2::sui::SUI"
  if config.liqEnabled ∧ config.submitEnabled then
    bail "live liquidation submission is disabled until risk accounting is asset-aware"
  if config.executionMode = .flash ∧ config.flashEnabled = false then
    bail "ARB_EXECUTION_MODE=flash requires ARB_FLASH_ENABLED=true"
  world.connect

def riskConfig : RiskConfig F := ⟨config.maxDailyLossUsd,config.killSwitch,config.poolBlacklist⟩

/-- The session after so many rounds, unless something stopped it before. -/
def runLive (n : ℕ) : Except Stop Unit × Session F :=
  let start : Session F := ⟨.new (riskConfig config),[]⟩
  match startUp world config with
  | .error stop => (.error stop,start)
  | .ok () => (ticks build world config n).exec start

end loop

end SuiArbitrage.Rust.Live
