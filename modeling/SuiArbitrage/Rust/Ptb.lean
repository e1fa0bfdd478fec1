import SuiArbitrage.Move.Transaction
import SuiArbitrage.Rust.Scanner

/-! The plans and the transaction builders of `offchain/src/ptb.rs`. A builder only
appends commands; an argument carries the object or the value of its input, so the
table that shares equal inputs is left out. -/
namespace SuiArbitrage.Rust.Ptb
open MachineWord Fallible Scanner Flashloan
open Move (TypeTag ObjectId Address ObjectArg Argument Command)

inductive PtbStep
  | flashBorrow (call : MoveCallSpec) (lenderId : String) (amount : U64)
  | begin (minProfit : U64)
  | swap (module function poolId : String) (minOut : U64)
  | priceUpdate (feeds : List String)
  | liquidate (protocol : Protocol) (obligationId : String)
  | settleAndReturn
  | flashRepay (call : MoveCallSpec)
  | settle
  | transferToSender
  deriving DecidableEq, Repr

def PtbStep.isSwap : PtbStep → Bool
  | swap .. => true
  | _ => false

def PtbStep.isLiquidate : PtbStep → Bool
  | liquidate .. => true
  | _ => false

def adapterModule : Dex → String
  | .ammV2 => "amm_v2_adapter"
  | .cetus => "cetus_adapter"
  | .turbos => "turbos_adapter"

def adapterFunction (aToB : Bool) : String :=
  if aToB then "swap_exact_in_a_to_b" else "swap_exact_in_b_to_a"

def adapterCall (hop : Hop) : String × String := (adapterModule hop.dex,adapterFunction hop.aToB)

def pushSwaps (route : List Hop) : List PtbStep :=
  route.map fun hop => .swap (adapterCall hop).1 (adapterCall hop).2 hop.poolId 0

def flashArbPlan (provider : FlashLoanProvider) (opp : Opportunity) (minProfit : U64) : List PtbStep :=
  [.flashBorrow provider.borrowCall provider.lenderObjectId opp.inputAmount,.begin minProfit] ++ pushSwaps opp.route ++
    [.settleAndReturn,.flashRepay provider.repayCall,.transferToSender]

def ownedArbPlan (opp : Opportunity) (minProfit : U64) : List PtbStep :=
  .begin minProfit :: pushSwaps opp.route ++ [.settle]

def liquidationPlan (provider : Option FlashLoanProvider) (opp : Opportunity) (minProfit : U64) : Anyhow (List PtbStep) :=
  match opp.liquidation with
  | none => .error (.panic "liquidation opportunity must carry a LiquidationLeg")
  | some leg =>
    let borrow := match provider with
      | some p => [.flashBorrow p.borrowCall p.lenderObjectId leg.repayAmount]
      | none => []
    let close := match provider with
      | some p => [.settleAndReturn,.flashRepay p.repayCall,.transferToSender]
      | none => [.settle]
    .ok (.priceUpdate [leg.debtType,leg.collateralType] :: borrow ++
      [.begin minProfit,.liquidate leg.protocol leg.obligationId] ++ pushSwaps opp.route ++ close)

structure ResolvedHop where
  dex : Dex
  aToB : Bool
  pool : ObjectArg
  typeArgs : List TypeTag
  minOut : U64
  cetusConfig : Option ObjectArg
  clock : Option ObjectArg
  turbosVersioned : Option ObjectArg
  deriving DecidableEq, Repr

structure BuildInputs where
  package : ObjectId
  providerPackage : ObjectId
  baseType : TypeTag
  lender : ObjectArg
  amount : U64
  minProfit : U64
  hops : List ResolvedHop
  sender : Address
  flashStyle : FlashStyle
  version : Option ObjectArg
  repayTotal : U64
  deriving DecidableEq, Repr

structure OwnedInputs where
  package : ObjectId
  baseType : TypeTag
  amount : U64
  minProfit : U64
  hops : List ResolvedHop
  deriving DecidableEq, Repr

structure LiquidationInputs where
  package : ObjectId
  scallopPackage : ObjectId
  debtType : TypeTag
  collateralType : TypeTag
  version : ObjectArg
  obligation : ObjectArg
  market : ObjectArg
  registry : ObjectArg
  xOracle : ObjectArg
  clock : ObjectArg
  wormholePackage : ObjectId
  pythPackage : ObjectId
  wormholeState : ObjectArg
  pythState : ObjectArg
  vaaBytes : List U8
  accumulatorMsg : List U8
  pythFee : U64
  priceInfos : List ObjectArg
  repayAmount : U64
  repayTotal : U64
  minProfit : U64
  swap : ResolvedHop
  sender : Address
  deriving DecidableEq, Repr

abbrev Builder := StateT (List Command) Anyhow

namespace Builder

def command (c : Command) : Builder Argument := fun commands => .ok (.result commands.length,commands ++ [c])

def call (package : ObjectId) (module function : String) (typeArguments : List TypeTag) (arguments : List Argument) :
    Builder Argument :=
  command (.moveCall ⟨package,module,function,typeArguments,arguments⟩)

def finish {α : Type} (builder : Builder α) : Anyhow (List Command) := (·.2) <$> builder.run []

end Builder

open Builder (command call finish)

def nested : Argument → ℕ → Argument
  | .result i,j => .nestedResult i j
  | other,_ => other

/-- The identifiers that Move accepts. -/
def validIdentifier (s : String) : Bool :=
  let inner (c : Char) : Bool := c.isAlphanum || c = '_'
  s = "<SELF>" ||
    match s.toList with
    | [] => false
    | first :: rest =>
      if first = '_' then !rest.isEmpty && rest.all inner else first.isAlpha && rest.all inner

def identifier (s : String) : Anyhow String :=
  if validIdentifier s then .ok s else bail ("Invalid identifier '" ++ s ++ "'")

/-- The adapters of the venues take their arguments in different orders. -/
def swapArguments (hop : ResolvedHop) (coin : Argument) : Anyhow (List Argument) :=
  match hop.dex with
  | .ammV2 => .ok [.object hop.pool,coin,.pure (.u64 hop.minOut)]
  | .cetus => do
    let config ← orBail "cetus hop missing GlobalConfig" hop.cetusConfig
    let clock ← orBail "cetus hop missing Clock" hop.clock
    return [.object config,.object hop.pool,coin,.pure (.u64 hop.minOut),.object clock]
  | .turbos => do
    let clock ← orBail "turbos hop missing Clock" hop.clock
    let versioned ← orBail "turbos hop missing Versioned" hop.turbosVersioned
    return [.object hop.pool,coin,.pure (.u64 hop.minOut),.object clock,.object versioned]

def lowerSwap (package : ObjectId) (coin : Argument) : PtbStep × ResolvedHop → Builder Argument
  | (.swap module function _ _,hop) => do
    let arguments ← swapArguments hop coin
    let module ← identifier module
    let function ← identifier function
    call package module function hop.typeArgs arguments
  | _ => liftM (bail "plan/hop mismatch" : Anyhow Argument)

def lowerSwaps (package : ObjectId) (plan : List PtbStep) (hops : List ResolvedHop) (coin : Argument) : Builder Argument :=
  let swaps := plan.filter PtbStep.isSwap
  if swaps.length = hops.length then (swaps.zip hops).foldlM (lowerSwap package) coin
  else liftM (bail ("plan/hop mismatch: plan has " ++ toString swaps.length ++ " swaps, resolved hops has " ++
    toString hops.length) : Anyhow Argument)

/-- The loan: both providers return the coin and then the receipt. -/
def flashBorrow (inputs : BuildInputs) : Builder Argument :=
  let amountArg : Argument := .pure (.u64 inputs.amount)
  match inputs.flashStyle with
  | .mockVault => call inputs.providerPackage "flash" "borrow" [inputs.baseType] [.object inputs.lender,amountArg]
  | .scallop => do
    let version ← orBail "scallop flash needs Version object" inputs.version
    call inputs.providerPackage ScallopPins.flashModule ScallopPins.borrowFn [inputs.baseType]
      [.object version,.object inputs.lender,amountArg]

/-- The vault returns the change; the other provider takes exactly what it is owed. -/
def flashRepay (inputs : BuildInputs) (frcpt proceeds : Argument) : Builder Argument :=
  let recipient : Argument := .pure (.address inputs.sender)
  match inputs.flashStyle with
  | .mockVault => do
    let change ← call inputs.providerPackage "flash" "repay" [inputs.baseType] [.object inputs.lender,frcpt,proceeds]
    command (.transferObjects [change] recipient)
  | .scallop => do
    let owed ← command (.splitCoins proceeds [.pure (.u64 inputs.repayTotal)])
    let version ← orBail "scallop flash needs Version object" inputs.version
    let _ ← call inputs.providerPackage ScallopPins.flashModule ScallopPins.repayFn [inputs.baseType]
      [.object version,.object inputs.lender,nested owed 0,frcpt]
    command (.transferObjects [proceeds] recipient)

def build (plan : List PtbStep) (inputs : BuildInputs) : Anyhow (List Command) := finish do
  let b ← flashBorrow inputs
  let begin ← call inputs.package "executor" "begin" [inputs.baseType] [nested b 0,.pure (.u64 inputs.minProfit)]
  let coin ← lowerSwaps inputs.package plan inputs.hops (nested begin 0)
  let proceeds ← call inputs.package "executor" "settle_and_return" [inputs.baseType] [nested begin 1,coin]
  flashRepay inputs (nested b 1) proceeds

def buildOwned (plan : List PtbStep) (inputs : OwnedInputs) : Anyhow (List Command) := finish do
  let split ← command (.splitCoins .gasCoin [.pure (.u64 inputs.amount)])
  let begin ← call inputs.package "executor" "begin" [inputs.baseType] [nested split 0,.pure (.u64 inputs.minProfit)]
  let coin ← lowerSwaps inputs.package plan inputs.hops (nested begin 0)
  call inputs.package "executor" "settle" [inputs.baseType] [nested begin 1,coin]

def updatePriceFeed (inputs : LiquidationInputs) (hpv : Argument) (priceInfo : ObjectArg) : Builder Argument := do
  let fee ← command (.splitCoins .gasCoin [.pure (.u64 inputs.pythFee)])
  call inputs.pythPackage "pyth" "update_single_price_feed" []
    [.object inputs.pythState,hpv,.object priceInfo,nested fee 0,.object inputs.clock]

/-- The oracle prices that `liquidate` reads are refreshed in the same transaction. -/
def updatePrices (inputs : LiquidationInputs) : Builder Argument := do
  let verifiedVaas ← call inputs.wormholePackage "vaa" "parse_and_verify" []
    [.object inputs.wormholeState,.pure (.bytes inputs.vaaBytes),.object inputs.clock]
  let hpv ← call inputs.pythPackage "pyth" "create_authenticated_price_infos_using_accumulator" []
    [.object inputs.pythState,.pure (.bytes inputs.accumulatorMsg),verifiedVaas,.object inputs.clock]
  let hpv ← inputs.priceInfos.foldlM (updatePriceFeed inputs) hpv
  call inputs.pythPackage "hot_potato_vector" "destroy" [inputs.pythPackage ++ "::price_info::PriceInfo"] [hpv]

def liquidationBody (inputs : LiquidationInputs) : Builder Argument := do
  let debt := [inputs.debtType]
  let _ ← updatePrices inputs
  let borrow ← call inputs.scallopPackage ScallopPins.flashModule ScallopPins.borrowFn debt
    [.object inputs.version,.object inputs.market,.pure (.u64 inputs.repayAmount)]
  let begin ← call inputs.package "executor" "begin" debt [nested borrow 0,.pure (.u64 inputs.minProfit)]
  let liq ← call inputs.scallopPackage ScallopPins.liquidateModule ScallopPins.liquidateFn
    [inputs.debtType,inputs.collateralType]
    [.object inputs.version,.object inputs.obligation,.object inputs.market,nested begin 0,.object inputs.registry,
      .object inputs.xOracle,.object inputs.clock]
  let swapArgs ← swapArguments inputs.swap (nested liq 1)
  let debtFromSwap ← call inputs.package (adapterModule inputs.swap.dex) (adapterFunction inputs.swap.aToB)
    inputs.swap.typeArgs swapArgs
  let _ ← command (.mergeCoins debtFromSwap [nested liq 0])
  let proceeds ← call inputs.package "executor" "settle_and_return" debt [nested begin 1,debtFromSwap]
  let owed ← command (.splitCoins proceeds [.pure (.u64 inputs.repayTotal)])
  let _ ← call inputs.scallopPackage ScallopPins.flashModule ScallopPins.repayFn debt
    [.object inputs.version,.object inputs.market,nested owed 0,nested borrow 1]
  command (.transferObjects [proceeds] (.pure (.address inputs.sender)))

def buildLiquidation (plan : List PtbStep) (inputs : LiquidationInputs) : Anyhow (List Command) :=
  if plan.any PtbStep.isLiquidate then finish (liquidationBody inputs)
  else bail "build_liquidation called with a non-liquidation plan"

section runs
variable {α β : Type} {commands after : List Command}

theorem run_bind {x : Builder α} {next : α → Builder β} {result : β × List Command} :
    (x >>= next).run commands = .ok result ↔
      ∃ value middle, x.run commands = .ok (value,middle) ∧ (next value).run middle = .ok result := by
  rw [StateT.run_bind,bind_ok,Prod.exists]

theorem run_lift {x : Anyhow α} {value : α} :
    (liftM x : Builder α).run commands = .ok (value,after) ↔ x = .ok value ∧ after = commands := by
  cases x with
  | error stop => simp [liftM,monadLift,MonadLift.monadLift,StateT.lift,StateT.run]
  | ok held => simp [liftM,monadLift,MonadLift.monadLift,StateT.lift,StateT.run,eq_comm]

theorem run_command {c : Command} {argument : Argument} :
    (command c).run commands = .ok (argument,after) ↔ argument = .result commands.length ∧ after = commands ++ [c] := by
  simp [command,StateT.run,eq_comm]

theorem finish_ok {builder : Builder α} :
    finish builder = .ok commands ↔ ∃ value, builder.run [] = .ok (value,commands) := by
  unfold finish
  cases builder.run [] with
  | error stop => simp
  | ok pair =>
    obtain ⟨value,built⟩ := pair
    simp

end runs

/-- The commands behind the oracle refresh, `n` being their place in the block. -/
def liquidationCommands (inputs : LiquidationInputs) (arguments : List Argument) (n : ℕ) : List Command := [
  .moveCall ⟨inputs.scallopPackage,ScallopPins.flashModule,ScallopPins.borrowFn,[inputs.debtType],
    [.object inputs.version,.object inputs.market,.pure (.u64 inputs.repayAmount)]⟩,
  .moveCall ⟨inputs.package,"executor","begin",[inputs.debtType],[.nestedResult n 0,.pure (.u64 inputs.minProfit)]⟩,
  .moveCall ⟨inputs.scallopPackage,ScallopPins.liquidateModule,ScallopPins.liquidateFn,
    [inputs.debtType,inputs.collateralType],[.object inputs.version,.object inputs.obligation,.object inputs.market,
      .nestedResult (n + 1) 0,.object inputs.registry,.object inputs.xOracle,.object inputs.clock]⟩,
  .moveCall ⟨inputs.package,adapterModule inputs.swap.dex,adapterFunction inputs.swap.aToB,inputs.swap.typeArgs,arguments⟩,
  .mergeCoins (.result (n + 3)) [.nestedResult (n + 2) 0],
  .moveCall ⟨inputs.package,"executor","settle_and_return",[inputs.debtType],[.nestedResult (n + 1) 1,.result (n + 3)]⟩,
  .splitCoins (.result (n + 5)) [.pure (.u64 inputs.repayTotal)],
  .moveCall ⟨inputs.scallopPackage,ScallopPins.flashModule,ScallopPins.repayFn,[inputs.debtType],
    [.object inputs.version,.object inputs.market,.nestedResult (n + 6) 0,.nestedResult n 1]⟩,
  .transferObjects [.result (n + 5)] (.pure (.address inputs.sender))]

/-- A liquidation block is the oracle refresh and the commands behind it. -/
theorem buildLiquidation_ok {plan : List PtbStep} {inputs : LiquidationInputs} {commands : List Command}
    (built : buildLiquidation plan inputs = .ok commands) :
    ∃ last prices arguments, (updatePrices inputs).run [] = .ok (last,prices) ∧
      swapArguments inputs.swap (.nestedResult (prices.length + 2) 1) = .ok arguments ∧
      commands = prices ++ liquidationCommands inputs arguments prices.length := by
  unfold buildLiquidation at built
  split at built
  · obtain ⟨last,ran⟩ := finish_ok.mp built
    obtain ⟨hpv,prices,refreshed,ran⟩ := run_bind.mp ran
    obtain ⟨borrow,_,called,ran⟩ := run_bind.mp ran
    obtain ⟨rfl,rfl⟩ := run_command.mp called
    obtain ⟨begin,_,called,ran⟩ := run_bind.mp ran
    obtain ⟨rfl,rfl⟩ := run_command.mp called
    obtain ⟨liq,_,called,ran⟩ := run_bind.mp ran
    obtain ⟨rfl,rfl⟩ := run_command.mp called
    obtain ⟨arguments,_,lifted,ran⟩ := run_bind.mp ran
    obtain ⟨given,rfl⟩ := run_lift.mp lifted
    obtain ⟨debtFromSwap,_,called,ran⟩ := run_bind.mp ran
    obtain ⟨rfl,rfl⟩ := run_command.mp called
    obtain ⟨merged,_,called,ran⟩ := run_bind.mp ran
    obtain ⟨rfl,rfl⟩ := run_command.mp called
    obtain ⟨proceeds,_,called,ran⟩ := run_bind.mp ran
    obtain ⟨rfl,rfl⟩ := run_command.mp called
    obtain ⟨owed,_,called,ran⟩ := run_bind.mp ran
    obtain ⟨rfl,rfl⟩ := run_command.mp called
    obtain ⟨paid,_,called,ran⟩ := run_bind.mp ran
    obtain ⟨rfl,rfl⟩ := run_command.mp called
    obtain ⟨rfl,shape⟩ := run_command.mp ran
    simp only [List.append_assoc,List.cons_append,List.nil_append,List.length_append,List.length_cons,List.length_nil,
      Nat.zero_add,Nat.reduceAdd,nested] at shape given
    exact ⟨hpv,prices,arguments,refreshed,given,shape⟩
  · cases built

end SuiArbitrage.Rust.Ptb
