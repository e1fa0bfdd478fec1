import SuiArbitrage.Move.Executor
import SuiArbitrage.Move.Market
import SuiArbitrage.Move.VaultRuns

/-! Programmable transaction blocks: a list of commands whose results are values that
later commands take. A value without abilities can be neither copied nor dropped, so
a taken value leaves its place empty and a finished block leaves no value behind.
Functions outside this package are a parameter. -/
namespace SuiArbitrage.Move
open MachineWord Fallible Executor Flash

structure ObjectArg where
  id : ObjectId
  mutable : Bool
  deriving DecidableEq, Repr

inductive Pure
  | u64 (value : U64)
  | address (value : Address)
  | bytes (value : List U8)
  deriving DecidableEq, Repr

inductive Argument
  | gasCoin
  | pure (value : Pure)
  | object (object : ObjectArg)
  | result (command : ℕ)
  | nestedResult (command index : ℕ)
  deriving DecidableEq, Repr

structure MoveCall where
  package : String
  module : String
  function : String
  typeArguments : List TypeTag
  arguments : List Argument
  deriving DecidableEq, Repr

inductive Command
  | moveCall (call : MoveCall)
  | splitCoins (coin : Argument) (amounts : List Argument)
  | mergeCoins (target : Argument) (sources : List Argument)
  | transferObjects (objects : List Argument) (recipient : Argument)
  deriving DecidableEq, Repr

inductive Value
  | coin (T : TypeTag) (amount : U64)
  | arbReceipt (receipt : ArbReceipt)
  | flashReceipt (receipt : FlashReceipt)
  | foreign (T : TypeTag) (payload : ℕ)
  deriving DecidableEq, Repr

def Value.isArbReceipt : Value → Bool
  | .arbReceipt _ => true
  | _ => false

/-- The shared objects, the coins that addresses own and the sender's gas coin. -/
structure World where
  pools : Pools
  vaults : Vaults
  balances : Address → TypeTag → ℕ
  gas : U64

def sui : TypeTag := "0x2::sui::SUI"

def World.credit (world : World) (owner : Address) (T : TypeTag) (amount : U64) : World where
  pools := world.pools
  vaults := world.vaults
  balances := fun address coinType =>
    world.balances address coinType + if address = owner ∧ coinType = T then amount.val else 0
  gas := world.gas

structure Opened where
  command : ℕ
  coinType : TypeTag
  amount : U64
  minProfit : U64
  deriving DecidableEq, Repr

/-- What a successful `settle` or `settle_and_return` accepted, and the command that
its receipt came from. -/
structure Settled where
  opener : ℕ
  coinType : TypeTag
  amount : U64
  deriving DecidableEq, Repr

/-- The two logs are of the model only; no command reads them. -/
structure Machine where
  world : World
  results : List (List (Option Value))
  opened : List Opened
  settled : List Settled

namespace Machine

def slot (m : Machine) : Argument → Option (ℕ × ℕ)
  | .result i => if (m.results[i]?.map List.length) = some 1 then some (i,0) else none
  | .nestedResult i j => some (i,j)
  | _ => none

def cell (m : Machine) (i j : ℕ) : Option Value := (m.results[i]?.bind (·[j]?)).join

def peek (m : Machine) (argument : Argument) : Option Value :=
  (m.slot argument).bind fun (i,j) => m.cell i j

def setCell (m : Machine) (i j : ℕ) (value : Option Value) : Machine where
  world := m.world
  results := m.results.modify i (·.set j value)
  opened := m.opened
  settled := m.settled

def store (m : Machine) (argument : Argument) (value : Option Value) : Machine :=
  match m.slot argument with
  | some (i,j) => m.setCell i j value
  | none => m

def push (m : Machine) (row : List Value) : Machine where
  world := m.world
  results := m.results ++ [row.map some]
  opened := m.opened
  settled := m.settled

def withWorld (m : Machine) (world : World) : Machine := {m with world := world}

def take (m : Machine) (argument : Argument) : Except Failure (Machine × Value) :=
  match m.peek argument with
  | some value => .ok (m.store argument none,value)
  | none => .error .argument

def takeCoin (m : Machine) (T : TypeTag) (argument : Argument) : Except Failure (Machine × Coin T) := do
  match ← m.take argument with
  | (m,.coin T' amount) => if T' = T then .ok (m,⟨amount⟩) else .error .argument
  | _ => .error .argument

def takeArbReceipt (m : Machine) (argument : Argument) : Except Failure (Machine × ArbReceipt) := do
  match ← m.take argument with
  | (m,.arbReceipt receipt) => .ok (m,receipt)
  | _ => .error .argument

def takeFlashReceipt (m : Machine) (argument : Argument) : Except Failure (Machine × FlashReceipt) := do
  match ← m.take argument with
  | (m,.flashReceipt receipt) => .ok (m,receipt)
  | _ => .error .argument

/-- The values among some arguments; objects and pure arguments are passed as they are. -/
def takeValues (m : Machine) : List Argument → Except Failure (Machine × List Value)
  | [] => .ok (m,[])
  | argument :: rest =>
    match argument with
    | .result _ | .nestedResult _ _ => do
      let (m,value) ← m.take argument
      let (m,values) ← m.takeValues rest
      return (m,value :: values)
    | _ => m.takeValues rest

end Machine

def pureU64 : Argument → Except Failure U64
  | .pure (.u64 value) => .ok value
  | _ => .error .argument

def mutableObject : Argument → Except Failure ObjectId
  | .object ⟨id,true⟩ => .ok id
  | _ => .error .argument

/-- Where a transaction runs: the published package, its sender and all other code. -/
structure Chain where
  package : String
  sender : Address
  outside : World → MoveCall → List Value → Except Failure (World × List Value)

inductive Callee
  | begin | settle | settleAndReturn | borrow | repay | swap (aToB : Bool) | outside
  deriving DecidableEq, Repr

def Chain.callee (chain : Chain) (c : MoveCall) : Callee :=
  if c.package = chain.package then
    if (c.module,c.function) = ("executor","begin") then .begin
    else if (c.module,c.function) = ("executor","settle") then .settle
    else if (c.module,c.function) = ("executor","settle_and_return") then .settleAndReturn
    else if (c.module,c.function) = ("flash","borrow") then .borrow
    else if (c.module,c.function) = ("flash","repay") then .repay
    else if (c.module,c.function) = ("amm_v2_adapter","swap_exact_in_a_to_b") then .swap true
    else if (c.module,c.function) = ("amm_v2_adapter","swap_exact_in_b_to_a") then .swap false
    else .outside
  else .outside

namespace Machine
variable (chain : Chain)

def opens (m : Machine) (T : TypeTag) (amount minProfit : U64) : Machine where
  world := m.world
  results := m.results
  opened := m.opened ++ [⟨m.results.length,T,amount,minProfit⟩]
  settled := m.settled

/-- A receipt lies where its `begin` put it, so its place names that command. -/
def settles (m : Machine) (receipt : Argument) (T : TypeTag) (amount : U64) : Machine where
  world := m.world
  results := m.results
  opened := m.opened
  settled := m.settled ++ match m.slot receipt with
    | some (i,_) => [⟨i,T,amount⟩]
    | none => []

def callBegin (m : Machine) (T : TypeTag) (coinArg minArg : Argument) : Except Failure (Machine × List Value) := do
  let (m,coin) ← m.takeCoin T coinArg
  let minProfit ← pureU64 minArg
  let (coin,receipt) := begin coin minProfit chain.sender
  return (m.opens T coin.value minProfit,[.coin T coin.value,.arbReceipt receipt])

def callSettle (m : Machine) (T : TypeTag) (receiptArg coinArg : Argument) : Except Failure (Machine × List Value) := do
  let (m,coin) ← m.takeCoin T coinArg
  let (m,receipt) ← m.takeArbReceipt receiptArg
  let (initiator,output) ← call (settle receipt coin)
  return ((m.settles receiptArg T coin.value).withWorld (m.world.credit initiator T output.value),[])

def callSettleAndReturn (m : Machine) (T : TypeTag) (receiptArg coinArg : Argument) :
    Except Failure (Machine × List Value) := do
  let (m,coin) ← m.takeCoin T coinArg
  let (m,receipt) ← m.takeArbReceipt receiptArg
  let output ← call (settleAndReturn receipt coin)
  return (m.settles receiptArg T coin.value,[.coin T output.value])

def callBorrow (m : Machine) (T : TypeTag) (lenderArg amountArg : Argument) :
    Except Failure (Machine × List Value) := do
  let id ← mutableObject lenderArg
  let amount ← pureU64 amountArg
  let lender ← m.world.vaults.locate T id
  let (lender,loan,receipt) ← call (borrow lender amount)
  return (m.withWorld {m.world with vaults := m.world.vaults.put ⟨T,lender⟩},
    [.coin T loan.value,.flashReceipt receipt])

def callRepay (m : Machine) (T : TypeTag) (lenderArg receiptArg paymentArg : Argument) :
    Except Failure (Machine × List Value) := do
  let id ← mutableObject lenderArg
  let (m,payment) ← m.takeCoin T paymentArg
  let (m,receipt) ← m.takeFlashReceipt receiptArg
  let lender ← m.world.vaults.locate T id
  let (lender,change) ← call (repay lender receipt payment)
  return (m.withWorld {m.world with vaults := m.world.vaults.put ⟨T,lender⟩},[.coin T change.value])

def callSwap (m : Machine) (aToB : Bool) (A B : TypeTag) (poolArg coinArg minOutArg : Argument) :
    Except Failure (Machine × List Value) := do
  let id ← mutableObject poolArg
  let minOut ← pureU64 minOutArg
  let (m,coin) ← m.takeCoin (if aToB then A else B) coinArg
  let (pools,out) ← m.world.pools.swap A B id aToB coin.value minOut
  return (m.withWorld {m.world with pools := pools},[.coin (if aToB then B else A) out])

/-- Code outside the package neither takes nor makes a receipt of the executor. -/
def callOutside (m : Machine) (c : MoveCall) : Except Failure (Machine × List Value) := do
  let (m,values) ← m.takeValues c.arguments
  let (world,results) ← chain.outside m.world c values
  if (values ++ results).any Value.isArbReceipt then .error .argument
  else .ok (m.withWorld world,results)

def invoke (m : Machine) (c : MoveCall) : Except Failure (Machine × List Value) :=
  match chain.callee c,c.typeArguments,c.arguments with
  | .begin,[T],[coin,minProfit] => m.callBegin chain T coin minProfit
  | .settle,[T],[receipt,coin] => m.callSettle T receipt coin
  | .settleAndReturn,[T],[receipt,coin] => m.callSettleAndReturn T receipt coin
  | .borrow,[T],[lender,amount] => m.callBorrow T lender amount
  | .repay,[T],[lender,receipt,payment] => m.callRepay T lender receipt payment
  | .swap aToB,[A,B],[pool,coin,minOut] => m.callSwap aToB A B pool coin minOut
  | .outside,_,_ => m.callOutside chain c
  | _,_,_ => .error .argument

def splitCoin (m : Machine) (source : Argument) (amount : U64) : Except Failure (Machine × Value) :=
  if source = .gasCoin then do
    let (rest,taken) ← call (balanceSplit m.world.gas amount)
    return (m.withWorld {m.world with gas := rest},.coin sui taken)
  else
    match m.peek source with
    | some (.coin T held) => do
      let (rest,taken) ← call (balanceSplit held amount)
      return (m.store source (some (.coin T rest)),.coin T taken)
    | _ => .error .argument

def splitCoins (m : Machine) (source : Argument) : List Argument → Except Failure (Machine × List Value)
  | [] => .ok (m,[])
  | amount :: rest => do
    let (m,coin) ← m.splitCoin source (← pureU64 amount)
    let (m,coins) ← m.splitCoins source rest
    return (m,coin :: coins)

def mergeCoins (m : Machine) (target : Argument) : List Argument → Except Failure Machine
  | [] => .ok m
  | source :: rest =>
    match m.peek target with
    | some (.coin T held) => do
      let (m,coin) ← m.takeCoin T source
      let joined ← call (balanceJoin held coin.value)
      (m.store target (some (.coin T joined))).mergeCoins target rest
    | _ => .error .argument

/-- Only coins can be transferred here: receipts have no `store`. -/
def transferObjects (m : Machine) (owner : Address) : List Argument → Except Failure Machine
  | [] => .ok m
  | object :: rest => do
    match ← m.take object with
    | (m,.coin T amount) => (m.withWorld (m.world.credit owner T amount)).transferObjects owner rest
    | _ => .error .argument

def step (m : Machine) : Command → Except Failure Machine
  | .moveCall c => do
    let (m,row) ← m.invoke chain c
    return m.push row
  | .splitCoins coin amounts => do
    let (m,row) ← m.splitCoins coin amounts
    return m.push row
  | .mergeCoins target sources => do
    let m ← m.mergeCoins target sources
    return m.push []
  | .transferObjects objects recipient =>
    match recipient with
    | .pure (.address owner) => do
      let m ← m.transferObjects owner objects
      return m.push []
    | _ => .error .argument

def start (world : World) : Machine := ⟨world,[],[],[]⟩

def spent (m : Machine) : Bool := m.results.all (·.all Option.isNone)

end Machine

section blocks
variable (chain : Chain)

def execute (world : World) (commands : List Command) : Except Failure World := do
  let m ← transact (Machine.step chain) (Machine.start world) commands
  if m.spent then .ok m.world else .error .argument

def commit (world : World) (commands : List Command) : World :=
  attempt (execute chain) world commands

end blocks

end SuiArbitrage.Move
