import SuiArbitrage.Move.Swappers

/-! The adapters of `sources/adapters/cetus_adapter.move` and `turbos_adapter.move`. The pools
behind them belong to other packages, whose functions are parameters. What is theirs is not
part of a `World` but for the coins that addresses own. -/
namespace SuiArbitrage.Move
open MachineWord Fallible

inductive Venue
  | cetus | turbos
  deriving DecidableEq, Repr

/-- An adapter aborts with a code of its own, in the standard library or in the package it calls. -/
inductive VenueAbort
  | code (venue : Venue) (value : ℕ)
  | own (reason : Abort)
  | pool (value : ℕ)
  deriving DecidableEq, Repr

def eNonZero : ℕ := 0

def own {α : Type} (body : Exec α) : Except VenueAbort α := body.mapError .own

def ensure (condition : Prop) [Decidable condition] (venue : Venue) (value : ℕ) : Except VenueAbort Unit :=
  if condition then .ok () else .error (.code venue value)

/-- `balance::destroy_zero` and `coin::destroy_zero`. -/
def destroyZero (value : U64) : Except VenueAbort Unit :=
  if value = 0 then .ok () else .error (.own (.code .balance eNonZero))

@[simp] theorem own_ok {α : Type} {body : Exec α} {result : α} : own body = .ok result ↔ body = .ok result := by
  cases body <;> simp [own,Except.mapError]

theorem ensure_ok {condition : Prop} [Decidable condition] {venue : Venue} {value : ℕ} {u : Unit} :
    ensure condition venue value = .ok u ↔ condition := by
  unfold ensure
  split <;> simp [*]

theorem destroyZero_ok {value : U64} {u : Unit} : destroyZero value = .ok u ↔ value = 0 := by
  unfold destroyZero
  split <;> simp [*]

/-- What the adapter uses of the Cetus package: the objects of a call stand for their ids. -/
structure Cetus where
  Receipt : Type
  flashSwap : World → (config pool : ObjectId) → (A B : TypeTag) → (a2b byAmountIn : Bool) → (amount : U64) →
    (sqrtPriceLimit : U128) → (clock : ObjectId) → Except VenueAbort (World × U64 × U64 × Receipt)
  swapPayAmount : Receipt → U64
  repayFlashSwap : World → (config pool : ObjectId) → (A B : TypeTag) → (payA payB : U64) → Receipt →
    Except VenueAbort World
  minSqrtPrice : U128
  maxSqrtPrice : U128

namespace Cetus

def eSlippage : ℕ := 1
def eInexactRepay : ℕ := 2

section swap
variable (cetus : Cetus) (aToB : Bool) (world : World) (config pool : ObjectId) (A B : TypeTag) (coinIn minOut : U64)
  (clock : ObjectId)

def swapExactIn : Except VenueAbort (World × U64) := do
  let (world,recvA,recvB,receipt) ← cetus.flashSwap world config pool A B aToB true coinIn
    (if aToB then cetus.minSqrtPrice else cetus.maxSqrtPrice) clock
  destroyZero (if aToB then recvA else recvB)
  let pay := cetus.swapPayAmount receipt
  let (inBal,payBal) ← own (balanceSplit coinIn pay)
  let world ← cetus.repayFlashSwap world config pool A B (if aToB then payBal else 0) (if aToB then 0 else payBal) receipt
  ensure (inBal = 0) .cetus eInexactRepay
  let out := if aToB then recvB else recvA
  ensure (minOut ≤ out) .cetus eSlippage
  return (world,out)

def swapExactInAToB : Except VenueAbort (World × U64) := cetus.swapExactIn true world config pool A B coinIn minOut clock

def swapExactInBToA : Except VenueAbort (World × U64) := cetus.swapExactIn false world config pool A B coinIn minOut clock

end swap

/-- Exact in: the adapter succeeds only where the receipt asks for the whole coin and nothing
else, and then the coin is what the pool has got. -/
theorem swapExactIn_ok {cetus : Cetus} {aToB : Bool} {world after : World} {config pool : ObjectId} {A B : TypeTag}
    {coinIn minOut out : U64} {clock : ObjectId} :
    cetus.swapExactIn aToB world config pool A B coinIn minOut clock = .ok (after,out) ↔
      ∃ middle recvA recvB receipt,
        cetus.flashSwap world config pool A B aToB true coinIn (if aToB then cetus.minSqrtPrice else cetus.maxSqrtPrice)
          clock = .ok (middle,recvA,recvB,receipt) ∧
        (if aToB then recvA else recvB) = 0 ∧ cetus.swapPayAmount receipt = coinIn ∧
        cetus.repayFlashSwap middle config pool A B (if aToB then coinIn else 0) (if aToB then 0 else coinIn) receipt =
          .ok after ∧
        out = (if aToB then recvB else recvA) ∧ minOut ≤ out := by
  simp only [swapExactIn,bind_ok,Prod.exists,destroyZero_ok,own_ok,balanceSplit_ok,ensure_ok,exists_const,pure_ok,
    Prod.mk.injEq]
  constructor
  · rintro ⟨middle,recvA,recvB,receipt,lent,nothing,rest,payBal,⟨rfl,split⟩,last,repaid,rfl,floor,rfl,rfl⟩
    have whole : cetus.swapPayAmount receipt = coinIn := Fin.ext (by simpa using split)
    rw [whole] at repaid
    exact ⟨middle,recvA,recvB,receipt,lent,nothing,whole,repaid,rfl,floor⟩
  · rintro ⟨middle,recvA,recvB,receipt,lent,nothing,rfl,repaid,rfl,floor⟩
    exact ⟨middle,recvA,recvB,receipt,lent,nothing,0,_,⟨rfl,by simp⟩,after,repaid,rfl,floor,rfl,rfl⟩

end Cetus

/-- What the adapter uses of the Turbos package: the two swaps of its router. -/
structure Turbos where
  swapABWithReturn : World → (pool : ObjectId) → (A B feeType : TypeTag) → (coins : List U64) → (amount threshold : U64) →
    (sqrtPriceLimit : U128) → (isExactIn : Bool) → (recipient : Address) → (deadline : U64) → (clock versioned : ObjectId) →
    Except VenueAbort (World × U64 × U64)
  swapBAWithReturn : World → (pool : ObjectId) → (A B feeType : TypeTag) → (coins : List U64) → (amount threshold : U64) →
    (sqrtPriceLimit : U128) → (isExactIn : Bool) → (recipient : Address) → (deadline : U64) → (clock versioned : ObjectId) →
    Except VenueAbort (World × U64 × U64)

namespace Turbos

def eSlippage : ℕ := 1

def minSqrtPriceX64 : U128 := ⟨4295048016,by norm_num⟩
def maxSqrtPriceX64 : U128 := ⟨79226673515401279992447579055,by norm_num⟩

def deadlineBufferMs : U64 := 3600000

/-- What is left of the input goes back to the trader. -/
def returnChange (world : World) (T : TypeTag) (change : U64) (recipient : Address) : World :=
  if change = 0 then world else world.credit recipient T change

section swap
variable (turbos : Turbos) (aToB : Bool) (world : World) (sender : Address) (timestampMs : U64) (pool : ObjectId)
  (A B feeType : TypeTag) (coinIn minOut : U64) (clock versioned : ObjectId)

def swapExactIn : Except VenueAbort (World × U64) := do
  let deadline ← own (checked 64 (timestampMs.val + deadlineBufferMs.val))
  let limit ← own (if aToB then checked 128 (minSqrtPriceX64.val + 1) else checkedSub maxSqrtPriceX64 1)
  let (world,out,change) ← (if aToB then turbos.swapABWithReturn else turbos.swapBAWithReturn) world pool A B feeType
    [coinIn] coinIn minOut limit true sender deadline clock versioned
  let world := returnChange world (if aToB then A else B) change sender
  ensure (minOut ≤ out) .turbos eSlippage
  return (world,out)

def swapExactInAToB : Except VenueAbort (World × U64) :=
  turbos.swapExactIn true world sender timestampMs pool A B feeType coinIn minOut clock versioned

def swapExactInBToA : Except VenueAbort (World × U64) :=
  turbos.swapExactIn false world sender timestampMs pool A B feeType coinIn minOut clock versioned

end swap

theorem limit_ok {aToB : Bool} {limit : U128} :
    (if aToB then checked 128 (minSqrtPriceX64.val + 1) else checkedSub maxSqrtPriceX64 1) = .ok limit ↔
      limit.val = if aToB then minSqrtPriceX64.val + 1 else maxSqrtPriceX64.val - 1 := by
  have one : (1 : U128).val = 1 := rfl
  have top : 1 ≤ maxSqrtPriceX64.val := by norm_num [maxSqrtPriceX64]
  cases aToB with
  | true =>
    simp only [if_true,checked_ok]
    exact eq_comm
  | false =>
    simp only [Bool.false_eq_true,if_false,checkedSub_ok,one]
    omega

/-- The router may leave a part of the input unspent, which is then the trader's again. -/
theorem swapExactIn_ok {turbos : Turbos} {aToB : Bool} {world after : World} {sender : Address} {timestampMs : U64}
    {pool : ObjectId} {A B feeType : TypeTag} {coinIn minOut out : U64} {clock versioned : ObjectId} :
    turbos.swapExactIn aToB world sender timestampMs pool A B feeType coinIn minOut clock versioned = .ok (after,out) ↔
      ∃ (deadline : U64) (limit : U128) (middle : World) (change : U64),
        timestampMs.val + deadlineBufferMs.val = deadline.val ∧
        limit.val = (if aToB then minSqrtPriceX64.val + 1 else maxSqrtPriceX64.val - 1) ∧
        (if aToB then turbos.swapABWithReturn else turbos.swapBAWithReturn) world pool A B feeType [coinIn] coinIn minOut
          limit true sender deadline clock versioned = .ok (middle,out,change) ∧
        minOut ≤ out ∧ after = returnChange middle (if aToB then A else B) change sender := by
  simp only [swapExactIn,bind_ok,Prod.exists,own_ok,checked_ok,limit_ok,ensure_ok,exists_const,pure_ok,Prod.mk.injEq]
  constructor
  · rintro ⟨deadline,later,limit,bound,middle,out',change,swapped,floor,rfl,rfl⟩
    exact ⟨deadline,limit,middle,change,later,bound,swapped,floor,rfl⟩
  · rintro ⟨deadline,limit,middle,change,later,bound,swapped,floor,rfl⟩
    exact ⟨deadline,later,limit,bound,middle,out,change,swapped,floor,rfl,rfl⟩

end Turbos

/-- All that the chain runs outside the modules of `Chain.callee`: the two adapters over
their packages, and any other code. `report` is how an abort of an adapter fails a block. -/
structure Venues where
  cetus : Cetus
  turbos : Turbos
  timestampMs : U64
  report : VenueAbort → Failure
  elsewhere : World → MoveCall → List Value → Except Failure (World × List Value)

def swapFunction (aToB : Bool) : String := if aToB then "swap_exact_in_a_to_b" else "swap_exact_in_b_to_a"

def swapDirection (function : String) : Option Bool :=
  if function = swapFunction true then some true else if function = swapFunction false then some false else none

/-- A swap of a venue as the block sees it: the pool is passed by mutable reference, and the
coin has the type of its side. -/
def venueTrade (report : VenueAbort → Failure) (aToB : Bool) (A B : TypeTag) (pool : ObjectArg)
    (swap : World → U64 → Except VenueAbort (World × U64)) (world : World) (T : TypeTag) (amount : U64) :
    Except Failure (World × TypeTag × U64) :=
  if pool.mutable ∧ T = if aToB then A else B then
    ((swap world amount).mapError report).map fun moved => (moved.1,if aToB then B else A,moved.2)
  else .error .argument

namespace Venues
variable (venues : Venues) (package : ObjectId) (sender : Address)

def cetusTrade (aToB : Bool) (typeArgs : List TypeTag) (config pool clock : ObjectArg) (minOut : U64) (world : World)
    (T : TypeTag) (amount : U64) : Except Failure (World × TypeTag × U64) :=
  match typeArgs with
  | [A,B] => venueTrade venues.report aToB A B pool (fun world amount =>
      (if aToB then venues.cetus.swapExactInAToB else venues.cetus.swapExactInBToA) world config.id pool.id A B amount
        minOut clock.id) world T amount
  | _ => .error .argument

def turbosTrade (aToB : Bool) (typeArgs : List TypeTag) (pool clock versioned : ObjectArg) (minOut : U64) (world : World)
    (T : TypeTag) (amount : U64) : Except Failure (World × TypeTag × U64) :=
  match typeArgs with
  | [A,B,feeType] => venueTrade venues.report aToB A B pool (fun world amount =>
      (if aToB then venues.turbos.swapExactInAToB else venues.turbos.swapExactInBToA) world sender venues.timestampMs
        pool.id A B feeType amount minOut clock.id versioned.id) world T amount
  | _ => .error .argument

/-- The type checks of a call of an adapter, and the adapter. -/
def outside (world : World) (c : MoveCall) (values : List Value) : Except Failure (World × List Value) :=
  let paid (traded : Except Failure (World × TypeTag × U64)) := traded.map fun moved => (moved.1,[.coin moved.2.1 moved.2.2])
  if c.package = package ∧ c.module = "cetus_adapter" then
    match swapDirection c.function,c.arguments,values with
    | some aToB,[.object config,.object pool,_,.pure (.u64 minOut),.object clock],[.coin T amount] =>
      paid (venues.cetusTrade aToB c.typeArguments config pool clock minOut world T amount)
    | _,_,_ => .error .argument
  else if c.package = package ∧ c.module = "turbos_adapter" then
    match swapDirection c.function,c.arguments,values with
    | some aToB,[.object pool,_,.pure (.u64 minOut),.object clock,.object versioned],[.coin T amount] =>
      paid (venues.turbosTrade sender aToB c.typeArguments pool clock versioned minOut world T amount)
    | _,_,_ => .error .argument
  else venues.elsewhere world c values

def chain : Chain := ⟨package,sender,venues.outside package sender⟩

@[simp] theorem chain_package : (venues.chain package sender).package = package := rfl

@[simp] theorem chain_sender : (venues.chain package sender).sender = sender := rfl

end Venues

/-- One hop of a route at any of the three venues. -/
inductive HopCall
  | ammV2 (swap : V2Call)
  | cetus (aToB : Bool) (typeArgs : List TypeTag) (config pool clock : ObjectArg) (minOut : U64)
  | turbos (aToB : Bool) (typeArgs : List TypeTag) (pool clock versioned : ObjectArg) (minOut : U64)
  deriving DecidableEq, Repr

section swappers
variable {chain : Chain} {m : Machine}

open Machine

theorem takeValues_skip {argument : Argument} (object : argument.command = none) (rest : List Argument) :
    m.takeValues (argument :: rest) = m.takeValues rest := by
  cases argument with
  | result i => cases object
  | nestedResult i j => cases object
  | gasCoin => rfl
  | pure value => rfl
  | object object => rfl

theorem takeValues_take {argument : Argument} {value : Value} (result : argument.command.isSome)
    (held : m.peek argument = some value) (rest : List Argument) :
    m.takeValues (argument :: rest) =
      (m.store argument none).takeValues rest >>= fun taken => .ok (taken.1,value :: taken.2) := by
  have taken : m.take argument = .ok (m.store argument none,value) := take_ok.mpr ⟨held,rfl⟩
  cases argument with
  | result i =>
    simp only [takeValues,taken,ok_bind]
    rfl
  | nestedResult i j =>
    simp only [takeValues,taken,ok_bind]
    rfl
  | gasCoin => cases result
  | pure value => cases result
  | object object => cases result

theorem takeValues_front {front : List Argument} (plain : ∀ argument ∈ front, argument.command = none) (rest : List Argument) :
    m.takeValues (front ++ rest) = m.takeValues rest := by
  induction front with
  | nil => rfl
  | cons argument front ih =>
    rw [List.cons_append,takeValues_skip (plain argument List.mem_cons_self)]
    exact ih fun other member => plain other (List.mem_cons_of_mem _ member)

/-- Among objects and plain values, the coin is the only value that is taken. -/
theorem takeValues_coin (before : List Argument) {coin : Argument} {value : Value} {after : List Argument}
    (result : coin.command.isSome) (held : m.peek coin = some value) (first : ∀ argument ∈ before, argument.command = none)
    (last : ∀ argument ∈ after, argument.command = none) :
    m.takeValues (before ++ coin :: after) = .ok (m.store coin none,[value]) := by
  have nothing (m : Machine) : m.takeValues after = .ok (m,[]) := by
    rw [← List.append_nil after,takeValues_front last]
    rfl
  rw [takeValues_front first,takeValues_take result held,nothing,ok_bind]

theorem step_outside {c : MoveCall} {coin : Argument} {T : TypeTag} {amount : U64}
    {traded : Except Failure (World × TypeTag × U64)} (callee : chain.callee c = .outside)
    (taken : m.takeValues c.arguments = .ok (m.store coin none,[.coin T amount]))
    (ran : chain.outside m.world c [.coin T amount] = traded.map fun moved => (moved.1,[.coin moved.2.1 moved.2.2])) :
    m.step chain (.moveCall c) = traded.map (m.exchanged coin) := by
  have invoked : m.invoke chain c = m.callOutside chain c := by
    simp only [invoke,callee]
  rw [Machine.step,invoked,callOutside,taken,ok_bind]
  simp only [world_store,ran]
  cases traded with
  | error failure => rfl
  | ok moved => rfl

end swappers

section hops
variable (venues : Venues) (package : ObjectId) (sender : Address)

open Machine

def cetusCommand (aToB : Bool) (typeArgs : List TypeTag) (config pool clock : ObjectArg) (minOut : U64)
    (coin : Argument) : Command :=
  .moveCall ⟨package,"cetus_adapter",swapFunction aToB,typeArgs,
    [.object config,.object pool,coin,.pure (.u64 minOut),.object clock]⟩

def turbosCommand (aToB : Bool) (typeArgs : List TypeTag) (pool clock versioned : ObjectArg) (minOut : U64)
    (coin : Argument) : Command :=
  .moveCall ⟨package,"turbos_adapter",swapFunction aToB,typeArgs,
    [.object pool,coin,.pure (.u64 minOut),.object clock,.object versioned]⟩

theorem swapDirection_function (aToB : Bool) : swapDirection (swapFunction aToB) = some aToB := by
  cases aToB <;> decide

theorem cetus_runs (aToB : Bool) (typeArgs : List TypeTag) (config pool clock : ObjectArg) (minOut : U64) (m : Machine)
    (coin : Argument) (T : TypeTag) (amount : U64) (result : coin.command.isSome) (held : m.peek coin = some (.coin T amount)) :
    m.step (venues.chain package sender) (cetusCommand package aToB typeArgs config pool clock minOut coin) =
      (venues.cetusTrade aToB typeArgs config pool clock minOut m.world T amount).map (m.exchanged coin) := by
  refine step_outside ?_ (takeValues_coin [.object config,.object pool] result held ?_ ?_) ?_
  · simp [Chain.callee,Venues.chain]
  · simp [Argument.command]
  · simp [Argument.command]
  · simp [Venues.chain,Venues.outside,swapDirection_function]

theorem turbos_runs (aToB : Bool) (typeArgs : List TypeTag) (pool clock versioned : ObjectArg) (minOut : U64) (m : Machine)
    (coin : Argument) (T : TypeTag) (amount : U64) (result : coin.command.isSome) (held : m.peek coin = some (.coin T amount)) :
    m.step (venues.chain package sender) (turbosCommand package aToB typeArgs pool clock versioned minOut coin) =
      (venues.turbosTrade sender aToB typeArgs pool clock versioned minOut m.world T amount).map (m.exchanged coin) := by
  refine step_outside ?_ (takeValues_coin [.object pool] result held ?_ ?_) ?_
  · simp [Chain.callee,Venues.chain]
  · simp [Argument.command]
  · simp [Argument.command]
  · simp [Venues.chain,Venues.outside,swapDirection_function]

def HopCall.swapper : HopCall → Swapper (venues.chain package sender)
  | .ammV2 swap => swap.swapper _
  | .cetus aToB typeArgs config pool clock minOut => ⟨cetusCommand package aToB typeArgs config pool clock minOut,
      venues.cetusTrade aToB typeArgs config pool clock minOut,cetus_runs venues package sender aToB typeArgs config pool clock minOut⟩
  | .turbos aToB typeArgs pool clock versioned minOut => ⟨turbosCommand package aToB typeArgs pool clock versioned minOut,
      venues.turbosTrade sender aToB typeArgs pool clock versioned minOut,
      turbos_runs venues package sender aToB typeArgs pool clock versioned minOut⟩

end hops

end SuiArbitrage.Move
