import SuiArbitrage.Move.FlashRoute
import SuiArbitrage.Move.Observed

/-! Commands that turn one coin into another, whatever venue is behind them. Such a command
comes with its meaning on the world alone, and a chain of them runs as the chain of their
meanings does. -/
namespace SuiArbitrage.Move
open MachineWord Fallible

section meaning
variable {m : Machine}

open Machine

/-- The machine after a command that took a coin and left another. -/
def Machine.exchanged (m : Machine) (coin : Argument) (traded : World × TypeTag × U64) : Machine :=
  ((m.store coin none).withWorld traded.1).push [.coin traded.2.1 traded.2.2]

structure Swapper (chain : Chain) where
  command : Argument → Command
  trade : World → TypeTag → U64 → Except Failure (World × TypeTag × U64)
  runs : ∀ (m : Machine) (coin : Argument) (T : TypeTag) (amount : U64), coin.command.isSome →
    m.peek coin = some (.coin T amount) →
    m.step chain (command coin) = (trade m.world T amount).map (m.exchanged coin)

theorem takeCoin_of_peek {argument : Argument} {T : TypeTag} {amount : U64} (here : m.peek argument = some (.coin T amount))
    (U : TypeTag) :
    m.takeCoin U argument = if T = U then .ok (m.store argument none,⟨amount⟩) else .error .argument := by
  have taken : m.take argument = .ok (m.store argument none,.coin T amount) := take_ok.mpr ⟨here,rfl⟩
  rw [takeCoin,taken,ok_bind]

variable {chain : Chain}

def trades : List (Swapper chain) → World → TypeTag → U64 → Except Failure (World × TypeTag × U64)
  | [],world,T,amount => .ok (world,T,amount)
  | swap :: rest,world,T,amount => do
    let (world,T,amount) ← swap.trade world T amount
    trades rest world T amount

/-- Each command takes the result of the one before it. -/
def swapperCommands : ℕ → Argument → List (Swapper chain) → List Command
  | _,_,[] => []
  | n,coin,swap :: rest => swap.command coin :: swapperCommands (n + 1) (.result n) rest

def swappedCoin : ℕ → Argument → List (Swapper chain) → Argument
  | _,coin,[] => coin
  | n,_,_ :: rest => swappedCoin (n + 1) (.result n) rest

theorem length_swapperCommands (n : ℕ) (coin : Argument) (swaps : List (Swapper chain)) :
    (swapperCommands n coin swaps).length = swaps.length := by
  induction swaps generalizing n coin with
  | nil => rfl
  | cons swap rest ih => simp [swapperCommands,ih]

theorem swapperCommands_append (n : ℕ) (coin : Argument) (first second : List (Swapper chain)) :
    swapperCommands n coin (first ++ second) =
      swapperCommands n coin first ++ swapperCommands (n + first.length) (swappedCoin n coin first) second := by
  induction first generalizing n coin with
  | nil => rfl
  | cons swap rest ih =>
    rw [List.cons_append,swapperCommands,ih,List.length_cons,Nat.add_comm rest.length,← Nat.add_assoc]
    rfl

/-- Between two swaps: the coin at hand, and nothing else behind the first rows. -/
structure Threaded (front : List (List (Option Value))) (n : ℕ) (coin : Argument) (traded : World × TypeTag × U64)
    (m : Machine) : Prop where
  held : m.peek coin = some (.coin traded.2.1 traded.2.2)
  rest : (m.store coin none).results = front ++ List.replicate n [none]
  world : m.world = traded.1
  unsettled : m.settled = []

theorem threaded_exchanged {front : List (List (Option Value))} {n : ℕ} {coin : Argument} {before : World × TypeTag × U64}
    (threaded : Threaded front n coin before m) (traded : World × TypeTag × U64) :
    Threaded front (n + 1) (.result (front.length + n)) traded (m.exchanged coin traded) := by
  have size : (front ++ List.replicate n [(none : Option Value)]).length = front.length + n := by simp
  have pushed : (m.exchanged coin traded).results =
      (front ++ List.replicate n [none]) ++ [[some (.coin traded.2.1 traded.2.2)]] := by
    rw [← threaded.rest]
    rfl
  rw [← size]
  refine ⟨peek_last pushed,?_,rfl,(quiet_take m coin).settled.trans threaded.unsettled⟩
  rw [store_last pushed,List.replicate_succ',List.append_assoc]

/-- Any number of swaps, by induction on the route. -/
theorem swappers_run {front : List (List (Option Value))} {n : ℕ} {coin : Argument} {before : World × TypeTag × U64}
    (result : coin.command.isSome) (threaded : Threaded front n coin before m) (swaps : List (Swapper chain)) :
    Simulates (Threaded front (n + swaps.length) (swappedCoin (front.length + n) coin swaps))
      (trades swaps before.1 before.2.1 before.2.2)
      (transact (Machine.step chain) m (swapperCommands (front.length + n) coin swaps)) := by
  induction swaps generalizing m n coin before with
  | nil => exact simulates_ok threaded
  | cons swap rest ih =>
    rw [trades,swapperCommands,transact_cons,swap.runs m coin _ _ result threaded.held,threaded.world]
    cases swap.trade before.1 before.2.1 before.2.2 with
    | error failure => exact simulates_error failure
    | ok traded =>
      have later := ih rfl (threaded_exchanged threaded traded)
      rw [List.length_cons,Nat.add_comm rest.length,← Nat.add_assoc]
      exact later

/-- The coin that a chain of swaps leaves is the first result of its last command, and else the
coin it was given. -/
theorem cell_swappedCoin {k : ℕ} {coin : Argument} {value : Value} (heads : coin = .result k ∨ coin = .nestedResult k 0)
    (swaps : List (Swapper chain)) (held : m.peek (swappedCoin (k + 1) coin swaps) = some value) :
    m.cell (k + swaps.length) 0 = some value := by
  induction swaps generalizing k coin with
  | nil =>
    obtain ⟨⟨i,j⟩,place,here⟩ := Option.bind_eq_some_iff.mp held
    rcases heads with rfl | rfl
    · simp only [swappedCoin,slot] at place
      split at place
      next =>
        obtain ⟨rfl,rfl⟩ := Prod.mk.inj (Option.some.inj place)
        exact here
      next => cases place
    · obtain ⟨rfl,rfl⟩ := Prod.mk.inj (Option.some.inj place)
      exact here
  | cons swap rest ih =>
    have later := ih (.inl rfl) held
    rw [List.length_cons,Nat.add_comm rest.length,← Nat.add_assoc]
    exact later

/-- What the run of a block shows of its swaps: the result of each is what trading up to it
comes to. -/
theorem trades_yield {front : List (List (Option Value))} {k : ℕ} {world : World} {opening : List Command}
    {before : World × TypeTag × U64} (opened : transact (Machine.step chain) (Machine.start world) opening = .ok m)
    (rows : front.length = k + 1) (counted : opening.length = k + 1)
    (threaded : Threaded front 0 (.nestedResult k 0) before m) {first : List (Swapper chain)} {traded : World × TypeTag × U64}
    (ran : trades first before.1 before.2.1 before.2.2 = .ok traded) (second : List (Swapper chain)) (rest : List Command) :
    yields chain world (opening ++ swapperCommands (k + 1) (.nestedResult k 0) (first ++ second) ++ rest) (k + first.length) 0 =
      some (.coin traded.2.1 traded.2.2) := by
  obtain ⟨after,swapped,threaded⟩ := (swappers_run rfl threaded first).returns ran
  rw [rows,Nat.add_zero] at swapped threaded
  have done : transact (Machine.step chain) (Machine.start world)
      (opening ++ swapperCommands (k + 1) (.nestedResult k 0) first) = .ok after := by
    rw [transact_append,opened,ok_bind,swapped]
  have counted : (opening ++ swapperCommands (k + 1) (.nestedResult k 0) first).length = k + first.length + 1 := by
    rw [List.length_append,counted,length_swapperCommands]
    omega
  rw [swapperCommands_append,← List.append_assoc,List.append_assoc,yields_append done counted]
  exact cell_swappedCoin (.inr rfl) first threaded.held

end meaning
section v2
variable (chain : Chain)

open Machine

/-- A swap on the pools alone: the coin is its type and its amount. -/
def V2Call.trade (swap : V2Call) (pools : Pools) (T : TypeTag) (amount : U64) : Except Failure (Pools × TypeTag × U64) :=
  match swap.typeArgs with
  | [A,B] =>
    if swap.pool.mutable ∧ T = if swap.aToB then A else B then do
      let (pools,out) ← pools.swap A B swap.pool.id swap.aToB amount swap.minOut
      return (pools,if swap.aToB then B else A,out)
    else .error .argument
  | _ => .error .argument

def World.withPools (world : World) (pools : Pools) : World := {world with pools := pools}

def V2Call.swapper (swap : V2Call) : Swapper chain where
  command := swap.command chain
  trade world T amount := (swap.trade world.pools T amount).map fun traded => (world.withPools traded.1,traded.2)
  runs m coin T amount _ held := by
    obtain ⟨aToB,typeArgs,⟨id,mutable⟩,minOut⟩ := swap
    have callee (function : Bool) (types : List TypeTag) (arguments : List Argument) :
        chain.callee ⟨chain.package,"amm_v2_adapter",if function then "swap_exact_in_a_to_b" else "swap_exact_in_b_to_a",
          types,arguments⟩ = .swap function := by
      cases function <;> simp [Chain.callee]
    simp only [V2Call.command,Machine.step,invoke,callee,V2Call.trade]
    rcases typeArgs with _ | ⟨A,_ | ⟨B,_ | ⟨C,rest⟩⟩⟩
    · rfl
    · rfl
    · simp only [callSwap,takeCoin_of_peek held]
      cases mutable with
      | false => rfl
      | true =>
        by_cases typed : T = if aToB then A else B
        · simp only [mutableObject,pureU64,ok_bind,typed,if_true,true_and,world_store]
          cases m.world.pools.swap A B id aToB amount minOut <;> rfl
        · simp only [mutableObject,pureU64,ok_bind,typed,and_false,if_false]
          rfl
    · rfl

def V2Call.trades : List V2Call → Pools → TypeTag → U64 → Except Failure (Pools × TypeTag × U64)
  | [],pools,T,amount => .ok (pools,T,amount)
  | swap :: rest,pools,T,amount => do
    let (pools,T,amount) ← swap.trade pools T amount
    trades rest pools T amount

/-- Swaps of `amm_v2` pools change the pools and nothing else. -/
theorem trades_v2 (swaps : List V2Call) (world : World) (T : TypeTag) (amount : U64) :
    trades (swaps.map (V2Call.swapper chain)) world T amount =
      (V2Call.trades swaps world.pools T amount).map fun traded => (world.withPools traded.1,traded.2) := by
  induction swaps generalizing world T amount with
  | nil => rfl
  | cons swap rest ih =>
    rw [List.map_cons,trades,V2Call.trades]
    change ((swap.trade world.pools T amount).map _ >>= _) = _
    cases swap.trade world.pools T amount with
    | error failure => rfl
    | ok traded =>
      change trades (rest.map (V2Call.swapper chain)) (world.withPools traded.1) traded.2.1 traded.2.2 = _
      rw [ih]
      rfl

theorem swapperCommands_v2 (n : ℕ) (coin : Argument) (swaps : List V2Call) :
    swapperCommands n coin (swaps.map (V2Call.swapper chain)) = swapCommands chain n coin swaps := by
  induction swaps generalizing n coin with
  | nil => rfl
  | cons swap rest ih => simp only [List.map_cons,swapperCommands,swapCommands,ih,V2Call.swapper]

theorem swappedCoin_v2 (n : ℕ) (coin : Argument) (swaps : List V2Call) :
    swappedCoin n coin (swaps.map (V2Call.swapper chain)) = lastCoin n coin swaps := by
  induction swaps generalizing n coin with
  | nil => rfl
  | cons swap rest ih => simp only [List.map_cons,swappedCoin,lastCoin,ih]

end v2

end SuiArbitrage.Move
