import SuiArbitrage.Move.Sessions

/-! What a run of a block lets one see: the result of each command, what a call is passed, and
what the gates have accepted. A result stays as it is until a command names it. -/
namespace SuiArbitrage.Move
open MachineWord Fallible Executor

section observed
variable (chain : Chain) (world : World) (commands : List Command)

/-- The machine before the command at `n`, if the run gets there. -/
def reached (n : ℕ) : Option Machine := (transact (Machine.step chain) (Machine.start world) (commands.take n)).toOption

/-- The result `j` of the command at `n`, when it has just run. -/
def yields (n j : ℕ) : Option Value := (reached chain world commands (n + 1)).bind fun m => m.cell n j

/-- The values that the call at `n` takes. -/
def passed (n : ℕ) : Option (List Value) :=
  match commands[n]? with
  | some (.moveCall c) => (reached chain world commands n).bind fun m => (m.takeValues c.arguments).toOption.map Prod.snd
  | _ => none

/-- What the gates of a run have accepted; nothing when it does not get to its end. -/
def settlements : List Settled := (reached chain world commands commands.length).elim [] Machine.settled

end observed

section reaching
variable {chain : Chain} {world : World} {done rest : List Command} {m : Machine}

theorem reached_append (ran : transact (Machine.step chain) (Machine.start world) done = .ok m) (rest : List Command) :
    reached chain world (done ++ rest) done.length = some m := by
  rw [reached,List.take_left,ran]
  rfl

theorem yields_append {n : ℕ} (ran : transact (Machine.step chain) (Machine.start world) done = .ok m)
    (place : done.length = n + 1) (rest : List Command) (j : ℕ) :
    yields chain world (done ++ rest) n j = m.cell n j := by
  rw [yields,← place,reached_append ran]
  rfl

theorem passed_append {c : MoveCall} {after : Machine} {values : List Value}
    (ran : transact (Machine.step chain) (Machine.start world) done = .ok m)
    (taken : m.takeValues c.arguments = .ok (after,values)) (rest : List Command) :
    passed chain world (done ++ .moveCall c :: rest) done.length = some values := by
  have here : (done ++ .moveCall c :: rest)[done.length]? = some (.moveCall c) := by simp
  simp only [passed,here,reached_append ran,Option.bind_some,taken,Except.toOption,Option.map_some]

theorem settlements_of_run (ran : transact (Machine.step chain) (Machine.start world) done = .ok m) :
    settlements chain world done = m.settled := by
  have whole := reached_append ran []
  rw [List.append_nil] at whole
  rw [settlements,whole]
  rfl

end reaching

/-- An argument that is not a certain result, nor all that its command has returned. -/
def Argument.Avoids (argument : Argument) (k j : ℕ) : Prop := argument ≠ .result k ∧ argument ≠ .nestedResult k j

def Command.arguments : Command → List Argument
  | .moveCall c => c.arguments
  | .splitCoins coin amounts => coin :: amounts
  | .mergeCoins target sources => target :: sources
  | .transferObjects objects recipient => recipient :: objects

theorem avoids_of_command {argument : Argument} {k : ℕ} (other : argument.command ≠ some k) (j : ℕ) : argument.Avoids k j := by
  constructor
  · rintro rfl
    exact other rfl
  · rintro rfl
    exact other rfl

namespace Machine
variable {chain : Chain} {m after : Machine} {k j : ℕ}

theorem cell_store_other {written : Argument} (other : written.Avoids k j) (value : Option Value) :
    (m.store written value).cell k j = m.cell k j := by
  unfold store
  split
  next i l place =>
    rw [cell_setCell,if_neg]
    rintro ⟨rfl,rfl,-⟩
    cases written with
    | result c =>
      obtain rfl := Option.some.inj (slot_command place)
      exact other.1 rfl
    | nestedResult c d =>
      obtain ⟨rfl,rfl⟩ := Prod.mk.inj (Option.some.inj place)
      exact other.2 rfl
    | gasCoin => cases place
    | pure value => cases place
    | object object => cases place
  next => rfl

theorem cell_takeValues {arguments : List Argument} {values : List Value} (taken : m.takeValues arguments = .ok (after,values))
    (others : ∀ argument ∈ arguments, argument.Avoids k j) : after.cell k j = m.cell k j := by
  induction arguments generalizing m values with
  | nil =>
    obtain ⟨rfl,-⟩ := Prod.mk.inj (Except.ok.inj taken)
    rfl
  | cons argument rest ih =>
    obtain ⟨here,later⟩ := List.forall_mem_cons.mp others
    cases argument with
    | result i =>
      simp only [takeValues,bind_ok,Prod.exists,take_ok,pure_ok,Prod.mk.injEq] at taken
      obtain ⟨_,value,⟨-,rfl⟩,_,_,taken,rfl,rfl⟩ := taken
      exact (ih taken later).trans (cell_store_other here none)
    | nestedResult i l =>
      simp only [takeValues,bind_ok,Prod.exists,take_ok,pure_ok,Prod.mk.injEq] at taken
      obtain ⟨_,value,⟨-,rfl⟩,_,_,taken,rfl,rfl⟩ := taken
      exact (ih taken later).trans (cell_store_other here none)
    | gasCoin => exact ih taken later
    | pure value => exact ih taken later
    | object object => exact ih taken later

theorem cell_splitCoin {source : Argument} {amount : U64} {value : Value} (split : m.splitCoin source amount = .ok (after,value))
    (other : source.Avoids k j) : after.cell k j = m.cell k j := by
  unfold splitCoin at split
  split at split
  next =>
    simp only [bind_ok,Prod.exists,pure_ok,Prod.mk.injEq] at split
    obtain ⟨rest,taken,-,rfl,-⟩ := split
    rfl
  next =>
    split at split
    next =>
      simp only [bind_ok,Prod.exists,pure_ok,Prod.mk.injEq] at split
      obtain ⟨rest,taken,-,rfl,-⟩ := split
      exact cell_store_other other _
    next => cases split

theorem cell_splitCoins {source : Argument} {amounts : List Argument} {values : List Value}
    (split : m.splitCoins source amounts = .ok (after,values)) (other : source.Avoids k j) : after.cell k j = m.cell k j := by
  induction amounts generalizing m values with
  | nil =>
    obtain ⟨rfl,-⟩ := Prod.mk.inj (Except.ok.inj split)
    rfl
  | cons amount rest ih =>
    simp only [splitCoins,bind_ok,Prod.exists,pure_ok,Prod.mk.injEq] at split
    obtain ⟨size,-,middle,coin,first,_,coins,later,rfl,-⟩ := split
    exact (ih later).trans (cell_splitCoin first other)

theorem cell_mergeCoins {target : Argument} {sources : List Argument} (merged : m.mergeCoins target sources = .ok after)
    (others : ∀ argument ∈ target :: sources, argument.Avoids k j) : after.cell k j = m.cell k j := by
  induction sources generalizing m with
  | nil =>
    obtain rfl := Except.ok.inj merged
    rfl
  | cons source rest ih =>
    obtain ⟨kept,here,later⟩ : target.Avoids k j ∧ source.Avoids k j ∧ ∀ argument ∈ rest, argument.Avoids k j := by
      simpa using others
    simp only [mergeCoins] at merged
    split at merged
    next =>
      simp only [bind_ok,Prod.exists,takeCoin_ok] at merged
      obtain ⟨_,coin,⟨-,rfl⟩,joined,-,onward⟩ := merged
      refine (ih onward (List.forall_mem_cons.mpr ⟨kept,later⟩)).trans ?_
      exact (cell_store_other kept _).trans (cell_store_other here none)
    next => cases merged

theorem cell_transferObjects {owner : Address} {objects : List Argument} (moved : m.transferObjects owner objects = .ok after)
    (others : ∀ argument ∈ objects, argument.Avoids k j) : after.cell k j = m.cell k j := by
  induction objects generalizing m with
  | nil =>
    obtain rfl := Except.ok.inj moved
    rfl
  | cons object rest ih =>
    obtain ⟨here,later⟩ := List.forall_mem_cons.mp others
    simp only [transferObjects,bind_ok,Prod.exists,take_ok] at moved
    obtain ⟨_,value,⟨-,rfl⟩,moved⟩ := moved
    split at moved
    next middle T amount same =>
      obtain ⟨rfl,-⟩ := Prod.mk.inj same
      exact (ih moved later).trans (cell_store_other here none)
    next => cases moved

theorem cell_invoke {c : MoveCall} {row : List Value} (ran : m.invoke chain c = .ok (after,row))
    (others : ∀ argument ∈ c.arguments, argument.Avoids k j) : after.cell k j = m.cell k j := by
  unfold invoke at ran
  split at ran
  next T coinArg minArg callee types arguments =>
    simp only [callBegin,bind_ok,Prod.exists,takeCoin_ok,pure_ok,Prod.mk.injEq] at ran
    obtain ⟨_,coin,⟨-,rfl⟩,minProfit,-,rfl,-⟩ := ran
    exact cell_store_other (others coinArg (by simp [arguments])) none
  next T receiptArg coinArg callee types arguments =>
    simp only [callSettle,bind_ok,Prod.exists,takeCoin_ok,takeArbReceipt_ok,pure_ok,Prod.mk.injEq] at ran
    obtain ⟨_,coin,⟨-,rfl⟩,_,receipt,⟨-,rfl⟩,initiator,output,-,rfl,-⟩ := ran
    exact (cell_store_other (others receiptArg (by simp [arguments])) none).trans
      (cell_store_other (others coinArg (by simp [arguments])) none)
  next T receiptArg coinArg callee types arguments =>
    simp only [callSettleAndReturn,bind_ok,Prod.exists,takeCoin_ok,takeArbReceipt_ok,pure_ok,Prod.mk.injEq] at ran
    obtain ⟨_,coin,⟨-,rfl⟩,_,receipt,⟨-,rfl⟩,output,-,rfl,-⟩ := ran
    exact (cell_store_other (others receiptArg (by simp [arguments])) none).trans
      (cell_store_other (others coinArg (by simp [arguments])) none)
  next T lenderArg amountArg callee types arguments =>
    simp only [callBorrow,bind_ok,Prod.exists,pure_ok,Prod.mk.injEq] at ran
    obtain ⟨id,-,amount,-,lender,-,lender',loan,receipt,-,rfl,-⟩ := ran
    rfl
  next T lenderArg receiptArg paymentArg callee types arguments =>
    simp only [callRepay,bind_ok,Prod.exists,takeCoin_ok,takeFlashReceipt_ok,pure_ok,Prod.mk.injEq] at ran
    obtain ⟨id,-,_,payment,⟨-,rfl⟩,_,receipt,⟨-,rfl⟩,lender,-,lender',change,-,rfl,-⟩ := ran
    exact (cell_store_other (others receiptArg (by simp [arguments])) none).trans
      (cell_store_other (others paymentArg (by simp [arguments])) none)
  next aToB A B poolArg coinArg minOutArg callee types arguments =>
    simp only [callSwap,bind_ok,Prod.exists,takeCoin_ok,pure_ok,Prod.mk.injEq] at ran
    obtain ⟨id,-,minOut,-,_,coin,⟨-,rfl⟩,pools,out,-,rfl,-⟩ := ran
    exact cell_store_other (others coinArg (by simp [arguments])) none
  next callee =>
    simp only [callOutside,bind_ok,Prod.exists] at ran
    obtain ⟨middle,values,taken,world,results,-,ran⟩ := ran
    split at ran
    next => cases ran
    next =>
      obtain ⟨rfl,-⟩ := Prod.mk.inj (Except.ok.inj ran)
      have kept := cell_takeValues taken others
      exact kept
  next => cases ran

theorem stepped_length {command : Command} (stepped : Stepped chain m after command) :
    after.results.length = m.results.length + 1 := by
  cases stepped with
  | began _ _ length => exact length
  | closed _ _ _ _ length => exact length
  | quiet _ length => exact length

theorem cell_push_old (inside : k < m.results.length) (row : List Value) : (m.push row).cell k j = m.cell k j := by
  have kept : (m.results ++ [row.map some])[k]? = m.results[k]? := List.getElem?_append_left inside
  simp only [cell,push,kept]

/-- A command leaves the results alone that it does not name. -/
theorem cell_step {command : Command} (ran : m.step chain command = .ok after)
    (others : ∀ argument ∈ command.arguments, argument.Avoids k j) (inside : k < m.results.length) :
    after.cell k j = m.cell k j := by
  cases command with
  | moveCall c =>
    obtain ⟨middle,row,invoked,rfl⟩ := step_moveCall.mp ran
    have length := (stepped_length (step_stepped ran)).symm.trans (length_push middle row)
    exact (cell_push_old (by omega) row).trans (cell_invoke invoked others)
  | splitCoins coin amounts =>
    simp only [step,bind_ok,Prod.exists,pure_ok] at ran
    obtain ⟨middle,row,split,rfl⟩ := ran
    have length := (splitCoins_quiet split).1.length
    exact (cell_push_old (by omega) row).trans (cell_splitCoins split (others coin List.mem_cons_self))
  | mergeCoins target sources =>
    simp only [step,bind_ok,pure_ok] at ran
    obtain ⟨middle,merged,rfl⟩ := ran
    have length := (mergeCoins_quiet merged).length
    exact (cell_push_old (by omega) []).trans (cell_mergeCoins merged others)
  | transferObjects objects recipient =>
    simp only [step] at ran
    split at ran
    next owner =>
      simp only [bind_ok,pure_ok] at ran
      obtain ⟨middle,moved,rfl⟩ := ran
      have length := (transferObjects_quiet moved).length
      exact (cell_push_old (by omega) []).trans
        (cell_transferObjects moved fun object member => others object (List.mem_cons_of_mem _ member))
    next => cases ran

theorem cell_run {commands : List Command} (ran : transact (Machine.step chain) m commands = .ok after)
    (others : ∀ command ∈ commands, ∀ argument ∈ command.arguments, argument.Avoids k j) (inside : k < m.results.length) :
    after.cell k j = m.cell k j := by
  induction commands generalizing m with
  | nil =>
    obtain rfl := Except.ok.inj ran
    rfl
  | cons command rest ih =>
    rw [transact_cons,bind_ok] at ran
    obtain ⟨middle,first,later⟩ := ran
    obtain ⟨here,onward⟩ := List.forall_mem_cons.mp others
    have length := stepped_length (step_stepped first)
    exact (ih later onward (by omega)).trans (cell_step first here inside)

theorem settled_run {commands : List Command} (ran : transact (Machine.step chain) m commands = .ok after)
    (quiet : ∀ command ∈ commands, chain.settles command = none) : after.settled = m.settled := by
  induction commands generalizing m with
  | nil =>
    obtain rfl := Except.ok.inj ran
    rfl
  | cons command rest ih =>
    rw [transact_cons,bind_ok] at ran
    obtain ⟨middle,first,later⟩ := ran
    obtain ⟨here,onward⟩ := List.forall_mem_cons.mp quiet
    refine (ih later onward).trans ?_
    cases step_stepped first with
    | began _ _ _ _ settled => exact settled
    | closed settles => cases settles.symm.trans here
    | quiet _ _ _ settled => exact settled

end Machine

end SuiArbitrage.Move
