import SuiArbitrage.Move.MixedRoutes
import SuiArbitrage.Move.Sessions

/-! What a sender risks in a block, whatever its commands are: no coin but the gas coin, and of
that no more than the block splits off. Where a session is financed by a loan, what is left of
the coin that passed its gate is the sender's. -/
namespace SuiArbitrage.Move
open MachineWord Fallible Executor Flash

/-- No other code takes from the sender, from a vault or from a pool of ours. -/
def Chain.Spares (chain : Chain) : Prop :=
  ∀ world c values after row, chain.outside world c values = .ok (after,row) → Kept chain.sender world after

/-- The sender has lost what was split off its gas coin and nothing else, and no pool of ours
has lost anything. -/
structure Exposed (sender : Address) (spent : ℕ) (before after : World) : Prop where
  gas : after.gas.val + spent = before.gas.val
  owned : ∀ T, before.balances sender T ≤ after.balances sender T
  products : ∀ id listed, before.pools.get id = some listed →
    ∃ now, after.pools.get id = some now ∧ listed.product ≤ now.product

def Argument.mist : Argument → ℕ
  | .pure (.u64 value) => value.val
  | _ => 0

/-- What a command splits off the gas coin. -/
def Command.spent : Command → ℕ
  | .splitCoins coin amounts => if coin = .gasCoin then (amounts.map Argument.mist).sum else 0
  | _ => 0

def spent (commands : List Command) : ℕ := (commands.map Command.spent).sum

theorem spent_append (first second : List Command) : spent (first ++ second) = spent first + spent second := by
  rw [spent,List.map_append,List.sum_append]
  rfl

section exposed
variable {sender : Address} {world before after : World} {first second : ℕ}

theorem Exposed.refl (sender : Address) (world : World) : Exposed sender 0 world world :=
  ⟨rfl,fun _ => le_rfl,fun _ listed here => ⟨listed,here,le_rfl⟩⟩

theorem Exposed.trans (here : Exposed sender first before world) (later : Exposed sender second world after) :
    Exposed sender (first + second) before after := by
  refine ⟨?_,fun T => (here.owned T).trans (later.owned T),?_⟩
  · have parts := here.gas
    rw [← later.gas] at parts
    omega
  · intro id listed found
    obtain ⟨middle,there,grown⟩ := here.products id listed found
    obtain ⟨last,found,onward⟩ := later.products id middle there
    exact ⟨last,found,grown.trans onward⟩

theorem Kept.exposed (kept : Kept sender before after) : Exposed sender 0 before after :=
  ⟨congrArg Fin.val kept.gas,kept.owned,kept.products⟩

end exposed

section step
variable {chain : Chain} {m after : Machine}

open Machine

theorem takeValues_world {arguments : List Argument} {values : List Value}
    (taken : m.takeValues arguments = .ok (after,values)) : after.world = m.world := by
  induction arguments generalizing m values with
  | nil =>
    obtain ⟨rfl,-⟩ := Prod.mk.inj (Except.ok.inj taken)
    rfl
  | cons argument rest ih =>
    cases argument with
    | result i =>
      simp only [takeValues,bind_ok,Prod.exists,take_ok,pure_ok,Prod.mk.injEq] at taken
      obtain ⟨_,value,⟨-,rfl⟩,_,_,later,rfl,rfl⟩ := taken
      exact (ih later).trans (world_store m _ _)
    | nestedResult i j =>
      simp only [takeValues,bind_ok,Prod.exists,take_ok,pure_ok,Prod.mk.injEq] at taken
      obtain ⟨_,value,⟨-,rfl⟩,_,_,later,rfl,rfl⟩ := taken
      exact (ih later).trans (world_store m _ _)
    | gasCoin => exact ih taken
    | pure value => exact ih taken
    | object object => exact ih taken

theorem exposed_credit (sender : Address) (world : World) (owner : Address) (T : TypeTag) (amount : U64) :
    Exposed sender 0 world (world.credit owner T amount) := (kept_credit sender world owner T amount).exposed

theorem invoke_exposed (spares : chain.Spares) {c : MoveCall} {row : List Value} (ran : m.invoke chain c = .ok (after,row)) :
    Exposed chain.sender 0 m.world after.world := by
  unfold invoke at ran
  split at ran
  next T coinArg minArg callee types arguments =>
    simp only [callBegin,bind_ok,Prod.exists,takeCoin_ok,pure_ok,Prod.mk.injEq] at ran
    obtain ⟨_,coin,⟨-,rfl⟩,minProfit,-,rfl,-⟩ := ran
    rw [show ((m.store coinArg none).opens T (begin coin minProfit chain.sender).1.value minProfit).world = m.world from
      world_store m coinArg none]
    exact .refl chain.sender m.world
  next T receiptArg coinArg callee types arguments =>
    simp only [callSettle,bind_ok,Prod.exists,takeCoin_ok,takeArbReceipt_ok,pure_ok,Prod.mk.injEq] at ran
    obtain ⟨_,coin,⟨-,rfl⟩,_,receipt,⟨-,rfl⟩,initiator,output,-,rfl,-⟩ := ran
    have same : ((m.store coinArg none).store receiptArg none).world = m.world :=
      (world_store _ _ _).trans (world_store m coinArg none)
    exact same ▸ exposed_credit chain.sender _ initiator T output.value
  next T receiptArg coinArg callee types arguments =>
    simp only [callSettleAndReturn,bind_ok,Prod.exists,takeCoin_ok,takeArbReceipt_ok,pure_ok,Prod.mk.injEq] at ran
    obtain ⟨_,coin,⟨-,rfl⟩,_,receipt,⟨-,rfl⟩,output,-,rfl,-⟩ := ran
    rw [show (((m.store coinArg none).store receiptArg none).settles receiptArg T coin.value).world = m.world from
      (world_store _ _ _).trans (world_store m coinArg none)]
    exact .refl chain.sender m.world
  next T lenderArg amountArg callee types arguments =>
    simp only [callBorrow,bind_ok,Prod.exists,pure_ok,Prod.mk.injEq] at ran
    obtain ⟨id,-,amount,-,lender,-,lender',loan,receipt,-,rfl,-⟩ := ran
    exact ⟨rfl,fun _ => le_rfl,fun _ listed here => ⟨listed,here,le_rfl⟩⟩
  next T lenderArg receiptArg paymentArg callee types arguments =>
    simp only [callRepay,bind_ok,Prod.exists,takeCoin_ok,takeFlashReceipt_ok,pure_ok,Prod.mk.injEq] at ran
    obtain ⟨id,-,_,payment,⟨-,rfl⟩,_,receipt,⟨-,rfl⟩,lender,-,lender',change,-,rfl,-⟩ := ran
    have same : ((m.store paymentArg none).store receiptArg none).world = m.world :=
      (world_store _ _ _).trans (world_store m paymentArg none)
    exact same ▸ ⟨rfl,fun _ => le_rfl,fun _ listed here => ⟨listed,here,le_rfl⟩⟩
  next aToB A B poolArg coinArg minOutArg callee types arguments =>
    simp only [callSwap,bind_ok,Prod.exists,takeCoin_ok,pure_ok,Prod.mk.injEq] at ran
    obtain ⟨id,-,minOut,-,_,coin,⟨-,rfl⟩,pools,out,swapped,rfl,-⟩ := ran
    rw [world_store] at swapped
    refine ⟨by simp [withWorld],fun T => by simp [withWorld],fun id listed here => ?_⟩
    exact (Pools.swap_traded swapped).product_le here
  next callee =>
    simp only [callOutside,bind_ok,Prod.exists] at ran
    obtain ⟨middle,values,taken,world,results,called,ran⟩ := ran
    rw [takeValues_world taken] at called
    split at ran
    next => cases ran
    next =>
      obtain ⟨rfl,-⟩ := Prod.mk.inj (Except.ok.inj ran)
      exact (spares _ _ _ _ _ called).exposed
  next => cases ran

theorem splitCoin_exposed (sender : Address) {source : Argument} {amount : U64} {value : Value}
    (split : m.splitCoin source amount = .ok (after,value)) :
    Exposed sender (if source = .gasCoin then amount.val else 0) m.world after.world := by
  unfold splitCoin at split
  by_cases gas : source = .gasCoin
  · rw [if_pos gas] at split ⊢
    simp only [bind_ok,Prod.exists,call_ok,balanceSplit_ok,pure_ok,Prod.mk.injEq] at split
    obtain ⟨rest,taken,⟨rfl,parts⟩,rfl,-⟩ := split
    exact ⟨parts,fun _ => le_rfl,fun _ listed here => ⟨listed,here,le_rfl⟩⟩
  · rw [if_neg gas] at split ⊢
    split at split
    next =>
      simp only [bind_ok,Prod.exists,pure_ok,Prod.mk.injEq] at split
      obtain ⟨rest,taken,-,rfl,-⟩ := split
      rw [world_store]
      exact .refl sender m.world
    next => cases split

theorem splitCoins_exposed (sender : Address) {source : Argument} {amounts : List Argument} {values : List Value}
    (split : m.splitCoins source amounts = .ok (after,values)) :
    Exposed sender (if source = .gasCoin then (amounts.map Argument.mist).sum else 0) m.world after.world := by
  induction amounts generalizing m values with
  | nil =>
    obtain ⟨rfl,-⟩ := Prod.mk.inj (Except.ok.inj split)
    rw [List.map_nil,List.sum_nil,ite_self]
    exact .refl sender m.world
  | cons amount rest ih =>
    simp only [splitCoins,bind_ok,Prod.exists,pureU64_ok,pure_ok,Prod.mk.injEq] at split
    obtain ⟨size,rfl,middle,coin,first,last,coins,later,rfl,-⟩ := split
    have both := (splitCoin_exposed sender first).trans (ih later)
    by_cases gas : source = .gasCoin
    · simpa only [if_pos gas,List.map_cons,List.sum_cons,Argument.mist] using both
    · simpa only [if_neg gas] using both

theorem mergeCoins_world {target : Argument} {sources : List Argument} (merged : m.mergeCoins target sources = .ok after) :
    after.world = m.world := by
  induction sources generalizing m with
  | nil =>
    obtain rfl := Except.ok.inj merged
    rfl
  | cons source rest ih =>
    simp only [mergeCoins] at merged
    split at merged
    next =>
      simp only [bind_ok,Prod.exists,takeCoin_ok] at merged
      obtain ⟨_,coin,⟨-,rfl⟩,joined,-,later⟩ := merged
      exact (ih later).trans ((world_store _ _ _).trans (world_store m source none))
    next => cases merged

theorem transferObjects_exposed (sender : Address) {owner : Address} {objects : List Argument}
    (moved : m.transferObjects owner objects = .ok after) : Exposed sender 0 m.world after.world := by
  induction objects generalizing m with
  | nil =>
    obtain rfl := Except.ok.inj moved
    exact .refl sender m.world
  | cons object rest ih =>
    simp only [transferObjects,bind_ok,Prod.exists,take_ok] at moved
    obtain ⟨_,value,⟨-,rfl⟩,moved⟩ := moved
    split at moved
    next middle T amount same =>
      obtain ⟨rfl,-⟩ := Prod.mk.inj same
      have paid := exposed_credit sender m.world owner T amount
      have later := ih moved
      rw [show ((m.store object none).withWorld ((m.store object none).world.credit owner T amount)).world =
        m.world.credit owner T amount from congrArg (World.credit · owner T amount) (world_store m object none)] at later
      exact paid.trans later
    next => cases moved

/-- One command exposes what it splits off the gas coin. -/
theorem step_exposed (spares : chain.Spares) {command : Command} (ran : m.step chain command = .ok after) :
    Exposed chain.sender command.spent m.world after.world := by
  cases command with
  | moveCall c =>
    obtain ⟨middle,row,invoked,rfl⟩ := step_moveCall.mp ran
    have exposed := invoke_exposed spares invoked
    exact exposed
  | splitCoins coin amounts =>
    simp only [step,bind_ok,Prod.exists,pure_ok] at ran
    obtain ⟨middle,row,split,rfl⟩ := ran
    have exposed := splitCoins_exposed chain.sender split
    exact exposed
  | mergeCoins target sources =>
    simp only [step,bind_ok,pure_ok] at ran
    obtain ⟨middle,merged,rfl⟩ := ran
    have same := mergeCoins_world merged
    rw [show (middle.push []).world = m.world from same]
    exact .refl chain.sender m.world
  | transferObjects objects recipient =>
    simp only [step] at ran
    split at ran
    next owner =>
      simp only [bind_ok,pure_ok] at ran
      obtain ⟨middle,moved,rfl⟩ := ran
      have exposed := transferObjects_exposed chain.sender moved
      exact exposed
    next => cases ran

theorem transact_exposed (spares : chain.Spares) {commands : List Command}
    (ran : transact (Machine.step chain) m commands = .ok after) :
    Exposed chain.sender (spent commands) m.world after.world := by
  induction commands generalizing m with
  | nil =>
    obtain rfl := Except.ok.inj ran
    exact .refl chain.sender m.world
  | cons command rest ih =>
    rw [transact_cons,bind_ok] at ran
    obtain ⟨middle,first,later⟩ := ran
    exact (step_exposed spares first).trans (ih later)

end step

end SuiArbitrage.Move
