import SuiArbitrage.Move.Exposure
import SuiArbitrage.Move.PoolRuns

/-! What any block does to the shared objects, whatever it calls. Modules are closed: to the
vaults a block is a session of loans, and to the pools it is a series of swaps and top-ups. -/
namespace SuiArbitrage.Move
open MachineWord Fallible Executor Flash

def Value.loan : Value → Option FlashReceipt
  | .flashReceipt receipt => some receipt
  | _ => none

def loans (values : List Value) : List FlashReceipt := values.filterMap Value.loan

/-- What a block still owes. -/
def Machine.owed (m : Machine) : List FlashReceipt := m.results.flatten.filterMap fun cell => cell.bind Value.loan

section sessions

def Owing (vaults : Vaults) (receipts : List FlashReceipt) (session : Session) : Prop :=
  session.vaults = vaults ∧ session.outstanding.Perm receipts

/-- From any session in the one state there are calls of `flash` to the other. -/
def Lends (vaults : Vaults) (receipts : List FlashReceipt) (vaults' : Vaults) (receipts' : List FlashReceipt) : Prop :=
  ∀ session, Owing vaults receipts session →
    ∃ calls final, transact vaultStep session calls = .ok final ∧ Owing vaults' receipts' final

variable {vaults middle last : Vaults} {receipts here there : List FlashReceipt}

theorem lends_of_perm (same : receipts.Perm here) : Lends vaults receipts vaults here := by
  intro session owing
  exact ⟨[],session,rfl,owing.1,owing.2.trans same⟩

theorem Lends.trans (first : Lends vaults receipts middle here) (second : Lends middle here last there) :
    Lends vaults receipts last there := by
  intro session owing
  obtain ⟨calls,between,ran,owing⟩ := first session owing
  obtain ⟨later,final,onward,owing⟩ := second between owing
  refine ⟨calls ++ later,final,?_,owing⟩
  rw [transact_append,ran,ok_bind,onward]

theorem lends_step (action : VaultCall)
    (moves : ∀ session, Owing vaults receipts session →
      ∃ final, vaultStep session action = .ok final ∧ Owing middle here final) :
    Lends vaults receipts middle here := by
  intro session owing
  obtain ⟨final,ran,owing⟩ := moves session owing
  exact ⟨[action],final,by rw [transact_cons,ran,ok_bind,transact_nil],owing⟩

theorem lends_borrow {T : TypeTag} {id : ObjectId} {amount : U64} {lender lender' : FlashLender T} {loan : Coin T}
    {receipt : FlashReceipt} (located : vaults.locate T id = .ok lender)
    (lent : borrow lender amount = .ok (lender',loan,receipt)) :
    Lends vaults receipts (vaults.put ⟨T,lender'⟩) (receipts ++ [receipt]) := by
  apply lends_step (.borrow T id amount)
  intro session owing
  obtain ⟨rfl,permuted⟩ := owing
  have called : call (borrow lender amount) = .ok (lender',loan,receipt) := call_ok.mpr lent
  refine ⟨_,by rw [vaultStep,located,ok_bind,called,ok_bind]; rfl,rfl,?_⟩
  exact (permuted.cons receipt).trans (List.perm_append_singleton receipt receipts).symm

theorem lends_repay {T : TypeTag} {id : ObjectId} {payment change : Coin T} {lender lender' : FlashLender T}
    {receipt : FlashReceipt} (owed : receipts.Perm (receipt :: here)) (located : vaults.locate T id = .ok lender)
    (paid : repay lender receipt payment = .ok (lender',change)) :
    Lends vaults receipts (vaults.put ⟨T,lender'⟩) here := by
  apply lends_step (.repay T id receipt payment)
  intro session owing
  obtain ⟨rfl,permuted⟩ := owing
  have permuted := permuted.trans owed
  have member : receipt ∈ session.outstanding := permuted.symm.subset List.mem_cons_self
  have called : call (repay lender receipt payment) = .ok (lender',change) := call_ok.mpr paid
  refine ⟨_,by rw [vaultStep,if_neg (not_not.mpr member)]; simp only [located,ok_bind,called,pure_eq_ok]; rfl,rfl,?_⟩
  have erased := permuted.erase receipt
  rwa [List.erase_cons_head] at erased

end sessions

section pools

/-- What the functions of `amm_v2` do to a shared pool. -/
inductive PoolAccess
  | swap (A B : TypeTag) (id : ObjectId) (aToB : Bool) (amountIn minOut : U64)
  | fund (A B : TypeTag) (id : ObjectId) (coinA : Coin A) (coinB : Coin B)

def poolsStep (pools : Pools) : PoolAccess → Except Failure Pools
  | .swap A B id aToB amountIn minOut => return (← pools.swap A B id aToB amountIn minOut).1
  | .fund A B id coinA coinB => do
    let pool ← pools.locate A B id
    let pool ← call (AmmV2.fund pool coinA coinB)
    return pools.put ⟨A,B,pool⟩

theorem poolsStep_product {before after : Pools} {access : PoolAccess} (moved : poolsStep before access = .ok after)
    {id : ObjectId} {listed : Listed} (here : before.get id = some listed) :
    ∃ now, after.get id = some now ∧ listed.product ≤ now.product := by
  cases access with
  | swap A B other aToB amountIn minOut =>
    simp only [poolsStep,bind_ok,Prod.exists,pure_ok] at moved
    obtain ⟨pools,out,swapped,rfl⟩ := moved
    exact (Pools.swap_traded swapped).product_le here
  | fund A B other coinA coinB =>
    simp only [poolsStep,bind_ok,Pools.locate_ok,call_ok,AmmV2.fund_ok,pure_ok] at moved
    obtain ⟨pool,there,new,⟨⟨sameId,-⟩,joinedA,joinedB⟩,rfl⟩ := moved
    by_cases same : other = id
    · subst same
      obtain rfl := Option.some.inj (there.symm.trans here)
      have key : Listed.id ⟨A,B,new⟩ = other := sameId.trans (Pools.located_id there)
      refine ⟨⟨A,B,new⟩,key ▸ KeyedStore.get_put_self (key ▸ there),?_⟩
      change pool.product ≤ new.product
      rw [AmmV2.Pool.product,AmmV2.Pool.product,joinedA,joinedB]
      exact Nat.mul_le_mul (Nat.le_add_right _ _) (Nat.le_add_right _ _)
    · have key : Listed.id ⟨A,B,new⟩ ≠ id := fun equal => same ((Pools.located_id there).symm.trans (sameId.symm.trans equal))
      exact ⟨listed,(KeyedStore.get_put_other before key).trans here,le_rfl⟩

/-- From the one state of the pools there are calls of `amm_v2` to the other. -/
def Trades (before after : Pools) : Prop := ∃ calls, transact poolsStep before calls = .ok after

theorem Trades.refl (pools : Pools) : Trades pools pools := ⟨[],rfl⟩

theorem Trades.trans {first second third : Pools} (one : Trades first second) (two : Trades second third) : Trades first third := by
  obtain ⟨calls,ran⟩ := one
  obtain ⟨later,onward⟩ := two
  exact ⟨calls ++ later,by rw [transact_append,ran,ok_bind,onward]⟩

theorem Trades.product {before after : Pools} (trades : Trades before after) {id : ObjectId} {listed : Listed}
    (here : before.get id = some listed) : ∃ now, after.get id = some now ∧ listed.product ≤ now.product := by
  obtain ⟨calls,ran⟩ := trades
  refine transact_preserves poolsStep (fun pools => ∃ now, pools.get id = some now ∧ listed.product ≤ now.product)
    (fun pools access next held moved => ?_) ⟨listed,here,le_rfl⟩ ran
  obtain ⟨now,found,grown⟩ := held
  obtain ⟨later,found,onward⟩ := poolsStep_product moved found
  exact ⟨later,found,grown.trans onward⟩

end pools

/-- The modules are closed to other code: it changes vaults, receipts and pools by calling
their functions, and no coin of an address that did not send the block is passed to it. -/
structure Chain.Encapsulated (chain : Chain) : Prop where
  vaults : ∀ world c values after row, chain.outside world c values = .ok (after,row) →
    ∀ others, Lends world.vaults (loans values ++ others) after.vaults (loans row ++ others)
  pools : ∀ world c values after row, chain.outside world c values = .ok (after,row) → Trades world.pools after.pools
  owned : ∀ world c values after row, chain.outside world c values = .ok (after,row) → ∀ other, other ≠ chain.sender →
    ∀ T, world.balances other T ≤ after.balances other T

/-- What a part of a block of this sender has done. -/
structure Respects (sender : Address) (before after : Machine) : Prop where
  vaults : Lends before.world.vaults before.owed after.world.vaults after.owed
  pools : Trades before.world.pools after.world.pools
  owned : ∀ other, other ≠ sender → ∀ T, before.world.balances other T ≤ after.world.balances other T

section owed
variable {m after : Machine}

open Machine

/-- A cell of a table apart from the others. -/
theorem filterMap_cell {α β : Type} (f : α → Option β) {rows : List (List α)} {i j : ℕ} {row : List α} {old : α}
    (outer : rows[i]? = some row) (inner : row[j]? = some old) :
    ∃ front back, rows.flatten.filterMap f = front ++ (f old).toList ++ back ∧
      ∀ new, (rows.modify i (·.set j new)).flatten.filterMap f = front ++ (f new).toList ++ back := by
  obtain ⟨i_lt,rfl⟩ := List.getElem?_eq_some_iff.mp outer
  obtain ⟨j_lt,rfl⟩ := List.getElem?_eq_some_iff.mp inner
  have single (x : α) : [x].filterMap f = (f x).toList := by
    cases found : f x with
    | none => rw [List.filterMap_cons_none found]; rfl
    | some y => rw [List.filterMap_cons_some found]; rfl
  have parts (x : α) : ((rows.take i ++ (rows[i].take j ++ x :: rows[i].drop (j + 1)) :: rows.drop (i + 1)).flatten.filterMap f) =
      ((rows.take i).flatten.filterMap f ++ (rows[i].take j).filterMap f) ++ (f x).toList ++
        ((rows[i].drop (j + 1)).filterMap f ++ (rows.drop (i + 1)).flatten.filterMap f) := by
    rw [← List.singleton_append (x := x)]
    simp only [List.flatten_append,List.flatten_cons,List.filterMap_append,single,List.append_assoc]
  refine ⟨(rows.take i).flatten.filterMap f ++ (rows[i].take j).filterMap f,
    (rows[i].drop (j + 1)).filterMap f ++ (rows.drop (i + 1)).flatten.filterMap f,?_,fun new => ?_⟩
  · rw [← parts,List.getElem_cons_drop,List.take_append_drop,List.getElem_cons_drop,List.take_append_drop]
  · rw [← parts,List.modify_eq_take_cons_drop i_lt,List.set_eq_take_append_cons_drop,if_pos j_lt]

theorem owed_cell {argument : Argument} {i j : ℕ} {old : Option Value} (place : m.slot argument = some (i,j))
    (there : m.results[i]?.bind (·[j]?) = some old) :
    ∃ front back, m.owed = front ++ (old.bind Value.loan).toList ++ back ∧
      ∀ new, (m.store argument new).owed = front ++ (new.bind Value.loan).toList ++ back := by
  obtain ⟨row,outer,inner⟩ := Option.bind_eq_some_iff.mp there
  obtain ⟨front,back,before,stored⟩ := filterMap_cell (fun cell : Option Value => cell.bind Value.loan) outer inner
  refine ⟨front,back,before,fun new => ?_⟩
  rw [store,place]
  exact stored new

theorem peek_place {argument : Argument} {value : Value} (here : m.peek argument = some value) :
    ∃ i j, m.slot argument = some (i,j) ∧ m.results[i]?.bind (·[j]?) = some (some value) := by
  obtain ⟨⟨i,j⟩,place,held⟩ := Option.bind_eq_some_iff.mp here
  exact ⟨i,j,place,Option.join_eq_some_iff.mp held⟩

theorem owed_take {argument : Argument} {value : Value} (here : m.peek argument = some value) :
    m.owed.Perm (value.loan.toList ++ (m.store argument none).owed) := by
  obtain ⟨i,j,place,there⟩ := peek_place here
  obtain ⟨front,back,before,stored⟩ := owed_cell place there
  rw [before,stored none,List.append_assoc,List.append_assoc]
  exact List.perm_append_comm_assoc _ _ _

/-- What a cell holds after a write, here or elsewhere. -/
theorem place_store {argument : Argument} {i j : ℕ} {old : Option Value} (there : m.results[i]?.bind (·[j]?) = some old)
    (value : Option Value) :
    ∃ now, (m.store argument value).results[i]?.bind (·[j]?) = some now ∧ (now = old ∨ now = value) := by
  unfold store
  split
  next k l place =>
    obtain ⟨row,outer,inner⟩ := Option.bind_eq_some_iff.mp there
    have bound := (List.getElem?_eq_some_iff.mp inner).1
    by_cases row_same : k = i
    · subst row_same
      by_cases cell_same : l = j
      · subst cell_same
        exact ⟨value,by simp [setCell,outer,bound],.inr rfl⟩
      · exact ⟨old,by simp [setCell,outer,cell_same,inner],.inl rfl⟩
    · exact ⟨old,by simp [setCell,row_same,outer,inner],.inl rfl⟩
  next => exact ⟨old,there,.inl rfl⟩

theorem owed_push (m : Machine) (row : List Value) : (m.push row).owed = m.owed ++ loans row := by
  have cells : (row.map some).filterMap (fun cell => cell.bind Value.loan) = row.filterMap Value.loan := List.filterMap_map
  rw [owed,push,List.flatten_append,List.flatten_singleton,List.filterMap_append,cells]
  rfl

theorem owed_takeValues {arguments : List Argument} {values : List Value} (taken : m.takeValues arguments = .ok (after,values)) :
    m.owed.Perm (loans values ++ after.owed) := by
  have first {argument : Argument} {value : Value} {values : List Value} {m : Machine}
      (here : m.peek argument = some value) (rest : (m.store argument none).owed.Perm (loans values ++ after.owed)) :
      m.owed.Perm (loans (value :: values) ++ after.owed) := by
    have single : loans (value :: values) = value.loan.toList ++ loans values := by
      unfold loans
      cases found : value.loan with
      | none => exact List.filterMap_cons_none found
      | some receipt => exact List.filterMap_cons_some found
    rw [single,List.append_assoc]
    exact (owed_take here).trans (rest.append_left _)
  induction arguments generalizing m values with
  | nil =>
    obtain ⟨rfl,rfl⟩ := Prod.mk.inj (Except.ok.inj taken)
    exact .refl _
  | cons argument rest ih =>
    cases argument with
    | result i =>
      simp only [takeValues,bind_ok,Prod.exists,take_ok,pure_ok,Prod.mk.injEq] at taken
      obtain ⟨_,value,⟨here,rfl⟩,_,values,later,rfl,rfl⟩ := taken
      exact first here (ih later)
    | nestedResult i j =>
      simp only [takeValues,bind_ok,Prod.exists,take_ok,pure_ok,Prod.mk.injEq] at taken
      obtain ⟨_,value,⟨here,rfl⟩,_,values,later,rfl,rfl⟩ := taken
      exact first here (ih later)
    | gasCoin => exact ih taken
    | pure value => exact ih taken
    | object object => exact ih taken

end owed

section respects
variable {sender : Address} {m middle after : Machine}

theorem Respects.trans (first : Respects sender m middle) (second : Respects sender middle after) : Respects sender m after :=
  ⟨first.vaults.trans second.vaults,first.pools.trans second.pools,
    fun other apart T => (first.owned other apart T).trans (second.owned other apart T)⟩

/-- A part of a block that moves coins only. -/
theorem respects_of_coins (vaults : after.world.vaults = m.world.vaults) (pools : after.world.pools = m.world.pools)
    (owed : m.owed.Perm after.owed)
    (owned : ∀ other, other ≠ sender → ∀ T, m.world.balances other T ≤ after.world.balances other T) :
    Respects sender m after :=
  ⟨vaults ▸ lends_of_perm owed,pools ▸ .refl _,owned⟩

theorem Respects.refl (sender : Address) (m : Machine) : Respects sender m m :=
  respects_of_coins rfl rfl (.refl _) fun _ _ _ => le_rfl

theorem Respects.push (respects : Respects sender m after) {row : List Value} (plain : loans row = []) :
    Respects sender m (after.push row) := by
  refine ⟨?_,respects.pools,respects.owned⟩
  rw [owed_push,plain,List.append_nil]
  exact respects.vaults

end respects

section step
variable {chain : Chain} {m after : Machine}

open Machine

theorem credited (world : World) (owner : Address) (T : TypeTag) (amount : U64) (other : Address) (U : TypeTag) :
    world.balances other U ≤ (world.credit owner T amount).balances other U := Nat.le_add_right _ _

theorem invoke_respects (encapsulated : chain.Encapsulated) {c : MoveCall} {row : List Value}
    (ran : m.invoke chain c = .ok (after,row)) : Respects chain.sender m (after.push row) := by
  unfold invoke at ran
  split at ran
  next T coinArg minArg callee types arguments =>
    simp only [callBegin,bind_ok,Prod.exists,takeCoin_ok,pure_ok,Prod.mk.injEq] at ran
    obtain ⟨_,coin,⟨here,rfl⟩,minProfit,-,rfl,rfl⟩ := ran
    have same : (m.store coinArg none).world = m.world := world_store m coinArg none
    have vaults := congrArg World.vaults same
    have pools := congrArg World.pools same
    refine Respects.push ?_ rfl
    refine respects_of_coins vaults pools (owed_take here) fun other _ T => ?_
    exact (congrArg (·.balances other T) same).ge
  next T receiptArg coinArg callee types arguments =>
    simp only [callSettle,bind_ok,Prod.exists,takeCoin_ok,takeArbReceipt_ok,pure_ok,Prod.mk.injEq] at ran
    obtain ⟨_,coin,⟨here,rfl⟩,_,receipt,⟨there,rfl⟩,initiator,output,-,rfl,rfl⟩ := ran
    have same : ((m.store coinArg none).store receiptArg none).world = m.world :=
      (world_store _ _ _).trans (world_store m coinArg none)
    have vaults := congrArg World.vaults same
    have pools := congrArg World.pools same
    refine Respects.push ?_ rfl
    refine respects_of_coins vaults pools ((owed_take here).trans (owed_take there)) fun other _ U => ?_
    exact (congrArg (·.balances other U) same).ge.trans (credited _ initiator T output.value other U)
  next T receiptArg coinArg callee types arguments =>
    simp only [callSettleAndReturn,bind_ok,Prod.exists,takeCoin_ok,takeArbReceipt_ok,pure_ok,Prod.mk.injEq] at ran
    obtain ⟨_,coin,⟨here,rfl⟩,_,receipt,⟨there,rfl⟩,output,-,rfl,rfl⟩ := ran
    have same : ((m.store coinArg none).store receiptArg none).world = m.world :=
      (world_store _ _ _).trans (world_store m coinArg none)
    have vaults := congrArg World.vaults same
    have pools := congrArg World.pools same
    refine Respects.push ?_ rfl
    refine respects_of_coins vaults pools ((owed_take here).trans (owed_take there)) fun other _ U => ?_
    exact (congrArg (·.balances other U) same).ge
  next T lenderArg amountArg callee types arguments =>
    simp only [callBorrow,bind_ok,Prod.exists,call_ok,pure_ok,Prod.mk.injEq] at ran
    obtain ⟨id,-,amount,-,lender,located,lender',loan,receipt,lent,rfl,rfl⟩ := ran
    refine ⟨?_,.refl _,fun _ _ _ => le_rfl⟩
    rw [owed_push]
    exact lends_borrow located lent
  next T lenderArg receiptArg paymentArg callee types arguments =>
    simp only [callRepay,bind_ok,Prod.exists,takeCoin_ok,takeFlashReceipt_ok,call_ok,pure_ok,Prod.mk.injEq] at ran
    obtain ⟨id,-,_,payment,⟨here,rfl⟩,_,receipt,⟨there,rfl⟩,lender,located,lender',change,paid,rfl,rfl⟩ := ran
    have same : ((m.store paymentArg none).store receiptArg none).world = m.world :=
      (world_store _ _ _).trans (world_store m paymentArg none)
    have taken : Lends m.world.vaults m.owed ((m.store paymentArg none).store receiptArg none).world.vaults
        (receipt :: ((m.store paymentArg none).store receiptArg none).owed) := by
      rw [same]
      exact lends_of_perm ((owed_take here).trans (owed_take there))
    refine Respects.push ⟨taken.trans (lends_repay (.refl _) located paid),?_,fun other _ U => ?_⟩ rfl
    · exact congrArg World.pools same ▸ .refl _
    · exact (congrArg (·.balances other U) same).ge
  next aToB A B poolArg coinArg minOutArg callee types arguments =>
    simp only [callSwap,bind_ok,Prod.exists,takeCoin_ok,pure_ok,Prod.mk.injEq] at ran
    obtain ⟨id,-,minOut,-,_,coin,⟨here,rfl⟩,pools,out,swapped,rfl,rfl⟩ := ran
    have same : (m.store coinArg none).world = m.world := world_store m coinArg none
    rw [same] at swapped
    refine Respects.push ⟨?_,⟨[.swap A B id aToB coin.value minOut],?_⟩,fun other _ T => ?_⟩ rfl
    · exact congrArg World.vaults same ▸ lends_of_perm (owed_take here)
    · simp only [transact_cons,poolsStep,swapped,ok_bind,pure_eq_ok,transact_nil]
      rfl
    · exact (congrArg (·.balances other T) same).ge
  next callee =>
    simp only [callOutside,bind_ok,Prod.exists] at ran
    obtain ⟨middle,values,taken,world,results,called,ran⟩ := ran
    have same := takeValues_world taken
    rw [same] at called
    split at ran
    next => cases ran
    next =>
      obtain ⟨rfl,rfl⟩ := Prod.mk.inj (Except.ok.inj ran)
      refine ⟨?_,encapsulated.pools _ _ _ _ _ called,encapsulated.owned _ _ _ _ _ called⟩
      have reached := encapsulated.vaults _ _ _ _ _ called middle.owed
      rw [owed_push]
      exact ((lends_of_perm (owed_takeValues taken)).trans reached).trans (lends_of_perm List.perm_append_comm)
  next => cases ran

/-- A coin owes nothing in the place of another, or in an empty one. -/
theorem owed_exchange {argument : Argument} {i j : ℕ} {old : Option Value} (place : m.slot argument = some (i,j))
    (there : m.results[i]?.bind (·[j]?) = some old) (plain : old.bind Value.loan = none) (T : TypeTag) (amount : U64) :
    m.owed.Perm (m.store argument (some (.coin T amount))).owed := by
  obtain ⟨front,back,before,stored⟩ := owed_cell place there
  rw [before,stored,plain]
  exact .refl _

theorem splitCoin_respects (sender : Address) {source : Argument} {amount : U64} {value : Value}
    (split : m.splitCoin source amount = .ok (after,value)) : Respects sender m after ∧ value.loan = none := by
  unfold splitCoin at split
  split at split
  next =>
    simp only [bind_ok,Prod.exists,pure_ok,Prod.mk.injEq] at split
    obtain ⟨rest,taken,-,rfl,rfl⟩ := split
    exact ⟨respects_of_coins rfl rfl (.refl _) fun _ _ _ => le_rfl,rfl⟩
  next =>
    split at split
    next T held here =>
      simp only [bind_ok,Prod.exists,pure_ok,Prod.mk.injEq] at split
      obtain ⟨rest,taken,-,rfl,rfl⟩ := split
      have same := world_store m source (some (.coin T rest))
      obtain ⟨i,j,place,there⟩ := peek_place here
      refine ⟨respects_of_coins (congrArg World.vaults same) (congrArg World.pools same) (owed_exchange place there rfl T rest)
        fun other _ U => ?_,rfl⟩
      exact (congrArg (·.balances other U) same).ge
    next => cases split

theorem splitCoins_respects (sender : Address) {source : Argument} {amounts : List Argument} {values : List Value}
    (split : m.splitCoins source amounts = .ok (after,values)) : Respects sender m after ∧ loans values = [] := by
  induction amounts generalizing m values with
  | nil =>
    obtain ⟨rfl,rfl⟩ := Prod.mk.inj (Except.ok.inj split)
    exact ⟨.refl sender m,rfl⟩
  | cons amount rest ih =>
    simp only [splitCoins,bind_ok,Prod.exists,pure_ok,Prod.mk.injEq] at split
    obtain ⟨size,-,middle,coin,first,last,coins,later,rfl,rfl⟩ := split
    obtain ⟨here,plain⟩ := splitCoin_respects sender first
    obtain ⟨onward,others⟩ := ih later
    exact ⟨here.trans onward,(List.filterMap_cons_none plain).trans others⟩

theorem mergeCoins_respects (sender : Address) {target : Argument} {sources : List Argument}
    (merged : m.mergeCoins target sources = .ok after) : Respects sender m after := by
  induction sources generalizing m with
  | nil =>
    obtain rfl := Except.ok.inj merged
    exact .refl sender m
  | cons source rest ih =>
    simp only [mergeCoins] at merged
    split at merged
    next T held here =>
      simp only [bind_ok,Prod.exists,takeCoin_ok] at merged
      obtain ⟨_,coin,⟨taken,rfl⟩,joined,-,later⟩ := merged
      obtain ⟨i,j,place,there⟩ := peek_place here
      obtain ⟨now,there,which⟩ := place_store there none
      have plain : now.bind Value.loan = none := by
        rcases which with rfl | rfl <;> rfl
      have owed := (owed_take taken).trans (owed_exchange ((slot_store m source target none).trans place) there plain T joined)
      have same := (world_store (m.store source none) target (some (.coin T joined))).trans (world_store m source none)
      exact (respects_of_coins (congrArg World.vaults same) (congrArg World.pools same) owed
        fun other _ U => (congrArg (·.balances other U) same).ge).trans (ih later)
    next => cases merged

theorem transferObjects_respects (sender : Address) {owner : Address} {objects : List Argument}
    (moved : m.transferObjects owner objects = .ok after) : Respects sender m after := by
  induction objects generalizing m with
  | nil =>
    obtain rfl := Except.ok.inj moved
    exact .refl sender m
  | cons object rest ih =>
    simp only [transferObjects,bind_ok,Prod.exists,take_ok] at moved
    obtain ⟨_,value,⟨here,rfl⟩,moved⟩ := moved
    split at moved
    next middle T amount same =>
      obtain ⟨rfl,rfl⟩ := Prod.mk.inj same
      have kept := world_store m object none
      have vaults := congrArg World.vaults kept
      have pools := congrArg World.pools kept
      refine Respects.trans ?_ (ih moved)
      refine respects_of_coins vaults pools (owed_take here) fun other _ U => ?_
      exact (congrArg (·.balances other U) kept).ge.trans (credited _ owner T amount other U)
    next => cases moved

theorem step_respects (encapsulated : chain.Encapsulated) {command : Command} (ran : m.step chain command = .ok after) :
    Respects chain.sender m after := by
  cases command with
  | moveCall c =>
    obtain ⟨middle,row,invoked,rfl⟩ := step_moveCall.mp ran
    exact invoke_respects encapsulated invoked
  | splitCoins coin amounts =>
    simp only [step,bind_ok,Prod.exists,pure_ok] at ran
    obtain ⟨middle,row,split,rfl⟩ := ran
    obtain ⟨respects,plain⟩ := splitCoins_respects chain.sender split
    exact respects.push plain
  | mergeCoins target sources =>
    simp only [step,bind_ok,pure_ok] at ran
    obtain ⟨middle,merged,rfl⟩ := ran
    exact (mergeCoins_respects chain.sender merged).push rfl
  | transferObjects objects recipient =>
    simp only [step] at ran
    split at ran
    next owner =>
      simp only [bind_ok,pure_ok] at ran
      obtain ⟨middle,moved,rfl⟩ := ran
      exact (transferObjects_respects chain.sender moved).push rfl
    next => cases ran

/-- Whatever the commands are, by induction on them. -/
theorem transact_respects (encapsulated : chain.Encapsulated) {commands : List Command}
    (ran : transact (Machine.step chain) m commands = .ok after) : Respects chain.sender m after := by
  induction commands generalizing m with
  | nil =>
    obtain rfl := Except.ok.inj ran
    exact .refl chain.sender m
  | cons command rest ih =>
    rw [transact_cons,bind_ok] at ran
    obtain ⟨middle,first,later⟩ := ran
    exact (step_respects encapsulated first).trans (ih later)

end step

end SuiArbitrage.Move
