import SuiArbitrage.Move.Values

/-! What a profit session guarantees. The receipt carries the amounts of its `begin`
but not its coin type, so a block keeps to one coin type exactly where its type
arguments say so. -/
namespace SuiArbitrage.Move
open MachineWord Fallible Executor

namespace Machine

def receiptAt (m : Machine) (i j : ℕ) : Option ArbReceipt :=
  match m.cell i j with
  | some (.arbReceipt receipt) => some receipt
  | _ => none

theorem receiptAt_eq_some {m : Machine} {i j : ℕ} {receipt : ArbReceipt} :
    m.receiptAt i j = some receipt ↔ m.cell i j = some (.arbReceipt receipt) := by
  unfold receiptAt
  split
  · rename_i other here
    simp [here]
  · rename_i absent
    simp only [reduceCtorEq,false_iff]
    exact absent receipt

/-- Nothing happened to the sessions except that receipts may be gone. -/
structure Quiet (before after : Machine) : Prop where
  length : after.results.length = before.results.length
  opened : after.opened = before.opened
  settled : after.settled = before.settled
  receipts : ∀ i j receipt, after.receiptAt i j = some receipt → before.receiptAt i j = some receipt

theorem Quiet.refl (m : Machine) : Quiet m m := ⟨rfl,rfl,rfl,fun _ _ _ found => found⟩

theorem Quiet.trans {m₁ m₂ m₃ : Machine} (first : Quiet m₁ m₂) (second : Quiet m₂ m₃) : Quiet m₁ m₃ :=
  ⟨second.length.trans first.length,second.opened.trans first.opened,second.settled.trans first.settled,
    fun i j receipt found => first.receipts i j receipt (second.receipts i j receipt found)⟩

theorem quiet_withWorld (m : Machine) (world : World) : Quiet m (m.withWorld world) := ⟨rfl,rfl,rfl,fun _ _ _ found => found⟩

theorem quiet_store (m : Machine) (argument : Argument) {value : Option Value}
    (plain : ∀ v ∈ value, v.isArbReceipt = false) : Quiet m (m.store argument value) := by
  unfold store
  split
  · rename_i i j _
    refine ⟨by simp [setCell],rfl,rfl,fun k l receipt found => ?_⟩
    rw [receiptAt_eq_some,cell_setCell] at found
    split at found
    · cases plain _ found
    · exact receiptAt_eq_some.mpr found
  · exact .refl m

theorem quiet_take (m : Machine) (argument : Argument) : Quiet m (m.store argument none) :=
  quiet_store m argument nofun

theorem quiet_takeValues {m after : Machine} {arguments : List Argument} {values : List Value}
    (taken : m.takeValues arguments = .ok (after,values)) : Quiet m after := by
  induction arguments generalizing m values with
  | nil =>
    obtain ⟨rfl,rfl⟩ := Prod.mk.inj (Except.ok.inj taken)
    exact .refl m
  | cons argument rest ih =>
    cases argument with
    | result i =>
      simp only [takeValues,bind_ok,Prod.exists,take_ok,pure_ok,Prod.mk.injEq] at taken
      obtain ⟨middle,value,⟨-,rfl⟩,after',values',later,rfl,rfl⟩ := taken
      exact (quiet_take m _).trans (ih later)
    | nestedResult i j =>
      simp only [takeValues,bind_ok,Prod.exists,take_ok,pure_ok,Prod.mk.injEq] at taken
      obtain ⟨middle,value,⟨-,rfl⟩,after',values',later,rfl,rfl⟩ := taken
      exact (quiet_take m _).trans (ih later)
    | gasCoin => exact ih taken
    | pure value => exact ih taken
    | object object => exact ih taken

theorem splitCoin_quiet {m after : Machine} {source : Argument} {amount : U64} {value : Value}
    (split : m.splitCoin source amount = .ok (after,value)) : Quiet m after ∧ value.isArbReceipt = false := by
  unfold splitCoin at split
  split at split
  · simp only [bind_ok,Prod.exists,pure_ok,Prod.mk.injEq] at split
    obtain ⟨rest,taken,-,rfl,rfl⟩ := split
    exact ⟨quiet_withWorld m _,rfl⟩
  · split at split
    · simp only [bind_ok,Prod.exists,pure_ok,Prod.mk.injEq] at split
      obtain ⟨rest,taken,-,rfl,rfl⟩ := split
      refine ⟨quiet_store m source fun v stored => ?_,rfl⟩
      obtain rfl := Option.some.inj stored
      rfl
    · cases split

theorem splitCoins_quiet {m after : Machine} {source : Argument} {amounts : List Argument} {values : List Value}
    (split : m.splitCoins source amounts = .ok (after,values)) :
    Quiet m after ∧ ∀ value ∈ values, value.isArbReceipt = false := by
  induction amounts generalizing m values with
  | nil =>
    obtain ⟨rfl,rfl⟩ := Prod.mk.inj (Except.ok.inj split)
    exact ⟨.refl m,nofun⟩
  | cons amount rest ih =>
    simp only [splitCoins,bind_ok,Prod.exists,pure_ok,Prod.mk.injEq] at split
    obtain ⟨size,-,middle,coin,first,after',coins,later,rfl,rfl⟩ := split
    obtain ⟨quiet,plain⟩ := splitCoin_quiet first
    obtain ⟨onward,others⟩ := ih later
    refine ⟨quiet.trans onward,fun value member => ?_⟩
    rcases List.mem_cons.mp member with rfl | member
    · exact plain
    · exact others value member

theorem mergeCoins_quiet {m after : Machine} {target : Argument} {sources : List Argument}
    (merged : m.mergeCoins target sources = .ok after) : Quiet m after := by
  induction sources generalizing m with
  | nil =>
    obtain rfl := Except.ok.inj merged
    exact .refl m
  | cons source rest ih =>
    simp only [mergeCoins] at merged
    split at merged
    · simp only [bind_ok,Prod.exists,takeCoin_ok] at merged
      obtain ⟨middle,coin,⟨-,rfl⟩,joined,-,later⟩ := merged
      refine (quiet_take m source).trans ((quiet_store _ target fun v stored => ?_).trans (ih later))
      obtain rfl := Option.some.inj stored
      rfl
    · cases merged

theorem transferObjects_quiet {m after : Machine} {owner : Address} {objects : List Argument}
    (moved : m.transferObjects owner objects = .ok after) : Quiet m after := by
  induction objects generalizing m with
  | nil =>
    obtain rfl := Except.ok.inj moved
    exact .refl m
  | cons object rest ih =>
    simp only [transferObjects,bind_ok,Prod.exists,take_ok] at moved
    obtain ⟨middle,value,⟨-,rfl⟩,moved⟩ := moved
    split at moved
    · rename_i middle' T amount same
      obtain ⟨rfl,-⟩ := Prod.mk.inj same
      exact (quiet_take m object).trans ((quiet_withWorld _ _).trans (ih moved))
    · cases moved

theorem receiptAt_push {m : Machine} {row : List Value} {i j : ℕ} {receipt : ArbReceipt}
    (found : (m.push row).receiptAt i j = some receipt) :
    m.receiptAt i j = some receipt ∨ i = m.results.length ∧ .arbReceipt receipt ∈ row := by
  rw [receiptAt_eq_some] at found ⊢
  simp only [cell,push,List.getElem?_append] at found ⊢
  split at found
  · exact .inl found
  · right
    rename_i beyond
    cases offset : i - m.results.length with
    | succ n => simp [offset] at found
    | zero =>
      simp only [offset,List.getElem?_cons_zero,Option.bind_some,List.getElem?_map] at found
      cases value : row[j]? with
      | none => simp [value] at found
      | some v =>
        simp only [value,Option.map_some,Option.join_some,Option.some.injEq] at found
        exact ⟨by omega,found ▸ List.mem_of_getElem? value⟩

end Machine

def Chain.begins (chain : Chain) : Command → Option TypeTag
  | .moveCall c =>
    match chain.callee c,c.typeArguments,c.arguments with
    | .begin,[T],[_,_] => some T
    | _,_,_ => none
  | _ => none

def Chain.settles (chain : Chain) : Command → Option (TypeTag × Argument)
  | .moveCall c =>
    match chain.callee c,c.typeArguments,c.arguments with
    | .settle,[T],[receipt,_] => some (T,receipt)
    | .settleAndReturn,[T],[receipt,_] => some (T,receipt)
    | _,_,_ => none
  | _ => none

/-- Each settling call has the type argument of the `begin` that its receipt comes from. -/
def SameTypes (chain : Chain) (commands : List Command) : Prop :=
  ∀ command ∈ commands, ∀ T receipt i, chain.settles command = some (T,receipt) → receipt.command = some i →
    ∃ opener, commands[i]? = some opener ∧ chain.begins opener = some T

section step
variable {chain : Chain} {m after : Machine} {command : Command}

open Machine

/-- What one command does to the sessions. -/
inductive Stepped (chain : Chain) (m after : Machine) (command : Command) : Prop
  | began {T : TypeTag} {amount minProfit : U64} (begins : chain.begins command = some T)
      (settles : chain.settles command = none) (length : after.results.length = m.results.length + 1)
      (opened : after.opened = m.opened ++ [⟨m.results.length,T,amount,minProfit⟩])
      (settled : after.settled = m.settled)
      (receipts : ∀ i j receipt, after.receiptAt i j = some receipt → m.receiptAt i j = some receipt ∨
        i = m.results.length ∧ receipt.initialAmount = amount ∧ receipt.minProfit = minProfit)
  | closed {T : TypeTag} {argument : Argument} {i j : ℕ} {receipt : ArbReceipt} {amount : U64}
      (settles : chain.settles command = some (T,argument)) (place : argument.command = some i)
      (held : m.receiptAt i j = some receipt)
      (reached : receipt.initialAmount.val + receipt.minProfit.val ≤ amount.val)
      (length : after.results.length = m.results.length + 1) (opened : after.opened = m.opened)
      (settled : after.settled = m.settled ++ [⟨i,T,amount⟩])
      (receipts : ∀ i j receipt, after.receiptAt i j = some receipt → m.receiptAt i j = some receipt)
  | quiet (settles : chain.settles command = none) (length : after.results.length = m.results.length + 1)
      (opened : after.opened = m.opened) (settled : after.settled = m.settled)
      (receipts : ∀ i j receipt, after.receiptAt i j = some receipt → m.receiptAt i j = some receipt)

theorem stepped_of_quiet {middle : Machine} {row : List Value} (settles : chain.settles command = none)
    (quiet : Quiet m middle) (plain : ∀ value ∈ row, value.isArbReceipt = false) :
    Stepped chain m (middle.push row) command := by
  refine .quiet settles ((length_push _ _).trans (by rw [quiet.length])) quiet.opened quiet.settled ?_
  intro i j receipt found
  rcases receiptAt_push found with before | ⟨-,made⟩
  · exact quiet.receipts i j receipt before
  · cases plain _ made

theorem stepped_of_settled {T : TypeTag} {receiptArg coinArg : Argument} {coin : Coin T} {receipt : ArbReceipt}
    {middle last : Machine} {row : List Value} (settles : chain.settles command = some (T,receiptArg))
    (coinTaken : m.takeCoin T coinArg = .ok (middle,coin))
    (receiptTaken : middle.takeArbReceipt receiptArg = .ok (last,receipt))
    (reached : receipt.initialAmount.val + receipt.minProfit.val ≤ coin.value.val) (world : World)
    (plain : ∀ value ∈ row, value.isArbReceipt = false) :
    Stepped chain m (((last.settles receiptArg T coin.value).withWorld world).push row) command := by
  obtain ⟨-,rfl⟩ := takeCoin_ok.mp coinTaken
  obtain ⟨here,rfl⟩ := takeArbReceipt_ok.mp receiptTaken
  have taken := (quiet_take m coinArg).trans (quiet_take (m.store coinArg none) receiptArg)
  obtain ⟨⟨i,j⟩,place,held⟩ := Option.bind_eq_some_iff.mp here
  have logged : ((m.store coinArg none).store receiptArg none).slot receiptArg = some (i,j) :=
    (slot_store _ _ _ _).trans place
  refine .closed settles (slot_command place)
    ((quiet_take m coinArg).receipts i j receipt (receiptAt_eq_some.mpr held)) reached
    ((length_push _ _).trans (congrArg (· + 1) taken.length)) taken.opened ?_ ?_
  · change _ ++ _ = _
    rw [logged,taken.settled]
  · intro i j receipt found
    rcases receiptAt_push found with before | ⟨-,made⟩
    · exact taken.receipts i j receipt before
    · cases plain _ made

theorem invoke_stepped {c : MoveCall} {row : List Value} (ran : m.invoke chain c = .ok (after,row)) :
    Stepped chain m (after.push row) (.moveCall c) := by
  unfold invoke at ran
  split at ran
  · rename_i T coinArg minArg callee types arguments
    simp only [callBegin,bind_ok,Prod.exists,takeCoin_ok,pure_ok,Prod.mk.injEq] at ran
    obtain ⟨middle,coin,⟨-,rfl⟩,minProfit,-,rfl,rfl⟩ := ran
    have taken := quiet_take m coinArg
    have begins : chain.begins (.moveCall c) = some T := by simp [Chain.begins,callee,types,arguments]
    have settles : chain.settles (.moveCall c) = none := by simp [Chain.settles,callee,types,arguments]
    have opened : ((m.store coinArg none).opens T coin.value minProfit).opened =
        m.opened ++ [⟨m.results.length,T,coin.value,minProfit⟩] := by
      change (m.store coinArg none).opened ++ [⟨(m.store coinArg none).results.length,T,coin.value,minProfit⟩] = _
      rw [taken.opened,taken.length]
    refine .began begins settles ((length_push _ _).trans (congrArg (· + 1) taken.length)) opened taken.settled ?_
    intro i j receipt found
    rcases receiptAt_push found with before | ⟨here,made⟩
    · exact .inl (taken.receipts i j receipt before)
    · simp only [begin,List.mem_cons,reduceCtorEq,Value.arbReceipt.injEq,List.not_mem_nil,or_false,false_or] at made
      subst made
      exact .inr ⟨here.trans taken.length,rfl,rfl⟩
  · rename_i T receiptArg coinArg callee types arguments
    simp only [callSettle,bind_ok,Prod.exists,call_ok,settle_ok,pure_ok,Prod.mk.injEq] at ran
    obtain ⟨middle,coin,coinTaken,last,receipt,receiptTaken,initiator,output,⟨reached,-⟩,rfl,rfl⟩ := ran
    exact stepped_of_settled (by simp [Chain.settles,callee,types,arguments]) coinTaken receiptTaken reached _ (List.forall_mem_nil _)
  · rename_i T receiptArg coinArg callee types arguments
    simp only [callSettleAndReturn,bind_ok,Prod.exists,call_ok,settleAndReturn_ok,pure_ok,Prod.mk.injEq] at ran
    obtain ⟨middle,coin,coinTaken,last,receipt,receiptTaken,output,⟨reached,-⟩,rfl,rfl⟩ := ran
    refine stepped_of_settled (by simp [Chain.settles,callee,types,arguments]) coinTaken receiptTaken reached
      last.world fun value member => ?_
    obtain rfl := List.mem_singleton.mp member
    rfl
  · rename_i T lenderArg amountArg callee types arguments
    simp only [callBorrow,bind_ok,Prod.exists,pure_ok,Prod.mk.injEq] at ran
    obtain ⟨id,-,amount,-,lender,-,lender',loan,receipt,-,rfl,rfl⟩ := ran
    refine stepped_of_quiet (by simp [Chain.settles,callee,types,arguments]) (quiet_withWorld m _) ?_
    simp [Value.isArbReceipt]
  · rename_i T lenderArg receiptArg paymentArg callee types arguments
    simp only [callRepay,bind_ok,Prod.exists,takeCoin_ok,takeFlashReceipt_ok,pure_ok,Prod.mk.injEq] at ran
    obtain ⟨id,-,middle,payment,⟨-,rfl⟩,last,receipt,⟨-,rfl⟩,lender,-,lender',change,-,rfl,rfl⟩ := ran
    refine stepped_of_quiet (by simp [Chain.settles,callee,types,arguments])
      ((quiet_take m _).trans ((quiet_take _ _).trans (quiet_withWorld _ _))) ?_
    simp [Value.isArbReceipt]
  · rename_i aToB A B poolArg coinArg minOutArg callee types arguments
    simp only [callSwap,bind_ok,Prod.exists,takeCoin_ok,pure_ok,Prod.mk.injEq] at ran
    obtain ⟨id,-,minOut,-,middle,coin,⟨-,rfl⟩,pools,out,-,rfl,rfl⟩ := ran
    refine stepped_of_quiet (by simp [Chain.settles,callee,types,arguments])
      ((quiet_take m _).trans (quiet_withWorld _ _)) ?_
    simp [Value.isArbReceipt]
  · rename_i callee
    simp only [callOutside,bind_ok,Prod.exists] at ran
    obtain ⟨middle,values,taken,world,results,-,ran⟩ := ran
    split at ran
    · cases ran
    rename_i plain
    obtain ⟨rfl,rfl⟩ := Prod.mk.inj (Except.ok.inj ran)
    refine stepped_of_quiet (by simp [Chain.settles,callee]) ((quiet_takeValues taken).trans (quiet_withWorld _ _)) ?_
    intro value member
    simp only [Bool.not_eq_true,List.any_eq_false] at plain
    exact plain value (List.mem_append_right _ member)
  · cases ran

theorem step_stepped (ran : m.step chain command = .ok after) : Stepped chain m after command := by
  cases command with
  | moveCall c =>
    simp only [step,bind_ok,Prod.exists,pure_ok] at ran
    obtain ⟨middle,row,invoked,rfl⟩ := ran
    exact invoke_stepped invoked
  | splitCoins coin amounts =>
    simp only [step,bind_ok,Prod.exists,pure_ok] at ran
    obtain ⟨middle,row,split,rfl⟩ := ran
    obtain ⟨quiet,plain⟩ := splitCoins_quiet split
    exact stepped_of_quiet rfl quiet plain
  | mergeCoins target sources =>
    simp only [step,bind_ok,pure_ok] at ran
    obtain ⟨middle,merged,rfl⟩ := ran
    exact stepped_of_quiet rfl (mergeCoins_quiet merged) (List.forall_mem_nil _)
  | transferObjects objects recipient =>
    simp only [step] at ran
    split at ran
    · simp only [bind_ok,pure_ok] at ran
      obtain ⟨middle,moved,rfl⟩ := ran
      exact stepped_of_quiet rfl (transferObjects_quiet moved) (List.forall_mem_nil _)
    · cases ran

end step

/-- How the two logs, the receipts at hand and the commands run so far belong together. -/
structure Sessions (chain : Chain) (done : List Command) (m : Machine) : Prop where
  length : m.results.length = done.length
  begun : ∀ o ∈ m.opened, ∃ command, done[o.command]? = some command ∧ chain.begins command = some o.coinType
  once : (m.opened.map Opened.command).Nodup
  held : ∀ i j receipt, m.receiptAt i j = some receipt →
    ∃ o ∈ m.opened, o.command = i ∧ o.amount = receipt.initialAmount ∧ o.minProfit = receipt.minProfit
  gated : ∀ s ∈ m.settled, ∃ o ∈ m.opened, o.command = s.opener ∧ o.amount.val + o.minProfit.val ≤ s.amount.val
  called : ∀ s ∈ m.settled, ∃ command ∈ done, ∃ receipt,
    chain.settles command = some (s.coinType,receipt) ∧ receipt.command = some s.opener
  logged : ∀ command ∈ done, ∀ T receipt, chain.settles command = some (T,receipt) →
    ∃ s ∈ m.settled, s.coinType = T ∧ receipt.command = some s.opener

section runs
variable {chain : Chain} {done : List Command} {m after : Machine} {command : Command}

open Machine

theorem sessions_start (chain : Chain) (world : World) : Sessions chain [] (Machine.start world) where
  length := rfl
  begun := nofun
  once := .nil
  held := fun i j receipt found => by
    rw [receiptAt_eq_some] at found
    simp [cell,Machine.start] at found
  gated := nofun
  called := nofun
  logged := nofun

theorem Sessions.opener_lt (inv : Sessions chain done m) {o : Opened} (member : o ∈ m.opened) :
    o.command < done.length := by
  obtain ⟨command,here,-⟩ := inv.begun o member
  exact (List.getElem?_eq_some_iff.mp here).1

theorem Sessions.begun_append (inv : Sessions chain done m) {o : Opened} (member : o ∈ m.opened) :
    ∃ opener, (done ++ [command])[o.command]? = some opener ∧ chain.begins opener = some o.coinType := by
  obtain ⟨opener,here,begins⟩ := inv.begun o member
  exact ⟨opener,by rw [List.getElem?_append_left (inv.opener_lt member),here],begins⟩

theorem Sessions.called_append (inv : Sessions chain done m) {s : Settled} (member : s ∈ m.settled) :
    ∃ settler ∈ done ++ [command], ∃ receipt,
      chain.settles settler = some (s.coinType,receipt) ∧ receipt.command = some s.opener := by
  obtain ⟨settler,listed,found⟩ := inv.called s member
  exact ⟨settler,List.mem_append_left _ listed,found⟩

theorem Sessions.logged_append (inv : Sessions chain done m) (settles : chain.settles command = none) :
    ∀ settler ∈ done ++ [command], ∀ T receipt, chain.settles settler = some (T,receipt) →
      ∃ s ∈ m.settled, s.coinType = T ∧ receipt.command = some s.opener := by
  intro settler member T receipt found
  rcases List.mem_append.mp member with earlier | last
  · exact inv.logged settler earlier T receipt found
  · rw [List.mem_singleton.mp last,settles] at found
    cases found

theorem Sessions.step (inv : Sessions chain done m) (stepped : Stepped chain m after command) :
    Sessions chain (done ++ [command]) after := by
  have longer {n : ℕ} (length : n = m.results.length + 1) : n = (done ++ [command]).length := by
    simp [length,inv.length]
  cases stepped with
  | @began T amount minProfit begins settles length opened settled receipts =>
    have here : (done ++ [command])[m.results.length]? = some command := by simp [inv.length]
    refine ⟨longer length,?_,?_,?_,?_,?_,?_⟩
    · intro o member
      rw [opened] at member
      rcases List.mem_append.mp member with earlier | last
      · exact inv.begun_append earlier
      · obtain rfl := List.mem_singleton.mp last
        exact ⟨command,here,begins⟩
    · rw [opened,List.map_append,List.nodup_append]
      refine ⟨inv.once,List.nodup_singleton _,?_⟩
      intro k earlier l last
      obtain ⟨o,member,rfl⟩ := List.mem_map.mp earlier
      obtain rfl := List.mem_singleton.mp last
      exact (inv.length ▸ inv.opener_lt member).ne
    · intro i j receipt found
      rw [opened]
      rcases receipts i j receipt found with before | ⟨rfl,sameAmount,sameProfit⟩
      · obtain ⟨o,member,same⟩ := inv.held i j receipt before
        exact ⟨o,List.mem_append_left _ member,same⟩
      · exact ⟨_,List.mem_append_right _ List.mem_cons_self,rfl,sameAmount.symm,sameProfit.symm⟩
    · intro s member
      obtain ⟨o,listed,same⟩ := inv.gated s (settled ▸ member)
      exact ⟨o,opened ▸ List.mem_append_left _ listed,same⟩
    · exact fun s member => inv.called_append (settled ▸ member)
    · rw [settled]
      exact inv.logged_append settles
  | @closed T argument i j receipt amount settles place held reached length opened settled receipts =>
    refine ⟨longer length,?_,?_,?_,?_,?_,?_⟩
    · exact fun o member => inv.begun_append (opened ▸ member)
    · exact opened ▸ inv.once
    · intro k l other found
      exact opened ▸ inv.held k l other (receipts k l other found)
    · intro s member
      rw [settled] at member
      rw [opened]
      rcases List.mem_append.mp member with earlier | last
      · exact inv.gated s earlier
      · obtain rfl := List.mem_singleton.mp last
        obtain ⟨o,listed,rfl,sameAmount,sameProfit⟩ := inv.held i j receipt held
        exact ⟨o,listed,rfl,by rw [sameAmount,sameProfit]; exact reached⟩
    · intro s member
      rw [settled] at member
      rcases List.mem_append.mp member with earlier | last
      · exact inv.called_append earlier
      · obtain rfl := List.mem_singleton.mp last
        exact ⟨command,List.mem_append_right _ List.mem_cons_self,argument,settles,place⟩
    · intro settler member U receipt' found
      rw [settled]
      rcases List.mem_append.mp member with earlier | last
      · obtain ⟨s,listed,same⟩ := inv.logged settler earlier U receipt' found
        exact ⟨s,List.mem_append_left _ listed,same⟩
      · obtain rfl := List.mem_singleton.mp last
        obtain ⟨rfl,rfl⟩ := Prod.mk.inj (Option.some.inj (settles.symm.trans found))
        exact ⟨_,List.mem_append_right _ List.mem_cons_self,rfl,place⟩
  | quiet settles length opened settled receipts =>
    refine ⟨longer length,?_,?_,?_,?_,?_,?_⟩
    · exact fun o member => inv.begun_append (opened ▸ member)
    · exact opened ▸ inv.once
    · intro k l other found
      exact opened ▸ inv.held k l other (receipts k l other found)
    · intro s member
      exact opened ▸ inv.gated s (settled ▸ member)
    · exact fun s member => inv.called_append (settled ▸ member)
    · rw [settled]
      exact inv.logged_append settles

theorem sessions_run {world : World} {commands : List Command}
    (ran : transact (Machine.step chain) (Machine.start world) commands = .ok m) : Sessions chain commands m := by
  induction commands using List.reverseRecOn generalizing m with
  | nil =>
    obtain rfl := Except.ok.inj ran
    exact sessions_start chain world
  | append_singleton done command ih =>
    rw [transact_append,bind_ok] at ran
    obtain ⟨before,first,last⟩ := ran
    simp only [transact_cons,transact_nil,bind_ok,Except.ok.injEq] at last
    obtain ⟨next,stepped,rfl⟩ := last
    exact (ih first).step (step_stepped stepped)

/-- Whatever a block does, an accepted coin is worth at least what the `begin` of its
receipt took plus the profit asked there. That it is also of the same coin type holds
for every session exactly where the block's type arguments say so. -/
theorem sessions_typed_iff {world : World} {commands : List Command}
    (ran : transact (Machine.step chain) (Machine.start world) commands = .ok m) :
    (m.opened.map Opened.command).Nodup ∧
    (∀ s ∈ m.settled, ∃ o ∈ m.opened, o.command = s.opener ∧ o.amount.val + o.minProfit.val ≤ s.amount.val) ∧
    ((∀ s ∈ m.settled, ∃ o ∈ m.opened, o.command = s.opener ∧ o.coinType = s.coinType ∧
      o.amount.val + o.minProfit.val ≤ s.amount.val) ↔ SameTypes chain commands) := by
  have inv := sessions_run ran
  refine ⟨inv.once,inv.gated,?_,?_⟩
  · intro typed command member T receipt i settles place
    obtain ⟨s,listed,rfl,same⟩ := inv.logged command member T receipt settles
    obtain ⟨o,opened,opener,sameType,-⟩ := typed s listed
    obtain ⟨first,here,begins⟩ := inv.begun o opened
    obtain rfl := Option.some.inj (place.symm.trans same)
    exact ⟨first,opener ▸ here,sameType ▸ begins⟩
  · intro sameTypes s member
    obtain ⟨command,listed,receipt,settles,place⟩ := inv.called s member
    obtain ⟨first,here,begins⟩ := sameTypes command listed s.coinType receipt s.opener settles place
    obtain ⟨o,opened,opener,reached⟩ := inv.gated s member
    obtain ⟨other,there,begun⟩ := inv.begun o opened
    rw [opener,here] at there
    obtain rfl := Option.some.inj there
    exact ⟨o,opened,opener,Option.some.inj (begun.symm.trans begins),reached⟩

end runs

section mixed

def usdc : TypeTag := "0x5::usdc::USDC"

def bareChain : Chain := ⟨"0xa","0xb",fun _ _ _ => .error .argument⟩

/-- One pool with a coin of the second type worth a fifth of one of the first. -/
def onePool : World :=
  ⟨⟨[⟨sui,usdc,⟨"0x1",1000000,5000000,30⟩⟩],by decide⟩,⟨[],.nil⟩,fun _ _ => 0,100000⟩

def executorCall (function : String) (T : TypeTag) (arguments : List Argument) : Command :=
  .moveCall ⟨"0xa","executor",function,[T],arguments⟩

/-- A session that sells its coin and settles with the one it bought. -/
def convert (settled : TypeTag) : List Command := [
  .splitCoins .gasCoin [.pure (.u64 1000)],
  executorCall "begin" sui [.nestedResult 0 0,.pure (.u64 10)],
  .moveCall ⟨"0xa","amm_v2_adapter","swap_exact_in_a_to_b",[sui,usdc],
    [.object ⟨"0x1",true⟩,.nestedResult 1 0,.pure (.u64 0)]⟩,
  executorCall "settle" settled [.nestedResult 1 1,.result 2]]

/-- A session that settles with the coin it began with. -/
def keep : List Command := [
  .splitCoins .gasCoin [.pure (.u64 1000)],
  executorCall "begin" sui [.nestedResult 0 0,.pure (.u64 0)],
  executorCall "settle" sui [.nestedResult 1 1,.nestedResult 1 0]]

theorem sessions_typed_keep : ∃ m, transact (Machine.step bareChain) (Machine.start onePool) keep = .ok m ∧
    (m.opened.map Opened.command).Nodup ∧
    (∀ s ∈ m.settled, ∃ o ∈ m.opened, o.command = s.opener ∧ o.amount.val + o.minProfit.val ≤ s.amount.val) ∧
    ((∀ s ∈ m.settled, ∃ o ∈ m.opened, o.command = s.opener ∧ o.coinType = s.coinType ∧
      o.amount.val + o.minProfit.val ≤ s.amount.val) ↔ SameTypes bareChain keep) := by
  have completes : (transact (Machine.step bareChain) (Machine.start onePool) keep).isOk = true := by decide +kernel
  obtain ⟨m,ran⟩ := exists_ok completes
  exact ⟨m,ran,sessions_typed_iff ran⟩

theorem sessions_mixed : ∃ m, transact (Machine.step bareChain) (Machine.start onePool) (convert usdc) = .ok m ∧
    m.spent = true ∧ ∃ s ∈ m.settled, ∀ o ∈ m.opened, o.command = s.opener → o.coinType ≠ s.coinType := by
  have logs : (transact (Machine.step bareChain) (Machine.start onePool) (convert usdc)).map
      (fun m => (m.spent,m.opened,m.settled)) = .ok (true,[⟨1,sui,1000,10⟩],[⟨1,usdc,4980⟩]) := by decide +kernel
  obtain ⟨m,ran,logs⟩ := map_ok.mp logs
  obtain ⟨spent,logs⟩ := Prod.mk.inj logs
  obtain ⟨opened,settled⟩ := Prod.mk.inj logs
  refine ⟨m,ran,spent,?_⟩
  rw [opened,settled]
  exact ⟨_,List.mem_cons_self,by decide⟩

end mixed

end SuiArbitrage.Move
