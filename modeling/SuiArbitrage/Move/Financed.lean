import SuiArbitrage.Move.Exposure

/-! A profit session between a loan of another package and its repayment. The gate sees to
it that the coin it passes is worth the loan and the profit, and the block to it that what is
left of the coin behind the repayment is the sender's. -/
namespace SuiArbitrage.Move
open MachineWord Fallible Executor

namespace Machine
variable {chain : Chain} {m after : Machine}

theorem peek_store_other {written : Argument} {value : Option Value} {k : ℕ} (other : written.command ≠ some k) :
    (m.store written value).peek (.result k) = m.peek (.result k) := by
  have place : (m.store written value).slot (.result k) = m.slot (.result k) := slot_store m written (.result k) value
  unfold peek
  rw [place]
  cases here : m.slot (.result k) with
  | none => rfl
  | some found =>
    obtain ⟨i,j⟩ := found
    obtain rfl := Option.some.inj (slot_command here)
    simp only [Option.bind_some]
    unfold store
    split
    next written_i written_j there =>
      have apart : written_i ≠ k := fun same => other (same ▸ slot_command there)
      rw [cell_setCell,if_neg fun both => apart both.1]
    next => rfl

theorem peek_push {argument : Argument} {value : Value} {row : List Value} (held : m.peek argument = some value) :
    (m.push row).peek argument = some value := by
  have inside {i j : ℕ} (here : m.cell i j = some value) : i < m.results.length := by
    by_contra beyond
    have missing : m.results[i]? = none := List.getElem?_eq_none (not_lt.mp beyond)
    simp [cell,missing] at here
  have same {i j : ℕ} (here : m.cell i j = some value) : (m.push row).cell i j = some value := by
    have kept : (m.results ++ [row.map some])[i]? = m.results[i]? := List.getElem?_append_left (inside here)
    rw [← here]
    simp only [cell,push,kept]
  obtain ⟨⟨i,j⟩,place,here⟩ := Option.bind_eq_some_iff.mp held
  refine Option.bind_eq_some_iff.mpr ⟨(i,j),?_,same here⟩
  cases argument with
  | result k =>
    obtain rfl : k = i := Option.some.inj (slot_command place)
    have kept : (m.push row).results[k]? = m.results[k]? := List.getElem?_append_left (inside here)
    simp only [slot] at place ⊢
    rw [kept]
    exact place
  | nestedResult k l => exact place
  | gasCoin => cases place
  | pure value => cases place
  | object object => cases place

theorem peek_takeValues {arguments : List Argument} {values : List Value} {k : ℕ}
    (taken : m.takeValues arguments = .ok (after,values)) (others : ∀ argument ∈ arguments, argument.command ≠ some k) :
    after.peek (.result k) = m.peek (.result k) := by
  induction arguments generalizing m values with
  | nil =>
    obtain ⟨rfl,-⟩ := Prod.mk.inj (Except.ok.inj taken)
    rfl
  | cons argument rest ih =>
    have later := List.forall_mem_cons.mp others
    cases argument with
    | result i =>
      simp only [takeValues,bind_ok,Prod.exists,take_ok,pure_ok,Prod.mk.injEq] at taken
      obtain ⟨_,value,⟨-,rfl⟩,_,_,taken,rfl,rfl⟩ := taken
      exact (ih taken later.2).trans (peek_store_other later.1)
    | nestedResult i j =>
      simp only [takeValues,bind_ok,Prod.exists,take_ok,pure_ok,Prod.mk.injEq] at taken
      obtain ⟨_,value,⟨-,rfl⟩,_,_,taken,rfl,rfl⟩ := taken
      exact (ih taken later.2).trans (peek_store_other later.1)
    | gasCoin => exact ih taken later.2
    | pure value => exact ih taken later.2
    | object object => exact ih taken later.2

theorem cell_pushed (m : Machine) (row : List Value) (j : ℕ) : (m.push row).cell m.results.length j = row[j]? := by
  cases here : row[j]? <;> simp [cell,push,here]

end Machine

section steps
variable {chain : Chain} {m after : Machine}

open Machine

/-- A call of another package. -/
theorem outside_ran {c : MoveCall} (callee : chain.callee c = .outside) (ran : m.step chain (.moveCall c) = .ok after) :
    ∃ middle values world row, m.takeValues c.arguments = .ok (middle,values) ∧
      chain.outside m.world c values = .ok (world,row) ∧ after = (middle.withWorld world).push row := by
  obtain ⟨reached,row,invoked,rfl⟩ := step_moveCall.mp ran
  simp only [invoke,callee,callOutside,bind_ok,Prod.exists] at invoked
  obtain ⟨middle,values,taken,world,results,called,invoked⟩ := invoked
  rw [takeValues_world taken] at called
  split at invoked
  next => cases invoked
  next =>
    obtain ⟨rfl,rfl⟩ := Prod.mk.inj (Except.ok.inj invoked)
    exact ⟨middle,values,world,results,taken,called,rfl⟩

theorem begin_ran {T : TypeTag} {n : ℕ} {amount minProfit : U64} (held : m.cell n 0 = some (.coin T amount))
    (ran : m.step chain (.moveCall ⟨chain.package,"executor","begin",[T],[.nestedResult n 0,.pure (.u64 minProfit)]⟩) = .ok after) :
    ⟨m.results.length,T,amount,minProfit⟩ ∈ after.opened := by
  obtain ⟨reached,row,invoked,rfl⟩ := step_moveCall.mp ran
  have callee : chain.callee ⟨chain.package,"executor","begin",[T],[.nestedResult n 0,.pure (.u64 minProfit)]⟩ = .begin := by
    simp [Chain.callee]
  simp only [invoke,callee,callBegin,bind_ok,Prod.exists,takeCoin_ok,pureU64_ok,Argument.pure.injEq,Pure.u64.injEq,pure_ok,
    Prod.mk.injEq] at invoked
  obtain ⟨_,coin,⟨here,rfl⟩,least,rfl,rfl,-⟩ := invoked
  have here : m.cell n 0 = some (.coin T coin.value) := here
  obtain ⟨-,rfl⟩ := Value.coin.inj (Option.some.inj (held.symm.trans here))
  have length := (quiet_take m (.nestedResult n 0)).length
  refine List.mem_append_right _ ?_
  rw [← length]
  exact List.mem_singleton_self _

/-- What the gate returns is the coin that it has accepted. -/
theorem gate_ran {T : TypeTag} {i : ℕ} {coinArg : Argument}
    (ran : m.step chain (.moveCall ⟨chain.package,"executor","settle_and_return",[T],[.nestedResult i 1,coinArg]⟩) = .ok after) :
    ∃ receipt final rows, m.receiptAt i 1 = some receipt ∧ receipt.initialAmount.val + receipt.minProfit.val ≤ final.val ∧
      rows.length = m.results.length ∧ after.results = rows ++ [[some (.coin T final)]] ∧
      after.settled = m.settled ++ [⟨i,T,final⟩] := by
  obtain ⟨reached,row,invoked,rfl⟩ := step_moveCall.mp ran
  have callee : chain.callee ⟨chain.package,"executor","settle_and_return",[T],[.nestedResult i 1,coinArg]⟩ =
      .settleAndReturn := by
    simp [Chain.callee]
  simp only [invoke,callee,callSettleAndReturn,bind_ok,Prod.exists,takeCoin_ok,takeArbReceipt_ok,call_ok,
    settleAndReturn_ok,pure_ok,Prod.mk.injEq] at invoked
  obtain ⟨_,coin,⟨-,rfl⟩,_,receipt,⟨held,rfl⟩,output,⟨gate,rfl⟩,rfl,rfl⟩ := invoked
  have taken := (quiet_take m coinArg).trans (quiet_take (m.store coinArg none) (.nestedResult i 1))
  have here := (quiet_take m coinArg).receipts i 1 receipt (receiptAt_eq_some.mpr held)
  refine ⟨receipt,output.value,_,here,gate,taken.length,rfl,?_⟩
  exact congrArg (· ++ [⟨i,T,output.value⟩]) taken.settled

theorem splits_ran {T : TypeTag} {final owed : U64} {rows : List (List (Option Value))}
    (results : m.results = rows ++ [[some (.coin T final)]])
    (ran : m.step chain (.splitCoins (.result rows.length) [.pure (.u64 owed)]) = .ok after) :
    ∃ rest : U64, rest.val + owed.val = final.val ∧ after.peek (.result rows.length) = some (.coin T rest) ∧
      after.cell (rows.length + 1) 0 = some (.coin T owed) := by
  simp only [Machine.step,splitCoins,splitCoin,peek_last results,reduceCtorEq,if_false,bind_ok,Prod.exists,pureU64_ok,
    Argument.pure.injEq,Pure.u64.injEq,call_ok,balanceSplit_ok,pure_ok,Prod.mk.injEq] at ran
  obtain ⟨_,_,⟨amount,rfl,_,_,⟨rest,taken,⟨rfl,parts⟩,rfl,rfl⟩,_,_,nothing,rfl,rfl⟩,rfl⟩ := ran
  obtain ⟨rfl,rfl⟩ := Prod.mk.inj (Except.ok.inj nothing)
  have left := store_last results (some (.coin T rest))
  refine ⟨rest,parts,peek_push (peek_last left),?_⟩
  have size : rows.length + 1 = (m.store (.result rows.length) (some (.coin T rest))).results.length := by
    rw [left]
    simp
  rw [size,cell_pushed]
  rfl

theorem transfer_ran {T : TypeTag} {rest : U64} {k : ℕ} {owner : Address} (held : m.peek (.result k) = some (.coin T rest))
    (ran : m.step chain (.transferObjects [.result k] (.pure (.address owner))) = .ok after) :
    after.world = m.world.credit owner T rest := by
  have taken : m.take (.result k) = .ok (m.store (.result k) none,.coin T rest) := take_ok.mpr ⟨held,rfl⟩
  simp only [Machine.step,transferObjects,taken,ok_bind,pure_ok] at ran
  rw [← ran]
  exact congrArg (World.credit · owner T rest) (world_store m (.result k) none)

theorem opened_kept {commands : List Command} (ran : transact (Machine.step chain) m commands = .ok after) {o : Opened}
    (member : o ∈ m.opened) : o ∈ after.opened := by
  induction commands generalizing m with
  | nil =>
    obtain rfl := Except.ok.inj ran
    exact member
  | cons command rest ih =>
    rw [transact_cons,bind_ok] at ran
    obtain ⟨middle,first,later⟩ := ran
    refine ih later ?_
    cases step_stepped first with
    | began _ _ _ opened => exact opened ▸ List.mem_append_left _ member
    | closed _ _ _ _ _ opened => exact opened ▸ member
    | quiet _ _ opened => exact opened ▸ member

end steps

/-- The parts of such a block: what stands before the loan, the loan and its repayment, what
stands between `begin` and the gate, and the coin that the gate sees. -/
structure LoanBlock where
  first : List Command
  lend : MoveCall
  coinType : TypeTag
  minProfit : U64
  middle : List Command
  coin : Argument
  owed : U64
  repay : MoveCall

namespace LoanBlock
variable (b : LoanBlock)

/-- The place of the gate. -/
def gate : ℕ := b.first.length + 2 + b.middle.length

def begins (package : ObjectId) : Command :=
  .moveCall ⟨package,"executor","begin",[b.coinType],[.nestedResult b.first.length 0,.pure (.u64 b.minProfit)]⟩

def settles (package : ObjectId) : Command :=
  .moveCall ⟨package,"executor","settle_and_return",[b.coinType],[.nestedResult (b.first.length + 1) 1,b.coin]⟩

def splits : Command := .splitCoins (.result b.gate) [.pure (.u64 b.owed)]

def transfers (sender : Address) : Command := .transferObjects [.result b.gate] (.pure (.address sender))

def opening (package : ObjectId) : List Command := b.first ++ .moveCall b.lend :: b.begins package :: b.middle

def commands (package : ObjectId) (sender : Address) : List Command :=
  b.opening package ++ [b.settles package,b.splits,.moveCall b.repay,b.transfers sender]

/-- The lender hands out a coin of the size it is asked for, and its repayment takes the coin
that is split off behind the gate and what else the loan has returned. Neither call is one of
our own package, and nothing between the two names the loan or settles another session. -/
structure Lent (chain : Chain) (amount : U64) : Prop where
  lends : chain.callee b.lend = .outside
  coin : ∀ world values after row, chain.outside world b.lend values = .ok (after,row) →
    row[0]? = some (.coin b.coinType amount)
  repays : chain.callee b.repay = .outside
  pays : ∃ front, (∀ argument ∈ front, argument.command = none) ∧
    b.repay.arguments = front ++ [.nestedResult (b.gate + 1) 0,.nestedResult b.first.length 1]
  other : b.coin.command ≠ some b.first.length
  unread : ∀ command ∈ b.middle, ∀ argument ∈ command.arguments, argument.command ≠ some b.first.length
  quiet : ∀ command ∈ b.first ++ b.middle, chain.settles command = none

end LoanBlock

/-- What such a block has done when it lands: the loan came, `final` is what the gate has
accepted, and the repayment was passed what is owed and what else the loan had returned. -/
structure LoanOutcome (chain : Chain) (b : LoanBlock) (amount : U64) (spent : ℕ) (before after : World) (final : U64) : Prop where
  executed : execute chain before (b.commands chain.package chain.sender) = .ok after
  lent : yields chain before (b.commands chain.package chain.sender) b.first.length 0 = some (.coin b.coinType amount)
  settled : settlements chain before (b.commands chain.package chain.sender) = [⟨b.first.length + 1,b.coinType,final⟩]
  returned : ∃ loan, yields chain before (b.commands chain.package chain.sender) b.first.length 1 = some loan ∧
    passed chain before (b.commands chain.package chain.sender) (b.gate + 2) = some [.coin b.coinType b.owed,loan]
  profit : amount.val + b.minProfit.val ≤ final.val
  repaid : b.owed.val ≤ final.val
  paid : before.balances chain.sender b.coinType + (final.val - b.owed.val) ≤ after.balances chain.sender b.coinType
  exposed : Exposed chain.sender spent before after

section holds
variable {chain : Chain} {b : LoanBlock} {amount final : U64} {spent : ℕ} {before after : World}

theorem LoanOutcome.holds (outcome : LoanOutcome chain b amount spent before after final) (T : TypeTag) :
    before.holds chain.sender T ≤ after.holds chain.sender T + spent := by
  have owned := outcome.exposed.owned T
  have gas := outcome.exposed.gas
  unfold World.holds
  split
  · omega
  · omega

/-- Beyond the fee of the loan and what was split off the gas coin, the sender has the profit. -/
theorem LoanOutcome.earns (outcome : LoanOutcome chain b amount spent before after final) {fee : ℕ}
    (charged : b.owed.val ≤ amount.val + fee) :
    before.holds chain.sender b.coinType + b.minProfit.val ≤ after.holds chain.sender b.coinType + fee + spent := by
  have profit := outcome.profit
  have paid := outcome.paid
  have gas := outcome.exposed.gas
  unfold World.holds
  split
  · omega
  · omega

end holds

section outcome
variable {chain : Chain} {b : LoanBlock} {amount : U64} {before after : World} {m : Machine}

open Machine

namespace LoanBlock

/-- The machine behind the loan. -/
structure Taken (b : LoanBlock) (chain : Chain) (amount : U64) (before : World) (lent m : Machine) : Prop where
  run : transact (Machine.step chain) (Machine.start before) (b.first ++ [.moveCall b.lend]) = .ok lent
  length : lent.results.length = b.first.length + 1
  coin : lent.cell b.first.length 0 = some (.coin b.coinType amount)
  later : transact (Machine.step chain) lent (b.begins chain.package :: b.middle) = .ok m

theorem taken (lent : b.Lent chain amount)
    (ran : transact (Machine.step chain) (Machine.start before) (b.opening chain.package) = .ok m) :
    ∃ lent, b.Taken chain amount before lent m := by
  rw [opening,transact_append,bind_ok] at ran
  obtain ⟨m₀,first,ran⟩ := ran
  rw [transact_cons,bind_ok] at ran
  obtain ⟨m₁,lends,later⟩ := ran
  obtain ⟨taken,values,world,row,took,called,rfl⟩ := outside_ran lent.lends lends
  have length : (taken.withWorld world).results.length = b.first.length :=
    (quiet_takeValues took).length.trans (sessions_run first).length
  refine ⟨_,?_,?_,?_,later⟩
  · rw [transact_append,first,ok_bind,transact_cons,lends]
    rfl
  · rw [length_push,length]
  · rw [← length,cell_pushed]
    exact lent.coin _ _ _ _ called

/-- The receipt that the gate takes is the one of the `begin` behind the loan. -/
theorem receipt {loan : Machine} {receipt : ArbReceipt} (taken : b.Taken chain amount before loan m)
    (ran : transact (Machine.step chain) (Machine.start before) (b.opening chain.package) = .ok m)
    (held : m.receiptAt (b.first.length + 1) 1 = some receipt) :
    receipt.initialAmount = amount ∧ receipt.minProfit = b.minProfit := by
  have inv := sessions_run ran
  have later := taken.later
  rw [transact_cons,bind_ok] at later
  obtain ⟨m₂,begins,later⟩ := later
  have here := opened_kept later (begin_ran taken.coin begins)
  rw [taken.length] at here
  obtain ⟨o,opened,place,sameAmount,sameProfit⟩ := inv.held _ _ _ held
  have same : o = ⟨b.first.length + 1,b.coinType,amount,b.minProfit⟩ := List.inj_on_of_nodup_map inv.once opened here place
  exact ⟨sameAmount.symm.trans (congrArg Opened.amount same),sameProfit.symm.trans (congrArg Opened.minProfit same)⟩

/-- What else the loan has returned is still there at the end of the session. -/
theorem kept {loan : Machine} (lent : b.Lent chain amount) (taken : b.Taken chain amount before loan m) :
    m.cell b.first.length 1 = loan.cell b.first.length 1 := by
  refine cell_run taken.later (fun command member argument named => ?_) (by rw [taken.length]; exact Nat.lt_succ_self _)
  rcases List.mem_cons.mp member with rfl | inside
  · simp only [begins,Command.arguments,List.mem_cons,List.not_mem_nil,or_false] at named
    rcases named with rfl | rfl
    · exact ⟨by simp,by simp⟩
    · exact ⟨by simp,by simp⟩
  · exact avoids_of_command (lent.unread command inside argument named) 1

theorem unsettled (lent : b.Lent chain amount)
    (ran : transact (Machine.step chain) (Machine.start before) (b.opening chain.package) = .ok m) : m.settled = [] := by
  refine settled_run ran fun command member => ?_
  simp only [opening,List.mem_append,List.mem_cons] at member
  rcases member with first | rfl | rfl | middle
  · exact lent.quiet command (List.mem_append_left _ first)
  · simp [Chain.settles,lent.lends]
  · simp [begins,Chain.settles,Chain.callee]
  · exact lent.quiet command (List.mem_append_right _ middle)

theorem first_lt_gate (b : LoanBlock) : b.first.length < b.gate := by
  unfold gate
  omega

theorem length_opening (b : LoanBlock) (package : ObjectId) : (b.opening package).length = b.gate := by
  simp only [opening,gate,List.length_append,List.length_cons]
  omega

/-- The repayment does not take the rest of the proceeds. -/
theorem leaves (lent : b.Lent chain amount) : ∀ argument ∈ b.repay.arguments, argument.command ≠ some b.gate := by
  obtain ⟨front,plain,arguments⟩ := lent.pays
  intro argument member same
  simp only [arguments,List.mem_append,List.mem_cons,List.not_mem_nil,or_false] at member
  rcases member with inside | rfl | rfl
  · cases (plain argument inside).symm.trans same
  · exact Nat.succ_ne_self _ (Option.some.inj same)
  · exact b.first_lt_gate.ne (Option.some.inj same)

/-- Behind objects and plain values a call takes two results. -/
theorem takes_two {last : Machine} {front : List Argument} {values : List Value} {i k : ℕ} (other : i ≠ k)
    (plain : ∀ argument ∈ front, argument.command = none)
    (taken : m.takeValues (front ++ [.nestedResult i 0,.nestedResult k 1]) = .ok (last,values)) :
    ∃ coin receipt, values = [coin,receipt] ∧ m.cell i 0 = some coin ∧ m.cell k 1 = some receipt := by
  rw [takeValues_front plain] at taken
  simp only [takeValues,bind_ok,Prod.exists,take_ok,pure_ok,Except.ok.injEq,Prod.mk.injEq] at taken
  obtain ⟨_,coin,⟨here,rfl⟩,_,_,⟨_,receipt,⟨there,rfl⟩,_,_,⟨rfl,rfl⟩,rfl,rfl⟩,-,rfl⟩ := taken
  refine ⟨coin,receipt,rfl,here,?_⟩
  have kept : (m.store (.nestedResult i 0) none).cell k 1 = m.cell k 1 := by
    apply cell_store_other
    exact ⟨by simp,by simp [other]⟩
  exact kept ▸ there

section ending
variable {loan m₃ m₄ m₅ m₆ m₇ : Machine} {rows : List (List (Option Value))} {final : U64}

/-- Between the gate and the repayment nothing touches what the loan has returned, so that the
repayment is passed this and the coin that was split off. -/
theorem repaying (lent : b.Lent chain amount) (taken : b.Taken chain amount before loan m₃)
    (gated : m₃.step chain (b.settles chain.package) = .ok m₄) (size : m₃.results.length = b.gate)
    (place : rows.length = b.gate) (results : m₄.results = rows ++ [[some (.coin b.coinType final)]])
    (split : m₄.step chain b.splits = .ok m₅) (repaid : m₅.step chain (.moveCall b.repay) = .ok m₆) :
    ∃ last receipt, m₅.takeValues b.repay.arguments = .ok (last,[.coin b.coinType b.owed,receipt]) ∧
      loan.cell b.first.length 1 = some receipt := by
  have before := b.first_lt_gate
  have first : m₄.cell b.first.length 1 = m₃.cell b.first.length 1 := by
    refine cell_step gated (fun argument named => ?_) (by omega)
    simp only [settles,Command.arguments,List.mem_cons,List.not_mem_nil,or_false] at named
    rcases named with rfl | rfl
    · exact ⟨by simp,by simp⟩
    · exact avoids_of_command lent.other 1
  have second : m₅.cell b.first.length 1 = m₄.cell b.first.length 1 := by
    refine cell_step split (fun argument named => ?_) (by rw [results,List.length_append]; omega)
    simp only [splits,Command.arguments,List.mem_cons,List.not_mem_nil,or_false] at named
    rcases named with rfl | rfl
    · exact ⟨by simp [before.ne'],by simp⟩
    · exact ⟨by simp,by simp⟩
  obtain ⟨last,values,world,row,took,-,-⟩ := outside_ran lent.repays repaid
  obtain ⟨front,plain,arguments⟩ := lent.pays
  rw [splits,← place] at split
  obtain ⟨rest,-,-,owed⟩ := splits_ran results split
  rw [place] at owed
  have paid := took
  rw [arguments] at paid
  obtain ⟨coin,receipt,rfl,here,there⟩ := takes_two (by omega) plain paid
  obtain rfl := Option.some.inj (owed.symm.trans here)
  exact ⟨last,receipt,took,((second.trans first).trans (kept lent taken)).symm.trans there⟩

/-- What is left of the coin behind the repayment is the sender's. -/
theorem leaving (lent : b.Lent chain amount) (place : rows.length = b.gate)
    (results : m₄.results = rows ++ [[some (.coin b.coinType final)]]) (split : m₄.step chain b.splits = .ok m₅)
    (repaid : m₅.step chain (.moveCall b.repay) = .ok m₆) (moved : m₆.step chain (b.transfers chain.sender) = .ok m₇) :
    ∃ rest : U64, rest.val + b.owed.val = final.val ∧ m₇.world = m₆.world.credit chain.sender b.coinType rest := by
  rw [splits,← place] at split
  obtain ⟨rest,parts,left,-⟩ := splits_ran results split
  rw [place] at left
  obtain ⟨last,values,world,row,took,-,rfl⟩ := outside_ran lent.repays repaid
  have kept : ((last.withWorld world).push row).peek (.result b.gate) = some (.coin b.coinType rest) :=
    peek_push ((peek_takeValues took (leaves lent)).trans left)
  exact ⟨rest,parts,transfer_ran kept moved⟩

end ending

theorem commands_loan (b : LoanBlock) (package : ObjectId) (sender : Address) :
    b.commands package sender = (b.first ++ [.moveCall b.lend]) ++
      (b.begins package :: b.middle ++ [b.settles package,b.splits,.moveCall b.repay,b.transfers sender]) := by
  simp [commands,opening]

theorem commands_repay (b : LoanBlock) (package : ObjectId) (sender : Address) :
    b.commands package sender =
      (b.opening package ++ [b.settles package,b.splits]) ++ .moveCall b.repay :: [b.transfers sender] := by
  simp [commands]

end LoanBlock

/-- A block that lands has passed its gate and paid what is owed, and the rest is the sender's. -/
theorem loan_outcome (spares : chain.Spares) (lent : b.Lent chain amount)
    (landed : execute chain before (b.commands chain.package chain.sender) = .ok after) :
    ∃ final, LoanOutcome chain b amount (spent (b.commands chain.package chain.sender)) before after final := by
  obtain ⟨m,whole,-,rfl⟩ := execute_ok.mp landed
  have ran := whole
  rw [LoanBlock.commands,transact_append,bind_ok] at ran
  obtain ⟨m₃,opening,ran⟩ := ran
  rw [transact_cons,bind_ok] at ran
  obtain ⟨m₄,gated,ran⟩ := ran
  have quiet : m.settled = m₄.settled := by
    refine settled_run ran fun command member => ?_
    simp only [List.mem_cons,List.not_mem_nil,or_false] at member
    rcases member with rfl | rfl | rfl
    · rfl
    · simp [Chain.settles,lent.repays]
    · rfl
  simp only [transact_cons,transact_nil,bind_ok,Except.ok.injEq] at ran
  obtain ⟨m₅,split,m₆,repaid,m₇,moved,rfl⟩ := ran
  obtain ⟨loan,taken⟩ := LoanBlock.taken lent opening
  obtain ⟨receipt,final,rows,held,reached,length,results,accepted⟩ := gate_ran gated
  obtain ⟨sameAmount,sameProfit⟩ := LoanBlock.receipt taken opening held
  have size := (sessions_run opening).length.trans (b.length_opening chain.package)
  obtain ⟨last,kept,took,returned⟩ := LoanBlock.repaying lent taken gated size (length.trans size) results split repaid
  obtain ⟨rest,parts,credited⟩ := LoanBlock.leaving lent (length.trans size) results split repaid moved
  have shown (j : ℕ) : yields chain before (b.commands chain.package chain.sender) b.first.length j = loan.cell b.first.length j := by
    rw [b.commands_loan]
    exact yields_append taken.run (List.length_append.trans rfl) _ j
  have there : transact (Machine.step chain) (Machine.start before) (b.opening chain.package ++ [b.settles chain.package,b.splits]) =
      .ok m₅ := by
    simp only [transact_append,opening,ok_bind,transact_cons,gated,split,transact_nil]
  have given := passed_append there took [b.transfers chain.sender]
  rw [← b.commands_repay,List.length_append,b.length_opening] at given
  rw [sameAmount,sameProfit] at reached
  refine ⟨final,landed,(shown 0).trans taken.coin,?_,⟨kept,(shown 1).trans returned,given⟩,reached,by omega,?_,
    transact_exposed spares whole⟩
  · rw [settlements_of_run whole,quiet,accepted,LoanBlock.unsettled lent opening,List.nil_append]
  · have early := ((transact_exposed spares opening).trans (step_exposed spares gated)).trans
      ((step_exposed spares split).trans (step_exposed spares repaid))
    have least : before.balances chain.sender b.coinType ≤ m₆.world.balances chain.sender b.coinType := early.owned b.coinType
    rw [credited]
    simp only [World.credit,and_self,if_true]
    have size : rest.val = final.val - b.owed.val := by omega
    rw [← size]
    exact Nat.add_le_add_right least _

end outcome

end SuiArbitrage.Move
