import SuiArbitrage.Move.Encapsulation

/-! The chain and all of its users. Over any history of blocks of any senders no vault and no
pool of ours loses, nor an address that sends nothing. -/
namespace SuiArbitrage.Move
open MachineWord Fallible Executor Flash

section blocks
variable {chain : Chain} {before after : World} {commands : List Command}

theorem lends_reserve {vaults last : Vaults} (lends : Lends vaults [] last []) {id : ObjectId} {vault : Vault}
    (here : vaults.get id = some vault) :
    ∃ now, last.get id = some now ∧ now.lender.feeBps = vault.lender.feeBps ∧ vault.lender.reserve ≤ now.lender.reserve := by
  obtain ⟨calls,final,ran,rfl,nothing⟩ := lends ⟨vaults,[],[]⟩ ⟨rfl,.refl _⟩
  obtain rfl := KeyedStore.get_key here
  obtain ⟨now,books⟩ := transact_accounted here ran
  have balance := books.balance
  rw [nothing.eq_nil] at balance
  simp only [booked_nil] at balance
  exact ⟨now,books.located,books.sameFee,by rw [Fin.le_def]; omega⟩

theorem owed_spent {m : Machine} (spent : m.spent = true) : m.owed = [] := by
  have empty : ∀ row ∈ m.results, ∀ cell ∈ row, cell = none := by
    simpa [Machine.spent] using spent
  refine List.filterMap_eq_nil_iff.mpr fun cell member => ?_
  obtain ⟨row,inside,member⟩ := List.mem_flatten.mp member
  rw [empty row inside cell member]
  rfl

/-- A block that lands is a session of loans that are all paid back, and a series of trades. -/
theorem execute_respects (encapsulated : chain.Encapsulated) (ran : execute chain before commands = .ok after) :
    Lends before.vaults [] after.vaults [] ∧ Trades before.pools after.pools ∧
      ∀ other, other ≠ chain.sender → ∀ T, before.balances other T ≤ after.balances other T := by
  simp only [execute,bind_ok] at ran
  obtain ⟨m,ran,finished⟩ := ran
  split at finished
  next spent =>
    obtain rfl := Except.ok.inj finished
    have respects := transact_respects encapsulated ran
    have vaults := respects.vaults
    rw [owed_spent spent] at vaults
    exact ⟨vaults,respects.pools,respects.owned⟩
  next => cases finished

theorem commit_respects (encapsulated : chain.Encapsulated) (before : World) (commands : List Command) :
    Lends before.vaults [] (commit chain before commands).vaults [] ∧ Trades before.pools (commit chain before commands).pools ∧
      ∀ other, other ≠ chain.sender → ∀ T, before.balances other T ≤ (commit chain before commands).balances other T := by
  unfold commit attempt
  cases ran : execute chain before commands with
  | error failure => exact ⟨lends_of_perm (.refl _),.refl _,fun _ _ _ => le_rfl⟩
  | ok after => exact execute_respects encapsulated ran

end blocks

/-- The adapters keep to themselves where the venues do, whoever owns what. -/
theorem venues_encapsulated {venues : Venues} {package : ObjectId} {sender : Address} (confined : ∀ who, venues.Confined who)
    (elsewhere : (Chain.mk package sender venues.elsewhere).Encapsulated) : (venues.chain package sender).Encapsulated where
  vaults world c values after row ran others := by
    rcases outside_cases ran with beyond | ⟨T,U,amount,out,rfl,rfl,apart⟩
    · exact elsewhere.vaults world c values after row beyond others
    · rw [(apart sender (confined sender)).vaults]
      exact lends_of_perm (.refl _)
  pools world c values after row ran := by
    rcases outside_cases ran with beyond | ⟨T,U,amount,out,rfl,rfl,apart⟩
    · exact elsewhere.pools world c values after row beyond
    · rw [(apart sender (confined sender)).pools]
      exact .refl _
  owned world c values after row ran other stranger T := by
    rcases outside_cases ran with beyond | ⟨_,_,_,_,rfl,rfl,apart⟩
    · exact elsewhere.owned world c values after row beyond other stranger T
    · exact (apart other (confined other)).owned T

/-- The published package, and all other code as each sender reaches it. -/
structure Network where
  package : String
  outside : Address → World → MoveCall → List Value → Except Failure (World × List Value)

def Network.chain (network : Network) (sender : Address) : Chain := ⟨network.package,sender,network.outside sender⟩

/-- The chain as all of its users share it: each has a gas coin of its own. -/
structure Ledger where
  pools : Pools
  vaults : Vaults
  balances : Address → TypeTag → ℕ
  gas : Address → U64

namespace Ledger

def seenBy (ledger : Ledger) (sender : Address) : World := ⟨ledger.pools,ledger.vaults,ledger.balances,ledger.gas sender⟩

def wrote (ledger : Ledger) (sender : Address) (world : World) : Ledger :=
  ⟨world.pools,world.vaults,world.balances,Function.update ledger.gas sender world.gas⟩

def submit (network : Network) (ledger : Ledger) (block : Address × List Command) : Ledger :=
  ledger.wrote block.1 (commit (network.chain block.1) (ledger.seenBy block.1) block.2)

/-- Blocks of any senders, one after the other. -/
def run (network : Network) (ledger : Ledger) (history : List (Address × List Command)) : Ledger :=
  history.foldl (submit network) ledger

variable {network : Network} {ledger : Ledger} {history : List (Address × List Command)} {block : Address × List Command}

theorem run_cons : ledger.run network (block :: history) = (ledger.submit network block).run network history := rfl

/-- What no history of blocks takes away. -/
structure Spares (bystander : Address → Prop) (before after : Ledger) : Prop where
  vaults : ∀ id vault, before.vaults.get id = some vault →
    ∃ now, after.vaults.get id = some now ∧ now.lender.feeBps = vault.lender.feeBps ∧ vault.lender.reserve ≤ now.lender.reserve
  pools : ∀ id listed, before.pools.get id = some listed →
    ∃ now, after.pools.get id = some now ∧ listed.product ≤ now.product
  owned : ∀ other, bystander other → ∀ T, before.balances other T ≤ after.balances other T
  gas : ∀ other, bystander other → after.gas other = before.gas other

theorem Spares.refl (bystander : Address → Prop) (ledger : Ledger) : Spares bystander ledger ledger :=
  ⟨fun _ vault here => ⟨vault,here,rfl,le_rfl⟩,fun _ listed here => ⟨listed,here,le_rfl⟩,fun _ _ _ => le_rfl,fun _ _ => rfl⟩

theorem Spares.trans {bystander : Address → Prop} {before middle after : Ledger} (first : Spares bystander before middle)
    (second : Spares bystander middle after) : Spares bystander before after := by
  refine ⟨fun id vault here => ?_,fun id listed here => ?_,
    fun other apart T => (first.owned other apart T).trans (second.owned other apart T),
    fun other apart => (second.gas other apart).trans (first.gas other apart)⟩
  · obtain ⟨now,there,fee,grown⟩ := first.vaults id vault here
    obtain ⟨last,found,sameFee,onward⟩ := second.vaults id now there
    exact ⟨last,found,sameFee.trans fee,grown.trans onward⟩
  · obtain ⟨now,there,grown⟩ := first.pools id listed here
    obtain ⟨last,found,onward⟩ := second.pools id now there
    exact ⟨last,found,grown.trans onward⟩

theorem submit_spares (encapsulated : ∀ sender, (network.chain sender).Encapsulated) (ledger : Ledger)
    (block : Address × List Command) : Spares (· ≠ block.1) ledger (ledger.submit network block) := by
  obtain ⟨vaults,pools,owned⟩ := commit_respects (encapsulated block.1) (ledger.seenBy block.1) block.2
  exact ⟨fun _ _ here => lends_reserve vaults here,fun _ _ here => pools.product here,owned,
    fun other apart => Function.update_of_ne apart _ _⟩

/-- Over every history, whoever sends whatever: each vault keeps its fee and has at least its
reserve, no pool's product falls, and who sends nothing has lost nothing. -/
theorem run_spares (encapsulated : ∀ sender, (network.chain sender).Encapsulated) (ledger : Ledger)
    (history : List (Address × List Command)) :
    Spares (fun other => ∀ block ∈ history, other ≠ block.1) ledger (ledger.run network history) := by
  induction history generalizing ledger with
  | nil => exact .refl _ ledger
  | cons block rest ih =>
    have first := submit_spares encapsulated ledger block
    have later := ih (ledger.submit network block)
    rw [run_cons]
    refine Spares.trans ⟨first.vaults,first.pools,fun other apart => ?_,fun other apart => ?_⟩
      ⟨later.vaults,later.pools,fun other apart => ?_,fun other apart => ?_⟩
    · exact first.owned other (apart block List.mem_cons_self)
    · exact first.gas other (apart block List.mem_cons_self)
    · exact later.owned other fun block member => apart block (List.mem_cons_of_mem _ member)
    · exact later.gas other fun block member => apart block (List.mem_cons_of_mem _ member)

section routed

/-- A package of someone else, whose only function swaps a coin through one of our pools. -/
def router (world : World) (c : MoveCall) (values : List Value) : Except Failure (World × List Value) :=
  match c.typeArguments,c.arguments,values with
  | [A,B],[.object pool,_],[.coin T amount] =>
    if c.package = "0x99" ∧ T = A then do
      let (pools,out) ← world.pools.swap A B pool.id true amount 0
      return (world.withPools pools,[.coin B out])
    else .error .argument
  | _,_,_ => .error .argument

def routed : Network := ⟨"0xa",fun _ => router⟩

theorem router_ok {world after : World} {c : MoveCall} {values row : List Value}
    (ran : router world c values = .ok (after,row)) :
    ∃ A B id amount out pools, world.pools.swap A B id true amount 0 = .ok (pools,out) ∧ after = world.withPools pools ∧
      values = [.coin A amount] ∧ row = [.coin B out] := by
  unfold router at ran
  split at ran
  next A B pool argument T amount types arguments =>
    split at ran
    next guard =>
      obtain ⟨-,rfl⟩ := guard
      simp only [bind_ok,Prod.exists,pure_ok,Prod.mk.injEq] at ran
      obtain ⟨pools,out,swapped,rfl,rfl⟩ := ran
      exact ⟨_,_,_,_,out,pools,swapped,rfl,rfl,rfl⟩
    next => cases ran
  next => cases ran

theorem routed_encapsulated (sender : Address) : (routed.chain sender).Encapsulated where
  vaults _ _ _ _ _ ran _ := by
    obtain ⟨A,B,id,amount,out,pools,-,rfl,rfl,rfl⟩ := router_ok ran
    exact lends_of_perm (.refl _)
  pools _ _ _ _ _ ran := by
    obtain ⟨A,B,id,amount,out,pools,swapped,rfl,-,-⟩ := router_ok ran
    refine ⟨[.swap A B id true amount 0],?_⟩
    simp only [transact_cons,poolsStep,swapped,ok_bind,pure_eq_ok,transact_nil]
    rfl
  owned _ _ _ _ _ ran _ _ _ := by
    obtain ⟨A,B,id,amount,out,pools,-,rfl,-,-⟩ := router_ok ran
    exact le_rfl

def lent : Vault := ⟨sui,⟨"0xf",1000000,30⟩⟩

def shared : Ledger :=
  ⟨⟨[⟨sui,usdc,⟨"0x1",3000000,9000000,30⟩⟩],by decide⟩,⟨[lent],by decide⟩,
    fun who _ => if who = "0xb" then 7 else 0,fun _ => 2000⟩

/-- One borrower runs away with its loan, which fails; another pays back from its gas coin; a
third trades through the router. -/
def visitors : List (Address × List Command) :=
  let borrow : Command := .moveCall ⟨"0xa","flash","borrow",[sui],[.object ⟨"0xf",true⟩,.pure (.u64 1000)]⟩
  let repay : Command := .moveCall ⟨"0xa","flash","repay",[sui],[.object ⟨"0xf",true⟩,.nestedResult 0 1,.nestedResult 0 0]⟩
  [("0xe",[borrow,.transferObjects [.nestedResult 0 0] (.pure (.address "0xe"))]),
    ("0xd",[borrow,.splitCoins .gasCoin [.pure (.u64 10)],.mergeCoins (.nestedResult 0 0) [.result 1],repay,
      .transferObjects [.result 3] (.pure (.address "0xd"))]),
    ("0xc",[.splitCoins .gasCoin [.pure (.u64 500)],
      .moveCall ⟨"0x99","router","swap",[sui,usdc],[.object ⟨"0x1",true⟩,.result 0]⟩,
      .transferObjects [.result 1] (.pure (.address "0xc"))])]

/-- The vault has earned its fee of three, and who sent nothing still has its seven. -/
theorem run_spares_visitors : ∃ now, (shared.run routed visitors).vaults.get "0xf" = some now ∧
    now.lender.feeBps = 30 ∧ now.lender.reserve = 1000003 ∧ lent.lender.reserve ≤ now.lender.reserve ∧
    7 ≤ (shared.run routed visitors).balances "0xb" usdc := by
  have spares := run_spares routed_encapsulated shared visitors
  obtain ⟨now,there,fee,grown⟩ := spares.vaults "0xf" lent rfl
  have earned : (shared.run routed visitors).vaults.get "0xf" = some ⟨sui,⟨"0xf",1000003,30⟩⟩ := by decide +kernel
  have same := Option.some.inj (there.symm.trans earned)
  exact ⟨now,there,fee,same ▸ rfl,grown,spares.owned "0xb" (by decide) usdc⟩

end routed

theorem seenBy_submit (ledger : Ledger) (sender : Address) (commands : List Command) :
    (ledger.submit network (sender,commands)).seenBy sender = commit (network.chain sender) (ledger.seenBy sender) commands := by
  simp only [submit,wrote,seenBy,Function.update_self]

/-- What the others send takes nothing from a sender: to it their blocks are steps that spare it. -/
theorem interleaved (encapsulated : ∀ sender, (network.chain sender).Encapsulated) (sender : Address) (sent : List Command → Prop)
    (ledger : Ledger) (history : List (Address × List Command))
    (ours : ∀ commands, (sender,commands) ∈ history → sent commands) :
    Interleaved (network.chain sender) sent (ledger.seenBy sender) ((ledger.run network history).seenBy sender) := by
  induction history using List.reverseRecOn with
  | nil => exact .refl _
  | append_singleton earlier block ih =>
    have before := ih fun commands member => ours commands (List.mem_append_left _ member)
    have last : ledger.run network (earlier ++ [block]) = (ledger.run network earlier).submit network block := by
      rw [run,List.foldl_append]
      rfl
    rw [last]
    obtain ⟨who,commands⟩ := block
    by_cases mine : who = sender
    · subst mine
      rw [seenBy_submit]
      exact before.ours (ours commands (List.mem_append_right _ (List.mem_singleton.mpr rfl)))
    · refine before.others fun T => ?_
      have spares := submit_spares encapsulated (ledger.run network earlier) (who,commands)
      have gas := spares.gas sender (Ne.symm mine)
      have owned := spares.owned sender (Ne.symm mine) T
      simp only [World.holds,seenBy,Network.chain] at owned gas ⊢
      rw [gas]
      exact Nat.add_le_add_right owned _

end Ledger

end SuiArbitrage.Move
