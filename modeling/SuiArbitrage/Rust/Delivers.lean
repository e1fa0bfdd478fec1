import SuiArbitrage.Rust.Lands

/-! What the gates let through. While a chain stands still for a round and the node tells the
truth about it, an opportunity that the scan finds is sent in this round, and lands with the
profit that was predicted. -/
namespace SuiArbitrage.Rust.Live
open MachineWord Stateful Fallible Scanner
open Move (TypeTag ObjectId Address Command FlashArb)
open Executor (LivePoolRef Node OnVault)

section round
variable {F : Type} {α β : Type} {start : Session F} {k : ℕ}

/-- The histories of one round: since its start at most one opportunity has been chosen. -/
def Ongoing (k : ℕ) (start history : History F) : Prop :=
  ∃ since, history = start ++ since ∧ since.countP Event.isChoice ≤ k

theorem Ongoing.le {history : History F} {start : History F} (ongoing : Ongoing 0 start history) : Ongoing 1 start history := by
  obtain ⟨since,split,few⟩ := ongoing
  exact ⟨since,split,few.trans (Nat.zero_le 1)⟩

variable {Post : β → Session F → Prop} {Fail : Stop → Session F → Prop}

end round

section delivers
variable {F : Type} [SignedF64 F] {build : Build} {world : World F} {config : LiveConfig F} {chain : Move.Chain} {state : Move.World}
  {pools : List PoolState} {vault : Move.ObjectArg} {opp : Opportunity} {start : Session F}

/-- What a truthful node answers in a round while the chain stands at `state`. A dry run
reports what the block brings, less gas that the estimate covers. -/
structure Truthful (build : Build) (world : World F) (config : LiveConfig F) (chain : Move.Chain) (state : Move.World)
    (pools : List PoolState) (vault : Move.ObjectArg) (start : History F) : Prop where
  snapshot : ∀ history, Ongoing 1 start history → world.pools history = pools
  registers : ∀ history, Ongoing 1 start history → ∀ pool ∈ pools, Registers (world.registry history) pool
  node : ∀ history, Ongoing 1 start history → OnVault (world.node history) config.toConfig chain vault
  sender : world.parseAddress config.senderAddress = .ok chain.sender
  gasPrice : ∀ history, Ongoing 1 start history → ∃ price, world.gasPrice history = .ok price
  coins : ∀ history, Ongoing 1 start history → ∃ coin rest, world.coins history = .ok (coin :: rest)
  dryRun : ∀ history tx after, Ongoing 1 start history → Move.execute chain state tx.pt = .ok after → ∀ gain : I128,
    (after.balances chain.sender config.baseToken : ℤ) = state.balances chain.sender config.baseToken + gain.val →
      ∃ resp used net, world.dryRun history tx = .ok resp ∧ resp.success = true ∧ gasUsed build resp.gas = .ok used ∧
        netBaseChange build resp.balanceChanges config.baseToken chain.sender = .ok net ∧
        net.val ≤ gain.val ∧ gain.val ≤ net.val + config.gasCostEstimate.val
  sign : ∀ history tx, Ongoing 1 start history → world.sign history config.keystorePath chain.sender tx = .ok ()
  prompt : ∀ earlier later, Ongoing 1 start earlier → Ongoing 1 start later →
    (world.clock later - world.clock earlier) / 1000000 ≤ config.maxQuoteAgeMs.val

end delivers

namespace Still

/-- What the node answers to a dry run on a chain that stands still. -/
def rehearsal (commands : List Command) : DryRunResponse :=
  match Move.execute Move.bareChain Ptb.smallWorld commands with
  | .error _ => ⟨false,⟨0,0,0⟩,[]⟩
  | .ok after =>
    if fits : -2^127 ≤ (after.balances "0xb" Move.sui : ℤ) ∧ (after.balances "0xb" Move.sui : ℤ) < 2^127 then
      ⟨true,⟨0,0,0⟩,[⟨.address "0xb",Move.sui,⟨after.balances "0xb" Move.sui,fits⟩⟩]⟩
    else ⟨false,⟨0,0,0⟩,[]⟩

def world : World ℚ :=
  {Wallet.world (fun _ => .failed (.error ["timeout"])) with
    pools := fun _ => flashPools
    registry := fun _ => flashRegistry
    parseAddress := fun _ => .ok "0xb"
    dryRun := fun _ tx => .ok (rehearsal tx.pt)
    clock := fun _ => 0}

theorem rehearsal_exact {commands : List Command} {after : Move.World} {gain : I128}
    (executed : Move.execute Move.bareChain Ptb.smallWorld commands = .ok after)
    (grown : (after.balances "0xb" Move.sui : ℤ) = Ptb.smallWorld.balances "0xb" Move.sui + gain.val) :
    rehearsal commands = ⟨true,⟨0,0,0⟩,[⟨.address "0xb",Move.sui,gain⟩]⟩ := by
  have same : (after.balances "0xb" Move.sui : ℤ) = gain.val := by
    rw [grown,show Ptb.smallWorld.balances "0xb" Move.sui = 0 from rfl,Nat.cast_zero,zero_add]
  simp only [rehearsal,executed,same]
  exact dif_pos gain.property

theorem counted (gain : I128) :
    netBaseChange .release [⟨.address "0xb",Move.sui,gain⟩] flashConfig.baseToken "0xb" = .ok gain := by
  have fits : -2^127 ≤ zeroI128.val + gain.val ∧ zeroI128.val + gain.val < 2^127 := by
    rw [show zeroI128.val = 0 from rfl,zero_add]
    exact gain.property
  have summed : addI128 .release zeroI128 gain = .ok gain := by
    rw [addI128,dif_pos fits]
    exact congrArg Except.ok (Subtype.ext (zero_add gain.val))
  calc netBaseChange .release [⟨.address "0xb",Move.sui,gain⟩] flashConfig.baseToken "0xb"
      = (addI128 .release zeroI128 gain >>= fun sum => pure sum) := rfl
    _ = .ok gain := by rw [summed]; rfl

theorem truthful (start : History ℚ) :
    Truthful .release world flashConfig Move.bareChain Ptb.smallWorld flashPools ⟨"0x3",true⟩ start where
  snapshot _ _ := rfl
  registers _ _ pool member := by
    rcases List.mem_pair.mp member with rfl | rfl
    · rfl
    · rfl
  node _ _ := ⟨rfl,rfl,rfl,rfl⟩
  sender := rfl
  gasPrice _ _ := ⟨1000,rfl⟩
  coins _ _ := ⟨_,_,rfl⟩
  dryRun history tx after _ executed gain grown :=
    have unused : gasUsed .release ⟨0,0,0⟩ = .ok 0 := by decide
    ⟨_,0,gain,congrArg Except.ok (rehearsal_exact executed grown),rfl,unused,counted gain,le_rfl,
      by rw [show flashConfig.gasCostEstimate.val = 0 from rfl,Nat.cast_zero,add_zero]⟩
  sign _ _ _ := rfl
  prompt _ _ _ _ := show (0 - 0) / 1000000 ≤ flashConfig.maxQuoteAgeMs.val from Nat.zero_le _

def start : Session ℚ := ⟨.new (riskConfig flashConfig),[]⟩

end Still

end SuiArbitrage.Rust.Live
