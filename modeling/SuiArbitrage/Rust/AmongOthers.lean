import SuiArbitrage.Move.Crowd
import SuiArbitrage.Rust.MarketLoans

/-! The live loop on a chain that it shares with everyone else. -/
namespace SuiArbitrage.Rust.Live
open MachineWord Stateful Scanner
open Move (Venues Network TypeTag ObjectId Address Command Argument)

section others
variable {F : Type} [SignedF64 F] {build : Build} {world : World F} {config : LiveConfig F} {venues : Venues}
  {baseType : TypeTag} {package : ObjectId} {sender : Address}

/-- The configuration fits the chain, with our vault as the lender or with a market that lends. -/
def Fits (world : World F) (config : LiveConfig F) (venues : Venues) (baseType : TypeTag) (package : ObjectId) (sender : Address) :
    Prop :=
  Configured world config baseType package sender ∨
    ∃ market, MarketConfigured world config baseType package market sender ∧ LendingMarket venues sender market

/-- In whatever state it meets, a transaction of the live loop takes nothing from its sender. -/
theorem Composes.holds {trace : History F} {tx : TransactionData} (composed : Composes build world config trace tx)
    (fits : Fits world config venues baseType package sender) (confined : venues.Confined sender) (before : Move.World) (T : TypeTag) :
    before.holds sender T ≤ (Move.commit (venues.chain package sender) before tx.pt).holds sender T := by
  rcases fits with configured | ⟨market,configured,lending⟩
  · obtain rfl := composed.sent_by configured.sender
    rcases composed.lands configured confined before with unchanged | landed
    · rw [unchanged]
    · exact landed.holds T
  · obtain rfl := composed.sent_by configured.sender
    rcases composed.lands_market configured confined lending before with unchanged | landed
    · rw [unchanged]
    · exact landed.holds T

/-- Among any blocks of any other users, which may call anything: as long as the sender sends
what its live loop sent, in any order and as often as it may be, it has never less of a coin. -/
theorem runLive_among_others (build : Build) (world : World F) (config : LiveConfig F) (n : ℕ)
    (fits : Fits world config venues baseType package sender) (confined : venues.Confined sender) {network : Network}
    (ours : network.chain sender = venues.chain package sender) (encapsulated : ∀ who, (network.chain who).Encapsulated)
    (ledger : Move.Ledger) (history : List (Address × List Command))
    (sends : ∀ commands, (sender,commands) ∈ history →
      ∃ tx delivery, .executed tx delivery ∈ (runLive build world config n).2.trace ∧ tx.pt = commands) (T : TypeTag) :
    (ledger.seenBy sender).holds sender T ≤ ((ledger.run network history).seenBy sender).holds sender T := by
  have among := Move.Ledger.interleaved encapsulated sender _ ledger history sends
  rw [ours] at among
  refine among.holds (fun commands sent before T => ?_) T
  obtain ⟨tx,delivery,member,rfl⟩ := sent
  exact (runLive_sent n tx delivery member).2.holds fits confined before T

end others

namespace Wallet

/-- Everyone reaches the venues as the wallet does. -/
def everyone : Network := ⟨"0xa",fun who => Ptb.mixedVenues.outside "0xa" who⟩

theorem everyone_encapsulated (who : Address) : (everyone.chain who).Encapsulated :=
  Move.venues_encapsulated Ptb.mixedVenues_confined ⟨nofun,nofun,nofun⟩

/-- The pools of the wallet's snapshot, shared with a trader. -/
def market : Move.Ledger := ⟨ledger.pools,ledger.vaults,ledger.balances,fun _ => ledger.gas⟩

/-- A trader moves a pool between two sends of the same transaction. -/
def crowded (commands : List Command) : List (Address × List Command) :=
  let trade : Command := .moveCall ⟨"0xa","amm_v2_adapter","swap_exact_in_b_to_a",[Move.sui,Move.usdc],
    [.object ⟨"0x2",true⟩,.result 1,.pure (.u64 0)]⟩
  let back : Command := .moveCall ⟨"0xa","amm_v2_adapter","swap_exact_in_a_to_b",[Move.sui,Move.usdc],
    [.object ⟨"0x1",true⟩,.result 0,.pure (.u64 0)]⟩
  [(me,commands),("0xe",[.splitCoins .gasCoin [.pure (.u64 70)],back,trade,
    .transferObjects [.result 2] (.pure (.address "0xe"))]),(me,commands)]

theorem runLive_among_others_wallet : ∃ tx delivery,
    .executed tx delivery ∈ (runLive .debug (world fun _ => replied 4) config 1).2.trace ∧
    (market.run everyone (crowded tx.pt)).gas "0xe" ≠ market.gas "0xe" ∧
    ((market.run everyone (crowded tx.pt)).seenBy me).holds me Move.sui ≠ (market.seenBy me).holds me Move.sui ∧
    (market.seenBy me).holds me Move.sui ≤ ((market.run everyone (crowded tx.pt)).seenBy me).holds me Move.sui := by
  have moves : ((runLive .debug (world fun _ => replied 4) config 1).2.trace.findSome? Event.sentTx).map (fun tx =>
      Decidable.decide ((market.run everyone (crowded tx.pt)).gas "0xe" ≠ market.gas "0xe" ∧
        ((market.run everyone (crowded tx.pt)).seenBy me).holds me Move.sui ≠ (market.seenBy me).holds me Move.sui)) = some true := by
    decide +kernel
  obtain ⟨tx,sent,moved⟩ := Option.map_eq_some_iff.mp moves
  obtain ⟨event,member,sent⟩ := List.exists_of_findSome?_eq_some sent
  obtain ⟨delivery,rfl⟩ := Event.sentTx_some sent
  obtain ⟨traded,grown⟩ := of_decide_eq_true moved
  have fits : Fits (world fun _ => replied 4) config Ptb.mixedVenues Move.sui "0xa" me := .inl ⟨fun _ => rfl,fun _ => rfl,rfl,rfl⟩
  refine ⟨tx,delivery,member,traded,grown,?_⟩
  apply runLive_among_others .debug (world fun _ => replied 4) config 1 fits (Ptb.mixedVenues_confined me)
    (show everyone.chain me = Ptb.mixedVenues.chain "0xa" me from rfl) everyone_encapsulated market (crowded tx.pt)
  intro commands sent
  have mine : commands = tx.pt := by
    simpa [crowded,me] using sent
  exact ⟨tx,delivery,member,mine.symm⟩

end Wallet

end SuiArbitrage.Rust.Live
