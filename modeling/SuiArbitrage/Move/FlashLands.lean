import SuiArbitrage.Move.BlockMeaning

/-! When the flash-arbitrage block over `amm_v2` pools lands, and what it leaves. -/
namespace SuiArbitrage.Move
open MachineWord Fallible Executor Flash

def FlashArb.trade (chain : Chain) (arb : FlashArb) : FlashTrade chain :=
  ⟨arb.coinType,arb.lender,arb.amount,arb.minProfit,arb.swaps.map (V2Call.swapper chain)⟩

theorem trade_block (chain : Chain) (arb : FlashArb) : (arb.trade chain).block = arb.block chain := by
  simp only [FlashTrade.block,FlashArb.trade,FlashArb.block,swapperCommands_v2,swappedCoin_v2,List.length_map]
  rfl

/-- When a block lands and what it leaves: the vault can lend, the swaps bring the coin back
in its own type, and the proceeds pay both the profit asked for and the loan. -/
structure Lands (chain : Chain) (arb : FlashArb) (before after : World) (old : FlashLender arb.coinType) (fee : U64)
    (pools : Pools) (final : U64) : Prop where
  mutable : arb.lender.mutable = true
  found : before.vaults.get arb.lender.id = some ⟨arb.coinType,old⟩
  covered : arb.amount.val ≤ old.reserve.val
  charged : fee.val = exactFee arb.amount.val old.feeBps.val
  traded : V2Call.trades arb.swaps before.pools arb.coinType arb.amount = .ok (pools,arb.coinType,final)
  profit : arb.amount.val + arb.minProfit.val ≤ final.val
  repaid : arb.amount.val + fee.val ≤ final.val
  room : old.reserve.val + fee.val < 2^64
  left : after = World.credit
    {before with
      pools := pools
      vaults := before.vaults.put ⟨arb.coinType,{old with reserve := ⟨old.reserve.val + fee.val,room⟩}⟩}
    chain.sender arb.coinType (saturatingSub (saturatingSub final arb.amount) fee)


section lands
variable {chain : Chain}

/-- The repayment overwrites what the loan has written. -/
theorem put_lent {T : TypeTag} (vaults : Vaults) {lent repaid : FlashLender T} (sameId : lent.id = repaid.id) :
    (vaults.put ⟨T,lent⟩).put ⟨T,repaid⟩ = vaults.put ⟨T,repaid⟩ :=
  vaults.put_put sameId

theorem execute_block {arb : FlashArb} {before after : World} :
    execute chain before (arb.block chain) = .ok after ↔
      ∃ old fee pools final, Lands chain arb before after old fee pools final := by
  rw [← trade_block,execute_flash]
  simp only [FlashTrade.meaning,bind_ok,Prod.exists,lend_ok,close_ok]
  constructor
  · rintro ⟨_,loan,⟨mutable,old,lent,found,borrowed,rfl⟩,_,_,final,traded,rfl,profit,lent',new,change,found',returned,rfl⟩
    obtain ⟨⟨lentId,lentFee,split⟩,-,-,size,charged⟩ := borrow_ok.mp borrowed
    obtain ⟨⟨newId,newFee,joined⟩,-,-,rest⟩ := repay_ok.mp returned
    rw [show (arb.trade chain).swaps = arb.swaps.map (V2Call.swapper chain) from rfl,trades_v2,map_ok] at traded
    obtain ⟨⟨pools,_,_⟩,traded,same⟩ := traded
    obtain ⟨rfl,rfl,rfl⟩ := same
    have lentHere := get_put_lender found lentId
    obtain rfl : lent = lent' := by
      have same := lentHere.symm.trans found'
      simpa using same
    have whole : change.val + (loan.amount.val + loan.fee.val) = final.val := rest
    rw [size] at joined whole
    have asked : (arb.trade chain).amount = arb.amount := rfl
    rw [asked] at split size joined whole profit
    have room : old.reserve.val + loan.fee.val < 2^64 := by
      have word := new.reserve.isLt
      omega
    have repaid : new = {old with reserve := ⟨old.reserve.val + loan.fee.val,room⟩} := by
      have reserve : new.reserve = ⟨old.reserve.val + loan.fee.val,room⟩ := Fin.ext (by simp only; omega)
      rw [← reserve,← newId.trans lentId,← newFee.trans lentFee]
    have kept : change = saturatingSub (saturatingSub final arb.amount) loan.fee :=
      Fin.ext (by simp only [saturatingSub_val]; omega)
    refine ⟨old,loan.fee,pools,final,mutable,found,by omega,charged,traded,profit,by omega,room,?_⟩
    have once := put_lent before.vaults newId.symm
    simp only [World.withPools]
    rw [once,repaid,kept]
    rfl
  · rintro ⟨old,fee,pools,final,mutable,found,covered,charged,traded,profit,repaid,room,rfl⟩
    have word := final.isLt
    let lent : FlashLender arb.coinType := {old with reserve := saturatingSub old.reserve arb.amount}
    let paid : FlashLender arb.coinType := {old with reserve := ⟨old.reserve.val + fee.val,room⟩}
    let change := saturatingSub (saturatingSub final arb.amount) fee
    have borrowed : borrow old arb.amount = .ok (lent,⟨arb.amount⟩,⟨old.id,arb.amount,fee⟩) := by
      refine borrow_ok.mpr ⟨⟨rfl,rfl,?_⟩,rfl,rfl,rfl,charged⟩
      simp only [lent,saturatingSub_val]
      omega
    have returned : repay lent ⟨old.id,arb.amount,fee⟩ ⟨final⟩ = .ok (paid,⟨change⟩) := by
      refine repay_ok.mpr ⟨⟨rfl,rfl,?_⟩,rfl,?_,?_⟩
      · simp only [lent,paid,saturatingSub_val]
        omega
      · dsimp only
        omega
      · simp only [change,saturatingSub_val]
        omega
    have lentHere := get_put_lender found (show lent.id = old.id from rfl)
    refine ⟨_,_,⟨mutable,old,lent,found,borrowed,rfl⟩,
      World.withPools {before with vaults := before.vaults.put ⟨arb.coinType,lent⟩} pools,_,final,?_,rfl,profit,lent,paid,
      change,lentHere,returned,?_⟩
    · rw [show (arb.trade chain).swaps = arb.swaps.map (V2Call.swapper chain) from rfl,trades_v2]
      exact congrArg (Except.map _) traded
    · have once := put_lent before.vaults (show lent.id = paid.id from rfl)
      simp only [World.withPools]
      exact congrArg (fun vaults => World.credit {before with pools := pools, vaults := vaults} chain.sender arb.coinType change)
        once.symm

end lands

end SuiArbitrage.Move
