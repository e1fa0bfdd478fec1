import SuiArbitrage.Lib.KeyedStore
import SuiArbitrage.Move.Flash
import Mathlib.Algebra.Order.BigOperators.Group.List

/-! Transactions over any number of flash-loan vaults. Loans may nest and
interleave; the receipts that are still owed travel with the transaction. -/
namespace SuiArbitrage.Move.Flash
open MachineWord Fallible

structure Vault where
  coinType : TypeTag
  lender : FlashLender coinType
  deriving DecidableEq

def Vault.id (vault : Vault) : ObjectId := vault.lender.id

abbrev Vaults := KeyedStore Vault.id

def Vaults.locate (vaults : Vaults) (T : TypeTag) (id : ObjectId) : Except Failure (FlashLender T) :=
  match vaults.get id with
  | none => .error .argument
  | some vault => if same : vault.coinType = T then .ok (same ▸ vault.lender) else .error .argument

theorem locate_ok {vaults : Vaults} {T : TypeTag} {id : ObjectId} {lender : FlashLender T} :
    vaults.locate T id = .ok lender ↔ vaults.get id = some ⟨T,lender⟩ := by
  unfold Vaults.locate
  cases vaults.get id with
  | none => simp
  | some vault =>
    obtain ⟨coinType,held⟩ := vault
    by_cases same : coinType = T
    · subst same
      simp
    · simp [same]

/-- `outstanding` is what a receipt without abilities is worth: it can neither be
forged, copied nor dropped. `issued` collects the `LoanBorrowed` events. -/
structure Session where
  vaults : Vaults
  outstanding : List FlashReceipt
  issued : List FlashReceipt
  deriving DecidableEq

inductive VaultCall
  | borrow (T : TypeTag) (lender : ObjectId) (amount : U64)
  | repay (T : TypeTag) (lender : ObjectId) (receipt : FlashReceipt) (payment : Coin T)
  | fund (T : TypeTag) (lender : ObjectId) (funds : Coin T)
  deriving DecidableEq

def vaultStep (session : Session) : VaultCall → Except Failure Session
  | .borrow T id amount => do
    let lender ← session.vaults.locate T id
    let (lender,_,receipt) ← call (borrow lender amount)
    pure ⟨session.vaults.put ⟨T,lender⟩,receipt :: session.outstanding,receipt :: session.issued⟩
  | .repay T id receipt payment => do
    if receipt ∉ session.outstanding then throw .argument
    let lender ← session.vaults.locate T id
    let (lender,_) ← call (repay lender receipt payment)
    pure {session with
      vaults := session.vaults.put ⟨T,lender⟩, outstanding := session.outstanding.erase receipt}
  | .fund T id funds => do
    let lender ← session.vaults.locate T id
    let lender ← call (fund lender funds)
    pure {session with vaults := session.vaults.put ⟨T,lender⟩}

def booked (quantity : FlashReceipt → ℕ) (id : ObjectId) (receipts : List FlashReceipt) : ℕ :=
  (receipts.map fun receipt => if receipt.lender = id then quantity receipt else 0).sum

def FlashReceipt.due (receipt : FlashReceipt) : ℕ := receipt.amount.val + receipt.fee.val

def VaultCall.deposits (id : ObjectId) : VaultCall → ℕ
  | .fund _ lender funds => if lender = id then funds.value.val else 0
  | _ => 0

def fundedTo (id : ObjectId) (calls : List VaultCall) : ℕ := (calls.map (VaultCall.deposits id)).sum

section booked
variable {quantity : FlashReceipt → ℕ} {id : ObjectId}

@[simp] theorem booked_nil : booked quantity id [] = 0 := rfl

@[simp] theorem booked_cons {receipt : FlashReceipt} {receipts : List FlashReceipt} :
    booked quantity id (receipt :: receipts) =
      (if receipt.lender = id then quantity receipt else 0) + booked quantity id receipts := by
  simp [booked]

theorem booked_erase (quantity : FlashReceipt → ℕ) (id : ObjectId) {receipt : FlashReceipt} {receipts : List FlashReceipt}
    (owed : receipt ∈ receipts) :
    booked quantity id (receipts.erase receipt) + (if receipt.lender = id then quantity receipt else 0) =
      booked quantity id receipts := by
  have sums := ((List.perm_cons_erase owed).map
    fun receipt => if receipt.lender = id then quantity receipt else 0).sum_eq
  rw [List.map_cons,List.sum_cons] at sums
  simp only [booked]
  omega

theorem booked_due (receipts : List FlashReceipt) :
    booked FlashReceipt.due id receipts =
      booked (fun receipt => receipt.amount.val) id receipts +
        booked (fun receipt => receipt.fee.val) id receipts := by
  induction receipts with
  | nil => rfl
  | cons receipt receipts ih =>
    simp only [booked_cons,ih,FlashReceipt.due]
    split <;> omega

theorem exactFee_booked_le {feeBps : ℕ} {receipts : List FlashReceipt}
    (charged : ∀ receipt ∈ receipts, receipt.lender = id → receipt.fee.val = exactFee receipt.amount.val feeBps) :
    exactFee (booked (fun receipt => receipt.amount.val) id receipts) feeBps ≤
      booked (fun receipt => receipt.fee.val) id receipts := by
  induction receipts with
  | nil => simp
  | cons receipt receipts ih =>
    have rest := ih (fun later member => charged later (List.mem_cons_of_mem _ member))
    simp only [booked_cons]
    split
    · rename_i same
      rw [charged receipt List.mem_cons_self same]
      exact (exactFee_add_le _ _ _).trans (Nat.add_le_add_left rest _)
    · simpa using rest

end booked

/-- How one vault's books stand after a part of a transaction that deposits
`deposits` with it: what left the reserve is owed, and what came is a deposit or
the fee of a loan. -/
structure Accounted (deposits : ℕ) (before after : Session) (old new : Vault) : Prop where
  located : after.vaults.get old.id = some new
  sameId : new.id = old.id
  sameFee : new.lender.feeBps = old.lender.feeBps
  balance : new.lender.reserve.val + booked FlashReceipt.due old.id after.outstanding +
      booked (fun receipt => receipt.fee.val) old.id before.issued =
    old.lender.reserve.val + booked FlashReceipt.due old.id before.outstanding + deposits +
      booked (fun receipt => receipt.fee.val) old.id after.issued
  charged : ∀ receipt ∈ after.issued, receipt.lender = old.id →
    receipt ∈ before.issued ∨ receipt.fee.val = exactFee receipt.amount.val old.lender.feeBps

theorem Accounted.refl {session : Session} {vault : Vault}
    (found : session.vaults.get vault.id = some vault) : Accounted 0 session session vault vault :=
  ⟨found,rfl,rfl,by omega,fun _ member _ => .inl member⟩

theorem Accounted.trans {first second : ℕ} {before middle after : Session} {old mid new : Vault}
    (earlier : Accounted first before middle old mid) (later : Accounted second middle after mid new) :
    Accounted (first + second) before after old new := by
  have sameId := earlier.sameId
  refine ⟨sameId ▸ later.located,later.sameId.trans sameId,later.sameFee.trans earlier.sameFee,?_,?_⟩
  · have one := earlier.balance
    have two := later.balance
    rw [sameId] at two
    omega
  · intro receipt member issuer
    rcases later.charged receipt member (issuer.trans sameId.symm) with known | fee
    · exact earlier.charged receipt known issuer
    · exact .inr (earlier.sameFee ▸ fee)

theorem accounted_of_other {before after : Session} {vault new : Vault} {deposits : ℕ}
    (found : before.vaults.get vault.id = some vault) (other : new.id ≠ vault.id)
    (vaults : after.vaults = before.vaults.put new) (nothing : deposits = 0)
    (outstanding : booked FlashReceipt.due vault.id after.outstanding =
      booked FlashReceipt.due vault.id before.outstanding)
    (issued : ∀ receipt ∈ after.issued, receipt.lender = vault.id → receipt ∈ before.issued)
    (fees : booked (fun receipt => receipt.fee.val) vault.id after.issued =
      booked (fun receipt => receipt.fee.val) vault.id before.issued) :
    Accounted deposits before after vault vault := by
  refine ⟨?_,rfl,rfl,by omega,fun receipt member issuer => .inl (issued receipt member issuer)⟩
  rw [vaults,KeyedStore.get_put_other _ other,found]

theorem located_id {vaults : Vaults} {T : TypeTag} {id : ObjectId} {lender : FlashLender T}
    (found : vaults.get id = some ⟨T,lender⟩) : lender.id = id :=
  show Vault.id ⟨T,lender⟩ = id from KeyedStore.get_key found

theorem located_put {vaults : Vaults} {old new : Vault} (found : vaults.get old.id = some old)
    (sameId : new.id = old.id) : (vaults.put new).get old.id = some new := by
  rw [← sameId] at found ⊢
  exact KeyedStore.get_put_self found

theorem vaultStep_accounted {before after : Session} {action : VaultCall} {vault : Vault}
    (found : before.vaults.get vault.id = some vault) (moved : vaultStep before action = .ok after) :
    ∃ new, Accounted (action.deposits vault.id) before after vault new := by
  cases action with
  | borrow T id amount =>
    simp only [vaultStep,bind_ok,locate_ok,call_ok,Prod.exists,borrow_ok,pure_ok] at moved
    obtain ⟨old,here,new,loan,receipt,⟨⟨sameId,sameFee,reserve⟩,-,issuer,amountEq,feeEq⟩,rfl⟩ := moved
    obtain rfl : old.id = id := located_id here
    by_cases same : vault.id = old.id
    · obtain rfl : vault = ⟨T,old⟩ := Option.some.inj (found.symm.trans (same ▸ here))
      refine ⟨⟨T,new⟩,located_put found sameId,sameId,sameFee,?_,?_⟩
      · have mine : receipt.lender = Vault.id ⟨T,old⟩ := issuer
        simp only [booked_cons,mine,if_true,VaultCall.deposits,FlashReceipt.due,amountEq]
        omega
      · intro charged member mine
        rcases List.mem_cons.mp member with rfl | known
        · exact .inr (amountEq ▸ feeEq)
        · exact .inl known
    · have other : (⟨T,new⟩ : Vault).id ≠ vault.id := fun equal => same (equal.symm.trans sameId)
      have notMine : receipt.lender ≠ vault.id := fun equal => same (equal.symm.trans issuer)
      refine ⟨vault,accounted_of_other found other rfl rfl ?_ ?_ ?_⟩
      · simp [notMine]
      · intro charged member mine
        rcases List.mem_cons.mp member with rfl | known
        · exact absurd mine notMine
        · exact known
      · simp [notMine]
  | repay T id receipt payment =>
    simp only [vaultStep] at moved
    split at moved
    · cases moved
    rename_i owed
    have owed := not_not.mp owed
    simp only [pure_eq_ok,bind_ok,locate_ok,call_ok,Prod.exists,repay_ok,Except.ok.injEq] at moved
    obtain ⟨old,here,new,change,⟨⟨sameId,sameFee,reserve⟩,issuer,-,-⟩,rfl⟩ := moved
    obtain rfl : old.id = id := located_id here
    have sums := booked_erase FlashReceipt.due vault.id owed
    by_cases same : vault.id = old.id
    · obtain rfl : vault = ⟨T,old⟩ := Option.some.inj (found.symm.trans (same ▸ here))
      refine ⟨⟨T,new⟩,located_put found sameId,sameId,sameFee,?_,fun _ member _ => .inl member⟩
      have mine : receipt.lender = Vault.id ⟨T,old⟩ := issuer.symm
      simp only [mine,if_true,FlashReceipt.due] at sums
      simp only [VaultCall.deposits]
      omega
    · have other : (⟨T,new⟩ : Vault).id ≠ vault.id := fun equal => same (equal.symm.trans sameId)
      have notMine : receipt.lender ≠ vault.id :=
        fun equal => same (equal.symm.trans issuer.symm)
      refine ⟨vault,accounted_of_other found other rfl rfl ?_ (fun _ member _ => member) rfl⟩
      simpa [notMine] using sums
  | fund T id funds =>
    simp only [vaultStep,bind_ok,locate_ok,call_ok,fund_ok,pure_ok] at moved
    obtain ⟨old,here,new,⟨sameId,sameFee,reserve⟩,rfl⟩ := moved
    obtain rfl : old.id = id := located_id here
    by_cases same : vault.id = old.id
    · obtain rfl : vault = ⟨T,old⟩ := Option.some.inj (found.symm.trans (same ▸ here))
      refine ⟨⟨T,new⟩,located_put found sameId,sameId,sameFee,?_,fun _ member _ => .inl member⟩
      have mine : old.id = Vault.id ⟨T,old⟩ := rfl
      simp only [VaultCall.deposits,mine,if_true]
      omega
    · have other : (⟨T,new⟩ : Vault).id ≠ vault.id := fun equal => same (equal.symm.trans sameId)
      have elsewhere : old.id ≠ vault.id := fun equal => same equal.symm
      exact ⟨vault,accounted_of_other found other rfl (by simp [VaultCall.deposits,elsewhere]) rfl
        (fun _ member _ => member) rfl⟩

theorem transact_accounted {before after : Session} {calls : List VaultCall} {vault : Vault}
    (found : before.vaults.get vault.id = some vault)
    (ran : transact vaultStep before calls = .ok after) :
    ∃ new, Accounted (fundedTo vault.id calls) before after vault new := by
  induction calls generalizing before vault with
  | nil =>
    obtain rfl : before = after := by simpa using ran
    exact ⟨vault,.refl found⟩
  | cons action calls ih =>
    rw [transact_cons,bind_ok] at ran
    obtain ⟨middle,moved,ran⟩ := ran
    obtain ⟨mid,first⟩ := vaultStep_accounted found moved
    obtain ⟨new,second⟩ := ih (first.sameId ▸ first.located) ran
    refine ⟨new,?_⟩
    have whole := first.trans second
    rw [first.sameId] at whole
    simpa [fundedTo] using whole

/-- Receipts that are still owed were issued, so their fees are among those issued. -/
theorem vaultStep_owed {before after : Session} {action : VaultCall} (moved : vaultStep before action = .ok after)
    (owed : before.outstanding.Subperm before.issued) : after.outstanding.Subperm after.issued := by
  cases action with
  | borrow T id amount =>
    simp only [vaultStep,bind_ok,pure_ok] at moved
    obtain ⟨old,-,⟨new,loan,receipt⟩,-,rfl⟩ := moved
    exact (List.subperm_cons receipt).mpr owed
  | repay T id receipt payment =>
    simp only [vaultStep] at moved
    split at moved
    · cases moved
    simp only [pure_eq_ok,bind_ok,Except.ok.injEq] at moved
    obtain ⟨old,-,⟨new,change⟩,-,rfl⟩ := moved
    exact (List.erase_subperm _ _).trans owed
  | fund T id funds =>
    simp only [vaultStep,bind_ok,pure_ok] at moved
    obtain ⟨old,-,new,-,rfl⟩ := moved
    exact owed

theorem booked_le (quantity : FlashReceipt → ℕ) (id : ObjectId) {some all : List FlashReceipt}
    (among : some.Subperm all) : booked quantity id some ≤ booked quantity id all := by
  obtain ⟨part,permuted,sub⟩ := among
  have same := (permuted.map fun receipt => if receipt.lender = id then quantity receipt else 0).sum_eq
  have less := List.Sublist.sum_le_sum
    (sub.map fun receipt => if receipt.lender = id then quantity receipt else 0)
    (fun _ _ => Nat.zero_le _)
  simp only [booked]
  omega

/-- In any transaction whose calls all succeed: at every point the reserve with the
outstanding loans covers the initial reserve, and once no receipt is left the
reserve has grown by exactly the deposits and the fees, which are no less than the
fee of one loan of the total amount. -/
theorem vaults_never_lose {start final : Session} {calls : List VaultCall} {vault : Vault}
    (unlent : start.outstanding = [] ∧ start.issued = [])
    (found : start.vaults.get vault.id = some vault)
    (ran : transact vaultStep start calls = .ok final) (closed : final.outstanding = []) :
    (∃ last, final.vaults.get vault.id = some last ∧
      last.lender.reserve.val = vault.lender.reserve.val + fundedTo vault.id calls +
        booked (fun receipt => receipt.fee.val) vault.id final.issued) ∧
    (∀ n, ∃ middle now, transact vaultStep start (calls.take n) = .ok middle ∧
      middle.vaults.get vault.id = some now ∧
      vault.lender.reserve.val ≤ now.lender.reserve.val +
        booked (fun receipt => receipt.amount.val) vault.id middle.outstanding) ∧
    booked (fun receipt => receipt.amount.val) vault.id final.issued * vault.lender.feeBps.val ⌈/⌉ 10000 ≤
      booked (fun receipt => receipt.fee.val) vault.id final.issued := by
  obtain ⟨nothingOwed,nothingIssued⟩ := unlent
  refine ⟨?_,?_,?_⟩
  · obtain ⟨last,books⟩ := transact_accounted found ran
    have balance := books.balance
    rw [closed,nothingOwed,nothingIssued] at balance
    simp only [booked_nil] at balance
    exact ⟨last,books.located,by omega⟩
  · intro n
    obtain ⟨middle,ran,-⟩ := transact_split vaultStep n ran
    obtain ⟨now,books⟩ := transact_accounted found ran
    have owed : middle.outstanding.Subperm middle.issued :=
      transact_preserves vaultStep (fun session => session.outstanding.Subperm session.issued)
        (fun _ _ _ owed moved => vaultStep_owed moved owed)
        (by rw [nothingOwed]; exact List.nil_subperm) ran
    have fees := booked_le (fun receipt => receipt.fee.val) vault.id owed
    have balance := books.balance
    rw [nothingOwed,nothingIssued,booked_due] at balance
    simp only [booked_nil] at balance
    exact ⟨middle,now,ran,books.located,by omega⟩
  · obtain ⟨last,books⟩ := transact_accounted found ran
    apply exactFee_booked_le
    intro receipt member issuer
    rcases books.charged receipt member issuer with known | fee
    · rw [nothingIssued] at known
      cases known
    · exact fee

theorem vaults_never_lose_interleaved :
    let sui : Vault := ⟨"SUI",⟨"v",1000,30⟩⟩
    let usdc : Vault := ⟨"USDC",⟨"w",500,9⟩⟩
    let start : Session := ⟨⟨[sui,usdc],by decide⟩,[],[]⟩
    let calls : List VaultCall :=
      [.borrow "SUI" "v" 400,.borrow "USDC" "w" 10,.borrow "SUI" "v" 600,.fund "SUI" "v" ⟨5⟩,
        .repay "SUI" "v" ⟨"v",400,2⟩ ⟨450⟩,.repay "USDC" "w" ⟨"w",10,1⟩ ⟨11⟩,
        .repay "SUI" "v" ⟨"v",600,2⟩ ⟨602⟩]
    ∃ final last, transact vaultStep start calls = .ok final ∧
      final.vaults.get "v" = some last ∧ last.lender.reserve.val = 1000 + 5 + 4 := by
  intro sui usdc start calls
  have ran : transact vaultStep start calls =
      .ok ⟨⟨[⟨"SUI",⟨"v",1009,30⟩⟩,⟨"USDC",⟨"w",501,9⟩⟩],by decide⟩,[],
        [⟨"v",600,2⟩,⟨"w",10,1⟩,⟨"v",400,2⟩]⟩ := by decide +kernel
  have found : start.vaults.get sui.id = some sui := by decide
  obtain ⟨⟨last,located,reserve⟩,-,-⟩ := vaults_never_lose ⟨rfl,rfl⟩ found ran rfl
  exact ⟨_,last,ran,located,reserve.trans (by decide)⟩

end SuiArbitrage.Move.Flash
