import SuiArbitrage.Move.Core
import Mathlib.Algebra.Order.Floor.Div

/-! The flash-loan vault of `sources/flash.move`. -/
namespace SuiArbitrage.Move.Flash
open MachineWord Fallible

def eRepayTooLow : ℕ := 1
def eWrongLender : ℕ := 2
def eBadFee : ℕ := 3

def feeDenom : U64 := 10000

structure FlashLender (T : TypeTag) where
  id : ObjectId
  reserve : U64
  feeBps : U64
  deriving DecidableEq, Repr

structure FlashReceipt where
  lender : ObjectId
  amount : U64
  fee : U64
  deriving DecidableEq, Repr

variable {T : TypeTag}

def createLender (id : ObjectId) (funds : Coin T) (feeBps : U64) : Exec (FlashLender T) := do
  assert (feeBps < feeDenom) .flash eBadFee
  pure ⟨id,funds.value,feeBps⟩

def fund (lender : FlashLender T) (funds : Coin T) : Exec (FlashLender T) := do
  let reserve ← balanceJoin lender.reserve funds.value
  pure {lender with reserve := reserve}

def feeAmount (amount feeBps : U64) : Exec U64 := do
  let n ← checked 128 (amount.val * feeBps.val)
  let padded ← checked 128 (n.val + feeDenom.val)
  let raised ← checkedSub padded 1
  let quotient ← checkedDiv raised ⟨feeDenom.val,by decide⟩
  checked 64 quotient.val

def borrow (lender : FlashLender T) (amount : U64) :
    Exec (FlashLender T × Coin T × FlashReceipt) := do
  let fee ← feeAmount amount lender.feeBps
  let (reserve,loan) ← balanceSplit lender.reserve amount
  pure ({lender with reserve := reserve},⟨loan⟩,⟨lender.id,amount,fee⟩)

def repay (lender : FlashLender T) (receipt : FlashReceipt) (payment : Coin T) :
    Exec (FlashLender T × Coin T) := do
  assert (lender.id = receipt.lender) .flash eWrongLender
  let due ← checked 64 (receipt.amount.val + receipt.fee.val)
  assert (due ≤ payment.value) .flash eRepayTooLow
  let (change,owed) ← balanceSplit payment.value due
  let reserve ← balanceJoin lender.reserve owed
  pure ({lender with reserve := reserve},⟨change⟩)

def exactFee (amount feeBps : ℕ) : ℕ := amount * feeBps ⌈/⌉ 10000

theorem exactFee_eq (amount feeBps : ℕ) : exactFee amount feeBps = (amount * feeBps + 9999) / 10000 :=
  Nat.ceilDiv_eq_add_pred_div _ _

theorem feeAmount_ok {amount feeBps fee : U64} :
    feeAmount amount feeBps = .ok fee ↔ fee.val = exactFee amount.val feeBps.val := by
  have product : amount.val * feeBps.val ≤ (2^64 - 1) * (2^64 - 1) :=
    Nat.mul_le_mul (by omega) (by omega)
  have denom : feeDenom.val = 10000 := rfl
  have one : (1 : U128).val = 1 := rfl
  simp only [feeAmount,bind_ok,checked_ok,checkedSub_ok,checkedDiv_ok,denom,one,exactFee_eq]
  constructor
  · rintro ⟨n,nEq,padded,paddedEq,raised,raisedEq,quotient,⟨-,quotientEq⟩,feeEq⟩
    omega
  · intro feeEq
    exact ⟨⟨_,by omega⟩,rfl,⟨amount.val * feeBps.val + 10000,by omega⟩,rfl,
      ⟨amount.val * feeBps.val + 9999,by omega⟩,rfl,
      ⟨_,by have := fee.isLt; omega⟩,⟨by norm_num,rfl⟩,feeEq.symm⟩

/-- A fee that is rounded up loan by loan never falls below the fee of the sum. -/
theorem exactFee_add_le (x y feeBps : ℕ) :
    exactFee (x + y) feeBps ≤ exactFee x feeBps + exactFee y feeBps := by
  rw [exactFee_eq,exactFee_eq,exactFee_eq,Nat.add_mul]
  omega

@[simp] theorem exactFee_zero (feeBps : ℕ) : exactFee 0 feeBps = 0 := by simp [exactFee_eq]

theorem fund_ok {before after : FlashLender T} {funds : Coin T} :
    fund before funds = .ok after ↔
      after.id = before.id ∧ after.feeBps = before.feeBps ∧
      after.reserve.val = before.reserve.val + funds.value.val := by
  simp only [fund,bind_ok,balanceJoin_ok,pure_ok]
  constructor
  · rintro ⟨reserve,joined,rfl⟩
    exact ⟨rfl,rfl,joined.symm⟩
  · rintro ⟨sameId,sameFee,joined⟩
    refine ⟨after.reserve,joined.symm,?_⟩
    cases after
    cases before
    simp_all

theorem borrow_ok {before after : FlashLender T} {amount : U64} {loan : Coin T} {receipt : FlashReceipt} :
    borrow before amount = .ok (after,loan,receipt) ↔
      (after.id = before.id ∧ after.feeBps = before.feeBps ∧
        after.reserve.val + amount.val = before.reserve.val) ∧
      loan.value = amount ∧ receipt.lender = before.id ∧ receipt.amount = amount ∧
      receipt.fee.val = exactFee amount.val before.feeBps.val := by
  simp only [borrow,bind_ok,feeAmount_ok,Prod.exists,balanceSplit_ok,pure_ok,Prod.mk.injEq]
  constructor
  · rintro ⟨fee,feeEq,reserve,taken,⟨rfl,split⟩,rfl,rfl,rfl⟩
    exact ⟨⟨rfl,rfl,split⟩,rfl,rfl,rfl,feeEq⟩
  · rintro ⟨⟨sameId,sameFee,split⟩,rfl,lender,same,feeEq⟩
    refine ⟨receipt.fee,feeEq,after.reserve,loan.value,⟨rfl,split⟩,?_,rfl,?_⟩
    · cases after
      cases before
      simp_all
    · cases receipt
      simp_all

theorem repay_ok {before after : FlashLender T} {receipt : FlashReceipt} {payment change : Coin T} :
    repay before receipt payment = .ok (after,change) ↔
      (after.id = before.id ∧ after.feeBps = before.feeBps ∧
        after.reserve.val = before.reserve.val + (receipt.amount.val + receipt.fee.val)) ∧
      before.id = receipt.lender ∧ receipt.amount.val + receipt.fee.val < 2^64 ∧
      change.value.val + (receipt.amount.val + receipt.fee.val) = payment.value.val := by
  simp only [repay,bind_ok,assert_ok,exists_const,checked_ok,Prod.exists,balanceSplit_ok,
    balanceJoin_ok,pure_ok,Prod.mk.injEq]
  constructor
  · rintro ⟨issuer,due,dueEq,covered,rest,owed,⟨rfl,split⟩,reserve,joined,rfl,rfl⟩
    exact ⟨⟨rfl,rfl,by rw [← joined,dueEq]⟩,issuer,dueEq ▸ owed.isLt,by rw [dueEq]; exact split⟩
  · rintro ⟨⟨sameId,sameFee,joined⟩,issuer,fits,split⟩
    refine ⟨issuer,⟨_,fits⟩,rfl,?_,change.value,⟨_,fits⟩,⟨rfl,split⟩,after.reserve,joined.symm,?_,rfl⟩
    · rw [Fin.le_def]
      simp only []
      omega
    · cases after
      cases before
      simp_all

end SuiArbitrage.Move.Flash
