import SuiArbitrage.Move.Core

/-! The stateless executor of `sources/executor.move`. The receipt is a plain
value here; that it can be neither copied nor dropped is a matter of the machine
that runs a transaction. -/
namespace SuiArbitrage.Move.Executor
open MachineWord Fallible

def eInsufficientProfit : ℕ := 1
def eProfitTargetOverflow : ℕ := 2

def u64Max : U64 := 18446744073709551615

/-- As in the source, nothing in a receipt names the coin type of its session. -/
structure ArbReceipt where
  initiator : Address
  initialAmount : U64
  minProfit : U64
  deriving DecidableEq, Repr

variable {A : TypeTag}

def begin (input : Coin A) (minProfit : U64) (sender : Address) : Coin A × ArbReceipt :=
  (input,⟨sender,input.value,minProfit⟩)

def assertProfit (initialAmount minProfit finalAmount : U64) : Exec U64 := do
  let room ← checkedSub u64Max initialAmount
  assert (minProfit ≤ room) .executor eProfitTargetOverflow
  let target ← checked 64 (initialAmount.val + minProfit.val)
  assert (target ≤ finalAmount) .executor eInsufficientProfit
  checkedSub finalAmount initialAmount

/-- `settle` hands the proceeds to the initiator the receipt names. -/
def settle (receipt : ArbReceipt) (output : Coin A) : Exec (Address × Coin A) := do
  let _ ← assertProfit receipt.initialAmount receipt.minProfit output.value
  pure (receipt.initiator,output)

def settleAndReturn (receipt : ArbReceipt) (output : Coin A) : Exec (Coin A) := do
  let _ ← assertProfit receipt.initialAmount receipt.minProfit output.value
  pure output

theorem assertProfit_ok {initialAmount minProfit finalAmount profit : U64} :
    assertProfit initialAmount minProfit finalAmount = .ok profit ↔
      initialAmount.val + minProfit.val ≤ finalAmount.val ∧
      profit.val + initialAmount.val = finalAmount.val := by
  have initialBound := initialAmount.isLt
  have finalBound := finalAmount.isLt
  have largest : u64Max.val = 2^64 - 1 := rfl
  simp only [assertProfit,bind_ok,assert_ok,checked_ok,checkedSub_ok,exists_const,Fin.le_def,largest]
  constructor
  · rintro ⟨room,roomEq,roomLe,target,targetEq,targetLe,profitEq⟩
    omega
  · rintro ⟨reached,profitEq⟩
    exact ⟨⟨2^64 - 1 - initialAmount.val,by omega⟩,by simp only []; omega,by simp only []; omega,
      ⟨initialAmount.val + minProfit.val,by omega⟩,rfl,reached,profitEq⟩

/-- The gate: both ways of settling accept exactly the amounts that reach the
recorded input plus the recorded minimum profit. -/
theorem settleAndReturn_ok {receipt : ArbReceipt} {output result : Coin A} :
    settleAndReturn receipt output = .ok result ↔
      receipt.initialAmount.val + receipt.minProfit.val ≤ output.value.val ∧ result = output := by
  simp only [settleAndReturn,bind_ok,assertProfit_ok,pure_ok]
  constructor
  · rintro ⟨profit,⟨reached,-⟩,rfl⟩
    exact ⟨reached,rfl⟩
  · rintro ⟨reached,rfl⟩
    have bound := result.value.isLt
    exact ⟨⟨result.value.val - receipt.initialAmount.val,by omega⟩,⟨reached,by simp only []; omega⟩,rfl⟩

theorem settle_eq (receipt : ArbReceipt) (output : Coin A) :
    settle receipt output =
      (settleAndReturn receipt output).map (fun proceeds => (receipt.initiator,proceeds)) := by
  simp only [settle,settleAndReturn]
  cases assertProfit receipt.initialAmount receipt.minProfit output.value <;> rfl

theorem settle_ok {receipt : ArbReceipt} {output : Coin A} {paid : Address × Coin A} :
    settle receipt output = .ok paid ↔
      receipt.initialAmount.val + receipt.minProfit.val ≤ output.value.val ∧
      paid = (receipt.initiator,output) := by
  rw [settle_eq]
  cases settled : settleAndReturn receipt output with
  | error abort =>
    have refused : ¬ receipt.initialAmount.val + receipt.minProfit.val ≤ output.value.val := by
      intro reached
      rw [settleAndReturn_ok.mpr ⟨reached,rfl⟩] at settled
      cases settled
    simp [Except.map,refused]
  | ok proceeds =>
    obtain ⟨reached,rfl⟩ := settleAndReturn_ok.mp settled
    simp [Except.map,reached,eq_comm]

end SuiArbitrage.Move.Executor
