import SuiArbitrage.Lib.MachineWord
import SuiArbitrage.Lib.Fallible

/-! What the Move modules share: aborting computations, checked unsigned
arithmetic, coins and balances. Phantom coin types are indices, so a coin of one
type cannot stand where another is expected. Emitted events are left out. -/
namespace SuiArbitrage.Move
open MachineWord

abbrev TypeTag := String
abbrev ObjectId := String
abbrev Address := String

inductive Module
  | math | ammV2 | executor | flash | balance
  deriving DecidableEq, Repr

inductive Abort
  | code (module : Module) (value : ℕ)
  | arithmetic
  deriving DecidableEq, Repr

abbrev Exec := Except Abort

/-- Why a call of a transaction fails: its function aborts, or its arguments do
not exist or have other types than the function takes. -/
inductive Failure
  | abort (reason : Abort)
  | argument
  deriving DecidableEq, Repr

def call {α : Type*} (body : Exec α) : Except Failure α := body.mapError .abort

def assert (condition : Prop) [Decidable condition] (module : Module) (value : ℕ) : Exec Unit :=
  if condition then .ok () else .error (.code module value)

def checked (w n : ℕ) : Exec (Fin (2^w)) :=
  if h : n < 2^w then .ok ⟨n,h⟩ else .error .arithmetic

def checkedSub {w : ℕ} (x y : Fin (2^w)) : Exec (Fin (2^w)) :=
  if y ≤ x then .ok (saturatingSub x y) else .error .arithmetic

def checkedDiv {w : ℕ} (x y : Fin (2^w)) : Exec (Fin (2^w)) :=
  if y.val = 0 then .error .arithmetic else .ok ⟨x.val / y.val,div_bound x y⟩

theorem assert_ok {condition : Prop} [Decidable condition] {module : Module} {value : ℕ} {u : Unit} :
    assert condition module value = .ok u ↔ condition := by
  unfold assert
  split <;> simp [*]

@[simp] theorem call_ok {α : Type*} {body : Exec α} {result : α} :
    call body = .ok result ↔ body = .ok result := by
  cases body <;> simp [call,Except.mapError]

theorem checked_ok {w n : ℕ} {result : Fin (2^w)} : checked w n = .ok result ↔ n = result.val := by
  unfold checked
  split
  · simp [Fin.ext_iff]
  · rename_i large
    simp only [reduceCtorEq,false_iff]
    intro equal
    exact large (equal ▸ result.isLt)

theorem checkedSub_ok {w : ℕ} {x y result : Fin (2^w)} :
    checkedSub x y = .ok result ↔ result.val + y.val = x.val := by
  unfold checkedSub
  split
  · rename_i ordered
    have ordered : y.val ≤ x.val := ordered
    simp only [Except.ok.injEq,Fin.ext_iff,saturatingSub_val]
    omega
  · rename_i reversed
    have reversed : ¬ y.val ≤ x.val := reversed
    simp only [reduceCtorEq,false_iff]
    omega

theorem checkedDiv_ok {w : ℕ} {x y result : Fin (2^w)} :
    checkedDiv x y = .ok result ↔ y.val ≠ 0 ∧ result.val = x.val / y.val := by
  unfold checkedDiv
  split
  · rename_i zero
    simp [zero]
  · rename_i nonzero
    simp only [Except.ok.injEq,Fin.ext_iff,ne_eq,nonzero,not_false_eq_true,true_and]
    exact eq_comm

section raises
open Fallible
variable {kind : Abort → Prop} {w : ℕ}

theorem raises_assert {condition : Prop} [Decidable condition] (holds : condition) {module : Module} {value : ℕ} :
    Raises kind (assert condition module value) := by
  rw [assert,if_pos holds]
  exact raises_ok ()

theorem raises_checked (w n : ℕ) : Raises (· = .arithmetic) (checked w n) := by
  unfold checked
  split
  · exact raises_ok _
  · exact fun fault failed => (Except.error.inj failed).symm

theorem raises_checkedSub (x y : Fin (2^w)) : Raises (· = .arithmetic) (checkedSub x y) :=
  .ite (raises_ok _) fun _ failed => (Except.error.inj failed).symm

theorem raises_checkedDiv (x y : Fin (2^w)) : Raises (· = .arithmetic) (checkedDiv x y) :=
  .ite (fun _ failed => (Except.error.inj failed).symm) (raises_ok _)

theorem raises_call {α : Type} {body : Exec α} (raises : Raises kind body) :
    Raises (fun failure => ∃ reason, kind reason ∧ failure = .abort reason) (call body) := by
  intro failure failed
  cases ran : body with
  | ok value =>
    rw [ran] at failed
    cases failed
  | error reason =>
    rw [ran] at failed
    exact ⟨reason,raises reason ran,(Except.error.inj failed).symm⟩

end raises

structure Coin (T : TypeTag) where
  value : U64
  deriving DecidableEq, Repr

def eNotEnough : ℕ := 2

def balanceJoin (balance deposit : U64) : Exec U64 := checked 64 (balance.val + deposit.val)

/-- `balance::split`, and with it `coin::split` and `coin::take`: what stays and what is taken. -/
def balanceSplit (balance amount : U64) : Exec (U64 × U64) := do
  assert (amount ≤ balance) .balance eNotEnough
  pure (saturatingSub balance amount,amount)

theorem balanceJoin_ok {balance deposit result : U64} :
    balanceJoin balance deposit = .ok result ↔ balance.val + deposit.val = result.val := checked_ok

theorem balanceSplit_ok {balance amount rest taken : U64} :
    balanceSplit balance amount = .ok (rest,taken) ↔
      taken = amount ∧ rest.val + amount.val = balance.val := by
  simp only [balanceSplit,Fallible.bind_ok,assert_ok,Fallible.pure_eq_ok,Except.ok.injEq,
    Prod.mk.injEq,exists_const,Fin.ext_iff,saturatingSub_val,Fin.le_def]
  omega

end SuiArbitrage.Move
