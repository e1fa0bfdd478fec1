import SuiArbitrage.Lib.MachineWord
import SuiArbitrage.Lib.Fallible

/-! What the off-chain modules share: Rust integer arithmetic in its two builds,
and the ways in which a computation can fail to return. -/
namespace SuiArbitrage.Rust
open MachineWord Fallible

/-- A debug build panics where integer arithmetic overflows; a release build wraps. -/
inductive Build
  | debug | release
  deriving DecidableEq, Repr

/-- `arithmetic w` is an overflow of `w`-bit arithmetic, which only a debug build
raises. `wide` is an overflow of `U256`, and `narrowing` a `U256` that
`as_u128` refuses. -/
inductive Panic
  | arithmetic (w : ℕ) | wide | narrowing | divideByZero
  deriving DecidableEq, Repr

inductive Fault
  | panic (reason : Panic)
  | diverges
  deriving DecidableEq, Repr

end Rust

abbrev Rust := Except Rust.Fault

namespace Rust
open MachineWord Fallible

def panic {α : Type*} (reason : Panic) : Rust α := .error (.panic reason)

def word (build : Build) (w : ℕ) (z : ℤ) : Rust (Fin (2^w)) :=
  if build = .debug ∧ ¬ Fits w z then panic (.arithmetic w) else .ok (wrap w z)

section arithmetic
variable {w : ℕ} (build : Build) (x y : Fin (2^w))

def add : Rust (Fin (2^w)) := word build w (x.val + y.val)

def sub : Rust (Fin (2^w)) := word build w (x.val - y.val)

def mul : Rust (Fin (2^w)) := word build w (x.val * y.val)

def div : Rust (Fin (2^w)) :=
  if y.val = 0 then panic .divideByZero else .ok ⟨x.val / y.val,div_bound x y⟩

end arithmetic

/-- Negation of an `i128`: its least value has no opposite. -/
def negI128 (build : Build) (x : I128) : Rust I128 :=
  if h : -x.val < 2^127 then .ok ⟨-x.val,by have := x.property; omega,h⟩
  else if build = .debug then panic (.arithmetic 128) else .ok x

def u128 (x : U64) : U128 := ⟨x.val,x.isLt.trans (by norm_num)⟩

def asU64 (x : U128) : U64 := wrap 64 x.val

/-- `u64::try_from(x).ok()`. -/
def tryU64 (x : U128) : Option U64 := if h : x.val < 2^64 then some ⟨x.val,h⟩ else none

def u256 (n : ℕ) : Rust ℕ := if n < 2^256 then .ok n else panic .wide

def asU128 (n : ℕ) : Rust U128 := if h : n < 2^128 then .ok ⟨n,h⟩ else panic .narrowing

/-- Floating point is a parameter of which nothing is assumed. These are the `f64`
operations that the code uses; `toU64` is the cast `as u64`. -/
class F64 (F : Type) extends Add F, Mul F, Div F where
  ofU64 : U64 → F
  toU64 : F → U64
  powi : F → ℕ → F
  less : F → F → Bool
  atMost : F → F → Bool

/-- How a function of `anyhow::Result` ends early: with an error and its chain of
contexts, the outermost first, or in a panic. -/
inductive Stop
  | error (chain : List String)
  | panic (message : String)
  deriving DecidableEq, Repr

abbrev Anyhow := Except Stop

def bail {α : Type} (message : String) : Anyhow α := .error (.error [message])

def Stop.context (message : String) : Stop → Stop
  | .error chain => .error (message :: chain)
  | .panic message => .panic message

def context {α : Type} (message : String) (x : Anyhow α) : Anyhow α := x.mapError (Stop.context message)

/-- `context` of an option: nothing becomes an error. -/
def orBail {α : Type} (message : String) : Option α → Anyhow α
  | some value => .ok value
  | none => bail message

@[simp] theorem u128_val (x : U64) : (u128 x).val = x.val := rfl

@[simp] theorem panic_ne_ok {α : Type*} {reason : Panic} {result : α} :
    (panic reason : Rust α) = .ok result ↔ False := by simp [panic]

@[simp] theorem panic_bind {α β : Type} (reason : Panic) (next : α → Rust β) :
    ((panic reason : Rust α) >>= next) = panic reason := by
  simp only [panic,error_bind]

@[simp] theorem context_ok {α : Type} {message : String} {x : Anyhow α} {result : α} :
    context message x = .ok result ↔ x = .ok result := by
  cases x <;> simp [context,Except.mapError]

@[simp] theorem orBail_ok {α : Type} {message : String} {x : Option α} {result : α} :
    orBail message x = .ok result ↔ x = some result := by
  cases x <;> simp [orBail,bail]

theorem word_of_fits {build : Build} {w n : ℕ} (small : n < 2^w) : word build w n = .ok ⟨n,small⟩ := by
  have fits : Fits w (n : ℤ) := fits_natCast.mpr small
  simp only [word,fits,not_true_eq_false,and_false,if_false,Except.ok.injEq]
  ext
  simp [wrap_val_of_lt small]

theorem word_release (w : ℕ) (z : ℤ) : word .release w z = .ok (wrap w z) := by
  simp [word]

theorem word_le {build : Build} {w n : ℕ} {result : Fin (2^w)} (ok : word build w n = .ok result) :
    result.val ≤ n := by
  unfold word at ok
  split at ok
  · cases ok
  · obtain rfl := Except.ok.inj ok
    exact wrap_natCast_le w n

theorem word_debug {w n : ℕ} {result : Fin (2^w)} (ok : word .debug w n = .ok result) : result.val = n := by
  unfold word at ok
  split at ok
  · cases ok
  · rename_i fits
    have fits := not_not.mp fun large => fits ⟨rfl,large⟩
    rw [← Except.ok.inj ok,wrap_val_of_lt (fits_natCast.mp fits)]

theorem word_of_debug {w : ℕ} {z : ℤ} {result : Fin (2^w)} (ok : word .debug w z = .ok result) (build : Build) :
    word build w z = .ok result := by
  unfold word at ok
  split at ok
  · cases ok
  · rename_i fits
    rw [word,if_neg fun overflows => fits ⟨rfl,overflows.2⟩]
    exact ok

/-- The operator `?` on an option: nothing ends the computation with nothing. -/
def andThen {α β : Type} (x : Rust (Option α)) (next : α → Rust (Option β)) : Rust (Option β) :=
  x >>= fun found =>
    match found with
    | none => .ok none
    | some value => next value

theorem andThen_some {α β : Type} {x : Rust (Option α)} {next : α → Rust (Option β)} {result : β} :
    andThen x next = .ok (some result) ↔ ∃ value, x = .ok (some value) ∧ next value = .ok (some result) := by
  simp only [andThen,bind_ok]
  constructor
  · rintro ⟨found,ran,onward⟩
    cases found with
    | none => cases onward
    | some value => exact ⟨value,ran,onward⟩
  · rintro ⟨value,ran,onward⟩
    exact ⟨some value,ran,onward⟩

theorem andThen_ok {α β : Type} {x : Rust (Option α)} {next : α → Rust (Option β)} {result : Option β} :
    andThen x next = .ok result ↔
      x = .ok none ∧ result = none ∨ ∃ value, x = .ok (some value) ∧ next value = .ok result := by
  simp only [andThen,bind_ok]
  constructor
  · rintro ⟨found,ran,onward⟩
    cases found with
    | none => exact .inl ⟨ran,(Except.ok.inj onward).symm⟩
    | some value => exact .inr ⟨value,ran,onward⟩
  · rintro (⟨ran,rfl⟩ | ⟨value,ran,onward⟩)
    · exact ⟨none,ran,rfl⟩
    · exact ⟨some value,ran,onward⟩

theorem andThen_error {α β : Type} {x : Rust (Option α)} {next : α → Rust (Option β)} {fault : Fault} :
    andThen x next = .error fault ↔
      x = .error fault ∨ ∃ value, x = .ok (some value) ∧ next value = .error fault := by
  unfold andThen
  cases x with
  | error other => simp
  | ok found =>
    cases found with
    | none => simp
    | some value => simp

@[simp] theorem ok_some_andThen {α β : Type} (value : α) (next : α → Rust (Option β)) :
    andThen (.ok (some value)) next = next value := by
  simp only [andThen,ok_bind]

section exact
variable {w : ℕ} {build : Build} {x y : Fin (2^w)}

theorem add_of_lt (small : x.val + y.val < 2^w) : add build x y = .ok ⟨x.val + y.val,small⟩ := by
  rw [add,← Nat.cast_add,word_of_fits small]

theorem mul_of_lt (small : x.val * y.val < 2^w) : mul build x y = .ok ⟨x.val * y.val,small⟩ := by
  rw [mul,← Nat.cast_mul,word_of_fits small]

theorem sub_of_le (ordered : y.val ≤ x.val) :
    sub build x y = .ok ⟨x.val - y.val,(Nat.sub_le _ _).trans_lt x.isLt⟩ := by
  rw [sub,← Nat.cast_sub ordered,word_of_fits]

theorem add_le {result : Fin (2^w)} (ok : add build x y = .ok result) : result.val ≤ x.val + y.val := by
  rw [add,← Nat.cast_add] at ok
  exact word_le ok

theorem add_debug {result : Fin (2^w)} (ok : add .debug x y = .ok result) : result.val = x.val + y.val := by
  rw [add,← Nat.cast_add] at ok
  exact word_debug ok

theorem div_of_pos (positive : 0 < y.val) :
    div x y = .ok ⟨x.val / y.val,div_bound x y⟩ :=
  if_neg positive.ne'

end exact

theorem u256_ok {n result : ℕ} : u256 n = .ok result ↔ n < 2^256 ∧ n = result := by
  unfold u256
  split
  · rename_i small
    simp only [Except.ok.injEq,small,true_and]
  · rename_i large
    simp only [panic_ne_ok,large,false_and]

theorem u256_of_lt {n : ℕ} (small : n < 2^256) : u256 n = .ok n := if_pos small

theorem asU128_ok {n : ℕ} {result : U128} : asU128 n = .ok result ↔ n = result.val := by
  unfold asU128
  split
  · simp [Fin.ext_iff]
  · rename_i large
    simp only [panic_ne_ok,false_iff]
    intro equal
    exact large (equal ▸ result.isLt)

theorem asU128_of_lt {n : ℕ} (small : n < 2^128) : asU128 n = .ok ⟨n,small⟩ := dif_pos small

end Rust

end SuiArbitrage
