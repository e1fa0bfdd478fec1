import SuiArbitrage.Rust.Objects
import SuiArbitrage.Rust.Gates

/-! The pool blacklist, from its environment variable to the risk guard. The guard compares
the entries as they were written with the ids of the route as the library renders them. -/
namespace SuiArbitrage.Rust
open MachineWord
open Move (ObjectId)

section blacklist
variable {F : Type} [SignedF64 F] {guard : RiskGuard F} {netUsd : F}

theorem RiskGuard.shouldSubmit_listed {poolIds : List PoolId} {id : PoolId} (listed : id ∈ guard.cfg.blacklist)
    (member : id ∈ poolIds) : guard.shouldSubmit netUsd poolIds ≠ .submit :=
  fun approved => (shouldSubmit_submit.mp approved).2.2.1 id member listed

/-- A guard that lets anything through at all lets through the pool alone that it does not list. -/
theorem RiskGuard.shouldSubmit_unlisted {id : PoolId} (running : guard.cfg.killSwitch = false)
    (losses : guard.lossLimit = false) (gain : F64.atMost netUsd (F64.ofU64 0) = false)
    (unlisted : id ∉ guard.cfg.blacklist) : guard.shouldSubmit netUsd [id] = .submit := by
  apply shouldSubmit_submit.mpr
  refine ⟨running,losses,?_,gain⟩
  intro other member
  rw [List.mem_singleton.mp member]
  exact unlisted

/-- The entries keep the pools that they parse to off every route if and only if, as long
as anything is let through, each of these pools is listed in its canonical spelling too. -/
theorem blacklist_enforced_iff (sdk : Sdk) (value : Option String) (guard : RiskGuard F)
    (configured : guard.cfg.blacklist = envList value) (netUsd : F) :
    (∀ entry ∈ envList value, ∀ oid, sdk.parseId entry = some oid →
      ∀ poolIds, sdk.renderId oid ∈ poolIds → guard.shouldSubmit netUsd poolIds ≠ .submit) ↔
    (∀ entry ∈ envList value, ∀ oid, sdk.parseId entry = some oid → sdk.renderId oid ∈ envList value) ∨
      guard.cfg.killSwitch = true ∨ guard.lossLimit = true ∨ F64.atMost netUsd (F64.ofU64 0) = true := by
  rw [← configured]
  constructor
  · intro refused
    by_contra open_gates
    simp only [not_or,Bool.not_eq_true] at open_gates
    obtain ⟨missed,running,losses,gain⟩ := open_gates
    apply missed
    intro entry listed oid parsed
    by_contra unlisted
    have approved := RiskGuard.shouldSubmit_unlisted running losses gain unlisted
    exact refused entry listed oid parsed _ (List.mem_singleton_self _) approved
  · intro condition entry listed oid parsed poolIds member approved
    obtain ⟨running,losses,-,gain⟩ := RiskGuard.shouldSubmit_submit.mp approved
    rw [running,losses,gain] at condition
    obtain canonical | halted | capped | nothing := condition
    · exact RiskGuard.shouldSubmit_listed (canonical entry listed oid parsed) member approved
    · cases halted
    · cases capped
    · cases nothing

end blacklist

/-! A guard that is configured with one pool, in either of two spellings of its id. -/
namespace Spelling

def isHex (c : Char) : Bool := c.isDigit || ('a' ≤ c && c ≤ 'f') || ('A' ≤ c && c ≤ 'F')

/-- An id is `0x` and 64 digits in lower case; digits that follow a `0x` may be fewer. -/
def parseId (s : String) : Option ObjectId :=
  let canonical (digits : List Char) : ObjectId :=
    "0x" ++ .ofList (List.replicate (64 - digits.length) '0' ++ digits.map Char.toLower)
  match s.toList with
  | '0' :: 'x' :: digits => if digits.length ≤ 64 ∧ digits.all isHex then some (canonical digits) else none
  | digits => if digits.length = 64 ∧ digits.all isHex then some (canonical digits) else none

def sdk : Sdk := ⟨parseId,fun oid => oid,.ok⟩

def guard (value : String) : RiskGuard ℚ := .new ⟨0,false,envList (some value)⟩

def pool : PoolId := "0x0000000000000000000000000000000000000000000000000000000000000bad"

theorem envList_pool : envList (some pool) = [pool] := by decide +kernel

theorem parseId_pool : sdk.parseId pool = some pool := by decide +kernel

/-- In the canonical spelling the pool is kept off every route. -/
theorem blacklist_enforced_canonical : sdk.parseId "0xBAD" = some pool ∧
    ∀ poolIds, pool ∈ poolIds → (guard pool).shouldSubmit 1 poolIds ≠ .submit := by
  refine ⟨by decide +kernel,?_⟩
  have enforced := (blacklist_enforced_iff sdk (some pool) (guard pool) rfl 1).mpr
  apply enforced ?_ pool ?_ pool parseId_pool
  · refine .inl fun entry listed oid parsed => ?_
    rw [envList_pool] at listed ⊢
    rw [List.mem_singleton.mp listed,parseId_pool] at parsed
    rw [← Option.some.inj parsed]
    exact List.mem_singleton_self _
  · rw [envList_pool]
    exact List.mem_singleton_self _

/-- In a shorter one it is traded. -/
theorem blacklist_bypassed : ¬∀ entry ∈ envList (some "0xBAD"), ∀ oid, sdk.parseId entry = some oid →
    ∀ poolIds, sdk.renderId oid ∈ poolIds → (guard "0xBAD").shouldSubmit 1 poolIds ≠ .submit := by
  intro enforced
  have listed : "0xBAD" ∈ envList (some "0xBAD") := by decide +kernel
  have parsed : sdk.parseId "0xBAD" = some pool := by decide +kernel
  apply enforced "0xBAD" listed pool parsed [pool] (List.mem_singleton_self _)
  decide +kernel

end Spelling

end SuiArbitrage.Rust
