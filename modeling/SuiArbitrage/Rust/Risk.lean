import SuiArbitrage.Rust.Config
import SuiArbitrage.Rust.Types

/-! The risk guard of `offchain/src/risk.rs`: what it lets through, and its ledger. -/
namespace SuiArbitrage.Rust
open MachineWord

/-- The further `f64` operations of the submit path. -/
class SignedF64 (F : Type) extends F64 F, Sub F, Neg F where
  isFinite : F → Bool

structure RiskConfig (F : Type) where
  maxDailyLossUsd : F
  killSwitch : Bool
  blacklist : List PoolId
  deriving DecidableEq

inductive Decision
  | submit
  | skip (reason : String)
  deriving DecidableEq, Repr

structure RiskGuard (F : Type) where
  cfg : RiskConfig F
  realizedUsd : F
  predictedUsd : F
  submits : ℕ
  skips : ℕ
  deriving DecidableEq

namespace RiskGuard
variable {F : Type} [SignedF64 F] (guard : RiskGuard F)

def new (cfg : RiskConfig F) : RiskGuard F := ⟨cfg,F64.ofU64 0,F64.ofU64 0,0,0⟩

omit [SignedF64 F] in
def routeAllowed (poolIds : List PoolId) : Bool := !poolIds.any (· ∈ guard.cfg.blacklist)

/-- The losses of the day have reached the cap, where one is set. -/
def lossLimit : Bool :=
  F64.less (F64.ofU64 0) guard.cfg.maxDailyLossUsd && F64.atMost guard.realizedUsd (-guard.cfg.maxDailyLossUsd)

def shouldSubmit (predictedNetUsd : F) (poolIds : List PoolId) : Decision :=
  if guard.cfg.killSwitch then .skip "kill_switch"
  else if guard.lossLimit then .skip "daily_loss_limit"
  else if guard.routeAllowed poolIds = false then .skip "blacklisted_pool"
  else if F64.atMost predictedNetUsd (F64.ofU64 0) then .skip "not_profitable"
  else .submit

def recordSubmit (predictedNetUsd : F) : RiskGuard F :=
  {guard with
    predictedUsd := guard.predictedUsd + predictedNetUsd
    submits := guard.submits + 1}

omit [SignedF64 F] in
def recordSkip : RiskGuard F := {guard with skips := guard.skips + 1}

def recordRealized (realizedNetUsd : F) : RiskGuard F :=
  {guard with realizedUsd := guard.realizedUsd + realizedNetUsd}

variable {guard}

omit [SignedF64 F] in
theorem routeAllowed_iff {poolIds : List PoolId} :
    guard.routeAllowed poolIds = true ↔ ∀ id ∈ poolIds, id ∉ guard.cfg.blacklist := by
  simp [routeAllowed]

theorem shouldSubmit_submit {predictedNetUsd : F} {poolIds : List PoolId} :
    guard.shouldSubmit predictedNetUsd poolIds = .submit ↔ guard.cfg.killSwitch = false ∧ guard.lossLimit = false ∧
      (∀ id ∈ poolIds, id ∉ guard.cfg.blacklist) ∧ F64.atMost predictedNetUsd (F64.ofU64 0) = false := by
  rw [← routeAllowed_iff]
  unfold shouldSubmit
  cases guard.cfg.killSwitch <;> cases guard.lossLimit <;> cases guard.routeAllowed poolIds <;>
    cases F64.atMost predictedNetUsd (F64.ofU64 0) <;> simp

end RiskGuard

end SuiArbitrage.Rust
