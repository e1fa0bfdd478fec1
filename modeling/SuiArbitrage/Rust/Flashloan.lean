import SuiArbitrage.Rust.Types
import SuiArbitrage.Move.Flash

/-! The flash-loan providers of `offchain/src/flashloan.rs`. A provider is one of
the two implementations of its trait; `needs_type_arg` is the constant `true`. -/
namespace SuiArbitrage.Rust.Flashloan
open MachineWord

def feeDenom : U64 := 10000

structure MoveCallSpec where
  package : String
  module : String
  function : String
  deriving DecidableEq, Repr

def quoteFeeBps (amount feeBps : U64) : U64 :=
  wrap 64 (amount.val * feeBps.val ⌈/⌉ feeDenom.val : ℕ)

namespace ScallopPins

def flashModule : String := "flash_loan"
def borrowFn : String := "borrow_flash_loan"
def repayFn : String := "repay_flash_loan"
def liquidateModule : String := "liquidate"
def liquidateFn : String := "liquidate"

end ScallopPins

inductive FlashStyle
  | mockVault | scallop
  deriving DecidableEq, Repr

inductive FlashLoanProvider
  | mock (packageId lenderId : String) (feeBps : U64)
  | scallop (packageId marketId versionId : String) (feeBps : U64)
  deriving DecidableEq, Repr

namespace FlashLoanProvider

def name : FlashLoanProvider → String
  | mock .. => "mock"
  | scallop .. => "scallop"

def feeBps : FlashLoanProvider → U64
  | mock _ _ feeBps => feeBps
  | scallop _ _ _ feeBps => feeBps

def style : FlashLoanProvider → FlashStyle
  | mock .. => .mockVault
  | scallop .. => .scallop

def extraObjectIds : FlashLoanProvider → List String
  | mock .. => []
  | scallop _ _ versionId _ => [versionId]

def quoteFee (provider : FlashLoanProvider) (amount : U64) : U64 := quoteFeeBps amount provider.feeBps

def repayTotal (provider : FlashLoanProvider) (amount : U64) : U64 :=
  saturatingAdd amount (provider.quoteFee amount)

def lenderObjectId : FlashLoanProvider → String
  | mock _ lenderId _ => lenderId
  | scallop _ marketId _ _ => marketId

def borrowCall : FlashLoanProvider → MoveCallSpec
  | mock packageId _ _ => ⟨packageId,"flash","borrow"⟩
  | scallop packageId _ _ _ => ⟨packageId,ScallopPins.flashModule,ScallopPins.borrowFn⟩

def repayCall : FlashLoanProvider → MoveCallSpec
  | mock packageId _ _ => ⟨packageId,"flash","repay"⟩
  | scallop packageId _ _ _ => ⟨packageId,ScallopPins.flashModule,ScallopPins.repayFn⟩

end FlashLoanProvider

def providerFrom (name packageId lenderId : String) (feeBps : U64) (extra : String) : Option FlashLoanProvider :=
  if name = "mock" then some (.mock packageId lenderId feeBps)
  else if name = "scallop" then some (.scallop packageId lenderId extra feeBps)
  else none

theorem quoteFeeBps_of_lt {amount feeBps : U64} (small : Move.Flash.exactFee amount feeBps < 2^64) :
    (quoteFeeBps amount feeBps).val = Move.Flash.exactFee amount feeBps :=
  wrap_val_of_lt small

end SuiArbitrage.Rust.Flashloan
