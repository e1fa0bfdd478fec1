import SuiArbitrage.Rust.Core

/-! The part of `offchain/src/config.rs` that assembling a transaction reads. -/
namespace SuiArbitrage.Rust
open MachineWord

structure Config (F : Type) where
  packageId : String
  baseToken : String
  minProfit : U64
  flashProvider : String
  flashFeeBps : U64
  flashLenderId : String
  flashVersionId : String
  scallopXOracleId : String
  scallopRegistryId : String
  scallopPackageId : String
  cetusGlobalConfigId : String
  turbosVersionedId : String
  pythStateId : String
  pythPriceInfoObjects : List String
  pythFeedIds : List String
  wormholeStateId : String
  wormholePackageId : String
  pythPackageId : String
  hermesUrl : String
  pythFee : U64
  minProfitUsd : Option F
  suiPriceUsd : F

/-- The characters that `str::trim` removes. -/
def whiteSpace (c : Char) : Bool :=
  c ∈ ['\t','\n','\x0b','\x0c','\r',' ','\u0085','\u00a0','\u1680','\u2028','\u2029','\u202f','\u205f','\u3000'] ||
    ('\u2000' ≤ c && c ≤ '\u200a')

def trim (s : String) : String :=
  .ofList ((s.toList.dropWhile whiteSpace).reverse.dropWhile whiteSpace).reverse

def splitComma (cur : List Char) : List Char → List (List Char)
  | [] => [cur]
  | c :: rest => if c = ',' then cur :: splitComma [] rest else splitComma (cur ++ [c]) rest

/-- The entries of a comma-separated variable, which may be absent. -/
def envList : Option String → List String
  | none => []
  | some v => ((splitComma [] v.toList).map fun s => trim (.ofList s)).filter (· ≠ "")

/-- `split_once` at an equals sign. -/
def splitOnce (s : String) : Option (String × String) :=
  match s.toList.span (· != '=') with
  | (_,[]) => none
  | (before,_ :: after) => some (.ofList before,.ofList after)

def entryOf (entries : List String) (coinType : String) : Option String :=
  entries.findSome? fun e => do
    let (k,v) ← splitOnce e
    if trim k = coinType then some (trim v) else none

namespace Config
variable {F : Type} [F64 F] (config : Config F)

def effectiveMinProfitMist : U64 :=
  match config.minProfitUsd with
  | some usd =>
    if F64.less (F64.ofU64 0) config.suiPriceUsd then F64.toU64 (usd / config.suiPriceUsd * F64.ofU64 1000000000)
    else config.minProfit
  | none => config.minProfit

omit [F64 F] in
def priceInfoObject (coinType : String) : Option String := entryOf config.pythPriceInfoObjects coinType

omit [F64 F] in
def pythFeedId (coinType : String) : Option String := entryOf config.pythFeedIds coinType

end Config

end SuiArbitrage.Rust
