import SuiArbitrage.Lib.Brackets
import SuiArbitrage.Rust.Executor
import SuiArbitrage.Rust.Objects

/-! The decoding of pool objects of `offchain/src/ws.rs`. -/
namespace SuiArbitrage.Rust.Ws
open MachineWord
open Executor (LivePoolRef)

structure Tracked where
  dex : Dex
  poolId : String
  deriving DecidableEq, Repr

def parseDex (s : String) : Anyhow Dex :=
  let name := (trim s).map Char.toLower
  if name = "cetus" then .ok .cetus
  else if name = "turbos" then .ok .turbos
  else if name = "amm_v2" ∨ name = "ammv2" then .ok .ammV2
  else bail ("unknown dex '" ++ name ++ "'")

def parseTracked (entries : List String) : Anyhow (List Tracked) :=
  entries.mapM fun e =>
    match e.toList.span (· != ':') with
    | (_,[]) => bail "tracked pool must be '<dex>:<id>'"
    | (dex,_ :: id) => do
      let dex ← parseDex (.ofList dex)
      return ⟨dex,trim (.ofList id)⟩

/-- What stands between the first `<` and the last `>`. -/
def genericArgs (typeStr : String) : Option (List Char) :=
  match typeStr.toList.dropWhile (· != '<') with
  | [] => none
  | _ :: rest =>
    match rest.reverse.dropWhile (· != '>') with
    | [] => none
    | _ :: inner => some inner.reverse

/-- The parts between the commas that no bracket encloses. The depth is an `i32`, which only
a text of gigabytes overflows. -/
def topLevelParts (depth : ℤ) (cur : List Char) : List Char → List String
  | [] => [trim (.ofList cur)]
  | ch :: rest =>
    if ch = '<' then topLevelParts (depth + 1) (cur ++ [ch]) rest
    else if ch = '>' then topLevelParts (depth - 1) (cur ++ [ch]) rest
    else if ch = ',' ∧ depth = 0 then trim (.ofList cur) :: topLevelParts depth [] rest
    else topLevelParts depth (cur ++ [ch]) rest

def parsePoolTypeArgs (typeStr : String) : Anyhow (String × String × Option String) := do
  let inside ← orBail ("type has no generic args: " ++ typeStr) (genericArgs typeStr)
  let parts := topLevelParts 0 [] inside
  let a ← orBail "missing type_a" parts[0]?
  let b ← orBail "missing type_b" parts[1]?
  return (a,b,parts[2]?)

def jsonU128 (fields : Json) (key : String) : Anyhow U128 := do
  let v ← orBail ("missing field " ++ key) (fields.get key)
  orBail ("field " ++ key ++ " not a u128") ((v.asStr.bind (parseUnsigned 128)).or (v.asU64.map u128))

def jsonU64 (fields : Json) (key : String) : Anyhow U64 := do
  let v ← orBail ("missing field " ++ key) (fields.get key)
  orBail ("field " ++ key ++ " not a u64") ((v.asStr.bind (parseUnsigned 64)).or v.asU64)

/-- The fields' names differ between the venues. -/
def fieldKeys : Dex → String × String
  | .turbos => ("sqrt_price","fee")
  | .cetus | .ammV2 => ("current_sqrt_price","fee_rate")

def decodePool (sdk : Sdk) (dex : Dex) (obj : SuiObjectResponse) : Anyhow (PoolState × LivePoolRef) := do
  let data ← orBail "no object data" obj.data
  let typeStr ← orBail "no type" data.type
  let (typeA,typeB,feeType) ← parsePoolTypeArgs typeStr
  let fields ← orBail "no move content" obj.moveFields
  let (sqrtKey,feeKey) := fieldKeys dex
  let sqrtPrice ← jsonU128 fields sqrtKey
  let liquidity ← jsonU128 fields "liquidity"
  let feeRate := (jsonU64 fields feeKey).toOption.getD 0
  let a ← sdk.typeTag typeA
  let b ← sdk.typeTag typeB
  let fee ← feeType.mapM sdk.typeTag
  return (.clmm (sdk.renderId data.objectId) dex typeA typeB ⟨sqrtPrice,liquidity,feeRate,[]⟩,
    ⟨dex,data.objectId,a,b,fee⟩)

section parts
open Brackets

def typeMarks : Marks Char where
  opening := '<'
  closing := '>'
  comma := ','
  opening_ne_closing := by decide
  comma_ne_opening := by decide
  comma_ne_closing := by decide

theorem topLevelParts_cut (depth : ℤ) (cur text : List Char) :
    topLevelParts depth cur text = (cut typeMarks depth cur text).map fun part => trim (.ofList part) := by
  have opening : typeMarks.opening = '<' := rfl
  have closing : typeMarks.closing = '>' := rfl
  have comma : typeMarks.comma = ',' := rfl
  induction text generalizing depth cur with
  | nil => rfl
  | cons c rest ih =>
    rw [topLevelParts,cut,opening,closing,comma]
    simp only [ih,apply_ite (List.map fun part => trim (String.ofList part)),List.map_cons]

theorem genericArgs_bracketed {before inside : List Char} (plain : '<' ∉ before) :
    genericArgs (.ofList (before ++ bracketed typeMarks inside)) = some inside := by
  have unopened : ∀ c ∈ before, (c != '<') = true := fun c member => bne_iff_ne.mpr fun same => plain (same ▸ member)
  unfold genericArgs
  rw [String.toList_ofList,List.dropWhile_append_of_pos unopened]
  simp [bracketed,typeMarks]

end parts

end SuiArbitrage.Rust.Ws
