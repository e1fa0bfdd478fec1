import SuiArbitrage.Move.Core
import SuiArbitrage.Rust.Core

/-! What the node answers about objects: their content is JSON, which the venue
modules read with accessors that tolerate any nesting. -/
namespace SuiArbitrage.Rust
open MachineWord
open Move (ObjectId TypeTag)

/-- Of a number only its value as a `u64`, where it is one, is ever read. -/
inductive Json
  | null
  | bool (value : Bool)
  | number (value : Option U64)
  | text (value : String)
  | array (items : List Json)
  | object (fields : List (String × Json))

inductive ParsedData
  | moveObject (fields : Json)
  | package

structure ObjectData where
  objectId : ObjectId
  version : U64
  type : Option String
  content : Option ParsedData

structure SuiObjectResponse where
  data : Option ObjectData

def SuiObjectResponse.moveFields (resp : SuiObjectResponse) : Option Json := do
  let data ← resp.data
  match ← data.content with
  | .moveObject fields => some fields
  | .package => none

/-- `str::parse` of an unsigned integer. -/
def parseUnsigned (w : ℕ) (s : String) : Option (Fin (2^w)) :=
  let digits := match s.toList with
    | '+' :: rest => rest
    | chars => chars
  if digits ≠ [] ∧ digits.all Char.isDigit then
    let n := digits.foldl (fun n c => 10 * n + (c.toNat - '0'.toNat)) 0
    if h : n < 2^w then some ⟨n,h⟩ else none
  else none

namespace Json

def get (key : String) : Json → Option Json
  | .object fields => fields.lookup key
  | _ => none

def asStr : Json → Option String
  | .text value => some value
  | _ => none

def asU64 : Json → Option U64
  | .number value => value
  | _ => none

def jsonU128 (v : Json) : Option U128 :=
  match v.asU64 with
  | some value => some (u128 value)
  | none => v.asStr.bind (parseUnsigned 128)

mutual
def findKey (key : String) : Json → Option Json
  | .object fields =>
    match fields.lookup key with
    | some x => some x
    | none => findKeyIn key fields
  | _ => none

def findKeyIn (key : String) : List (String × Json) → Option Json
  | [] => none
  | (_,val) :: rest =>
    match findKey key val with
    | some x => some x
    | none => findKeyIn key rest
end

/-- A value given directly, or in a field `bits` below. -/
def bits (v : Json) : Option U128 :=
  match v.jsonU128 with
  | some value => some value
  | none => (v.findKey "bits").bind jsonU128

mutual
def extractIdStr : Json → Option String
  | .text s => if "0x".toList.isPrefixOf s.toList then some s else none
  | .object fields => extractIdIn fields
  | _ => none

def extractIdIn : List (String × Json) → Option String
  | [] => none
  | (key,val) :: rest => if key = "id" then extractIdStr val else extractIdIn rest
end

end Json

/-- The parsers and the printer of the chain's library. -/
structure Sdk where
  parseId : String → Option ObjectId
  renderId : ObjectId → String
  typeTag : String → Anyhow TypeTag

namespace Json

section uid
variable (parseId : String → Option ObjectId)

mutual
def findUid : Json → Option ObjectId
  | .object fields =>
    match (extractIdIn fields).bind parseId with
    | some oid => some oid
    | none => findUidIn fields
  | _ => none

def findUidIn : List (String × Json) → Option ObjectId
  | [] => none
  | (_,val) :: rest =>
    match findUid val with
    | some oid => some oid
    | none => findUidIn rest
end

end uid

end Json

end SuiArbitrage.Rust
