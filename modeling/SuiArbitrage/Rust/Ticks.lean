import SuiArbitrage.Lib.SortedWindow
import SuiArbitrage.Rust.Clmm
import SuiArbitrage.Rust.Objects

/-! The tick loaders of `offchain/src/cetus_ticks.rs` and `offchain/src/turbos_ticks.rs`:
the nodes of a pool's ticks are enumerated by name, a window of them around the
current tick is chosen, and only its objects are read and decoded. -/
namespace SuiArbitrage.Rust
open MachineWord Clmm
open Move (ObjectId)

structure DynamicFieldInfo where
  name : Json
  objectId : ObjectId
  objectType : String

/-- What the node answers while one window is loaded. Pages are read until the last
one, and objects fifty at a time. -/
structure TickReads where
  dynamicFields : ObjectId → Anyhow (List (List DynamicFieldInfo))
  multiGetObject : List ObjectId → Anyhow (List SuiObjectResponse)

def byPrice (ticks : List TickBoundary) : List TickBoundary :=
  ticks.insertionSort fun s t => s.sqrtPrice ≤ t.sqrtPrice

namespace CetusTicks

def skiplistId (parseId : String → Option ObjectId) (obj : SuiObjectResponse) : Option ObjectId := do
  let content ← obj.moveFields
  let tm ← content.findKey "tick_manager"
  let ticks ← tm.findKey "ticks"
  ticks.findUid parseId

def tickOffset : ℤ := 443636

/-- The cast from `i64` to `u64` wraps. -/
def score (index : I32) : U64 := wrap 64 (index.val + tickOffset)

def scoreFromContent (content : Json) : Option U64 := do
  let cti ← content.findKey "current_tick_index"
  let bits ← cti.bits
  return score (asI32 (wrap 32 bits.val))

def currentScore (obj : SuiObjectResponse) : Option U64 := obj.moveFields.bind scoreFromContent

def selectWindow {ι : Type} (sorted : List (U64 × ι)) (center : U64) (window : ℕ) : List ι :=
  (SortedWindow.window Prod.fst sorted center window).map Prod.snd

def decodeTick (node : Json) : Option TickBoundary := do
  let sqrtPrice ← (node.findKey "sqrt_price").bind Json.jsonU128
  let net ← node.findKey "liquidity_net"
  let bits ← net.bits
  return ⟨sqrtPrice,asI128 bits⟩

def decodeNode (resp : SuiObjectResponse) : Option TickBoundary := resp.moveFields.bind decodeTick

def loadWindow (reads : TickReads) (skiplist : ObjectId) (centerScore : U64) (window : ℕ) :
    Anyhow (List TickBoundary) := do
  let pages ← reads.dynamicFields skiplist
  let nodes := pages.flatten.filterMap fun info => info.name.jsonU128.map fun s => (asU64 s,info.objectId)
  if nodes = [] then
    return []
  let nodes := nodes.insertionSort fun first second => first.1 ≤ second.1
  let ids := selectWindow nodes centerScore window
  let responses ← (ids.toChunks 50).mapM reads.multiGetObject
  return byPrice (responses.flatten.filterMap decodeNode)

end CetusTicks

namespace TurbosTicks

def currentTick (obj : SuiObjectResponse) : Option I32 := do
  let content ← obj.moveFields
  let cti ← content.findKey "tick_current_index"
  let bits ← cti.bits
  return asI32 (wrap 32 bits.val)

def selectWindow {ι : Type} (sorted : List (I32 × ι)) (center : I32) (window : ℕ) : List (I32 × ι) :=
  SortedWindow.window Prod.fst sorted center window

def decodeLiquidityNet (resp : SuiObjectResponse) : Option I128 := do
  let node ← resp.moveFields
  let net ← node.findKey "liquidity_net"
  let bits ← net.bits
  return asI128 bits

/-- `scale` multiplies a price by the factor of so many ticks, in floating point. The ticks are
subtracted as integers, where the source subtracts `i32`: a debug build panics on a difference
that has no `i32`, which a release build wraps. -/
def sqrtPriceAtTick (scale : U128 → ℤ → U128) (currentSqrtPrice : U128) (currentTick tick : I32) : U128 :=
  if tick = currentTick then currentSqrtPrice else scale currentSqrtPrice (tick.val - currentTick.val)

def loadWindow (scale : U128 → ℤ → U128) (reads : TickReads) (pool : ObjectId) (currentSqrtPrice : U128)
    (currentTick : I32) (window : ℕ) : Anyhow (List TickBoundary) := do
  let pages ← reads.dynamicFields pool
  let nodes := (pages.flatten.filter fun info => "::pool::Tick".toList.isSuffixOf info.objectType.toList).filterMap fun info =>
    info.name.bits.map fun idx => (asI32 (wrap 32 idx.val),info.objectId)
  if nodes = [] then
    return []
  let nodes := nodes.insertionSort fun first second => first.1.val ≤ second.1.val
  let windowed := selectWindow nodes currentTick window
  let responses ← (windowed.toChunks 50).mapM fun chunk => do
    return chunk.zip (← reads.multiGetObject (chunk.map Prod.snd))
  return byPrice (responses.flatten.filterMap fun ((tick,_),r) =>
    (decodeLiquidityNet r).map fun net => ⟨sqrtPriceAtTick scale currentSqrtPrice currentTick tick,net⟩)

end TurbosTicks

end SuiArbitrage.Rust
