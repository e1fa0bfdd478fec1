import SuiArbitrage.Lib.FirstMax
import SuiArbitrage.Rust.Amm
import SuiArbitrage.Rust.Flashloan
import SuiArbitrage.Rust.Sizing

/-! The arbitrage scan of `offchain/src/scanner.rs`. Its hash maps are functions:
later pools take the place of earlier ones of the same id, and the edges of a token
stay in the order of the pools. -/
namespace SuiArbitrage.Rust.Scanner
open MachineWord Fallible

structure Hop where
  poolId : PoolId
  dex : Dex
  tokenIn : TokenId
  tokenOut : TokenId
  aToB : Bool
  deriving DecidableEq, Repr

inductive OppKind
  | arb | liquidation | backrun
  deriving DecidableEq, Repr

inductive Protocol
  | scallop | suilend | navi
  deriving DecidableEq, Repr

structure LiquidationLeg where
  protocol : Protocol
  obligationId : String
  debtType : TokenId
  collateralType : TokenId
  repayAmount : U64
  extraObjectIds : List String
  deriving DecidableEq, Repr

structure Opportunity where
  kind : OppKind
  liquidation : Option LiquidationLeg
  route : List Hop
  inputAmount : U64
  outputAmount : U64
  hopOutputs : List U64
  grossProfit : U64
  flashFee : U64
  netProfit : U64
  deriving DecidableEq, Repr

structure ScanParams where
  baseToken : TokenId
  maxHops : ℕ
  candidateInputs : List U64
  gasCost : U64
  flashFeeBps : U64
  minProfit : U64
  deriving DecidableEq, Repr

structure Edge where
  poolId : PoolId
  dex : Dex
  source : TokenId
  target : TokenId
  aToB : Bool
  deriving DecidableEq, Repr

def poolEdges (pool : PoolState) : List Edge :=
  [⟨pool.id,pool.dex,pool.tokenA,pool.tokenB,true⟩,⟨pool.id,pool.dex,pool.tokenB,pool.tokenA,false⟩]

def buildAdjacency (pools : List PoolState) (token : TokenId) : List Edge :=
  (pools.flatMap poolEdges).filter (·.source = token)

def hopOf (edge : Edge) : Hop := ⟨edge.poolId,edge.dex,edge.source,edge.target,edge.aToB⟩

/-- The first argument bounds the depth. A path is extended only below `maxHops`, so
from `maxHops` it runs out only where nothing could be found. -/
def dfs (adj : TokenId → List Edge) (base : TokenId) (maxHops : ℕ) :
    ℕ → TokenId → List TokenId → List Hop → List (List Hop)
  | 0,_,_,_ => []
  | depth + 1,current,visited,path =>
    (adj current).flatMap fun edge =>
      let newLen := path.length + 1
      if edge.target = base then
        if 2 ≤ newLen ∧ newLen ≤ maxHops then [path ++ [hopOf edge]] else []
      else if edge.target ∉ visited ∧ newLen < maxHops then
        dfs adj base maxHops depth edge.target (edge.target :: visited) (path ++ [hopOf edge])
      else []

def findCycles (adj : TokenId → List Edge) (base : TokenId) (maxHops : ℕ) : List (List Hop) :=
  dfs adj base maxHops maxHops base [base] []

def lookup (pools : List PoolState) (id : PoolId) : Option PoolState := pools.reverse.find? (·.id = id)

section pricing
variable (build : Build) (byId : PoolId → Option PoolState)

def quoteHop (pool : PoolState) (hop : Hop) (amountIn : U64) : Rust (Option U64) :=
  match pool.kind with
  | .v2 reserveA reserveB feeBps =>
    if hop.aToB then Amm.getAmountOut build amountIn reserveA reserveB feeBps
    else Amm.getAmountOut build amountIn reserveB reserveA feeBps
  | .clmm state => Clmm.quoteExactIn build state amountIn hop.aToB

def collect : List Hop → U64 → Rust (Option (List U64))
  | [],_ => .ok (some [])
  | hop :: rest,amount =>
    andThen (.ok (byId hop.poolId)) fun pool =>
      andThen (quoteHop build pool hop amount) fun amount =>
        andThen (collect rest amount) fun outs => .ok (some (amount :: outs))

def simulateCollect (route : List Hop) (input : U64) : Rust (Option (List U64)) :=
  if route = [] then .ok none else collect build byId route input

def simulate (route : List Hop) (input : U64) : Rust (Option U64) :=
  andThen (simulateCollect build byId route input) fun outs => .ok outs.getLast?

def flashFee (params : ScanParams) (input : U64) : U64 :=
  if 0 < params.flashFeeBps then Flashloan.quoteFeeBps input params.flashFeeBps else 0

/-- The difference of four `u64` values fits an `i128`. -/
def netSigned (route : List Hop) (params : ScanParams) (input : U64) : Rust (Option ℤ) :=
  andThen (simulate build byId route input) fun output =>
    .ok (some (output.val - input.val - params.gasCost.val - (flashFee params input).val))

def evaluateInput (route : List Hop) (params : ScanParams) (input : U64) : Rust (Option Opportunity) :=
  andThen (simulateCollect build byId route input) fun hopOutputs =>
    andThen (.ok hopOutputs.getLast?) fun output =>
      if output ≤ input then .ok none
      else
        let grossProfit := saturatingSub output input
        let fee := flashFee params input
        let netProfit := saturatingSub (saturatingSub grossProfit params.gasCost) fee
        if netProfit < params.minProfit then .ok none
        else .ok (some ⟨.arb,none,route,input,output,hopOutputs,grossProfit,fee,netProfit⟩)

/-- The sizes a route is evaluated at: the given ones and the optimum between their
least and their largest. -/
def candidates (route : List Hop) (params : ScanParams) : Rust (List U64) :=
  match params.candidateInputs.min?,params.candidateInputs.max? with
  | some lo,some hi =>
    if lo < hi then do
      match ← Sizing.ternaryMax build (netSigned build byId route params) lo hi with
      | some (opt,_) => return params.candidateInputs ++ [opt]
      | none => return params.candidateInputs
    else .ok params.candidateInputs
  | _,_ => .ok params.candidateInputs

def sizeRoute (params : ScanParams) (route : List Hop) : Rust (Option Opportunity) := do
  if route = [] ∨ params.candidateInputs = [] then
    return none
  let inputs ← candidates build byId route params
  FirstMax.bestOf Opportunity.netProfit (evaluateInput build byId route params) inputs

end pricing

def findBest (build : Build) (pools : List PoolState) (params : ScanParams) : Rust (Option Opportunity) :=
  let cycles := findCycles (buildAdjacency pools) params.baseToken params.maxHops
  FirstMax.bestOf Opportunity.netProfit (sizeRoute build (lookup pools) params) cycles

end SuiArbitrage.Rust.Scanner
