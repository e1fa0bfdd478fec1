import SuiArbitrage.Rust.ClmmWorth
import SuiArbitrage.Rust.Evaluate
import Mathlib.Tactic.Linarith
import Mathlib.Tactic.Ring

/-! A market without a dislocation. Where one value per token explains every pool's
price, no hop raises the value it moves, so no cycle ends with more than it started
with. -/
namespace SuiArbitrage.Rust.Scanner
open MachineWord Fallible Clmm

def Priced (v : TokenId → ℚ) (pool : PoolState) : Prop :=
  match pool.kind with
  | .v2 reserveA reserveB _ => reserveA.val * v pool.tokenA = reserveB.val * v pool.tokenB
  | .clmm state => (state.sqrtPrice.val : ℚ)^2 * v pool.tokenB = 2^128 * v pool.tokenA

structure Balanced (v : TokenId → ℚ) (pools : List PoolState) : Prop where
  positive : ∀ token, 0 < v token
  priced : ∀ pool ∈ pools, Priced v pool

def Bounded (pools : List PoolState) : Prop :=
  ∀ pool ∈ pools, ∀ state, pool.kind = .clmm state → state.Within minSqrtPrice.val maxSqrtPrice.val

/-- No quote of the scan panics: it fails, if at all, with a fault of the optimizer's own. -/
def QuotesReturn (build : Build) (pools : List PoolState) (params : ScanParams) : Prop :=
  ∀ fault, findBest build pools params = .error fault → ¬ QuoteFault fault

/-- The optimizer's window for this route keeps the last `u64` as its upper end. -/
def ClimbsToTop (build : Build) (byId : PoolId → Option PoolState) (params : ScanParams) (route : List Hop) : Prop :=
  ∃ lo hi, params.candidateInputs.min? = some lo ∧ params.candidateInputs.max? = some hi ∧ lo < hi ∧
    hi.val + 1 = 2^64 ∧ (∃ net, netSigned build byId route params hi = .ok (some net)) ∧
    Sizing.Climbs (netSigned build byId route params) hi lo

section worth
variable {v : TokenId → ℚ} {build : Build}

theorem worth_of_rate {amount out rateIn rateOut : ℕ} {valueIn valueOut : ℚ} (positive : 0 < rateOut)
    (valuePos : 0 < valueOut) (quoted : out * rateOut ≤ amount * rateIn)
    (rates : rateIn * valueOut = rateOut * valueIn) : out * valueOut ≤ amount * valueIn := by
  have rateOutPos : (0 : ℚ) < rateOut := by exact_mod_cast positive
  have exchanged : (out : ℚ) * rateOut ≤ amount * rateIn := by exact_mod_cast quoted
  have valued : out * valueOut * rateOut ≤ amount * valueIn * rateOut := by
    calc out * valueOut * rateOut = out * rateOut * valueOut := by ring
      _ ≤ amount * rateIn * valueOut := mul_le_mul_of_nonneg_right exchanged valuePos.le
      _ = amount * (rateIn * valueOut) := by ring
      _ = amount * valueIn * rateOut := by rw [rates]; ring
  exact le_of_mul_le_mul_right valued rateOutPos

theorem getAmountOut_worth {amountIn reserveIn reserveOut feeBps out : U64} {valueIn valueOut : ℚ}
    (valuePos : 0 < valueOut)
    (quoted : Amm.getAmountOut build amountIn reserveIn reserveOut feeBps = .ok (some out))
    (rates : reserveOut.val * valueOut = reserveIn.val * valueIn) :
    out.val * valueOut ≤ amountIn.val * valueIn := by
  have inPos := (Amm.getAmountOut_le quoted).1.2.1
  exact worth_of_rate inPos valuePos (Amm.getAmountOut_le_spot quoted) rates

theorem quoteHop_worth {pool : PoolState} {hop : Hop} {amountIn out : U64} (positive : ∀ token, 0 < v token)
    (priced : Priced v pool)
    (bounded : ∀ state, pool.kind = .clmm state → state.Within minSqrtPrice.val maxSqrtPrice.val)
    (crosses : Crosses pool hop) (quoted : quoteHop build pool hop amountIn = .ok (some out)) :
    out.val * v hop.tokenOut ≤ amountIn.val * v hop.tokenIn := by
  obtain ⟨-,tokens⟩ := crosses
  unfold quoteHop at quoted
  unfold Priced at priced
  split at quoted
  · rename_i reserveA reserveB feeBps kind
    rw [kind] at priced
    simp only at priced
    split at tokens
    · rename_i forward
      rw [if_pos forward] at quoted
      rw [tokens.1,tokens.2]
      exact getAmountOut_worth (positive _) quoted priced.symm
    · rename_i backward
      rw [if_neg backward] at quoted
      rw [tokens.1,tokens.2]
      exact getAmountOut_worth (positive _) quoted priced
  · rename_i state kind
    rw [kind] at priced
    simp only at priced
    have within := bounded state kind
    have exchanged := quoteExactIn_worth within quoted
    have unit : (q64.val : ℚ) * q64.val = 2^128 := by
      rw [q64_val]
      norm_num
    have pricePos : 0 < state.sqrtPrice.val := lt_of_lt_of_le (by decide) within.price.1
    split at tokens
    · rename_i forward
      simp only [forward,rateOut,rateIn,if_true] at exchanged
      rw [tokens.1,tokens.2]
      refine worth_of_rate (Nat.mul_pos q64_pos q64_pos) (positive _) exchanged ?_
      push_cast
      rw [unit,← pow_two]
      exact priced
    · rename_i backward
      rw [Bool.not_eq_true] at backward
      simp only [backward,rateOut,rateIn,Bool.false_eq_true,if_false] at exchanged
      rw [tokens.1,tokens.2]
      refine worth_of_rate (Nat.mul_pos pricePos pricePos) (positive _) exchanged ?_
      push_cast
      rw [unit,← pow_two]
      exact priced.symm

end worth

section balanced
variable {v : TokenId → ℚ} {build : Build} {pools : List PoolState} {params : ScanParams}

theorem collect_worth (unique : (pools.map PoolState.id).Nodup) (balanced : Balanced v pools)
    (bounded : Bounded pools) {route : List Hop} {start final : TokenId} {input output : U64} {outs : List U64}
    (linked : Linked start route final) (crosses : ∀ hop ∈ route, ∃ pool ∈ pools, Crosses pool hop)
    (collected : collect build (lookup pools) route input = .ok (some outs))
    (last : (input :: outs).getLast? = some output) : output.val * v final ≤ input.val * v start := by
  induction route generalizing start input outs with
  | nil =>
    obtain rfl := Option.some.inj (Except.ok.inj collected)
    obtain rfl := Option.some.inj last
    obtain rfl : start = final := linked
    exact le_rfl
  | cons hop rest ih =>
    obtain ⟨rfl,linked⟩ := linked
    obtain ⟨pool,out,tail,found,quoted,onward,rfl⟩ := collect_cons.mp collected
    obtain ⟨crossed,listed,crossing⟩ := crosses hop List.mem_cons_self
    obtain rfl : crossed = pool := Option.some.inj ((lookup_crosses unique listed crossing).symm.trans found)
    have first := quoteHop_worth balanced.positive (balanced.priced _ listed) (bounded _ listed) crossing quoted
    rw [List.getLast?_cons_cons] at last
    exact (ih linked (fun hop member => crosses hop (List.mem_cons_of_mem _ member)) onward last).trans first

theorem Cycle.no_gain (unique : (pools.map PoolState.id).Nodup) (balanced : Balanced v pools)
    (bounded : Bounded pools) {route : List Hop} (cycle : Cycle pools params.baseToken params.maxHops route)
    {input output : U64} (simulated : simulate build (lookup pools) route input = .ok (some output)) :
    output ≤ input := by
  obtain ⟨outs,collected,last⟩ := simulate_some.mp simulated
  obtain ⟨-,collected⟩ := simulateCollect_some.mp collected
  have nonempty : outs ≠ [] := by
    rintro rfl
    cases last
  have worth := collect_worth unique balanced bounded cycle.linked cycle.crosses collected
    (show (input :: outs).getLast? = some output by rw [List.getLast?_cons_of_ne_nil nonempty,last])
  have atMost : (output.val : ℚ) ≤ input.val := le_of_mul_le_mul_right worth (balanced.positive _)
  exact_mod_cast atMost

theorem sizeRoute_error {route : List Hop} {fault : Fault}
    (failed : sizeRoute build (lookup pools) params route = .error fault) (noQuote : ¬ QuoteFault fault) :
    ClimbsToTop build (lookup pools) params route := by
  unfold sizeRoute at failed
  split at failed
  · cases failed
  rcases bind_error.mp failed with chosen | ⟨inputs,-,failed⟩
  · unfold candidates at chosen
    split at chosen
    · rename_i lo hi least largest
      split at chosen
      · rename_i ordered
        rcases bind_error.mp chosen with searched | ⟨result,-,chosen⟩
        · rcases Sizing.ternaryMax_error searched with ⟨x,-,-,quoted⟩ | ⟨top,feasible,climbs⟩
          · exact absurd (raises_netSigned build _ route params x _ quoted) noQuote
          · exact ⟨lo,hi,least,largest,ordered,top,feasible,climbs⟩
        · split at chosen
          · cases chosen
          · cases chosen
      · cases chosen
    · cases chosen
  · obtain ⟨input,-,evaluated⟩ := FirstMax.bestOf_error _ failed
    exact absurd (raises_evaluateInput build _ route params input fault evaluated) noQuote

theorem findBest_ok {best : Option Opportunity} :
    findBest build pools params = .ok best ↔
      ∃ values, (findCycles (buildAdjacency pools) params.baseToken params.maxHops).mapM
        (sizeRoute build (lookup pools) params) = .ok values ∧
        best = FirstMax.firstMax Opportunity.netProfit values.reduceOption :=
  FirstMax.bestOf_ok _

theorem sizeRoute_settles {route : List Hop} {result : Option Opportunity} (nonempty : route ≠ [])
    (sized : sizeRoute build (lookup pools) params route = .ok result) :
    ¬ ClimbsToTop build (lookup pools) params route := by
  rintro ⟨lo,hi,least,largest,ordered,top,⟨net,feasible⟩,climbs⟩
  obtain ⟨inputs,-,chosen,-,-⟩ := sizeRoute_ok nonempty sized
  simp only [candidates,least,largest,ordered,if_true,bind_ok] at chosen
  obtain ⟨found,searched,-⟩ := chosen
  exact Sizing.ternaryMax_climbs ordered.le top feasible climbs searched

/-- Where the scan returns, no cycle's optimizer climbed to the last `u64`. -/
theorem findBest_settles {route : List Hop} {result : Option Opportunity} (scanned : findBest build pools params = .ok result)
    (listed : route ∈ findCycles (buildAdjacency pools) params.baseToken params.maxHops) :
    ¬ ClimbsToTop build (lookup pools) params route := by
  obtain ⟨values,mapped,-⟩ := findBest_ok.mp scanned
  obtain ⟨sized,-,ran⟩ := mapM_ran mapped listed
  exact sizeRoute_settles (findCycles_cycle listed).nonempty ran

/-- The scan of a balanced market finds nothing, and it returns exactly where the
optimizer's window climbs to the last `u64` on none of the searched cycles. -/
theorem findBest_balanced_iff (unique : (pools.map PoolState.id).Nodup) (balanced : Balanced v pools)
    (bounded : Bounded pools) (quotes : QuotesReturn build pools params) :
    findBest build pools params = .ok none ↔
      ∀ route ∈ findCycles (buildAdjacency pools) params.baseToken params.maxHops,
        ¬ ClimbsToTop build (lookup pools) params route := by
  constructor
  · intro nothing route listed
    exact findBest_settles nothing listed
  · intro stays
    cases scanned : findBest build pools params with
    | ok result =>
      cases result with
      | none => rfl
      | some opp =>
        obtain ⟨route,listed,input,evaluated⟩ := findBest_some scanned
        obtain ⟨outs,output,collected,last,gains,-,-⟩ := evaluateInput_some.mp evaluated
        have atMost := (findCycles_cycle listed).no_gain unique balanced bounded (simulate_some.mpr ⟨outs,collected,last⟩)
        exact absurd gains (not_lt.mpr atMost)
    | error fault =>
      have noQuote := quotes fault scanned
      obtain ⟨route,listed,failed⟩ := FirstMax.bestOf_error _ scanned
      exact absurd (sizeRoute_error failed noQuote) (stays route listed)

theorem quotesReturn_of_ok {result : Option Opportunity} (scanned : findBest build pools params = .ok result) :
    QuotesReturn build pools params := by
  intro fault failed
  cases scanned.symm.trans failed

/-- The overflow of a `u64` is the optimizer's own. -/
theorem quotesReturn_of_overflow (overflows : findBest build pools params = .error (.panic (.arithmetic 64))) :
    QuotesReturn build pools params := by
  intro fault failed quoting
  obtain ⟨reason,rfl,other⟩ := quoting
  obtain rfl := Fault.panic.inj (Except.error.inj (overflows.symm.trans failed))
  exact other rfl

def evenPool : PoolState := .v2 "pool" .ammV2 "A" "B" 1000 1000 30

theorem evenPool_balanced : Balanced (fun _ => 1) [evenPool] :=
  ⟨fun _ => one_pos,fun pool member => by
    obtain rfl := List.mem_singleton.mp member
    rfl⟩

theorem evenPool_bounded : Bounded [evenPool] := by
  intro pool member state kind
  obtain rfl := List.mem_singleton.mp member
  cases kind

/-- Two ticks on either side of the price. -/
def tickedState : ClmmState :=
  ⟨36893488147419103232,1000000,3000,[⟨35000000000000000000,asI128 (wrap 128 600000)⟩,
    ⟨36000000000000000000,asI128 (wrap 128 400000)⟩,⟨38000000000000000000,asI128 (wrap 128 (-400000))⟩,
    ⟨39000000000000000000,asI128 (wrap 128 (-600000))⟩]⟩

/-- A market of three tokens, where one of `B` is worth two of `A` and four of `C`. -/
def triangle : List PoolState :=
  [.v2 "p" .ammV2 "A" "B" 2000000 1000000 30,.v2 "q" .ammV2 "C" "A" 4000000 2000000 30,.clmm "r" .cetus "B" "C" tickedState]

def triangleValue (token : TokenId) : ℚ := if token = "B" then 2 else if token = "C" then 1 / 2 else 1

theorem triangle_balanced : Balanced triangleValue triangle := by
  constructor
  · intro token
    unfold triangleValue
    split_ifs <;> norm_num
  · intro pool member
    simp only [triangle,List.mem_cons,List.not_mem_nil,or_false] at member
    obtain rfl | rfl | rfl := member
    · show (2000000 : ℚ) * 1 = 1000000 * 2
      norm_num
    · show (4000000 : ℚ) * (1 / 2) = 2000000 * 1
      norm_num
    · show (36893488147419103232 : ℚ)^2 * (1 / 2) = 2^128 * 2
      norm_num

theorem triangle_bounded : Bounded triangle := by
  intro pool member state kind
  simp only [triangle,List.mem_cons,List.not_mem_nil,or_false] at member
  obtain rfl | rfl | rfl := member
  · cases kind
  · cases kind
  · obtain rfl : tickedState = state := PoolKind.clmm.inj kind
    exact ⟨by decide,by decide⟩

/-- Both ways around the triangle are quoted, across a tick, and the grid ends far below the
last `u64`. -/
theorem findBest_balanced_triangle :
    let params : ScanParams := ⟨"A",3,[1000,30000],1,30,0⟩
    (∃ route ∈ findCycles (buildAdjacency triangle) params.baseToken params.maxHops,
      simulateCollect .debug (lookup triangle) route 30000 = .ok (some [14734,57051,28041])) ∧
    findBest .debug triangle params = .ok none := by
  intro params
  have returns : (findBest .debug triangle params).isOk = true := by decide +kernel
  obtain ⟨result,scanned⟩ := exists_ok returns
  have quotes : QuotesReturn .debug triangle params := quotesReturn_of_ok scanned
  constructor
  · decide +kernel
  · apply (findBest_balanced_iff (by decide) triangle_balanced triangle_bounded quotes).mpr
    intro route listed climbs
    obtain ⟨lo,hi,-,most,-,top,-,-⟩ := climbs
    obtain rfl : (30000 : U64) = hi := Option.some.inj most
    exact absurd top (by decide)

/-- In a balanced market whose quotes all return, a grid that reaches the last `u64`
makes the scan panic. -/
theorem findBest_balanced_panics :
    let params : ScanParams := ⟨"A",2,[18446744073709551614,18446744073709551615],0,0,0⟩
    ([evenPool].map PoolState.id).Nodup ∧ Balanced (fun _ => 1) [evenPool] ∧ Bounded [evenPool] ∧
      QuotesReturn .debug [evenPool] params ∧
      findBest .debug [evenPool] params = .error (.panic (.arithmetic 64)) := by
  intro params
  have panics : findBest .debug [evenPool] params = .error (.panic (.arithmetic 64)) := by decide +kernel
  exact ⟨by decide,evenPool_balanced,evenPool_bounded,quotesReturn_of_overflow panics,panics⟩

end balanced

end SuiArbitrage.Rust.Scanner
