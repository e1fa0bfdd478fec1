import SuiArbitrage.Lib.ReserveRange
import SuiArbitrage.Rust.Amm
import SuiArbitrage.Rust.ClmmWorth

/-! The engine over a single range, against the constant-product formula that it
generalises: it never quotes more, and less only by its rounding. -/
namespace SuiArbitrage.Rust.Clmm
open MachineWord Fallible ConcentratedLiquidity

section single
variable {price liquidity : U128} {feePips amount : U64} {aToB : Bool}

def wholeRange (price liquidity : U128) (amount : U64) (aToB : Bool) : Range :=
  ⟨price.val,(bound aToB).val,liquidity.val,amount.val⟩

theorem boundaries_none (price liquidity : U128) (feePips : U64) (aToB : Bool) :
    boundaries (singleRange price liquidity feePips) aToB = [] := by
  cases aToB <;> rfl

theorem quoteExactIn_single (build : Build) (entered : (wholeRange price liquidity amount aToB).Entered aToB feePips.val)
    (paid : 0 < amount.val) (fits : (wholeRange price liquidity amount aToB).Fits aToB feePips.val)
    (small : (wholeRange price liquidity amount aToB).amountOut aToB feePips.val < 2^64) :
    quoteExactIn build (singleRange price liquidity feePips) amount aToB =
      .ok (some ⟨(wholeRange price liquidity amount aToB).amountOut aToB feePips.val,small⟩) := by
  have accepted : ¬ (amount = 0 ∨ liquidity = 0 ∨ pipsDenom ≤ u128 feePips) :=
    fun refused => refused_iff.mp refused ⟨paid,entered.liquid,entered.fee⟩
  have words : (wholeRange price liquidity amount aToB).Of price (bound aToB) liquidity (u128 amount) :=
    ⟨rfl,rfl,rfl,rfl⟩
  obtain ⟨step,exact⟩ := exists_step entered words (small.trans (by norm_num))
  have stepped : computeSwapStep build price (bound aToB) liquidity (u128 amount) feePips aToB = .ok step :=
    (computeSwapStep_ok entered words).mpr ⟨fits,exact⟩
  have left : ¬ u128 amount = 0 := fun zero => paid.ne' (congrArg Fin.val zero)
  have advanced := advance_of_exact build ⟨price,liquidity,u128 amount,0⟩ entered exact
  have out : add build (0 : U128) step.amountOut = .ok step.amountOut := by
    rw [add_of_lt (by rw [Fin.val_zero,Nat.zero_add]; exact step.amountOut.isLt)]
    exact congrArg Except.ok (Fin.ext (Nat.zero_add _))
  rw [quoteExactIn,boundaries_none,singleRange]
  simp only [if_neg accepted,List.isEmpty_nil,Bool.not_true,swapLoop,if_neg left,Bool.false_eq_true,if_false,false_and]
  have target : (if aToB then minSqrtPrice else maxSqrtPrice) = bound aToB := rfl
  rw [target,stepped,ok_bind,advanced,out,ok_bind,ok_bind,pure_eq_ok]
  exact congrArg Except.ok (tryU64_eq_some.mpr exact.amountOut.symm)

end single

/-- The price and the depth at which a single range holds the reserves of a pool. -/
structure Reserves (ra rb : U64) (S L : ℕ) : Prop where
  first : 0 < ra.val
  second : 0 < rb.val
  ratio : S^2 * ra.val = rb.val * 2^128
  depth : L^2 = ra.val * rb.val

namespace Reserves
variable {ra rb : U64} {S L : ℕ} (reserves : Reserves ra rb S L)
include reserves

theorem holds : ReserveRange.Holds q64.val L S ra.val rb.val :=
  ReserveRange.holds_of_squares (by rw [reserves.ratio,q64_val]; ring) reserves.depth

theorem depth_pos : 0 < L := by
  by_contra zero
  have depth := reserves.depth
  rw [Nat.eq_zero_of_not_pos zero] at depth
  exact (Nat.mul_pos reserves.first reserves.second).ne depth

theorem depth_lt : L < 2^64 := by
  apply lt_of_pow_lt_pow_left' 2
  rw [reserves.depth]
  have := Nat.mul_lt_mul'' ra.isLt rb.isLt
  omega

theorem price_lt : S < 2^96 := by
  apply lt_of_pow_lt_pow_left' 2
  have some := reserves.first
  have bound := rb.isLt
  have ratio := reserves.ratio
  have grown : S^2 * 1 ≤ S^2 * ra.val := Nat.mul_le_mul_left _ some
  omega

theorem lt_price : 2^32 < S := by
  apply lt_of_pow_lt_pow_left' 2
  have some := reserves.second
  have ratio := reserves.ratio
  by_contra low
  have small := Nat.mul_lt_mul_of_le_of_lt (Nat.not_lt.mp low) ra.isLt (by norm_num)
  omega

end Reserves

@[simp] theorem bound_first : (bound true).val = 65536 := rfl

@[simp] theorem bound_second : (bound false).val = 1329227995784915872903807060280344576 := rfl

/-- The range that holds the reserves, entered with an input. -/
def reserveRange (S L : ℕ) (amount : U64) (aToB : Bool) : Range := ⟨S,(bound aToB).val,L,amount.val⟩

namespace Reserves
variable {ra rb feePips : U64} {S L : ℕ} (reserves : Reserves ra rb S L)
include reserves

theorem entered (amount : U64) (aToB : Bool) (fee : feePips.val < 1000000) : (reserveRange S L amount aToB).Entered aToB feePips.val where
  price := pos_of_gt reserves.lt_price
  target := bound_pos aToB
  ahead := by
    have low := reserves.lt_price
    have high := reserves.price_lt
    cases aToB with
    | true =>
      rw [ahead_first]
      change (bound true).val ≤ S
      rw [bound_first]
      omega
    | false =>
      rw [ahead_second]
      change S ≤ (bound false).val
      rw [bound_second]
      omega
  liquid := reserves.depth_pos
  remaining := amount.isLt
  fee := fee

/-- Paying in the first token ends at or above the price of the curve, and less than one
above it unless the engine's bound is reached. -/
theorem next_first (amount : U64) (fee : feePips.val < 1000000) :
    let range := reserveRange S L amount true
    let n := range.net feePips.val
    S * ra.val ≤ range.next true feePips.val * (ra.val + n) ∧
      (¬ range.Reached true feePips.val → range.next true feePips.val * (ra.val + n) ≤ S * ra.val + (ra.val + n)) := by
  intro range n
  have price : 0 < S := pos_of_gt reserves.lt_price
  have curve := reserves.holds.first
  by_cases reached : range.Reached true feePips.val
  · refine ⟨?_,fun short => absurd reached short⟩
    have room : 0 < S * (bound true).val := Nat.mul_pos price (bound_pos true)
    have enough : firstUp q64.val L (bound true).val S ≤ n := charge_first ▸ reached
    have charged := (firstUp_le_iff room).mp enough
    have ahead : (bound true).val ≤ S := ahead_first.mp (reserves.entered amount true fee).ahead
    rw [Range.next_of_reached reached]
    change S * ra.val ≤ (bound true).val * (ra.val + n)
    rw [← curve] at charged
    have cancelled : ra.val * (S - (bound true).val) ≤ (bound true).val * n := by
      apply Nat.le_of_mul_le_mul_left _ price
      calc S * (ra.val * (S - (bound true).val)) = S * ra.val * (S - (bound true).val) := by ring
        _ ≤ S * (bound true).val * n := charged
        _ = S * ((bound true).val * n) := by ring
    rw [Nat.mul_sub] at cancelled
    rw [Nat.mul_add,Nat.mul_comm S,Nat.mul_comm (bound true).val ra.val]
    omega
  · rw [Range.next_of_short reached,moved_first]
    change S * ra.val ≤ afterFirst q64.val L S n * (ra.val + n) ∧ (_ → afterFirst q64.val L S n * (ra.val + n) ≤ _)
    have liquid : 0 < L * q64.val := Nat.mul_pos reserves.depth_pos q64_pos
    have above := le_afterFirst_mul liquid S n
    have near : afterFirst q64.val L S n * (L * q64.val + n * S) ≤ L * q64.val * S + (L * q64.val + n * S) :=
      ceilDiv_mul_le _ _
    rw [← curve] at above near
    refine ⟨Nat.le_of_mul_le_mul_right ?_ price,fun _ => Nat.le_of_mul_le_mul_right ?_ price⟩
    · linarith
    · linarith

theorem next_second (amount feePips : U64) :
    let range := reserveRange S L amount false
    let n := range.net feePips.val
    L * (range.next false feePips.val - S) ≤ n * q64.val ∧
      (¬ range.Reached false feePips.val → n * q64.val ≤ L * (range.next false feePips.val - S) + L) := by
  intro range n
  by_cases reached : range.Reached false feePips.val
  · refine ⟨?_,fun short => absurd reached short⟩
    have enough : secondUp q64.val L S (bound false).val ≤ n := charge_second ▸ reached
    rw [Range.next_of_reached reached,Nat.mul_comm n]
    exact (secondUp_le_iff q64_pos).mp enough
  · rw [Range.next_of_short reached,moved_second]
    change L * (S + n * q64.val / L - S) ≤ n * q64.val ∧ (_ → n * q64.val ≤ L * (S + n * q64.val / L - S) + L)
    rw [Nat.add_sub_cancel_left]
    refine ⟨Nat.mul_div_le _ _,fun _ => ?_⟩
    rw [← Nat.mul_add_one]
    exact (Nat.lt_mul_div_succ _ reserves.depth_pos).le

theorem amountOut_le (amount : U64) (aToB : Bool) (fee : feePips.val < 1000000) :
    let range := reserveRange S L amount aToB
    range.amountOut aToB feePips.val * ((if aToB then ra else rb).val + range.net feePips.val) ≤
      (if aToB then rb else ra).val * range.net feePips.val := by
  intro range
  cases aToB with
  | true =>
    rw [Range.amountOut,payout_first,if_pos rfl,if_pos rfl]
    exact ReserveRange.secondDown_le reserves.holds q64_pos (reserves.next_first amount fee).1
  | false =>
    have ahead := ahead_second.mp (reserves.entered amount _ fee).next_ahead
    rw [Range.amountOut,payout_second,if_neg Bool.false_ne_true,if_neg Bool.false_ne_true]
    exact ReserveRange.firstDown_le reserves.holds q64_pos (pos_of_gt reserves.lt_price) ahead (reserves.next_second amount feePips).1

/-- What one step of the price is worth in the token paid out. -/
def grain (S L : ℕ) (ra : U64) (aToB : Bool) : ℚ := if aToB then (L : ℚ) / 2^64 else (ra.val : ℚ) / S

theorem lt_amountOut (amount : U64) (aToB : Bool) (fee : feePips.val < 1000000)
    (short : ¬ (reserveRange S L amount aToB).Reached aToB feePips.val) :
    let range := reserveRange S L amount aToB
    ((if aToB then rb else ra).val : ℚ) * range.net feePips.val / ((if aToB then ra else rb).val + range.net feePips.val) <
      range.amountOut aToB feePips.val + grain S L ra aToB + 1 := by
  intro range
  cases aToB with
  | true =>
    have ahead := ahead_first.mp (reserves.entered amount _ fee).next_ahead
    have near := ReserveRange.lt_secondDown reserves.holds q64_pos reserves.first ahead ((reserves.next_first amount fee).2 short)
    have unit : (q64.val : ℚ) = 2^64 := by norm_num [q64_val]
    rw [unit] at near
    rw [Range.amountOut,payout_first,grain,if_pos rfl,if_pos rfl,if_pos rfl]
    exact near
  | false =>
    have ahead := ahead_second.mp (reserves.entered amount _ fee).next_ahead
    rw [Range.amountOut,payout_second,grain,if_neg Bool.false_ne_true,if_neg Bool.false_ne_true,if_neg Bool.false_ne_true]
    exact ReserveRange.lt_firstDown reserves.holds q64_pos (pos_of_gt reserves.lt_price) reserves.second ahead
      ((reserves.next_second amount feePips).2 short)

/-- An input that takes the price to the engine's bound buys all but at most one unit. -/
theorem reached_le (amount : U64) (aToB : Bool) (fee : feePips.val < 1000000)
    (reached : (reserveRange S L amount aToB).Reached aToB feePips.val) :
    (if aToB then rb else ra).val ≤ (reserveRange S L amount aToB).amountOut aToB feePips.val + 1 := by
  have net : (reserveRange S L amount aToB).net feePips.val < 2^64 := Range.net_le.trans_lt amount.isLt
  have depth := reserves.holds.first
  have curve := reserves.holds.second
  cases aToB with
  | true =>
    have above := (reserves.next_first amount fee).1
    rw [Range.next_of_reached reached] at above
    change S * ra.val ≤ 65536 * _ at above
    have bounded := ra.isLt
    rw [q64_val] at depth curve
    have shallow : L * 65536 ≤ 2^64 := by omega
    rw [Range.amountOut,payout_first,if_pos rfl,Range.next_of_reached reached]
    change rb.val ≤ L * (S - 65536) / q64.val + 1
    rw [← Nat.sub_le_iff_le_add,Nat.le_div_iff_mul_le q64_pos,q64_val,Nat.mul_sub,Nat.sub_mul]
    omega
  | false =>
    have below := (reserves.next_second amount feePips).1
    rw [Range.next_of_reached reached] at below
    rw [Range.amountOut,payout_second,if_neg Bool.false_ne_true,Range.next_of_reached reached]
    change ra.val ≤ L * q64.val * ((bound false).val - S) / ((bound false).val * S) + 1
    change L * ((bound false).val - S) ≤ _ at below
    have top : (bound false).val = 2^120 := by norm_num
    rw [top] at below ⊢
    have high := reserves.price_lt
    have low := reserves.lt_price
    rw [q64_val] at depth curve below
    have rise : L * 2^119 ≤ L * (2^120 - S) := Nat.mul_le_mul_left _ (by omega)
    have shallow : S * ra.val ≤ 2^120 := by omega
    have positive : 0 < 2^120 * S := Nat.mul_pos (Nat.two_pow_pos 120) (pos_of_gt low)
    rw [← Nat.sub_le_iff_le_add,Nat.le_div_iff_mul_le positive,q64_val,← depth]
    calc (ra.val - 1) * (2^120 * S) = S * ((ra.val - 1) * 2^120) := by ring
      _ ≤ S * (ra.val * 2^120 - S * ra.val) := by
          apply Nat.mul_le_mul_left
          rw [Nat.sub_mul]
          omega
      _ = S * ra.val * (2^120 - S) := by
          rw [Nat.mul_comm S ra.val,← Nat.mul_sub]
          ring

theorem fits (amount : U64) (aToB : Bool) (fee : feePips.val < 1000000) : (reserveRange S L amount aToB).Fits aToB feePips.val ∧
    (reserveRange S L amount aToB).amountOut aToB feePips.val < 2^64 := by
  have deep := reserves.depth_lt
  have high := reserves.price_lt
  have low := reserves.lt_price
  have product : L * S ≤ (2^64 - 1) * (2^96 - 1) := Nat.mul_le_mul (by omega) (by omega)
  have width : L * q64.val * S < 2^256 := by
    rw [q64_val]
    nlinarith
  have small : (reserveRange S L amount aToB).amountOut aToB feePips.val < 2^64 := by
    have out := reserves.amountOut_le amount aToB fee
    have paidIn : 0 < (if aToB then ra else rb).val := by
      split
      · exact reserves.first
      · exact reserves.second
    refine lt_of_le_of_lt ?_ (if aToB then rb else ra).isLt
    apply Nat.le_of_mul_le_mul_right _ (Nat.add_pos_left paidIn ((reserveRange S L amount aToB).net feePips.val))
    exact out.trans (Nat.mul_le_mul_left _ (Nat.le_add_left _ _))
  refine ⟨⟨?_,?_,?_,small.trans (by norm_num)⟩,small⟩
  · rintro rfl
    exact (Nat.mul_le_mul_left _ (Nat.sub_le _ _)).trans_lt width
  · cases aToB with
    | true =>
      have room : 0 < S * (bound true).val := Nat.mul_pos (pos_of_gt low) (bound_pos true)
      have charged : (reserveRange S L amount true).toTarget true ≤ 2^112 := by
        rw [Range.toTarget,charge_first]
        refine (firstUp_le_iff room).mpr ?_
        change L * q64.val * (S - (bound true).val) ≤ S * (bound true).val * 2^112
        rw [q64_val,bound_first]
        calc L * 2^64 * (S - 65536) ≤ 2^64 * 2^64 * S := Nat.mul_le_mul (Nat.mul_le_mul_right _ deep.le) (Nat.sub_le _ _)
          _ = S * 65536 * 2^112 := by ring
      omega
    | false =>
      have charged : (reserveRange S L amount false).toTarget false ≤ 2^120 := by
        rw [Range.toTarget,charge_second]
        refine (secondUp_le_iff q64_pos).mpr ?_
        change L * ((bound false).val - S) ≤ q64.val * 2^120
        rw [q64_val]
        refine Nat.mul_le_mul deep.le ((Nat.sub_le _ _).trans ?_)
        norm_num
      omega
  · intro _ _ _
    exact width

end Reserves

section reserves
variable {ra rb feeBps amount v : U64} {S L : ℕ}

theorem net_bounds (S L : ℕ) (amount : U64) (aToB : Bool) (fee : feeBps.val < 10000) :
    let n := (reserveRange S L amount aToB).net (100 * feeBps.val)
    n * 10000 ≤ amount.val * (10000 - feeBps.val) ∧ amount.val * (10000 - feeBps.val) < (n + 1) * 10000 := by
  intro n
  have scaled : 1000000 - 100 * feeBps.val = 100 * (10000 - feeBps.val) := by omega
  have same : n = amount.val * (10000 - feeBps.val) / 10000 := by
    change amount.val * (1000000 - 100 * feeBps.val) / 1000000 = _
    rw [scaled,show amount.val * (100 * (10000 - feeBps.val)) = 100 * (amount.val * (10000 - feeBps.val)) by ring]
    exact Nat.mul_div_mul_left _ 10000 (by norm_num : 0 < 100)
  rw [same]
  refine ⟨Nat.div_mul_le_self _ _,?_⟩
  rw [Nat.mul_comm _ 10000]
  exact Nat.lt_mul_div_succ _ (by norm_num : 0 < 10000)

/-- A single range that holds the reserves of a pool quotes at most the pool's formula,
and less only by its rounding. -/
theorem quoteExactIn_reserves (build : Build) (reserves : Reserves ra rb S L) (aToB : Bool)
    (formula : Amm.getAmountOut .debug amount (if aToB then ra else rb) (if aToB then rb else ra) feeBps = .ok (some v)) :
    ∃ c, quoteExactIn build (singleRange (wrap 128 S) (wrap 128 L) (wrap 64 (100 * feeBps.val : ℕ))) amount aToB = .ok (some c) ∧
      c ≤ v ∧ (v.val : ℚ) - c.val < ((if aToB then rb else ra).val : ℚ) / ((if aToB then ra else rb).val : ℚ) +
        (if aToB then (L : ℚ) / 2^64 else (ra.val : ℚ) / S) + 1 := by
  obtain ⟨quotable,value⟩ := Amm.getAmountOut_debug formula
  obtain ⟨paid,inPos,outPos,fee⟩ := quotable
  have pips : (wrap 64 (100 * feeBps.val : ℕ) : U64).val = 100 * feeBps.val := wrap_val_of_lt (by omega)
  have taken : (wrap 64 (100 * feeBps.val : ℕ) : U64).val < 1000000 := by omega
  have same : wholeRange (wrap 128 S) (wrap 128 L) amount aToB = reserveRange S L amount aToB := by
    have price := wrap_val_of_lt (reserves.price_lt.trans (by norm_num : 2^96 < 2^128))
    have depth := wrap_val_of_lt (reserves.depth_lt.trans (by norm_num : 2^64 < 2^128))
    rw [wholeRange,price,depth]
    rfl
  obtain ⟨fits,small⟩ := reserves.fits amount aToB taken
  have entered := reserves.entered amount aToB taken
  have within := reserves.amountOut_le amount aToB taken
  have short := reserves.lt_amountOut amount aToB taken
  have bought := reserves.reached_le amount aToB taken
  rw [← same] at fits small entered
  have quoted := quoteExactIn_single build entered paid fits small
  rw [pips] at within short bought
  have shown : (wholeRange (wrap 128 S) (wrap 128 L) amount aToB).amountOut aToB
      (wrap 64 (100 * feeBps.val : ℕ) : U64).val = (reserveRange S L amount aToB).amountOut aToB (100 * feeBps.val) := by
    rw [same,pips]
  obtain ⟨net,next⟩ := net_bounds S L amount aToB fee
  have atMost : (reserveRange S L amount aToB).amountOut aToB (100 * feeBps.val) ≤ v.val := by
    refine le_of_le_of_eq ?_ value.symm
    exact ReserveRange.le_floorOutput inPos (by norm_num : 0 < 10000) net within
  refine ⟨_,quoted,Fin.le_def.mpr (shown.le.trans atMost),?_⟩
  dsimp only
  rw [shown]
  have inPos' : (0 : ℚ) < (if aToB then ra else rb).val := by exact_mod_cast inPos
  have outPos' : (0 : ℚ) < (if aToB then rb else ra).val := by exact_mod_cast outPos
  have spot := div_pos outPos' inPos'
  have grain : (0 : ℚ) ≤ if aToB then (L : ℚ) / 2^64 else (ra.val : ℚ) / S := by
    split <;> positivity
  by_cases reached : (reserveRange S L amount aToB).Reached aToB (100 * feeBps.val)
  · have all := bought reached
    have below := Move.Math.exactOut_lt_reserve ⟨paid,inPos,outPos,fee⟩
    rw [← value] at below
    have none : (v.val : ℚ) ≤ (reserveRange S L amount aToB).amountOut aToB (100 * feeBps.val) := by
      exact_mod_cast Nat.le_of_lt_succ (below.trans_le all)
    linarith
  · have cut := ReserveRange.floorOutput_lt inPos outPos (by norm_num : 0 < 10000) net next
    have rounded := short reached
    rw [value]
    rw [Reserves.grain] at rounded
    linarith

theorem quoteExactIn_reserves_quarter :
    ∃ c, quoteExactIn .release (singleRange (wrap 128 (2 * 2^64 : ℕ)) (wrap 128 (2 * 10^12 : ℕ)) (wrap 64 (100 * 30 : ℕ)))
        1000000000 true = .ok (some c) ∧ c ≤ 3984027924 ∧
      ((3984027924 : U64).val : ℚ) - c.val < ((4000000000000 : U64).val : ℚ) / ((1000000000000 : U64).val : ℚ) +
        ((2 * 10^12 : ℕ) : ℚ) / 2^64 + 1 := by
  have formula : Amm.getAmountOut .debug 1000000000 1000000000000 4000000000000 30 = .ok (some 3984027924) := by
    decide +kernel
  have reserves : Reserves 1000000000000 4000000000000 (2 * 2^64) (2 * 10^12) :=
    ⟨by decide,by decide,by norm_num,by norm_num⟩
  exact quoteExactIn_reserves .release reserves true formula

end reserves

end SuiArbitrage.Rust.Clmm
