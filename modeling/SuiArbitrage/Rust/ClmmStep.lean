import SuiArbitrage.Rust.Clmm

/-! One step of the engine in exact arithmetic: when each of its functions returns,
and that it then returns the exact amounts. -/
namespace SuiArbitrage.Rust.Clmm
open MachineWord Fallible ConcentratedLiquidity

theorem q64_val : q64.val = 2^64 := rfl

theorem q64_pos : 0 < q64.val := by norm_num [q64_val]

@[simp] theorem pipsDenom_val : pipsDenom.val = 1000000 := rfl

/-- The inputs that a quote refuses. -/
theorem refused_iff {amountIn feePips : U64} {liquidity : U128} :
    (amountIn = 0 ∨ liquidity = 0 ∨ pipsDenom ≤ u128 feePips) ↔
      ¬ (0 < amountIn.val ∧ 0 < liquidity.val ∧ feePips.val < 1000000) := by
  simp only [Fin.ext_iff,Fin.le_def,pipsDenom_val,u128_val,Fin.val_zero]
  omega

theorem u256Div_of_pos {num den : ℕ} (positive : 0 < den) : u256Div num den = .ok (num / den) :=
  if_neg positive.ne'

theorem ceilDiv_le_self {num den : ℕ} (positive : 0 < den) : num ⌈/⌉ den ≤ num :=
  (ceilDiv_le_iff_le_mul positive).mpr (Nat.le_mul_of_pos_left num positive)

theorem ceilDiv_eq_ite {num den : ℕ} (positive : 0 < den) :
    num ⌈/⌉ den = if num % den = 0 then num / den else num / den + 1 := by
  have parts := Nat.div_add_mod num den
  have rest := Nat.mod_lt num positive
  rw [Nat.ceilDiv_eq_add_pred_div]
  generalize num / den = whole at *
  generalize num % den = part at *
  subst parts
  split
  · rename_i nothing
    have below : (den - 1) / den = 0 := Nat.div_eq_of_lt (Nat.sub_lt positive one_pos)
    rw [nothing,Nat.add_zero,Nat.add_sub_assoc (Nat.one_le_of_lt positive),Nat.mul_add_div positive,
      below,Nat.add_zero]
  · have shifted : den * whole + part + den - 1 = den * (whole + 1) + (part - 1) := by
      rw [Nat.mul_add_one]
      omega
    have below : (part - 1) / den = 0 := Nat.div_eq_of_lt (by omega)
    rw [shifted,Nat.mul_add_div positive,below,Nat.add_zero]

theorem u256DivCeil_of_lt {num den : ℕ} (small : num < 2^256) (positive : 0 < den) :
    u256DivCeil num den = .ok (num ⌈/⌉ den) := by
  have bound := (ceilDiv_le_self positive).trans_lt small
  rw [ceilDiv_eq_ite positive] at bound ⊢
  simp only [u256DivCeil,u256Div_of_pos positive,ok_bind,pure_eq_ok]
  split
  · rfl
  · rename_i partly
    rw [if_neg partly] at bound
    rw [u256_of_lt bound]

theorem mulDivFloor_of_le {a b den : U128} (positive : 0 < den.val) (shrinks : b.val ≤ den.val) :
    ∃ result, mulDivFloor a b den = .ok result ∧ result.val = a.val * b.val / den.val := by
  have product : a.val * b.val < 2^256 := by
    have := Nat.mul_le_mul (Nat.le_sub_one_of_lt a.isLt) (Nat.le_sub_one_of_lt b.isLt)
    omega
  have quotient : a.val * b.val / den.val < 2^128 :=
    (Nat.div_le_of_le_mul (by rw [Nat.mul_comm den.val]; exact Nat.mul_le_mul_left _ shrinks)).trans_lt a.isLt
  refine ⟨⟨_,quotient⟩,?_,rfl⟩
  rw [mulDivFloor,u256_of_lt product,ok_bind,u256Div_of_pos positive,ok_bind,asU128_of_lt quotient]

theorem mulDivCeil_ok {a b den result : U128} (positive : 0 < den.val) :
    mulDivCeil a b den = .ok result ↔ result.val = a.val * b.val ⌈/⌉ den.val := by
  have product : a.val * b.val < 2^256 := by
    have := Nat.mul_le_mul (Nat.le_sub_one_of_lt a.isLt) (Nat.le_sub_one_of_lt b.isLt)
    omega
  rw [mulDivCeil,u256_of_lt product,ok_bind,u256DivCeil_of_lt product positive,ok_bind,asU128_ok]
  exact eq_comm

section deltas
variable {build : Build} {sa sb low high l result : U128} {roundUp : Bool}

private theorem ordered (below : low.val ≤ high.val) :
    (if low < high then (low,high) else (high,low)) = (low,high) := by
  split
  · rfl
  · rename_i notLess
    have same : low = high := by
      apply Fin.ext
      have := Fin.not_lt.mp notLess
      omega
    rw [same]

theorem amount0Delta_eq (positive : 0 < low.val) (below : low.val ≤ high.val) :
    amount0Delta build low high l roundUp =
      (u256 (l.val * q64.val * (high.val - low.val)) >>= fun numerator =>
        if roundUp then asU128 (numerator ⌈/⌉ (high.val * low.val))
        else asU128 (numerator / (high.val * low.val))) := by
  have liquid : l.val * q64.val < 2^256 := by
    rw [q64_val]
    omega
  have room : 0 < high.val * low.val := Nat.mul_pos (by omega) positive
  have product : high.val * low.val < 2^256 := by
    have := Nat.mul_le_mul (Nat.le_sub_one_of_lt high.isLt) (Nat.le_sub_one_of_lt low.isLt)
    omega
  have nonzero : ¬ low = 0 := fun zero => positive.ne' (congrArg Fin.val zero)
  rw [amount0Delta,ordered below]
  dsimp only
  rw [if_neg nonzero,u256_of_lt liquid,ok_bind,sub_of_le below,ok_bind]
  dsimp only
  rw [u256_of_lt product]
  by_cases fits : l.val * q64.val * (high.val - low.val) < 2^256
  · rw [u256_of_lt fits,ok_bind,ok_bind,ok_bind,u256DivCeil_of_lt fits room,u256Div_of_pos room]
    simp only [ok_bind]
  · rw [u256,if_neg fits,panic_bind,panic_bind]

theorem amount0Delta_ok (positive : 0 < low.val) (below : low.val ≤ high.val) :
    amount0Delta build low high l roundUp = .ok result ↔
      l.val * q64.val * (high.val - low.val) < 2^256 ∧
      result.val = if roundUp then firstUp q64.val l.val low.val high.val
        else firstDown q64.val l.val low.val high.val := by
  rw [amount0Delta_eq positive below]
  simp only [bind_ok,u256_ok]
  cases roundUp with
  | true =>
    simp only [if_true,asU128_ok,firstUp]
    constructor
    · rintro ⟨numerator,⟨fits,rfl⟩,narrowed⟩
      exact ⟨fits,narrowed.symm⟩
    · rintro ⟨fits,value⟩
      exact ⟨_,⟨fits,rfl⟩,value.symm⟩
  | false =>
    simp only [Bool.false_eq_true,if_false,asU128_ok,firstDown]
    constructor
    · rintro ⟨numerator,⟨fits,rfl⟩,narrowed⟩
      exact ⟨fits,narrowed.symm⟩
    · rintro ⟨fits,value⟩
      exact ⟨_,⟨fits,rfl⟩,value.symm⟩

theorem amount1Delta_ok (below : low.val ≤ high.val) :
    amount1Delta build low high l roundUp = .ok result ↔
      result.val = if roundUp then secondUp q64.val l.val low.val high.val
        else secondDown q64.val l.val low.val high.val := by
  have fits : l.val * (high.val - low.val) < 2^256 := by
    have := Nat.mul_le_mul (Nat.le_sub_one_of_lt l.isLt)
      ((Nat.sub_le high.val low.val).trans (Nat.le_sub_one_of_lt high.isLt))
    omega
  simp only [amount1Delta,ordered below,ok_bind,sub_of_le below,u256_of_lt fits]
  cases roundUp with
  | true =>
    rw [if_pos rfl,u256DivCeil_of_lt fits q64_pos,ok_bind,asU128_ok,if_pos rfl,secondUp]
    exact eq_comm
  | false =>
    rw [if_neg Bool.false_ne_true,u256Div_of_pos q64_pos,ok_bind,asU128_ok,if_neg Bool.false_ne_true,
      secondDown]
    exact eq_comm

end deltas

/-! The two directions differ in which token is paid in. -/

def Ahead (aToB : Bool) (price next : ℕ) : Prop := if aToB then next ≤ price else price ≤ next

def charge (aToB : Bool) (L price next : ℕ) : ℕ :=
  if aToB then firstUp q64.val L next price else secondUp q64.val L price next

def payout (aToB : Bool) (L price next : ℕ) : ℕ :=
  if aToB then secondDown q64.val L next price else firstDown q64.val L price next

def moved (aToB : Bool) (L price amount : ℕ) : ℕ :=
  if aToB then afterFirst q64.val L price amount else afterSecond q64.val L price amount

section directions
variable {aToB : Bool} {L price next target amount : ℕ}

@[simp] theorem ahead_first : Ahead true price next ↔ next ≤ price := by simp only [Ahead,if_true]

@[simp] theorem ahead_second : Ahead false price next ↔ price ≤ next := by
  simp only [Ahead,Bool.false_eq_true,if_false]

@[simp] theorem charge_first : charge true L price next = firstUp q64.val L next price := if_pos rfl

@[simp] theorem charge_second : charge false L price next = secondUp q64.val L price next :=
  if_neg Bool.false_ne_true

@[simp] theorem payout_first : payout true L price next = secondDown q64.val L next price := if_pos rfl

@[simp] theorem payout_second : payout false L price next = firstDown q64.val L price next :=
  if_neg Bool.false_ne_true

@[simp] theorem moved_first : moved true L price amount = afterFirst q64.val L price amount := if_pos rfl

@[simp] theorem moved_second : moved false L price amount = afterSecond q64.val L price amount :=
  if_neg Bool.false_ne_true

theorem charge_moved_le (liquid : 0 < L) (positive : 0 < price) :
    charge aToB L price (moved aToB L price amount) ≤ amount := by
  cases aToB with
  | true =>
    rw [charge_first,moved_first]
    exact firstUp_afterFirst_le (Nat.mul_pos liquid q64_pos) positive
  | false =>
    rw [charge_second,moved_second]
    exact secondUp_afterSecond_le q64_pos

theorem moved_ahead (liquid : 0 < L) : Ahead aToB price (moved aToB L price amount) := by
  cases aToB with
  | true =>
    rw [ahead_first,moved_first]
    exact afterFirst_le (Nat.mul_pos liquid q64_pos)
  | false =>
    rw [ahead_second,moved_second]
    exact le_afterSecond

theorem moved_pos (liquid : 0 < L) (positive : 0 < price) : 0 < moved aToB L price amount := by
  cases aToB with
  | true =>
    rw [moved_first]
    exact afterFirst_pos (Nat.mul_pos liquid q64_pos) amount positive
  | false =>
    rw [moved_second]
    exact positive.trans_le le_afterSecond

theorem moved_short (liquid : 0 < L) (positive : 0 < target) (ahead : Ahead aToB price target)
    (short : amount < charge aToB L price target) :
    Ahead aToB (moved aToB L price amount) target ∧ moved aToB L price amount ≠ target := by
  cases aToB with
  | true =>
    rw [ahead_first] at ahead
    rw [charge_first] at short
    rw [ahead_first,moved_first]
    have beyond := lt_afterFirst (Nat.mul_pos liquid q64_pos) ahead positive short
    exact ⟨beyond.le,beyond.ne'⟩
  | false =>
    rw [ahead_second] at ahead
    rw [charge_second] at short
    rw [ahead_second,moved_second]
    have before := afterSecond_lt q64_pos ahead short
    exact ⟨before.le,before.ne⟩

/-- At the price `start` one unit of the paid-in token is worth `rateIn`, and one
unit of the other `rateOut`, on a common scale. -/
def rateIn (aToB : Bool) (start : ℕ) : ℕ := if aToB then start * start else q64.val * q64.val

def rateOut (aToB : Bool) (start : ℕ) : ℕ := if aToB then q64.val * q64.val else start * start

/-- Away from `start` a swap only gets worse, so what it pays out is worth no more
than what it charges at the prices of its start. -/
theorem payout_worth {start : ℕ} (onward : Ahead aToB start price) (ahead : Ahead aToB price next)
    (positive : 0 < price) (positiveNext : 0 < next) :
    payout aToB L price next * rateOut aToB start ≤ charge aToB L price next * rateIn aToB start := by
  cases aToB with
  | true =>
    rw [ahead_first] at onward ahead
    rw [payout_first,charge_first,rateOut,rateIn,if_pos rfl,if_pos rfl]
    calc secondDown q64.val L next price * (q64.val * q64.val)
        ≤ firstUp q64.val L next price * (price * next) := secondDown_mul_le (Nat.mul_pos positive positiveNext)
      _ ≤ firstUp q64.val L next price * (start * start) :=
        Nat.mul_le_mul_left _ (Nat.mul_le_mul onward (ahead.trans onward))
  | false =>
    rw [ahead_second] at onward ahead
    rw [payout_second,charge_second,rateOut,rateIn,if_neg Bool.false_ne_true,if_neg Bool.false_ne_true]
    calc firstDown q64.val L price next * (start * start)
        ≤ firstDown q64.val L price next * (next * price) :=
        Nat.mul_le_mul_left _ (Nat.mul_le_mul (onward.trans ahead) onward)
      _ ≤ secondUp q64.val L price next * (q64.val * q64.val) := firstDown_mul_le q64_pos

end directions

section words
variable {build : Build} {aToB : Bool} {price next target l amount result : U128}

def deltaIn (build : Build) (aToB : Bool) (price next l : U128) : Rust U128 :=
  if aToB then amount0Delta build next price l true else amount1Delta build price next l true

def deltaOut (build : Build) (aToB : Bool) (price next l : U128) : Rust U128 :=
  if aToB then amount1Delta build next price l false else amount0Delta build price next l false

def nextSqrt (aToB : Bool) (price l amount : U128) : Rust U128 :=
  if aToB then nextSqrtFromAmount0In price l amount else nextSqrtFromAmount1In price l amount

@[simp] theorem deltaIn_first : deltaIn build true price next l = amount0Delta build next price l true :=
  if_pos rfl

@[simp] theorem deltaIn_second : deltaIn build false price next l = amount1Delta build price next l true :=
  if_neg Bool.false_ne_true

@[simp] theorem deltaOut_first : deltaOut build true price next l = amount1Delta build next price l false :=
  if_pos rfl

@[simp] theorem deltaOut_second : deltaOut build false price next l = amount0Delta build price next l false :=
  if_neg Bool.false_ne_true

@[simp] theorem nextSqrt_first : nextSqrt true price l amount = nextSqrtFromAmount0In price l amount :=
  if_pos rfl

@[simp] theorem nextSqrt_second : nextSqrt false price l amount = nextSqrtFromAmount1In price l amount :=
  if_neg Bool.false_ne_true

theorem deltaIn_ok (positive : 0 < next.val) (ahead : Ahead aToB price.val next.val) :
    deltaIn build aToB price next l = .ok result ↔
      (aToB = true → l.val * q64.val * (price.val - next.val) < 2^256) ∧
      result.val = charge aToB l.val price.val next.val := by
  cases aToB with
  | true =>
    rw [deltaIn_first,charge_first,amount0Delta_ok positive (ahead_first.mp ahead),if_pos rfl]
    simp only [true_implies]
  | false =>
    rw [deltaIn_second,charge_second,amount1Delta_ok (ahead_second.mp ahead),if_pos rfl]
    simp only [Bool.false_eq_true,false_implies,true_and]

theorem deltaOut_ok (positive : 0 < price.val) (ahead : Ahead aToB price.val next.val) :
    deltaOut build aToB price next l = .ok result ↔
      (aToB = false → l.val * q64.val * (next.val - price.val) < 2^256) ∧
      result.val = payout aToB l.val price.val next.val := by
  cases aToB with
  | true =>
    rw [deltaOut_first,payout_first,amount1Delta_ok (ahead_first.mp ahead),if_neg Bool.false_ne_true]
    simp only [Bool.true_eq_false,false_implies,true_and]
  | false =>
    rw [deltaOut_second,payout_second,amount0Delta_ok positive (ahead_second.mp ahead),
      if_neg Bool.false_ne_true]
    simp only [true_implies]

theorem nextSqrtFromAmount0In_ok (liquid : 0 < l.val) (small : amount.val < 2^64) :
    nextSqrtFromAmount0In price l amount = .ok result ↔
      (0 < amount.val → l.val * q64.val * price.val < 2^256) ∧
      result.val = afterFirst q64.val l.val price.val amount.val := by
  have depth : 0 < l.val * q64.val := Nat.mul_pos liquid q64_pos
  by_cases zero : amount = 0
  · have nothing : amount.val = 0 := congrArg Fin.val zero
    rw [nextSqrtFromAmount0In,if_pos zero,nothing,afterFirst_zero depth]
    simp only [pure_eq_ok,Except.ok.injEq,lt_irrefl,false_implies,true_and]
    rw [eq_comm,Fin.ext_iff]
  · have some : 0 < amount.val := Nat.pos_of_ne_zero fun nothing => zero (Fin.ext nothing)
    have numerator : l.val * q64.val < 2^192 := by
      rw [q64_val]
      omega
    have product : amount.val * price.val < 2^192 := by
      have := Nat.mul_le_mul (Nat.le_sub_one_of_lt small) (Nat.le_sub_one_of_lt price.isLt)
      omega
    rw [nextSqrtFromAmount0In,if_neg zero,u256_of_lt (by omega),ok_bind,u256_of_lt (by omega),ok_bind,
      u256_of_lt (by omega),ok_bind]
    simp only [bind_ok,u256_ok,some,true_implies]
    constructor
    · rintro ⟨scaled,⟨fits,rfl⟩,quotient,divided,narrowed⟩
      rw [u256DivCeil_of_lt fits (Nat.add_pos_left depth _)] at divided
      rw [asU128_ok,← Except.ok.inj divided] at narrowed
      exact ⟨fits,narrowed.symm⟩
    · rintro ⟨fits,value⟩
      exact ⟨_,⟨fits,rfl⟩,_,u256DivCeil_of_lt fits (Nat.add_pos_left depth _),asU128_ok.mpr value.symm⟩

theorem nextSqrtFromAmount1In_ok (liquid : 0 < l.val) (small : amount.val < 2^64)
    (fits : afterSecond q64.val l.val price.val amount.val < 2^128) :
    nextSqrtFromAmount1In price l amount = .ok result ↔
      result.val = afterSecond q64.val l.val price.val amount.val := by
  have product : amount.val * q64.val < 2^256 := by
    rw [q64_val]
    omega
  rw [nextSqrtFromAmount1In,u256_of_lt product,ok_bind,u256Div_of_pos liquid,ok_bind]
  rw [afterSecond] at fits ⊢
  rw [u256_of_lt (fits.trans (by norm_num)),ok_bind,asU128_ok,eq_comm]

theorem nextSqrt_ok (liquid : 0 < l.val) (small : amount.val < 2^64)
    (positive : 0 < target.val) (ahead : Ahead aToB price.val target.val)
    (short : amount.val < charge aToB l.val price.val target.val) :
    nextSqrt aToB price l amount = .ok result ↔
      (aToB = true → 0 < amount.val → l.val * q64.val * price.val < 2^256) ∧
      result.val = moved aToB l.val price.val amount.val := by
  cases aToB with
  | true =>
    rw [nextSqrt_first,moved_first,nextSqrtFromAmount0In_ok liquid small]
    simp only [true_implies]
  | false =>
    have before := (moved_short liquid positive ahead short).1
    rw [ahead_second,moved_second] at before
    rw [nextSqrt_second,moved_second,nextSqrtFromAmount1In_ok liquid small (before.trans_lt target.isLt)]
    simp only [Bool.false_eq_true,false_implies,true_and]

/-- The end of a step, once its new price and its charge are known. -/
def finish (build : Build) (aToB : Bool) (price target l remaining : U128) (feePips : U64)
    (next amountIn : U128) : Rust SwapStep := do
  let amountOut ← deltaOut build aToB price next l
  let feeAmount ← if next ≠ target then sub build remaining amountIn
    else do mulDivCeil amountIn (u128 feePips) (← sub build pipsDenom (u128 feePips))
  return ⟨next,amountIn,amountOut,feeAmount⟩

theorem computeSwapStep_eq (remaining : U128) (feePips : U64) :
    computeSwapStep build price target l remaining feePips aToB =
      (sub build pipsDenom (u128 feePips) >>= fun kept =>
        mulDivFloor remaining kept pipsDenom >>= fun amountLf =>
        deltaIn build aToB price target l >>= fun toTarget =>
        if toTarget ≤ amountLf then finish build aToB price target l remaining feePips target toTarget
        else nextSqrt aToB price l amountLf >>= fun next =>
          deltaIn build aToB price next l >>= fun amountIn =>
          finish build aToB price target l remaining feePips next amountIn) := by
  cases aToB with
  | true =>
    simp only [computeSwapStep,finish,deltaIn_first,deltaOut_first,nextSqrt_first,if_true,pure_eq_ok,ok_bind]
  | false =>
    simp only [computeSwapStep,finish,deltaIn_second,deltaOut_second,nextSqrt_second,Bool.false_eq_true,
      if_false,pure_eq_ok,ok_bind]

end words

/-- One range of a swap: a price and a target with constant liquidity between them,
and the input that is left when the swap enters it. -/
structure Range where
  price : ℕ
  target : ℕ
  liquidity : ℕ
  remaining : ℕ
  deriving DecidableEq, Repr

namespace Range

def net (feePips : ℕ) (range : Range) : ℕ := range.remaining * (1000000 - feePips) / 1000000

def toTarget (aToB : Bool) (range : Range) : ℕ := charge aToB range.liquidity range.price range.target

def Reached (aToB : Bool) (feePips : ℕ) (range : Range) : Prop := range.toTarget aToB ≤ range.net feePips

instance (aToB : Bool) (feePips : ℕ) (range : Range) : Decidable (range.Reached aToB feePips) :=
  inferInstanceAs (Decidable (_ ≤ _))

def next (aToB : Bool) (feePips : ℕ) (range : Range) : ℕ :=
  if range.Reached aToB feePips then range.target
  else moved aToB range.liquidity range.price (range.net feePips)

def amountIn (aToB : Bool) (feePips : ℕ) (range : Range) : ℕ :=
  charge aToB range.liquidity range.price (range.next aToB feePips)

def amountOut (aToB : Bool) (feePips : ℕ) (range : Range) : ℕ :=
  payout aToB range.liquidity range.price (range.next aToB feePips)

def feeAmount (aToB : Bool) (feePips : ℕ) (range : Range) : ℕ :=
  if range.Reached aToB feePips then range.amountIn aToB feePips * feePips ⌈/⌉ (1000000 - feePips)
  else range.remaining - range.amountIn aToB feePips

/-- What the machine integers of one step have room for. -/
structure Fits (aToB : Bool) (feePips : ℕ) (range : Range) : Prop where
  width : aToB = true → range.liquidity * q64.val * (range.price - range.target) < 2^256
  charged : range.toTarget aToB < 2^128
  scaled : aToB = true → 0 < range.net feePips → range.net feePips < range.toTarget aToB →
    range.liquidity * q64.val * range.price < 2^256
  paid : range.amountOut aToB feePips < 2^128

/-- What a swap keeps true of every range it enters. -/
structure Entered (aToB : Bool) (feePips : ℕ) (range : Range) : Prop where
  price : 0 < range.price
  target : 0 < range.target
  ahead : Ahead aToB range.price range.target
  liquid : 0 < range.liquidity
  remaining : range.remaining < 2^64
  fee : feePips < 1000000

variable {aToB : Bool} {feePips : ℕ} {range : Range}

theorem net_le : range.net feePips ≤ range.remaining := by
  apply Nat.div_le_of_le_mul
  rw [Nat.mul_comm 1000000]
  exact Nat.mul_le_mul_left _ (Nat.sub_le _ _)

theorem next_of_reached (reached : range.Reached aToB feePips) : range.next aToB feePips = range.target :=
  if_pos reached

theorem next_of_short (short : ¬ range.Reached aToB feePips) :
    range.next aToB feePips = moved aToB range.liquidity range.price (range.net feePips) :=
  if_neg short

namespace Entered
variable (entered : range.Entered aToB feePips)
include entered

theorem next_ahead : Ahead aToB range.price (range.next aToB feePips) := by
  by_cases reached : range.Reached aToB feePips
  · rw [next_of_reached reached]
    exact entered.ahead
  · rw [next_of_short reached]
    exact moved_ahead entered.liquid

theorem next_pos : 0 < range.next aToB feePips := by
  by_cases reached : range.Reached aToB feePips
  · rw [next_of_reached reached]
    exact entered.target
  · rw [next_of_short reached]
    exact moved_pos entered.liquid entered.price

theorem ahead_target : Ahead aToB (range.next aToB feePips) range.target := by
  by_cases reached : range.Reached aToB feePips
  · rw [next_of_reached reached]
    cases aToB <;> simp
  · rw [next_of_short reached]
    exact (moved_short entered.liquid entered.target entered.ahead (Nat.not_le.mp reached)).1

theorem next_eq_target : range.next aToB feePips = range.target ↔ range.Reached aToB feePips := by
  constructor
  · intro arrived
    by_contra short
    rw [next_of_short short] at arrived
    exact (moved_short entered.liquid entered.target entered.ahead (Nat.not_le.mp short)).2 arrived
  · exact next_of_reached

theorem amountIn_le : range.amountIn aToB feePips ≤ range.net feePips := by
  rw [amountIn]
  by_cases reached : range.Reached aToB feePips
  · rw [next_of_reached reached]
    exact reached
  · rw [next_of_short reached]
    exact charge_moved_le entered.liquid entered.price

theorem worth {start : ℕ} (onward : Ahead aToB start range.price) :
    range.amountOut aToB feePips * rateOut aToB start ≤ range.amountIn aToB feePips * rateIn aToB start :=
  payout_worth onward entered.next_ahead entered.price entered.next_pos

theorem feeAmount_lt : range.feeAmount aToB feePips < 2^84 := by
  have affordable := entered.amountIn_le.trans net_le
  have small := entered.remaining
  have fee := entered.fee
  rw [feeAmount]
  split
  · have kept : 0 < 1000000 - feePips := by omega
    have bound : range.amountIn aToB feePips * feePips ≤ (2^64 - 1) * 1000000 :=
      Nat.mul_le_mul (by omega) (by omega)
    have ceiled : range.amountIn aToB feePips * feePips ⌈/⌉ (1000000 - feePips) ≤ _ := ceilDiv_le_self kept
    omega
  · omega

end Entered

structure Exact (aToB : Bool) (feePips : ℕ) (range : Range) (step : SwapStep) : Prop where
  next : step.sqrtNext.val = range.next aToB feePips
  amountIn : step.amountIn.val = range.amountIn aToB feePips
  amountOut : step.amountOut.val = range.amountOut aToB feePips
  feeAmount : step.feeAmount.val = range.feeAmount aToB feePips

end Range

section step
variable {build : Build} {aToB : Bool} {price target l remaining next amountIn : U128} {feePips : U64}
  {step : SwapStep}

theorem pipsKept (build : Build) (fee : feePips.val < 1000000) : ∃ kept, sub build pipsDenom (u128 feePips) = .ok kept ∧
    kept.val = 1000000 - feePips.val := by
  refine ⟨_,sub_of_le ?_,rfl⟩
  exact fee.le

theorem finish_ok (positive : 0 < price.val) (ahead : Ahead aToB price.val next.val)
    (fee : feePips.val < 1000000) (small : remaining.val < 2^64) (affordable : amountIn.val ≤ remaining.val)
    (charged : amountIn.val = charge aToB l.val price.val next.val) :
    finish build aToB price target l remaining feePips next amountIn = .ok step ↔
      step.sqrtNext = next ∧ step.amountIn = amountIn ∧
      step.amountOut.val = payout aToB l.val price.val next.val ∧
      step.feeAmount.val = if next = target then amountIn.val * feePips.val ⌈/⌉ (1000000 - feePips.val)
        else remaining.val - amountIn.val := by
  obtain ⟨kept,keptOk,keptVal⟩ := pipsKept build fee
  have positiveKept : 0 < kept.val := by omega
  have width : aToB = false → l.val * q64.val * (next.val - price.val) < 2^256 := by
    rintro rfl
    rw [charge_second] at charged
    have paid := Nat.mul_le_mul_right q64.val (le_secondUp_mul l.val price.val next.val q64_pos)
    rw [← charged,q64_val] at paid
    rw [q64_val,Nat.mul_right_comm]
    omega
  have paid : ∀ amountOut : U128, deltaOut build aToB price next l = .ok amountOut ↔
      amountOut.val = payout aToB l.val price.val next.val := by
    intro amountOut
    rw [deltaOut_ok positive ahead]
    exact and_iff_right width
  have difference : sub build remaining amountIn = .ok ⟨remaining.val - amountIn.val,by omega⟩ :=
    sub_of_le affordable
  rw [finish,bind_ok]
  simp only [paid]
  by_cases same : next = target
  · simp only [same,ne_eq,not_true_eq_false,if_false,if_true,keptOk,ok_bind,bind_ok,
      mulDivCeil_ok positiveKept,keptVal,u128_val,pure_eq_ok,Except.ok.injEq]
    constructor
    · rintro ⟨amountOut,outEq,feeAmount,feeEq,rfl⟩
      exact ⟨rfl,rfl,outEq,feeEq⟩
    · rintro ⟨sameNext,sameIn,outEq,feeEq⟩
      refine ⟨step.amountOut,outEq,step.feeAmount,feeEq,?_⟩
      rw [← sameNext,← sameIn]
  · simp only [same,ne_eq,not_false_eq_true,if_true,if_false,difference,ok_bind,pure_eq_ok,Except.ok.injEq]
    constructor
    · rintro ⟨amountOut,outEq,rfl⟩
      exact ⟨rfl,rfl,outEq,rfl⟩
    · rintro ⟨sameNext,sameIn,outEq,feeEq⟩
      refine ⟨step.amountOut,outEq,?_⟩
      have sameFee : (⟨remaining.val - amountIn.val,by omega⟩ : U128) = step.feeAmount := Fin.ext feeEq.symm
      rw [sameFee,← sameNext,← sameIn]

structure Range.Of (range : Range) (price target l remaining : U128) : Prop where
  price : range.price = price.val
  target : range.target = target.val
  liquidity : range.liquidity = l.val
  remaining : range.remaining = remaining.val

variable {range : Range}

theorem Range.Of.eq (words : range.Of price target l remaining) :
    range = ⟨price.val,target.val,l.val,remaining.val⟩ := by
  rw [← words.price,← words.target,← words.liquidity,← words.remaining]

theorem step_reached (entered : range.Entered aToB feePips.val) (words : range.Of price target l remaining)
    (reached : range.Reached aToB feePips.val) :
    (deltaIn build aToB price target l >>= fun toTarget =>
      finish build aToB price target l remaining feePips target toTarget) = .ok step ↔
      range.Fits aToB feePips.val ∧ range.Exact aToB feePips.val step := by
  have arrived := Range.next_of_reached reached
  have amountIn : range.amountIn aToB feePips.val = range.toTarget aToB := by
    rw [Range.amountIn,arrived,Range.toTarget]
  have amountOut : range.amountOut aToB feePips.val = payout aToB range.liquidity range.price range.target := by
    rw [Range.amountOut,arrived]
  have affordable := reached.trans Range.net_le
  obtain rfl := words.eq
  have positive : 0 < price.val := entered.price
  have positiveTarget : 0 < target.val := entered.target
  have ahead : Ahead aToB price.val target.val := entered.ahead
  have small : remaining.val < 2^64 := entered.remaining
  have toTarget : charge aToB l.val price.val target.val =
      Range.toTarget aToB ⟨price.val,target.val,l.val,remaining.val⟩ := rfl
  simp only [bind_ok,deltaIn_ok positiveTarget ahead,toTarget]
  constructor
  · rintro ⟨charged,⟨width,chargedEq⟩,finished⟩
    rw [finish_ok positive ahead entered.fee small (chargedEq ▸ affordable) (chargedEq.trans toTarget.symm),
      if_pos rfl] at finished
    obtain ⟨nextEq,inEq,outEq,feeEq⟩ := finished
    refine ⟨⟨width,chargedEq ▸ charged.isLt,?_,?_⟩,⟨?_,?_,?_,?_⟩⟩
    · intro _ _ short
      exact absurd reached (Nat.not_le.mpr short)
    · rw [amountOut,← outEq]
      exact step.amountOut.isLt
    · rw [nextEq,arrived]
    · rw [inEq,chargedEq,amountIn]
    · rw [outEq,amountOut]
    · rw [feeEq,Range.feeAmount,if_pos reached,amountIn,chargedEq]
  · rintro ⟨fits,exact⟩
    refine ⟨⟨_,fits.charged⟩,⟨fits.width,rfl⟩,?_⟩
    rw [finish_ok positive ahead entered.fee small affordable toTarget.symm,if_pos rfl]
    refine ⟨Fin.ext ?_,Fin.ext ?_,?_,?_⟩
    · rw [exact.next,arrived]
    · rw [exact.amountIn,amountIn]
    · rw [exact.amountOut,amountOut]
    · rw [exact.feeAmount,Range.feeAmount,if_pos reached,amountIn]

theorem step_short (entered : range.Entered aToB feePips.val) (words : range.Of price target l remaining)
    (short : ¬ range.Reached aToB feePips.val) {amountLf : U128} (net : amountLf.val = range.net feePips.val) :
    (deltaIn build aToB price target l >>= fun _ => nextSqrt aToB price l amountLf >>= fun next =>
      deltaIn build aToB price next l >>= fun amountIn =>
      finish build aToB price target l remaining feePips next amountIn) = .ok step ↔
      range.Fits aToB feePips.val ∧ range.Exact aToB feePips.val step := by
  have stopped := Range.next_of_short short
  have affordable := entered.amountIn_le.trans Range.net_le
  have netSmall : amountLf.val < 2^64 := by
    rw [net]
    exact Range.net_le.trans_lt entered.remaining
  have elsewhere : range.next aToB feePips.val ≠ range.target := fun same => short (entered.next_eq_target.mp same)
  have nextAhead := entered.next_ahead
  have onward := entered.ahead_target
  have nextPos := entered.next_pos
  obtain rfl := words.eq
  have toTarget : charge aToB l.val price.val target.val =
      Range.toTarget aToB ⟨price.val,target.val,l.val,remaining.val⟩ := rfl
  have before : amountLf.val < charge aToB l.val price.val target.val := by
    rw [net,toTarget]
    exact Nat.not_le.mp short
  have positive : 0 < price.val := entered.price
  have positiveTarget : 0 < target.val := entered.target
  have ahead : Ahead aToB price.val target.val := entered.ahead
  have liquid : 0 < l.val := entered.liquid
  have small : remaining.val < 2^64 := entered.remaining
  simp only [bind_ok,deltaIn_ok positiveTarget ahead,nextSqrt_ok liquid netSmall positiveTarget ahead before,
    toTarget,net,← stopped]
  constructor
  · rintro ⟨charged,⟨width,chargedEq⟩,nextWord,⟨scaled,nextEq⟩,amountWord,charging,finished⟩
    rw [← nextEq] at nextAhead nextPos
    obtain ⟨-,amountEq⟩ := (deltaIn_ok nextPos nextAhead).mp charging
    have spent : amountWord.val = Range.amountIn aToB feePips.val ⟨price.val,target.val,l.val,remaining.val⟩ := by
      rw [amountEq,nextEq,Range.amountIn]
    rw [finish_ok positive nextAhead entered.fee small (spent ▸ affordable) amountEq,
      if_neg (fun same => elsewhere (nextEq.symm.trans (congrArg Fin.val same)))] at finished
    obtain ⟨stepNext,stepIn,stepOut,stepFee⟩ := finished
    refine ⟨⟨width,chargedEq ▸ charged.isLt,fun direction some _ => scaled direction some,?_⟩,⟨?_,?_,?_,?_⟩⟩
    · rw [Range.amountOut,← nextEq,← stepOut]
      exact step.amountOut.isLt
    · rw [stepNext,nextEq]
    · rw [stepIn,spent]
    · rw [stepOut,nextEq,Range.amountOut]
    · rw [stepFee,Range.feeAmount,if_neg short,spent]
  · rintro ⟨fits,exact⟩
    have nextEq := exact.next
    rw [← nextEq] at nextAhead nextPos onward elsewhere
    have narrower : aToB = true → l.val * q64.val * (price.val - step.sqrtNext.val) < 2^256 := by
      rintro rfl
      have closer : target.val ≤ step.sqrtNext.val := ahead_first.mp onward
      exact (Nat.mul_le_mul_left _ (Nat.sub_le_sub_left closer _)).trans_lt (fits.width rfl)
    have charging : deltaIn build aToB price step.sqrtNext l = .ok step.amountIn := by
      rw [deltaIn_ok nextPos nextAhead,nextEq]
      exact ⟨nextEq ▸ narrower,exact.amountIn⟩
    have spent : step.amountIn.val = charge aToB l.val price.val step.sqrtNext.val := by
      rw [exact.amountIn,nextEq,Range.amountIn]
    refine ⟨⟨_,fits.charged⟩,⟨fits.width,rfl⟩,step.sqrtNext,
      ⟨fun direction some => fits.scaled direction some (Nat.not_le.mp short),nextEq⟩,step.amountIn,charging,?_⟩
    rw [finish_ok positive nextAhead entered.fee small (exact.amountIn ▸ affordable) spent,
      if_neg (fun same => elsewhere (congrArg Fin.val same))]
    refine ⟨rfl,rfl,?_,?_⟩
    · rw [exact.amountOut,nextEq,Range.amountOut]
    · rw [exact.feeAmount,Range.feeAmount,if_neg short,exact.amountIn]

/-- A step returns exactly when its range fits, and then returns the exact amounts. -/
theorem computeSwapStep_ok (entered : range.Entered aToB feePips.val)
    (words : range.Of price target l remaining) :
    computeSwapStep build price target l remaining feePips aToB = .ok step ↔
      range.Fits aToB feePips.val ∧ range.Exact aToB feePips.val step := by
  obtain ⟨kept,keptOk,keptVal⟩ := pipsKept build entered.fee
  obtain ⟨amountLf,netOk,netVal⟩ := mulDivFloor_of_le (a := remaining) (b := kept)
    (by rw [pipsDenom_val]; norm_num) (by rw [pipsDenom_val,keptVal]; omega)
  have net : amountLf.val = range.net feePips.val := by
    rw [netVal,keptVal,pipsDenom_val,Range.net,words.remaining]
  have positiveTarget := entered.target
  have ahead := entered.ahead
  rw [words.target] at positiveTarget
  rw [words.price,words.target] at ahead
  have toTarget : charge aToB l.val price.val target.val = range.toTarget aToB := by
    rw [Range.toTarget,words.price,words.target,words.liquidity]
  rw [computeSwapStep_eq,keptOk,ok_bind,netOk,ok_bind]
  by_cases reached : range.Reached aToB feePips.val
  · rw [← step_reached entered words reached,bind_ok,bind_ok]
    apply exists_congr
    intro charged
    apply and_congr_right
    intro charging
    have chargedEq := ((deltaIn_ok positiveTarget ahead).mp charging).2.trans toTarget
    rw [if_pos (by rw [Fin.le_def,chargedEq,net]; exact reached)]
  · rw [← step_short entered words reached net,bind_ok,bind_ok]
    apply exists_congr
    intro charged
    apply and_congr_right
    intro charging
    have chargedEq := ((deltaIn_ok positiveTarget ahead).mp charging).2.trans toTarget
    rw [if_neg (by rw [Fin.le_def,chargedEq,net]; exact reached)]

theorem exists_step (entered : range.Entered aToB feePips.val) (words : range.Of price target l remaining)
    (paid : range.amountOut aToB feePips.val < 2^128) : ∃ step, range.Exact aToB feePips.val step := by
  have next : range.next aToB feePips.val < 2^128 := by
    have first := price.isLt
    have last := target.isLt
    have ahead := entered.next_ahead
    have onward := entered.ahead_target
    rw [words.price] at ahead
    rw [words.target] at onward
    cases aToB with
    | true => exact (ahead_first.mp ahead).trans_lt first
    | false => exact (ahead_second.mp onward).trans_lt last
  have amountIn : range.amountIn aToB feePips.val < 2^128 := by
    have affordable := entered.amountIn_le.trans Range.net_le
    have small := entered.remaining
    omega
  exact ⟨⟨⟨_,next⟩,⟨_,amountIn⟩,⟨_,paid⟩,⟨_,entered.feeAmount_lt.trans (by norm_num)⟩⟩,rfl,rfl,rfl,rfl⟩

/-- What one round of the loop does to its state. The input spent never overflows,
and the output can only wrap downwards. -/
theorem advance_of_exact (build : Build) (state : SwapState) (entered : range.Entered aToB feePips.val)
    (exact : range.Exact aToB feePips.val step) :
    state.advance build step = (add build state.out step.amountOut >>= fun out => .ok
      ⟨step.sqrtNext,state.liquidity,
        ⟨state.remaining.val - (range.amountIn aToB feePips.val + range.feeAmount aToB feePips.val),by omega⟩,
        out⟩) := by
  have fee := entered.feeAmount_lt
  have affordable := entered.amountIn_le.trans Range.net_le
  have small := entered.remaining
  have total : step.amountIn.val + step.feeAmount.val =
      range.amountIn aToB feePips.val + range.feeAmount aToB feePips.val := by
    rw [exact.amountIn,exact.feeAmount]
  have fits : step.amountIn.val + step.feeAmount.val < 2^128 := by omega
  have spent : add build step.amountIn step.feeAmount = .ok ⟨_,fits⟩ := add_of_lt fits
  have remaining : saturatingSub state.remaining (⟨step.amountIn.val + step.feeAmount.val,fits⟩ : U128) =
      ⟨state.remaining.val - (range.amountIn aToB feePips.val + range.feeAmount aToB feePips.val),by omega⟩ := by
    apply Fin.ext
    simp only [saturatingSub_val,total]
  rw [SwapState.advance,spent,ok_bind,remaining]
  simp only [pure_eq_ok]

end step

end SuiArbitrage.Rust.Clmm
