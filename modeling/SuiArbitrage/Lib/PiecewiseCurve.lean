import Mathlib.Algebra.Order.Archimedean.Real.Basic
import Mathlib.Tactic.Linarith
import Mathlib.Tactic.Positivity
import Mathlib.Tactic.Ring

/-! A curve of piecewise constant liquidity on a square-root price axis with unit `q`,
in exact arithmetic. A swap moves the price in one of two directions; between two prices
it pays in one token and is paid out in the other, and at each knot that it crosses the
liquidity changes. What an amount can buy is the supremum over the prices it can pay for. -/
namespace PiecewiseCurve

/-- A price at which the liquidity changes, and by how much in the direction of travel. -/
structure Knot where
  price : ℝ
  net : ℝ

/-- `next` is no further back than `price`: below it, if the first token is paid in. -/
def Onward (first : Bool) (price next : ℝ) : Prop := if first then next ≤ price else price ≤ next

noncomputable instance (first : Bool) (price next : ℝ) : Decidable (Onward first price next) := Classical.dec _

noncomputable def cost (q : ℝ) (first : Bool) (L price next : ℝ) : ℝ :=
  if first then L * q * (price - next) / (price * next) else L * (next - price) / q

noncomputable def output (q : ℝ) (first : Bool) (L price next : ℝ) : ℝ :=
  if first then L * (price - next) / q else L * q * (next - price) / (price * next)

/-- The cost of moving the price to `next` through the knots, which come in travel order. -/
noncomputable def costTo (q : ℝ) (first : Bool) : List Knot → (price L next : ℝ) → ℝ
  | [],price,L,next => cost q first L price next
  | knot :: knots,price,L,next =>
    if Onward first knot.price next then
      cost q first L price knot.price + costTo q first knots knot.price (L + knot.net) next
    else cost q first L price next

noncomputable def outputTo (q : ℝ) (first : Bool) : List Knot → (price L next : ℝ) → ℝ
  | [],price,L,next => output q first L price next
  | knot :: knots,price,L,next =>
    if Onward first knot.price next then
      output q first L price knot.price + outputTo q first knots knot.price (L + knot.net) next
    else output q first L price next

/-- The price `next`, no further than the limit, can be paid for: of each amount a share
`1 / gross` moves the price. -/
structure Reachable (q : ℝ) (first : Bool) (gross limit : ℝ) (knots : List Knot) (price L amount next : ℝ) : Prop where
  positive : 0 < next
  onward : Onward first price next
  within : Onward first next limit
  paid : costTo q first knots price L next * gross ≤ amount

def outputs (q : ℝ) (first : Bool) (gross limit : ℝ) (knots : List Knot) (price L amount : ℝ) : Set ℝ :=
  {out | ∃ next, Reachable q first gross limit knots price L amount next ∧ out = outputTo q first knots price L next}

noncomputable def exactOutput (q : ℝ) (first : Bool) (gross limit : ℝ) (knots : List Knot) (price L amount : ℝ) : ℝ :=
  sSup (outputs q first gross limit knots price L amount)

/-- Knots that lie onward of a price, in travel order. -/
def Ordered (first : Bool) (price : ℝ) (knots : List Knot) : Prop :=
  (∀ knot ∈ knots, 0 < knot.price ∧ Onward first price knot.price) ∧
    knots.Pairwise fun knot later => Onward first knot.price later.price

section curve
variable {q gross limit price L amount next : ℝ} {first : Bool} {knot : Knot} {knots : List Knot}

theorem Onward.refl (first : Bool) (price : ℝ) : Onward first price price := by
  cases first <;> exact le_refl price

theorem Onward.trans {third : ℝ} (one : Onward first price next) (two : Onward first next third) :
    Onward first price third := by
  cases first with
  | true => exact le_trans two one
  | false => exact le_trans one two

theorem Onward.antisymm (one : Onward first price next) (two : Onward first next price) : price = next := by
  cases first with
  | true => exact le_antisymm two one
  | false => exact le_antisymm one two

@[simp] theorem cost_self (q : ℝ) (first : Bool) (L price : ℝ) : cost q first L price price = 0 := by
  cases first <;> simp [cost]

@[simp] theorem output_self (q : ℝ) (first : Bool) (L price : ℝ) : output q first L price price = 0 := by
  cases first <;> simp [output]

theorem Ordered.tail (ordered : Ordered first price (knot :: knots)) : Ordered first knot.price knots := by
  obtain ⟨ahead,sorted⟩ := ordered
  refine ⟨fun later member => ⟨(ahead later (List.mem_cons_of_mem _ member)).1,?_⟩,sorted.of_cons⟩
  exact List.rel_of_pairwise_cons sorted member

theorem Ordered.head (ordered : Ordered first price (knot :: knots)) : 0 < knot.price ∧ Onward first price knot.price :=
  ordered.1 knot List.mem_cons_self

/-- Staying where one is costs nothing and yields nothing. -/
theorem to_self (ordered : Ordered first price knots) :
    costTo q first knots price L price = 0 ∧ outputTo q first knots price L price = 0 := by
  induction knots generalizing price L with
  | nil => exact ⟨cost_self _ _ _ _,output_self _ _ _ _⟩
  | cons knot knots ih =>
    rw [costTo,outputTo]
    split
    · rename_i reached
      obtain ⟨cost,output⟩ := ih (L := L + knot.net) ordered.tail
      rw [ordered.head.2.antisymm reached,cost_self,output_self,cost,output]
      exact ⟨add_zero 0,add_zero 0⟩
    · exact ⟨cost_self _ _ _ _,output_self _ _ _ _⟩

/-- Up to the first knot the curve is a single range. -/
theorem to_before (before : ∀ knot ∈ knots.head?, ¬ Onward first knot.price next) :
    costTo q first knots price L next = cost q first L price next ∧
      outputTo q first knots price L next = output q first L price next := by
  cases knots with
  | nil => exact ⟨rfl,rfl⟩
  | cons knot knots =>
    have short : ¬ Onward first knot.price next := before knot rfl
    rw [costTo,outputTo,if_neg short,if_neg short]
    exact ⟨rfl,rfl⟩

theorem to_beyond (q : ℝ) (knots : List Knot) (price L : ℝ) (beyond : Onward first knot.price next) :
    costTo q first (knot :: knots) price L next =
        cost q first L price knot.price + costTo q first knots knot.price (L + knot.net) next ∧
      outputTo q first (knot :: knots) price L next =
        output q first L price knot.price + outputTo q first knots knot.price (L + knot.net) next := by
  rw [costTo,outputTo,if_pos beyond,if_pos beyond]
  exact ⟨rfl,rfl⟩

theorem output_le (unit : 0 < q) (positive : 0 < price) (positiveNext : 0 < next) (onward : Onward first price next) :
    output q first L price next ≤ |L| * (price / q + q / price) := by
  have deep := abs_nonneg L
  have below := le_abs_self L
  have sides : 0 < price / q ∧ 0 < q / price := ⟨div_pos positive unit,div_pos unit positive⟩
  cases first with
  | true =>
    have lower : next ≤ price := onward
    have share : (price - next) / q ≤ price / q := by gcongr; linarith
    have spread : 0 ≤ (price - next) / q := div_nonneg (by linarith) unit.le
    calc output q true L price next = L * ((price - next) / q) := by simp only [output,if_true]; ring
      _ ≤ |L| * ((price - next) / q) := mul_le_mul_of_nonneg_right below spread
      _ ≤ |L| * (price / q + q / price) := mul_le_mul_of_nonneg_left (by linarith) deep
  | false =>
    have upper : price ≤ next := onward
    have share : q * (next - price) / (price * next) ≤ q / price := by
      rw [div_le_div_iff₀ (mul_pos positive positiveNext) positive]
      have : 0 ≤ q * price * price := by positivity
      nlinarith
    have spread : 0 ≤ q * (next - price) / (price * next) :=
      div_nonneg (mul_nonneg unit.le (by linarith)) (mul_pos positive positiveNext).le
    calc output q false L price next = L * (q * (next - price) / (price * next)) := by
          simp only [output,Bool.false_eq_true,if_false]; ring
      _ ≤ |L| * (q * (next - price) / (price * next)) := mul_le_mul_of_nonneg_right below spread
      _ ≤ |L| * (price / q + q / price) := mul_le_mul_of_nonneg_left (by linarith) deep

/-- However far the price moves, the curve does not pay out more than this. -/
theorem outputTo_bounded (unit : 0 < q) (positive : 0 < price) (ordered : Ordered first price knots) (L : ℝ) :
    ∃ most, ∀ next, 0 < next → Onward first price next → outputTo q first knots price L next ≤ most := by
  induction knots generalizing price L with
  | nil => exact ⟨_,fun next positiveNext onward => output_le unit positive positiveNext onward⟩
  | cons knot knots ih =>
    obtain ⟨positiveKnot,ahead⟩ := ordered.head
    obtain ⟨most,bounded⟩ := ih positiveKnot ordered.tail (L + knot.net)
    refine ⟨max (output q first L price knot.price + most) (|L| * (price / q + q / price)),?_⟩
    intro next positiveNext onward
    rw [outputTo]
    split
    · rename_i reached
      exact le_max_of_le_left (add_le_add_right (bounded next positiveNext reached) _)
    · exact le_max_of_le_right (output_le unit positive positiveNext onward)

theorem Reachable.start (positive : 0 < price) (within : Onward first price limit) (ordered : Ordered first price knots)
    (nonnegative : 0 ≤ amount) : Reachable q first gross limit knots price L amount price := by
  refine ⟨positive,.refl _ _,within,?_⟩
  rw [(to_self ordered).1,zero_mul]
  exact nonnegative

theorem exactOutput_isLUB (unit : 0 < q) (positive : 0 < price) (within : Onward first price limit)
    (ordered : Ordered first price knots) (nonnegative : 0 ≤ amount) (gross L : ℝ) :
    IsLUB (outputs q first gross limit knots price L amount) (exactOutput q first gross limit knots price L amount) := by
  refine isLUB_csSup ⟨_,price,Reachable.start positive within ordered nonnegative,rfl⟩ ?_
  obtain ⟨most,bounded⟩ := outputTo_bounded unit positive ordered L
  refine ⟨most,fun out found => ?_⟩
  obtain ⟨next,reachable,rfl⟩ := found
  exact bounded next reachable.positive reachable.onward

theorem Reachable.le_exactOutput (reachable : Reachable q first gross limit knots price L amount next) (unit : 0 < q)
    (positive : 0 < price) (ordered : Ordered first price knots) (nonnegative : 0 ≤ amount) :
    outputTo q first knots price L next ≤ exactOutput q first gross limit knots price L amount :=
  (exactOutput_isLUB unit positive (reachable.onward.trans reachable.within) ordered nonnegative gross L).1 ⟨next,reachable,rfl⟩

end curve

end PiecewiseCurve
