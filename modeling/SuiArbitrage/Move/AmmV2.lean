import SuiArbitrage.Move.Math

/-! The reference pool of `sources/amm_v2.move`. The adapter
`sources/adapters/amm_v2_adapter.move` forwards to these swaps unchanged. -/
namespace SuiArbitrage.Move.AmmV2
open MachineWord Fallible

def eSlippage : ℕ := 1

structure Pool (A B : TypeTag) where
  id : ObjectId
  reserveA : U64
  reserveB : U64
  feeBps : U64
  deriving DecidableEq, Repr

variable {A B : TypeTag}

def createPool (id : ObjectId) (coinA : Coin A) (coinB : Coin B) (feeBps : U64) :
    Exec (Pool A B) := do
  assert (feeBps < Math.feeDenom) .ammV2 eSlippage
  pure ⟨id,coinA.value,coinB.value,feeBps⟩

def fund (pool : Pool A B) (coinA : Coin A) (coinB : Coin B) : Exec (Pool A B) := do
  let reserveA ← balanceJoin pool.reserveA coinA.value
  let reserveB ← balanceJoin pool.reserveB coinB.value
  pure {pool with reserveA := reserveA, reserveB := reserveB}

def swapAToB (pool : Pool A B) (coinIn : Coin A) (minOut : U64) : Exec (Pool A B × Coin B) := do
  let amountOut ← Math.getAmountOut coinIn.value pool.reserveA pool.reserveB pool.feeBps
  assert (minOut ≤ amountOut) .ammV2 eSlippage
  let reserveA ← balanceJoin pool.reserveA coinIn.value
  let (reserveB,out) ← balanceSplit pool.reserveB amountOut
  pure ({pool with reserveA := reserveA, reserveB := reserveB},⟨out⟩)

def swapBToA (pool : Pool A B) (coinIn : Coin B) (minOut : U64) : Exec (Pool A B × Coin A) := do
  let amountOut ← Math.getAmountOut coinIn.value pool.reserveB pool.reserveA pool.feeBps
  assert (minOut ≤ amountOut) .ammV2 eSlippage
  let reserveB ← balanceJoin pool.reserveB coinIn.value
  let (reserveA,out) ← balanceSplit pool.reserveA amountOut
  pure ({pool with reserveA := reserveA, reserveB := reserveB},⟨out⟩)

def Pool.flip (pool : Pool A B) : Pool B A := ⟨pool.id,pool.reserveB,pool.reserveA,pool.feeBps⟩

def Pool.product (pool : Pool A B) : ℕ := pool.reserveA.val * pool.reserveB.val

@[simp] theorem flip_product (pool : Pool A B) : pool.flip.product = pool.product :=
  Nat.mul_comm _ _

/-- Everything a successful swap does: it is priced on the reserves before it,
and moves the input in and the output out. -/
structure Swapped (before after : Pool A B) (coinIn : Coin A) (minOut : U64) (out : Coin B) : Prop where
  priced : Math.getAmountOut coinIn.value before.reserveA before.reserveB before.feeBps = .ok out.value
  floor : minOut ≤ out.value
  received : after.reserveA.val = before.reserveA.val + coinIn.value.val
  paid : after.reserveB.val + out.value.val = before.reserveB.val
  sameId : after.id = before.id
  sameFee : after.feeBps = before.feeBps

theorem swapAToB_ok {before after : Pool A B} {coinIn : Coin A} {minOut : U64} {out : Coin B} :
    swapAToB before coinIn minOut = .ok (after,out) ↔ Swapped before after coinIn minOut out := by
  constructor
  · intro ok
    simp only [swapAToB,bind_ok,assert_ok,balanceJoin_ok,exists_const,pure_ok,Prod.mk.injEq,
      Prod.exists,balanceSplit_ok] at ok
    obtain ⟨amountOut,priced,floor,reserveA,received,reserveB,taken,⟨rfl,paid⟩,rfl,rfl⟩ := ok
    exact ⟨priced,floor,received.symm,paid,rfl,rfl⟩
  · rintro ⟨priced,floor,received,paid,sameId,sameFee⟩
    simp only [swapAToB,bind_ok,assert_ok,balanceJoin_ok,exists_const,pure_ok,Prod.mk.injEq,
      Prod.exists,balanceSplit_ok]
    refine ⟨out.value,priced,floor,after.reserveA,received.symm,after.reserveB,out.value,
      ⟨rfl,paid⟩,?_,rfl⟩
    cases after
    cases before
    simp_all

/-- The two directions are one function seen from the two sides of the pool. -/
theorem swapBToA_flip (pool : Pool A B) (coinIn : Coin B) (minOut : U64) :
    swapBToA pool coinIn minOut =
      (swapAToB pool.flip coinIn minOut).map (fun moved => (moved.1.flip,moved.2)) := by
  simp only [swapBToA,swapAToB,Pool.flip]
  cases Math.getAmountOut coinIn.value pool.reserveB pool.reserveA pool.feeBps with
  | error abort => rfl
  | ok amountOut =>
    simp only [ok_bind]
    cases assert (minOut ≤ amountOut) .ammV2 eSlippage with
    | error abort => rfl
    | ok accepted =>
      simp only [ok_bind]
      cases balanceJoin pool.reserveB coinIn.value with
      | error abort => rfl
      | ok reserveB =>
        simp only [ok_bind]
        cases balanceSplit pool.reserveA amountOut with
        | error abort => rfl
        | ok split => rfl

theorem swapBToA_ok {before after : Pool A B} {coinIn : Coin B} {minOut : U64} {out : Coin A} :
    swapBToA before coinIn minOut = .ok (after,out) ↔
      Swapped before.flip after.flip coinIn minOut out := by
  rw [swapBToA_flip,← swapAToB_ok,map_ok]
  refine ⟨fun ran => ?_,fun moved => ⟨_,moved,rfl⟩⟩
  obtain ⟨⟨pool,coin⟩,moved,same⟩ := ran
  obtain ⟨rfl,rfl⟩ := Prod.mk.inj same
  exact moved

namespace Swapped

variable {before after : Pool A B} {coinIn : Coin A} {minOut : U64} {out : Coin B}

theorem quotable (swapped : Swapped before after coinIn minOut out) :
    Math.Quotable coinIn.value before.reserveA before.reserveB before.feeBps :=
  (Math.getAmountOut_ok.mp swapped.priced).1

theorem out_eq (swapped : Swapped before after coinIn minOut out) :
    out.value.val = Math.exactOut coinIn.value before.reserveA before.reserveB before.feeBps :=
  (Math.getAmountOut_ok.mp swapped.priced).2.2

theorem positive (swapped : Swapped before after coinIn minOut out) :
    0 < after.reserveA.val ∧ 0 < after.reserveB.val := by
  have below := Math.exactOut_lt_reserve swapped.quotable
  rw [← swapped.out_eq] at below
  have received := swapped.received
  have paid := swapped.paid
  obtain ⟨amountPos,-,-,-⟩ := swapped.quotable
  omega

/-- Both the rounding and the fee stay in the pool, so no swap lowers its product. -/
theorem product_le (swapped : Swapped before after coinIn minOut out) :
    before.product ≤ after.product := by
  obtain ⟨-,inPos,outPos,-⟩ := swapped.quotable
  have grown := ConstantProduct.floorOutput_product_le (show 0 < 10000 by norm_num)
    (Nat.sub_le 10000 before.feeBps.val) inPos outPos (x := coinIn.value.val)
  have received := swapped.received
  have paid : after.reserveB.val =
      before.reserveB.val - Math.exactOut coinIn.value before.reserveA before.reserveB before.feeBps := by
    have := swapped.paid
    rw [swapped.out_eq] at this
    omega
  rw [Pool.product,Pool.product,received,paid]
  exact grown

/-- One swap of the whole input pays at least what two swaps of its parts do. -/
theorem split {middle last whole : Pool A B} {x y both minX minY minBoth : U64} {outX outY outBoth : Coin B}
    (joined : both.val = x.val + y.val) (first : Swapped before middle ⟨x⟩ minX outX)
    (second : Swapped middle last ⟨y⟩ minY outY) (once : Swapped before whole ⟨both⟩ minBoth outBoth) :
    outX.value.val + outY.value.val ≤ outBoth.value.val ∧
      whole.reserveA = last.reserveA ∧ whole.reserveB ≤ last.reserveB := by
  obtain ⟨-,inPos,outPos,-⟩ := first.quotable
  have pays : outX.value.val + outY.value.val ≤ outBoth.value.val := by
    have larger := ConstantProduct.floorOutput_split (show 0 < 10000 by norm_num)
      (Nat.sub_le 10000 before.feeBps.val) inPos outPos (x := x.val) (y := y.val)
    have rest : middle.reserveB.val = before.reserveB.val -
        ConstantProduct.floorOutput 10000 (10000 - before.feeBps.val) x.val before.reserveA.val before.reserveB.val := by
      have paid := first.paid
      have exact : outX.value.val = ConstantProduct.floorOutput 10000 (10000 - before.feeBps.val) x.val
          before.reserveA.val before.reserveB.val := first.out_eq
      omega
    rw [first.out_eq,second.out_eq,once.out_eq,Math.exactOut,Math.exactOut,Math.exactOut,first.sameFee,first.received,
      rest,joined]
    exact larger
  have firstIn := first.received
  have secondIn := second.received
  have onceIn := once.received
  have firstOut := first.paid
  have secondOut := second.paid
  have onceOut := once.paid
  simp only [] at firstIn secondIn onceIn
  refine ⟨pays,Fin.ext (by omega),?_⟩
  rw [Fin.le_def]
  omega

end Swapped

/-- Splitting a swap never pays, in either direction: one swap of the sum returns at least
as much, and leaves the same input reserve and no larger an output reserve. -/
theorem swap_split {x y both : U64} (joined : both.val = x.val + y.val) (pool : Pool A B) :
    (∀ middle last whole minX minY minBoth (outX outY outBoth : Coin B),
      swapAToB pool ⟨x⟩ minX = .ok (middle,outX) → swapAToB middle ⟨y⟩ minY = .ok (last,outY) →
      swapAToB pool ⟨both⟩ minBoth = .ok (whole,outBoth) →
      outX.value.val + outY.value.val ≤ outBoth.value.val ∧
        whole.reserveA = last.reserveA ∧ whole.reserveB ≤ last.reserveB) ∧
    (∀ middle last whole minX minY minBoth (outX outY outBoth : Coin A),
      swapBToA pool ⟨x⟩ minX = .ok (middle,outX) → swapBToA middle ⟨y⟩ minY = .ok (last,outY) →
      swapBToA pool ⟨both⟩ minBoth = .ok (whole,outBoth) →
      outX.value.val + outY.value.val ≤ outBoth.value.val ∧
        whole.reserveB = last.reserveB ∧ whole.reserveA ≤ last.reserveA) := by
  refine ⟨?_,?_⟩
  · intro middle last whole minX minY minBoth outX outY outBoth first second once
    exact Swapped.split joined (swapAToB_ok.mp first) (swapAToB_ok.mp second) (swapAToB_ok.mp once)
  · intro middle last whole minX minY minBoth outX outY outBoth first second once
    exact Swapped.split joined (swapBToA_ok.mp first) (swapBToA_ok.mp second) (swapBToA_ok.mp once)

/-- Twice ten units pay nine each; twenty pay nineteen. -/
theorem swap_split_twenty :
    let pool : Pool "A" "B" := ⟨"p",1000,1000,30⟩
    let last : Pool "A" "B" := ⟨"p",1020,982,30⟩
    let whole : Pool "A" "B" := ⟨"p",1020,981,30⟩
    swapAToB pool ⟨20⟩ 0 = .ok (whole,⟨19⟩) ∧ whole.reserveA = last.reserveA ∧ whole.reserveB ≤ last.reserveB ∧
      swapBToA pool ⟨20⟩ 0 = .ok (⟨"p",981,1020,30⟩,⟨19⟩) := by
  intro pool last whole
  have joined : (20 : U64).val = (10 : U64).val + (10 : U64).val := by decide
  have once : swapAToB pool ⟨20⟩ 0 = .ok (whole,⟨19⟩) := by decide +kernel
  obtain ⟨-,received,paid⟩ := (swap_split joined pool).1 ⟨"p",1010,991,30⟩ last whole 0 0 0 ⟨9⟩ ⟨9⟩ ⟨19⟩
    (by decide +kernel) (by decide +kernel) once
  exact ⟨once,received,paid,by decide +kernel⟩

section pricing
variable {amountIn reserveIn reserveOut feeBps : U64}

/-- The quote is the exact output, and a swap on a pool with these reserves leaves the 64 bit
range at most where its input is joined to the reserve. -/
structure Priced (amountIn reserveIn reserveOut feeBps : U64) : Prop where
  quote : ∃ out, Math.getAmountOut amountIn reserveIn reserveOut feeBps = .ok out ∧
    out.val = Math.exactOut amountIn reserveIn reserveOut feeBps ∧ out.val < reserveOut.val
  aToB : ∀ {A B : TypeTag} (pool : Pool A B) (minOut : U64), pool.reserveA = reserveIn → pool.reserveB = reserveOut →
    pool.feeBps = feeBps → swapAToB pool ⟨amountIn⟩ minOut = .error .arithmetic → 2^64 ≤ reserveIn.val + amountIn.val
  bToA : ∀ {A B : TypeTag} (pool : Pool A B) (minOut : U64), pool.reserveB = reserveIn → pool.reserveA = reserveOut →
    pool.feeBps = feeBps → swapBToA pool ⟨amountIn⟩ minOut = .error .arithmetic → 2^64 ≤ reserveIn.val + amountIn.val

theorem quote_of_fits (quotable : Math.Quotable amountIn reserveIn reserveOut feeBps)
    (fits : amountIn.val * (10000 - feeBps.val) * reserveOut.val < 2^128) :
    ∃ out, Math.getAmountOut amountIn reserveIn reserveOut feeBps = .ok out ∧
      out.val = Math.exactOut amountIn reserveIn reserveOut feeBps ∧ out.val < reserveOut.val := by
  have below := Math.exactOut_lt_reserve quotable
  let out : U64 := ⟨Math.exactOut amountIn reserveIn reserveOut feeBps,below.trans reserveOut.isLt⟩
  exact ⟨out,Math.getAmountOut_ok.mpr ⟨quotable,fits,rfl⟩,rfl,below⟩

theorem swapAToB_arithmetic {pool : Pool A B} {coinIn : Coin A} {minOut out : U64}
    (priced : Math.getAmountOut coinIn.value pool.reserveA pool.reserveB pool.feeBps = .ok out)
    (below : out.val < pool.reserveB.val) (failed : swapAToB pool coinIn minOut = .error .arithmetic) :
    2^64 ≤ pool.reserveA.val + coinIn.value.val := by
  by_contra fits
  have joined : balanceJoin pool.reserveA coinIn.value = .ok ⟨_,not_le.mp fits⟩ := balanceJoin_ok.mpr rfl
  have taken : balanceSplit pool.reserveB out = .ok (MachineWord.saturatingSub pool.reserveB out,out) := by
    rw [balanceSplit,assert,if_pos (Fin.le_def.mpr below.le),ok_bind]
    rfl
  rw [swapAToB,priced,ok_bind] at failed
  unfold assert at failed
  split at failed
  · simp only [ok_bind,joined,taken] at failed
    cases failed
  · cases failed

/-- Pricing is free of overflow exactly where the numerator fits in 128 bits. -/
theorem priced_iff (quotable : Math.Quotable amountIn reserveIn reserveOut feeBps) :
    Priced amountIn reserveIn reserveOut feeBps ↔ amountIn.val * (10000 - feeBps.val) * reserveOut.val < 2^128 := by
  constructor
  · intro priced
    obtain ⟨out,quoted,-,-⟩ := priced.quote
    exact (Math.getAmountOut_ok.mp quoted).2.1
  · intro fits
    obtain ⟨out,quoted,exact,below⟩ := quote_of_fits quotable fits
    refine ⟨⟨out,quoted,exact,below⟩,?_,?_⟩
    · intro A B pool minOut input output fee failed
      subst input output fee
      exact swapAToB_arithmetic quoted below failed
    · intro A B pool minOut input output fee failed
      subst input output fee
      have aborts : swapAToB pool.flip ⟨amountIn⟩ minOut = .error .arithmetic → _ := swapAToB_arithmetic quoted below
      apply aborts
      rw [swapBToA_flip] at failed
      exact map_error.mp failed

theorem priced_iff_small : Priced 1000 1000000 2000000 30 ↔ 1000 * (10000 - 30) * 2000000 < 2^128 :=
  priced_iff (by decide)

/-- A tenth of a pool of 10^18 units on each side cannot be priced. -/
theorem priced_overflow : ¬ ∀ amountIn reserveIn reserveOut feeBps : U64,
    Math.Quotable amountIn reserveIn reserveOut feeBps → Priced amountIn reserveIn reserveOut feeBps := by
  intro claimed
  have priced := claimed (10^17) (10^18) (10^18) 30 (by decide)
  have aborted : Math.getAmountOut (10^17) (10^18) (10^18) 30 = .error .arithmetic := by decide +kernel
  obtain ⟨out,quoted,-,-⟩ := priced.quote
  cases aborted.symm.trans quoted

end pricing

end SuiArbitrage.Move.AmmV2
