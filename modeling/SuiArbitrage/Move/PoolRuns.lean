import SuiArbitrage.Move.AmmV2

/-! Histories of one reference pool: any sequence of swaps and top-ups, where an
aborted call leaves the pool as it was. -/
namespace SuiArbitrage.Move.AmmV2
open MachineWord Fallible

variable {A B : TypeTag}

inductive PoolCall (A B : TypeTag)
  | fund (coinA : Coin A) (coinB : Coin B)
  | swapAToB (coinIn : Coin A) (minOut : U64)
  | swapBToA (coinIn : Coin B) (minOut : U64)
  deriving DecidableEq, Repr

def poolStep (pool : Pool A B) : PoolCall A B → Exec (Pool A B)
  | .fund coinA coinB => fund pool coinA coinB
  | .swapAToB coinIn minOut => return (← swapAToB pool coinIn minOut).1
  | .swapBToA coinIn minOut => return (← swapBToA pool coinIn minOut).1

structure Pool.Funded (pool : Pool A B) : Prop where
  reserveA : 0 < pool.reserveA.val
  reserveB : 0 < pool.reserveB.val

theorem createPool_ok {id : ObjectId} {coinA : Coin A} {coinB : Coin B} {feeBps : U64} {pool : Pool A B} :
    createPool id coinA coinB feeBps = .ok pool ↔
      feeBps < Math.feeDenom ∧ pool = ⟨id,coinA.value,coinB.value,feeBps⟩ := by
  simp only [createPool,bind_ok,assert_ok,exists_const,pure_ok,eq_comm (a := pool)]

theorem fund_ok {before after : Pool A B} {coinA : Coin A} {coinB : Coin B} :
    fund before coinA coinB = .ok after ↔
      (after.id = before.id ∧ after.feeBps = before.feeBps) ∧
      after.reserveA.val = before.reserveA.val + coinA.value.val ∧
      after.reserveB.val = before.reserveB.val + coinB.value.val := by
  simp only [fund,bind_ok,balanceJoin_ok,pure_ok]
  constructor
  · rintro ⟨reserveA,joinedA,reserveB,joinedB,rfl⟩
    exact ⟨⟨rfl,rfl⟩,joinedA.symm,joinedB.symm⟩
  · rintro ⟨⟨sameId,sameFee⟩,joinedA,joinedB⟩
    refine ⟨after.reserveA,joinedA.symm,after.reserveB,joinedB.symm,?_⟩
    cases after
    cases before
    simp_all

theorem poolStep_funded {before after : Pool A B} {action : PoolCall A B}
    (funded : before.Funded) (moved : poolStep before action = .ok after) :
    after.Funded ∧ before.product ≤ after.product := by
  cases action with
  | fund coinA coinB =>
    obtain ⟨-,joinedA,joinedB⟩ := fund_ok.mp moved
    refine ⟨⟨?_,?_⟩,?_⟩
    · rw [joinedA]
      exact Nat.add_pos_left funded.reserveA _
    · rw [joinedB]
      exact Nat.add_pos_left funded.reserveB _
    · rw [Pool.product,Pool.product,joinedA,joinedB]
      exact Nat.mul_le_mul (Nat.le_add_right _ _) (Nat.le_add_right _ _)
  | swapAToB coinIn minOut =>
    simp only [poolStep,bind_ok,pure_ok] at moved
    obtain ⟨⟨pool,out⟩,swapped,rfl⟩ := moved
    have swapped := swapAToB_ok.mp swapped
    exact ⟨⟨swapped.positive.1,swapped.positive.2⟩,swapped.product_le⟩
  | swapBToA coinIn minOut =>
    simp only [poolStep,bind_ok,pure_ok] at moved
    obtain ⟨⟨pool,out⟩,swapped,rfl⟩ := moved
    have swapped := swapBToA_ok.mp swapped
    refine ⟨⟨swapped.positive.2,swapped.positive.1⟩,?_⟩
    simpa only [flip_product] using swapped.product_le

theorem attempts_funded {pool : Pool A B} (calls : List (PoolCall A B)) (funded : pool.Funded) :
    (attempts poolStep pool calls).Funded ∧ pool.product ≤ (attempts poolStep pool calls).product :=
  attempts_relates poolStep Pool.Funded (fun before after => before.product ≤ after.product)
    (fun _ => le_rfl) (fun first second => first.trans second)
    (fun _ _ _ kept moved => poolStep_funded kept moved) calls funded

theorem not_drained {before after : Pool A B} (funded : before.Funded)
    (product : before.product ≤ after.product) :
    ¬ ((after.reserveA ≤ before.reserveA ∧ after.reserveB ≤ before.reserveB) ∧
      (after.reserveA < before.reserveA ∨ after.reserveB < before.reserveB)) := by
  rintro ⟨⟨notMoreA,notMoreB⟩,less⟩
  apply Nat.not_lt.mpr product
  rcases less with lessA | lessB
  · exact Nat.mul_lt_mul_of_lt_of_le lessA notMoreB funded.reserveB
  · exact Nat.mul_lt_mul_of_le_of_lt notMoreA lessB funded.reserveA

/-- Whatever calls follow its creation with two positive reserves, and from
whichever of its states a run of them is counted. -/
theorem created_pool_never_drained {id : ObjectId} {coinA : Coin A} {coinB : Coin B} {feeBps : U64}
    {pool : Pool A B} (created : createPool id coinA coinB feeBps = .ok pool)
    (positiveA : 0 < coinA.value.val) (positiveB : 0 < coinB.value.val)
    (calls later : List (PoolCall A B)) :
    let middle := attempts poolStep pool calls
    let final := attempts poolStep pool (calls ++ later)
    (0 < final.reserveA.val ∧ 0 < final.reserveB.val) ∧
    middle.product ≤ final.product ∧
    ¬ ((final.reserveA ≤ middle.reserveA ∧ final.reserveB ≤ middle.reserveB) ∧
      (final.reserveA < middle.reserveA ∨ final.reserveB < middle.reserveB)) := by
  obtain ⟨-,rfl⟩ := createPool_ok.mp created
  have start : (⟨id,coinA.value,coinB.value,feeBps⟩ : Pool A B).Funded := ⟨positiveA,positiveB⟩
  have middle := (attempts_funded calls start).1
  have final := attempts_funded later middle
  rw [← attempts_append] at final
  exact ⟨⟨final.1.reserveA,final.1.reserveB⟩,final.2,not_drained middle final.2⟩

theorem created_pool_never_drained_small :
    let pool : Pool "A" "B" := ⟨"p",1000,1000,30⟩
    let calls : List (PoolCall "A" "B") := [.swapAToB ⟨500⟩ 0,.swapBToA ⟨700⟩ 0]
    let final := attempts poolStep pool calls
    createPool "p" ⟨1000⟩ ⟨1000⟩ 30 = .ok pool ∧ 0 < final.reserveA.val ∧ pool.product ≤ final.product := by
  have created : createPool (A := "A") (B := "B") "p" ⟨1000⟩ ⟨1000⟩ 30 = .ok ⟨"p",1000,1000,30⟩ := rfl
  have run := created_pool_never_drained created (by decide) (by decide) []
    [.swapAToB ⟨500⟩ 0,.swapBToA ⟨700⟩ 0]
  exact ⟨created,run.1.1,run.2.1⟩

end SuiArbitrage.Move.AmmV2
