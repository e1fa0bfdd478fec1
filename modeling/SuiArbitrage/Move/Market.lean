import SuiArbitrage.Lib.KeyedStore
import SuiArbitrage.Move.AmmV2

/-! The shared pools of all coin types that a transaction can trade with. A call
names the coin types it expects, and a pool of other types is refused. -/
namespace SuiArbitrage.Move
open MachineWord Fallible AmmV2

structure Listed where
  coinA : TypeTag
  coinB : TypeTag
  pool : Pool coinA coinB
  deriving DecidableEq

namespace Listed

def id (listed : Listed) : ObjectId := listed.pool.id

def product (listed : Listed) : ℕ := listed.pool.product

def held (T : TypeTag) (listed : Listed) : ℕ :=
  (if listed.coinA = T then listed.pool.reserveA.val else 0) +
    if listed.coinB = T then listed.pool.reserveB.val else 0

end Listed

abbrev Pools := KeyedStore Listed.id

namespace Pools

def locate (pools : Pools) (A B : TypeTag) (id : ObjectId) : Except Failure (Pool A B) :=
  match pools.get id with
  | none => .error .argument
  | some listed =>
    if same : listed.coinA = A ∧ listed.coinB = B then .ok (same.1 ▸ same.2 ▸ listed.pool) else .error .argument

/-- A swap through `amm_v2_adapter`, whose two functions forward to the pool. -/
def swap (pools : Pools) (A B : TypeTag) (id : ObjectId) (aToB : Bool) (amountIn minOut : U64) :
    Except Failure (Pools × U64) := do
  let pool ← pools.locate A B id
  if aToB then
    let (pool,coinOut) ← call (swapAToB pool ⟨amountIn⟩ minOut)
    pure (pools.put ⟨A,B,pool⟩,coinOut.value)
  else
    let (pool,coinOut) ← call (swapBToA pool ⟨amountIn⟩ minOut)
    pure (pools.put ⟨A,B,pool⟩,coinOut.value)

theorem locate_ok {pools : Pools} {A B : TypeTag} {id : ObjectId} {pool : Pool A B} :
    pools.locate A B id = .ok pool ↔ pools.get id = some ⟨A,B,pool⟩ := by
  unfold locate
  cases pools.get id with
  | none => simp
  | some listed =>
    obtain ⟨coinA,coinB,held⟩ := listed
    by_cases same : coinA = A ∧ coinB = B
    · obtain ⟨rfl,rfl⟩ := same
      simp
    · dsimp only
      rw [dif_neg same]
      simp only [reduceCtorEq,Option.some.injEq,Listed.mk.injEq,false_iff]
      rintro ⟨rfl,rfl,-⟩
      exact same ⟨rfl,rfl⟩

/-- What a successful swap does to the shared pools. -/
structure Traded (before after : Pools) (id : ObjectId) (coinIn coinOut : TypeTag) (amountIn out : U64) : Prop where
  replaced : ∃ old new : Listed, before.get id = some old ∧ old.id = id ∧ new.id = id ∧ after = before.put new ∧
    old.product ≤ new.product ∧
    ∀ T, new.held T + (if coinOut = T then out.val else 0) = old.held T + if coinIn = T then amountIn.val else 0

theorem located_id {pools : Pools} {A B : TypeTag} {id : ObjectId} {pool : Pool A B}
    (found : pools.get id = some ⟨A,B,pool⟩) : pool.id = id :=
  show Listed.id ⟨A,B,pool⟩ = id from KeyedStore.get_key found

theorem swap_traded {pools after : Pools} {A B : TypeTag} {id : ObjectId} {aToB : Bool} {amountIn minOut out : U64}
    (ran : pools.swap A B id aToB amountIn minOut = .ok (after,out)) :
    Traded pools after id (if aToB then A else B) (if aToB then B else A) amountIn out := by
  simp only [swap,bind_ok,locate_ok] at ran
  obtain ⟨pool,here,ran⟩ := ran
  cases aToB with
  | true =>
    simp only [if_true,bind_ok,call_ok,Prod.exists,swapAToB_ok,pure_ok,Prod.mk.injEq] at ran
    obtain ⟨new,coinOut,swapped,rfl,rfl⟩ := ran
    have sameId : new.id = id := swapped.sameId.trans (located_id here)
    refine ⟨⟨⟨A,B,pool⟩,⟨A,B,new⟩,here,located_id here,sameId,rfl,swapped.product_le,fun T => ?_⟩⟩
    have received : new.reserveA.val = pool.reserveA.val + amountIn.val := swapped.received
    have paid := swapped.paid
    simp only [Listed.held,if_true]
    split <;> split <;> omega
  | false =>
    simp only [Bool.false_eq_true,if_false,bind_ok,call_ok,Prod.exists,swapBToA_ok,pure_ok,Prod.mk.injEq] at ran
    obtain ⟨new,coinOut,swapped,rfl,rfl⟩ := ran
    have sameId : new.id = id := (show new.id = pool.id from swapped.sameId).trans (located_id here)
    have grown : pool.product ≤ new.product := by simpa using swapped.product_le
    refine ⟨⟨⟨A,B,pool⟩,⟨A,B,new⟩,here,located_id here,sameId,rfl,grown,fun T => ?_⟩⟩
    have received : new.reserveB.val = pool.reserveB.val + amountIn.val := swapped.received
    have paid : new.reserveA.val + coinOut.value.val = pool.reserveA.val := swapped.paid
    simp only [Listed.held,Bool.false_eq_true,if_false]
    split <;> split <;> omega

theorem Traded.get_other {before after : Pools} {id other : ObjectId} {coinIn coinOut : TypeTag} {amountIn out : U64}
    (traded : Traded before after id coinIn coinOut amountIn out) (different : id ≠ other) :
    after.get other = before.get other := by
  obtain ⟨old,new,-,-,sameId,rfl,-,-⟩ := traded.replaced
  exact KeyedStore.get_put_other before (sameId ▸ different)

theorem Traded.product_le {before after : Pools} {id other : ObjectId} {coinIn coinOut : TypeTag} {amountIn out : U64}
    (traded : Traded before after id coinIn coinOut amountIn out) {listed : Listed}
    (here : before.get other = some listed) : ∃ now, after.get other = some now ∧ listed.product ≤ now.product := by
  by_cases same : id = other
  · obtain ⟨old,new,there,-,sameId,rfl,grown,-⟩ := traded.replaced
    subst same
    obtain rfl := Option.some.inj (there.symm.trans here)
    exact ⟨new,sameId ▸ KeyedStore.get_put_self (sameId ▸ there),grown⟩
  · exact ⟨listed,(traded.get_other same).trans here,le_rfl⟩

theorem Traded.total {before after : Pools} {id : ObjectId} {coinIn coinOut : TypeTag} {amountIn out : U64}
    (traded : Traded before after id coinIn coinOut amountIn out) (T : TypeTag) :
    after.total (Listed.held T) + (if coinOut = T then out.val else 0) =
      before.total (Listed.held T) + if coinIn = T then amountIn.val else 0 := by
  obtain ⟨old,new,here,-,sameId,rfl,-,moved⟩ := traded.replaced
  have written := KeyedStore.total_put (Listed.held T) (sameId ▸ here : before.get new.id = some old)
  have balance := moved T
  omega

def quoted (listed : Listed) (aToB : Bool) : U64 × U64 :=
  if aToB then (listed.pool.reserveA,listed.pool.reserveB) else (listed.pool.reserveB,listed.pool.reserveA)

theorem raises_swapAToB {A B : TypeTag} {pool : Pool A B} {coinIn : Coin A}
    (quotable : Math.Quotable coinIn.value pool.reserveA pool.reserveB pool.feeBps) :
    Raises (· = .arithmetic) (swapAToB pool coinIn 0) := by
  refine (Math.raises_getAmountOut quotable).bind fun amountOut priced => ?_
  have covered : amountOut ≤ pool.reserveB := by
    rw [Fin.le_def,(Math.getAmountOut_ok.mp priced).2.2]
    exact (Math.exactOut_lt_reserve quotable).le
  exact (raises_assert (Fin.zero_le _)).bind fun _ _ => (raises_checked _ _).bind fun _ _ =>
    ((raises_assert covered).bind fun _ _ => raises_ok _).bind fun _ _ => raises_ok _

theorem raises_swapBToA {A B : TypeTag} {pool : Pool A B} {coinIn : Coin B}
    (quotable : Math.Quotable coinIn.value pool.reserveB pool.reserveA pool.feeBps) :
    Raises (· = .arithmetic) (swapBToA pool coinIn 0) := by
  rw [swapBToA_flip]
  have raises := raises_swapAToB (show Math.Quotable coinIn.value pool.flip.reserveA pool.flip.reserveB
    pool.flip.feeBps from quotable)
  exact raises.map _

/-- A swap without a floor on a listed pool that can quote it aborts only where the
arithmetic overflows, and pays the exact output. -/
theorem swap_of_quotable {pools : Pools} {A B : TypeTag} {pool : Pool A B} {aToB : Bool} {amountIn : U64}
    (here : pools.get pool.id = some ⟨A,B,pool⟩)
    (quotable : Math.Quotable amountIn (quoted ⟨A,B,pool⟩ aToB).1 (quoted ⟨A,B,pool⟩ aToB).2 pool.feeBps) :
    pools.swap A B pool.id aToB amountIn 0 = .error (.abort .arithmetic) ∨
      ∃ after out, pools.swap A B pool.id aToB amountIn 0 = .ok (after,out) ∧
        amountIn.val * (10000 - pool.feeBps.val) * (quoted ⟨A,B,pool⟩ aToB).2.val < 2^128 ∧
        out.val = Math.exactOut amountIn (quoted ⟨A,B,pool⟩ aToB).1 (quoted ⟨A,B,pool⟩ aToB).2 pool.feeBps := by
  have located : pools.locate A B pool.id = .ok pool := locate_ok.mpr here
  simp only [swap,located,ok_bind]
  cases aToB with
  | true =>
    simp only [quoted,if_true] at quotable ⊢
    cases ran : call (swapAToB pool ⟨amountIn⟩ 0) with
    | error failure =>
      obtain ⟨reason,rfl,rfl⟩ := raises_call (raises_swapAToB quotable) failure ran
      exact .inl rfl
    | ok moved =>
      obtain ⟨new,coinOut⟩ := moved
      have swapped := swapAToB_ok.mp (call_ok.mp ran)
      have priced := Math.getAmountOut_ok.mp swapped.priced
      exact .inr ⟨_,_,rfl,priced.2⟩
  | false =>
    simp only [quoted,Bool.false_eq_true,if_false] at quotable ⊢
    cases ran : call (swapBToA pool ⟨amountIn⟩ 0) with
    | error failure =>
      obtain ⟨reason,rfl,rfl⟩ := raises_call (raises_swapBToA quotable) failure ran
      exact .inl rfl
    | ok moved =>
      obtain ⟨new,coinOut⟩ := moved
      have swapped := swapBToA_ok.mp (call_ok.mp ran)
      have priced := Math.getAmountOut_ok.mp swapped.priced
      exact .inr ⟨_,_,rfl,priced.2⟩

end Pools

end SuiArbitrage.Move
