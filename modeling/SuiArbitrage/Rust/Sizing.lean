import SuiArbitrage.Lib.FirstMax
import SuiArbitrage.Rust.Core
import Mathlib.Order.Fin.Basic

/-! The size optimizer of `offchain/src/sizing.rs`. The objective is a quote that
may itself fail. A loop runs on a number of rounds that none of its terminating runs
can use up; a run that does use them up never ends. -/
namespace SuiArbitrage.Rust.Sizing
open MachineWord Fallible

def i128Min : ℤ := -2^127

section model
variable (build : Build) (f : U64 → Rust (Option ℤ))

def bisect : ℕ → U64 → U64 → Rust U64
  | 0,_,_ => .error .diverges
  | rounds + 1,lo,hi => do
    let width ← sub build hi lo
    if 1 < width.val then
      let mid ← add build lo (← div width 2)
      if (← f mid).isSome then bisect rounds mid hi
      else bisect rounds lo mid
    else return lo

def feasibleUpperBound (lo hi : U64) : Rust (Option U64) := do
  if (← f hi).isSome then
    return some hi
  andThen (f lo) fun _ => do
    return some (← bisect build f (2^64) lo hi)

def narrow : ℕ → U64 → U64 → Rust (U64 × U64)
  | 0,_,_ => .error .diverges
  | rounds + 1,lo,hi => do
    let width ← sub build hi lo
    if 2 < width.val then
      let third ← div width 3
      let m1 ← add build lo third
      let m2 ← sub build hi third
      let v1 := (← f m1).getD i128Min
      let v2 := (← f m2).getD i128Min
      if v1 < v2 then narrow rounds (← add build m1 1) hi
      else narrow rounds lo (← sub build m2 1)
    else return (lo,hi)

/-- The exact scan of the last window. In a release build its counter wraps. -/
def scan (hi : U64) : ℕ → U64 → Option (U64 × ℤ) → Rust (Option (U64 × ℤ))
  | 0,_,_ => .error .diverges
  | rounds + 1,x,best => do
    if x ≤ hi then
      let best := match ← f x with
        | none => best
        | some v => FirstMax.keep Prod.snd best (x,v)
      scan hi rounds (← add build x 1) best
    else return best

def ternaryMax (lo hi : U64) : Rust (Option (U64 × ℤ)) := do
  if hi < lo then
    return none
  andThen (feasibleUpperBound build f lo hi) fun hi => do
    let (lo,hi) ← narrow build f (2^64) lo hi
    scan build f hi (2^65) lo none

end model

/-- The search from `lo` never leaves the upper end of its window: wherever the
window is wider than three points, the objective at its lower third is below the
objective at its upper third. -/
inductive Climbs (f : U64 → Rust (Option ℤ)) (hi : U64) : U64 → Prop
  | window {lo : U64} (near : hi.val - lo.val ≤ 2) : Climbs f hi lo
  | rise {lo m1 m2 next : U64} {v1 v2 : Option ℤ} (wide : 2 < hi.val - lo.val)
      (lower : m1.val = lo.val + (hi.val - lo.val) / 3) (upper : m2.val = hi.val - (hi.val - lo.val) / 3)
      (low : f m1 = .ok v1) (high : f m2 = .ok v2) (rising : v1.getD i128Min < v2.getD i128Min)
      (onward : next.val = m1.val + 1) (rest : Climbs f hi next) : Climbs f hi lo

section loops
variable {build : Build} {f : U64 → Rust (Option ℤ)} {lo hi : U64} {rounds : ℕ}

theorem bisect_wide (build : Build) (f : U64 → Rust (Option ℤ)) (rounds : ℕ) (ordered : lo ≤ hi)
    (wide : 1 < hi.val - lo.val) :
    ∃ mid : U64, mid.val = lo.val + (hi.val - lo.val) / 2 ∧ bisect build f (rounds + 1) lo hi =
      f mid >>= fun found => if found.isSome then bisect build f rounds mid hi else bisect build f rounds lo mid := by
  have highest := hi.isLt
  refine ⟨⟨lo.val + (hi.val - lo.val) / 2,by omega⟩,rfl,?_⟩
  have half : div (⟨hi.val - lo.val,by omega⟩ : U64) 2 = .ok ⟨(hi.val - lo.val) / 2,by omega⟩ :=
    div_of_pos (by norm_num)
  have mid : add build lo ⟨(hi.val - lo.val) / 2,by omega⟩ =
      .ok ⟨lo.val + (hi.val - lo.val) / 2,by omega⟩ := add_of_lt (by simp only []; omega)
  rw [bisect,sub_of_le ordered,ok_bind,if_pos wide,half,ok_bind,mid,ok_bind]

theorem bisect_near (ordered : lo ≤ hi) (near : ¬ 1 < hi.val - lo.val) :
    bisect build f (rounds + 1) lo hi = .ok lo := by
  rw [bisect,sub_of_le ordered,ok_bind,if_neg near,pure_eq_ok]

theorem bisect_ok {result : U64} (ordered : lo < hi) (ran : bisect build f rounds lo hi = .ok result) :
    lo ≤ result ∧ result < hi := by
  induction rounds generalizing lo hi with
  | zero => cases ran
  | succ rounds ih =>
    by_cases wide : 1 < hi.val - lo.val
    · obtain ⟨mid,midVal,step⟩ := bisect_wide build f rounds ordered.le wide
      have low : lo < mid := by rw [Fin.lt_def]; omega
      have high : mid < hi := by rw [Fin.lt_def]; omega
      rw [step,bind_ok] at ran
      obtain ⟨found,-,ran⟩ := ran
      split at ran
      · obtain ⟨first,second⟩ := ih high ran
        exact ⟨low.le.trans first,second⟩
      · obtain ⟨first,second⟩ := ih low ran
        exact ⟨first,second.trans high⟩
    · rw [bisect_near ordered.le wide] at ran
      obtain rfl := Except.ok.inj ran
      exact ⟨le_rfl,ordered⟩

theorem bisect_error {fault : Fault} (ordered : lo < hi) (enough : hi.val - lo.val ≤ rounds)
    (failed : bisect build f rounds lo hi = .error fault) : ∃ x, lo ≤ x ∧ x ≤ hi ∧ f x = .error fault := by
  induction rounds generalizing lo hi with
  | zero =>
    rw [Fin.lt_def] at ordered
    omega
  | succ rounds ih =>
    by_cases wide : 1 < hi.val - lo.val
    · obtain ⟨mid,midVal,step⟩ := bisect_wide build f rounds ordered.le wide
      have low : lo < mid := by rw [Fin.lt_def]; omega
      have high : mid < hi := by rw [Fin.lt_def]; omega
      rw [step] at failed
      rcases bind_error.mp failed with faulty | ⟨found,-,failed⟩
      · exact ⟨mid,low.le,high.le,faulty⟩
      · split at failed
        · obtain ⟨x,above,below,faulty⟩ := ih high (by omega) failed
          exact ⟨x,low.le.trans above,below,faulty⟩
        · obtain ⟨x,above,below,faulty⟩ := ih low (by omega) failed
          exact ⟨x,above,below.trans high.le,faulty⟩
    · rw [bisect_near ordered.le wide] at failed
      cases failed

theorem feasibleUpperBound_some {result : U64} (ordered : lo ≤ hi)
    (ran : feasibleUpperBound build f lo hi = .ok (some result)) :
    (∃ found, f hi = .ok found ∧ (found.isSome ∧ result = hi ∨ found = none ∧ lo ≤ result ∧ result < hi)) := by
  rw [feasibleUpperBound,bind_ok] at ran
  obtain ⟨found,quoted,ran⟩ := ran
  refine ⟨found,quoted,?_⟩
  split at ran
  · rename_i feasible
    exact .inl ⟨feasible,(Option.some.inj (Except.ok.inj ran)).symm⟩
  · rename_i infeasible
    obtain rfl : found = none := Option.not_isSome_iff_eq_none.mp infeasible
    obtain ⟨least,low,searched⟩ := andThen_some.mp ran
    have distinct : lo ≠ hi := by
      rintro rfl
      rw [quoted] at low
      cases Except.ok.inj low
    rw [bind_ok] at searched
    obtain ⟨boundary,searched,returned⟩ := searched
    obtain rfl := Option.some.inj (Except.ok.inj returned)
    exact .inr ⟨rfl,bisect_ok (lt_of_le_of_ne ordered distinct) searched⟩

theorem feasibleUpperBound_error {fault : Fault} (ordered : lo ≤ hi)
    (failed : feasibleUpperBound build f lo hi = .error fault) : ∃ x, lo ≤ x ∧ x ≤ hi ∧ f x = .error fault := by
  unfold feasibleUpperBound at failed
  rcases bind_error.mp failed with faulty | ⟨found,quoted,failed⟩
  · exact ⟨hi,ordered,le_rfl,faulty⟩
  · split at failed
    · cases failed
    · rename_i infeasible
      obtain rfl : found = none := Option.not_isSome_iff_eq_none.mp infeasible
      rcases andThen_error.mp failed with low | ⟨least,low,failed⟩
      · exact ⟨lo,le_rfl,ordered,low⟩
      · have distinct : lo ≠ hi := by
          rintro rfl
          rw [quoted] at low
          cases Except.ok.inj low
        rcases bind_error.mp failed with searched | ⟨boundary,-,failed⟩
        · exact bisect_error (lt_of_le_of_ne ordered distinct) (by omega) searched
        · cases failed

theorem narrow_wide (build : Build) (f : U64 → Rust (Option ℤ)) (rounds : ℕ) (ordered : lo ≤ hi)
    (wide : 2 < hi.val - lo.val) :
    ∃ m1 m2 next previous : U64, m1.val = lo.val + (hi.val - lo.val) / 3 ∧
      m2.val = hi.val - (hi.val - lo.val) / 3 ∧ next.val = m1.val + 1 ∧ previous.val + 1 = m2.val ∧
      narrow build f (rounds + 1) lo hi = f m1 >>= fun v1 => f m2 >>= fun v2 =>
        if v1.getD i128Min < v2.getD i128Min then narrow build f rounds next hi
        else narrow build f rounds lo previous := by
  have highest := hi.isLt
  refine ⟨⟨lo.val + (hi.val - lo.val) / 3,by omega⟩,⟨hi.val - (hi.val - lo.val) / 3,by omega⟩,
    ⟨lo.val + (hi.val - lo.val) / 3 + 1,by omega⟩,⟨hi.val - (hi.val - lo.val) / 3 - 1,by omega⟩,
    rfl,rfl,rfl,by simp only []; omega,?_⟩
  have third : div (⟨hi.val - lo.val,by omega⟩ : U64) 3 = .ok ⟨(hi.val - lo.val) / 3,by omega⟩ :=
    div_of_pos (by norm_num)
  have m1 : add build lo ⟨(hi.val - lo.val) / 3,by omega⟩ =
      .ok ⟨lo.val + (hi.val - lo.val) / 3,by omega⟩ := add_of_lt (by simp only []; omega)
  have m2 : sub build hi ⟨(hi.val - lo.val) / 3,by omega⟩ =
      .ok ⟨hi.val - (hi.val - lo.val) / 3,by omega⟩ := sub_of_le (by simp only []; omega)
  have next : add build (⟨lo.val + (hi.val - lo.val) / 3,by omega⟩ : U64) 1 =
      .ok ⟨lo.val + (hi.val - lo.val) / 3 + 1,by omega⟩ :=
    add_of_lt (show lo.val + (hi.val - lo.val) / 3 + 1 < 2^64 by omega)
  have previous : sub build (⟨hi.val - (hi.val - lo.val) / 3,by omega⟩ : U64) 1 =
      .ok ⟨hi.val - (hi.val - lo.val) / 3 - 1,by omega⟩ :=
    sub_of_le (show 1 ≤ hi.val - (hi.val - lo.val) / 3 by omega)
  rw [narrow,sub_of_le ordered,ok_bind,if_pos wide,third,ok_bind,m1,ok_bind,m2,ok_bind,next,previous]
  simp only [ok_bind]

theorem narrow_near (ordered : lo ≤ hi) (near : ¬ 2 < hi.val - lo.val) :
    narrow build f (rounds + 1) lo hi = .ok (lo,hi) := by
  rw [narrow,sub_of_le ordered,ok_bind,if_neg near,pure_eq_ok]

/-- The window shrinks within its bounds, and keeps its upper end exactly where the
search climbs. -/
theorem narrow_ok {lo' hi' : U64} (ordered : lo ≤ hi) (ran : narrow build f rounds lo hi = .ok (lo',hi')) :
    lo ≤ lo' ∧ lo' ≤ hi' ∧ hi' ≤ hi ∧ (hi' = hi ↔ Climbs f hi lo) := by
  induction rounds generalizing lo hi with
  | zero => cases ran
  | succ rounds ih =>
    by_cases wide : 2 < hi.val - lo.val
    · obtain ⟨m1,m2,next,previous,lower,upper,onward,back,step⟩ :=
        narrow_wide build f rounds ordered wide
      rw [step] at ran
      simp only [bind_ok] at ran
      obtain ⟨v1,low,v2,high,ran⟩ := ran
      split at ran
      · rename_i rising
        obtain ⟨first,inner,last,top⟩ := ih (show next ≤ hi by rw [Fin.le_def]; omega) ran
        refine ⟨le_trans (show lo ≤ next by rw [Fin.le_def]; omega) first,inner,last,top.trans ?_⟩
        constructor
        · exact Climbs.rise wide lower upper low high rising onward
        · intro climbs
          cases climbs with
          | window near => omega
          | @rise _ m1' m2' next' _ _ _ lower' _ _ _ _ onward' rest =>
            obtain rfl : next' = next := Fin.ext (by omega)
            exact rest
      · rename_i falling
        obtain ⟨first,inner,last,-⟩ := ih (show lo ≤ previous by rw [Fin.le_def]; omega) ran
        have shorter : previous < hi := by rw [Fin.lt_def]; omega
        refine ⟨first,inner,last.trans shorter.le,?_⟩
        constructor
        · rintro rfl
          exact absurd last (not_le.mpr shorter)
        · intro climbs
          cases climbs with
          | window near => omega
          | @rise _ m1' m2' next' v1' v2' _ lower' upper' low' high' rising _ _ =>
            obtain rfl : m1' = m1 := Fin.ext (by omega)
            obtain rfl : m2' = m2 := Fin.ext (by omega)
            obtain rfl := Except.ok.inj (low.symm.trans low')
            obtain rfl := Except.ok.inj (high.symm.trans high')
            exact absurd rising falling
    · rw [narrow_near ordered wide] at ran
      obtain ⟨rfl,rfl⟩ := Prod.mk.inj (Except.ok.inj ran)
      refine ⟨le_rfl,ordered,le_rfl,?_⟩
      simp only [true_iff]
      exact .window (by omega)

theorem narrow_error {fault : Fault} (ordered : lo ≤ hi) (enough : hi.val - lo.val < rounds)
    (failed : narrow build f rounds lo hi = .error fault) : ∃ x, lo ≤ x ∧ x ≤ hi ∧ f x = .error fault := by
  induction rounds generalizing lo hi with
  | zero => omega
  | succ rounds ih =>
    by_cases wide : 2 < hi.val - lo.val
    · obtain ⟨m1,m2,next,previous,lower,upper,onward,back,step⟩ :=
        narrow_wide build f rounds ordered wide
      have first : lo ≤ m1 := by rw [Fin.le_def]; omega
      have middle : m1 ≤ m2 := by rw [Fin.le_def]; omega
      have last : m2 ≤ hi := by rw [Fin.le_def]; omega
      rw [step] at failed
      rcases bind_error.mp failed with low | ⟨v1,-,failed⟩
      · exact ⟨m1,first,middle.trans last,low⟩
      · rcases bind_error.mp failed with high | ⟨v2,-,failed⟩
        · exact ⟨m2,first.trans middle,last,high⟩
        · split at failed
          · have after : lo ≤ next := by rw [Fin.le_def]; omega
            obtain ⟨x,above,below,faulty⟩ := ih (show next ≤ hi by rw [Fin.le_def]; omega) (by omega) failed
            exact ⟨x,after.trans above,below,faulty⟩
          · have before : previous ≤ hi := by rw [Fin.le_def]; omega
            obtain ⟨x,above,below,faulty⟩ := ih (show lo ≤ previous by rw [Fin.le_def]; omega) (by omega) failed
            exact ⟨x,above,below.trans before,faulty⟩
    · rw [narrow_near ordered wide] at failed
      cases failed

/-- A window that ends at the last `u64` is never left: the counter overflows or wraps. -/
theorem scan_top (top : hi.val + 1 = 2^64) {x : U64} {best result : Option (U64 × ℤ)} :
    scan build f hi rounds x best ≠ .ok result := by
  induction rounds generalizing x best with
  | zero => exact nofun
  | succ rounds ih =>
    intro ran
    have inside : x ≤ hi := by rw [Fin.le_def]; omega
    rw [scan,if_pos inside] at ran
    simp only [bind_ok] at ran
    obtain ⟨value,-,next,-,ran⟩ := ran
    exact ih ran

theorem scan_error {fault : Fault} (below : hi.val + 1 < 2^64) {x : U64} (enough : hi.val + 1 - x.val < rounds)
    {best : Option (U64 × ℤ)} (failed : scan build f hi rounds x best = .error fault) :
    ∃ y, x ≤ y ∧ y ≤ hi ∧ f y = .error fault := by
  induction rounds generalizing x best with
  | zero => omega
  | succ rounds ih =>
    by_cases inside : x ≤ hi
    · have bound : x.val ≤ hi.val := inside
      have next : add build x 1 = .ok ⟨x.val + 1,by omega⟩ := add_of_lt (show x.val + 1 < 2^64 by omega)
      rw [scan,if_pos inside,next] at failed
      simp only [ok_bind] at failed
      rcases bind_error.mp failed with faulty | ⟨value,-,failed⟩
      · exact ⟨x,le_rfl,inside,faulty⟩
      · obtain ⟨y,after,last,faulty⟩ := ih (by simp only []; omega) failed
        exact ⟨y,le_trans (show x.val ≤ x.val + 1 by omega) after,last,faulty⟩
    · rw [scan,if_neg inside] at failed
      cases failed

end loops

section search
variable {build : Build} {f : U64 → Rust (Option ℤ)} {lo hi : U64}

/-- The search fails only where its objective does, or where it climbs to the last
`u64`. -/
theorem ternaryMax_error {fault : Fault} (failed : ternaryMax build f lo hi = .error fault) :
    (∃ x, lo ≤ x ∧ x ≤ hi ∧ f x = .error fault) ∨
      hi.val + 1 = 2^64 ∧ (∃ value, f hi = .ok (some value)) ∧ Climbs f hi lo := by
  unfold ternaryMax at failed
  split at failed
  · cases failed
  rename_i ordered
  have ordered : lo ≤ hi := not_lt.mp ordered
  rcases andThen_error.mp failed with bounded | ⟨upper,bounded,failed⟩
  · exact .inl (feasibleUpperBound_error ordered bounded)
  obtain ⟨found,quoted,upperEq⟩ := feasibleUpperBound_some ordered bounded
  have within : lo ≤ upper ∧ upper ≤ hi := by
    rcases upperEq with ⟨-,rfl⟩ | ⟨-,low,high⟩
    · exact ⟨ordered,le_rfl⟩
    · exact ⟨low,high.le⟩
  rcases bind_error.mp failed with narrowed | ⟨⟨lo',hi'⟩,narrowed,failed⟩
  · obtain ⟨x,above,below,faulty⟩ := narrow_error within.1 (by omega) narrowed
    exact .inl ⟨x,above,below.trans within.2,faulty⟩
  · obtain ⟨start,inner,last,top⟩ := narrow_ok within.1 narrowed
    by_cases below : hi'.val + 1 < 2^64
    · obtain ⟨x,above,inside,faulty⟩ := scan_error below (by omega) failed
      exact .inl ⟨x,start.trans above,(inside.trans last).trans within.2,faulty⟩
    · have lastVal : hi'.val ≤ upper.val := last
      have highVal : upper.val ≤ hi.val := within.2
      have highest := hi.isLt
      obtain rfl : hi' = upper := Fin.ext (by omega)
      obtain rfl : hi' = hi := Fin.ext (by omega)
      refine .inr ⟨by omega,?_,top.mp rfl⟩
      rcases upperEq with ⟨feasible,-⟩ | ⟨-,-,short⟩
      · obtain ⟨value,rfl⟩ := Option.isSome_iff_exists.mp feasible
        exact ⟨value,quoted⟩
      · exact absurd short (lt_irrefl _)

/-- Where it climbs to the last `u64` it never returns. -/
theorem ternaryMax_climbs (ordered : lo ≤ hi) (top : hi.val + 1 = 2^64) {value : ℤ}
    (feasible : f hi = .ok (some value)) (climbs : Climbs f hi lo) {result : Option (U64 × ℤ)} :
    ternaryMax build f lo hi ≠ .ok result := by
  intro ran
  have bounded : feasibleUpperBound build f lo hi = .ok (some hi) := by
    rw [feasibleUpperBound,feasible,ok_bind]
    rfl
  rw [ternaryMax,if_neg (not_lt.mpr ordered),bounded,ok_some_andThen,bind_ok] at ran
  obtain ⟨⟨lo',hi'⟩,narrowed,ran⟩ := ran
  obtain ⟨-,-,-,topIff⟩ := narrow_ok ordered narrowed
  obtain rfl := topIff.mpr climbs
  exact scan_top top ran

end search

end SuiArbitrage.Rust.Sizing
