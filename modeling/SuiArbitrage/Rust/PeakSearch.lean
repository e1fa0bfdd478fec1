import SuiArbitrage.Rust.BestSize

/-! The size optimizer on an objective that always answers: on which of them it
returns at all, and that it finds the peak of one that rises and then falls. -/
namespace SuiArbitrage.Rust.Sizing
open MachineWord Fallible TernarySearch

/-- An objective that neither panics nor diverges. -/
def answers (f : U64 → Option ℤ) (x : U64) : Rust (Option ℤ) := .ok (f x)

/-- The search returns, and what it returns is a size of the range with its value. -/
def Settles (build : Build) (f : U64 → Option ℤ) (lo hi : U64) : Prop :=
  ∃ result, ternaryMax build (answers f) lo hi = .ok result ∧
    ∀ x value, result = some (x,value) → lo ≤ x ∧ x ≤ hi ∧ f x = some value

/-- Whatever is feasible leaves everything smaller feasible. -/
def FeasiblePrefix (f : U64 → Option ℤ) (lo hi : U64) : Prop :=
  ∀ x y, lo ≤ x → x ≤ y → y ≤ hi → (f y).isSome → (f x).isSome

/-- Over the feasible sizes the values rise strictly up to `peak` and fall strictly
after it. -/
structure RisesThenFalls (f : U64 → Option ℤ) (lo hi peak : U64) : Prop where
  low : lo ≤ peak
  high : peak ≤ hi
  rises : ∀ x y, lo ≤ x → x < y → y ≤ peak → ∀ u v, f x = some u → f y = some v → u < v
  falls : ∀ x y, peak ≤ x → x < y → y ≤ hi → ∀ u v, f x = some u → f y = some v → v < u

section search
variable {build : Build} {f : U64 → Option ℤ} {lo hi : U64} {rounds : ℕ}

/-- Where feasibility is a prefix, the bisection ends at its last size. -/
theorem bisect_boundary {boundary : U64} (ordered : lo < hi) (closed : FeasiblePrefix f lo hi)
    (first : (f lo).isSome) (last : f hi = none) (ran : bisect build (answers f) rounds lo hi = .ok boundary) :
    (f boundary).isSome ∧ ∀ x, boundary < x → x ≤ hi → f x = none := by
  induction rounds generalizing lo hi with
  | zero => cases ran
  | succ rounds ih =>
    by_cases wide : 1 < hi.val - lo.val
    · obtain ⟨mid,midVal,step⟩ := bisect_wide build (answers f) rounds ordered.le wide
      have low : lo < mid := by rw [Fin.lt_def]; omega
      have high : mid < hi := by rw [Fin.lt_def]; omega
      rw [step,answers,ok_bind] at ran
      split at ran
      · rename_i feasible
        exact ih high (fun x y after => closed x y (low.le.trans after)) feasible last ran
      · rename_i infeasible
        have missing := Option.not_isSome_iff_eq_none.mp infeasible
        obtain ⟨found,beyond⟩ := ih low (fun x y after within inside => closed x y after within (inside.trans high.le))
          first missing ran
        refine ⟨found,fun x after inside => ?_⟩
        rcases le_or_gt x mid with before | further
        · exact beyond x after before
        · by_contra feasible
          have smaller := closed mid x low.le further.le inside (Option.isSome_iff_ne_none.mpr feasible)
          exact absurd smaller infeasible
    · rw [bisect_near ordered.le wide] at ran
      obtain rfl := Except.ok.inj ran
      refine ⟨first,fun x after inside => ?_⟩
      rw [Fin.lt_def] at after
      rw [Fin.le_def] at inside
      obtain rfl : x = hi := Fin.ext (by omega)
      exact last

/-- Where feasibility is a prefix, the search runs over exactly that prefix. -/
theorem feasibleUpperBound_prefix {upper : U64} (ordered : lo ≤ hi) (closed : FeasiblePrefix f lo hi)
    (bounded : feasibleUpperBound build (answers f) lo hi = .ok (some upper)) :
    lo ≤ upper ∧ upper ≤ hi ∧ ∀ x, lo ≤ x → x ≤ hi → ((f x).isSome ↔ x ≤ upper) := by
  have ends : lo ≤ upper ∧ upper ≤ hi ∧ (f upper).isSome ∧ ∀ x, upper < x → x ≤ hi → f x = none := by
    cases last : f hi with
    | some value =>
      rw [feasibleUpperBound,answers,last,ok_bind] at bounded
      obtain rfl := Option.some.inj (Except.ok.inj bounded)
      refine ⟨ordered,le_rfl,by rw [last]; rfl,fun x after inside => ?_⟩
      exact absurd inside (not_le.mpr after)
    | none =>
      rw [feasibleUpperBound,answers,last,ok_bind] at bounded
      obtain ⟨least,low,ran⟩ := andThen_some.mp bounded
      obtain ⟨boundary,searched,returned⟩ := bind_ok.mp ran
      obtain rfl := Option.some.inj (Except.ok.inj returned)
      have first : f lo = some least := Except.ok.inj low
      have distinct : lo ≠ hi := by
        intro same
        rw [same,last] at first
        cases first
      have strict := lt_of_le_of_ne ordered distinct
      obtain ⟨above,below⟩ := bisect_ok strict searched
      obtain ⟨found,beyond⟩ := bisect_boundary strict closed (by rw [first]; rfl) last searched
      exact ⟨above,below.le,found,beyond⟩
  obtain ⟨above,below,found,beyond⟩ := ends
  refine ⟨above,below,fun x low high => ⟨fun feasible => ?_,fun inside => closed x upper low inside below found⟩⟩
  by_contra further
  rw [beyond x (not_le.mp further) high] at feasible
  cases feasible

theorem feasibleUpperBound_none (bounded : feasibleUpperBound build (answers f) lo hi = .ok none) : f lo = none := by
  cases last : f hi with
  | some value =>
    rw [feasibleUpperBound,answers,last,ok_bind] at bounded
    cases bounded
  | none =>
    rw [feasibleUpperBound,answers,last,ok_bind] at bounded
    rcases andThen_ok.mp bounded with ⟨missing,-⟩ | ⟨least,-,ran⟩
    · exact Except.ok.inj missing
    · obtain ⟨boundary,-,returned⟩ := bind_ok.mp ran
      cases returned

theorem RisesThenFalls.peaked {peak upper : U64} (shape : RisesThenFalls f lo hi peak) (within : upper ≤ hi)
    (reached : peak ≤ upper) (feasible : ∀ x, lo ≤ x → x ≤ upper → (f x).isSome) :
    Peaked (score (answers f)) peak.val lo.val upper.val := by
  have scored : ∀ x, lo.val ≤ x → x ≤ upper.val →
      ∃ y value, y.val = x ∧ f y = some value ∧ score (answers f) x = value := by
    intro x low high
    have small : x < 2^64 := high.trans_lt upper.isLt
    obtain ⟨value,valued⟩ := Option.isSome_iff_exists.mp (feasible ⟨x,small⟩ low high)
    have quoted : answers f ⟨x,small⟩ = .ok (some value) := congrArg Except.ok valued
    exact ⟨⟨x,small⟩,value,rfl,valued,score_of_ok rfl quoted⟩
  have top : peak.val ≤ upper.val := reached
  refine ⟨shape.low,reached,fun x y low ordered before => ?_,fun x y after ordered inside => ?_⟩
  · obtain ⟨x',u,same,valued,first⟩ := scored x low (by omega)
    obtain ⟨y',v,same',valued',second⟩ := scored y (by omega) (by omega)
    rw [first,second]
    exact shape.rises x' y' (by rw [Fin.le_def]; omega) (by rw [Fin.lt_def]; omega) (by rw [Fin.le_def]; omega)
      u v valued valued'
  · have low : lo.val ≤ peak.val := shape.low
    obtain ⟨x',u,same,valued,first⟩ := scored x (by omega) (by omega)
    obtain ⟨y',v,same',valued',second⟩ := scored y (by omega) inside
    rw [first,second]
    rcases Nat.eq_or_lt_of_le ordered with equal | strict
    · obtain rfl : x' = y' := Fin.ext (by omega)
      exact (Option.some.inj (valued'.symm.trans valued)).le
    · exact (shape.falls x' y' (by rw [Fin.le_def]; omega) (by rw [Fin.lt_def]; omega)
        (le_trans (show y' ≤ upper by rw [Fin.le_def]; omega) within) u v valued valued').le

/-- No other size has a value as large. -/
theorem RisesThenFalls.unique {peak x : U64} {value other : ℤ} (shape : RisesThenFalls f lo hi peak)
    (valued : f peak = some value) (low : lo ≤ x) (high : x ≤ hi) (found : f x = some other)
    (reaches : value ≤ other) : x = peak := by
  rcases lt_trichotomy x peak with before | same | after
  · exact absurd (shape.rises x peak low before le_rfl other value found valued) (not_lt.mpr reaches)
  · exact same
  · exact absurd (shape.falls peak x le_rfl after high value other valued found) (not_lt.mpr reaches)

/-- What the search returns is genuine, whatever the objective. -/
theorem ternaryMax_genuine {f : U64 → Rust (Option ℤ)} {found : U64 × ℤ}
    (ran : ternaryMax build f lo hi = .ok (some found)) :
    lo ≤ found.1 ∧ found.1 ≤ hi ∧ f found.1 = .ok (some found.2) := by
  unfold ternaryMax at ran
  split at ran
  · cases ran
  rename_i ordered
  obtain ⟨upper,bounded,ran⟩ := andThen_some.mp ran
  have ordered : lo ≤ hi := not_lt.mp ordered
  obtain ⟨_,-,source⟩ := feasibleUpperBound_some ordered bounded
  have within : lo ≤ upper ∧ upper ≤ hi := by
    rcases source with ⟨-,rfl⟩ | ⟨-,low,high⟩
    · exact ⟨ordered,le_rfl⟩
    · exact ⟨low,high.le⟩
  obtain ⟨⟨lo',hi'⟩,narrowed,scanned⟩ := bind_ok.mp ran
  obtain ⟨start,-,last,-⟩ := narrow_ok within.1 narrowed
  rcases (scan_ok scanned).genuine found rfl with nothing | ⟨low,high,valued⟩
  · cases nothing
  · exact ⟨start.trans low,(high.trans last).trans within.2,valued⟩

/-- Below the last `u64` the search returns on every objective that answers. -/
theorem ternaryMax_returns (build : Build) (f : U64 → Option ℤ) (lo : U64) (below : hi.val + 1 < 2^64) :
    ∃ result, ternaryMax build (answers f) lo hi = .ok result := by
  cases searched : ternaryMax build (answers f) lo hi with
  | ok result => exact ⟨result,rfl⟩
  | error fault =>
    rcases ternaryMax_error searched with ⟨x,-,-,faulty⟩ | ⟨top,-⟩
    · cases faulty
    · omega

/-- On every objective the search returns unless the range ends at the last `u64`, that
size is feasible, and no comparison at the thirds leads away from it. -/
theorem settles_iff (build : Build) (f : U64 → Option ℤ) (lo hi : U64) :
    Settles build f lo hi ↔
      ¬ (lo ≤ hi ∧ hi.val + 1 = 2^64 ∧ (f hi).isSome ∧ Climbs (answers f) hi lo) := by
  constructor
  · intro ⟨result,searched,_⟩ ⟨ordered,top,feasible,climbs⟩
    obtain ⟨value,valued⟩ := Option.isSome_iff_exists.mp feasible
    exact ternaryMax_climbs ordered top (congrArg Except.ok valued) climbs searched
  · intro stays
    cases searched : ternaryMax build (answers f) lo hi with
    | error fault =>
      rcases ternaryMax_error searched with ⟨x,-,-,faulty⟩ | ⟨top,⟨value,feasible⟩,climbs⟩
      · cases faulty
      · have ordered : lo ≤ hi := by
          by_contra reversed
          rw [ternaryMax,if_pos (not_le.mp reversed)] at searched
          cases searched
        have valued : f hi = some value := Except.ok.inj feasible
        exact absurd ⟨ordered,top,by rw [valued]; rfl,climbs⟩ stays
    | ok result =>
      refine ⟨result,searched,fun x value same => ?_⟩
      subst same
      obtain ⟨low,high,valued⟩ := ternaryMax_genuine searched
      exact ⟨low,high,Except.ok.inj valued⟩

/-- At the last `u64` the counter of the scan overflows; where it wraps, the scan
starts again at nothing. -/
theorem constant_unsettled :
    let top : U64 := wrap 64 (2^64 - 1)
    ternaryMax .debug (answers fun _ => some 0) top top = .error (.panic (.arithmetic 64)) ∧
      ¬ Settles .debug (fun _ => some 0) top top ∧ ¬ Settles .release (fun _ => some 0) top top := by
  intro top
  have climbs : Climbs (answers fun _ => some 0) top top := .window (by omega)
  have last : top.val + 1 = 2^64 := by decide +kernel
  refine ⟨by decide +kernel,fun settled => ?_,fun settled => ?_⟩
  · obtain ⟨result,searched,-⟩ := settled
    exact ternaryMax_climbs le_rfl last rfl climbs searched
  · obtain ⟨result,searched,-⟩ := settled
    exact ternaryMax_climbs le_rfl last rfl climbs searched

/-- The peak of what rises and then falls over a prefix of feasible sizes is found,
and no step of the search overflows or underflows. -/
theorem ternaryMax_peak (build : Build) (f : U64 → Option ℤ) (ordered : lo ≤ hi) (below : hi.val + 1 < 2^64)
    (closed : FeasiblePrefix f lo hi) :
    (∀ peak value, f peak = some value → RisesThenFalls f lo hi peak →
      ternaryMax build (answers f) lo hi = .ok (some (peak,value))) ∧
      (f lo = none → ternaryMax build (answers f) lo hi = .ok none) ∧
      ∃ result, ternaryMax .debug (answers f) lo hi = .ok result := by
  refine ⟨fun peak value valued shape => ?_,fun infeasible => ?_,ternaryMax_returns .debug f lo below⟩
  · obtain ⟨result,searched⟩ := ternaryMax_returns build f lo below
    rw [searched]
    rw [ternaryMax,if_neg (not_lt.mpr ordered),andThen_ok] at searched
    rcases searched with ⟨bounded,-⟩ | ⟨upper,bounded,searched⟩
    · have first := closed lo peak le_rfl shape.low shape.high (by rw [valued]; rfl)
      rw [feasibleUpperBound_none bounded] at first
      cases first
    · obtain ⟨above,within,feasible⟩ := feasibleUpperBound_prefix ordered closed bounded
      have reached : peak ≤ upper := (feasible peak shape.low shape.high).mp (by rw [valued]; rfl)
      have peaked := shape.peaked within reached fun x low high => (feasible x low (high.trans within)).mpr high
      obtain ⟨⟨lo',hi'⟩,narrowed,scanned⟩ := bind_ok.mp searched
      have inside := (narrow_keeps above narrowed peak).mpr peaked.keeps
      obtain ⟨-,covers,genuine⟩ := scan_ok scanned
      obtain ⟨found,same,reaches⟩ := covers peak value inside.1 inside.2 (congrArg Except.ok valued)
      obtain ⟨start,-,last,-⟩ := narrow_ok above narrowed
      rcases genuine found same with nothing | ⟨low,high,quoted⟩
      · cases nothing
      · have quoted : f found.1 = some found.2 := Except.ok.inj quoted
        have here := shape.unique valued (start.trans low) ((high.trans last).trans within) quoted reaches
        rw [here,valued] at quoted
        rw [same,← here,Option.some.inj quoted]
  · have bounded : feasibleUpperBound build (answers f) lo hi = .ok none := by
      have last : f hi = none := by
        by_contra feasible
        have first := closed lo hi le_rfl ordered le_rfl (Option.isSome_iff_ne_none.mpr feasible)
        rw [infeasible] at first
        cases first
      rw [feasibleUpperBound,answers,answers,last,infeasible]
      rfl
    rw [ternaryMax,if_neg (not_lt.mpr ordered),bounded]
    rfl

/-- A parabola of which only the sizes up to 90 are feasible. -/
def clippedParabola (x : U64) : Option ℤ := if x.val ≤ 90 then some (1000 - (x.val - 70)^2) else none

theorem clippedParabola_peak :
    ternaryMax .release (answers clippedParabola) 0 200 = .ok (some (70,1000)) ∧
      ∃ result, ternaryMax .debug (answers clippedParabola) 0 200 = .ok result := by
  have feasible : ∀ {x : U64} {u : ℤ}, clippedParabola x = some u → x.val ≤ 90 ∧ u = 1000 - (x.val - 70)^2 := by
    intro x u valued
    unfold clippedParabola at valued
    split at valued
    · rename_i small
      exact ⟨small,(Option.some.inj valued).symm⟩
    · cases valued
  have closed : FeasiblePrefix clippedParabola 0 200 := by
    intro x y _ ordered _ found
    obtain ⟨u,valued⟩ := Option.isSome_iff_exists.mp found
    have small : x.val ≤ 90 := le_trans (Fin.le_def.mp ordered) (feasible valued).1
    rw [clippedParabola,if_pos small]
    rfl
  have shape : RisesThenFalls clippedParabola 0 200 70 := by
    refine ⟨by decide,by decide,fun x y _ ordered before u v first second => ?_,
      fun x y after ordered _ u v first second => ?_⟩
    · have before : y.val ≤ 70 := before
      rw [Fin.lt_def] at ordered
      rw [(feasible first).2,(feasible second).2]
      have gap : (x.val : ℤ) + 1 ≤ y.val := by exact_mod_cast ordered
      have left : (y.val : ℤ) ≤ 70 := by exact_mod_cast before
      nlinarith
    · have after : 70 ≤ x.val := after
      rw [Fin.lt_def] at ordered
      rw [(feasible first).2,(feasible second).2]
      have gap : (x.val : ℤ) + 1 ≤ y.val := by exact_mod_cast ordered
      have right : (70 : ℤ) ≤ x.val := by exact_mod_cast after
      nlinarith
  obtain ⟨found,-,returned⟩ := ternaryMax_peak .release clippedParabola (by decide) (by decide) closed
  exact ⟨found 70 1000 (by decide) shape,returned⟩

end search

end SuiArbitrage.Rust.Sizing
