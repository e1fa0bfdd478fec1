import Mathlib.Data.List.Sort
import Mathlib.Order.Lattice

/-! A window of a list that is sorted by a key, as many items as fit around the place of
a given key. Whatever the density, it reaches that place from both sides. -/
namespace SortedWindow

universe u v
variable {α : Type u} {κ : Type v} [LinearOrder κ] (key : α → κ)

/-- The index of the first item whose key is not below the center. -/
def partitionPoint (items : List α) (center : κ) : ℕ := items.findIdx fun item => !decide (key item < center)

def window (items : List α) (center : κ) (size : ℕ) : List α :=
  if items.length ≤ size then items
  else
    let start := partitionPoint key items center - size / 2
    let stop := min (start + size) items.length
    (items.take stop).drop (stop - size)

variable {key} {items low high : List α} {center : κ}

theorem partitionPoint_le (split : items = low ++ high) (above : ∀ item ∈ high, center < key item) :
    partitionPoint key items center ≤ low.length := by
  by_contra beyond
  have beyond := not_le.mp beyond
  have inside : low.length < items.length := beyond.trans_le List.findIdx_le_length
  have before := List.not_of_lt_findIdx beyond
  subst split
  have nonempty : 0 < high.length := by simpa using inside
  rw [List.getElem_append_right le_rfl] at before
  simp only [Bool.not_eq_false',decide_eq_true_eq] at before
  exact absurd before (not_lt.mpr (above _ (List.getElem_mem _)).le)

theorem length_le_partitionPoint (increasing : items.Pairwise (key · < key ·)) (split : items = low ++ high)
    (below : ∀ item ∈ low, key item ≤ center) : low.length ≤ partitionPoint key items center + 1 := by
  by_contra short
  have short := not_le.mp short
  have total : items.length = low.length + high.length := by rw [split,List.length_append]
  have first : partitionPoint key items center < items.length := by omega
  have second : partitionPoint key items center + 1 < items.length := by omega
  have reached : ¬ key (items[partitionPoint key items center]) < center := by
    have found : (!decide (key (items[partitionPoint key items center]) < center)) = true :=
      List.findIdx_getElem (w := first)
    simpa only [Bool.not_eq_true',decide_eq_false_iff_not] using found
  have later := List.pairwise_iff_getElem.mp increasing _ _ first second (Nat.lt_succ_self _)
  have inLow : key (items[partitionPoint key items center + 1]) ≤ center := by
    subst split
    rw [List.getElem_append_left short]
    exact below _ (List.getElem_mem _)
  exact reached (later.trans_le inLow)

theorem exists_split (increasing : items.Pairwise (key · < key ·)) (center : κ) :
    ∃ low high, items = low ++ high ∧ (∀ item ∈ low, key item ≤ center) ∧ ∀ item ∈ high, center < key item := by
  induction items with
  | nil => exact ⟨[],[],rfl,by simp,by simp⟩
  | cons item items ih =>
    obtain ⟨first,increasing⟩ := List.pairwise_cons.mp increasing
    by_cases below : key item ≤ center
    · obtain ⟨low,high,rfl,lower,upper⟩ := ih increasing
      exact ⟨item :: low,high,rfl,List.forall_mem_cons.mpr ⟨below,lower⟩,upper⟩
    · have above := not_le.mp below
      refine ⟨[],item :: items,rfl,by simp,List.forall_mem_cons.mpr ⟨above,?_⟩⟩
      intro later member
      exact above.trans (first later member)

/-- The window ends the part up to the center and begins the part above it. -/
theorem window_split {size : ℕ} (positive : 0 < size) (increasing : items.Pairwise (key · < key ·))
    (split : items = low ++ high) (below : ∀ item ∈ low, key item ≤ center)
    (above : ∀ item ∈ high, center < key item) :
    ∃ before after, window key items center size = low.drop before ++ high.take after := by
  have upper := partitionPoint_le split above
  have lower := length_le_partitionPoint increasing split below
  have total : items.length = low.length + high.length := by rw [split,List.length_append]
  unfold window
  split
  · refine ⟨0,high.length,?_⟩
    rw [List.drop_zero,List.take_length,split]
  · rename_i long
    have room := not_le.mp long
    let stop := min (partitionPoint key items center - size / 2 + size) items.length
    have reaches : low.length ≤ stop := by omega
    have starts : stop - size ≤ low.length := by omega
    refine ⟨stop - size,stop - low.length,?_⟩
    change (items.take stop).drop (stop - size) = _
    rw [split,List.take_append,List.take_of_length_le reaches,List.drop_append,
      show stop - size - low.length = 0 by omega,List.drop_zero]

variable (key center) in
theorem window_ne_nil {size : ℕ} (positive : 0 < size) (nonempty : items ≠ []) : window key items center size ≠ [] := by
  unfold window
  split
  · exact nonempty
  · rename_i long
    have place : items.findIdx (fun item => !decide (key item < center)) ≤ items.length := List.findIdx_le_length
    intro empty
    have none := congrArg List.length empty
    simp only [List.length_drop,List.length_take,List.length_nil] at none
    omega

theorem window_infix (items : List α) (center : κ) (size : ℕ) : window key items center size <:+: items := by
  unfold window
  split
  · exact List.infix_rfl
  · exact (List.drop_suffix _ _).isInfix.trans (List.take_prefix _ _).isInfix

theorem window_map {β : Type*} (f : β → α) (items : List β) (center : κ) (size : ℕ) :
    window key (items.map f) center size = (window (key ∘ f) items center size).map f := by
  have place : partitionPoint key (items.map f) center = partitionPoint (key ∘ f) items center :=
    List.findIdx_map ..
  unfold window
  rw [place,List.length_map,apply_ite (List.map f),List.map_drop,List.map_take]

variable (key) in
theorem insertionSort_of_perm {listed : List α} (increasing : items.Pairwise (key · < key ·))
    (listing : listed.Perm items) : listed.insertionSort (fun first second => key first ≤ key second) = items := by
  have total : Std.Total fun first second : α => key first ≤ key second := ⟨fun _ _ => le_total _ _⟩
  have trans : IsTrans α fun first second => key first ≤ key second := ⟨fun _ _ _ one two => one.trans two⟩
  have distinct : (items.map key).Nodup := List.pairwise_map.mpr (increasing.imp fun smaller => smaller.ne)
  refine ((List.perm_insertionSort _ _).trans listing).eq_of_pairwise ?_ (List.pairwise_insertionSort _ _)
    (increasing.imp le_of_lt)
  intro first second one two below above
  rw [List.mem_insertionSort,listing.mem_iff] at one
  exact List.inj_on_of_nodup_map distinct one two (le_antisymm below above)

end SortedWindow
