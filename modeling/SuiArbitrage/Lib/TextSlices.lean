import Mathlib.Data.String.Basic
import Mathlib.Tactic.Common

/-! Slices of a text by byte offsets. A slice is defined only where both offsets stand
between two characters. -/
namespace TextSlices
open String (utf8Len)

/-- The text after its first bytes. -/
def dropBytes : ℕ → List Char → Option (List Char)
  | 0, text => some text
  | _ + 1, [] => none
  | count + 1, c :: rest => if c.utf8Size ≤ count + 1 then dropBytes (count + 1 - c.utf8Size) rest else none

/-- The first bytes of the text. -/
def takeBytes : ℕ → List Char → Option (List Char)
  | 0, _ => some []
  | _ + 1, [] => none
  | count + 1, c :: rest =>
    if c.utf8Size ≤ count + 1 then (takeBytes (count + 1 - c.utf8Size) rest).map (c :: ·) else none

def slice (text : List Char) (first last : ℕ) : Option (List Char) :=
  (dropBytes first text).bind (takeBytes (last - first))

variable {text front rest : List Char} {c : Char} {count more first last : ℕ}

@[simp] theorem dropBytes_zero : dropBytes 0 text = some text := by
  cases text <;> rfl

@[simp] theorem takeBytes_zero : takeBytes 0 text = some [] := by
  cases text <;> rfl

theorem dropBytes_cons : dropBytes (c.utf8Size + count) (c :: rest) = dropBytes count rest := by
  obtain ⟨more,total⟩ := Nat.exists_eq_add_one_of_ne_zero (Nat.add_pos_left c.utf8Size_pos count).ne'
  rw [total,dropBytes,← total,if_pos (Nat.le_add_right _ _),Nat.add_sub_cancel_left]

theorem takeBytes_cons : takeBytes (c.utf8Size + count) (c :: rest) = (takeBytes count rest).map (c :: ·) := by
  obtain ⟨more,total⟩ := Nat.exists_eq_add_one_of_ne_zero (Nat.add_pos_left c.utf8Size_pos count).ne'
  rw [total,takeBytes,← total,if_pos (Nat.le_add_right _ _),Nat.add_sub_cancel_left]

theorem dropBytes_append : dropBytes (utf8Len front + count) (front ++ rest) = dropBytes count rest := by
  induction front generalizing count with
  | nil => simp
  | cons c front ih => rw [String.utf8Len_cons,Nat.add_comm _ c.utf8Size,Nat.add_assoc,List.cons_append,dropBytes_cons,ih]

theorem takeBytes_append : takeBytes (utf8Len front) (front ++ rest) = some front := by
  induction front with
  | nil => simp
  | cons c front ih => rw [String.utf8Len_cons,Nat.add_comm,List.cons_append,takeBytes_cons,ih,Option.map_some]

theorem takeBytes_some : takeBytes count text = some front ↔ ∃ rest, text = front ++ rest ∧ utf8Len front = count := by
  refine ⟨fun taken => ?_,fun split => ?_⟩
  · induction text generalizing count front with
    | nil =>
      cases count with
      | zero =>
        obtain rfl := Option.some.inj taken
        exact ⟨[],rfl,rfl⟩
      | succ count => cases taken
    | cons c text ih =>
      cases count with
      | zero =>
        obtain rfl := Option.some.inj taken
        exact ⟨c :: text,rfl,rfl⟩
      | succ count =>
        rw [takeBytes] at taken
        split at taken
        · rename_i fits
          obtain ⟨tail,tail_taken,rfl⟩ := Option.map_eq_some_iff.mp taken
          obtain ⟨rest,rfl,total⟩ := ih tail_taken
          exact ⟨rest,rfl,by rw [String.utf8Len_cons,total,Nat.sub_add_cancel fits]⟩
        · cases taken
  · obtain ⟨rest,rfl,rfl⟩ := split
    exact takeBytes_append

/-- Behind a front part a slice is one of the rest. -/
theorem slice_append : slice (front ++ rest) (utf8Len front + first) (utf8Len front + last) = slice rest first last := by
  rw [slice,slice,dropBytes_append,Nat.add_sub_add_left]

end TextSlices
