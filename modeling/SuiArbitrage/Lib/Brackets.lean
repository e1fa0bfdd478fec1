import Mathlib.Data.Int.Notation
import Mathlib.Data.List.Basic
import Mathlib.Tactic.Common

/-! Texts with brackets, cut at the commas that no bracket encloses. Cutting undoes the
joining of parts that are balanced and have commas inside their brackets only. -/
namespace Brackets

/-- The three marks of a bracketed text. -/
structure Marks (α : Type*) where
  opening : α
  closing : α
  comma : α
  opening_ne_closing : opening ≠ closing
  comma_ne_opening : comma ≠ opening
  comma_ne_closing : comma ≠ closing

variable {α : Type*} [DecidableEq α] (marks : Marks α)

/-- The parts of the text, of which `part` was read, at this depth. -/
def cut (depth : ℤ) (part : List α) : List α → List (List α)
  | [] => [part]
  | c :: rest =>
    if c = marks.opening then cut (depth + 1) (part ++ [c]) rest
    else if c = marks.closing then cut (depth - 1) (part ++ [c]) rest
    else if c = marks.comma ∧ depth = 0 then part :: cut depth [] rest
    else cut depth (part ++ [c]) rest

def joined (parts : List (List α)) : List α := (parts.intersperse [marks.comma]).flatten

def bracketed (inside : List α) : List α := marks.opening :: (inside ++ [marks.closing])

/-- Every bracket is closed. Outside of the brackets there are commas only where allowed. -/
inductive Balanced : (commas : Bool) → List α → Prop
  | nil {commas : Bool} : Balanced commas []
  | plain {commas : Bool} {c : α} {rest : List α} (opening : c ≠ marks.opening) (closing : c ≠ marks.closing)
    (comma : c = marks.comma → commas = true) (tail : Balanced commas rest) : Balanced commas (c :: rest)
  | nested {commas : Bool} {inside rest : List α} (inner : Balanced true inside) (tail : Balanced commas rest) :
    Balanced commas (bracketed marks inside ++ rest)

variable {marks} {commas : Bool} {text rest part inside : List α} {depth : ℤ} {parts : List (List α)}

omit [DecidableEq α] in
theorem Balanced.append (first : Balanced marks commas text) (second : Balanced marks commas rest) :
    Balanced marks commas (text ++ rest) := by
  induction first with
  | nil => exact second
  | plain opening closing comma _ ih => exact .plain opening closing comma (ih second)
  | nested inner _ _ ih =>
    rw [List.append_assoc]
    exact .nested inner (ih second)

omit [DecidableEq α] in
theorem balanced_of_plain (plain : ∀ c ∈ text, c ≠ marks.opening ∧ c ≠ marks.closing ∧ c ≠ marks.comma) :
    Balanced marks commas text := by
  induction text with
  | nil => exact .nil
  | cons c rest ih =>
    obtain ⟨⟨opening,closing,comma⟩,plain⟩ := List.forall_mem_cons.mp plain
    exact .plain opening closing (fun same => absurd same comma) (ih plain)

omit [DecidableEq α] in
theorem balanced_bracketed (inner : Balanced marks true inside) : Balanced marks commas (bracketed marks inside) := by
  simpa using Balanced.nested inner .nil

omit [DecidableEq α] in
/-- Parts are joined to a text with commas. -/
theorem balanced_joined (each : ∀ part ∈ parts, Balanced marks true part) : Balanced marks true (joined marks parts) := by
  induction parts with
  | nil => exact .nil
  | cons part others ih =>
    obtain ⟨first,later⟩ := List.forall_mem_cons.mp each
    cases others with
    | nil => simpa [joined] using first
    | cons second more =>
      have tail : Balanced marks true (marks.comma :: joined marks (second :: more)) :=
        .plain marks.comma_ne_opening marks.comma_ne_closing (fun _ => rfl) (ih later)
      simpa [joined] using first.append tail

/-- A balanced text goes into the part as a whole. -/
theorem cut_balanced (balanced : Balanced marks commas text) (deep : 0 ≤ depth) (allowed : commas = true → 0 < depth)
    (rest : List α) : cut marks depth part (text ++ rest) = cut marks depth (part ++ text) rest := by
  induction balanced generalizing depth part rest with
  | nil => simp
  | @plain commas c tail opening closing comma _ ih =>
    have uncut : ¬ (c = marks.comma ∧ depth = 0) := fun both => Int.ne_of_gt (allowed (comma both.1)) both.2
    rw [List.cons_append,cut,if_neg opening,if_neg closing,if_neg uncut,ih deep allowed]
    simp
  | @nested commas inside tail _ _ inner ih =>
    have closes : marks.closing ≠ marks.opening := marks.opening_ne_closing.symm
    have opened : bracketed marks inside ++ tail ++ rest = marks.opening :: (inside ++ (marks.closing :: (tail ++ rest))) := by
      simp [bracketed]
    rw [opened,cut,if_pos rfl,inner (by omega) (fun _ => by omega),cut,if_neg closes,if_pos rfl,Int.add_sub_cancel,ih deep allowed]
    simp [bracketed]

theorem cut_joined (each : ∀ part ∈ parts, Balanced marks false part) (some_part : parts ≠ []) :
    cut marks 0 [] (joined marks parts) = parts := by
  induction parts with
  | nil => exact absurd rfl some_part
  | cons part others ih =>
    obtain ⟨first,later⟩ := List.forall_mem_cons.mp each
    cases others with
    | nil =>
      have whole : cut marks 0 [] (part ++ []) = cut marks 0 ([] ++ part) [] := cut_balanced first (Int.le_refl 0) nofun []
      simpa [joined,cut] using whole
    | cons second more =>
      have shape : joined marks (part :: second :: more) = part ++ marks.comma :: joined marks (second :: more) := by
        simp [joined]
      rw [shape,cut_balanced first (Int.le_refl 0) nofun,cut,if_neg marks.comma_ne_opening,if_neg marks.comma_ne_closing,
        if_pos ⟨rfl,rfl⟩,ih later (List.cons_ne_nil _ _),List.nil_append]

end Brackets
