import SuiArbitrage.Rust.CoinTypes

/-! The type arguments of a pool object. A type is rendered as a tree, whose arguments
may have spaces around them at any depth, and parsing returns those of the pool itself. -/
namespace SuiArbitrage.Rust.Ws
open MachineWord Fallible Brackets
open Liquidation (Trimmed spaces balanced_spaces trim_padded)

/-- A character of a name: no mark and no white space. -/
def nameChar (c : Char) : Bool := c ≠ '<' && c ≠ '>' && c ≠ ',' && !whiteSpace c

structure Name where
  chars : List Char
  some_char : chars ≠ []
  plain : ∀ c ∈ chars, nameChar c = true

mutual
/-- A name and its type arguments. A primitive type and a struct without parameters have
none, and a vector has one. -/
inductive MoveType
  | apply (name : Name) (args : TypeArgs)

/-- Type arguments, with the numbers of spaces before and after each. -/
inductive TypeArgs
  | nil
  | cons (before : ℕ) (first : MoveType) (after : ℕ) (rest : TypeArgs)
end

/-- The arguments in their brackets, which are left out where there are none. -/
def arguments (parts : List (List Char)) : List Char :=
  if parts = [] then [] else bracketed typeMarks (joined typeMarks parts)

mutual
def MoveType.text : MoveType → List Char
  | .apply name args => name.chars ++ arguments args.parts

def TypeArgs.parts : TypeArgs → List (List Char)
  | .nil => []
  | .cons before first after rest => (spaces before ++ first.text ++ spaces after) :: rest.parts
end

def TypeArgs.types : TypeArgs → List MoveType
  | .nil => []
  | .cons _ first _ rest => first :: rest.types

/-- The text before the brackets. -/
def poolName (package : {chars : List Char // '<' ∉ chars}) : List Char := package.val ++ "::pool::Pool".toList

def poolText (package : {chars : List Char // '<' ∉ chars}) (args : TypeArgs) : String :=
  .ofList (poolName package ++ bracketed typeMarks (joined typeMarks args.parts))

section types

theorem Name.balanced {commas : Bool} (name : Name) : Balanced typeMarks commas name.chars := by
  refine balanced_of_plain fun c member => ?_
  have plain := name.plain c member
  simp only [nameChar,Bool.and_eq_true,decide_eq_true_eq] at plain
  exact ⟨plain.1.1.1,plain.1.1.2,plain.1.2⟩

theorem Name.visible (name : Name) : ∀ c ∈ name.chars, whiteSpace c = false := by
  intro c member
  have plain := name.plain c member
  simp only [nameChar,Bool.and_eq_true,Bool.not_eq_true'] at plain
  exact plain.2

theorem balanced_arguments {commas : Bool} {parts : List (List Char)} (each : ∀ part ∈ parts, Balanced typeMarks true part) :
    Balanced typeMarks commas (arguments parts) := by
  unfold arguments
  split
  · exact .nil
  · exact balanced_bracketed (balanced_joined each)

mutual
/-- Outside of its brackets a type has no comma. -/
theorem MoveType.balanced {commas : Bool} : ∀ type : MoveType, Balanced typeMarks commas type.text
  | .apply name args => name.balanced.append (balanced_arguments args.balanced)

theorem TypeArgs.balanced {commas : Bool} : ∀ args : TypeArgs, ∀ part ∈ args.parts, Balanced typeMarks commas part
  | .nil => List.forall_mem_nil _
  | .cons before first after rest => List.forall_mem_cons.mpr
      ⟨((balanced_spaces before).append first.balanced).append (balanced_spaces after),rest.balanced⟩
end

theorem arguments_last {parts : List (List Char)} {c : Char} (last : c ∈ (arguments parts).getLast?) : c = '>' := by
  unfold arguments at last
  split at last
  · cases last
  · simp only [bracketed,← List.cons_append,List.getLast?_append] at last
    exact (Option.some.inj last).symm

theorem MoveType.trimmed (type : MoveType) : Trimmed type.text := by
  obtain ⟨name,args⟩ := type
  rw [MoveType.text]
  constructor
  · intro c first
    rw [List.head?_append_of_ne_nil _ name.some_char] at first
    exact name.visible c (List.mem_of_mem_head? first)
  · intro c last
    rw [List.getLast?_append] at last
    cases closes : (arguments args.parts).getLast? with
    | none =>
      rw [closes] at last
      exact name.visible c (List.mem_of_mem_getLast? last)
    | some d =>
      rw [closes] at last
      obtain rfl := Option.some.inj last
      rw [arguments_last closes]
      decide

theorem poolName_plain (package : {chars : List Char // '<' ∉ chars}) : '<' ∉ poolName package := by
  have name : '<' ∉ "::pool::Pool".toList := by decide +kernel
  rw [poolName,List.mem_append]
  exact fun member => member.elim package.property name

theorem TypeArgs.trimmed_parts : ∀ args : TypeArgs,
    (args.parts.map fun part => trim (.ofList part)) = args.types.map fun type => .ofList type.text
  | .nil => rfl
  | .cons before first after rest => by
    rw [TypeArgs.parts,TypeArgs.types,List.map_cons,List.map_cons,trim_padded first.trimmed,TypeArgs.trimmed_parts rest]

/-- The arguments of a pool type are cut apart as they were joined. -/
theorem topLevelParts_args (args : TypeArgs) (some_arg : args.parts ≠ []) :
    topLevelParts 0 [] (joined typeMarks args.parts) = args.types.map fun type => .ofList type.text := by
  rw [topLevelParts_cut,cut_joined args.balanced some_arg,args.trimmed_parts]

end types

/-- What parsing returns for the type arguments of a pool. -/
def answer : List MoveType → Anyhow (String × String × Option String)
  | first :: second :: rest => .ok (.ofList first.text,.ofList second.text,rest.head?.map fun type => .ofList type.text)
  | _ => bail "missing type_b"

/-- Parsing undoes the rendering of a pool type with two or more arguments of any nesting.
With fewer, in brackets or without, it is an error. -/
theorem parsePoolTypeArgs_nested (package : {chars : List Char // '<' ∉ chars}) (args : TypeArgs) :
    parsePoolTypeArgs (poolText package args) = answer args.types ∧
      parsePoolTypeArgs (.ofList (poolName package)) = bail ("type has no generic args: " ++ .ofList (poolName package)) := by
  refine ⟨?_,?_⟩
  · rw [parsePoolTypeArgs,poolText,genericArgs_bracketed (poolName_plain package),orBail,ok_bind]
    dsimp only
    cases args with
    | nil => rfl
    | cons before first after rest =>
      rw [topLevelParts_args _ (by simp [TypeArgs.parts]),TypeArgs.types]
      cases rest with
      | nil => rfl
      | cons spaced second more rest =>
        rw [TypeArgs.types]
        simp [answer,orBail,List.head?_eq_getElem?]
  · have unopened : ∀ c ∈ poolName package, (c != '<') = true :=
      fun c member => bne_iff_ne.mpr fun same => poolName_plain package (same ▸ member)
    have missing : genericArgs (.ofList (poolName package)) = none := by
      unfold genericArgs
      rw [String.toList_ofList,List.dropWhile_eq_nil_iff.mpr unopened]
    rw [parsePoolTypeArgs,missing]
    rfl

/-- A vector of structs is one argument. -/
example : parsePoolTypeArgs "0x1::pool::Pool<0x2::sui::SUI , vector<0x3::m::T<u8, bool>>,u64>" =
    .ok ("0x2::sui::SUI","vector<0x3::m::T<u8, bool>>",some "u64") := by decide +kernel

end SuiArbitrage.Rust.Ws
