import Mathlib

/-! # How the Windows C runtime splits a command line

The program name ends at the first blank outside quotation marks. In the arguments after
it, every two backslashes before a quotation mark stand for one and an odd one makes the
mark literal; anywhere else they stand for themselves.
-/
namespace Lib.WindowsArguments

def backslash : UInt16 := 92

def quote : UInt16 := 34

def space : UInt16 := 32

def tab : UInt16 := 9

def isBlank (unit : UInt16) : Bool := unit = space || unit = tab

/-- The program name and what follows the blank after it. -/
def programName : Bool → List UInt16 → List UInt16 × List UInt16
  | _, [] => ([], [])
  | inQuotes, unit :: rest =>
    if unit = quote then programName (!inQuotes) rest
    else if !inQuotes && isBlank unit then ([], rest)
    else
      let (name, tail) := programName inQuotes rest
      (unit :: name, tail)

/-- An argument being read: whether it is quoted, the last backslashes and what was read before them. -/
structure Scan where
  inQuotes : Bool
  backslashes : Nat
  text : List UInt16

namespace Scan

def start : Scan := ⟨false, 0, []⟩

/-- What has been read, with the first `count` of the backslashes counted last. -/
def flush (scan : Scan) (count : Nat) : List UInt16 := scan.text ++ List.replicate count backslash

end Scan

/-- The arguments; none is being read between two of them. -/
def arguments : Option Scan → List UInt16 → List (List UInt16)
  | none, [] => []
  | some scan, [] => [scan.flush scan.backslashes]
  | current, unit :: rest =>
    if current.isNone && isBlank unit then arguments none rest
    else
      let scan := current.getD .start
      if unit = backslash then arguments (some { scan with backslashes := scan.backslashes + 1 }) rest
      else if unit = quote then
        let text := scan.flush (scan.backslashes / 2)
        if scan.backslashes % 2 = 0 then
          match rest with
          | [] => [text]
          | next :: tail =>
            -- Two marks in a row inside quotation marks stand for one.
            if scan.inQuotes && next = quote then arguments (some ⟨true, 0, text ++ [quote]⟩) tail
            else arguments (some ⟨!scan.inQuotes, 0, text⟩) (next :: tail)
        else arguments (some ⟨scan.inQuotes, 0, text ++ [quote]⟩) rest
      else if !scan.inQuotes && isBlank unit then scan.flush scan.backslashes :: arguments none rest
      else arguments (some ⟨scan.inQuotes, 0, scan.flush scan.backslashes ++ [unit]⟩) rest

/-- A command line ends at its first NUL. -/
def split (commandLine : List UInt16) : List (List UInt16) :=
  let (name, rest) := programName false (commandLine.takeWhile (· ≠ 0))
  name :: arguments none rest

/-- What follows an argument: nothing, or a blank and more arguments. -/
inductive Follows : List UInt16 → List (List UInt16) → Prop
  | nothing : Follows [] []
  | more (rest : List UInt16) : Follows (space :: rest) (arguments none rest)

variable {rest : List UInt16} {unit : UInt16} {scan : Scan} {more : List (List UInt16)}

theorem programName_plain {name : List UInt16} {inQuotes : Bool} (hQuote : quote ∉ name)
    (hBlank : inQuotes = true ∨ ∀ unit ∈ name, isBlank unit = false) :
    programName inQuotes (name ++ rest) =
      (name ++ (programName inQuotes rest).1, (programName inQuotes rest).2) := by
  induction name with
  | nil => rfl
  | cons unit name ih =>
    obtain ⟨hUnit, hName⟩ := not_or.mp (mt List.mem_cons.mpr hQuote)
    have hCondition : (!inQuotes && isBlank unit) = false := by
      rcases hBlank with rfl | hBlank
      · rfl
      · rw [hBlank unit List.mem_cons_self, Bool.and_false]
    have hRest := ih hName (hBlank.imp_right fun h other hOther => h other (List.mem_cons_of_mem unit hOther))
    rw [List.cons_append, programName, if_neg (Ne.symm hUnit), if_neg (by simp [hCondition]), hRest]
    rfl

theorem arguments_start (rest : List UInt16) (h : isBlank unit = false) :
    arguments none (unit :: rest) = arguments (some .start) (unit :: rest) := by
  conv_lhs => rw [arguments]
  conv_rhs => rw [arguments]
  simp only [h, Bool.and_false, Option.getD_none, Option.getD_some]

theorem arguments_backslash (scan : Scan) (rest : List UInt16) :
    arguments (some scan) (backslash :: rest) =
      arguments (some { scan with backslashes := scan.backslashes + 1 }) rest := by
  simp [arguments]

theorem arguments_unit (rest : List UInt16) (hBackslash : unit ≠ backslash)
    (hQuote : unit ≠ quote) (hBlank : scan.inQuotes = true ∨ isBlank unit = false) :
    arguments (some scan) (unit :: rest) =
      arguments (some ⟨scan.inQuotes, 0, scan.flush scan.backslashes ++ [unit]⟩) rest := by
  have hCondition : (!scan.inQuotes && isBlank unit) = false := by
    rcases hBlank with h | h <;> simp [h]
  simp [arguments, hBackslash, hQuote, hCondition]

theorem arguments_literal_quote (rest : List UInt16) (hOdd : scan.backslashes % 2 = 1) :
    arguments (some scan) (quote :: rest) =
      arguments (some ⟨scan.inQuotes, 0, scan.flush (scan.backslashes / 2) ++ [quote]⟩) rest := by
  have hQuote : quote ≠ backslash := by decide
  simp [arguments, hQuote, hOdd]

theorem arguments_quote (hEven : scan.backslashes % 2 = 0)
    (hSingle : scan.inQuotes = false ∨ rest.head? ≠ some quote) :
    arguments (some scan) (quote :: rest) =
      arguments (some ⟨!scan.inQuotes, 0, scan.flush (scan.backslashes / 2)⟩) rest := by
  have hQuote : quote ≠ backslash := by decide
  cases rest with
  | nil => simp [arguments, hQuote, hEven, Scan.flush]
  | cons next tail =>
    have hCondition : (scan.inQuotes && next = quote) = false := by
      rcases hSingle with h | h
      · simp [h]
      · simpa using fun _ hNext => h (congrArg some hNext)
    rw [arguments]
    simp [hQuote, hEven, hCondition]

theorem arguments_end (h : Follows rest more)
    (hQuotes : scan.inQuotes = false) : arguments (some scan) rest = scan.flush scan.backslashes :: more := by
  have hQuote : space ≠ quote := by decide
  have hBackslash : space ≠ backslash := by decide
  have hBlank : isBlank space = true := by decide
  cases h with
  | nothing => simp [arguments]
  | more rest => simp [arguments, hQuote, hBackslash, hBlank, hQuotes]

theorem arguments_backslashes (scan : Scan) (count : Nat) (rest : List UInt16) :
    arguments (some scan) (List.replicate count backslash ++ rest) =
      arguments (some { scan with backslashes := scan.backslashes + count }) rest := by
  induction count generalizing scan with
  | zero => rfl
  | succ count ih =>
    rw [List.replicate_succ, List.cons_append, arguments_backslash, ih]
    simp only [Nat.add_comm, Nat.add_left_comm]

theorem arguments_plain {units : List UInt16} (scan : Scan)
    (hQuotes : scan.inQuotes = false) (hUnits : ∀ unit ∈ units, isBlank unit = false ∧ unit ≠ quote)
    (h : Follows rest more) :
    arguments (some scan) (units ++ rest) = (scan.flush scan.backslashes ++ units) :: more := by
  induction units generalizing scan with
  | nil => rw [List.nil_append, List.append_nil, arguments_end h hQuotes]
  | cons unit units ih =>
    obtain ⟨hBlank, hQuote⟩ := hUnits unit List.mem_cons_self
    have hRest := fun next hNext => ih next hNext fun other hOther => hUnits other (List.mem_cons_of_mem unit hOther)
    rw [List.cons_append]
    by_cases hBackslash : unit = backslash
    · subst hBackslash
      rw [arguments_backslash, hRest { scan with backslashes := scan.backslashes + 1 } hQuotes]
      simp [Scan.flush, List.replicate_succ']
    · rw [arguments_unit _ hBackslash hQuote (Or.inr hBlank),
        hRest ⟨scan.inQuotes, 0, scan.flush scan.backslashes ++ [unit]⟩ hQuotes]
      simp [Scan.flush]

end Lib.WindowsArguments
