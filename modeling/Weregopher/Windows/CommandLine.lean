import Weregopher.Lib.Checked
import Weregopher.Lib.Outcome
import Weregopher.Lib.WindowsArguments

/-! # The command line of a launched process

Text is a list of UTF-16 units. The length of the line is computed first, with every
addition checked, and the line is written afterwards. Reserving memory is assumed to
succeed.
-/
namespace Weregopher.Windows
open Lib.Checked Lib.Outcome Lib.WindowsArguments

inductive ErrorKind
  | invalidInput
  | other
  deriving DecidableEq

structure IoError where
  kind : ErrorKind
  message : String
  deriving DecidableEq

abbrev Result (α : Type) := Except IoError α

def invalidInput (message : String) : IoError := ⟨.invalidInput, message⟩

structure ProcessLaunchLimits where
  (arguments argumentUnits commandLineUnits : Nat)

def encodeUnits (value : List UInt16) (maxUnits : Nat) : Result (List UInt16) := do
  if value.length > maxUnits then throw (invalidInput "UTF-16 argument exceeds its limit")
  if value.contains 0 then throw (invalidInput "Windows process values cannot contain NUL")
  return value

def needsQuotes (units : List UInt16) : Bool :=
  units.isEmpty || units.any fun unit => unit = space || unit = tab || unit = quote

def lengthOverflow : IoError := invalidInput "quoted argument length overflowed"

def countQuoted : (total backslashes : Nat) → List UInt16 → Result Nat
  | total, backslashes, [] => do
    let doubled ← okOr lengthOverflow (checkedMul usizeMax backslashes 2)
    let closing ← okOr lengthOverflow (checkedAdd usizeMax doubled 1)
    okOr lengthOverflow (checkedAdd usizeMax total closing)
  | total, backslashes, unit :: rest =>
    if unit = backslash then do
      let backslashes ← okOr lengthOverflow (checkedAdd usizeMax backslashes 1)
      countQuoted total backslashes rest
    else if unit = quote then do
      let doubled ← okOr lengthOverflow (checkedMul usizeMax backslashes 2)
      let escaped ← okOr lengthOverflow (checkedAdd usizeMax doubled 2)
      let total ← okOr lengthOverflow (checkedAdd usizeMax total escaped)
      countQuoted total 0 rest
    else do
      let total ← okOr lengthOverflow (checkedAdd usizeMax total backslashes)
      let total ← okOr lengthOverflow (checkedAdd usizeMax total 1)
      countQuoted total 0 rest

def quotedUnits (units : List UInt16) : Result Nat :=
  if needsQuotes units then countQuoted 1 0 units else .ok units.length

/-- The loop of `append_quoted`, with the closing quotation mark. -/
def escape : Nat → List UInt16 → List UInt16
  | backslashes, [] => List.replicate (backslashes * 2) backslash ++ [quote]
  | backslashes, unit :: rest =>
    if unit = backslash then escape (backslashes + 1) rest
    else if unit = quote then List.replicate (backslashes * 2 + 1) backslash ++ unit :: escape 0 rest
    else List.replicate backslashes backslash ++ unit :: escape 0 rest

def appendQuoted (output units : List UInt16) : List UInt16 :=
  if needsQuotes units then output ++ quote :: escape 0 units else output ++ units

def commandLineOverflow : IoError := invalidInput "command-line length overflowed"

def addSeparator (totalUnits index : Nat) : Result Nat :=
  if index ≠ 0 then okOr commandLineOverflow (checkedAdd usizeMax totalUnits 1) else .ok totalUnits

/-- One round of the sizing loop, for the item at `index`. -/
def addItem (limits : ProcessLaunchLimits) (totalUnits index : Nat) (item : List UInt16) : Result Nat := do
  let totalUnits ← addSeparator totalUnits index
  let units ← quotedUnits item
  let totalUnits ← okOr commandLineOverflow (checkedAdd usizeMax totalUnits units)
  if totalUnits > limits.commandLineUnits then throw (invalidInput "command line exceeds its UTF-16 limit")
  return totalUnits

def sizeItems (limits : ProcessLaunchLimits) : (totalUnits index : Nat) → List (List UInt16) → Result Nat
  | totalUnits, _, [] => .ok totalUnits
  | totalUnits, index, item :: rest => do
    let totalUnits ← addItem limits totalUnits index item
    sizeItems limits totalUnits (index + 1) rest

def emitItems : (commandLine : List UInt16) → (index : Nat) → List (List UInt16) → List UInt16
  | commandLine, _, [] => commandLine
  | commandLine, index, item :: rest =>
    let separated := if index ≠ 0 then commandLine ++ [space] else commandLine
    emitItems (appendQuoted separated item) (index + 1) rest

def disagreement : IoError := ⟨.other, "command-line sizing and emission disagreed"⟩

def buildCommandLine (executable : List UInt16) (arguments : List (List UInt16)) (limits : ProcessLaunchLimits) :
    Result (List UInt16) := do
  if arguments.length > limits.arguments then throw (invalidInput "process argument count exceeds its limit")
  let _ ← okOr (invalidInput "process argument count overflowed") (checkedAdd usizeMax arguments.length 1)
  let first ← encodeUnits executable limits.argumentUnits
  let rest ← arguments.mapM (encodeUnits · limits.argumentUnits)
  let totalUnits ← sizeItems limits 1 0 (first :: rest)
  let commandLine := emitItems [] 0 (first :: rest) ++ [0]
  if commandLine.length ≠ totalUnits then throw disagreement
  return commandLine

/-! ## Sizing and writing -/

def quoted (units : List UInt16) : List UInt16 := appendQuoted [] units

/-- The items from `index` on, each but the very first after a space. -/
def joined (index : Nat) : List (List UInt16) → List UInt16
  | [] => []
  | item :: rest => (if index ≠ 0 then [space] else []) ++ quoted item ++ joined (index + 1) rest

theorem appendQuoted_eq (output units : List UInt16) : appendQuoted output units = output ++ quoted units := by
  rw [quoted, appendQuoted, appendQuoted]
  split <;> simp

theorem emitItems_eq (commandLine : List UInt16) (index : Nat) (items : List (List UInt16)) :
    emitItems commandLine index items = commandLine ++ joined index items := by
  induction items generalizing commandLine index with
  | nil => rw [emitItems, joined, List.append_nil]
  | cons item rest ih =>
    rw [emitItems, ih, appendQuoted_eq, joined]
    split <;> simp

theorem countQuoted_ok {total backslashes units : Nat} {items : List UInt16}
    (h : countQuoted total backslashes items = .ok units) : units = total + (escape backslashes items).length := by
  induction items generalizing total backslashes with
  | nil =>
    simp only [countQuoted, bind_ok, okOr_ok, checkedMul_eq_some, checkedAdd_eq_some] at h
    obtain ⟨doubled, ⟨-, rfl⟩, closing, ⟨-, rfl⟩, -, rfl⟩ := h
    simp [escape]
  | cons unit rest ih =>
    rw [countQuoted] at h
    rw [escape]
    split at h
    · rename_i hBackslash
      simp only [bind_ok, okOr_ok, checkedAdd_eq_some] at h
      obtain ⟨count, ⟨-, rfl⟩, hRest⟩ := h
      rw [if_pos hBackslash, ih hRest]
    · rename_i hBackslash
      rw [if_neg hBackslash]
      split at h
      · rename_i hQuote
        simp only [bind_ok, okOr_ok, checkedMul_eq_some, checkedAdd_eq_some] at h
        obtain ⟨doubled, ⟨-, rfl⟩, escaped, ⟨-, rfl⟩, sum, ⟨-, rfl⟩, hRest⟩ := h
        rw [if_pos hQuote, ih hRest, List.length_append, List.length_replicate, List.length_cons]
        omega
      · rename_i hQuote
        simp only [bind_ok, okOr_ok, checkedAdd_eq_some] at h
        obtain ⟨copied, ⟨-, rfl⟩, sum, ⟨-, rfl⟩, hRest⟩ := h
        rw [if_neg hQuote, ih hRest, List.length_append, List.length_replicate, List.length_cons]
        omega

theorem quotedUnits_ok {units : List UInt16} {count : Nat} (h : quotedUnits units = .ok count) :
    count = (quoted units).length := by
  rw [quotedUnits] at h
  rw [quoted, appendQuoted]
  split at h
  · rename_i hQuotes
    rw [if_pos hQuotes, countQuoted_ok h, List.nil_append, List.length_cons, Nat.add_comm]
  · rename_i hPlain
    cases h
    rw [if_neg hPlain, List.nil_append]

variable {index totalUnits result maxUnits : Nat} {limits : ProcessLaunchLimits} {items more : List (List UInt16)}

theorem addSeparator_ok {total : Nat} (h : addSeparator totalUnits index = .ok total) :
    total = totalUnits + (if index ≠ 0 then [space] else []).length := by
  rw [addSeparator] at h
  split at h
  · rename_i hIndex
    rw [if_pos hIndex]
    exact (checkedAdd_eq_some.mp (okOr_ok.mp h)).2.symm
  · rename_i hIndex
    rw [if_neg hIndex]
    exact (Except.ok.inj h).symm

theorem addItem_ok {item : List UInt16} (h : addItem limits totalUnits index item = .ok result) :
    result = totalUnits + ((if index ≠ 0 then [space] else []) ++ quoted item).length ∧
      result ≤ limits.commandLineUnits := by
  rw [addItem, bind_ok] at h
  obtain ⟨separated, hFirst, h⟩ := h
  simp only [bind_ok, okOr_ok, checkedAdd_eq_some, guard_ok, pure_ok] at h
  obtain ⟨units, hUnits, sum, ⟨-, rfl⟩, hLimit, rfl⟩ := h
  rw [addSeparator_ok hFirst, quotedUnits_ok hUnits] at hLimit ⊢
  rw [List.length_append, ← Nat.add_assoc]
  exact ⟨rfl, Nat.not_lt.mp hLimit⟩

theorem sizeItems_ok (h : sizeItems limits totalUnits index items = .ok result) :
    result = totalUnits + (joined index items).length ∧ (items ≠ [] → result ≤ limits.commandLineUnits) := by
  induction items generalizing totalUnits index with
  | nil =>
    cases h
    exact ⟨rfl, fun hNil => absurd rfl hNil⟩
  | cons item rest ih =>
    rw [sizeItems, bind_ok] at h
    obtain ⟨sum, hItem, hRest⟩ := h
    obtain ⟨hSum, hLimit⟩ := addItem_ok hItem
    obtain ⟨hResult, hBound⟩ := ih hRest
    constructor
    · rw [hResult, hSum, joined, Nat.add_assoc, ← List.length_append]
    · intro _
      by_cases hNil : rest = []
      · subst hNil
        cases hRest
        exact hLimit
      · exact hBound hNil

/-! ## Splitting the line -/

theorem arguments_escape {units rest : List UInt16} (backslashes : Nat) (text : List UInt16) (h : Follows rest more) :
    arguments (some ⟨true, 0, text⟩) (escape backslashes units ++ rest) =
      (text ++ List.replicate backslashes backslash ++ units) :: more := by
  induction units generalizing backslashes text with
  | nil =>
    have hSpace : space ≠ quote := by decide
    have hHead : rest.head? ≠ some quote := by cases h <;> simp [hSpace]
    rw [escape, List.append_assoc, arguments_backslashes, List.singleton_append,
      arguments_quote (by simp) (Or.inr hHead), arguments_end h rfl]
    simp [Scan.flush]
  | cons unit units ih =>
    rw [escape]
    split
    · rename_i hBackslash
      rw [ih, hBackslash, List.replicate_succ']
      simp
    · rename_i hBackslash
      split
      · rename_i hQuote
        rw [hQuote, List.append_assoc, List.cons_append, arguments_backslashes,
          arguments_literal_quote _ (by simp), ih]
        have hHalf : (backslashes * 2 + 1) / 2 = backslashes := by omega
        simp [Scan.flush, hHalf]
      · rename_i hQuote
        rw [List.append_assoc, List.cons_append, arguments_backslashes,
          arguments_unit _ hBackslash hQuote (Or.inl rfl), ih]
        simp [Scan.flush]

theorem needsQuotes_eq_false {units : List UInt16} (h : needsQuotes units = false) :
    units ≠ [] ∧ ∀ unit ∈ units, isBlank unit = false ∧ unit ≠ quote := by
  simp only [needsQuotes, Bool.or_eq_false_iff, List.isEmpty_eq_false_iff, List.any_eq_false] at h
  refine ⟨h.1, fun unit hUnit => ?_⟩
  have hOther := h.2 unit hUnit
  simp only [Bool.or_eq_true, decide_eq_true_eq, not_or] at hOther
  simp [isBlank, hOther]

theorem arguments_quoted {rest : List UInt16} (units : List UInt16)
    (h : Follows rest more) : arguments none (quoted units ++ rest) = units :: more := by
  rw [quoted, appendQuoted]
  split
  · rw [List.nil_append, List.cons_append, arguments_start _ (by decide), arguments_quote rfl (Or.inl rfl)]
    exact arguments_escape 0 [] h
  · rename_i hPlain
    obtain ⟨hNil, hUnits⟩ := needsQuotes_eq_false (by simpa using hPlain)
    obtain ⟨unit, tail, rfl⟩ := List.exists_cons_of_ne_nil hNil
    rw [List.nil_append, List.cons_append, arguments_start _ (hUnits unit List.mem_cons_self).1, ← List.cons_append,
      arguments_plain .start rfl hUnits h]
    rfl

theorem follows_joined (index : Nat) (items : List (List UInt16)) : Follows (joined (index + 1) items) items := by
  induction items generalizing index with
  | nil => exact .nothing
  | cons item rest ih =>
    have hItem := arguments_quoted item (ih (index + 1))
    rw [joined, if_pos (Nat.succ_ne_zero index), List.append_assoc, List.singleton_append, ← hItem]
    exact .more _

theorem escape_plain {units : List UInt16} (backslashes : Nat) (hQuote : quote ∉ units)
    (hLast : (List.replicate backslashes backslash ++ units).getLast? ≠ some backslash) :
    escape backslashes units = List.replicate backslashes backslash ++ units ++ [quote] := by
  induction units generalizing backslashes with
  | nil =>
    cases backslashes with
    | zero => rfl
    | succ count => simp [List.replicate_succ'] at hLast
  | cons unit units ih =>
    obtain ⟨hUnit, hUnits⟩ := not_or.mp (mt List.mem_cons.mpr hQuote)
    rw [escape]
    split
    · rename_i hBackslash
      subst hBackslash
      have hMove : List.replicate (backslashes + 1) backslash ++ units =
          List.replicate backslashes backslash ++ backslash :: units := by
        rw [List.replicate_succ', List.append_assoc, List.singleton_append]
      rw [ih (backslashes + 1) hUnits (hMove ▸ hLast), hMove]
    · rename_i hBackslash
      have hRest : (List.replicate 0 backslash ++ units).getLast? ≠ some backslash := by
        cases units with
        | nil => simp
        | cons next tail => simpa [List.getLast?_cons] using hLast
      rw [if_neg (Ne.symm hUnit), ih 0 hUnits hRest]
      simp

theorem programName_quoted {executable rest : List UInt16} (hQuote : quote ∉ executable)
    (hLast : executable.getLast? ≠ some backslash) (h : Follows rest more) :
    (programName false (quoted executable ++ rest)).1 = executable ∧
      arguments none (programName false (quoted executable ++ rest)).2 = more := by
  have hRest : (programName false rest).1 = [] ∧ arguments none (programName false rest).2 = more := by
    cases h with
    | nothing => exact ⟨rfl, rfl⟩
    | more rest => exact ⟨rfl, rfl⟩
  rw [quoted, appendQuoted]
  split
  · have hName : programName false (quote :: (executable ++ [quote]) ++ rest) =
        (executable ++ (programName false rest).1, (programName false rest).2) := by
      rw [List.cons_append, programName, if_pos rfl, Bool.not_false, List.append_assoc,
        programName_plain hQuote (Or.inl rfl), List.singleton_append, programName, if_pos rfl, Bool.not_true]
    rw [List.nil_append, escape_plain 0 hQuote hLast, List.replicate_zero, List.nil_append, hName, hRest.1,
      List.append_nil]
    exact ⟨rfl, hRest.2⟩
  · rename_i hPlain
    obtain ⟨-, hUnits⟩ := needsQuotes_eq_false (by simpa using hPlain)
    rw [List.nil_append, programName_plain hQuote (Or.inr fun unit hUnit => (hUnits unit hUnit).1), hRest.1,
      List.append_nil]
    exact ⟨rfl, hRest.2⟩

/-! ## The whole line -/

theorem encodeUnits_ok {value units : List UInt16} (h : encodeUnits value maxUnits = .ok units) :
    units = value ∧ 0 ∉ value := by
  simp only [encodeUnits, guard_ok, pure_ok, List.contains_iff_mem] at h
  exact ⟨h.2.2.symm, h.2.1⟩

theorem mapM_encodeUnits_ok {values encoded : List (List UInt16)}
    (h : values.mapM (encodeUnits · maxUnits) = .ok encoded) : encoded = values ∧ ∀ value ∈ values, 0 ∉ value := by
  induction values generalizing encoded with
  | nil =>
    cases h
    exact ⟨rfl, nofun⟩
  | cons value rest ih =>
    simp only [List.mapM_cons, bind_ok, pure_ok] at h
    obtain ⟨units, hUnits, others, hOthers, rfl⟩ := h
    obtain ⟨rfl, hValue⟩ := encodeUnits_ok hUnits
    obtain ⟨rfl, hRest⟩ := ih hOthers
    exact ⟨rfl, List.forall_mem_cons.mpr ⟨hValue, hRest⟩⟩

theorem nul_notMem_escape {units : List UInt16} (backslashes : Nat) (h : 0 ∉ units) : 0 ∉ escape backslashes units := by
  have hBackslash : (0 : UInt16) ≠ backslash := by decide
  have hQuote : (0 : UInt16) ≠ quote := by decide
  induction units generalizing backslashes with
  | nil => simp [escape, hBackslash, hQuote]
  | cons unit units ih =>
    obtain ⟨hUnit, hUnits⟩ := not_or.mp (mt List.mem_cons.mpr h)
    rw [escape]
    split_ifs
    · exact ih _ hUnits
    · simp [hBackslash, hUnit, ih 0 hUnits]
    · simp [hBackslash, hUnit, ih 0 hUnits]

theorem nul_notMem_joined (index : Nat) (h : ∀ item ∈ items, 0 ∉ item) : 0 ∉ joined index items := by
  have hSpace : (0 : UInt16) ≠ space := by decide
  have hQuote : (0 : UInt16) ≠ quote := by decide
  induction items generalizing index with
  | nil => exact List.not_mem_nil
  | cons item rest ih =>
    obtain ⟨hItem, hRest⟩ := List.forall_mem_cons.mp h
    have hQuoted : 0 ∉ quoted item := by
      rw [quoted, appendQuoted]
      split
      · simp [hQuote, nul_notMem_escape 0 hItem]
      · simpa using hItem
    have hSeparator : 0 ∉ (if index ≠ 0 then [space] else []) := by
      split <;> simp [hSpace]
    simp only [joined, List.mem_append, not_or]
    exact ⟨⟨hSeparator, hQuoted⟩, ih _ hRest⟩

theorem split_joined {executable : List UInt16} {arguments : List (List UInt16)}
    (hNul : 0 ∉ joined 0 (executable :: arguments)) (hQuote : quote ∉ executable)
    (hLast : executable.getLast? ≠ some backslash) :
    split (joined 0 (executable :: arguments) ++ [0]) = executable :: arguments := by
  have hLine : (joined 0 (executable :: arguments) ++ [0]).takeWhile (· ≠ 0) = joined 0 (executable :: arguments) := by
    rw [List.takeWhile_append_of_pos]
    · simp
    · exact fun unit hUnit => decide_eq_true fun hZero => hNul (hZero ▸ hUnit)
  obtain ⟨hName, hArguments⟩ := programName_quoted hQuote hLast (follows_joined 0 arguments)
  rw [split, hLine, joined, if_neg (not_not.mpr rfl), List.nil_append]
  exact congrArg₂ List.cons hName hArguments

def IsInvalidInput (error : IoError) : Prop := error.kind = .invalidInput

theorem raises_countQuoted (total backslashes : Nat) (units : List UInt16) :
    Raises IsInvalidInput (countQuoted total backslashes units) := by
  induction units generalizing total backslashes with
  | nil =>
    refine raises_bind (raises_okOr rfl) fun _ _ => ?_
    exact raises_bind (raises_okOr rfl) fun _ _ => raises_okOr rfl
  | cons unit rest ih =>
    rw [countQuoted]
    refine raises_ite (fun _ => raises_bind (raises_okOr rfl) fun _ _ => ih _ _) fun _ => raises_ite (fun _ => ?_)
      fun _ => ?_
    · refine raises_bind (raises_okOr rfl) fun _ _ => ?_
      exact raises_bind (raises_okOr rfl) fun _ _ => raises_bind (raises_okOr rfl) fun _ _ => ih _ _
    · exact raises_bind (raises_okOr rfl) fun _ _ => raises_bind (raises_okOr rfl) fun _ _ => ih _ _

theorem raises_sizeItems (limits : ProcessLaunchLimits) (totalUnits index : Nat) (items : List (List UInt16)) :
    Raises IsInvalidInput (sizeItems limits totalUnits index items) := by
  induction items generalizing totalUnits index with
  | nil => trivial
  | cons item rest ih =>
    refine raises_bind ?_ fun _ _ => ih _ _
    refine raises_bind (raises_ite (fun _ => raises_okOr rfl) fun _ => trivial) fun _ _ => ?_
    refine raises_bind (raises_ite (fun _ => raises_countQuoted 1 0 item) fun _ => trivial) fun _ _ => ?_
    refine raises_bind (raises_okOr rfl) fun _ _ => ?_
    exact raises_guard (fun _ => rfl) fun _ => trivial

theorem raises_encodeUnits (value : List UInt16) (maxUnits : Nat) :
    Raises IsInvalidInput (encodeUnits value maxUnits) :=
  raises_guard (fun _ => rfl) fun _ => raises_guard (fun _ => rfl) fun _ => trivial

theorem length_emitItems
    (h : sizeItems limits 1 0 items = .ok totalUnits) : (emitItems [] 0 items ++ [0]).length = totalUnits := by
  rw [(sizeItems_ok h).1, emitItems_eq, List.nil_append, List.length_append, List.length_singleton, Nat.add_comm]

theorem raises_buildCommandLine (executable : List UInt16) (arguments : List (List UInt16))
    (limits : ProcessLaunchLimits) : Raises IsInvalidInput (buildCommandLine executable arguments limits) := by
  refine raises_guard (fun _ => rfl) fun _ => ?_
  refine raises_bind (raises_okOr rfl) fun _ _ => ?_
  refine raises_bind (raises_encodeUnits _ _) fun _ _ => ?_
  refine raises_bind (raises_mapM fun _ _ => raises_encodeUnits _ _) fun _ _ => ?_
  refine raises_bind (raises_sizeItems _ _ _ _) fun _ hTotal => ?_
  exact raises_guard (fun hLength => absurd (length_emitItems hTotal) hLength) fun _ => trivial

theorem buildCommandLine_ok {executable commandLine : List UInt16} {arguments : List (List UInt16)}
    (h : buildCommandLine executable arguments limits = .ok commandLine) :
    sizeItems limits 1 0 (executable :: arguments) = .ok commandLine.length ∧
      commandLine = joined 0 (executable :: arguments) ++ [0] ∧ ∀ item ∈ executable :: arguments, 0 ∉ item := by
  simp only [buildCommandLine, guard_ok, bind_ok, pure_ok] at h
  obtain ⟨-, -, -, first, hFirst, rest, hRest, total, hTotal, -, rfl⟩ := h
  obtain ⟨rfl, hNul⟩ := encodeUnits_ok hFirst
  obtain ⟨rfl, hNuls⟩ := mapM_encodeUnits_ok hRest
  refine ⟨?_, ?_, List.forall_mem_cons.mpr ⟨hNul, hNuls⟩⟩
  · rw [length_emitItems hTotal]
    exact hTotal
  · rw [emitItems_eq, List.nil_append]

theorem command_line_splits_back (executable : List UInt16) (arguments : List (List UInt16))
    (limits : ProcessLaunchLimits) :
    buildCommandLine executable arguments limits ≠ .error disagreement ∧
      ∀ commandLine, buildCommandLine executable arguments limits = .ok commandLine →
        sizeItems limits 1 0 (executable :: arguments) = .ok commandLine.length ∧
        commandLine.length ≤ limits.commandLineUnits ∧ commandLine.getLast? = some 0 ∧
        (quote ∉ executable → executable.getLast? ≠ some backslash →
          split commandLine = executable :: arguments) := by
  constructor
  · intro hError
    cases (raises_buildCommandLine executable arguments limits).error hError
  · intro commandLine hLine
    obtain ⟨hSize, hJoined, hNul⟩ := buildCommandLine_ok hLine
    refine ⟨hSize, (sizeItems_ok hSize).2 (List.cons_ne_nil _ _), ?_, ?_⟩
    · rw [hJoined, List.getLast?_concat]
    · intro hQuote hLast
      rw [hJoined]
      exact split_joined (nul_notMem_joined 0 hNul) hQuote hLast

namespace Sample

def units (text : String) : List UInt16 := text.toList.map fun c => UInt16.ofNat c.toNat

def executable : List UInt16 := units "C:\\Program Files\\helper.exe"

def arguments : List (List UInt16) := [[], units "plain", units "a\\\"b", units "trailing slash \\"]

def line : List UInt16 :=
  units "\"C:\\Program Files\\helper.exe\" \"\" plain \"a\\\\\\\"b\" \"trailing slash \\\\\"" ++ [0]

theorem sample_line_splits_back :
    buildCommandLine executable arguments ⟨4, 128, 1024⟩ = .ok line ∧
      split line = executable :: arguments := by
  have hLine : buildCommandLine executable arguments ⟨4, 128, 1024⟩ = .ok line := by
    decide +kernel
  have hSplits := ((command_line_splits_back executable arguments ⟨4, 128, 1024⟩).2 line hLine).2.2.2
  exact ⟨hLine, hSplits (by decide +kernel) (by decide +kernel)⟩

end Sample

end Weregopher.Windows
