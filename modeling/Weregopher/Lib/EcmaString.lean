import Weregopher.Lib.Decimal

/-! # String literals of ECMAScript

A literal is read into its elements, and its value is the sequence of their UTF-16 code
units. A line continuation has none. The octal escapes of sloppy code are read too.
-/
namespace Lib.EcmaString
open Decimal

/-- The code units of a code point, which may be a surrogate itself. -/
def codeUnits (value : Nat) : List Nat :=
  if value < 0x10000 then [value] else [0xd800 + (value - 0x10000) / 0x400, 0xdc00 + (value - 0x10000) % 0x400]

def utf16 (text : List Char) : List Nat := text.flatMap fun c => codeUnits c.toNat

def isHighSurrogate (unit : Nat) : Bool := 0xd800 ≤ unit && unit ≤ 0xdbff

def isLowSurrogate (unit : Nat) : Bool := 0xdc00 ≤ unit && unit ≤ 0xdfff

def hasUnpaired : List Nat → Bool
  | [] => false
  | [unit] => isHighSurrogate unit || isLowSurrogate unit
  | unit :: next :: rest =>
    if isHighSurrogate unit && isLowSurrogate next then hasUnpaired rest
    else isHighSurrogate unit || isLowSurrogate unit || hasUnpaired (next :: rest)

inductive Element
  | plain (c : Char)
  | escaped (c : Char)
  /-- One of the escapes that name a code point or a code unit. -/
  | unicode (value : Nat)
  | continuation
  deriving DecidableEq

def Element.units : Element → List Nat
  | plain c | escaped c => codeUnits c.toNat
  | unicode value => codeUnits value
  | continuation => []

def isLineTerminator (c : Char) : Bool := c == '\n' || c == '\r' || c == '\u2028' || c == '\u2029'

def hexNumber (digits : List Char) : Option Nat :=
  digits.foldlM (fun value c => (hexValue c).map (value * 16 + ·)) 0

def isOctal (c : Char) : Bool := '0' ≤ c && c ≤ '7'

/-- An octal escape has up to three digits, and no value above 255. -/
def readOctal (first : Char) (rest : List Char) : Element × List Char :=
  let more := (rest.take (if first ≤ '3' then 2 else 1)).takeWhile isOctal
  (.escaped (Char.ofNat ((first :: more).foldl (fun value c => value * 8 + (c.toNat - 48)) 0)), rest.drop more.length)

def splitAt? (count : Nat) (text : List Char) : Option (List Char × List Char) :=
  if count ≤ text.length then some (text.splitAt count) else none

def readUnicode (text : List Char) : Option (Element × List Char) :=
  if text.head? = some '{' then do
    let digits := text.tail.takeWhile fun c => (hexValue c).isSome
    let rest := text.tail.dropWhile fun c => (hexValue c).isSome
    let value ← hexNumber digits
    if rest.head? = some '}' ∧ digits ≠ [] ∧ value ≤ 0x10ffff then some (.unicode value, rest.tail) else none
  else do
    let (digits, rest) ← splitAt? 4 text
    let value ← hexNumber digits
    return (.unicode value, rest)

def readHex (text : List Char) : Option (Element × List Char) := do
  let (digits, rest) ← splitAt? 2 text
  let value ← hexNumber digits
  return (.escaped (Char.ofNat value), rest)

/-- A character after the backslash stands for itself unless it is one of these. -/
def singleEscape (c : Char) : Char :=
  if c = 'b' then '\x08'
  else if c = 't' then '\t'
  else if c = 'n' then '\n'
  else if c = 'v' then '\x0b'
  else if c = 'f' then '\x0c'
  else if c = 'r' then '\r'
  else c

def readEscape : List Char → Option (Element × List Char)
  | [] => none
  | first :: rest =>
    if first = 'u' then readUnicode rest
    else if first = 'x' then readHex rest
    else if isOctal first then some (readOctal first rest)
    else if first = '\r' ∧ rest.head? = some '\n' then some (.continuation, rest.tail)
    else if isLineTerminator first then some (.continuation, rest)
    else some (.escaped (singleEscape first), rest)

/-- U+2028 and U+2029 may stand in a literal as they are. -/
def readElement (quote : Char) : List Char → Option (Element × List Char)
  | [] => none
  | first :: rest =>
    if first = '\\' then readEscape rest
    else if first = quote ∨ first = '\n' ∨ first = '\r' then none
    else some (.plain first, rest)

def readBody (quote : Char) : (fuel : Nat) → List Char → Option (List Element)
  | 0, _ => none
  | fuel + 1, text =>
    if text = [quote] then some []
    else do
      let (element, rest) ← readElement quote text
      let elements ← readBody quote fuel rest
      return element :: elements

def isQuote (c : Char) : Bool := c == '"' || c == '\x27'

def elements : List Char → Option (List Element)
  | [] => none
  | quote :: rest => if isQuote quote then readBody quote rest.length rest else none

def valueOf (elements : List Element) : List Nat := elements.flatMap Element.units

def stringValue (literal : List Char) : Option (List Nat) := (elements literal).map valueOf

/-! ## How elements are spelled -/

inductive Spells : Element → List Char → Prop
  | plain {c : Char} (hPlain : c ≠ '\\') : Spells (.plain c) [c]
  | escaped {c first : Char} {more : List Char} (hFirst : first ≠ 'u') (hMore : '\\' ∉ more) :
    Spells (.escaped c) ('\\' :: first :: more)
  | continuation {first : Char} {more : List Char} (hFirst : first ≠ 'u') (hMore : '\\' ∉ more) :
    Spells .continuation ('\\' :: first :: more)
  | unicode {digits : List Char} {value : Nat} (hLength : digits.length = 4) (hValue : hexNumber digits = some value) :
    Spells (.unicode value) ('\\' :: 'u' :: digits)
  | codePoint {digits : List Char} {value : Nat} (hDigits : digits ≠ []) (hValue : hexNumber digits = some value)
    (hMax : value ≤ 0x10ffff) : Spells (.unicode value) ('\\' :: 'u' :: '{' :: (digits ++ ['}']))

/-- A text that is the elements one after the other and the closing quote. -/
inductive Body (quote : Char) : List Element → List Char → Prop
  | closed : Body quote [] [quote]
  | more {element : Element} {elements : List Element} {spelled rest : List Char} (hElement : Spells element spelled)
    (hRest : Body quote elements rest) : Body quote (element :: elements) (spelled ++ rest)

variable {c quote : Char} {value high low : Nat} {digits text rest : List Char} {element : Element}

theorem toNat_lt_of_hexDigit (h : hexValue c = some value) : c.toNat < 128 := by
  have hUpper (bound : Char) (hBound : c ≤ bound) : c.toNat ≤ bound.toNat := UInt32.le_iff_toNat_le.mp hBound
  rw [hexValue] at h
  split_ifs at h with hDigit hLower hCapital
  · exact Nat.lt_of_le_of_lt (hUpper _ hDigit.2) (by decide)
  · exact Nat.lt_of_le_of_lt (hUpper _ hLower.2) (by decide)
  · exact Nat.lt_of_le_of_lt (hUpper _ hCapital.2) (by decide)

theorem hexDigit_lt (h : hexValue c = some value) : value < 16 := by
  have hUpper (bound : Char) (hBound : c ≤ bound) : c.toNat ≤ bound.toNat := UInt32.le_iff_toNat_le.mp hBound
  rw [hexValue] at h
  split_ifs at h with hDigit hLower hCapital
  · cases h
    have hNine : c.toNat ≤ 57 := hUpper '9' hDigit.2
    omega
  · cases h
    have hF : c.toNat ≤ 102 := hUpper 'f' hLower.2
    omega
  · cases h
    have hF : c.toNat ≤ 70 := hUpper 'F' hCapital.2
    omega

theorem ne_backslash_of_hexDigit (h : hexValue c = some value) : c ≠ '\\' := by
  rintro rfl
  cases h

theorem hexNumber_concat (digits : List Char) (c : Char) :
    hexNumber (digits ++ [c]) = (hexNumber digits).bind fun value => (hexValue c).map (value * 16 + ·) := by
  simp [hexNumber]

theorem hexDigit_of_hexNumber (h : hexNumber digits = some value) :
    ∀ c ∈ digits, ∃ digit, hexValue c = some digit := by
  induction digits using List.reverseRecOn generalizing value with
  | nil => exact nofun
  | append_singleton digits c ih =>
    rw [hexNumber_concat, Option.bind_eq_some_iff] at h
    obtain ⟨front, hFront, hLast⟩ := h
    obtain ⟨digit, hDigit, -⟩ := Option.map_eq_some_iff.mp hLast
    intro other hMem
    rcases List.mem_append.mp hMem with hMem | hMem
    · exact ih hFront other hMem
    · obtain rfl := List.mem_singleton.mp hMem
      exact ⟨digit, hDigit⟩

theorem splitAt?_eq_some {count : Nat} {front back : List Char} (h : splitAt? count text = some (front, back)) :
    text = front ++ back ∧ front.length = count := by
  rw [splitAt?] at h
  split_ifs at h with hCount
  rw [List.splitAt_eq, Option.some.injEq, Prod.mk.injEq] at h
  obtain ⟨rfl, rfl⟩ := h
  exact ⟨(List.take_append_drop count text).symm, List.length_take_of_le hCount⟩

theorem splitAt?_append (front back : List Char) : splitAt? front.length (front ++ back) = some (front, back) := by
  rw [splitAt?, if_pos (by simp), List.splitAt_eq, List.take_left, List.drop_left]

theorem readUnicode_digits (hLength : digits.length = 4) (hValue : hexNumber digits = some value) (rest : List Char) :
    readUnicode (digits ++ rest) = some (.unicode value, rest) := by
  have hDigit := hexDigit_of_hexNumber hValue
  have hBrace : (digits ++ rest).head? ≠ some '\x7b' := by
    obtain ⟨first, more, rfl⟩ := List.exists_cons_of_length_eq_add_one hLength
    intro hHead
    obtain rfl : first = '\x7b' := Option.some.inj hHead
    obtain ⟨_, h⟩ := hDigit _ List.mem_cons_self
    cases h
  rw [readUnicode, if_neg hBrace, ← hLength, splitAt?_append]
  change (hexNumber digits).bind _ = _
  rw [hValue]
  rfl

theorem eq_cons_of_head? (h : text.head? = some c) : text = c :: text.tail := by
  cases text with
  | nil => cases h
  | cons first rest =>
    cases h
    rfl

theorem spells_readUnicode (h : readUnicode text = some (element, rest)) :
    ∃ spelled, '\\' :: 'u' :: text = spelled ++ rest ∧ Spells element spelled := by
  rw [readUnicode] at h
  split_ifs at h with hBrace
  · obtain ⟨value, hValue, h⟩ := Option.bind_eq_some_iff.mp h
    split_ifs at h with hValid
    obtain ⟨hClose, hDigits, hMax⟩ := hValid
    cases h
    refine ⟨_, ?_, .codePoint hDigits hValue hMax⟩
    have hText := List.takeWhile_append_dropWhile (p := fun c => (hexValue c).isSome) (l := text.tail)
    rw [eq_cons_of_head? hClose] at hText
    conv_lhs => rw [eq_cons_of_head? hBrace, ← hText]
    simp
  · obtain ⟨⟨digits, after⟩, hSplit, h⟩ := Option.bind_eq_some_iff.mp h
    obtain ⟨value, hValue, h⟩ := Option.bind_eq_some_iff.mp h
    cases h
    obtain ⟨rfl, hLength⟩ := splitAt?_eq_some hSplit
    exact ⟨_, rfl, .unicode hLength hValue⟩

theorem spells_readHex (h : readHex text = some (element, rest)) :
    ∃ spelled, '\\' :: 'x' :: text = spelled ++ rest ∧ Spells element spelled := by
  obtain ⟨⟨digits, after⟩, hSplit, h⟩ := Option.bind_eq_some_iff.mp h
  obtain ⟨value, hValue, h⟩ := Option.bind_eq_some_iff.mp h
  cases h
  obtain ⟨rfl, -⟩ := splitAt?_eq_some hSplit
  refine ⟨_, rfl, .escaped (by decide) fun hMem => ?_⟩
  obtain ⟨_, hDigit⟩ := hexDigit_of_hexNumber hValue _ hMem
  exact ne_backslash_of_hexDigit hDigit rfl

theorem spells_readOctal (first : Char) (hFirst : isOctal first = true) (text : List Char) :
    ∃ spelled, '\\' :: first :: text = spelled ++ (readOctal first text).2 ∧
      Spells (readOctal first text).1 spelled := by
  have hNotU : first ≠ 'u' := by
    rintro rfl
    cases hFirst
  have hPrefix : (text.take (if first ≤ '3' then 2 else 1)).takeWhile isOctal <+: text :=
    (List.takeWhile_prefix _).trans (List.take_prefix _ _)
  refine ⟨'\\' :: first :: (text.take (if first ≤ '3' then 2 else 1)).takeWhile isOctal, ?_, .escaped hNotU ?_⟩
  · rw [readOctal, List.cons_append, List.cons_append, List.prefix_iff_eq_append.mp hPrefix]
  · intro hMem
    exact absurd (List.mem_takeWhile_imp hMem) (by decide)

theorem spells_readEscape (h : readEscape text = some (element, rest)) :
    ∃ spelled, '\\' :: text = spelled ++ rest ∧ Spells element spelled := by
  cases text with
  | nil => cases h
  | cons first text =>
    rw [readEscape] at h
    split_ifs at h with hUnicode hHex hOctal hCrLf hTerminator
    · subst hUnicode
      exact spells_readUnicode h
    · subst hHex
      exact spells_readHex h
    · rw [Option.some.injEq] at h
      have hSpells := spells_readOctal first hOctal text
      rwa [h] at hSpells
    · cases h
      refine ⟨['\\', first, '\n'], ?_, .continuation hUnicode (by decide)⟩
      rw [eq_cons_of_head? hCrLf.2]
      rfl
    · cases h
      exact ⟨['\\', first], rfl, .continuation hUnicode List.not_mem_nil⟩
    · cases h
      exact ⟨['\\', first], rfl, .escaped hUnicode List.not_mem_nil⟩

theorem spells_readElement
    (h : readElement quote text = some (element, rest)) :
    ∃ spelled, text = spelled ++ rest ∧ Spells element spelled := by
  cases text with
  | nil => cases h
  | cons first text =>
    rw [readElement] at h
    split_ifs at h with hBackslash hEnd
    · subst hBackslash
      exact spells_readEscape h
    · cases h
      exact ⟨[first], rfl, .plain hBackslash⟩

theorem body_of_readBody {fuel : Nat} {elements : List Element}
    (h : readBody quote fuel text = some elements) : Body quote elements text := by
  induction fuel generalizing text elements with
  | zero => cases h
  | succ fuel ih =>
    rw [readBody] at h
    split_ifs at h with hClosed
    · cases h
      rw [hClosed]
      exact .closed
    · obtain ⟨⟨element, rest⟩, hElement, h⟩ := Option.bind_eq_some_iff.mp h
      obtain ⟨more, hMore, h⟩ := Option.bind_eq_some_iff.mp h
      cases h
      obtain ⟨spelled, rfl, hSpells⟩ := spells_readElement hElement
      exact .more hSpells (ih hMore)

theorem body_of_elements {literal : List Char} {items : List Element} (h : elements literal = some items) :
    ∃ quote rest, literal = quote :: rest ∧ isQuote quote = true ∧ Body quote items rest := by
  cases literal with
  | nil => cases h
  | cons quote rest =>
    rw [elements] at h
    split_ifs at h with hQuote
    exact ⟨quote, rest, rfl, hQuote, body_of_readBody h⟩

/-! ## Unpaired surrogates -/

theorem toNat_cases (c : Char) : c.toNat < 0xd800 ∨ 0xdfff < c.toNat ∧ c.toNat < 0x110000 := c.valid

theorem hasUnpaired_cons {unit : Nat} (hHigh : isHighSurrogate unit = false) (hLow : isLowSurrogate unit = false)
    (rest : List Nat) : hasUnpaired (unit :: rest) = hasUnpaired rest := by
  cases rest with
  | nil => simp [hasUnpaired, hHigh, hLow]
  | cons next rest => simp [hasUnpaired, hHigh, hLow]

theorem hasUnpaired_pair (hHigh : isHighSurrogate high = true) (hLow : isLowSurrogate low = true)
    (rest : List Nat) : hasUnpaired (high :: low :: rest) = hasUnpaired rest := by
  simp [hasUnpaired, hHigh, hLow]

theorem hasUnpaired_low (hLow : isLowSurrogate low = true) (rest : List Nat) :
    hasUnpaired (low :: rest) = true := by
  have hHigh : isHighSurrogate low = false := by
    simp only [isLowSurrogate, isHighSurrogate, Bool.and_eq_true, decide_eq_true_eq, Bool.and_eq_false_iff,
      decide_eq_false_iff_not] at *
    omega
  cases rest with
  | nil => simp [hasUnpaired, hLow]
  | cons next rest => simp [hasUnpaired, hHigh, hLow]

theorem hasUnpaired_codeUnits (hHigh : isHighSurrogate value = false)
    (hLow : isLowSurrogate value = false) (hMax : value ≤ 0x10ffff) (rest : List Nat) :
    hasUnpaired (codeUnits value ++ rest) = hasUnpaired rest := by
  rw [codeUnits]
  split_ifs with hBmp
  · exact hasUnpaired_cons hHigh hLow rest
  · apply hasUnpaired_pair
    · simp only [isHighSurrogate, Bool.and_eq_true, decide_eq_true_eq]
      omega
    · simp only [isLowSurrogate, Bool.and_eq_true, decide_eq_true_eq]
      omega

theorem not_surrogate (c : Char) : isHighSurrogate c.toNat = false ∧ isLowSurrogate c.toNat = false := by
  have hChar := toNat_cases c
  simp only [isHighSurrogate, isLowSurrogate, Bool.and_eq_false_iff, decide_eq_false_iff_not]
  omega

theorem hasUnpaired_char (c : Char) (rest : List Nat) :
    hasUnpaired (codeUnits c.toNat ++ rest) = hasUnpaired rest := by
  have hChar := toNat_cases c
  exact hasUnpaired_codeUnits (not_surrogate c).1 (not_surrogate c).2 (by omega) rest

theorem hasUnpaired_high {rest : List Nat} (hHigh : isHighSurrogate high = true)
    (hNext : ∀ next ∈ rest.head?, isLowSurrogate next = false) : hasUnpaired (high :: rest) = true := by
  cases rest with
  | nil => simp [hasUnpaired, hHigh]
  | cons next rest =>
    have hLow := hNext next rfl
    simp [hasUnpaired, hHigh, hLow]

end Lib.EcmaString
