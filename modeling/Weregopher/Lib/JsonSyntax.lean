import Weregopher.Lib.JsonText
import Weregopher.Lib.Utf8

/-! # JSON texts

A reader of the whole grammar of JSON texts: blanks, all escapes with surrogate
pairs, fractions and exponents. It gives the tree of a text, or nothing when the
characters are no JSON text. Trees are measured by their levels and their values.
-/
namespace Lib.Json
open Lib.Bytes Lib.Decimal

def isBlank (c : Char) : Bool := c = ' ' || c = '\t' || c = '\n' || c = '\r'

variable (input : List Char)

def skipBlanks : List Char := input.dropWhile isBlank

/-- The code unit of the four digits after `\u`. -/
def codeUnit (a b c d : Char) : Option Nat := do
  let a ← hexValue a
  let b ← hexValue b
  let c ← hexValue c
  let d ← hexValue d
  return ((16 * a + b) * 16 + c) * 16 + d

def isLeading (unit : Nat) : Bool := 0xd800 ≤ unit && unit < 0xdc00

def isTrailing (unit : Nat) : Bool := 0xdc00 ≤ unit && unit < 0xe000

def surrogatePair (leading trailing : Nat) : Char :=
  Char.ofNat (0x10000 + (leading - 0xd800) * 0x400 + (trailing - 0xdc00))

def shortEscapes : List (Char × Char) :=
  [('"', '"'), ('\\', '\\'), ('/', '/'), ('b', Char.ofNat 8), ('f', Char.ofNat 12), ('n', '\n'), ('r', '\r'),
    ('t', '\t')]

/-- The characters a string stands for, up to its closing quote. A surrogate only stands in a pair. -/
def readString : List Char → Option (List Char × List Char)
  | [] => none
  | '"' :: rest => some ([], rest)
  | '\\' :: 'u' :: a :: b :: c :: d :: rest =>
    match codeUnit a b c d with
    | none => none
    | some unit =>
      if isTrailing unit then none
      else if isLeading unit then
        match rest with
        | '\\' :: 'u' :: e :: f :: g :: h :: rest =>
          match codeUnit e f g h with
          | none => none
          | some low =>
            if isTrailing low then
              (readString rest).map fun (text, rest) => (surrogatePair unit low :: text, rest)
            else none
        | _ => none
      else (readString rest).map fun (text, rest) => (Char.ofNat unit :: text, rest)
  | '\\' :: escape :: rest =>
    match shortEscapes.lookup escape with
    | none => none
    | some c => (readString rest).map fun (text, rest) => (c :: text, rest)
  | c :: rest =>
    if c.toNat < 32 ∨ c = '\\' then none
    else (readString rest).map fun (text, rest) => (c :: text, rest)

def readDigits : Option (List Char × List Char) :=
  let front := input.takeWhile Char.isDigit
  if front.isEmpty then none else some (front, input.dropWhile Char.isDigit)

def readFraction : List Char → Option (List Char × List Char)
  | '.' :: rest => (readDigits rest).map fun (digits, rest) => ('.' :: digits, rest)
  | rest => some ([], rest)

def readSign : List Char → List Char × List Char
  | '-' :: rest => (['-'], rest)
  | '+' :: rest => (['+'], rest)
  | rest => ([], rest)

def readExponent : List Char → Option (List Char × List Char)
  | 'e' :: rest | 'E' :: rest =>
    let (sign, rest) := readSign rest
    (readDigits rest).map fun (digits, rest) => ('e' :: (sign ++ digits), rest)
  | rest => some ([], rest)

def readMagnitude (negative : Bool) (input : List Char) : Option (Json × List Char) := do
  let (whole, rest) ← readDigits input
  if 1 < whole.length ∧ whole.head? = some '0' then none
  let (fraction, rest) ← readFraction rest
  let (exponent, rest) ← readExponent rest
  if fraction = [] ∧ exponent = [] then
    return (.integer (if negative then -(value whole : Int) else value whole), rest)
  return (.decimal (String.ofList ((if negative then ['-'] else []) ++ whole ++ fraction ++ exponent)), rest)

def readNumber : List Char → Option (Json × List Char)
  | '-' :: rest => readMagnitude true rest
  | rest => readMagnitude false rest

def readName : Option (String × List Char) :=
  match skipBlanks input with
  | '"' :: rest => do
    let (name, rest) ← readString rest
    match skipBlanks rest with
    | ':' :: rest => return (String.ofList name, rest)
    | _ => none
  | _ => none

mutual

/-- One value behind blanks and the rest of the text. Every call uses up a character, so the length of
the text is enough fuel. -/
def readValue : Nat → List Char → Option (Json × List Char)
  | 0, _ => none
  | fuel + 1, input =>
    match skipBlanks input with
    | 'n' :: 'u' :: 'l' :: 'l' :: rest => some (.null, rest)
    | 't' :: 'r' :: 'u' :: 'e' :: rest => some (.bool true, rest)
    | 'f' :: 'a' :: 'l' :: 's' :: 'e' :: rest => some (.bool false, rest)
    | '"' :: rest => (readString rest).map fun (text, rest) => (.string (String.ofList text), rest)
    | '[' :: rest =>
      match skipBlanks rest with
      | ']' :: rest => some (.array [], rest)
      | _ => do
        let (first, rest) ← readValue fuel rest
        let (items, rest) ← readItems fuel rest
        return (.array (first :: items), rest)
    | '{' :: rest =>
      match skipBlanks rest with
      | '}' :: rest => some (.object [], rest)
      | _ => do
        let (name, rest) ← readName rest
        let (value, rest) ← readValue fuel rest
        let (members, rest) ← readMembers fuel rest
        return (.object ((name, value) :: members), rest)
    | input => readNumber input

def readItems : Nat → List Char → Option (List Json × List Char)
  | 0, _ => none
  | fuel + 1, input =>
    match skipBlanks input with
    | ']' :: rest => some ([], rest)
    | ',' :: rest => do
      let (item, rest) ← readValue fuel rest
      let (items, rest) ← readItems fuel rest
      return (item :: items, rest)
    | _ => none

def readMembers : Nat → List Char → Option (List (String × Json) × List Char)
  | 0, _ => none
  | fuel + 1, input =>
    match skipBlanks input with
    | '}' :: rest => some ([], rest)
    | ',' :: rest => do
      let (name, rest) ← readName rest
      let (value, rest) ← readValue fuel rest
      let (members, rest) ← readMembers fuel rest
      return ((name, value) :: members, rest)
    | _ => none

end

def readText : Option Json :=
  match readValue (input.length + 1) input with
  | some (json, rest) => if skipBlanks rest = [] then some json else none
  | none => none

def readBytes (bytes : List UInt8) : Option Json := (chars? bytes).bind readText

mutual

/-- The number of values from the root to the deepest one, both included. -/
def levels : Json → Nat
  | .array items => 1 + itemsLevels items
  | .object members => 1 + membersLevels members
  | _ => 1

def itemsLevels : List Json → Nat
  | [] => 0
  | item :: rest => max (levels item) (itemsLevels rest)

def membersLevels : List (String × Json) → Nat
  | [] => 0
  | (_, value) :: rest => max (levels value) (membersLevels rest)

end

mutual

def nodes : Json → Nat
  | .array items => 1 + itemsNodes items
  | .object members => 1 + membersNodes members
  | _ => 1

def itemsNodes : List Json → Nat
  | [] => 0
  | item :: rest => nodes item + itemsNodes rest

def membersNodes : List (String × Json) → Nat
  | [] => 0
  | (_, value) :: rest => nodes value + membersNodes rest

end

mutual

def distinctNames : Json → Bool
  | .array items => itemsDistinct items
  | .object members => (members.map Prod.fst).Nodup && membersDistinct members
  | _ => true

def itemsDistinct : List Json → Bool
  | [] => true
  | item :: rest => distinctNames item && itemsDistinct rest

def membersDistinct : List (String × Json) → Bool
  | [] => true
  | (_, value) :: rest => distinctNames value && membersDistinct rest

end

mutual

def numbersAll (P : Json → Bool) : Json → Bool
  | .array items => itemsNumbers P items
  | .object members => membersNumbers P members
  | .integer value => P (.integer value)
  | .decimal literal => P (.decimal literal)
  | _ => true

def itemsNumbers (P : Json → Bool) : List Json → Bool
  | [] => true
  | item :: rest => numbersAll P item && itemsNumbers P rest

def membersNumbers (P : Json → Bool) : List (String × Json) → Bool
  | [] => true
  | (_, value) :: rest => numbersAll P value && membersNumbers P rest

end

end Lib.Json
