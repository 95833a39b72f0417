import Mathlib

/-! # Stable string identifiers -/
namespace Weregopher

structure IdentifierError where
  (kind value reason : String)
  deriving DecidableEq

def isStableChar (c : Char) : Bool := c.isLower || c.isDigit || c == '.' || c == '-' || c == '_'

def isSeparator (c : Char) : Bool := c == '.' || c == '-' || c == '_'

def hasEmptySegment : List Char → Bool
  | '.' :: '.' :: _ => true
  | _ :: rest => hasEmptySegment rest
  | [] => false

def validateStableName (kind value : String) : Except IdentifierError String :=
  let chars := value.toList
  if value.isEmpty then
    .error ⟨kind, value, "must not be empty"⟩
  else if value.utf8ByteSize > 255 then
    .error ⟨kind, value, "must not exceed 255 bytes"⟩
  else if chars.head?.any isSeparator || chars.getLast?.any isSeparator then
    .error ⟨kind, value, "must start and end with an ASCII lowercase letter or digit"⟩
  else if !chars.all isStableChar then
    .error ⟨kind, value, "contains a character outside [a-z0-9._-]"⟩
  else if hasEmptySegment chars then
    .error ⟨kind, value, "must not contain an empty dotted segment"⟩
  else
    .ok value

structure StableId (kind : String) where
  value : String
  valid : validateStableName kind value = .ok value
  deriving DecidableEq

theorem StableId.bounded {kind : String} (id : StableId kind) :
    id.value.utf8ByteSize ≤ 255 ∧ ∀ c ∈ id.value.toList, isStableChar c = true := by
  have hValid := id.valid
  rw [validateStableName] at hValid
  split_ifs at hValid with hEmpty hLong hEnds hChars hSegments
  rw [Bool.not_eq_true, Bool.not_eq_false', List.all_eq_true] at hChars
  exact ⟨Nat.not_lt.mp hLong, hChars⟩

abbrev AdapterId := StableId "adapter"

abbrev ApplicationFamilyId := StableId "application family"

abbrev RuntimeBackendId := StableId "runtime backend"

abbrev Uuid := BitVec 128

end Weregopher
