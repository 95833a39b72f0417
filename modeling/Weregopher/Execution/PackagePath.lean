import Weregopher.Asar.Path

/-! # Package paths and member names

A package path is checked name by name by rules of its own. Of the names that an archive
may have, it refuses the devices that the archive does not know.
-/
namespace Weregopher
open Lib.Checked Lib.Outcome

inductive ExecutionTargetContractError
  | invalidPackagePath
  deriving DecidableEq

def maxExecutionPackagePathBytes : Nat := 4 * 1024

def maxExecutionPackagePathComponents : Nat := 256

def isInvalidWindowsPathCharacter (character : Char) : Bool :=
  character.toNat ≤ 0x1f || ['<', '>', ':', '"', '\\', '|', '?', '*'].contains character

variable (component : List Char)

/-- The name up to its first dot, without the blanks and dots at its end, in capitals. -/
def deviceStem : List Char :=
  (((component.takeWhile (· ≠ '.')).rdropWhile ([' ', '.'].contains ·)).map Char.toUpper)

def isReservedWindowsComponent : Bool :=
  let uppercase := deviceStem component
  ["CON", "PRN", "AUX", "NUL", "CONIN$", "CONOUT$", "CLOCK$"].any (·.toList = uppercase) ||
    ["COM", "LPT"].any fun port =>
      (uppercase.dropPrefix? port.toList).any fun suffix =>
        ["1", "2", "3", "4", "5", "6", "7", "8", "9", "¹", "²", "³"].any (·.toList = suffix)

def invalidComponent : Bool :=
  component.isEmpty || component = ['.'] || component = ['.', '.'] ||
    component.getLast?.any (['.', ' '].contains ·) || component.any isInvalidWindowsPathCharacter ||
    isReservedWindowsComponent component

def validateComponents : Nat → List (List Char) → Except ExecutionTargetContractError Nat
  | count, [] => .ok count
  | count, component :: rest => do
    let count ← okOr .invalidPackagePath (checkedAdd usizeMax count 1)
    if invalidComponent component then throw .invalidPackagePath
    validateComponents count rest

def validatePackagePath (path : String) : Except ExecutionTargetContractError Unit := do
  if path = "" ∨ path.utf8ByteSize > maxExecutionPackagePathBytes then throw .invalidPackagePath
  if path.toList.head? = some '/' ∨ path.toList.getLast? = some '/' then throw .invalidPackagePath
  let componentCount ← validateComponents 0 (path.toList.splitOn '/')
  if componentCount > maxExecutionPackagePathComponents then throw .invalidPackagePath

/-! ### Devices -/

def knownDevices : List (List Char) := Asar.reservedStems.map fun stem => stem.toList.map Char.toUpper

def missedDevices : List (List Char) :=
  ["CONIN$", "CONOUT$", "CLOCK$", "COM¹", "COM²", "COM³", "LPT¹", "LPT²", "LPT³"].map String.toList

theorem any_dropPrefix? {letters port : List Char} {p : List Char → Bool} :
    (letters.dropPrefix? port).any p = true ↔ ∃ suffix, letters = port ++ suffix ∧ p suffix = true := by
  rw [Option.any_eq_true]
  simp [List.dropPrefix?_eq_some_iff]

theorem isReservedWindowsComponent_iff {component : List Char} :
    isReservedWindowsComponent component = true ↔
      deviceStem component ∈ knownDevices ∨ deviceStem component ∈ missedDevices := by
  let names := ["CON", "PRN", "AUX", "NUL", "CONIN$", "CONOUT$", "CLOCK$"].map String.toList
  let ports := ["COM", "LPT"].flatMap fun port =>
    ["1", "2", "3", "4", "5", "6", "7", "8", "9", "¹", "²", "³"].map fun suffix => port.toList ++ suffix.toList
  have hSame : ∀ device, device ∈ names ++ ports ↔ device ∈ knownDevices ++ missedDevices :=
    fun _ => ⟨fun h => (by decide : names ++ ports ⊆ knownDevices ++ missedDevices) h,
      fun h => (by decide : knownDevices ++ missedDevices ⊆ names ++ ports) h⟩
  rw [← List.mem_append, ← hSame, List.mem_append]
  simp only [isReservedWindowsComponent, Bool.or_eq_true, List.any_eq_true, any_dropPrefix?, decide_eq_true_eq, names,
    ports, List.mem_map, List.mem_flatMap]
  refine or_congr Iff.rfl (exists_congr fun port => and_congr_right fun _ => ?_)
  constructor
  · rintro ⟨_, hStem, suffix, hSuffix, rfl⟩
    exact ⟨suffix, hSuffix, hStem.symm⟩
  · rintro ⟨suffix, hSuffix, hStem⟩
    exact ⟨_, hStem.symm, suffix, hSuffix, rfl⟩

/-- A name that stands for a device by the rules of package paths and not by those of archives. -/
def MissedDevice (name : String) : Prop :=
  deviceStem name.toList ∈ missedDevices ∨
    deviceStem name.toList ∈ knownDevices ∧ (name.toList.takeWhile (· ≠ '.')).getLast? = some ' '

theorem toLower_toUpper (c : Char) : c.toUpper.toLower = c.toLower := by
  by_cases hLower : 'a'.val ≤ c.val ∧ c.val ≤ 'z'.val
  · have hRange : 97 ≤ c.toNat ∧ c.toNat ≤ 122 := by
      simpa [UInt32.le_iff_toNat_le] using hLower
    obtain ⟨hFirst, hLast⟩ := hRange
    have hChar := Char.ofNat_toNat c
    generalize c.toNat = n at *
    subst hChar
    interval_cases n <;> rfl
  · have hSame : c.toUpper = c := dif_neg hLower
    rw [hSame]

theorem deviceStem_eq {component : List Char} (h : (component.takeWhile (· ≠ '.')).getLast? ≠ some ' ') :
    deviceStem component = (component.takeWhile (· ≠ '.')).map Char.toUpper := by
  rw [deviceStem, List.rdropWhile_eq_self_iff.mpr]
  intro hNil hLast
  have hMem := List.getLast_mem hNil
  have hDot := List.mem_takeWhile_imp hMem
  simp only [List.contains_cons, List.contains_nil, Bool.or_false, Bool.or_eq_true, beq_iff_eq] at hLast
  rcases hLast with hBlank | hPoint
  · exact h (List.getLast?_eq_some_getLast hNil ▸ congrArg some hBlank)
  · exact of_decide_eq_true hDot hPoint

theorem reserved_iff_missed {name : String} (h : Asar.validMemberName name = true) :
    isReservedWindowsComponent name.toList = true ↔ MissedDevice name := by
  rw [isReservedWindowsComponent_iff, MissedDevice]
  constructor
  · rintro (hKnown | hMissed)
    · refine .inr ⟨hKnown, ?_⟩
      by_contra hBlank
      rw [deviceStem_eq hBlank] at hKnown
      obtain ⟨stem, hStem, hUpper⟩ := List.mem_map.mp hKnown
      -- The archive compares the same letters in lower case.
      have hLower : stem.toList = (name.toList.takeWhile (· ≠ '.')).map Char.toLower := by
        have hLowered := congrArg (List.map Char.toLower) hUpper
        simp only [List.map_map, Function.comp_def, toLower_toUpper] at hLowered
        rw [← hLowered]
        have hAll : ∀ stem ∈ Asar.reservedStems, stem.toList.map Char.toLower = stem.toList := by decide
        exact (hAll stem hStem).symm
      have hReserved : Asar.reservedStems.contains (Asar.stem name) = true := by
        rw [Asar.stem, ← hLower, String.ofList_toList]
        exact List.contains_iff_mem.mpr hStem
      rw [Asar.validMemberName, hReserved, Bool.not_true, Bool.and_false] at h
      cases h
    · exact .inl hMissed
  · rintro (hMissed | ⟨hKnown, -⟩)
    · exact .inr hMissed
    · exact .inl hKnown

theorem invalidComponent_iff {name : String} (h : Asar.validMemberName name = true) :
    invalidComponent name.toList = true ↔ MissedDevice name := by
  rw [← reserved_iff_missed h, invalidComponent]
  simp only [Asar.validMemberName, Bool.and_eq_true, Bool.not_eq_true', Bool.or_eq_false_iff, beq_eq_false_iff_ne] at h
  obtain ⟨⟨⟨⟨⟨hEmpty, hDot⟩, hDots⟩, hLast⟩, hForbidden⟩, -⟩ := h
  have hCharacters : name.toList.any isInvalidWindowsPathCharacter = false := by
    rw [List.any_eq_false] at hForbidden ⊢
    intro character hCharacter hInvalid
    apply hForbidden character hCharacter
    simp only [isInvalidWindowsPathCharacter, Asar.forbidden, Bool.or_eq_true, List.contains_iff_mem] at hInvalid ⊢
    exact hInvalid.imp_right fun hMem => (by decide : _ ⊆ ['/', '\\', ':', '<', '>', '"', '|', '?', '*']) hMem
  have hNotEmpty : name.toList.isEmpty = false := by
    rw [List.isEmpty_eq_false_iff]
    simpa using hEmpty
  have hNotDot (text : String) (hNe : name ≠ text) : decide (name.toList = text.toList) = false := by
    rw [decide_eq_false_iff_not, String.toList_inj]
    exact hNe
  have hOne : decide (name.toList = ['.']) = false := hNotDot "." hDot
  have hTwo : decide (name.toList = ['.', '.']) = false := hNotDot ".." hDots
  rw [hNotEmpty, hOne, hTwo, hLast, hCharacters]
  simp

/-- A valid member name of an allowed length is a package path unless it is a device the archive missed. -/
theorem member_name_is_package_path_iff (name : String) (hName : Asar.validMemberName name = true)
    (hLength : name.utf8ByteSize ≤ maxExecutionPackagePathBytes) :
    validatePackagePath name = .ok () ↔ ¬MissedDevice name := by
  have hSlash := Asar.slash_notMem_of_valid hName
  have hHead : ¬(name.toList.head? = some '/' ∨ name.toList.getLast? = some '/') := by
    rintro (hFirst | hLast)
    · exact hSlash (List.mem_of_mem_head? hFirst)
    · exact hSlash (List.mem_of_mem_getLast? hLast)
  have hStart : ¬(name = "" ∨ name.utf8ByteSize > maxExecutionPackagePathBytes) := by
    rintro (hEmpty | hLong)
    · exact Asar.ne_empty_of_valid hName hEmpty
    · omega
  have hComponent : validateComponents 0 [name.toList] =
      if invalidComponent name.toList then .error .invalidPackagePath else .ok 1 := rfl
  rw [validatePackagePath, if_neg hStart, if_neg hHead, List.splitOn_eq_singleton hSlash, hComponent,
    ← invalidComponent_iff hName]
  cases invalidComponent name.toList with
  | true => exact iff_of_false nofun (not_not.mpr rfl)
  | false => exact iff_of_true rfl nofun

/-- The blank before the dot hides the device from the archive, and consoles are not on its list. -/
theorem archive_misses_devices :
    (Asar.validMemberName "con .txt" = true ∧ "con .txt".utf8ByteSize ≤ maxExecutionPackagePathBytes ∧
      validatePackagePath "con .txt" = .error .invalidPackagePath ∧
      isReservedWindowsComponent "con .txt".toList = true) ∧
    (Asar.validMemberName "CONIN$" = true ∧ validatePackagePath "CONIN$" = .error .invalidPackagePath) ∧
    Asar.validMemberName "COM¹" = true ∧ validatePackagePath "COM¹" = .error .invalidPackagePath := by
  decide +kernel

theorem plain_member_name_is_package_path :
    (Asar.validMemberName "a.txt" = true ∧ "a.txt".utf8ByteSize ≤ maxExecutionPackagePathBytes) ∧
      (validatePackagePath "a.txt" = .ok () ↔ ¬MissedDevice "a.txt") :=
  ⟨by decide +kernel, member_name_is_package_path_iff "a.txt" (by decide +kernel) (by decide +kernel)⟩

end Weregopher
