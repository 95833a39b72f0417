import Weregopher.Asar.PackedLayout

/-! # Archives under replacements

A replacement makes its one update after every check, so what parsing established
stays with the archive through any sequence of attempts.
-/
namespace Weregopher.Asar
open Lib Lib.Checked Lib.Outcome Lib.Stateful

theorem checkedTotal_eq_some {total sum : Nat} {files : List (String × PackedFile)} :
    checkedTotal total files = some sum → sum = total + (files.map (·.2.bytes.length)).sum := by
  induction files generalizing total with
  | nil =>
    intro h
    cases h
    simp
  | cons file rest ih =>
    intro h
    rw [checkedTotal, Option.bind_eq_some_iff] at h
    obtain ⟨next, hNext, hRest⟩ := h
    obtain ⟨-, rfl⟩ := checkedAdd_eq_some.mp hNext
    rw [ih hRest, List.map_cons, List.sum_cons]
    omega

/-- A successful replacement of the member at `path`. -/
structure Replaced (before : AsarArchive) (path : String) (replacement : List UInt8) (file : PackedFile)
    (after : AsarArchive) : Prop where
  member : before.files.find? path = some file
  files : after.files = before.files.insert path { file with bytes := replacement }
  limits : after.limits = before.limits
  size : replacement.length ≤ before.limits.maxFileBytes.toNat
  fits : file.bytes.length ≤ before.totalBytes
  total : before.totalBytes - file.bytes.length + replacement.length ≤ before.limits.maxTotalFileBytes.toNat

theorem replaceFile_spec (archive : AsarArchive) (path : String) (replacement : List UInt8) :
    wp (AsarArchive.replaceFile path replacement) archive
      (fun _ after => ∃ file, Replaced archive path replacement file after) (fun _ after => after = archive) := by
  simp only [AsarArchive.replaceFile, wp_bind, wp_get, wp_lift, wp_ite, wp_throw, wp_modify, okOr_ok,
    checkedSub_eq_some, checkedAdd_eq_some, implies_true, and_true,
    true_and]
  rintro canonical hCanonical
  obtain rfl := canonicalArchivePath_ok hCanonical
  rintro hSize file hFile total hTotal rest ⟨hFits, rfl⟩ sum ⟨-, rfl⟩ hSum again hAgain
  obtain rfl : file = again := Option.some.inj (hFile.symm.trans hAgain)
  have hBytes : total = archive.totalBytes := (checkedTotal_eq_some hTotal).trans (Nat.zero_add _)
  rw [hBytes] at hFits hSum
  exact ⟨file, hFile, rfl, rfl, not_lt.mp hSize, hFits, not_lt.mp hSum⟩

namespace Replaced

variable {before after : AsarArchive} {path : String} {replacement : List UInt8} {file : PackedFile}

variable (h : Replaced before path replacement file after)

include h

theorem filePaths : after.filePaths = before.filePaths := by
  have hKey : path ∈ before.files.entries.map Prod.fst :=
    List.mem_map.mpr ⟨_, OrderedMap.find?_eq_some.mp h.member, rfl⟩
  rw [AsarArchive.filePaths, h.files]
  exact keys_insertEntry hKey before.files.inOrder

theorem find?_self : after.files.find? path = some { file with bytes := replacement } := by
  rw [h.files, OrderedMap.find?_insert_self]

theorem find?_other {other : String} (hOther : other ≠ path) :
    after.files.find? other = before.files.find? other := by
  rw [h.files, OrderedMap.find?_insert_of_ne _ _ hOther]

theorem totalBytes : after.totalBytes + file.bytes.length = before.totalBytes + replacement.length := by
  rw [AsarArchive.totalBytes, h.files]
  exact sum_insertEntry (fun packed : PackedFile => packed.bytes.length) (OrderedMap.find?_eq_some.mp h.member)
    before.files.inOrder

theorem sound (hSound : before.Sound) : after.Sound := by
  refine ⟨?_, ?_, ?_⟩
  · rw [h.filePaths, h.limits]
    exact hSound.paths
  · intro packed hPacked
    rw [h.limits]
    rw [h.files] at hPacked
    rcases (mem_insertEntry before.files.inOrder).mp hPacked with rfl | ⟨hPacked, -⟩
    · exact h.size
    · exact hSound.fileBytes packed hPacked
  · have hTotal := h.totalBytes
    have hBound := h.total
    have hFits := h.fits
    rw [h.limits]
    omega

end Replaced

namespace AsarArchive

/-- The archive after an attempt, whether it succeeds or not. -/
def attempt (archive : AsarArchive) (replacement : String × List UInt8) : AsarArchive :=
  (exec (replaceFile replacement.1 replacement.2) archive).2

theorem attempt_sound {archive : AsarArchive} (h : archive.Sound) (replacement : String × List UInt8) :
    (archive.attempt replacement).Sound ∧ (archive.attempt replacement).limits = archive.limits := by
  have hSpec := replaceFile_spec archive replacement.1 replacement.2
  rw [attempt]
  unfold wp at hSpec
  split at hSpec
  · rename_i hExec
    obtain ⟨file, hReplaced⟩ := hSpec
    rw [hExec]
    exact ⟨hReplaced.sound h, hReplaced.limits⟩
  · rename_i hExec
    rw [hExec, hSpec]
    exact ⟨h, rfl⟩

theorem attempts_sound {archive : AsarArchive} (h : archive.Sound) (attempts : List (String × List UInt8)) :
    (attempts.foldl attempt archive).Sound ∧ (attempts.foldl attempt archive).limits = archive.limits := by
  induction attempts generalizing archive with
  | nil => exact ⟨h, rfl⟩
  | cons first rest ih =>
    obtain ⟨hSound, hLimits⟩ := attempt_sound h first
    obtain ⟨hRest, hSame⟩ := ih hSound
    exact ⟨hRest, hSame.trans hLimits⟩

end AsarArchive

namespace PathsSound

variable {limits : AsarLimits} {texts : List String} {paths : List (List String)}

variable (h : PathsSound limits texts paths)

include h

theorem mem_paths {text : String} (hText : text ∈ texts) :
    splitPath text ∈ paths := (h.closed _).mpr ⟨SlashPath.split_ne_nil text, text, hText, List.prefix_refl _⟩

theorem nodup_split (hNodup : texts.Nodup) : (texts.map splitPath).Nodup := by
  apply hNodup.map_on
  intro a ha b hb hSame
  rw [← h.text a ha, ← h.text b hb, hSame]

theorem length_texts (hNodup : texts.Nodup) : texts.length ≤ limits.maxEntries.toNat := by
  have hSubset : texts.map splitPath ⊆ paths := by
    intro path hPath
    obtain ⟨text, hText, rfl⟩ := List.mem_map.mp hPath
    exact h.mem_paths hText
  have hLength := (List.subperm_of_subset (h.nodup_split hNodup) hSubset).length_le
  rw [List.length_map] at hLength
  exact hLength.trans h.count

theorem caseDistinct (hNodup : texts.Nodup) : (texts.map String.toLower).Nodup := by
  apply hNodup.map_on
  intro a ha b hb hSame
  rw [← h.text a ha, ← h.text b hb] at hSame
  have hSplit := List.inj_on_of_nodup_map h.caseKeys (h.mem_paths ha) (h.mem_paths hb) hSame
  rw [← h.text a ha, ← h.text b hb, hSplit]

theorem not_directory {a b : String} (ha : a ∈ texts) (hb : b ∈ texts)
    (rest : String) : b ≠ a ++ "/" ++ rest := by
  rintro rfl
  have hSame : a = a ++ "/" ++ rest := by
    apply h.separate a ha _ hb
    rw [splitPath_append]
    exact List.prefix_append _ _
  have hLengths := congrArg (fun text => text.toList.length) hSame
  simp at hLengths

end PathsSound

theorem attempts_keep_archive_sound (library : AsarLibrary) (bytes : List UInt8) (limits : AsarLimits)
    (archive last : AsarArchive) (attempts : List (String × List UInt8))
    (hParse : AsarArchive.parse library bytes limits = .ok archive)
    (hLast : last = attempts.foldl AsarArchive.attempt archive) :
    (last.filePaths.map String.toLower).Nodup ∧
      (∀ a ∈ last.filePaths, ∀ b ∈ last.filePaths, ∀ rest, b ≠ a ++ "/" ++ rest) ∧
      last.filePaths.length ≤ limits.maxEntries.toNat ∧
      (∀ file ∈ last.files.entries, file.2.bytes.length ≤ limits.maxFileBytes.toNat) ∧
      last.totalBytes ≤ limits.maxTotalFileBytes.toNat ∧
      ∀ path replacement, wp (AsarArchive.replaceFile path replacement) last
        (fun _ after => after.filePaths = last.filePaths ∧
          (∃ file, last.files.find? path = some file ∧
            after.files.find? path = some { file with bytes := replacement }) ∧
          ∀ other, other ≠ path → after.files.find? other = last.files.find? other)
        (fun _ after => after = last) := by
  obtain ⟨hParsed, hLimits⟩ := parse_sound hParse
  obtain ⟨hSound, hSame⟩ := AsarArchive.attempts_sound hParsed attempts
  rw [← hLast] at hSound hSame
  rw [hLimits] at hSame
  obtain ⟨paths, hPaths⟩ := hSound.paths
  rw [hSame] at hPaths
  refine ⟨hPaths.caseDistinct last.files.nodup_keys, fun a ha b hb => hPaths.not_directory ha hb,
    hPaths.length_texts last.files.nodup_keys, ?_, ?_, ?_⟩
  · rw [← hSame]
    exact hSound.fileBytes
  · rw [← hSame]
    exact hSound.totalBytes
  · intro path replacement
    refine wp_mono (replaceFile_spec last path replacement) ?_ fun _ _ h => h
    rintro _ after ⟨file, hReplaced⟩
    exact ⟨hReplaced.filePaths, ⟨file, hReplaced.member, hReplaced.find?_self⟩,
      fun other hOther => hReplaced.find?_other hOther⟩

namespace Sample

/-- The second path has another case, the third is a directory. -/
def attempts : List (String × List UInt8) :=
  [("lib/Index", [1, 2]), ("lib/index", [3]), ("lib", [4]), ("Main", []), ("lib/util", [5, 6, 7])]

theorem sample_attempts_sound :
    ∃ archive, AsarArchive.parse letterLibrary treeBytes .initial = .ok archive ∧
      ∃ last, last = attempts.foldl AsarArchive.attempt archive ∧ (last.filePaths.map String.toLower).Nodup ∧
        last.filePaths.length ≤ 100000 ∧ last.totalBytes ≤ 1024 * 1024 * 1024 := by
  obtain ⟨archive, hParse⟩ := tree_parses.1
  obtain ⟨hNodup, -, hCount, -, hTotal, -⟩ :=
    attempts_keep_archive_sound letterLibrary treeBytes .initial archive _ attempts hParse rfl
  exact ⟨archive, hParse, _, rfl, hNodup, hCount, hTotal⟩

end Sample

end Weregopher.Asar
