import Weregopher.Fingerprint.Builder
import Weregopher.Lib.CaseMapping
import Weregopher.Lib.Loop

/-! # Which records make a manifest

`Acceptable` says it without the loop: bounds, canonical paths, kinds, paths that do
not meet and prefixes that differ in lower case. The condition and the manifest do
not depend on the order of the records.
-/
namespace Weregopher.Fingerprint
open Lib Lib.Bytes Lib.CaseMapping Lib.Checked Lib.Outcome SlashPath

structure CanonicalPath (path : String) : Prop where
  length : path.length ≤ maxNormalizedPackagePathChars
  depth : (split path).length ≤ maxNormalizedPackagePathComponents
  characters : ∀ character ∈ path.toList, isControl character = false ∧ character ≠ '\\' ∧ character ≠ ':'
  segments : ∀ name ∈ split path, name ≠ "" ∧ name ≠ "." ∧ name ≠ ".."

def PathPrefix (text path : String) : Prop := text = path ∨ Above text path

theorem PathPrefix.subset {text path : String} (h : PathPrefix text path) : text.toList ⊆ path.toList := by
  rcases h with rfl | ⟨rest, rfl⟩ <;> simp

def spellings (files : List PackageFileRecord) : Set String :=
  {text | ∃ record ∈ files, PathPrefix text record.normalizedPath}

def ExecutableAgrees (record : PackageFileRecord) : Prop :=
  record.executable = true ↔ record.kind = .nativeModule ∨ record.kind = .executable

structure Acceptable (lowercase : String → String) (files : List PackageFileRecord) : Prop where
  count : files.length ≤ maxPackageFileRecords
  pathBytes : (files.map fun record => record.normalizedPath.utf8ByteSize).sum ≤ maxPackageRecordPathBytes
  canonical : ∀ record ∈ files, CanonicalPath record.normalizedPath
  executable : ∀ record ∈ files, ExecutableAgrees record
  distinct : (files.map PackageFileRecord.normalizedPath).Nodup
  apart : ∀ record ∈ files, ∀ other ∈ files, ¬Above record.normalizedPath other.normalizedPath
  caseDistinct : Set.InjOn lowercase (spellings files)

theorem validateResourceBounds_ok {files : List PackageFileRecord} :
    validateResourceBounds files = .ok () ↔ files.length ≤ maxPackageFileRecords ∧
      (files.map fun record => record.normalizedPath.utf8ByteSize).sum ≤ maxPackageRecordPathBytes := by
  have hBound : maxPackageRecordPathBytes ≤ usizeMax := by decide
  rw [validateResourceBounds, aggregatePathBytes, foldlM_checkedAdd (Nat.zero_le _), guard_ok, bind_ok]
  simp only [okOr_ok, checkedAdd_eq_some, Nat.zero_add, ite_throw_ok, pure_ok, and_true]
  constructor
  · rintro ⟨hCount, total, ⟨-, rfl⟩, hBytes⟩
    exact ⟨Nat.le_of_not_lt hCount, Nat.le_of_not_lt hBytes⟩
  · rintro ⟨hCount, hBytes⟩
    exact ⟨Nat.not_lt.mpr hCount, _, ⟨hBytes.trans hBound, rfl⟩, Nat.not_lt.mpr hBytes⟩

theorem validateExecutableKind_ok {record : PackageFileRecord} :
    validateExecutableKind record = .ok () ↔ ExecutableAgrees record := by
  rw [validateExecutableKind, ExecutableAgrees]
  have hFlag : (record.executable = true ↔ record.kind = .nativeModule ∨ record.kind = .executable) ↔
      record.executable = decide (record.kind = .nativeModule ∨ record.kind = .executable) :=
    (Bool.eq_iff_iff.trans (by rw [decide_eq_true_iff])).symm
  rw [hFlag]
  split <;> simp_all

theorem validateNormalizedPath_ok {path : String} : validateNormalizedPath path = .ok () ↔ CanonicalPath path := by
  rw [validateNormalizedPath, ite_error_ok, and_iff_left rfl]
  constructor
  · intro h
    simp only [not_or] at h
    obtain ⟨hLength, hDepth, hCharacters, hSegments⟩ := h
    refine ⟨Nat.le_of_not_lt hLength, Nat.le_of_not_lt hDepth, ?_, ?_⟩
    · simpa using hCharacters
    · simpa using hSegments
  · rintro ⟨hLength, hDepth, hCharacters, hSegments⟩
    simp only [not_or]
    refine ⟨Nat.not_lt.mpr hLength, Nat.not_lt.mpr hDepth, ?_, ?_⟩
    · simpa using hCharacters
    · simpa using hSegments

section

variable {lowercase : String → String}

/-- The map finds exactly the seen spellings, each under its lower case. -/
def Observes (lowercase : String → String) (observed : OrderedMap String String) (seen : Set String) : Prop :=
  ∀ folded spelling, observed.find? folded = some spelling ↔ spelling ∈ seen ∧ lowercase spelling = folded

variable {observed : OrderedMap String String} {seen : Set String} {scan : CaseScan} {path : String}

theorem Observes.injOn (h : Observes lowercase observed seen) : Set.InjOn lowercase seen := by
  intro text hText other hOther hSame
  have hFind := (h (lowercase text) text).mpr ⟨hText, rfl⟩
  rw [(h (lowercase text) other).mpr ⟨hOther, hSame.symm⟩] at hFind
  exact (Option.some.inj hFind).symm

theorem Observes.empty : Observes lowercase .empty ∅ := by
  intro folded spelling
  simp [OrderedMap.empty, OrderedMap.find?, lookupEntry]

theorem CaseScan.step_iff (h : Observes lowercase scan.observed seen) (component : String) :
    (∃ next, scan.step lowercase component = .ok next) ↔
      Set.InjOn lowercase (insert (child scan.current component) seen) := by
  rw [CaseScan.step]
  cases hFind : scan.observed.find? (lowercase (child scan.current component)) with
  | none =>
    refine iff_of_true ⟨_, rfl⟩ ?_
    have hNew : ∀ spelling ∈ seen, lowercase spelling ≠ lowercase (child scan.current component) := by
      intro spelling hSpelling hSame
      rw [(h _ spelling).mpr ⟨hSpelling, hSame⟩] at hFind
      cases hFind
    rintro text (rfl | hText) other (rfl | hOther) hSame
    · rfl
    · exact absurd hSame.symm (hNew other hOther)
    · exact absurd hSame (hNew text hText)
    · exact h.injOn hText hOther hSame
  | some first =>
    obtain ⟨hFirst, hFolded⟩ := (h _ first).mp hFind
    dsimp only
    by_cases hSame : first = child scan.current component
    · rw [if_neg (not_not.mpr hSame), ← hSame, Set.insert_eq_of_mem hFirst]
      exact iff_of_true ⟨_, rfl⟩ h.injOn
    · rw [if_pos hSame]
      refine iff_of_false (fun ⟨_, hNext⟩ => nomatch hNext) fun hInj => hSame ?_
      exact hInj (Set.mem_insert_of_mem _ hFirst) (Set.mem_insert _ _) hFolded

theorem CaseScan.step_ok {next : CaseScan} (h : Observes lowercase scan.observed seen)
    {component : String} (hNext : scan.step lowercase component = .ok next) :
    next.current = child scan.current component ∧
      Observes lowercase next.observed (insert (child scan.current component) seen) := by
  rw [CaseScan.step] at hNext
  split at hNext
  · rename_i first hFind
    obtain ⟨hSame, hNext⟩ := ite_error_ok.mp hNext
    cases hNext
    obtain ⟨hFirst, -⟩ := (h _ first).mp hFind
    rw [← not_not.mp hSame, Set.insert_eq_of_mem hFirst]
    exact ⟨rfl, h⟩
  · rename_i hFind
    cases hNext
    refine ⟨rfl, fun folded spelling => ?_⟩
    rw [Set.mem_insert_iff]
    by_cases hFolded : folded = lowercase (child scan.current component)
    · rw [hFolded, OrderedMap.find?_insert_self, Option.some.injEq]
      constructor
      · rintro rfl
        exact ⟨Or.inl rfl, rfl⟩
      · rintro ⟨rfl | hSeen, hSame⟩
        · rfl
        · rw [(h _ spelling).mpr ⟨hSeen, hSame⟩] at hFind
          cases hFind
    · rw [OrderedMap.find?_insert_of_ne _ _ hFolded, h]
      refine and_congr_left fun hSame => ⟨Or.inr, fun hSpelling => hSpelling.resolve_left ?_⟩
      rintro rfl
      exact hFolded hSame.symm

def namePrefixes (names : List String) : Set String :=
  {text | ∃ front, front <+: names ∧ front ≠ [] ∧ text = join front}

theorem namePrefixes_concat (names : List String) (name : String) :
    namePrefixes (names ++ [name]) = insert (join (names ++ [name])) (namePrefixes names) := by
  ext text
  simp only [namePrefixes, Set.mem_ofPred_eq, Set.mem_insert_iff, List.prefix_concat_iff]
  constructor
  · rintro ⟨front, rfl | hFront, hNil, rfl⟩
    · exact Or.inl rfl
    · exact Or.inr ⟨front, hFront, hNil, rfl⟩
  · rintro (rfl | ⟨front, hFront, hNil, rfl⟩)
    · exact ⟨_, Or.inl rfl, by simp, rfl⟩
    · exact ⟨front, Or.inr hFront, hNil, rfl⟩

theorem CanonicalPath.namePrefixes_split (h : CanonicalPath path) :
    namePrefixes (split path) = {text | PathPrefix text path} := by
  have hNames : ∀ {front : List String}, front <+: split path →
      ∀ name ∈ front, name ≠ "" ∧ '/' ∉ name.toList := fun hFront name hName =>
    ⟨(h.segments name (hFront.subset hName)).1, slash_notMem_of_mem_split (hFront.subset hName)⟩
  ext text
  simp only [namePrefixes, Set.mem_ofPred_eq, PathPrefix]
  rw [← split_prefix_iff]
  constructor
  · rintro ⟨front, hFront, hNil, rfl⟩
    rwa [split_join hNil (hNames hFront)]
  · intro hText
    refine ⟨split text, hText, split_ne_nil text, split_injective ?_⟩
    rw [split_join (split_ne_nil text) (hNames hText)]

theorem namePrefixes_nil : namePrefixes [] = ∅ := by
  refine Set.eq_empty_of_forall_notMem ?_
  rintro _ ⟨front, hFront, hNil, -⟩
  exact hNil (List.prefix_nil.mp hFront)

theorem rejectCaseCollision_spec (h : Observes lowercase observed seen) (hPath : CanonicalPath path) :
    ((∃ next, rejectCaseCollision lowercase observed path = .ok next) ↔
        Set.InjOn lowercase (seen ∪ {text | PathPrefix text path})) ∧
      ∀ next, rejectCaseCollision lowercase observed path = .ok next →
        Observes lowercase next (seen ∪ {text | PathPrefix text path}) := by
  have hMore (names : List String) (name : String) : seen ∪ namePrefixes (names ++ [name]) =
      insert (child (join names) name) (seen ∪ namePrefixes names) := by
    rw [namePrefixes_concat, join_concat, Set.union_insert]
  have hStart : (CaseScan.mk "" observed).current = join [] ∧
      Observes lowercase (CaseScan.mk "" observed).observed (seen ∪ namePrefixes []) :=
    ⟨rfl, by rwa [namePrefixes_nil, Set.union_empty]⟩
  obtain ⟨hIff, hObserves⟩ := foldlM_spec (f := CaseScan.step lowercase)
    (fun front scan => scan.current = join front ∧
      Observes lowercase scan.observed (seen ∪ namePrefixes front))
    (fun front name => Set.InjOn lowercase (seen ∪ namePrefixes (front ++ [name]))) hStart
    (fun front name scan hScan => by rw [CaseScan.step_iff hScan.2, hScan.1, hMore])
    (fun front name scan next hScan hNext => by
      obtain ⟨hCurrent, hSeen⟩ := CaseScan.step_ok hScan.2 hNext
      rw [hScan.1] at hCurrent hSeen
      rw [hMore, join_concat]
      exact ⟨hCurrent, hSeen⟩)
    (split path)
  rw [EachAfter.whole_iff (Q := fun names => Set.InjOn lowercase (seen ∪ namePrefixes names))
    (by rw [namePrefixes_nil, Set.union_empty]; exact h.injOn)
    (fun front name hInj => hInj.mono (by rw [hMore]; exact Set.subset_insert _ _)), hPath.namePrefixes_split] at hIff
  have hOk (next : OrderedMap String String) : rejectCaseCollision lowercase observed path = .ok next ↔
      ∃ scan, (split path).foldlM (CaseScan.step lowercase) ⟨"", observed⟩ = .ok scan ∧
        scan.observed = next := by
    rw [rejectCaseCollision, bind_ok]
    simp only [pure_ok]
  constructor
  · rw [← hIff]
    constructor
    · rintro ⟨next, hNext⟩
      obtain ⟨scan, hScan, -⟩ := (hOk next).mp hNext
      exact ⟨scan, hScan⟩
    · rintro ⟨scan, hScan⟩
      exact ⟨_, (hOk _).mpr ⟨scan, hScan, rfl⟩⟩
  · intro next hNext
    obtain ⟨scan, hScan, rfl⟩ := (hOk next).mp hNext
    rw [← hPath.namePrefixes_split]
    exact (hObserves scan hScan).2

end

theorem insertLeaf_eq (root : DirectoryNode) (path : String) (hash : Sha256Digest) (kind : PackageFileKind) :
    insertLeaf root path hash kind =
      okOr (.pathConflict path) (NameTree.place ⟨hash, kind⟩ (split path) root) := by
  obtain ⟨front, filename, hNames⟩ := (List.eq_nil_or_concat' (split path)).resolve_left
    (split_ne_nil path)
  rw [insertLeaf, hNames, List.getLast?_concat, List.dropLast_concat, Option.getD_some]
  clear hNames
  induction front generalizing root with
  | nil =>
    rw [List.nil_append, directoryMut, NameTree.place]
    cases lookupEntry filename root <;> rfl
  | cons name rest ih =>
    obtain ⟨next, more, hRest⟩ := List.exists_cons_of_ne_nil (List.concat_ne_nil filename rest)
    rw [directoryMut, List.cons_append, hRest, NameTree.place, ← hRest]
    cases (lookupEntry name root).getD (.node []) with
    | leaf leaf => rfl
    | node below =>
      dsimp only
      rw [ih below]
      cases NameTree.place ⟨hash, kind⟩ (rest ++ [filename]) below <;> rfl

section

variable {sha256 : Sha256} {lowercase : String → String}

def leafOf (sha256 : Sha256) (record : PackageFileRecord) : List String × TreeLeaf :=
  (split record.normalizedPath, ⟨hashFileRecord sha256 record, record.kind⟩)

structure Built (sha256 : Sha256) (lowercase : String → String) (front : List PackageFileRecord)
    (state : BuildState) : Prop where
  tree : NameTree.Holds state.tree {leaf | ∃ record ∈ front, leaf = leafOf sha256 record}
  observed : Observes lowercase state.caseFoldedPaths (spellings front)

/-- Neither path begins the other, name by name. -/
def Apart (record other : PackageFileRecord) : Prop :=
  ¬split record.normalizedPath <+: split other.normalizedPath ∧
    ¬split other.normalizedPath <+: split record.normalizedPath

/-- When one more record is accepted after others. -/
def Fits (lowercase : String → String) (front : List PackageFileRecord) (record : PackageFileRecord) : Prop :=
  (CanonicalPath record.normalizedPath ∧ ExecutableAgrees record) ∧
    Set.InjOn lowercase (spellings (front ++ [record])) ∧ ∀ earlier ∈ front, Apart earlier record

theorem spellings_concat (front : List PackageFileRecord) (record : PackageFileRecord) :
    spellings (front ++ [record]) = spellings front ∪ {text | PathPrefix text record.normalizedPath} := by
  ext text
  simp only [spellings, Set.mem_ofPred_eq, Set.mem_union, List.mem_append, List.mem_singleton]
  constructor
  · rintro ⟨other, hOther | rfl, hText⟩
    · exact Or.inl ⟨other, hOther, hText⟩
    · exact Or.inr hText
  · rintro (⟨other, hOther, hText⟩ | hText)
    · exact ⟨other, Or.inl hOther, hText⟩
    · exact ⟨record, Or.inr rfl, hText⟩

theorem Built.start : Built sha256 lowercase [] .start where
  tree := by simpa [BuildState.start] using NameTree.Holds.empty
  observed := by simpa [BuildState.start, spellings] using Observes.empty

variable {next state : BuildState} {record : PackageFileRecord} {front files others : List PackageFileRecord}
  {manifest : PackageTreeManifest}

theorem add_ok :
    state.add sha256 lowercase record = .ok next ↔ CanonicalPath record.normalizedPath ∧ ExecutableAgrees record ∧
      rejectCaseCollision lowercase state.caseFoldedPaths record.normalizedPath = .ok next.caseFoldedPaths ∧
      NameTree.place (leafOf sha256 record).2 (leafOf sha256 record).1 state.tree = some next.tree := by
  rw [BuildState.add, check_ok, check_ok, validateNormalizedPath_ok, validateExecutableKind_ok, bind_ok]
  simp only [insertLeaf_eq, bind_ok, okOr_ok, pure_ok]
  refine and_congr_right fun _ => and_congr_right fun _ => ⟨?_, ?_⟩
  · rintro ⟨observed, hObserved, tree, hTree, rfl⟩
    exact ⟨hObserved, hTree⟩
  · rintro ⟨hObserved, hTree⟩
    exact ⟨_, hObserved, _, hTree, rfl⟩

theorem Built.add_iff (h : Built sha256 lowercase front state) (record : PackageFileRecord) :
    (∃ next, state.add sha256 lowercase record = .ok next) ↔ Fits lowercase front record := by
  simp only [add_ok, Fits, spellings_concat]
  have hPlace := h.tree.place_isSome (leafOf sha256 record).2 (split_ne_nil record.normalizedPath)
  have hApart : (∀ leaf ∈ {leaf | ∃ other ∈ front, leaf = leafOf sha256 other},
      ¬leaf.1 <+: split record.normalizedPath ∧ ¬split record.normalizedPath <+: leaf.1) ↔
      ∀ earlier ∈ front, Apart earlier record := by
    constructor
    · exact fun hAll earlier hEarlier => hAll _ ⟨earlier, hEarlier, rfl⟩
    · rintro hAll _ ⟨earlier, hEarlier, rfl⟩
      exact hAll earlier hEarlier
  rw [hApart, Option.isSome_iff_exists] at hPlace
  constructor
  · rintro ⟨next, hCanonical, hAgrees, hObserved, hTree⟩
    obtain ⟨hCase, -⟩ := rejectCaseCollision_spec h.observed hCanonical
    exact ⟨⟨hCanonical, hAgrees⟩, hCase.mp ⟨_, hObserved⟩, hPlace.mp ⟨_, hTree⟩⟩
  · rintro ⟨⟨hCanonical, hAgrees⟩, hInj, hAll⟩
    obtain ⟨hCase, -⟩ := rejectCaseCollision_spec h.observed hCanonical
    obtain ⟨observed, hObserved⟩ := hCase.mpr hInj
    obtain ⟨tree, hTree⟩ := hPlace.mpr hAll
    exact ⟨⟨tree, observed⟩, hCanonical, hAgrees, hObserved, hTree⟩

theorem Built.add (h : Built sha256 lowercase front state) (hNext : state.add sha256 lowercase record = .ok next) :
    Built sha256 lowercase (front ++ [record]) next := by
  obtain ⟨hCanonical, -, hObserved, hTree⟩ := add_ok.mp hNext
  constructor
  · convert h.tree.place hTree using 1
    ext leaf
    simp only [Set.mem_ofPred_eq, Set.mem_insert_iff, List.mem_append, List.mem_singleton, or_and_right, exists_or,
      exists_eq_left]
    exact or_comm
  · rw [spellings_concat]
    exact (rejectCaseCollision_spec h.observed hCanonical).2 _ hObserved

/-- The run lemma of the loop over the records. -/
theorem foldlM_add_spec (sha256 : Sha256) (lowercase : String → String) (files : List PackageFileRecord) :
    ((∃ last, files.foldlM (BuildState.add sha256 lowercase) .start = .ok last) ↔
        EachAfter (Fits lowercase) files) ∧
      ∀ last, files.foldlM (BuildState.add sha256 lowercase) .start = .ok last → Built sha256 lowercase files last :=
  foldlM_spec (Built sha256 lowercase) (Fits lowercase) .start (fun _ record _ hBuilt => hBuilt.add_iff record)
    (fun _ _ _ _ hBuilt hNext => hBuilt.add hNext) files

theorem eachAfter_fits : EachAfter (Fits lowercase) files ↔
      (∀ record ∈ files, CanonicalPath record.normalizedPath ∧ ExecutableAgrees record) ∧
        Set.InjOn lowercase (spellings files) ∧ files.Pairwise Apart := by
  have hWhole : EachAfter (fun front record => Set.InjOn lowercase (spellings (front ++ [record]))) files ↔
      Set.InjOn lowercase (spellings files) := by
    refine EachAfter.whole_iff (Q := fun files => Set.InjOn lowercase (spellings files)) (by simp [spellings])
      fun front record hInj => ?_
    rw [spellings_concat] at hInj
    exact hInj.mono Set.subset_union_left
  rw [← EachAfter.forall_mem_iff, ← hWhole, ← EachAfter.pairwise_iff]
  exact EachAfter.and_iff.trans (and_congr_right fun _ => EachAfter.and_iff)

instance : Std.Symm Apart := ⟨fun _ _ h => h.symm⟩

theorem pairwise_apart_iff : files.Pairwise Apart ↔ (files.map PackageFileRecord.normalizedPath).Nodup ∧
      ∀ record ∈ files, ∀ other ∈ files, ¬Above record.normalizedPath other.normalizedPath := by
  have hApart {record other : PackageFileRecord} : Apart record other ↔
      record.normalizedPath ≠ other.normalizedPath ∧ ¬Above record.normalizedPath other.normalizedPath ∧
        ¬Above other.normalizedPath record.normalizedPath := by
    rw [Apart, split_prefix_iff, split_prefix_iff]
    grind
  have hSelf (path : String) : ¬Above path path := by
    rintro ⟨rest, hRest⟩
    have hLength := congrArg String.length hRest
    simp only [String.length_append] at hLength
    have hSlash : ("/" : String).length = 1 := rfl
    omega
  constructor
  · intro h
    refine ⟨List.pairwise_map.mpr (h.imp fun hBoth => (hApart.mp hBoth).1), fun record hRecord other hOther => ?_⟩
    by_cases hSame : record = other
    · rw [hSame]
      exact hSelf _
    · exact (hApart.mp (h.forall hRecord hOther hSame)).2.1
  · rintro ⟨hNodup, hAbove⟩
    refine (List.pairwise_map.mp hNodup).imp_of_mem fun {record other} hRecord hOther hNe => ?_
    exact hApart.mpr ⟨hNe, hAbove record hRecord other hOther, hAbove other hOther record hRecord⟩

theorem sortRecords_perm (files : List PackageFileRecord) : (sortRecords files).Perm files :=
  List.perm_insertionSort _ files

theorem spellings_perm (h : files.Perm others) : spellings files = spellings others := by
  ext text
  simp [spellings, h.mem_iff]

theorem buildPackageManifest_ok :
    buildPackageManifest sha256 lowercase files = .ok manifest ↔ validateResourceBounds files = .ok () ∧
      ∃ state, (sortRecords files).foldlM (BuildState.add sha256 lowercase) .start = .ok state ∧
        ⟨packageTreeFormatVersion, hashTree sha256 (.node state.tree) "", sortRecords files⟩ = manifest := by
  rw [buildPackageManifest, check_ok, bind_ok]
  simp only [pure_ok]

theorem acceptable_iff :
    (∃ manifest, buildPackageManifest sha256 lowercase files = .ok manifest) ↔ Acceptable lowercase files := by
  have hLoop := (foldlM_add_spec sha256 lowercase (sortRecords files)).1
  have hPerm := sortRecords_perm files
  rw [eachAfter_fits, spellings_perm hPerm, hPerm.pairwise_iff (fun h => symm h), pairwise_apart_iff] at hLoop
  simp only [hPerm.mem_iff] at hLoop
  simp only [buildPackageManifest_ok, validateResourceBounds_ok]
  constructor
  · rintro ⟨_, ⟨hCount, hBytes⟩, state, hState, -⟩
    obtain ⟨hEach, hInj, hNodup, hAbove⟩ := hLoop.mp ⟨state, hState⟩
    exact ⟨hCount, hBytes, fun record hRecord => (hEach record hRecord).1,
      fun record hRecord => (hEach record hRecord).2, hNodup, hAbove, hInj⟩
  · intro h
    obtain ⟨state, hState⟩ := hLoop.mpr
      ⟨fun record hRecord => ⟨h.canonical record hRecord, h.executable record hRecord⟩,
      h.caseDistinct, h.distinct, h.apart⟩
    exact ⟨_, ⟨h.count, h.pathBytes⟩, state, hState, rfl⟩

theorem pairwise_sortRecords (files : List PackageFileRecord) :
    (sortRecords files).Pairwise fun left right => left.normalizedPath ≤ right.normalizedPath :=
  have : Std.Total fun left right : PackageFileRecord => left.normalizedPath ≤ right.normalizedPath :=
    ⟨fun _ _ => le_total _ _⟩
  have : IsTrans PackageFileRecord fun left right => left.normalizedPath ≤ right.normalizedPath :=
    ⟨fun _ _ _ => le_trans⟩
  List.pairwise_insertionSort _ files

theorem sortRecords_eq
    (hNodup : (files.map PackageFileRecord.normalizedPath).Nodup) (h : files.Perm others) :
    sortRecords files = sortRecords others := by
  have hPerm : (sortRecords files).Perm (sortRecords others) :=
    (sortRecords_perm files).trans (h.trans (sortRecords_perm others).symm)
  refine hPerm.eq_of_pairwise (fun left right hLeft hRight hLess hMore => ?_) (pairwise_sortRecords files)
    (pairwise_sortRecords others)
  refine List.inj_on_of_nodup_map hNodup ?_ ?_ (le_antisymm hLess hMore)
  · exact (sortRecords_perm files).mem_iff.mp hLeft
  · exact h.mem_iff.mpr ((sortRecords_perm others).mem_iff.mp hRight)

theorem buildPackageManifest_perm
    (h : files.Perm others) (hBuild : buildPackageManifest sha256 lowercase files = .ok manifest) :
    buildPackageManifest sha256 lowercase others = .ok manifest := by
  have hAcceptable := acceptable_iff.mp ⟨manifest, hBuild⟩
  have hSorted := sortRecords_eq hAcceptable.distinct h
  rw [buildPackageManifest_ok, validateResourceBounds_ok] at hBuild ⊢
  rwa [← hSorted, ← h.length_eq, ← (h.map fun record => record.normalizedPath.utf8ByteSize).sum_nat]

theorem readPackageManifest_ok {unchecked : PackageTreeManifest} :
    readPackageManifest sha256 lowercase unchecked = .ok manifest ↔
      manifest = unchecked ∧ buildPackageManifest sha256 lowercase unchecked.files = .ok unchecked := by
  rw [readPackageManifest, guard_ok, guard_ok, bind_ok]
  simp only [mapError_ok, guard_ok, pure_ok, not_not]
  constructor
  · rintro ⟨hVersion, hOrder, built, hBuild, hRoot, rfl⟩
    obtain ⟨-, state, -, rfl⟩ := buildPackageManifest_ok.mp hBuild
    have hTrans : IsTrans PackageFileRecord fun left right => left.normalizedPath < right.normalizedPath :=
      ⟨fun _ _ _ => lt_trans⟩
    have hSorted : sortRecords unchecked.files = unchecked.files :=
      (hOrder.pairwise.imp le_of_lt).insertionSort_eq
    have hSame : PackageTreeManifest.mk packageTreeFormatVersion (hashTree sha256 (.node state.tree) "")
        (sortRecords unchecked.files) = unchecked := by
      dsimp only at hRoot
      rw [← hVersion, hRoot, hSorted]
    exact ⟨hSame, hBuild.trans (congrArg _ hSame)⟩
  · rintro ⟨rfl, hBuild⟩
    have hNodup := (acceptable_iff.mp ⟨_, hBuild⟩).distinct
    obtain ⟨-, state, -, hManifest⟩ := buildPackageManifest_ok.mp hBuild
    have hFiles : sortRecords manifest.files = manifest.files := congrArg PackageTreeManifest.files hManifest
    have hVersion : packageTreeFormatVersion = manifest.formatVersion :=
      congrArg PackageTreeManifest.formatVersion hManifest
    refine ⟨hVersion.symm, ?_, manifest, hBuild, rfl, rfl⟩
    have hOrder := pairwise_sortRecords manifest.files
    rw [hFiles] at hOrder
    exact (hOrder.and (List.pairwise_map.mp hNodup)).imp (fun hBoth => lt_of_le_of_ne hBoth.1 hBoth.2) |>.isChain

/-- A manifest is produced for exactly the acceptable records, and it is the same for every order
in which they are given. -/
theorem manifest_iff_acceptable_in_any_order (sha256 : Sha256) (lowercase : String → String)
    (files : List PackageFileRecord) :
    ((∃ manifest, buildPackageManifest sha256 lowercase files = .ok manifest) ↔ Acceptable lowercase files) ∧
      ∀ others : List PackageFileRecord, files.Perm others → ∀ manifest,
        buildPackageManifest sha256 lowercase files = .ok manifest ↔
          buildPackageManifest sha256 lowercase others = .ok manifest :=
  ⟨acceptable_iff, fun _ h _ => ⟨buildPackageManifest_perm h, buildPackageManifest_perm h.symm⟩⟩

end

namespace Sample

def tool : PackageFileRecord where
  normalizedPath := "bin/tool.exe"
  size := 2
  sha256 := .ofNat 0x9b8db510ef42b8ed54a3712636fda55a4f8cfcd5493e20b74ab00cd4f3979f2d
  executable := true
  kind := .executable
  signerThumbprint := none

def readme : PackageFileRecord where
  normalizedPath := "readme"
  size := 0
  sha256 := .ofNat 0xe3b0c44298fc1c149afbf4c8996fb92427ae41e4649b934ca495991b7852b855
  executable := false
  kind := .regular
  signerThumbprint := none

def toolHash : Sha256Digest := .ofNat 0xaac228212ff995b663fa5038715f99d7d3c750945a71fa5d6f8b97816bf7f257

def readmeHash : Sha256Digest := .ofNat 0x585349af884e67b328d7d751eb116747d0eda218282fb07a587f0b946838f69a

def binHash : Sha256Digest := .ofNat 0x722ec963de45357cbfaf24abdf0e9a3feddedad568168d22204035350f0b6790

def rootHash : Sha256Digest := .ofNat 0x297a8dc08cb8b3b40f66cbd8815370a46d3e086e2d84fc48807fc4b2c5b22469

def binDocument : List UInt8 :=
  directoryHashDomain ++ (lengthPrefixed 8 (utf8Bytes "bin") ++ (toLeBytes 8 1 ++
    (lengthPrefixed 8 (utf8Bytes "tool.exe") ++ ([2, 4] ++ toolHash.bytes.toList))))

def rootDocument : List UInt8 :=
  directoryHashDomain ++ (lengthPrefixed 8 [] ++ (toLeBytes 8 2 ++
    (lengthPrefixed 8 (utf8Bytes "bin") ++ ([1] ++ binHash.bytes.toList) ++
      (lengthPrefixed 8 (utf8Bytes "readme") ++ ([2, 1] ++ readmeHash.bytes.toList)))))

/-- SHA-256 on what is hashed for the two files. -/
def sha256 (document : List UInt8) : Sha256Digest :=
  if document = fileDocument tool then toolHash
  else if document = fileDocument readme then readmeHash
  else if document = binDocument then binHash
  else if document = rootDocument then rootHash
  else ⟨.replicate 32 0⟩

def manifest : PackageTreeManifest := ⟨1, rootHash, [tool, readme]⟩

theorem built_in_either_order :
    buildPackageManifest sha256 String.toLower [readme, tool] = .ok manifest ∧
      buildPackageManifest sha256 String.toLower [tool, readme] = .ok manifest := by
  have hBuild : buildPackageManifest sha256 String.toLower [readme, tool] = .ok manifest := by decide +kernel
  exact ⟨hBuild, ((manifest_iff_acceptable_in_any_order sha256 String.toLower [readme, tool]).2 [tool, readme]
    (List.Perm.swap _ _ _) manifest).mp hBuild⟩

def letterFile (letter : Char) : PackageFileRecord := { readme with normalizedPath := String.singleton letter }

/-- U+017F, which is the lower case of no other letter and has the upper case of `s`. -/
def longS : Char := Char.ofNat 0x17f

def letters : List PackageFileRecord := [letterFile 's', letterFile longS]

/-- No name here has a sigma, so it does not matter what is cased. -/
abbrev lowercase : String → String := toLowercase Char.isAlpha fun _ => false

/-- What is accepted does not depend on the digests. -/
theorem letters_accepted (sha256 : Sha256) :
    ∃ manifest, buildPackageManifest sha256 lowercase letters = .ok manifest ∧ manifest.files = letters := by
  have hBuild : buildPackageManifest (fun _ => readmeHash) lowercase letters = .ok ⟨1, readmeHash, letters⟩ := by
    decide +kernel
  obtain ⟨manifest, hManifest⟩ := acceptable_iff.mpr (acceptable_iff.mp ⟨_, hBuild⟩ : Acceptable lowercase letters)
  obtain ⟨-, state, -, rfl⟩ := buildPackageManifest_ok.mp hManifest
  obtain ⟨-, _, -, hSorted⟩ := buildPackageManifest_ok.mp hBuild
  exact ⟨_, hManifest, congrArg PackageTreeManifest.files hSorted⟩

end Sample

end Weregopher.Fingerprint
