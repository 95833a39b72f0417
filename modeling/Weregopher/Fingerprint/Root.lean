import Weregopher.Fingerprint.Acceptance

/-! # The tree root determines the records

What is hashed for a file or a directory can be read in one way only. So equal roots
come from equal trees, as far as SHA-256 tells the hashed documents apart.
-/
namespace Weregopher.Fingerprint
open Lib Lib.Bytes

theorem PackageFileKind.tag_injective : Function.Injective tag := by
  intro kind other h
  cases kind <;> cases other <;> first | rfl | exact absurd h (by decide)

theorem digestBytes_injective {digest other : Sha256Digest} (h : digest.bytes.toList = other.bytes.toList) :
    digest = other := by
  obtain ⟨bytes⟩ := digest
  obtain ⟨others⟩ := other
  exact congrArg _ (Vector.toList_inj.mp h)

theorem selfDelimiting_digest : SelfDelimiting (fun _ : Sha256Digest => True) fun digest => digest.bytes.toList :=
  .of_length (fun digest _ => by rw [Vector.length_toList]) fun _ _ _ _ h => digestBytes_injective h

theorem selfDelimiting_size : SelfDelimiting (fun _ : UInt64 => True) fun size => toLeBytes 8 size.toNat := by
  refine .of_length (fun size _ => toLeBytes_length 8 _) fun size other _ _ h => UInt64.toNat_inj.mp ?_
  have hSize := size.toNat_lt
  have hOther := other.toNat_lt
  exact toLeBytes_injective (by omega) (by omega) h

def Framed (text : String) : Prop := (utf8Bytes text).length < 256 ^ 8

theorem selfDelimiting_text : SelfDelimiting Framed fun text => lengthPrefixed 8 (utf8Bytes text) := by
  intro text other hText hOther rest others h
  obtain ⟨hBytes, hRest⟩ := selfDelimiting_lengthPrefixed 8 _ _ hText hOther _ _ h
  exact ⟨utf8Bytes_injective hBytes, hRest⟩

theorem signerBytes_injective : Function.Injective signerBytes := by
  intro signer other h
  cases signer <;> cases other
  · rfl
  · cases h
  · cases h
  · rw [digestBytes_injective (List.cons.inj h).2]

theorem fileDocument_injective {record other : PackageFileRecord} (hRecord : Framed record.normalizedPath)
    (hOther : Framed other.normalizedPath) (h : fileDocument record = fileDocument other) : record = other := by
  have hFlags : ∀ flag other : Bool, flag.toUInt8 = other.toUInt8 → flag = other := by decide
  obtain ⟨hPath, hAfterPath⟩ := selfDelimiting_text _ _ hRecord hOther _ _ (List.append_cancel_left h)
  obtain ⟨hSize, hAfterSize⟩ := selfDelimiting_size _ _ trivial trivial _ _ hAfterPath
  obtain ⟨hContent, hAfterContent⟩ := selfDelimiting_digest _ _ trivial trivial _ _ hAfterSize
  obtain ⟨hFlag, hAfterFlag⟩ := List.cons.inj hAfterContent
  obtain ⟨hKind, hSigner⟩ := List.cons.inj hAfterFlag
  exact PackageFileRecord.ext hPath hSize hContent (hFlags _ _ hFlag) (PackageFileKind.tag_injective hKind)
    (signerBytes_injective hSigner)

section

variable (sha256 : Sha256)

mutual

def treeDocuments : TreeChild → String → List (List UInt8)
  | .node children, path => directoryDocument sha256 children path :: childrenDocuments children path
  | .leaf _, _ => []

def childrenDocuments : List (String × TreeChild) → String → List (List UInt8)
  | [], _ => []
  | child :: rest, path => childDocuments child path ++ childrenDocuments rest path

def childDocuments : String × TreeChild → String → List (List UInt8)
  | (name, child), path => treeDocuments child (SlashPath.child path name)

end

def childEntry (path : String) (child : String × TreeChild) : String × List UInt8 × Sha256Digest :=
  (child.1, childTag child.2, hashTree sha256 child.2 (SlashPath.child path child.1))

def entryBytes (entry : String × List UInt8 × Sha256Digest) : List UInt8 :=
  lengthPrefixed 8 (utf8Bytes entry.1) ++ (entry.2.1 ++ entry.2.2.bytes.toList)

theorem hashedChildren_eq (children : DirectoryNode) (path : String) :
    hashedChildren sha256 children path = (children.map (childEntry sha256 path)).flatMap entryBytes := by
  induction children with
  | nil => rfl
  | cons child rest ih =>
    obtain ⟨name, tree⟩ := child
    rw [hashedChildren, hashedChild, ih, List.map_cons, List.flatMap_cons]
    rfl

variable {children : DirectoryNode} {path : String}

theorem mem_childrenDocuments {child : String × TreeChild} (hChild : child ∈ children) {document : List UInt8}
    (h : document ∈ treeDocuments sha256 child.2 (SlashPath.child path child.1)) :
    document ∈ childrenDocuments sha256 children path := by
  induction children with
  | nil => cases hChild
  | cons first rest ih =>
    obtain ⟨name, tree⟩ := first
    rw [childrenDocuments, childDocuments, List.mem_append]
    rcases List.mem_cons.mp hChild with rfl | hRest
    · exact Or.inl h
    · exact Or.inr (ih hRest)

theorem selfDelimiting_entry :
    SelfDelimiting (fun entry : String × List UInt8 × Sha256Digest =>
      Framed entry.1 ∧ ∃ child, entry.2.1 = childTag child)
      entryBytes := by
  rintro ⟨name, _, digest⟩ ⟨name', _, digest'⟩ ⟨hName, child, rfl⟩ ⟨hName', child', rfl⟩ rest others h
  simp only [entryBytes, List.append_assoc] at h
  obtain ⟨hSame, hAfterName⟩ := selfDelimiting_text _ _ hName hName' _ _ h
  have hTag : childTag child = childTag child' ∧
      digest.bytes.toList ++ rest = digest'.bytes.toList ++ others := by
    cases child <;> cases child'
    · exact ⟨rfl, (List.cons.inj hAfterName).2⟩
    · exact absurd (List.cons.inj hAfterName).1 (by decide)
    · exact absurd (List.cons.inj hAfterName).1 (by decide)
    · obtain ⟨hKind, hAfterKind⟩ := List.cons.inj (List.cons.inj hAfterName).2
      exact ⟨by rw [childTag, childTag, hKind], hAfterKind⟩
  obtain ⟨hDigest, hRest⟩ := selfDelimiting_digest _ _ trivial trivial _ _ hTag.2
  dsimp only at hSame
  exact ⟨by rw [hSame, hTag.1, hDigest], hRest⟩

theorem eq_of_childEntries {others : DirectoryNode}
    (hSame : children.map (childEntry sha256 path) = others.map (childEntry sha256 path))
    (hChild : ∀ child ∈ children, ∀ other ∈ others,
      childEntry sha256 path child = childEntry sha256 path other → child = other) : children = others := by
  induction children generalizing others with
  | nil => exact (List.map_eq_nil_iff.mp hSame.symm).symm
  | cons child rest ih =>
    cases others with
    | nil => cases hSame
    | cons other more =>
      obtain ⟨hFirst, hRest⟩ := List.cons.inj hSame
      obtain rfl := hChild child List.mem_cons_self other List.mem_cons_self hFirst
      rw [ih hRest fun child hMem other hOther =>
        hChild child (List.mem_cons_of_mem _ hMem) other (List.mem_cons_of_mem _ hOther)]

def FramedNames (tree : TreeChild) : Prop := ∀ item ∈ tree.items, ∀ name ∈ item.1, Framed name

theorem FramedNames.child (h : FramedNames (.node children)) {child : String × TreeChild}
    (hChild : child ∈ children) : Framed child.1 ∧ FramedNames child.2 := by
  constructor
  · exact h _ (NameTree.mem_items_node.mpr ⟨child, hChild, Or.inl ⟨rfl, rfl⟩⟩) _ (List.mem_singleton_self _)
  · intro item hItem name hName
    exact h (child.1 :: item.1, item.2)
      (NameTree.mem_items_node.mpr ⟨child, hChild, Or.inr ⟨item.1, rfl, hItem⟩⟩) name (List.mem_cons_of_mem _ hName)

/-- The induction is on the first tree. The paths agree all the way down because the names do. -/
theorem eq_of_hashTree_eq {tree other : TreeChild} (hTree : FramedNames tree) (hOther : FramedNames other)
    (hFree : CollisionFreeOn sha256
      {document | document ∈ treeDocuments sha256 tree path ∨ document ∈ treeDocuments sha256 other path})
    (hTag : childTag tree = childTag other) (hHash : hashTree sha256 tree path = hashTree sha256 other path) :
    tree = other := by
  induction tree using NameTree.induct generalizing other path with
  | hLeaf leaf =>
    cases other with
    | node others => cases hTag
    | leaf leaf' =>
      obtain ⟨hash, kind⟩ := leaf
      obtain ⟨hash', kind'⟩ := leaf'
      have hKind : kind = kind' := PackageFileKind.tag_injective (List.cons.inj (List.cons.inj hTag).2).1
      have hSame : hash = hash' := hHash
      rw [hKind, hSame]
  | hNode children ih =>
    cases other with
    | leaf leaf => cases hTag
    | node others =>
      have hDocument : directoryDocument sha256 children path = directoryDocument sha256 others path :=
        hFree (Or.inl List.mem_cons_self) (Or.inr List.mem_cons_self) hHash
      have hChildren := List.append_cancel_left (List.append_cancel_left hDocument)
      obtain ⟨-, hEntries⟩ := List.append_inj hChildren (by rw [toLeBytes_length, toLeBytes_length])
      rw [hashedChildren_eq, hashedChildren_eq] at hEntries
      have hFramed {nodes : DirectoryNode} (hNodes : FramedNames (.node nodes)) :
          ∀ entry ∈ nodes.map (childEntry sha256 path), Framed entry.1 ∧ ∃ child, entry.2.1 = childTag child := by
        intro entry hEntry
        obtain ⟨child, hChild, rfl⟩ := List.mem_map.mp hEntry
        exact ⟨(hNodes.child hChild).1, child.2, rfl⟩
      have hSame := selfDelimiting_entry.flatMap_injective
        (fun entry _ => by simp [entryBytes, lengthPrefixed, toLeBytes])
        (hFramed hTree) (hFramed hOther) hEntries
      refine congrArg _ (eq_of_childEntries sha256 hSame ?_)
      rintro ⟨name, child⟩ hChild ⟨name', child'⟩ hChild' hEntry
      obtain ⟨rfl, hChildTag, hChildHash⟩ : name = name' ∧ childTag child = childTag child' ∧
          hashTree sha256 child (SlashPath.child path name) = hashTree sha256 child' (SlashPath.child path name') := by
        simpa [childEntry] using hEntry
      refine congrArg _ (ih _ hChild (hTree.child hChild).2 (hOther.child hChild').2
        (hFree.mono ?_) hChildTag hChildHash)
      rintro document (hDocument | hDocument)
      · exact Or.inl (List.mem_cons_of_mem _ (mem_childrenDocuments sha256 hChild hDocument))
      · exact Or.inr (List.mem_cons_of_mem _ (mem_childrenDocuments sha256 hChild' hDocument))

end

section

variable {sha256 : Sha256} {lowercase : String → String}

/-- Everything that is hashed when the records are built into a manifest. -/
def hashedDocuments (sha256 : Sha256) (lowercase : String → String)
    (files : List PackageFileRecord) : List (List UInt8) :=
  match (sortRecords files).foldlM (BuildState.add sha256 lowercase) .start with
  | .ok state => files.map fileDocument ++ treeDocuments sha256 (.node state.tree) ""
  | .error _ => []

variable {files : List PackageFileRecord} {record : PackageFileRecord} {state : BuildState}

theorem Acceptable.framed (h : Acceptable lowercase files)
    (hRecord : record ∈ files) : record.normalizedPath.utf8ByteSize < 256 ^ 8 := by
  have hMember : record.normalizedPath.utf8ByteSize ∈ files.map fun record => record.normalizedPath.utf8ByteSize :=
    List.mem_map.mpr ⟨record, hRecord, rfl⟩
  have hSize := List.le_sum_of_mem hMember
  have hTotal := h.pathBytes
  have hBound : maxPackageRecordPathBytes < 256 ^ 8 := by decide
  omega

theorem Built.framedNames
    (h : Built sha256 lowercase files state)
    (hFramed : ∀ record ∈ files, record.normalizedPath.utf8ByteSize < 256 ^ 8) :
    FramedNames (.node state.tree) := by
  intro item hItem name hName
  obtain ⟨path, leaf, hLeaf, hPrefix⟩ := h.tree.full.leaf_above hItem
  obtain ⟨record, hRecord, hSame⟩ := (h.tree.leaf_mem path leaf).mp hLeaf
  have hSplit : name ∈ SlashPath.split record.normalizedPath := (Prod.mk.inj hSame).1 ▸ hPrefix.subset hName
  exact (SlashPath.utf8ByteSize_le_of_mem_split hSplit).trans_lt (hFramed record hRecord)

theorem exists_built {manifest : PackageTreeManifest}
    (h : buildPackageManifest sha256 lowercase files = .ok manifest) :
    ∃ state, Built sha256 lowercase (sortRecords files) state ∧ manifest.files = sortRecords files ∧
      manifest.packageTreeMerkle = hashTree sha256 (.node state.tree) "" ∧
      hashedDocuments sha256 lowercase files =
        files.map fileDocument ++ treeDocuments sha256 (.node state.tree) "" := by
  obtain ⟨-, state, hState, rfl⟩ := buildPackageManifest_ok.mp h
  refine ⟨state, (foldlM_add_spec sha256 lowercase (sortRecords files)).2 state hState, rfl, rfl, ?_⟩
  rw [hashedDocuments, hState]

theorem mem_of_tree_eq {others : List PackageFileRecord} {state' : BuildState}
    (hBuilt : Built sha256 lowercase files state) (hBuilt' : Built sha256 lowercase others state')
    (hTree : state.tree = state'.tree)
    (hFiles : ∀ record ∈ files, Framed record.normalizedPath)
    (hOthers : ∀ record ∈ others, Framed record.normalizedPath)
    (hFree : ∀ record ∈ files, ∀ other ∈ others,
      sha256 (fileDocument record) = sha256 (fileDocument other) → fileDocument record = fileDocument other)
    (hRecord : record ∈ files) : record ∈ others := by
  have hLeaf := (hBuilt.tree.leaf_mem _ (leafOf sha256 record).2).mpr ⟨record, hRecord, rfl⟩
  rw [hTree] at hLeaf
  obtain ⟨other, hOther, hSame⟩ := (hBuilt'.tree.leaf_mem _ _).mp hLeaf
  have hHash : hashFileRecord sha256 record = hashFileRecord sha256 other :=
    congrArg TreeLeaf.hash (Prod.mk.inj hSame).2
  have hDocument := hFree record hRecord other hOther hHash
  rwa [fileDocument_injective (hFiles record hRecord) (hOthers other hOther) hDocument]

/-- Manifests with one root have the same records, as far as SHA-256 tells apart what was hashed for
them. -/
theorem records_eq_of_tree_root_eq {files others : List PackageFileRecord} {manifest other : PackageTreeManifest}
    (hBuild : buildPackageManifest sha256 lowercase files = .ok manifest)
    (hOther : buildPackageManifest sha256 lowercase others = .ok other)
    (hFree : CollisionFreeOn sha256 {document | document ∈ hashedDocuments sha256 lowercase files ∨
      document ∈ hashedDocuments sha256 lowercase others})
    (hRoot : manifest.packageTreeMerkle = other.packageTreeMerkle) :
    manifest.files = other.files ∧ ∀ record, record ∈ files ↔ record ∈ others := by
  have hAcceptable := acceptable_iff.mp ⟨manifest, hBuild⟩
  have hAcceptable' := acceptable_iff.mp ⟨other, hOther⟩
  obtain ⟨state, hBuilt, hFiles, hMerkle, hDocuments⟩ := exists_built hBuild
  obtain ⟨state', hBuilt', hFiles', hMerkle', hDocuments'⟩ := exists_built hOther
  have hFramed : ∀ record ∈ sortRecords files, Framed record.normalizedPath := fun record hRecord =>
    hAcceptable.framed ((sortRecords_perm files).mem_iff.mp hRecord)
  have hFramed' : ∀ record ∈ sortRecords others, Framed record.normalizedPath := fun record hRecord =>
    hAcceptable'.framed ((sortRecords_perm others).mem_iff.mp hRecord)
  rw [hDocuments, hDocuments'] at hFree
  have hTree : NameTree.node state.tree = .node state'.tree := by
    refine eq_of_hashTree_eq sha256 (hBuilt.framedNames hFramed) (hBuilt'.framedNames hFramed') (hFree.mono ?_) rfl
      (hMerkle.symm.trans (hRoot.trans hMerkle'))
    rintro document (hDocument | hDocument)
    · exact Or.inl (List.mem_append_right _ hDocument)
    · exact Or.inr (List.mem_append_right _ hDocument)
  have hFile : ∀ record ∈ sortRecords files, fileDocument record ∈ {document | document ∈ files.map fileDocument ++
      treeDocuments sha256 (.node state.tree) "" ∨ document ∈ others.map fileDocument ++
      treeDocuments sha256 (.node state'.tree) ""} := fun record hRecord =>
    Or.inl (List.mem_append_left _ (List.mem_map_of_mem ((sortRecords_perm files).mem_iff.mp hRecord)))
  have hFile' : ∀ record ∈ sortRecords others, fileDocument record ∈ {document | document ∈ files.map fileDocument ++
      treeDocuments sha256 (.node state.tree) "" ∨ document ∈ others.map fileDocument ++
      treeDocuments sha256 (.node state'.tree) ""} := fun record hRecord =>
    Or.inr (List.mem_append_left _ (List.mem_map_of_mem ((sortRecords_perm others).mem_iff.mp hRecord)))
  have hSame : ∀ record, record ∈ files ↔ record ∈ others := by
    intro record
    rw [← (sortRecords_perm files).mem_iff, ← (sortRecords_perm others).mem_iff]
    constructor
    · exact mem_of_tree_eq hBuilt hBuilt' (NameTree.node.inj hTree) hFramed hFramed'
        fun record hRecord other hOther hHash => hFree (hFile record hRecord) (hFile' other hOther) hHash
    · exact mem_of_tree_eq hBuilt' hBuilt (NameTree.node.inj hTree).symm hFramed' hFramed
        fun record hRecord other hOther hHash => hFree (hFile' record hRecord) (hFile other hOther) hHash
  refine ⟨?_, hSame⟩
  rw [hFiles, hFiles']
  refine sortRecords_eq hAcceptable.distinct ((List.perm_ext_iff_of_nodup ?_ ?_).mpr hSame)
  · exact hAcceptable.distinct.of_map
  · exact hAcceptable'.distinct.of_map

end

namespace Sample

theorem hashedDocuments_either_order : ∀ files ∈ [[readme, tool], [tool, readme]],
    ∀ document ∈ hashedDocuments sha256 String.toLower files,
      document ∈ [fileDocument tool, fileDocument readme, binDocument, rootDocument] := by decide +kernel

theorem collisionFree : CollisionFreeOn sha256 {document |
    document ∈ hashedDocuments sha256 String.toLower [readme, tool] ∨
      document ∈ hashedDocuments sha256 String.toLower [tool, readme]} := by
  have hDigests : ∀ document ∈ [fileDocument tool, fileDocument readme, binDocument, rootDocument],
      ∀ other ∈ [fileDocument tool, fileDocument readme, binDocument, rootDocument],
        sha256 document = sha256 other → document = other := by decide +kernel
  have hMember (document : List UInt8) (h : document ∈ hashedDocuments sha256 String.toLower [readme, tool] ∨
      document ∈ hashedDocuments sha256 String.toLower [tool, readme]) :
      document ∈ [fileDocument tool, fileDocument readme, binDocument, rootDocument] :=
    h.elim (hashedDocuments_either_order _ List.mem_cons_self document)
      (hashedDocuments_either_order _ (List.mem_cons_of_mem _ List.mem_cons_self) document)
  exact fun document hDocument other hOther => hDigests document (hMember _ hDocument) other (hMember _ hOther)

theorem one_root_one_list : buildPackageManifest sha256 String.toLower [readme, tool] = .ok manifest ∧
      buildPackageManifest sha256 String.toLower [tool, readme] = .ok manifest ∧
      ∀ record, record ∈ [readme, tool] ↔ record ∈ [tool, readme] := by
  have hBuild : buildPackageManifest sha256 String.toLower [readme, tool] = .ok manifest := by decide +kernel
  have hOther : buildPackageManifest sha256 String.toLower [tool, readme] = .ok manifest := by decide +kernel
  exact ⟨hBuild, hOther, (records_eq_of_tree_root_eq hBuild hOther collisionFree rfl).2⟩

end Sample

end Weregopher.Fingerprint
