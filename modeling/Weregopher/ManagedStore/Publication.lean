import Weregopher.ManagedStore.Publish

/-! # What the paths of digests show

A staged file belongs to its call until it is linked, and it is linked only when all its
bytes have been hashed. The discipline of the shared disk then gives what is visible at
the path of a digest in every interleaving.
-/
namespace Weregopher.ManagedStore
open Lib.Interleaving Lib.SharedDisk Sha256Digest

/-! ## Paths -/

def blobPath (digest : Sha256Digest) : Path :=
  contentRootPath ++ [encodeHex (digest.bytes.toList.take 1)] ++
    [encodeHex (digest.bytes.toList.drop 1)]

theorem slice_middle (front middle back : List Char) {start stop : Nat} (hStart : start = front.length)
    (hStop : stop = start + middle.length) : slice (front ++ middle ++ back) start stop = some middle := by
  subst hStart
  subst hStop
  rw [slice, if_pos (by simp), ← List.length_append, List.take_left, List.drop_left]

theorem slice_end (front back : List Char) {start : Nat} (hStart : start = front.length) :
    slice (front ++ back) start (front ++ back).length = some back := by
  subst hStart
  rw [slice, if_pos (by simp), List.take_length, List.drop_left]

theorem blobPaths_eq (digest : Sha256Digest) : ∃ fanoutPath, blobPaths digest = .ok (fanoutPath, blobPath digest) := by
  have hFanout : (encodeHex (digest.bytes.toList.take 1)).length = 2 := by
    rw [length_encodeHex]
    simp
  have hFanoutSlice : slice (contentPath digest) 7 9 = some (encodeHex (digest.bytes.toList.take 1)) :=
    slice_middle _ _ _ rfl (by rw [hFanout])
  have hFilenameSlice : slice (contentPath digest) 10 (contentPath digest).length =
      some (encodeHex (digest.bytes.toList.drop 1)) := by
    unfold contentPath
    rw [List.append_cons]
    apply slice_end _ _
    rw [List.length_append, List.length_append, hFanout]
    rfl
  refine ⟨contentRootPath ++ [encodeHex (digest.bytes.toList.take 1)], ?_⟩
  rw [blobPaths, hFanoutSlice, hFilenameSlice]
  rfl

theorem encodeHex_injective {bytes bytes' : List UInt8}
    (h : encodeHex bytes = encodeHex bytes') : bytes = bytes' := by
  have hDecode := decodeHex_encodeHex bytes
  rw [h, decodeHex_encodeHex] at hDecode
  exact (Option.some.inj hDecode).symm

theorem blobPath_injective {digest digest' : Sha256Digest} (h : blobPath digest = blobPath digest') :
    digest = digest' := by
  simp only [blobPath, List.append_assoc, List.append_cancel_left_eq, List.cons_append, List.nil_append,
    List.cons.injEq, and_true] at h
  have hBytes : digest.bytes.toList = digest'.bytes.toList := by
    rw [← List.take_append_drop 1 digest.bytes.toList, ← List.take_append_drop 1 digest'.bytes.toList,
      encodeHex_injective h.1, encodeHex_injective h.2]
  cases digest
  cases digest'
  simpa [Vector.toList_inj] using hBytes

theorem temporaryPath_ne (directory : Path) (drawn : Nat) (digest : Sha256Digest) :
    temporaryPath directory drawn ≠ blobPath digest := by
  intro h
  rw [temporaryPath, blobPath] at h
  have hName := (List.append_inj' h rfl).2
  have hLength := congrArg List.length (List.cons.inj hName).1
  rw [length_encodeHex] at hLength
  simp [length_encodeHex] at hLength

/-! ## Looking -/

variable {τ α β δ : Type}

theorem looksOnly_perform {program : Steps τ α} (h : program.LooksOnly) :
    (perform program : Fallible τ δ α).run.LooksOnly :=
  h.bind fun _ => trivial

theorem looksOnly_orFail {operation : String} {path : Path} {program : Steps τ (Except Failure α)}
    (h : program.LooksOnly) : (orFail operation path program).run.LooksOnly := by
  apply h.bind
  rintro (_ | _)
  · exact trivial
  · exact trivial

theorem looksOnly_bind_look {operation : String} {path : Path} {op : Choice → Disk τ Path → Except Failure α}
    {f : α → Fallible τ MaterializationStoreError β} (h : ∀ value, (f value).run.LooksOnly) :
    (orFail operation path (look op) >>= f).run.LooksOnly :=
  looksOnly_bind (looksOnly_orFail (looksOnly_look op)) h

theorem looksOnly_asStore {program : Fallible τ MaterializationStoreError α} (h : program.run.LooksOnly) :
    (asStore program).run.LooksOnly :=
  h.bind fun _ => trivial

theorem looksOnly_ite {condition : Prop} [Decidable condition] {program other : Fallible τ δ α}
    (h : program.run.LooksOnly) (hOther : other.run.LooksOnly) :
    (if condition then program else other).run.LooksOnly := by
  split
  · exact h
  · exact hOther

theorem looksOnly_openDirectDirectory (path : Path) :
    (openDirectDirectory path : Fallible τ _ _).run.LooksOnly := by
  refine looksOnly_bind_look fun _ => ?_
  refine looksOnly_bind_look fun attributes => ?_
  exact looksOnly_ite trivial (looksOnly_orFail (looksOnly_look _))

theorem looksOnly_verifyRootPath : (verifyRootPath : Fallible τ _ _).run.LooksOnly := by
  refine looksOnly_bind (looksOnly_openDirectDirectory []) fun current => ?_
  exact looksOnly_ite trivial trivial

theorem looksOnly_validateRegularFile (file : Nat) (path : Path) (digest : Sha256Digest) :
    (validateRegularFile file path digest : Fallible τ _ _).run.LooksOnly := by
  refine looksOnly_bind_look fun metadata => ?_
  exact looksOnly_ite trivial trivial

theorem looksOnly_openExistingBlob (path : Path) (digest : Sha256Digest) :
    (openExistingBlob path digest : Fallible τ _ _).run.LooksOnly := by
  apply looksOnly_bind (looksOnly_perform (looksOnly_look _))
  rintro (reason | file)
  · cases reason <;> exact trivial
  · exact looksOnly_bind (looksOnly_validateRegularFile file path digest) fun _ => trivial

theorem looksOnly_hashLoop (file : Nat) (path : Path) (expectedBytes : Nat) (bytes : List UInt8) :
    (hashLoop file path expectedBytes bytes : Fallible τ _ _).run.LooksOnly := by
  induction bytes using hashLoop.induct expectedBytes with
  | case1 bytes hMore ih =>
    rw [hashLoop, if_pos hMore]
    refine looksOnly_bind_look fun read => ?_
    split
    · exact trivial
    · refine looksOnly_bind ?_ fun _ => ih read ‹_›
      exact trivial
  | case2 bytes hDone =>
    rw [hashLoop, if_neg hDone]
    exact trivial

section

variable (sha256 : Sha256)

theorem looksOnly_hashExact (file : Nat) (path : Path) (expectedBytes : Nat) :
    (hashExact sha256 file path expectedBytes : Fallible τ _ _).run.LooksOnly := by
  refine looksOnly_bind_look fun _ => ?_
  exact looksOnly_bind (looksOnly_hashLoop file path expectedBytes []) fun _ => trivial

theorem looksOnly_verifyBlob (file : Nat) (path : Path) (expectedDigest : Sha256Digest) (expectedBytes : Nat) :
    (verifyBlob sha256 file path expectedDigest expectedBytes : Fallible τ _ _).run.LooksOnly := by
  refine looksOnly_ite trivial ?_
  refine looksOnly_bind (looksOnly_validateRegularFile file path expectedDigest) fun before => ?_
  refine looksOnly_ite trivial ?_
  refine looksOnly_bind (looksOnly_hashExact sha256 file path expectedBytes) fun first => ?_
  refine looksOnly_bind (looksOnly_hashExact sha256 file path expectedBytes) fun second => ?_
  refine looksOnly_bind (looksOnly_validateRegularFile file path expectedDigest) fun after => ?_
  exact looksOnly_ite trivial trivial

theorem looksOnly_lockTemporary (file : Nat) (path : Path) (expectedDigest : Sha256Digest) (expectedBytes : Nat) :
    (lockTemporary sha256 file path expectedDigest expectedBytes : Fallible τ _ _).run.LooksOnly := by
  refine looksOnly_bind_look fun _ => ?_
  refine looksOnly_bind (looksOnly_verifyBlob sha256 file path expectedDigest expectedBytes) fun file => ?_
  apply looksOnly_bind (looksOnly_openExistingBlob path expectedDigest)
  rintro (_ | transition)
  · exact trivial
  refine looksOnly_bind_look fun writeIdentity => ?_
  refine looksOnly_bind_look fun transitionIdentity => ?_
  refine looksOnly_ite trivial ?_
  apply looksOnly_bind (looksOnly_openExistingBlob path expectedDigest)
  rintro (_ | locked)
  · exact trivial
  refine looksOnly_bind (looksOnly_verifyBlob sha256 locked path expectedDigest expectedBytes) fun locked => ?_
  refine looksOnly_bind_look fun temporaryIdentity => ?_
  exact looksOnly_ite trivial trivial

end

theorem looksOnly_read (request : Nat) (source : Source) : (source.read request : Steps τ _).LooksOnly := by
  cases source with
  | cursor rest => exact trivial
  | reader =>
    apply (looksOnly_look _).bind
    rintro (_ | _)
    · exact trivial
    · exact trivial

/-! ## What each part keeps -/

section

variable (sha256 : Sha256)

def discipline : Discipline Path (Event τ) where
  shared path := ∃ digest, path = blobPath digest
  accepts path bytes := path = blobPath (sha256 bytes)
  found?
    | .published _ digest _ => some (blobPath digest)
  created?
    | .published _ digest .created => some (blobPath digest)
    | .published _ _ .reused => none

abbrev Attempts (thread : τ) (P : World τ Path (Event τ) → Prop) (program : Fallible τ δ α)
    (Q : α → World τ Path (Event τ) → Prop) (E : World τ Path (Event τ) → Prop) : Prop :=
  (contract (discipline sha256) thread).Attempt (Consistent (discipline sha256)) P program Q E

def Settled (thread : τ) (digest : Sha256Digest) : Publication → World τ Path (Event τ) → Prop
  | .created => Linked (discipline sha256) thread (blobPath digest)
  | .reused => Filled (discipline sha256) (blobPath digest)

abbrev Private (τ : Type) (path : Path) : Prop := ¬(discipline (τ := τ) sha256).shared path

variable (thread : τ) (digest : Sha256Digest) (path : Path) (file : Nat)

abbrev StableFor (P : World τ Path (Event τ) → Prop) : Prop := (contract (discipline sha256) thread).Stable P

/-- The program may stop anywhere, the store stays consistent. -/
abbrev Keeps (program : Fallible τ δ α) : Prop :=
  Attempts sha256 thread (fun _ => True) program (fun _ _ => True) (fun _ => True)

/-- The thread's temporary file has content of the digest. -/
def Staged (s : World τ Path (Event τ)) : Prop := ∃ bytes, sha256 bytes = digest ∧ Owns thread path file bytes s

abbrev HeldSettled (publication : Publication) (s : World τ Path (Event τ)) : Prop :=
  Holds thread path file s ∧ Settled sha256 thread digest publication s

end

section

variable {sha256 : Sha256} {thread : τ} {P R E : World τ Path (Event τ) → Prop}

theorem blobPath_shared (digest : Sha256Digest) : (discipline (τ := τ) sha256).shared (blobPath digest) :=
  ⟨digest, rfl⟩

variable (directory : Path)

theorem temporaryPath_private (drawn : Nat) : Private sha256 τ (temporaryPath directory drawn) := by
  rintro ⟨digest, h⟩
  exact temporaryPath_ne directory drawn digest h

theorem settled_stable (digest : Sha256Digest) (publication : Publication) :
    StableFor sha256 thread (Settled sha256 thread digest publication) := by
  cases publication with
  | created => exact linked_stable
  | reused => exact filled_stable

variable {program : Fallible τ δ α} {f : α → Fallible τ δ β} {Q : α → World τ Path (Event τ) → Prop} {error : δ}
  {names : Path → Option Nat}

theorem attempts_looks (h : program.run.LooksOnly)
    (hP : StableFor sha256 thread P) : Attempts sha256 thread P program (fun _ => P) P := by
  apply spec_mono (spec_looks h hP) (fun _ => id)
  rintro (error | value) s hs
  · exact hs
  · exact hs

theorem attempts_bind {S : α → World τ Path (Event τ) → Prop}
    {Q : β → World τ Path (Event τ) → Prop} (hE : StableFor sha256 thread E)
    (h : Attempts sha256 thread P program S E) (hf : ∀ value, Attempts sha256 thread (S value) (f value) Q E) :
    Attempts sha256 thread P (program >>= f) Q E :=
  attempt_bind consistent_stable hE h hf

theorem attempts_throw (hE : StableFor sha256 thread E) (h : ∀ s, P s → E s) :
    Attempts sha256 thread P (throw error : Fallible τ δ α) Q E :=
  spec_ret consistent_stable hE h

theorem attempts_throw_bind {Q : β → World τ Path (Event τ) → Prop}
    (hE : StableFor sha256 thread E) (h : ∀ s, P s → E s) :
    Attempts sha256 thread P (throw error >>= f) Q E := by
  change Attempts sha256 thread P (throw error) Q E
  exact attempts_throw hE h

theorem attempts_pure {value : α} (hQ : StableFor sha256 thread (Q value)) (h : ∀ s, P s → Q value s) :
    Attempts sha256 thread P (pure value : Fallible τ δ α) Q E :=
  spec_ret consistent_stable hQ h

theorem attempts_given (value : α) {Q : β → World τ Path (Event τ) → Prop} (hProgram : program = pure value)
    (h : Attempts sha256 thread P (f value) Q E) : Attempts sha256 thread P (program >>= f) Q E := by
  subst hProgram
  exact h

theorem attempts_asStore {program : Fallible τ MaterializationStoreError α}
    (h : Attempts sha256 thread P program Q E) : Attempts sha256 thread P (asStore program) Q E := by
  refine spec_map (spec_mono h (fun _ => id) ?_)
  rintro (error | value) s hs
  · exact hs
  · exact hs

theorem attempts_orFail {operation : String} {path : Path} {program : Steps τ (Except Failure α)}
    (h : Spec (discipline sha256) thread P program fun result s =>
      match result with
      | .ok value => Q value s
      | .error _ => E s) :
    Attempts sha256 thread P (orFail operation path program) Q E := by
  have hMap : (orFail operation path program).run =
      program >>= fun result => pure (result.mapError (.io operation path)) := by
    refine congrArg (program >>= ·) (funext fun result => ?_)
    cases result <;> rfl
  unfold Attempts Contract.Attempt
  rw [hMap]
  refine spec_map (spec_mono h (fun _ => id) ?_)
  rintro (error | value) s hs
  · exact hs
  · exact hs

/-! ### Staging -/

variable {path : Path} {file : Nat} {digest : Sha256Digest}

theorem staged_stable : StableFor sha256 thread (Staged sha256 thread digest path file) := by
  rintro s t h ⟨bytes, hBytes, hs⟩
  exact ⟨bytes, hBytes, owns_stable s t h hs⟩

theorem attempts_writeAll (hPrivate : Private sha256 τ path) (bytes chunk : List UInt8) :
    Attempts sha256 thread (Owns thread path file bytes) (writeAll file path chunk)
      (fun _ => Owns thread path file (bytes ++ chunk)) (Holds thread path file) := by
  induction chunk using writeAll.induct generalizing bytes with
  | case1 =>
    rw [writeAll, if_pos rfl, List.append_nil]
    exact attempts_pure owns_stable fun _ => id
  | case2 chunk hChunk ih =>
    rw [writeAll, if_neg hChunk]
    refine attempts_bind (S := fun count => Owns thread path file (bytes ++ chunk.take count)) holds_stable ?_ ?_
    · refine attempts_orFail (spec_mono (spec_append hPrivate chunk) (fun _ => id) ?_)
      rintro (error | count) s hs
      · exact hs.holds
      · exact hs
    · intro count
      split
      · exact attempts_throw holds_stable fun _ hs => hs.holds
      · refine attempt_mono (ih count ‹_› (bytes ++ chunk.take count)) (fun _ => id) ?_ fun _ => id
        intro _ s hs
        rwa [List.append_assoc, List.take_append_drop] at hs

/-- What the hasher has been given is what has been written. -/
theorem attempts_copyLoop (hPrivate : Private sha256 τ path) (source : Source) (remaining : Nat)
    (bytes : List UInt8) :
    Attempts sha256 thread (Owns thread path file bytes) (copyLoop file path source remaining bytes)
      (fun result => Owns thread path file result.2) (Holds thread path file) := by
  induction source, remaining, bytes using copyLoop.induct with
  | case1 source bytes =>
    rw [copyLoop, if_pos rfl]
    exact attempts_pure owns_stable fun _ => id
  | case2 source remaining bytes hMore ih =>
    rw [copyLoop, if_neg hMore]
    refine attempts_bind (S := fun _ => Owns thread path file bytes) holds_stable
      (attempt_lift (spec_looks (looksOnly_read _ source) owns_stable)) ?_
    rintro (error | ⟨read, source⟩)
    · exact attempts_throw holds_stable fun _ hs => hs.holds
    · dsimp only
      split
      · exact attempts_throw holds_stable fun _ hs => hs.holds
      · refine attempts_bind holds_stable (attempts_asStore (attempts_writeAll hPrivate bytes read)) fun _ => ?_
        exact ih read source ‹_›

theorem attempts_copyExact (hPrivate : Private sha256 τ path) (source : Source) (expectedBytes : Nat) :
    Attempts sha256 thread (Owns thread path file []) (copyExact sha256 file path source expectedBytes digest)
      (fun _ => Staged sha256 thread digest path file) (Holds thread path file) := by
  apply attempts_bind holds_stable (attempts_copyLoop hPrivate source expectedBytes [])
  rintro ⟨source, bytes⟩
  refine attempts_bind (S := fun _ => Owns thread path file bytes) holds_stable
    (attempt_lift (spec_looks (looksOnly_read 1 source) owns_stable)) ?_
  rintro (error | ⟨extra, _⟩)
  · exact attempts_throw holds_stable fun _ hs => hs.holds
  · dsimp only
    split
    · exact attempts_throw_bind holds_stable fun _ hs => hs.holds
    · split
      · exact attempts_throw holds_stable fun _ hs => hs.holds
      · rename_i hDigest
        exact attempts_pure staged_stable fun _ hs => ⟨bytes, not_not.mp hDigest, hs⟩

theorem attempts_createTemporaryFile (attempts left : Nat) :
    Attempts sha256 thread (fun _ => True) (createTemporaryFile thread directory digest attempts left)
      (fun created s => (∃ drawn, created.1 = temporaryPath directory drawn) ∧ Owns thread created.1 created.2 [] s)
      (fun _ => True) := by
  induction left with
  | zero => exact attempts_throw true_stable fun _ _ => trivial
  | succ left ih =>
    refine attempts_bind (S := fun _ _ => True) true_stable
      (attempt_lift (spec_looks looksOnly_draw true_stable)) fun drawn => ?_
    have hPrivate : Private sha256 τ (temporaryPath directory drawn) :=
      temporaryPath_private directory drawn
    apply attempts_bind true_stable (attempt_lift (spec_createNew hPrivate))
    rintro (reason | file)
    · cases reason with
      | alreadyExists => exact attempt_mono ih (fun _ _ => trivial) (fun _ _ => id) fun _ => id
      | notFound => exact attempts_throw true_stable fun _ _ => trivial
      | other => exact attempts_throw true_stable fun _ _ => trivial
    · refine attempts_bind (S := fun _ => Owns thread (temporaryPath directory drawn) file []) true_stable ?_ ?_
      · refine attempt_lift (spec_mono (spec_looks ?_ owns_stable) (fun _ hs => hs file rfl) fun _ _ => id)
        exact looksOnly_validateRegularFile file _ digest
      · rintro (error | metadata)
        · refine attempts_bind (S := fun _ _ => True) true_stable ?_ ?_
          · have hRemove : Spec (discipline sha256) thread
                (fun s => Holds thread (temporaryPath directory drawn) file s ∧ True) (remove _) (fun _ _ => True) :=
              spec_remove hPrivate true_stable fun _ _ _ _ => trivial
            exact attempt_lift (spec_mono hRemove (fun _ hs => ⟨hs.holds, trivial⟩) fun _ _ => id)
          · rintro (reason | _)
            · exact attempts_throw true_stable fun _ _ => trivial
            · exact attempts_throw true_stable fun _ _ => trivial
        · refine attempts_pure ?_ fun _ hs => ⟨⟨drawn, rfl⟩, hs⟩
          exact fun s t h hs => ⟨hs.1, owns_stable s t h hs.2⟩

/-! ### Publication -/

theorem attempts_openExistingBlob (hP : StableFor sha256 thread P) :
    Attempts sha256 thread P (openExistingBlob (blobPath digest) digest)
      (fun found s => P s ∧ (found ≠ none → Filled (discipline sha256) (blobPath digest) s)) P := by
  have hDone : ∀ found : Option Nat, StableFor sha256 thread
      (fun s => P s ∧ (found ≠ none → Filled (discipline sha256) (blobPath digest) s)) :=
    fun found s t h hs => ⟨hP s t h hs.1, fun hFound => filled_stable s t h (hs.2 hFound)⟩
  apply attempts_bind hP (attempt_lift (spec_openFile (blobPath_shared digest) hP))
  rintro (reason | file)
  · cases reason with
    | notFound => exact attempts_pure (hDone none) fun _ hs => ⟨hs.1, fun h => absurd rfl h⟩
    | alreadyExists => exact attempts_throw hP fun _ => And.left
    | other => exact attempts_throw hP fun _ => And.left
  · refine attempts_bind (S := fun _ s => P s ∧ Filled (discipline sha256) (blobPath digest) s) hP ?_ fun _ => ?_
    · exact attempt_mono
        (attempts_looks (looksOnly_validateRegularFile file _ digest) (and_stable hP filled_stable))
        (fun _ hs => ⟨hs.1, hs.2 file rfl⟩) (fun _ _ => id) fun _ => And.left
    · exact attempts_pure (hDone (some file)) fun _ hs => ⟨hs.1, fun _ => hs.2⟩

theorem attempts_publishLockedTemporary (hPrivate : Private sha256 τ path)
    (expectedBytes temporaryIdentity : Nat) :
    Attempts sha256 thread (Staged sha256 thread digest path file)
      (publishLockedTemporary sha256 path (blobPath digest) digest expectedBytes temporaryIdentity)
      (HeldSettled sha256 thread digest path file)
      (Holds thread path file) := by
  have hDone : ∀ publication, StableFor sha256 thread (HeldSettled sha256 thread digest path file publication) :=
    fun publication => and_stable holds_stable (settled_stable digest publication)
  refine attempts_bind (S := fun result s => Holds thread path file s ∧
    (result = .ok () → Linked (discipline sha256) thread (blobPath digest) s)) holds_stable ?_ ?_
  · refine attempt_lift fun s hs ⟨bytes, hBytes, hOwns⟩ => ?_
    exact spec_link (blobPath_shared digest) (congrArg blobPath hBytes.symm) hPrivate s hs hOwns
  rintro (reason | _)
  · cases reason with
    | alreadyExists =>
      refine attempts_bind holds_stable (attempt_mono (attempts_openExistingBlob holds_stable)
        (fun _ => And.left) (fun _ _ => id) fun _ => id) ?_
      rintro (_ | existing)
      · exact attempts_throw holds_stable fun _ => And.left
      · refine attempts_bind (S := fun _ => HeldSettled sha256 thread digest path file .reused)
          holds_stable ?_ fun _ => attempts_pure (hDone .reused) fun _ => id
        exact attempt_mono (attempts_looks (looksOnly_verifyBlob sha256 existing _ digest expectedBytes)
          (hDone .reused)) (fun _ hs => ⟨hs.1, hs.2 nofun⟩) (fun _ _ => id) fun _ => And.left
    | notFound => exact attempts_throw holds_stable fun _ => And.left
    | other => exact attempts_throw holds_stable fun _ => And.left
  · have hLook : ∀ {ζ : Type} {program : Fallible τ MaterializationStoreError ζ}, program.run.LooksOnly →
        Attempts sha256 thread (HeldSettled sha256 thread digest path file .created) program
          (fun _ => HeldSettled sha256 thread digest path file .created) (Holds thread path file) :=
      fun h => attempt_mono (attempts_looks h (hDone .created)) (fun _ => id) (fun _ _ => id) fun _ => And.left
    refine attempts_bind holds_stable (attempt_mono (hLook (looksOnly_openExistingBlob _ digest))
      (fun _ hs => ⟨hs.1, hs.2 rfl⟩) (fun _ _ => id) fun _ => id) ?_
    rintro (_ | published)
    · exact attempts_throw holds_stable fun _ => And.left
    · refine attempts_bind holds_stable (hLook (looksOnly_verifyBlob sha256 published _ digest expectedBytes))
        fun published => ?_
      refine attempts_bind holds_stable (hLook (looksOnly_orFail (looksOnly_look _))) fun publishedIdentity => ?_
      split
      · exact attempts_throw_bind holds_stable fun _ => And.left
      · exact attempts_pure (hDone .created) fun _ => id

theorem attempts_stageAndPublishInner (hPrivate : Private sha256 τ path) (source : Source)
    (expectedBytes : Nat) : Attempts sha256 thread (Owns thread path file [])
      (stageAndPublishInner sha256 file path (blobPath digest) digest source expectedBytes)
      (HeldSettled sha256 thread digest path file)
      (Holds thread path file) := by
  refine attempts_bind holds_stable (attempts_copyExact hPrivate source expectedBytes) fun _ => ?_
  refine attempts_bind holds_stable (S := fun _ => Staged sha256 thread digest path file)
    (attempts_asStore ?_)
    fun temporaryIdentity => attempts_asStore (attempts_publishLockedTemporary hPrivate expectedBytes temporaryIdentity)
  exact attempt_mono (attempts_looks (looksOnly_lockTemporary sha256 file path digest expectedBytes) staged_stable)
    (fun _ => id) (fun _ _ => id) fun _ ⟨_, _, hs⟩ => hs.holds

variable {s : World τ Path (Event τ)}

theorem Settled.frame {publication : Publication} (hPrivate : Private sha256 τ path)
    (hNames : ∀ other, other ≠ path → names other = s.disk.names other)
    (h : Settled sha256 thread digest publication s) :
    Settled sha256 thread digest publication { s with disk := { s.disk with names := names } } := by
  have hName : names (blobPath digest) = s.disk.names (blobPath digest) :=
    hNames _ (shared_ne hPrivate (blobPath_shared digest))
  cases publication with
  | created =>
    obtain ⟨hShared, ⟨file, hHolds, hContent⟩, hUnsaid⟩ := h
    exact ⟨hShared, ⟨file, hName.trans hHolds, hContent⟩, hUnsaid⟩
  | reused =>
    obtain ⟨hShared, hFilled⟩ := h
    exact ⟨hShared, fun hNone => hFilled (hName.symm.trans hNone)⟩

/-- What a call knows of a digest once it has an outcome. -/
def Reported (sha256 : Sha256) (thread : τ) (digest : Sha256Digest) :
    Except ReaderPublicationError Publication → World τ Path (Event τ) → Prop
  | .ok publication => Settled sha256 thread digest publication
  | .error _ => fun _ => True

theorem reported_stable (outcome : Except ReaderPublicationError Publication) :
    StableFor sha256 thread (Reported sha256 thread digest outcome) := by
  cases outcome with
  | ok publication => exact settled_stable digest publication
  | error error => exact true_stable

theorem Reported.frame {outcome : Except ReaderPublicationError Publication} (hPrivate : Private sha256 τ path)
    (hNames : ∀ other, other ≠ path → names other = s.disk.names other)
    (h : Reported sha256 thread digest outcome s) :
    Reported sha256 thread digest outcome { s with disk := { s.disk with names := names } } := by
  cases outcome with
  | ok publication => exact Settled.frame hPrivate hNames h
  | error error => exact trivial

theorem attempts_cleanUp (hPrivate : Private sha256 τ path)
    {inner : Fallible τ ReaderPublicationError Publication} (hInner : Attempts sha256 thread P inner
      (HeldSettled sha256 thread digest path file)
      (Holds thread path file)) :
    Attempts sha256 thread P
      (do
        let result ← perform inner.run
        match ← perform (remove path) with
        | .ok () => ofResult result
        | .error _ => throw (.store (.temporaryCleanupFailed path)))
      (Settled sha256 thread digest) (fun _ => True) := by
  refine attempts_bind (S := fun outcome s => Holds thread path file s ∧ Reported sha256 thread digest outcome s)
    true_stable (attempt_lift (spec_mono hInner (fun _ => id) ?_)) fun outcome => ?_
  · rintro (error | publication) s hs
    · exact ⟨hs, trivial⟩
    · exact hs
  refine attempts_bind (S := fun _ => Reported sha256 thread digest outcome) true_stable
    (attempt_lift (spec_remove hPrivate (reported_stable outcome) fun _ _ => Reported.frame hPrivate)) ?_
  rintro (reason | _)
  · exact attempts_throw true_stable fun _ _ => trivial
  · cases outcome with
    | ok publication => exact attempts_pure (settled_stable digest publication) fun _ => id
    | error error => exact attempts_throw true_stable fun _ => id

theorem attempts_stageAndPublishReader (source : Source) (expectedBytes tempAttempts : Nat) :
    Attempts sha256 thread (fun _ => True)
      (stageAndPublishReader sha256 thread directory (blobPath digest) digest source expectedBytes tempAttempts)
      (Settled sha256 thread digest) (fun _ => True) := by
  refine attempts_bind true_stable
    (attempts_asStore (attempts_createTemporaryFile directory tempAttempts tempAttempts)) ?_
  rintro ⟨path, file⟩ s hs ⟨⟨drawn, hPath⟩, hOwns⟩
  obtain rfl : path = temporaryPath directory drawn := hPath
  have hPrivate : Private sha256 τ (temporaryPath directory drawn) :=
    temporaryPath_private directory drawn
  exact attempts_cleanUp hPrivate (attempts_stageAndPublishInner hPrivate source expectedBytes) s hs hOwns

theorem attempts_stageAndPublish (bytes : List UInt8) (tempAttempts : Nat) :
    Attempts sha256 thread (fun _ => True)
      (stageAndPublish sha256 thread directory (blobPath digest) digest bytes tempAttempts)
      (Settled sha256 thread digest) (fun _ => True) := by
  refine spec_map (spec_mono (attempts_stageAndPublishReader directory (.cursor bytes) bytes.length tempAttempts)
    (fun _ => id) ?_)
  rintro (error | publication) s hs
  · exact hs
  · exact hs

/-! ### Calls -/

theorem attempts_ensureDirectDirectory (path : Path) : Keeps sha256 thread (ensureDirectDirectory path) := by
  have hOpen : Keeps sha256 thread (openDirectDirectory path) :=
    attempts_looks (looksOnly_openDirectDirectory path) true_stable
  apply attempts_bind true_stable (attempt_lift spec_createDirectory)
  rintro (reason | _)
  · cases reason with
    | alreadyExists => exact hOpen
    | notFound => exact attempts_throw true_stable fun _ => id
    | other => exact attempts_throw true_stable fun _ => id
  · exact hOpen

theorem spec_published (publication : Publication) :
    Spec (discipline sha256) thread (Settled sha256 thread digest publication)
      (record (.published thread digest publication)) (fun _ _ => True) := by
  refine spec_record (settled_stable digest publication) ?_ ?_
  · rintro s hs _ ⟨⟩
    cases publication with
    | created => exact hs.filled
    | reused => exact hs
  · intro s hs path hCreated
    cases publication with
    | created =>
      cases hCreated
      exact hs
    | reused => cases hCreated

theorem attempts_settle (found : Option Nat) {verify : Nat → Fallible τ δ Nat} {stage : Fallible τ δ Publication}
    {rest : Publication → Fallible τ δ Publication} (hVerify : ∀ file, (verify file).run.LooksOnly)
    (hStage : Attempts sha256 thread (fun _ => True) stage (Settled sha256 thread digest) (fun _ => True))
    (hRest : ∀ publication, Attempts sha256 thread (Settled sha256 thread digest publication) (rest publication)
      (fun _ _ => True) (fun _ => True)) :
    Attempts sha256 thread (fun s => True ∧ (found ≠ none → Filled (discipline sha256) (blobPath digest) s))
      (match found with
        | some file => do
          let _ ← verify file
          let publication ← pure Publication.reused
          rest publication
        | none => do
          let publication ← stage
          rest publication)
      (fun _ _ => True) (fun _ => True) := by
  cases found with
  | none =>
    refine attempts_bind true_stable ?_ hRest
    exact attempt_mono hStage (fun _ _ => trivial) (fun _ _ => id) fun _ => id
  | some file =>
    refine attempts_bind (S := fun _ => Settled sha256 thread digest .reused) true_stable ?_ fun _ => ?_
    · exact attempt_mono (attempts_looks (hVerify file) (settled_stable digest .reused)) (fun _ hs => hs.2 nofun)
        (fun _ _ => id) fun _ _ => trivial
    · exact attempts_given .reused rfl (hRest .reused)

theorem attempts_verifyRootPath : Keeps sha256 thread verifyRootPath :=
  attempts_looks looksOnly_verifyRootPath true_stable

theorem attempts_publishReader (expectedBytes : Nat) (source : Source) (tempAttempts : Nat) :
    Keeps sha256 thread (publishReader sha256 thread digest expectedBytes source tempAttempts) := by
  obtain ⟨fanoutPath, hPaths⟩ := blobPaths_eq digest
  rw [publishReader, hPaths]
  refine attempts_bind true_stable (attempts_asStore attempts_verifyRootPath) fun _ => ?_
  refine attempts_bind true_stable (attempts_asStore (attempts_ensureDirectDirectory contentRootPath)) fun _ => ?_
  apply attempts_given (fanoutPath, blobPath digest) rfl
  refine attempts_bind true_stable (attempts_asStore (attempts_ensureDirectDirectory fanoutPath)) fun _ => ?_
  refine attempts_bind true_stable (attempts_asStore (attempts_openExistingBlob true_stable)) fun found => ?_
  refine attempts_settle found
    (fun file => looksOnly_asStore (looksOnly_verifyBlob sha256 file _ digest expectedBytes))
    (attempts_stageAndPublishReader fanoutPath source expectedBytes tempAttempts) fun publication => ?_
  refine attempts_bind true_stable (attempt_lift (spec_published publication)) fun _ => ?_
  exact attempts_bind true_stable (attempts_asStore attempts_verifyRootPath) fun _ =>
    attempts_pure true_stable fun _ => id

theorem attempts_materializeBlob (tempAttempts : Nat) (digest : Sha256Digest) (bytes : List UInt8) :
    Keeps sha256 thread (materializeBlob sha256 thread tempAttempts digest bytes) := by
  obtain ⟨fanoutPath, hPaths⟩ := blobPaths_eq digest
  rw [materializeBlob, hPaths]
  apply attempts_given (fanoutPath, blobPath digest) rfl
  refine attempts_bind true_stable (attempts_ensureDirectDirectory fanoutPath) fun _ => ?_
  refine attempts_bind true_stable (attempts_openExistingBlob true_stable) fun found => ?_
  refine attempts_settle found (fun file => looksOnly_verifyBlob sha256 file _ digest bytes.length)
    (attempts_stageAndPublish fanoutPath bytes tempAttempts) fun publication => ?_
  exact attempts_bind true_stable (attempt_lift (spec_published publication)) fun _ =>
    attempts_pure true_stable fun _ => id

theorem attempts_ofResult (result : Except δ α) : Keeps sha256 thread (ofResult result) := by
  cases result with
  | ok value => exact attempts_pure true_stable fun _ => id
  | error error => exact attempts_throw true_stable fun _ => id

theorem attempts_materializeBlobs (tempAttempts : Nat) (blobs : List (Sha256Digest × List UInt8))
    (created reused : Nat) :
    Keeps sha256 thread (materializeBlobs sha256 thread tempAttempts blobs created reused) := by
  induction blobs generalizing created reused with
  | nil => exact attempts_pure true_stable fun _ => id
  | cons blob rest ih =>
    obtain ⟨digest, bytes⟩ := blob
    apply attempts_bind true_stable (attempts_materializeBlob tempAttempts digest bytes)
    rintro (_ | _)
    · exact attempts_bind true_stable (attempts_ofResult _) fun created => ih created reused
    · exact attempts_bind true_stable (attempts_ofResult _) fun reused => ih created reused

theorem attempts_materialize (manifestDigest : Sha256Digest) (blobs : List (Sha256Digest × List UInt8))
    (tempAttempts totalBytes : Nat) :
    Keeps sha256 thread (materialize sha256 thread manifestDigest blobs tempAttempts totalBytes) := by
  refine attempts_bind true_stable attempts_verifyRootPath fun _ => ?_
  refine attempts_bind true_stable (attempts_ensureDirectDirectory contentRootPath) fun _ => ?_
  refine attempts_bind true_stable (attempts_materializeBlobs tempAttempts blobs 0 0) fun counts => ?_
  exact attempts_bind true_stable attempts_verifyRootPath fun _ => attempts_pure true_stable fun _ => id

theorem spec_program (call : Call) :
    Spec (discipline sha256) thread (fun _ => True) (call.program sha256 thread) (fun _ _ => True) := by
  cases call with
  | publishReader digest expectedBytes source tempAttempts =>
    refine spec_map (spec_mono (attempts_publishReader expectedBytes source tempAttempts) (fun _ => id) ?_)
    exact fun _ _ _ => trivial
  | materialize manifestDigest blobs tempAttempts totalBytes =>
    refine spec_map (spec_mono (attempts_materialize manifestDigest blobs tempAttempts totalBytes) (fun _ => id) ?_)
    exact fun _ _ _ => trivial

end

/-! ## Whole runs -/

section

variable (sha256 : Sha256)

/-- The calls before their first steps, on a store that is an empty directory. -/
def beforeCalls (calls : τ → Call) : Config τ Choice (World τ Path (Event τ)) :=
  ⟨fun thread => (calls thread).program sha256 thread, World.start [[]]⟩

def Event.creates (digest : Sha256Digest) : Event τ → Bool
  | published _ other .created => decide (other = digest)
  | published _ _ .reused => false

theorem creations_eq (digest : Sha256Digest) (log : List (Event τ)) :
    creations (discipline sha256) (blobPath digest) log = log.countP (Event.creates digest) := by
  refine List.countP_congr fun event _ => ?_
  obtain ⟨thread, other, publication⟩ := event
  cases publication with
  | created =>
    simp only [discipline, Event.creates, decide_eq_true_eq, Option.some.injEq]
    exact ⟨blobPath_injective, congrArg blobPath⟩
  | reused => simp [discipline, Event.creates]

variable [DecidableEq τ]

/-- What the path of a digest shows are bytes with that digest, ever after; at most one report says that the content was
created, and whatever content is reported is there. -/
theorem digest_paths_show_complete_content (calls : τ → Call) (schedule : List (τ × Choice)) :
    (∀ digest bytes, ((beforeCalls sha256 calls).run schedule).state.disk.visible (blobPath digest) = some bytes →
      sha256 bytes = digest ∧ ∀ more,
        ((beforeCalls sha256 calls).run (schedule ++ more)).state.disk.visible (blobPath digest) = some bytes) ∧
    (∀ digest, ((beforeCalls sha256 calls).run schedule).state.log.countP (Event.creates digest) ≤ 1) ∧
    ∀ thread digest publication,
      .published thread digest publication ∈ ((beforeCalls sha256 calls).run schedule).state.log →
        ∃ bytes, ((beforeCalls sha256 calls).run schedule).state.disk.visible (blobPath digest) = some bytes := by
  have hSpec : ∀ thread, Spec (discipline sha256) thread (fun _ => True) ((calls thread).program sha256 thread)
      (fun _ _ => True) := fun thread => spec_program (calls thread)
  have hConsistent : Consistent (discipline sha256) ((beforeCalls sha256 calls).run schedule).state :=
    (consistent_run hSpec schedule).1
  refine ⟨fun digest bytes hVisible => ⟨?_, fun more => ?_⟩, fun digest => ?_, ?_⟩
  · exact (blobPath_injective (hConsistent.visible (blobPath_shared digest) hVisible)).symm
  · exact visible_run hSpec schedule more (blobPath_shared digest) hVisible
  · rw [← creations_eq sha256]
    exact hConsistent.once (blobPath digest)
  · intro thread digest publication hEvent
    obtain ⟨-, hName⟩ := hConsistent.found _ hEvent (blobPath digest) (.inl rfl)
    obtain ⟨file, hFile⟩ := Option.ne_none_iff_exists'.mp hName
    obtain ⟨content, hContent⟩ := hConsistent.named _ file hFile
    exact ⟨content.content, by rw [Disk.visible, hFile, Option.bind_some, hContent]; rfl⟩

end

/-! ## A run

One call stages its content while another one publishes the same digest. -/

namespace Sample

def letterDigest : Sha256Digest := .ofNat 0xca978112ca1bbdcafac231b39a23dc4da786eff8147c4e72b9807785afee48bb

def emptyDigest : Sha256Digest := .ofNat 0xe3b0c44298fc1c149afbf4c8996fb92427ae41e4649b934ca495991b7852b855

/-- SHA-256 of the letter a and of nothing. -/
def sha256 (bytes : List UInt8) : Sha256Digest := if bytes = [0x61] then letterDigest else emptyDigest

def calls : Bool → Call
  | true => .publishReader letterDigest 1 (.cursor [0x61]) 1
  | false => .materialize emptyDigest [(letterDigest, [0x61])] 1 1

def scheduled (thread : Bool) : Bool × Choice := (thread, ⟨none, 0, thread.toNat, [], 0x20, 1, 1⟩)

/-- The first call is about to link its file when the second one runs to its end. -/
def schedule : List (Bool × Choice) := List.replicate 36 (scheduled true) ++ List.replicate 51 (scheduled false)

def more : List (Bool × Choice) := List.replicate 20 (scheduled true)

def visible (schedule : List (Bool × Choice)) : Option (List UInt8) :=
  ((beforeCalls sha256 calls).run schedule).state.disk.visible (blobPath letterDigest)

def log (schedule : List (Bool × Choice)) : List (Event Bool) := ((beforeCalls sha256 calls).run schedule).state.log

theorem sample_second_call_reuses : visible schedule = some [0x61] ∧
    visible (schedule ++ more) = some [0x61] ∧ sha256 [0x61] = letterDigest ∧
    log (schedule ++ more) = [.published false letterDigest .created, .published true letterDigest .reused] ∧
    (log (schedule ++ more)).countP (Event.creates letterDigest) ≤ 1 := by
  have hVisible : visible schedule = some [0x61] := by decide +kernel
  obtain ⟨hComplete, -⟩ := digest_paths_show_complete_content sha256 calls schedule
  obtain ⟨hDigest, hLater⟩ := hComplete letterDigest [0x61] hVisible
  obtain ⟨-, hOnce, -⟩ := digest_paths_show_complete_content sha256 calls (schedule ++ more)
  exact ⟨hVisible, hLater more, hDigest, by decide +kernel, hOnce letterDigest⟩

end Sample

end Weregopher.ManagedStore
