import Weregopher.Ledger.Reference

/-! # The history that an accepted ledger holds

The pinned head determines every byte before it. What the projection keeps is
tied to the events before it, so its checks become statements about the whole
ledger: which policy a publication was held against, which challenges were used,
and how the generations move.
-/
namespace Weregopher.LocalCertificationLedger
open Lib Lib.Checked Lib.Outcome

/-- Two directories that open under one pinned head hold the same records in the same order, byte for
byte, so replay gives the same state. -/
theorem same_head_same_records (library : DocumentLibrary) (root other : LedgerRoot) (head : RecordDigest)
    (state state' : LedgerState) (hRoot : openLedger library root head = .ok state)
    (hOther : openLedger library other head = .ok state')
    (hHash : CollisionFreeOn library.sha256 {bytes | bytes ∈ root.contents ∨ bytes ∈ other.contents}) :
    ∃ listing listing' files, root = .directory listing ∧ other = .directory listing' ∧
      Stores listing files ∧ Stores listing' files ∧ state = state' := by
  obtain ⟨listing, files, final, rfl, hStores, -, -, hReplay, hFinish⟩ := replayDirectory_ok.1 hRoot
  obtain ⟨listing', files', final', rfl, hStores', -, -, hReplay', hFinish'⟩ := replayDirectory_ok.1 hOther
  obtain ⟨hLinked, hHead⟩ := Replayed.linked hReplay
  obtain ⟨hLinked', hHead'⟩ := Replayed.linked hReplay'
  obtain ⟨⟨-, hDigest, -⟩, hExpected⟩ := finishReplay_ok.1 hFinish
  obtain ⟨⟨-, hDigest', -⟩, hExpected'⟩ := finishReplay_ok.1 hFinish'
  have hHeads : HashChain.head library.sha256 files = HashChain.head library.sha256 files' := by
    rw [← hHead, ← hHead', hDigest, hDigest', ← hExpected head rfl, ← hExpected' head rfl]
  have hFiles : files = files' := by
    refine HashChain.eq_of_head_eq (hHash.mono ?_) hLinked hLinked' hHeads
    rintro bytes (hMember | hMember)
    · exact .inl (mem_contents_of_stores hStores hMember)
    · exact .inr (mem_contents_of_stores hStores' hMember)
  subst hFiles
  obtain rfl : final = final' := Except.ok.inj (hReplay.symm.trans hReplay')
  exact ⟨listing, listing', files, rfl, rfl, hStores, hStores', Except.ok.inj (hFinish.symm.trans hFinish')⟩

namespace Sample

/-- The two records of the sample, enumerated in either order. -/
theorem sample_same_records :
    openLedger library (.directory [firstEntry, secondEntry]) secondHead = .ok secondState ∧
      openLedger library (.directory [secondEntry, firstEntry]) secondHead = .ok secondState ∧
      ∃ files, Stores [firstEntry, secondEntry] files ∧ Stores [secondEntry, firstEntry] files := by
  have hOpen : openLedger library (.directory [firstEntry, secondEntry]) secondHead =
      .ok secondState := open_second (.refl _)
  have hOther : openLedger library (.directory [secondEntry, firstEntry]) secondHead =
      .ok secondState := open_second (.swap _ _ [])
  have hHash : CollisionFreeOn library.sha256 {bytes |
      bytes ∈ (LedgerRoot.directory [firstEntry, secondEntry]).contents ∨
        bytes ∈ (LedgerRoot.directory [secondEntry, firstEntry]).contents} := by
    apply collisionFree.mono
    rintro bytes (hBytes | hBytes) <;>
      simpa [LedgerRoot.contents, firstEntry, secondEntry, prepared, recordEntry, or_comm]
        using hBytes
  obtain ⟨_, _, files, ⟨⟩, ⟨⟩, hStores, hStores', -⟩ :=
    same_head_same_records library _ _ secondHead _ _ hOpen hOther hHash
  exact ⟨hOpen, hOther, files, hStores, hStores'⟩

end Sample

/-- What stands before a pinned head never changes: a ledger holds the record with that digest exactly when it begins
with the ledger that opened under it. -/
theorem pinned_ledger_kept_iff (library : DocumentLibrary) (root other : LedgerRoot) (head : RecordDigest)
    (state state' : LedgerState) (hRoot : openLedger library root head = .ok state)
    (hOther : replayDirectory library other none = .ok state')
    (hHash : CollisionFreeOn library.sha256 {bytes | bytes ∈ root.contents ∨ bytes ∈ other.contents}) :
    ∃ listing listing' files files', root = .directory listing ∧ other = .directory listing' ∧ Stores listing files ∧
      Stores listing' files' ∧ ((∃ record ∈ files', library.sha256 record = head) ↔ files <+: files') := by
  obtain ⟨listing, files, final, rfl, hStores, -, -, hReplay, hFinish⟩ := replayDirectory_ok.1 hRoot
  obtain ⟨listing', files', _, rfl, hStores', -, -, hReplay', -⟩ := replayDirectory_ok.1 hOther
  obtain ⟨hLinked, hHead⟩ := Replayed.linked hReplay
  obtain ⟨⟨-, hDigest, -⟩, hExpected⟩ := finishReplay_ok.1 hFinish
  have hLast : HashChain.head library.sha256 files = some head := by
    rw [← hHead, hDigest, ← hExpected head rfl]
  refine ⟨listing, listing', files, files', rfl, rfl, hStores, hStores', ?_, ?_⟩
  · rintro ⟨record, hRecord, rfl⟩
    obtain ⟨front, back, rfl⟩ := List.append_of_mem hRecord
    rw [List.append_cons] at *
    obtain rfl : files = front ++ [record] := by
      refine HashChain.eq_of_head_eq (hHash.mono ?_) hLinked (Replayed.linked hReplay').1.left ?_
      · rintro bytes (hMember | hMember)
        · exact .inl (mem_contents_of_stores hStores hMember)
        · exact .inr (mem_contents_of_stores hStores' (List.mem_append_left _ hMember))
      · rw [hLast, HashChain.head_concat]
    exact List.prefix_append _ _
  · intro hPrefix
    obtain ⟨record, hRecord, hDigest⟩ := Option.map_eq_some_iff.mp hLast
    exact ⟨record, hPrefix.subset (List.mem_of_getLast? hRecord), hDigest⟩

namespace Sample

theorem first_ledger_kept : ∃ files files', Stores [firstEntry] files ∧ Stores [firstEntry, secondEntry] files' ∧
    ((∃ record ∈ files', library.sha256 record = firstHead) ↔ files <+: files') := by
  have hHash : CollisionFreeOn library.sha256 {bytes | bytes ∈ (LedgerRoot.directory [firstEntry]).contents ∨
      bytes ∈ (LedgerRoot.directory [firstEntry, secondEntry]).contents} := by
    apply collisionFree.mono
    intro bytes
    simp [LedgerRoot.contents, firstEntry, secondEntry, prepared, recordEntry]
  obtain ⟨_, _, files, files', ⟨⟩, ⟨⟩, hKept⟩ :=
    pinned_ledger_kept_iff library _ _ firstHead _ _ open_first replay_second hHash
  exact ⟨files, files', hKept⟩

end Sample

namespace Event

def challenge : Event → Option Uuid
  | genesis first => some first.attestation.freshness.challenge
  | publication later => some later.attestation.freshness.challenge
  | _ => none

def installs : Event → Option CertificationControlPolicy
  | genesis first => some first.policy
  | policyReplacement replacement => some replacement.policy
  | _ => none

def isRevocation : Event → Bool
  | certificationRevocation _ | runnerRevocation _ => true
  | _ => false

end Event

/-- The policy in force after the events: installed by the last genesis or replacement, with no
revocation since. -/
def InForce (events : List Event) (policy : CertificationControlPolicy) : Prop :=
  ∃ older install newer, events = older ++ install :: newer ∧ install.installs = some policy ∧
    ∀ event ∈ newer, event.installs = none ∧ event.isRevocation = false

def project (events : List Event) : Except LedgerError (Option LedgerProjection) :=
  events.foldlM (fun projection event => some <$> projectEvent projection event) none

/-- What holds of the events of a ledger. Generations are those of the projection after a first part. -/
structure Consistent (events : List Event) : Prop where
  challenges : (events.filterMap Event.challenge).Nodup
  genesis : ∀ first, .genesis first ∈ events → first.policy.acceptsAttestation first.attestation = true
  publications : ∀ front later back, events = front ++ .publication later :: back →
    ∃ policy, InForce front policy ∧ policy.acceptsAttestation later.attestation = true
  monotone : ∀ front middle back before after, events = front ++ middle ++ back →
    project front = .ok (some before) → project (front ++ middle) = .ok (some after) →
      before.runnerGeneration ≤ after.runnerGeneration ∧
        before.certificationGeneration ≤ after.certificationGeneration
  replacements : ∀ front middle replacement back before,
    events = front ++ middle ++ .policyReplacement replacement :: back →
      project front = .ok (some before) →
        before.runnerGeneration < replacement.policy.runner.policyGeneration ∧
          before.certificationGeneration < replacement.policy.policyGeneration

section

variable {projection next : LedgerProjection}

theorem applyReplacement_ok {policy : CertificationControlPolicy}
    (h : projection.applyReplacement policy = .ok next) :
    policy.runner.policyGeneration.toNat = projection.runnerGeneration.toNat + 1 ∧
      policy.policyGeneration.toNat = projection.certificationGeneration.toNat + 1 ∧
      next = ⟨policy, policy.runner.policyGeneration, policy.policyGeneration, false, false,
        projection.freshnessChallenges⟩ := by
  rw [LedgerProjection.applyReplacement] at h
  split at h
  · next runner certification hRunner hCertification =>
    obtain ⟨hExpected, hNext⟩ := ite_error_ok.1 h
    obtain ⟨rfl, rfl⟩ : policy.runner.policyGeneration = runner ∧ policy.policyGeneration = certification := by
      simpa only [not_or, not_not] using hExpected
    exact ⟨checkedSucc_toNat hRunner, checkedSucc_toNat hCertification, (Except.ok.inj hNext).symm⟩
  · cases h

theorem apply_generations {event : Event} (h : projection.apply event = .ok next) :
    projection.runnerGeneration ≤ next.runnerGeneration ∧
      projection.certificationGeneration ≤ next.certificationGeneration := by
  simp only [UInt64.le_iff_toNat_le]
  cases event with
  | genesis first => cases h
  | publication later =>
    obtain ⟨-, -, -, -, rfl⟩ := applyPublication_ok.1 h
    exact ⟨Nat.le_refl _, Nat.le_refl _⟩
  | policyReplacement replacement =>
    obtain ⟨hRunner, hCertification, rfl⟩ := applyReplacement_ok h
    exact ⟨hRunner ▸ Nat.le_succ _, hCertification ▸ Nat.le_succ _⟩
  | certificationRevocation revocation =>
    rw [LedgerProjection.apply] at h
    split at h
    · cases h
    · next generation hSucc =>
      cases h
      exact ⟨Nat.le_refl _, checkedSucc_toNat hSucc ▸ Nat.le_succ _⟩
  | runnerRevocation revocation =>
    rw [LedgerProjection.apply] at h
    split at h
    · cases h
    · next generation hSucc =>
      cases h
      exact ⟨checkedSucc_toNat hSucc ▸ Nat.le_succ _, Nat.le_refl _⟩

end

variable {event : Event} {front events : List Event} {projection : Option LedgerProjection} {next : LedgerProjection}

theorem project_concat : project (front ++ [event]) = .ok projection ↔
      ∃ before after, project front = .ok before ∧ projectEvent before event = .ok after ∧
        projection = some after := by
  rw [project, List.foldlM_append, bind_ok]
  simp only [List.foldlM_cons, List.foldlM_nil, bind_ok, map_ok, pure_ok]
  constructor
  · rintro ⟨before, hFront, _, ⟨after, hAfter, rfl⟩, rfl⟩
    exact ⟨before, after, hFront, hAfter, rfl⟩
  · rintro ⟨before, after, hFront, hAfter, rfl⟩
    exact ⟨before, hFront, _, ⟨after, hAfter, rfl⟩, rfl⟩

/-- What the projection remembers of the events before it. -/
structure Tracks (events : List Event) (projection : LedgerProjection) : Prop where
  challenges : ∀ challenge, challenge ∈ projection.freshnessChallenges ↔
    challenge ∈ events.filterMap Event.challenge
  installed : ∃ older install newer, events = older ++ install :: newer ∧
    install.installs = some projection.policy ∧ (∀ event ∈ newer, event.installs = none) ∧
    (projection.runnerRevoked = false → projection.certificationRevoked = false →
      ∀ event ∈ newer, event.isRevocation = false)

theorem Tracks.inForce {projection : LedgerProjection} (h : Tracks events projection)
    (hRunner : projection.runnerRevoked = false) (hCertification : projection.certificationRevoked = false) :
    InForce events projection.policy := by
  obtain ⟨older, install, newer, rfl, hInstall, hNewer, hRevoked⟩ := h.installed
  exact ⟨older, install, newer, rfl, hInstall, fun event hEvent =>
    ⟨hNewer event hEvent, hRevoked hRunner hCertification event hEvent⟩⟩

theorem Tracks.keep {projection : LedgerProjection}
    (h : Tracks events projection) (hPolicy : next.policy = projection.policy) (hInstalls : event.installs = none)
    (hRunner : next.runnerRevoked = false → projection.runnerRevoked = false)
    (hCertification : next.certificationRevoked = false → projection.certificationRevoked = false)
    (hRevocation : next.runnerRevoked = false → next.certificationRevoked = false → event.isRevocation = false) :
    ∃ older install newer, events ++ [event] = older ++ install :: newer ∧
      install.installs = some next.policy ∧ (∀ event ∈ newer, event.installs = none) ∧
      (next.runnerRevoked = false → next.certificationRevoked = false →
        ∀ event ∈ newer, event.isRevocation = false) := by
  obtain ⟨older, install, newer, rfl, hInstall, hNewer, hRevoked⟩ := h.installed
  refine ⟨older, install, newer ++ [event], by simp, hPolicy ▸ hInstall, ?_, ?_⟩
  · intro other hOther
    rcases List.mem_append.1 hOther with hOther | hOther
    · exact hNewer other hOther
    · exact List.mem_singleton.1 hOther ▸ hInstalls
  · intro hFirst hSecond other hOther
    rcases List.mem_append.1 hOther with hOther | hOther
    · exact hRevoked (hRunner hFirst) (hCertification hSecond) other hOther
    · exact List.mem_singleton.1 hOther ▸ hRevocation hFirst hSecond

theorem Tracks.apply {projection : LedgerProjection}
    (h : Tracks events projection) (hNext : projection.apply event = .ok next) :
    Tracks (events ++ [event]) next := by
  have hChallenges := h.challenges
  cases event with
  | genesis first => cases hNext
  | publication later =>
    obtain ⟨-, -, -, -, rfl⟩ := applyPublication_ok.1 hNext
    refine ⟨fun challenge => ?_, h.keep rfl rfl id id fun _ _ => rfl⟩
    simp [hChallenges, Event.challenge, or_comm]
  | policyReplacement replacement =>
    obtain ⟨-, -, rfl⟩ := applyReplacement_ok hNext
    refine ⟨fun challenge => ?_, events, _, [], rfl, rfl, by simp, by simp⟩
    simp [hChallenges, Event.challenge]
  | certificationRevocation revocation =>
    rw [LedgerProjection.apply] at hNext
    split at hNext
    · cases hNext
    · cases hNext
      refine ⟨fun challenge => ?_, h.keep rfl rfl id nofun nofun⟩
      simp [hChallenges, Event.challenge]
  | runnerRevocation revocation =>
    rw [LedgerProjection.apply] at hNext
    split at hNext
    · cases hNext
    · cases hNext
      refine ⟨fun challenge => ?_, h.keep rfl rfl nofun id nofun⟩
      simp [hChallenges, Event.challenge]

/-- What the projection's checks say about an event and the events before it. -/
structure Admitted (front : List Event) (event : Event) : Prop where
  challenge : ∀ challenge, event.challenge = some challenge → challenge ∉ front.filterMap Event.challenge
  publication : ∀ later, event = .publication later →
    ∃ policy, InForce front policy ∧ policy.acceptsAttestation later.attestation = true
  replacement : ∀ replacement before, event = .policyReplacement replacement →
    project front = .ok (some before) →
      before.runnerGeneration < replacement.policy.runner.policyGeneration ∧
        before.certificationGeneration < replacement.policy.policyGeneration

theorem Tracks.admitted {projection : LedgerProjection}
    (h : Tracks events projection) (hProject : project events = .ok (some projection))
    (hNext : projection.apply event = .ok next) : Admitted events event := by
  cases event with
  | genesis first => cases hNext
  | publication later =>
    obtain ⟨hRunner, hCertification, hAccepts, hFresh, -⟩ := applyPublication_ok.1 hNext
    refine ⟨?_, ?_, fun _ _ h => (nomatch h)⟩
    · rintro _ ⟨⟩
      exact fun hSeen => hFresh ((h.challenges _).2 hSeen)
    · rintro _ ⟨⟩
      exact ⟨projection.policy, h.inForce hRunner hCertification, hAccepts⟩
  | policyReplacement replacement =>
    obtain ⟨hRunner, hCertification, -⟩ := applyReplacement_ok hNext
    refine ⟨fun _ h => (nomatch h), fun _ h => (nomatch h), ?_⟩
    rintro _ before ⟨⟩ hBefore
    obtain rfl : projection = before := Option.some.inj (Except.ok.inj (hProject.symm.trans hBefore))
    simp only [UInt64.lt_iff_toNat_lt]
    omega
  | certificationRevocation revocation =>
    exact ⟨fun _ h => (nomatch h), fun _ h => (nomatch h), fun _ _ h => (nomatch h)⟩
  | runnerRevocation revocation =>
    exact ⟨fun _ h => (nomatch h), fun _ h => (nomatch h), fun _ _ h => (nomatch h)⟩

/-- The run lemma: the projection tracks the events, and every event was admitted after those before it. -/
theorem project_tracks (h : project events = .ok projection) :
    EachAfter Admitted events ∧ (projection = none → events = []) ∧
      ∀ known, projection = some known → Tracks events known := by
  induction events using List.reverseRecOn generalizing projection with
  | nil =>
    cases h
    exact ⟨EachAfter.nil, fun _ => rfl, fun _ h => (nomatch h)⟩
  | append_singleton front event ih =>
    obtain ⟨before, after, hFront, hEvent, rfl⟩ := project_concat.1 h
    obtain ⟨hAdmitted, hEmpty, hTracks⟩ := ih hFront
    cases before with
    | none =>
      obtain rfl := hEmpty rfl
      cases event with
      | genesis first =>
        cases hEvent
        refine ⟨EachAfter.concat_iff.2 ⟨EachAfter.nil, ⟨fun _ _ h => (nomatch h), fun _ h => (nomatch h),
          fun _ _ h => (nomatch h)⟩⟩, fun h => (nomatch h), ?_⟩
        rintro _ ⟨⟩
        refine ⟨fun challenge => ?_, [], _, [], rfl, rfl, by simp, by simp⟩
        simp [LedgerProjection.fromGenesis, Event.challenge]
      | _ => cases hEvent
    | some known =>
      have hKnown := hTracks known rfl
      refine ⟨EachAfter.concat_iff.2 ⟨hAdmitted, hKnown.admitted hFront hEvent⟩, fun h => (nomatch h), ?_⟩
      rintro _ ⟨⟩
      exact hKnown.apply hEvent

theorem project_append_generations {middle : List Event} {before after : LedgerProjection}
    (hBefore : project front = .ok (some before)) (hAfter : project (front ++ middle) = .ok (some after)) :
    before.runnerGeneration ≤ after.runnerGeneration ∧
      before.certificationGeneration ≤ after.certificationGeneration := by
  induction middle using List.reverseRecOn generalizing after with
  | nil =>
    rw [List.append_nil] at hAfter
    obtain rfl : before = after := Option.some.inj (Except.ok.inj (hBefore.symm.trans hAfter))
    exact ⟨UInt64.le_refl _, UInt64.le_refl _⟩
  | append_singleton rest event ih =>
    rw [← List.append_assoc] at hAfter
    obtain ⟨last, _, hLast, hEvent, ⟨⟩⟩ := project_concat.1 hAfter
    cases last with
    | none =>
      obtain ⟨-, hEmpty, -⟩ := project_tracks hLast
      obtain ⟨rfl, -⟩ := List.append_eq_nil_iff.1 (hEmpty rfl)
      cases hBefore
    | some last =>
      obtain ⟨hRunner, hCertification⟩ := ih hLast
      obtain ⟨hRunner', hCertification'⟩ := apply_generations hEvent
      exact ⟨UInt64.le_trans hRunner hRunner', UInt64.le_trans hCertification hCertification'⟩

theorem project_front {back : List Event}
    (h : project (front ++ back) = .ok projection) : ∃ before, project front = .ok before := by
  rw [project, List.foldlM_append, bind_ok] at h
  obtain ⟨before, hFront, -⟩ := h
  exact ⟨before, hFront⟩

theorem consistent_of_project (h : project events = .ok projection)
    (hGenesis : ∀ first, .genesis first ∈ events → first.policy.acceptsAttestation first.attestation = true) :
    Consistent events := by
  obtain ⟨hAdmitted, -, -⟩ := project_tracks h
  refine ⟨EachAfter.nodup_filterMap (hAdmitted.mono fun _ _ hEvent => hEvent.challenge), hGenesis, ?_, ?_, ?_⟩
  · intro front later back hSplit
    exact (hAdmitted front _ back hSplit).publication later rfl
  · intro front middle back before after hSplit hBefore hAfter
    exact project_append_generations hBefore hAfter
  · intro front middle replacement back before hSplit hBefore
    rw [hSplit] at h
    obtain ⟨last, hLast⟩ := project_front h
    cases last with
    | none =>
      obtain ⟨-, hEmpty, -⟩ := project_tracks hLast
      obtain ⟨rfl, -⟩ := List.append_eq_nil_iff.1 (hEmpty rfl)
      cases hBefore
    | some last =>
      obtain ⟨hRunner, hCertification⟩ := project_append_generations hBefore hLast
      obtain ⟨hRunner', hCertification'⟩ := (hAdmitted _ _ _ hSplit).replacement replacement last rfl hLast
      exact ⟨UInt64.lt_of_le_of_lt hRunner hRunner', UInt64.lt_of_le_of_lt hCertification hCertification'⟩

variable {library : DocumentLibrary}

theorem Event.genesis_accepts {first : Genesis} (h : (Event.genesis first).validate library = .ok ()) :
    first.policy.acceptsAttestation first.attestation = true := by
  have hGenesis : first.validate library = .ok () := h
  rw [Genesis.validate, ite_error_ok] at hGenesis
  simpa using hGenesis.1

def Holds (library : DocumentLibrary) (files : List (List UInt8)) (records : List Record) : Prop :=
  files.map (Record.fromJsonSlice library) = records.map .ok

theorem Replayed.records {files : List (List UInt8)} {final : ReplayState} (h : Replayed library files final) :
    ∃ records, Holds library files records ∧ project (records.map Record.event) = .ok final.projection ∧
      ∀ record ∈ records, record.event.validate library = .ok () := by
  induction files using List.reverseRecOn generalizing final with
  | nil =>
    rw [replayed_nil.1 h]
    exact ⟨[], rfl, rfl, fun _ h => (nomatch h)⟩
  | append_singleton front bytes ih =>
    obtain ⟨state, record, projection, hFront, -, hExtends, rfl⟩ := replayed_concat.1 h
    obtain ⟨records, hHolds, hProject, hValid⟩ := ih hFront
    refine ⟨records ++ [record], ?_, ?_, ?_⟩
    · rw [Holds, List.map_append, List.map_append, hHolds, List.map_singleton, hExtends.parsed]
      rfl
    · rw [List.map_append]
      exact project_concat.2 ⟨_, projection, hProject, hExtends.projected, rfl⟩
    · intro other hOther
      rcases List.mem_append.1 hOther with hOther | hOther
      · exact hValid other hOther
      · rw [List.mem_singleton.1 hOther]
        exact Record.validate_of_validateShape (Record.validateShape_of_fromJsonSlice hExtends.parsed)

/-- The events of every ledger that replay accepts are consistent. -/
theorem accepted_ledger_consistent (library : DocumentLibrary) (root : LedgerRoot)
    (expectedHead : Option RecordDigest) (state : LedgerState)
    (h : replayDirectory library root expectedHead = .ok state) :
    ∃ listing files records, root = .directory listing ∧ Stores listing files ∧ Holds library files records ∧
      project (records.map Record.event) = .ok (some state.projection) ∧
      Consistent (records.map Record.event) := by
  obtain ⟨listing, files, final, rfl, hStores, -, -, hReplay, hFinish⟩ := replayDirectory_ok.1 h
  obtain ⟨⟨-, -, hProjection, -⟩, -⟩ := finishReplay_ok.1 hFinish
  obtain ⟨records, hHolds, hProject, hValid⟩ := Replayed.records hReplay
  refine ⟨listing, files, records, rfl, hStores, hHolds, hProjection ▸ hProject, consistent_of_project hProject ?_⟩
  intro first hFirst
  obtain ⟨record, hRecord, hEvent⟩ := List.mem_map.1 hFirst
  exact Event.genesis_accepts (hEvent ▸ hValid record hRecord)

theorem sample_consistent : ∃ files records, Stores [Sample.firstEntry, Sample.secondEntry] files ∧
    Holds Sample.library files records ∧ Consistent (records.map Record.event) := by
  obtain ⟨_, files, records, ⟨⟩, hStores, hHolds, -, hConsistent⟩ :=
    accepted_ledger_consistent Sample.library (.directory [Sample.firstEntry, Sample.secondEntry]) none
      Sample.secondState Sample.replay_second
  exact ⟨files, records, hStores, hHolds, hConsistent⟩

end Weregopher.LocalCertificationLedger
