import Weregopher.Transform.Emission

/-! # What emission gives is the splice of the edits

Ordered edits cut the bytes of the source into parts that are kept and removed. The
running length of the first pass counts the result so far and the source that is left,
so what an edit removes is always part of it.
-/
namespace Weregopher.Transform
open Lib.Bytes Lib.Checked Lib.Outcome

structure OrderedEdits (sourceBytes : Nat) (edits : List TextEdit) : Prop where
  ordered : edits.Pairwise fun edit later => edit.endByte ≤ later.startByte
  within : ∀ edit ∈ edits, edit.startByte ≤ edit.endByte ∧ edit.endByte ≤ sourceBytes

/-- Bytes that are kept, the removed ones after them and those that take their place. -/
structure Segment where
  (kept removed inserted : List UInt8)

variable (segments : List Segment)

def originalBytes : List UInt8 := segments.flatMap fun segment => segment.kept ++ segment.removed

def splicedBytes : List UInt8 := segments.flatMap fun segment => segment.kept ++ segment.inserted

def insertedLength : Nat := (segments.map fun segment => segment.inserted.length).sum

inductive EditsOf : (offset : Nat) → List Segment → List TextEdit → Prop
  | nil {offset : Nat} : EditsOf offset [] []
  | cons {offset : Nat} {segment : Segment} {segments : List Segment} {edit : TextEdit} {edits : List TextEdit}
    (hStart : edit.startByte = offset + segment.kept.length)
    (hEnd : edit.endByte = offset + segment.kept.length + segment.removed.length)
    (hInserted : segment.inserted = charBytes edit.replacement)
    (hRest : EditsOf (offset + segment.kept.length + segment.removed.length) segments edits) :
    EditsOf offset (segment :: segments) (edit :: edits)

@[simp] theorem originalBytes_nil : originalBytes [] = [] := rfl

variable (segment : Segment)

theorem originalBytes_cons (segments : List Segment) :
    originalBytes (segment :: segments) = segment.kept ++ segment.removed ++ originalBytes segments := rfl

theorem splicedBytes_cons (segments : List Segment) :
    splicedBytes (segment :: segments) = segment.kept ++ segment.inserted ++ splicedBytes segments := rfl

theorem insertedLength_cons (segments : List Segment) :
    insertedLength (segment :: segments) = segment.inserted.length + insertedLength segments := rfl

theorem exists_segments {edits : List TextEdit} (done rest : List UInt8)
    (h : OrderedEdits (done ++ rest).length edits) (hDone : ∀ edit ∈ edits, done.length ≤ edit.startByte) :
    ∃ segments tail, rest = originalBytes segments ++ tail ∧ EditsOf done.length segments edits := by
  induction edits generalizing done rest with
  | nil => exact ⟨[], rest, rfl, .nil⟩
  | cons edit edits ih =>
    have hStart := hDone edit List.mem_cons_self
    obtain ⟨hRange, hEnd⟩ := h.within edit List.mem_cons_self
    rw [List.length_append] at hEnd
    -- The part before the edit and the part it removes are taken off the rest.
    obtain ⟨kept, back, rfl, hKept⟩ : ∃ kept back, rest = kept ++ back ∧ kept.length = edit.startByte - done.length :=
      ⟨_, _, (List.take_append_drop (edit.startByte - done.length) rest).symm, List.length_take_of_le (by omega)⟩
    rw [List.length_append] at hEnd
    obtain ⟨removed, back, rfl, hRemoved⟩ :
        ∃ removed more, back = removed ++ more ∧ removed.length = edit.endByte - edit.startByte :=
      ⟨_, _, (List.take_append_drop (edit.endByte - edit.startByte) back).symm, List.length_take_of_le (by omega)⟩
    have hOffset : (done ++ kept ++ removed).length = done.length + kept.length + removed.length := by
      rw [List.length_append, List.length_append]
    have hAssoc : done ++ kept ++ removed ++ back = done ++ (kept ++ (removed ++ back)) := by simp
    obtain ⟨segments, tail, rfl, hEdits⟩ := ih (done ++ kept ++ removed) back
      (by
        rw [hAssoc]
        exact ⟨h.ordered.of_cons, fun other hOther => h.within other (List.mem_cons_of_mem _ hOther)⟩)
      (by
        intro other hOther
        have hLater := List.rel_of_pairwise_cons h.ordered hOther
        omega)
    rw [hOffset] at hEdits
    refine ⟨⟨kept, removed, charBytes edit.replacement⟩ :: segments, tail, ?_, .cons ?_ ?_ rfl hEdits⟩
    · rw [originalBytes_cons]
      simp
    · dsimp only
      omega
    · dsimp only
      omega

/-! ## The two passes -/

theorem byteRange_middle (front middle back : List UInt8) :
    byteRange (front ++ middle ++ back) front.length (front.length + middle.length) = some middle := by
  rw [byteRange, if_pos (by simp), ← List.length_append, List.take_left, List.drop_left]

theorem applyEdits_segments {segments : List Segment} {edits : List TextEdit} (done tail : List UInt8)
    (h : EditsOf done.length segments edits) :
    applyEdits (done ++ (originalBytes segments ++ tail)) done.length edits = .ok (splicedBytes segments ++ tail) := by
  induction segments generalizing done edits with
  | nil =>
    cases h
    have hRange := byteRange_middle done tail []
    rw [List.append_nil, ← List.length_append] at hRange
    rw [applyEdits, originalBytes_nil, List.nil_append, hRange]
    rfl
  | cons segment segments ih =>
    cases h with
    | cons hStart hEnd hInserted hRest =>
      have hLength : (done ++ segment.kept ++ segment.removed).length =
          done.length + segment.kept.length + segment.removed.length := by
        rw [List.length_append, List.length_append]
      have hAssoc : done ++ (originalBytes (segment :: segments) ++ tail) =
          done ++ segment.kept ++ segment.removed ++ (originalBytes segments ++ tail) := by
        simp [originalBytes_cons]
      have hNext := ih (done ++ segment.kept ++ segment.removed) (by rwa [hLength])
      have hRange := byteRange_middle done segment.kept (segment.removed ++ (originalBytes segments ++ tail))
      rw [← List.append_assoc] at hRange
      rw [hAssoc, applyEdits, hStart, hEnd, hRange, ← hLength, hNext, splicedBytes_cons, hInserted]
      simp [okOr, bind, Except.bind, pure, Except.pure]

theorem yields_transformedLength {segments : List Segment} {edits : List TextEdit} {offset sourceBytes done left : Nat}
    (h : EditsOf offset segments edits) (hSource : offset + (originalBytes segments).length ≤ sourceBytes) :
    Yields (fun error => error = .transformedSourceLengthOverflow ∧
        usizeMax < done + (originalBytes segments).length + left + insertedLength segments)
      (· = done + (splicedBytes segments).length + left)
      (transformedLength sourceBytes (done + (originalBytes segments).length + left) offset edits) := by
  induction segments generalizing offset done edits with
  | nil =>
    cases h
    exact yields_pure rfl
  | cons segment segments ih =>
    cases h with
    | @cons _ _ _ edit _ hStart hEnd hInserted hRest =>
      rw [originalBytes_cons, List.length_append, List.length_append] at hSource ⊢
      rw [transformedLength]
      refine yields_guard (fun hInvalid => absurd hInvalid (by omega)) fun _ => ?_
      have hShorter : checkedSub (done + (segment.kept.length + segment.removed.length +
          (originalBytes segments).length) + left) (edit.endByte - edit.startByte) =
            some (done + segment.kept.length + (originalBytes segments).length + left) :=
        checkedSub_eq_some.mpr ⟨by omega, by omega⟩
      rw [hShorter, ← hInserted, insertedLength_cons, splicedBytes_cons, List.length_append, List.length_append, hEnd]
      refine yields_bind (Q := (· = done + segment.kept.length + (originalBytes segments).length + left)) rfl ?_
      rintro _ rfl
      have hAdded : done + segment.kept.length + (originalBytes segments).length + left + segment.inserted.length =
          done + segment.kept.length + segment.inserted.length + (originalBytes segments).length + left := by omega
      refine yields_bind (Q := (· = done + segment.kept.length + segment.inserted.length +
        (originalBytes segments).length + left)) (yields_okOr (fun hNone => ⟨rfl, ?_⟩) fun length hLength => ?_) ?_
      · rw [checkedAdd_eq_none] at hNone
        omega
      · rw [← hAdded]
        exact (checkedAdd_eq_some.mp hLength).2.symm
      · rintro _ rfl
        have hNext := @ih _ _ (done + segment.kept.length + segment.inserted.length) hRest (by omega)
        refine (hNext.imp ?_).mono ?_
        · rintro error ⟨hError, hOverflow⟩
          exact ⟨hError, by omega⟩
        · rintro _ rfl
          omega

theorem EditsOf.append {front back : List TextEdit} {offset : Nat} {segments : List Segment}
    (h : EditsOf offset segments (front ++ back)) :
    ∃ first second, segments = first ++ second ∧ EditsOf offset first front ∧
      EditsOf (offset + (originalBytes first).length) second back := by
  induction front generalizing offset segments with
  | nil => exact ⟨[], segments, rfl, .nil, h⟩
  | cons edit front ih =>
    cases h with
    | @cons _ segment _ _ _ hStart hEnd hInserted hRest =>
      obtain ⟨first, second, rfl, hFirst, hSecond⟩ := ih hRest
      refine ⟨segment :: first, second, rfl, .cons hStart hEnd hInserted hFirst, ?_⟩
      rw [originalBytes_cons, List.length_append, List.length_append]
      have hOffset : offset + (segment.kept.length + segment.removed.length + (originalBytes first).length) =
          offset + segment.kept.length + segment.removed.length + (originalBytes first).length := by omega
      rwa [hOffset]

/-- Ordered edits cut the source into segments; the second pass gives their splice, the first pass its length, and no
edit removes more than the running length. Emission succeeds with the splice whenever the limits, the digest and the
first pass allow. -/
theorem emission_is_splice (sha256 : Sha256) (plan : TransformPlan) (source : List UInt8)
    (limits : TransformEmissionLimits) (hOrdered : OrderedEdits source.length plan.edits) :
    ∃ segments tail, source = originalBytes segments ++ tail ∧ EditsOf 0 segments plan.edits ∧
      applyEdits source 0 plan.edits = .ok (splicedBytes segments ++ tail) ∧
      Yields (fun error => error = .transformedSourceLengthOverflow ∧
        usizeMax < source.length + insertedLength segments)
        (· = (splicedBytes segments ++ tail).length) (transformedLength source.length source.length 0 plan.edits) ∧
      (∀ front edit back length, plan.edits = front ++ edit :: back →
        transformedLength source.length source.length 0 front = .ok length →
        edit.startByte ≤ edit.endByte ∧ edit.endByte - edit.startByte ≤ length) ∧
      ∀ emitted, emitTransformedSource sha256 plan source limits = .ok emitted ↔
        source.length ≤ limits.sourceBytes ∧ sha256 source = plan.source.sourceDigest ∧
          (∃ length, transformedLength source.length source.length 0 plan.edits = .ok length) ∧
          (splicedBytes segments ++ tail).length ≤ limits.transformedSourceBytes ∧
          emitted = ⟨plan, splicedBytes segments ++ tail, sha256 (splicedBytes segments ++ tail)⟩ := by
  obtain ⟨segments, tail, rfl, hEdits⟩ := exists_segments [] source hOrdered fun _ _ => Nat.zero_le _
  have hApply := applyEdits_segments [] tail hEdits
  have hLength : ∀ (first second : List Segment) (edits : List TextEdit), EditsOf 0 first edits →
      Yields (fun error => error = .transformedSourceLengthOverflow ∧
          usizeMax < (originalBytes (first ++ second) ++ tail).length + insertedLength first)
        (· = (splicedBytes first).length + (originalBytes second ++ tail).length)
        (transformedLength (originalBytes (first ++ second) ++ tail).length
          (originalBytes (first ++ second) ++ tail).length 0 edits) := by
    intro first second edits hFirst
    have hTotal : (originalBytes (first ++ second) ++ tail).length =
        (originalBytes first).length + (originalBytes second ++ tail).length := by
      rw [originalBytes, List.flatMap_append, List.append_assoc, List.length_append]
      rfl
    have hYields := @yields_transformedLength first edits 0 (originalBytes (first ++ second) ++ tail).length 0
      (originalBytes second ++ tail).length hFirst (by omega)
    rw [Nat.zero_add, Nat.zero_add, ← hTotal] at hYields
    exact hYields
  have hWhole := hLength segments [] plan.edits hEdits
  rw [List.append_nil, originalBytes_nil, List.nil_append, ← List.length_append] at hWhole
  refine ⟨segments, tail, rfl, hEdits, hApply, hWhole, ?_, ?_⟩
  · intro front edit back length hPlan hFront
    rw [hPlan] at hEdits
    obtain ⟨first, second, rfl, hFirst, hSecond⟩ := EditsOf.append hEdits
    have hRunning := (hLength first second front hFirst).ok hFront
    cases hSecond with
    | cons hStart hEnd hInserted hRest =>
      rw [originalBytes_cons, List.length_append, List.length_append, List.length_append] at hRunning
      omega
  · intro emitted
    simp only [emitTransformedSource, guard_ok, bind_ok, pure_ok, Nat.not_lt, not_not]
    constructor
    · rintro ⟨hSource, hDigest, length, hFirst, hLimit, result, hResult, -, rfl⟩
      obtain rfl := hWhole.ok hFirst
      cases hApply.symm.trans hResult
      exact ⟨hSource, hDigest, ⟨_, hFirst⟩, hLimit, rfl⟩
    · rintro ⟨hSource, hDigest, ⟨length, hFirst⟩, hLimit, rfl⟩
      obtain rfl := hWhole.ok hFirst
      exact ⟨hSource, hDigest, _, hFirst, hLimit, _, hApply, rfl, rfl⟩

/-! ### A text that grows and shrinks -/

namespace Sample

def text : List Char := "\"a\";\"long\"".toList

def edits : List TextEdit := [⟨0, 3, "\"bcd\"".toList⟩, ⟨4, 10, "\"x\"".toList⟩]

def spliced : List Char := "\"bcd\";\"x\"".toList

def sourceDigest : Sha256Digest := .ofNat 0x1b61cf8a084bf5dd68c9d5716659c1c0e9158f6962fb24451b2e400313baccaf

def transformedDigest : Sha256Digest := .ofNat 0xe3fb27afd7a0d7d81a770024abe42026d54c557d6091eb30e6064e714de1ce49

def ruleDigest : Sha256Digest := .ofNat 0xe3b0c44298fc1c149afbf4c8996fb92427ae41e4649b934ca495991b7852b855

def mapDigest : Sha256Digest := .ofNat 0x079a5521b63af5b7a875a68aa55bb4700f4549d720c48751a9c84543c66399f5

/-- SHA-256 of the two texts and of the map. -/
def sha256 (bytes : List UInt8) : Sha256Digest :=
  if bytes = charBytes text then sourceDigest
  else if bytes = charBytes spliced then transformedDigest
  else mapDigest

def plan : TransformPlan :=
  ⟨⟨"rule", by decide +kernel⟩, ruleDigest, ⟨⟨"unit", by decide +kernel⟩, sourceDigest⟩, edits⟩

def emissionLimits : TransformEmissionLimits := ⟨100, 100, by decide⟩

def transformed : EmittedTransformedSource := ⟨plan, charBytes spliced, transformedDigest⟩

theorem emitted : emitTransformedSource sha256 plan (charBytes text) emissionLimits = .ok transformed := by
  decide +kernel

theorem ordered : OrderedEdits (charBytes text).length plan.edits where
  ordered := by decide
  within := by decide +kernel

theorem sample_is_spliced : ∃ segments tail, charBytes text = originalBytes segments ++ tail ∧
    EditsOf 0 segments plan.edits ∧ charBytes spliced = splicedBytes segments ++ tail := by
  obtain ⟨segments, tail, hSource, hEdits, -, -, -, hEmitted⟩ := emission_is_splice sha256 plan
    (charBytes text) emissionLimits ordered
  obtain ⟨-, -, -, -, hSpliced⟩ := (hEmitted transformed).mp emitted
  exact ⟨segments, tail, hSource, hEdits, congrArg EmittedTransformedSource.transformedSource hSpliced⟩

end Sample

end Weregopher.Transform
