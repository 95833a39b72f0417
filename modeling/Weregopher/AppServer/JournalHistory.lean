import Weregopher.AppServer.Journal
import Weregopher.Lib.RunSystem

/-! # No event of a journal is lost or counted twice

Recording evicts the oldest event at capacity. Along any sequence of recordings
and pulls an event is pulled, retained or evicted, exactly one of these.
-/
namespace Weregopher.AppServer
open Lib Lib.Checked Lib.Stateful Proxy

variable {sha256 : Sha256}

structure SameEvents (s t : AppServerSessionEventJournal) : Prop where
  limits_eq : t.limits = s.limits
  identity_eq : t.identity = s.identity
  events_eq : t.events = s.events
  evicted_eq : t.evictedEvents = s.evictedEvents
  sequence_eq : t.lastSequence = s.lastSequence

instance : IsPreorder AppServerSessionEventJournal SameEvents where
  refl _ := ⟨rfl, rfl, rfl, rfl, rfl⟩
  trans _ _ _ h h' := ⟨h'.limits_eq.trans h.limits_eq, h'.identity_eq.trans h.identity_eq,
    h'.events_eq.trans h.events_eq, h'.evicted_eq.trans h.evicted_eq, h'.sequence_eq.trans h.sequence_eq⟩

theorem SameEvents.preflight {s t : AppServerSessionEventJournal} (h : SameEvents s t) :
    t.preflightEventSequence = s.preflightEventSequence := by
  rw [AppServerSessionEventJournal.preflightEventSequence, AppServerSessionEventJournal.preflightEventSequence,
    h.limits_eq, h.events_eq, h.evicted_eq, h.sequence_eq]

variable (key : RequestCorrelationKey)

theorem sameEvents_openCorrelation : Within SameEvents (openCorrelation key) := by
  refine .bind .get fun journal => .ite (.throw _) ?_
  cases checkedAdd u64Max journal.lastCorrelation 1 with
  | none => exact .throw _
  | some sequence => exact .bind (.modify fun _ => ⟨rfl, rfl, rfl, rfl, rfl⟩) fun _ => .pure _

theorem sameEvents_completeCorrelation : Within SameEvents (completeCorrelation key) := by
  refine .bind .get fun journal => ?_
  cases journal.activeCorrelations.find? key with
  | none => exact .pure _
  | some token => exact .bind (.modify fun _ => ⟨rfl, rfl, rfl, rfl, rfl⟩) fun _ => .ite (.throw _) (.pure _)

theorem sameEvents_acceptedCorrelation (o : AppServerMessageObservation) :
    Within SameEvents (acceptedCorrelation sha256 o) := by
  unfold acceptedCorrelation
  cases o.kind with
  | request =>
    cases requestKey sha256 o with
    | none => exact .throw _
    | some key => exact .map _ (sameEvents_openCorrelation key)
  | successResponse | errorResponse =>
    cases requestKey sha256 o with
    | none => exact .pure _
    | some key => exact sameEvents_completeCorrelation key
  | notification => exact .pure _

theorem sameEvents_forwardedCorrelation (o : AppServerMessageObservation) :
    Within SameEvents (forwardedCorrelation sha256 o) := by
  refine .bind .get fun journal => ?_
  cases o.kind with
  | request =>
    dsimp only
    cases (requestKey sha256 o).bind journal.activeCorrelations.find? with
    | none => exact .throw _
    | some token => exact .pure _
  | successResponse | errorResponse =>
    dsimp only
    cases requestKey sha256 o with
    | none => exact .pure _
    | some key => exact .bind (.modify fun _ => ⟨rfl, rfl, rfl, rfl, rfl⟩) fun _ => .pure _
  | notification => exact .pure _

theorem sameEvents_expireCorrelation : Within SameEvents (expireCorrelation key) := by
  refine .bind .get fun journal => ?_
  cases journal.activeCorrelations.find? key with
  | none => exact .throw _
  | some token => exact .bind (.modify fun _ => ⟨rfl, rfl, rfl, rfl, rfl⟩) fun _ => .pure _

namespace AppServerSessionEventJournal

variable {s : AppServerSessionEventJournal}

abbrev Full (s : AppServerSessionEventJournal) : Prop := s.events.length = s.limits.events

def pushed (s : AppServerSessionEventJournal) (detail : AppServerEventDetail) : AppServerSessionEventJournal :=
  { s with
    events := (if s.Full then s.events.tail else s.events) ++ [⟨s.lastSequence + 1, detail⟩]
    evictedEvents := s.evictedEvents + if s.Full then 1 else 0
    lastSequence := s.lastSequence + 1 }

theorem exists_pushed (hBound : s.events.length ≤ s.limits.events) (detail : AppServerEventDetail) :
    ∃ dropped kept, s.events = dropped ++ kept ∧ (s.pushed detail).events = kept ++ [⟨s.lastSequence + 1, detail⟩] ∧
      (s.pushed detail).evictedEvents = s.evictedEvents + dropped.length ∧ kept.length < s.limits.events := by
  have hPositive := s.limits.range.1
  by_cases hFull : s.Full
  · rw [pushed, if_pos hFull, if_pos hFull]
    cases hEvents : s.events with
    | nil => exact ⟨[], [], rfl, rfl, by rw [Full, hEvents, List.length_nil] at hFull; omega, hPositive⟩
    | cons oldest rest =>
      refine ⟨[oldest], rest, rfl, rfl, rfl, ?_⟩
      rw [Full, hEvents, List.length_cons] at hFull
      omega
  · rw [pushed, if_neg hFull, if_neg hFull]
    exact ⟨[], s.events, rfl, rfl, rfl, Nat.lt_of_le_of_ne hBound hFull⟩

variable {sequence : Nat}

theorem preflight_ok (h : s.preflightEventSequence = .ok sequence) :
    sequence = s.lastSequence + 1 ∧ (s.Full → checkedAdd u64Max s.evictedEvents 1 = some (s.evictedEvents + 1)) := by
  unfold preflightEventSequence at h
  cases hNext : checkedAdd u64Max s.lastSequence 1 with
  | none => rw [hNext] at h; cases h
  | some next =>
    rw [hNext] at h
    have hSequence := (checkedAdd_eq_some.mp hNext).2
    dsimp only at h
    split at h
    · cases hEvicted : checkedAdd u64Max s.evictedEvents 1 with
      | none => rw [hEvicted] at h; cases h
      | some evicted =>
        rw [hEvicted] at h
        cases h
        exact ⟨hSequence.symm, fun _ => congrArg some (checkedAdd_eq_some.mp hEvicted).2.symm⟩
    · rename_i hRoom
      cases h
      exact ⟨hSequence.symm, fun hFull => absurd hFull hRoom⟩

theorem exec_pushEvent (h : s.preflightEventSequence = .ok sequence) (detail : AppServerEventDetail) :
    exec (pushEvent sequence detail) s = (.ok (), s.pushed detail) := by
  obtain ⟨rfl, hEvicted⟩ := preflight_ok h
  unfold pushEvent evictOldest
  simp only [exec_bind, exec_get]
  by_cases hFull : s.Full
  · have hPositive := s.limits.range.1
    rw [if_pos hFull, pushed, if_pos hFull, if_pos hFull]
    cases hEvents : s.events with
    | nil =>
      rw [Full, hEvents, List.length_nil] at hFull
      omega
    | cons event rest =>
      simp only [exec_bind, exec_modify, hEvicted hFull]
      rfl
  · rw [if_neg hFull, pushed, if_neg hFull, if_neg hFull]
    simp only [exec_pure, exec_modify]
    rfl

theorem wp_correlate_push {α : Type} {correlate : JournalM α} {detail : α → AppServerEventDetail}
    {Q : Unit → AppServerSessionEventJournal → Prop}
    {E : AppServerControlError → AppServerSessionEventJournal → Prop} (hWithin : Within SameEvents correlate)
    (hSequence : s.preflightEventSequence = .ok sequence)
    (h : wp correlate s (fun a t => Q () (t.pushed (detail a))) E) :
    wp (do let a ← correlate; pushEvent sequence (detail a)) s Q E := by
  rw [wp_bind]
  refine wp_mono (hWithin.wp h) (fun a t ⟨hSame, hQ⟩ => ?_) fun e t h => h.2
  exact wp_of_exec_ok (exec_pushEvent (hSame.preflight.trans hSequence) (detail a)) hQ

end AppServerSessionEventJournal

inductive Recording
  | accepted (observation : AppServerMessageObservation)
  | forwarded (observation : AppServerMessageObservation)
  | blocked (observation : AppServerMessageObservation) (rule : AppServerInterceptRuleId)
  | expired (request : AppServerExpiredRequest)

def Recording.perform (sha256 : Sha256) : Recording → JournalM Unit
  | .accepted observation => recordAccepted sha256 observation
  | .forwarded observation => recordForwarded sha256 observation
  | .blocked observation rule => recordBlocked sha256 observation rule
  | .expired request => recordExpired sha256 request

/-- What the event of a recording says, apart from the token of its request, which the journal chooses. -/
def Recording.Says (sha256 : Sha256) (detail : AppServerEventDetail) : Recording → Prop
  | .accepted o => ∃ method correlation, fingerprintObservedMethod sha256 o = .ok method ∧
    detail = .message ⟨.accepted, o.direction, o.kind, method, correlation, o.byteLength, none⟩
  | .forwarded o => ∃ method correlation, fingerprintObservedMethod sha256 o = .ok method ∧
    detail = .message ⟨.forwarded, o.direction, o.kind, method, correlation, o.byteLength, none⟩
  | .blocked o rule => ∃ method, fingerprintObservedMethod sha256 o = .ok method ∧
    detail = .message ⟨.blocked, o.direction, o.kind, method, none, o.byteLength, some rule⟩
  | .expired request => ∃ correlation, detail = .requestExpired request.origin correlation

theorem wp_recording (sha256 : Sha256) (s : AppServerSessionEventJournal) (recording : Recording) :
    wp (recording.perform sha256) s
      (fun _ s' => ∃ t detail, SameEvents s t ∧ recording.Says sha256 detail ∧ s' = t.pushed detail)
      (fun _ s' => SameEvents s s') := by
  have hRefl : SameEvents s s := refl_of SameEvents s
  have hPush {α : Type} {correlate : JournalM α} {detail : α → AppServerEventDetail} {sequence : Nat}
      (hWithin : Within SameEvents correlate) (hSequence : s.preflightEventSequence = .ok sequence)
      (hSays : ∀ a, recording.Says sha256 (detail a)) :
      wp (do let a ← correlate; pushEvent sequence (detail a)) s
        (fun _ s' => ∃ t detail, SameEvents s t ∧ recording.Says sha256 detail ∧ s' = t.pushed detail)
        (fun _ s' => SameEvents s s') :=
    AppServerSessionEventJournal.wp_correlate_push hWithin hSequence <|
      wp_mono (hWithin s) (fun a t hSame => ⟨t, detail a, hSame, hSays a, rfl⟩) fun _ _ hSame => hSame
  cases recording with
  | accepted o =>
    simp only [Recording.perform, recordAccepted, wp_bind, wp_get, wp_lift]
    refine ⟨fun method hMethod => ⟨fun sequence hSequence => ?_, fun _ _ => hRefl⟩, fun _ _ => hRefl⟩
    exact wp_bind.mp (hPush (sameEvents_acceptedCorrelation o) hSequence fun token => ⟨method, token, hMethod, rfl⟩)
  | forwarded o =>
    simp only [Recording.perform, recordForwarded, wp_bind, wp_get, wp_lift]
    refine ⟨fun method hMethod => ⟨fun sequence hSequence => ?_, fun _ _ => hRefl⟩, fun _ _ => hRefl⟩
    exact wp_bind.mp (hPush (sameEvents_forwardedCorrelation o) hSequence fun token => ⟨method, token, hMethod, rfl⟩)
  | blocked o rule =>
    simp only [Recording.perform, recordBlocked, wp_bind, wp_get, wp_lift]
    refine ⟨fun method hMethod => ⟨fun sequence hSequence => ?_, fun _ _ => hRefl⟩, fun _ _ => hRefl⟩
    exact wp_of_exec_ok (AppServerSessionEventJournal.exec_pushEvent hSequence _)
      ⟨s, _, hRefl, ⟨method, hMethod, rfl⟩, rfl⟩
  | expired request =>
    simp only [Recording.perform, recordExpired, wp_bind, wp_get, wp_lift]
    refine ⟨fun sequence hSequence => ?_, fun _ _ => hRefl⟩
    exact wp_bind.mp (hPush (sameEvents_expireCorrelation _) hSequence fun token => ⟨token, rfl⟩)

inductive JournalOp
  | record (recording : Recording)
  | pull
  | clear

/-- What a caller notes: the recordings that succeeded and the events that pulls returned. -/
inductive JournalEntry
  | recorded (recording : Recording)
  | pulled (event : AppServerSessionEvent)

def journalSystem (sha256 : Sha256) : RunSystem AppServerSessionEventJournal JournalOp JournalEntry where
  next s
    | .record recording => (exec (recording.perform sha256) s).2
    | .pull => (exec nextEvent s).2
    | .clear => clearCorrelations s
  emit s
    | .record recording =>
      match (exec (recording.perform sha256) s).1 with
      | .ok _ => [.recorded recording]
      | .error _ => []
    | .pull =>
      match (exec nextEvent s).1 with
      | .ok (some event) => [.pulled event]
      | _ => []
    | .clear => []

def recordings (log : List JournalEntry) : List Recording :=
  log.filterMap fun
    | .recorded recording => some recording
    | .pulled _ => none

def pulledEvents (log : List JournalEntry) : List AppServerSessionEvent :=
  log.filterMap fun
    | .recorded _ => none
    | .pulled event => some event

/-- What a run keeps: one event for each recording, their numbering, the retained end and the balance. -/
structure Kept (sha256 : Sha256) (limits : AppServerEventLimits)
    (recorded : List AppServerSessionEvent) (log : List JournalEntry) (s : AppServerSessionEventJournal) : Prop where
  limits_eq : s.limits = limits
  said : List.Forall₂ (fun recording event => recording.Says sha256 event.detail) (recordings log) recorded
  numbered : recorded.map (·.sequence) = List.range' 1 recorded.length
  last_eq : s.lastSequence = recorded.length
  retained : s.events <:+ recorded
  bounded : s.events.length ≤ limits.events
  balanced : ∃ evicted : List AppServerSessionEvent, evicted.length = s.evictedEvents ∧
    (pulledEvents log ++ evicted ++ s.events).Perm recorded

theorem exec_nextEvent_nil {s : AppServerSessionEventJournal} (h : s.events = []) :
    exec nextEvent s = (.ok none, s) := by
  rw [nextEvent, exec_bind, exec_get]
  dsimp only
  rw [h]
  rfl

theorem exec_nextEvent_cons {s : AppServerSessionEventJournal} {event : AppServerSessionEvent}
    {rest : List AppServerSessionEvent} (h : s.events = event :: rest) :
    exec nextEvent s = (.ok (some event), { s with events := rest }) := by
  rw [nextEvent, exec_bind, exec_get]
  dsimp only
  rw [h]
  rfl

namespace Kept

variable {limits : AppServerEventLimits} {recorded : List AppServerSessionEvent} {log : List JournalEntry}
  {s t : AppServerSessionEventJournal}

theorem new (sha256 : Sha256) (limits : AppServerEventLimits) (identity : Nat) :
    Kept sha256 limits [] [] (.new limits identity) where
  limits_eq := rfl
  said := .nil
  numbered := rfl
  last_eq := rfl
  retained := List.suffix_rfl
  bounded := Nat.zero_le _
  balanced := ⟨[], rfl, .nil⟩

variable (h : Kept sha256 limits recorded log s)

include h

theorem of_sameEvents (hSame : SameEvents s t) : Kept sha256 limits recorded log t where
  limits_eq := hSame.limits_eq.trans h.limits_eq
  said := h.said
  numbered := h.numbered
  last_eq := hSame.sequence_eq.trans h.last_eq
  retained := by
    rw [hSame.events_eq]
    exact h.retained
  bounded := by
    rw [hSame.events_eq]
    exact h.bounded
  balanced := by
    rw [hSame.events_eq, hSame.evicted_eq]
    exact h.balanced

theorem push {recording : Recording} {detail : AppServerEventDetail} (hSays : recording.Says sha256 detail) :
    Kept sha256 limits (recorded ++ [⟨s.lastSequence + 1, detail⟩]) (log ++ [.recorded recording])
      (s.pushed detail) := by
  obtain ⟨evicted, hEvicted, hBalanced⟩ := h.balanced
  obtain ⟨dropped, kept, hEvents, hPushed, hCount, hRoom⟩ :=
    s.exists_pushed (h.limits_eq ▸ h.bounded) detail
  have hPulled : pulledEvents (log ++ [.recorded recording]) = pulledEvents log := by
    simp [pulledEvents]
  have hSuffix : kept <:+ recorded := (List.suffix_append dropped kept).trans (hEvents ▸ h.retained)
  refine ⟨h.limits_eq, ?_, ?_, ?_, ?_, ?_, ⟨evicted ++ dropped, ?_, ?_⟩⟩
  · rw [recordings, List.filterMap_append]
    exact List.rel_append h.said (.cons hSays .nil)
  · rw [List.map_append, h.numbered, List.length_append, List.length_singleton, List.range'_concat, h.last_eq]
    simp [Nat.add_comm]
  · rw [List.length_append, List.length_singleton, ← h.last_eq]
    rfl
  · rw [hPushed]
    obtain ⟨front, hFront⟩ := hSuffix
    exact ⟨front, by rw [← List.append_assoc, hFront]⟩
  · rw [hPushed, List.length_append, List.length_singleton, ← h.limits_eq]
    exact hRoom
  · rw [List.length_append, hCount, hEvicted]
  · rw [hPulled, hPushed]
    rw [hEvents] at hBalanced
    simpa only [List.append_assoc] using hBalanced.append_right [_]

theorem pull {event : AppServerSessionEvent} {rest : List AppServerSessionEvent}
    (hEvents : s.events = event :: rest) :
    Kept sha256 limits recorded (log ++ [.pulled event]) { s with events := rest } := by
  obtain ⟨evicted, hEvicted, hBalanced⟩ := h.balanced
  have hPulled : pulledEvents (log ++ [.pulled event]) = pulledEvents log ++ [event] := by
    simp [pulledEvents]
  have hBounded := h.bounded
  rw [hEvents] at hBalanced
  refine ⟨h.limits_eq, ?_, h.numbered, h.last_eq, ?_, ?_, ⟨evicted, hEvicted, ?_⟩⟩
  · simpa [recordings] using h.said
  · exact (List.suffix_cons event rest).trans (hEvents ▸ h.retained)
  · rw [hEvents, List.length_cons] at hBounded
    exact Nat.le_of_succ_le hBounded
  · rw [hPulled]
    -- The event moves from the front of the retained ones to the end of the pulled ones.
    refine List.Perm.trans ?_ hBalanced
    simp only [List.append_assoc, List.singleton_append]
    exact List.Perm.append_left _ List.perm_middle.symm

theorem step (op : JournalOp) : ∃ recorded,
    Kept sha256 limits recorded (log ++ (journalSystem sha256).emit s op) ((journalSystem sha256).next s op) := by
  cases op with
  | record recording =>
    have hRecording := wp_recording sha256 s recording
    change ∃ recorded, Kept sha256 limits recorded (log ++ match (exec (recording.perform sha256) s).1 with
      | .ok _ => [.recorded recording]
      | .error _ => []) (exec (recording.perform sha256) s).2
    unfold wp at hRecording
    split at hRecording
    · rename_i hExec
      obtain ⟨t, detail, hSame, hSays, rfl⟩ := hRecording
      rw [hExec]
      exact ⟨_, (h.of_sameEvents hSame).push hSays⟩
    · rename_i hExec
      rw [hExec, List.append_nil]
      exact ⟨_, h.of_sameEvents hRecording⟩
  | pull =>
    change ∃ recorded, Kept sha256 limits recorded (log ++ match (exec nextEvent s).1 with
      | .ok (some event) => [.pulled event]
      | _ => []) (exec nextEvent s).2
    cases hEvents : s.events with
    | nil =>
      rw [exec_nextEvent_nil hEvents, List.append_nil]
      exact ⟨_, h⟩
    | cons event rest =>
      rw [exec_nextEvent_cons hEvents]
      exact ⟨_, h.pull hEvents⟩
  | clear =>
    change ∃ recorded, Kept sha256 limits recorded (log ++ []) (clearCorrelations s)
    rw [List.append_nil]
    exact ⟨_, h.of_sameEvents ⟨rfl, rfl, rfl, rfl, rfl⟩⟩

theorem nodup : recorded.Nodup := by
  apply List.Nodup.of_map (fun event => event.sequence)
  rw [h.numbered]
  exact List.nodup_range'

end Kept

theorem kept_run (sha256 : Sha256) (limits : AppServerEventLimits) (identity : Nat) (ops : List JournalOp) :
    ∃ recorded, Kept sha256 limits recorded ((journalSystem sha256).log (.new limits identity) ops)
      ((journalSystem sha256).reach (.new limits identity) ops) :=
  (journalSystem sha256).history_invariant (P := fun log s => ∃ recorded, Kept sha256 limits recorded log s)
    (A := fun _ => True) ⟨[], .new sha256 limits identity⟩ (fun _ _ op _ ⟨_, h⟩ => h.step op) ops fun _ _ => trivial

/-- There is one event for each recording that succeeded, in their order and numbered from one. The retained ones are
their end and at most the capacity, and each was pulled, is retained or was evicted, as many as the counter counts. -/
theorem recorded_events_conserved (sha256 : Sha256) (limits : AppServerEventLimits)
    (identity : Nat) (ops : List JournalOp) : ∃ recorded evicted : List AppServerSessionEvent,
    List.Forall₂ (fun recording event => recording.Says sha256 event.detail)
      (recordings ((journalSystem sha256).log (.new limits identity) ops)) recorded ∧
    recorded.map (·.sequence) = List.range' 1 recorded.length ∧
    ((journalSystem sha256).reach (.new limits identity) ops).events <:+ recorded ∧
    ((journalSystem sha256).reach (.new limits identity) ops).events.length ≤ limits.events ∧
    evicted.length = ((journalSystem sha256).reach (.new limits identity) ops).evictedEvents ∧
    (pulledEvents ((journalSystem sha256).log (.new limits identity) ops) ++ evicted ++
      ((journalSystem sha256).reach (.new limits identity) ops).events).Nodup ∧
    (pulledEvents ((journalSystem sha256).log (.new limits identity) ops) ++ evicted ++
      ((journalSystem sha256).reach (.new limits identity) ops).events).Perm recorded := by
  obtain ⟨recorded, hKept⟩ := kept_run sha256 limits identity ops
  obtain ⟨evicted, hEvicted, hBalanced⟩ := hKept.balanced
  exact ⟨recorded, evicted, hKept.said, hKept.numbered, hKept.retained, hKept.bounded, hEvicted,
    hBalanced.nodup_iff.mpr hKept.nodup, hBalanced⟩

namespace Sample

def notice : AppServerMessageObservation := ⟨.clientToServer, .notification, none, none, 40⟩

theorem rule_ne : (1 : UInt32) ≠ 0 := by decide

def rule : AppServerInterceptRuleId := ⟨1, rule_ne⟩

/-- A journal for one event takes a second one and hands it out. -/
theorem second_event_evicts_first : ∃ (recorded : List AppServerSessionEvent) (first second : AppServerSessionEvent),
    List.Forall₂ (fun (recording : Recording) event => recording.Says (fun _ => .ofNat 0) event.detail)
      [.accepted notice, .blocked notice rule] recorded ∧
    second.sequence = 2 ∧ [second, first].Perm recorded := by
  obtain ⟨recorded, evicted, hSaid, -, -, -, hEvicted, -, hBalanced⟩ :=
    recorded_events_conserved (fun _ => .ofNat 0) ⟨1, by decide⟩ 0
      [.record (.accepted notice), .record (.blocked notice rule), .pull]
  obtain ⟨first, rfl⟩ := List.length_eq_one_iff.mp hEvicted
  exact ⟨recorded, first, _, hSaid, rfl, hBalanced⟩

end Sample

end Weregopher.AppServer
