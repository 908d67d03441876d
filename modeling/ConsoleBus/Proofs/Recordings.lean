import ConsoleBus.Control.Frontend
import ConsoleBus.Proofs.Delivery
import Mathlib.Data.List.Induction

/-!
The life of a recording. The front end keeps its log and the recording under way apart, but the log
tells the recording: it is what the last event leaves that started or ended one
(`Frontend.recordingAfter_eq_some_iff`). One call adds its events to the log, changes the recording
as they say, and reports each end that a recording came to by itself (`ReportingFrontend.call_spec`);
so the three stay in step over any history (`ReportingFrontend.recording_lifecycle`).
-/

namespace ConsoleBus

/-! ### Logs -/

namespace FrontendEvent

/-- The event starts a recording or ends whatever recording there is. -/
def isTurn : FrontendEvent → Bool
  | audioStarted _ | audioStopped | audioFinished _ | released => true
  | snapshot _ | speed _ => false

/-- A recording has ended by itself. -/
def isFinish : FrontendEvent → Bool
  | audioFinished _ => true
  | _ => false

/-- The recording under way after the event, given the one before it. -/
def next (recording : Option Path) : FrontendEvent → Option Path
  | audioStarted path => some path
  | audioStopped | audioFinished _ | released => none
  | snapshot _ | speed _ => recording

end FrontendEvent

namespace Frontend

/-- The recording under way after a log. -/
def recordingAfter (events : List FrontendEvent) : Option Path :=
  events.foldl FrontendEvent.next none

theorem recordingAfter_append (events later : List FrontendEvent) :
    recordingAfter (events ++ later) = later.foldl FrontendEvent.next (recordingAfter events) :=
  List.foldl_append

/-- A recording is under way if the last turn in the log started it. -/
theorem recordingAfter_eq_some_iff (events : List FrontendEvent) (p : Path) :
    recordingAfter events = some p ↔
      (events.filter FrontendEvent.isTurn).getLast? = some (.audioStarted p) := by
  induction events using List.reverseRecOn with
  | nil => simp [recordingAfter]
  | append_singleton events e ih =>
    rw [recordingAfter_append, List.filter_append]
    cases e <;> simp [FrontendEvent.next, FrontendEvent.isTurn, ih]

/-- In the log each end that a recording came to by itself comes right after its start, as far as
recordings go. -/
def EndsOnce (events : List FrontendEvent) : Prop :=
  ∀ before after p, events.filter FrontendEvent.isTurn = before ++ .audioFinished p :: after →
    before.getLast? = some (.audioStarted p)

theorem endsOnce_nil : EndsOnce [] := by
  intro before after p split
  cases before <;> cases split

/-- Any event may follow, if an end by itself follows only while its recording is under way. -/
theorem EndsOnce.concat {events : List FrontendEvent} (ends : EndsOnce events) {e : FrontendEvent}
    (fits : ∀ p, e = .audioFinished p → recordingAfter events = some p) :
    EndsOnce (events ++ [e]) := by
  intro before after p split
  rw [List.filter_append] at split
  by_cases turn : e.isTurn = true
  · rw [List.filter_cons_of_pos turn, List.filter_nil] at split
    rcases List.eq_nil_or_concat after with rfl | ⟨after', last, rfl⟩
    · -- the new event is the end in question
      obtain ⟨rfl, same⟩ := List.append_inj' split rfl
      exact (recordingAfter_eq_some_iff events p).1 (fits p (List.singleton_inj.1 same))
    · rw [List.concat_eq_append, ← List.cons_append, ← List.append_assoc] at split
      exact ends before after' p (List.append_inj' split rfl).1
  · rw [List.filter_cons_of_neg turn, List.filter_nil, List.append_nil] at split
    exact ends before after p split

end Frontend

/-! ### Calls -/

/-- What can be asked of a front end. Clones share its log and its recording, so a call to a clone
is a call to the front end. -/
inductive FrontendCall where
  | snapshot (id : UInt8)
  | setSpeed (multiplier : Float)
  | startRecording (path : Path)
  | stopRecording
  | finishRecording
  | release

/-- The events of a call that meets this recording. -/
def FrontendCall.events (recording : Option Path) : FrontendCall → List FrontendEvent
  | snapshot id => [.snapshot id]
  | setSpeed multiplier => [.speed multiplier]
  | startRecording path => [.audioStarted path]
  | stopRecording => [.audioStopped]
  | finishRecording => recording.toList.map .audioFinished
  | release => [.released]

/-- A call logs one event at most, and the end of a recording only if that was under way. -/
theorem FrontendCall.events_cases (c : FrontendCall) (recording : Option Path) :
    c.events recording = [] ∨
      ∃ e, c.events recording = [e] ∧ ∀ p, e = .audioFinished p → recording = some p := by
  cases c with
  | finishRecording =>
    cases recording with
    | none => exact .inl rfl
    | some path =>
      refine .inr ⟨.audioFinished path, rfl, fun p same => ?_⟩
      cases same
      rfl
  | _ => exact .inr ⟨_, rfl, fun p same => by cases same⟩

/-- A front end and the channel on which it reports. -/
structure ReportingFrontend where
  frontend : Frontend := {}
  notifier : Notifier

namespace ReportingFrontend

/-- The state after a call. -/
def call (s : ReportingFrontend) : FrontendCall → ReportingFrontend
  | .snapshot id => { s with frontend := s.frontend.snapshot id }
  | .setSpeed multiplier => { s with frontend := s.frontend.setSpeed multiplier }
  | .startRecording path => { s with frontend := s.frontend.startRecording path }
  | .stopRecording => { s with frontend := s.frontend.stopRecording }
  | .finishRecording =>
    let (_, frontend, notifier) := s.frontend.finishRecording s.notifier
    ⟨frontend, notifier⟩
  | .release => { s with frontend := s.frontend.release }

def callAll (s : ReportingFrontend) (calls : List FrontendCall) : ReportingFrontend :=
  calls.foldl call s

/-- Reports of recordings that ended by themselves. -/
def reports (n : Nat) : List Notification := List.replicate n (.status .audioRecordingFinished)

/-- A call adds its events to the log, and they tell what becomes of the recording and how many
reports are sent. -/
theorem call_spec (s : ReportingFrontend) (c : FrontendCall) :
    let events := c.events s.frontend.recording
    (s.call c).frontend.events = s.frontend.events ++ events ∧
      (s.call c).frontend.recording = events.foldl FrontendEvent.next s.frontend.recording ∧
      (s.call c).notifier =
        s.notifier.sendAll (reports (events.countP FrontendEvent.isFinish)) := by
  cases c with
  | finishRecording =>
    cases recording : s.frontend.recording with
    | none =>
      simp only [call, Frontend.finishRecording, recording]
      exact ⟨(List.append_nil _).symm, rfl, rfl⟩
    | some path =>
      simp only [call, Frontend.finishRecording, recording]
      exact ⟨Frontend.events_log _ _, rfl, rfl⟩
  | snapshot id => exact ⟨Frontend.events_log _ _, rfl, rfl⟩
  | setSpeed multiplier => exact ⟨Frontend.events_log _ _, rfl, rfl⟩
  | startRecording path => exact ⟨Frontend.events_log _ _, rfl, rfl⟩
  | stopRecording => exact ⟨Frontend.events_log _ _, rfl, rfl⟩
  | release => exact ⟨Frontend.events_log _ _, rfl, rfl⟩

/-! ### Histories -/

/-- The recording is the one that the log tells, and what was sent since `t` are the reports of the
ends in the log. -/
structure InStep (t : Notifier) (s : ReportingFrontend) : Prop where
  recording : s.frontend.recording = Frontend.recordingAfter s.frontend.events
  ends : Frontend.EndsOnce s.frontend.events
  notifier : s.notifier =
    t.sendAll (reports (s.frontend.events.countP FrontendEvent.isFinish))

variable {t : Notifier} {s : ReportingFrontend}

theorem inStep_new (t : Notifier) : InStep t { notifier := t } :=
  ⟨rfl, Frontend.endsOnce_nil, rfl⟩

theorem InStep.call (inStep : InStep t s) (c : FrontendCall) : InStep t (s.call c) := by
  obtain ⟨events, recording, notifier⟩ := s.call_spec c
  refine ⟨?_, ?_, ?_⟩
  · rw [recording, events, Frontend.recordingAfter_append, inStep.recording]
  · rw [events]
    rcases c.events_cases s.frontend.recording with none | ⟨e, one, fits⟩
    · rw [none, List.append_nil]
      exact inStep.ends
    · rw [one]
      exact inStep.ends.concat fun p same => inStep.recording ▸ fits p same
  · rw [notifier, events, inStep.notifier, ← Notifier.sendAll_append, List.countP_append]
    simp only [reports, List.replicate_append_replicate]

theorem InStep.callAll (inStep : InStep t s) (calls : List FrontendCall) :
    InStep t (s.callAll calls) := by
  induction calls generalizing s with
  | nil => exact inStep
  | cons c cs ih => exact ih (inStep.call c)

/-- The life of a recording, over any calls to a new front end and its clones and over a channel
that does not fail. A recording is under way if the last turn in the log started it, and otherwise
there is none; a recording can end by itself just if it is under way. The channel has taken a byte 9
for each end of that kind in the log, and nothing else; and among the turns each of these ends comes
right after the start of its recording, so never twice, nor after a stop or a release. The log
itself is what the calls ask for. -/
theorem recording_lifecycle (reliable : t.sink.Reliable) (calls : List FrontendCall) :
    let s := ({ notifier := t } : ReportingFrontend).callAll calls
    let turns := s.frontend.events.filter FrontendEvent.isTurn
    let finished := s.frontend.events.countP FrontendEvent.isFinish
    (∀ p, s.frontend.recording = some p ↔ turns.getLast? = some (.audioStarted p)) ∧
      (s.frontend.recording = none ↔ ∀ p, turns.getLast? ≠ some (.audioStarted p)) ∧
      ((s.frontend.finishRecording s.notifier).1 = true ↔ ∃ p, s.frontend.recording = some p) ∧
      s.notifier.sink.accepted = t.sink.accepted ++ List.replicate finished 9 ∧
      s.notifier.sent = t.sent + finished ∧ s.notifier.failures = t.failures ∧
      (∀ before after p, turns = before ++ .audioFinished p :: after →
        before.getLast? = some (.audioStarted p)) ∧
      ∀ c, (s.call c).frontend.events = s.frontend.events ++ c.events s.frontend.recording := by
  intro s turns finished
  have inStep := (inStep_new t).callAll calls
  have started (p : Path) :
      s.frontend.recording = some p ↔ turns.getLast? = some (.audioStarted p) := by
    rw [inStep.recording]
    exact Frontend.recordingAfter_eq_some_iff _ p
  obtain ⟨accepted, sent, failures, -⟩ := Notifier.sendAll_spec reliable (reports finished)
  rw [← inStep.notifier] at accepted sent failures
  refine ⟨started, ?_, ?_, ?_, ?_, failures, inStep.ends, fun c => (s.call_spec c).1⟩
  · rw [Option.eq_none_iff_forall_ne_some]
    exact forall_congr' fun p => not_congr (started p)
  · unfold Frontend.finishRecording
    cases s.frontend.recording <;> simp
  · -- a report is one byte
    rw [accepted, Notification.encodeAll, reports, List.flatMap_replicate]
    exact congrArg _ List.flatten_replicate_singleton
  · rw [sent, reports, List.length_replicate]

/-- A recording that another one replaces never ends; of the ends that are asked for, only the one
that finds a recording is reported. -/
theorem replaced_recording_unreported :
    let calls : List FrontendCall :=
      [.startRecording [0x61], .startRecording [0x62], .snapshot 3, .finishRecording,
        .finishRecording, .startRecording [0x63], .stopRecording, .finishRecording]
    let s := ({ notifier := {} } : ReportingFrontend).callAll calls
    Sink.Reliable {} ∧ s.frontend.recording = none ∧
      (s.frontend.finishRecording s.notifier).1 ≠ true ∧ s.notifier.sink.accepted = [9] := by
  intro calls s
  obtain ⟨-, nothing, finishes, accepted, -⟩ :=
    recording_lifecycle (t := {}) Sink.reliable_new calls
  have unrecorded : s.frontend.recording = none :=
    nothing.2 fun p last => by cases last
  refine ⟨Sink.reliable_new, unrecorded, fun ends => ?_, accepted⟩
  obtain ⟨p, recording⟩ := finishes.1 ends
  cases unrecorded.symm.trans recording

end ReportingFrontend

end ConsoleBus
