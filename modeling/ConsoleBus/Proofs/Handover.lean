import ConsoleBus.Control.Slot
import Mathlib.Data.List.Induction

/-!
What goes through the slot. A run is told as a log of what happened in the order of time: requests
with their outcomes, and the beginning and the end of each consumption (`Slot.log`). Every log is
orderly, in the sense of a small automaton that knows a free slot, a request that waits and one that
is being carried out (`Slot.orderly_log`). The automaton accounts for what was accepted, handed over
and finished (`Orderly.accounts`), so accepted requests are carried out once each, unaltered and in
their order (`Slot.handed_over_once`).
-/

namespace ConsoleBus

/-! ### Turns and logs -/

/-- What a slot meets when consumptions are not nested: a request, or a consumption with the
requests that arrive while it lasts. -/
inductive SlotTurn where
  | request (deferred : Deferred)
  | consume (inside : List Deferred)

def SlotTurn.action : SlotTurn → SlotAction
  | .request d => .request d
  | .consume inside => .consume (inside.map .request)

/-- What happens to a slot at a moment. -/
inductive SlotEvent where
  /-- A request is made, with its outcome and the slot after it. -/
  | requested (deferred : Deferred) (outcome : Except SlotConflict Unit) (after : Slot)
  /-- A request is handed to whoever carries it out. -/
  | begun (deferred : Deferred)
  /-- It has been carried out, with the slot after it. -/
  | ended (deferred : Deferred) (after : Slot)

/-- The answer to a request as an event. -/
def SlotEvent.arrival (d : Deferred) : SlotAnswer × Slot → List SlotEvent
  | (.requested outcome, after) => [.requested d outcome after]
  | _ => []

/-- The events that the answer to a turn tells of. -/
def SlotTurn.events : SlotTurn → SlotAnswer × Slot → List SlotEvent
  | .request d, step => SlotEvent.arrival d step
  | .consume inside, (.consumed d steps, after) =>
    .begun d :: (inside.zip steps).flatMap (fun p => SlotEvent.arrival p.1 p.2) ++ [.ended d after]
  | .consume _, _ => []

namespace Slot

/-- The slot after some turns. -/
def afterTurns (s : Slot) (turns : List SlotTurn) : Slot :=
  (s.performAll (turns.map SlotTurn.action)).2

/-- What happens in some turns, in the order of time. -/
def log (s : Slot) (turns : List SlotTurn) : List SlotEvent :=
  (turns.zip (s.performAll (turns.map SlotTurn.action)).1).flatMap fun p => p.1.events p.2

/-- A consumption hands over the request in the slot, and clears the slot behind what is done
inside. -/
theorem perform_consume (s : Slot) (inside : List SlotAction) :
    s.perform (.consume inside) =
      let work (d : Deferred) (now : Slot) : SlotAnswer × Slot :=
        (.consumed d (now.performAll inside).1, (now.performAll inside).2)
      ((s.consume work).1.getD .idle, (s.consume work).2) := by
  obtain ⟨pending⟩ := s
  cases pending <;> rfl

theorem log_cons (s : Slot) (t : SlotTurn) (turns : List SlotTurn) :
    s.log (t :: turns) = t.events (s.perform t.action) ++ (s.perform t.action).2.log turns := by
  simp only [log, List.map_cons, performAll, List.zip_cons_cons, List.flatMap_cons]

theorem afterTurns_cons (s : Slot) (t : SlotTurn) (turns : List SlotTurn) :
    s.afterTurns (t :: turns) = (s.perform t.action).2.afterTurns turns := by
  simp only [afterTurns, List.map_cons, performAll]

theorem events_request (s : Slot) (d : Deferred) :
    (SlotTurn.request d).events (s.perform (SlotTurn.request d).action) =
      [.requested d (s.request d).1 (s.request d).2] := by
  simp only [SlotTurn.action, perform, SlotTurn.events, SlotEvent.arrival]

/-- The requests inside a consumption make a log of their own. -/
theorem events_consume {s : Slot} {d : Deferred} (held : s.pending = some d)
    (inside : List Deferred) :
    (SlotTurn.consume inside).events (s.perform (SlotTurn.consume inside).action) =
      .begun d :: s.log (inside.map .request) ++
        [.ended d (s.afterTurns (inside.map .request)).clear] := by
  have actions : (inside.map SlotTurn.request).map SlotTurn.action = inside.map .request := by
    rw [List.map_map]
    rfl
  rw [SlotTurn.action, perform_consume]
  simp only [consume, held, Option.getD_some, SlotTurn.events, log, afterTurns, actions,
    List.zip_map_left, List.flatMap_map, Prod.map_fst, Prod.map_snd, id_eq]

theorem events_consume_idle {s : Slot} (vacant : s.pending = none) (inside : List Deferred) :
    (SlotTurn.consume inside).events (s.perform (SlotTurn.consume inside).action) = [] := by
  rw [SlotTurn.action, perform_consume]
  simp only [consume, vacant, Option.getD_none, SlotTurn.events]

end Slot

/-! ### Orderly logs -/

/-- How the slot stands: a request may wait in it, or be carried out. -/
inductive Hold where
  | free
  | waiting (deferred : Deferred)
  | running (deferred : Deferred)

namespace Hold

def waiting? : Hold → Option Deferred
  | waiting d => some d
  | _ => none

def running? : Hold → Option Deferred
  | running d => some d
  | _ => none

/-- The slot holds what waits or is carried out. -/
def slot (hold : Hold) : Slot := ⟨hold.waiting?.or hold.running?⟩

/-- The moves of a slot. A request that is carried out keeps its place until its end. -/
inductive Step : Hold → SlotEvent → Hold → Prop
  | accept (d : Deferred) : Step free (.requested d (.ok ()) ⟨some d⟩) (waiting d)
  | refuse {hold : Hold} {held : Deferred} (taken : hold.slot.pending = some held) (d : Deferred) :
    Step hold (.requested d (.error ⟨held⟩) hold.slot) hold
  | begin (d : Deferred) : Step (waiting d) (.begun d) (running d)
  | finish (d : Deferred) : Step (running d) (.ended d {}) free

end Hold

/-- The events of the past are moves, the last of which led here. -/
inductive Orderly : List SlotEvent → Hold → Prop
  | start : Orderly [] .free
  | step {past : List SlotEvent} {hold next : Hold} {event : SlotEvent} (before : Orderly past hold)
    (move : hold.Step event next) : Orderly (past ++ [event]) next

namespace Slot

variable {past : List SlotEvent} {hold : Hold}

/-- A request is a move, however the slot stands, and does not begin or end anything. -/
theorem step_request (hold : Hold) (d : Deferred) :
    ∃ next : Hold, hold.Step (.requested d (hold.slot.request d).1 (hold.slot.request d).2) next ∧
      next.slot = (hold.slot.request d).2 ∧ next.running? = hold.running? := by
  cases hold with
  | free => exact ⟨.waiting d, .accept d, rfl, rfl⟩
  | waiting held => exact ⟨.waiting held, .refuse rfl d, rfl, rfl⟩
  | running held => exact ⟨.running held, .refuse rfl d, rfl, rfl⟩

/-- So are requests one after the other. -/
theorem orderly_requests (orderly : Orderly past hold) (ds : List Deferred) :
    ∃ next : Hold, Orderly (past ++ hold.slot.log (ds.map .request)) next ∧
      next.slot = hold.slot.afterTurns (ds.map .request) ∧ next.running? = hold.running? := by
  induction ds generalizing past hold with
  | nil =>
    refine ⟨hold, ?_, rfl, rfl⟩
    rw [List.map_nil, log, List.zip_nil_left, List.flatMap_nil, List.append_nil]
    exact orderly
  | cons d ds ih =>
    obtain ⟨middle, move, slot_eq, running_eq⟩ := step_request hold d
    obtain ⟨next, later, slot_eq', running_eq'⟩ := ih (orderly.step move)
    refine ⟨next, ?_, ?_, running_eq'.trans running_eq⟩
    · rw [List.map_cons, log_cons, events_request, ← List.append_assoc]
      rwa [slot_eq] at later
    · rw [List.map_cons, afterTurns_cons, slot_eq', slot_eq]
      rfl

/-- A turn adds moves, and leaves nothing that is being carried out. -/
theorem orderly_turn (orderly : Orderly past hold) (rested : hold.running? = none) (t : SlotTurn) :
    ∃ next : Hold, Orderly (past ++ t.events (hold.slot.perform t.action)) next ∧
      next.slot = (hold.slot.perform t.action).2 ∧ next.running? = none := by
  cases t with
  | request d =>
    obtain ⟨next, move, slot_eq, running_eq⟩ := step_request hold d
    rw [events_request]
    exact ⟨next, orderly.step move, slot_eq, running_eq.trans rested⟩
  | consume inside =>
    cases hold with
    | free =>
      have nothing := events_consume_idle (s := Hold.free.slot) rfl inside
      rw [nothing, List.append_nil]
      exact ⟨.free, orderly, rfl, rfl⟩
    | running d => cases rested
    | waiting d =>
      -- the requests inside find the slot taken, so it still holds `d` at the end
      obtain ⟨next, during, -, running_eq⟩ := orderly_requests (orderly.step (.begin d)) inside
      cases next with
      | free => cases running_eq
      | waiting other => cases running_eq
      | running other =>
        cases running_eq
        have told := events_consume (s := (Hold.waiting d).slot) rfl inside
        refine ⟨.free, ?_, rfl, rfl⟩
        rw [told, List.cons_append, List.append_cons, ← List.append_assoc]
        exact during.step (.finish d)

theorem orderly_turns (orderly : Orderly past hold) (rested : hold.running? = none)
    (turns : List SlotTurn) :
    ∃ next : Hold, Orderly (past ++ hold.slot.log turns) next ∧
      next.slot = hold.slot.afterTurns turns := by
  induction turns generalizing past hold with
  | nil =>
    refine ⟨hold, ?_, rfl⟩
    rw [log, List.zip_nil_left, List.flatMap_nil, List.append_nil]
    exact orderly
  | cons t ts ih =>
    obtain ⟨middle, now, slot_eq, rested'⟩ := orderly_turn orderly rested t
    obtain ⟨next, later, slot_eq'⟩ := ih now rested'
    refine ⟨next, ?_, ?_⟩
    · rw [log_cons, ← List.append_assoc]
      rwa [slot_eq] at later
    · rw [slot_eq', slot_eq, afterTurns_cons]

/-- Whatever an empty slot meets, its log is orderly. -/
theorem orderly_log (turns : List SlotTurn) :
    ∃ hold : Hold, Orderly (({} : Slot).log turns) hold ∧
      hold.slot = ({} : Slot).afterTurns turns := by
  obtain ⟨hold, orderly, slot_eq⟩ := orderly_turns .start rfl turns
  rw [List.nil_append] at orderly
  exact ⟨hold, orderly, slot_eq⟩

end Slot

/-! ### Accounts -/

namespace SlotEvent

/-- The requests that were accepted. -/
def accepted (past : List SlotEvent) : List Deferred :=
  past.filterMap fun
    | requested d (.ok ()) _ => some d
    | _ => none

/-- The requests that were handed over. -/
def handed (past : List SlotEvent) : List Deferred :=
  past.filterMap fun
    | begun d => some d
    | _ => none

/-- The requests that have been carried out. -/
def finished (past : List SlotEvent) : List Deferred :=
  past.filterMap fun
    | ended d _ => some d
    | _ => none

/-- The slot as the past left it. -/
def slotAfter (past : List SlotEvent) : Slot :=
  past.foldl (fun slot event =>
    match event with
    | requested _ _ after => after
    | begun _ => slot
    | ended _ after => after) {}

end SlotEvent

open SlotEvent

namespace Orderly

variable {past before rest : List SlotEvent} {event : SlotEvent} {hold : Hold}

/-- What was accepted and not handed over waits, what was handed over and has not finished is being
carried out, and the slot holds the one or the other. -/
theorem accounts (orderly : Orderly past hold) :
    accepted past = handed past ++ hold.waiting?.toList ∧
      handed past = finished past ++ hold.running?.toList ∧ slotAfter past = hold.slot := by
  induction orderly with
  | start => exact ⟨rfl, rfl, rfl⟩
  | step before move ih =>
    obtain ⟨acc, beg, slot_eq⟩ := ih
    simp only [accepted, handed, finished, slotAfter, List.filterMap_append, List.foldl_append] at *
    cases move with
    | accept d => simp [acc, beg, Hold.waiting?, Hold.running?, Hold.slot]
    | refuse taken d => simp [acc, beg]
    | begin d => simp [acc, beg, slot_eq, Hold.waiting?, Hold.running?, Hold.slot]
    | finish d => simp [acc, beg, Hold.waiting?, Hold.running?, Hold.slot]

/-- What was accepted has been carried out, but for what the slot holds. -/
theorem accepted_eq (orderly : Orderly past hold) :
    accepted past = finished past ++ (slotAfter past).pending.toList := by
  obtain ⟨acc, hand, slot_eq⟩ := orderly.accounts
  rw [acc, hand, slot_eq]
  cases hold <;> simp [Hold.waiting?, Hold.running?, Hold.slot]

/-- What was accepted has been handed over, but for the last request, which may still wait. -/
theorem accepted_cases (orderly : Orderly past hold) :
    accepted past = handed past ∨
      ∃ d, accepted past = handed past ++ [d] ∧ (slotAfter past).pending = some d := by
  obtain ⟨acc, -, slot_eq⟩ := orderly.accounts
  cases hold with
  | free => exact .inl (acc.trans (List.append_nil _))
  | running d => exact .inl (acc.trans (List.append_nil _))
  | waiting d => exact .inr ⟨d, acc, by rw [slot_eq]; rfl⟩

/-- The outcome of a request, by what its past accepted and finished. -/
theorem outcome_spec (orderly : Orderly past hold) {next : Hold} {d : Deferred}
    {outcome : Except SlotConflict Unit} {after : Slot}
    (move : hold.Step (.requested d outcome after) next) :
    (outcome = .ok () ↔ accepted past = finished past) ∧
      ∀ conflict, outcome = .error conflict →
        after = slotAfter past ∧ (slotAfter past).pending = some conflict.pending ∧
          (accepted past).getLast? = some conflict.pending := by
  have acc := orderly.accepted_eq
  have slot_eq := orderly.accounts.2.2
  cases move with
  | accept d =>
    have vacant : (slotAfter past).pending = none := by
      rw [slot_eq]
      rfl
    rw [vacant, Option.toList_none, List.append_nil] at acc
    refine ⟨iff_of_true rfl acc, ?_⟩
    rintro conflict ⟨⟩
  | refuse taken d =>
    rw [← slot_eq] at taken ⊢
    rw [taken, Option.toList_some] at acc
    refine ⟨iff_of_false (by simp) (by simp [acc]), ?_⟩
    rintro conflict ⟨⟩
    exact ⟨rfl, taken, by rw [acc, List.getLast?_concat]⟩

/-- What is orderly ends with a move. -/
theorem last (orderly : Orderly (past ++ [event]) hold) :
    ∃ now : Hold, Orderly past now ∧ now.Step event hold := by
  generalize whole : past ++ [event] = events at orderly
  cases orderly with
  | start => simp at whole
  | step before move =>
    obtain ⟨rfl, rfl⟩ := List.append_singleton_inj.1 whole
    exact ⟨_, before, move⟩

/-- The past of every moment is orderly. -/
theorem beginning (orderly : Orderly (before ++ rest) hold) :
    ∃ now : Hold, Orderly before now := by
  induction rest using List.reverseRecOn generalizing hold with
  | nil => exact ⟨hold, by rwa [List.append_nil] at orderly⟩
  | append_singleton rest event ih =>
    rw [← List.append_assoc] at orderly
    obtain ⟨now, earlier, -⟩ := orderly.last
    exact ih earlier

end Orderly

/-! ### The hand-over -/

namespace Slot

/-- Requests are handed over once each. Whatever an empty slot meets, as long as consumptions are
not nested: a request is accepted just if all that was accepted before it has been carried out, and
when it is refused the slot stays as it is and the conflict names the request that was accepted
last, which is the one in the slot; and at every moment what was handed over is what was accepted,
in the same order, but for the last one, which may still be in the slot. -/
theorem handed_over_once (turns : List SlotTurn) :
    let log := ({} : Slot).log turns
    (∀ before d outcome after rest, log = before ++ .requested d outcome after :: rest →
      (outcome = .ok () ↔ accepted before = finished before) ∧
      ∀ conflict, outcome = .error conflict →
        after = slotAfter before ∧ (slotAfter before).pending = some conflict.pending ∧
          (accepted before).getLast? = some conflict.pending) ∧
    (∀ before, before <+: log →
      accepted before = handed before ∨
        ∃ d, accepted before = handed before ++ [d] ∧ (slotAfter before).pending = some d) ∧
    slotAfter log = ({} : Slot).afterTurns turns := by
  intro log
  obtain ⟨hold, orderly, slot_eq⟩ := orderly_log turns
  change Orderly log hold at orderly
  refine ⟨?_, ?_, ?_⟩
  · -- a request
    intro before d outcome after rest split
    rw [split, List.append_cons] at orderly
    obtain ⟨next, past⟩ := orderly.beginning
    obtain ⟨now, earlier, move⟩ := past.last
    exact earlier.outcome_spec move
  · -- what was handed over
    rintro before ⟨rest, whole⟩
    rw [← whole] at orderly
    obtain ⟨now, earlier⟩ := orderly.beginning
    exact earlier.accepted_cases
  · rw [orderly.accounts.2.2, slot_eq]

/-- A load that is asked for while a save is carried out is refused in favour of the save, and
handed over when it is asked for again. -/
theorem load_after_save_handed_over :
    let save : Deferred := ⟨.save, "a.sav".toUTF8.data.toList⟩
    let load : Deferred := ⟨.load, "b.sav".toUTF8.data.toList⟩
    let turns : List SlotTurn := [.request save, .consume [load], .request load, .consume []]
    let before : List SlotEvent := [.requested save (.ok ()) ⟨some save⟩, .begun save]
    let rest : List SlotEvent :=
      [.ended save {}, .requested load (.ok ()) ⟨some load⟩, .begun load, .ended load {}]
    ({} : Slot).log turns = before ++ .requested load (.error ⟨save⟩) ⟨some save⟩ :: rest ∧
      (accepted before).getLast? = some save ∧ handed (({} : Slot).log turns) = [save, load] := by
  intro save load turns before rest
  have split : ({} : Slot).log turns =
      before ++ .requested load (.error ⟨save⟩) ⟨some save⟩ :: rest := rfl
  obtain ⟨requests, -, -⟩ := handed_over_once turns
  exact ⟨split, ((requests _ _ _ _ _ split).2 _ rfl).2.2, rfl⟩

end Slot

end ConsoleBus
