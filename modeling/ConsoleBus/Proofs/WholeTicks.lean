import ConsoleBus.Proofs.DeferredWork
import ConsoleBus.Proofs.PauseGate

/-!
Whole ticks. Each move that need not wait brings a tick nearer to its next rest
(`Execution.way_step`), so six moves are always enough for it (`Execution.settleWithin_rests`); and
since the requests that arrive in a pause end it, a tick comes to its slice or to its end
(`Execution.ready_cases`). It is therefore a run of moves, in which one call begins and returns
(`WorkHistory.tick_eq_run`).
-/

namespace ConsoleBus

namespace Execution

variable {κ σ : Type} {e : Execution κ σ} {p : Plane}

/-- At most so many moves lead from a phase to the next rest. -/
def way : ExecutionPhase → Nat
  | .between => 6
  | .gate .announcing => 5
  | .gate .waiting => 4
  | .gate _ => 3
  | .deferred => 2
  | .storing _ => 1
  | .slice | .stopped | .crashed => 0

theorem way_enter (r : RunControl) : way (phaseOfGate r.enter.2) < way .between := by
  unfold RunControl.enter
  split
  · exact Nat.zero_lt_succ 5
  · split <;> simp [phaseOfGate, way]

theorem way_advance {r : RunControl} {g : GatePhase} (moving : g = .waiting → r.holds = false) :
    way (phaseOfGate (r.advance g).2.1) < way (.gate g) := by
  cases g with
  | announcing => simp [RunControl.advance, phaseOfGate, way]
  | waiting =>
    rw [RunControl.advance, moving rfl]
    rcases r.shutdown with _ | _ <;> simp [phaseOfGate, way]
  | acknowledging => simp [RunControl.advance, phaseOfGate, way]
  | passed word => cases word <;> simp [RunControl.advance, phaseOfGate, way]

/-- A move that need not wait for somebody else comes nearer to the next rest. -/
theorem way_step (moving : e.isResting p = false) :
    way (e.step p).execution.phase < way e.phase := by
  rw [isResting] at moving
  rw [step]
  cases phase : e.phase with
  | between =>
    simp only
    split
    · exact Nat.zero_lt_succ 5
    · exact way_enter p.run
  | gate g =>
    refine way_advance ?_
    rintro rfl
    rwa [phase] at moving
  | deferred =>
    simp only
    split
    · exact Nat.zero_lt_succ 1
    · exact Nat.one_lt_two
  | storing d => exact Nat.zero_lt_one
  | slice =>
    rw [phase] at moving
    cases moving
  | stopped =>
    rw [phase] at moving
    cases moving
  | crashed =>
    rw [phase] at moving
    cases moving

/-- So it gets there. -/
theorem settleWithin_rests {moves : Nat} (enough : way e.phase ≤ moves) :
    let settled := e.settleWithin p moves
    settled.execution.isResting settled.plane = true ∧
      way settled.execution.phase ≤ way e.phase ∧
      (e.isResting p = false → way settled.execution.phase < way e.phase) := by
  induction moves generalizing e p with
  | zero =>
    have rests : e.isResting p = true := by
      by_contra moving
      exact Nat.not_lt_zero _ (Nat.lt_of_lt_of_le (way_step (Bool.eq_false_iff.2 moving)) enough)
    exact ⟨rests, Nat.le_refl _, fun moving => absurd rests (Bool.eq_false_iff.1 moving)⟩
  | succ moves ih =>
    rw [settleWithin]
    split
    · next rests =>
      exact ⟨rests, Nat.le_refl _, fun moving => absurd rests (Bool.eq_false_iff.1 moving)⟩
    · next moving =>
      have nearer := way_step (Bool.eq_false_iff.2 moving)
      obtain ⟨rests, later, -⟩ := ih (e := (e.step p).execution) (p := (e.step p).plane)
        (Nat.le_of_lt_succ (Nat.lt_of_lt_of_le nearer enough))
      have before := Nat.lt_of_le_of_lt later nearer
      exact ⟨rests, Nat.le_of_lt before, fun _ => before⟩

theorem way_le (phase : ExecutionPhase) : way phase ≤ longestWay := by
  cases phase with
  | gate g => cases g <;> simp [way, longestWay]
  | _ => simp [way, longestWay]

/-- Where the execution side can rest. -/
theorem resting_cases (rests : e.isResting p = true) :
    e.phase = .gate .waiting ∨ e.phase = .slice ∨ e.phase = .stopped ∨ e.phase = .crashed := by
  rw [isResting] at rests
  cases phase : e.phase with
  | gate g =>
    rw [phase] at rests
    cases g with
    | waiting => exact .inl rfl
    | _ => cases rests
  | slice => exact .inr (.inl rfl)
  | stopped => exact .inr (.inr (.inl rfl))
  | crashed => exact .inr (.inr (.inr rfl))
  | _ =>
    rw [phase] at rests
    cases rests

/-- Where a tick stands after the gate and the slot. -/
def ready (e : Execution κ σ) (p : Plane) (requests : List RunRequest) : Running κ σ :=
  let arrived := e.settle p
  arrived.execution.settle (arrived.execution.visit arrived.plane requests).1

/-- Nothing keeps it from its slice any more, or else it is at its end. -/
theorem ready_cases (e : Execution κ σ) (p : Plane) (requests : List RunRequest) :
    (e.ready p requests).execution.phase = .slice ∨
      (e.ready p requests).execution.phase = .stopped ∨
      (e.ready p requests).execution.phase = .crashed := by
  let arrived := e.settle p
  have arrives : arrived.execution.isResting arrived.plane = true :=
    (settleWithin_rests (way_le e.phase)).1
  obtain ⟨rests, nearer, left⟩ := settleWithin_rests (e := arrived.execution)
    (p := (arrived.execution.visit arrived.plane requests).1) (way_le _)
  -- the second rest is not in the gate: either the first was not, or the gate has been left
  have past_gate : way (e.ready p requests).execution.phase < 4 := by
    rcases resting_cases arrives with waiting | slice | stopped | crashed
    · have free : arrived.execution.isResting
          (arrived.execution.visit arrived.plane requests).1 = false := by
        rw [isResting, visit, if_pos waiting, waiting]
        exact RunControl.holds_whileParked _ _
      rw [waiting] at left
      exact left free
    · rw [slice] at nearer
      exact Nat.lt_of_le_of_lt nearer (by decide)
    · rw [stopped] at nearer
      exact Nat.lt_of_le_of_lt nearer (by decide)
    · rw [crashed] at nearer
      exact Nat.lt_of_le_of_lt nearer (by decide)
  rcases resting_cases rests with waiting | ended
  · have again : way (e.ready p requests).execution.phase = 4 := congrArg way waiting
    omega
  · exact ended

theorem tick_of_slice {requests : List RunRequest}
    (slice : (e.ready p requests).execution.phase = .slice) :
    (e.tick p requests).running.execution =
        ((e.ready p requests).execution.step (e.ready p requests).plane).execution ∧
      (e.tick p requests).running.plane =
        ((e.ready p requests).execution.step (e.ready p requests).plane).plane := by
  rw [ready] at slice ⊢
  simp only [tick, if_pos slice, and_self]

theorem tick_of_end {requests : List RunRequest}
    (ended : (e.ready p requests).execution.phase ≠ .slice) :
    (e.tick p requests).running.execution = (e.ready p requests).execution ∧
      (e.tick p requests).running.plane = (e.ready p requests).plane := by
  rw [ready] at ended ⊢
  simp only [tick, if_neg ended, and_self]

end Execution

namespace WorkHistory

variable {κ σ : Type} {h : WorkHistory κ σ}

/-- Since the calls before it were over, one call has begun, and has returned if the phase says so. -/
def OneCall (past : List TickCall) (h : WorkHistory κ σ) : Prop :=
  match h.execution.phase with
  | .between | .stopped =>
    ∃ call, h.past = past ++ [call] ∧ h.current = none ∧
      call.returned = some (h.execution.word, h.execution.summary)
  | _ => h.past = past ∧ h.current.isSome

/-- The call has returned, unless its slice went wrong. -/
theorem OneCall.returned {past : List TickCall} (one : h.OneCall past)
    (ended : h.execution.phase = .between ∨ h.execution.phase = .stopped ∨
      h.execution.phase = .crashed) :
    h.execution.phase = .crashed ∨ ∃ call, h.past = past ++ [call] ∧
      call.returned = some (h.execution.word, h.execution.summary) := by
  rw [OneCall] at one
  rcases ended with between | stopped | crashed
  · rw [between] at one
    obtain ⟨call, listed, -, returned⟩ := one
    exact .inr ⟨call, listed, returned⟩
  · rw [stopped] at one
    obtain ⟨call, listed, -, returned⟩ := one
    exact .inr ⟨call, listed, returned⟩
  · exact .inl crashed

theorem oneCall_move (h : WorkHistory κ σ) (e : Execution κ σ) (call : TickCall) :
    (h.move e call).OneCall h.past := by
  rw [move]
  cases phase : (e.step h.plane).execution.phase with
  | between => simp [OneCall, phase, Execution.word, Execution.wentOn]
  | stopped => simp [OneCall, phase, Execution.word, Execution.wentOn]
  | _ => simp [OneCall, phase]

/-- A call is about to begin, or the one that began has not returned to the caller. -/
def At (past : List TickCall) (h : WorkHistory κ σ) : Prop :=
  h.execution.phase = .between ∧ h.past = past ∧ h.current = none ∨
    h.execution.phase ≠ .between ∧ h.OneCall past

/-- The next move of the execution thread, where it need not wait. -/
theorem At.execution {past : List TickCall} (at' : h.At past)
    (going : h.execution.phase ≠ .stopped) :
    (h.next .execution).execution = (h.execution.step h.plane).execution ∧
      (h.next .execution).plane = (h.execution.step h.plane).plane ∧
      (h.next .execution).OneCall past := by
  rcases at' with ⟨between, rfl, idle⟩ | ⟨underway, one⟩
  · have same : { h.execution with phase := .between } = h.execution := by rw [← between]
    rw [next, idle]
    simp only [same]
    obtain ⟨execution, plane, -⟩ := h.move_eq h.execution { found := h.execution.summary }
    exact ⟨execution, plane, h.oneCall_move _ _⟩
  · have busy : h.past = past ∧ h.current.isSome := by
      rw [OneCall] at one
      split at one
      · exact absurd ‹_› underway
      · exact absurd ‹_› going
      · exact one
    obtain ⟨rfl, current⟩ := busy
    obtain ⟨call, now⟩ := Option.isSome_iff_exists.1 current
    rw [next, now]
    obtain ⟨execution, plane, -⟩ := h.move_eq h.execution call
    exact ⟨execution, plane, h.oneCall_move _ _⟩

/-- Moving on to the next rest. -/
theorem At.settleWithin {past : List TickCall} (at' : h.At past) (moves : Nat) :
    ∃ made : List WorkMove,
      (made.foldl next h).execution = (h.execution.settleWithin h.plane moves).execution ∧
        (made.foldl next h).plane = (h.execution.settleWithin h.plane moves).plane ∧
        (made.foldl next h).At past := by
  induction moves generalizing h with
  | zero => exact ⟨[], rfl, rfl, at'⟩
  | succ moves ih =>
    rw [Execution.settleWithin]
    split
    · exact ⟨[], rfl, rfl, at'⟩
    · next moving =>
      have going : h.execution.phase ≠ .stopped := by
        intro stopped
        rw [Execution.isResting, stopped] at moving
        exact moving rfl
      obtain ⟨execution, plane, one⟩ := at'.execution going
      have on : (h.next .execution).execution.phase ≠ .between := by
        -- nothing is further from a rest than the beginning of a tick
        intro between
        have nearer := Execution.way_step (Bool.eq_false_iff.2 moving)
        rw [← execution, between] at nearer
        exact absurd nearer (Nat.not_lt.2 (Execution.way_le _))
      obtain ⟨made, execution', plane', at''⟩ := ih (.inr ⟨on, one⟩)
      rw [execution, plane] at execution' plane'
      exact ⟨.execution :: made, execution', plane', at''⟩

theorem foldl_run (h : WorkHistory κ σ) (requests : List RunRequest) :
    (requests.map WorkMove.run).foldl next h =
      { h with plane := { h.plane with run := (h.plane.run.requestAll requests).2 } } := by
  induction requests generalizing h with
  | nil => rfl
  | cons q requests ih => exact ih (h.next (.run q))

/-- The requests that arrive while a tick is parked. -/
theorem At.visit {past : List TickCall} (at' : h.At past) (requests : List RunRequest) :
    ∃ made : List WorkMove,
      (made.foldl next h).execution = h.execution ∧
        (made.foldl next h).plane = (h.execution.visit h.plane requests).1 ∧
        (made.foldl next h).At past := by
  rw [Execution.visit]
  split
  · refine ⟨(h.plane.run.whileParked requests).map .run, ?_⟩
    rw [foldl_run]
    exact ⟨rfl, rfl, at'⟩
  · exact ⟨[], rfl, rfl, at'⟩

/-- A whole tick is a run in which one call begins and returns, unless its slice goes wrong. -/
theorem tick_eq_run (idle : h.current = none) (between : h.execution.phase = .between)
    (requests : List RunRequest) :
    let ticked := (h.execution.tick h.plane requests).running
    ∃ made : List WorkMove,
      (made.foldl next h).execution = ticked.execution ∧
        (made.foldl next h).plane = ticked.plane ∧
        (ticked.execution.phase = .crashed ∨
          ∃ call, (made.foldl next h).past = h.past ++ [call] ∧
            call.returned = some (ticked.execution.word, ticked.execution.summary)) := by
  intro ticked
  have begins : h.At h.past := .inl ⟨between, rfl, idle⟩
  obtain ⟨made₁, execution₁, plane₁, at₁⟩ := begins.settleWithin Execution.longestWay
  obtain ⟨made₂, execution₂, plane₂, at₂⟩ := at₁.visit requests
  obtain ⟨made₃, execution₃, plane₃, at₃⟩ := at₂.settleWithin Execution.longestWay
  rw [execution₁] at execution₂
  rw [execution₁, plane₁] at plane₂
  rw [execution₂, plane₂] at execution₃ plane₃
  rw [← List.foldl_append, ← List.foldl_append] at execution₃ plane₃ at₃
  generalize made₁ ++ (made₂ ++ made₃) = made at execution₃ plane₃ at₃
  have ready : (made.foldl next h).execution = (h.execution.ready h.plane requests).execution :=
    execution₃
  have plane : (made.foldl next h).plane = (h.execution.ready h.plane requests).plane := plane₃
  by_cases slice : (h.execution.ready h.plane requests).execution.phase = .slice
  · have last := Execution.tick_of_slice slice
    obtain ⟨execution', plane', one⟩ := at₃.execution (by rw [ready, slice]; nofun)
    rw [ready, plane, ← last.1] at execution'
    rw [ready, plane, ← last.2] at plane'
    refine ⟨made ++ [.execution], ?_⟩
    rw [List.foldl_append, List.foldl_cons, List.foldl_nil]
    refine ⟨execution', plane', ?_⟩
    rw [← execution']
    refine one.returned ?_
    rw [execution', last.1, Execution.step]
    simp only [slice, Execution.runSlice]
    split
    · exact .inr (.inr rfl)
    · exact .inl rfl
  · have last := Execution.tick_of_end slice
    have ended := (Execution.ready_cases h.execution h.plane requests).resolve_left slice
    rw [← last.1] at ready
    rw [← last.2] at plane
    rw [← last.1, ← ready] at ended
    refine ⟨made, ready, plane, ?_⟩
    rw [← ready]
    rcases at₃ with ⟨between, -, -⟩ | ⟨-, one⟩
    · rw [between] at ended
      rcases ended with stopped | crashed
      · cases stopped
      · cases crashed
    · exact one.returned (.inr ended)

end WorkHistory

end ConsoleBus
