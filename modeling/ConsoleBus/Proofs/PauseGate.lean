import ConsoleBus.Control.RunControl
import Mathlib.Data.List.Induction

/-!
The pause protocol. One execution thread goes through the gate again and again, and between any two
of its moves requests may arrive; a run is any list of such moves, and the history keeps each call
of the gate with the flags that it found, the statuses that it sent and the flags under which it
left the wait. What a call under way has sent is a function of its phase (`GateCall.Underway`), and
one that is over either passed in silence or said that it parked, and then that it went on unless it
was shut down (`GateCall.Settled`). So the statuses of a run alternate, and after a shutdown nothing
parks or speaks any more (`GateHistory.pause_protocol`). A passage through the gate from its
beginning to its end is such a run (`GateHistory.pass_eq_run`).
-/

namespace ConsoleBus

/-! ### Requests and passages -/

namespace RunControl

variable {r : RunControl}

theorem request_parked (r : RunControl) (q : RunRequest) : (r.request q).2.parked = r.parked := by
  cases q with
  | pause => rcases hp : r.paused <;> simp [request, requestPause, hp]
  | resume => rcases hp : r.paused <;> simp [request, requestResume, hp]
  | shutdown => rfl
  | look => rfl

/-- Nothing takes a shutdown back. -/
theorem request_shutdown (down : r.shutdown = true) (q : RunRequest) :
    (r.request q).2.shutdown = true := by
  cases q with
  | pause => rcases hp : r.paused <;> simp [request, requestPause, hp, down]
  | resume => rcases hp : r.paused <;> simp [request, requestResume, hp, down]
  | shutdown => rfl
  | look => exact down

theorem enter_shutdown (r : RunControl) : r.enter.1.shutdown = r.shutdown := by
  unfold enter
  split
  · rfl
  · split <;> rfl

theorem advance_shutdown (r : RunControl) (p : GatePhase) :
    (r.advance p).1.shutdown = r.shutdown := by
  cases p with
  | waiting =>
    rw [advance]
    split
    · rfl
    · split <;> rfl
  | _ => rfl

/-- A pause is news if there was none, a resumption if there was one. -/
theorem request_answers (r : RunControl) :
    (r.request .pause).1 = some (!r.paused) ∧ (r.request .resume).1 = some r.paused := by
  rcases hp : r.paused <;> simp [request, requestPause, requestResume, hp]

theorem requestAll_concat (r : RunControl) (qs : List RunRequest) (q : RunRequest) :
    (r.requestAll (qs ++ [q])).2 = ((r.requestAll qs).2.request q).2 := by
  induction qs generalizing r with
  | nil => rfl
  | cons first qs ih => exact ih (r.request first).2

/-- The requests that arrive while execution is parked let it go in the end. -/
theorem holds_whileParked (r : RunControl) (qs : List RunRequest) :
    (r.requestAll (r.whileParked qs)).2.holds = false := by
  unfold whileParked
  split
  · next held =>
    rw [requestAll_concat]
    have paused : (r.requestAll qs).2.paused = true := by
      rw [holds, Bool.and_eq_true] at held
      exact held.1
    simp [request, requestResume, paused, holds]
  · next free => exact Bool.eq_false_iff.2 free

/-- A passage that parks says so, waits for the requests, and gives its word. -/
theorem pass_of_paused (down : r.shutdown = false) (paused : r.paused = true)
    (requests : List RunRequest) :
    let parked : RunControl := { r with parked := true }
    let left := (parked.requestAll (parked.whileParked requests)).2
    (r.pass requests).run = { left with parked := false } ∧
      (r.pass requests).phase = .passed (if left.shutdown then .shutdown else .proceed) ∧
      (r.pass requests).sent = if left.shutdown then [.paused] else [.paused, .resumed] := by
  intro parked left
  have free : left.holds = false := holds_whileParked parked requests
  have first : parked.drive .announcing 3 = (parked, .waiting, [.paused]) := by
    simp [drive, advance, holds, parked, paused, down]
  have last : left.drive .waiting 3 = ({ left with parked := false },
      .passed (if left.shutdown then .shutdown else .proceed),
      if left.shutdown then [] else [.resumed]) := by
    rcases up : left.shutdown with _ | _ <;> simp [drive, advance, free, up]
  have entered : r.enter = (parked, .announcing) := by simp [enter, down, paused, parked]
  simp only [pass, entered, first]
  rw [show (parked.requestAll (parked.whileParked requests)).2 = left from rfl, last]
  refine ⟨rfl, rfl, ?_⟩
  rcases left.shutdown with _ | _ <;> rfl

end RunControl

/-! ### Calls of the gate -/

/-- A call of the gate, as far as it has got. -/
structure GateCall where
  /-- The flags as the call found them. -/
  found : RunControl
  phase : GatePhase
  sent : List Status := []
  /-- The flags under which the call left the wait. -/
  left : Option RunControl := none

namespace GateCall

/-- A call begins. -/
def begin (r : RunControl) : RunControl × GateCall :=
  (r.enter.1, { found := r, phase := r.enter.2 })

/-- The next move of a call. -/
def move (r : RunControl) (call : GateCall) : RunControl × GateCall :=
  let (after, phase, sent) := r.advance call.phase
  (after, { call with
    phase
    sent := call.sent ++ sent.toList
    left := if call.phase = .waiting ∧ phase ≠ .waiting then some r else call.left })

theorem move_sent (r : RunControl) (call : GateCall) :
    (call.move r).2.sent = call.sent ++ (r.advance call.phase).2.2.toList := rfl

/-- The call found execution paused, and not shut down. -/
def Parks (call : GateCall) : Prop := call.found.paused = true ∧ call.found.shutdown = false

/-- The call was parked, and left the wait under flags that do not hold it. -/
def LeftUnder (call : GateCall) (flags : RunControl) : Prop :=
  call.left = some flags ∧ flags.parked = true ∧ flags.holds = false

/-- The call is under way. Execution is parked until it leaves the wait. -/
def Underway (r : RunControl) (call : GateCall) : Prop :=
  call.Parks ∧
    match call.phase with
    | .announcing => call.sent = [] ∧ r.parked = true
    | .waiting => call.sent = [.paused] ∧ r.parked = true
    | .acknowledging =>
      call.sent = [.paused] ∧ r.parked = false ∧
        ∃ flags, call.LeftUnder flags ∧ flags.shutdown = false
    | .passed _ => False

/-- The call is over. It passed without a word, or parked and said so, and then it went on and said
so just if it was not shut down. -/
structure Settled (call : GateCall) : Prop where
  passed : ¬call.Parks →
    call.phase = .passed (if call.found.shutdown then .shutdown else .proceed) ∧
      call.sent = [] ∧ call.left = none
  parked : call.Parks → ∃ flags, call.LeftUnder flags ∧
    call.phase = .passed (if flags.shutdown then .shutdown else .proceed) ∧
      call.sent = if flags.shutdown then [.paused] else [.paused, .resumed]

/-- Shutdown arrived while the call was parked. -/
def ShutDown (call : GateCall) : Prop :=
  call.Parks ∧ ∃ flags, call.LeftUnder flags ∧ flags.shutdown = true

/-- The call was told of a shutdown at once, without a park or a word. -/
def TurnedAway (call : GateCall) : Prop :=
  call.phase = .passed .shutdown ∧ call.sent = [] ∧ call.left = none

/-- The call is over, and the flags know. -/
structure Over (r : RunControl) (call : GateCall) : Prop where
  settled : call.Settled
  unparked : r.parked = false
  shutdown : call.ShutDown → r.shutdown = true

variable {r : RunControl} {call : GateCall}

/-- A call that begins parks, or is over at once. -/
theorem begin_spec (running : r.parked = false) :
    (begin r).2.Underway (begin r).1 ∨ (begin r).2.Over (begin r).1 := by
  have silent (word : Gate) (hword : word = if r.shutdown then .shutdown else .proceed)
      (hr : r.enter = (r, .passed word)) (stays : ¬(r.paused = true ∧ r.shutdown = false)) :
      (begin r).2.Over (begin r).1 := by
    rw [begin, hr]
    refine ⟨⟨fun _ => ⟨by rw [hword], rfl, rfl⟩, fun parks => absurd parks stays⟩, running, ?_⟩
    exact fun down => absurd down.1 stays
  rcases down : r.shutdown with _ | _
  · rcases paused : r.paused with _ | _
    · exact .inr (silent .proceed (by simp [down]) (by simp [RunControl.enter, down, paused])
        (by simp [paused]))
    · have parks : r.enter = ({ r with parked := true }, .announcing) := by
        simp [RunControl.enter, down, paused]
      rw [begin, parks]
      exact .inl ⟨⟨paused, down⟩, rfl, rfl⟩
  · exact .inr (silent .shutdown (by simp [down]) (by simp [RunControl.enter, down])
      (by simp [down]))

/-- A call under way goes on, or comes to its end. -/
theorem move_spec (underway : call.Underway r) :
    (call.move r).2.Underway (call.move r).1 ∨ (call.move r).2.Over (call.move r).1 := by
  obtain ⟨found, phase, sent, left⟩ := call
  obtain ⟨parks, told⟩ := underway
  cases phase with
  | announcing =>
    obtain ⟨rfl, parked⟩ := told
    exact .inl ⟨parks, rfl, parked⟩
  | waiting =>
    -- the flags are read once: whether it stays, and if not, which word it will give
    obtain ⟨rfl, parked⟩ := told
    rcases held : r.holds with _ | _
    · rcases down : r.shutdown with _ | _
      · have goes : r.advance .waiting = ({ r with parked := false }, .acknowledging, none) := by
          simp [RunControl.advance, held, down]
        rw [move, goes]
        exact .inl ⟨parks, rfl, rfl, r, ⟨rfl, parked, held⟩, down⟩
      · have goes : r.advance .waiting = ({ r with parked := false }, .passed .shutdown, none) := by
          simp [RunControl.advance, held, down]
        rw [move, goes]
        refine .inr ⟨⟨fun stays => absurd parks stays, fun _ => ?_⟩, rfl, fun _ => down⟩
        exact ⟨r, ⟨rfl, parked, held⟩, by simp [down], by simp [down]⟩
    · have stays : r.advance .waiting = (r, .waiting, none) := by
        simp [RunControl.advance, held]
      rw [move, stays]
      exact .inl ⟨parks, rfl, parked⟩
  | acknowledging =>
    obtain ⟨rfl, unparked, flags, leftUnder, up⟩ := told
    refine .inr ⟨⟨fun stays => absurd parks stays, fun _ => ?_⟩, unparked, ?_⟩
    · exact ⟨flags, leftUnder, by rw [up]; rfl, by rw [up]; rfl⟩
    · rintro ⟨-, flags', leftUnder', down⟩
      have same : flags = flags' := Option.some.inj (leftUnder.1.symm.trans leftUnder'.1)
      rw [← same, up] at down
      cases down
  | passed word => exact told.elim

/-- What a call that is over has sent. -/
theorem Settled.sent_cases (settled : call.Settled) :
    call.sent = [] ∨ call.sent = [.paused, .resumed] ∨ call.sent = [.paused] ∧ call.ShutDown := by
  by_cases parks : call.Parks
  · obtain ⟨flags, leftUnder, -, sent⟩ := settled.parked parks
    rcases down : flags.shutdown with _ | _
    · rw [down] at sent
      exact .inr (.inl sent)
    · rw [down] at sent
      exact .inr (.inr ⟨sent, parks, flags, leftUnder, down⟩)
  · exact .inl (settled.passed parks).2.1

theorem Underway.request (underway : call.Underway r) (q : RunRequest) :
    call.Underway (r.request q).2 := by
  rw [Underway, RunControl.request_parked]
  exact underway

end GateCall

/-! ### Runs -/

/-- A move of a run: a request, or the next move of the execution thread. -/
inductive GateMove where
  | request (request : RunRequest)
  | execution

/-- The flags, the calls of the gate that are over, and the one under way. -/
structure GateHistory where
  run : RunControl := {}
  past : List GateCall := []
  current : Option GateCall := none

namespace GateHistory

/-- Puts down how far a call has got. -/
def put (h : GateHistory) : RunControl × GateCall → GateHistory
  | (r, call) =>
    match call.phase with
    | .passed _ => ⟨r, h.past ++ [call], none⟩
    | _ => ⟨r, h.past, some call⟩

/-- The execution thread moves on in the call that is under way, or else in a new one. -/
def next (h : GateHistory) : GateMove → GateHistory
  | .request q => { h with run := (h.run.request q).2 }
  | .execution =>
    match h.current with
    | none => h.put (GateCall.begin h.run)
    | some call => h.put (call.move h.run)

/-- The history of a run. -/
def after (moves : List GateMove) : GateHistory := moves.foldl next {}

/-- The calls in the order in which they began. -/
def calls (h : GateHistory) : List GateCall := h.past ++ h.current.toList

/-- The status bytes that were sent. -/
def codes (h : GateHistory) : Bytes := (h.calls.flatMap GateCall.sent).map Status.code

theorem after_concat (moves : List GateMove) (m : GateMove) :
    after (moves ++ [m]) = (after moves).next m := List.foldl_append ..

variable {h : GateHistory} {r : RunControl} {call : GateCall}

theorem next_execution (now : h.current = some call) :
    h.next .execution = h.put (call.move h.run) := by
  simp only [next, now]

theorem next_execution_new (vacant : h.current = none) :
    h.next .execution = h.put (GateCall.begin h.run) := by
  simp only [next, vacant]

theorem put_underway (underway : call.Underway r) : h.put (r, call) = ⟨r, h.past, some call⟩ := by
  obtain ⟨found, phase, sent, left⟩ := call
  cases phase with
  | passed word => exact underway.2.elim
  | _ => rfl

theorem put_over (closed : call.Over r) : h.put (r, call) = ⟨r, h.past ++ [call], none⟩ := by
  have passed : ∃ word, call.phase = .passed word := by
    by_cases parks : call.Parks
    · obtain ⟨flags, -, phase, -⟩ := closed.settled.parked parks
      exact ⟨_, phase⟩
    · exact ⟨_, (closed.settled.passed parks).1⟩
  obtain ⟨word, hword⟩ := passed
  simp only [put, hword]

/-- Pauses and resumptions in turn. -/
def rounds (n : Nat) : List Status := (List.replicate n [.paused, .resumed]).flatten

/-- What the calls that are over have sent: whole rounds, or a last pause that shutdown ended. Then
no call is under way, and none will be. -/
def Alternates (h : GateHistory) : Prop :=
  (∃ n, h.past.flatMap GateCall.sent = rounds n) ∨
    (∃ n, h.past.flatMap GateCall.sent = rounds n ++ [.paused]) ∧
      (∃ call ∈ h.past, call.ShutDown) ∧ h.run.shutdown = true ∧ h.current = none

/-- What every history keeps to. -/
structure Sound (h : GateHistory) : Prop where
  settled : ∀ call ∈ h.past, call.Settled
  underway : ∀ call, h.current = some call → call.Underway h.run
  unparked : h.current = none → h.run.parked = false
  alternates : h.Alternates

theorem rounds_succ (n : Nat) : rounds (n + 1) = rounds n ++ [.paused, .resumed] := by
  rw [rounds, List.replicate_succ', List.flatten_concat, rounds]

theorem Sound.request (sound : h.Sound) (q : RunRequest) : (h.next (.request q)).Sound where
  settled := sound.settled
  underway call now := (sound.underway call now).request q
  unparked vacant := (RunControl.request_parked h.run q).trans (sound.unparked vacant)
  alternates := by
    rcases sound.alternates with rounds | ⟨last, down, shutdown, vacant⟩
    · exact .inl rounds
    · exact .inr ⟨last, down, RunControl.request_shutdown shutdown q, vacant⟩

/-- A call may be put down if no new one parks under shutdown. -/
theorem Sound.put (sound : h.Sound) (kept : r.shutdown = h.run.shutdown)
    (passes : h.run.shutdown = true → h.current = none → ¬call.Parks)
    (step : call.Underway r ∨ call.Over r) : (h.put (r, call)).Sound := by
  rcases step with underway | closed
  · rw [put_underway underway]
    refine ⟨sound.settled, ?_, nofun, ?_⟩
    · intro other now
      rw [← Option.some.inj now]
      exact underway
    · rcases sound.alternates with rounds | ⟨-, -, shutdown, vacant⟩
      · exact .inl rounds
      · -- after a last pause no call parks any more
        exact absurd underway.1 (passes shutdown vacant)
  · rw [put_over closed]
    refine ⟨List.forall_mem_append.2 ⟨sound.settled, ?_⟩, by rintro _ ⟨⟩,
      fun _ => closed.unparked, ?_⟩
    · exact List.forall_mem_singleton.2 closed.settled
    · have sent : (h.past ++ [call]).flatMap GateCall.sent =
          h.past.flatMap GateCall.sent ++ call.sent := by
        rw [List.flatMap_append, List.flatMap_singleton]
      rw [Alternates, sent]
      rcases sound.alternates with ⟨n, whole⟩ | ⟨⟨n, last⟩, ⟨c, hc, down⟩, shutdown, vacant⟩
      · rw [whole]
        rcases closed.settled.sent_cases with nothing | round | ⟨pause, down⟩
        · exact .inl ⟨n, by rw [nothing, List.append_nil]⟩
        · exact .inl ⟨n + 1, by rw [round, rounds_succ]⟩
        · exact .inr ⟨⟨n, by rw [pause]⟩, ⟨call, List.mem_concat_self, down⟩,
            closed.shutdown down, rfl⟩
      · have silent := (closed.settled.passed (passes shutdown vacant)).2.1
        rw [last, silent, List.append_nil]
        exact .inr ⟨⟨n, rfl⟩, ⟨c, List.mem_append_left _ hc, down⟩, kept.trans shutdown, rfl⟩

theorem Sound.execution (sound : h.Sound) : (h.next .execution).Sound := by
  rcases now : h.current with _ | call
  · rw [next_execution_new now]
    refine sound.put (RunControl.enter_shutdown h.run) ?_ (GateCall.begin_spec (sound.unparked now))
    rintro shutdown - ⟨-, up⟩
    exact Bool.false_ne_true (up.symm.trans shutdown)
  · rw [next_execution now]
    refine sound.put (RunControl.advance_shutdown h.run call.phase) ?_
      (GateCall.move_spec (sound.underway call now))
    intro _ vacant
    rw [now] at vacant
    cases vacant

theorem Sound.next (sound : h.Sound) (m : GateMove) : (h.next m).Sound := by
  cases m with
  | request q => exact sound.request q
  | execution => exact sound.execution

theorem sound_after (moves : List GateMove) : (after moves).Sound := by
  induction moves using List.reverseRecOn with
  | nil => exact ⟨List.forall_mem_nil _, by rintro _ ⟨⟩, fun _ => rfl, .inl ⟨0, rfl⟩⟩
  | append_singleton moves m ih =>
    rw [after_concat]
    exact ih.next m

/-! ### After a shutdown -/

/-- Execution was shut down when `n` calls had begun: those that began later are turned away, and if
a call is under way it is an earlier one. -/
structure Stopped (n : Nat) (h : GateHistory) : Prop where
  shutdown : h.run.shutdown = true
  later : ∀ call ∈ h.calls.drop n, call.TurnedAway
  earlier : h.current ≠ none → h.past.length < n

theorem put_eq (h : GateHistory) (r : RunControl) (call : GateCall) :
    h.put (r, call) = ⟨r, h.past ++ [call], none⟩ ∨ h.put (r, call) = ⟨r, h.past, some call⟩ := by
  obtain ⟨found, phase, sent, left⟩ := call
  cases phase with
  | passed word => exact .inl rfl
  | _ => exact .inr rfl

theorem run_put (h : GateHistory) (r : RunControl) (call : GateCall) :
    (h.put (r, call)).run = r := by
  rcases h.put_eq r call with closed | underway
  · rw [closed]
  · rw [underway]

theorem calls_put (h : GateHistory) (r : RunControl) (call : GateCall) :
    (h.put (r, call)).calls = h.past ++ [call] := by
  rcases h.put_eq r call with closed | underway
  · rw [closed, calls, Option.toList_none, List.append_nil]
  · rw [underway, calls, Option.toList_some]

theorem Stopped.next {n : Nat} (stopped : h.Stopped n) (m : GateMove) : (h.next m).Stopped n := by
  obtain ⟨shutdown, later, earlier⟩ := stopped
  cases m with
  | request q => exact ⟨RunControl.request_shutdown shutdown q, later, earlier⟩
  | execution =>
    rcases now : h.current with _ | call
    · -- a new call is turned away at once
      have refused :
          GateCall.begin h.run = (h.run, { found := h.run, phase := .passed .shutdown }) := by
        simp only [GateCall.begin, RunControl.enter, shutdown, if_true]
      rw [next_execution_new now, refused, put]
      refine ⟨shutdown, fun call member => ?_, nofun⟩
      rw [calls, Option.toList_none, List.append_nil, List.drop_append] at member
      rcases List.mem_append.1 member with known | new
      · rw [calls, now, Option.toList_none, List.append_nil] at later
        exact later call known
      · rw [List.mem_singleton.1 (List.mem_of_mem_drop new)]
        exact ⟨rfl, rfl, rfl⟩
    · -- the call under way is an earlier one, and stays the last
      have bound := earlier (by rw [now]; nofun)
      rw [next_execution now]
      refine ⟨?_, ?_, fun underway => ?_⟩
      · rw [run_put]
        exact (RunControl.advance_shutdown h.run call.phase).trans shutdown
      · have none_later : (h.past ++ [(call.move h.run).2]).drop n = [] := by
          rw [List.drop_eq_nil_iff, List.length_append, List.length_singleton]
          exact bound
        rw [calls_put, none_later]
        exact List.forall_mem_nil _
      · rcases h.put_eq (call.move h.run).1 (call.move h.run).2 with closed | still
        · rw [closed] at underway
          exact absurd rfl underway
        · rw [still]
          exact bound

/-- From a shutdown on. -/
theorem stopped_after (before rest : List GateMove) :
    (after (before ++ .request .shutdown :: rest)).Stopped
      (after (before ++ [.request .shutdown])).calls.length := by
  induction rest using List.reverseRecOn with
  | nil =>
    rw [after_concat]
    refine ⟨rfl, ?_, ?_⟩
    · rw [List.drop_length]
      exact List.forall_mem_nil _
    · intro underway
      obtain ⟨call, now⟩ := Option.ne_none_iff_exists'.1 underway
      rw [calls, now, Option.toList_some, List.length_append, List.length_singleton]
      exact Nat.lt_succ_self _
  | append_singleton rest m ih =>
    rw [← List.cons_append, ← List.append_assoc,
      after_concat (before ++ .request .shutdown :: rest)]
    exact ih.next m

/-! ### Whole passages -/

theorem foldl_requests (h : GateHistory) (qs : List RunRequest) :
    (qs.map GateMove.request).foldl next h = { h with run := (h.run.requestAll qs).2 } := by
  induction qs generalizing h with
  | nil => rfl
  | cons q qs ih => exact ih (h.next (.request q))

/-- A whole passage through the gate is a run of one call. -/
theorem pass_eq_run (r : RunControl) (requests : List RunRequest) :
    ∃ (moves : List GateMove) (call : GateCall),
      moves.foldl next { run := r } = ⟨(r.pass requests).run, [call], none⟩ ∧
        call.found = r ∧ call.phase = (r.pass requests).phase ∧
          call.sent = (r.pass requests).sent := by
  rcases down : r.shutdown with _ | _
  · rcases paused : r.paused with _ | _
    · have passed : r.pass requests = ⟨r, .passed .proceed, [], []⟩ := by
        simp [RunControl.pass, RunControl.enter, RunControl.drive, RunControl.advance, down, paused]
      rw [passed]
      refine ⟨[.execution], { found := r, phase := .passed .proceed }, ?_, rfl, rfl, rfl⟩
      simp [next, put, GateCall.begin, RunControl.enter, down, paused]
    · obtain ⟨run, phase, sent⟩ := RunControl.pass_of_paused down paused requests
      let parked : RunControl := { r with parked := true }
      have free := RunControl.holds_whileParked parked requests
      rw [run, phase, sent]
      have started : [GateMove.execution, .execution].foldl next { run := r } =
          ⟨parked, [], some { found := r, phase := .waiting, sent := [.paused] }⟩ := by
        simp [next, put, GateCall.begin, GateCall.move, RunControl.enter, RunControl.advance, down,
          paused, parked]
      generalize left_eq : (parked.requestAll (parked.whileParked requests)).2 = left at *
      refine ⟨[.execution, .execution] ++ (parked.whileParked requests).map .request ++
          if left.shutdown then [.execution] else [.execution, .execution],
        ⟨r, .passed (if left.shutdown then .shutdown else .proceed),
          if left.shutdown then [.paused] else [.paused, .resumed], some left⟩, ?_, rfl, rfl, rfl⟩
      rw [List.foldl_append, List.foldl_append, started, foldl_requests, left_eq]
      rcases up : left.shutdown with _ | _
      · simp [next, put, GateCall.move, RunControl.advance, free, up]
      · simp [next, put, GateCall.move, RunControl.advance, free, up]
  · have passed : r.pass requests = ⟨r, .passed .shutdown, [], []⟩ := by
      simp [RunControl.pass, RunControl.enter, RunControl.drive, RunControl.advance, down]
    rw [passed]
    refine ⟨[.execution], { found := r, phase := .passed .shutdown }, ?_, rfl, rfl, rfl⟩
    simp [next, put, GateCall.begin, RunControl.enter, down]

/-! ### The protocol -/

theorem rounds_codes (n : Nat) :
    (rounds n).map Status.code = (List.replicate n [7, 8]).flatten := by
  rw [rounds, List.map_flatten, List.map_replicate]
  rfl

/-- The codes of a run, by the call under way. -/
theorem Sound.codes_alternate (sound : h.Sound) :
    ∃ n, h.codes = (List.replicate n [7, 8]).flatten ∨
      h.codes = (List.replicate n [7, 8]).flatten ++ [7] ∧
        (h.run.parked = true ∨ (h.next .execution).codes = h.codes ++ [8] ∨
          ∃ call ∈ h.past, call.ShutDown) := by
  have codes_eq : h.codes = (h.past.flatMap GateCall.sent).map Status.code ++
      (h.current.toList.flatMap GateCall.sent).map Status.code := by
    rw [codes, calls, List.flatMap_append, List.map_append]
  rcases sound.alternates with ⟨n, whole⟩ | ⟨⟨n, last⟩, down, -, vacant⟩
  · refine ⟨n, ?_⟩
    rw [codes_eq, whole, rounds_codes]
    rcases now : h.current with _ | call
    · exact .inl (List.append_nil _)
    · obtain ⟨-, told⟩ := sound.underway call now
      rw [Option.toList_some, List.flatMap_singleton]
      cases phase : call.phase with
      | announcing =>
        rw [phase] at told
        rw [told.1]
        exact .inl (List.append_nil _)
      | waiting =>
        rw [phase] at told
        rw [told.1]
        exact .inr ⟨rfl, .inl told.2⟩
      | acknowledging =>
        rw [phase] at told
        refine .inr ⟨by rw [told.1]; rfl, .inr (.inl ?_)⟩
        have spoken : (call.move h.run).2.sent = [.paused] ++ [.resumed] := by
          rw [GateCall.move_sent, phase, told.1]
          rfl
        rw [next_execution now, codes, calls_put, List.flatMap_append, List.flatMap_singleton,
          spoken, List.map_append, whole, rounds_codes, told.1, List.map_append, List.append_assoc]
        rfl
      | passed word =>
        rw [phase] at told
        exact told.elim
  · refine ⟨n, .inr ?_⟩
    rw [codes_eq, last, vacant, List.map_append, rounds_codes, Option.toList_none, List.flatMap_nil,
      List.map_nil, List.append_nil]
    exact ⟨rfl, .inr (.inr down)⟩

/-- The pause protocol. In every run, at every moment: the status bytes sent are 7 and 8 in turn,
and if the last is a 7 then execution is parked, or has left the wait and will send the 8 with its
next move, or shutdown arrived while it was parked. The second of these is the one moment after
execution has cleared the flag that tells of parking and before it sends the 8. Each call that is
over has settled and the one under way has told what its phase asks for; execution is parked only in
a call that found it paused; pauses and resumptions are answered by whether they are news; and once
execution was shut down, calls that begin are turned away, whatever is requested, and only an earlier
call can still be parked. -/
theorem pause_protocol (moves : List GateMove) :
    let h := after moves
    (∃ n, h.codes = (List.replicate n [7, 8]).flatten ∨
      h.codes = (List.replicate n [7, 8]).flatten ++ [7] ∧
        (h.run.parked = true ∨ (h.next .execution).codes = h.codes ++ [8] ∨
          ∃ call ∈ h.past, call.ShutDown)) ∧
    (∀ call ∈ h.past, call.Settled) ∧
    (∀ call, h.current = some call → call.Underway h.run) ∧
    (h.run.parked = true → ∃ call, h.current = some call ∧ call.Parks) ∧
    (h.run.request .pause).1 = some (!h.run.paused) ∧
    (h.run.request .resume).1 = some h.run.paused ∧
    ∀ before rest, moves = before ++ .request .shutdown :: rest →
      let begun := (after (before ++ [.request .shutdown])).calls.length
      (∀ call ∈ h.calls.drop begun, call.TurnedAway) ∧
        (h.run.parked = true → h.past.length < begun) := by
  intro h
  have sound : h.Sound := sound_after moves
  have within (parked : h.run.parked = true) : ∃ call, h.current = some call := by
    refine Option.ne_none_iff_exists'.1 fun vacant => ?_
    exact Bool.false_ne_true ((sound.unparked vacant).symm.trans parked)
  obtain ⟨pause, resume⟩ := h.run.request_answers
  refine ⟨?_, sound.settled, sound.underway, ?_, pause, resume, ?_⟩
  · -- the stream
    exact sound.codes_alternate
  · -- parked
    intro parked
    obtain ⟨call, now⟩ := within parked
    exact ⟨call, now, (sound.underway call now).1⟩
  · -- after a shutdown
    rintro before rest rfl
    have stopped := stopped_after before rest
    refine ⟨stopped.later, fun parked => stopped.earlier ?_⟩
    exact Option.ne_none_iff_exists'.2 (within parked)

/-- Shutdown ends a park without an 8, and a pause after it is lost on the call that follows. -/
theorem parked_call_shut_down :
    let before : List GateMove := [.request .pause, .execution, .execution]
    let rest : List GateMove := [.execution, .request .pause, .execution]
    let h := after (before ++ .request .shutdown :: rest)
    h.codes = [7] ∧ h.calls.length = 2 ∧ ∀ call ∈ h.calls.drop 1, call.TurnedAway := by
  intro before rest h
  obtain ⟨-, -, -, -, -, -, stopped⟩ := pause_protocol (before ++ .request .shutdown :: rest)
  exact ⟨rfl, rfl, (stopped before rest rfl).1⟩

end GateHistory

end ConsoleBus
