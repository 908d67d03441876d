import ConsoleBus.Program

/-!
How long the program reads. Every read that does not end serving takes one more byte of the input
(`Program.Service.taken_run`), and a read behind the input's last byte ends serving. So serving is
over at the latest when there have been more reads than the input has bytes by then
(`Program.Service.over_run`), and from then on nothing changes any more
(`Program.Service.run_eq_of_over`). What `Program.maxReads` cuts short is only an input that holds
as many bytes as that (`Program.maxReads_enough`).
-/

namespace ConsoleBus

namespace Session

variable {κ σ : Type}

/-- A read that ends the server's work ends serving. -/
theorem exit_receive {s : Session κ σ} {r : ChannelRead} {exit : ServerExit}
    (ends : (s.settle.server.receive r).1 = some exit) : (s.receive r).exit = some exit := by
  rw [receive]
  rcases received : s.settle.server.receive r with ⟨_ | left, server, effects⟩
  · rw [received] at ends
    cases ends
  · rw [received] at ends
    rw [← ends]
    simp only [finish]
    split <;> rfl

end Session

namespace Program

namespace Service

variable {s : Service}

/-- Serving is over. -/
def Over (s : Service) : Prop := s.session.exit.isSome

/-- There is nothing more to read of the input: it is a directory, or all its bytes have been taken.
-/
def Spent (s : Service) : Prop :=
  ∀ id, s.input = some id → (s.files.bytesOf id).size ≤ s.taken

/-- Moving what was sent into the output is no part of reading. -/
theorem drain_keeps (s : Service) :
    s.drain.session.exit = s.session.exit ∧ s.drain.taken = s.taken ∧ s.drain.input = s.input := by
  rw [drain]
  rcases s.session.plane.machine.notifier.take with ⟨sent, notifier⟩
  dsimp only
  split <;> exact ⟨rfl, rfl, rfl⟩

theorem step_exit (s : Service) : s.step.session.exit = (s.session.receive s.next).exit :=
  (drain_keeps _).1

@[simp] theorem step_taken (s : Service) : s.step.taken = s.taken + 1 := (drain_keeps _).2.1

@[simp] theorem step_input (s : Service) : s.step.input = s.input := (drain_keeps _).2.2

/-- The read that comes after all others is no byte, and is not taken again. -/
theorem next_of_spent (spent : s.Spent) :
    s.next = .ended ∨ s.next = .fault ⟨.isADirectory, none⟩ := by
  rw [next]
  rcases opened : s.input with _ | id
  · exact .inr rfl
  · have behind : (s.files.bytesOf id)[s.taken]? = none :=
      getElem?_neg _ _ (Nat.not_lt.2 (spent id opened))
    simp only [behind]
    exact .inl rfl

/-- That read ends serving. -/
theorem over_step (spent : s.Spent) : s.step.Over := by
  have left : (s.session.receive s.next).exit = some .channelClosed := by
    refine Session.exit_receive ?_
    rcases next_of_spent spent with behind | fault
    · rw [behind]
      rfl
    · rw [fault]
      rfl
  rw [Over, step_exit, left]
  rfl

/-! ### Runs -/

theorem run_of_over (ended : s.Over) (n : Nat) : s.run n = s := by
  cases n with
  | zero => rfl
  | succ n => exact if_pos ended

theorem run_succ (running : ¬ s.Over) (n : Nat) : s.run (n + 1) = s.step.run n := if_neg running

/-- A run in two parts. -/
theorem run_add (s : Service) (n m : Nat) : s.run (n + m) = (s.run n).run m := by
  induction n generalizing s with
  | zero => rw [Nat.zero_add, run]
  | succ n ih =>
    by_cases ended : s.Over
    · rw [run_of_over ended, run_of_over ended, run_of_over ended]
    · rw [Nat.add_right_comm, run_succ ended, run_succ ended, ih]

@[simp] theorem run_input (s : Service) (n : Nat) : (s.run n).input = s.input := by
  induction n generalizing s with
  | zero => rfl
  | succ n ih =>
    by_cases ended : s.Over
    · rw [run_of_over ended]
    · rw [run_succ ended, ih, step_input]

/-- As long as serving goes on, each read takes a byte. -/
theorem taken_run {n : Nat} (running : ¬ (s.run n).Over) : (s.run n).taken = s.taken + n := by
  induction n generalizing s with
  | zero => rfl
  | succ n ih =>
    by_cases ended : s.Over
    · rw [run_of_over ended] at running
      exact absurd ended running
    · rw [run_succ ended] at running ⊢
      rw [ih running, step_taken]
      omega

/-- More reads than it takes to the end of serving change nothing. -/
theorem run_eq_of_over {n m : Nat} (ended : (s.run n).Over) (more : n ≤ m) : s.run m = s.run n := by
  obtain ⟨k, rfl⟩ := Nat.exists_eq_add_of_le more
  rw [run_add, run_of_over ended]

/-- Serving is over after one read more than the input has bytes. The input may be written to in the
meantime; what counts is how long it is by then. -/
theorem over_run {n : Nat}
    (short : ∀ id, s.input = some id → ((s.run n).files.bytesOf id).size ≤ s.taken + n) :
    (s.run (n + 1)).Over := by
  rw [run_add]
  by_cases ended : (s.run n).Over
  · rw [run_of_over ended]
    exact ended
  · have spent : (s.run n).Spent := by
      intro id opened
      rw [run_input] at opened
      rw [taken_run ended]
      exact short id opened
    rw [run_succ ended]
    exact over_step spent

end Service

/-- The limit on reads is no limit. Unless the input holds as many bytes as that by then, the run
ends within it, and a larger limit makes no difference. -/
theorem maxReads_enough (s : Service)
    (short : ∀ id, s.input = some id → ((s.run (maxReads - 1)).files.bytesOf id).size < maxReads) :
    (s.run maxReads).Over ∧ ∀ n, maxReads ≤ n → s.run n = s.run maxReads := by
  have last : maxReads - 1 + 1 = maxReads := by decide
  have ended : (s.run maxReads).Over := by
    rw [← last]
    refine Service.over_run fun id opened => ?_
    have := short id opened
    omega
  exact ⟨ended, fun n more => Service.run_eq_of_over ended more⟩

end Program

end ConsoleBus
