import ConsoleBus.Channel.Notifier

/-!
Delivery over a channel that does not fail. Such a channel may take a message in pieces and may ask
for a write to be repeated, but in the end it takes every byte; so messages add their encodings to
what the channel accepted, in their order, and every one of them is counted as sent
(`Notifier.sendAll_spec`). The events of a report are such messages (`Notifier.report_spec`).
-/

namespace ConsoleBus

/-- A reply that does not keep a message from getting through: some bytes are taken, or the write is
to be repeated. -/
def WriteReply.Harmless : WriteReply → Prop
  | .accept limit => 0 < limit
  | .fail e => e.kind = .interrupted

namespace Sink

/-- A channel that keeps what it accepts and never fails. -/
structure Reliable (s : Sink) : Prop where
  keeps : s.keeps = true
  writes : ∀ reply ∈ s.writes, reply.Harmless
  flushes : ∀ reply ∈ s.flushes, reply = none

/-- A fresh channel is one. -/
theorem reliable_new : Reliable {} := ⟨rfl, by simp, by simp⟩

/-- Harmless replies take all the bytes. -/
theorem writeAll_of_harmless (data : Bytes) {replies : List WriteReply}
    (harmless : ∀ reply ∈ replies, reply.Harmless) :
    ∃ rest, writeAll data replies = (.ok (), data, rest) ∧ ∀ reply ∈ rest, reply.Harmless := by
  induction replies generalizing data with
  | nil =>
    cases data with
    | nil => exact ⟨[], rfl, harmless⟩
    | cons b bs => exact ⟨[], rfl, harmless⟩
  | cons reply replies ih =>
    obtain ⟨first, others⟩ := List.forall_mem_cons.1 harmless
    cases data with
    | nil => exact ⟨reply :: replies, by rw [writeAll], harmless⟩
    | cons b bs =>
      cases reply with
      | fail e =>
        obtain ⟨rest, written, rest_harmless⟩ := ih (b :: bs) others
        have again : e.kind = .interrupted := first
        refine ⟨rest, ?_, rest_harmless⟩
        rw [writeAll, if_pos again, written]
        exact List.cons_ne_nil b bs
      | accept limit =>
        obtain ⟨rest, written, rest_harmless⟩ := ih ((b :: bs).drop limit) others
        refine ⟨rest, ?_, rest_harmless⟩
        rw [writeAll, if_neg (Nat.ne_of_gt first), written]
        · simp only [List.take_append_drop]
        · exact List.cons_ne_nil b bs

end Sink

namespace Notifier

/-- A reliable channel takes a message whole, and stays reliable. -/
theorem deliver_spec {s : Sink} (hs : s.Reliable) (data : Bytes) :
    ∃ s' : Sink, deliver s data = (.ok (), s') ∧ s'.accepted = s.accepted ++ data ∧
      s'.Reliable := by
  obtain ⟨rest, written, harmless⟩ := Sink.writeAll_of_harmless data hs.writes
  have accepted := s.accepted_write data
  rw [written, if_pos hs.keeps] at accepted
  have outcome : s.write data = (.ok (), (s.write data).2) := by simp [Sink.write, written]
  have reliable : (s.write data).2.Reliable :=
    ⟨hs.keeps, by simpa [Sink.write, written] using harmless, hs.flushes⟩
  generalize (s.write data).2 = s₁ at accepted outcome reliable
  unfold deliver
  rw [outcome]
  simp only [Sink.flush]
  cases hf : s₁.flushes with
  | nil => exact ⟨s₁, rfl, accepted, reliable⟩
  | cons reply replies =>
    have clean := reliable.flushes
    rw [hf] at clean
    obtain ⟨rfl, others⟩ := List.forall_mem_cons.1 clean
    exact ⟨_, rfl, accepted, reliable.keeps, reliable.writes, others⟩

/-- So a message is sent, and counted as sent. -/
theorem send_spec {t : Notifier} (ht : t.sink.Reliable) (n : Notification) :
    (t.send n).1 = .ok () ∧ (t.send n).2.sink.accepted = t.sink.accepted ++ n.encode ∧
      (t.send n).2.sent = t.sent + 1 ∧ (t.send n).2.failures = t.failures ∧
      (t.send n).2.sink.Reliable := by
  obtain ⟨s', delivered, accepted, reliable⟩ := deliver_spec ht n.encode
  unfold send
  rw [delivered]
  exact ⟨rfl, accepted, rfl, rfl, reliable⟩

/-- Sends messages, one after the other. -/
def sendAll (t : Notifier) (ns : List Notification) : Notifier :=
  ns.foldl (fun t n => (t.send n).2) t

theorem sendAll_append (t : Notifier) (ns later : List Notification) :
    t.sendAll (ns ++ later) = (t.sendAll ns).sendAll later := List.foldl_append

theorem report_eq_sendAll (t : Notifier) (events : List HookEvent) :
    t.report events = t.sendAll (events.map .hookFired) := by
  rw [report, sendAll, List.foldl_map]

/-- Messages add their encodings, in their order. -/
theorem sendAll_spec {t : Notifier} (ht : t.sink.Reliable) (ns : List Notification) :
    (t.sendAll ns).sink.accepted = t.sink.accepted ++ Notification.encodeAll ns ∧
      (t.sendAll ns).sent = t.sent + ns.length ∧
      (t.sendAll ns).failures = t.failures ∧ (t.sendAll ns).sink.Reliable := by
  induction ns generalizing t with
  | nil => exact ⟨by simp [sendAll, Notification.encodeAll], rfl, rfl, ht⟩
  | cons n ns ih =>
    obtain ⟨-, accepted, sent, failures, reliable⟩ := send_spec ht n
    obtain ⟨accepted', sent', failures', reliable'⟩ := ih reliable
    refine ⟨accepted'.trans ?_, sent'.trans ?_, failures'.trans failures, reliable'⟩
    · rw [accepted]
      simp [Notification.encodeAll]
    · rw [sent, List.length_cons]
      omega

/-- A report adds the encodings of its events, in their order. -/
theorem report_spec {t : Notifier} (ht : t.sink.Reliable) (events : List HookEvent) :
    (t.report events).sink.accepted =
        t.sink.accepted ++ Notification.encodeAll (events.map .hookFired) ∧
      (t.report events).sent = t.sent + events.length ∧
      (t.report events).failures = t.failures ∧ (t.report events).sink.Reliable := by
  have sent := sendAll_spec ht (events.map .hookFired)
  rwa [← report_eq_sendAll, List.length_map] at sent

end Notifier

end ConsoleBus
