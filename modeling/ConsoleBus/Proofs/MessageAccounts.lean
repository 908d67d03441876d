import ConsoleBus.Channel.Notifier

/-!
Accounts of an unreliable channel. A channel may take a message in pieces, ask for a write to be
repeated, refuse what is left of it, or fail to flush. Whatever it does, what it takes of a message
is a prefix, and the whole of it just if the write succeeds (`Sink.writeAll_spec`); so each message
has its entry in the ledger of a run (`Posting`), and the counters and the accepted bytes can be
read off the ledger (`Notifier.messages_accounted`).
-/

namespace ConsoleBus

/-- What can be asked of a notifier. -/
inductive NotifierCall where
  | send (n : Notification)
  | status (s : Status)
  | flush

/-- The message that a call is to send. -/
def NotifierCall.message? : NotifierCall → Option Notification
  | send n => some n
  | status s => some (.status s)
  | flush => none

/-- What became of a message. -/
structure Posting where
  message : Notification
  /-- What the channel accepted of it. -/
  accepted : Bytes
  /-- How writing it ended. -/
  written : Except IoError Unit
  /-- How the call ended, the flush after the write included. -/
  outcome : Except IoError Unit

namespace Posting

/-- The message counts as sent. -/
def isSent (d : Posting) : Bool := d.outcome.isOk

/-- A prefix of the message was accepted, and all of it just if it was written. A message that was
not written was not sent either. -/
structure Sound (d : Posting) : Prop where
  part : d.accepted <+: d.message.encode
  whole : d.written = .ok () ↔ d.accepted = d.message.encode
  torn : ∀ e, d.written = .error e → d.outcome = .error e

theorem Sound.accepted_of_sent {d : Posting} (sound : d.Sound) (sent : d.isSent = true) :
    d.accepted = d.message.encode := by
  refine sound.whole.1 ?_
  cases written : d.written with
  | ok _ => rfl
  | error e =>
    rw [isSent, sound.torn e written] at sent
    cases sent

end Posting

/-! ### One write -/

namespace Sink

/-- A prefix of the bytes is accepted, and the write succeeds just if that is all of them. -/
theorem writeAll_spec (data : Bytes) (replies : List WriteReply) :
    (writeAll data replies).2.1 <+: data ∧
      ((writeAll data replies).1 = .ok () ↔ (writeAll data replies).2.1 = data) := by
  induction replies generalizing data with
  | nil => cases data <;> simp [writeAll]
  | cons reply replies ih =>
    cases data with
    | nil => simp [writeAll]
    | cons b bs =>
      cases reply with
      | fail e =>
        by_cases again : e.kind = .interrupted
        · simpa [writeAll, again] using ih (b :: bs)
        · simp [writeAll, again]
      | accept limit =>
        by_cases refused : limit = 0
        · simp [writeAll, refused]
        · -- what this write takes, and what the later ones take of the rest
          have split := List.take_append_drop limit (b :: bs)
          obtain ⟨part, whole⟩ := ih ((b :: bs).drop limit)
          rw [writeAll, if_neg refused]
          · generalize writeAll ((b :: bs).drop limit) replies = later at part whole ⊢
            obtain ⟨outcome, accepted, left⟩ := later
            simp only at part whole ⊢
            refine ⟨?_, whole.trans ⟨fun rest => by rw [rest, split], fun all => ?_⟩⟩
            · have taken := (List.prefix_append_right_inj ((b :: bs).take limit)).2 part
              rwa [split] at taken
            · exact List.append_cancel_left (all.trans split.symm)
          · exact List.cons_ne_nil b bs

/-- A flush accepts nothing. -/
theorem accepted_flush (s : Sink) : s.flush.2.accepted = s.accepted := by
  unfold flush
  split <;> rfl

theorem keeps_flush (s : Sink) : s.flush.2.keeps = s.keeps := by
  unfold flush
  split <;> rfl

end Sink

namespace Notifier

/-! ### One message -/

/-- What becomes of a message that is sent now. -/
def post (t : Notifier) (n : Notification) : Posting where
  message := n
  accepted := (Sink.writeAll n.encode t.sink.writes).2.1
  written := (t.sink.write n.encode).1
  outcome := (t.send n).1

/-- A message is written, and flushed out if that succeeds. -/
theorem deliver_eq (s : Sink) (data : Bytes) :
    deliver s data = ((s.write data).1.bind fun _ => (s.write data).2.flush.1,
      if (s.write data).1.isOk then (s.write data).2.flush.2 else (s.write data).2) := by
  unfold deliver
  cases written : s.write data with
  | mk outcome s' => cases outcome <;> rfl

theorem sound_post (t : Notifier) (n : Notification) : (t.post n).Sound := by
  obtain ⟨part, whole⟩ := Sink.writeAll_spec n.encode t.sink.writes
  refine ⟨part, whole, fun e torn => ?_⟩
  have failed : (deliver t.sink n.encode).1 = .error e := by
    rw [deliver_eq, show (t.sink.write n.encode).1 = .error e from torn]
    rfl
  change (t.send n).1 = .error e
  unfold send
  split
  · next delivered => rw [delivered] at failed; cases failed
  · next delivered => rw [delivered] at failed; exact failed

/-- The channel has accepted what the posting says, and nothing else. -/
theorem accepted_send (t : Notifier) (n : Notification) :
    (t.send n).2.sink.accepted =
        t.sink.accepted ++ (if t.sink.keeps then (t.post n).accepted else []) ∧
      (t.send n).2.sink.keeps = t.sink.keeps := by
  have delivered : (t.send n).2.sink = (deliver t.sink n.encode).2 := by
    unfold send
    split <;> next same => rw [same]
  have accepted := t.sink.accepted_write n.encode
  have keeps : (t.sink.write n.encode).2.keeps = t.sink.keeps := rfl
  rw [delivered, deliver_eq]
  simp only
  split
  · rw [Sink.accepted_flush, Sink.keeps_flush]
    exact ⟨accepted, keeps⟩
  · exact ⟨accepted, keeps⟩

/-- One of the counters goes up. -/
theorem counted_send (t : Notifier) (n : Notification) :
    (t.send n).2.sent = t.sent + (if (t.post n).isSent then 1 else 0) ∧
      (t.send n).2.sent + (t.send n).2.failures = t.sent + t.failures + 1 := by
  unfold Posting.isSent post send
  split
  · exact ⟨rfl, by simp only; omega⟩
  · exact ⟨rfl, rfl⟩

/-! ### Runs -/

/-- The notifier after a call. -/
def call (t : Notifier) : NotifierCall → Notifier
  | .send n => (t.send n).2
  | .status s => t.status s
  | .flush => t.flush.2

def callAll (t : Notifier) (calls : List NotifierCall) : Notifier := calls.foldl call t

/-- The posting of a call, if it has a message. -/
def posted (t : Notifier) (c : NotifierCall) : List Posting := (c.message?.map t.post).toList

/-- The postings of a run, in the order of the calls. -/
def ledger (t : Notifier) : List NotifierCall → List Posting
  | [] => []
  | c :: cs => t.posted c ++ (t.call c).ledger cs

/-- Two states of a notifier are apart by these postings. -/
structure Accounts (t t' : Notifier) (postings : List Posting) : Prop where
  keeps : t'.sink.keeps = t.sink.keeps
  accepted : t'.sink.accepted =
    t.sink.accepted ++ if t.sink.keeps then postings.flatMap Posting.accepted else []
  sent : t'.sent = t.sent + postings.countP Posting.isSent
  total : t'.sent + t'.failures = t.sent + t.failures + postings.length

theorem Accounts.trans {t t' t'' : Notifier} {now later : List Posting}
    (first : Accounts t t' now) (second : Accounts t' t'' later) :
    Accounts t t'' (now ++ later) := by
  refine ⟨second.keeps.trans first.keeps, ?_, ?_, ?_⟩
  · rw [second.accepted, first.keeps, first.accepted]
    split <;> simp
  · rw [second.sent, first.sent, List.countP_append, Nat.add_assoc]
  · rw [second.total, first.total, List.length_append, Nat.add_assoc]

/-- A flush changes neither the counters nor what was accepted. -/
theorem accounts_flush (t : Notifier) : Accounts t (t.call .flush) [] := by
  refine ⟨t.sink.keeps_flush, ?_, rfl, rfl⟩
  rw [List.flatMap_nil, ite_self, List.append_nil]
  exact t.sink.accepted_flush

theorem accounts_send (t : Notifier) (n : Notification) :
    Accounts t (t.send n).2 [t.post n] := by
  obtain ⟨accepted, keeps⟩ := accepted_send t n
  obtain ⟨sent, total⟩ := counted_send t n
  refine ⟨keeps, by simpa using accepted, ?_, by simpa using total⟩
  rw [sent, List.countP_singleton]

theorem accounts_call (t : Notifier) (c : NotifierCall) :
    Accounts t (t.call c) (t.posted c) := by
  cases c with
  | send n => exact accounts_send t n
  | status s => exact accounts_send t (.status s)
  | flush => exact accounts_flush t

theorem accounts_callAll (t : Notifier) (calls : List NotifierCall) :
    Accounts t (t.callAll calls) (t.ledger calls) := by
  induction calls generalizing t with
  | nil => exact ⟨rfl, by simp [callAll, ledger], rfl, rfl⟩
  | cons c cs ih => exact (accounts_call t c).trans (ih (t.call c))

/-- There is one posting for each message. -/
theorem messages_ledger (t : Notifier) (calls : List NotifierCall) :
    (t.ledger calls).map Posting.message = calls.filterMap NotifierCall.message? := by
  induction calls generalizing t with
  | nil => rfl
  | cons c cs ih =>
    rw [ledger, List.map_append, ih]
    cases c <;> rfl

theorem sound_of_mem_ledger {t : Notifier} {calls : List NotifierCall} {d : Posting}
    (posted : d ∈ t.ledger calls) : d.Sound := by
  induction calls generalizing t with
  | nil => cases posted
  | cons c cs ih =>
    rcases List.mem_append.1 posted with now | later
    · obtain ⟨n, -, rfl⟩ := Option.map_eq_some_iff.1 (Option.mem_toList.1 now)
      exact sound_post t n
    · exact ih later

/-- Every message is accounted for, whatever the channel does to it. After any calls the two
counters have gone up by the number of messages together, and the first by the number of those whose
call succeeded. The channel has accepted, for each message in its turn, a prefix of the encoding, and
nothing else; the whole encoding of a message that was sent, and of one that was written and then
not flushed out; and less of one that could not be written. (A channel to nowhere keeps nothing of
what it accepts.) A flush by itself changes neither. -/
theorem messages_accounted (t : Notifier) (calls : List NotifierCall) :
    let after := t.callAll calls
    let ledger := t.ledger calls
    ledger.map Posting.message = calls.filterMap NotifierCall.message? ∧
      after.sent + after.failures =
        t.sent + t.failures + (calls.filterMap NotifierCall.message?).length ∧
      after.sent = t.sent + ledger.countP Posting.isSent ∧
      after.sink.accepted = t.sink.accepted ++
        (if t.sink.keeps then ledger.flatMap Posting.accepted else []) ∧
      (∀ d ∈ ledger, d.accepted <+: d.message.encode ∧
        (d.isSent = true → d.accepted = d.message.encode) ∧
        (∀ e, d.written = .ok () → d.outcome = .error e → d.accepted = d.message.encode) ∧
        ∀ e, d.written = .error e → d.outcome = .error e ∧ d.accepted ≠ d.message.encode) ∧
      (after.call .flush).sent = after.sent ∧ (after.call .flush).failures = after.failures ∧
        (after.call .flush).sink.accepted = after.sink.accepted := by
  intro after ledger
  have messages := messages_ledger t calls
  have accounts := accounts_callAll t calls
  refine ⟨messages, ?_, accounts.sent, accounts.accepted, ?_, rfl, rfl, ?_⟩
  · rw [accounts.total, ← messages, List.length_map]
  · intro d posted
    have sound := sound_of_mem_ledger posted
    refine ⟨sound.part, sound.accepted_of_sent, fun e written _ => sound.whole.1 written, ?_⟩
    intro e torn
    refine ⟨sound.torn e torn, fun all => ?_⟩
    rw [sound.whole.2 all] at torn
    cases torn
  · exact after.sink.accepted_flush

/-- A hook event that is cut short, a status byte that is not flushed out, and one that gets
through: three bytes and two are in the stream. -/
theorem torn_messages_accounted :
    let sink : Sink :=
      { writes := [.accept 2, .fail ⟨.interrupted, none⟩, .accept 1, .accept 0]
        flushes := [some ⟨.brokenPipe, none⟩, none, none] }
    let t : Notifier := { sink := sink }
    let calls : List NotifierCall :=
      [.send (.hookFired ⟨7, [1, 2, 3]⟩), .status .alive, .flush, .status .failed]
    (t.callAll calls).sent = 1 ∧ (t.callAll calls).sent + (t.callAll calls).failures = 3 ∧
      (t.callAll calls).sink.accepted = [0, 7, 1] ++ [12] ++ [16] := by
  intro sink t calls
  obtain ⟨-, total, sent, accepted, -⟩ := messages_accounted t calls
  exact ⟨sent, total, accepted⟩

end Notifier

end ConsoleBus
