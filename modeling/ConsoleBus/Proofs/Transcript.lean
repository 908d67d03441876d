import ConsoleBus.Proofs.Delivery
import ConsoleBus.Proofs.Runs

/-!
The outbound stream read back. A hook event has no length on the wire, so a reader stays in step
only if every value has the length that the registry has for its key. It always has
(`Machine.measured_of_mem_messages`), and messages of that kind can be told apart wherever they
stand (`Notification.decode_encodeAll`); so after any run over a reliable channel the stream reads
back as the messages that were sent (`Machine.stream_decodes_after_run`).
-/

namespace ConsoleBus

/-! ### Messages that can be told apart -/

theorem Status.code_ne_hookTag (s : Status) : s.code ≠ Notification.hookTag := by
  cases s <;> decide

namespace Notification

variable {length : UInt8 → Option Nat} {ns : List Notification}

/-- A hook event carries as many bytes as its key calls for. -/
def Measured (length : UInt8 → Option Nat) : Notification → Prop
  | hookFired event => length event.key = some event.value.length
  | status _ => True

/-- A reader takes one measured message off the front of the stream. -/
theorem decodeFrom_encode_append {n : Notification} (measured : n.Measured length) (offset : Nat)
    (rest : Bytes) :
    decodeFrom length offset (n.encode ++ rest) =
      (decodeFrom length (offset + n.encodedLength) rest).map (n :: ·) := by
  cases n with
  | hookFired event =>
    have known : length event.key = some event.value.length := measured
    have whole : (event.value ++ rest).take event.value.length = event.value := List.take_left
    have behind : (event.value ++ rest).drop event.value.length = rest := List.drop_left
    rw [encode, List.cons_append, List.cons_append, decodeFrom.eq_def]
    simp only [known, if_true, whole, behind, Nat.lt_irrefl, if_false, encodedLength, Nat.add_assoc]
  | status s =>
    rw [encode, List.singleton_append, decodeFrom.eq_def]
    simp only [s.code_ne_hookTag, if_false, Status.ofCode?_code, encodedLength]

theorem encodeAll_cons (n : Notification) (ns : List Notification) :
    encodeAll (n :: ns) = n.encode ++ encodeAll ns := List.flatMap_cons

/-- A reader takes measured messages off the front of the stream, one after the other. -/
theorem decodeFrom_encodeAll_append (measured : ∀ n ∈ ns, n.Measured length) (offset : Nat)
    (rest : Bytes) :
    decodeFrom length offset (encodeAll ns ++ rest) =
      (decodeFrom length (offset + (encodeAll ns).length) rest).map (ns ++ ·) := by
  induction ns generalizing offset with
  | nil =>
    simp only [encodeAll, List.flatMap_nil, List.nil_append, List.length_nil, Nat.add_zero]
    cases decodeFrom length offset rest <;> rfl
  | cons n ns ih =>
    obtain ⟨first, others⟩ := List.forall_mem_cons.1 measured
    rw [encodeAll_cons, List.append_assoc, decodeFrom_encode_append first, ih others,
      List.length_append, length_encode, Nat.add_assoc]
    cases decodeFrom length (offset + (n.encodedLength + (encodeAll ns).length)) rest <;> rfl

/-- Measured messages read back. -/
theorem decode_encodeAll (measured : ∀ n ∈ ns, n.Measured length) :
    decode length (encodeAll ns) = .ok ns := by
  have read := decodeFrom_encodeAll_append measured 0 []
  rw [List.append_nil, decodeFrom] at read
  rw [decode, read]
  exact congrArg _ (List.append_nil ns)

end Notification

/-! ### The lengths of values -/

/-- The bytes of a hook in place are as many as it asks for. -/
theorem Hook.Sited.length_value {h : Hook} {range : Range} (hs : h.Sited range) {m : Memory}
    {now : ByteArray} (hv : h.value m = .ok now) : now.data.toList.length = h.length.toNat := by
  obtain ⟨-, content⟩ := Backing.read?_eq_some_iff.1 (hs.value_eq_ok_iff.1 hv)
  rw [content, List.length_map, List.length_range, hs.len_eq]

/-- Registries for the same hook list agree on the length of values. -/
theorem Registry.Serves.valueLength?_eq {r r' : Registry} {specs : List HookSpec}
    (hr : r.Serves specs) (hr' : r'.Serves specs) (key : UInt8) :
    r'.valueLength? key = r.valueLength? key := by
  -- both are looked up among the blank hooks of the list
  have blank (q : Registry) : q.valueLength? key =
      ((q.hooks.map Hook.blank).find? fun h => h.key == key).map fun h => h.length.toNat := by
    rw [List.find?_map, Option.map_map]
    rfl
  rw [blank, blank, hr.hooks_eq, hr'.hooks_eq]

/-! ### Runs -/

/-- What puts messages on the channel: a command, by way of the hooks that respond to it, or a
status byte. -/
inductive Traffic where
  | command (command : Command)
  | status (status : Status)

namespace Machine

variable {m : Machine} {specs : List HookSpec}

/-- The machine after some traffic. -/
def relay (m : Machine) : Traffic → Machine
  | .command c => m.next c
  | .status s => m.status s

/-- The messages that some traffic sends. -/
def messages (m : Machine) : Traffic → List Notification
  | .command c => (m.events c).map .hookFired
  | .status s => [.status s]

def relayAll (m : Machine) (run : List Traffic) : Machine := run.foldl relay m

/-- The messages of a run, in their order. -/
def transcript (m : Machine) : List Traffic → List Notification
  | [] => []
  | t :: ts => m.messages t ++ (m.relay t).transcript ts

theorem Serves.relay (hm : m.Serves specs) (t : Traffic) : (m.relay t).Serves specs := by
  cases t with
  | command c => exact hm.next c
  | status s => exact ⟨hm.isolation, hm.registry⟩

theorem Serves.relayAll (hm : m.Serves specs) (run : List Traffic) :
    (m.relayAll run).Serves specs := by
  induction run generalizing m with
  | nil => exact hm
  | cons t ts ih => exact ih (hm.relay t)

/-- What is sent on the channel are the messages. -/
theorem notifier_relay (hm : m.Serves specs) (t : Traffic) :
    (m.relay t).notifier = m.notifier.sendAll (m.messages t) := by
  cases t with
  | command c => rw [relay, (next_spec hm c).2, messages, Notifier.report_eq_sendAll]
  | status s => rfl

theorem notifier_relayAll (hm : m.Serves specs) (run : List Traffic) :
    (m.relayAll run).notifier = m.notifier.sendAll (m.transcript run) := by
  induction run generalizing m with
  | nil => rfl
  | cons t ts ih =>
    have later : (m.relayAll (t :: ts)).notifier =
        (m.relay t).notifier.sendAll ((m.relay t).transcript ts) := ih (hm.relay t)
    rw [later, notifier_relay hm, transcript, Notifier.sendAll_append]

/-- Every message is measured by the registry. -/
theorem measured_of_mem_messages (hm : m.Serves specs) {t : Traffic} {n : Notification}
    (sent : n ∈ m.messages t) : n.Measured m.registry.valueLength? := by
  cases t with
  | status s =>
    rw [messages, List.mem_singleton] at sent
    subst sent
    trivial
  | command c =>
    obtain ⟨e, emitted, rfl⟩ := List.mem_map.1 sent
    rw [events, Registry.respond, Registry.step, List.mem_filterMap] at emitted
    obtain ⟨moved, hmoved, fired⟩ := emitted
    obtain ⟨h, listed, rfl⟩ := List.mem_map.1 hmoved
    obtain ⟨bytes, hv, rfl⟩ := Hook.respond_event fired
    obtain ⟨range, sited⟩ := hm.registry.sited listed
    have found : m.registry.get? h.key = some h :=
      (Registry.get?_eq_some_iff hm.registry.nodup_keys).2 ⟨listed, rfl⟩
    change (m.registry.get? h.key).map (fun h => h.length.toNat) = some bytes.data.toList.length
    rw [found, sited.length_value hv]
    rfl

theorem measured_of_mem_transcript (hm : m.Serves specs) {run : List Traffic} {n : Notification}
    (sent : n ∈ m.transcript run) : n.Measured m.registry.valueLength? := by
  induction run generalizing m with
  | nil => cases sent
  | cons t ts ih =>
    have same : (m.relay t).registry.valueLength? = m.registry.valueLength? :=
      funext (hm.registry.valueLength?_eq (hm.relay t).registry)
    rcases List.mem_append.1 sent with now | later
    · exact measured_of_mem_messages hm now
    · rw [← same]
      exact ih (hm.relay t) later

/-- The outbound stream can always be read. After any run from power-on, over a channel that does
not fail, what the channel accepted decodes, by the lengths in the registry, to the messages of the
run in their order; these are what the notifier sent, one after the other, each of them got through,
and every hook event among them has a value of its hook's length. -/
theorem stream_decodes_after_run (fresh : m.Fresh specs) (sink : m.notifier.sink.Reliable)
    (silent : m.notifier.sink.accepted = []) (run : List Traffic) :
    Notification.decode (m.relayAll run).registry.valueLength?
        (m.relayAll run).notifier.sink.accepted = .ok (m.transcript run) ∧
      (m.relayAll run).notifier = m.notifier.sendAll (m.transcript run) ∧
      (m.relayAll run).notifier.sent = m.notifier.sent + (m.transcript run).length ∧
      (m.relayAll run).notifier.failures = m.notifier.failures ∧
      ∀ event, .hookFired event ∈ m.transcript run →
        (m.relayAll run).registry.valueLength? event.key = some event.value.length := by
  have hm := fresh.serves
  have same : (m.relayAll run).registry.valueLength? = m.registry.valueLength? :=
    funext (hm.registry.valueLength?_eq (hm.relayAll run).registry)
  have measured (n : Notification) (sent : n ∈ m.transcript run) :
      n.Measured (m.relayAll run).registry.valueLength? := by
    rw [same]
    exact measured_of_mem_transcript hm sent
  have sent := notifier_relayAll hm run
  obtain ⟨accepted, counted, failures, -⟩ := Notifier.sendAll_spec sink (m.transcript run)
  refine ⟨?_, sent, ?_, ?_, ?_⟩
  · -- the stream
    rw [sent, accepted, silent, List.nil_append]
    exact Notification.decode_encodeAll measured
  · rw [sent, counted]
  · rw [sent, failures]
  · -- the lengths
    intro event member
    exact measured _ member

/-- Zeros in the value of a hook event and a status byte behind it do not mislead a reader. -/
theorem tag_bytes_read_back :
    let spec : HookSpec := { key := 4, start := 0, length := 8 }
    let m : Machine := { registry := Registry.empty.register spec }
    let run : List Traffic :=
      [.command (.store .half 0xa0600002 0x0400), .status .alive, .command (.handleWrite 7 12)]
    m.Fresh [spec] ∧ m.notifier.sink.Reliable ∧ m.notifier.sink.accepted = [] ∧
      Notification.decode (m.relayAll run).registry.valueLength?
        (m.relayAll run).notifier.sink.accepted = .ok (m.transcript run) := by
  intro spec m run
  have fresh : m.Fresh [spec] := by
    refine ⟨rfl, Registry.ofSpecs_eq_ok_iff.2 ⟨fun s hs => ?_, by decide, rfl⟩⟩
    rw [List.mem_singleton.1 hs]
    exact ⟨by decide, by decide, .ram, by decide, by decide, by decide⟩
  exact ⟨fresh, Sink.reliable_new, rfl,
    (stream_decodes_after_run fresh Sink.reliable_new rfl run).1⟩

end Machine

end ConsoleBus
