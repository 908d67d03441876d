import ConsoleBus.Bytes

/-!
Notifications and their encoding. A notification is a status byte, or a hook event: a zero byte, the
hook's key and the value. The length of a value is not on the wire, so `Notification.decode` is told
the configured length for each key.
-/

namespace ConsoleBus

/-- Acknowledgements, each one byte. -/
inductive Status where
  | dumpWritten
  | byteWritten
  | drillFinished
  | paused
  | resumed
  | audioRecordingFinished
  | speedSet
  | queryCopied
  | alive
  | alreadyPaused
  | alreadyRunning
  | deferredRejected
  | failed
  | deferredAccepted
  deriving DecidableEq, Repr

namespace Status

def code : Status → UInt8
  | dumpWritten => 4
  | byteWritten => 5
  | drillFinished => 6
  | paused => 7
  | resumed => 8
  | audioRecordingFinished => 9
  | speedSet => 10
  | queryCopied => 11
  | alive => 12
  | alreadyPaused => 13
  | alreadyRunning => 14
  | deferredRejected => 15
  | failed => 16
  | deferredAccepted => 17

/-- The published name of a status. -/
def name : Status → String
  | dumpWritten => "DumpWritten"
  | byteWritten => "ByteWritten"
  | drillFinished => "DrillFinished"
  | paused => "Paused"
  | resumed => "Resumed"
  | audioRecordingFinished => "AudioRecordingFinished"
  | speedSet => "SpeedSet"
  | queryCopied => "QueryCopied"
  | alive => "Alive"
  | alreadyPaused => "AlreadyPaused"
  | alreadyRunning => "AlreadyRunning"
  | deferredRejected => "DeferredRejected"
  | failed => "Failed"
  | deferredAccepted => "DeferredAccepted"

def all : List Status :=
  [dumpWritten, byteWritten, drillFinished, paused, resumed, audioRecordingFinished, speedSet,
    queryCopied, alive, alreadyPaused, alreadyRunning, deferredRejected, failed, deferredAccepted]

/-- The status that a byte stands for. -/
def ofCode? (b : UInt8) : Option Status := all.find? fun s => s.code == b

@[simp] theorem ofCode?_code (s : Status) : ofCode? s.code = some s := by cases s <;> rfl

theorem code_of_ofCode? {b : UInt8} {s : Status} (h : ofCode? b = some s) : s.code = b := by
  have := List.find?_some h
  simpa using this

end Status

/-- A hook reporting its bytes. -/
structure HookEvent where
  key : UInt8
  value : Bytes
  deriving DecidableEq, Repr

/-- One outbound message. -/
inductive Notification where
  | hookFired (event : HookEvent)
  | status (status : Status)
  deriving DecidableEq, Repr

/-- Why a byte string is no sequence of notifications. -/
inductive NotificationError where
  | unknownStatus (code : UInt8)
  | unknownKey (key : UInt8)
  /-- The bytes end inside the hook event that starts at this offset. -/
  | truncated (offset : Nat)
  deriving DecidableEq, Repr

/-- The published name of an error. -/
def NotificationError.name : NotificationError → String
  | unknownStatus _ => "UnknownStatus"
  | unknownKey _ => "UnknownKey"
  | truncated _ => "Truncated"

def NotificationError.message : NotificationError → String
  | unknownStatus code => s!"unknown status byte {code}"
  | unknownKey key => s!"hook key {key} is not configured"
  | truncated offset => s!"stream ends inside a hook event at offset {offset}"

namespace Notification

/-- The byte that opens a hook event. -/
def hookTag : UInt8 := 0

def encode : Notification → Bytes
  | hookFired event => hookTag :: event.key :: event.value
  | status s => [s.code]

/-- The length of the encoding. -/
def encodedLength : Notification → Nat
  | hookFired event => 2 + event.value.length
  | status _ => 1

theorem length_encode (n : Notification) : n.encode.length = n.encodedLength := by
  cases n <;> simp [encode, encodedLength]; omega

/-- The concatenated encodings. -/
def encodeAll (ns : List Notification) : Bytes := ns.flatMap encode

/-- Reads notifications from bytes that start at `offset` of the stream. -/
def decodeFrom (length : UInt8 → Option Nat) (offset : Nat) :
    Bytes → Except NotificationError (List Notification)
  | [] => .ok []
  | tag :: rest =>
    if tag = hookTag then
      match rest with
      | [] => .error (.truncated offset)
      | key :: rest =>
        match length key with
        | none => .error (.unknownKey key)
        | some n =>
          let value := rest.take n
          if value.length < n then .error (.truncated offset)
          else (decodeFrom length (offset + 2 + n) (rest.drop n)).map (hookFired ⟨key, value⟩ :: ·)
    else
      match Status.ofCode? tag with
      | none => .error (.unknownStatus tag)
      | some s => (decodeFrom length (offset + 1) rest).map (status s :: ·)
termination_by bytes => bytes.length
decreasing_by
  · simp only [List.length_drop, List.length_cons]; omega
  · simp only [List.length_cons]; omega

/-- Splits a captured stream into its notifications. -/
def decode (length : UInt8 → Option Nat) (bytes : Bytes) :
    Except NotificationError (List Notification) :=
  decodeFrom length 0 bytes

end Notification

end ConsoleBus
