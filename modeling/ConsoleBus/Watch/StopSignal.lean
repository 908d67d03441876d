/-!
The signal that ends the thread which reports coalesced changes.
-/

namespace ConsoleBus

/-- A signal that stays up once it was raised. -/
structure StopSignal where
  raised : Bool := false
  deriving DecidableEq, Repr

namespace StopSignal

/-- Raises the signal. -/
def raise (_ : StopSignal) : StopSignal := ⟨true⟩

/-- Waits for the signal, for a while; the answer tells whether it is up. Nobody raises it in the
meantime. -/
def wait (s : StopSignal) (_ : Nat) : Bool := s.raised

end StopSignal

end ConsoleBus
