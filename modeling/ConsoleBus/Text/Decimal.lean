import ConsoleBus.Bytes

/-!
Reading whole numbers in decimal notation: digits, which may follow a plus sign, and nothing else.
-/

namespace ConsoleBus.Text

/-- The value of a decimal digit. -/
def digit? (b : UInt8) : Option Nat :=
  if 0x30 ≤ b && b ≤ 0x39 then some (b.toNat - 0x30) else none

/-- The number whose digits follow those of `high`, if it stays below `bound`. -/
def digitsFrom (bound high : Nat) : Bytes → Option Nat
  | [] => some high
  | b :: rest =>
    match digit? b with
    | none => none
    | some d => if high * 10 + d < bound then digitsFrom bound (high * 10 + d) rest else none

/-- The text without a leading plus sign. -/
def unsigned : Bytes → Bytes
  | 0x2b :: rest => rest
  | text => text

/-- The number of a text, if it has at least one digit and the number is below `bound`. -/
def number? (bound : Nat) (text : Bytes) : Option Nat :=
  if (unsigned text).isEmpty then none
  else digitsFrom bound 0 (unsigned text)

end ConsoleBus.Text
