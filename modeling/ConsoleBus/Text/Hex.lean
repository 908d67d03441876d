import ConsoleBus.Bytes

/-!
Hexadecimal texts: addresses in messages are written with eight lower-case digits.
-/

namespace ConsoleBus.Text

/-- The lower-case hexadecimal digit of a number below sixteen. -/
def hexDigit (n : Nat) : Char :=
  if n < 10 then Char.ofNat (48 + n) else Char.ofNat (87 + n)

/-- The lowest `width` hexadecimal digits of `n`, most significant first. -/
def hexDigits : Nat → Nat → List Char
  | 0, _ => []
  | width + 1, n => hexDigits width (n / 16) ++ [hexDigit (n % 16)]

/-- The value of a hexadecimal digit, in either case. -/
def hexValue? (c : Char) : Option UInt8 :=
  let n := c.toNat
  if 48 ≤ n ∧ n ≤ 57 then some (UInt8.ofNat (n - 48))
  else if 97 ≤ n ∧ n ≤ 102 then some (UInt8.ofNat (n - 87))
  else if 65 ≤ n ∧ n ≤ 70 then some (UInt8.ofNat (n - 55))
  else none

/-- Reads bytes of two hexadecimal digits each, after those of `acc`. -/
def unhex (acc : ByteArray) : List Char → Option ByteArray
  | [] => some acc
  | a :: b :: rest =>
    match hexValue? a, hexValue? b with
    | some high, some low => unhex (acc.push (high * 16 + low)) rest
    | _, _ => none
  | [_] => none

/-- An address as messages show it, such as `0x1f801070`. -/
def address (a : Address) : String := "0x" ++ String.ofList (hexDigits 8 a.toNat)

end ConsoleBus.Text
