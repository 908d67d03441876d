import ConsoleBus.Bytes

/-!
The parts of JSON that hook lists are made of, read from left to right. Each reader takes a rest of
the text and gives the rest after what it read, or says in which way the text fails there: it is not
JSON at that point, it ends too early, or it is JSON of another shape than was asked for.
-/

namespace ConsoleBus

/-- The ways in which a text fails to be what is asked for. -/
inductive JsonCategory where
  | notJson
  | endsEarly
  | data
  deriving DecidableEq, Repr

/-- The published name of a category. -/
def JsonCategory.name : JsonCategory → String
  | notJson => "Syntax"
  | endsEarly => "Eof"
  | data => "Data"

namespace Json

/-- What a reader gives: a value and the rest of the text, or the reason for stopping. -/
abbrev Read (α : Type) := Except JsonCategory (α × Bytes)

/-- A character's byte, for the ASCII characters that JSON is made of. -/
def ascii (c : Char) : UInt8 := UInt8.ofNat c.toNat

/-- JSON's blanks. -/
def isBlank (b : UInt8) : Bool := b = 0x20 || b = 0x0a || b = 0x09 || b = 0x0d

/-- The text after its leading blanks. -/
def skipBlanks (s : Bytes) : Bytes := s.dropWhile isBlank

def isDigit (b : UInt8) : Bool := 0x30 ≤ b && b ≤ 0x39

/-- The value of a digit. -/
def digitValue (b : UInt8) : Nat := b.toNat - 0x30

/-- Reads the rest of a word such as `true`. -/
def word : Bytes → Bytes → Except JsonCategory Bytes
  | [], s => .ok s
  | _ :: _, [] => .error .endsEarly
  | e :: es, c :: s => if c = e then word es s else .error .notJson

/-! ### Strings -/

/-- The value of a hexadecimal digit of either case. -/
def hexValue? (b : UInt8) : Option Nat :=
  if isDigit b then some (digitValue b)
  else if 0x41 ≤ b ∧ b ≤ 0x46 then some (b.toNat - 0x37)
  else if 0x61 ≤ b ∧ b ≤ 0x66 then some (b.toNat - 0x57)
  else none

/-- The number that four hexadecimal digits write. -/
def hexUnit? (a b c d : UInt8) : Option Nat := do
  let a ← hexValue? a
  let b ← hexValue? b
  let c ← hexValue? c
  let d ← hexValue? d
  return ((a * 16 + b) * 16 + c) * 16 + d

/-- The character that an escape of one letter stands for. -/
def shortEscape? (b : UInt8) : Option UInt8 :=
  if b = ascii '"' ∨ b = ascii '\\' ∨ b = ascii '/' then some b
  else if b = ascii 'b' then some 0x08
  else if b = ascii 'f' then some 0x0c
  else if b = ascii 'n' then some 0x0a
  else if b = ascii 'r' then some 0x0d
  else if b = ascii 't' then some 0x09
  else none

/-- The first half of a surrogate pair. -/
def isLeading (unit : Nat) : Bool := 0xd800 ≤ unit && unit ≤ 0xdbff

/-- The second half of a surrogate pair. -/
def isTrailing (unit : Nat) : Bool := 0xdc00 ≤ unit && unit ≤ 0xdfff

/-- Reads the second half of a surrogate pair, escape sign included. -/
def trailingUnit : Bytes → Read Nat
  | [] => .error .endsEarly
  | slash :: s =>
    if slash ≠ ascii '\\' then .error .notJson
    else
      match s with
      | [] => .error .endsEarly
      | u :: s =>
        if u ≠ ascii 'u' then .error .notJson
        else
          match s with
          | a :: b :: c :: d :: s =>
            match hexUnit? a b c d with
            | some unit => if isTrailing unit then .ok (unit, s) else .error .notJson
            | none => .error .notJson
          | _ => .error .endsEarly

/-- Reads what follows the sign of an escape, and gives the bytes that it stands for. -/
def escape : Bytes → Read Bytes
  | [] => .error .endsEarly
  | c :: s =>
    if c = ascii 'u' then
      match s with
      | a :: b :: c :: d :: s =>
        match hexUnit? a b c d with
        | none => .error .notJson
        | some unit =>
          if isTrailing unit then .error .notJson
          else if isLeading unit then
            match trailingUnit s with
            | .error e => .error e
            | .ok (second, s) =>
              .ok (String.utf8EncodeChar
                (Char.ofNat ((unit - 0xd800) * 0x400 + (second - 0xdc00) + 0x10000)), s)
          else .ok (String.utf8EncodeChar (Char.ofNat unit), s)
      | _ => .error .endsEarly
    else
      match shortEscape? c with
      | some b => .ok ([b], s)
      | none => .error .notJson

/-- Reads a string whose opening quote is behind us. Every round takes at least one byte, so a text
has no more rounds than bytes; the first argument has a byte for each round that is left. -/
def stringRounds : Bytes → Bytes → Read Bytes
  | _, [] => .error .endsEarly
  | [], _ :: _ => .error .endsEarly
  | _ :: rounds, c :: s =>
    if c = ascii '"' then .ok ([], s)
    else if c = ascii '\\' then
      match escape s with
      | .error e => .error e
      | .ok (bytes, s) => (stringRounds rounds s).map fun (more, s) => (bytes ++ more, s)
    else if c < 0x20 then .error .notJson
    else (stringRounds rounds s).map fun (more, s) => (c :: more, s)

/-- Reads a string whose opening quote is behind us, and gives its bytes with the escapes undone. -/
def string (s : Bytes) : Read Bytes := stringRounds s s

/-! ### Numbers -/

/-- The largest number of 64 bits; a longer integer is read as a rounded one. -/
def maxExact : Nat := UInt64.size - 1

/-- The nearest number of 53 bits, and of two that are equally near the even one. -/
def round53 (n : Nat) : Nat :=
  if n < 1 <<< 53 then n
  else
    let unit := 1 <<< (n.log2 - 52)
    let down := n / unit
    let rest := n % unit
    if unit < 2 * rest ∨ 2 * rest = unit ∧ down % 2 = 1 then (down + 1) * unit else down * unit

/-- Whether `significand · 10 ^ exponent`, worked out with 53 bits, is too large to be a number. -/
def isTooLarge (significand : Nat) (exponent : Int) : Bool :=
  0 ≤ exponent && significand ≠ 0 &&
    (308 < exponent ||
      (1 <<< 1024) - (1 <<< 970) ≤ round53 significand * round53 (Nat.pow 10 exponent.toNat))

/-- A number that is no exact natural number, unless it is too large to be one at all. -/
def inexact (significand : Nat) (exponent : Int) (s : Bytes) : Read (Option Nat) :=
  if isTooLarge significand exponent then .error .notJson else .ok (none, s)

/-- Takes up further digits as long as the number fits 64 bits. Gives the number and how many digits
were taken. -/
def extend : Nat → Bytes → Nat × Nat
  | n, [] => (n, 0)
  | n, d :: ds =>
    if maxExact < n * 10 + digitValue d then (n, 0)
    else
      let (m, taken) := extend (n * 10 + digitValue d) ds
      (m, taken + 1)

/-- The largest exponent that is told apart. -/
def maxExponent : Nat := 0x7fffffff

/-- The exponent that digits write, as far as it is told apart. -/
def exponentValue (digits : Bytes) : Nat :=
  digits.foldl (fun n d => if maxExponent < n then n else n * 10 + digitValue d) 0

/-- Reads an exponent whose letter is behind us. -/
def exponent (significand : Nat) (base : Int) (s : Bytes) : Read (Option Nat) :=
  let negative := s.head? = some (ascii '-')
  let s := if s.head? = some (ascii '+') ∨ negative then s.tail else s
  match s with
  | [] => .error .endsEarly
  | c :: _ =>
    if !isDigit c then .error .notJson
    else
      let digits := s.takeWhile isDigit
      let rest := s.dropWhile isDigit
      let value := exponentValue digits
      if maxExponent < value then
        if significand ≠ 0 ∧ !negative then .error .notJson else .ok (none, rest)
      else inexact significand (if negative then base - value else base + value) rest

/-- Whether a number goes on with an exponent. -/
def opensExponent (s : Bytes) : Bool :=
  s.head? = some (ascii 'e') || s.head? = some (ascii 'E')

/-- Reads a fraction whose point is behind us. -/
def fraction (significand : Nat) (base : Int) (s : Bytes) : Read (Option Nat) :=
  let digits := s.takeWhile isDigit
  let rest := s.dropWhile isDigit
  if digits = [] then .error (if rest = [] then .endsEarly else .notJson)
  else
    let (significand, taken) := extend significand digits
    if opensExponent rest then exponent significand (base - taken) rest.tail
    else inexact significand (base - taken) rest

/-- Reads what may follow the integer part of a number. -/
def afterInteger (positive : Bool) (value : Nat) (s : Bytes) : Read (Option Nat) :=
  if s.head? = some (ascii '.') then fraction value 0 s.tail
  else if opensExponent s then exponent value 0 s.tail
  else .ok (if positive then some value else none, s)

/-- Reads what may follow an integer part that is too long for 64 bits: the digits beyond count as
powers of ten. -/
def afterLongInteger (significand beyond : Nat) (s : Bytes) : Read (Option Nat) :=
  if s.head? = some (ascii '.') then fraction significand beyond s.tail
  else if opensExponent s then exponent significand beyond s.tail
  else inexact significand beyond s

/-- Reads a number without its sign. The answer is the number where it is an unsigned integer of 64
bits, and nothing where it is any other number. -/
def number (positive : Bool) : Bytes → Read (Option Nat)
  | [] => .error .endsEarly
  | c :: s =>
    if !isDigit c then .error .notJson
    else if c = ascii '0' then
      if s.head?.any isDigit then .error .notJson else afterInteger positive 0 s
    else
      let digits := s.takeWhile isDigit
      let rest := s.dropWhile isDigit
      let (value, taken) := extend (digitValue c) digits
      if taken = digits.length then afterInteger positive value rest
      else afterLongInteger value (digits.length - taken) rest

/-! ### Values of the wrong kind, and punctuation -/

/-- A value that is not of the kind asked for: it is read as far as needed to tell that it is one.
-/
def misfit {α : Type} (s : Bytes) : Read α :=
  match s with
  | [] => .error .notJson
  | c :: rest =>
    if c = ascii 'n' then afterWord "ull" rest
    else if c = ascii 't' then afterWord "rue" rest
    else if c = ascii 'f' then afterWord "alse" rest
    else if c = ascii '-' then after (number false rest)
    else if isDigit c then after (number true s)
    else if c = ascii '"' then after (string rest)
    else if c = ascii '[' ∨ c = ascii '\x7b' then .error .data
    else .error .notJson
where
  after {β : Type} : Read β → Read α
    | .ok _ => .error .data
    | .error e => .error e
  afterWord (letters : String) (rest : Bytes) : Read α :=
    match word (letters.toList.map ascii) rest with
    | .ok _ => .error .data
    | .error e => .error e

/-- Reads an integer from 0 to `max`. -/
def natural (max : Nat) (s : Bytes) : Read Nat :=
  match skipBlanks s with
  | [] => .error .endsEarly
  | c :: rest =>
    if c = ascii '-' then
      match number false rest with
      | .ok _ => .error .data
      | .error e => .error e
    else if isDigit c then
      match number true (c :: rest) with
      | .ok (some n, s) => if n ≤ max then .ok (n, s) else .error .data
      | .ok (none, _) => .error .data
      | .error e => .error e
    else misfit (c :: rest)

/-- Reads a truth value. -/
def boolean (s : Bytes) : Read Bool :=
  match skipBlanks s with
  | [] => .error .endsEarly
  | c :: rest =>
    if c = ascii 't' then (word ("rue".toList.map ascii) rest).map fun s => (true, s)
    else if c = ascii 'f' then (word ("alse".toList.map ascii) rest).map fun s => (false, s)
    else misfit (c :: rest)

/-- Moves to the next item of an array, or finds that there is none; the closing bracket stays. -/
def nextItem (first : Bool) (s : Bytes) : Except JsonCategory (Option Bytes) :=
  match skipBlanks s with
  | [] => .error .endsEarly
  | c :: rest =>
    if c = ascii ']' then .ok none
    else if first then .ok (some (c :: rest))
    else if c = ascii ',' then
      match skipBlanks rest with
      | [] => .error .endsEarly
      | c :: rest => if c = ascii ']' then .error .notJson else .ok (some (c :: rest))
    else .error .notJson

/-- Reads the end of an array. -/
def closeArray (s : Bytes) : Except JsonCategory Bytes :=
  match skipBlanks s with
  | [] => .error .endsEarly
  | c :: rest => if c = ascii ']' then .ok rest else .error .notJson

/-- Moves behind the opening quote of an object's next name, or finds that there is none; the
closing brace stays. -/
def nextName (first : Bool) (s : Bytes) : Except JsonCategory (Option Bytes) :=
  match skipBlanks s with
  | [] => .error .endsEarly
  | c :: rest =>
    if c = ascii '\x7d' then .ok none
    else if first then
      if c = ascii '"' then .ok (some rest) else .error .notJson
    else if c = ascii ',' then
      match skipBlanks rest with
      | [] => .error .endsEarly
      | c :: rest => if c = ascii '"' then .ok (some rest) else .error .notJson
    else .error .notJson

/-- Reads the colon between a name and its value. -/
def colon (s : Bytes) : Except JsonCategory Bytes :=
  match skipBlanks s with
  | [] => .error .endsEarly
  | c :: rest => if c = ascii ':' then .ok rest else .error .notJson

/-- Reads the end of an object. -/
def closeObject (s : Bytes) : Except JsonCategory Bytes :=
  match skipBlanks s with
  | [] => .error .endsEarly
  | c :: rest => if c = ascii '\x7d' then .ok rest else .error .notJson

/-- Accepts the end of the text, blanks allowed. -/
def finish (s : Bytes) : Except JsonCategory Unit :=
  if skipBlanks s = [] then .ok () else .error .notJson

end Json

end ConsoleBus
