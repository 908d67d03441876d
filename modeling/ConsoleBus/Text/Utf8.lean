import ConsoleBus.Bytes

/-!
Reading bytes as UTF-8. Where a byte string is not UTF-8, `Utf8.lossy` writes one replacement
character for each maximal ill-formed subpart: the longest prefix that could have begun a character,
or a single byte that could not. `Utf8.strict` accepts exactly the byte strings in which no such
part occurs.
-/

namespace ConsoleBus.Utf8

/-- Whether a byte continues a character. -/
def isTail (b : UInt8) : Bool := 0x80 ≤ b && b ≤ 0xbf

/-- Whether `b` may be the second byte of a character that `lead` opens, which rules out overlong
forms, surrogates and numbers above `10ffff`. -/
def mayFollow (lead b : UInt8) : Bool :=
  if lead = 0xe0 then 0xa0 ≤ b && b ≤ 0xbf
  else if lead = 0xed then 0x80 ≤ b && b ≤ 0x9f
  else if lead = 0xf0 then 0x90 ≤ b && b ≤ 0xbf
  else if lead = 0xf4 then 0x80 ≤ b && b ≤ 0x8f
  else isTail b

/-- The payload bits of the lead byte and of its tail bytes, as one number. -/
def scalar (lead : Nat) (tail : Bytes) : Nat :=
  tail.foldl (fun n b => n * 64 + b.toNat % 64) lead

/-- Reads one character that `lead` opens. The number counts the bytes taken after `lead`, and there
is no character where the bytes are ill-formed. -/
def step (lead : UInt8) (rest : Bytes) : Option Char × Nat :=
  if lead < 0x80 then (some (Char.ofNat lead.toNat), 0)
  else if 0xc2 ≤ lead && lead ≤ 0xdf then
    match rest with
    | b :: _ =>
      if isTail b then (some (Char.ofNat (scalar (lead.toNat % 32) [b])), 1) else (none, 0)
    | [] => (none, 0)
  else if 0xe0 ≤ lead && lead ≤ 0xef then
    match rest with
    | b :: c :: _ =>
      if !mayFollow lead b then (none, 0)
      else if isTail c then (some (Char.ofNat (scalar (lead.toNat % 16) [b, c])), 2)
      else (none, 1)
    | [b] => (none, if mayFollow lead b then 1 else 0)
    | [] => (none, 0)
  else if 0xf0 ≤ lead && lead ≤ 0xf4 then
    match rest with
    | b :: c :: d :: _ =>
      if !mayFollow lead b then (none, 0)
      else if !isTail c then (none, 1)
      else if isTail d then (some (Char.ofNat (scalar (lead.toNat % 8) [b, c, d])), 3)
      else (none, 2)
    | [b, c] => (none, if !mayFollow lead b then 0 else if isTail c then 2 else 1)
    | [b] => (none, if mayFollow lead b then 1 else 0)
    | [] => (none, 0)
  else (none, 0)

/-- The characters of a byte string, an ill-formed part standing as nothing. -/
def chars : Bytes → List (Option Char)
  | [] => []
  | lead :: rest => (step lead rest).1 :: chars (rest.drop (step lead rest).2)
termination_by bytes => bytes.length
decreasing_by simp only [List.length_drop, List.length_cons]; omega

/-- The text with a replacement character for each ill-formed part. -/
def lossy (bytes : Bytes) : String :=
  String.ofList ((chars bytes).map fun c => c.getD '\ufffd')

/-- Whether the bytes are UTF-8 throughout. -/
def isValid (bytes : Bytes) : Bool := (chars bytes).all Option.isSome

/-- The text of a byte string that is UTF-8 throughout. -/
def strict (bytes : Bytes) : Option String :=
  if isValid bytes then some (lossy bytes) else none

/-- The bytes of a text. -/
def encode (text : String) : Bytes := text.toUTF8.data.toList

end ConsoleBus.Utf8
