import ConsoleBus.Text.Json
import ConsoleBus.Text.Utf8
import ConsoleBus.Watch.Spec

/-!
Hook lists as JSON: an array of hooks. A hook is an object whose fields stand in any order, or an
array of the values in field order; the three flags may be left out and are then off. A field that
is unknown or comes a second time is refused as soon as its name has been read, so the first problem
in the text decides the answer.
-/

namespace ConsoleBus.HookListing

open Json

/-- The fields of a hook, in their order. -/
inductive Field where
  | key
  | start
  | length
  | dedupe
  | coalesce
  | silenced
  deriving DecidableEq, Repr

namespace Field

def name : Field → String
  | key => "key"
  | start => "start"
  | length => "length"
  | dedupe => "dedupe"
  | coalesce => "coalesce"
  | silenced => "silenced"

def all : List Field := [key, start, length, dedupe, coalesce, silenced]

/-- The field with a name. -/
def ofName? (name : Bytes) : Option Field := all.find? fun f => f.name.toList.map ascii == name

end Field

/-- A hook as far as its fields have been read. -/
structure Draft where
  key : Option UInt8 := none
  start : Option UInt32 := none
  length : Option UInt32 := none
  dedupe : Option Bool := none
  coalesce : Option Bool := none
  silenced : Option Bool := none
  deriving DecidableEq, Repr

namespace Draft

/-- Whether a field has been read. -/
def has (d : Draft) : Field → Bool
  | .key => d.key.isSome
  | .start => d.start.isSome
  | .length => d.length.isSome
  | .dedupe => d.dedupe.isSome
  | .coalesce => d.coalesce.isSome
  | .silenced => d.silenced.isSome

/-- Reads the value of a field. -/
def readField (d : Draft) (f : Field) (s : Bytes) : Read Draft :=
  match f with
  | .key => (natural 0xff s).map fun (n, s) => ({ d with key := some (UInt8.ofNat n) }, s)
  | .start =>
    (natural 0xffffffff s).map fun (n, s) => ({ d with start := some (UInt32.ofNat n) }, s)
  | .length =>
    (natural 0xffffffff s).map fun (n, s) => ({ d with length := some (UInt32.ofNat n) }, s)
  | .dedupe => (boolean s).map fun (b, s) => ({ d with dedupe := some b }, s)
  | .coalesce => (boolean s).map fun (b, s) => ({ d with coalesce := some b }, s)
  | .silenced => (boolean s).map fun (b, s) => ({ d with silenced := some b }, s)

/-- The hook, if none of the fields that have no default is missing. -/
def complete (d : Draft) : Except JsonCategory HookSpec :=
  match d.key, d.start, d.length with
  | some key, some start, some length =>
    .ok {
      key := key
      start := start
      length := length
      dedupe := d.dedupe.getD false
      coalesce := d.coalesce.getD false
      silenced := d.silenced.getD false }
  | _, _, _ => .error .data

end Draft

/-- Reads one field whose opening quote is behind us. -/
def member (d : Draft) (s : Bytes) : Read Draft :=
  match string s with
  | .error e => .error e
  | .ok (name, s) =>
    match Field.ofName? name with
    | none => .error .data
    | some f =>
      if d.has f then .error .data
      else
        match colon s with
        | .error e => .error e
        | .ok s => d.readField f s

/-- Reads the fields of an object. A field is read once, so there are no more rounds than fields and
one to find the end. -/
def members : Nat → Bool → Draft → Bytes → Read Draft
  | 0, _, _, _ => .error .data
  | rounds + 1, first, d, s =>
    match nextName first s with
    | .error e => .error e
    | .ok none => .ok (d, s)
    | .ok (some s) =>
      match member d s with
      | .error e => .error e
      | .ok (d, s) => members rounds false d s

/-- Reads the values of an array in field order, as far as it goes. -/
def values : List Field → Bool → Draft → Bytes → Read Draft
  | [], _, d, s => .ok (d, s)
  | f :: fields, first, d, s =>
    match nextItem first s with
    | .error e => .error e
    | .ok none => .ok (d, s)
    | .ok (some s) =>
      match d.readField f s with
      | .error e => .error e
      | .ok (d, s) => values fields false d s

/-- Reads one hook. -/
def hook (s : Bytes) : Read HookSpec :=
  match skipBlanks s with
  | [] => .error .endsEarly
  | c :: rest =>
    if c = ascii '[' then
      match values Field.all true {} rest with
      | .error e => .error e
      | .ok (d, s) =>
        match d.complete with
        | .error e => .error e
        | .ok spec => (closeArray s).map fun s => (spec, s)
    else if c = ascii '\x7b' then
      match members (Field.all.length + 1) true {} rest with
      | .error e => .error e
      | .ok (d, s) =>
        match d.complete with
        | .error e => .error e
        | .ok spec => (closeObject s).map fun s => (spec, s)
    else misfit (c :: rest)

/-- Reads the hooks of a list. Each takes at least one byte, so the length of the text bounds the
rounds. -/
def hooks : Nat → Bool → Bytes → Read (List HookSpec)
  | 0, _, _ => .error .endsEarly
  | rounds + 1, first, s =>
    match nextItem first s with
    | .error e => .error e
    | .ok none => .ok ([], s)
    | .ok (some s) =>
      match hook s with
      | .error e => .error e
      | .ok (spec, s) => (hooks rounds false s).map fun (specs, s) => (spec :: specs, s)

/-- Reads a whole hook list. -/
def parse (text : Bytes) : Except JsonCategory (List HookSpec) :=
  match skipBlanks text with
  | [] => .error .endsEarly
  | c :: rest =>
    if c = ascii '[' then
      match hooks (rest.length + 1) true rest with
      | .error e => .error e
      | .ok (specs, s) =>
        match closeArray s with
        | .error e => .error e
        | .ok s => (finish s).map fun () => specs
    else (misfit (c :: rest) : Read (List HookSpec)).map fun (specs, _) => specs

/-- Reads the contents of a hook list file, which have to be UTF-8. -/
def parseFile (contents : Bytes) : Except HookError (List HookSpec) :=
  if Utf8.isValid contents then (parse contents).mapError .json
  else .error (.io ⟨.invalidData, some "stream did not contain valid UTF-8"⟩)

end ConsoleBus.HookListing
