import ConsoleBus.Channel.Request

/-!
The text of paths. A path is a byte string whose parts are separated by slashes; these functions
only look at the text and know nothing of any file.
-/

namespace ConsoleBus.Path

/-- The byte between the parts of a path. -/
def slash : UInt8 := 0x2f

/-- The part that stands for the directory itself. -/
def here : Bytes := [0x2e]

/-- The part that stands for the directory above. -/
def above : Bytes := [0x2e, 0x2e]

/-- Whether a path starts at the root. -/
def isAbsolute (p : Path) : Bool := p.head? == some slash

/-- Whether a path ends with a slash, and so can only name a directory. -/
def endsWithSlash (p : Path) : Bool := p.getLast? == some slash

/-- The pieces between slashes, empty ones included. -/
def pieces : Path → List Bytes
  | [] => [[]]
  | b :: rest =>
    if b = slash then [] :: pieces rest
    else
      match pieces rest with
      | [] => [[b]]
      | piece :: more => (b :: piece) :: more

/-- The names along a path, with repeated slashes read as one. -/
def names (p : Path) : List Bytes := p.pieces.filter fun piece => !piece.isEmpty

/-- A path as seen from a directory: an absolute path stays what it is. -/
def join (base p : Path) : Path :=
  if p.isAbsolute then p
  else if base.isEmpty || base.endsWithSlash then base ++ p
  else base ++ slash :: p

/-- The path of these names. -/
def ofNames (absolute : Bool) (names : List Bytes) : Path :=
  (if absolute then [slash] else []) ++ [slash].intercalate names

/-- What a path begins with before its first name: the slash of the root, or a dot that is a part
of its own. -/
def anchor (p : Path) : Path :=
  if p.isAbsolute then [slash]
  else if p = here || (here ++ [slash]).isPrefixOf p then here
  else []

/-- Whether a piece leads nowhere: one between two slashes, or a dot. -/
def isIdle (piece : Bytes) : Bool := piece.isEmpty || piece == here

/-- The pieces up to the last one that leads somewhere. -/
def dropIdleEnd (pieces : List Bytes) : List Bytes := (pieces.reverse.dropWhile isIdle).reverse

/-- The path without its last part. It is the beginning of the path as written, so that slashes and
dots inside it stay and count toward its length. The root has none, and neither has the empty
path. -/
def parent? (p : Path) : Option Path :=
  match dropIdleEnd (pieces (p.drop p.anchor.length)) with
  | [] => if p.anchor = here then some [] else none
  | parts => some (p.anchor ++ [slash].intercalate (dropIdleEnd parts.dropLast))

/-- The path of a text. -/
def ofString (s : String) : Path := s.toUTF8.data.toList

end ConsoleBus.Path
