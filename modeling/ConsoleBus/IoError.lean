/-!
Failures of the channels and files that the machine talks to. An error is a kind together with its
text; an error that the host system itself reports has a kind only, since its wording is the host's.
-/

namespace ConsoleBus

/-- What went wrong on a channel or with a file. -/
inductive IoKind where
  | notFound
  | alreadyExists
  | isADirectory
  | notADirectory
  | invalidInput
  | invalidData
  | invalidFilename
  | filesystemLoop
  | unexpectedEof
  | writeZero
  | brokenPipe
  | interrupted
  | wouldBlock
  | other
  deriving DecidableEq, Repr

/-- The published name of a kind. -/
def IoKind.name : IoKind → String
  | .notFound => "NotFound"
  | .alreadyExists => "AlreadyExists"
  | .isADirectory => "IsADirectory"
  | .notADirectory => "NotADirectory"
  | .invalidInput => "InvalidInput"
  | .invalidData => "InvalidData"
  | .invalidFilename => "InvalidFilename"
  | .filesystemLoop => "FilesystemLoop"
  | .unexpectedEof => "UnexpectedEof"
  | .writeZero => "WriteZero"
  | .brokenPipe => "BrokenPipe"
  | .interrupted => "Interrupted"
  | .wouldBlock => "WouldBlock"
  | .other => "Other"

def IoKind.all : List IoKind :=
  [.notFound, .alreadyExists, .isADirectory, .notADirectory, .invalidInput, .invalidData,
    .invalidFilename, .filesystemLoop, .unexpectedEof, .writeZero, .brokenPipe, .interrupted,
    .wouldBlock, .other]

/-- The kind of a name. -/
def IoKind.ofName? (name : String) : Option IoKind := all.find? fun k => k.name == name

/-- A failed channel or file operation. -/
structure IoError where
  kind : IoKind
  /-- The wording, unless the host system reported the error. -/
  text : Option String := none
  deriving DecidableEq, Repr

namespace IoError

/-- The input ended before the bytes that were asked for. -/
def unexpectedEof : IoError := ⟨.unexpectedEof, some "failed to fill whole buffer"⟩

/-- The output took no byte of a non-empty rest. -/
def writeZero : IoError := ⟨.writeZero, some "failed to write whole buffer"⟩

/-- The wording as it is quoted inside other messages. -/
def message (e : IoError) : String := e.text.getD ""

end IoError

end ConsoleBus
