import PatternLex.CharClass.Reader
import PatternLex.Escape.Unescape

/-!
# Events

What the library tells an observer while it works: each decoded escape, and for each class that is
read, how long the text was and how the reading ended. An event says what happened; the words for
it are in `message?`.
-/

namespace PatternLex

open Text

/-- How much an event matters. -/
inductive Level where
  | trace
  | debug
  deriving DecidableEq, Repr

instance : ToString Level where
  toString
    | .trace => "TRACE"
    | .debug => "DEBUG"

/-- Something an observer is told. -/
inductive Event where
  /-- An escape was decoded. -/
  | escapeDecoded (d : Decoded)
  /-- The reading of a class begins, with so many bytes ahead. -/
  | readingClass (length : Nat)
  /-- The class was closed after so many tokens, at this offset. -/
  | classClosed (tokens offset : Nat)
  /-- The class was never closed. -/
  | classUnterminated (pattern : String)
  deriving DecidableEq, Repr

namespace Event

variable {S : Type}

/-- A failure matters more than the rest. -/
def level : Event → Level
  | classUnterminated _ => .debug
  | _ => .trace

/-- What is said; a beginning says nothing. -/
def message? : Event → Option String
  | escapeDecoded _ => some "decoded escape"
  | readingClass _ => none
  | classClosed _ _ => some "class closed"
  | classUnterminated _ => some "unterminated character class"

/-- The events of decoding the escapes of a text. -/
def ofUnescape (text : String) : List Event := (decodedEscapes text).map escapeDecoded

/-- How the reading of a class ended. -/
def ofOutcome : Except Malformed (CharClass S) → Event
  | .ok cls => classClosed cls.tokens.length cls.offset
  | .error m => classUnterminated m.pattern

/-- The events of reading a class. -/
def ofRead (sets : SetProvider S) (source pattern : String) : List Event :=
  [readingClass (byteLength source.toList), ofOutcome (CharClass.read sets source pattern)]

end Event

end PatternLex
