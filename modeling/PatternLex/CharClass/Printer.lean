import PatternLex.CharClass.Production

/-!
# Writing tokens

A spelling for every token, chosen so that tokens may stand side by side: whatever can carry a
backslash does, and a character goes without one only where the backslash would make it a shorthand
or would not be accepted before a range. A range whose upper bound is the closing bracket has no
spelling that is read back, since the bracket closes the class.
-/

namespace PatternLex

namespace Token

/-- A character of its own: escaped, unless that would be a shorthand. -/
def spellChar (c : Char) : List Char :=
  if (Shorthand.ofChar? c).isSome then [c] else ['\\', c]

/-- The lower bound of a range: escaped, unless that would be a shorthand or a line terminator. -/
def spellFirst (c : Char) : List Char :=
  if c ∈ Production.lineTerminators then [c] else spellChar c

/-- What is written for a token. -/
def spelling : Token Shorthand → List Char
  | range first last => spellFirst first ++ ['-', '\\', last]
  | char c => spellChar c
  | set s => s.spelling

/-- What is written for a row of tokens. -/
def spellAll (ts : List (Token Shorthand)) : List Char := ts.flatMap spelling

end Token

end PatternLex
