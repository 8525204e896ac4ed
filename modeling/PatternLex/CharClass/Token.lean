import PatternLex.Text.CharLiteral

/-!
# Tokens of a character class

One entry of a class body is a range, a character or a set. What stands for a set is left open: a
token is parametric in the type of its sets, and nothing here looks inside one.
-/

namespace PatternLex

/-- An entry of a class body. A range is kept as it is written, also with `last` below `first`. -/
inductive Token (S : Type) where
  | range (first last : Char)
  | char (c : Char)
  | set (s : S)
  deriving DecidableEq, Repr

namespace Token

variable {S T : Type}

/-- The kinds of token. -/
inductive Kind where
  | range
  | char
  | set
  deriving DecidableEq, Repr

instance : ToString Kind where
  toString
    | .range => "Range"
    | .char => "Char"
    | .set => "Set"

def kind : Token S → Kind
  | range _ _ => .range
  | char _ => .char
  | set _ => .set

/-- Replaces the set of a token. -/
def map (f : S → T) : Token S → Token T
  | range first last => range first last
  | char c => char c
  | set s => set (f s)

/-- The kind, then in brackets the characters as literals, or the text of the set. -/
def display (showSet : S → String) (t : Token S) : String :=
  toString t.kind ++ " (" ++
    (match t with
      | range first last => Text.charLiteral first ++ "-" ++ Text.charLiteral last
      | char c => Text.charLiteral c
      | set s => showSet s) ++ ")"

end Token

end PatternLex
