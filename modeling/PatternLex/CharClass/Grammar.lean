import PatternLex.CharClass.Reader

/-!
# The grammar of class bodies

What a class body is, said without a reader. A body is a row of lexemes and the closing bracket, and
a lexeme spells a token at its place: what stands after it decides whether a lone backslash may end
a range, and whether a character is a token of its own or begins a range.

The choice among overlapping lexemes is part of the relation and is not made by an order: a
character is never spelled where a range could begin, and a letter of a shorthand is never the
second half of an escaped character or of an escaped lower bound.
-/

namespace PatternLex

open Text

namespace CharClass

variable {S : Type}

/-- The lexeme that writes the lower bound of a range. -/
inductive SpellsFirst : Char → List Char → Prop where
  | escaped {c : Char} : c ∉ Production.lineTerminators → Shorthand.ofChar? c = none →
      SpellsFirst c ['\\', c]
  | bare {c : Char} : c ≠ ']' → c ≠ '\\' → SpellsFirst c [c]

/-- The lexeme that writes the upper bound of a range, before the given rest of the text. -/
inductive SpellsLast : Char → List Char → List Char → Prop where
  | escaped {c : Char} {rest : List Char} : c ≠ ']' → SpellsLast c ['\\', c] rest
  | bare {c : Char} {rest : List Char} : c ≠ ']' → c ≠ '\\' → SpellsLast c [c] rest
  | backslash {rest : List Char} : SpellsLast '\\' ['\\'] (']' :: rest)

/-- The lexeme that writes a range, before the given rest of the text. -/
inductive SpellsRange : Char → Char → List Char → List Char → Prop where
  | mk {first last : Char} {front back rest : List Char} : SpellsFirst first front →
      SpellsLast last back rest → SpellsRange first last (front ++ '-' :: back) rest

/-- A range could be read at the beginning of the text. -/
def StartsRange (cs : List Char) : Prop :=
  ∃ first last lexeme rest, SpellsRange first last lexeme rest ∧ cs = lexeme ++ rest

/-- The lexeme that writes a token, before the given rest of the text. -/
inductive Spells (sets : SetProvider S) : Token S → List Char → List Char → Prop where
  | set {s : Shorthand} {rest : List Char} : Spells sets (.set (sets.provide s)) s.spelling rest
  | range {first last : Char} {lexeme rest : List Char} : SpellsRange first last lexeme rest →
      Spells sets (.range first last) lexeme rest
  | escaped {c : Char} {rest : List Char} : Shorthand.ofChar? c = none →
      ¬ StartsRange ('\\' :: c :: rest) → Spells sets (.char c) ['\\', c] rest
  | bare {c : Char} {rest : List Char} : c ≠ ']' → c ≠ '\\' → ¬ StartsRange (c :: rest) →
      Spells sets (.char c) [c] rest

/-- The text writes the tokens and closes the class, before the given rest. -/
inductive SpellsBody (sets : SetProvider S) : List (Token S) → List Char → List Char → Prop where
  | close {rest : List Char} : SpellsBody sets [] [']'] rest
  | token {t : Token S} {ts : List (Token S)} {lexeme body rest : List Char} :
      Spells sets t lexeme (body ++ rest) → SpellsBody sets ts body rest →
      SpellsBody sets (t :: ts) (lexeme ++ body) rest

end CharClass

end PatternLex
