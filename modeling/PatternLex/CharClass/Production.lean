import PatternLex.CharClass.SetProvider
import PatternLex.Text.ProperSuffix

/-!
# The productions of a class body

A class body is read in steps, and each step is one of four productions. At each place they are
tried in a fixed order and the first that fits is taken:

* a shorthand is a backslash and one of six letters;
* a range is a character, a `-` and a character, either of which may come after a backslash;
* a terminator is the closing bracket;
* a literal is any character, with a backslash before it or without.

Results:

* `properSuffix_of_read?`: a production takes at least one character off the front of the text;
* `next?_isSome`: at every place that is not the end of the text, some production fits.
-/

namespace PatternLex

open Text

/-- What one step reads: a token, or the bracket that closes the class. -/
inductive Lexeme (S : Type) where
  | token (t : Token S)
  | close
  deriving DecidableEq, Repr

/-- Replaces the set of a token. -/
def Lexeme.map {S T : Type} (f : S → T) : Lexeme S → Lexeme T
  | token t => token (t.map f)
  | close => close

inductive Production where
  | shorthand
  | range
  | terminator
  | literal
  deriving DecidableEq, Repr

namespace Production

variable {S : Type}

/-- A range does not begin with one of these after a backslash. -/
def lineTerminators : List Char := ['\n', '\r', '\u2028', '\u2029']

/-- The lower bound of a range: after a backslash anything but a line terminator, bare anything but
a closing bracket or a backslash. -/
def readFirst? : List Char → Option (Char × List Char)
  | '\\' :: c :: rest => if c ∈ lineTerminators then none else some (c, rest)
  | c :: rest => if c = ']' ∨ c = '\\' then none else some (c, rest)
  | [] => none

/-- The upper bound of a range. A backslash counts as the bound itself where the closing bracket or
nothing at all follows it. -/
def readLast? : List Char → Option (Char × List Char)
  | '\\' :: c :: rest => if c = ']' then some ('\\', c :: rest) else some (c, rest)
  | c :: rest => if c = ']' then none else some (c, rest)
  | [] => none

/-- Both bounds and the `-` between them. -/
def readRange? (cs : List Char) : Option (Token S × List Char) :=
  match readFirst? cs with
  | some (first, '-' :: cs) => (readLast? cs).map fun (last, rest) => (.range first last, rest)
  | _ => none

/-- A backslash and one of the six letters; the provider says what is put into the token. -/
def readShorthand? (sets : SetProvider S) : List Char → Option (Token S × List Char)
  | '\\' :: c :: rest => (Shorthand.ofChar? c).map fun s => (.set (sets.provide s), rest)
  | _ => none

/-- Any character. A backslash before it is dropped; at the end of the text it counts itself. -/
def readLiteral? : List Char → Option (Token S × List Char)
  | '\\' :: c :: rest => some (.char c, rest)
  | c :: rest => some (.char c, rest)
  | [] => none

/-- The closing bracket. -/
def readTerminator? : List Char → Option (List Char)
  | ']' :: rest => some rest
  | _ => none

/-- Reads what the production describes and returns it with the text after it. -/
def read? (sets : SetProvider S) (p : Production) (cs : List Char) :
    Option (Lexeme S × List Char) :=
  match p with
  | shorthand => (readShorthand? sets cs).map fun (t, rest) => (.token t, rest)
  | range => (readRange? cs).map fun (t, rest) => (.token t, rest)
  | terminator => (readTerminator? cs).map fun rest => (.close, rest)
  | literal => (readLiteral? cs).map fun (t, rest) => (.token t, rest)

/-- The order of the productions. A literal fits everywhere and so comes last. -/
def order : List Production := [shorthand, range, terminator, literal]

/-- The first of the productions that fits. -/
def next? (order : List Production) (sets : SetProvider S) (cs : List Char) :
    Option (Lexeme S × List Char) :=
  order.findSome? fun p => p.read? sets cs

/-! ## What a step takes -/

theorem properSuffix_of_readFirst? {cs rest : List Char} {c : Char}
    (h : readFirst? cs = some (c, rest)) : ProperSuffix rest cs := by
  revert h
  fun_cases readFirst? cs <;> grind [ProperSuffix.cons, ProperSuffix.trans]

theorem properSuffix_of_readLast? {cs rest : List Char} {c : Char}
    (h : readLast? cs = some (c, rest)) : ProperSuffix rest cs := by
  revert h
  fun_cases readLast? cs <;> grind [ProperSuffix.cons, ProperSuffix.trans]

theorem properSuffix_of_readRange? {cs rest : List Char} {t : Token S}
    (h : readRange? cs = some (t, rest)) : ProperSuffix rest cs := by
  revert h
  fun_cases readRange? cs <;>
    grind [Option.map_eq_some_iff, ProperSuffix.cons, ProperSuffix.trans,
      → properSuffix_of_readFirst?, → properSuffix_of_readLast?]

theorem properSuffix_of_readShorthand? {sets : SetProvider S} {cs rest : List Char} {t : Token S}
    (h : readShorthand? sets cs = some (t, rest)) : ProperSuffix rest cs := by
  revert h
  fun_cases readShorthand? sets cs <;>
    grind [Option.map_eq_some_iff, ProperSuffix.cons, ProperSuffix.trans]

theorem properSuffix_of_readLiteral? {cs rest : List Char} {t : Token S}
    (h : readLiteral? cs = some (t, rest)) : ProperSuffix rest cs := by
  revert h
  fun_cases readLiteral? cs <;> grind [ProperSuffix.cons, ProperSuffix.trans]

theorem readTerminator?_eq_some_iff {cs rest : List Char} :
    readTerminator? cs = some rest ↔ cs = ']' :: rest := by
  fun_cases readTerminator? cs <;> grind

theorem properSuffix_of_read? {sets : SetProvider S} {p : Production} {cs rest : List Char}
    {l : Lexeme S} (h : p.read? sets cs = some (l, rest)) : ProperSuffix rest cs := by
  cases p
  all_goals
    obtain ⟨out, hread, heq⟩ := Option.map_eq_some_iff.1 h
    simp only [Prod.mk.injEq] at heq
    obtain ⟨-, rfl⟩ := heq
  · exact properSuffix_of_readShorthand? hread
  · exact properSuffix_of_readRange? hread
  · exact readTerminator?_eq_some_iff.1 hread ▸ ProperSuffix.cons ']' _
  · exact properSuffix_of_readLiteral? hread

theorem eq_cons_of_read?_close {sets : SetProvider S} {p : Production} {cs rest : List Char}
    (h : p.read? sets cs = some (.close, rest)) : cs = ']' :: rest := by
  cases p
  all_goals
    obtain ⟨out, hread, heq⟩ := Option.map_eq_some_iff.1 h
    simp only [Prod.mk.injEq, reduceCtorEq, false_and, true_and] at heq
  rw [← heq]
  exact readTerminator?_eq_some_iff.1 hread

theorem properSuffix_of_next? {order : List Production} {sets : SetProvider S}
    {cs rest : List Char} {l : Lexeme S} (h : next? order sets cs = some (l, rest)) :
    ProperSuffix rest cs := by
  obtain ⟨p, -, hp⟩ := List.exists_of_findSome?_eq_some h
  exact properSuffix_of_read? hp

theorem eq_cons_of_next?_close {order : List Production} {sets : SetProvider S}
    {cs rest : List Char} (h : next? order sets cs = some (.close, rest)) :
    cs = ']' :: rest := by
  obtain ⟨p, -, hp⟩ := List.exists_of_findSome?_eq_some h
  exact eq_cons_of_read?_close hp

theorem readLiteral?_isSome (c : Char) (cs : List Char) :
    (readLiteral? (c :: cs) : Option (Token S × List Char)).isSome := by
  unfold readLiteral?
  split <;> simp_all

theorem next?_isSome {order : List Production} (hmem : literal ∈ order) (sets : SetProvider S)
    (c : Char) (cs : List Char) : (next? order sets (c :: cs)).isSome := by
  rw [next?, List.findSome?_isSome_iff]
  exact ⟨literal, hmem, by simp [read?, readLiteral?_isSome]⟩

end Production

end PatternLex
