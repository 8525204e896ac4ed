/-!
# Shorthand classes

Six letters after a backslash stand for a whole class of characters. This module holds the six, the
letter of each, and how one is written.

Results:

* `ofLetter?_eq_some_iff`: a text names a shorthand exactly when it is its letter and no more;
* `ofChar?_eq_some_iff`: the same for a single character.
-/

namespace PatternLex

/-- The classes that one escaped letter stands for. -/
inductive Shorthand where
  | word
  | digit
  | space
  | notWord
  | notDigit
  | notSpace
  deriving DecidableEq, Repr

namespace Shorthand

def all : List Shorthand := [word, digit, space, notWord, notDigit, notSpace]

/-- The letter after the backslash; a complement has the letter in upper case. -/
def letter : Shorthand → Char
  | word => 'w'
  | digit => 'd'
  | space => 's'
  | notWord => 'W'
  | notDigit => 'D'
  | notSpace => 'S'

/-- The shorthand with this letter. -/
def ofChar? (c : Char) : Option Shorthand := all.find? fun s => s.letter = c

/-- The shorthand with this letter, given as a text of any length. -/
def ofLetter? (text : String) : Option Shorthand :=
  all.find? fun s => text.toList = [s.letter]

/-- What is written for it in a pattern. -/
def spelling (s : Shorthand) : List Char := ['\\', s.letter]

instance : ToString Shorthand where
  toString s := String.ofList s.spelling

theorem mem_all (s : Shorthand) : s ∈ all := by cases s <;> decide

theorem letter_inj {s t : Shorthand} : s.letter = t.letter ↔ s = t := by
  cases s <;> cases t <;> decide

@[simp] theorem ofChar?_eq_some_iff {c : Char} {s : Shorthand} :
    ofChar? c = some s ↔ s.letter = c := by
  constructor
  · intro h
    simpa using List.find?_some h
  · intro h
    subst h
    cases s <;> rfl

theorem ofLetter?_singleton (c : Char) : ofLetter? (String.ofList [c]) = ofChar? c := by
  simp [ofLetter?, ofChar?, eq_comm]

theorem ofLetter?_eq_some_iff {text : String} {s : Shorthand} :
    ofLetter? text = some s ↔ text.toList = [s.letter] := by
  constructor
  · intro h
    simpa using List.find?_some h
  · intro h
    have htext : text = String.ofList [s.letter] := by rw [← h, String.ofList_toList]
    rw [htext, ofLetter?_singleton, ofChar?_eq_some_iff]

end Shorthand

end PatternLex
