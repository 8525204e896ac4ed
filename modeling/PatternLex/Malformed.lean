import PatternLex.Text.ByteOffset

/-!
# Malformed patterns

What is wrong with a pattern, and where: the pattern, the reason in words, and a byte offset. A
report shows the pattern and puts a caret under the offending character.

Results:

* `bracketPosition_eq`: the opening bracket is found when the class is the tail of its pattern;
* `report?_eq_none_iff`: there is a report unless the caret would stand too far to the right.
-/

namespace PatternLex

open Text

/-- A pattern, what is wrong with it, and the byte offset at which it goes wrong. -/
structure Malformed where
  pattern : String
  reason : String
  position : Nat
  deriving DecidableEq, Repr

namespace Malformed

/-- The position of an error that no place is known for. -/
def unknownPosition : Nat := 0

/-- The reason given for a class that is never closed. -/
def unterminatedReason : String := "Unterminated character class"

/-- The offset of the opening bracket of a class in its pattern, where `source` is everything after
that bracket. The place is unknown where the pattern does not end in a bracket and `source`. -/
def bracketPosition (source pattern : List Char) : Nat :=
  if ('[' :: source).isSuffixOf pattern then byteLength pattern - byteLength ('[' :: source)
  else unknownPosition

/-- The error of a class that is never closed. -/
def unterminated (source : List Char) (pattern : String) : Malformed :=
  ⟨pattern, unterminatedReason, bracketPosition source pattern.toList⟩

/-- What is wrong, in one sentence with the pattern. -/
def message (m : Malformed) : String :=
  "Invalid regular expression: /" ++ m.pattern ++ "/: " ++ m.reason

/-- A hint for the reader, which only some reasons have. -/
def tip? (m : Malformed) : Option String :=
  if m.reason = unterminatedReason then some "did you forget a closing `]`?" else none

/-- The message, with the hint in brackets if there is one. -/
def headline (m : Malformed) : String :=
  match m.tip? with
  | some tip => m.message ++ " (" ++ tip ++ ")"
  | none => m.message

/-- The widest line of dashes and caret that a report can hold. -/
def caretLimit : Nat := 65535

/-- As many dashes as characters stand before the position, and the caret. -/
def caretLine (m : Malformed) : List Char :=
  List.replicate (column m.pattern.toList m.position) '-' ++ ['^']

/-- Headline, pattern and caret on a line each; `none` if the caret line is too wide. -/
def report? (m : Malformed) : Option String :=
  if m.caretLine.length ≤ caretLimit then
    some (m.headline ++ "\n  | " ++ m.pattern ++ "\n  | " ++ String.ofList m.caretLine)
  else none

example : (unterminated ['c'] "é[c").report? =
    some ("Invalid regular expression: /é[c/: Unterminated character class " ++
      "(did you forget a closing `]`?)\n  | é[c\n  | -^") := by decide +kernel

theorem bracketPosition_eq (before source : List Char) :
    bracketPosition source (before ++ '[' :: source) = byteLength before := by
  have htail : ('[' :: source).isSuffixOf (before ++ '[' :: source) = true := by simp
  simp only [bracketPosition, htail, if_true, byteLength_append]
  omega

theorem bracketPosition_eq_unknown {source pattern : List Char}
    (h : ∀ before, pattern ≠ before ++ '[' :: source) :
    bracketPosition source pattern = unknownPosition := by
  have hnot : ¬ ('[' :: source).isSuffixOf pattern = true := by
    rw [List.isSuffixOf_iff_suffix]
    intro hsuffix
    obtain ⟨before, heq⟩ := hsuffix
    exact h before heq.symm
  rw [bracketPosition, if_neg hnot]

theorem report?_eq_none_iff {m : Malformed} :
    m.report? = none ↔ caretLimit ≤ column m.pattern.toList m.position := by
  simp only [report?, caretLine, List.length_append, List.length_replicate, List.length_singleton]
  split <;> simp <;> omega

end Malformed

end PatternLex
