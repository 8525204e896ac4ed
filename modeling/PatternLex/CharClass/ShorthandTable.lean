import PatternLex.CharClass.Production

/-!
# The lists of the shorthands

The letters of the shorthands can be written down in more than one place: in the pattern that tells
a shorthand from any other escape, in a table from letters to shorthands, and in the texts that
shorthands are shown with. To read a shorthand is then to match the pattern and, after that, to look
the letter up; a letter of the pattern that had no entry in the table would be taken off the text
and leave no token. Here are the three lists and the reading in two stages, and the proof that the
lists hold the same letters, so that what is matched always has its token.

Results:

* `lookup_table`: the table has each letter of a shorthand and no other text;
* `escapeText_eq`: the shown texts have the same letters;
* `matchShorthand?_eq`: a match is a reading, and its token is never missing.
-/

namespace PatternLex

variable {S : Type}

namespace Shorthand

/-- The letters that the pattern of a shorthand admits behind the backslash. -/
def patternLetters : List Char := ['w', 'd', 's', 'W', 'D', 'S']

/-- What each letter stands for. -/
def table : List (String × Shorthand) :=
  [("w", word), ("d", digit), ("s", space), ("W", notWord), ("D", notDigit), ("S", notSpace)]

/-- The text that each shorthand is shown with. -/
def escapeText : Shorthand → String
  | word => "\\w"
  | digit => "\\d"
  | space => "\\s"
  | notWord => "\\W"
  | notDigit => "\\D"
  | notSpace => "\\S"

theorem mem_patternLetters_iff {c : Char} : c ∈ patternLetters ↔ (ofChar? c).isSome := by
  rw [show patternLetters = all.map letter from rfl, List.mem_map, Option.isSome_iff_exists]
  simp only [ofChar?_eq_some_iff, mem_all, true_and]

theorem lookup_table (text : String) : table.lookup text = ofLetter? text := by
  rw [show table = all.map fun s => (String.ofList [s.letter], s) from rfl, ofLetter?]
  induction all with
  | nil => rfl
  | cons s ss ih =>
    rw [List.map_cons, List.find?_cons, List.lookup_cons, ih]
    by_cases h : text.toList = [s.letter]
    · simp [← h]
    · have hne : (text == String.ofList [s.letter]) = false := by
        rw [beq_eq_false_iff_ne]
        intro heq
        exact h (by rw [heq, String.toList_ofList])
      rw [hne, decide_eq_false h]

theorem escapeText_eq (s : Shorthand) : s.escapeText = toString s := by cases s <;> decide

end Shorthand

namespace Production

/-- A shorthand is read in two stages: a backslash and a letter of the pattern are taken off the
text, and then the letter is looked up. Without an entry there is no token. -/
def matchShorthand? (sets : SetProvider S) : List Char → Option (Option (Token S) × List Char)
  | '\\' :: c :: rest =>
    if c ∈ Shorthand.patternLetters then
      some ((Shorthand.table.lookup (String.ofList [c])).map fun s => .set (sets.provide s), rest)
    else none
  | _ => none

/-- What is matched has its token. -/
theorem matchShorthand?_eq (sets : SetProvider S) (cs : List Char) :
    matchShorthand? sets cs = (readShorthand? sets cs).map fun (t, rest) => (some t, rest) := by
  fun_cases readShorthand? sets cs with
  | case1 c rest =>
    simp only [matchShorthand?, Shorthand.lookup_table, Shorthand.ofLetter?_singleton,
      Shorthand.mem_patternLetters_iff]
    cases Shorthand.ofChar? c <;> rfl
  | case2 cs hcs =>
    unfold matchShorthand?
    split
    · rename_i c rest
      exact absurd rfl (hcs c rest)
    · rfl

end Production

end PatternLex
