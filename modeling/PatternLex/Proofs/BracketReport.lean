import Mathlib.Data.List.Basic
import PatternLex.Pattern.BracketProbe
import PatternLex.Proofs.ReaderSpec

/-!
# An unterminated class is reported at its bracket

The error of a class that is never closed has a position in bytes, and the report of the error has
a caret in a column of characters. The position is found by a probe of the bytes, the column by a
cut at the position. Both answer to the same first part of the pattern: what stands before the
opening bracket, or nothing at all where the source is not what stands behind one.

Results:

* `exists_position_unterminated`: the part of the pattern that the position is the length of;
* `report?_of_column_lt`: the report, where the caret is not too far to the right;
* `read_error_at_bracket`: position and caret of the error of a reading.
-/

namespace PatternLex

open Text

namespace Malformed

/-- The position is behind the part of the pattern that stands before the bracket. If the pattern is
not a bracket with the source behind it, and anything before, that part is empty. -/
theorem exists_position_unterminated (source pattern : String) :
    ∃ before : String,
      (pattern = before ++ "[" ++ source ∨
        before = "" ∧ ∀ front : String, pattern ≠ front ++ "[" ++ source) ∧
      (unterminated source.toList pattern).position = before.utf8ByteSize := by
  have hprobe : (unterminated source.toList pattern).position =
      (probeBracket? source pattern).getD unknownPosition := bracketPosition_eq_probe source pattern
  rw [hprobe]
  cases h : probeBracket? source pattern with
  | some n =>
    obtain ⟨before, hpattern, hwidth⟩ := probeBracket?_eq_some_iff.1 h
    exact ⟨before, .inl hpattern, hwidth.symm⟩
  | none => exact ⟨"", .inr ⟨rfl, probeBracket?_eq_none_iff.1 h⟩, rfl⟩

theorem column_of_position_eq {m : Malformed} {before rest : String}
    (hpattern : m.pattern = before ++ rest) (hposition : m.position = before.utf8ByteSize) :
    column m.pattern.toList m.position = before.length := by
  rw [hpattern, hposition, String.toList_append, ← byteLength_toList, column_byteLength,
    String.length_toList]

theorem report?_of_column_lt {m : Malformed} (h : column m.pattern.toList m.position < caretLimit) :
    m.report? =
      some (m.headline ++ "\n  | " ++ m.pattern ++ "\n  | " ++ String.ofList m.caretLine) := by
  have hwidth : m.caretLine.length ≤ caretLimit := by
    rw [caretLine, List.length_append, List.length_replicate, List.length_singleton]
    omega
  rw [report?, if_pos hwidth]

end Malformed

namespace CharClass

open Malformed

variable {S : Type} {sets : SetProvider S} {source pattern : String}

/-- **At its bracket.** If a class cannot be read, the error carries the pattern and the reason, and
its position is the one that a probe of the bytes finds. That is the length of what stands before
the bracket where the pattern ends in a bracket and the source, and is zero in all other cases. The
report ends in a line with as many dashes as characters stand there, and a caret; if these are
65535 or more, there is no report. -/
theorem read_error_at_bracket {m : Malformed} (h : read sets source pattern = .error m) :
    m.pattern = pattern ∧ m.reason = "Unterminated character class" ∧
      m.position = (probeBracket? source pattern).getD 0 ∧
      ∃ before : String,
        (pattern = before ++ "[" ++ source ∨
          before = "" ∧ ∀ front : String, pattern ≠ front ++ "[" ++ source) ∧
        m.position = before.utf8ByteSize ∧
        (before.length < 65535 → ∃ front : String, m.report? = some (front ++
          "\n  | " ++ String.ofList (List.replicate before.length '-') ++ "^")) ∧
        (65535 ≤ before.length → m.report? = none) := by
  obtain ⟨-, rfl⟩ := readWith_eq_error_iff.1 h
  obtain ⟨before, hbefore, hposition⟩ := exists_position_unterminated source pattern
  have hpattern : ∃ rest, pattern = before ++ rest := by
    rcases hbefore with heq | ⟨rfl, -⟩
    · exact ⟨"[" ++ source, by rw [heq, String.append_assoc]⟩
    · exact ⟨pattern, String.empty_append.symm⟩
  obtain ⟨rest, hrest⟩ := hpattern
  have hcolumn := column_of_position_eq (m := unterminated source.toList pattern) hrest hposition
  refine ⟨rfl, rfl, bracketPosition_eq_probe source pattern, before, hbefore, hposition, ?_, ?_⟩
  · intro hlt
    have hreport := report?_of_column_lt (hcolumn ▸ hlt)
    rw [caretLine, hcolumn, String.ofList_append, ← String.append_assoc] at hreport
    exact ⟨_, hreport⟩
  · intro hge
    exact report?_eq_none_iff.2 (hcolumn ▸ hge)

/-- Behind a character of two bytes the position is two and the caret stands behind one dash. In a
pattern with a parenthesis in the place of the bracket, the position is zero. -/
theorem read_error_at_bracket_multibyte :
    (∃ m, read .symbolic "cü" "é[cü" = .error m ∧ m.position = 2 ∧
      ∃ front, m.report? = some (front ++ "\n  | " ++ "-" ++ "^")) ∧
    ∃ m, read .symbolic "cü" "é(cü" = .error m ∧ m.position = 0 ∧
      ∃ front, m.report? = some (front ++ "\n  | " ++ "" ++ "^") := by
  have htail : read .symbolic "cü" "é[cü" = .error ⟨"é[cü", unterminatedReason, 2⟩ := by
    decide +kernel
  have hother : read .symbolic "cü" "é(cü" = .error ⟨"é(cü", unterminatedReason, 0⟩ := by
    decide +kernel
  obtain ⟨-, -, -, before, hbefore, hposition, hreport, -⟩ := read_error_at_bracket htail
  obtain ⟨-, -, -, before', -, hposition', hreport', -⟩ := read_error_at_bracket hother
  have hwhole : before = "é" := by
    rcases hbefore with heq | ⟨rfl, -⟩
    · have hsame : "é" ++ "[" ++ "cü" = before ++ "[" ++ "cü" := heq
      rw [String.append_left_inj, String.append_left_inj] at hsame
      exact hsame.symm
    · cases hposition
  have hempty : before' = "" := String.utf8ByteSize_eq_zero_iff.1 hposition'.symm
  subst hwhole hempty
  exact ⟨⟨_, htail, rfl, hreport (by decide)⟩, _, hother, rfl, hreport' (by decide)⟩

end CharClass

end PatternLex
