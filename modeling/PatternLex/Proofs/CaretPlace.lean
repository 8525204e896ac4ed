import PatternLex.Proofs.BracketReport

/-!
# What stands over the caret

A report is read as a page: the pattern in one line, the caret in the line below, and the reader
looks up from the caret to the character that it points at. That works for a pattern in one line,
since the two lines have the same margin and the column counts the characters before the position.

A pattern with a line break in it is more than one line of the page. The column still counts from
the beginning of the pattern, and the caret stands below the last line, which has no margin. So the
caret points at a later character of the last line, or at nothing.

Results:

* `charOverCaret?_eq_getElem?_lastLine`: the character over a caret, by the text that stands above;
* `getElem?_lastLine_margin`: the place in the pattern of what stands in a column of its last line;
* `report_caret_under_caretPlace`: where the caret of a report stands;
* `not_caretUnderCharacter_behind_line_break`: a caret with nothing over it.
-/

namespace PatternLex

open Text

namespace Malformed

/-! ## The page -/

/-- What stands behind the last line break. -/
def lastLine (cs : List Char) : List Char :=
  (cs.splitOn '\n').getLast (List.splitOn_ne_nil '\n' cs)

/-- The number of characters up to the last line break and with it. -/
def lastLineStart (cs : List Char) : Nat := cs.length - (lastLine cs).length

/-- The character in the line above the last one, in the column of the last line's caret. -/
def charOverCaret? (report : String) : Option Char :=
  match (report.toList.splitOn '\n').reverse with
  | last :: above :: _ => above[last.idxOf '^']?
  | _ => none

/-- The place in the pattern that the caret stands under, if `n` characters stand before the
position. -/
def caretPlace (pattern : List Char) (n : Nat) : Nat :=
  if '\n' ∈ pattern then lastLineStart pattern + ("  | ".length + n) else n

/-- The caret stands under the character at the position, whatever the pattern is. -/
def CaretUnderCharacter : Prop :=
  ∀ (m : Malformed) (before after : List Char) (c : Char),
    m.pattern.toList = before ++ c :: after → m.position = byteLength before →
    before.length < 65535 → ∃ report, m.report? = some report ∧ charOverCaret? report = some c

/-! ## The last line -/

variable {cs front caret : List Char} {report : String}

theorem getLast?_splitOn (cs : List Char) : (cs.splitOn '\n').getLast? = some (lastLine cs) :=
  List.getLast?_eq_some_getLast _

theorem lastLine_eq_self (h : '\n' ∉ cs) : lastLine cs = cs := by
  have hlast := getLast?_splitOn cs
  rw [List.splitOn_eq_singleton h] at hlast
  exact (Option.some.inj hlast).symm

theorem lastLine_append (front cs : List Char) : lastLine (front ++ '\n' :: cs) = lastLine cs := by
  have hlast := getLast?_splitOn (front ++ '\n' :: cs)
  rw [List.splitOn_append_cons_self, List.getLast?_append_of_ne_nil _ (List.splitOn_ne_nil _ _),
    getLast?_splitOn] at hlast
  exact (Option.some.inj hlast).symm

theorem lastLine_suffix (cs : List Char) : lastLine cs <:+ cs := by
  by_cases h : '\n' ∈ cs
  · obtain ⟨front, last, hcs⟩ := List.append_of_mem h
    have hshort : last.length < cs.length := by
      rw [hcs, List.length_append, List.length_cons]
      omega
    rw [hcs, lastLine_append]
    exact (lastLine_suffix last).trans ⟨front ++ ['\n'], (List.append_cons _ _ _).symm⟩
  · exact (lastLine_eq_self h).symm ▸ List.suffix_rfl
termination_by cs.length

theorem getElem?_lastLine (cs : List Char) (n : Nat) :
    (lastLine cs)[n]? = cs[lastLineStart cs + n]? := by
  obtain ⟨front, hfront⟩ := lastLine_suffix cs
  have hstart : lastLineStart cs = front.length := by
    rw [lastLineStart, ← congrArg List.length hfront, List.length_append]
    omega
  rw [hstart, ← congrArg (fun xs => xs[front.length + n]?) hfront,
    List.getElem?_append_right (Nat.le_add_right _ _), Nat.add_sub_cancel_left]

/-- The margin moves a text in one line to the right; of more lines it moves only the first. -/
theorem getElem?_lastLine_margin (cs : List Char) (n : Nat) :
    (lastLine ("  | ".toList ++ cs))["  | ".length + n]? = cs[caretPlace cs n]? := by
  by_cases h : '\n' ∈ cs
  · obtain ⟨front, last, hcs⟩ := List.append_of_mem h
    rw [caretPlace, if_pos h, ← getElem?_lastLine, hcs, ← List.append_assoc, lastLine_append,
      lastLine_append]
  · have hshown : '\n' ∉ "  | ".toList ++ cs := by
      rw [List.mem_append, not_or]
      exact ⟨by decide, h⟩
    rw [caretPlace, if_neg h, lastLine_eq_self hshown, ← String.length_toList,
      List.getElem?_append_right (Nat.le_add_right _ _), Nat.add_sub_cancel_left]

theorem caretPlace_of_notMem (h : '\n' ∉ cs) (n : Nat) : caretPlace cs n = n := if_neg h

theorem lt_caretPlace (h : '\n' ∈ cs) (n : Nat) : n < caretPlace cs n := by
  have hmargin : "  | ".length = 4 := by decide
  rw [caretPlace, if_pos h]
  omega

/-! ## The report -/

theorem charOverCaret?_eq_getElem?_lastLine (hreport : report.toList = front ++ '\n' :: caret)
    (hcaret : '\n' ∉ caret) : charOverCaret? report = (lastLine front)[caret.idxOf '^']? := by
  have hfront : front.splitOn '\n' = (front.splitOn '\n').dropLast ++ [lastLine front] :=
    (List.dropLast_concat_getLast _).symm
  rw [charOverCaret?, hreport, List.splitOn_append_cons_self, List.splitOn_eq_singleton hcaret,
    hfront, List.reverse_append, List.reverse_append]
  rfl

theorem idxOf_margin_caretLine (m : Malformed) :
    ("  | ".toList ++ m.caretLine).idxOf '^' =
      "  | ".length + column m.pattern.toList m.position := by
  have hdash : '^' ∉ List.replicate (column m.pattern.toList m.position) '-' := by
    rw [List.mem_replicate]
    exact fun h => absurd h.2 (by decide)
  rw [List.idxOf_append_of_notMem (by decide), caretLine, List.idxOf_append_of_notMem hdash,
    List.length_replicate, List.idxOf_cons_self, String.length_toList, Nat.add_zero]

theorem notMem_margin_caretLine (m : Malformed) : '\n' ∉ "  | ".toList ++ m.caretLine := by
  rw [List.mem_append, caretLine, List.mem_append, List.mem_replicate]
  simp

theorem charOverCaret?_of_report? {m : Malformed} (h : m.report? = some report) :
    charOverCaret? report = m.pattern.toList[
      caretPlace m.pattern.toList (column m.pattern.toList m.position)]? := by
  have hwidth : column m.pattern.toList m.position < caretLimit := by
    rw [← Nat.not_le, ← report?_eq_none_iff, h]
    exact Option.some_ne_none report
  have hreport : report.toList =
      (m.headline.toList ++ '\n' :: ("  | ".toList ++ m.pattern.toList)) ++
        '\n' :: ("  | ".toList ++ m.caretLine) := by
    rw [report?_of_column_lt hwidth] at h
    rw [← Option.some.inj h]
    simp
  rw [charOverCaret?_eq_getElem?_lastLine hreport (notMem_margin_caretLine m),
    idxOf_margin_caretLine, lastLine_append, getElem?_lastLine_margin]

variable {m : Malformed} {before after : List Char} {c : Char}

/-- **Where the caret stands.** If fewer than 65535 characters stand before the position, there is a
report, and what stands over its caret is the character of the pattern at `caretPlace`, or nothing
if the pattern ends before that. In a pattern without a line break it is the character at the
position, and in any other pattern a later place. -/
theorem report_caret_under_caretPlace (hpattern : m.pattern.toList = before ++ c :: after)
    (hposition : m.position = byteLength before) (hwidth : before.length < 65535) :
    ∃ report, m.report? = some report ∧
      charOverCaret? report = m.pattern.toList[caretPlace m.pattern.toList before.length]? ∧
      ('\n' ∉ m.pattern.toList → charOverCaret? report = some c) ∧
      ('\n' ∈ m.pattern.toList → before.length < caretPlace m.pattern.toList before.length) := by
  have hcolumn : column m.pattern.toList m.position = before.length := by
    rw [hpattern, hposition, column_byteLength]
  have hreport := report?_of_column_lt (hcolumn ▸ hwidth)
  have hover := charOverCaret?_of_report? hreport
  rw [hcolumn] at hover
  refine ⟨_, hreport, hover, fun h => ?_, fun h => lt_caretPlace h _⟩
  rw [hover, caretPlace_of_notMem h, hpattern, List.getElem?_append_right (Nat.le_refl _),
    Nat.sub_self]
  rfl

/-- Behind two characters of two bytes the caret stands under the bracket. With the bracket in a
second line, it stands under the sixth character behind the bracket. -/
theorem report_caret_under_caretPlace_two_lines :
    (∃ report, (⟨"éé[x", unterminatedReason, 4⟩ : Malformed).report? = some report ∧
      charOverCaret? report = some '[') ∧
    ∃ report, (⟨"a\n[bcdefg", unterminatedReason, 2⟩ : Malformed).report? = some report ∧
      charOverCaret? report = some 'g' := by
  have hone : (⟨"éé[x", unterminatedReason, 4⟩ : Malformed).pattern.toList =
      ['é', 'é'] ++ '[' :: ['x'] := by decide
  have htwo : (⟨"a\n[bcdefg", unterminatedReason, 2⟩ : Malformed).pattern.toList =
      ['a', '\n'] ++ '[' :: ['b', 'c', 'd', 'e', 'f', 'g'] := by decide
  obtain ⟨report, hreport, -, hover, -⟩ :=
    report_caret_under_caretPlace hone (by decide) (by decide)
  obtain ⟨report', hreport', hover', -⟩ :=
    report_caret_under_caretPlace htwo (by decide) (by decide)
  exact ⟨⟨report, hreport, hover (by decide)⟩, report', hreport', hover'.trans (by decide +kernel)⟩

/-- Behind a line break the caret is farther to the right than its line of the pattern goes. -/
theorem not_caretUnderCharacter_behind_line_break : ¬ CaretUnderCharacter := by
  intro h
  obtain ⟨report, hreport, hover⟩ :=
    h ⟨"a\n[b", unterminatedReason, 2⟩ ['a', '\n'] ['b'] '[' (by decide) (by decide) (by decide)
  have hpage : (⟨"a\n[b", unterminatedReason, 2⟩ : Malformed).report? =
      some ("Invalid regular expression: /a\n[b/: Unterminated character class " ++
        "(did you forget a closing `]`?)\n  | a\n[b\n  | --^") := by decide +kernel
  rw [hpage] at hreport
  rw [← Option.some.inj hreport] at hover
  exact absurd hover (by decide +kernel)

end Malformed

end PatternLex
