import PatternLex.Malformed
import PatternLex.Text.Bytes

/-!
# Probing a pattern for the opening bracket

Where the opening bracket of a class stands can be told from bytes alone. If the bytes of the class
end those of the pattern, and one byte is left before them, that byte is looked at. It may well be
the middle of a character, for nothing says yet that a character begins there.

Results:

* `probeBracket?_eq_some_iff`: what the probe finds is a bracket before the class;
* `bracketPosition_eq_probe`: it finds what a comparison of characters finds.
-/

namespace PatternLex.Malformed

open Text

/-- The offset of an opening bracket just before the bytes of the source, if these are the last of
the pattern. -/
def probeBracket? (source pattern : String) : Option Nat :=
  let start := (bytes pattern).length - ((bytes source).length + 1)
  if bytes source <:+ bytes pattern ∧ (bytes source).length + 1 ≤ (bytes pattern).length ∧
      (bytes pattern)[start]? = some '['.toUInt8 then some start
  else none

/-- **What the probe finds.** A byte that looks like the bracket is one, and the pattern is what
stands before it, the bracket, and the source. -/
theorem probeBracket?_eq_some_iff {source pattern : String} {n : Nat} :
    probeBracket? source pattern = some n ↔
      ∃ before : String, pattern = before ++ "[" ++ source ∧ before.utf8ByteSize = n := by
  have hbytes : bytes ("[" ++ source) = '['.toUInt8 :: bytes source := bytes_append "[" source
  have hfound : '['.toUInt8 :: bytes source <:+ bytes pattern ↔
      ∃ before, pattern = before ++ ("[" ++ source) := by
    rw [← hbytes, bytes_suffix_iff]
  rw [cons_suffix_iff] at hfound
  simp only [probeBracket?, String.append_assoc]
  constructor
  · intro h
    split at h
    · rename_i hsplit
      obtain ⟨before, rfl⟩ := hfound.1 hsplit
      rw [bytes_append, hbytes, List.length_append, List.length_cons, Nat.add_sub_cancel,
        Option.some.injEq] at h
      exact ⟨before, rfl, h⟩
    · cases h
  · intro h
    obtain ⟨before, rfl, rfl⟩ := h
    rw [if_pos (hfound.2 ⟨before, rfl⟩), bytes_append, hbytes, List.length_append, List.length_cons,
      Nat.add_sub_cancel, length_bytes]

theorem probeBracket?_eq_none_iff {source pattern : String} :
    probeBracket? source pattern = none ↔ ∀ before : String, pattern ≠ before ++ "[" ++ source := by
  rw [Option.eq_none_iff_forall_ne_some]
  simp only [ne_eq, probeBracket?_eq_some_iff]
  exact ⟨fun h before heq => h _ ⟨before, heq, rfl⟩, fun h n ⟨before, heq, _⟩ => h before heq⟩

theorem bracketPosition_eq_probe (source pattern : String) :
    bracketPosition source.toList pattern.toList =
      (probeBracket? source pattern).getD unknownPosition := by
  cases h : probeBracket? source pattern with
  | some n =>
    obtain ⟨before, rfl, rfl⟩ := probeBracket?_eq_some_iff.1 h
    rw [String.append_assoc, String.toList_append, String.toList_append]
    exact (bracketPosition_eq before.toList source.toList).trans (byteLength_toList before)
  | none =>
    refine bracketPosition_eq_unknown fun before heq => ?_
    refine probeBracket?_eq_none_iff.1 h (String.ofList before) ?_
    rw [← String.toList_inj, heq]
    simp

end PatternLex.Malformed
