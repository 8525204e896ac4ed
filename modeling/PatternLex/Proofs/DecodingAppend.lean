import Mathlib.Data.List.DropRight
import PatternLex.Proofs.BackspaceMarker
import PatternLex.Proofs.LocalDecoding

/-!
# Decoding two texts, one behind the other

An escape takes up to five characters behind its backslash, and a guarded one up to five behind the
second. So a text that has no backslash among its last five characters ends all its escapes by
itself, and what is written behind it is decoded by itself too.

The marker is the one thing that can still stand across the place where the texts meet, for it need
not begin with a backslash; but it comes out as it is however it is cut (`pieces_unmarked`), and in
the cutting without the marker there is a seam.

Results:

* `seam_of_notMem_rtake`: no piece but the marker reaches farther than five characters behind a
  backslash;
* `unescape_append`: the decoding of both texts.
-/

namespace PatternLex

open Piece.Alternative (order unmarked)

variable {a b mid : List Char}

theorem five_le_length_of_suffix (h : '\\' ∉ a.rtake 5) (hmid : '\\' :: mid <:+ a) :
    5 ≤ mid.length := by
  obtain ⟨front, rfl⟩ := hmid
  refine Nat.le_of_not_lt fun hlt => h ?_
  have hkept : (front ++ '\\' :: mid).length - 5 ≤ front.length := by
    simp only [List.length_append, List.length_cons]
    omega
  rw [List.rtake, List.drop_append_of_le_length hkept]
  simp

/-- **How far the pieces reach.** Behind a text with no backslash among its last five characters
there is a seam, but for the marker. -/
theorem seam_of_notMem_rtake (h : '\\' ∉ a.rtake 5) (b : List Char) : Seam unmarked a b := by
  intro cs hcs hne
  obtain ⟨c, mid, rfl⟩ := List.exists_cons_of_ne_nil hne
  by_cases hc : c = '\\'
  · subst hc
    have hlength := five_le_length_of_suffix h hcs
    have hmid : mid ≠ [] := List.ne_nil_of_length_pos (by omega)
    refine Piece.next?_backslash_append hmid fun body hbody =>
      Escape.readBody?_append_of_le_length ?_ b
    rcases hbody with rfl | rfl
    · exact hlength
    · -- the second backslash is none of the last five either
      exact five_le_length_of_suffix h ((List.suffix_cons '\\' _).trans hcs)
  · rw [List.cons_append, Piece.next?_unmarked_of_ne hc, Piece.next?_unmarked_of_ne hc,
      Option.map_none]

/-- **Two texts.** If none of the last five characters of the first text is a backslash, the result
and the events of both are those of the first and behind them those of the second. -/
theorem unescape_append {first : String} (h : '\\' ∉ first.toList.rtake 5) (second : String) :
    unescape (first ++ second) = unescape first ++ unescape second ∧
      Event.ofUnescape (first ++ second) = Event.ofUnescape first ++ Event.ofUnescape second := by
  have hcut := pieces_append_of_seam (seam_of_notMem_rtake h second.toList)
  rw [← String.toList_append] at hcut
  obtain ⟨hresult, hevents⟩ := unescape_of_pieces_unmarked hcut
  rw [hresult, hevents, ← unescape_eq_unmarked, ← ofUnescape_eq_unmarked]
  exact ⟨rfl, rfl⟩

/-- The longest escape just before the place where the texts meet, and a marker across it. -/
theorem unescape_append_across :
    '\\' ∉ "\\\\u0041\\u0041[".toList.rtake 5 ∧
      unescape ("\\\\u0041\\u0041[" ++ "\\b]\\x2A") = "\\\\u0041A[" ++ "\\b]\\*" ∧
      Event.ofUnescape ("\\\\u0041\\u0041[" ++ "\\b]\\x2A") =
        [.escapeDecoded ⟨"\\u0041", 65⟩, .escapeDecoded ⟨"\\x2A", 42⟩] := by
  have hlast : '\\' ∉ "\\\\u0041\\u0041[".toList.rtake 5 := by decide
  have hfirst : unescape "\\\\u0041\\u0041[" = "\\\\u0041A[" := by decide +kernel
  have hsecond : unescape "\\b]\\x2A" = "\\b]\\*" := by decide +kernel
  obtain ⟨hresult, hevents⟩ := unescape_append hlast "\\b]\\x2A"
  rw [hfirst, hsecond] at hresult
  exact ⟨hlast, hresult, hevents.trans (by decide +kernel)⟩

/-- Four characters behind the backslash are not enough. -/
example : unescape ("\\u004" ++ "1") ≠ unescape "\\u004" ++ unescape "1" := by decide +kernel

end PatternLex
