import Mathlib.Logic.Function.Iterate
import PatternLex.Event
import PatternLex.Text.ByteOffset

/-!
# How long the result is

A decoded escape gives back fewer bytes than it takes, whatever its form. The tight case is an octal
escape without padding: three bytes, and a metacharacter comes back with its backslash in two. The
most that is saved is five bytes, by an escape of four digits whose character is a single byte. The
rest of the text keeps its length, so the log says how much shorter the result can be; and a text
that is decoded again and again grows shorter until nothing in it is decoded any more.

Results:

* `byteLength_spelling_bounds`: one escape and its character;
* `byteLength_output_bounds`, `byteLength_outputOf_bounds`: a piece and a row of pieces;
* `exists_iterate_unescape_fixed`: repeated decoding comes to a text that stays;
* `unescape_shrinks`: both, of the whole text.
-/

namespace PatternLex

open Text

/-! ## The widths of characters -/

theorem utf8Size_bounds (c : Char) :
    1 ≤ c.utf8Size ∧ (c.toNat < 0x80 → c.utf8Size = 1) ∧ (c.toNat < 0x800 → c.utf8Size ≤ 2) ∧
      (c.toNat < 0x10000 → c.utf8Size ≤ 3) := by
  have hwidth : c.utf8Size =
      if c.toNat ≤ 127 then 1 else if c.toNat ≤ 2047 then 2 else if c.toNat ≤ 65535 then 3 else 4 :=
    rfl
  split at hwidth
  · omega
  split at hwidth
  · omega
  split at hwidth <;> omega

theorem byteLength_map_char {n : Nat} {a : Alphabet n} (h : ∀ i, (a.char i).utf8Size = 1)
    (digits : List (Fin n)) : byteLength (digits.map a.char) = digits.length := by
  induction digits with
  | nil => rfl
  | cons d digits ih =>
    rw [List.map_cons, byteLength_cons, h, ih, List.length_cons, Nat.add_comm]

theorem toNat_of_mem_metacharacters {c : Char} (h : c ∈ metacharacters) :
    0x20 ≤ c.toNat ∧ c.toNat < 0x80 := by
  have hall : metacharacters.all (fun c => 0x20 ≤ c.toNat ∧ c.toNat < 0x80) = true := by decide
  exact of_decide_eq_true (List.all_eq_true.1 hall c h)

theorem byteLength_quoteMeta (c : Char) :
    byteLength (quoteMeta c) = c.utf8Size ∨
      (byteLength (quoteMeta c) = 2 ∧ 0x20 ≤ c.toNat ∧ c.toNat < 0x80) := by
  unfold quoteMeta
  split
  · rename_i hmeta
    have hcode := toNat_of_mem_metacharacters hmeta
    have hwidth : byteLength ['\\', c] = 1 + c.utf8Size := rfl
    have hbounds := utf8Size_bounds c
    exact .inr ⟨by omega, hcode⟩
  · exact .inl rfl

/-! ## One escape -/

theorem Escape.byteLength_spelling_and_value_lt (e : Escape) :
    (byteLength e.spelling = 6 ∧ e.value < 0x10000) ∨
      (byteLength e.spelling = 4 ∧ e.value < 0x100) ∨
      (byteLength e.spelling = 3 ∧ e.value < 0x40) ∨
      (byteLength e.spelling = 2 ∧ e.value < 0x20) := by
  have hhex := byteLength_map_char (a := upperHexDigits) (by decide)
  have hoctal := byteLength_map_char (a := octalDigits) (by decide)
  cases e with
  | unicode d₁ d₂ d₃ d₄ =>
    refine .inl ⟨?_, value_lt _⟩
    rw [spelling, body, byteLength_cons, byteLength_cons, hhex]
    rfl
  | hex d₁ d₂ =>
    refine .inr (.inl ⟨?_, ?_⟩)
    · rw [spelling, body, byteLength_cons, byteLength_cons, hhex]
      rfl
    · simp only [value, ofDigits, List.foldl_cons, List.foldl_nil]
      omega
  | octal padded d₁ d₂ =>
    have hvalue : (octal padded d₁ d₂).value < 0x40 := by
      simp only [value, ofDigits, List.foldl_cons, List.foldl_nil]
      omega
    cases padded with
    | true =>
      refine .inr (.inl ⟨?_, by omega⟩)
      rw [spelling, body, byteLength_cons, byteLength_cons, hoctal]
      rfl
    | false =>
      refine .inr (.inr (.inl ⟨?_, hvalue⟩))
      rw [spelling, body, byteLength_cons, hoctal]
      rfl
  | control symbol =>
    have hsymbol : ∀ i, (controlSymbols.char i).utf8Size = 1 := by decide
    refine .inr (.inr (.inl ⟨?_, Nat.lt_trans symbol.isLt (by decide)⟩))
    rw [spelling, body, byteLength_cons, byteLength_cons, byteLength_cons, hsymbol]
    rfl
  | named name => exact .inr (.inr (.inr (by cases name <;> decide)))

/-- **One escape.** A decoded escape takes one to five bytes more than what it becomes. -/
theorem byteLength_spelling_bounds {e : Escape} {c : Char} (h : e.char? = some c) :
    byteLength (quoteMeta c) + 1 ≤ byteLength e.spelling ∧
      byteLength e.spelling ≤ byteLength (quoteMeta c) + 5 := by
  have hvalue := Escape.char?_eq_some_iff.1 h
  have hform := e.byteLength_spelling_and_value_lt
  have hwidth := utf8Size_bounds c
  rw [← hvalue] at hform
  rcases byteLength_quoteMeta c with hquote | hquote <;> omega

/-! ## Pieces -/

theorem Piece.byteLength_output_bounds (p : Piece) :
    byteLength p.output + p.decoded?.toList.length ≤ byteLength p.source ∧
      byteLength p.source ≤ byteLength p.output + 5 * p.decoded?.toList.length := by
  cases hdecoded : p.decoded? with
  | none =>
    rw [output_eq_source_of_decoded? hdecoded]
    exact ⟨Nat.le_refl _, Nat.le_refl _⟩
  | some d =>
    cases p with
    | escape e =>
      cases hchar : e.char? with
      | none =>
        rw [decoded?_escape_none hchar] at hdecoded
        cases hdecoded
      | some c =>
        rw [output_escape hchar]
        exact byteLength_spelling_bounds hchar
    | plain c => cases hdecoded
    | marker => cases hdecoded
    | guarded e => cases hdecoded

/-- **A row of pieces.** What it becomes is shorter than what it takes by one to five bytes for each
decoded escape. -/
theorem byteLength_outputOf_bounds (ps : List Piece) :
    byteLength (outputOf ps) + (decodedOf ps).length ≤ byteLength (ps.flatMap Piece.source) ∧
      byteLength (ps.flatMap Piece.source) ≤
        byteLength (outputOf ps) + 5 * (decodedOf ps).length := by
  induction ps with
  | nil => exact ⟨Nat.le_refl _, Nat.le_refl _⟩
  | cons p ps ih =>
    have hp := p.byteLength_output_bounds
    have hdecoded : decodedOf (p :: ps) = p.decoded?.toList ++ decodedOf ps := by
      cases h : p.decoded? <;> simp [decodedOf, h]
    have houtput : outputOf (p :: ps) = p.output ++ outputOf ps := List.flatMap_cons
    rw [houtput, hdecoded, List.flatMap_cons, byteLength_append, byteLength_append,
      List.length_append]
    omega

theorem utf8ByteSize_unescape_bounds (text : String) :
    (unescape text).utf8ByteSize + (decodedEscapes text).length ≤ text.utf8ByteSize ∧
      text.utf8ByteSize ≤ (unescape text).utf8ByteSize + 5 * (decodedEscapes text).length := by
  have h := byteLength_outputOf_bounds (pieces Piece.Alternative.order text.toList)
  rw [flatMap_source_pieces, byteLength_toList] at h
  rw [unescape, unescapeWith, byteLength_ofList]
  exact h

/-! ## Decoding again and again -/

theorem unescape_eq_self_iff {text : String} : unescape text = text ↔ decodedEscapes text = [] := by
  refine ⟨fun h => ?_, unescape_eq_of_decodedEscapes_eq_nil⟩
  have hsize := (utf8ByteSize_unescape_bounds text).1
  rw [h] at hsize
  exact List.length_eq_zero_iff.1 (by omega)

theorem exists_iterate_unescape_fixed (text : String) :
    ∃ n ≤ text.utf8ByteSize, unescape (unescape^[n] text) = unescape^[n] text := by
  induction hsize : text.utf8ByteSize using Nat.strongRecOn generalizing text with
  | ind size ih =>
    by_cases hfixed : unescape text = text
    · exact ⟨0, Nat.zero_le _, hfixed⟩
    · -- every step that changes the text makes it shorter
      have hdecoded : 0 < (decodedEscapes text).length :=
        List.length_pos_iff.2 (mt unescape_eq_self_iff.2 hfixed)
      have hbounds := (utf8ByteSize_unescape_bounds text).1
      obtain ⟨n, hn, hlast⟩ := ih _ (by omega) (unescape text) rfl
      exact ⟨n + 1, by omega, hlast⟩

/-- **The result is shorter, and in the end it stays.** For every text, the result takes at least
one and at most five bytes less than the text for each event, so that it is the text itself exactly
if there is no event. If the text is decoded again and again, the result is the same from some step
on, which comes no later than the text has bytes. -/
theorem unescape_shrinks (text : String) :
    (unescape text).utf8ByteSize + (Event.ofUnescape text).length ≤ text.utf8ByteSize ∧
      text.utf8ByteSize ≤ (unescape text).utf8ByteSize + 5 * (Event.ofUnescape text).length ∧
      (unescape text = text ↔ Event.ofUnescape text = []) ∧
      ∃ n ≤ text.utf8ByteSize, ∀ m, n ≤ m → unescape^[m] text = unescape^[n] text := by
  obtain ⟨hlow, hhigh⟩ := utf8ByteSize_unescape_bounds text
  have hlength : (Event.ofUnescape text).length = (decodedEscapes text).length :=
    List.length_map _
  refine ⟨by omega, by omega, ?_, ?_⟩
  · rw [unescape_eq_self_iff, Event.ofUnescape, List.map_eq_nil_iff]
  · obtain ⟨n, hn, hfixed⟩ := exists_iterate_unescape_fixed text
    refine ⟨n, hn, fun m hm => ?_⟩
    obtain ⟨k, rfl⟩ := Nat.exists_eq_add_of_le' hm
    rw [Function.iterate_add_apply, Function.iterate_fixed hfixed]

/-- Three bytes and six bytes become two and one. -/
example : unescape "\\52\\u0041" = "\\*A" := by decide +kernel

/-- Each decoding completes the escape that the next one decodes. -/
example : unescape^[2] "\\x5Cx5Cn" = "\\n" ∧ unescape^[3] "\\x5Cx5Cn" = "\n" := by decide +kernel

end PatternLex
