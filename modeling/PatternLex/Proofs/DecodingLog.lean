import PatternLex.Event

/-!
# What the log tells

The decoded escapes divide a text into strands: each begins with one of them and goes on to the
next, and what stands before the first is the front. Three things are computed along the cutting of
the text, and by the strands they are tied to each other: the text, the result, and the log. Between
two entries of the log everything is copied, and no piece is left out of it but those that are meant
to be kept.

Results:

* `isSurrogate_iff`: the escapes with no character are the surrogates of the four-digit form;
* `exists_strands`: every row of pieces is a front and strands;
* `unescape_strands`: text, result, log and cutting, from one row of strands.
-/

namespace PatternLex

open Text

namespace Escape

/-- Four hexadecimal digits that name a surrogate. -/
def IsSurrogate (e : Escape) : Prop :=
  (∃ d₁ d₂ d₃ d₄, e = unicode d₁ d₂ d₃ d₄) ∧ 0xD800 ≤ e.value ∧ e.value ≤ 0xDFFF

theorem eq_unicode_of_le_value {e : Escape} (h : 0xD800 ≤ e.value) :
    ∃ d₁ d₂ d₃ d₄, e = unicode d₁ d₂ d₃ d₄ := by
  cases e with
  | unicode d₁ d₂ d₃ d₄ => exact ⟨d₁, d₂, d₃, d₄, rfl⟩
  | hex d₁ d₂ =>
    simp only [value, ofDigits, List.foldl_cons, List.foldl_nil] at h
    omega
  | octal padded d₁ d₂ =>
    simp only [value, ofDigits, List.foldl_cons, List.foldl_nil] at h
    omega
  | control symbol =>
    simp only [value] at h
    omega
  | named name => cases name <;> simp [value, ControlName.code] at h

theorem isSurrogate_iff {e : Escape} : e.IsSurrogate ↔ ¬ e.value.isValidChar := by
  have hlt := e.value_lt
  unfold IsSurrogate Nat.isValidChar
  refine ⟨fun h => by omega, fun h => ?_⟩
  have hrange : 0xD800 ≤ e.value ∧ e.value ≤ 0xDFFF := by omega
  exact ⟨eq_unicode_of_le_value hrange.1, hrange⟩

end Escape

namespace Piece

/-- A piece that is copied: a character that starts nothing, the marker, an escape behind one more
backslash, or the escape of a surrogate. -/
def Kept : Piece → Prop
  | plain _ | marker | guarded _ => True
  | escape e => e.IsSurrogate

theorem Kept.decoded?_eq_none {p : Piece} (h : p.Kept) : p.decoded? = none := by
  cases p with
  | escape e => exact decoded?_escape_none (if_neg (Escape.isSurrogate_iff.1 h))
  | _ => rfl

end Piece

theorem decodedOf_of_kept {ps : List Piece} (h : ∀ p ∈ ps, p.Kept) : decodedOf ps = [] := by
  rw [decodedOf, List.filterMap_eq_nil_iff]
  exact fun p hp => (h p hp).decoded?_eq_none

theorem outputOf_of_kept {ps : List Piece} (h : ∀ p ∈ ps, p.Kept) :
    outputOf ps = ps.flatMap Piece.source :=
  outputOf_eq_of_decodedOf_eq_nil (decodedOf_of_kept h)

/-! ## Strands -/

/-- A decoded escape, and the pieces behind it up to the next one. -/
structure Strand where
  escape : Escape
  scalar : escape.value.isValidChar
  gap : List Piece
  kept : ∀ p ∈ gap, p.Kept

namespace Strand

def pieces (s : Strand) : List Piece := .escape s.escape :: s.gap

/-- The text of the strand. -/
def source (s : Strand) : List Char := s.escape.spelling ++ s.gap.flatMap Piece.source

/-- What becomes of the strand: the character, with a backslash before it if it is a metacharacter,
and the gap as it is. -/
def result (s : Strand) : List Char :=
  (if Char.ofNat s.escape.value ∈ metacharacters then ['\\'] else []) ++
    Char.ofNat s.escape.value :: s.gap.flatMap Piece.source

/-- The entry in the log. -/
def record (s : Strand) : Decoded := ⟨String.ofList s.escape.spelling, s.escape.value⟩

theorem char?_escape (s : Strand) : s.escape.char? = some (Char.ofNat s.escape.value) :=
  if_pos s.scalar

theorem flatMap_source_pieces (s : Strand) : s.pieces.flatMap Piece.source = s.source := rfl

theorem outputOf_pieces (s : Strand) : outputOf s.pieces = s.result := by
  have hgap := outputOf_of_kept s.kept
  unfold outputOf at hgap ⊢
  rw [pieces, List.flatMap_cons, hgap, Piece.output_escape s.char?_escape, quoteMeta, result]
  split <;> rfl

theorem decodedOf_pieces (s : Strand) : decodedOf s.pieces = [s.record] := by
  have hgap := decodedOf_of_kept s.kept
  have hcode := Escape.char?_eq_some_iff.1 s.char?_escape
  have hrecord := Piece.decoded?_escape s.char?_escape
  rw [hcode] at hrecord
  unfold decodedOf at hgap ⊢
  rw [pieces, List.filterMap_cons_some hrecord, hgap]
  rfl

end Strand

theorem exists_strands (ps : List Piece) :
    ∃ (front : List Piece) (strands : List Strand),
      (∀ p ∈ front, p.Kept) ∧ ps = front ++ strands.flatMap Strand.pieces := by
  induction ps with
  | nil => exact ⟨[], [], by simp, rfl⟩
  | cons p ps ih =>
    obtain ⟨front, strands, hfront, rfl⟩ := ih
    by_cases hp : p.Kept
    · exact ⟨p :: front, strands, List.forall_mem_cons.2 ⟨hp, hfront⟩, rfl⟩
    · cases p with
      | escape e =>
        have hscalar : e.value.isValidChar :=
          Classical.not_not.1 (mt Escape.isSurrogate_iff.2 hp)
        exact ⟨[], ⟨e, hscalar, front, hfront⟩ :: strands, by simp, rfl⟩
      | plain c => exact absurd trivial hp
      | marker => exact absurd trivial hp
      | guarded e => exact absurd trivial hp

/-- **The log is faithful.** Every text is a front and strands, so that the entries of the log are
those of the strands, in their order; the result is the text but for the escapes of the strands,
each of which has become its character; and all that the cutting finds besides those escapes is of a
kind that is copied. -/
theorem unescape_strands (text : String) :
    ∃ (front : List Piece) (strands : List Strand),
      (∀ p ∈ front, p.Kept) ∧
      pieces Piece.Alternative.order text.toList = front ++ strands.flatMap Strand.pieces ∧
      Event.ofUnescape text = strands.map (fun s => .escapeDecoded s.record) ∧
      text.toList = front.flatMap Piece.source ++ strands.flatMap Strand.source ∧
      (unescape text).toList = front.flatMap Piece.source ++ strands.flatMap Strand.result := by
  obtain ⟨front, strands, hfront, hcut⟩ :=
    exists_strands (pieces Piece.Alternative.order text.toList)
  refine ⟨front, strands, hfront, hcut, ?_, ?_, ?_⟩
  · unfold Event.ofUnescape decodedEscapes decodedWith
    rw [hcut, decodedOf_append, decodedOf_of_kept hfront, List.nil_append, decodedOf,
      List.filterMap_flatMap]
    have hrecord : ∀ s : Strand, s.pieces.filterMap Piece.decoded? = [s.record] :=
      Strand.decodedOf_pieces
    simp only [hrecord]
    rw [← List.map_eq_flatMap, List.map_map]
    rfl
  · rw [← flatMap_source_pieces Piece.Alternative.order text.toList, hcut, List.flatMap_append,
      List.flatMap_assoc]
    have hsource : ∀ s : Strand, s.pieces.flatMap Piece.source = s.source :=
      Strand.flatMap_source_pieces
    simp only [hsource]
  · unfold unescape unescapeWith
    rw [String.toList_ofList, hcut, outputOf_append, outputOf_of_kept hfront, outputOf,
      List.flatMap_assoc]
    have hresult : ∀ s : Strand, s.pieces.flatMap Piece.output = s.result :=
      Strand.outputOf_pieces
    simp only [hresult]

end PatternLex
