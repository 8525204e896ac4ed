import Mathlib.Data.List.Chain
import PatternLex.Event
import PatternLex.Proofs.PieceSpec

/-!
# Texts made of escapes and plain text

A text put together from spelled escapes and runs of plain text is cut at its seams and nowhere
else, in whatever order they stand. No match of the cutting crosses a seam: a body does not begin
with a backslash, so no escape is guarded by the end of the one before; nor with `b`, so no seam
completes the backspace marker; and a short octal escape is not continued, by the one condition on
the row of items.

Results:

* `pieces_spellAll`: the pieces of the text are the pieces of its items;
* `unescape_spellAll`: every item is resolved on its own, and exactly the escapes of scalar values
  are recorded.
-/

namespace PatternLex

open Text

/-- A run of text in which nothing is escaped. -/
structure PlainText where
  chars : List Char
  nonempty : chars ≠ []
  plain : '\\' ∉ chars

/-- A part of a text: plain, or one escape. -/
inductive Item where
  | text (t : PlainText)
  | escape (e : Escape)

/-- An escape that an octal digit behind it could belong to. -/
def Escape.IsOctal : Escape → Prop
  | octal _ _ _ => True
  | named name => name = .null
  | _ => False

instance : DecidablePred Escape.IsOctal
  | .octal _ _ _ => inferInstanceAs (Decidable True)
  | .named name => inferInstanceAs (Decidable (name = .null))
  | .unicode _ _ _ _ | .hex _ _ | .control _ => inferInstanceAs (Decidable False)

namespace Item

def spelling : Item → List Char
  | text t => t.chars
  | escape e => e.spelling

/-- What becomes of the item: an escape of a Unicode scalar value becomes that character, with a
backslash before it if it is a metacharacter, and all else stays as it is. -/
def resolved : Item → List Char
  | text t => t.chars
  | escape e =>
    if e.value.isValidChar then
      (if Char.ofNat e.value ∈ metacharacters then ['\\'] else []) ++ [Char.ofNat e.value]
    else e.spelling

/-- The record of an escape of a Unicode scalar value. -/
def decoded? : Item → Option Decoded
  | text _ => none
  | escape e =>
    if e.value.isValidChar then some ⟨String.ofList e.spelling, e.value⟩ else none

/-- A text just behind an octal escape or `\0` does not begin with an octal digit. -/
def MayPrecede : Item → Item → Prop
  | escape e, text t => e.IsOctal → ∀ d, t.chars.head? ≠ some (octalDigits.char d)
  | _, _ => True

instance : DecidableRel MayPrecede
  | escape e, text t =>
    inferInstanceAs (Decidable (e.IsOctal → ∀ d, t.chars.head? ≠ some (octalDigits.char d)))
  | text _, _ | escape _, escape _ => inferInstanceAs (Decidable True)

/-- The items, written one after the other. -/
def spellAll (items : List Item) : List Char := items.flatMap spelling

/-- Each two neighbours in the row may stand side by side. -/
def Separated (items : List Item) : Prop := items.IsChain MayPrecede

instance : DecidablePred Separated := fun items =>
  inferInstanceAs (Decidable (items.IsChain MayPrecede))

/-! ## The pieces of an item -/

/-- The pieces that the item is cut into. -/
def pieces : Item → List Piece
  | text t => t.chars.map .plain
  | escape e => [.escape e]

theorem flatMap_output_pieces (item : Item) : item.pieces.flatMap Piece.output = item.resolved := by
  cases item with
  | text t => simp [pieces, resolved, List.flatMap_map, Piece.output, Piece.source]
  | escape e =>
    simp only [pieces, resolved, List.flatMap_cons, List.flatMap_nil, List.append_nil, Piece.output,
      Escape.char?, quoteMeta]
    by_cases hv : e.value.isValidChar
    · simp only [if_pos hv]
      split <;> rfl
    · simp only [if_neg hv]

theorem filterMap_decoded?_pieces (item : Item) :
    item.pieces.filterMap Piece.decoded? = item.decoded?.toList := by
  cases item with
  | text t => simp [pieces, decoded?, Piece.decoded?, List.filterMap_map]
  | escape e =>
    by_cases hv : e.value.isValidChar
    · have hcode : (Char.ofNat e.value).toNat = e.value :=
        Escape.char?_eq_some_iff.1 (by rw [Escape.char?, if_pos hv])
      simp [pieces, decoded?, Piece.decoded?, Escape.char?, hv, hcode]
    · simp [pieces, decoded?, Piece.decoded?, Escape.char?, hv]

/-! ## The seams -/

theorem spellAll_text (t : PlainText) (items : List Item) :
    spellAll (.text t :: items) = t.chars ++ spellAll items := rfl

theorem spellAll_escape (e : Escape) (items : List Item) :
    spellAll (.escape e :: items) = '\\' :: (e.body ++ spellAll items) := rfl

/-- No item begins in a way that completes a backspace marker. -/
theorem spellAll_ne_marker (items : List Item) (after : List Char) :
    spellAll items ≠ '\\' :: 'b' :: ']' :: after := by
  intro h
  cases items with
  | nil => cases h
  | cons item items =>
    cases item with
    | text t =>
      obtain ⟨c, cs, hc⟩ := List.exists_cons_of_ne_nil t.nonempty
      rw [spellAll_text, hc, List.cons_append] at h
      have hback : c = '\\' := (List.cons.inj h).1
      have hmem : '\\' ∈ t.chars := by
        rw [hc, hback]
        exact List.mem_cons_self
      exact t.plain hmem
    | escape e =>
      obtain ⟨c, cs, hc, -, hb⟩ := e.body_head
      rw [spellAll_escape, hc, List.cons_append] at h
      exact hb (List.cons.inj (List.cons.inj h).2).1

theorem not_continues_of_separated {e : Escape} {items : List Item}
    (h : Separated (.escape e :: items)) : ¬ e.Continues (spellAll items) := by
  intro hcont
  obtain ⟨hshort, d, after, heq⟩ := hcont
  have hoctal : e.IsOctal := by
    rcases hshort with rfl | ⟨_, rfl⟩
    · exact rfl
    · exact trivial
  cases items with
  | nil => cases heq
  | cons item items =>
    cases item with
    | text t =>
      obtain ⟨c, cs, hc⟩ := List.exists_cons_of_ne_nil t.nonempty
      rw [spellAll_text, hc, List.cons_append] at heq
      have hd : c = octalDigits.char d := (List.cons.inj heq).1
      have hmay : MayPrecede (.escape e) (.text t) := (List.isChain_cons_cons.1 h).1
      apply hmay hoctal d
      rw [hc, hd]
      rfl
    | escape e' =>
      have hdigit : ∀ d, octalDigits.char d ≠ '\\' := by decide
      rw [spellAll_escape] at heq
      exact hdigit d (List.cons.inj heq).1.symm

end Item

open Item

/-! ## The whole text -/

/-- **The cutting of a row of items.** It is cut at its seams, and within its plain text. -/
theorem pieces_spellAll {items : List Item} (h : Separated items) :
    pieces Piece.Alternative.order (spellAll items) = items.flatMap Item.pieces := by
  induction items with
  | nil => rw [spellAll, List.flatMap_nil, pieces, List.flatMap_nil]
  | cons item items ih =>
    have hrest : Separated items := List.IsChain.tail h
    cases item with
    | text t =>
      have hcut := pieces_append_of_plain t.plain (spellAll_ne_marker items)
      rw [spellAll_text, hcut, ih hrest]
      rfl
    | escape e =>
      have hbody := Escape.readBody?_body_append (not_continues_of_separated h)
      rw [spellAll_escape, pieces_of_next? (Piece.next?_escape hbody), ih hrest]
      rfl

/-- **Items are resolved one by one.** For every row of plain texts and spelled escapes in which no
octal escape is followed by a text that begins with an octal digit, the decoded text is the row of
the resolved items, and the events are those of the escapes of scalar values, in their order. -/
theorem unescape_spellAll (items : List Item) (h : Separated items) :
    unescape (String.ofList (spellAll items)) = String.ofList (items.flatMap Item.resolved) ∧
      Event.ofUnescape (String.ofList (spellAll items)) =
        (items.filterMap Item.decoded?).map .escapeDecoded := by
  have hpieces := pieces_spellAll h
  refine ⟨?_, ?_⟩
  · unfold unescape unescapeWith outputOf
    rw [String.toList_ofList, hpieces, List.flatMap_assoc]
    simp only [Item.flatMap_output_pieces]
  · unfold Event.ofUnescape decodedEscapes decodedWith decodedOf
    rw [String.toList_ofList, hpieces, List.filterMap_flatMap]
    simp only [Item.filterMap_decoded?_pieces]
    rw [List.filterMap_eq_flatMap_toList]

/-- A control escape of a bracket and one of a backslash, a padded octal escape, a surrogate, and a
NUL with a digit near it, side by side. -/
theorem unescape_spellAll_adjacent :
    unescape "[\\c[\\c\\\\052b]\\uD800\\0\\x5D8" = "[\x1b\x1c\\*b]\\uD800\x00\\]8" ∧
      Event.ofUnescape "[\\c[\\c\\\\052b]\\uD800\\0\\x5D8" =
        [.escapeDecoded ⟨"\\c[", 27⟩, .escapeDecoded ⟨"\\c\\", 28⟩, .escapeDecoded ⟨"\\052", 42⟩,
          .escapeDecoded ⟨"\\0", 0⟩, .escapeDecoded ⟨"\\x5D", 93⟩] :=
  unescape_spellAll
    [.text ⟨['['], by decide, by decide⟩, .escape (.control 27), .escape (.control 28),
      .escape (.octal true 5 2), .text ⟨['b', ']'], by decide, by decide⟩,
      .escape (.unicode 13 8 0 0), .escape (.named .null), .escape (.hex 5 13),
      .text ⟨['8'], by decide, by decide⟩]
    (by decide)

end PatternLex
