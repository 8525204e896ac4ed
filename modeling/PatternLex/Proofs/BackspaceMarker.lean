import Mathlib.Data.List.Basic
import PatternLex.Event
import PatternLex.Proofs.BodySpec

/-!
# The backspace marker

The marker is looked for at every place, before the escapes. It need not be. Where it stands, no
other piece is found at its bracket, nor at its backslash, which a `b` follows; so a cutting that
does not know the marker takes its four characters one by one, and comes to the same place behind
it. What comes out is the same text and the same log.

The marker is not protected by being looked for either. Its bracket may be taken before its turn, as
the symbol of a control escape, and if that is decoded, the bracket is gone. Everywhere else the
marker comes out as it is.

Results:

* `pieces_unmarked`: the cutting without the marker takes the markers apart and is the same
  otherwise;
* `outputOf_pieces_unmarked`, `decodedOf_pieces_unmarked`: what comes out is the same;
* `cutsAtBracket`: a bracket that is no symbol of a decoded escape cuts the text;
* `unescape_without_marker`: the decoding without the marker, and the fate of a marker.
-/

namespace PatternLex

open Text

/-- The alternatives without the marker, in their order. -/
def Piece.Alternative.unmarked : List Piece.Alternative := [.guarded, .single]

open Piece.Alternative (order unmarked)

namespace Piece

/-- The pieces in place of a piece where the marker is not looked for. -/
def unmark : Piece → List Piece
  | marker => [plain '[', plain '\\', plain 'b', plain ']']
  | p => [p]

@[simp] theorem flatMap_source_unmark (p : Piece) : p.unmark.flatMap source = p.source := by
  cases p <;> simp [unmark, source]

@[simp] theorem flatMap_output_unmark (p : Piece) : p.unmark.flatMap output = p.output := by
  cases p <;> simp [unmark, output, source]

@[simp] theorem filterMap_decoded?_unmark (p : Piece) :
    p.unmark.filterMap decoded? = p.decoded?.toList := by
  cases p with
  | marker => rfl
  | plain c => rfl
  | guarded e => rfl
  | escape e => cases h : (escape e).decoded? <;> simp [unmark, h]

/-! ## One step -/

theorem next?_unmarked_backslash (cs : List Char) :
    next? unmarked ('\\' :: cs) = next? order ('\\' :: cs) := rfl

theorem next?_unmarked_of_ne {c : Char} (hc : c ≠ '\\') (cs : List Char) :
    next? unmarked (c :: cs) = none := by
  simp [next?, unmarked, Alternative.read?, hc]

end Piece

/-! ## The cutting -/

theorem pieces_unmarked_cons {c : Char} (hc : c ≠ '\\') (cs : List Char) :
    pieces unmarked (c :: cs) = .plain c :: pieces unmarked cs :=
  pieces_of_next?_none (Piece.next?_unmarked_of_ne hc cs)

/-- Behind the bracket of a marker nothing is found until the marker ends. -/
theorem pieces_unmarked_backspace (rest : List Char) :
    pieces unmarked ('\\' :: 'b' :: ']' :: rest) =
      .plain '\\' :: .plain 'b' :: .plain ']' :: pieces unmarked rest := by
  have hback : Piece.next? unmarked ('\\' :: 'b' :: ']' :: rest) = none := by
    rw [Piece.next?_unmarked_backslash, Piece.next?_lone (by simp), Escape.readBody?_b,
      Option.map_none]
  rw [pieces_of_next?_none hback, pieces_unmarked_cons (by decide),
    pieces_unmarked_cons (by decide)]

/-- **The cutting without the marker.** It takes the markers apart and is the same otherwise. -/
theorem pieces_unmarked (cs : List Char) :
    pieces unmarked cs = (pieces order cs).flatMap Piece.unmark := by
  fun_induction pieces order cs with
  | case1 => rw [pieces, List.flatMap_nil]
  | case2 c cs p rest found ih =>
    rw [List.flatMap_cons, ← ih]
    rcases Piece.next?_order_eq_some_iff.1 found with
      ⟨rfl, heq⟩ | ⟨e, mid, rfl, heq, -⟩ | ⟨e, mid, rfl, heq, -⟩
    · rw [heq, pieces_unmarked_cons (by decide), pieces_unmarked_backspace]
      rfl
    · rw [heq] at found ⊢
      exact pieces_of_next? found
    · rw [heq] at found ⊢
      exact pieces_of_next? found
  | case3 c cs found ih =>
    rw [List.flatMap_cons, ← ih]
    by_cases hc : c = '\\'
    · rw [hc] at found ⊢
      exact pieces_of_next?_none found
    · exact pieces_unmarked_cons hc cs

theorem outputOf_pieces_unmarked (cs : List Char) :
    outputOf (pieces unmarked cs) = outputOf (pieces order cs) := by
  simp only [pieces_unmarked, outputOf, List.flatMap_assoc, Piece.flatMap_output_unmark]

theorem decodedOf_pieces_unmarked (cs : List Char) :
    decodedOf (pieces unmarked cs) = decodedOf (pieces order cs) := by
  rw [pieces_unmarked, decodedOf, List.filterMap_flatMap]
  simp only [Piece.filterMap_decoded?_unmark]
  rw [← List.filterMap_eq_flatMap_toList, decodedOf]

theorem unescape_eq_unmarked (text : String) :
    unescape text = String.ofList (outputOf (pieces unmarked text.toList)) := by
  rw [outputOf_pieces_unmarked, unescape, unescapeWith]

theorem ofUnescape_eq_unmarked (text : String) :
    Event.ofUnescape text = (decodedOf (pieces unmarked text.toList)).map .escapeDecoded := by
  rw [decodedOf_pieces_unmarked, Event.ofUnescape, decodedEscapes, decodedWith]

theorem unescape_of_pieces_unmarked {text behind : String} {ps : List Piece}
    (h : pieces unmarked text.toList = ps ++ pieces unmarked behind.toList) :
    unescape text = String.ofList (outputOf ps) ++ unescape behind ∧
      Event.ofUnescape text = (decodedOf ps).map .escapeDecoded ++ Event.ofUnescape behind := by
  rw [unescape_eq_unmarked, unescape_eq_unmarked, ofUnescape_eq_unmarked, ofUnescape_eq_unmarked,
    h, outputOf_append, String.ofList_append, decodedOf_append, List.map_append]
  exact ⟨rfl, rfl⟩

/-- A character that is no backslash is copied, be it the bracket of a marker or not. -/
theorem outputOf_pieces_cons {c : Char} (hc : c ≠ '\\') (cs : List Char) :
    outputOf (pieces order (c :: cs)) = c :: outputOf (pieces order cs) := by
  rw [← outputOf_pieces_unmarked, pieces_unmarked_cons hc, ← outputOf_pieces_unmarked]
  rfl

theorem decodedOf_pieces_cons {c : Char} (hc : c ≠ '\\') (cs : List Char) :
    decodedOf (pieces order (c :: cs)) = decodedOf (pieces order cs) := by
  rw [← decodedOf_pieces_unmarked, pieces_unmarked_cons hc, ← decodedOf_pieces_unmarked]
  rfl

/-! ## The bracket as a symbol -/

/-- The bracket between the two texts is the symbol of a control escape that is cut out there, and
so is decoded with it. -/
def SymbolDecoded (alternatives : List Piece.Alternative) (before after : List Char) : Prop :=
  ∃ ps qs, pieces alternatives (before ++ '[' :: after) = ps ++ .escape .controlOpening :: qs ∧
    before = ps.flatMap Piece.source ++ ['\\', 'c']

theorem SymbolDecoded.of_pieces {alternatives : List Piece.Alternative}
    {before left after : List Char} {p : Piece} (h : SymbolDecoded alternatives left after)
    (hcut : pieces alternatives (before ++ '[' :: after) =
      p :: pieces alternatives (left ++ '[' :: after)) :
    SymbolDecoded alternatives before after := by
  obtain ⟨ps, qs, hps, hleft⟩ := h
  have hsource := flatMap_source_pieces alternatives (before ++ '[' :: after)
  rw [hcut, List.flatMap_cons, flatMap_source_pieces, ← List.append_assoc,
    List.append_cancel_right_eq] at hsource
  refine ⟨p :: ps, qs, by rw [hcut, hps, List.cons_append], ?_⟩
  rw [← hsource, hleft, List.flatMap_cons, List.append_assoc]

theorem Piece.eq_escape_of_unmark {p : Piece} {ps qs : List Piece} {e : Escape}
    (h : p.unmark = ps ++ .escape e :: qs) : p = .escape e ∧ ps = [] := by
  cases p with
  | marker =>
    have hmem : Piece.escape e ∈ marker.unmark := by simp [h]
    simp [unmark] at hmem
  | _ =>
    rcases List.singleton_eq_append_iff.1 h with ⟨rfl, heq⟩ | ⟨-, heq⟩
    · exact ⟨(List.cons.inj heq).1.symm, rfl⟩
    · cases heq

theorem exists_of_flatMap_unmark {ls ps qs : List Piece} {e : Escape}
    (h : ls.flatMap Piece.unmark = ps ++ .escape e :: qs) :
    ∃ ps' qs', ls = ps' ++ .escape e :: qs' ∧ ps'.flatMap Piece.unmark = ps := by
  induction ls generalizing ps with
  | nil => simp at h
  | cons p ls ih =>
    rw [List.flatMap_cons] at h
    rcases List.append_eq_append_iff.1 h with ⟨mid, rfl, hls⟩ | ⟨mid, hp, hqs⟩
    · obtain ⟨ps', qs', rfl, rfl⟩ := ih hls
      exact ⟨p :: ps', qs', rfl, List.flatMap_cons⟩
    · cases mid with
      | nil =>
        obtain ⟨ps', qs', rfl, hnil⟩ := @ih [] hqs.symm
        exact ⟨p :: ps', qs', rfl, by rw [List.flatMap_cons, hnil, hp]; simp⟩
      | cons d mid =>
        obtain rfl := (List.cons.inj hqs).1
        obtain ⟨rfl, rfl⟩ := Piece.eq_escape_of_unmark hp
        exact ⟨[], ls, rfl, rfl⟩

theorem SymbolDecoded.of_unmarked {before after : List Char}
    (h : SymbolDecoded unmarked before after) : SymbolDecoded order before after := by
  obtain ⟨ps, qs, hcut, rfl⟩ := h
  rw [pieces_unmarked] at hcut
  obtain ⟨ps', qs', hcut', rfl⟩ := exists_of_flatMap_unmark hcut
  refine ⟨ps', qs', hcut', ?_⟩
  simp only [List.flatMap_assoc, Piece.flatMap_source_unmark]

/-! ## A bracket behind the text -/

/-- A bracket behind the text changes what is found only as a symbol behind `\c`. -/
theorem Piece.next?_append_bracket {cs : List Char} (hne : cs ≠ []) (hescape : cs ≠ ['\\', 'c'])
    (hguarded : cs ≠ ['\\', '\\', 'c']) (after : List Char) :
    next? unmarked (cs ++ '[' :: after) =
      (next? unmarked cs).map fun (p, rest) => (p, rest ++ '[' :: after) := by
  obtain ⟨c, mid, rfl⟩ := List.exists_cons_of_ne_nil hne
  by_cases hc : c = '\\'
  · subst hc
    simp only [List.cons_append, next?_unmarked_backslash]
    cases mid with
    | nil =>
      have hnone : next? order ['\\'] = none := by decide
      rw [List.nil_append, next?_lone (by simp), Escape.readBody?_of_not_isAlphanum (by decide),
        hnone]
      rfl
    | cons d ds =>
      refine next?_backslash_append (List.cons_ne_nil d ds) fun body hbody =>
        Escape.readBody?_append_cons (by decide) ?_ after
      rintro rfl
      rcases hbody with hbody | hbody
      · exact hescape (congrArg _ hbody)
      · exact hguarded (congrArg _ hbody)
  · rw [List.cons_append, next?_unmarked_of_ne hc, next?_unmarked_of_ne hc, Option.map_none]

/-- Of the text before a bracket comes out what comes out of it by itself, and the cutting goes on
behind the bracket. -/
def CutsAtBracket (before after : List Char) : Prop :=
  ∃ ps, pieces unmarked (before ++ '[' :: after) = ps ++ pieces unmarked after ∧
    outputOf ps = outputOf (pieces unmarked before) ++ ['['] ∧
    decodedOf ps = decodedOf (pieces unmarked before)

theorem CutsAtBracket.of_pieces {before left after : List Char} {p : Piece}
    (h : CutsAtBracket left after)
    (hwhole : pieces unmarked (before ++ '[' :: after) =
      p :: pieces unmarked (left ++ '[' :: after))
    (hbefore : pieces unmarked before = p :: pieces unmarked left) :
    CutsAtBracket before after := by
  obtain ⟨ps, hps, hout, hdecoded⟩ := h
  rw [← List.singleton_append] at hbefore
  refine ⟨[p] ++ ps, by rw [hwhole, hps]; rfl, ?_, ?_⟩
  · rw [outputOf_append, hout, ← List.append_assoc, ← outputOf_append, ← hbefore]
  · rw [decodedOf_append, hdecoded, ← decodedOf_append, ← hbefore]

/-- **A bracket cuts the text**, unless it is decoded as a symbol. Where it is the symbol of a
copied escape, the cutting of the text before it changes, but not what comes out. -/
theorem cutsAtBracket {before after : List Char} (h : ¬ SymbolDecoded unmarked before after) :
    CutsAtBracket before after := by
  fun_induction pieces unmarked before with
  | case1 =>
    refine ⟨[.plain '['], pieces_unmarked_cons (by decide) after, ?_, ?_⟩ <;> rw [pieces] <;> rfl
  | case2 c cs p left found ih =>
    have hne : ∀ short, Piece.next? unmarked short = none → c :: cs ≠ short := by
      intro short hnone heq
      rw [heq, hnone] at found
      cases found
    have hnext := Piece.next?_append_bracket (List.cons_ne_nil c cs) (hne _ (by decide))
      (hne _ (by decide)) after
    rw [found, Option.map_some] at hnext
    have hwhole := pieces_of_next? hnext
    exact (ih fun hleft => h (hleft.of_pieces hwhole)).of_pieces hwhole (pieces_of_next? found)
  | case3 c cs found ih =>
    by_cases hescape : c :: cs = ['\\', 'c']
    · have hnext : Piece.next? unmarked ('\\' :: 'c' :: '[' :: after) =
          some (.escape .controlOpening, after) :=
        Piece.next?_escape (Escape.readBody?_controlOpening after)
      rw [hescape] at h
      exact absurd ⟨[], _, pieces_of_next? hnext, rfl⟩ h
    by_cases hguarded : c :: cs = ['\\', '\\', 'c']
    · have hnext : Piece.next? unmarked ('\\' :: '\\' :: 'c' :: '[' :: after) =
          some (.guarded .controlOpening, after) :=
        Piece.next?_guarded (Escape.readBody?_controlOpening after)
      have hplain : pieces unmarked ['\\', '\\', 'c'] =
          [.plain '\\', .plain '\\', .plain 'c'] := by decide +kernel
      rw [hguarded]
      refine ⟨[.guarded .controlOpening], pieces_of_next? hnext, ?_, ?_⟩ <;> rw [hplain] <;> rfl
    · have hnext := Piece.next?_append_bracket (List.cons_ne_nil c cs) hescape hguarded after
      rw [found, Option.map_none, List.cons_append] at hnext
      have hwhole := pieces_of_next?_none hnext
      exact (ih fun hleft => h (hleft.of_pieces hwhole)).of_pieces hwhole
        (pieces_of_next?_none found)

/-! ## Without the marker -/

/-- **The marker changes nothing.** For every text, the result and the events are those of the
decoding that does not look for the marker. And wherever a marker stands in the text, it comes out
as it is, with what comes out of the text before it and of the text behind it on its two sides,
unless its bracket is the symbol of a control escape that is decoded. -/
theorem unescape_without_marker (text : String) :
    unescape text = unescapeWith unmarked text ∧
      Event.ofUnescape text = (decodedWith unmarked text).map .escapeDecoded ∧
      ∀ before after : String, text = before ++ "[\\b]" ++ after →
        ¬ SymbolDecoded order before.toList ("\\b]" ++ after).toList →
        unescape text = unescape before ++ "[\\b]" ++ unescape after ∧
          Event.ofUnescape text = Event.ofUnescape before ++ Event.ofUnescape after := by
  refine ⟨unescape_eq_unmarked text, ofUnescape_eq_unmarked text, ?_⟩
  intro before after htext hsymbol
  obtain ⟨ps, hcut, hout, hdecoded⟩ := cutsAtBracket fun h => hsymbol h.of_unmarked
  have hlist : text.toList = before.toList ++ '[' :: ("\\b]" ++ after).toList := by simp [htext]
  rw [← hlist] at hcut
  have hbehind : pieces unmarked ("\\b]" ++ after).toList =
      [.plain '\\', .plain 'b', .plain ']'] ++ pieces unmarked after.toList := by
    rw [String.toList_append]
    exact pieces_unmarked_backspace after.toList
  obtain ⟨hresult, hevents⟩ := unescape_of_pieces_unmarked hcut
  obtain ⟨hresult', hevents'⟩ := unescape_of_pieces_unmarked hbehind
  constructor
  · rw [hresult, hresult', hout, String.ofList_append, ← unescape_eq_unmarked,
      String.append_assoc, String.append_assoc]
    rfl
  · rw [hevents, hevents', hdecoded, ← ofUnescape_eq_unmarked]
    rfl

/-- A marker whose bracket is the symbol of a copied escape, between two escapes. -/
theorem unescape_without_marker_copied :
    ¬ SymbolDecoded order "\\x2E\\\\c".toList ("\\b]" ++ "\\c\\").toList ∧
      unescape "\\x2E\\\\c[\\b]\\c\\" =
        unescapeWith unmarked "\\x2E\\\\c[\\b]\\c\\" ∧
      unescape "\\x2E\\\\c[\\b]\\c\\" = "\\.\\\\c" ++ "[\\b]" ++ "\x1c" := by
  have hsymbol : ¬ SymbolDecoded order "\\x2E\\\\c".toList ("\\b]" ++ "\\c\\").toList := by
    intro h
    obtain ⟨ps, qs, hcut, -⟩ := h
    have hmem : Piece.escape .controlOpening ∈
        pieces order ("\\x2E\\\\c".toList ++ '[' :: ("\\b]" ++ "\\c\\").toList) := by
      rw [hcut]
      simp
    exact absurd hmem (by decide +kernel)
  have hbefore : unescape "\\x2E\\\\c" = "\\.\\\\c" := by decide +kernel
  have hafter : unescape "\\c\\" = "\x1c" := by decide +kernel
  have h := unescape_without_marker "\\x2E\\\\c[\\b]\\c\\"
  have hmarker := (h.2.2 "\\x2E\\\\c" "\\c\\" (by decide) hsymbol).1
  rw [hbefore, hafter] at hmarker
  exact ⟨hsymbol, h.1, hmarker⟩

/-- A bracket that is decoded as a symbol takes the marker with it. -/
example : unescape "\\c[\\b]" = "\x1b\\b]" := by decide +kernel

end PatternLex
