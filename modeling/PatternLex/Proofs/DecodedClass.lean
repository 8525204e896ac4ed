import PatternLex.Proofs.LastBracket
import PatternLex.Proofs.MetacharacterGlyphs

/-!
# The end of a class whose escapes are decoded

A class may be read before its escapes are decoded or after, and mostly it closes at the same
bracket: an escape is replaced by whole glyphs, and a decoded bracket is an escaped one. Two escapes
are in the way, for their last character is a glyph of its own or opens one: `\c]` is decoded
together with the bracket of the class, and behind `\c\` the glyphs of the text begin one character
earlier than those of the result. `LeavesBrackets` sets them aside.

The invariant of a run is `ClosesAtEnd`, for a text that is in part decoded. A class that closes
inside an escape is brought under it by leaving out the backslash before its bracket.

Results:

* `exists_of_flatMap_source_eq_dash`: a dash is always cut out by itself;
* `closesAtEnd_step`, `closesAtEnd_outputOf`: to decode one escape keeps the end, and so to decode
  all;
* `read_unescape_closes_at_end`: the class closes where it closed;
* `exists_read_unescape_offset_eq`: where no `-\]` stands, that is the end of the result.
-/

namespace PatternLex

open Text

/-! ## Dashes -/

theorem head?_dropWhile_append_cons {p : Char → Bool} {c : Char} (hc : p c = false)
    (cs after after' : List Char) :
    ((cs ++ c :: after).dropWhile p).head? = ((cs ++ c :: after').dropWhile p).head? := by
  induction cs with
  | nil => simp [hc]
  | cons d cs ih =>
    cases hd : p d with
    | true => simp only [List.cons_append, List.dropWhile_cons_of_pos hd, ih]
    | false => simp [hd]

theorem Piece.eq_plain_of_dash_mem_source {p : Piece} (h : '-' ∈ p.source) : p = .plain '-' := by
  cases p with
  | plain c =>
    rw [source, List.mem_singleton] at h
    rw [h]
  | marker => exact absurd h (by decide)
  | guarded e => simp [source, Escape.spelling, e.dash_notMem_body] at h
  | escape e => simp [source, Escape.spelling, e.dash_notMem_body] at h

theorem exists_of_flatMap_source_eq_dash {ps : List Piece} {front back : List Char}
    (h : ps.flatMap Piece.source = front ++ '-' :: back) :
    ∃ qs zs, ps = qs ++ .plain '-' :: zs ∧ qs.flatMap Piece.source = front ∧
      zs.flatMap Piece.source = back := by
  induction ps generalizing front with
  | nil => simp at h
  | cons p ps ih =>
    rw [List.flatMap_cons] at h
    rcases List.append_eq_append_iff.1 h with ⟨mid, rfl, hrest⟩ | ⟨mid, hp, hrest⟩
    · obtain ⟨qs, zs, rfl, rfl, hback⟩ := ih hrest
      exact ⟨p :: qs, zs, rfl, rfl, hback⟩
    · cases mid with
      | nil =>
        have hnext : ps.flatMap Piece.source = [] ++ '-' :: back := hrest.symm
        obtain ⟨qs, zs, rfl, hqs, hback⟩ := ih hnext
        rw [List.append_nil] at hp
        exact ⟨p :: qs, zs, rfl, by rw [List.flatMap_cons, hqs, hp, List.append_nil], hback⟩
      | cons c mid =>
        -- the piece holds the dash, and so nothing else
        obtain ⟨rfl, hback⟩ := List.cons.inj hrest
        have hdash : '-' ∈ p.source := by
          rw [hp]
          simp
        obtain rfl := Piece.eq_plain_of_dash_mem_source hdash
        have hlength := congrArg List.length hp
        simp only [Piece.source, List.length_append, List.length_cons, List.length_nil] at hlength
        obtain rfl : front = [] := List.length_eq_zero_iff.1 (by omega)
        obtain rfl : mid = [] := List.length_eq_zero_iff.1 (by omega)
        exact ⟨[], ps, rfl, rfl, hback.symm⟩

namespace CharClass

namespace ClosesAtEnd

variable {a rest : List Char}

/-! ## Behind an escape -/

variable {e : Escape}

theorem of_body_append (hbracket : e ≠ .controlBracket)
    (hrow : e = .controlBackslash → (rest.dropWhile (· = '\\')).head? ≠ some ']')
    (h : ClosesAtEnd (e.body ++ rest)) : ClosesAtEnd rest := by
  by_cases he : e = .controlBackslash
  · -- the backslash of this body opens a glyph
    have hbody : e.body ++ rest = 'c' :: '\\' :: rest := by rw [he]; rfl
    rw [hbody, bare_iff (by decide) (by decide)] at h
    exact (backslash_iff (hrow he)).1 h
  · rwa [plain_iff (mt Escape.backslash_mem_body_iff.1 he)
      (mt Escape.bracket_mem_body_iff.1 hbracket)] at h

/-- The backslash of an escape opens a glyph, or an open one takes it; the end is the same. -/
theorem spelling_append_iff (hbracket : e ≠ .controlBracket) :
    ClosesAtEnd (e.spelling ++ rest) ↔ ClosesAtEnd (e.body ++ rest) := by
  obtain ⟨c, cs, hbody, hc, -⟩ := e.body_head
  have hclose : c ≠ ']' := by
    intro hclose
    exact hbracket (Escape.bracket_mem_body_iff.1 (by simp [hbody, hclose]))
  rw [Escape.spelling, hbody, List.cons_append, List.cons_append, escaped_iff,
    bare_iff hc hclose]

/-! ## Before a decoded character -/

variable {c : Char}

theorem quoteMeta_append (hback : c ≠ '\\') (h : ClosesAtEnd rest) :
    ClosesAtEnd (quoteMeta c ++ rest) := by
  unfold quoteMeta
  split
  next hmeta => exact (escaped_iff c rest).2 h
  next hother =>
    have hclose : c ≠ ']' := by
      rintro rfl
      exact hother (by decide)
    exact (bare_iff hback hclose rest).2 h

/-- An open backslash takes the backslash of a decoded character, or the character. -/
theorem backslash_quoteMeta_append (hback : c ≠ '\\') (hclose : c ≠ ']') (h : ClosesAtEnd rest) :
    ClosesAtEnd ('\\' :: (quoteMeta c ++ rest)) := by
  unfold quoteMeta
  split
  next hmeta => exact (escaped_iff '\\' (c :: rest)).2 ((bare_iff hback hclose rest).2 h)
  next hother => exact (escaped_iff c rest).2 h

/-- To decode one escape keeps the end where it is. Only for a decoded bracket it matters what
stands before the escape. -/
theorem decode (hbracket : e ≠ .controlBracket)
    (hrow : e = .controlBackslash → (rest.dropWhile (· = '\\')).head? ≠ some ']')
    (hback : c ≠ '\\') (hwhole : c = ']' → Complete a)
    (h : ClosesAtEnd (a ++ (e.spelling ++ rest))) : ClosesAtEnd (a ++ (quoteMeta c ++ rest)) := by
  by_cases ha : Complete a
  · refine append_mono ha (by simp [Escape.spelling]) (fun hclose => ?_) h
    rw [spelling_append_iff hbracket] at hclose
    exact quoteMeta_append hback (of_body_append hbracket hrow hclose)
  · -- the open backslash takes the backslash of the escape
    obtain ⟨front, rfl, hfront⟩ := exists_of_not_complete ha
    rw [List.append_assoc, List.singleton_append] at h ⊢
    refine append_mono hfront (by simp) (fun hclose => ?_) h
    rw [Escape.spelling, List.cons_append, escaped_iff] at hclose
    exact backslash_quoteMeta_append hback (mt hwhole ha) (of_body_append hbracket hrow hclose)

end ClosesAtEnd

/-! ## The pieces of a class -/

/-- No piece of the row does away with a closing bracket when the row is decoded: none is a `\c]`;
no `\c\` has only backslashes behind it, up to a bracket; and where an escape is decoded to a
bracket, the backslash that is put before it is not taken by that of a copied `\\c\`. -/
structure LeavesBrackets (ps : List Piece) : Prop where
  noBracket : .escape .controlBracket ∉ ps
  noRow : ∀ front back, ps = front ++ .escape .controlBackslash :: back →
    ((back.flatMap Piece.source).dropWhile (· = '\\')).head? ≠ some ']'
  noGuard : ∀ front e back, ps = front ++ .guarded .controlBackslash :: .escape e :: back →
    e.char? ≠ some ']'

section Decoding

variable {cs rest : List Char} {ps qs zs : List Piece}

/-- **One step.** To put one piece of a text into the result keeps the end where it is. -/
theorem closesAtEnd_step {p : Piece} (hcut : pieces Piece.Alternative.order cs = ps ++ p :: qs)
    (hback : ∀ q ∈ pieces Piece.Alternative.order cs, q.isBackslash = false)
    (hleaves : LeavesBrackets (pieces Piece.Alternative.order cs))
    (hrow : p = .escape .controlBackslash → (rest.dropWhile (· = '\\')).head? ≠ some ']')
    (h : ClosesAtEnd (outputOf ps ++ (p.source ++ rest))) :
    ClosesAtEnd (outputOf ps ++ (p.output ++ rest)) := by
  cases hdecoded : p.decoded? with
  | none => rwa [Piece.output_eq_source_of_decoded? hdecoded]
  | some d =>
    cases p with
    | escape e =>
      obtain ⟨c, hc, -⟩ := Option.map_eq_some_iff.1 hdecoded
      rw [Piece.output_escape hc]
      have hbracket : e ≠ .controlBracket := by
        rintro rfl
        exact hleaves.noBracket (by simp [hcut])
      have hother : c ≠ '\\' := by
        rintro rfl
        have hp := hback (.escape e) (by simp [hcut])
        rw [Piece.isBackslash, hc] at hp
        cases hp
      refine h.decode hbracket (fun he => hrow (by rw [he])) hother fun hclose => ?_
      refine complete_outputOf hcut (fun hguard => ?_) fun q hq => ?_
      · obtain ⟨front, rfl⟩ := List.getLast?_eq_some_iff.1 hguard
        refine hleaves.noGuard front e qs ?_ (hclose ▸ hc)
        rw [hcut, List.append_assoc, List.singleton_append]
      · refine hback q ?_
        rw [hcut]
        exact List.mem_append_left _ (List.mem_of_getLast? hq)
    | _ => cases hdecoded

/-- **A run.** To put the pieces of a text into the result, up to some place, keeps the end where it
is. What stands behind that place may be any text. -/
theorem closesAtEnd_outputOf (hcut : pieces Piece.Alternative.order cs = ps ++ qs ++ zs)
    (hback : ∀ q ∈ pieces Piece.Alternative.order cs, q.isBackslash = false)
    (hleaves : LeavesBrackets (pieces Piece.Alternative.order cs))
    (hrow : ∀ front back, qs = front ++ .escape .controlBackslash :: back →
      ((back.flatMap Piece.source ++ rest).dropWhile (· = '\\')).head? ≠ some ']')
    (h : ClosesAtEnd (outputOf ps ++ (qs.flatMap Piece.source ++ rest))) :
    ClosesAtEnd (outputOf (ps ++ qs) ++ rest) := by
  induction qs generalizing ps with
  | nil => rwa [List.append_nil]
  | cons p qs ih =>
    have hpiece : pieces Piece.Alternative.order cs = ps ++ p :: (qs ++ zs) := by
      rw [hcut, List.append_assoc, List.cons_append]
    rw [List.flatMap_cons, List.append_assoc] at h
    have hstep := closesAtEnd_step hpiece hback hleaves (fun hp => hrow [] qs (by rw [hp]; rfl)) h
    have hout : outputOf (ps ++ [p]) = outputOf ps ++ p.output := by simp [outputOf]
    rw [← List.append_assoc, ← hout] at hstep
    rw [List.append_cons ps] at hcut ⊢
    refine ih hcut (fun front back heq => ?_) hstep
    exact hrow (p :: front) back (by rw [heq]; rfl)

end Decoding

/-! ## The class -/

theorem isBackslash_eq_false {text : String}
    (hback : ∀ d ∈ decodedEscapes text, d.code ≠ '\\'.toNat) :
    ∀ p ∈ pieces Piece.Alternative.order text.toList, p.isBackslash = false := by
  intro p hp
  rw [← Bool.not_eq_true]
  intro hslash
  obtain ⟨e, rfl, hc⟩ := Piece.exists_of_isBackslash hslash
  exact hback _ (List.mem_filterMap.2 ⟨_, hp, Piece.decoded?_escape hc⟩) rfl

theorem closesAtEnd_unescape {text : String}
    (hback : ∀ d ∈ decodedEscapes text, d.code ≠ '\\'.toNat)
    (hleaves : LeavesBrackets (pieces Piece.Alternative.order text.toList))
    (h : ClosesAtEnd text.toList) : ClosesAtEnd (unescape text).toList := by
  have hcut : pieces Piece.Alternative.order text.toList =
      [] ++ pieces Piece.Alternative.order text.toList ++ [] := by simp
  have hrow : ∀ front back, pieces Piece.Alternative.order text.toList =
      front ++ .escape .controlBackslash :: back →
        ((back.flatMap Piece.source ++ []).dropWhile (· = '\\')).head? ≠ some ']' := by
    intro front back heq
    rw [List.append_nil]
    exact hleaves.noRow front back heq
  have hclose := closesAtEnd_outputOf hcut (isBackslash_eq_false hback) hleaves hrow (by
    rwa [flatMap_source_pieces, List.append_nil])
  rw [List.append_nil, List.nil_append] at hclose
  rwa [unescape, unescapeWith, String.toList_ofList]

/-- A text that ends in an escaped bracket behind a dash, and holds no bare one, is still such a
text when its escapes are decoded, but the dash may be escaped. -/
theorem inside_unescape {text : String} {front : List Char}
    (hback : ∀ d ∈ decodedEscapes text, d.code ≠ '\\'.toNat)
    (hleaves : LeavesBrackets (pieces Piece.Alternative.order text.toList))
    (htext : text.toList = front ++ ['-', '\\', ']']) (h : ClosesAtEnd (front ++ ['-', ']'])) :
    Inside (unescape text).toList ['\\', ']'] := by
  have hsource := flatMap_source_pieces Piece.Alternative.order text.toList
  rw [htext] at hsource
  obtain ⟨qs, zs, hcut, rfl, hzs⟩ := exists_of_flatMap_source_eq_dash hsource
  rw [← htext] at hcut
  have hafter : pieces Piece.Alternative.order text.toList = (qs ++ [.plain '-']) ++ zs := by
    rw [hcut, List.append_cons]
  have hlast : pieces Piece.Alternative.order ['\\', ']'] = [.plain '\\', .plain ']'] := by
    decide +kernel
  rw [← hzs, pieces_flatMap_source hafter] at hlast
  have hrow : ∀ front back, qs = front ++ .escape .controlBackslash :: back →
      ((back.flatMap Piece.source ++ ['-', ']']).dropWhile (· = '\\')).head? ≠ some ']' := by
    rintro front back rfl
    have hno := hleaves.noRow front (back ++ .plain '-' :: zs) (by simp [hcut])
    have htail : (back ++ .plain '-' :: zs).flatMap Piece.source =
        back.flatMap Piece.source ++ '-' :: zs.flatMap Piece.source := by
      rw [List.flatMap_append]
      rfl
    rwa [htail, head?_dropWhile_append_cons (by decide)] at hno
  have hstart : pieces Piece.Alternative.order text.toList = [] ++ qs ++ .plain '-' :: zs := hcut
  have hclose := closesAtEnd_outputOf hstart (isBackslash_eq_false hback) hleaves hrow h
  rw [List.nil_append, List.append_cons] at hclose
  rw [unescape, unescapeWith, String.toList_ofList, hafter, hlast, outputOf_append, outputOf_append]
  exact hclose.inside_append ['\\', ']']

theorem byteLength_append_bracket (body : String) :
    byteLength (body ++ "]").toList = byteLength body.toList + 1 := by
  rw [String.toList_append, byteLength_append]
  rfl

variable {S S' : Type}

/-- A class that closes at the end of its text closes at the end of the decoded text too, if no
escape is decoded to a backslash. -/
def KeepsClosingBracket (sets : SetProvider S) (body : String) : Prop :=
  ∀ (pattern pattern' : String) (cls : CharClass S),
    read sets (body ++ "]") pattern = .ok cls → cls.offset = byteLength body.toList + 1 →
      (∀ d ∈ decodedEscapes (body ++ "]"), d.code ≠ '\\'.toNat) →
        ∃ cls', read sets (unescape (body ++ "]")) pattern' = .ok cls' ∧
          cls'.offset = byteLength (unescape (body ++ "]")).toList

theorem not_keepsClosingBracket_of_offset {sets : SetProvider S} {body : String}
    (hread : (read sets (body ++ "]") "").toOption.map (·.offset) =
      some (byteLength body.toList + 1))
    (hback : ∀ d ∈ decodedEscapes (body ++ "]"), d.code ≠ '\\'.toNat)
    (hafter : (read sets (unescape (body ++ "]")) "").toOption.map (·.offset) ≠
      some (byteLength (unescape (body ++ "]")).toList)) : ¬ KeepsClosingBracket sets body := by
  intro h
  cases hcls : read sets (body ++ "]") "" with
  | error malformed =>
    rw [hcls] at hread
    cases hread
  | ok cls =>
    rw [hcls] at hread
    obtain ⟨cls', hread', hoffset'⟩ := h "" "" cls hcls (Option.some.inj hread) hback
    rw [hread'] at hafter
    exact hafter (congrArg some hoffset')

/-- A `\c]` is decoded together with the bracket; behind a decoded `\c\` an escaped bracket is bare;
a range may reach the backslash of a decoded bracket; and where the class closes inside an escape,
the range that it closes behind may not be read after the decoding. -/
theorem not_keepsClosingBracket :
    ¬ KeepsClosingBracket .symbolic "\\c" ∧ ¬ KeepsClosingBracket .symbolic "\\c\\]" ∧
      ¬ KeepsClosingBracket .symbolic "a-\\x5D" ∧ ¬ KeepsClosingBracket .symbolic "a-\\x41-\\" :=
  ⟨not_keepsClosingBracket_of_offset (by decide +kernel) (by decide +kernel) (by decide +kernel),
    not_keepsClosingBracket_of_offset (by decide +kernel) (by decide +kernel) (by decide +kernel),
    not_keepsClosingBracket_of_offset (by decide +kernel) (by decide +kernel) (by decide +kernel),
    not_keepsClosingBracket_of_offset (by decide +kernel) (by decide +kernel) (by decide +kernel)⟩

/-- **The class closes where it closed.** If a class closes at the end of its text, it is still read
after its escapes are decoded, and closes at the end of the result, unless it closes inside an
escape before that. If it closed at a bare bracket, the first bare one still is the last character.
If it closed inside an escape, the reading of the result may also come to stand just behind the dash
of the last range, so that it finds the bracket escaped. -/
theorem read_unescape_closes_at_end (sets : SetProvider S) (sets' : SetProvider S')
    (body pattern pattern' : String) {cls : CharClass S}
    (h : read sets (body ++ "]") pattern = .ok cls)
    (hoffset : cls.offset = byteLength body.toList + 1)
    (hback : ∀ d ∈ decodedEscapes (body ++ "]"), d.code ≠ '\\'.toNat)
    (hleaves : LeavesBrackets (pieces Piece.Alternative.order (body ++ "]").toList)) :
    (¬ ClosesInEscape (body ++ "]").toList cls →
      bareBracketEnd? (unescape (body ++ "]")).toList =
        some (byteLength (unescape (body ++ "]")).toList)) ∧
      ((∃ cls', read sets' (unescape (body ++ "]")) pattern' = .ok cls' ∧
        (cls'.offset = byteLength (unescape (body ++ "]")).toList ∨
          ClosesInEscape (unescape (body ++ "]")).toList cls')) ∨
        (ClosesInEscape (body ++ "]").toList cls ∧
          Reaches sets' (unescape (body ++ "]")).toList ['\\', ']'])) := by
  have hend := hoffset.trans (byteLength_append_bracket body).symm
  by_cases hesc : ClosesInEscape (body ++ "]").toList cls
  · obtain ⟨front, htext, hfront⟩ := hesc.closesAtEnd hend
    have hin := inside_unescape hback hleaves htext hfront
    refine ⟨fun hbare => absurd hesc hbare, ?_⟩
    rcases exists_read_or_reaches sets' pattern' hin with ⟨cls', hread, hesc'⟩ | hstop
    · exact .inl ⟨cls', hread, .inr hesc'⟩
    · exact .inr ⟨hesc, hstop⟩
  · have hclose := closesAtEnd_unescape hback hleaves (closesAtEnd_of_read h hend hesc)
    exact ⟨fun _ => bareBracketEnd?_eq_byteLength_iff.2 hclose,
      .inl (exists_read_of_closesAtEnd sets' pattern' hclose)⟩

/-- A decoded bracket stays in the class, and a `\c\` with no bracket behind it does no harm. -/
theorem read_unescape_closes_at_end_bracket :
    unescape ("\\x5D\\c\\a-\\x7A" ++ "]") = "\\]\x1ca-z]" ∧
      bareBracketEnd? "\\]\x1ca-z]".toList = some 7 ∧
      ∃ cls', read .symbolic "\\]\x1ca-z]" "" = .ok cls' ∧ cls'.offset = 7 := by
  have hresult : unescape ("\\x5D\\c\\a-\\x7A" ++ "]") = "\\]\x1ca-z]" := by decide +kernel
  have hread : read .symbolic ("\\x5D\\c\\a-\\x7A" ++ "]") "" =
      .ok ⟨[.char 'x', .char '5', .char 'D', .char 'c', .range 'a' 'x', .char '7', .char 'A'],
        14⟩ := by decide +kernel
  have hbare : ¬ ClosesInEscape ("\\x5D\\c\\a-\\x7A" ++ "]").toList
      (⟨[.char 'x', .char '5', .char 'D', .char 'c', .range 'a' 'x', .char '7', .char 'A'],
        14⟩ : CharClass Shorthand) := by
    rintro ⟨gs, after, first, -, -, -, -, hlast⟩
    cases hlast
  have hcut : pieces Piece.Alternative.order ("\\x5D\\c\\a-\\x7A" ++ "]").toList =
      [.escape (.hex 5 13), .escape .controlBackslash, .plain 'a', .plain '-',
        .escape (.hex 7 10), .plain ']'] := by decide +kernel
  have hleaves : LeavesBrackets [.escape (.hex 5 13), .escape .controlBackslash, .plain 'a',
      .plain '-', .escape (.hex 7 10), .plain ']'] := by
    refine ⟨by decide, fun front back h => ?_, fun front e back h => ?_⟩
    · rcases front with _ | ⟨p, _ | ⟨q, front⟩⟩
      · cases h
      · cases h
        decide
      · have hmem := List.mem_iff_append.2
          ⟨front, back, (List.cons.inj (List.cons.inj h).2).2⟩
        exact absurd hmem (by decide)
    · have hmem := List.mem_iff_append.2 ⟨front, .escape e :: back, h⟩
      exact absurd hmem (by decide)
  have hplace := read_unescape_closes_at_end .symbolic .symbolic "\\x5D\\c\\a-\\x7A" "" "" hread
    (by decide) (by decide +kernel) (hcut ▸ hleaves)
  rw [hresult] at hplace
  obtain ⟨cls', hread', hoffset⟩ := hplace.2.resolve_right fun hstop => hbare hstop.1
  -- no `-\]` stands in the result, so the class closes at its end
  have hnone : ¬ ['-', '\\', ']'] <:+: "\\]\x1ca-z]".toList := by decide +kernel
  have hend := hoffset.resolve_right fun hesc => hnone hesc.isInfix
  have hbytes : byteLength "\\]\x1ca-z]".toList = 7 := by decide +kernel
  exact ⟨hresult, hplace.1 hbare, cls', hread', hend.trans hbytes⟩

/-- A class in which no dash, backslash and bracket stand side by side, neither before its escapes
are decoded nor after, closes at the end of the result. -/
theorem exists_read_unescape_offset_eq (sets : SetProvider S) (sets' : SetProvider S')
    (body pattern pattern' : String) {cls : CharClass S}
    (h : read sets (body ++ "]") pattern = .ok cls)
    (hoffset : cls.offset = byteLength body.toList + 1)
    (hback : ∀ d ∈ decodedEscapes (body ++ "]"), d.code ≠ '\\'.toNat)
    (hleaves : LeavesBrackets (pieces Piece.Alternative.order (body ++ "]").toList))
    (hbody : ¬ ['-', '\\', ']'] <:+: (body ++ "]").toList)
    (hresult : ¬ ['-', '\\', ']'] <:+: (unescape (body ++ "]")).toList) :
    ∃ cls', read sets' (unescape (body ++ "]")) pattern' = .ok cls' ∧
      cls'.offset = byteLength (unescape (body ++ "]")).toList := by
  have hend := hoffset.trans (byteLength_append_bracket body).symm
  have hbare := closesAtEnd_of_read h hend fun hesc => hbody hesc.isInfix
  have hclose := closesAtEnd_unescape hback hleaves hbare
  obtain ⟨cls', hread, hplace⟩ := exists_read_of_closesAtEnd sets' pattern' hclose
  exact ⟨cls', hread, hplace.resolve_right fun hesc => hresult hesc.isInfix⟩

end CharClass

end PatternLex
