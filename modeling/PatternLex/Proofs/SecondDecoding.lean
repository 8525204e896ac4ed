import PatternLex.Proofs.BackspaceMarker

/-!
# Decoding what was decoded

A result is a pattern again, and it may be decoded once more. A decoded character then stands next
to what was left as it was, and the two may spell an escape that was not there. Only the backslash
and the digits do that. The letter at the head of a body cannot, for the backslash before it would
have guarded the escape; nor can the symbol behind `\c`, for the backslash of the escape would have
been the symbol.

Results:

* `readBody?_outputOf`: where no body was read, none is read in the result;
* `next?_backslash_outputOf`: a backslash that begins nothing begins nothing in the result;
* `decodedOf_step`, `decodedOf_pieces_outputOf`: nothing is decoded in the result, piece by piece;
* `unescape_unescape`: the result stays as it is.
-/

namespace PatternLex

open Text
open Piece.Alternative (order)

variable {cs rest after : List Char} {c : Char} {e : Escape} {p : Piece} {ps : List Piece}

/-! ## Inert characters -/

/-- The character is no backslash and no digit of an escape. -/
def Decoded.Inert (d : Decoded) : Prop :=
  d.code ≠ '\\'.toNat ∧ ∀ digit, d.code ≠ (upperHexDigits.char digit).toNat

instance : DecidablePred Decoded.Inert :=
  fun d => inferInstanceAs
    (Decidable (d.code ≠ '\\'.toNat ∧ ∀ digit, d.code ≠ (upperHexDigits.char digit).toNat))

/-- Only inert characters are decoded in the text. -/
def DecodesInert (cs : List Char) : Prop := ∀ d ∈ decodedOf (pieces order cs), d.Inert

namespace DecodesInert

theorem of_cons (h : DecodesInert (c :: cs)) (hc : c ≠ '\\') : DecodesInert cs := by
  unfold DecodesInert at h
  rwa [decodedOf_pieces_cons hc cs] at h

theorem of_pieces (h : DecodesInert cs) (hcut : pieces order cs = p :: pieces order rest) :
    DecodesInert rest := by
  intro d hd
  obtain ⟨q, hq, hdecoded⟩ := List.mem_filterMap.1 hd
  refine h d (List.mem_filterMap.2 ⟨q, ?_, hdecoded⟩)
  rw [hcut]
  exact List.mem_cons_of_mem p hq

theorem char_ne (h : DecodesInert cs) (hcut : pieces order cs = .escape e :: ps)
    (hchar : e.char? = some c) : c ≠ '\\' ∧ ∀ digit, c ≠ upperHexDigits.char digit := by
  have hmem : ⟨String.ofList e.spelling, c.toNat⟩ ∈ decodedOf (pieces order cs) := by
    refine List.mem_filterMap.2 ⟨.escape e, ?_, Piece.decoded?_escape hchar⟩
    rw [hcut]
    exact List.mem_cons_self
  have hinert := h _ hmem
  exact ⟨fun hc => hinert.1 (congrArg Char.toNat hc),
    fun digit hc => hinert.2 digit (congrArg Char.toNat hc)⟩

end DecodesInert

/-! ## The head of the result -/

theorem exists_of_outputOf_eq_backslash (h : outputOf (pieces order cs) = '\\' :: after) :
    ∃ rest, cs = '\\' :: rest := by
  cases cs with
  | nil =>
    rw [pieces] at h
    cases h
  | cons d rest =>
    by_cases hd : d = '\\'
    · exact ⟨rest, by rw [hd]⟩
    · rw [outputOf_pieces_cons hd rest] at h
      exact absurd (List.cons.inj h).1 hd

theorem Piece.output_escape_head (e : Escape) :
    (∃ c, e.char? = some c ∧ (escape e).output = [c]) ∨
      ∃ tail, (escape e).output = '\\' :: tail := by
  cases hchar : e.char? with
  | none =>
    rw [output_eq_source_of_decoded? (decoded?_escape_none hchar)]
    exact .inr ⟨e.body, rfl⟩
  | some c =>
    rw [output_escape hchar]
    by_cases hmeta : c ∈ metacharacters
    · exact .inr ⟨[c], if_pos hmeta⟩
    · exact .inl ⟨c, rfl, if_neg hmeta⟩

theorem outputOf_head (h : outputOf (pieces order cs) = c :: after) (hc : c ≠ '\\') :
    (∃ rest, cs = c :: rest ∧ outputOf (pieces order rest) = after) ∨
      ∃ e ps, pieces order cs = .escape e :: ps ∧ e.char? = some c := by
  cases hps : pieces order cs with
  | nil =>
    rw [hps] at h
    cases h
  | cons p ps =>
    have hhead : p.output ++ outputOf ps = c :: after := by rw [← h, hps]; rfl
    obtain ⟨rest, -, htakes⟩ := exists_takes_of_pieces_eq_cons hps
    cases htakes with
    | plain hd =>
      rw [outputOf_pieces_cons hd rest, List.cons.injEq] at h
      exact .inl ⟨rest, by rw [h.1], h.2⟩
    | marker =>
      rw [outputOf_pieces_cons (by decide), List.cons.injEq] at h
      exact .inl ⟨_, by rw [h.1], h.2⟩
    | escape hread =>
      rcases Piece.output_escape_head _ with ⟨d, hchar, hout⟩ | ⟨tail, hout⟩
      · rw [hout, List.singleton_append, List.cons.injEq] at hhead
        exact .inr ⟨_, ps, rfl, by rw [hchar, hhead.1]⟩
      · rw [hout, List.cons_append, List.cons.injEq] at hhead
        exact absurd hhead.1.symm hc
    | guarded hread => exact absurd (List.cons.inj hhead).1.symm hc
    | backslash hnone => exact absurd (List.cons.inj hhead).1.symm hc

theorem upperHexDigits_char_ne_backslash : ∀ digit, upperHexDigits.char digit ≠ '\\' := by
  decide

theorem prefix_of_prefix_outputOf {digits : List (Fin 16)} (hinert : DecodesInert cs)
    (h : digits.map upperHexDigits.char <+: outputOf (pieces order cs)) :
    digits.map upperHexDigits.char <+: cs := by
  induction digits generalizing cs with
  | nil => exact List.nil_prefix
  | cons digit digits ih =>
    obtain ⟨after, hout⟩ := h
    have hdigit := upperHexDigits_char_ne_backslash digit
    rw [List.map_cons, List.cons_append] at hout
    rcases outputOf_head hout.symm hdigit with ⟨rest, rfl, hrest⟩ | ⟨e, ps, hcut, hchar⟩
    · rw [List.map_cons, List.cons_prefix_cons]
      exact ⟨rfl, ih (hinert.of_cons hdigit) ⟨after, hrest.symm⟩⟩
    · exact absurd rfl ((hinert.char_ne hcut hchar).2 digit)

/-! ## Bodies in the result -/

theorem octalDigits_char_eq (d : Fin 8) :
    octalDigits.char d = upperHexDigits.char (d.castLE (by decide)) := by
  decide +revert

theorem Escape.body_eq_control_or_digits (e : Escape) :
    (∃ symbol, e = control symbol) ∨
      ∃ (c : Char) (digits : List (Fin 16)), e.body = c :: digits.map upperHexDigits.char := by
  cases e with
  | unicode d₁ d₂ d₃ d₄ => exact .inr ⟨'u', [d₁, d₂, d₃, d₄], rfl⟩
  | hex d₁ d₂ => exact .inr ⟨'x', [d₁, d₂], rfl⟩
  | octal padded d₁ d₂ =>
    refine .inr ?_
    cases padded with
    | true =>
      exact ⟨'0', [d₁.castLE (by decide), d₂.castLE (by decide)],
        by simp [body, octalDigits_char_eq]⟩
    | false =>
      exact ⟨octalDigits.char d₁, [d₂.castLE (by decide)], by simp [body, octalDigits_char_eq]⟩
  | control symbol => exact .inl ⟨symbol, rfl⟩
  | named name => exact .inr ⟨name.letter, [], rfl⟩

/-- Behind a `c` the text has a control symbol wherever the result has one. An escape that becomes
the symbol is not in the way: it begins with a backslash, which is a symbol itself. -/
theorem exists_symbol_of_outputOf {symbol : Fin 32}
    (h : outputOf (pieces order cs) = controlSymbols.char symbol :: after) :
    ∃ symbol' rest, cs = controlSymbols.char symbol' :: rest := by
  have hback : controlSymbols.char 28 = '\\' := by decide
  by_cases hs : controlSymbols.char symbol = '\\'
  · rw [hs] at h
    obtain ⟨rest, rfl⟩ := exists_of_outputOf_eq_backslash h
    exact ⟨28, rest, by rw [hback]⟩
  · rcases outputOf_head h hs with ⟨rest, rfl, -⟩ | ⟨e, ps, hcut, -⟩
    · exact ⟨symbol, rest, rfl⟩
    · obtain ⟨rest, -, htakes⟩ := exists_takes_of_pieces_eq_cons hcut
      cases htakes
      exact ⟨28, _, by rw [hback]⟩

/-- Where the result begins with a body, the text begins with one too, though perhaps with that of
another control escape. -/
theorem exists_body_prefix_of_outputOf (hinert : DecodesInert cs)
    (hfirst : ∀ e ps, pieces order cs ≠ .escape e :: ps)
    (h : e.body <+: outputOf (pieces order cs)) : ∃ e' : Escape, e'.body <+: cs := by
  have hhead : ∀ c left, outputOf (pieces order cs) = c :: left → c ≠ '\\' →
      ∃ rest, cs = c :: rest ∧ outputOf (pieces order rest) = left := by
    intro c left heq hc
    refine (outputOf_head heq hc).resolve_right ?_
    rintro ⟨e, ps, hcut, -⟩
    exact hfirst e ps hcut
  obtain ⟨after, hout⟩ := h
  rcases e.body_eq_control_or_digits with ⟨symbol, rfl⟩ | ⟨c, digits, hbody⟩
  · obtain ⟨rest, rfl, hrest⟩ := hhead _ _ hout.symm (by decide)
    obtain ⟨symbol', left, rfl⟩ := exists_symbol_of_outputOf hrest
    exact ⟨.control symbol', left, rfl⟩
  · obtain ⟨d, tail, hd, hne, -⟩ := e.body_head
    rw [hbody, List.cons.injEq] at hd
    rw [← hd.1] at hne
    rw [hbody, List.cons_append] at hout
    obtain ⟨rest, rfl, hrest⟩ := hhead _ _ hout.symm hne
    refine ⟨e, ?_⟩
    rw [hbody, List.cons_prefix_cons]
    exact ⟨rfl, prefix_of_prefix_outputOf (hinert.of_cons hne) ⟨after, hrest.symm⟩⟩

/-- **No new body.** Where no body was read and no escape was cut out, none is read in the
result. -/
theorem readBody?_outputOf (hinert : DecodesInert cs)
    (hfirst : ∀ e ps, pieces order cs ≠ .escape e :: ps) (h : Escape.readBody? cs = none) :
    Escape.readBody? (outputOf (pieces order cs)) = none := by
  cases hread : Escape.readBody? (outputOf (pieces order cs)) with
  | none => rfl
  | some found =>
    obtain ⟨e, after⟩ := found
    have hbody : e.body <+: outputOf (pieces order cs) :=
      ⟨after, (Escape.eq_body_append_of_readBody? hread).symm⟩
    obtain ⟨e', he'⟩ := exists_body_prefix_of_outputOf hinert hfirst hbody
    obtain ⟨e'', rest, hthere, -⟩ := Escape.exists_readBody?_of_prefix he'
    rw [h] at hthere
    cases hthere

/-- **No longer body.** A body that is read is read in the result too. -/
theorem readBody?_body_append_outputOf (hinert : DecodesInert rest) (hstop : ¬ e.Continues rest) :
    Escape.readBody? (e.body ++ outputOf (pieces order rest)) =
      some (e, outputOf (pieces order rest)) := by
  refine Escape.readBody?_body_append fun hcont => hstop ?_
  obtain ⟨hshort, d, after, hout⟩ := hcont
  have hdigit : [d.castLE (by decide)].map upperHexDigits.char <+: rest :=
    prefix_of_prefix_outputOf hinert ⟨after, by simp [hout, octalDigits_char_eq]⟩
  obtain ⟨left, rfl⟩ := hdigit
  exact ⟨hshort, d, left, by simp [octalDigits_char_eq]⟩

/-! ## The second cutting -/

/-- Behind a backslash that begins nothing no escape is cut out: it would have been guarded. -/
theorem pieces_ne_escape_of_next?_none (h : Piece.next? order ('\\' :: rest) = none)
    (e : Escape) (ps : List Piece) : pieces order rest ≠ .escape e :: ps := by
  intro hcut
  obtain ⟨left, -, htakes⟩ := exists_takes_of_pieces_eq_cons hcut
  cases htakes with
  | escape hread =>
    rw [Piece.next?_guarded hread] at h
    cases h

theorem readBody?_of_outputOf_backslash (hinert : DecodesInert rest)
    (h : Piece.next? order ('\\' :: rest) = none)
    (hout : outputOf (pieces order rest) = '\\' :: after) : Escape.readBody? after = none := by
  obtain ⟨mid, rfl⟩ := exists_of_outputOf_eq_backslash hout
  cases hps : pieces order ('\\' :: mid) with
  | nil =>
    rw [hps] at hout
    cases hout
  | cons p ps =>
    obtain ⟨left, rfl, htakes⟩ := exists_takes_of_pieces_eq_cons hps
    rw [hps] at hout
    cases htakes with
    | plain hc => exact absurd rfl hc
    | guarded hread =>
      obtain rfl := (List.cons.inj hout).2
      exact Escape.readBody?_backslash _
    | escape hread => exact absurd hps (pieces_ne_escape_of_next?_none h _ _)
    | backslash hnone =>
      obtain rfl := (List.cons.inj hout).2
      rw [Piece.next?_doubled, Option.map_eq_none_iff] at h
      exact readBody?_outputOf (hinert.of_pieces hps) (pieces_ne_escape_of_next?_none hnone) h

/-- **No new beginning.** A backslash that begins nothing in the text begins nothing in the
result. -/
theorem next?_backslash_outputOf (hinert : DecodesInert rest)
    (h : Piece.next? order ('\\' :: rest) = none) :
    Piece.next? order ('\\' :: outputOf (pieces order rest)) = none := by
  by_cases hback : ∃ after, outputOf (pieces order rest) = '\\' :: after
  · obtain ⟨after, hout⟩ := hback
    rw [hout, Piece.next?_doubled, readBody?_of_outputOf_backslash hinert h hout, Option.map_none]
  · have hfirst := pieces_ne_escape_of_next?_none h
    rw [Piece.next?_lone fun after hout => hback ⟨after, hout⟩,
      readBody?_outputOf hinert hfirst (Piece.readBody?_of_next?_none h), Option.map_none]

theorem isAlphanum_of_mem_metacharacters (h : c ∈ metacharacters) : c.isAlphanum = false := by
  have hall : metacharacters.all (! ·.isAlphanum) = true := by decide
  simpa using List.all_eq_true.1 hall c h

theorem decodedOf_pieces_quoteMeta (hc : c ≠ '\\') (cs : List Char) :
    decodedOf (pieces order (quoteMeta c ++ cs)) = decodedOf (pieces order cs) := by
  unfold quoteMeta
  split
  · rename_i hmeta
    have hnext : Piece.next? order ('\\' :: c :: cs) = none := by
      rw [Piece.next?_lone fun mid hmid => hc (List.cons.inj hmid).1,
        Escape.readBody?_of_not_isAlphanum (isAlphanum_of_mem_metacharacters hmeta),
        Option.map_none]
    rw [List.cons_append, List.singleton_append, pieces_of_next?_none hnext]
    exact decodedOf_pieces_cons hc cs
  · exact decodedOf_pieces_cons hc cs

/-- **One step.** What becomes of a piece adds nothing to what is decoded in the result. -/
theorem decodedOf_step (htakes : Takes cs p rest) (hinert : DecodesInert rest)
    (hp : ∀ e c, p = .escape e → e.char? = some c → c ≠ '\\') :
    decodedOf (pieces order (p.output ++ outputOf (pieces order rest))) =
      decodedOf (pieces order (outputOf (pieces order rest))) := by
  cases htakes with
  | plain hc => exact decodedOf_pieces_cons hc _
  | marker =>
    have hnext : Piece.next? order (Piece.marker.output ++ outputOf (pieces order rest)) =
        some (.marker, outputOf (pieces order rest)) := rfl
    rw [pieces_of_next? hnext]
    rfl
  | @guarded _ _ e hread =>
    have hagain := readBody?_body_append_outputOf hinert (Escape.readBody?_eq_some_iff.1 hread).2
    have hnext : Piece.next? order ((Piece.guarded e).output ++ outputOf (pieces order rest)) =
        some (.guarded e, outputOf (pieces order rest)) := Piece.next?_guarded hagain
    rw [pieces_of_next? hnext]
    rfl
  | @escape _ _ e hread =>
    cases hchar : e.char? with
    | some c =>
      rw [Piece.output_escape hchar]
      exact decodedOf_pieces_quoteMeta (hp e c rfl hchar) _
    | none =>
      have hkept := Piece.decoded?_escape_none hchar
      have hagain := readBody?_body_append_outputOf hinert (Escape.readBody?_eq_some_iff.1 hread).2
      rw [Piece.output_eq_source_of_decoded? hkept]
      have hnext : Piece.next? order ((Piece.escape e).source ++ outputOf (pieces order rest)) =
          some (.escape e, outputOf (pieces order rest)) := Piece.next?_escape hagain
      rw [pieces_of_next? hnext, decodedOf, List.filterMap_cons_none hkept]
      rfl
  | backslash hnone =>
    have hnext := next?_backslash_outputOf hinert hnone
    have hout : (Piece.plain '\\').output ++ outputOf (pieces order rest) =
        '\\' :: outputOf (pieces order rest) := rfl
    rw [hout, pieces_of_next?_none hnext]
    rfl

/-- **A run.** Nothing is decoded in the result. -/
theorem decodedOf_pieces_outputOf (hinert : DecodesInert cs) :
    decodedOf (pieces order (outputOf (pieces order cs))) = [] := by
  induction hps : pieces order cs generalizing cs with
  | nil =>
    rw [outputOf, List.flatMap_nil, pieces]
    rfl
  | cons p ps ih =>
    obtain ⟨rest, rfl, htakes⟩ := exists_takes_of_pieces_eq_cons hps
    have hrest := hinert.of_pieces hps
    rw [outputOf, List.flatMap_cons]
    refine (decodedOf_step htakes hrest ?_).trans (ih hrest rfl)
    rintro e c rfl hchar
    exact (hinert.char_ne hps hchar).1

/-! ## Twice -/

/-- **Twice is once.** If no escape of the text is decoded to a backslash or to an upper-case
hexadecimal digit, no escape is decoded in the result, and it stays as it is. -/
theorem unescape_unescape (text : String) (h : ∀ d ∈ decodedEscapes text, d.Inert) :
    decodedEscapes (unescape text) = [] ∧ unescape (unescape text) = unescape text := by
  have hnone : decodedEscapes (unescape text) = [] := by
    rw [decodedEscapes, decodedWith, unescape, unescapeWith, String.toList_ofList]
    exact decodedOf_pieces_outputOf h
  exact ⟨hnone, unescape_eq_of_decodedEscapes_eq_nil hnone⟩

/-- A decoded `g` behind `\u00`, a decoded bracket before `\b]`, with which it becomes a marker, and
a decoded `n` behind a `\\c\` that was copied and behind the escape of a surrogate. -/
theorem unescape_unescape_seams :
    (∀ d ∈ decodedEscapes "\\u00\\x67\\x5B\\b]\\\\c\\\\x6E\\uD800\\x6E", d.Inert) ∧
      unescape "\\u00\\x67\\x5B\\b]\\\\c\\\\x6E\\uD800\\x6E" =
        "\\u00g\\[\\b]\\\\c\\n\\uD800n" ∧
      decodedEscapes "\\u00g\\[\\b]\\\\c\\n\\uD800n" = [] ∧
      unescape "\\u00g\\[\\b]\\\\c\\n\\uD800n" = "\\u00g\\[\\b]\\\\c\\n\\uD800n" := by
  have hinert : ∀ d ∈ decodedEscapes "\\u00\\x67\\x5B\\b]\\\\c\\\\x6E\\uD800\\x6E", d.Inert := by
    decide +kernel
  have hresult : unescape "\\u00\\x67\\x5B\\b]\\\\c\\\\x6E\\uD800\\x6E" =
      "\\u00g\\[\\b]\\\\c\\n\\uD800n" := by decide +kernel
  have hagain := unescape_unescape _ hinert
  rw [hresult] at hagain
  exact ⟨hinert, hresult, hagain⟩

/-- A decoded digit can complete an escape. -/
example : unescapeRepeatedly 2 "\\x4\\x31" = ["\\x41", "A"] := by decide +kernel

end PatternLex
