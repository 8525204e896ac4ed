import PatternLex.Event
import PatternLex.Proofs.BodySpec

/-!
# Which escapes are decoded

A piece is found at a place only if no piece before it has taken the place already, so each escape
seems to depend on all the text before it. It does not. At a seam (`Seam`), which no piece reaches
over, a text may be cut in two, and there are only two ways to reach over a backslash: as the second
of a doubled backslash, and as the symbol of a control escape. So the two characters before an
escape decide whether it is decoded.

Results:

* `pieces_append_of_seam`: the two parts of a text with a seam are cut separately;
* `seam_backslash`: where there is a seam before a backslash;
* `pieces_append_escape`, `pieces_append_guarded`: what is cut out there;
* `unescape_at_backslash`: which escapes are decoded, and which are copied.
-/

namespace PatternLex

open Text

/-- From every place in `a`, the same piece is found before `b` as at the end of the text. -/
def Seam (order : List Piece.Alternative) (a b : List Char) : Prop :=
  ∀ cs, cs <:+ a → cs ≠ [] →
    Piece.next? order (cs ++ b) =
      (Piece.next? order cs).map fun (p, rest) => (p, rest ++ b)

theorem Seam.of_suffix {order : List Piece.Alternative} {a a' b : List Char} (h : Seam order a b)
    (ha : a' <:+ a) : Seam order a' b :=
  fun cs hcs => h cs (hcs.trans ha)

/-- **Two parts.** A text with a seam in it is cut at the seam, and the parts are cut separately. -/
theorem pieces_append_of_seam {order : List Piece.Alternative} {a b : List Char}
    (h : Seam order a b) : pieces order (a ++ b) = pieces order a ++ pieces order b := by
  fun_induction pieces order a with
  | case1 => rfl
  | case2 c cs p rest hnext ih =>
    have hrest : rest <:+ c :: cs := ⟨p.source, (Piece.eq_source_append_of_next? hnext).symm⟩
    have hwhole := h (c :: cs) (List.suffix_refl _) (List.cons_ne_nil c cs)
    rw [hnext, Option.map_some] at hwhole
    rw [pieces_of_next? hwhole, ih (h.of_suffix hrest), List.cons_append]
  | case3 c cs hnext ih =>
    have hwhole := h (c :: cs) (List.suffix_refl _) (List.cons_ne_nil c cs)
    rw [hnext, Option.map_none, List.cons_append] at hwhole
    rw [List.cons_append, pieces_of_next?_none hwhole, ih (h.of_suffix (List.suffix_cons c cs)),
      List.cons_append]

/-! ## Seams before a backslash -/

theorem next?_append_backslash_of_ne {c : Char} {cs after : List Char} (hc : c ≠ '\\')
    (hb : ∀ rest, after ≠ 'b' :: rest) :
    Piece.next? Piece.Alternative.order (c :: (cs ++ '\\' :: after)) =
      (Piece.next? Piece.Alternative.order (c :: cs)).map
        fun (p, rest) => (p, rest ++ '\\' :: after) := by
  apply Option.ext
  intro found
  obtain ⟨p, left⟩ := found
  simp only [Option.map_eq_some_iff, Prod.exists, Prod.mk.injEq, next?_eq_some_iff_of_ne hc]
  refine ⟨fun h => ?_, fun h => ?_⟩
  · obtain ⟨rfl, rfl, heq⟩ := h
    -- the marker ends within `cs`, for its backslash is not its last character
    rcases cs with _ | ⟨c₁, _ | ⟨c₂, _ | ⟨c₃, cs⟩⟩⟩
    · exact absurd (List.cons.inj heq).2 (hb _)
    · exact absurd (List.cons.inj (List.cons.inj heq).2).1 (by decide)
    · exact absurd (List.cons.inj (List.cons.inj (List.cons.inj heq).2).2).1 (by decide)
    · simp only [List.cons_append, List.cons.injEq] at heq
      obtain ⟨rfl, rfl, rfl, rfl⟩ := heq
      exact ⟨.marker, cs, ⟨rfl, rfl, rfl⟩, rfl, rfl⟩
  · obtain ⟨p', rest, ⟨rfl, rfl, rfl⟩, rfl, rfl⟩ := h
    exact ⟨rfl, rfl, rfl⟩

/-- There is a seam before a backslash, unless the character before it is a backslash too and guards
a body, or it is the symbol of a control escape, or the backslash of a marker. -/
theorem seam_backslash {a after : List Char} (hb : ∀ rest, after ≠ 'b' :: rest)
    (hguard : ['\\'] <:+ a → Escape.readBody? after = none) (hcontrol : ¬ ['\\', 'c'] <:+ a) :
    Seam Piece.Alternative.order a ('\\' :: after) := by
  intro cs hcs hne
  obtain ⟨c, cs, rfl⟩ := List.exists_cons_of_ne_nil hne
  by_cases hc : c = '\\'
  · subst hc
    cases cs with
    | nil =>
      have hnone : Piece.next? Piece.Alternative.order ['\\'] = none := by decide
      rw [List.singleton_append, Piece.next?_doubled, hguard hcs, hnone]
      rfl
    | cons d cs =>
      refine Piece.next?_backslash_append (List.cons_ne_nil d cs) fun body hbody =>
        Escape.readBody?_append_cons (by decide) ?_ after
      rintro rfl
      rcases hbody with hbody | hbody <;> rw [hbody] at hcs
      · exact hcontrol hcs
      · exact hcontrol ((List.suffix_cons '\\' _).trans hcs)
  · exact next?_append_backslash_of_ne hc hb

/-! ## Cuts at a backslash -/

/-- An escape that no backslash guards, and whose backslash is not a symbol, is a piece. -/
theorem pieces_append_escape {a after rest : List Char} {e : Escape}
    (hread : Escape.readBody? after = some (e, rest)) (hback : ¬ ['\\'] <:+ a)
    (hcontrol : ¬ ['\\', 'c'] <:+ a) :
    pieces Piece.Alternative.order (a ++ '\\' :: after) =
      pieces Piece.Alternative.order a ++ .escape e :: pieces Piece.Alternative.order rest := by
  have hb : ∀ rest, after ≠ 'b' :: rest := by
    intro rest heq
    obtain ⟨d, tail, hbody, -, hd⟩ := e.body_head
    rw [Escape.eq_body_append_of_readBody? hread, hbody, List.cons_append, List.cons.injEq] at heq
    exact hd heq.1
  have hseam := seam_backslash hb (fun h => absurd h hback) hcontrol
  rw [pieces_append_of_seam hseam, pieces_of_next? (Piece.next?_escape hread)]

theorem pieces_append_guarded {a after rest : List Char} {e : Escape}
    (hread : Escape.readBody? after = some (e, rest)) (hcontrol : ¬ ['\\', 'c'] <:+ a) :
    pieces Piece.Alternative.order (a ++ '\\' :: '\\' :: after) =
      pieces Piece.Alternative.order a ++ .guarded e :: pieces Piece.Alternative.order rest := by
  have hb : ∀ rest, '\\' :: after ≠ 'b' :: rest := by simp
  have hseam := seam_backslash hb (fun _ => Escape.readBody?_backslash after) hcontrol
  rw [pieces_append_of_seam hseam, pieces_of_next? (Piece.next?_guarded hread)]

theorem unescape_of_pieces_eq {text before rest : String} {p : Piece}
    (h : pieces Piece.Alternative.order text.toList =
      pieces Piece.Alternative.order before.toList ++
        p :: pieces Piece.Alternative.order rest.toList) :
    unescape text = unescape before ++ String.ofList p.output ++ unescape rest ∧
      Event.ofUnescape text =
        Event.ofUnescape before ++ (p.decoded?.map .escapeDecoded).toList ++
          Event.ofUnescape rest := by
  rw [List.append_cons] at h
  refine ⟨?_, ?_⟩
  · unfold unescape unescapeWith
    rw [h, outputOf_append, outputOf_append, String.ofList_append, String.ofList_append]
    simp [outputOf]
  · unfold Event.ofUnescape decodedEscapes decodedWith
    rw [h, decodedOf_append, decodedOf_append, List.map_append, List.map_append]
    cases hp : p.decoded? <;> simp [decodedOf, hp]

/-! ## The rule -/

/-- **Which escapes are decoded.** Where a body stands behind a backslash, the first of its forms
counts. If no backslash stands before that, and no `\c`, and the value is a character, the escape is
decoded: the result and the events are those of the text before it and of the text behind it, with
this one between them. If another backslash stands before it, which is not the symbol of a control
escape, both backslashes and the body are copied and there is no event between the others. -/
theorem unescape_at_backslash (before after : String)
    (h : ∃ e : Escape, e.body <+: after.toList) :
    ∃ (e : Escape) (rest : String), e.FirstBody after.toList rest.toList ∧
      (¬ ['\\'] <:+ before.toList → ¬ ['\\', 'c'] <:+ before.toList →
        ∀ c : Char, c.toNat = e.value →
          unescape (before ++ "\\" ++ after) =
            unescape before ++ String.ofList (quoteMeta c) ++ unescape rest ∧
          Event.ofUnescape (before ++ "\\" ++ after) =
            Event.ofUnescape before ++
              [.escapeDecoded ⟨String.ofList e.spelling, e.value⟩] ++ Event.ofUnescape rest) ∧
      ∀ outer : String, before = outer ++ "\\" → ¬ ['c'] <:+ outer.toList →
        unescape (before ++ "\\" ++ after) =
          unescape outer ++ String.ofList ('\\' :: e.spelling) ++ unescape rest ∧
        Event.ofUnescape (before ++ "\\" ++ after) =
          Event.ofUnescape outer ++ Event.ofUnescape rest := by
  obtain ⟨e₀, h₀⟩ := h
  obtain ⟨e, left, hread, -⟩ := Escape.exists_readBody?_of_prefix h₀
  have hleft : (String.ofList left).toList = left := String.toList_ofList
  refine ⟨e, String.ofList left, ?_, ?_, ?_⟩
  · rw [hleft]
    exact Escape.readBody?_eq_some_iff_firstBody.1 hread
  · intro hback hcontrol c hc
    have hcut := pieces_append_escape hread hback hcontrol
    have htext : (before ++ "\\" ++ after).toList = before.toList ++ '\\' :: after.toList := by
      simp
    rw [← hleft, ← htext] at hcut
    have hchar := Escape.char?_eq_some_iff.2 hc
    have hwhole := unescape_of_pieces_eq hcut
    rw [Piece.output_escape hchar, Piece.decoded?_escape hchar, hc] at hwhole
    exact hwhole
  · intro outer hbefore hcontrol
    subst hbefore
    have hcut := pieces_append_guarded hread fun h =>
      hcontrol ((List.suffix_cons '\\' ['c']).trans h)
    have htext : (outer ++ "\\" ++ "\\" ++ after).toList =
        outer.toList ++ '\\' :: '\\' :: after.toList := by
      simp
    rw [← hleft, ← htext] at hcut
    have hkept : (Piece.guarded e).decoded? = none := rfl
    have hwhole := unescape_of_pieces_eq hcut
    rw [hkept, Option.map_none, Option.toList_none, List.append_nil] at hwhole
    exact hwhole

/-- Behind `\c\n` an escape is decoded, since no backslash stands just before it; behind four
backslashes it is not. Of the three bodies that begin `0129` the padded one is read. -/
theorem unescape_at_backslash_padded :
    (∃ e : Escape, e.body <+: "0129".toList) ∧
      unescape ("\\c\\n" ++ "\\" ++ "0129") = unescape "\\c\\n" ++ "\n" ++ unescape "9" ∧
      Event.ofUnescape ("\\c\\n" ++ "\\" ++ "0129") =
        Event.ofUnescape "\\c\\n" ++ [.escapeDecoded ⟨"\\012", 10⟩] ++ Event.ofUnescape "9" ∧
      unescape ("\\\\\\" ++ "\\" ++ "0129") = unescape "\\\\" ++ "\\\\012" ++ unescape "9" ∧
      Event.ofUnescape ("\\\\\\" ++ "\\" ++ "0129") =
        Event.ofUnescape "\\\\" ++ Event.ofUnescape "9" := by
  have hbody : ∃ e : Escape, e.body <+: "0129".toList := ⟨.octal true 1 2, by decide⟩
  have hread : Escape.readBody? "0129".toList = some (.octal true 1 2, ['9']) := by decide
  obtain ⟨e, rest, hfirst, hdecoded, -⟩ := unescape_at_backslash "\\c\\n" "0129" hbody
  obtain ⟨e', rest', hfirst', -, hcopied⟩ := unescape_at_backslash "\\\\\\" "0129" hbody
  rw [← Escape.readBody?_eq_some_iff_firstBody, hread, Option.some.injEq, Prod.mk.injEq]
    at hfirst hfirst'
  obtain ⟨rfl, hleft⟩ := hfirst
  obtain ⟨rfl, hleft'⟩ := hfirst'
  obtain rfl : rest = "9" := String.toList_inj.1 hleft.symm
  obtain rfl : rest' = "9" := String.toList_inj.1 hleft'.symm
  have hd := hdecoded (by decide) (by decide) '\n' (by decide)
  have hc := hcopied "\\\\" (by decide) (by decide)
  exact ⟨hbody, hd.1, hd.2, hc.1, hc.2⟩

end PatternLex
