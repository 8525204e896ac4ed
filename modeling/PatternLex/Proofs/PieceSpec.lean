import PatternLex.Escape.Unescape

/-!
# What the cutting takes

The three alternatives of the cutting overlap as little as they can: no body of an escape begins
with a backslash, so a place where a backslash stands has at most one reading.
`next?_order_eq_some_iff` says which, and `pieces_of_next?` and `pieces_of_next?_none` say what the
cutting does with it.

Results:

* `body_head`: how a body may begin;
* `next?_order_eq_some_iff`: what is found at a place, with the alternatives in their order;
* `pieces_flatMap_source`: a text is cut from any of its pieces on as if it began there;
* `pieces_append_of_plain`: plain text is cut into single characters;
* `exists_takes_of_pieces_eq_cons`: what the cutting takes at a place, in five forms.
-/

namespace PatternLex

open Text

namespace Escape

/-- No body begins with a backslash, nor with the letter of the backspace marker. -/
theorem body_head (e : Escape) : ∃ c cs, e.body = c :: cs ∧ c ≠ '\\' ∧ c ≠ 'b' := by
  have hoctal : ∀ d, octalDigits.char d ≠ '\\' ∧ octalDigits.char d ≠ 'b' := by decide
  cases e with
  | unicode d₁ d₂ d₃ d₄ => exact ⟨_, _, rfl, by decide⟩
  | hex d₁ d₂ => exact ⟨_, _, rfl, by decide⟩
  | octal padded d₁ d₂ =>
    cases padded with
    | true => exact ⟨_, _, rfl, by decide⟩
    | false => exact ⟨_, _, rfl, hoctal d₁⟩
  | control symbol => exact ⟨_, _, rfl, by decide⟩
  | named name => exact ⟨_, _, rfl, by cases name <;> decide⟩

theorem readBody?_backslash (cs : List Char) : readBody? ('\\' :: cs) = none := by
  cases h : readBody? ('\\' :: cs) with
  | none => rfl
  | some found =>
    obtain ⟨e, rest⟩ := found
    obtain ⟨c, tail, heq, hc, -⟩ := e.body_head
    have hwhole := eq_body_append_of_readBody? h
    rw [heq, List.cons_append, List.cons.injEq] at hwhole
    exact absurd hwhole.1.symm hc

theorem readBody?_b (cs : List Char) : readBody? ('b' :: cs) = none := by
  cases h : readBody? ('b' :: cs) with
  | none => rfl
  | some found =>
    obtain ⟨e, rest⟩ := found
    obtain ⟨d, tail, hbody, -, hd⟩ := e.body_head
    have hwhole := eq_body_append_of_readBody? h
    rw [hbody, List.cons_append, List.cons.injEq] at hwhole
    exact absurd hwhole.1.symm hd

end Escape

namespace Piece

/-! ## The alternatives -/

theorem next?_guarded {mid rest : List Char} {e : Escape}
    (h : Escape.readBody? mid = some (e, rest)) :
    next? Alternative.order ('\\' :: '\\' :: mid) = some (.guarded e, rest) := by
  simp [next?, Alternative.order, Alternative.read?, h]

theorem next?_escape {mid rest : List Char} {e : Escape}
    (h : Escape.readBody? mid = some (e, rest)) :
    next? Alternative.order ('\\' :: mid) = some (.escape e, rest) := by
  have hguarded : Alternative.guarded.read? ('\\' :: mid) = none := by
    unfold Alternative.read?
    split
    · rename_i heq
      cases heq
    · rename_i cs heq
      -- a body of its own behind the second backslash would be a body that begins with it
      rw [(List.cons.inj heq).2, Escape.readBody?_backslash] at h
      cases h
    · rename_i hne _
      cases hne
    · rfl
  have hsingle : Alternative.single.read? ('\\' :: mid) = some (.escape e, rest) := by
    simp [Alternative.read?, h]
  have hmarker : Alternative.marker.read? ('\\' :: mid) = none := rfl
  simp only [next?, Alternative.order, List.findSome?_cons, hmarker, hguarded, hsingle]

theorem next?_doubled (mid : List Char) :
    next? Alternative.order ('\\' :: '\\' :: mid) =
      (Escape.readBody? mid).map fun (e, rest) => (.guarded e, rest) := by
  cases h : Escape.readBody? mid with
  | none => simp [next?, Alternative.order, Alternative.read?, h, Escape.readBody?_backslash]
  | some found => rw [next?_guarded h, Option.map_some]

theorem next?_lone {mid : List Char} (hmid : ∀ after, mid ≠ '\\' :: after) :
    next? Alternative.order ('\\' :: mid) =
      (Escape.readBody? mid).map fun (e, rest) => (.escape e, rest) := by
  cases h : Escape.readBody? mid with
  | none =>
    have hmarker : Alternative.marker.read? ('\\' :: mid) = none := rfl
    have hguarded : Alternative.guarded.read? ('\\' :: mid) = none := by
      unfold Alternative.read?
      split <;> simp_all
    have hsingle : Alternative.single.read? ('\\' :: mid) = none := by
      simp [Alternative.read?, h]
    simp only [next?, Alternative.order, List.findSome?_cons, List.findSome?_nil, hmarker, hguarded,
      hsingle, Option.map_none]
  | some found => rw [next?_escape h, Option.map_some]

theorem next?_backslash_append {mid more : List Char} (hmid : mid ≠ [])
    (hread : ∀ body, mid = body ∨ mid = '\\' :: body →
      Escape.readBody? (body ++ more) =
        (Escape.readBody? body).map fun (e, rest) => (e, rest ++ more)) :
    next? Alternative.order ('\\' :: (mid ++ more)) =
      (next? Alternative.order ('\\' :: mid)).map fun (p, rest) => (p, rest ++ more) := by
  obtain ⟨c, cs, rfl⟩ := List.exists_cons_of_ne_nil hmid
  by_cases hc : c = '\\'
  · subst hc
    simp only [List.cons_append, next?_doubled, hread cs (.inr rfl), Option.map_map,
      Function.comp_def]
  · have hlone : ∀ ds after, c :: ds ≠ '\\' :: after := fun ds after h => hc (List.cons.inj h).1
    have hbody := hread (c :: cs) (.inl rfl)
    rw [List.cons_append] at hbody
    simp only [List.cons_append, next?_lone (hlone _), hbody, Option.map_map, Function.comp_def]

theorem next?_order_eq_some_iff {cs rest : List Char} {p : Piece} :
    next? Alternative.order cs = some (p, rest) ↔
      (p = .marker ∧ cs = '[' :: '\\' :: 'b' :: ']' :: rest) ∨
      (∃ e mid, p = .guarded e ∧ cs = '\\' :: '\\' :: mid ∧
        Escape.readBody? mid = some (e, rest)) ∨
      ∃ e mid, p = .escape e ∧ cs = '\\' :: mid ∧ Escape.readBody? mid = some (e, rest) := by
  refine ⟨fun h => ?_, ?_⟩
  · obtain ⟨a, -, hfits⟩ := List.exists_of_findSome?_eq_some h
    unfold Alternative.read? at hfits
    split at hfits
    · rw [Option.some.injEq, Prod.mk.injEq] at hfits
      exact .inl ⟨hfits.1.symm, by rw [hfits.2]⟩
    · obtain ⟨⟨e, after⟩, hbody, heq⟩ := Option.map_eq_some_iff.1 hfits
      rw [Prod.mk.injEq] at heq
      exact .inr (.inl ⟨e, _, heq.1.symm, rfl, by rw [hbody, heq.2]⟩)
    · obtain ⟨⟨e, after⟩, hbody, heq⟩ := Option.map_eq_some_iff.1 hfits
      rw [Prod.mk.injEq] at heq
      exact .inr (.inr ⟨e, _, heq.1.symm, rfl, by rw [hbody, heq.2]⟩)
    · cases hfits
  · intro h
    rcases h with ⟨rfl, rfl⟩ | ⟨e, mid, rfl, rfl, hbody⟩ | ⟨e, mid, rfl, rfl, hbody⟩
    · rfl
    · exact next?_guarded hbody
    · exact next?_escape hbody

theorem next?_order_eq_none {c : Char} {cs : List Char} (hc : c ≠ '\\')
    (hmarker : ∀ after, cs ≠ '\\' :: 'b' :: ']' :: after) :
    next? Alternative.order (c :: cs) = none := by
  cases h : next? Alternative.order (c :: cs) with
  | none => rfl
  | some found =>
    exfalso
    obtain ⟨p, rest⟩ := found
    rcases next?_order_eq_some_iff.1 h with
      ⟨-, heq⟩ | ⟨e, mid, -, heq, -⟩ | ⟨e, mid, -, heq, -⟩
    · exact hmarker rest (List.cons.inj heq).2
    · exact hc (List.cons.inj heq).1
    · exact hc (List.cons.inj heq).1

theorem readBody?_of_next?_none {cs : List Char}
    (h : next? Alternative.order ('\\' :: cs) = none) : Escape.readBody? cs = none := by
  cases hread : Escape.readBody? cs with
  | none => rfl
  | some found =>
    rw [Piece.next?_escape hread] at h
    cases h

end Piece

theorem next?_eq_some_iff_of_ne {c : Char} {cs rest : List Char} {p : Piece} (hc : c ≠ '\\') :
    Piece.next? Piece.Alternative.order (c :: cs) = some (p, rest) ↔
      p = .marker ∧ c = '[' ∧ cs = '\\' :: 'b' :: ']' :: rest := by
  simp only [Piece.next?_order_eq_some_iff, List.cons.injEq]
  refine ⟨fun h => ?_, .inl⟩
  rcases h with h | ⟨e, mid, -, heq, -⟩ | ⟨e, mid, -, heq, -⟩
  · exact h
  · exact absurd heq.1 hc
  · exact absurd heq.1 hc

/-! ## The pieces -/

theorem pieces_of_next? {order : List Piece.Alternative} {cs rest : List Char} {p : Piece}
    (h : Piece.next? order cs = some (p, rest)) : pieces order cs = p :: pieces order rest := by
  cases cs with
  | nil => simpa using Piece.length_lt_of_next? h
  | cons c cs =>
    rw [pieces]
    split
    · rename_i q left hq
      rw [h, Option.some.injEq, Prod.mk.injEq] at hq
      rw [hq.1, hq.2]
    · rename_i hq
      rw [h] at hq
      cases hq

theorem pieces_of_next?_none {order : List Piece.Alternative} {c : Char} {cs : List Char}
    (h : Piece.next? order (c :: cs) = none) :
    pieces order (c :: cs) = .plain c :: pieces order cs := by
  rw [pieces]
  split
  · rename_i q left hq
    rw [h] at hq
    cases hq
  · rfl

/-- What stands first in a cut text: a piece that is found there, or a character where none is. -/
theorem next?_of_pieces_eq_cons {order : List Piece.Alternative} {cs : List Char} {p : Piece}
    {ps : List Piece} (h : pieces order cs = p :: ps) :
    ∃ rest, pieces order rest = ps ∧
      (Piece.next? order cs = some (p, rest) ∨
        ∃ c, p = .plain c ∧ cs = c :: rest ∧ Piece.next? order cs = none) := by
  cases cs with
  | nil =>
    rw [pieces] at h
    cases h
  | cons c cs =>
    cases hnext : Piece.next? order (c :: cs) with
    | none =>
      rw [pieces_of_next?_none hnext, List.cons.injEq] at h
      exact ⟨cs, h.2, .inr ⟨c, h.1.symm, rfl, rfl⟩⟩
    | some found =>
      obtain ⟨q, rest⟩ := found
      rw [pieces_of_next? hnext, List.cons.injEq] at h
      exact ⟨rest, h.2, .inl (by rw [h.1])⟩

/-- **The cutting forgets.** From any of its pieces on, a text is cut as if it began there. -/
theorem pieces_flatMap_source {order : List Piece.Alternative} {cs : List Char}
    {ps qs : List Piece} (h : pieces order cs = ps ++ qs) :
    pieces order (qs.flatMap Piece.source) = qs := by
  induction ps generalizing cs with
  | nil => rw [← List.nil_append qs, ← h, flatMap_source_pieces]
  | cons p ps ih =>
    obtain ⟨rest, hrest, -⟩ := next?_of_pieces_eq_cons h
    exact ih hrest

theorem pieces_append_of_plain {cs rest : List Char} (hplain : '\\' ∉ cs)
    (hmarker : ∀ after, rest ≠ '\\' :: 'b' :: ']' :: after) :
    pieces Piece.Alternative.order (cs ++ rest) =
      cs.map .plain ++ pieces Piece.Alternative.order rest := by
  induction cs with
  | nil => rfl
  | cons c cs ih =>
    rw [List.mem_cons, not_or] at hplain
    have hnext : ∀ after, cs ++ rest ≠ '\\' :: 'b' :: ']' :: after := by
      intro after heq
      cases cs with
      | nil => exact hmarker after heq
      | cons d cs =>
        have hd : d = '\\' := (List.cons.inj heq).1
        exact hplain.2 (hd ▸ List.mem_cons_self)
    have hnone := Piece.next?_order_eq_none (Ne.symm hplain.1) hnext
    rw [List.cons_append, pieces_of_next?_none hnone, ih hplain.2]
    rfl

/-! ## Steps of the cutting -/

/-- What the cutting takes at a place: the piece, and what is left. -/
inductive Takes : List Char → Piece → List Char → Prop where
  | plain {c : Char} {rest : List Char} : c ≠ '\\' → Takes (c :: rest) (.plain c) rest
  | marker {rest : List Char} : Takes ('[' :: '\\' :: 'b' :: ']' :: rest) .marker rest
  | guarded {mid rest : List Char} {e : Escape} : Escape.readBody? mid = some (e, rest) →
      Takes ('\\' :: '\\' :: mid) (.guarded e) rest
  | escape {mid rest : List Char} {e : Escape} : Escape.readBody? mid = some (e, rest) →
      Takes ('\\' :: mid) (.escape e) rest
  | backslash {rest : List Char} : Piece.next? Piece.Alternative.order ('\\' :: rest) = none →
      Takes ('\\' :: rest) (.plain '\\') rest

theorem exists_takes_of_pieces_eq_cons {cs : List Char} {p : Piece} {ps : List Piece}
    (h : pieces Piece.Alternative.order cs = p :: ps) :
    ∃ rest, pieces Piece.Alternative.order rest = ps ∧ Takes cs p rest := by
  obtain ⟨rest, hrest, hnext | ⟨c, rfl, rfl, hnone⟩⟩ := next?_of_pieces_eq_cons h
  · refine ⟨rest, hrest, ?_⟩
    rcases Piece.next?_order_eq_some_iff.1 hnext with
      ⟨rfl, rfl⟩ | ⟨e, mid, rfl, rfl, hread⟩ | ⟨e, mid, rfl, rfl, hread⟩
    · exact .marker
    · exact .guarded hread
    · exact .escape hread
  · refine ⟨rest, hrest, ?_⟩
    by_cases hc : c = '\\'
    · subst hc
      exact .backslash hnone
    · exact .plain hc

end PatternLex
