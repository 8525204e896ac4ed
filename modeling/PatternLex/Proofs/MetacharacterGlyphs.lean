import Mathlib.Algebra.Group.Nat.Even
import Mathlib.Data.List.DropRight
import PatternLex.Proofs.BodySpec
import PatternLex.Text.Glyph

/-!
# Decoded metacharacters in the result

A decoded metacharacter comes with a backslash, but what that backslash does depends on what stands
before it: behind an open backslash it is itself escaped, and the metacharacter is bare. A backslash
is open only behind an escape that was decoded to a backslash, or behind a doubled `\c\` that was
copied; every other piece leaves the result with whole glyphs where an escape follows.

Results:

* `Piece.eq_of_getLast?_output`: the pieces that end the result in a backslash;
* `complete_outputOf`, `complete_outputOf_iff`: where the result is complete before an escape;
* `escapedAt_iff_even`: a decoded metacharacter is escaped in the result exactly if it stands behind
  an even number of decoded backslashes.
-/

namespace PatternLex

open Text

/-! ## Before an escape -/

theorem readBody?_of_pieces_eq {cs : List Char} {ps qs : List Piece} {e : Escape}
    (h : pieces Piece.Alternative.order cs = ps ++ .escape e :: qs) :
    Escape.readBody? (e.body ++ qs.flatMap Piece.source) =
      some (e, qs.flatMap Piece.source) := by
  obtain ⟨rest, -, hnext | ⟨c, hplain, -⟩⟩ := next?_of_pieces_eq_cons (pieces_flatMap_source h)
  · rcases Piece.next?_order_eq_some_iff.1 hnext with
      ⟨hp, -⟩ | ⟨e', mid, hp, -⟩ | ⟨e', mid, hp, hmid, hread⟩
    · cases hp
    · cases hp
    · cases hp
      have hbody : e.body ++ qs.flatMap Piece.source = mid := (List.cons.inj hmid).2
      have hrest := Escape.eq_body_append_of_readBody? hread
      rw [← hbody, List.append_cancel_left_eq] at hrest
      rw [hbody, hread, hrest]
  · cases hplain

/-- A backslash just before an escape would have been taken with it. -/
theorem pieces_ne_plain_backslash {cs : List Char} {ps qs : List Piece} {e : Escape} :
    pieces Piece.Alternative.order cs ≠ ps ++ .plain '\\' :: .escape e :: qs := by
  intro h
  have hescape : pieces Piece.Alternative.order cs = (ps ++ [.plain '\\']) ++ .escape e :: qs := by
    rw [h, List.append_cons]
  have hread := readBody?_of_pieces_eq hescape
  have hcut := pieces_flatMap_source h
  have htext : (Piece.plain '\\' :: .escape e :: qs).flatMap Piece.source =
      '\\' :: '\\' :: (e.body ++ qs.flatMap Piece.source) := rfl
  rw [htext, pieces_of_next? (Piece.next?_guarded hread)] at hcut
  cases hcut

namespace Piece

/-- An escape that becomes a backslash. -/
def isBackslash : Piece → Bool
  | escape e => e.char? = some '\\'
  | _ => false

theorem exists_of_isBackslash {p : Piece} (h : p.isBackslash = true) :
    ∃ e, p = .escape e ∧ e.char? = some '\\' := by
  cases p with
  | escape e => exact ⟨e, rfl, of_decide_eq_true h⟩
  | _ => cases h

theorem output_of_isBackslash {p : Piece} (h : p.isBackslash = true) : p.output = ['\\'] := by
  obtain ⟨e, rfl, hchar⟩ := exists_of_isBackslash h
  rw [output_escape hchar]
  rfl

theorem output_ne_nil (p : Piece) : p.output ≠ [] := by
  unfold output
  split
  · split
    · unfold quoteMeta
      split <;> simp
    · simp [Escape.spelling]
  · exact p.source_ne_nil

theorem getLast?_quoteMeta (c : Char) : (quoteMeta c).getLast? = some c := by
  unfold quoteMeta
  split <;> rfl

theorem eq_controlBackslash_of_getLast?_spelling {e : Escape}
    (h : e.spelling.getLast? = some '\\') : e = .controlBackslash := by
  rw [Escape.spelling, List.getLast?_cons, List.getLast?_eq_some_getLast e.body_ne_nil,
    Option.getD_some, Option.some.injEq] at h
  exact Escape.backslash_mem_body_iff.1 (h ▸ List.getLast_mem e.body_ne_nil)

/-- The pieces that end the result in a backslash. -/
theorem eq_of_getLast?_output {p : Piece} (h : p.output.getLast? = some '\\') :
    p = .plain '\\' ∨ p = .guarded .controlBackslash ∨ p.isBackslash = true := by
  cases p with
  | plain c =>
    have hc : c = '\\' := Option.some.inj h
    exact .inl (by rw [hc])
  | marker => exact absurd h (by decide)
  | guarded e =>
    have hspelling : e.spelling.getLast? = some '\\' := h
    exact .inr (.inl (by rw [eq_controlBackslash_of_getLast?_spelling hspelling]))
  | escape e =>
    cases hchar : e.char? with
    | none =>
      rw [output_eq_source_of_decoded? (decoded?_escape_none hchar)] at h
      have he := eq_controlBackslash_of_getLast?_spelling h
      -- this one does have a character
      subst he
      cases hchar
    | some c =>
      rw [output_escape hchar, getLast?_quoteMeta, Option.some.injEq] at h
      subst h
      exact .inr (.inr (decide_eq_true hchar))

end Piece

/-- **Whole glyphs.** Before a decoded escape the result is complete, unless a decoded backslash or
a copied `\\c\` stands there. -/
theorem complete_outputOf {cs : List Char} {ps qs : List Piece} {e : Escape}
    (hcut : pieces Piece.Alternative.order cs = ps ++ .escape e :: qs)
    (hguard : ps.getLast? ≠ some (.guarded .controlBackslash))
    (hback : ∀ p, ps.getLast? = some p → p.isBackslash = false) : Complete (outputOf ps) := by
  rcases ps.eq_nil_or_concat with rfl | ⟨init, p, rfl⟩
  · exact complete_nil
  · have hlast : (init.concat p).getLast? = some p := by simp
    refine complete_of_getLast?_ne fun h => ?_
    have hp : p.output.getLast? = some '\\' := by
      have hout : outputOf (init.concat p) = outputOf init ++ p.output := by
        simp [outputOf]
      rwa [hout, List.getLast?_append_of_ne_nil _ p.output_ne_nil] at h
    rcases Piece.eq_of_getLast?_output hp with rfl | rfl | hp
    · rw [List.concat_eq_append, List.append_assoc, List.singleton_append] at hcut
      exact pieces_ne_plain_backslash hcut
    · exact hguard hlast
    · rw [hback p hlast] at hp
      cases hp

/-! ## Behind decoded backslashes -/

theorem outputOf_of_isBackslash {run : List Piece} (h : ∀ p ∈ run, p.isBackslash = true) :
    outputOf run = List.replicate run.length '\\' := by
  induction run with
  | nil => rfl
  | cons p run ih =>
    rw [List.forall_mem_cons] at h
    have hrun := ih h.2
    unfold outputOf at hrun ⊢
    rw [List.flatMap_cons, Piece.output_of_isBackslash h.1, hrun]
    rfl

theorem complete_replicate_iff (n : Nat) : Complete (List.replicate n '\\') ↔ Even n := by
  induction n using Nat.twoStepInduction with
  | zero => simp
  | one => simp [Complete, glyphs]
  | more n ih _ =>
    simp only [List.replicate_succ, complete_escaped_iff, ih, Nat.even_add_one, not_not]

theorem isBackslash_getLast?_rdropWhile {ps : List Piece} {p : Piece}
    (h : (ps.rdropWhile Piece.isBackslash).getLast? = some p) : p.isBackslash = false := by
  have hne : ps.rdropWhile Piece.isBackslash ≠ [] := by
    intro hnil
    rw [hnil] at h
    cases h
  rw [List.getLast?_eq_some_getLast hne, Option.some.injEq] at h
  rw [← h, ← Bool.not_eq_true]
  exact List.rdropWhile_last_not _ _ hne

/-- **Open or whole.** Of the decoded backslashes just before a decoded escape each two are a glyph,
so the result is complete there exactly if their number is even. -/
theorem complete_outputOf_iff {cs : List Char} {ps qs : List Piece} {e : Escape}
    (hcut : pieces Piece.Alternative.order cs = ps ++ .escape e :: qs)
    (hguard : (ps.rdropWhile Piece.isBackslash).getLast? ≠
      some (.guarded .controlBackslash)) :
    Complete (outputOf ps) ↔ Even (ps.rtakeWhile Piece.isBackslash).length := by
  have hps : ps.rdropWhile Piece.isBackslash ++ ps.rtakeWhile Piece.isBackslash = ps :=
    List.rdropWhile_append_rtakeWhile
  have hrun : ∀ p ∈ ps.rtakeWhile Piece.isBackslash, p.isBackslash = true :=
    fun p hp => List.mem_rtakeWhile_imp hp
  have hlast : ∀ p, (ps.rdropWhile Piece.isBackslash).getLast? = some p →
      p.isBackslash = false := fun p => isBackslash_getLast?_rdropWhile
  generalize ps.rdropWhile Piece.isBackslash = before at hps hguard hlast
  generalize ps.rtakeWhile Piece.isBackslash = run at hps hrun
  subst hps
  have hwhole : Complete (outputOf before) := by
    rw [List.append_assoc] at hcut
    -- the piece behind `before` is an escape, of the row or the last one
    cases run with
    | nil => exact complete_outputOf hcut hguard hlast
    | cons p run =>
      obtain ⟨e', rfl, -⟩ := Piece.exists_of_isBackslash (hrun p List.mem_cons_self)
      exact complete_outputOf hcut hguard hlast
  rw [outputOf_append, outputOf_of_isBackslash hrun, complete_append_iff hwhole,
    complete_replicate_iff]

/-! ## Decoded metacharacters -/

/-- Wherever an escape is decoded to a metacharacter, that is escaped in the result. -/
def MetacharactersEscaped (text : String) : Prop :=
  ∀ (ps qs : List Piece) (e : Escape) (c : Char),
    pieces Piece.Alternative.order text.toList = ps ++ .escape e :: qs →
      e.char? = some c → c ∈ metacharacters →
        EscapedAt (unescape text).toList ((outputOf ps).length + 1)

/-- A decoded backslash takes the backslash of the metacharacter behind it. -/
theorem not_metacharactersEscaped_behind_backslash :
    ¬ MetacharactersEscaped "\\x5C\\x2A" := by
  intro h
  have hcut : pieces Piece.Alternative.order "\\x5C\\x2A".toList =
      [.escape (.hex 5 12)] ++ .escape (.hex 2 10) :: [] := by decide +kernel
  have hresult : (unescape "\\x5C\\x2A").toList = ['\\'] ++ '\\' :: '*' :: [] := by
    decide +kernel
  have hplace := h _ _ _ '*' hcut (by decide) (by decide)
  rw [hresult] at hplace
  have hwhole : Complete ['\\'] := escapedAt_append_iff.1 hplace
  simp [Complete, glyphs] at hwhole

/-- **Decoded metacharacters.** A decoded metacharacter is put into the result behind a backslash.
It is escaped there exactly if an even number of decoded backslashes stand one behind the other just
before it. The row of them, or the metacharacter if there are none, is not to stand just behind a
copied `\\c\`. -/
theorem escapedAt_iff_even (text : String) {ps qs : List Piece} {e : Escape} {c : Char}
    (hcut : pieces Piece.Alternative.order text.toList = ps ++ .escape e :: qs)
    (hc : e.char? = some c) (hmeta : c ∈ metacharacters)
    (hguard : (ps.rdropWhile Piece.isBackslash).getLast? ≠
      some (.guarded .controlBackslash)) :
    (unescape text).toList = outputOf ps ++ '\\' :: c :: outputOf qs ∧
      (EscapedAt (unescape text).toList ((outputOf ps).length + 1) ↔
        Even (ps.rtakeWhile Piece.isBackslash).length) := by
  have hresult : (unescape text).toList = outputOf ps ++ '\\' :: c :: outputOf qs := by
    have hout : outputOf (.escape e :: qs) = '\\' :: c :: outputOf qs := by
      rw [outputOf, List.flatMap_cons, Piece.output_escape hc, quoteMeta, if_pos hmeta]
      rfl
    rw [unescape, unescapeWith, String.toList_ofList, hcut, outputOf_append, hout]
  rw [hresult, escapedAt_append_iff]
  exact ⟨rfl, complete_outputOf_iff hcut hguard⟩

/-- Two decoded backslashes are a glyph of their own. -/
theorem escapedAt_iff_even_two :
    (unescape "\\\\n\\x5C\\x5C\\x2A").toList = "\\\\n\\\\\\*".toList ∧
      EscapedAt "\\\\n\\\\\\*".toList 6 := by
  have hcut : pieces Piece.Alternative.order "\\\\n\\x5C\\x5C\\x2A".toList =
      [.guarded (.named .lineFeed), .escape (.hex 5 12), .escape (.hex 5 12)] ++
        .escape (.hex 2 10) :: [] := by decide +kernel
  have hchar : (Escape.hex 2 10).char? = some '*' := by decide
  obtain ⟨hresult, hplace⟩ :=
    escapedAt_iff_even "\\\\n\\x5C\\x5C\\x2A" hcut hchar (by decide) (by decide)
  have htext : outputOf [.guarded (.named .lineFeed), .escape (.hex 5 12), .escape (.hex 5 12)] ++
      '\\' :: '*' :: outputOf [] = "\\\\n\\\\\\*".toList := by decide
  rw [htext] at hresult
  rw [hresult] at hplace
  exact ⟨hresult, hplace.2 (by decide)⟩

end PatternLex
