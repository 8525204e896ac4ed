import PatternLex.Proofs.ReaderSpec
import PatternLex.Text.Glyph

/-!
# Where a class closes

The reader takes one to five characters a step and knows nothing of glyphs. Still its steps keep to
them: it never stops inside a glyph and never passes a bare closing bracket, but for one way to part
from them. In `a-\]` the range runs to the backslash, so the reader stands between the backslash and
the bracket that it escapes, and closes there.

The invariant of a run is `Inside`: from the beginning of the class to the place that is reached,
the glyphs are whole and none of them is a bare closing bracket.

Results:

* `inside_of_next?`: one step keeps to the glyphs, or ends the text, or parts from them;
* `inside_of_readBodyWith?`: the same for a whole body;
* `readBodyWith?_of_bare_mem`: a bare closing bracket closes the class;
* `read_closes_at_bare_bracket`: the place where a class closes.
-/

namespace PatternLex

open Text

namespace CharClass

open Production

variable {S : Type} {sets : SetProvider S}

/-- The bytes up to and with the first glyph that is a bare closing bracket. -/
def bareBracketEnd? (cs : List Char) : Option Nat :=
  if Glyph.bare ']' ∈ glyphs cs then
    some (byteLength (((glyphs cs).takeWhile (· ≠ .bare ']')).flatMap Glyph.source) + 1)
  else none

/-- From the one place to the other the glyphs are whole, and none is a bare closing bracket. -/
def Inside (cs rest : List Char) : Prop :=
  ∃ gs, glyphs cs = gs ++ glyphs rest ∧ Glyph.bare ']' ∉ gs

namespace Inside

theorem refl (cs : List Char) : Inside cs cs := ⟨[], rfl, by simp⟩

theorem trans {a b c : List Char} (h : Inside a b) (h' : Inside b c) : Inside a c := by
  obtain ⟨gs, heq, hgs⟩ := h
  obtain ⟨gs', heq', hgs'⟩ := h'
  refine ⟨gs ++ gs', by rw [heq, heq', List.append_assoc], ?_⟩
  rw [List.mem_append, not_or]
  exact ⟨hgs, hgs'⟩

theorem escaped (c : Char) (cs : List Char) : Inside ('\\' :: c :: cs) cs :=
  ⟨[.escaped c], glyphs_escaped c cs, by simp⟩

theorem bare {c : Char} (hc : c ≠ '\\') (hb : c ≠ ']') (cs : List Char) : Inside (c :: cs) cs :=
  ⟨[.bare c], glyphs_bare hc cs, by simpa using hb.symm⟩

theorem bare_mem {cs rest : List Char} (h : Inside cs rest) (hb : Glyph.bare ']' ∈ glyphs cs) :
    Glyph.bare ']' ∈ glyphs rest := by
  obtain ⟨gs, heq, hgs⟩ := h
  rw [heq, List.mem_append] at hb
  exact hb.resolve_left hgs

theorem flatMap_source {body rest : List Char} {gs : List Glyph}
    (h : glyphs (body ++ rest) = gs ++ glyphs rest) : body = gs.flatMap Glyph.source := by
  have heq := flatMap_source_glyphs (body ++ rest)
  rw [h, List.flatMap_append, flatMap_source_glyphs, List.append_left_inj] at heq
  exact heq.symm

end Inside

theorem ne_bare_of_notMem {gs : List Glyph} (h : Glyph.bare ']' ∉ gs) :
    ∀ g ∈ gs, decide (g ≠ .bare ']') = true := by
  intro g hg
  rw [decide_eq_true_iff]
  intro hbare
  exact h (hbare ▸ hg)

theorem bareBracketEnd?_append {body rest : List Char} (h : Inside (body ++ rest) rest) :
    bareBracketEnd? (body ++ rest) = (bareBracketEnd? rest).map (byteLength body + ·) := by
  obtain ⟨gs, heq, hgs⟩ := h
  have hall := ne_bare_of_notMem hgs
  unfold bareBracketEnd?
  by_cases hb : Glyph.bare ']' ∈ glyphs rest
  · have hmem : Glyph.bare ']' ∈ glyphs (body ++ rest) := by
      rw [heq]
      exact List.mem_append_right _ hb
    rw [if_pos hb, if_pos hmem, heq, List.takeWhile_append_of_pos hall, List.flatMap_append,
      byteLength_append, ← Inside.flatMap_source heq, Nat.add_assoc]
    rfl
  · have hmem : Glyph.bare ']' ∉ glyphs (body ++ rest) := by
      rw [heq, List.mem_append, not_or]
      exact ⟨hgs, hb⟩
    rw [if_neg hb, if_neg hmem]
    rfl

theorem bareBracketEnd?_close (rest : List Char) : bareBracketEnd? (']' :: rest) = some 1 := by
  simp [bareBracketEnd?, glyphs_bare]

/-- The class closes inside an escape: its last token is a range to a backslash, and the bracket
just behind that backslash, which closes the class, is the one that the backslash escapes. -/
def ClosesInEscape (source : List Char) (cls : CharClass S) : Prop :=
  ∃ (gs : List Glyph) (after : List Char) (first : Char),
    source = gs.flatMap Glyph.source ++ ['-', '\\', ']'] ++ after ∧
      byteLength (gs.flatMap Glyph.source ++ ['-', '\\', ']']) = cls.offset ∧
      glyphs source = gs ++ [.bare '-', .escaped ']'] ++ glyphs after ∧ Glyph.bare ']' ∉ gs ∧
      cls.tokens.getLast? = some (.range first '\\')

/-! ## One step -/

theorem inside_of_readFirst? {cs rest : List Char} {c : Char}
    (h : readFirst? cs = some (c, rest)) : Inside cs rest := by
  rcases readFirst?_eq_some_iff.1 h with ⟨rfl, -⟩ | ⟨rfl, hb, hc⟩
  · exact .escaped c rest
  · exact .bare hc hb rest

theorem inside_of_readLast? {cs rest : List Char} {c : Char} (h : readLast? cs = some (c, rest)) :
    Inside cs rest ∨
      (c = '\\' ∧ cs = '\\' :: rest ∧ (rest = [] ∨ ∃ after, rest = ']' :: after)) := by
  rcases readLast?_eq_some_iff.1 h with ⟨rfl, -⟩ | ⟨rfl, hb, hend⟩
  · exact .inl (.escaped c rest)
  · by_cases hc : c = '\\'
    · subst hc
      exact .inr ⟨rfl, rfl, hend rfl⟩
    · exact .inl (.bare hc hb rest)

/-- **One step.** A step stays inside; or it takes a lone backslash that ends the text; or it takes
a range to the backslash of an escaped closing bracket, and the bracket is next. -/
theorem inside_of_next? {cs rest : List Char} {t : Token S}
    (h : next? Production.order sets cs = some (.token t, rest)) :
    Inside cs rest ∨ (rest = [] ∧ Inside cs ['\\']) ∨
      ∃ first after, t = .range first '\\' ∧ rest = ']' :: after ∧
        Inside cs ('-' :: '\\' :: rest) := by
  rcases next?_order_eq_token_iff.1 h with hw | ⟨-, hrange⟩ | ⟨-, -, hclose, hlit⟩
  · obtain ⟨s, rfl, -⟩ := readShorthand?_eq_some_iff.1 hw
    exact .inl (.escaped s.letter rest)
  · obtain ⟨first, mid, last, hf, hl, rfl⟩ := readRange?_eq_some_iff.1 hrange
    have hdash : Inside ('-' :: mid) mid := .bare (by decide) (by decide) mid
    have hfirst := inside_of_readFirst? hf
    rcases inside_of_readLast? hl with hlast | ⟨rfl, rfl, rfl | ⟨after, rfl⟩⟩
    · exact .inl ((hfirst.trans hdash).trans hlast)
    · exact .inr (.inl ⟨rfl, hfirst.trans hdash⟩)
    · exact .inr (.inr ⟨first, after, rfl, rfl, hfirst⟩)
  · obtain ⟨c, -, rfl | ⟨rfl, hlone⟩⟩ := readLiteral?_eq_some_iff.1 hlit
    · exact .inl (.escaped c rest)
    · by_cases hc : c = '\\'
      · subst hc
        obtain rfl := hlone rfl
        exact .inr (.inl ⟨rfl, .refl _⟩)
      · have hb : c ≠ ']' := by
          intro hb
          subst hb
          cases hclose
        exact .inl (.bare hc hb rest)

/-! ## A whole body -/

/-- **A run.** The class closes at a bare bracket that is the first one, or it closes inside an
escape, just behind a range that runs to a backslash. -/
theorem inside_of_readBodyWith? {ts : List (Token S)} {cs after : List Char}
    (h : readBodyWith? Production.order sets cs = some (ts, after)) :
    Inside cs (']' :: after) ∨
      ∃ first, ts.getLast? = some (.range first '\\') ∧
        Inside cs ('-' :: '\\' :: ']' :: after) := by
  induction h using readBodyWith?_induction with
  | @close cs hstep =>
    rw [eq_cons_of_next?_close hstep]
    exact .inl (.refl _)
  | token hstep hread ih =>
    rcases inside_of_next? hstep with hin | ⟨rfl, -⟩ | ⟨first, left, rfl, rfl, hin⟩
    · rcases ih with hclose | ⟨first, hlast, hclose⟩
      · exact .inl (hin.trans hclose)
      · refine .inr ⟨first, ?_, hin.trans hclose⟩
        rw [List.getLast?_cons, hlast]
        rfl
    · rw [readBodyWith?] at hread
      cases hread
    · -- the bracket behind the backslash closes at once
      rw [readBodyWith?_order_close, Option.some.injEq, Prod.mk.injEq] at hread
      obtain ⟨rfl, rfl⟩ := hread
      exact .inr ⟨first, rfl, hin⟩

theorem readBodyWith?_of_bare_mem (sets : SetProvider S) {cs : List Char}
    (h : Glyph.bare ']' ∈ glyphs cs) :
    ∃ ts after, readBodyWith? Production.order sets cs = some (ts, after) := by
  fun_induction readBodyWith? Production.order sets cs with
  | case1 => simp [glyphs] at h
  | case2 c cs t rest hstep ih =>
    rcases inside_of_next? hstep with hin | ⟨rfl, hin⟩ | ⟨first, after, rfl, rfl, -⟩
    · obtain ⟨ts, after, hread⟩ := ih (hin.bare_mem h)
      exact ⟨t :: ts, after, by rw [hread]; rfl⟩
    · have hlone := hin.bare_mem h
      simp [glyphs] at hlone
    · exact ⟨[.range first '\\'], after, by rw [readBodyWith?_order_close]; rfl⟩
  | case3 c cs rest hstep => exact ⟨[], rest, rfl⟩
  | case4 c cs hstep => exact absurd hstep (next?_order_ne_none sets c cs)

/-! ## The class -/

theorem closing_of_read {source pattern : String} {cls : CharClass S}
    (h : read sets source pattern = .ok cls) :
    bareBracketEnd? source.toList = some cls.offset ∨ ClosesInEscape source.toList cls := by
  rw [read, readWith_eq_ok_iff] at h
  obtain ⟨body, after, hs, hw, hread⟩ := h
  obtain ⟨inner, hinner⟩ := exists_of_readBodyWith? hread
  have hbody : body = inner ++ [']'] := by
    rw [hs, List.append_cons] at hinner
    exact List.append_cancel_right hinner
  rcases inside_of_readBodyWith? hread with hin | ⟨first, hlast, gs, heq, hgs⟩
  · left
    rw [hinner] at hin ⊢
    rw [bareBracketEnd?_append hin, bareBracketEnd?_close, ← hw, hbody, byteLength_append]
    rfl
  · right
    have hdash : glyphs ('-' :: '\\' :: ']' :: after) =
        [.bare '-', .escaped ']'] ++ glyphs after := by
      rw [glyphs_bare (by decide), glyphs_escaped]
      rfl
    have hsource : source.toList = gs.flatMap Glyph.source ++ ['-', '\\', ']'] ++ after := by
      rw [← flatMap_source_glyphs source.toList, heq, List.flatMap_append, flatMap_source_glyphs]
      simp
    refine ⟨gs, after, first, hsource, ?_, ?_, hgs, hlast⟩
    · rw [hsource] at hs
      rw [List.append_cancel_right hs, hw]
    · rw [heq, hdash, List.append_assoc]

theorem exists_read_of_readBodyWith? {source : String} {ts : List (Token S)} {after : List Char}
    (pattern : String) (h : readBodyWith? Production.order sets source.toList = some (ts, after)) :
    ∃ cls, read sets source pattern = .ok cls := by
  obtain ⟨body, hs⟩ := exists_of_readBodyWith? h
  refine ⟨⟨ts, byteLength (body ++ [']'])⟩, ?_⟩
  rw [read, readWith_eq_ok_iff]
  exact ⟨body ++ [']'], after, by rw [hs, List.append_cons], rfl, h⟩

theorem exists_read_of_bare_mem (sets : SetProvider S) {source : String} (pattern : String)
    (h : Glyph.bare ']' ∈ glyphs source.toList) : ∃ cls, read sets source pattern = .ok cls := by
  obtain ⟨ts, after, hread⟩ := readBodyWith?_of_bare_mem sets h
  exact exists_read_of_readBodyWith? pattern hread

theorem ClosesInEscape.isInfix {source : List Char} {cls : CharClass S}
    (h : ClosesInEscape source cls) : ['-', '\\', ']'] <:+: source := by
  obtain ⟨gs, after, -, hs, -⟩ := h
  exact ⟨gs.flatMap Glyph.source, after, hs.symm⟩

theorem ClosesInEscape.offset_le {source : List Char} {cls : CharClass S}
    (h : ClosesInEscape source cls) {u : Nat} (hu : bareBracketEnd? source = some u) :
    cls.offset ≤ u := by
  obtain ⟨gs, after, first, hs, hw, heq, hgs, -⟩ := h
  have hin : Inside source after := ⟨gs ++ [.bare '-', .escaped ']'], heq, by simpa using hgs⟩
  rw [hs] at hin hu
  rw [bareBracketEnd?_append hin, hw] at hu
  obtain ⟨k, -, rfl⟩ := Option.map_eq_some_iff.1 hu
  exact Nat.le_add_right _ _

/-- **Where a class closes.** If some glyph is a bare closing bracket, the class is read and closes
behind the first one at the latest. A class that closes anywhere else closes inside an escape, just
behind a range whose upper bound is the lone backslash. -/
theorem read_closes_at_bare_bracket (sets : SetProvider S) (source pattern : String) :
    (∀ u, bareBracketEnd? source.toList = some u →
      ∃ cls, read sets source pattern = .ok cls ∧ cls.offset ≤ u) ∧
      ∀ cls, read sets source pattern = .ok cls →
        bareBracketEnd? source.toList ≠ some cls.offset → ClosesInEscape source.toList cls := by
  refine ⟨fun u hu => ?_, fun cls h hne => (closing_of_read h).resolve_left hne⟩
  have hmem : Glyph.bare ']' ∈ glyphs source.toList := by
    unfold bareBracketEnd? at hu
    split at hu
    · assumption
    · cases hu
  obtain ⟨cls, h⟩ := exists_read_of_bare_mem sets pattern hmem
  refine ⟨cls, h, ?_⟩
  rcases closing_of_read h with heq | hesc
  · rw [heq, Option.some.injEq] at hu
    exact Nat.le_of_eq hu
  · exact hesc.offset_le hu

/-- The bracket behind the backslash closes the class, one byte before the first bare bracket. -/
theorem read_closes_at_bare_bracket_in_escape :
    bareBracketEnd? "a-\\]]".toList = some 5 ∧
      (∃ cls, read .symbolic "a-\\]]" "[a-\\]]" = .ok cls ∧ cls.offset ≤ 5) ∧
      ClosesInEscape "a-\\]]".toList (⟨[.range 'a' '\\'], 4⟩ : CharClass Shorthand) := by
  have hbare : bareBracketEnd? "a-\\]]".toList = some 5 := by decide
  have hread : read .symbolic "a-\\]]" "[a-\\]]" = .ok ⟨[.range 'a' '\\'], 4⟩ := by
    rw [read, readWith_eq_ok_iff]
    refine ⟨['a', '-', '\\', ']'], [']'], rfl, rfl, ?_⟩
    have hstep : next? Production.order .symbolic "a-\\]]".toList =
        some (.token (.range 'a' '\\'), [']', ']']) := by decide
    rw [readBodyWith?_of_token hstep, readBodyWith?_order_close]
    rfl
  have hplace := read_closes_at_bare_bracket .symbolic "a-\\]]" "[a-\\]]"
  exact ⟨hbare, hplace.1 5 hbare, hplace.2 _ hread (by rw [hbare]; decide)⟩

end CharClass

end PatternLex
