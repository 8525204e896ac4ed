import Mathlib.Data.List.TakeWhile
import PatternLex.Proofs.ClosingBracket

/-!
# A text that ends in its closing bracket

Where a class ends with its text, it closes at a bare bracket, which is the last character
(`ClosesAtEnd`), or inside an escape. In the first case everything can be said in glyphs. In the
second the text ends in an escaped bracket and holds no bare one, and whether it closes there is a
matter of steps: it does, unless the reading comes to stand just before that last glyph.

Results:

* `bareBracketEnd?_eq_byteLength_iff`: what `ClosesAtEnd` says about the first bare bracket;
* `ClosesAtEnd.append_mono`, `ClosesAtEnd.backslash_iff`: what may be changed in such a text;
* `readBodyWith?_or_reaches`: how a text is read that ends in an escaped bracket.
-/

namespace PatternLex

open Text

namespace CharClass

open Production

/-! ## The end of a text -/

/-- The first glyph that is a bare closing bracket is the last one. -/
def ClosesAtEnd (cs : List Char) : Prop :=
  (glyphs cs).dropWhile (· ≠ .bare ']') = [.bare ']']

theorem byteLength_flatMap_source_eq_zero_iff {gs : List Glyph} :
    byteLength (gs.flatMap Glyph.source) = 0 ↔ gs = [] := by
  refine ⟨fun h => ?_, fun h => by rw [h]; rfl⟩
  have hlength := length_le_byteLength (gs.flatMap Glyph.source)
  rw [h, Nat.le_zero, List.length_eq_zero_iff, List.flatMap_eq_nil_iff] at hlength
  refine List.eq_nil_iff_forall_not_mem.2 fun g hg => ?_
  cases g with
  | bare c => cases hlength _ hg
  | escaped c => cases hlength _ hg

theorem bareBracketEnd?_eq_byteLength_iff {cs : List Char} :
    bareBracketEnd? cs = some (byteLength cs) ↔ ClosesAtEnd cs := by
  unfold bareBracketEnd? ClosesAtEnd
  by_cases hb : Glyph.bare ']' ∈ glyphs cs
  · obtain ⟨front, back, heq, hfront⟩ := List.eq_append_cons_of_mem hb
    have hall := ne_bare_of_notMem hfront
    have hbytes : byteLength cs =
        byteLength (front.flatMap Glyph.source) + (1 + byteLength (back.flatMap Glyph.source)) := by
      have hsource := flatMap_source_glyphs cs
      rw [heq, List.flatMap_append, List.flatMap_cons] at hsource
      rw [← hsource, byteLength_append, byteLength_append]
      rfl
    rw [if_pos hb, heq, List.takeWhile_append_of_pos hall, List.dropWhile_append_of_pos hall,
      List.takeWhile_cons_of_neg (by simp), List.dropWhile_cons_of_neg (by simp),
      List.append_nil, hbytes, Option.some.injEq, List.cons.injEq, eq_self, true_and,
      ← byteLength_flatMap_source_eq_zero_iff]
    omega
  · rw [if_neg hb, List.dropWhile_eq_nil_iff.2 (ne_bare_of_notMem hb)]
    simp

namespace ClosesAtEnd

variable {a rest rest' : List Char}

theorem bare_mem (h : ClosesAtEnd a) : Glyph.bare ']' ∈ glyphs a := by
  have hmem : Glyph.bare ']' ∈ (glyphs a).dropWhile (· ≠ .bare ']') :=
    h ▸ List.mem_singleton_self _
  exact (List.dropWhile_suffix _).subset hmem

@[simp] theorem escaped_iff (c : Char) (cs : List Char) :
    ClosesAtEnd ('\\' :: c :: cs) ↔ ClosesAtEnd cs := by
  simp [ClosesAtEnd]

theorem bare_iff {c : Char} (hc : c ≠ '\\') (hb : c ≠ ']') (cs : List Char) :
    ClosesAtEnd (c :: cs) ↔ ClosesAtEnd cs := by
  simp [ClosesAtEnd, glyphs_bare hc, hb]

theorem append_iff (hwhole : Complete a) (hb : Glyph.bare ']' ∉ glyphs a) (rest : List Char) :
    ClosesAtEnd (a ++ rest) ↔ ClosesAtEnd rest := by
  rw [ClosesAtEnd, glyphs_append hwhole, List.dropWhile_append_of_pos (ne_bare_of_notMem hb),
    ClosesAtEnd]

theorem bare_notMem (hwhole : Complete a) (hrest : rest ≠ []) (h : ClosesAtEnd (a ++ rest)) :
    Glyph.bare ']' ∉ glyphs a := by
  intro hb
  obtain ⟨front, back, heq, hfront⟩ := List.eq_append_cons_of_mem hb
  rw [ClosesAtEnd, glyphs_append hwhole, heq, List.append_assoc,
    List.dropWhile_append_of_pos (ne_bare_of_notMem hfront), List.cons_append,
    List.dropWhile_cons_of_neg (by simp), List.cons.injEq, List.append_eq_nil_iff] at h
  exact hrest (glyphs_eq_nil_iff.1 h.2.2)

theorem append_mono (hwhole : Complete a) (hrest : rest ≠ [])
    (hmono : ClosesAtEnd rest → ClosesAtEnd rest') (h : ClosesAtEnd (a ++ rest)) :
    ClosesAtEnd (a ++ rest') := by
  have hb := bare_notMem hwhole hrest h
  rw [append_iff hwhole hb] at h ⊢
  exact hmono h

theorem plain_iff {text : List Char} (hback : '\\' ∉ text) (hbracket : ']' ∉ text)
    (rest : List Char) : ClosesAtEnd (text ++ rest) ↔ ClosesAtEnd rest := by
  induction text with
  | nil => rfl
  | cons c text ih =>
    rw [List.mem_cons, not_or] at hback hbracket
    rw [List.cons_append, bare_iff (Ne.symm hback.1) (Ne.symm hbracket.1),
      ih hback.2 hbracket.2]

/-- A backslash before a text shifts its glyphs. They fall into step again, unless the text begins
with a closing bracket, or with a row of backslashes and a closing bracket. -/
theorem backslash_iff (hrow : (rest.dropWhile (· = '\\')).head? ≠ some ']') :
    ClosesAtEnd ('\\' :: rest) ↔ ClosesAtEnd rest := by
  induction rest with
  | nil => simp [ClosesAtEnd, glyphs]
  | cons c rest ih =>
    by_cases hc : c = '\\'
    · subst hc
      rw [List.dropWhile_cons_of_pos (by simp)] at hrow
      rw [escaped_iff, ih hrow]
    · rw [List.dropWhile_cons_of_neg (by simpa using hc), List.head?_cons, ne_eq,
        Option.some.injEq] at hrow
      rw [escaped_iff, bare_iff hc hrow]

/-- Whatever is put in the place of the last bracket, no bare one stands before it. -/
theorem inside_append (h : ClosesAtEnd (a ++ [']'])) (rest : List Char) :
    Inside (a ++ rest) rest := by
  have hwhole : Complete a := by
    refine Classical.byContradiction fun ha => ?_
    obtain ⟨front, rfl, hfront⟩ := exists_of_not_complete ha
    rw [List.append_assoc] at h
    have hb := bare_notMem hfront (by simp) h
    rw [append_iff hfront hb] at h
    simp [ClosesAtEnd, glyphs] at h
  exact ⟨glyphs a, glyphs_append hwhole rest, bare_notMem hwhole (by simp) h⟩

end ClosesAtEnd

/-- A text whose class closes inside an escape at its end: without that last backslash the bracket
is bare. -/
theorem ClosesInEscape.closesAtEnd {S : Type} {source : List Char} {cls : CharClass S}
    (h : ClosesInEscape source cls) (hoffset : cls.offset = byteLength source) :
    ∃ front, source = front ++ ['-', '\\', ']'] ∧ ClosesAtEnd (front ++ ['-', ']']) := by
  obtain ⟨gs, after, first, hs, hw, heq, hgs, -⟩ := h
  obtain rfl : after = [] := by
    have hlength := length_le_byteLength after
    have hbytes := congrArg byteLength hs
    rw [byteLength_append, hw, hoffset] at hbytes
    exact List.length_eq_zero_iff.1 (by omega)
  refine ⟨gs.flatMap Glyph.source, by rw [hs, List.append_nil], ?_⟩
  rw [List.append_assoc] at heq
  have hopen := bare_notMem_of_glyphs_eq_append heq
  have hglyphs := glyphs_flatMap_source hopen
  have hwhole : Complete (gs.flatMap Glyph.source) := by rwa [Complete, hglyphs]
  rw [ClosesAtEnd.append_iff hwhole (by rwa [hglyphs])]
  simp [ClosesAtEnd, glyphs]

/-! ## A last escaped bracket -/

section Reaches

variable {S : Type} {sets : SetProvider S}

/-- Tokens are read from the one place to the other. -/
inductive Reaches (sets : SetProvider S) : List Char → List Char → Prop
  | refl (cs : List Char) : Reaches sets cs cs
  | token {cs mid rest : List Char} {t : Token S}
      (step : next? Production.order sets cs = some (.token t, mid))
      (later : Reaches sets mid rest) : Reaches sets cs rest

/-- No step takes an escaped bracket together with something before it. -/
theorem eq_of_next?_nil {front : List Char} {t : Token S}
    (h : next? Production.order sets (front ++ ['\\', ']']) = some (.token t, [])) :
    front = [] := by
  rcases next?_order_eq_token_iff.1 h with hw | ⟨-, hrange⟩ | ⟨-, -, -, hlit⟩
  · obtain ⟨s, hs, -⟩ := readShorthand?_eq_some_iff.1 hw
    have hlength := congrArg List.length hs
    simp [Shorthand.spelling] at hlength
    exact hlength
  · -- the upper bound of a range is no closing bracket
    obtain ⟨first, mid, last, hf, hl, -⟩ := readRange?_eq_some_iff.1 hrange
    obtain ⟨taken, heq⟩ := (properSuffix_of_readFirst? hf).exists_append
    have hend := congrArg List.getLast? heq
    rcases readLast?_eq_some_iff.1 hl with ⟨rfl, hlast⟩ | ⟨rfl, hlast, -⟩
    · simp at hend
      exact absurd hend.symm hlast
    · simp at hend
      exact absurd hend.symm hlast
  · obtain ⟨c, -, heq | ⟨heq, -⟩⟩ := readLiteral?_eq_some_iff.1 hlit
    · have hlength := congrArg List.length heq
      simp at hlength
      exact hlength
    · have hlength := congrArg List.length heq
      simp at hlength

/-- **One step.** In a text that ends in an escaped bracket, a step begins at that bracket, or it
stops at it or before it, or the class closes next. -/
theorem inside_of_next?_of_inside {cs rest : List Char} {t : Token S}
    (h : next? Production.order sets cs = some (.token t, rest)) (hcs : Inside cs ['\\', ']']) :
    cs = ['\\', ']'] ∨ Inside rest ['\\', ']'] ∨ ∃ after, rest = ']' :: after := by
  obtain ⟨gs, heq, hgs⟩ := hcs
  by_cases hrest : rest = []
  · have hsource := flatMap_source_glyphs cs
    rw [heq, List.flatMap_append, flatMap_source_glyphs] at hsource
    rw [hrest, ← hsource] at h
    rw [eq_of_next?_nil h] at hsource
    exact .inl hsource.symm
  · refine .inr ?_
    rcases inside_of_next? h with ⟨gs', heq', -⟩ | ⟨hnil, -⟩ | ⟨first, after, -, hclose, -⟩
    · left
      rw [heq] at heq'
      rcases List.append_eq_append_iff.1 heq' with ⟨mid, -, hlast⟩ | ⟨mid, rfl, hmid⟩
      · cases mid with
        | nil => exact ⟨[], hlast.symm, by simp⟩
        | cons g mid =>
          simp only [glyphs_escaped, glyphs, List.cons_append, List.cons.injEq] at hlast
          have hnil := (List.append_eq_nil_iff.1 hlast.2.symm).2
          exact absurd (glyphs_eq_nil_iff.1 hnil) hrest
      · exact ⟨mid, hmid, fun hb => hgs (List.mem_append_right _ hb)⟩
    · exact absurd hnil hrest
    · exact .inr ⟨after, hclose⟩

/-- **A run.** Where no bare bracket stands before the escaped one that ends the
text, the class closes, or the reading comes to stand just before that escaped bracket. -/
theorem readBodyWith?_or_reaches {cs : List Char} (h : Inside cs ['\\', ']']) :
    (∃ ts after, readBodyWith? Production.order sets cs = some (ts, after)) ∨
      Reaches sets cs ['\\', ']'] := by
  fun_induction readBodyWith? Production.order sets cs with
  | case1 =>
    obtain ⟨gs, heq, -⟩ := h
    simp [glyphs] at heq
  | case2 c cs t rest hstep ih =>
    rcases inside_of_next?_of_inside hstep h with heq | hrest | ⟨after, rfl⟩
    · exact .inr (heq ▸ .refl _)
    · refine (ih hrest).imp (fun hread => ?_) (.token hstep)
      obtain ⟨ts, after, hread⟩ := hread
      exact ⟨t :: ts, after, by rw [hread]; rfl⟩
    · exact .inl ⟨[t], after, by rw [readBodyWith?_order_close]; rfl⟩
  | case3 c cs rest hstep => exact .inl ⟨[], rest, rfl⟩
  | case4 c cs hstep => exact absurd hstep (next?_order_ne_none sets c cs)

end Reaches

/-! ## The class -/

variable {S : Type} (sets : SetProvider S) {source : String} (pattern : String)

theorem closesAtEnd_of_read {sets : SetProvider S} {pattern : String} {cls : CharClass S}
    (h : read sets source pattern = .ok cls) (hend : cls.offset = byteLength source.toList)
    (hbare : ¬ ClosesInEscape source.toList cls) : ClosesAtEnd source.toList := by
  have hplace := (closing_of_read h).resolve_right hbare
  rwa [hend, bareBracketEnd?_eq_byteLength_iff] at hplace

theorem exists_read_of_closesAtEnd (h : ClosesAtEnd source.toList) :
    ∃ cls, read sets source pattern = .ok cls ∧
      (cls.offset = byteLength source.toList ∨ ClosesInEscape source.toList cls) := by
  have hbare := bareBracketEnd?_eq_byteLength_iff.2 h
  obtain ⟨cls, hread⟩ := exists_read_of_bare_mem sets pattern h.bare_mem
  refine ⟨cls, hread, (closing_of_read hread).imp_left fun hplace => ?_⟩
  rw [hbare, Option.some.injEq] at hplace
  exact hplace.symm

theorem exists_read_or_reaches (h : Inside source.toList ['\\', ']']) :
    (∃ cls, read sets source pattern = .ok cls ∧ ClosesInEscape source.toList cls) ∨
      Reaches sets source.toList ['\\', ']'] := by
  refine (readBodyWith?_or_reaches h).imp_left fun hread => ?_
  obtain ⟨ts, after, hread⟩ := hread
  obtain ⟨cls, hcls⟩ := exists_read_of_readBodyWith? pattern hread
  refine ⟨cls, hcls, (closing_of_read hcls).resolve_left fun hplace => ?_⟩
  have hnone : Glyph.bare ']' ∉ glyphs source.toList := by
    intro hb
    have hmem := h.bare_mem hb
    simp [glyphs] at hmem
  rw [bareBracketEnd?, if_neg hnone] at hplace
  cases hplace

end CharClass

end PatternLex
