/-!
# Glyphs: backslashes and what they bind to

Read from left to right, a backslash binds to the character after it and the two are one glyph. Any
other character is a glyph of its own, and so is a backslash that ends the text. Whether a character
of a pattern is escaped is a question about its glyph, not about the character before it.

Results:

* `flatMap_source_glyphs`, `glyphs_flatMap_source`: the glyphs, written one after the other, are the
  text, and written glyphs are read back;
* `glyphs_append`: a cut behind a whole glyph cuts the row of glyphs;
* `escapedAt_append_iff`: a backslash escapes the character behind it if no glyph is open before it.
-/

namespace PatternLex.Text

/-- A character with the backslash that binds to it, or without. -/
inductive Glyph where
  | bare (c : Char)
  | escaped (c : Char)
  deriving DecidableEq, Repr

/-- What the glyph takes from the text. -/
def Glyph.source : Glyph → List Char
  | bare c => [c]
  | escaped c => ['\\', c]

/-- The glyphs of a text. -/
def glyphs : List Char → List Glyph
  | [] => []
  | '\\' :: c :: cs => .escaped c :: glyphs cs
  | c :: cs => .bare c :: glyphs cs

@[simp] theorem glyphs_escaped (c : Char) (cs : List Char) :
    glyphs ('\\' :: c :: cs) = .escaped c :: glyphs cs := by rw [glyphs]

theorem glyphs_bare {c : Char} (h : c ≠ '\\') (cs : List Char) :
    glyphs (c :: cs) = .bare c :: glyphs cs := by simp [glyphs, h]

theorem flatMap_source_glyphs (cs : List Char) : (glyphs cs).flatMap Glyph.source = cs := by
  fun_induction glyphs cs with
  | case1 => rfl
  | case2 c cs ih => simp [Glyph.source, ih]
  | case3 c cs _ ih => simp [Glyph.source, ih]

theorem glyphs_eq_nil_iff {cs : List Char} : glyphs cs = [] ↔ cs = [] := by
  refine ⟨fun h => ?_, fun h => by rw [h, glyphs]⟩
  rw [← flatMap_source_glyphs cs, h, List.flatMap_nil]

/-- A text that does not end in a backslash with nothing to bind to. -/
def Complete (cs : List Char) : Prop := Glyph.bare '\\' ∉ glyphs cs

theorem glyphs_append {a : List Char} (hwhole : Complete a) (b : List Char) :
    glyphs (a ++ b) = glyphs a ++ glyphs b := by
  unfold Complete at hwhole
  fun_induction glyphs a with
  | case1 => rfl
  | case2 c cs ih =>
    simp only [List.mem_cons, reduceCtorEq, false_or] at hwhole
    simp [ih hwhole]
  | case3 c cs hne ih =>
    simp only [List.mem_cons, Glyph.bare.injEq, not_or] at hwhole
    obtain ⟨hother, hlater⟩ := hwhole
    simp [glyphs, ih hlater, Ne.symm hother]

@[simp] theorem complete_nil : Complete [] := by simp [Complete, glyphs]

@[simp] theorem complete_escaped_iff (c : Char) (cs : List Char) :
    Complete ('\\' :: c :: cs) ↔ Complete cs := by simp [Complete]

theorem complete_append_iff {a : List Char} (hwhole : Complete a) (b : List Char) :
    Complete (a ++ b) ↔ Complete b := by
  have hbare : Glyph.bare '\\' ∉ glyphs a := hwhole
  simp [Complete, glyphs_append hwhole, hbare]

theorem eq_nil_of_glyphs_eq_append {cs : List Char} {front back : List Glyph}
    (h : glyphs cs = front ++ .bare '\\' :: back) : back = [] := by
  fun_induction glyphs cs generalizing front with
  | case1 => simp at h
  | case2 c cs ih =>
    cases front with
    | nil => simp at h
    | cons g front => exact ih (List.cons.inj h).2
  | case3 c cs hne ih =>
    cases front with
    | nil =>
      simp only [List.nil_append, List.cons.injEq, Glyph.bare.injEq] at h
      obtain ⟨rfl, rfl⟩ := h
      cases cs with
      | nil => simp [glyphs]
      | cons d ds => exact absurd rfl (hne d ds rfl)
    | cons g front => exact ih (List.cons.inj h).2

theorem bare_notMem_of_glyphs_eq_append {cs : List Char} {front back : List Glyph} {g : Glyph}
    (h : glyphs cs = front ++ g :: back) : .bare '\\' ∉ front := by
  intro hlone
  obtain ⟨before, after, hsplit⟩ := List.append_of_mem hlone
  rw [hsplit, List.append_assoc, List.cons_append] at h
  have hnil := eq_nil_of_glyphs_eq_append h
  simp at hnil

theorem glyphs_flatMap_source {gs : List Glyph} (h : .bare '\\' ∉ gs) :
    glyphs (gs.flatMap Glyph.source) = gs := by
  induction gs with
  | nil => simp [glyphs]
  | cons g gs ih =>
    rw [List.mem_cons, not_or] at h
    cases g with
    | bare c =>
      have hother : c ≠ '\\' := fun heq => h.1 (by rw [heq])
      simp [Glyph.source, glyphs_bare hother, ih h.2]
    | escaped c => simp [Glyph.source, ih h.2]

theorem exists_of_not_complete {cs : List Char} (h : ¬ Complete cs) :
    ∃ a, cs = a ++ ['\\'] ∧ Complete a := by
  obtain ⟨front, back, hrow⟩ := List.append_of_mem (Classical.not_not.1 h)
  obtain rfl := eq_nil_of_glyphs_eq_append hrow
  have htext := flatMap_source_glyphs cs
  rw [hrow, List.flatMap_append] at htext
  refine ⟨front.flatMap Glyph.source, htext.symm, ?_⟩
  have hwhole := bare_notMem_of_glyphs_eq_append hrow
  rw [Complete, glyphs_flatMap_source hwhole]
  exact hwhole

theorem complete_of_getLast?_ne {cs : List Char} (h : cs.getLast? ≠ some '\\') :
    Complete cs := by
  refine Classical.byContradiction fun hlone => ?_
  obtain ⟨a, rfl, -⟩ := exists_of_not_complete hlone
  exact h List.getLast?_concat

/-! ## Places -/

/-- The character at a place is the second of a glyph: a backslash binds to it. -/
def EscapedAt (cs : List Char) (n : Nat) : Prop :=
  ∃ (front : List Glyph) (c : Char) (back : List Glyph),
    glyphs cs = front ++ .escaped c :: back ∧ (front.flatMap Glyph.source).length + 1 = n

theorem escapedAt_append_iff {a : List Char} {c : Char} {b : List Char} :
    EscapedAt (a ++ '\\' :: c :: b) (a.length + 1) ↔ Complete a := by
  constructor
  · intro h
    obtain ⟨front, d, back, hrow, hcount⟩ := h
    have htext := flatMap_source_glyphs (a ++ '\\' :: c :: b)
    rw [hrow, List.flatMap_append] at htext
    obtain ⟨heq, -⟩ := List.append_inj htext (by omega)
    have hwhole := bare_notMem_of_glyphs_eq_append hrow
    rw [Complete, ← heq, glyphs_flatMap_source hwhole]
    exact hwhole
  · intro hwhole
    refine ⟨glyphs a, c, glyphs b, ?_, ?_⟩
    · rw [glyphs_append hwhole, glyphs_escaped]
    · rw [flatMap_source_glyphs]

end PatternLex.Text
