import PatternLex.Pattern.ByteScan

/-!
# The classes of a pattern divide it

A search through a pattern goes from gap to gap: characters that are no opening bracket, then an
opening bracket and what is read behind it. So the pattern is a row of stretches, each of them a gap
and a class, and a rest. The rest holds an opening bracket only if the class behind it is never
closed, and that ends the search.

Results:

* `classesFrom_append_of_notMem`, `classesFrom_closed`, `classesFrom_failed`: one round of the
  search;
* `classesFrom_induction`: induction along a search, by gaps and not by characters;
* `length_classesFrom_le`, `closed_of_mem_dropLast`: how many steps there are, and which may fail;
* `scanFrom?_byteLength`: the same steps are found by offsets, and every cut can be made;
* `exists_stretches`: the text that is searched, as stretches and a rest;
* `classes_partition`: all of it for a whole pattern.
-/

namespace PatternLex

open Text

namespace ClassStep

variable {S : Type} {sets : SetProvider S} {pattern : String} {pos : Nat}

/-! ## One round -/

theorem classesFrom_append_of_notMem {gap : List Char} (hgap : '[' ∉ gap) (pos : Nat)
    (rest : List Char) :
    classesFrom sets pattern pos (gap ++ rest) =
      classesFrom sets pattern (pos + byteLength gap) rest := by
  induction gap generalizing pos with
  | nil => rfl
  | cons c gap ih =>
    rw [List.mem_cons, not_or] at hgap
    rw [List.cons_append, classesFrom, if_neg (Ne.symm hgap.1), ih hgap.2, byteLength_cons,
      Nat.add_assoc]

theorem classesFrom_closed {source after : List Char} {cls : CharClass S}
    (h : CharClass.readFrontWith? Production.order sets source = some (cls, after)) (pos : Nat) :
    classesFrom sets pattern pos ('[' :: source) =
      ⟨pos + 1, .ok cls⟩ :: classesFrom sets pattern (pos + 1 + cls.offset) after := by
  rw [classesFrom, if_pos rfl]
  split
  · rename_i cls' after' h'
    rw [h, Option.some.injEq, Prod.mk.injEq] at h'
    obtain ⟨rfl, rfl⟩ := h'
    rfl
  · rename_i hnone
    rw [h] at hnone
    cases hnone

theorem classesFrom_failed {source : List Char}
    (h : CharClass.readFrontWith? Production.order sets source = none) (pos : Nat) :
    classesFrom sets pattern pos ('[' :: source) =
      [⟨pos + 1, .error (.unterminated source pattern)⟩] := by
  rw [classesFrom, if_pos rfl]
  split
  · rename_i cls after hsome
    rw [h] at hsome
    cases hsome
  · rfl

theorem byteLength_gap_class (gap body after : List Char) :
    byteLength (gap ++ '[' :: (body ++ ']' :: after)) =
      byteLength gap + 1 + (byteLength body + 1) + byteLength after := by
  simp only [byteLength_append, byteLength_cons, show '['.utf8Size = 1 from rfl,
    show ']'.utf8Size = 1 from rfl]
  omega

theorem exists_of_closed {before gap body after : List Char} {cls : CharClass S}
    (htext : pattern.toList = before ++ (gap ++ '[' :: (body ++ ']' :: after)))
    (hoffset : cls.offset = byteLength body + 1) :
    ∃ before', pattern.toList = before' ++ after ∧
      byteLength before' = byteLength before + byteLength gap + 1 + cls.offset := by
  refine ⟨before ++ (gap ++ '[' :: (body ++ [']'])), ?_, ?_⟩
  · rw [htext]
    simp
  · rw [byteLength_append, byteLength_gap_class, hoffset, byteLength_nil]
    omega

/-- Induction along a search. It comes to an end where no opening bracket is left, or at one whose
class is never closed; or it passes a gap and a class and goes on. -/
theorem classesFrom_induction (sets : SetProvider S) (pattern : String)
    {motive : Nat → List Char → List (ClassStep S) → Prop}
    (clear : ∀ {pos gap}, '[' ∉ gap → motive pos gap [])
    (failed : ∀ {pos gap source}, '[' ∉ gap →
      CharClass.readFrontWith? Production.order sets source = none →
      motive pos (gap ++ '[' :: source)
        [⟨pos + byteLength gap + 1, .error (.unterminated source pattern)⟩])
    (closed : ∀ {pos gap body after cls steps}, '[' ∉ gap →
      CharClass.readFrontWith? Production.order sets (body ++ ']' :: after) = some (cls, after) →
      cls.offset = byteLength body + 1 →
      motive (pos + byteLength gap + 1 + cls.offset) after steps →
      motive pos (gap ++ '[' :: (body ++ ']' :: after))
        (⟨pos + byteLength gap + 1, .ok cls⟩ :: steps))
    (pos : Nat) (cs : List Char) : motive pos cs (classesFrom sets pattern pos cs) := by
  induction hlength : cs.length using Nat.strongRecOn generalizing pos cs with
  | ind n ih =>
    by_cases hbracket : '[' ∈ cs
    · obtain ⟨gap, source, rfl, hgap⟩ := List.eq_append_cons_of_mem hbracket
      rw [classesFrom_append_of_notMem hgap]
      cases hread : CharClass.readFrontWith? Production.order sets source with
      | none =>
        rw [classesFrom_failed hread]
        exact failed hgap hread
      | some found =>
        obtain ⟨cls, after⟩ := found
        obtain ⟨body, rfl, hoffset⟩ := CharClass.exists_of_readFrontWith? hread
        rw [classesFrom_closed hread]
        refine closed hgap hread hoffset (ih after.length ?_ _ after rfl)
        rw [← hlength]
        simp only [List.length_append, List.length_cons]
        omega
    · have hnone : classesFrom sets pattern pos (cs ++ []) = [] := by
        rw [classesFrom_append_of_notMem hbracket, classesFrom]
      rw [List.append_nil] at hnone
      rw [hnone]
      exact clear hbracket

/-! ## How many steps, and which may fail -/

/-- The step reads a class. -/
def Closed (step : ClassStep S) : Prop := ∃ cls, step.outcome = .ok cls

/-- Every step has an opening bracket of its own. -/
theorem length_classesFrom_le (sets : SetProvider S) (pattern : String) (pos : Nat)
    (cs : List Char) : (classesFrom sets pattern pos cs).length ≤ cs.count '[' := by
  induction pos, cs using classesFrom_induction sets pattern with
  | clear _ => exact Nat.zero_le _
  | failed _ _ =>
    rw [List.count_append, List.count_cons_self, List.length_singleton]
    omega
  | closed _ _ _ ih =>
    rw [List.count_append, List.count_cons_self, List.count_append,
      List.count_cons_of_ne (by decide), List.length_cons]
    omega

theorem closed_of_mem_dropLast (sets : SetProvider S) (pattern : String) (pos : Nat)
    (cs : List Char) : ∀ step ∈ (classesFrom sets pattern pos cs).dropLast, step.Closed := by
  induction pos, cs using classesFrom_induction sets pattern with
  | clear _ => simp
  | failed _ _ => simp
  | @closed _ _ _ _ cls steps _ _ _ ih =>
    cases steps with
    | nil => simp
    | cons step steps =>
      rw [List.dropLast_cons_of_ne_nil (List.cons_ne_nil _ _), List.forall_mem_cons]
      exact ⟨⟨cls, rfl⟩, ih⟩

/-! ## By offsets -/

theorem read_of_readFrontWith? {source after : List Char} {cls : CharClass S}
    (h : CharClass.readFrontWith? Production.order sets source = some (cls, after))
    (pattern : String) : CharClass.read sets (String.ofList source) pattern = .ok cls := by
  rw [CharClass.read, CharClass.readWith, String.toList_ofList, h]

theorem read_of_readFrontWith?_none {source : List Char}
    (h : CharClass.readFrontWith? Production.order sets source = none) (pattern : String) :
    CharClass.read sets (String.ofList source) pattern =
      .error (.unterminated source pattern) := by
  rw [CharClass.read, CharClass.readWith, String.toList_ofList, h]

theorem scanFrom?_gap {before gap source : List Char} (hgap : '[' ∉ gap)
    (htext : pattern.toList = before ++ (gap ++ '[' :: source)) :
    scanFrom? sets pattern (byteLength before) =
      match CharClass.read sets (String.ofList source) pattern with
      | .error m => some [⟨byteLength before + byteLength gap + 1, .error m⟩]
      | .ok cls =>
        (scanFrom? sets pattern (byteLength before + byteLength gap + 1 + cls.offset)).map
          fun steps => ⟨byteLength before + byteLength gap + 1, .ok cls⟩ :: steps := by
  refine scanFrom?_of_bracket (rest?_advance_start htext) ?_ ?_
  · rw [String.toList_ofList]
    exact bracketAt?_append hgap source
  · have hcut : pattern.toList = (before ++ (gap ++ ['['])) ++ source := by
      rw [htext]
      simp
    have hplace :
        byteLength (before ++ (gap ++ ['['])) = byteLength before + byteLength gap + 1 := by
      rw [byteLength_append, byteLength_append, Nat.add_assoc]
      rfl
    rw [← hplace]
    exact rest?_advance_start hcut

/-- **No cut fails.** From a boundary between characters on, the scan by offsets finds the steps of
the search, and every offset at which it cuts is such a boundary again. -/
theorem scanFrom?_byteLength (sets : SetProvider S) {cs before : List Char}
    (htext : pattern.toList = before ++ cs) :
    scanFrom? sets pattern (byteLength before) =
      some (classesFrom sets pattern (byteLength before) cs) := by
  generalize hpos : byteLength before = pos
  induction pos, cs using classesFrom_induction sets pattern generalizing before with
  | clear hclear =>
    rw [← hpos]
    refine scanFrom?_of_clear (rest?_advance_start htext) ?_
    rw [String.toList_ofList]
    exact bracketAt?_eq_none hclear
  | failed hgap hread =>
    rw [← hpos, scanFrom?_gap hgap htext, read_of_readFrontWith?_none hread]
  | @closed pos gap body after cls steps hgap hread hoffset ih =>
    obtain ⟨before', hnext, hplace⟩ := exists_of_closed htext hoffset
    rw [hpos] at hplace
    rw [← hpos, scanFrom?_gap hgap htext, read_of_readFrontWith? hread, hpos]
    show (scanFrom? sets pattern (pos + byteLength gap + 1 + cls.offset)).map _ = _
    rw [ih hnext hplace]
    rfl

/-! ## Stretches -/

/-- A gap with no opening bracket in it, and the body of the class behind it. -/
structure Stretch where
  gap : List Char
  body : List Char
  clear : '[' ∉ gap

namespace Stretch

/-- The text of the stretch, with both brackets. -/
def source (s : Stretch) : List Char := s.gap ++ '[' :: (s.body ++ [']'])

/-- Where the bodies of a row of stretches begin, the row beginning at byte `pos`, and how many
bytes it is from there to behind their closing brackets. -/
def places : Nat → List Stretch → List (Nat × Nat)
  | _, [] => []
  | pos, s :: ss =>
    (pos + byteLength s.gap + 1, byteLength s.body + 1) :: places (pos + byteLength s.source) ss

theorem byteLength_source (s : Stretch) :
    byteLength s.source = byteLength s.gap + 1 + (byteLength s.body + 1) :=
  byteLength_gap_class s.gap s.body []

end Stretch

/-- The start and the offset of a step that reads a class. -/
def place? (step : ClassStep S) : Option (Nat × Nat) :=
  match step.outcome with
  | .ok cls => some (step.start, cls.offset)
  | .error _ => none

/-- **The text, divided.** What is searched is a row of stretches and a rest. The steps that read a
class are those of the stretches. A step fails only at an opening bracket in the rest, the first
one, and without such a step there is none. -/
theorem exists_stretches (sets : SetProvider S) (pattern : String) (pos : Nat) (cs : List Char) :
    ∃ (stretches : List Stretch) (rest : List Char),
      cs = stretches.flatMap Stretch.source ++ rest ∧
      (classesFrom sets pattern pos cs).filterMap place? = Stretch.places pos stretches ∧
      ((∀ step ∈ classesFrom sets pattern pos cs, step.Closed) → '[' ∉ rest) ∧
      ∀ step ∈ classesFrom sets pattern pos cs, ¬ step.Closed →
        ∃ gap source, rest = gap ++ '[' :: source ∧ '[' ∉ gap ∧
          step = ⟨pos + byteLength (stretches.flatMap Stretch.source ++ gap) + 1,
            .error (.unterminated source pattern)⟩ := by
  induction pos, cs using classesFrom_induction sets pattern with
  | @clear pos gap hgap => exact ⟨[], gap, rfl, rfl, fun _ => hgap, by simp⟩
  | @failed pos gap source hgap hread =>
    refine ⟨[], gap ++ '[' :: source, rfl, rfl, fun h => ?_, fun step hstep _ => ?_⟩
    · obtain ⟨cls, hcls⟩ := h _ (List.mem_singleton_self _)
      cases hcls
    · rw [List.mem_singleton] at hstep
      exact ⟨gap, source, rfl, hgap, hstep⟩
  | @closed pos gap body after cls steps hgap hread hoffset ih =>
    obtain ⟨stretches, rest, rfl, hplaces, hclear, hfail⟩ := ih
    have hwidth : byteLength (Stretch.source ⟨gap, body, hgap⟩) =
        byteLength gap + 1 + (byteLength body + 1) := Stretch.byteLength_source _
    have hnext : pos + byteLength gap + 1 + cls.offset =
        pos + byteLength (Stretch.source ⟨gap, body, hgap⟩) := by omega
    refine ⟨⟨gap, body, hgap⟩ :: stretches, rest, ?_, ?_, fun h => ?_, fun step hstep hopen => ?_⟩
    · simp [Stretch.source]
    · rw [Stretch.places, ← hnext, ← hplaces, ← hoffset]
      rfl
    · exact hclear fun step hstep => h step (List.mem_cons_of_mem _ hstep)
    · rcases List.mem_cons.1 hstep with rfl | hlater
      · exact absurd ⟨cls, rfl⟩ hopen
      · obtain ⟨gap', source, hrest, hgap', heq⟩ := hfail step hlater hopen
        refine ⟨gap', source, hrest, hgap', ?_⟩
        rw [heq, hnext, List.flatMap_cons, List.append_assoc, byteLength_append (Stretch.source _),
          Nat.add_assoc pos]

/-! ## The whole pattern -/

/-- **The classes divide the pattern.** For every pattern the scan by offsets comes to an end with
no cut that fails, and finds the steps of the search. There are at most as many as opening brackets,
and only the last one can fail. The pattern is a row of stretches and a rest: the gap of a stretch
holds no opening bracket, and the steps that read a class begin and end where the bodies of the
stretches do. If no step fails the rest holds no opening bracket; if one does, it begins at the
first opening bracket of the rest. -/
theorem classes_partition (sets : SetProvider S) (pattern : String) :
    scan? sets pattern = some (classes sets pattern) ∧
      (classes sets pattern).length ≤ pattern.toList.count '[' ∧
      (∀ step ∈ (classes sets pattern).dropLast, step.Closed) ∧
      ∃ (stretches : List Stretch) (rest : List Char),
        pattern.toList = stretches.flatMap Stretch.source ++ rest ∧
        (classes sets pattern).filterMap place? = Stretch.places 0 stretches ∧
        ((∀ step ∈ classes sets pattern, step.Closed) → '[' ∉ rest) ∧
        ∀ step ∈ classes sets pattern, ¬ step.Closed →
          ∃ gap source, rest = gap ++ '[' :: source ∧ '[' ∉ gap ∧
            step = ⟨byteLength (stretches.flatMap Stretch.source ++ gap) + 1,
              .error (.unterminated source pattern)⟩ := by
  have htext : pattern.toList = [] ++ pattern.toList := rfl
  refine ⟨scanFrom?_byteLength sets htext, length_classesFrom_le sets pattern 0 _,
    closed_of_mem_dropLast sets pattern 0 _, ?_⟩
  obtain ⟨stretches, rest, hsplit, hplaces, hclear, hfail⟩ :=
    exists_stretches sets pattern 0 pattern.toList
  refine ⟨stretches, rest, hsplit, hplaces, hclear, fun step hstep hopen => ?_⟩
  obtain ⟨gap, source, hrest, hgap, heq⟩ := hfail step hstep hopen
  rw [Nat.zero_add] at heq
  exact ⟨gap, source, hrest, hgap, heq⟩

end ClassStep

end PatternLex
