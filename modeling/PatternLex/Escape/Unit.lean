import PatternLex.Escape.Reader

/-!
# Units: a text read by its escapes

Read from left to right, a backslash with the body of an escape behind it is one unit. A backslash
with no body behind it makes a unit with the one character that follows, so that of two backslashes
the second escapes nothing. Any other character is a unit of its own.

This is how a reader takes a pattern who knows the escapes and nothing else; the cutting into pieces
is another matter, since it looks for a backslash before an escape.

Results:

* `flatMap_source_escapeUnits`: the units, written one after the other, are the text;
* `startsUnit_append_iff`: a unit starts at a place where the units of the rest are the last ones;
* `AtUnit.of_length_le`: of two places where a unit starts, the later is reached from the earlier;
* `not_atUnit_backslash`: no backslash with a character behind it is a unit by itself.
-/

namespace PatternLex

open Text

/-- A unit of a text. -/
inductive EscapeUnit where
  /-- A character that no backslash stands before. -/
  | bare (c : Char)
  /-- A backslash that begins no escape, with the character after it. -/
  | pair (c : Char)
  /-- A backslash and the body behind it. -/
  | escape (e : Escape)
  deriving DecidableEq, Repr

namespace EscapeUnit

/-- What the unit takes from the text. -/
def source : EscapeUnit → List Char
  | bare c => [c]
  | pair c => ['\\', c]
  | escape e => e.spelling

theorem source_ne_nil (u : EscapeUnit) : u.source ≠ [] := by
  cases u <;> simp [source, Escape.spelling]

/-- Reads one unit and returns it with the text after it. -/
def next? : List Char → Option (EscapeUnit × List Char)
  | [] => none
  | '\\' :: cs =>
    match Escape.readBody? cs with
    | some (e, rest) => some (escape e, rest)
    | none =>
      match cs with
      | c :: rest => some (pair c, rest)
      | [] => some (bare '\\', [])
  | c :: cs => some (bare c, cs)

theorem next?_bare {c : Char} (hc : c ≠ '\\') (cs : List Char) :
    next? (c :: cs) = some (bare c, cs) := by
  unfold next?
  split <;> simp_all

theorem next?_escape {cs rest : List Char} {e : Escape}
    (h : Escape.readBody? cs = some (e, rest)) : next? ('\\' :: cs) = some (escape e, rest) := by
  simp only [next?, h]

theorem next?_pair {c : Char} {cs : List Char} (h : Escape.readBody? (c :: cs) = none) :
    next? ('\\' :: c :: cs) = some (pair c, cs) := by
  simp only [next?, h]

theorem eq_source_append_of_next? {cs rest : List Char} {u : EscapeUnit}
    (h : next? cs = some (u, rest)) : cs = u.source ++ rest := by
  unfold next? at h
  split at h
  · cases h
  · rename_i cs
    split at h
    · rename_i e left hread
      simp only [Option.some.injEq, Prod.mk.injEq] at h
      obtain ⟨rfl, rfl⟩ := h
      rw [Escape.eq_body_append_of_readBody? hread]
      rfl
    · split at h <;> cases h <;> rfl
  · cases h
    rfl

theorem length_lt_of_next? {cs rest : List Char} {u : EscapeUnit}
    (h : next? cs = some (u, rest)) : rest.length < cs.length := by
  have htaken := List.length_pos_iff.2 u.source_ne_nil
  rw [eq_source_append_of_next? h, List.length_append]
  omega

theorem exists_next?_of_ne_nil {cs : List Char} (h : cs ≠ []) :
    ∃ u rest, next? cs = some (u, rest) := by
  unfold next?
  split
  · exact absurd rfl h
  · split
    · exact ⟨_, _, rfl⟩
    · split <;> exact ⟨_, _, rfl⟩
  · exact ⟨_, _, rfl⟩

end EscapeUnit

/-- The units of a text. -/
def escapeUnits (cs : List Char) : List EscapeUnit :=
  match _ : EscapeUnit.next? cs with
  | some (u, rest) => u :: escapeUnits rest
  | none => []
  termination_by cs.length
  decreasing_by exact EscapeUnit.length_lt_of_next? (by assumption)

theorem escapeUnits_of_next? {cs rest : List Char} {u : EscapeUnit}
    (h : EscapeUnit.next? cs = some (u, rest)) : escapeUnits cs = u :: escapeUnits rest := by
  rw [escapeUnits]
  split
  · rename_i v left hv
    rw [h, Option.some.injEq, Prod.mk.injEq] at hv
    rw [hv.1, hv.2]
  · rename_i hnone
    rw [h] at hnone
    cases hnone

theorem flatMap_source_escapeUnits (cs : List Char) :
    (escapeUnits cs).flatMap EscapeUnit.source = cs := by
  fun_induction escapeUnits cs with
  | case1 cs u rest hnext ih =>
    rw [List.flatMap_cons, ih, EscapeUnit.eq_source_append_of_next? hnext]
  | case2 cs hnone =>
    by_cases hcs : cs = []
    · rw [hcs]
      rfl
    · obtain ⟨u, rest, hnext⟩ := EscapeUnit.exists_next?_of_ne_nil hcs
      rw [hnone] at hnext
      cases hnext

/-- From any of its units on, a text is read as if it began there. -/
theorem escapeUnits_flatMap_source {cs : List Char} {front back : List EscapeUnit}
    (h : escapeUnits cs = front ++ back) : escapeUnits (back.flatMap EscapeUnit.source) = back := by
  induction front generalizing cs with
  | nil => rw [← List.nil_append back, ← h, flatMap_source_escapeUnits]
  | cons u front ih =>
    rw [escapeUnits] at h
    split at h
    · exact ih (List.cons.inj h).2
    · cases h

/-! ## Places -/

/-- A unit of the text starts behind its first `n` characters. -/
def StartsUnit (cs : List Char) (n : Nat) : Prop :=
  ∃ front back, escapeUnits cs = front ++ back ∧ back ≠ [] ∧
    (front.flatMap EscapeUnit.source).length = n

/-- The last part of the text, from a place where a unit starts, or from the end. -/
def AtUnit (cs rest : List Char) : Prop := ∃ us, escapeUnits cs = us ++ escapeUnits rest

namespace AtUnit

theorem refl (cs : List Char) : AtUnit cs cs := ⟨[], rfl⟩

theorem trans {a b c : List Char} (h : AtUnit a b) (h' : AtUnit b c) : AtUnit a c := by
  obtain ⟨us, heq⟩ := h
  obtain ⟨us', heq'⟩ := h'
  exact ⟨us ++ us', by rw [heq, heq', List.append_assoc]⟩

theorem of_next? {cs rest : List Char} {u : EscapeUnit}
    (h : EscapeUnit.next? cs = some (u, rest)) : AtUnit cs rest :=
  ⟨[u], escapeUnits_of_next? h⟩

theorem bare {c : Char} (hc : c ≠ '\\') (cs : List Char) : AtUnit (c :: cs) cs :=
  of_next? (EscapeUnit.next?_bare hc cs)

theorem pair {c : Char} {cs : List Char} (h : Escape.readBody? (c :: cs) = none) :
    AtUnit ('\\' :: c :: cs) cs :=
  of_next? (EscapeUnit.next?_pair h)

theorem escape {cs rest : List Char} {e : Escape} (h : Escape.readBody? cs = some (e, rest)) :
    AtUnit ('\\' :: cs) rest :=
  of_next? (EscapeUnit.next?_escape h)

theorem plain {text : List Char} (h : '\\' ∉ text) (rest : List Char) :
    AtUnit (text ++ rest) rest := by
  induction text with
  | nil => exact refl rest
  | cons c text ih =>
    rw [List.mem_cons, not_or] at h
    exact (bare (Ne.symm h.1) (text ++ rest)).trans (ih h.2)

theorem exists_append {cs rest : List Char} (h : AtUnit cs rest) : ∃ taken, cs = taken ++ rest := by
  obtain ⟨us, heq⟩ := h
  refine ⟨us.flatMap EscapeUnit.source, ?_⟩
  rw [← flatMap_source_escapeUnits cs, heq, List.flatMap_append, flatMap_source_escapeUnits]

theorem length_le {cs rest : List Char} (h : AtUnit cs rest) : rest.length ≤ cs.length := by
  obtain ⟨taken, rfl⟩ := h.exists_append
  rw [List.length_append]
  omega

/-- **One reading.** Of two places where a unit starts, the later is reached from the earlier. -/
theorem of_length_le {cs a b : List Char} (ha : AtUnit cs a) (hb : AtUnit cs b)
    (h : b.length ≤ a.length) : AtUnit a b := by
  obtain ⟨us, heq⟩ := ha
  obtain ⟨vs, heq'⟩ := hb
  rw [heq] at heq'
  rcases List.append_eq_append_iff.1 heq' with ⟨mid, -, hmid⟩ | ⟨mid, -, hmid⟩
  · exact ⟨mid, hmid⟩
  · -- nothing can stand between the later place and the earlier one
    have hsource := congrArg (List.flatMap EscapeUnit.source) hmid
    rw [List.flatMap_append, flatMap_source_escapeUnits, flatMap_source_escapeUnits] at hsource
    have hlength := congrArg List.length hsource
    rw [List.length_append] at hlength
    have hnil : mid.flatMap EscapeUnit.source = [] := List.length_eq_zero_iff.1 (by omega)
    rw [hnil, List.nil_append] at hsource
    exact hsource ▸ refl b

end AtUnit

theorem startsUnit_append_iff {a rest : List Char} (hrest : rest ≠ []) :
    StartsUnit (a ++ rest) a.length ↔ AtUnit (a ++ rest) rest := by
  constructor
  · intro h
    obtain ⟨front, back, heq, -, hlength⟩ := h
    have htext := flatMap_source_escapeUnits (a ++ rest)
    rw [heq, List.flatMap_append] at htext
    obtain ⟨-, hback⟩ := List.append_inj htext hlength
    have hunits := escapeUnits_flatMap_source heq
    rw [hback] at hunits
    exact ⟨front, by rw [heq, hunits]⟩
  · intro h
    obtain ⟨us, heq⟩ := h
    have htext := flatMap_source_escapeUnits (a ++ rest)
    rw [heq, List.flatMap_append, flatMap_source_escapeUnits, List.append_left_inj] at htext
    refine ⟨us, escapeUnits rest, heq, ?_, by rw [htext]⟩
    intro hnil
    have hempty := flatMap_source_escapeUnits rest
    rw [hnil, List.flatMap_nil] at hempty
    exact hrest hempty.symm

theorem not_atUnit_backslash {rest : List Char} (hrest : rest ≠ []) :
    ¬ AtUnit ('\\' :: rest) rest := by
  intro h
  obtain ⟨c, cs, rfl⟩ := List.exists_cons_of_ne_nil hrest
  -- the first unit takes that character too, and so ends behind the place
  obtain ⟨u, left, hnext, hleft⟩ : ∃ u left, EscapeUnit.next? ('\\' :: c :: cs) = some (u, left) ∧
      left.length < (c :: cs).length := by
    cases hread : Escape.readBody? (c :: cs) with
    | none => exact ⟨_, _, EscapeUnit.next?_pair hread, by simp⟩
    | some found =>
      obtain ⟨e, left⟩ := found
      refine ⟨_, _, EscapeUnit.next?_escape hread, ?_⟩
      have hbody := List.length_pos_iff.2 e.body_ne_nil
      rw [Escape.eq_body_append_of_readBody? hread, List.length_append]
      omega
  obtain ⟨us, heq⟩ := h
  rw [escapeUnits_of_next? hnext] at heq
  cases us with
  | nil =>
    have hsource := congrArg (List.flatMap EscapeUnit.source) heq
    rw [← escapeUnits_of_next? hnext, List.nil_append, flatMap_source_escapeUnits,
      flatMap_source_escapeUnits] at hsource
    have hlength := congrArg List.length hsource
    simp at hlength
  | cons v us =>
    have hlater : AtUnit left (c :: cs) := ⟨us, (List.cons.inj heq).2⟩
    have hle := hlater.length_le
    omega

end PatternLex
