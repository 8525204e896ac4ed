import PatternLex.CharClass.Reader

/-!
# What the readers of a class fit and take

The readers of a class body try the characters ahead of them in a few overlapping patterns. Each
reader gets one statement that says exactly which texts it fits and what it leaves, and so does one
step and one whole reading. No proof about a class has to open a reader again.

Results:

* `readFirst?_eq_some_iff`, `readLast?_eq_some_iff`, `readRange?_eq_some_iff`,
  `readShorthand?_eq_some_iff`, `readLiteral?_eq_some_iff`: one reader each;
* `next?_order_eq_token_iff`: what a step reads, with the productions in their order;
* `readBodyWith?_eq`: a reading is its first step and the reading of what the step leaves;
* `readBodyWith?_induction`: induction along a reading that ends well;
* `readWith_eq_ok_iff`, `readWith_eq_error_iff`: a reading ends well exactly when the body does.
-/

namespace PatternLex

open Text

variable {S : Type}

namespace Production

/-! ## The readers -/

theorem readFirst?_eq_some_iff {cs rest : List Char} {c : Char} :
    readFirst? cs = some (c, rest) ↔
      (cs = '\\' :: c :: rest ∧ c ∉ lineTerminators) ∨ (cs = c :: rest ∧ c ≠ ']' ∧ c ≠ '\\') := by
  fun_cases readFirst? cs <;> grind

/-- A bare backslash is a bound only where it cannot escape what follows it. -/
theorem readLast?_eq_some_iff {cs rest : List Char} {c : Char} :
    readLast? cs = some (c, rest) ↔
      (cs = '\\' :: c :: rest ∧ c ≠ ']') ∨
        (cs = c :: rest ∧ c ≠ ']' ∧ (c = '\\' → rest = [] ∨ ∃ after, rest = ']' :: after)) := by
  fun_cases readLast? cs <;> cases rest <;> grind

theorem readRange?_eq_some_iff {cs rest : List Char} {t : Token S} :
    readRange? cs = some (t, rest) ↔
      ∃ first mid last, readFirst? cs = some (first, '-' :: mid) ∧
        readLast? mid = some (last, rest) ∧ t = .range first last := by
  unfold readRange?
  split
  · rename_i first mid hf
    simp only [Option.map_eq_some_iff, Prod.mk.injEq, Prod.exists, Option.some.injEq,
      List.cons.injEq, true_and, hf]
    refine ⟨?_, ?_⟩
    · intro h
      obtain ⟨last, after, hl, rfl, rfl⟩ := h
      exact ⟨first, mid, last, ⟨rfl, rfl⟩, hl, rfl⟩
    · intro h
      obtain ⟨_, _, last, ⟨rfl, rfl⟩, hl, rfl⟩ := h
      exact ⟨last, rest, hl, rfl, rfl⟩
  · rename_i hf
    simp only [reduceCtorEq, false_iff]
    intro h
    obtain ⟨first, mid, last, hfirst, -⟩ := h
    exact hf first mid hfirst

theorem readShorthand?_eq_some_iff {sets : SetProvider S} {cs rest : List Char} {t : Token S} :
    readShorthand? sets cs = some (t, rest) ↔
      ∃ s : Shorthand, cs = s.spelling ++ rest ∧ t = .set (sets.provide s) := by
  fun_cases readShorthand? sets cs with
  | case1 c after =>
    simp only [Option.map_eq_some_iff, Shorthand.ofChar?_eq_some_iff, Prod.mk.injEq,
      Shorthand.spelling, List.cons_append, List.nil_append, List.cons.injEq, true_and]
    refine ⟨?_, ?_⟩
    · intro h
      obtain ⟨s, rfl, rfl, rfl⟩ := h
      exact ⟨s, ⟨rfl, rfl⟩, rfl⟩
    · intro h
      obtain ⟨s, ⟨rfl, rfl⟩, rfl⟩ := h
      exact ⟨s, rfl, rfl, rfl⟩
  | case2 cs hcs =>
    simp only [reduceCtorEq, false_iff]
    intro h
    obtain ⟨s, rfl, -⟩ := h
    exact hcs s.letter rest rfl

theorem readShorthand?_escaped_eq_none_iff {sets : SetProvider S} {c : Char} {cs : List Char} :
    readShorthand? sets ('\\' :: c :: cs) = none ↔ Shorthand.ofChar? c = none := by
  simp [readShorthand?]

theorem readShorthand?_eq_none_of_ne (sets : SetProvider S) {c : Char} (hc : c ≠ '\\')
    (cs : List Char) : readShorthand? sets (c :: cs) = none := by
  unfold readShorthand?
  split
  · rename_i heq
    exact absurd (List.cons.inj heq).1 hc
  · rfl

theorem readLiteral?_eq_some_iff {cs rest : List Char} {t : Token S} :
    readLiteral? cs = some (t, rest) ↔
      ∃ c, t = .char c ∧ (cs = '\\' :: c :: rest ∨ (cs = c :: rest ∧ (c = '\\' → rest = []))) := by
  fun_cases readLiteral? cs <;> cases rest <;> grind

/-! ## One step -/

/-- A step reads a token by the first production that fits: a shorthand, else a range, else, where
the class does not close, a literal. -/
theorem next?_order_eq_token_iff {sets : SetProvider S} {cs rest : List Char} {t : Token S} :
    next? order sets cs = some (.token t, rest) ↔
      readShorthand? sets cs = some (t, rest) ∨
      (readShorthand? sets cs = none ∧ readRange? cs = some (t, rest)) ∨
      (readShorthand? sets cs = none ∧ (readRange? cs : Option (Token S × List Char)) = none ∧
        readTerminator? cs = none ∧ readLiteral? cs = some (t, rest)) := by
  unfold next? order
  simp only [List.findSome?_cons, List.findSome?_nil, read?]
  cases readShorthand? sets cs with
  | some found => simp [Prod.ext_iff]
  | none =>
    cases (readRange? cs : Option (Token S × List Char)) with
    | some found => simp [Prod.ext_iff]
    | none =>
      cases readTerminator? cs with
      | some found => simp
      | none =>
        cases (readLiteral? cs : Option (Token S × List Char)) with
        | some found => simp [Prod.ext_iff]
        | none => simp

theorem next?_order_close (sets : SetProvider S) (rest : List Char) :
    next? order sets (']' :: rest) = some (.close, rest) := rfl

theorem next?_order_ne_none (sets : SetProvider S) (c : Char) (cs : List Char) :
    next? order sets (c :: cs) ≠ none := by
  have hknown : literal ∈ order := by decide
  exact Option.isSome_iff_ne_none.1 (next?_isSome hknown sets c cs)

end Production

/-! ## A whole reading -/

namespace CharClass

open Production

variable {order : List Production} {sets : SetProvider S}

/-- At the end of the text no production fits, so that one equation holds at every place. -/
theorem readBodyWith?_eq (order : List Production) (sets : SetProvider S) (cs : List Char) :
    readBodyWith? order sets cs =
      match next? order sets cs with
      | some (.token t, rest) =>
        (readBodyWith? order sets rest).map fun (ts, after) => (t :: ts, after)
      | some (.close, rest) => some ([], rest)
      | none => none := by
  cases cs with
  | nil =>
    have hnone : next? order sets [] = none := by
      cases h : next? order sets [] with
      | none => rfl
      | some found =>
        have hshort := (properSuffix_of_next? h).length_lt
        simp at hshort
    rw [readBodyWith?, hnone]
  | cons c cs =>
    rw [readBodyWith?]
    split
    · rename_i t rest h
      rw [h]
    · rename_i rest h
      rw [h]
    · rename_i h
      rw [h]

theorem readBodyWith?_of_token {cs rest : List Char} {t : Token S}
    (h : next? order sets cs = some (.token t, rest)) :
    readBodyWith? order sets cs =
      (readBodyWith? order sets rest).map fun (ts, after) => (t :: ts, after) := by
  rw [readBodyWith?_eq, h]

theorem readBodyWith?_of_close {cs rest : List Char}
    (h : next? order sets cs = some (.close, rest)) :
    readBodyWith? order sets cs = some ([], rest) := by
  rw [readBodyWith?_eq, h]

/-- Induction along a reading that ends well: its last step closes the class, and every step before
it reads one token. -/
@[elab_as_elim]
theorem readBodyWith?_induction {after : List Char}
    {motive : ∀ ts cs, readBodyWith? order sets cs = some (ts, after) → Prop}
    (close : ∀ {cs} (hstep : next? order sets cs = some (.close, after)),
      motive [] cs (readBodyWith?_of_close hstep))
    (token : ∀ {t ts cs rest} (hstep : next? order sets cs = some (.token t, rest))
      (hread : readBodyWith? order sets rest = some (ts, after)), motive ts rest hread →
      motive (t :: ts) cs (by rw [readBodyWith?_of_token hstep, hread]; rfl))
    {ts : List (Token S)} {cs : List Char}
    (h : readBodyWith? order sets cs = some (ts, after)) : motive ts cs h := by
  induction cs using readBodyWith?.induct order sets generalizing ts with
  | case1 =>
    have hnil := h
    rw [readBodyWith?] at hnil
    cases hnil
  | case2 c cs t rest hstep ih =>
    have hmap := h
    rw [readBodyWith?_of_token hstep] at hmap
    obtain ⟨⟨us, left⟩, hread, heq⟩ := Option.map_eq_some_iff.1 hmap
    simp only [Prod.mk.injEq] at heq
    obtain ⟨rfl, rfl⟩ := heq
    exact token hstep hread (ih hread)
  | case3 c cs rest hstep =>
    have hclose := h
    rw [readBodyWith?_of_close hstep, Option.some.injEq, Prod.mk.injEq] at hclose
    obtain ⟨rfl, rfl⟩ := hclose
    exact close hstep
  | case4 c cs hstep =>
    have hnone := h
    rw [readBodyWith?_eq, hstep] at hnone
    cases hnone

theorem readBodyWith?_order_close (sets : SetProvider S) (rest : List Char) :
    readBodyWith? Production.order sets (']' :: rest) = some ([], rest) :=
  readBodyWith?_of_close (next?_order_close sets rest)

theorem readWith_eq_ok_iff {source pattern : String} {cls : CharClass S} :
    readWith order sets source pattern = .ok cls ↔
      ∃ body after, source.toList = body ++ after ∧ byteLength body = cls.offset ∧
        readBodyWith? order sets source.toList = some (cls.tokens, after) := by
  unfold readWith readFrontWith?
  cases h : readBodyWith? order sets source.toList with
  | none => simp
  | some found =>
    obtain ⟨ts, after⟩ := found
    obtain ⟨body, hb⟩ := exists_of_readBodyWith? h
    have hw : byteLength source.toList - byteLength after = byteLength (body ++ [']']) := by
      rw [hb, List.append_cons, byteLength_append]
      omega
    simp only [Option.map_some, Except.ok.injEq, Option.some.injEq, Prod.mk.injEq, hw]
    refine ⟨?_, ?_⟩
    · intro h
      subst h
      exact ⟨body ++ [']'], after, by rw [hb, List.append_cons], rfl, rfl, rfl⟩
    · intro h
      obtain ⟨body', after', hs, ho, ht, rfl⟩ := h
      have hbody : body' = body ++ [']'] := by
        rw [hb, List.append_cons] at hs
        exact (List.append_cancel_right hs).symm
      cases cls
      simp only [hbody] at ho
      simp only [ho, ht]

theorem readWith_eq_error_iff {source pattern : String} {m : Malformed} :
    readWith order sets source pattern = .error m ↔
      readBodyWith? order sets source.toList = none ∧ m = .unterminated source.toList pattern := by
  unfold readWith readFrontWith?
  cases readBodyWith? order sets source.toList with
  | none => simp [eq_comm]
  | some found => simp

end CharClass

end PatternLex
