import PatternLex.Proofs.ReaderSpec

/-!
# The reader does not look inside a set

What a provider hands out is put into the tokens and never looked at. So to replace the values of a
provider is to replace the sets of the tokens that are read, and nothing else. Every provider comes
from the symbolic one by such a replacement, and a class that is read with any provider is the class
of shorthands with the values filled in.

Results:

* `read?_map`, `next?_map`: one step with a replaced provider;
* `readBodyWith?_map`, `readWith_map`: a whole reading, in whatever order of the productions;
* `read_eq_map_symbolic`: any provider by way of the symbolic one.
-/

namespace PatternLex

variable {S T : Type}

namespace Production

/-! ## One step -/

theorem readRange?_map (f : S → T) (cs : List Char) :
    (readRange? cs : Option (Token T × List Char)) =
      (readRange? cs).map fun (t, rest) => (t.map f, rest) := by
  unfold readRange?
  split
  · rw [Option.map_map]
    rfl
  · rfl

theorem readShorthand?_map (f : S → T) (sets : SetProvider S) (cs : List Char) :
    readShorthand? (sets.map f) cs =
      (readShorthand? sets cs).map fun (t, rest) => (t.map f, rest) := by
  unfold readShorthand?
  split
  · simp only [Option.map_map, SetProvider.provide_map]
    rfl
  · rfl

theorem readLiteral?_map (f : S → T) (cs : List Char) :
    (readLiteral? cs : Option (Token T × List Char)) =
      (readLiteral? cs).map fun (t, rest) => (t.map f, rest) := by
  unfold readLiteral?
  split <;> rfl

theorem read?_map (f : S → T) (sets : SetProvider S) (p : Production) (cs : List Char) :
    p.read? (sets.map f) cs = (p.read? sets cs).map fun (l, rest) => (l.map f, rest) := by
  cases p with
  | shorthand =>
    simp only [read?, readShorthand?_map, Option.map_map]
    rfl
  | range =>
    simp only [read?, readRange?_map f, Option.map_map]
    rfl
  | terminator =>
    simp only [read?, Option.map_map]
    rfl
  | literal =>
    simp only [read?, readLiteral?_map f, Option.map_map]
    rfl

theorem next?_map (f : S → T) (order : List Production) (sets : SetProvider S) (cs : List Char) :
    next? order (sets.map f) cs = (next? order sets cs).map fun (l, rest) => (l.map f, rest) := by
  simp only [next?, List.map_findSome?, read?_map, Function.comp_def]

end Production

namespace CharClass

/-! ## A whole reading -/

theorem readBodyWith?_map (f : S → T) (order : List Production) (sets : SetProvider S)
    (cs : List Char) :
    readBodyWith? order (sets.map f) cs =
      (readBodyWith? order sets cs).map fun (ts, after) => (ts.map (Token.map f), after) := by
  fun_induction readBodyWith? order sets cs with
  | case1 =>
    rw [readBodyWith?]
    rfl
  | case2 c cs t rest hstep ih =>
    have hmapped := Production.next?_map f order sets (c :: cs)
    rw [hstep] at hmapped
    rw [readBodyWith?_of_token hmapped, ih, Option.map_map, Option.map_map]
    rfl
  | case3 c cs rest hstep =>
    have hmapped := Production.next?_map f order sets (c :: cs)
    rw [hstep] at hmapped
    exact readBodyWith?_of_close hmapped
  | case4 c cs hstep =>
    have hmapped := Production.next?_map f order sets (c :: cs)
    rw [hstep] at hmapped
    rw [readBodyWith?_eq, hmapped]
    rfl

/-- **Replaced values.** With a replaced provider the same class is read, its sets being replaced,
or the same error is made. -/
theorem readWith_map (f : S → T) (order : List Production) (sets : SetProvider S)
    (source pattern : String) :
    readWith order (sets.map f) source pattern =
      (readWith order sets source pattern).map (map f) := by
  unfold readWith readFrontWith?
  rw [readBodyWith?_map]
  cases readBodyWith? order sets source.toList <;> rfl

/-- **Any provider.** For every provider, source and pattern, what is read with the provider is what
is read with the symbolic one, each shorthand being replaced with the value that the provider has
for it: the ranges and the characters, the order of the tokens and the offset are the same, and so
is the whole error. -/
theorem read_eq_map_symbolic (sets : SetProvider S) (source pattern : String) :
    read sets source pattern =
      (read .symbolic source pattern).map fun cls =>
        ⟨cls.tokens.map (Token.map sets.provide), cls.offset⟩ := by
  have h := readWith_map sets.provide Production.order .symbolic source pattern
  rw [SetProvider.map_provide_symbolic] at h
  exact h

end CharClass

end PatternLex
