import PatternLex.CharClass.Grammar
import PatternLex.Proofs.ReaderSpec

/-!
# The reader accepts exactly the grammar of class bodies

`PatternLex.CharClass.Grammar` says what a class body is, without an order among overlapping
lexemes; the reader tries four productions in an order and backtracks inside one of them. Here the
two are shown to be the same, step by step and then along a whole body.

A step can leave the grammar in one way only: at the end of the text a lone backslash is read as
an upper bound or as a literal. No body goes on from there, so both directions carry a side
condition that something is left: `rest ≠ []` from the reader to the grammar, and a closing
bracket still to come from the grammar to the reader.

Results:

* `spells_of_next?`, `next?_of_spells`: one step;
* `spellsBody_of_readBodyWith?`, `readBodyWith?_of_spellsBody`: a whole body;
* `read_exactly_described`: what is read is what the grammar describes, there is at most one such
  class, and an error means that there is none.
-/

namespace PatternLex

open Text

namespace CharClass

open Production

variable {S : Type} {sets : SetProvider S}

/-- The grammar describes the class at the front of the source: its tokens are spelled there, one
after the other and with the closing bracket behind them, in as many bytes as the offset says. -/
def Describes (sets : SetProvider S) (source : List Char) (cls : CharClass S) : Prop :=
  ∃ body rest, source = body ++ rest ∧ byteLength body = cls.offset ∧
    SpellsBody sets cls.tokens body rest

/-- The text writes one character, behind a backslash or bare. -/
def Writes (c : Char) (front : List Char) : Prop := front = ['\\', c] ∨ (front = [c] ∧ c ≠ '\\')

/-! ## Ranges -/

theorem writes_of_spellsFirst {c : Char} {front : List Char} (h : SpellsFirst c front) :
    Writes c front := by
  cases h with
  | escaped _ _ => exact .inl rfl
  | bare _ hc => exact .inr ⟨rfl, hc⟩

theorem Writes.unique {c d : Char} {front front' rest rest' : List Char} (h : Writes c front)
    (h' : Writes d front') (heq : front ++ rest = front' ++ rest') :
    c = d ∧ rest = rest' := by
  rcases h with rfl | ⟨rfl, hc⟩ <;> rcases h' with rfl | ⟨rfl, hd⟩ <;>
    simp only [List.cons_append, List.nil_append, List.cons.injEq, true_and] at heq
  · exact heq
  · exact absurd heq.1.symm hd
  · exact absurd heq.1 hc
  · exact heq

theorem dash_of_startsRange {c : Char} {front rest : List Char} (hfront : Writes c front)
    (h : StartsRange (front ++ rest)) : ∃ after, rest = '-' :: after := by
  obtain ⟨first, last, lexeme, left, hs, heq⟩ := h
  cases hs with
  | mk hf hl =>
    rw [List.append_assoc] at heq
    exact ⟨_, (hfront.unique (writes_of_spellsFirst hf) heq).2⟩

theorem readFirst?_of_spellsFirst {c : Char} {front : List Char} (h : SpellsFirst c front)
    (rest : List Char) : readFirst? (front ++ rest) = some (c, rest) := by
  rw [readFirst?_eq_some_iff]
  cases h with
  | escaped hl _ => exact .inl ⟨rfl, hl⟩
  | bare hb hs => exact .inr ⟨rfl, hb, hs⟩

theorem readLast?_of_spellsLast {c : Char} {back rest : List Char} (h : SpellsLast c back rest) :
    readLast? (back ++ rest) = some (c, rest) := by
  rw [readLast?_eq_some_iff]
  cases h with
  | escaped hb => exact .inl ⟨rfl, hb⟩
  | bare hb hs => exact .inr ⟨rfl, hb, fun h => absurd h hs⟩
  | backslash => exact .inr ⟨rfl, by decide, fun _ => .inr ⟨_, rfl⟩⟩

theorem readRange?_of_spellsRange {first last : Char} {lexeme rest : List Char}
    (h : SpellsRange first last lexeme rest) :
    readRange? (lexeme ++ rest) = some ((.range first last : Token S), rest) := by
  cases h with
  | mk hf hl =>
    rename_i front back
    rw [readRange?_eq_some_iff]
    refine ⟨first, back ++ rest, last, ?_, readLast?_of_spellsLast hl, rfl⟩
    rw [List.append_assoc, List.cons_append]
    exact readFirst?_of_spellsFirst hf _

theorem readShorthand?_of_spellsFirst {c : Char} {front : List Char} (h : SpellsFirst c front)
    (rest : List Char) : readShorthand? sets (front ++ rest) = none := by
  cases h with
  | escaped _ hw => exact readShorthand?_escaped_eq_none_iff.2 hw
  | bare _ hs => exact readShorthand?_eq_none_of_ne sets hs rest

theorem spellsFirst_of_readFirst? {cs rest : List Char} {c : Char}
    (h : readFirst? cs = some (c, rest)) (hs : readShorthand? sets cs = none) :
    ∃ front, cs = front ++ rest ∧ SpellsFirst c front := by
  rcases readFirst?_eq_some_iff.1 h with ⟨rfl, hl⟩ | ⟨rfl, hb, hc⟩
  · exact ⟨['\\', c], rfl, .escaped hl (readShorthand?_escaped_eq_none_iff.1 hs)⟩
  · exact ⟨[c], rfl, .bare hb hc⟩

/-- Only a backslash that ends the text is read as an upper bound and not spelled as one. -/
theorem spellsLast_of_readLast? {cs rest : List Char} {c : Char}
    (h : readLast? cs = some (c, rest)) :
    (cs = ['\\'] ∧ rest = []) ∨ ∃ back, cs = back ++ rest ∧ SpellsLast c back rest := by
  rcases readLast?_eq_some_iff.1 h with ⟨rfl, hb⟩ | ⟨rfl, hb, hend⟩
  · exact .inr ⟨['\\', c], rfl, .escaped hb⟩
  · by_cases hc : c = '\\'
    · subst hc
      rcases hend rfl with rfl | ⟨after, rfl⟩
      · exact .inl ⟨rfl, rfl⟩
      · exact .inr ⟨['\\'], rfl, .backslash⟩
    · exact .inr ⟨[c], rfl, .bare hb hc⟩

theorem spellsRange_of_readRange? {cs rest : List Char} {t : Token S}
    (h : readRange? cs = some (t, rest)) (hn : readShorthand? sets cs = none) :
    (rest = [] ∧ ∃ front first, SpellsFirst first front ∧ cs = front ++ ['-', '\\']) ∨
      ∃ first last lexeme, t = .range first last ∧ cs = lexeme ++ rest ∧
        SpellsRange first last lexeme rest := by
  obtain ⟨first, mid, last, hf, hl, rfl⟩ := readRange?_eq_some_iff.1 h
  obtain ⟨front, rfl, hfront⟩ := spellsFirst_of_readFirst? hf hn
  rcases spellsLast_of_readLast? hl with ⟨rfl, rfl⟩ | ⟨back, rfl, hback⟩
  · exact .inl ⟨rfl, front, first, hfront, rfl⟩
  · exact .inr ⟨first, last, front ++ '-' :: back, rfl, by simp, .mk hfront hback⟩

theorem not_startsRange_of_readRange? {cs : List Char}
    (h : (readRange? cs : Option (Token S × List Char)) = none) : ¬ StartsRange cs := by
  intro hstarts
  obtain ⟨first, last, lexeme, rest, hs, rfl⟩ := hstarts
  rw [readRange?_of_spellsRange hs] at h
  cases h

/-- Where the grammar finds no range behind the first character, escaped or bare, the reader finds
none either, as long as a closing bracket is still to come. -/
theorem readRange?_of_not_startsRange {c : Char} {front rest : List Char}
    (hn : readShorthand? sets (front ++ rest) = none)
    (hfront : Writes c front) (hb : ']' ∈ rest)
    (hs : ¬ StartsRange (front ++ rest)) :
    (readRange? (front ++ rest) : Option (Token S × List Char)) = none := by
  cases h : (readRange? (front ++ rest) : Option (Token S × List Char)) with
  | none => rfl
  | some found =>
    obtain ⟨t, after⟩ := found
    exfalso
    rcases spellsRange_of_readRange? h hn with
      ⟨-, front', first, hf, heq⟩ | ⟨first, last, lexeme, -, heq, hr⟩
    · -- the text would end just behind the dash and the backslash, with no bracket in it
      have hrest := (hfront.unique (writes_of_spellsFirst hf) heq).2
      simp [hrest] at hb
    · exact hs ⟨first, last, lexeme, after, hr, heq⟩

/-! ## One step -/

/-- **Soundness of a step.** What the reader takes is spelled there, unless it takes all that is
left of the text. -/
theorem spells_of_next? {cs rest : List Char} {t : Token S}
    (h : next? Production.order sets cs = some (.token t, rest)) (hr : rest ≠ []) :
    ∃ lexeme, cs = lexeme ++ rest ∧ Spells sets t lexeme rest := by
  rcases next?_order_eq_token_iff.1 h with hw | ⟨hn, hrange⟩ | ⟨hn, hnone, hclose, hlit⟩
  · obtain ⟨s, rfl, rfl⟩ := readShorthand?_eq_some_iff.1 hw
    exact ⟨s.spelling, rfl, .set⟩
  · rcases spellsRange_of_readRange? hrange hn with
      ⟨rfl, -⟩ | ⟨first, last, lexeme, rfl, rfl, hs⟩
    · exact absurd rfl hr
    · exact ⟨lexeme, rfl, .range hs⟩
  · have hs := not_startsRange_of_readRange? hnone
    obtain ⟨c, rfl, rfl | ⟨rfl, hlone⟩⟩ := readLiteral?_eq_some_iff.1 hlit
    · exact ⟨['\\', c], rfl, .escaped (readShorthand?_escaped_eq_none_iff.1 hn) hs⟩
    · have hb : c ≠ ']' := by
        intro hc
        subst hc
        cases hclose
      have hc : c ≠ '\\' := fun hc => hr (hlone hc)
      exact ⟨[c], rfl, .bare hb hc hs⟩

/-- **Completeness of a step.** What is spelled there is what the reader takes, as long as a closing
bracket is still to come. -/
theorem next?_of_spells {t : Token S} {lexeme rest : List Char} (h : Spells sets t lexeme rest)
    (hb : ']' ∈ rest) :
    next? Production.order sets (lexeme ++ rest) = some (.token t, rest) := by
  rw [next?_order_eq_token_iff]
  cases h with
  | @set s _ => exact .inl (readShorthand?_eq_some_iff.2 ⟨s, rfl, rfl⟩)
  | range hs =>
    refine .inr (.inl ⟨?_, readRange?_of_spellsRange hs⟩)
    cases hs with
    | mk hf hl =>
      rw [List.append_assoc]
      exact readShorthand?_of_spellsFirst hf _
  | @escaped c _ hw hs =>
    have hn : readShorthand? sets (['\\', c] ++ rest) = none :=
      readShorthand?_escaped_eq_none_iff.2 hw
    have hrange := readRange?_of_not_startsRange hn (.inl rfl) hb hs
    refine .inr (.inr ⟨hn, hrange, rfl, ?_⟩)
    exact readLiteral?_eq_some_iff.2 ⟨c, rfl, .inl rfl⟩
  | @bare c _ hclose hc hs =>
    have hn : readShorthand? sets ([c] ++ rest) = none := readShorthand?_eq_none_of_ne sets hc rest
    have hrange := readRange?_of_not_startsRange hn (.inr ⟨rfl, hc⟩) hb hs
    refine .inr (.inr ⟨hn, hrange, ?_, ?_⟩)
    · unfold readTerminator?
      split
      · rename_i heq
        exact absurd (List.cons.inj heq).1 hclose
      · rfl
    · exact readLiteral?_eq_some_iff.2 ⟨c, rfl, .inr ⟨rfl, fun h => absurd h hc⟩⟩

/-! ## A whole body -/

theorem mem_of_spellsBody {ts : List (Token S)} {body rest : List Char}
    (h : SpellsBody sets ts body rest) : ']' ∈ body := by
  induction h with
  | close => simp
  | token _ _ ih => exact List.mem_append_right _ ih

theorem readBodyWith?_of_spellsBody {ts : List (Token S)} {body rest : List Char}
    (h : SpellsBody sets ts body rest) :
    readBodyWith? Production.order sets (body ++ rest) = some (ts, rest) := by
  induction h with
  | close => exact readBodyWith?_order_close sets _
  | @token t ts lexeme body rest hs hbody ih =>
    have hmem : ']' ∈ body ++ rest := List.mem_append_left _ (mem_of_spellsBody hbody)
    have hstep := next?_of_spells hs hmem
    rw [List.append_assoc, readBodyWith?_of_token hstep, ih]
    rfl

theorem spellsBody_of_readBodyWith? {ts : List (Token S)} {cs after : List Char}
    (h : readBodyWith? Production.order sets cs = some (ts, after)) :
    ∃ body, cs = body ++ after ∧ SpellsBody sets ts body after := by
  induction h using readBodyWith?_induction with
  | close hstep => exact ⟨[']'], eq_cons_of_next?_close hstep, .close⟩
  | @token t ts cs rest hstep hread ih =>
    obtain ⟨body, hrest, hbody⟩ := ih
    -- the step does not end the text, since the closing bracket is still to come
    have hne : rest ≠ [] := by
      intro hnil
      have hmem : ']' ∈ rest := hrest ▸ List.mem_append_left _ (mem_of_spellsBody hbody)
      rw [hnil] at hmem
      cases hmem
    obtain ⟨lexeme, hcs, hs⟩ := spells_of_next? hstep hne
    refine ⟨lexeme ++ body, ?_, ?_⟩
    · rw [hcs, hrest, List.append_assoc]
    · rw [hrest] at hs
      exact .token hs hbody

/-! ## The class -/

theorem read_eq_ok_iff_describes (pattern : String) {source : String} {cls : CharClass S} :
    read sets source pattern = .ok cls ↔ Describes sets source.toList cls := by
  unfold read Describes
  rw [readWith_eq_ok_iff]
  refine ⟨?_, ?_⟩
  · intro h
    obtain ⟨body, after, hs, hw, hread⟩ := h
    obtain ⟨body', hs', hbody⟩ := spellsBody_of_readBodyWith? hread
    rw [hs, List.append_left_inj] at hs'
    subst hs'
    exact ⟨body, after, hs, hw, hbody⟩
  · intro h
    obtain ⟨body, rest, hs, hw, hbody⟩ := h
    have hread := readBodyWith?_of_spellsBody hbody
    rw [← hs] at hread
    exact ⟨body, rest, hs, hw, hread⟩

theorem read_eq_ok_byteLength_iff {source : String} {ts : List (Token S)} (pattern : String) :
    read sets source pattern = .ok ⟨ts, byteLength source.toList⟩ ↔
      SpellsBody sets ts source.toList [] := by
  rw [read_eq_ok_iff_describes]
  constructor
  · intro h
    obtain ⟨body, rest, htext, hoffset, hbody⟩ := h
    rw [htext, byteLength_append] at hoffset
    have hnil : rest = [] := by
      have hlength := length_le_byteLength rest
      exact List.length_eq_zero_iff.1 (by simp only at hoffset; omega)
    rw [hnil] at hbody htext
    rw [htext, List.append_nil]
    exact hbody
  · intro h
    exact ⟨source.toList, [], (List.append_nil _).symm, rfl, h⟩

/-- **The grammar is the reader.** For every source, pattern and provider, the classes that are read
are exactly those that the grammar describes; it describes at most one; and the reading fails
exactly where it describes none. -/
theorem read_exactly_described (sets : SetProvider S) (source pattern : String) :
    (∀ cls, read sets source pattern = .ok cls ↔ Describes sets source.toList cls) ∧
      (∀ cls cls', Describes sets source.toList cls → Describes sets source.toList cls' →
        cls = cls') ∧
      ((∃ m, read sets source pattern = .error m) ↔
        ∀ cls, ¬ Describes sets source.toList cls) := by
  refine ⟨fun _ => read_eq_ok_iff_describes pattern, ?_, ?_⟩
  · intro cls cls' h h'
    rw [← read_eq_ok_iff_describes pattern] at h h'
    rw [h, Except.ok.injEq] at h'
    exact h'
  · cases h : read sets source pattern with
    | error m =>
      refine ⟨fun _ cls hd => ?_, fun _ => ⟨m, rfl⟩⟩
      rw [← read_eq_ok_iff_describes pattern, h] at hd
      cases hd
    | ok cls =>
      have hdescribes := (read_eq_ok_iff_describes pattern).1 h
      refine ⟨?_, fun hnone => absurd hdescribes (hnone cls)⟩
      intro hm
      obtain ⟨m, hm⟩ := hm
      cases hm

/-- A range that runs to a backslash, with the closing bracket just behind it. -/
theorem read_exactly_described_range_to_backslash :
    read .symbolic "a-\\]]" "[a-\\]]" = .ok ⟨[.range 'a' '\\'], 4⟩ := by
  have hlexeme : SpellsRange 'a' '\\' ['a', '-', '\\'] [']', ']'] :=
    .mk (.bare (by decide) (by decide)) .backslash
  exact ((read_exactly_described .symbolic _ _).1 _).2
    ⟨['a', '-', '\\', ']'], [']'], rfl, rfl, .token (.range hlexeme) .close⟩

end CharClass

end PatternLex
