import PatternLex.CharClass.Printer
import PatternLex.Proofs.ClassGrammar

/-!
# Written tokens are read back

`PatternLex.CharClass.Printer` writes every token so that tokens may stand side by side. Here a
row of written tokens is shown to be a body of the grammar, and so to be read back, whatever stands
behind the closing bracket. Nothing that is written begins with a dash, so no character of one token
can become the lower bound of a range that ends in the next.

Results:

* `spells_spelling`: a written token is a lexeme for that token, where no dash follows;
* `spellable_of_spellsBody`: no body of the grammar has a range that ends in the closing bracket;
* `read_spellAll_roundTrip`: written rows are read back, and no other rows are ever read.
-/

namespace PatternLex

open Text

variable {S : Type}

namespace Token

/-- A token that can be written and read back: any but a range up to the closing bracket. -/
def Spellable : Token S → Prop
  | range _ last => last ≠ ']'
  | _ => True

theorem spellChar_cases (c : Char) :
    (spellChar c = [c] ∧ c ≠ '-' ∧ c ≠ ']' ∧ c ≠ '\\') ∨
      (spellChar c = ['\\', c] ∧ Shorthand.ofChar? c = none) := by
  unfold spellChar
  cases hw : Shorthand.ofChar? c with
  | none => exact .inr ⟨rfl, rfl⟩
  | some s =>
    rw [Shorthand.ofChar?_eq_some_iff] at hw
    subst hw
    exact .inl ⟨rfl, by cases s <;> decide⟩

theorem spellFirst_cases (c : Char) :
    (spellFirst c = [c] ∧ c ≠ '-' ∧ c ≠ ']' ∧ c ≠ '\\') ∨
      (spellFirst c = ['\\', c] ∧ c ∉ Production.lineTerminators ∧ Shorthand.ofChar? c = none) := by
  unfold spellFirst
  by_cases hl : c ∈ Production.lineTerminators
  · rw [if_pos hl]
    refine .inl ⟨rfl, ?_⟩
    simp only [Production.lineTerminators, List.mem_cons, List.not_mem_nil, or_false] at hl
    rcases hl with rfl | rfl | rfl | rfl <;> decide
  · rw [if_neg hl]
    rcases spellChar_cases c with h | ⟨h, hw⟩
    · exact .inl h
    · exact .inr ⟨h, hl, hw⟩

theorem spelling_head (t : Token Shorthand) : ∃ d cs, t.spelling = d :: cs ∧ d ≠ '-' := by
  have hback : '\\' ≠ '-' := by decide
  cases t with
  | set s => exact ⟨'\\', [s.letter], rfl, hback⟩
  | char c =>
    rcases spellChar_cases c with ⟨h, hc, -⟩ | ⟨h, -⟩
    · exact ⟨c, [], h, hc⟩
    · exact ⟨'\\', [c], h, hback⟩
  | range first last =>
    rcases spellFirst_cases first with ⟨h, hc, -⟩ | ⟨h, -⟩
    · exact ⟨first, _, by rw [spelling, h]; rfl, hc⟩
    · exact ⟨'\\', _, by rw [spelling, h]; rfl, hback⟩

theorem spellAll_head (ts : List (Token Shorthand)) (rest : List Char) :
    ∃ d cs, spellAll ts ++ ']' :: rest = d :: cs ∧ d ≠ '-' := by
  cases ts with
  | nil => exact ⟨']', rest, rfl, by decide⟩
  | cons t ts =>
    obtain ⟨d, cs, h, hd⟩ := spelling_head t
    exact ⟨d, cs ++ (spellAll ts ++ ']' :: rest), by simp [spellAll, h], hd⟩

end Token

namespace CharClass

open Token

/-! ## From tokens to a body -/

theorem spellsFirst_spellFirst (c : Char) : SpellsFirst c (spellFirst c) := by
  rcases spellFirst_cases c with ⟨h, -, hb, hc⟩ | ⟨h, hl, hw⟩
  · rw [h]
    exact .bare hb hc
  · rw [h]
    exact .escaped hl hw

theorem spells_spelling {t : Token Shorthand} (ht : t.Spellable) {d : Char} (hd : d ≠ '-')
    (rest : List Char) : Spells .symbolic t t.spelling (d :: rest) := by
  have hs {c : Char} {front : List Char} (hf : Writes c front) :
      ¬ StartsRange (front ++ d :: rest) := by
    intro h
    obtain ⟨after, heq⟩ := dash_of_startsRange hf h
    exact hd (List.cons.inj heq).1
  cases t with
  | set s =>
    have h : Spells .symbolic (.set (SetProvider.symbolic.provide s)) s.spelling (d :: rest) := .set
    rwa [SetProvider.provide_symbolic] at h
  | range first last => exact .range (.mk (spellsFirst_spellFirst first) (.escaped ht))
  | char c =>
    rw [spelling]
    rcases spellChar_cases c with ⟨h, -, hb, hc⟩ | ⟨h, hw⟩
    · rw [h]
      exact .bare hb hc (hs (.inr ⟨rfl, hc⟩))
    · rw [h]
      exact .escaped hw (hs (.inl rfl))

theorem spellsBody_spellAll {ts : List (Token Shorthand)} (h : ∀ t ∈ ts, t.Spellable)
    (rest : List Char) : SpellsBody .symbolic ts (spellAll ts ++ [']']) rest := by
  induction ts with
  | nil => exact .close
  | cons t ts ih =>
    rw [List.forall_mem_cons] at h
    rw [spellAll, List.flatMap_cons, List.append_assoc]
    refine .token ?_ (ih h.2)
    obtain ⟨d, cs, heq, hd⟩ := spellAll_head ts rest
    rw [List.append_assoc, List.singleton_append]
    exact heq ▸ spells_spelling h.1 hd cs

/-! ## From a body to tokens -/

theorem ne_bracket_of_spellsLast {c : Char} {back rest : List Char} (h : SpellsLast c back rest) :
    c ≠ ']' := by
  cases h with
  | escaped hb => exact hb
  | bare hb _ => exact hb
  | backslash => decide

theorem spellable_of_spells {sets : SetProvider S} {t : Token S} {lexeme rest : List Char}
    (h : Spells sets t lexeme rest) : t.Spellable := by
  cases h with
  | range hr =>
    cases hr with
    | mk _ hl => exact ne_bracket_of_spellsLast hl
  | set => trivial
  | escaped _ _ => trivial
  | bare _ _ _ => trivial

theorem spellable_of_spellsBody {sets : SetProvider S} {ts : List (Token S)}
    {body rest : List Char} (h : SpellsBody sets ts body rest) : ∀ t ∈ ts, t.Spellable := by
  induction h with
  | close => simp
  | token hs _ ih =>
    rw [List.forall_mem_cons]
    exact ⟨spellable_of_spells hs, ih⟩

theorem spellable_of_read {sets : SetProvider S} {source pattern : String} {cls : CharClass S}
    (h : read sets source pattern = .ok cls) : ∀ t ∈ cls.tokens, t.Spellable := by
  obtain ⟨body, rest, -, -, hbody⟩ := (read_eq_ok_iff_describes pattern).1 h
  exact spellable_of_spellsBody hbody

/-! ## The round trip -/

theorem read_spellAll {ts : List (Token Shorthand)} (h : ∀ t ∈ ts, t.Spellable)
    (rest pattern : String) :
    read .symbolic (String.ofList (spellAll ts) ++ "]" ++ rest) pattern =
      .ok ⟨ts, byteLength (spellAll ts) + 1⟩ := by
  rw [read_eq_ok_iff_describes]
  refine ⟨spellAll ts ++ [']'], rest.toList, ?_, ?_, spellsBody_spellAll h rest.toList⟩
  · simp
  · rw [byteLength_append]
    rfl

/-- **The round trip.** A row of tokens with no range up to the closing bracket is read back from
what is written for it, whatever follows the class; no other row is ever read from any source; so
these rows are exactly those that some source has. -/
theorem read_spellAll_roundTrip :
    (∀ ts : List (Token Shorthand), (∀ t ∈ ts, t.Spellable) → ∀ rest pattern : String,
      read .symbolic (String.ofList (spellAll ts) ++ "]" ++ rest) pattern =
        .ok ⟨ts, byteLength (spellAll ts) + 1⟩) ∧
      (∀ (source pattern : String) (cls : CharClass Shorthand),
        read .symbolic source pattern = .ok cls → ∀ t ∈ cls.tokens, t.Spellable) ∧
      (∀ ts : List (Token Shorthand),
        (∃ source pattern offset, read .symbolic source pattern = .ok ⟨ts, offset⟩) ↔
          ∀ t ∈ ts, t.Spellable) := by
  refine ⟨fun ts h => read_spellAll h, fun _ _ _ => spellable_of_read, fun ts => ⟨?_, ?_⟩⟩
  · intro h
    obtain ⟨source, pattern, offset, hread⟩ := h
    exact spellable_of_read hread
  · intro h
    exact ⟨_, "", _, read_spellAll h "" ""⟩

/-- Neighbours that would be one range, one shorthand or an early end of the class if they were
written bare. -/
theorem read_spellAll_roundTrip_neighbours :
    read .symbolic ("w\\-\\w\\\n\\]\n-\\\\" ++ "]" ++ "]+") "" =
      .ok ⟨[.char 'w', .char '-', .set .word, .char '\n', .char ']', .range '\n' '\\'], 14⟩ :=
  read_spellAll_roundTrip.1
    [.char 'w', .char '-', .set .word, .char '\n', .char ']', .range '\n' '\\']
    (by simp [Spellable]) "]+" ""

end CharClass

end PatternLex
