import PatternLex.Proofs.ClassGrammar

/-!
# A class depends on its own text

The reader of a class looks ahead: a backslash may end a range only before the closing bracket, and
a character is a token of its own only where no range begins with it. Still what stands behind the
closing bracket has no part in how the class is read. Within a body the bracket is always still to
come, and no lookahead goes past it.

Results:

* `startsRange_iff`: where a range begins, said of the characters that stand there;
* `startsRange_append_iff`: what stands behind a closing bracket does not matter for it;
* `Spells.of_rest`: what a lexeme asks of the text behind it;
* `Spells.replace`, `SpellsBody.replace`: what stands behind the bracket does not matter for a
  lexeme or a body either;
* `readBodyWith?_append`, `readFrontWith?_append`: a class is read alike where more text follows.
-/

namespace PatternLex

open Text

namespace CharClass

variable {S : Type} {sets : SetProvider S}

/-! ## Where a range begins -/

theorem exists_spellsLast_iff {cs : List Char} :
    (∃ last back rest, SpellsLast last back rest ∧ cs = back ++ rest) ↔
      ∃ c rest, cs = c :: rest ∧ c ≠ ']' ∧ (c = '\\' → rest ≠ []) := by
  constructor
  · intro h
    obtain ⟨last, back, rest, hs, rfl⟩ := h
    cases hs with
    | escaped hb => exact ⟨'\\', last :: rest, rfl, by decide, fun _ => List.cons_ne_nil _ _⟩
    | bare hb hc => exact ⟨last, rest, rfl, hb, fun h => absurd h hc⟩
    | @backslash after => exact ⟨'\\', ']' :: after, rfl, by decide, fun _ => List.cons_ne_nil _ _⟩
  · intro h
    obtain ⟨c, rest, rfl, hb, hend⟩ := h
    by_cases hc : c = '\\'
    · subst hc
      obtain ⟨d, rest, rfl⟩ := List.exists_cons_of_ne_nil (hend rfl)
      by_cases hd : d = ']'
      · subst hd
        exact ⟨'\\', ['\\'], ']' :: rest, .backslash, rfl⟩
      · exact ⟨d, ['\\', d], rest, .escaped hd, rfl⟩
    · exact ⟨c, [c], rest, .bare hb hc, rfl⟩

/-- **Where a range begins.** A lower bound stands there and a dash behind it, and then a character
that is neither the closing bracket nor a backslash at the end of the text. -/
theorem startsRange_iff {c : Char} {front rest : List Char} (hfront : Writes c front) :
    StartsRange (front ++ rest) ↔ SpellsFirst c front ∧
      ∃ d after, rest = '-' :: d :: after ∧ d ≠ ']' ∧ (d = '\\' → after ≠ []) := by
  constructor
  · intro h
    obtain ⟨first, last, lexeme, left, hs, heq⟩ := h
    cases hs with
    | mk hf hl =>
      rw [List.append_assoc, List.cons_append] at heq
      obtain ⟨rfl, rfl⟩ := hfront.unique (writes_of_spellsFirst hf) heq
      rw [List.append_left_inj] at heq
      subst heq
      obtain ⟨d, after, hlast, hd⟩ := exists_spellsLast_iff.1 ⟨_, _, _, hl, rfl⟩
      exact ⟨hf, d, after, by rw [hlast], hd⟩
  · intro h
    obtain ⟨hf, d, after, rfl, hd⟩ := h
    obtain ⟨last, back, left, hl, heq⟩ := exists_spellsLast_iff.2 ⟨d, after, rfl, hd⟩
    refine ⟨c, last, front ++ '-' :: back, left, .mk hf hl, ?_⟩
    rw [heq, List.append_assoc, List.cons_append]

theorem startsRange_append_iff {c : Char} {front mid : List Char} (hfront : Writes c front)
    (hmid : ']' ∈ mid) (rest : List Char) :
    StartsRange (front ++ (mid ++ rest)) ↔ StartsRange (front ++ mid) := by
  rw [startsRange_iff hfront, startsRange_iff hfront]
  refine and_congr_right fun _ => ⟨fun h => ?_, fun h => ?_⟩
  · obtain ⟨d, after, heq, hd, -⟩ := h
    -- the bracket is neither the dash nor the character behind it, and so stands farther behind
    rcases mid with _ | ⟨a, _ | ⟨b, mid⟩⟩
    · cases hmid
    · obtain rfl := (List.cons.inj heq).1
      simp at hmid
    · simp only [List.cons_append, List.cons.injEq] at heq
      obtain ⟨rfl, rfl, -⟩ := heq
      refine ⟨b, mid, rfl, hd, fun _ hnil => ?_⟩
      subst hnil
      simp [Ne.symm hd] at hmid
  · obtain ⟨d, after, rfl, hd, hend⟩ := h
    refine ⟨d, after ++ rest, rfl, hd, fun hback hnil => ?_⟩
    exact hend hback (List.append_eq_nil_iff.1 hnil).1

/-! ## Lexemes and bodies -/

/-- All that a lexeme asks of the text behind it: the closing bracket, where the lexeme is a range
to a backslash, and that no range begins with it, where it is a character. -/
theorem Spells.of_rest {t : Token S} {lexeme rest rest' : List Char} (h : Spells sets t lexeme rest)
    (hback : lexeme.getLast? = some '\\' → rest.head? = some ']' → rest'.head? = some ']')
    (hstarts : ∀ c, Writes c lexeme → StartsRange (lexeme ++ rest') →
      StartsRange (lexeme ++ rest)) : Spells sets t lexeme rest' := by
  cases h with
  | set => exact .set
  | range hr =>
    refine .range ?_
    cases hr with
    | mk hf hl =>
      refine .mk hf ?_
      cases hl with
      | escaped hb => exact .escaped hb
      | bare hb hc => exact .bare hb hc
      | backslash =>
        obtain ⟨after, rfl⟩ := List.head?_eq_some_iff.1 (hback (by simp) rfl)
        exact .backslash
  | escaped hw hs => exact .escaped hw fun h => hs (hstarts _ (.inl rfl) h)
  | bare hb hc hs => exact .bare hb hc fun h => hs (hstarts _ (.inr ⟨rfl, hc⟩) h)

theorem Spells.replace {t : Token S} {lexeme body rest : List Char}
    (h : Spells sets t lexeme (body ++ rest)) (hbody : ']' ∈ body) (rest' : List Char) :
    Spells sets t lexeme (body ++ rest') := by
  refine h.of_rest (fun _ hhead => ?_) fun c hwrites hs => ?_
  · obtain ⟨d, body, rfl⟩ := List.exists_cons_of_ne_nil (List.ne_nil_of_mem hbody)
    exact hhead
  · rw [startsRange_append_iff hwrites hbody] at hs ⊢
    exact hs

/-- **The rest behind a body may be any text.** -/
theorem SpellsBody.replace {ts : List (Token S)} {body rest : List Char}
    (h : SpellsBody sets ts body rest) (rest' : List Char) : SpellsBody sets ts body rest' := by
  induction h with
  | close => exact .close
  | token hs hbody ih => exact .token (hs.replace (mem_of_spellsBody hbody) rest') ih

/-! ## Classes -/

theorem readBodyWith?_append {ts : List (Token S)} {cs after : List Char}
    (h : readBodyWith? Production.order sets cs = some (ts, after)) (more : List Char) :
    readBodyWith? Production.order sets (cs ++ more) = some (ts, after ++ more) := by
  obtain ⟨body, rfl, hbody⟩ := spellsBody_of_readBodyWith? h
  rw [List.append_assoc]
  exact readBodyWith?_of_spellsBody (hbody.replace (after ++ more))

theorem readFrontWith?_append {cls : CharClass S} {cs after : List Char}
    (h : readFrontWith? Production.order sets cs = some (cls, after)) (more : List Char) :
    readFrontWith? Production.order sets (cs ++ more) = some (cls, after ++ more) := by
  unfold readFrontWith? at h ⊢
  obtain ⟨⟨ts, left⟩, hread, heq⟩ := Option.map_eq_some_iff.1 h
  simp only [Prod.mk.injEq] at heq
  obtain ⟨rfl, rfl⟩ := heq
  have hoffset : byteLength (cs ++ more) - byteLength (left ++ more) =
      byteLength cs - byteLength left := by
    rw [byteLength_append, byteLength_append]
    omega
  simp only [readBodyWith?_append hread, Option.map_some, hoffset]

end CharClass

end PatternLex
