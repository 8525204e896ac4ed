import PatternLex.Proofs.PieceSpec

/-!
# Which body is read

Several bodies can stand at one place: behind a backslash `012` begins with `012`, with `01` and
with `0`. The reader takes the first in the order of the forms, and that is the same as to say that
what it takes is not continued by the text behind it. From this it follows how far the reader looks:
no farther than five characters, and no farther than to a character that is neither a letter nor a
digit, unless that is the symbol of a control escape.

Results:

* `readBody?_eq_some_iff`: a body is read exactly where it stands and is not continued;
* `readBody?_eq_some_iff_firstBody`: a body is read exactly where it is the first of the forms;
* `readBody?_append_cons`, `readBody?_append_of_le_length`: text behind that changes nothing.
-/

namespace PatternLex.Escape

open Text

/-- The place of the form in the order in which the forms are tried. An octal escape takes the
padding when it can. -/
def rank : Escape → Nat
  | unicode _ _ _ _ => 0
  | hex _ _ => 1
  | octal true _ _ => 2
  | octal false _ _ => 3
  | control _ => 4
  | named _ => 5

/-- The text begins with the body of `e`, and with no body of an earlier form. -/
def FirstBody (e : Escape) (cs rest : List Char) : Prop :=
  cs = e.body ++ rest ∧ ∀ e' : Escape, e'.body <+: cs → e.rank ≤ e'.rank

/-! ## The first form -/

theorem readBody?_octal_of_continues {d : Fin 8} {rest : List Char}
    (h : (octal false 0 d).Continues rest) :
    ∃ e after, readBody? ((octal false 0 d).body ++ rest) = some (e, after) ∧ e.rank = 2 := by
  obtain ⟨-, d', after, rfl⟩ := h
  have hpadded : ¬ (octal true d d').Continues after := by simp [Continues]
  have heq : (octal false 0 d).body ++ octalDigits.char d' :: after =
      (octal true d d').body ++ after := rfl
  exact ⟨octal true d d', after, by rw [heq, readBody?_body_append hpadded], rfl⟩

theorem readBody?_of_continues {e : Escape} {rest : List Char} (h : e.Continues rest) :
    ∃ e' after, readBody? (e.body ++ rest) = some (e', after) ∧ e'.rank < e.rank := by
  rcases h.1 with rfl | ⟨d, rfl⟩
  · obtain ⟨-, d, after, rfl⟩ := h
    have heq : (named .null).body ++ octalDigits.char d :: after =
        (octal false 0 d).body ++ after := rfl
    rw [heq]
    by_cases hcont : (octal false 0 d).Continues after
    · obtain ⟨e', left, hread, hrank⟩ := readBody?_octal_of_continues hcont
      exact ⟨e', left, hread, hrank ▸ (by decide : 2 < 5)⟩
    · exact ⟨octal false 0 d, after, readBody?_body_append hcont, (by decide : 3 < 5)⟩
  · obtain ⟨e', left, hread, hrank⟩ := readBody?_octal_of_continues h
    exact ⟨e', left, hread, hrank ▸ (by decide : 2 < 3)⟩

/-- **What is read.** A body is read exactly where it stands and is not continued. -/
theorem readBody?_eq_some_iff {e : Escape} {cs rest : List Char} :
    readBody? cs = some (e, rest) ↔ cs = e.body ++ rest ∧ ¬ e.Continues rest := by
  refine ⟨fun h => ?_, ?_⟩
  · have hcs := eq_body_append_of_readBody? h
    refine ⟨hcs, fun hcont => ?_⟩
    obtain ⟨e', after, hread, hrank⟩ := readBody?_of_continues hcont
    rw [← hcs, h, Option.some.injEq, Prod.mk.injEq] at hread
    rw [hread.1] at hrank
    exact Nat.lt_irrefl _ hrank
  · intro h
    obtain ⟨rfl, hstop⟩ := h
    exact readBody?_body_append hstop

theorem exists_readBody?_of_prefix {e : Escape} {cs : List Char} (h : e.body <+: cs) :
    ∃ e' rest, readBody? cs = some (e', rest) ∧ e'.rank ≤ e.rank := by
  obtain ⟨rest, rfl⟩ := h
  by_cases hcont : e.Continues rest
  · obtain ⟨e', after, hread, hrank⟩ := readBody?_of_continues hcont
    exact ⟨e', after, hread, Nat.le_of_lt hrank⟩
  · exact ⟨e, rest, readBody?_body_append hcont, Nat.le_refl _⟩

theorem form_body_append (e : Escape) (rest : List Char) :
    bodyForms[e.rank]?.bind (· (e.body ++ rest)) = some (e, rest) := by
  cases e with
  | unicode d₁ d₂ d₃ d₄ => simp [rank, bodyForms, body, readUnicode?, Alphabet.index?_char]
  | hex d₁ d₂ => simp [rank, bodyForms, body, readHex?, Alphabet.index?_char]
  | octal padded d₁ d₂ =>
    cases padded with
    | true => simp [rank, bodyForms, body, readPaddedOctal?, Alphabet.index?_char]
    | false => simp [rank, bodyForms, body, readPlainOctal?, Alphabet.index?_char]
  | control symbol => simp [rank, bodyForms, body, readControl?, Alphabet.index?_char]
  | named name =>
    have hletter : ControlName.ofLetter? name.letter = some name :=
      ControlName.ofLetter?_eq_some_iff.2 rfl
    simp [rank, bodyForms, body, readNamed?, hletter]

/-- No two bodies of one form stand at one place. -/
theorem eq_of_rank_eq {e e' : Escape} {rest rest' : List Char} (hrank : e.rank = e'.rank)
    (h : e.body ++ rest = e'.body ++ rest') : e = e' ∧ rest = rest' := by
  have hread := form_body_append e rest
  rw [hrank, h, form_body_append e' rest', Option.some.injEq, Prod.mk.injEq] at hread
  exact ⟨hread.1.symm, hread.2.symm⟩

/-- **The first form.** A body is read exactly where it is the first of the forms. -/
theorem readBody?_eq_some_iff_firstBody {e : Escape} {cs rest : List Char} :
    readBody? cs = some (e, rest) ↔ FirstBody e cs rest := by
  refine ⟨fun h => ⟨eq_body_append_of_readBody? h, fun e' he' => ?_⟩, fun h => ?_⟩
  · obtain ⟨e'', after, hread, hrank⟩ := exists_readBody?_of_prefix he'
    rw [h, Option.some.injEq, Prod.mk.injEq] at hread
    rwa [hread.1]
  · obtain ⟨hcs, hfirst⟩ := h
    obtain ⟨e', after, hread, hrank⟩ := exists_readBody?_of_prefix (e := e) ⟨rest, hcs.symm⟩
    have hcs' := eq_body_append_of_readBody? hread
    have hle := hfirst e' ⟨after, hcs'.symm⟩
    obtain ⟨rfl, rfl⟩ := eq_of_rank_eq (Nat.le_antisymm hrank hle) (hcs'.symm.trans hcs)
    exact hread

/-! ## The characters of a body -/

/-- The control escape of the backslash. -/
def controlBackslash : Escape := control 28

/-- The control escape of the closing bracket. -/
def controlBracket : Escape := control 29

/-- The control escape of the opening bracket. -/
def controlOpening : Escape := control 27

/-- Besides letters and digits a body holds only the symbol of a control escape. -/
theorem exists_control_of_mem_body {e : Escape} {c : Char} (hc : c.isAlphanum = false)
    (h : c ∈ e.body) : ∃ symbol, e = control symbol ∧ controlSymbols.char symbol = c := by
  have hhex : ∀ d, (upperHexDigits.char d).isAlphanum = true := by decide
  have hoctal : ∀ d, (octalDigits.char d).isAlphanum = true := by decide
  have hname : ∀ name : ControlName, name.letter.isAlphanum = true := by
    intro name
    cases name <;> decide
  have hne : ∀ d : Char, d.isAlphanum = true → c ≠ d := by
    rintro d hd rfl
    rw [hc] at hd
    cases hd
  cases e with
  | control symbol =>
    simp only [body, List.mem_cons, List.not_mem_nil, or_false] at h
    exact ⟨symbol, rfl, (h.resolve_left (hne 'c' (by decide))).symm⟩
  | named name =>
    simp only [body, List.mem_singleton] at h
    exact absurd h (hne _ (hname name))
  | unicode d₁ d₂ d₃ d₄ => simp [body, hne _ (hhex _), hne 'u' (by decide)] at h
  | hex d₁ d₂ => simp [body, hne _ (hhex _), hne 'x' (by decide)] at h
  | octal padded d₁ d₂ => cases padded <;> simp [body, hne _ (hoctal _), hne '0' (by decide)] at h

theorem isAlphanum_of_body_eq_cons {e : Escape} {c : Char} {cs : List Char} (h : e.body = c :: cs) :
    c.isAlphanum = true := by
  rw [← Bool.not_eq_false]
  intro hc
  obtain ⟨symbol, rfl, -⟩ := exists_control_of_mem_body hc (by rw [h]; exact List.mem_cons_self)
  have hhead : 'c' = c := (List.cons.inj h).1
  subst hhead
  cases hc

theorem readBody?_of_not_isAlphanum {c : Char} (hc : c.isAlphanum = false) (cs : List Char) :
    readBody? (c :: cs) = none := by
  cases h : readBody? (c :: cs) with
  | none => rfl
  | some found =>
    obtain ⟨e, rest⟩ := found
    obtain ⟨d, tail, hbody, -⟩ := e.body_head
    have hwhole := eq_body_append_of_readBody? h
    rw [hbody, List.cons_append, List.cons.injEq] at hwhole
    rw [hwhole.1, isAlphanum_of_body_eq_cons hbody] at hc
    cases hc

theorem symbol_mem_body_iff {e : Escape} {symbol : Fin 32}
    (hs : (controlSymbols.char symbol).isAlphanum = false) :
    controlSymbols.char symbol ∈ e.body ↔ e = control symbol := by
  refine ⟨fun h => ?_, fun h => by rw [h]; simp [body]⟩
  obtain ⟨other, rfl, hother⟩ := exists_control_of_mem_body hs h
  rw [Alphabet.char_inj.1 hother]

theorem backslash_mem_body_iff {e : Escape} : '\\' ∈ e.body ↔ e = controlBackslash :=
  (symbol_mem_body_iff (by decide) : controlSymbols.char 28 ∈ e.body ↔ e = control 28)

theorem bracket_mem_body_iff {e : Escape} : ']' ∈ e.body ↔ e = controlBracket :=
  (symbol_mem_body_iff (by decide) : controlSymbols.char 29 ∈ e.body ↔ e = control 29)

theorem dash_notMem_body (e : Escape) : '-' ∉ e.body := by
  intro h
  obtain ⟨symbol, -, hsymbol⟩ := exists_control_of_mem_body (by decide) h
  exact absurd hsymbol ((by decide : ∀ i, controlSymbols.char i ≠ '-') symbol)

theorem readBody?_controlBackslash (rest : List Char) :
    readBody? ('c' :: '\\' :: rest) = some (controlBackslash, rest) :=
  readBody?_body_append (e := controlBackslash) (by simp [Continues, controlBackslash])

theorem readBody?_controlOpening (rest : List Char) :
    readBody? ('c' :: '[' :: rest) = some (controlOpening, rest) :=
  readBody?_body_append (e := controlOpening) (by simp [Continues, controlOpening])

/-! ## More text behind a body -/

/-- **How far a body reaches.** More text changes nothing if no body goes on into it and none is
continued by it. -/
theorem readBody?_append {cs more : List Char}
    (hbody : ∀ e : Escape, e.body <+: cs ++ more → e.body <+: cs)
    (hcont : ∀ (e : Escape) rest, cs = e.body ++ rest →
      (e.Continues (rest ++ more) ↔ e.Continues rest)) :
    readBody? (cs ++ more) = (readBody? cs).map fun (e, rest) => (e, rest ++ more) := by
  apply Option.ext
  intro found
  obtain ⟨e, left⟩ := found
  simp only [Option.map_eq_some_iff, Prod.exists, Prod.mk.injEq, readBody?_eq_some_iff]
  refine ⟨fun h => ?_, fun h => ?_⟩
  · obtain ⟨heq, hstop⟩ := h
    obtain ⟨rest, rfl⟩ := hbody e ⟨left, heq.symm⟩
    rw [List.append_assoc, List.append_cancel_left_eq] at heq
    subst heq
    exact ⟨e, rest, ⟨rfl, mt (hcont e rest rfl).2 hstop⟩, rfl, rfl⟩
  · obtain ⟨e', rest, ⟨rfl, hstop⟩, rfl, rfl⟩ := h
    exact ⟨List.append_assoc _ _ _, mt (hcont e' rest rfl).1 hstop⟩

theorem eq_of_body_eq_append {e : Escape} {c : Char} {front back : List Char}
    (hc : c.isAlphanum = false) (h : e.body = front ++ c :: back) : front = ['c'] ∧ back = [] := by
  obtain ⟨symbol, rfl, -⟩ := exists_control_of_mem_body (e := e) hc (by simp [h])
  have hbody : ['c', controlSymbols.char symbol] = front ++ c :: back := h
  rcases front with _ | ⟨d, _ | ⟨d', front⟩⟩
  · obtain rfl := (List.cons.inj hbody).1
    cases hc
  · rw [List.cons_append, List.cons.injEq, List.nil_append, List.cons.injEq] at hbody
    exact ⟨by rw [hbody.1], hbody.2.2.symm⟩
  · simp at hbody

theorem continues_append_cons_iff {e : Escape} {c : Char} {rest cs : List Char}
    (hc : c.isAlphanum = false) : e.Continues (rest ++ c :: cs) ↔ e.Continues rest := by
  have hdigit : ∀ d, (octalDigits.char d).isAlphanum = true := by decide
  cases rest with
  | nil =>
    refine ⟨fun h => ?_, fun h => ?_⟩
    · obtain ⟨-, d, after, heq⟩ := h
      rw [(List.cons.inj heq).1, hdigit] at hc
      cases hc
    · obtain ⟨-, d, after, heq⟩ := h
      cases heq
  | cons d rest => simp [Continues]

theorem readBody?_append_cons {c : Char} {cs : List Char} (hc : c.isAlphanum = false)
    (hcs : cs ≠ ['c']) (after : List Char) :
    readBody? (cs ++ c :: after) =
      (readBody? cs).map fun (e, rest) => (e, rest ++ c :: after) := by
  refine readBody?_append (fun e he => ?_) fun e rest _ => continues_append_cons_iff hc
  obtain ⟨left, heq⟩ := he
  rcases List.append_eq_append_iff.1 heq with ⟨mid, hmid, -⟩ | ⟨mid, hbody, hleft⟩
  · exact ⟨mid, hmid.symm⟩
  · cases mid with
    | nil => exact ⟨[], by rw [hbody, List.append_nil, List.append_nil]⟩
    | cons d mid =>
      -- the body would run past the end of the text, and so through the character
      rw [List.cons_append, List.cons.injEq] at hleft
      rw [← hleft.1] at hbody
      exact absurd (eq_of_body_eq_append hc hbody).1 hcs

theorem length_body_le (e : Escape) : e.body.length ≤ 5 := by
  cases e with
  | octal padded => cases padded <;> simp [body]
  | _ => simp [body]

/-- Nothing changes behind five characters, which is the longest body. -/
theorem readBody?_append_of_le_length {cs : List Char} (hcs : 5 ≤ cs.length) (more : List Char) :
    readBody? (cs ++ more) = (readBody? cs).map fun (e, rest) => (e, rest ++ more) := by
  refine readBody?_append (fun e he => ?_) fun e rest heq => ?_
  · have hle := length_body_le e
    exact List.prefix_of_prefix_length_le he (List.prefix_append cs more) (by omega)
  · cases rest with
    | nil =>
      -- the body that fills five characters is the one of four hexadecimal digits
      have hlong : ¬ (e = named .null ∨ ∃ d, e = octal false 0 d) := by
        rw [heq, List.append_nil] at hcs
        rintro (rfl | ⟨d, rfl⟩) <;> simp [body] at hcs
      exact iff_of_false (fun h => hlong h.1) fun h => hlong h.1
    | cons c rest => simp [Continues]

end PatternLex.Escape
