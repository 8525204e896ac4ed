import PatternLex.Escape.Basic

/-!
# Reading the body of an escape

What follows a backslash is tried against the five forms in a fixed order, and the first that fits
is taken. Only two forms can fit at once: a `0` with octal digits after it is an octal escape and
not the letter `0`, and an octal escape takes the padding `0` when it can.

Results:

* `eq_body_append_of_readBody?`: what was read, written again, is what stood there;
* `readBody?_body_append`: a written body is read back, unless it ends in an octal digit that the
  text after it continues (`Continues`).
-/

namespace PatternLex.Escape

open Text

/-- Four hexadecimal digits after `u`. -/
def readUnicode? : List Char → Option (Escape × List Char)
  | 'u' :: c₁ :: c₂ :: c₃ :: c₄ :: rest => do
    let d₁ ← upperHexDigits.index? c₁
    let d₂ ← upperHexDigits.index? c₂
    let d₃ ← upperHexDigits.index? c₃
    let d₄ ← upperHexDigits.index? c₄
    return (unicode d₁ d₂ d₃ d₄, rest)
  | _ => none

/-- Two hexadecimal digits after `x`. -/
def readHex? : List Char → Option (Escape × List Char)
  | 'x' :: c₁ :: c₂ :: rest => do
    let d₁ ← upperHexDigits.index? c₁
    let d₂ ← upperHexDigits.index? c₂
    return (hex d₁ d₂, rest)
  | _ => none

/-- Two octal digits. -/
def readPlainOctal? : List Char → Option (Escape × List Char)
  | c₁ :: c₂ :: rest => do
    let d₁ ← octalDigits.index? c₁
    let d₂ ← octalDigits.index? c₂
    return (octal false d₁ d₂, rest)
  | _ => none

/-- Two octal digits after a `0`. -/
def readPaddedOctal? : List Char → Option (Escape × List Char)
  | '0' :: c₁ :: c₂ :: rest => do
    let d₁ ← octalDigits.index? c₁
    let d₂ ← octalDigits.index? c₂
    return (octal true d₁ d₂, rest)
  | _ => none

/-- A control symbol after `c`. -/
def readControl? : List Char → Option (Escape × List Char)
  | 'c' :: c :: rest => do
    let symbol ← controlSymbols.index? c
    return (control symbol, rest)
  | _ => none

/-- The letter of a control character. -/
def readNamed? : List Char → Option (Escape × List Char)
  | c :: rest => do
    let name ← ControlName.ofLetter? c
    return (named name, rest)
  | [] => none

/-- The forms of a body in the order in which they are tried. -/
def bodyForms : List (List Char → Option (Escape × List Char)) :=
  [readUnicode?, readHex?, readPaddedOctal?, readPlainOctal?, readControl?, readNamed?]

/-- Reads one body and returns it with the text after it. -/
def readBody? (cs : List Char) : Option (Escape × List Char) :=
  bodyForms.findSome? fun form => form cs

/-! ## Reading and writing -/

theorem eq_body_append_of_readBody? {cs rest : List Char} {e : Escape}
    (h : readBody? cs = some (e, rest)) : cs = e.body ++ rest := by
  obtain ⟨form, hmem, hform⟩ := List.exists_of_findSome?_eq_some h
  simp only [bodyForms, List.mem_cons, List.not_mem_nil, or_false] at hmem
  rcases hmem with rfl | rfl | rfl | rfl | rfl | rfl
  all_goals
    simp only [readUnicode?, readHex?, readPaddedOctal?, readPlainOctal?, readControl?, readNamed?,
      bind, pure] at hform
    split at hform
    · simp only [Option.bind_eq_some_iff, Alphabet.index?_eq_some_iff,
        ControlName.ofLetter?_eq_some_iff, Option.some.injEq, Prod.mk.injEq] at hform
      repeat obtain ⟨_, rfl, hform⟩ := hform
      subst_vars
      rfl
    · simp at hform

/-- The escape would have taken the first character of `rest` too: it is `0`, or `0` and one octal
digit, and `rest` goes on with an octal digit. -/
def Continues (e : Escape) (rest : List Char) : Prop :=
  (e = named .null ∨ ∃ d, e = octal false 0 d) ∧
    ∃ d after, rest = octalDigits.char d :: after

theorem octalDigit_ne (d : Fin 8) :
    octalDigits.char d ≠ 'u' ∧ octalDigits.char d ≠ 'x' ∧ octalDigits.char d ≠ 'c' := by
  decide +revert

theorem octalDigit_eq_zero_iff (d : Fin 8) : octalDigits.char d = '0' ↔ d = 0 := by
  decide +revert

theorem index?_eq_none_of_not_continues {e : Escape} {c : Char} {rest : List Char}
    (hstop : ¬ e.Continues (c :: rest))
    (hshort : e = named .null ∨ ∃ d, e = octal false 0 d) : octalDigits.index? c = none := by
  cases hdigit : octalDigits.index? c with
  | none => rfl
  | some d =>
    rw [Alphabet.index?_eq_some_iff] at hdigit
    exact absurd ⟨hshort, d, rest, by rw [hdigit]⟩ hstop

theorem readBody?_body_append {e : Escape} {rest : List Char} (hstop : ¬ e.Continues rest) :
    readBody? (e.body ++ rest) = some (e, rest) := by
  cases e with
  | unicode d₁ d₂ d₃ d₄ => simp [readBody?, bodyForms, body, readUnicode?, Alphabet.index?_char]
  | hex d₁ d₂ => simp [readBody?, bodyForms, body, readUnicode?, readHex?, Alphabet.index?_char]
  | octal padded d₁ d₂ =>
    obtain ⟨hu, hx, -⟩ := octalDigit_ne d₁
    cases padded with
    | true =>
      simp [readBody?, bodyForms, body, readUnicode?, readHex?, readPaddedOctal?,
        Alphabet.index?_char]
    | false =>
      have hpadded : readPaddedOctal? ((octal false d₁ d₂).body ++ rest) = none := by
        by_cases hzero : d₁ = 0
        · cases rest with
          | nil => simp [body, readPaddedOctal?]
          | cons c rest =>
            have hother := index?_eq_none_of_not_continues hstop (.inr ⟨d₂, by rw [hzero]⟩)
            simp [body, readPaddedOctal?, hzero, hother, (octalDigit_eq_zero_iff 0).2]
        · simp [body, readPaddedOctal?, mt (octalDigit_eq_zero_iff d₁).1 hzero]
      simp only [readBody?, bodyForms, List.findSome?_cons, hpadded]
      simp [body, readUnicode?, readHex?, readPlainOctal?, Alphabet.index?_char, hu, hx]
  | control symbol =>
    have hletter : octalDigits.index? 'c' = none := by decide
    simp [readBody?, bodyForms, body, readUnicode?, readHex?, readPaddedOctal?, readPlainOctal?,
      readControl?, Alphabet.index?_char, hletter]
  | named name =>
    have hoctal : readPaddedOctal? ((named name).body ++ rest) = none ∧
        readPlainOctal? ((named name).body ++ rest) = none := by
      cases name with
      | null =>
        cases rest with
        | nil => simp [body, ControlName.letter, readPaddedOctal?, readPlainOctal?]
        | cons c rest =>
          have hother := index?_eq_none_of_not_continues hstop (.inl rfl)
          cases rest <;>
            simp [body, ControlName.letter, readPaddedOctal?, readPlainOctal?, hother]
      | _ => cases rest <;> exact ⟨rfl, rfl⟩
    simp only [readBody?, bodyForms, List.findSome?_cons, hoctal]
    cases name <;>
      simp [body, ControlName.letter, readUnicode?, readHex?, readControl?, readNamed?,
        ControlName.ofLetter?, ControlName.all]

end PatternLex.Escape
