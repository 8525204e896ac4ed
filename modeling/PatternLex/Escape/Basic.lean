import PatternLex.Text.Alphabet

/-!
# Escapes that stand for one character

An escape is a backslash and a body, and the body names a code point: by four or two hexadecimal
digits, by two octal digits, by a control symbol, or by one letter. This module holds the five
forms, how each is spelled, and what each is worth.

Results:

* `char?_eq_some_iff`: an escape has a character exactly when its value is not a surrogate;
* `value_lt`: no escape reaches past the Basic Multilingual Plane.
-/

namespace PatternLex

open Text

/-- A control character with a letter of its own. -/
inductive ControlName where
  | null
  | tab
  | lineFeed
  | verticalTab
  | formFeed
  | carriageReturn
  deriving DecidableEq, Repr

namespace ControlName

/-- All of them, by code. -/
def all : List ControlName := [null, tab, lineFeed, verticalTab, formFeed, carriageReturn]

/-- The letter that stands for it after a backslash. -/
def letter : ControlName → Char
  | null => '0'
  | tab => 't'
  | lineFeed => 'n'
  | verticalTab => 'v'
  | formFeed => 'f'
  | carriageReturn => 'r'

def code : ControlName → Nat
  | null => 0
  | tab => 9
  | lineFeed => 10
  | verticalTab => 11
  | formFeed => 12
  | carriageReturn => 13

def ofLetter? (c : Char) : Option ControlName := all.find? fun name => name.letter = c

@[simp] theorem ofLetter?_eq_some_iff {c : Char} {name : ControlName} :
    ofLetter? c = some name ↔ name.letter = c := by
  constructor
  · intro h
    simpa using List.find?_some h
  · intro h
    subst h
    cases name <;> rfl

end ControlName

/-- The symbols of `\c`, each standing for the control code of its place. -/
def controlSymbols : Alphabet 32 where
  symbols := #v['@', 'A', 'B', 'C', 'D', 'E', 'F', 'G', 'H', 'I', 'J', 'K', 'L', 'M', 'N', 'O',
    'P', 'Q', 'R', 'S', 'T', 'U', 'V', 'W', 'X', 'Y', 'Z', '[', '\\', ']', '^', '?']

/-- The forms of an escape. Two octal digits may follow one more `0`, which changes nothing. -/
inductive Escape where
  | unicode (d₁ d₂ d₃ d₄ : Fin 16)
  | hex (d₁ d₂ : Fin 16)
  | octal (padded : Bool) (d₁ d₂ : Fin 8)
  | control (symbol : Fin 32)
  | named (name : ControlName)
  deriving DecidableEq, Repr

namespace Escape

/-- What follows the backslash. -/
def body : Escape → List Char
  | unicode d₁ d₂ d₃ d₄ => 'u' :: [d₁, d₂, d₃, d₄].map upperHexDigits.char
  | hex d₁ d₂ => 'x' :: [d₁, d₂].map upperHexDigits.char
  | octal true d₁ d₂ => '0' :: [d₁, d₂].map octalDigits.char
  | octal false d₁ d₂ => [d₁, d₂].map octalDigits.char
  | control symbol => ['c', controlSymbols.char symbol]
  | named name => [name.letter]

/-- The whole escape as it is written. -/
def spelling (e : Escape) : List Char := '\\' :: e.body

/-- The code point that is named. It may be a surrogate, which is no character. -/
def value : Escape → Nat
  | unicode d₁ d₂ d₃ d₄ => ofDigits [d₁, d₂, d₃, d₄]
  | hex d₁ d₂ => ofDigits [d₁, d₂]
  | octal _ d₁ d₂ => ofDigits [d₁, d₂]
  | control symbol => symbol.val
  | named name => name.code

/-- The character that is named, if the value is one. -/
def char? (e : Escape) : Option Char :=
  if e.value.isValidChar then some (Char.ofNat e.value) else none

theorem body_ne_nil (e : Escape) : e.body ≠ [] := by
  cases e with
  | octal padded => cases padded <;> simp [body]
  | _ => simp [body]

theorem value_lt (e : Escape) : e.value < 0x10000 := by
  cases e with
  | unicode d₁ d₂ d₃ d₄ =>
    simp only [value, ofDigits, List.foldl_cons, List.foldl_nil]
    omega
  | hex d₁ d₂ =>
    simp only [value, ofDigits, List.foldl_cons, List.foldl_nil]
    omega
  | octal _ d₁ d₂ =>
    simp only [value, ofDigits, List.foldl_cons, List.foldl_nil]
    omega
  | control symbol => exact Nat.lt_trans symbol.isLt (by decide)
  | named name => cases name <;> decide

theorem char?_eq_some_iff {e : Escape} {c : Char} : e.char? = some c ↔ c.toNat = e.value := by
  unfold char?
  split
  next hvalid =>
    have hcode : (Char.ofNat e.value).toNat = e.value := by
      rw [Char.ofNat, dif_pos hvalid]
      rfl
    constructor
    · intro h
      rw [← Option.some.inj h, hcode]
    · intro h
      rw [← h, Char.ofNat_toNat]
  next hvalid =>
    constructor
    · simp
    · intro h
      exact absurd (h ▸ c.valid) hvalid

end Escape

/-! ## Characters that must stay escaped -/

/-- The characters with a meaning of their own in a pattern; the backslash is not among them. -/
def metacharacters : List Char :=
  ['[', ']', '{', '}', '^', '$', '.', '|', '?', '*', '+', '(', ')']

/-- A decoded character as it is put into a pattern: a metacharacter comes with a backslash. -/
def quoteMeta (c : Char) : List Char := if c ∈ metacharacters then ['\\', c] else [c]

end PatternLex
