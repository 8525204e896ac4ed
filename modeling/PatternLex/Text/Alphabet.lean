/-!
# Alphabets: characters that stand for their places

A digit, and the letter of a control escape, stands for its place in a fixed row of distinct
characters. `Alphabet.char` writes a place and `Alphabet.index?` reads it back.

Results:

* `index?_eq_some_iff`: reading undoes writing, and reads nothing else;
* `ofDigits_append_singleton`: one more digit is worth `base` times what stood before it.
-/

namespace PatternLex.Text

/-- A row of `n` distinct characters. -/
structure Alphabet (n : Nat) where
  symbols : Vector Char n
  distinct : symbols.toList.Nodup := by decide

namespace Alphabet

variable {n : Nat}

/-- The character at a place. -/
def char (a : Alphabet n) (i : Fin n) : Char := a.symbols[i]

/-- The place of a character; `none` if it is not of the alphabet. -/
def index? (a : Alphabet n) (c : Char) : Option (Fin n) :=
  (List.finRange n).find? fun i => a.char i = c

theorem char_inj {a : Alphabet n} {i j : Fin n} : a.char i = a.char j ↔ i = j := by
  constructor
  · intro h
    have hi : i.val < a.symbols.toList.length := by simp
    have hj : j.val < a.symbols.toList.length := by simp
    have hchar : a.symbols.toList[i.val] = a.symbols.toList[j.val] := by simpa [char] using h
    exact Fin.ext ((List.getElem_inj a.distinct).1 hchar)
  · intro h
    rw [h]

@[simp] theorem index?_eq_some_iff {a : Alphabet n} {c : Char} {i : Fin n} :
    a.index? c = some i ↔ a.char i = c := by
  constructor
  · intro h
    simpa using List.find?_some h
  · intro h
    subst h
    cases h : a.index? (a.char i) with
    | none =>
      have hmissed := List.find?_eq_none.1 h i (List.mem_finRange i)
      simp at hmissed
    | some j =>
      have h : a.char j = a.char i := by simpa using List.find?_some h
      rw [char_inj.1 h]

theorem index?_char (a : Alphabet n) (i : Fin n) : a.index? (a.char i) = some i := by simp

end Alphabet

/-! ## Digits -/

/-- The digits of base sixteen; letters are upper case only. -/
def upperHexDigits : Alphabet 16 where
  symbols := #v['0', '1', '2', '3', '4', '5', '6', '7', '8', '9', 'A', 'B', 'C', 'D', 'E', 'F']

/-- The digits of base eight. -/
def octalDigits : Alphabet 8 where
  symbols := #v['0', '1', '2', '3', '4', '5', '6', '7']

/-- The number that digits spell, the highest first. -/
def ofDigits {base : Nat} (digits : List (Fin base)) : Nat :=
  digits.foldl (fun n d => n * base + d.val) 0

theorem ofDigits_append_singleton {base : Nat} (digits : List (Fin base)) (d : Fin base) :
    ofDigits (digits ++ [d]) = ofDigits digits * base + d.val := by
  simp [ofDigits]

end PatternLex.Text
