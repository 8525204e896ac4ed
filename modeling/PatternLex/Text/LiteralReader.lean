import PatternLex.Text.Alphabet
import PatternLex.Text.CharLiteral

/-!
# Reading character literals

What stands between the quotes of a character literal is one of three things: an escape of two
characters, a code point between braces, or the character itself. `Shows` says which, for every
character, and says it without a number printer: the digits of a code point are its digits in base
sixteen, with no zero in front. `readShown?` reads what is shown. It needs no closing quote to know
where the character ends, so literals may stand side by side in a longer text.

Results:

* `exists_toDigits`: what the number printer makes of a number;
* `shows_literalBody`: what is shown for a character;
* `readShown?_append`: it is read back, whatever stands behind it;
* `charLiteral_append_inj`: a text begins with one literal at most.
-/

namespace PatternLex.Text

/-- The digits of base sixteen; letters are lower case only. -/
def lowerHexDigits : Alphabet 16 where
  symbols := #v['0', '1', '2', '3', '4', '5', '6', '7', '8', '9', 'a', 'b', 'c', 'd', 'e', 'f']

/-- What may stand between the quotes for a character. -/
inductive Shows : Char → List Char → Prop where
  | short {c mark : Char} : (c, mark) ∈ shortEscapes → Shows c ['\\', mark]
  | codePoint {c : Char} {digits : List (Fin 16)} : shortEscapes.lookup c = none →
      isUnprintable c = true → digits.head? ≠ some 0 → ofDigits digits = c.toNat →
      Shows c (['\\', 'u', '\x7b'] ++ digits.map lowerHexDigits.char ++ ['\x7d'])
  | plain {c : Char} : shortEscapes.lookup c = none → isUnprintable c = false → Shows c [c]

/-- Reads digits up to a closing brace, behind digits that are worth `n`. -/
def readDigits? (n : Nat) : List Char → Option (Nat × List Char)
  | [] => none
  | c :: cs =>
    if c = '\x7d' then some (n, cs)
    else (lowerHexDigits.index? c).bind fun d => readDigits? (n * 16 + d.val) cs

/-- Reads one character from what stands between quotes. -/
def readShown? : List Char → Option (Char × List Char)
  | '\\' :: 'u' :: '\x7b' :: cs => (readDigits? 0 cs).map fun (n, rest) => (Char.ofNat n, rest)
  | '\\' :: mark :: cs => (shortEscapes.find? fun e => e.2 = mark).map fun e => (e.1, cs)
  | c :: cs => some (c, cs)
  | [] => none

/-! ## What is shown -/

theorem digitChar_eq_char (d : Fin 16) : Nat.digitChar d.val = lowerHexDigits.char d := by
  revert d
  decide

theorem exists_toDigits (n : Nat) : ∃ digits : List (Fin 16),
    Nat.toDigits 16 n = digits.map lowerHexDigits.char ∧ ofDigits digits = n ∧
      (0 < n → digits.head? ≠ some 0) := by
  induction n using Nat.strongRecOn with
  | ind n ih =>
    rw [Nat.toDigits_eq_if (by decide)]
    by_cases hn : n < 16
    · refine ⟨[⟨n, hn⟩], ?_, by simp [ofDigits], fun hpos hzero => ?_⟩
      · rw [if_pos hn, List.map_singleton, ← digitChar_eq_char]
      · have hval := congrArg Fin.val (Option.some.inj hzero)
        exact absurd hval (Nat.ne_of_gt hpos)
    · obtain ⟨digits, hdigits, hvalue, hhead⟩ := ih (n / 16) (by omega)
      have hmod : n % 16 < 16 := Nat.mod_lt _ (by decide)
      refine ⟨digits ++ [⟨n % 16, hmod⟩], ?_, ?_, fun _ => ?_⟩
      · rw [if_neg hn, hdigits, List.map_append, List.map_singleton, ← digitChar_eq_char]
      · rw [ofDigits_append_singleton, hvalue]
        exact Nat.div_add_mod' n 16
      · -- the digits of the quotient stand in front, and there are some
        have hpos : 0 < n / 16 := by omega
        cases digits with
        | nil => exact absurd hvalue (Nat.ne_of_lt hpos)
        | cons d digits => exact hhead hpos

theorem shows_literalBody (c : Char) : Shows c (literalBody c) := by
  unfold literalBody
  split
  · rename_i mark h
    obtain ⟨before, after, heq, -⟩ := List.lookup_eq_some_iff.1 h
    exact .short (by simp [heq])
  · rename_i h
    split
    · rename_i hunprintable
      obtain ⟨digits, hdigits, hvalue, hhead⟩ := exists_toDigits c.toNat
      rw [codePointEscape, hdigits]
      refine .codePoint h hunprintable (hhead (Nat.pos_of_ne_zero fun hzero => ?_)) hvalue
      -- the character with the code point zero has an escape of its own
      rw [show c = '\x00' from Char.toNat_inj.1 hzero] at h
      exact absurd h (by decide)
    · rename_i hprintable
      exact .plain h (Bool.eq_false_iff.2 hprintable)

/-! ## Reading it back -/

theorem readDigits?_append (n : Nat) (digits : List (Fin 16)) (rest : List Char) :
    readDigits? n (digits.map lowerHexDigits.char ++ '\x7d' :: rest) =
      some (digits.foldl (fun n d => n * 16 + d.val) n, rest) := by
  induction digits generalizing n with
  | nil => rfl
  | cons d digits ih =>
    have hbrace : lowerHexDigits.char d ≠ '\x7d' := by
      revert d
      decide
    rw [List.map_cons, List.cons_append, readDigits?, if_neg hbrace, Alphabet.index?_char,
      Option.bind_some, ih, List.foldl_cons]

/-- **Read back.** Whatever stands behind what is shown for a character, the character is read and
the rest is left. -/
theorem readShown?_append {c : Char} {body : List Char} (h : Shows c body) (rest : List Char) :
    readShown? (body ++ rest) = some (c, rest) := by
  cases h with
  | short hmem =>
    simp only [shortEscapes, List.mem_cons, Prod.mk.injEq, List.not_mem_nil, or_false] at hmem
    rcases hmem with h | h | h | h | h | h <;>
      (obtain ⟨rfl, rfl⟩ := h; rfl)
  | @codePoint digits _ _ _ hvalue =>
    have hdigits := readDigits?_append 0 digits rest
    rw [← ofDigits, hvalue] at hdigits
    simp [readShown?, hdigits]
  | plain hshort _ =>
    have hback : c ≠ '\\' := by
      intro hc
      rw [hc] at hshort
      exact absurd hshort (by decide)
    simp [readShown?, hback]

example : readShown? ['\\', '\x27', '\x27', '-'] = some ('\x27', ['\x27', '-']) := by decide

theorem literalBody_append_inj {c d : Char} {s t : List Char} :
    literalBody c ++ s = literalBody d ++ t ↔ c = d ∧ s = t := by
  constructor
  · intro h
    have hread := readShown?_append (shows_literalBody c) s
    rw [h, readShown?_append (shows_literalBody d) t, Option.some.injEq, Prod.mk.injEq] at hread
    exact ⟨hread.1.symm, hread.2.symm⟩
  · intro h
    rw [h.1, h.2]

/-- **Side by side.** A text begins with the literal of one character at most. -/
theorem charLiteral_append_inj {c d : Char} {s t : String} :
    charLiteral c ++ s = charLiteral d ++ t ↔ c = d ∧ s = t := by
  rw [← String.toList_inj, String.toList_append, String.toList_append, charLiteral, charLiteral,
    String.toList_ofList, String.toList_ofList, List.cons_append, List.cons_append,
    List.cons_append, List.cons_append, List.cons.injEq, List.append_assoc, List.append_assoc,
    literalBody_append_inj, List.append_right_inj, String.toList_inj]
  exact and_iff_right rfl

end PatternLex.Text
