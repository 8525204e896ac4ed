import PatternLex.Text.Unprintable

/-!
# Character literals

A character is shown between single quotes. Six characters have an escape of their own, the
characters that cannot be shown are written by their code point in lower-case hexadecimal digits,
and every other character stands for itself; a double quote needs no escape here.
-/

namespace PatternLex.Text

/-- The escapes of two characters: what is shown, and the character after the backslash. -/
def shortEscapes : List (Char × Char) :=
  [('\x00', '0'), ('\t', 't'), ('\r', 'r'), ('\n', 'n'), ('\x27', '\x27'), ('\\', '\\')]

/-- The code point in hexadecimal digits, between braces. -/
def codePointEscape (c : Char) : List Char :=
  ['\\', 'u', '\x7b'] ++ Nat.toDigits 16 c.toNat ++ ['\x7d']

/-- What stands between the quotes. -/
def literalBody (c : Char) : List Char :=
  match shortEscapes.lookup c with
  | some mark => ['\\', mark]
  | none => if isUnprintable c then codePointEscape c else [c]

/-- The character as it is shown. -/
def charLiteral (c : Char) : String := String.ofList ('\x27' :: literalBody c ++ ['\x27'])

example : charLiteral '"' = "'\"'" := by decide +kernel

example : charLiteral '\x27' = "'\\''" := by decide +kernel

example : charLiteral '\u2028' = "'\\u\x7b2028\x7d'" := by decide +kernel

end PatternLex.Text
