import PatternLex.Escape.Piece

/-!
# Decoding the escapes of a pattern

Every escape piece whose value is a character is replaced by that character, with a backslash
before it if it is a metacharacter, so that the result is again a pattern. Everything else stays as
it is written: plain text, the marker, guarded escapes, and escapes of surrogates. The decoded
escapes are listed in order beside the result; both come from one cutting into pieces.

Results:

* `Piece.output_eq_source_of_decoded?`: a piece that is not decoded stays as it is;
* `unescape_eq_of_decodedEscapes_eq_nil`: a text with no decoded escape stays as it is.
-/

namespace PatternLex

open Text

/-- One decoded escape: how it was spelled, and the code point it gave. -/
structure Decoded where
  spelling : String
  code : Nat
  deriving DecidableEq, Repr

namespace Piece

/-- What the piece becomes. -/
def output : Piece → List Char
  | escape e =>
    match e.char? with
    | some c => quoteMeta c
    | none => e.spelling
  | p => p.source

/-- The record of a piece that is decoded. -/
def decoded? : Piece → Option Decoded
  | escape e => e.char?.map fun c => ⟨String.ofList e.spelling, c.toNat⟩
  | _ => none

theorem output_eq_source_of_decoded? {p : Piece} (h : p.decoded? = none) :
    p.output = p.source := by
  cases p with
  | escape e =>
    simp only [decoded?, Option.map_eq_none_iff] at h
    simp [output, source, h]
  | _ => rfl

theorem output_escape {e : Escape} {c : Char} (h : e.char? = some c) :
    (escape e).output = quoteMeta c := by
  simp [output, h]

theorem decoded?_escape {e : Escape} {c : Char} (h : e.char? = some c) :
    (escape e).decoded? = some ⟨String.ofList e.spelling, c.toNat⟩ := by
  simp [decoded?, h]

theorem decoded?_escape_none {e : Escape} (h : e.char? = none) :
    (escape e).decoded? = none := by
  simp [decoded?, h]

end Piece

/-- The text that the pieces become. -/
def outputOf (ps : List Piece) : List Char := ps.flatMap Piece.output

/-- The records of the decoded pieces, in order. -/
def decodedOf (ps : List Piece) : List Decoded := ps.filterMap Piece.decoded?

/-- Decodes the escapes of a text, the alternatives being tried in the given order. -/
def unescapeWith (order : List Piece.Alternative) (text : String) : String :=
  String.ofList (outputOf (pieces order text.toList))

/-- The escapes that `unescapeWith` decodes, in order. -/
def decodedWith (order : List Piece.Alternative) (text : String) : List Decoded :=
  decodedOf (pieces order text.toList)

/-- Decodes the escapes of a text. -/
def unescape (text : String) : String := unescapeWith Piece.Alternative.order text

/-- The escapes that `unescape` decodes, in order. -/
def decodedEscapes (text : String) : List Decoded := decodedWith Piece.Alternative.order text

/-- What `n` decodings give, the result of each being the text of the next. -/
def unescapeRepeatedly : Nat → String → List String
  | 0, _ => []
  | n + 1, text => unescape text :: unescapeRepeatedly n (unescape text)

example : unescape "\\u0041\\x2E\\101\\cA" = "A\\.\x081\x01" := by decide +kernel

example : unescape "\\\\n[\\b]\\uD800" = "\\\\n[\\b]\\uD800" := by decide +kernel

example : unescapeRepeatedly 2 "\\x5Cn" = ["\\n", "\n"] := by decide +kernel

@[simp] theorem outputOf_append (ps qs : List Piece) :
    outputOf (ps ++ qs) = outputOf ps ++ outputOf qs :=
  List.flatMap_append

@[simp] theorem decodedOf_append (ps qs : List Piece) :
    decodedOf (ps ++ qs) = decodedOf ps ++ decodedOf qs :=
  List.filterMap_append

theorem outputOf_eq_of_decodedOf_eq_nil {ps : List Piece} (h : decodedOf ps = []) :
    outputOf ps = ps.flatMap Piece.source := by
  induction ps with
  | nil => rfl
  | cons p ps ih =>
    simp only [decodedOf, List.filterMap_eq_nil_iff, List.forall_mem_cons] at h ih
    simp only [outputOf, List.flatMap_cons] at ih ⊢
    rw [ih h.2, Piece.output_eq_source_of_decoded? h.1]

theorem unescape_eq_of_decodedEscapes_eq_nil {text : String} (h : decodedEscapes text = []) :
    unescape text = text := by
  rw [unescape, unescapeWith, outputOf_eq_of_decodedOf_eq_nil h, flatMap_source_pieces,
    String.ofList_toList]

end PatternLex
