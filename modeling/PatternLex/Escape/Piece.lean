import PatternLex.Escape.Reader

/-!
# Cutting a text at its escapes

A text is read from left to right. At each place a few alternatives are tried in order, the first
that fits takes its characters as one piece, and where none fits a single character is taken as it
stands. Only an escape with no backslash before it, as far as the cutting has come, is a piece that
can be decoded: a doubled backslash before a body, and the backspace marker, are cut out whole so
that nothing inside them is read again.

Results:

* `eq_source_append_of_read?`: an alternative takes what its piece spells, and at least one
  character;
* `flatMap_source_pieces`: the pieces, written one after the other, are the text.
-/

namespace PatternLex

open Text

/-- One piece of a cut text. -/
inductive Piece where
  /-- A character that starts nothing. -/
  | plain (c : Char)
  /-- The backspace marker, a class that holds only `\b`. -/
  | marker
  /-- An escape behind one more backslash. -/
  | guarded (e : Escape)
  /-- An escape. -/
  | escape (e : Escape)
  deriving DecidableEq, Repr

namespace Piece

/-- What the piece takes from the text. -/
def source : Piece → List Char
  | plain c => [c]
  | marker => ['[', '\\', 'b', ']']
  | guarded e => '\\' :: e.spelling
  | escape e => e.spelling

/-- A kind of piece that is looked for. -/
inductive Alternative where
  | marker
  | guarded
  | single
  deriving DecidableEq, Repr

namespace Alternative

/-- Reads a piece of this kind and returns it with the text after it. -/
def read? : Alternative → List Char → Option (Piece × List Char)
  | marker, '[' :: '\\' :: 'b' :: ']' :: rest => some (.marker, rest)
  | guarded, '\\' :: '\\' :: cs =>
    (Escape.readBody? cs).map fun (e, rest) => (.guarded e, rest)
  | single, '\\' :: cs => (Escape.readBody? cs).map fun (e, rest) => (.escape e, rest)
  | _, _ => none

/-- The order of the alternatives. The doubled backslash comes before the single one. -/
def order : List Alternative := [marker, guarded, single]

theorem eq_source_append_of_read? {a : Alternative} {cs rest : List Char} {p : Piece}
    (h : a.read? cs = some (p, rest)) : cs = p.source ++ rest := by
  unfold read? at h
  split at h
  · simp only [Option.some.injEq, Prod.mk.injEq] at h
    obtain ⟨rfl, rfl⟩ := h
    rfl
  · obtain ⟨⟨e, after⟩, hbody, heq⟩ := Option.map_eq_some_iff.1 h
    simp only [Prod.mk.injEq] at heq
    obtain ⟨rfl, rfl⟩ := heq
    simp [source, Escape.spelling, Escape.eq_body_append_of_readBody? hbody]
  · obtain ⟨⟨e, after⟩, hbody, heq⟩ := Option.map_eq_some_iff.1 h
    simp only [Prod.mk.injEq] at heq
    obtain ⟨rfl, rfl⟩ := heq
    simp [source, Escape.spelling, Escape.eq_body_append_of_readBody? hbody]
  · simp at h

end Alternative

theorem source_ne_nil (p : Piece) : p.source ≠ [] := by
  cases p <;> simp [source, Escape.spelling]

/-- The first of the alternatives that fits. -/
def next? (order : List Alternative) (cs : List Char) : Option (Piece × List Char) :=
  order.findSome? fun a => a.read? cs

theorem eq_source_append_of_next? {order : List Alternative} {cs rest : List Char} {p : Piece}
    (h : next? order cs = some (p, rest)) : cs = p.source ++ rest := by
  obtain ⟨a, -, ha⟩ := List.exists_of_findSome?_eq_some h
  exact Alternative.eq_source_append_of_read? ha

theorem length_lt_of_next? {order : List Alternative} {cs rest : List Char} {p : Piece}
    (h : next? order cs = some (p, rest)) : rest.length < cs.length := by
  have hpos := List.length_pos_iff.2 p.source_ne_nil
  rw [eq_source_append_of_next? h, List.length_append]
  omega

end Piece

/-- Cuts a text into pieces, the alternatives being tried in the given order. -/
def pieces (order : List Piece.Alternative) : List Char → List Piece
  | [] => []
  | c :: cs =>
    match _ : Piece.next? order (c :: cs) with
    | some (piece, rest) => piece :: pieces order rest
    | none => .plain c :: pieces order cs
  termination_by cs => cs.length
  decreasing_by
    · exact Piece.length_lt_of_next? (by assumption)
    · simp

theorem flatMap_source_pieces (order : List Piece.Alternative) (cs : List Char) :
    (pieces order cs).flatMap Piece.source = cs := by
  fun_induction pieces order cs with
  | case1 => rfl
  | case2 c cs piece rest hstep ih =>
    rw [List.flatMap_cons, ih, Piece.eq_source_append_of_next? hstep]
  | case3 c cs hstep ih => simp [Piece.source, ih]

end PatternLex
