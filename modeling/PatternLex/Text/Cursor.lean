import PatternLex.Text.ByteOffset

/-!
# A cursor on a text

A cursor is a text with a byte offset that only grows. Nothing stops it from being moved inside a
character or past the end: there the rest of the text is not defined, and `rest?` says so.

Results:

* `rest?_eq_some_iff`: the rest is defined exactly at the boundaries between characters;
* `Sees.advance`: a move by the bytes of what is next leads to such a boundary again.
-/

namespace PatternLex.Text

/-- A text and a byte offset into it. -/
structure Cursor where
  text : String
  offset : Nat
  deriving DecidableEq, Repr

namespace Cursor

/-- The cursor before the first character. -/
def start (text : String) : Cursor := ⟨text, 0⟩

/-- Moves by `n` bytes, wherever that leads. -/
def advance (cur : Cursor) (n : Nat) : Cursor := { cur with offset := cur.offset + n }

/-- Nothing is left to read, at the end of the text and anywhere past it. -/
def atEnd (cur : Cursor) : Bool := byteLength cur.text.toList ≤ cur.offset

/-- The text from the cursor on; `none` past the end and inside a character. -/
def rest? (cur : Cursor) : Option String :=
  (splitBytes? cur.text.toList cur.offset).map fun cut => String.ofList cut.2

/-- The cursor, then the cursor after each of the moves, one after the other. -/
def trail (cur : Cursor) : List Nat → List Cursor
  | [] => [cur]
  | n :: moves => cur :: (cur.advance n).trail moves

theorem rest?_eq_some_iff {cur : Cursor} {rest : String} :
    cur.rest? = some rest ↔
      ∃ before, cur.text.toList = before ++ rest.toList ∧ byteLength before = cur.offset := by
  constructor
  · intro h
    obtain ⟨⟨before, after⟩, hcut, rfl⟩ := Option.map_eq_some_iff.1 h
    exact ⟨before, by simpa using splitBytes?_eq_some_iff.1 hcut⟩
  · intro h
    obtain ⟨before, hcut⟩ := h
    simp [rest?, splitBytes?_eq_some_iff.2 hcut]

/-- The cursor stands between characters, and these are ahead of it. -/
def Sees (cur : Cursor) (ahead : List Char) : Prop :=
  ∃ before, cur.text.toList = before ++ ahead ∧ byteLength before = cur.offset

namespace Sees

variable {cur : Cursor} {ahead rest : List Char}

theorem start (text : String) : (Cursor.start text).Sees text.toList := ⟨[], rfl, rfl⟩

theorem rest? (h : cur.Sees ahead) : cur.rest? = some (String.ofList ahead) := by
  rw [rest?_eq_some_iff, String.toList_ofList]
  exact h

theorem advance {taken : List Char} (h : cur.Sees (taken ++ rest)) :
    (cur.advance (byteLength taken)).Sees rest := by
  obtain ⟨before, hsplit, hwidth⟩ := h
  refine ⟨before ++ taken, ?_, ?_⟩
  · rw [List.append_assoc]
    exact hsplit
  · rw [byteLength_append, hwidth]
    rfl

theorem offset_add (h : cur.Sees ahead) :
    cur.offset + byteLength ahead = cur.text.utf8ByteSize := by
  obtain ⟨before, hsplit, hwidth⟩ := h
  rw [← hwidth, ← byteLength_append, ← hsplit, byteLength_toList]

theorem atEnd_iff (h : cur.Sees ahead) : cur.atEnd = true ↔ ahead = [] := by
  have hbytes := h.offset_add
  have hlength := length_le_byteLength ahead
  rw [Cursor.atEnd, decide_eq_true_iff, byteLength_toList]
  constructor
  · intro hend
    exact List.length_eq_zero_iff.1 (by omega)
  · intro hnil
    rw [hnil, byteLength_nil] at hbytes
    omega

theorem isValid (h : cur.Sees ahead) : (⟨cur.offset⟩ : String.Pos.Raw).IsValid cur.text := by
  obtain ⟨before, hsplit, hwidth⟩ := h
  rw [String.Pos.Raw.isValid_iff_exists_append]
  refine ⟨String.ofList before, String.ofList ahead, ?_, ?_⟩
  · rw [← String.toList_inj, hsplit]
    simp
  · rw [← hwidth, ← byteLength_ofList]
    rfl

end Sees

end Cursor

end PatternLex.Text
