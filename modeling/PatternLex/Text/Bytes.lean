/-!
# The bytes of a text

A text is stored as the bytes of its UTF-8 form, and some questions are asked of the bytes alone:
what the byte at an offset is, or whether the bytes of one text end those of another. The answers
are about characters too. A byte that begins a character is never one inside a character, and so a
text whose bytes begin, or end, those of another is a part of it.

Results:

* `bytes_prefix_iff`, `bytes_suffix_iff`: parts of the bytes are parts of the text;
* `cons_suffix_iff`: one byte more before a last part, by its offset.
-/

namespace PatternLex.Text

/-- The bytes of the UTF-8 form of a text. -/
def bytes (text : String) : List UInt8 := text.toUTF8.data.toList

theorem length_bytes (s : String) : (bytes s).length = s.utf8ByteSize := rfl

@[simp] theorem bytes_append (s t : String) : bytes (s ++ t) = bytes s ++ bytes t := by
  simp [bytes]

theorem bytes_inj {s t : String} : bytes s = bytes t ↔ s = t := by
  unfold bytes
  rw [Array.toList_inj, ← ByteArray.ext_iff]
  exact String.toByteArray_inj

theorem bytes_prefix_iff {s t : String} : bytes s <+: bytes t ↔ ∃ u, t = s ++ u := by
  constructor
  · intro h
    obtain ⟨more, hmore⟩ := h
    have hencode : s.toList.utf8Encode ++ more.toByteArray = t.toList.utf8Encode := by
      rw [String.utf8Encode_toList, String.utf8Encode_toList]
      apply ByteArray.ext
      rw [← Array.toList_inj]
      simpa [bytes] using hmore
    obtain ⟨chars, hchars⟩ := List.isPrefix_of_utf8Encode_append_eq_utf8Encode _ hencode
    refine ⟨String.ofList chars, ?_⟩
    rw [← String.toList_inj, ← hchars, String.toList_append, String.toList_ofList]
  · intro h
    obtain ⟨u, rfl⟩ := h
    rw [bytes_append]
    exact List.prefix_append _ _

theorem isValid_of_bytes_eq {s t : String} {front : List UInt8} (hs : s ≠ "")
    (h : bytes t = front ++ bytes s) : (⟨front.length⟩ : String.Pos.Raw).IsValid t := by
  have hpos : 0 < (bytes s).length :=
    Nat.pos_of_ne_zero (mt String.utf8ByteSize_eq_zero_iff.1 hs)
  have hlt : front.length < (bytes t).length := by
    rw [h, List.length_append]
    omega
  have hbyte : t.getUTF8Byte ⟨front.length⟩ hlt = s.getUTF8Byte 0 hpos := by
    have hget : (bytes t)[front.length]? = (bytes s)[0]? := by
      rw [h, List.getElem?_append_right (Nat.le_refl _), Nat.sub_self]
    rw [List.getElem?_eq_getElem hlt, List.getElem?_eq_getElem hpos] at hget
    exact Option.some.inj hget
  rw [String.Pos.Raw.isValid_iff_isUTF8FirstByte]
  refine .inr ⟨hlt, ?_⟩
  rw [hbyte]
  exact String.isUTF8FirstByte_getUTF8Byte_zero

theorem bytes_suffix_iff {s t : String} : bytes s <:+ bytes t ↔ ∃ u, t = u ++ s := by
  constructor
  · intro h
    obtain ⟨front, hfront⟩ := h
    by_cases hs : s = ""
    · exact ⟨t, by rw [hs, String.append_empty]⟩
    · obtain ⟨u, rest, rfl, hu⟩ :=
        String.Pos.Raw.isValid_iff_exists_append.1 (isValid_of_bytes_eq hs hfront.symm)
      have hlength : front.length = (bytes u).length := congrArg String.Pos.Raw.byteIdx hu
      rw [bytes_append] at hfront
      obtain ⟨-, hrest⟩ := List.append_inj hfront hlength
      rw [bytes_inj] at hrest
      exact ⟨u, by rw [hrest]⟩
  · intro h
    obtain ⟨u, rfl⟩ := h
    rw [bytes_append]
    exact List.suffix_append _ _

theorem cons_suffix_iff {b : UInt8} {s t : List UInt8} :
    b :: s <:+ t ↔ s <:+ t ∧ s.length + 1 ≤ t.length ∧ t[t.length - (s.length + 1)]? = some b := by
  constructor
  · intro h
    obtain ⟨front, rfl⟩ := h
    refine ⟨⟨front ++ [b], by simp⟩, by simp, ?_⟩
    rw [List.length_append, List.length_cons, Nat.add_sub_cancel,
      List.getElem?_append_right (Nat.le_refl _), Nat.sub_self, List.getElem?_cons_zero]
  · intro h
    obtain ⟨⟨front, rfl⟩, hroom, hget⟩ := h
    rw [List.length_append] at hroom
    rcases front.eq_nil_or_concat with rfl | ⟨init, a, rfl⟩
    · rw [List.length_nil] at hroom
      omega
    · have hplace : (init.concat a ++ s).length - (s.length + 1) = init.length := by
        simp only [List.length_append, List.length_concat]
        omega
      rw [hplace, List.concat_eq_append, List.append_assoc,
        List.getElem?_append_right (Nat.le_refl _), Nat.sub_self, List.singleton_append,
        List.getElem?_cons_zero, Option.some.injEq] at hget
      exact ⟨init, by rw [hget, List.concat_eq_append, List.append_assoc, List.singleton_append]⟩

end PatternLex.Text
