import Mathlib.Data.List.Basic
import Mathlib.Order.Bounds.Defs
import PatternLex.Proofs.BodyLocality
import PatternLex.Text.Bytes

/-!
# A class is decided by its own bytes

The offset of a class cuts its source in two: the class with its closing bracket, and what stands
behind. The first part decides everything. A source that begins with the same bytes holds the same
class, whatever follows and whatever the pattern is, and no shorter part of the source holds a class
at all. So who reads a class from a source that is still growing may stop at the first success.

Results:

* `exists_append_of_read`: the offset cuts behind a closing bracket;
* `read_replace`: the text behind the offset may be any text;
* `isLeast_offset_of_read`: no shorter part of the source holds a class;
* `read_decided_by_own_bytes`: all of it, said of bytes.
-/

namespace PatternLex

open Text

namespace CharClass

variable {S : Type} {sets : SetProvider S} {source pattern : String} {cls : CharClass S}

theorem exists_append_of_read (h : read sets source pattern = .ok cls) :
    ∃ body rest : String, source = body ++ "]" ++ rest ∧
      (body ++ "]").utf8ByteSize = cls.offset := by
  obtain ⟨front, after, hsource, hwidth, hread⟩ := readWith_eq_ok_iff.1 h
  obtain ⟨body, hbody⟩ := exists_of_readBodyWith? hread
  have hfront : front = body ++ [']'] := by
    rw [hbody, List.append_cons] at hsource
    exact (List.append_cancel_right hsource).symm
  refine ⟨String.ofList body, String.ofList after, ?_, ?_⟩
  · rw [← String.toList_inj, hbody]
    simp
  · rw [← hwidth, hfront, ← byteLength_toList, String.toList_append, String.toList_ofList]
    rfl

/-- **Behind the class.** The text behind the offset may be any text, and the pattern any
pattern. -/
theorem read_replace {front rest : String} (h : read sets (front ++ rest) pattern = .ok cls)
    (hfront : front.utf8ByteSize = cls.offset) (rest' pattern' : String) :
    read sets (front ++ rest') pattern' = .ok cls := by
  rw [read_eq_ok_iff_describes] at h ⊢
  obtain ⟨body, left, htext, hwidth, hbody⟩ := h
  rw [String.toList_append] at htext ⊢
  -- both cuts of the text are made at the same offset
  have hcut := splitBytes?_byteLength front.toList rest.toList
  rw [htext, byteLength_toList, hfront, ← hwidth, splitBytes?_byteLength, Option.some.injEq,
    Prod.mk.injEq] at hcut
  refine ⟨body, rest'.toList, by rw [hcut.1], hwidth, hbody.replace rest'.toList⟩

theorem read_append {front : String} (h : read sets front pattern = .ok cls)
    (more pattern' : String) : read sets (front ++ more) pattern' = .ok cls := by
  obtain ⟨body, rest, rfl, hwidth⟩ := exists_append_of_read h
  rw [String.append_assoc]
  exact read_replace h hwidth (rest ++ more) pattern'

/-- **No shorter part.** The offset is the length of the shortest first part of the source that
holds a class. -/
theorem isLeast_offset_of_read (h : read sets source pattern = .ok cls) :
    IsLeast {n | ∃ front back : String, source = front ++ back ∧ front.utf8ByteSize = n ∧
      ∃ cls' pattern', read sets front pattern' = .ok cls'} cls.offset := by
  obtain ⟨body, rest, rfl, hwidth⟩ := exists_append_of_read h
  constructor
  · have hown := read_replace h hwidth "" pattern
    rw [String.append_empty] at hown
    exact ⟨body ++ "]", rest, rfl, hwidth, cls, pattern, hown⟩
  · intro n hn
    obtain ⟨front, back, hsource, rfl, cls', pattern', hread⟩ := hn
    -- what a part of the source holds, the source holds too
    have hwhole := read_append hread back pattern
    rw [← hsource, h, Except.ok.injEq] at hwhole
    obtain ⟨body', rest', rfl, hwidth'⟩ := exists_append_of_read hread
    rw [hwhole, ← hwidth']
    simp only [String.utf8ByteSize_append]
    omega

/-- **Its own bytes.** If a class is read, its offset lies behind at least one byte and within the
source, the byte before it is a closing bracket, and a character ends there. Every source that
agrees with this one up to the offset holds the same class, in every pattern; and no shorter first
part of the source holds one. -/
theorem read_decided_by_own_bytes (h : read sets source pattern = .ok cls) :
    (1 ≤ cls.offset ∧ cls.offset ≤ source.utf8ByteSize ∧
      (bytes source)[cls.offset - 1]? = some ']'.toUInt8 ∧
      (⟨cls.offset⟩ : String.Pos.Raw).IsValid source) ∧
    (∀ source' pattern' : String,
      (bytes source').take cls.offset = (bytes source).take cls.offset →
        read sets source' pattern' = .ok cls) ∧
    IsLeast {n | ∃ front back : String, source = front ++ back ∧ front.utf8ByteSize = n ∧
      ∃ cls' pattern', read sets front pattern' = .ok cls'} cls.offset := by
  refine ⟨?_, fun source' pattern' hbytes => ?_, isLeast_offset_of_read h⟩
  · obtain ⟨body, rest, rfl, hwidth⟩ := exists_append_of_read h
    have hbracket : body.utf8ByteSize + 1 = cls.offset := by
      rw [← hwidth, String.utf8ByteSize_append]
      rfl
    refine ⟨by omega, ?_, ?_, ?_⟩
    · rw [String.utf8ByteSize_append, hwidth]
      omega
    · have hplace : cls.offset - 1 = (bytes body).length := by
        rw [length_bytes]
        omega
      rw [hplace, bytes_append, bytes_append, List.append_assoc,
        List.getElem?_append_right (Nat.le_refl _), Nat.sub_self]
      rfl
    · rw [String.Pos.Raw.isValid_iff_exists_append]
      exact ⟨body ++ "]", rest, rfl, String.Pos.Raw.ext hwidth.symm⟩
  · obtain ⟨body, rest, rfl, hwidth⟩ := exists_append_of_read h
    rw [bytes_append, ← hwidth, ← length_bytes, List.take_left] at hbytes
    obtain ⟨rest', rfl⟩ := bytes_prefix_iff.1 (hbytes ▸ List.take_prefix _ _)
    exact read_replace h hwidth rest' pattern'

/-- A range that ends in a lone backslash, which only the bracket behind it makes an upper bound;
the bracket behind that and the `ü` in its place are not looked at. -/
theorem read_decided_by_own_bytes_range :
    read .symbolic "é-\\]]" "[é-\\]]" = .ok ⟨[.range 'é' '\\'], 5⟩ ∧
      (bytes "é-\\]]")[4]? = some ']'.toUInt8 ∧
      read .symbolic "é-\\]ü" "" = .ok ⟨[.range 'é' '\\'], 5⟩ ∧
      ∀ cls pattern, read .symbolic "é-\\" pattern ≠ .ok cls := by
  have hread : read .symbolic "é-\\]]" "[é-\\]]" = .ok ⟨[.range 'é' '\\'], 5⟩ := by decide +kernel
  obtain ⟨⟨-, -, hbracket, -⟩, hsame, -, hleast⟩ := read_decided_by_own_bytes hread
  refine ⟨hread, hbracket, hsame _ _ (by decide +kernel), fun cls pattern hshort => ?_⟩
  have hle := hleast ⟨"é-\\", "]]", by decide, rfl, cls, pattern, hshort⟩
  exact absurd hle (by decide +kernel)

end CharClass

end PatternLex
