import PatternLex.Proofs.BodyLocality
import PatternLex.Proofs.ItemText

/-!
# A class whose characters are written as escapes

Every character of the Basic Multilingual Plane has an escape of four hexadecimal digits. A class
written with these alone is meant to hold just the characters, and after its escapes are decoded it
mostly does: a metacharacter comes back with a backslash, and what is no metacharacter needs none.
The dash is not a metacharacter. Between two characters it makes a range of them, whatever they are;
at either end of the class it stands for itself.

Results:

* `Escape.char?_ofChar`: the escape of a character names it;
* `unescape_flatMap_spelling`: escapes decoded one by one, before a closing bracket;
* `startsRange_quoteMeta_iff`: only a dash with a character behind it makes a range;
* `spellsBody_quoteMeta_iff`: the quoted characters as the body of a class;
* `read_unescape_spelledClass_iff`: the class is read as its characters unless a dash stands inside.
-/

namespace PatternLex

open Text

/-! ## The escape of a character -/

namespace Escape

/-- The escape that spells the code point in four digits, of which there are enough up to the end of
the Basic Multilingual Plane. -/
def ofChar (c : Char) : Escape :=
  .unicode (.ofNat 16 (c.toNat / 4096)) (.ofNat 16 (c.toNat / 256)) (.ofNat 16 (c.toNat / 16))
    (.ofNat 16 c.toNat)

theorem char?_ofChar {c : Char} (h : c.toNat < 0x10000) : (ofChar c).char? = some c := by
  rw [char?_eq_some_iff]
  simp only [ofChar, value, ofDigits, List.foldl_cons, List.foldl_nil, Fin.val_ofNat]
  omega

example : (ofChar '\u2028').spelling = "\\u2028".toList := by decide

end Escape

/-! ## Decoding -/

theorem separated_escapes (es : List Escape) {t : PlainText}
    (h : ∀ d, t.chars.head? ≠ some (octalDigits.char d)) :
    Item.Separated (es.map .escape ++ [.text t]) := by
  induction es with
  | nil => exact List.isChain_singleton _
  | cons e es ih =>
    cases es with
    | nil => exact List.isChain_cons_cons.2 ⟨fun _ => h, ih⟩
    | cons e' es => exact List.isChain_cons_cons.2 ⟨trivial, ih⟩

/-- **Spelled characters.** However the characters are spelled, before a closing bracket they are
all decoded. -/
theorem unescape_flatMap_spelling {spell : Char → Escape} {cs : List Char}
    (h : ∀ c ∈ cs, (spell c).char? = some c) :
    unescape (String.ofList (cs.flatMap fun c => (spell c).spelling) ++ "]") =
      String.ofList (cs.flatMap quoteMeta ++ [']']) := by
  have hsep : Item.Separated
      ((cs.map spell).map .escape ++ [.text ⟨[']'], by decide, by decide⟩]) :=
    separated_escapes (cs.map spell) (by decide)
  have htext : Item.spellAll ((cs.map spell).map .escape ++ [.text ⟨[']'], by decide, by decide⟩]) =
      (cs.flatMap fun c => (spell c).spelling) ++ [']'] := by
    simp [Item.spellAll, List.flatMap_map, Item.spelling]
  have hpieces := pieces_spellAll hsep
  have houtput : cs.flatMap (fun c => Piece.output (.escape (spell c))) = cs.flatMap quoteMeta :=
    List.flatMap_congr fun c hc => Piece.output_escape (h c hc)
  rw [htext] at hpieces
  unfold unescape unescapeWith outputOf
  rw [String.toList_append, String.toList_ofList, show "]".toList = [']'] from rfl, hpieces,
    List.flatMap_assoc, List.flatMap_append, ← houtput, List.flatMap_map, List.flatMap_map]
  simp [Item.pieces, Piece.output, Piece.source]

namespace CharClass

variable {S : Type} {sets : SetProvider S} {c : Char} {cs : List Char}

/-! ## Dashes -/

/-- A dash stands in the row with a character on each side. -/
def InnerDash (cs : List Char) : Prop := ∃ i, 0 < i ∧ i + 1 < cs.length ∧ cs[i]? = some '-'

theorem not_innerDash_nil : ¬ InnerDash [] := by
  intro h
  obtain ⟨i, -, hlt, -⟩ := h
  exact Nat.not_lt_zero _ hlt

/-- The dash is the second character with one behind it, or stands inside what follows the first. -/
theorem innerDash_cons_iff :
    InnerDash (c :: cs) ↔ (∃ d ds, cs = '-' :: d :: ds) ∨ InnerDash cs := by
  constructor
  · intro h
    obtain ⟨i, hpos, hlt, hget⟩ := h
    obtain ⟨j, rfl⟩ := Nat.exists_eq_succ_of_ne_zero (Nat.ne_of_gt hpos)
    rw [List.getElem?_cons_succ] at hget
    rw [List.length_cons] at hlt
    cases j with
    | zero =>
      rcases cs with _ | ⟨d, _ | ⟨e, ds⟩⟩
      · cases hget
      · rw [List.length_singleton] at hlt
        omega
      · obtain rfl := Option.some.inj hget
        exact .inl ⟨e, ds, rfl⟩
    | succ j => exact .inr ⟨j + 1, Nat.succ_pos j, by omega, hget⟩
  · intro h
    rcases h with ⟨d, ds, rfl⟩ | ⟨i, hpos, hlt, hget⟩
    · exact ⟨1, Nat.one_pos, by simp, rfl⟩
    · refine ⟨i + 1, Nat.succ_pos i, ?_, ?_⟩
      · rw [List.length_cons]
        omega
      · rw [List.getElem?_cons_succ, hget]

/-! ## Quoted characters in a class -/

theorem escapable_of_mem_metacharacters (h : c ∈ metacharacters) :
    c ∉ Production.lineTerminators ∧ Shorthand.ofChar? c = none := by
  have hall : metacharacters.all (fun c =>
      decide (c ∉ Production.lineTerminators ∧ Shorthand.ofChar? c = none)) = true := by decide
  exact of_decide_eq_true (List.all_eq_true.1 hall c h)

theorem spellsFirst_quoteMeta (hc : c ≠ '\\') : SpellsFirst c (quoteMeta c) := by
  unfold quoteMeta
  split
  · rename_i hmem
    obtain ⟨hline, hword⟩ := escapable_of_mem_metacharacters hmem
    exact .escaped hline hword
  · rename_i hmem
    refine .bare (fun hb => hmem ?_) hc
    rw [hb]
    decide

theorem quoteMeta_head (c : Char) : ∃ d front, quoteMeta c = d :: front ∧ d ≠ ']' := by
  unfold quoteMeta
  split
  · exact ⟨'\\', [c], rfl, by decide⟩
  · rename_i hmem
    refine ⟨c, [], rfl, fun hb => hmem ?_⟩
    rw [hb]
    decide

theorem eq_dash_of_quoteMeta {rest rest' : List Char} (h : quoteMeta c ++ rest = '-' :: rest') :
    c = '-' ∧ rest = rest' := by
  unfold quoteMeta at h
  split at h
  · cases h
  · exact List.cons.inj h

/-- **A dash makes the range.** A range begins with a quoted character exactly if a dash and one
more character follow, be it a metacharacter or not. -/
theorem startsRange_quoteMeta_iff (hc : c ≠ '\\') :
    StartsRange (quoteMeta c ++ (cs.flatMap quoteMeta ++ [']'])) ↔ ∃ d ds, cs = '-' :: d :: ds := by
  have hfirst := spellsFirst_quoteMeta hc
  rw [startsRange_iff (writes_of_spellsFirst hfirst)]
  constructor
  · intro h
    obtain ⟨-, d, after, heq, hd, -⟩ := h
    rcases cs with _ | ⟨a, _ | ⟨b, ds⟩⟩
    · cases heq
    · rw [List.flatMap_singleton] at heq
      obtain ⟨-, heq⟩ := eq_dash_of_quoteMeta heq
      exact absurd (List.cons.inj heq).1.symm hd
    · rw [List.flatMap_cons, List.append_assoc] at heq
      obtain ⟨rfl, -⟩ := eq_dash_of_quoteMeta heq
      exact ⟨b, ds, rfl⟩
  · intro h
    obtain ⟨d, ds, rfl⟩ := h
    obtain ⟨e, front, he, hne⟩ := quoteMeta_head d
    refine ⟨hfirst, e, front ++ (ds.flatMap quoteMeta ++ [']']), ?_, hne, fun _ => by simp⟩
    rw [List.flatMap_cons, List.flatMap_cons, he, List.append_assoc, List.append_assoc]
    rfl

theorem writes_and_not_startsRange_of_spells {lexeme rest : List Char}
    (h : Spells sets (.char c) lexeme rest) : Writes c lexeme ∧ ¬ StartsRange (lexeme ++ rest) := by
  cases h with
  | escaped _ hs => exact ⟨.inl rfl, hs⟩
  | bare _ hback hs => exact ⟨.inr ⟨rfl, hback⟩, hs⟩

theorem spells_quoteMeta (hc : c ≠ '\\') {rest : List Char}
    (hs : ¬ StartsRange (quoteMeta c ++ rest)) : Spells sets (.char c) (quoteMeta c) rest := by
  have hfirst := spellsFirst_quoteMeta hc
  generalize quoteMeta c = front at hfirst hs
  cases hfirst with
  | escaped _ hword => exact .escaped hword hs
  | bare hb hback => exact .bare hb hback hs

/-- **Quoted characters as a body.** They are its tokens exactly if no dash stands inside. -/
theorem spellsBody_quoteMeta_iff (hback : '\\' ∉ cs) :
    SpellsBody sets (cs.map .char) (cs.flatMap quoteMeta ++ [']']) [] ↔ ¬ InnerDash cs := by
  induction cs with
  | nil => exact iff_of_true .close not_innerDash_nil
  | cons c cs ih =>
    rw [List.mem_cons, not_or] at hback
    have hc : c ≠ '\\' := Ne.symm hback.1
    have hwrites := writes_of_spellsFirst (spellsFirst_quoteMeta hc)
    rw [innerDash_cons_iff, not_or, ← startsRange_quoteMeta_iff hc, ← ih hback.2, List.map_cons,
      List.flatMap_cons, List.append_assoc]
    constructor
    · intro h
      generalize htext : quoteMeta c ++ (cs.flatMap quoteMeta ++ [']']) = text at h
      cases h with
      | token hs hbody =>
        obtain ⟨hlexeme, hnone⟩ := writes_and_not_startsRange_of_spells hs
        obtain ⟨-, rfl⟩ := hwrites.unique hlexeme htext
        rw [List.append_nil] at hnone
        exact ⟨hnone, hbody⟩
    · intro h
      refine .token (spells_quoteMeta hc ?_) h.2
      rw [List.append_nil]
      exact h.1

/-! ## The whole class -/

/-- A class body in which every character is an escape, and its closing bracket. -/
def spelledClass (cs : List Char) : String :=
  String.ofList (cs.flatMap fun c => (Escape.ofChar c).spelling) ++ "]"

/-- **Spelled characters come out as themselves.** Let characters of the Basic Multilingual Plane,
none of them a backslash, be written as escapes in a class. When these are decoded, the class is
read to its end and holds the characters as they were exactly if no dash stands among them with a
character on each side. -/
theorem read_unescape_spelledClass_iff (sets : SetProvider S)
    (h : ∀ c ∈ cs, c.toNat < 0x10000 ∧ c ≠ '\\') (pattern : String) :
    read sets (unescape (spelledClass cs)) pattern =
        .ok ⟨cs.map .char, byteLength (unescape (spelledClass cs)).toList⟩ ↔
      ¬ ∃ i, 0 < i ∧ i + 1 < cs.length ∧ cs[i]? = some '-' := by
  have hback : '\\' ∉ cs := fun hmem => (h _ hmem).2 rfl
  have hdecoded : unescape (spelledClass cs) = String.ofList (cs.flatMap quoteMeta ++ [']']) :=
    unescape_flatMap_spelling fun c hc => Escape.char?_ofChar (h c hc).1
  rw [read_eq_ok_byteLength_iff, hdecoded, String.toList_ofList]
  exact spellsBody_quoteMeta_iff hback

/-- Dashes at both ends and a line feed, and a dash before a bracket. -/
theorem read_unescape_spelledClass_iff_dashes :
    unescape (spelledClass ['-', ']', '\n', '-']) = "-\\]\n-]" ∧
      read .symbolic "-\\]\n-]" "" = .ok ⟨[.char '-', .char ']', .char '\n', .char '-'], 6⟩ ∧
      unescape (spelledClass ['a', '-', ']']) = "a-\\]]" ∧
      read .symbolic "a-\\]]" "" ≠ .ok ⟨[.char 'a', .char '-', .char ']'], 5⟩ := by
  have hends : unescape (spelledClass ['-', ']', '\n', '-']) = "-\\]\n-]" := by decide +kernel
  have hinside : unescape (spelledClass ['a', '-', ']']) = "a-\\]]" := by decide +kernel
  have hiff := read_unescape_spelledClass_iff .symbolic
    (show ∀ c ∈ ['-', ']', '\n', '-'], c.toNat < 0x10000 ∧ c ≠ '\\' by simp) ""
  have hiff' := read_unescape_spelledClass_iff .symbolic
    (show ∀ c ∈ ['a', '-', ']'], c.toNat < 0x10000 ∧ c ≠ '\\' by simp) ""
  rw [hends] at hiff
  rw [hinside] at hiff'
  refine ⟨hends, hiff.2 fun hdash => ?_, hinside, fun hread => hiff'.1 hread ⟨1, by decide⟩⟩
  obtain ⟨i, hpos, hlt, hget⟩ := hdash
  have hi : i = 1 ∨ i = 2 := by
    simp only [List.length_cons, List.length_nil] at hlt
    omega
  rcases hi with rfl | rfl
  · cases hget
  · cases hget

end CharClass

end PatternLex
