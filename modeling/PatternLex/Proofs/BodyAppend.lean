import Mathlib.Data.List.Basic
import PatternLex.Proofs.BodyLocality

/-!
# Two class bodies, one behind the other

Two class bodies that are written together mostly hold the tokens of both. What can go wrong goes
wrong at the place where they meet. A dash that stood for itself at the end of one body, or at the
beginning of the other, can come to make a range; and a backslash at the end of the first body, with
only the closing bracket behind it, can come to escape a character. Where none of these stands
there, no lexeme looks beyond its own body.

Results:

* `startsRange_of_apart`: no range begins that did not begin before;
* `Spells.insert`: a lexeme of the first body with the second body behind it;
* `SpellsBody.append`, `read_append_bodies`: the bodies and the classes.
-/

namespace PatternLex

open Text

namespace CharClass

variable {S : Type} {sets : SetProvider S} {first mid second : List Char}

/-! ## The place where two bodies meet -/

/-- The second body may be written behind the first: neither has a dash at the place where they
meet, and the first does not end in a backslash. -/
structure Apart (first second : List Char) : Prop where
  dash : first.getLast? ≠ some '-'
  backslash : first.getLast? ≠ some '\\'
  head : second.head? ≠ some '-'

theorem getLast?_append_of_eq_some {c : Char} (front : List Char) (h : mid.getLast? = some c) :
    (front ++ mid).getLast? = some c := by
  rw [List.getLast?_append, h, Option.some_or]

theorem Apart.of_append {front : List Char} (h : Apart (front ++ mid) second) :
    Apart mid second where
  dash hend := h.dash (getLast?_append_of_eq_some front hend)
  backslash hend := h.backslash (getLast?_append_of_eq_some front hend)
  head := h.head

/-! ## Lexemes -/

theorem startsRange_of_apart {c : Char} {front : List Char} (hfront : Writes c front)
    (hapart : Apart mid second) (h : StartsRange (front ++ (mid ++ (second ++ [']'])))) :
    StartsRange (front ++ (mid ++ [']'])) := by
  rw [startsRange_iff hfront] at h ⊢
  obtain ⟨hfirst, d, after, heq, hd, -⟩ := h
  refine ⟨hfirst, ?_⟩
  -- the dash of the range is in the first body, and not at its end
  rcases mid with _ | ⟨x, _ | ⟨y, mid⟩⟩
  · rcases second with _ | ⟨x, second⟩
    · cases heq
    · obtain rfl := (List.cons.inj heq).1
      exact absurd rfl hapart.head
  · obtain rfl := (List.cons.inj heq).1
    exact absurd rfl hapart.dash
  · simp only [List.cons_append, List.cons.injEq] at heq
    obtain ⟨rfl, rfl, -⟩ := heq
    exact ⟨y, mid ++ [']'], rfl, hd, fun _ => by simp⟩

theorem Spells.insert {t : Token S} {lexeme : List Char}
    (h : Spells sets t lexeme (mid ++ [']'])) (hapart : Apart (lexeme ++ mid) second) :
    Spells sets t lexeme (mid ++ (second ++ [']'])) := by
  refine h.of_rest (fun hend hhead => ?_) fun c hwrites => ?_
  · cases mid with
    | nil =>
      rw [List.append_nil] at hapart
      exact absurd hend hapart.backslash
    | cons d mid => exact hhead
  · exact startsRange_of_apart hwrites hapart.of_append

/-! ## Bodies -/

/-- What follows a lexeme is the end of a body, and the closing bracket ends it. -/
theorem exists_of_append_bracket {ts : List (Token S)} {lexeme body rest : List Char}
    (hbody : SpellsBody sets ts body rest) (heq : lexeme ++ body = first ++ [']']) :
    ∃ mid, body = mid ++ [']'] ∧ first = lexeme ++ mid := by
  rcases List.eq_nil_or_concat' body with rfl | ⟨mid, c, rfl⟩
  · exact absurd (mem_of_spellsBody hbody) List.not_mem_nil
  · rw [← List.append_assoc] at heq
    obtain ⟨hfirst, hlast⟩ := List.append_inj' heq rfl
    exact ⟨mid, by rw [hlast], hfirst.symm⟩

/-- **One body behind the other.** Their tokens are in it, one row behind the other. -/
theorem SpellsBody.append {ts us : List (Token S)}
    (h : SpellsBody sets ts (first ++ [']']) []) (hsecond : SpellsBody sets us (second ++ [']']) [])
    (hapart : Apart first second) :
    SpellsBody sets (ts ++ us) (first ++ (second ++ [']'])) [] := by
  generalize htext : first ++ [']'] = text at h
  generalize hend : [] = rest at h
  induction h generalizing first with
  | close =>
    obtain ⟨rfl, -⟩ := List.append_inj' (htext.trans (List.nil_append _).symm) rfl
    subst hend
    exact hsecond
  | @token t ts lexeme body rest hs hbody ih =>
    subst hend
    obtain ⟨mid, rfl, rfl⟩ := exists_of_append_bracket hbody htext.symm
    rw [List.append_nil] at hs
    rw [List.append_assoc]
    refine .token ?_ (ih hapart.of_append rfl rfl)
    rw [List.append_nil]
    exact hs.insert hapart

/-! ## Classes -/

theorem read_append_bracket_iff {body : String} {ts : List (Token S)} (pattern : String) :
    read sets (body ++ "]") pattern = .ok ⟨ts, body.utf8ByteSize + 1⟩ ↔
      SpellsBody sets ts (body.toList ++ [']']) [] := by
  have hsize : body.utf8ByteSize + 1 = byteLength (body ++ "]").toList := by
    rw [byteLength_toList, String.utf8ByteSize_append]
    rfl
  rw [hsize, read_eq_ok_byteLength_iff, String.toList_append]
  rfl

/-- **The classes of two bodies.** Let two bodies be read to their ends, each with a closing bracket
behind it. If the first ends in neither a dash nor a backslash, and the second does not begin with a
dash, then the bodies written together are read to their end as well, and the tokens are those of
the first and behind them those of the second. -/
theorem read_append_bodies {first second : String} {ts us : List (Token S)}
    {pattern pattern' : String}
    (hfirst : read sets (first ++ "]") pattern = .ok ⟨ts, first.utf8ByteSize + 1⟩)
    (hsecond : read sets (second ++ "]") pattern' = .ok ⟨us, second.utf8ByteSize + 1⟩)
    (hdash : first.toList.getLast? ≠ some '-') (hback : first.toList.getLast? ≠ some '\\')
    (hhead : second.toList.head? ≠ some '-') (whole : String) :
    read sets (first ++ second ++ "]") whole =
      .ok ⟨ts ++ us, first.utf8ByteSize + second.utf8ByteSize + 1⟩ := by
  rw [read_append_bracket_iff] at hfirst hsecond
  have happend := hfirst.append hsecond ⟨hdash, hback, hhead⟩
  rw [← String.utf8ByteSize_append, read_append_bracket_iff, String.toList_append,
    List.append_assoc]
  exact happend

/-- Dashes at the outer ends, and a shorthand before a character of two bytes. -/
theorem read_append_bodies_outer_dashes :
    read .symbolic "-a-z\\w]" "" = .ok ⟨[.char '-', .range 'a' 'z', .set .word], 7⟩ ∧
      read .symbolic "é\\]-]" "" = .ok ⟨[.char 'é', .char ']', .char '-'], 6⟩ ∧
      read .symbolic "-a-z\\wé\\]-]" "" =
        .ok ⟨[.char '-', .range 'a' 'z', .set .word, .char 'é', .char ']', .char '-'], 12⟩ := by
  have hfirst : read .symbolic ("-a-z\\w" ++ "]") "" =
      .ok ⟨[.char '-', .range 'a' 'z', .set .word], 7⟩ := by decide +kernel
  have hsecond : read .symbolic ("é\\]-" ++ "]") "" =
      .ok ⟨[.char 'é', .char ']', .char '-'], 6⟩ := by decide +kernel
  exact ⟨hfirst, hsecond,
    read_append_bodies hfirst hsecond (by decide) (by decide) (by decide) ""⟩

/-- A dash between the bodies makes a range of the characters beside it. -/
example : read .symbolic "a-]" "" = .ok ⟨[.char 'a', .char '-'], 3⟩ ∧
    read .symbolic "a-z]" "" = .ok ⟨[.range 'a' 'z'], 4⟩ := by decide +kernel

end CharClass

end PatternLex
