import Mathlib.Logic.Function.Basic
import PatternLex.CharClass.SetProvider
import PatternLex.Text.LiteralReader

/-!
# A token is known from its text

The text of a token begins with its kind, and the three kinds begin with different letters. Behind
the kind stand one or two character literals, or the text of a set. A literal says itself where it
ends, so the dash between the bounds of a range is never taken for a part of one; the text of a set
may be any text, since nothing but the closing parenthesis stands behind it.

Results:

* `kind_of_display_eq`: tokens of one text are of one kind;
* `display_injective_iff`: tokens have texts of their own if sets do;
* `display_loses_nothing`: the same for shorthands and for plain texts, and what is shown for a
  character.
-/

namespace PatternLex

open Text

variable {S : Type}

namespace Token

/-! ## The text of each kind -/

theorem display_range (showSet : S → String) (first last : Char) :
    (range first last).display showSet =
      "Range (" ++ (charLiteral first ++ ("-" ++ (charLiteral last ++ ")"))) := by
  simp only [display, kind, String.append_assoc]
  rfl

theorem display_char (showSet : S → String) (c : Char) :
    (char c).display showSet = "Char (" ++ (charLiteral c ++ ")") := by
  simp only [display, kind, String.append_assoc]
  rfl

theorem display_set (showSet : S → String) (s : S) :
    (set s).display showSet = "Set (" ++ (showSet s ++ ")") := by
  simp only [display, kind, String.append_assoc]
  rfl

/-- The letter that the text of each kind begins with. -/
def Kind.initial : Kind → Char
  | range => 'R'
  | char => 'C'
  | set => 'S'

theorem Kind.initial_inj {k l : Kind} : k.initial = l.initial ↔ k = l := by
  cases k <;> cases l <;> decide

theorem head?_display (showSet : S → String) (t : Token S) :
    (t.display showSet).toList.head? = some t.kind.initial := by
  cases t with
  | range first last =>
    rw [display_range, String.toList_append]
    rfl
  | char c =>
    rw [display_char, String.toList_append]
    rfl
  | set s =>
    rw [display_set, String.toList_append]
    rfl

theorem kind_of_display_eq {showSet : S → String} {t u : Token S}
    (h : t.display showSet = u.display showSet) : t.kind = u.kind := by
  have hhead := head?_display showSet t
  rw [h, head?_display, Option.some.injEq] at hhead
  exact (Kind.initial_inj.1 hhead).symm

/-! ## Tokens and their texts -/

theorem display_injective {showSet : S → String} (hset : Function.Injective showSet) :
    Function.Injective (display showSet) := by
  intro t u h
  have hkind := kind_of_display_eq h
  cases t with
  | range first last =>
    cases u with
    | range first' last' =>
      rw [display_range, display_range, String.append_right_inj, charLiteral_append_inj,
        String.append_right_inj, charLiteral_append_inj] at h
      rw [h.1, h.2.1]
    | char | set => cases hkind
  | char c =>
    cases u with
    | char c' =>
      rw [display_char, display_char, String.append_right_inj, charLiteral_append_inj] at h
      rw [h.1]
    | range | set => cases hkind
  | set s =>
    cases u with
    | set s' =>
      rw [display_set, display_set, String.append_right_inj, String.append_left_inj] at h
      rw [hset h]
    | range | char => cases hkind

/-- **Texts of their own.** Different tokens have different texts exactly if different sets have. -/
theorem display_injective_iff (showSet : S → String) :
    Function.Injective (display showSet) ↔ Function.Injective showSet := by
  refine ⟨fun h s s' hs => ?_, display_injective⟩
  have hdisplay : (set s).display showSet = (set s').display showSet := by
    rw [display_set, display_set, hs]
  exact Token.set.inj (h hdisplay)

end Token

theorem Shorthand.toString_injective :
    Function.Injective (toString : Shorthand → String) := by
  intro s s' h
  have hspelling : s.spelling = s'.spelling := String.ofList_injective h
  simpa [Shorthand.spelling, Shorthand.letter_inj] using hspelling

/-- **Nothing is lost.** Whatever the type of the sets and the way they are shown, two tokens have
the same text only if they are the same, as long as that is so for sets; and it is so for shorthands
and for plain texts. A character is shown between single quotes, by an escape of two characters, by
the digits of its code point in base sixteen with no zero in front, or as it is. -/
theorem display_loses_nothing :
    (∀ (S : Type) (showSet : S → String),
      Function.Injective (Token.display showSet) ↔ Function.Injective showSet) ∧
    Function.Injective (Token.display (toString : Shorthand → String)) ∧
    Function.Injective (Token.display (id : String → String)) ∧
    ∀ c, ∃ body, Shows c body ∧ charLiteral c = "'" ++ String.ofList body ++ "'" := by
  refine ⟨fun _ => Token.display_injective_iff, ?_, ?_, fun c => ?_⟩
  · exact Token.display_injective Shorthand.toString_injective
  · exact Token.display_injective Function.injective_id
  · refine ⟨literalBody c, shows_literalBody c, ?_⟩
    rw [← String.toList_inj]
    simp [charLiteral]

end PatternLex
