import Mathlib.Tactic.TFAE
import PatternLex.CharClass.ShorthandTable
import PatternLex.Proofs.ClassGrammar

/-!
# One list of shorthands

A text names a shorthand if it is the letter of it. The same six letters are the ones that a class
of nothing but the escaped text is read as that shorthand for, and the ones that the shorthand is
shown with. For a text of any other length, or with brackets, backslashes and dashes in it, all
three fail together: such a class may end early, or hold a range, but it is never a single set.

Results:

* `spellsBody_set_iff`: the bodies of a single set;
* `shorthand_lists_agree`: names, readings and shown texts agree, and so do the lists of letters.
-/

namespace PatternLex

open Text

namespace CharClass

variable {S : Type} {sets : SetProvider S}

theorem spellsBody_set_iff {v : S} {body rest : List Char} :
    SpellsBody sets [.set v] body rest ↔
      ∃ s : Shorthand, sets.provide s = v ∧ body = s.spelling ++ [']'] := by
  constructor
  · intro h
    generalize hts : [Token.set v] = ts at h
    cases h with
    | close => cases hts
    | token hspells hbody =>
      obtain ⟨ht, hnone⟩ := List.cons.inj hts
      subst ht hnone
      cases hspells with
      | set =>
        cases hbody with
        | close => exact ⟨_, rfl, rfl⟩
  · intro h
    obtain ⟨s, rfl, rfl⟩ := h
    exact .token .set .close

end CharClass

namespace Shorthand

theorem toString_eq_iff {s : Shorthand} {text : String} :
    toString s = "\\" ++ text ↔ text.toList = [s.letter] := by
  rw [← String.toList_inj, String.toList_append,
    show (toString s).toList = "\\".toList ++ [s.letter] from String.toList_ofList,
    List.append_cancel_left_eq, eq_comm]

theorem read_escaped_iff {s : Shorthand} {text : String} (pattern : String) :
    CharClass.read .symbolic ("\\" ++ text ++ "]") pattern =
      .ok ⟨[.set s], text.utf8ByteSize + 2⟩ ↔ text.toList = [s.letter] := by
  have hsource : ("\\" ++ text ++ "]").toList = '\\' :: (text.toList ++ [']']) := by
    simp only [String.toList_append]
    rfl
  have hsize : text.utf8ByteSize + 2 = byteLength ("\\" ++ text ++ "]").toList := by
    rw [hsource, byteLength_cons, byteLength_append, byteLength_toList,
      show '\\'.utf8Size = 1 from rfl, show byteLength [']'] = 1 from rfl]
    omega
  rw [hsize, CharClass.read_eq_ok_byteLength_iff, CharClass.spellsBody_set_iff, hsource]
  constructor
  · intro h
    obtain ⟨s', hs, htext⟩ := h
    rw [SetProvider.provide_symbolic] at hs
    subst hs
    exact List.append_cancel_right (List.cons.inj htext).2
  · intro h
    exact ⟨s, SetProvider.provide_symbolic s, by rw [h]; rfl⟩

/-- **One list of shorthands.** For every text and every shorthand it is the same whether the text
names the shorthand, whether the escaped text with a closing bracket behind it is read to its end as
a class of this one shorthand, and whether the shorthand is shown as the escaped text. The table of
the shorthands and their shown texts have the same letters, and with every provider a shorthand that
is matched has its token. -/
theorem shorthand_lists_agree :
    (∀ (text : String) (s : Shorthand),
      [ofLetter? text = some s,
        ∀ pattern, CharClass.read .symbolic ("\\" ++ text ++ "]") pattern =
          .ok ⟨[.set s], text.utf8ByteSize + 2⟩,
        toString s = "\\" ++ text].TFAE) ∧
    (∀ text, table.lookup text = ofLetter? text) ∧
    (∀ s : Shorthand, s.escapeText = toString s) ∧
    ∀ (S : Type) (sets : SetProvider S) (cs : List Char),
      Production.matchShorthand? sets cs =
        (Production.readShorthand? sets cs).map fun (t, rest) => (some t, rest) := by
  refine ⟨fun text s => ?_, lookup_table, escapeText_eq, fun _ => Production.matchShorthand?_eq⟩
  tfae_have 1 ↔ 3 := ofLetter?_eq_some_iff.trans toString_eq_iff.symm
  tfae_have 1 → 2 := fun h pattern => (read_escaped_iff pattern).2 (ofLetter?_eq_some_iff.1 h)
  tfae_have 2 → 1 := fun h => ofLetter?_eq_some_iff.2 ((read_escaped_iff "").1 (h ""))
  tfae_finish

end Shorthand

end PatternLex
