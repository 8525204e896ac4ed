/-!
# What is left of a text

A reader takes some characters off the front of a text and returns the rest. `ProperSuffix` is that
relation between the rest and the text; every loop over a reader ends because of it.
-/

namespace PatternLex.Text

/-- The text `rest` is what is left when at least one character is taken off the front of `cs`. -/
def ProperSuffix (rest cs : List Char) : Prop := rest <:+ cs ∧ rest.length < cs.length

namespace ProperSuffix

theorem cons (c : Char) (cs : List Char) : ProperSuffix cs (c :: cs) :=
  ⟨List.suffix_cons c cs, Nat.lt_succ_self _⟩

theorem trans {a b c : List Char} (h : ProperSuffix a b) (h' : ProperSuffix b c) :
    ProperSuffix a c :=
  ⟨h.1.trans h'.1, Nat.lt_trans h.2 h'.2⟩

theorem length_lt {rest cs : List Char} (h : ProperSuffix rest cs) : rest.length < cs.length :=
  h.2

theorem exists_append {rest cs : List Char} (h : ProperSuffix rest cs) :
    ∃ taken, cs = taken ++ rest := by
  obtain ⟨taken, heq⟩ := h.1
  exact ⟨taken, heq.symm⟩

end ProperSuffix

end PatternLex.Text
