import PatternLex.CharClass.Shorthand
import PatternLex.CharClass.Token

/-!
# What stands for a shorthand class

A provider gives a value to each of the six shorthands. The reader of class bodies asks it and puts
what it gets into the tokens, so a caller chooses what a set is: the shorthand itself, a list of
ranges, or anything else.
-/

namespace PatternLex

/-- A value for each shorthand. -/
structure SetProvider (S : Type) where
  word : S
  digit : S
  space : S
  notWord : S
  notDigit : S
  notSpace : S
  deriving DecidableEq, Repr

/-- A set of characters spelled out, or its complement. A member is never a set itself. -/
structure CharSet where
  members : List (Token Empty)
  negated : Bool
  deriving DecidableEq, Repr

namespace SetProvider

variable {S T : Type}

def provide (sets : SetProvider S) : Shorthand → S
  | .word => sets.word
  | .digit => sets.digit
  | .space => sets.space
  | .notWord => sets.notWord
  | .notDigit => sets.notDigit
  | .notSpace => sets.notSpace

/-- Every shorthand stands for itself. -/
def symbolic : SetProvider Shorthand :=
  ⟨.word, .digit, .space, .notWord, .notDigit, .notSpace⟩

@[simp] theorem provide_symbolic (s : Shorthand) : symbolic.provide s = s := by cases s <;> rfl

/-- Each value, replaced. -/
def map (f : S → T) (sets : SetProvider S) : SetProvider T where
  word := f sets.word
  digit := f sets.digit
  space := f sets.space
  notWord := f sets.notWord
  notDigit := f sets.notDigit
  notSpace := f sets.notSpace

@[simp] theorem provide_map (f : S → T) (sets : SetProvider S) (s : Shorthand) :
    (sets.map f).provide s = f (sets.provide s) := by cases s <;> rfl

/-- Every provider says what each shorthand is replaced with. -/
theorem map_provide_symbolic (sets : SetProvider S) : symbolic.map sets.provide = sets := rfl

/-! ## Sets spelled out -/

/-- The decimal digits. -/
def digitMembers : List (Token Empty) := [.range '0' '9']

/-- The underscore, the letters of ASCII and the decimal digits. -/
def wordMembers : List (Token Empty) :=
  [.char '_', .range 'a' 'z', .range 'A' 'Z'] ++ digitMembers

/-- White space and line terminators. -/
def spaceMembers : List (Token Empty) :=
  [.char '\t', .char '\n', .char '\x0b', .char '\x0c', .char '\r', .char ' ',
    .char '\u00a0', .char '\u1680', .range '\u2000' '\u200a', .char '\u2028', .char '\u2029',
    .char '\u202f', .char '\u205f', .char '\u3000', .char '\ufeff']

/-- Every shorthand stands for its members; a complement has the same members, negated. -/
def expanded : SetProvider CharSet where
  word := ⟨wordMembers, false⟩
  digit := ⟨digitMembers, false⟩
  space := ⟨spaceMembers, false⟩
  notWord := ⟨wordMembers, true⟩
  notDigit := ⟨digitMembers, true⟩
  notSpace := ⟨spaceMembers, true⟩

end SetProvider

end PatternLex
