import PatternLex.CharClass.Reader

/-!
# The classes of a whole pattern

A pattern is searched for an opening bracket, whatever stands before it; the class after it is read,
and the search goes on after the closing bracket. The first class that is never closed is the last
step.
-/

namespace PatternLex

open Text

/-- One class of a pattern: the byte offset just past its opening bracket, and what was read. -/
structure ClassStep (S : Type) where
  start : Nat
  outcome : Except Malformed (CharClass S)

namespace ClassStep

variable {S : Type}

/-- The classes in the part of the pattern that begins at byte `pos`. -/
def classesFrom (sets : SetProvider S) (pattern : String) : Nat → List Char → List (ClassStep S)
  | _, [] => []
  | pos, c :: cs =>
    if c = '[' then
      match _ : CharClass.readFrontWith? Production.order sets cs with
      | some (cls, after) =>
        ⟨pos + c.utf8Size, .ok cls⟩ ::
          classesFrom sets pattern (pos + c.utf8Size + cls.offset) after
      | none => [⟨pos + c.utf8Size, .error (.unterminated cs pattern)⟩]
    else classesFrom sets pattern (pos + c.utf8Size) cs
  termination_by _ cs => cs.length
  decreasing_by
    · exact Nat.lt_succ_of_lt (CharClass.properSuffix_of_readFrontWith? (by assumption)).length_lt
    · simp

/-- The classes of a pattern, from left to right. -/
def classes (sets : SetProvider S) (pattern : String) : List (ClassStep S) :=
  classesFrom sets pattern 0 pattern.toList

end ClassStep

end PatternLex
