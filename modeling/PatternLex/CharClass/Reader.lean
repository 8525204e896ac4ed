import PatternLex.CharClass.Production
import PatternLex.Malformed

/-!
# Reading a character class

The text begins just after the opening bracket and may go on past the closing one. Productions are
taken one after the other until one of them reads the closing bracket; what stands after it is left
alone. A text that ends first holds no class.

Results:

* `exists_of_readFrontWith?`: what is left stands after a closing bracket of the text, and the
  offset is the number of bytes up to and with that bracket.
-/

namespace PatternLex

open Text

/-- A class that was read: its tokens in the order of the text, and the byte offset just past the
closing bracket. -/
structure CharClass (S : Type) where
  tokens : List (Token S)
  offset : Nat
  deriving DecidableEq, Repr

namespace CharClass

variable {S T : Type}

/-- Replaces the sets of the tokens. -/
def map (f : S → T) (cls : CharClass S) : CharClass T :=
  ⟨cls.tokens.map (Token.map f), cls.offset⟩

/-- The tokens up to the closing bracket, and the text after it. -/
def readBodyWith? (order : List Production) (sets : SetProvider S) :
    List Char → Option (List (Token S) × List Char)
  | [] => none
  | c :: cs =>
    match _ : Production.next? order sets (c :: cs) with
    | some (.token t, rest) =>
      (readBodyWith? order sets rest).map fun (ts, after) => (t :: ts, after)
    | some (.close, rest) => some ([], rest)
    | none => none
  termination_by cs => cs.length
  decreasing_by exact (Production.properSuffix_of_next? (by assumption)).length_lt

/-- Reads the class that `source` begins with, and returns it with the text after it. -/
def readFrontWith? (order : List Production) (sets : SetProvider S) (source : List Char) :
    Option (CharClass S × List Char) :=
  (readBodyWith? order sets source).map fun (tokens, after) =>
    (⟨tokens, byteLength source - byteLength after⟩, after)

/-- Reads the class that `source` begins with, the productions being tried in the given order. The
whole pattern is only needed for the error. -/
def readWith (order : List Production) (sets : SetProvider S) (source pattern : String) :
    Except Malformed (CharClass S) :=
  match readFrontWith? order sets source.toList with
  | some (cls, _) => .ok cls
  | none => .error (.unterminated source.toList pattern)

/-- Reads the class that `source` begins with. -/
def read (sets : SetProvider S) (source pattern : String) : Except Malformed (CharClass S) :=
  readWith Production.order sets source pattern

example : (read .symbolic "a-z\\w\\]]+" "").toOption =
    some ⟨[.range 'a' 'z', .set .word, .char ']'], 8⟩ := by decide +kernel

example : (read .symbolic "a-\\]]" "").toOption = some ⟨[.range 'a' '\\'], 4⟩ := by decide +kernel

theorem exists_of_readBodyWith? {order : List Production} {sets : SetProvider S}
    {cs after : List Char} {ts : List (Token S)}
    (h : readBodyWith? order sets cs = some (ts, after)) :
    ∃ body, cs = body ++ ']' :: after := by
  fun_induction readBodyWith? order sets cs generalizing ts with
  | case1 => simp at h
  | case2 c cs t rest hstep ih =>
    obtain ⟨⟨us, left⟩, hread, heq⟩ := Option.map_eq_some_iff.1 h
    simp only [Prod.mk.injEq] at heq
    obtain ⟨-, rfl⟩ := heq
    obtain ⟨body, rfl⟩ := ih hread
    obtain ⟨taken, htaken⟩ := (Production.properSuffix_of_next? hstep).exists_append
    exact ⟨taken ++ body, by rw [htaken, List.append_assoc]⟩
  | case3 c cs rest hstep =>
    simp only [Option.some.injEq, Prod.mk.injEq] at h
    obtain ⟨-, rfl⟩ := h
    exact ⟨[], Production.eq_cons_of_next?_close hstep⟩
  | case4 => simp at h

theorem exists_of_readFrontWith? {order : List Production} {sets : SetProvider S}
    {cs after : List Char} {cls : CharClass S}
    (h : readFrontWith? order sets cs = some (cls, after)) :
    ∃ body, cs = body ++ ']' :: after ∧ cls.offset = byteLength body + 1 := by
  obtain ⟨⟨tokens, left⟩, hread, heq⟩ := Option.map_eq_some_iff.1 h
  simp only [Prod.mk.injEq] at heq
  obtain ⟨rfl, rfl⟩ := heq
  obtain ⟨body, hbody⟩ := exists_of_readBodyWith? hread
  refine ⟨body, hbody, ?_⟩
  simp only [hbody, byteLength_append, byteLength_cons, show ']'.utf8Size = 1 from rfl]
  omega

theorem properSuffix_of_readFrontWith? {order : List Production} {sets : SetProvider S}
    {cs after : List Char} {cls : CharClass S}
    (h : readFrontWith? order sets cs = some (cls, after)) : ProperSuffix after cs := by
  obtain ⟨body, rfl, -⟩ := exists_of_readFrontWith? h
  exact ⟨⟨body ++ [']'], by simp⟩, by simp only [List.length_append, List.length_cons]; omega⟩

end CharClass

end PatternLex
