import PatternLex.CharClass.Reader
import PatternLex.CharClass.ShorthandTable
import PatternLex.Text.Cursor
import PatternLex.Text.Template

/-!
# Reading a class in rounds

A class body can also be read in rounds that share a state: the tokens so far, a cursor on the
source, and a flag for the closing bracket. A round cuts the source at the cursor and tries the
templates of the productions on what is ahead. The first that matches says which group of its match
holds which character, a token is put down or the class is closed, and the cursor moves by the bytes
of the match.

Much could go wrong in a round. The cursor could have come to stand inside a character, no template
could match, a group could have no part in the match, a letter could be missing from the table of
the shorthands. Each of these has its own outcome here. That none of them ever comes about is a
theorem on the readings of a whole source, and not part of the definitions.

Results:

* `lt_offset_of_round_next`: a round that goes on has moved the cursor, so the rounds come to an
  end.
-/

namespace PatternLex

open Text

variable {S : Type}

/-- What a production makes of a match. -/
inductive Yield (S : Type) where
  | lexeme (l : Lexeme S)
  /-- A group or an entry of the table is missing, and the match is passed over. -/
  | nothing
  /-- A group is missing that cannot be done without. -/
  | trapped
  deriving DecidableEq, Repr

namespace Production

/-- The lower bound of a range, in group 1 where it comes after a backslash and else in group 2. -/
def lowerBound : Template :=
  .alt (.seq (.just '\\') (.group 1 (.one (· ∉ lineTerminators))))
    (.group 2 (.one fun c => c ≠ ']' ∧ c ≠ '\\'))

/-- A character in a group, with a backslash before it if that is possible. -/
def escapable (index : Nat) (accepts : Char → Bool) : Template :=
  .seq (.opt (.just '\\')) (.group index (.one accepts))

/-- What the text of each production looks like. -/
def template : Production → Template
  | shorthand => .seq (.just '\\') (.group 1 (.one (· ∈ Shorthand.patternLetters)))
  | range => .seq lowerBound (.seq (.just '-') (escapable 3 (· ≠ ']')))
  | terminator => .just ']'
  | literal => escapable 1 fun _ => true

/-- What each production makes of a match of its template. -/
def yield (sets : SetProvider S) : Production → Match → Yield S
  | shorthand, m =>
    match m.group? 1 with
    | none => .trapped
    | some letter =>
      match Shorthand.table.lookup (String.ofList letter) with
      | some s => .lexeme (.token (.set (sets.provide s)))
      | none => .nothing
  | range, m =>
    match (m.groupChar? 1).or (m.groupChar? 2), m.groupChar? 3 with
    | some first, some last => .lexeme (.token (.range first last))
    | _, _ => .nothing
  | terminator, _ => .lexeme .close
  | literal, m =>
    match m.groupChar? 1 with
    | some c => .lexeme (.token (.char c))
    | none => .nothing

/-- The first of the productions whose template matches, and the match. -/
def firstMatch? (order : List Production) (cs : List Char) : Option (Production × Match) :=
  order.findSome? fun p => (p.template.match? cs).map fun m => (p, m)

theorem match?_of_firstMatch? {order : List Production} {cs : List Char} {p : Production}
    {m : Match} (h : firstMatch? order cs = some (p, m)) : p.template.match? cs = some m := by
  obtain ⟨q, -, hq⟩ := List.exists_of_findSome?_eq_some h
  obtain ⟨found, hfound, heq⟩ := Option.map_eq_some_iff.1 hq
  cases heq
  exact hfound

theorem consumes_template (p : Production) : p.template.consumes = true := by cases p <;> rfl

end Production

namespace CharClass

/-- How far the reading of a class has come. -/
structure Progress (S : Type) where
  tokens : List (Token S)
  cursor : Cursor
  closed : Bool
  deriving DecidableEq, Repr

/-- How the rounds end. -/
inductive Ending (S : Type) where
  | closed (final : Progress S)
  /-- The source is at its end. -/
  | exhausted
  /-- No production fits. -/
  | unmatched
  /-- The source cannot be cut at the cursor, or a group is missing. -/
  | trapped
  deriving DecidableEq, Repr

/-- The outcome of one round. -/
inductive Round (S : Type) where
  | next (progress : Progress S)
  | stop (ending : Ending S)
  deriving DecidableEq, Repr

/-- All the rounds of a reading: how many were begun, and how they ended. -/
structure Run (S : Type) where
  rounds : Nat
  ending : Ending S
  deriving DecidableEq, Repr

namespace Progress

/-- Nothing is read yet. -/
def start (source : String) : Progress S := ⟨[], Cursor.start source, false⟩

def advance (progress : Progress S) (n : Nat) : Progress S :=
  { progress with cursor := progress.cursor.advance n }

/-- Puts a token down, or notes that the class is closed. -/
def put (progress : Progress S) : Lexeme S → Progress S
  | .token t => { progress with tokens := progress.tokens ++ [t] }
  | .close => { progress with closed := true }

@[simp] theorem put_cursor (progress : Progress S) (l : Lexeme S) :
    (progress.put l).cursor = progress.cursor := by cases l <;> rfl

/-- Does what a match asks for. -/
def record? (progress : Progress S) : Yield S → Option (Progress S)
  | .lexeme l => some (progress.put l)
  | .nothing => some progress
  | .trapped => none

theorem cursor_of_record? {progress recorded : Progress S} {y : Yield S}
    (h : progress.record? y = some recorded) : recorded.cursor = progress.cursor := by
  cases y with
  | lexeme l =>
    cases h
    exact put_cursor progress l
  | nothing => cases h; rfl
  | trapped => cases h

/-- One round: cut, match, put down, move. Whether the class is closed is asked first when the round
is over, and only then whether anything matched. -/
def round (sets : SetProvider S) (progress : Progress S) : Round S :=
  match progress.cursor.rest? with
  | none => .stop .trapped
  | some ahead =>
    match Production.firstMatch? Production.order ahead.toList with
    | none => .stop (if progress.closed then .closed progress else .unmatched)
    | some (p, m) =>
      match progress.record? (p.yield sets m) with
      | none => .stop .trapped
      | some recorded =>
        if recorded.closed then .stop (.closed (recorded.advance (byteLength m.taken)))
        else .next (recorded.advance (byteLength m.taken))

theorem exists_of_round_next {sets : SetProvider S} {progress next : Progress S}
    (h : progress.round sets = .next next) :
    ∃ (ahead : String) (p : Production) (m : Match),
      Production.firstMatch? Production.order ahead.toList = some (p, m) ∧
        next.cursor = progress.cursor.advance (byteLength m.taken) := by
  unfold round at h
  split at h
  · cases h
  · rename_i ahead hahead
    split at h
    · cases h
    · rename_i p m hmatch
      split at h
      · cases h
      · rename_i recorded hrecorded
        split at h
        · cases h
        · cases h
          refine ⟨ahead, p, m, hmatch, ?_⟩
          rw [advance, cursor_of_record? hrecorded]

theorem lt_offset_of_round_next {sets : SetProvider S} {progress next : Progress S}
    (h : progress.round sets = .next next) :
    next.cursor.text = progress.cursor.text ∧ progress.cursor.offset < next.cursor.offset := by
  obtain ⟨ahead, p, m, hmatch, hcursor⟩ := exists_of_round_next h
  have htaken := Template.taken_ne_nil p.consumes_template (Production.match?_of_firstMatch? hmatch)
  have hbytes := length_le_byteLength m.taken
  have hpos := List.length_pos_iff.2 htaken
  rw [hcursor]
  refine ⟨rfl, ?_⟩
  show progress.cursor.offset < progress.cursor.offset + byteLength m.taken
  omega

/-- Rounds until the class is closed, or the source at its end, or a round cannot go on. -/
def run (sets : SetProvider S) (progress : Progress S) : Run S :=
  if _ : progress.cursor.atEnd then ⟨0, .exhausted⟩
  else
    match _ : progress.round sets with
    | .stop ending => ⟨1, ending⟩
    | .next next => ⟨(next.run sets).rounds + 1, (next.run sets).ending⟩
  termination_by byteLength progress.cursor.text.toList - progress.cursor.offset
  decreasing_by
    all_goals
      have hmoved := lt_offset_of_round_next (by assumption)
      have hleft : ¬ progress.cursor.atEnd = true := by assumption
      rw [Cursor.atEnd, decide_eq_true_iff] at hleft
      rw [hmoved.1]
      omega

end Progress

/-- The class that the rounds have read. A reading that is trapped has no answer. -/
def Ending.outcome? (source pattern : String) : Ending S → Option (Except Malformed (CharClass S))
  | closed final => some (.ok ⟨final.tokens, final.cursor.offset⟩)
  | exhausted | unmatched => some (.error (.unterminated source.toList pattern))
  | trapped => none

end CharClass

end PatternLex
