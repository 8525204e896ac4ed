import Mathlib.Data.List.Basic
import PatternLex.Proofs.BodyLocality
import PatternLex.Proofs.PatternPartition

/-!
# The classes of two patterns, one behind the other

A pattern that is read to its end has no hold on what is written behind it. Its classes are closed
before the second pattern begins, so they are read as before; no opening bracket is left over, so
the search comes to the second pattern with nothing open; and from there on it finds what it finds
in the second pattern by itself, only farther to the right.

Results:

* `classesFrom_append`: a search that does not fail goes on in the text behind;
* `classesFrom_shifted`: a search that begins farther to the right;
* `classes_append`: the steps of the whole pattern.
-/

namespace PatternLex

open Text

namespace ClassStep

variable {S : Type} {sets : SetProvider S} {pattern : String}

/-- The same step in `whole`, which has `n` bytes more before it. -/
def shifted (n : Nat) (whole : String) (step : ClassStep S) : ClassStep S where
  start := step.start + n
  outcome := step.outcome.mapError fun m => ⟨whole, m.reason, m.position + n⟩

/-- **Behind a pattern.** The steps of a search that does not fail are found in a longer text too,
and the search goes on where the first text ends. -/
theorem classesFrom_append {pos : Nat} {cs : List Char}
    (h : ∀ step ∈ classesFrom sets pattern pos cs, step.Closed) (whole : String)
    (more : List Char) :
    classesFrom sets whole pos (cs ++ more) =
      classesFrom sets pattern pos cs ++ classesFrom sets whole (pos + byteLength cs) more := by
  induction pos, cs using classesFrom_induction sets pattern with
  | clear hclear => exact classesFrom_append_of_notMem hclear _ more
  | failed _ _ =>
    obtain ⟨cls, hcls⟩ := h _ (List.mem_singleton_self _)
    cases hcls
  | @closed pos gap body after cls steps hgap hread hoffset ih =>
    have hlater : ∀ step ∈ steps, step.Closed :=
      fun step hstep => h step (List.mem_cons_of_mem _ hstep)
    have hmore := CharClass.readFrontWith?_append hread more
    have hwidth : pos + byteLength (gap ++ '[' :: (body ++ ']' :: after)) =
        pos + byteLength gap + 1 + cls.offset + byteLength after := by
      rw [byteLength_gap_class, hoffset]
      omega
    rw [List.append_assoc, classesFrom_append_of_notMem hgap, List.cons_append,
      classesFrom_closed hmore, ih hlater, hwidth]
    rfl

theorem unterminated_shifted {before source : List Char}
    (h : pattern.toList = before ++ '[' :: source) (front : String) :
    Malformed.unterminated source (front ++ pattern) =
      ⟨front ++ pattern, (Malformed.unterminated source pattern).reason,
        (Malformed.unterminated source pattern).position + byteLength front.toList⟩ := by
  have hwhole : (front ++ pattern).toList = (front.toList ++ before) ++ '[' :: source := by
    rw [String.toList_append, h, List.append_assoc]
  simp only [Malformed.unterminated, Malformed.mk.injEq, true_and]
  rw [hwhole, h, Malformed.bracketPosition_eq, Malformed.bracketPosition_eq, byteLength_append]
  omega

/-- **Farther to the right.** A search that begins in the middle of a pattern finds the same steps
when more is written before the pattern. -/
theorem classesFrom_shifted (sets : SetProvider S) {before cs : List Char}
    (htext : pattern.toList = before ++ cs) (front : String) :
    classesFrom sets (front ++ pattern) (byteLength before + byteLength front.toList) cs =
      (classesFrom sets pattern (byteLength before) cs).map
        (shifted (byteLength front.toList) (front ++ pattern)) := by
  generalize hpos : byteLength before = pos
  induction pos, cs using classesFrom_induction sets pattern generalizing before with
  | @clear pos gap hclear =>
    show classesFrom sets (front ++ pattern) _ gap = []
    rw [← List.append_nil gap, classesFrom_append_of_notMem hclear, classesFrom]
  | @failed pos gap source hgap hread =>
    have hcut : pattern.toList = (before ++ gap) ++ '[' :: source := by
      rw [htext, List.append_assoc]
    rw [classesFrom_append_of_notMem hgap, classesFrom_failed hread, unterminated_shifted hcut]
    show [_] = [ClassStep.mk _ _]
    rw [Nat.add_right_comm pos, Nat.add_right_comm (pos + _)]
    rfl
  | @closed pos gap body after cls steps hgap hread hoffset ih =>
    obtain ⟨before', hcut, hwidth⟩ := exists_of_closed htext hoffset
    rw [hpos] at hwidth
    have hstart : pos + byteLength front.toList + byteLength gap + 1 =
        pos + byteLength gap + 1 + byteLength front.toList := by omega
    rw [classesFrom_append_of_notMem hgap, classesFrom_closed hread, hstart,
      Nat.add_right_comm _ _ cls.offset, ih hcut hwidth]
    rfl

/-! ## Two patterns -/

/-- **Two patterns.** If every step of the first pattern reads a class, the steps of both are its
steps and behind them those of the second, farther to the right: the same tokens with the same
offsets, and the same reason for a failure, at its place in the whole pattern. -/
theorem classes_append (sets : SetProvider S) (first second : String)
    (h : ∀ step ∈ classes sets first, step.Closed) :
    classes sets (first ++ second) =
      classes sets first ++
        (classes sets second).map (shifted (byteLength first.toList) (first ++ second)) := by
  have hsecond : second.toList = [] ++ second.toList := rfl
  have hshifted := classesFrom_shifted sets hsecond first
  rw [byteLength_nil] at hshifted
  rw [classes, String.toList_append, classesFrom_append h, hshifted]
  rfl

deriving instance DecidableEq for ClassStep

/-- Characters of more than one byte on both sides of the seam, and a class that is never closed. -/
theorem classes_append_unterminated :
    classes .symbolic "é[a]x" = [⟨3, .ok ⟨[.char 'a'], 2⟩⟩] ∧
      classes .symbolic "[b]é[c" =
        [⟨1, .ok ⟨[.char 'b'], 2⟩⟩, ⟨6, .error ⟨"[b]é[c", Malformed.unterminatedReason, 5⟩⟩] ∧
      classes .symbolic ("é[a]x" ++ "[b]é[c") =
        [⟨3, .ok ⟨[.char 'a'], 2⟩⟩, ⟨7, .ok ⟨[.char 'b'], 2⟩⟩,
          ⟨12, .error ⟨"é[a]x[b]é[c", Malformed.unterminatedReason, 11⟩⟩] := by
  have hfirst : classes .symbolic "é[a]x" = [⟨3, .ok ⟨[.char 'a'], 2⟩⟩] := by decide +kernel
  have hsecond : classes .symbolic "[b]é[c" =
      [⟨1, .ok ⟨[.char 'b'], 2⟩⟩, ⟨6, .error ⟨"[b]é[c", Malformed.unterminatedReason, 5⟩⟩] := by
    decide +kernel
  refine ⟨hfirst, hsecond, ?_⟩
  have hclosed : ∀ step ∈ classes .symbolic "é[a]x", step.Closed := by
    rw [hfirst]
    intro step hstep
    rw [List.mem_singleton] at hstep
    exact ⟨_, congrArg outcome hstep⟩
  rw [classes_append .symbolic "é[a]x" "[b]é[c" hclosed, hfirst, hsecond]
  rfl

end ClassStep

end PatternLex
