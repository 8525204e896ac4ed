import Mathlib.Data.List.Basic
import Mathlib.Logic.Relation
import PatternLex.Proofs.TemplateReading

/-!
# What holds of every round

A reading begins at the start of the source. A round that goes on leaves the cursor between two
characters and the class open, and so the next one can cut the source. As long as something is ahead
a production fits, since a literal fits everywhere, and its match gives a lexeme. Each round then
takes at least one character, and so there are no more of them than the source has characters.

Results:

* `Stands.round_eq`: one round, by the lexeme that is next;
* `Stands.run_of_readBody`, `Stands.run_of_readBody_none`: all the rounds, by the body of the class;
* `stands_of_reached`: what the rounds keep;
* `rounds_invariant`: all of it for a whole source.
-/

namespace PatternLex

open Text

variable {S : Type} {sets : SetProvider S}

namespace CharClass

open Production

theorem length_lt_of_readBodyWith? {order : List Production} {cs after : List Char}
    {ts : List (Token S)} (h : readBodyWith? order sets cs = some (ts, after)) :
    ts.length < cs.length := by
  induction h using readBodyWith?_induction with
  | close hstep =>
    have hshort := (properSuffix_of_next? hstep).length_lt
    rw [List.length_nil]
    omega
  | token hstep _ ih =>
    have hshort := (properSuffix_of_next? hstep).length_lt
    rw [List.length_cons]
    omega

namespace Progress

/-! ## One round -/

/-- The class is still open, and these characters are ahead. -/
structure Stands (progress : Progress S) (ahead : List Char) : Prop where
  sees : progress.cursor.Sees ahead
  opened : progress.closed = false

theorem Stands.start (source : String) : Stands (start source : Progress S) source.toList :=
  ⟨Cursor.Sees.start source, rfl⟩

variable {progress : Progress S} {ahead rest : List Char}

/-- A round by the lexeme that is next: it is put down, and the cursor moves by what is taken. -/
theorem Stands.round_eq (h : progress.Stands ahead) {l : Lexeme S}
    (hnext : next? order sets ahead = some (l, rest)) :
    ∃ p m, firstMatch? order ahead = some (p, m) ∧ p.yield sets m = .lexeme l ∧
      ahead = m.taken ++ rest ∧
      progress.round sets =
        if (progress.put l).closed then
          .stop (.closed ((progress.put l).advance (byteLength m.taken)))
        else .next ((progress.put l).advance (byteLength m.taken)) := by
  obtain ⟨p, m, hmatch, hyield, rfl⟩ := firstMatch?_of_next? hnext
  refine ⟨p, m, hmatch, hyield, ?_, ?_⟩
  · exact (Template.taken_append_rest (match?_of_firstMatch? hmatch)).symm
  · simp only [round, h.sees.rest?, String.toList_ofList, hmatch, hyield, record?]

theorem Stands.round_token (h : progress.Stands ahead) {t : Token S}
    (hnext : next? order sets ahead = some (.token t, rest)) :
    ∃ next, progress.round sets = .next next ∧ next.Stands rest ∧
      next.tokens = progress.tokens ++ [t] ∧ next.cursor.text = progress.cursor.text := by
  obtain ⟨p, m, -, -, hahead, hround⟩ := h.round_eq hnext
  have hopen : (progress.put (.token t)).closed = false := h.opened
  rw [hopen, if_neg Bool.false_ne_true] at hround
  refine ⟨_, hround, ⟨?_, hopen⟩, rfl, rfl⟩
  exact (hahead ▸ h.sees).advance

theorem Stands.round_close (h : progress.Stands ahead)
    (hnext : next? order sets ahead = some (.close, rest)) :
    ∃ final, progress.round sets = .stop (.closed final) ∧ final.cursor.Sees rest ∧
      final.closed = true ∧ final.tokens = progress.tokens ∧
      final.cursor.text = progress.cursor.text := by
  obtain ⟨p, m, -, -, hahead, hround⟩ := h.round_eq hnext
  refine ⟨_, hround, ?_, rfl, rfl, rfl⟩
  exact (hahead ▸ h.sees).advance

/-! ## All the rounds -/

theorem run_of_atEnd (h : progress.cursor.atEnd = true) : progress.run sets = ⟨0, .exhausted⟩ := by
  rw [run, dif_pos h]

theorem run_of_stop {ending : Ending S} (hleft : ¬ progress.cursor.atEnd = true)
    (h : progress.round sets = .stop ending) : progress.run sets = ⟨1, ending⟩ := by
  rw [run, dif_neg hleft]
  split
  · rename_i ending' h'
    rw [h] at h'
    cases h'
    rfl
  · rename_i next h'
    rw [h] at h'
    cases h'

theorem run_of_next {next : Progress S} (hleft : ¬ progress.cursor.atEnd = true)
    (h : progress.round sets = .next next) :
    progress.run sets = ⟨(next.run sets).rounds + 1, (next.run sets).ending⟩ := by
  rw [run, dif_neg hleft]
  split
  · rename_i ending h'
    rw [h] at h'
    cases h'
  · rename_i next' h'
    rw [h] at h'
    cases h'
    rfl

theorem Stands.not_atEnd (h : progress.Stands ahead) {l : Lexeme S}
    (hnext : next? order sets ahead = some (l, rest)) : ¬ progress.cursor.atEnd = true := by
  rw [h.sees.atEnd_iff]
  rintro rfl
  exact absurd (properSuffix_of_next? hnext).length_lt (Nat.not_lt_zero _)

/-- **A body is read in rounds.** There is a round for each token, and one for the bracket. -/
theorem Stands.run_of_readBody {after : List Char} {ts : List (Token S)}
    (h : progress.Stands ahead) (hread : readBodyWith? order sets ahead = some (ts, after)) :
    ∃ final, progress.run sets = ⟨ts.length + 1, .closed final⟩ ∧
      final.tokens = progress.tokens ++ ts ∧ final.cursor.Sees after ∧
      final.cursor.text = progress.cursor.text := by
  induction hread using readBodyWith?_induction generalizing progress with
  | close hstep =>
    obtain ⟨final, hround, hsees, -, htokens, htext⟩ := h.round_close hstep
    refine ⟨final, run_of_stop (h.not_atEnd hstep) hround, ?_, hsees, htext⟩
    rw [htokens, List.append_nil]
  | @token t ts cs rest hstep hread ih =>
    obtain ⟨next, hround, hstands, htokens, htext⟩ := h.round_token hstep
    obtain ⟨final, hrun, hfinal, hsees, hsame⟩ := ih hstands
    refine ⟨final, ?_, ?_, hsees, hsame.trans htext⟩
    · rw [run_of_next (h.not_atEnd hstep) hround, hrun]
      rfl
    · rw [hfinal, htokens, List.append_assoc]
      rfl

/-- **Without a closing bracket the rounds come to the end of the source.** -/
theorem Stands.run_of_readBody_none (h : progress.Stands ahead)
    (hread : readBodyWith? order sets ahead = none) :
    (progress.run sets).rounds ≤ ahead.length ∧ (progress.run sets).ending = .exhausted := by
  induction ahead using readBodyWith?.induct order sets generalizing progress with
  | case1 =>
    rw [run_of_atEnd (h.sees.atEnd_iff.2 rfl)]
    exact ⟨Nat.zero_le _, rfl⟩
  | case2 c cs t rest hstep ih =>
    obtain ⟨next, hround, hstands, -, -⟩ := h.round_token hstep
    rw [readBodyWith?_of_token hstep, Option.map_eq_none_iff] at hread
    obtain ⟨hrounds, hending⟩ := ih hstands hread
    have hshort := (properSuffix_of_next? hstep).length_lt
    rw [run_of_next (h.not_atEnd hstep) hround]
    refine ⟨?_, hending⟩
    show (next.run sets).rounds + 1 ≤ (c :: cs).length
    omega
  | case3 c cs rest hstep =>
    rw [readBodyWith?_of_close hstep] at hread
    cases hread
  | case4 c cs hstep => exact absurd hstep (next?_order_ne_none sets c cs)

/-! ## The rounds that are come to -/

/-- The reading of the source comes to a round that begins with this progress. -/
def Reached (sets : SetProvider S) (source : String) (progress : Progress S) : Prop :=
  Relation.ReflTransGen (fun p next => p.cursor.atEnd = false ∧ p.round sets = .next next)
    (start source) progress

theorem Stands.exists_next (h : progress.Stands ahead) (hleft : progress.cursor.atEnd = false)
    (sets : SetProvider S) : ∃ l rest, next? order sets ahead = some (l, rest) := by
  cases ahead with
  | nil =>
    rw [h.sees.atEnd_iff.2 rfl] at hleft
    cases hleft
  | cons c cs =>
    obtain ⟨⟨l, rest⟩, hnext⟩ := Option.ne_none_iff_exists'.1 (next?_order_ne_none sets c cs)
    exact ⟨l, rest, hnext⟩

theorem Stands.of_round {next : Progress S} (h : progress.Stands ahead)
    (hleft : progress.cursor.atEnd = false) (hround : progress.round sets = .next next) :
    ∃ rest, next.Stands rest := by
  obtain ⟨l, rest, hnext⟩ := h.exists_next hleft sets
  -- only a token lets the rounds go on
  cases l with
  | token t =>
    obtain ⟨next', hround', hstands, -, -⟩ := h.round_token hnext
    rw [hround, Round.next.injEq] at hround'
    exact ⟨rest, hround' ▸ hstands⟩
  | close =>
    obtain ⟨final, hround', -⟩ := h.round_close hnext
    rw [hround] at hround'
    cases hround'

/-- **What the rounds keep.** The cursor is on the source and between two characters of it, and the
class is open. -/
theorem stands_of_reached {source : String} (h : Reached sets source progress) :
    progress.cursor.text = source ∧ ∃ ahead, progress.Stands ahead := by
  induction h with
  | refl => exact ⟨rfl, source.toList, .start source⟩
  | tail _ hround ih =>
    obtain ⟨htext, ahead, hstands⟩ := ih
    exact ⟨(lt_offset_of_round_next hround.2).1.trans htext, hstands.of_round hround.1 hround.2⟩

/-- What is said of a round: the cursor stands at a boundary between characters of the source, so
that the source can be cut there; a production matches what is ahead, and its match gives a lexeme;
and the round either closes the class and puts nothing down, or puts one token down and goes on, the
cursor having moved on by at least a byte and not past the end. -/
structure SoundRound (sets : SetProvider S) (source : String) (progress : Progress S) : Prop where
  boundary : (⟨progress.cursor.offset⟩ : String.Pos.Raw).IsValid source
  within : progress.cursor.offset ≤ source.utf8ByteSize
  matched : ∃ (ahead : String) (p : Production) (m : Match) (l : Lexeme S),
    progress.cursor.rest? = some ahead ∧ firstMatch? order ahead.toList = some (p, m) ∧
      p.yield sets m = .lexeme l
  moved : ∃ next : Progress S,
    progress.cursor.offset < next.cursor.offset ∧ next.cursor.offset ≤ source.utf8ByteSize ∧
      ((progress.round sets = .stop (.closed next) ∧ next.closed = true ∧
          next.tokens = progress.tokens) ∨
        (progress.round sets = .next next ∧ next.closed = false ∧
          ∃ t, next.tokens = progress.tokens ++ [t]))

theorem Stands.offset_lt {next : Progress S} (h : progress.Stands ahead)
    (hsees : next.cursor.Sees rest) (htext : next.cursor.text = progress.cursor.text)
    (htaken : ProperSuffix rest ahead) : progress.cursor.offset < next.cursor.offset := by
  have hbefore := h.sees.offset_add
  have hafter := hsees.offset_add
  obtain ⟨taken, rfl⟩ := htaken.exists_append
  have hlength := htaken.length_lt
  have hbytes := length_le_byteLength taken
  rw [htext] at hafter
  rw [List.length_append] at hlength
  rw [byteLength_append] at hbefore
  omega

theorem soundRound_of_reached {source : String} (h : Reached sets source progress)
    (hleft : progress.cursor.atEnd = false) : SoundRound sets source progress := by
  obtain ⟨rfl, ahead, hstands⟩ := stands_of_reached h
  obtain ⟨l, rest, hnext⟩ := hstands.exists_next hleft sets
  obtain ⟨p, m, hmatch, hyield, -, -⟩ := hstands.round_eq hnext
  have hbytes := hstands.sees.offset_add
  refine ⟨hstands.sees.isValid, by omega, ?_, ?_⟩
  · refine ⟨String.ofList ahead, p, m, l, hstands.sees.rest?, ?_, hyield⟩
    rw [String.toList_ofList]
    exact hmatch
  · have htaken := properSuffix_of_next? hnext
    cases l with
    | token t =>
      obtain ⟨next, hround, hthere, htokens, htext⟩ := hstands.round_token hnext
      have hmoved := hthere.sees.offset_add
      rw [htext] at hmoved
      exact ⟨next, hstands.offset_lt hthere.sees htext htaken, by omega,
        .inr ⟨hround, hthere.opened, t, htokens⟩⟩
    | close =>
      obtain ⟨final, hround, hthere, hclosed, htokens, htext⟩ := hstands.round_close hnext
      have hmoved := hthere.offset_add
      rw [htext] at hmoved
      exact ⟨final, hstands.offset_lt hthere htext htaken, by omega,
        .inl ⟨hround, hclosed, htokens⟩⟩

end Progress

open Progress

theorem outcome?_run_start (sets : SetProvider S) (source pattern : String) :
    ((start source).run sets).ending.outcome? source pattern = some (read sets source pattern) := by
  cases hread : readBodyWith? order sets source.toList with
  | none =>
    have herror : read sets source pattern = .error (.unterminated source.toList pattern) :=
      readWith_eq_error_iff.2 ⟨hread, rfl⟩
    rw [((Stands.start source).run_of_readBody_none hread).2, herror]
    rfl
  | some found =>
    obtain ⟨ts, after⟩ := found
    obtain ⟨final, hrun, htokens, ⟨body, hsplit, hoffset⟩, htext⟩ :=
      (Stands.start source).run_of_readBody hread
    have hclass : read sets source pattern = .ok ⟨final.tokens, final.cursor.offset⟩ := by
      refine readWith_eq_ok_iff.2 ⟨body, after, ?_, hoffset, ?_⟩
      · rw [← hsplit, htext]
        rfl
      · rw [hread, htokens]
        rfl
    rw [hrun, hclass]
    rfl

theorem rounds_run_start (sets : SetProvider S) (source : String) :
    ((start source).run sets).rounds ≤ source.toList.length := by
  cases hread : readBodyWith? order sets source.toList with
  | none => exact ((Stands.start source).run_of_readBody_none hread).1
  | some found =>
    obtain ⟨ts, after⟩ := found
    obtain ⟨final, hrun, -⟩ := (Stands.start source).run_of_readBody hread
    rw [hrun]
    exact length_lt_of_readBodyWith? hread

theorem rounds_of_read_ok {source pattern : String} {cls : CharClass S}
    (h : read sets source pattern = .ok cls) :
    ((start source).run sets).rounds = cls.tokens.length + 1 := by
  obtain ⟨body, after, -, -, hread⟩ := readWith_eq_ok_iff.1 h
  obtain ⟨final, hrun, -⟩ := (Stands.start source).run_of_readBody hread
  rw [hrun]

/-- **Every round is sound.** For every provider and source, in each round that the reading comes to
the cursor stands at a boundary between characters, a production matches, its match gives a lexeme,
and the cursor moves on within the source; the round puts one token down or closes the class. So the
rounds come to an end, after no more of them than the source has characters. They give the class or
the error that is read for the source, and a class has one token less than there were rounds. -/
theorem rounds_invariant (sets : SetProvider S) (source : String) :
    (∀ progress : Progress S, Reached sets source progress → progress.cursor.atEnd = false →
      SoundRound sets source progress) ∧
    ((start source).run sets).rounds ≤ source.length ∧
    ∀ pattern,
      ((start source).run sets).ending.outcome? source pattern = some (read sets source pattern) ∧
      ∀ cls, read sets source pattern = .ok cls →
        ((start source).run sets).rounds = cls.tokens.length + 1 := by
  refine ⟨fun progress => soundRound_of_reached, ?_, fun pattern => ⟨?_, fun cls => ?_⟩⟩
  · rw [← String.length_toList]
    exact rounds_run_start sets source
  · exact outcome?_run_start sets source pattern
  · exact rounds_of_read_ok

/-- Behind a range of two-byte characters, a shorthand and the closing bracket still to come. -/
theorem rounds_invariant_multibyte :
    let source := "é-ü\\w]x"
    let progress : Progress Shorthand := ⟨[.range 'é' 'ü'], ⟨source, 5⟩, false⟩
    Reached .symbolic source progress ∧ progress.cursor.atEnd = false ∧
      SoundRound .symbolic source progress ∧
      read .symbolic source "" = .ok ⟨[.range 'é' 'ü', .set .word], 8⟩ ∧
      ((start source).run .symbolic).rounds = 3 := by
  have hreached : Reached .symbolic "é-ü\\w]x" ⟨[.range 'é' 'ü'], ⟨"é-ü\\w]x", 5⟩, false⟩ :=
    Relation.ReflTransGen.single ⟨by decide +kernel, by decide +kernel⟩
  have hread : read .symbolic "é-ü\\w]x" "" = .ok ⟨[.range 'é' 'ü', .set .word], 8⟩ := by
    decide +kernel
  have hinvariant := rounds_invariant .symbolic "é-ü\\w]x"
  exact ⟨hreached, by decide +kernel, hinvariant.1 _ hreached (by decide +kernel), hread,
    (hinvariant.2.2 "").2 _ hread⟩

end CharClass

end PatternLex
