import PatternLex.CharClass.Progress
import PatternLex.Proofs.ReaderSpec

/-!
# What the templates match

The template of a production and its reader say the same thing in two ways. The reader takes the
characters apart itself; the template only says what they look like, and leaves it to the groups of
the match which character is which. The two agree: a template matches where the reader reads and
leaves the same rest, the groups that are asked for always have a part in the match, a range having
its lower bound in one of two groups, and every letter that is matched is in the table of the
shorthands. So each match gives the lexeme that the reader reads.

Results:

* `match?_escapable`: a character that may come after a backslash;
* `matchYield?_shorthand`, `matchYield?_range`, `matchYield?_terminator`, `matchYield?_literal`: one
  production each;
* `matchYield?_eq`, `firstMatch?_of_next?`: any production, and the first that fits.
-/

namespace PatternLex

open Text

variable {S : Type} {sets : SetProvider S}

namespace Production

/-! ## The templates and the readers -/

/-- A character of some kind, with a backslash before it if that is possible. -/
def readEscapable? (accepts : Char → Bool) : List Char → Option (Char × List Char)
  | '\\' :: c :: rest =>
    if accepts c then some (c, rest)
    else if accepts '\\' then some ('\\', c :: rest) else none
  | c :: rest => if accepts c then some (c, rest) else none
  | [] => none

theorem readLast?_eq_readEscapable? (cs : List Char) :
    readLast? cs = readEscapable? (· ≠ ']') cs := by
  unfold readLast? readEscapable?
  split <;> simp

theorem readLiteral?_eq_readEscapable? (cs : List Char) :
    (readLiteral? cs : Option (Token S × List Char)) =
      (readEscapable? (fun _ => true) cs).map fun (c, rest) => (.char c, rest) := by
  unfold readLiteral? readEscapable?
  split <;> simp

theorem match?_escaped_of_bare {c : Char} {rest : List Char} {index : Nat} {accepts : Char → Bool}
    (h : ∀ d after, c = '\\' → rest = d :: after → False) :
    (Template.seq (.just '\\') (.group index (.one accepts))).match? (c :: rest) = none := by
  by_cases hc : c = '\\'
  · subst hc
    cases rest with
    | nil => rw [Template.match?_seq_of_ways (Template.ways_just _ _)]; rfl
    | cons d after => exact (h d after rfl rfl).elim
  · refine Template.match?_seq_of_ways_nil (Template.ways_just_of_ne fun after heq => ?_) _
    exact hc (List.cons.inj heq).1

theorem match?_escapable (index : Nat) (accepts : Char → Bool) (cs : List Char) :
    ((escapable index accepts).match? cs).map (fun m => (m.groups, m.rest)) =
      (readEscapable? accepts cs).map fun (c, rest) => ([(index, [c])], rest) := by
  rw [escapable, Template.match?_opt_seq]
  fun_cases readEscapable? accepts cs with
  | case1 c rest hc =>
    rw [Template.match?_seq_of_ways (Template.ways_just _ _), Template.match?_group_one, if_pos hc]
    rfl
  | case2 c rest hc hb =>
    rw [Template.match?_seq_of_ways (Template.ways_just _ _), Template.match?_group_one, if_neg hc,
      Template.match?_group_one, if_pos hb]
    rfl
  | case3 c rest hc hb =>
    rw [Template.match?_seq_of_ways (Template.ways_just _ _), Template.match?_group_one, if_neg hc,
      Template.match?_group_one, if_neg hb]
    rfl
  | case4 c rest hcs hc =>
    rw [match?_escaped_of_bare hcs, Template.match?_group_one, if_pos hc]
    rfl
  | case5 c rest hcs hc =>
    rw [match?_escaped_of_bare hcs, Template.match?_group_one, if_neg hc]
    rfl
  | case6 => rfl

theorem match?_escapable_of_some (index : Nat) {accepts : Char → Bool} {cs rest : List Char}
    {c : Char} (h : readEscapable? accepts cs = some (c, rest)) :
    ∃ m, (escapable index accepts).match? cs = some m ∧ m.groups = [(index, [c])] ∧
      m.rest = rest := by
  have hmatch := match?_escapable index accepts cs
  rw [h, Option.map_some, Option.map_eq_some_iff] at hmatch
  obtain ⟨m, hm, heq⟩ := hmatch
  exact ⟨m, hm, (Prod.mk.inj heq).1, (Prod.mk.inj heq).2⟩

theorem match?_escapable_of_none {index : Nat} {accepts : Char → Bool} {cs : List Char}
    (h : readEscapable? accepts cs = none) : (escapable index accepts).match? cs = none := by
  have hmatch := match?_escapable index accepts cs
  rwa [h, Option.map_none, Option.map_eq_none_iff] at hmatch

theorem ways_lowerBound_of_some {cs rest : List Char} {c : Char}
    (h : readFirst? cs = some (c, rest)) :
    ∃ m, lowerBound.ways cs = [m] ∧ m.rest = rest ∧
      (m.groups = [(1, [c])] ∨ m.groups = [(2, [c])]) := by
  rcases readFirst?_eq_some_iff.1 h with ⟨rfl, hc⟩ | ⟨rfl, hc⟩
  · refine ⟨⟨['\\', c], [(1, [c])], rest⟩, ?_, rfl, .inl rfl⟩
    simp [lowerBound, Template.ways, Template.just, hc, Match.andThen, Match.asGroup]
  · refine ⟨⟨[c], [(2, [c])], rest⟩, ?_, rfl, .inr rfl⟩
    simp [lowerBound, Template.ways, Template.just, hc, Match.asGroup]

example : (lowerBound.ways ['\\', 'é']).map (·.groups) = [[(1, ['é'])]] ∧
    (lowerBound.ways ['é', '-']).map (·.groups) = [[(2, ['é'])]] := by decide

theorem ways_lowerBound_of_none {cs : List Char} (h : readFirst? cs = none) :
    lowerBound.ways cs = [] := by
  revert h
  fun_cases readFirst? cs with
  | case1 c rest hc =>
    intro _
    simp [lowerBound, Template.ways, Template.just, hc]
  | case2 c rest hc => intro h; cases h
  | case3 c rest hcs hc =>
    intro _
    rcases hc with rfl | rfl
    · simp [lowerBound, Template.ways, Template.just]
    · -- a backslash that escapes nothing is the last character
      cases rest with
      | nil => rfl
      | cons d rest => exact (hcs d rest rfl rfl).elim
  | case4 c rest hcs hc => intro h; cases h
  | case5 => intro _; rfl

/-! ## The lexeme of a match -/

/-- What a production makes of the text, by way of its template. -/
def matchYield? (sets : SetProvider S) (p : Production) (cs : List Char) :
    Option (Yield S × List Char) :=
  (p.template.match? cs).map fun m => (p.yield sets m, m.rest)

/-- Only a letter without an entry in the table would be passed over. -/
theorem matchYield?_shorthand (sets : SetProvider S) (cs : List Char) :
    matchYield? sets shorthand cs =
      (matchShorthand? sets cs).map fun (t?, rest) =>
        (t?.elim .nothing fun t => .lexeme (.token t), rest) := by
  rw [matchYield?, template]
  fun_cases matchShorthand? sets cs with
  | case1 c rest hc =>
    rw [Template.match?_seq_of_ways (Template.ways_just _ _), Template.match?_group_one,
      if_pos (decide_eq_true hc)]
    show some (yield sets shorthand ⟨['\\', c], [(1, [c])], rest⟩, rest) = _
    simp only [yield, Match.group?, List.lookup_cons_self]
    cases Shorthand.table.lookup (String.ofList [c]) <;> rfl
  | case2 c rest hc =>
    rw [Template.match?_seq_of_ways (Template.ways_just _ _), Template.match?_group_one,
      if_neg (by simpa using hc)]
    rfl
  | case3 cs hcs =>
    cases cs with
    | nil => rfl
    | cons c rest =>
      rw [match?_escaped_of_bare fun d after hc hrest => hcs d after (by rw [hc, hrest])]
      rfl

theorem yield_range {front dash back : Match} {first last : Char}
    (hfront : front.groups = [(1, [first])] ∨ front.groups = [(2, [first])])
    (hdash : dash.groups = []) (hback : back.groups = [(3, [last])]) :
    range.yield sets (front.andThen (dash.andThen back)) =
      .lexeme (.token (.range first last)) := by
  have hgroups : (front.andThen (dash.andThen back)).groups = front.groups ++ [(3, [last])] := by
    rw [← hback, Match.andThen, Match.andThen, hdash]
    rfl
  rcases hfront with hfront | hfront <;>
    simp [yield, Match.groupChar?, Match.group?, hgroups, hfront, List.lookup_cons]

theorem matchYield?_range (sets : SetProvider S) (cs : List Char) :
    matchYield? sets range cs =
      (readRange? cs).map fun (t, rest) => (.lexeme (.token t), rest) := by
  rw [matchYield?, template, readRange?]
  cases hfirst : readFirst? cs with
  | none =>
    rw [Template.match?_seq_of_ways_nil (ways_lowerBound_of_none hfirst)]
    rfl
  | some found =>
    obtain ⟨first, mid⟩ := found
    obtain ⟨front, hfront, hmid, hgroup⟩ := ways_lowerBound_of_some hfirst
    -- there is no second way to match the lower bound, so nothing is tried again
    rw [Template.match?_seq_of_ways hfront, hmid]
    split
    · rename_i after heq
      cases heq
      rw [Template.match?_seq_of_ways (Template.ways_just _ _), readLast?_eq_readEscapable?]
      cases hlast : readEscapable? (· ≠ ']') after with
      | none =>
        rw [match?_escapable_of_none hlast]
        rfl
      | some found =>
        obtain ⟨last, rest⟩ := found
        obtain ⟨back, hback, hgroups, hrest⟩ := match?_escapable_of_some 3 hlast
        have hyield : range.yield sets (front.andThen (Match.andThen ⟨['-'], [], after⟩ back)) =
            .lexeme (.token (.range first last)) := yield_range hgroup rfl hgroups
        simp only [hback, Option.map_some, hyield]
        rw [← hrest]
        rfl
    · rename_i hdash
      rw [Template.match?_seq_of_ways_nil (Template.ways_just_of_ne fun after heq => ?_)]
      · rfl
      · exact hdash first after (by rw [heq])

theorem matchYield?_terminator (sets : SetProvider S) (cs : List Char) :
    matchYield? sets terminator cs =
      (readTerminator? cs).map fun rest => (.lexeme .close, rest) := by
  rw [matchYield?, template, Template.match?]
  fun_cases readTerminator? cs with
  | case1 rest => rfl
  | case2 cs hcs =>
    rw [Template.ways_just_of_ne hcs]
    rfl

theorem matchYield?_literal (sets : SetProvider S) (cs : List Char) :
    matchYield? sets literal cs =
      (readLiteral? cs).map fun (t, rest) => (.lexeme (.token t), rest) := by
  rw [matchYield?, template, readLiteral?_eq_readEscapable?]
  cases hread : readEscapable? (fun _ => true) cs with
  | none =>
    rw [match?_escapable_of_none hread]
    rfl
  | some found =>
    obtain ⟨c, rest⟩ := found
    obtain ⟨m, hm, hgroups, hrest⟩ := match?_escapable_of_some 1 hread
    simp only [hm, Option.map_some, yield, Match.groupChar?, Match.group?, hgroups,
      List.lookup_cons_self, hrest]
    rfl

/-- **The groups are there.** A template matches what the production reads, and the groups of the
match, with the table of the shorthands, give the lexeme. -/
theorem matchYield?_eq (sets : SetProvider S) (p : Production) (cs : List Char) :
    matchYield? sets p cs = (p.read? sets cs).map fun (l, rest) => (.lexeme l, rest) := by
  cases p with
  | shorthand =>
    rw [matchYield?_shorthand, matchShorthand?_eq, read?, Option.map_map, Option.map_map]
    rfl
  | range =>
    rw [matchYield?_range, read?, Option.map_map]
    rfl
  | terminator =>
    rw [matchYield?_terminator, read?, Option.map_map]
    rfl
  | literal =>
    rw [matchYield?_literal, read?, Option.map_map]
    rfl

theorem firstMatch?_yield (order : List Production) (sets : SetProvider S) (cs : List Char) :
    (firstMatch? order cs).map (fun (p, m) => (p.yield sets m, m.rest)) =
      (next? order sets cs).map fun (l, rest) => (.lexeme l, rest) := by
  have hsame : (fun p : Production => matchYield? sets p cs) =
      fun p => (p.read? sets cs).map fun (l, rest) => (Yield.lexeme l, rest) :=
    funext fun p => matchYield?_eq sets p cs
  rw [firstMatch?, next?, List.map_findSome?, List.map_findSome?]
  simp only [Function.comp_def, ← hsame, matchYield?, Option.map_map]

theorem firstMatch?_of_next? {order : List Production} {cs rest : List Char} {l : Lexeme S}
    (h : next? order sets cs = some (l, rest)) :
    ∃ p m, firstMatch? order cs = some (p, m) ∧ p.yield sets m = .lexeme l ∧ m.rest = rest := by
  have hyield := firstMatch?_yield order sets cs
  rw [h, Option.map_some, Option.map_eq_some_iff] at hyield
  obtain ⟨⟨p, m⟩, hmatch, heq⟩ := hyield
  exact ⟨p, m, hmatch, (Prod.mk.inj heq).1, (Prod.mk.inj heq).2⟩

end Production

end PatternLex
