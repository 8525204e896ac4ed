/-!
# Templates

A template says what a short piece of text looks like: a character of some kind, one template behind
another, one of two, one that may be missing, and numbered groups. A text is matched at its
beginning. There can be several ways to do it. They are listed in the order of preference, the left
one of two before the right one and a part that may be missing before its absence, and the first way
counts.

A group that lies in a part that is not taken has no text, and so whoever asks a match for a group
by its number must be ready to get nothing.

Results:

* `taken_append_rest`: a match takes a first part of the text and leaves the rest;
* `taken_ne_nil`: a template that consumes takes at least one character;
* `match?_seq`: what comes second is tried behind every way to match what comes first.
-/

namespace PatternLex.Text

/-- What is taken off the front of a text, the texts of the groups in it, and what is left. -/
structure Match where
  taken : List Char
  groups : List (Nat × List Char)
  rest : List Char
  deriving DecidableEq, Repr

namespace Match

/-- The text of a group, if the group has a part in the match. -/
def group? (m : Match) (index : Nat) : Option (List Char) := m.groups.lookup index

/-- The first character of a group. -/
def groupChar? (m : Match) (index : Nat) : Option Char := (m.group? index).bind List.head?

/-- Two matches as one, the second having been made in the rest of the first. -/
def andThen (m later : Match) : Match :=
  ⟨m.taken ++ later.taken, m.groups ++ later.groups, later.rest⟩

/-- The match with all that it takes as a group. -/
def asGroup (index : Nat) (m : Match) : Match :=
  { m with groups := (index, m.taken) :: m.groups }

@[simp] theorem asGroup_taken (index : Nat) (m : Match) : (m.asGroup index).taken = m.taken := rfl

@[simp] theorem asGroup_rest (index : Nat) (m : Match) : (m.asGroup index).rest = m.rest := rfl

end Match

/-- A piece of text, by what it looks like. -/
inductive Template where
  | one (accepts : Char → Bool)
  | seq (first second : Template)
  | alt (preferred other : Template)
  | opt (inner : Template)
  | group (index : Nat) (inner : Template)

namespace Template

/-- All the ways to match at the beginning of a text, in the order of preference. -/
def ways : Template → List Char → List Match
  | one _, [] => []
  | one accepts, c :: cs => if accepts c then [⟨[c], [], cs⟩] else []
  | seq first second, cs => (first.ways cs).flatMap fun m => (second.ways m.rest).map m.andThen
  | alt preferred other, cs => preferred.ways cs ++ other.ways cs
  | opt inner, cs => inner.ways cs ++ [⟨[], [], cs⟩]
  | group index inner, cs => (inner.ways cs).map (Match.asGroup index)

/-- The way that counts. -/
def match? (t : Template) (cs : List Char) : Option Match := (t.ways cs).head?

/-- The template has no way to match that takes nothing. -/
def consumes : Template → Bool
  | one _ => true
  | seq first second => first.consumes || second.consumes
  | alt preferred other => preferred.consumes && other.consumes
  | opt _ => false
  | group _ inner => inner.consumes

/-- This character. -/
def just (c : Char) : Template := one (· = c)

variable {t : Template} {cs : List Char} {m : Match}

/-! ## What is taken -/

theorem taken_append_rest_of_mem_ways (h : m ∈ t.ways cs) : m.taken ++ m.rest = cs := by
  induction t generalizing cs m with
  | one accepts =>
    cases cs with
    | nil => cases h
    | cons c cs =>
      rw [ways] at h
      split at h
      · rw [List.mem_singleton] at h
        subst h
        rfl
      · cases h
  | seq first second ihFirst ihSecond =>
    simp only [ways, List.mem_flatMap, List.mem_map] at h
    obtain ⟨front, hfront, back, hback, rfl⟩ := h
    rw [← ihFirst hfront, ← ihSecond hback]
    exact List.append_assoc _ _ _
  | alt preferred other ihPreferred ihOther =>
    rcases List.mem_append.1 h with hpreferred | hother
    · exact ihPreferred hpreferred
    · exact ihOther hother
  | opt inner ih =>
    rcases List.mem_append.1 h with hthere | hmissing
    · exact ih hthere
    · rw [List.mem_singleton] at hmissing
      subst hmissing
      rfl
  | group index inner ih =>
    obtain ⟨found, hfound, rfl⟩ := List.mem_map.1 h
    rw [Match.asGroup_taken, Match.asGroup_rest]
    exact ih hfound

theorem taken_append_rest (h : t.match? cs = some m) : m.taken ++ m.rest = cs :=
  taken_append_rest_of_mem_ways (List.mem_of_head? h)

theorem taken_ne_nil_of_mem_ways (hconsumes : t.consumes = true) (h : m ∈ t.ways cs) :
    m.taken ≠ [] := by
  induction t generalizing cs m with
  | one accepts =>
    cases cs with
    | nil => cases h
    | cons c cs =>
      rw [ways] at h
      split at h
      · rw [List.mem_singleton] at h
        subst h
        exact List.cons_ne_nil c []
      · cases h
  | seq first second ihFirst ihSecond =>
    simp only [ways, List.mem_flatMap, List.mem_map] at h
    obtain ⟨front, hfront, back, hback, rfl⟩ := h
    rw [consumes, Bool.or_eq_true] at hconsumes
    rcases hconsumes with hfirst | hsecond
    · exact List.append_ne_nil_of_left_ne_nil (ihFirst hfirst hfront) _
    · exact List.append_ne_nil_of_right_ne_nil _ (ihSecond hsecond hback)
  | alt preferred other ihPreferred ihOther =>
    rw [consumes, Bool.and_eq_true] at hconsumes
    rcases List.mem_append.1 h with hpreferred | hother
    · exact ihPreferred hconsumes.1 hpreferred
    · exact ihOther hconsumes.2 hother
  | opt inner ih => cases hconsumes
  | group index inner ih =>
    obtain ⟨found, hfound, rfl⟩ := List.mem_map.1 h
    rw [Match.asGroup_taken]
    exact ih hconsumes hfound

theorem taken_ne_nil (hconsumes : t.consumes = true) (h : t.match? cs = some m) : m.taken ≠ [] :=
  taken_ne_nil_of_mem_ways hconsumes (List.mem_of_head? h)

/-! ## Part by part -/

/-- What comes second is tried behind every way to match what comes first. -/
theorem match?_seq (first second : Template) (cs : List Char) :
    (seq first second).match? cs =
      (first.ways cs).findSome? fun m => (second.match? m.rest).map m.andThen := by
  simp only [match?, ways, List.head?_flatMap, List.head?_map]

/-- Where what comes first can be matched in one way only, there is no going back. -/
theorem match?_seq_of_ways {first : Template} (h : first.ways cs = [m]) (second : Template) :
    (seq first second).match? cs = (second.match? m.rest).map m.andThen := by
  rw [match?_seq, h, List.findSome?_singleton]

theorem match?_seq_of_ways_nil {first : Template} (h : first.ways cs = []) (second : Template) :
    (seq first second).match? cs = none := by
  rw [match?_seq, h, List.findSome?_nil]

theorem match?_opt_seq (inner second : Template) (cs : List Char) :
    (seq (opt inner) second).match? cs = ((seq inner second).match? cs).or (second.match? cs) := by
  have hmissing : Match.andThen ⟨[], [], cs⟩ = id := rfl
  rw [match?_seq, ways, List.findSome?_append, List.findSome?_singleton, hmissing, Option.map_id,
    match?_seq, id]

theorem ways_just (c : Char) (cs : List Char) : (just c).ways (c :: cs) = [⟨[c], [], cs⟩] := by
  rw [just, ways, if_pos (decide_eq_true rfl)]

theorem ways_just_of_ne {c : Char} (h : ∀ rest, cs ≠ c :: rest) : (just c).ways cs = [] := by
  cases cs with
  | nil => rfl
  | cons d cs =>
    have hd : d ≠ c := fun heq => h cs (by rw [heq])
    rw [just, ways, if_neg (by simpa using hd)]

theorem match?_group_one (index : Nat) (accepts : Char → Bool) (c : Char) (cs : List Char) :
    (group index (one accepts)).match? (c :: cs) =
      if accepts c then some ⟨[c], [(index, [c])], cs⟩ else none := by
  rw [match?, ways, ways]
  split <;> rfl

end Template

end PatternLex.Text
