import Mathlib.Data.List.Basic
import PatternLex.Proofs.ProviderTransport

/-!
# Which part of the order of the productions matters

At each place the first production that fits is taken, so the order decides wherever two of them fit
at one place. A literal fits at every place where something is left, and a shorthand with a dash and
a character behind it could be the beginning of a range. No other two fit together: the terminator
fits only at a closing bracket, and neither a shorthand nor a range begins with one. So an order
need only have shorthands before ranges and literals at its end, and it has to have that much.

Results:

* `next?_eq_some_iff`: a step takes the earliest of the productions that fit;
* `next?_eq_of_agree`: a step is the same in two orders that agree on what overlaps;
* `readBodyWith?_congr`: equal steps make equal readings;
* `agree_order`: the orders that agree with the order of the productions;
* `idxOf_le_of_readWith`: what the result of a reading tells of the order;
* `readWith_eq_read_iff`: the orders that read every class alike.
-/

namespace PatternLex

variable {S : Type}

namespace Production

variable {order order' : List Production} {sets : SetProvider S} {p q : Production}
  {cs rest : List Char} {l : Lexeme S}

/-! ## Where productions fit -/

/-- The production can be read at the beginning of the text. -/
def Fits (p : Production) (cs : List Char) : Prop := (p.read? .symbolic cs).isSome

instance : Decidable (p.Fits cs) := inferInstanceAs (Decidable (_ = true))

/-- Whether a production fits is not a question about the provider. -/
theorem isSome_read?_iff (sets : SetProvider S) : (p.read? sets cs).isSome ↔ p.Fits cs := by
  rw [Fits, ← SetProvider.map_provide_symbolic sets, read?_map, Option.isSome_map]

theorem fits_of_read? (h : p.read? sets cs = some (l, rest)) : p.Fits cs := by
  rw [← isSome_read?_iff sets, h]
  rfl

theorem fits_terminator_iff : terminator.Fits cs ↔ cs.head? = some ']' := by
  simp [Fits, read?, Option.isSome_iff_exists, readTerminator?_eq_some_iff,
    List.head?_eq_some_iff]

theorem head?_of_fits_shorthand (h : shorthand.Fits cs) : cs.head? = some '\\' := by
  obtain ⟨⟨t, rest⟩, hread⟩ := Option.isSome_iff_exists.1 (Option.isSome_map.symm.trans h)
  obtain ⟨s, rfl, -⟩ := readShorthand?_eq_some_iff.1 hread
  rfl

theorem head?_of_fits_range (h : range.Fits cs) : cs.head? ≠ some ']' := by
  obtain ⟨⟨t, rest⟩, hread⟩ := Option.isSome_iff_exists.1 (Option.isSome_map.symm.trans h)
  obtain ⟨first, mid, last, hfirst, -, -⟩ := readRange?_eq_some_iff.1 hread
  rcases readFirst?_eq_some_iff.1 hfirst with ⟨rfl, -⟩ | ⟨rfl, hbracket, -⟩
  · simp
  · simpa using hbracket

/-- Two productions that can both be read at the beginning of one text. -/
def Overlap (p q : Production) : Prop := ∃ cs, p.Fits cs ∧ q.Fits cs

theorem Overlap.symm (h : Overlap p q) : Overlap q p := by
  obtain ⟨cs, hp, hq⟩ := h
  exact ⟨cs, hq, hp⟩

theorem not_overlap_terminator_shorthand : ¬ Overlap terminator shorthand := by
  intro h
  obtain ⟨cs, hclose, hset⟩ := h
  rw [fits_terminator_iff, head?_of_fits_shorthand hset] at hclose
  exact absurd hclose (by decide)

theorem not_overlap_terminator_range : ¬ Overlap terminator range := by
  intro h
  obtain ⟨cs, hclose, hrange⟩ := h
  exact head?_of_fits_range hrange (fits_terminator_iff.1 hclose)

/-! ## One step -/

theorem next?_eq_some_iff : next? order sets cs = some (l, rest) ↔
    ∃ p ∈ order, p.read? sets cs = some (l, rest) ∧
      ∀ q ∈ order, q.Fits cs → order.idxOf p ≤ order.idxOf q := by
  rw [next?]
  constructor
  · intro h
    obtain ⟨before, p, after, rfl, hread, hbefore⟩ := List.findSome?_eq_some_iff.1 h
    have hapart : ∀ q, q.Fits cs → q ∉ before := by
      intro q hfits hmem
      rw [← isSome_read?_iff sets, hbefore q hmem] at hfits
      cases hfits
    refine ⟨p, by simp, hread, fun q _ hfits => ?_⟩
    rw [List.idxOf_append, List.idxOf_append, if_neg (hapart p (fits_of_read? hread)),
      if_neg (hapart q hfits), List.idxOf_cons_self]
    omega
  · intro h
    obtain ⟨p, hmem, hread, hleast⟩ := h
    obtain ⟨before, after, rfl, hp⟩ := List.eq_append_cons_of_mem hmem
    refine List.findSome?_eq_some_iff.2 ⟨before, p, after, rfl, hread, fun q hq => ?_⟩
    rw [← Option.not_isSome_iff_eq_none, isSome_read?_iff]
    intro hfits
    -- a production that fits stands behind the one that is taken
    have hle := hleast q (List.mem_append_left _ hq) hfits
    have hlt := List.idxOf_lt_length_of_mem hq
    rw [List.idxOf_append, List.idxOf_append, if_neg hp, if_pos hq, List.idxOf_cons_self] at hle
    omega

/-- Two orders of the same productions, in which those that overlap come in the same order. -/
structure Agree (order order' : List Production) : Prop where
  mem_iff : ∀ p, p ∈ order ↔ p ∈ order'
  idxOf_le : ∀ p q, Overlap p q → order.idxOf p ≤ order.idxOf q → order'.idxOf p ≤ order'.idxOf q

theorem Agree.next?_eq_some (hagree : Agree order order')
    (h : next? order sets cs = some (l, rest)) : next? order' sets cs = some (l, rest) := by
  rw [next?_eq_some_iff] at h ⊢
  obtain ⟨p, hmem, hread, hleast⟩ := h
  refine ⟨p, (hagree.mem_iff p).1 hmem, hread, fun q hq hfits => ?_⟩
  exact hagree.idxOf_le p q ⟨cs, fits_of_read? hread, hfits⟩
    (hleast q ((hagree.mem_iff q).2 hq) hfits)

/-- **One step.** It takes the same in two orders that agree on what overlaps. -/
theorem next?_eq_of_agree (hagree : Agree order order') (sets : SetProvider S) (cs : List Char) :
    next? order sets cs = next? order' sets cs := by
  cases h : next? order sets cs with
  | some found => exact (hagree.next?_eq_some h).symm
  | none =>
    rw [next?, List.findSome?_eq_none_iff] at h
    symm
    rw [next?, List.findSome?_eq_none_iff]
    exact fun p hp => h p ((hagree.mem_iff p).2 hp)

/-! ## The orders that agree -/

theorem idxOf_le_of_getLast? (hnodup : order.Nodup) (hlast : order.getLast? = some q)
    (hp : p ∈ order) : order.idxOf p ≤ order.idxOf q := by
  obtain ⟨before, rfl⟩ := List.getLast?_eq_some_iff.1 hlast
  have hq : q ∉ before := by
    rw [List.nodup_append] at hnodup
    exact fun hmem => hnodup.2.2 q hmem q List.mem_cons_self rfl
  have hlt := List.idxOf_lt_length_of_mem hp
  rw [List.length_append, List.length_singleton] at hlt
  rw [List.idxOf_append (a := q), if_neg hq, List.idxOf_cons_self]
  omega

/-- **The orders that agree.** Shorthands come before ranges, and literals come last. -/
theorem agree_order (hperm : order.Perm Production.order)
    (hset : order.idxOf shorthand < order.idxOf range) (hlast : order.getLast? = some literal) :
    Agree Production.order order where
  mem_iff p := hperm.symm.mem_iff
  idxOf_le p q hoverlap hle := by
    have hnodup : order.Nodup := hperm.nodup_iff.2 (by decide)
    have hmem : p ∈ order := hperm.mem_iff.2 (by cases p <;> decide)
    cases q with
    | literal => exact idxOf_le_of_getLast? hnodup hlast hmem
    | shorthand =>
      cases p with
      | shorthand => exact Nat.le_refl _
      | terminator => exact absurd hoverlap not_overlap_terminator_shorthand
      | range | literal => exact absurd hle (by decide)
    | range =>
      cases p with
      | shorthand => exact Nat.le_of_lt hset
      | range => exact Nat.le_refl _
      | terminator => exact absurd hoverlap not_overlap_terminator_range
      | literal => exact absurd hle (by decide)
    | terminator =>
      cases p with
      | shorthand => exact absurd hoverlap.symm not_overlap_terminator_shorthand
      | range => exact absurd hoverlap.symm not_overlap_terminator_range
      | terminator => exact Nat.le_refl _
      | literal => exact absurd hle (by decide)

end Production

/-- Each production reads things of a kind of its own. -/
def Lexeme.production : Lexeme S → Production
  | token (.set _) => .shorthand
  | token (.range _ _) => .range
  | close => .terminator
  | token (.char _) => .literal

/-- What is read first in a class with these tokens. -/
def Lexeme.first : List (Token S) → Lexeme S
  | t :: _ => token t
  | [] => close

namespace Production

variable {order : List Production} {sets : SetProvider S} {p q : Production}
  {cs rest : List Char} {l : Lexeme S}

theorem production_of_read? (h : p.read? sets cs = some (l, rest)) : l.production = p := by
  cases p
  all_goals
    obtain ⟨found, hread, heq⟩ := Option.map_eq_some_iff.1 h
    obtain ⟨rfl, rfl⟩ := Prod.mk.inj heq
  · obtain ⟨s, -, ht⟩ := readShorthand?_eq_some_iff.1 hread
    rw [ht]
    rfl
  · obtain ⟨first, mid, last, -, -, ht⟩ := readRange?_eq_some_iff.1 hread
    rw [ht]
    rfl
  · rfl
  · obtain ⟨c, ht, -⟩ := readLiteral?_eq_some_iff.1 hread
    rw [ht]
    rfl

theorem idxOf_le_of_next? (h : next? order sets cs = some (l, rest)) (hq : q ∈ order)
    (hfits : q.Fits cs) : order.idxOf l.production ≤ order.idxOf q := by
  obtain ⟨p, -, hread, hleast⟩ := next?_eq_some_iff.1 h
  rw [production_of_read? hread]
  exact hleast q hq hfits

end Production

namespace CharClass

open Production

variable {order order' : List Production} {sets : SetProvider S}

/-! ## A whole reading -/

theorem readBodyWith?_congr (h : ∀ cs, next? order sets cs = next? order' sets cs)
    (cs : List Char) : readBodyWith? order sets cs = readBodyWith? order' sets cs := by
  fun_induction readBodyWith? order sets cs with
  | case1 => rw [readBodyWith?]
  | case2 c cs t rest hstep ih =>
    rw [h] at hstep
    rw [readBodyWith?_of_token hstep, ih]
  | case3 c cs rest hstep =>
    rw [h] at hstep
    rw [readBodyWith?_of_close hstep]
  | case4 c cs hstep =>
    rw [h] at hstep
    rw [readBodyWith?_eq, hstep]

theorem readWith_eq_of_agree (hagree : Agree order order') (sets : SetProvider S)
    (source pattern : String) :
    readWith order sets source pattern = readWith order' sets source pattern := by
  unfold readWith readFrontWith?
  rw [readBodyWith?_congr (next?_eq_of_agree hagree sets)]

theorem exists_next?_of_readBodyWith? {ts : List (Token S)} {cs after : List Char}
    (h : readBodyWith? order sets cs = some (ts, after)) :
    ∃ rest, next? order sets cs = some (.first ts, rest) := by
  induction h using readBodyWith?_induction with
  | close hstep => exact ⟨_, hstep⟩
  | token hstep _ _ => exact ⟨_, hstep⟩

/-- **What a reading tells of the order.** The production that read the first token, or the closing
bracket if there is no token, comes before all others that fit at the beginning of the source. -/
theorem idxOf_le_of_readWith {source pattern : String} {cls : CharClass S} {q : Production}
    (h : readWith order sets source pattern = .ok cls) (hq : q ∈ order)
    (hfits : q.Fits source.toList) :
    order.idxOf (Lexeme.first cls.tokens).production ≤ order.idxOf q := by
  obtain ⟨body, after, -, -, hread⟩ := readWith_eq_ok_iff.1 h
  obtain ⟨rest, hstep⟩ := exists_next?_of_readBodyWith? hread
  exact idxOf_le_of_next? hstep hq hfits

/-- An order that reads all as the order of the productions does has shorthands before ranges, and
literals at its end. Three sources are enough to tell. -/
theorem order_of_readWith_eq_read (hperm : order.Perm Production.order)
    (h : ∀ source pattern,
      readWith order .symbolic source pattern = read .symbolic source pattern) :
    order.idxOf .shorthand < order.idxOf .range ∧ order.getLast? = some .literal := by
  have hmem : ∀ p, p ∈ order := fun p => hperm.mem_iff.2 (by cases p <;> decide)
  have hset : order.idxOf .shorthand ≤ order.idxOf .range := by
    have hread : read .symbolic "\\w-z]" "" = .ok ⟨[.set .word, .char '-', .char 'z'], 5⟩ := by
      decide +kernel
    exact idxOf_le_of_readWith ((h _ _).trans hread) (hmem .range) (by decide)
  have hrange : order.idxOf .range ≤ order.idxOf .literal := by
    have hread : read .symbolic "a-z]" "" = .ok ⟨[.range 'a' 'z'], 4⟩ := by decide +kernel
    exact idxOf_le_of_readWith ((h _ _).trans hread) (hmem .literal) (by decide)
  have hclose : order.idxOf .terminator ≤ order.idxOf .literal := by
    have hread : read .symbolic "]" "" = .ok ⟨[], 1⟩ := by decide +kernel
    exact idxOf_le_of_readWith ((h _ _).trans hread) (hmem .literal) (by decide)
  have hliteral : ∀ p, order.idxOf p ≤ order.idxOf .literal := by
    intro p
    cases p with
    | shorthand => exact Nat.le_trans hset hrange
    | range => exact hrange
    | terminator => exact hclose
    | literal => exact Nat.le_refl _
  refine ⟨Nat.lt_of_le_of_ne hset fun heq => ?_, ?_⟩
  · exact absurd ((List.idxOf_inj (hmem _)).1 heq) (by decide)
  · cases hlast : order.getLast? with
    | none =>
      rw [List.getLast?_eq_none_iff] at hlast
      exact absurd (hmem .literal) (by simp [hlast])
    | some p =>
      have hnodup : order.Nodup := hperm.nodup_iff.2 (by decide)
      have hle := idxOf_le_of_getLast? hnodup hlast (hmem .literal)
      rw [(List.idxOf_inj (hmem _)).1 (Nat.le_antisymm hle (hliteral p))]

/-- **The orders that read alike.** An order of the four productions reads every class as the order
of the library does, with every provider, source and pattern, exactly if shorthands come before
ranges and literals come last in it: there are the same tokens and the same offset, or the same
error. -/
theorem readWith_eq_read_iff {order : List Production} (hperm : order.Perm Production.order) :
    (∀ (S : Type) (sets : SetProvider S) (source pattern : String),
      readWith order sets source pattern = read sets source pattern) ↔
      order.idxOf .shorthand < order.idxOf .range ∧ order.getLast? = some .literal := by
  constructor
  · intro h
    exact order_of_readWith_eq_read hperm (h Shorthand .symbolic)
  · intro h S sets source pattern
    exact (readWith_eq_of_agree (agree_order hperm h.1 h.2) sets source pattern).symm

/-- The terminator may be tried first, and a range that ends before an escaped bracket is read all
the same; with ranges before shorthands, a shorthand becomes the beginning of a range. -/
theorem readWith_eq_read_iff_terminator_first :
    readWith [.terminator, .shorthand, .range, .literal] .symbolic "\\]-\\\\\\w]" "" =
        read .symbolic "\\]-\\\\\\w]" "" ∧
      ¬ ∀ (S : Type) (sets : SetProvider S) (source pattern : String),
        readWith [.range, .shorthand, .terminator, .literal] sets source pattern =
          read sets source pattern := by
  refine ⟨(readWith_eq_read_iff (by decide)).2 (by decide) _ _ _ _, fun h => ?_⟩
  exact absurd ((readWith_eq_read_iff (by decide)).1 h) (by decide)

end CharClass

end PatternLex
