import PatternLex.Escape.Unit
import PatternLex.Proofs.MetacharacterGlyphs

/-!
# The cutting and the units

The cutting into pieces and the reading in units go through the same text, and mostly an escape that
is cut out is a unit too. They part behind a copied `\\c\`: to the cutting its last backslash is the
symbol of the copied escape, to the reading it begins the next unit. From there on the reading is
one character behind, or, where it has taken `\c\` for an escape, one character ahead, until the two
meet again; and an escape that is cut out in between does not start a unit.

`Pace` is how the two stand to each other. It is computed from the pieces (`Pace.after`), and
`Keeps` says what each pace means for the two places in the text.

Results:

* `keeps_step`, `keeps_run`: the reading follows the cutting at the pace that is computed;
* `startsUnit_iff_not_off`: an escape that is cut out starts a unit exactly if the pace is not off;
* `exists_of_off`: the pace is off only behind a copied `\\c\`;
* `decoded_startsUnit_iff`: which entries of the log start a unit.
-/

namespace PatternLex

open Text

/-! ## The pace -/

/-- How the reading in units stands to the cutting. -/
inductive Pace where
  /-- A unit starts here, or where the plain text that stands here ends. -/
  | level
  /-- The second character of a pair stands here. -/
  | inPair
  /-- A unit starts at the backslash just before this place. -/
  | behind
  /-- If a backslash stands here, it belongs to the unit before. -/
  | ahead
  deriving DecidableEq, Repr

namespace Pace

/-- The pace behind one more piece. -/
def after : Pace → Piece → Pace
  | level, .plain c => if c = '\\' then inPair else level
  | level, .guarded e => if e = .controlBackslash then behind else level
  | behind, .plain c => if c = 'c' then ahead else level
  | behind, .escape e => if e = .controlBackslash then behind else level
  | ahead, .escape e => if e = .controlBackslash then behind else level
  | _, _ => level

/-- The pace behind a row of pieces. -/
def of (ps : List Piece) : Pace := ps.foldl after level

/-- No unit starts where an escape is cut out at this pace. -/
def Off (pace : Pace) : Prop := pace = behind ∨ pace = ahead

instance : DecidablePred Off := fun pace => inferInstanceAs (Decidable (pace = behind ∨ _))

theorem off_after {pace : Pace} {p : Piece} (h : (pace.after p).Off) :
    p = .guarded .controlBackslash ∨
      (pace.Off ∧ (p = .escape .controlBackslash ∨ p = .plain 'c')) := by
  have hlevel : ¬ level.Off := by decide
  have hpair : ¬ inPair.Off := by decide
  unfold after at h
  split at h
  · -- a plain piece at the level pace
    split at h
    · exact absurd h hpair
    · exact absurd h hlevel
  · split at h
    · rename_i he
      exact .inl (by rw [he])
    · exact absurd h hlevel
  · split at h
    · rename_i hc
      exact .inr ⟨.inl rfl, .inr (by rw [hc])⟩
    · exact absurd h hlevel
  · split at h
    · rename_i he
      exact .inr ⟨.inl rfl, .inl (by rw [he])⟩
    · exact absurd h hlevel
  · split at h
    · rename_i he
      exact .inr ⟨.inr rfl, .inl (by rw [he])⟩
    · exact absurd h hlevel
  · exact absurd h hlevel

theorem of_append_singleton (ps : List Piece) (p : Piece) : of (ps ++ [p]) = (of ps).after p := by
  simp [of]

end Pace

/-- **Where the pace is off.** There the row of pieces ends in a copied `\\c\`, with nothing but
escapes `\c\` and bare `c` behind it. -/
theorem exists_of_off {ps : List Piece} (h : (Pace.of ps).Off) :
    ∃ front run, ps = front ++ .guarded .controlBackslash :: run ∧
      ∀ p ∈ run, p = .escape .controlBackslash ∨ p = .plain 'c' := by
  induction ps using List.reverseRecOn with
  | nil => rcases h with h | h <;> cases h
  | append_singleton ps p ih =>
    rw [Pace.of_append_singleton] at h
    rcases Pace.off_after h with rfl | ⟨hoff, hp⟩
    · exact ⟨ps, [], rfl, by simp⟩
    · obtain ⟨front, run, rfl, hrun⟩ := ih hoff
      refine ⟨front, run ++ [p], by simp, ?_⟩
      intro q hq
      rcases List.mem_append.1 hq with hq | hq
      · exact hrun q hq
      · rw [List.mem_singleton.1 hq]
        exact hp

/-! ## What a pace means -/

/-- Between the two places there is only plain text. -/
def Lags (cs us : List Char) : Prop := ∃ text, cs = text ++ us ∧ '\\' ∉ text

/-- The cutting stands before `cs` and the reading before `us`, at this pace. -/
def Keeps : Pace → List Char → List Char → Prop
  | .level, cs, us => Lags cs us
  | .inPair, cs, us => us = cs.tail ∧ Piece.next? Piece.Alternative.order ('\\' :: cs) = none
  | .behind, cs, us => us = '\\' :: cs
  | .ahead, cs, us => cs = '\\' :: us ∨ (cs.head? ≠ some '\\' ∧ Lags cs us)

namespace Lags

variable {c : Char} {cs us rest : List Char}

theorem refl (cs : List Char) : Lags cs cs := ⟨[], rfl, by simp⟩

theorem eq_of_backslash (h : Lags ('\\' :: cs) us) : us = '\\' :: cs := by
  obtain ⟨text, heq, htext⟩ := h
  cases text with
  | nil => exact heq.symm
  | cons d text =>
    rw [List.cons_append, List.cons.injEq] at heq
    rw [← heq.1] at htext
    exact absurd List.mem_cons_self htext

theorem plain (hc : c ≠ '\\') (h : Lags (c :: rest) us) :
    ∃ us', AtUnit us us' ∧ Lags rest us' := by
  obtain ⟨text, heq, htext⟩ := h
  cases text with
  | nil =>
    rw [List.nil_append] at heq
    subst heq
    exact ⟨rest, .bare hc rest, .refl rest⟩
  | cons d text =>
    rw [List.cons_append, List.cons.injEq] at heq
    rw [List.mem_cons, not_or] at htext
    exact ⟨us, .refl us, text, heq.2, htext.2⟩

end Lags

theorem atUnit_marker (rest : List Char) : AtUnit ('\\' :: 'b' :: ']' :: rest) rest :=
  (AtUnit.pair (Escape.readBody?_b _)).trans (.bare (by decide) rest)

theorem Lags.marker {us rest : List Char} (h : Lags ('[' :: '\\' :: 'b' :: ']' :: rest) us) :
    AtUnit us rest := by
  obtain ⟨us', hus, hlags⟩ := h.plain (by decide)
  rw [hlags.eq_of_backslash] at hus
  exact hus.trans (atUnit_marker rest)

/-! ## One step -/

variable {pace : Pace} {c : Char} {cs us mid rest : List Char} {e : Escape}

/-- The cutting has taken a body that the reading has still to go through. -/
theorem keeps_body (h : Escape.readBody? mid = some (e, rest)) :
    ∃ us', AtUnit mid us' ∧
      Keeps (if e = .controlBackslash then .behind else .level) rest us' := by
  rw [Escape.eq_body_append_of_readBody? h]
  by_cases he : e = .controlBackslash
  · rw [if_pos he, he]
    exact ⟨'\\' :: rest, .bare (by decide) _, rfl⟩
  · rw [if_neg he]
    exact ⟨rest, .plain (mt Escape.backslash_mem_body_iff.1 he) rest, .refl rest⟩

/-- The reading takes the backslash behind which it stands, with the body that it finds there, or
with one character. -/
theorem keeps_behind_plain (hc : c ≠ '\\') :
    ∃ us', AtUnit ('\\' :: c :: rest) us' ∧
      Keeps (if c = 'c' then .ahead else .level) rest us' := by
  by_cases hcontrol : c = 'c' ∧ ∃ left, rest = '\\' :: left
  · obtain ⟨rfl, left, rfl⟩ := hcontrol
    exact ⟨left, .escape (Escape.readBody?_controlBackslash left), .inl rfl⟩
  · obtain ⟨us', hus, hlags⟩ : ∃ us', AtUnit ('\\' :: c :: rest) us' ∧ Lags rest us' := by
      cases hread : Escape.readBody? (c :: rest) with
      | none => exact ⟨rest, .pair hread, .refl rest⟩
      | some found =>
        obtain ⟨e, left⟩ := found
        obtain ⟨d, tail, hbody, -⟩ := e.body_head
        have hwhole := Escape.eq_body_append_of_readBody? hread
        rw [hbody, List.cons_append, List.cons.injEq] at hwhole
        refine ⟨left, .escape hread, tail, hwhole.2, fun hback => ?_⟩
        -- the body would be the one that was set aside
        obtain rfl := Escape.backslash_mem_body_iff.1 (hbody ▸ List.mem_cons_of_mem d hback)
        obtain ⟨rfl, rfl⟩ := List.cons.inj hbody
        exact hcontrol ⟨hwhole.1, left, hwhole.2⟩
    refine ⟨us', hus, ?_⟩
    by_cases hletter : c = 'c'
    · rw [if_pos hletter]
      refine .inr ⟨fun hhead => ?_, hlags⟩
      obtain ⟨left, hleft⟩ := List.head?_eq_some_iff.1 hhead
      exact hcontrol ⟨hletter, left, hleft⟩
    · rw [if_neg hletter]
      exact hlags

theorem keeps_plain (hc : c ≠ '\\') (h : Keeps pace (c :: rest) us) :
    ∃ us', AtUnit us us' ∧ Keeps (pace.after (.plain c)) rest us' := by
  cases pace with
  | level =>
    have hafter : Pace.after .level (.plain c) = .level := if_neg hc
    rw [hafter]
    exact Lags.plain hc h
  | inPair =>
    obtain ⟨heq, -⟩ := h
    rw [heq]
    exact ⟨rest, .refl rest, .refl rest⟩
  | behind =>
    obtain rfl := h
    exact keeps_behind_plain hc
  | ahead =>
    rcases h with heq | ⟨-, hlags⟩
    · exact absurd (List.cons.inj heq).1 hc
    · exact hlags.plain hc

theorem keeps_marker (h : Keeps pace ('[' :: '\\' :: 'b' :: ']' :: rest) us) : AtUnit us rest := by
  cases pace with
  | level => exact Lags.marker h
  | inPair =>
    obtain ⟨rfl, -⟩ := h
    exact atUnit_marker rest
  | behind =>
    obtain rfl := h
    have hpair : Escape.readBody? ('[' :: '\\' :: 'b' :: ']' :: rest) = none :=
      Escape.readBody?_of_not_isAlphanum (by decide) _
    exact (AtUnit.pair hpair).trans (atUnit_marker rest)
  | ahead =>
    rcases h with heq | ⟨-, hlags⟩
    · exact absurd (List.cons.inj heq).1 (by decide)
    · exact hlags.marker

theorem keeps_guarded (hread : Escape.readBody? mid = some (e, rest))
    (h : Keeps pace ('\\' :: '\\' :: mid) us) :
    ∃ us', AtUnit us us' ∧ Keeps (pace.after (.guarded e)) rest us' := by
  have hpair : Escape.readBody? ('\\' :: mid) = none := Escape.readBody?_backslash mid
  cases pace with
  | level =>
    -- to the reading the guard and the backslash are a pair
    obtain rfl := Lags.eq_of_backslash h
    obtain ⟨us', hus, hkeeps⟩ := keeps_body hread
    exact ⟨us', (AtUnit.pair hpair).trans hus, hkeeps⟩
  | inPair =>
    obtain ⟨rfl, -⟩ := h
    exact ⟨rest, .escape hread, .refl rest⟩
  | behind =>
    obtain rfl := h
    have hback : Escape.readBody? ('\\' :: '\\' :: mid) = none := Escape.readBody?_backslash _
    exact ⟨rest, (AtUnit.pair hback).trans (.escape hread), .refl rest⟩
  | ahead =>
    rcases h with heq | ⟨hhead, -⟩
    · obtain rfl := (List.cons.inj heq).2
      exact ⟨rest, .escape hread, .refl rest⟩
    · exact absurd rfl hhead

theorem keeps_escape (hread : Escape.readBody? mid = some (e, rest))
    (h : Keeps pace ('\\' :: mid) us) :
    ∃ us', AtUnit us us' ∧ Keeps (pace.after (.escape e)) rest us' := by
  cases pace with
  | level =>
    obtain rfl := Lags.eq_of_backslash h
    exact ⟨rest, .escape hread, .refl rest⟩
  | inPair =>
    -- the first backslash of the pair would have guarded the escape
    obtain ⟨-, hnone⟩ := h
    rw [Piece.next?_guarded hread] at hnone
    cases hnone
  | behind =>
    obtain rfl := h
    obtain ⟨us', hus, hkeeps⟩ := keeps_body hread
    exact ⟨us', (AtUnit.pair (Escape.readBody?_backslash mid)).trans hus, hkeeps⟩
  | ahead =>
    rcases h with heq | ⟨hhead, -⟩
    · obtain rfl := (List.cons.inj heq).2
      exact keeps_body hread
    · exact absurd rfl hhead

theorem keeps_backslash
    (hnone : Piece.next? Piece.Alternative.order ('\\' :: rest) = none)
    (h : Keeps pace ('\\' :: rest) us) :
    ∃ us', AtUnit us us' ∧ Keeps (pace.after (.plain '\\')) rest us' := by
  cases pace with
  | level =>
    obtain rfl := Lags.eq_of_backslash h
    refine ⟨rest.tail, ?_, rfl, hnone⟩
    cases rest with
    | nil => exact .of_next? (u := .bare '\\') rfl
    | cons d rest => exact .pair (Piece.readBody?_of_next?_none hnone)
  | inPair =>
    obtain ⟨heq, -⟩ := h
    rw [heq]
    exact ⟨rest, .refl rest, .refl rest⟩
  | behind =>
    obtain rfl := h
    exact ⟨rest, .pair (Escape.readBody?_backslash rest), .refl rest⟩
  | ahead =>
    rcases h with heq | ⟨hhead, -⟩
    · obtain rfl := (List.cons.inj heq).2
      exact ⟨rest, .refl rest, .refl rest⟩
    · exact absurd rfl hhead

/-- **One step.** The reading follows the cutting over one piece, at the pace that is computed. -/
theorem keeps_step {p : Piece} (h : Keeps pace cs us) (htakes : Takes cs p rest) :
    ∃ us', AtUnit us us' ∧ Keeps (pace.after p) rest us' := by
  cases htakes with
  | plain hc => exact keeps_plain hc h
  | marker =>
    have hafter : pace.after .marker = .level := by cases pace <;> rfl
    rw [hafter]
    exact ⟨rest, keeps_marker h, .refl rest⟩
  | guarded hread => exact keeps_guarded hread h
  | escape hread => exact keeps_escape hread h
  | backslash hnone => exact keeps_backslash hnone h

/-- **A run.** The reading follows the cutting over a row of pieces. -/
theorem keeps_run {ps qs : List Piece} (hcut : pieces Piece.Alternative.order cs = ps ++ qs)
    (h : Keeps pace cs us) :
    ∃ us', AtUnit us us' ∧ Keeps (ps.foldl Pace.after pace) (qs.flatMap Piece.source) us' := by
  induction ps generalizing cs pace us with
  | nil =>
    rw [List.nil_append] at hcut
    rw [← hcut, flatMap_source_pieces]
    exact ⟨us, .refl us, h⟩
  | cons p ps ih =>
    obtain ⟨rest, hrest, htakes⟩ := exists_takes_of_pieces_eq_cons hcut
    obtain ⟨us₁, hus₁, hkeeps⟩ := keeps_step h htakes
    obtain ⟨us₂, hus₂, hlast⟩ := ih hrest hkeeps
    exact ⟨us₂, hus₁.trans hus₂, hlast⟩

/-! ## Escapes and units -/

/-- **Which escapes start a unit.** An escape that is cut out starts a unit exactly if the pace is
not off there. -/
theorem startsUnit_iff_not_off {ps qs : List Piece}
    (hcut : pieces Piece.Alternative.order cs = ps ++ .escape e :: qs) :
    StartsUnit cs (ps.flatMap Piece.source).length ↔ ¬ (Pace.of ps).Off := by
  have hread := readBody?_of_pieces_eq hcut
  have htext : cs = ps.flatMap Piece.source ++ '\\' :: (e.body ++ qs.flatMap Piece.source) := by
    rw [← flatMap_source_pieces Piece.Alternative.order cs, hcut, List.flatMap_append]
    rfl
  have hstart : Keeps .level cs cs := Lags.refl cs
  obtain ⟨us, hus, hkeeps⟩ := keeps_run hcut hstart
  have hplace : (Piece.escape e :: qs).flatMap Piece.source =
      '\\' :: (e.body ++ qs.flatMap Piece.source) := rfl
  rw [hplace] at hkeeps
  have hne : e.body ++ qs.flatMap Piece.source ≠ [] := by simp [e.body_ne_nil]
  rw [htext, startsUnit_append_iff (List.cons_ne_nil _ _), ← htext]
  generalize e.body ++ qs.flatMap Piece.source = mid at hread hkeeps hne
  unfold Pace.of
  generalize ps.foldl Pace.after .level = pace at hkeeps ⊢
  cases pace with
  | level =>
    rw [Lags.eq_of_backslash hkeeps] at hus
    simp [hus, Pace.Off]
  | inPair =>
    obtain ⟨-, hnone⟩ := hkeeps
    rw [Piece.next?_guarded hread] at hnone
    cases hnone
  | behind =>
    refine iff_of_false (fun h => ?_) (fun h => h (.inl rfl))
    obtain rfl := hkeeps
    exact not_atUnit_backslash (List.cons_ne_nil _ _) (hus.of_length_le h (by simp))
  | ahead =>
    refine iff_of_false (fun h => ?_) (fun h => h (.inr rfl))
    rcases hkeeps with heq | ⟨hhead, -⟩
    · obtain rfl := (List.cons.inj heq).2
      exact not_atUnit_backslash hne (h.of_length_le hus (by simp))
    · exact hhead rfl

theorem exists_of_decodedOf_eq {ps : List Piece} {before after : List Decoded} {d : Decoded}
    (h : decodedOf ps = before ++ d :: after) :
    ∃ front e back, ps = front ++ .escape e :: back ∧ decodedOf front = before ∧
      d = ⟨String.ofList e.spelling, e.value⟩ := by
  obtain ⟨front, rest, rfl, hfront, hrest⟩ := List.filterMap_eq_append_iff.1 h
  obtain ⟨kept, p, back, rfl, hkept, hp, -⟩ := List.filterMap_eq_cons_iff.1 hrest
  cases p with
  | escape e =>
    obtain ⟨c, hc, rfl⟩ := Option.map_eq_some_iff.1 hp
    refine ⟨front ++ kept, e, back, by rw [List.append_assoc], ?_, ?_⟩
    · have hnil : decodedOf kept = [] := List.filterMap_eq_nil_iff.2 hkept
      rw [decodedOf_append, hnil, List.append_nil]
      exact hfront
    · rw [Escape.char?_eq_some_iff.1 hc]
  | _ => cases hp

/-- Every escape that is decoded starts a unit of the text. -/
def DecodedStartUnits (text : String) : Prop :=
  ∀ (ps qs : List Piece) (e : Escape) (c : Char),
    pieces Piece.Alternative.order text.toList = ps ++ .escape e :: qs → e.char? = some c →
      StartsUnit text.toList (ps.flatMap Piece.source).length

/-- Behind a copied `\\c\` the second backslash of a pair begins an escape that is decoded. -/
theorem not_decodedStartUnits_behind_copied : ¬ DecodedStartUnits "\\\\c\\\\x41" := by
  intro h
  have hcut : pieces Piece.Alternative.order "\\\\c\\\\x41".toList =
      [.guarded .controlBackslash] ++ .escape (.hex 4 1) :: [] := by decide +kernel
  have hplace := h _ _ _ 'A' hcut (by decide)
  rw [startsUnit_iff_not_off hcut] at hplace
  exact hplace (by decide)

/-- **Entries of the log and units.** Each entry belongs to an escape that is cut out, and that
escape starts a unit of the text, unless the pace is off. Then it stands behind a copied `\\c\`,
with nothing but escapes `\c\` and bare `c` between. -/
theorem decoded_startsUnit_iff (text : String) {before after : List Decoded} {d : Decoded}
    (h : decodedEscapes text = before ++ d :: after) :
    ∃ (ps qs : List Piece) (e : Escape),
      pieces Piece.Alternative.order text.toList = ps ++ .escape e :: qs ∧
      decodedOf ps = before ∧ d = ⟨String.ofList e.spelling, e.value⟩ ∧
      (StartsUnit text.toList (ps.flatMap Piece.source).length ↔ ¬ (Pace.of ps).Off) ∧
      ((Pace.of ps).Off → ∃ front run, ps = front ++ .guarded .controlBackslash :: run ∧
        ∀ p ∈ run, p = .escape .controlBackslash ∨ p = .plain 'c') := by
  obtain ⟨ps, e, qs, hcut, hbefore, hd⟩ := exists_of_decodedOf_eq h
  exact ⟨ps, qs, e, hcut, hbefore, hd, startsUnit_iff_not_off hcut, exists_of_off⟩

/-- Of two escapes that are decoded, the one behind a copied `\\c\` does not start a unit. -/
theorem decoded_startsUnit_iff_behind_copied :
    decodedEscapes "\\x42\\\\c\\\\x41" = [⟨"\\x42", 66⟩] ++ ⟨"\\x41", 65⟩ :: [] ∧
      ¬ StartsUnit "\\x42\\\\c\\\\x41".toList 8 := by
  have hlog : decodedEscapes "\\x42\\\\c\\\\x41" = [⟨"\\x42", 66⟩] ++ ⟨"\\x41", 65⟩ :: [] := by
    decide +kernel
  have hpieces : pieces Piece.Alternative.order "\\x42\\\\c\\\\x41".toList =
      [.escape (.hex 4 2), .guarded .controlBackslash, .escape (.hex 4 1)] := by decide +kernel
  obtain ⟨ps, qs, e, hcut, hbefore, -, hiff, -⟩ := decoded_startsUnit_iff _ hlog
  rw [hpieces] at hcut
  -- only one row of pieces has the first entry and is followed by an escape
  rcases ps with _ | ⟨p, _ | ⟨q, _ | ⟨r, ps⟩⟩⟩
  · cases hbefore
  · cases hcut
  · cases hcut
    exact ⟨hlog, fun hplace => hiff.1 hplace (by decide)⟩
  · have hlength := congrArg List.length hcut
    simp at hlength

end PatternLex
