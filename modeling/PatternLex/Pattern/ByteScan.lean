import PatternLex.Pattern.ClassStep
import PatternLex.Text.Cursor

/-!
# Scanning a pattern by byte offsets

The classes of a pattern, found by a caller who has only offsets: look for the next opening bracket,
cut the pattern behind it, read the class that begins there, and go on behind the offset at which it
was closed. Each cut is made with a cursor. A cursor that has come to stand inside a character, or
past the end, has no rest, and then the scan has no answer; that it always has one is a theorem
about the offsets of classes and not part of the definition.

Results:

* `bracketAt?_append`, `bracketAt?_eq_none`: the first opening bracket and its place;
* `scanFrom?_of_clear`, `scanFrom?_of_bracket`: one round of the scan.
-/

namespace PatternLex

open Text

namespace ClassStep

variable {S : Type}

/-- The bytes that stand before the first opening bracket. -/
def bracketAt? : List Char → Option Nat
  | [] => none
  | c :: cs => if c = '[' then some 0 else (bracketAt? cs).map (c.utf8Size + ·)

theorem bracketAt?_append {gap : List Char} (hgap : '[' ∉ gap) (source : List Char) :
    bracketAt? (gap ++ '[' :: source) = some (byteLength gap) := by
  induction gap with
  | nil => rfl
  | cons c gap ih =>
    rw [List.mem_cons, not_or] at hgap
    rw [List.cons_append, bracketAt?, if_neg (Ne.symm hgap.1), ih hgap.2]
    rfl

theorem bracketAt?_eq_none {cs : List Char} (h : '[' ∉ cs) : bracketAt? cs = none := by
  induction cs with
  | nil => rfl
  | cons c cs ih =>
    rw [List.mem_cons, not_or] at h
    rw [bracketAt?, if_neg (Ne.symm h.1), ih h.2]
    rfl

theorem byteLength_pos_of_bracketAt? {cs : List Char} {n : Nat} (h : bracketAt? cs = some n) :
    0 < byteLength cs := by
  cases cs with
  | nil => cases h
  | cons c cs =>
    have hwidth := c.utf8Size_pos
    rw [byteLength_cons]
    omega

theorem rest?_advance_start {text : String} {before rest : List Char}
    (h : text.toList = before ++ rest) :
    ((Cursor.start text).advance (byteLength before)).rest? = some (String.ofList rest) := by
  have hsees : (Cursor.start text).Sees (before ++ rest) := h ▸ Cursor.Sees.start text
  exact hsees.advance.rest?

theorem lt_byteLength_of_rest? {text rest : String} {pos n : Nat}
    (hrest : ((Cursor.start text).advance pos).rest? = some rest)
    (hbracket : bracketAt? rest.toList = some n) : pos < byteLength text.toList := by
  obtain ⟨before, hsplit, hbefore⟩ := Cursor.rest?_eq_some_iff.1 hrest
  have htext : text.toList = before ++ rest.toList := hsplit
  have hpos : byteLength before = 0 + pos := hbefore
  have hleft := byteLength_pos_of_bracketAt? hbracket
  rw [htext, byteLength_append]
  omega

/-- The classes from byte `pos` on; `none` if a cut cannot be made. -/
def scanFrom? (sets : SetProvider S) (pattern : String) (pos : Nat) : Option (List (ClassStep S)) :=
  match _ : ((Cursor.start pattern).advance pos).rest? with
  | none => none
  | some rest =>
    match _ : bracketAt? rest.toList with
    | none => some []
    | some gap =>
      match ((Cursor.start pattern).advance (pos + gap + 1)).rest? with
      | none => none
      | some source =>
        match CharClass.read sets source pattern with
        | .error m => some [⟨pos + gap + 1, .error m⟩]
        | .ok cls =>
          (scanFrom? sets pattern (pos + gap + 1 + cls.offset)).map fun steps =>
            ⟨pos + gap + 1, .ok cls⟩ :: steps
  termination_by byteLength pattern.toList - pos
  decreasing_by
    have hlt := lt_byteLength_of_rest? (by assumption) (by assumption)
    omega

/-- The classes of a pattern, found by their offsets. -/
def scan? (sets : SetProvider S) (pattern : String) : Option (List (ClassStep S)) :=
  scanFrom? sets pattern 0

/-! ## One round -/

variable {sets : SetProvider S} {pattern rest : String} {pos : Nat}

theorem scanFrom?_of_clear (hrest : ((Cursor.start pattern).advance pos).rest? = some rest)
    (hclear : bracketAt? rest.toList = none) : scanFrom? sets pattern pos = some [] := by
  rw [scanFrom?]
  split
  · rename_i hnone
    rw [hrest] at hnone
    cases hnone
  · rename_i rest' hrest'
    rw [hrest, Option.some.injEq] at hrest'
    subst hrest'
    split
    · rfl
    · rename_i gap hgap
      rw [hclear] at hgap
      cases hgap

theorem scanFrom?_of_bracket {source : String} {gap : Nat}
    (hrest : ((Cursor.start pattern).advance pos).rest? = some rest)
    (hgap : bracketAt? rest.toList = some gap)
    (hsource : ((Cursor.start pattern).advance (pos + gap + 1)).rest? = some source) :
    scanFrom? sets pattern pos =
      match CharClass.read sets source pattern with
      | .error m => some [⟨pos + gap + 1, .error m⟩]
      | .ok cls =>
        (scanFrom? sets pattern (pos + gap + 1 + cls.offset)).map fun steps =>
          ⟨pos + gap + 1, .ok cls⟩ :: steps := by
  rw [scanFrom?]
  split
  · rename_i hnone
    rw [hrest] at hnone
    cases hnone
  · rename_i rest' hrest'
    rw [hrest, Option.some.injEq] at hrest'
    subst hrest'
    split
    · rename_i hnone
      rw [hgap] at hnone
      cases hnone
    · rename_i gap' hgap'
      rw [hgap, Option.some.injEq] at hgap'
      subst hgap'
      rw [hsource]

end ClassStep

end PatternLex
