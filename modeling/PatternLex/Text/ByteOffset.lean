/-!
# Byte offsets into a text

Places in a pattern are counted in bytes of its UTF-8 form, while the text itself is read as a
list of characters. `byteLength` is the measure, and `splitBytes?` is the only way from an offset
back to a place: it answers exactly at the boundaries between characters.

Results:

* `byteLength_append`: offsets add up over a concatenation;
* `byteLength_toList`: the measure is the size of the string's UTF-8 form;
* `splitBytes?_eq_some_iff`: a split at `n` is a cut into two parts, the first of `n` bytes.
-/

namespace PatternLex.Text

/-- The number of bytes in the UTF-8 form of a text. -/
def byteLength : List Char → Nat
  | [] => 0
  | c :: cs => c.utf8Size + byteLength cs

@[simp] theorem byteLength_nil : byteLength [] = 0 := rfl

@[simp] theorem byteLength_cons (c : Char) (cs : List Char) :
    byteLength (c :: cs) = c.utf8Size + byteLength cs := rfl

@[simp] theorem byteLength_append (a b : List Char) :
    byteLength (a ++ b) = byteLength a + byteLength b := by
  induction a with
  | nil => simp
  | cons c cs ih => simp [ih, Nat.add_assoc]

theorem byteLength_ofList (cs : List Char) : (String.ofList cs).utf8ByteSize = byteLength cs := by
  induction cs with
  | nil => simp
  | cons c cs ih =>
    rw [← List.singleton_append, String.ofList_append, String.utf8ByteSize_append, ih]
    simp

theorem byteLength_toList (s : String) : byteLength s.toList = s.utf8ByteSize := by
  rw [← byteLength_ofList, String.ofList_toList]

theorem length_le_byteLength (cs : List Char) : cs.length ≤ byteLength cs := by
  induction cs with
  | nil => simp
  | cons c cs ih =>
    have hpos := c.utf8Size_pos
    simp only [List.length_cons, byteLength_cons]
    omega

/-! ## Splitting at an offset -/

/-- Cuts a text after `n` bytes; `none` past its end and inside a character. -/
def splitBytes? : List Char → Nat → Option (List Char × List Char)
  | cs, 0 => some ([], cs)
  | [], _ + 1 => none
  | c :: cs, n + 1 =>
    if c.utf8Size ≤ n + 1 then
      (splitBytes? cs (n + 1 - c.utf8Size)).map fun cut => (c :: cut.1, cut.2)
    else none

theorem splitBytes?_byteLength (before after : List Char) :
    splitBytes? (before ++ after) (byteLength before) = some (before, after) := by
  induction before with
  | nil => cases after <;> rfl
  | cons c cs ih =>
    have hpos := c.utf8Size_pos
    obtain ⟨n, hn⟩ : ∃ n, c.utf8Size + byteLength cs = n + 1 :=
      ⟨_, (Nat.succ_pred (by omega)).symm⟩
    rw [List.cons_append, byteLength_cons, hn, splitBytes?, if_pos (by omega),
      show n + 1 - c.utf8Size = byteLength cs by omega, ih]
    rfl

theorem splitBytes?_eq_some_iff {cs before after : List Char} {n : Nat} :
    splitBytes? cs n = some (before, after) ↔ cs = before ++ after ∧ byteLength before = n := by
  constructor
  · intro h
    fun_induction splitBytes? cs n generalizing before with
    | case1 cs => simp_all
    | case2 => simp at h
    | case3 c cs n hfits ih =>
      obtain ⟨⟨first, last⟩, hcut, heq⟩ := Option.map_eq_some_iff.1 h
      simp only [Prod.mk.injEq] at heq
      obtain ⟨rfl, rfl⟩ := heq
      obtain ⟨rfl, hwidth⟩ := ih hcut
      simp only [List.cons_append, byteLength_cons, hwidth, true_and]
      omega
    | case4 => simp at h
  · intro heq
    obtain ⟨rfl, rfl⟩ := heq
    exact splitBytes?_byteLength before after

/-- The characters before byte `n`, or `0` where no character starts or ends at `n`. -/
def column (cs : List Char) (n : Nat) : Nat :=
  match splitBytes? cs n with
  | some (before, _) => before.length
  | none => 0

theorem column_byteLength (before after : List Char) :
    column (before ++ after) (byteLength before) = before.length := by
  simp [column, splitBytes?_byteLength]

end PatternLex.Text
