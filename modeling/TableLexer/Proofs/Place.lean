import Mathlib.Data.List.Induction
import TableLexer.Source
/-!
Places reached by reading words.  The place after a word depends on the word alone, so a text that
is cut into pieces gives every piece its place.
-/

namespace TableLexer

/-- Counting goes on in 32 bits, also from the last number to zero. -/
theorem natCast_add_one (n : Nat) : ((n + 1 : Nat) : UInt32) = (n : UInt32) + 1 :=
  UInt32.ofNat_add n 1

/-- In 32 bits the numbers below `UInt32.size`, and no others, are what they are. -/
theorem toNat_natCast_eq_iff (n : Nat) : (n : UInt32).toNat = n ↔ n < UInt32.size := by
  constructor
  · intro heq
    exact heq ▸ UInt32.toNat_lt n
  · exact UInt32.toNat_ofNat_of_lt'

/-- The place after the characters of a word. -/
def Position.past (p : Position) (word : List Char) : Position :=
  word.foldl Position.advance p

namespace Position

@[simp] theorem past_nil (p : Position) : p.past [] = p := rfl

@[simp] theorem past_cons (p : Position) (c : Char) (word : List Char) :
    p.past (c :: word) = (p.advance c).past word := rfl

theorem past_append (p : Position) (first second : List Char) :
    p.past (first ++ second) = (p.past first).past second := by
  simp [past]

theorem past_concat (p : Position) (word : List Char) (c : Char) :
    p.past (word ++ [c]) = (p.past word).advance c := by
  simp [past]

/-- Offsets count characters. -/
theorem offset_past (p : Position) (word : List Char) :
    (p.past word).offset = p.offset + word.length := by
  induction word generalizing p with
  | nil => rfl
  | cons c word ih =>
      rw [past_cons, ih, offset_advance, List.length_cons]
      omega

/-- Offset, line and column count what is before a place: characters, line feeds, and the characters
after the last line feed, the latter two in 32 bits. -/
theorem past_start_eq (word : List Char) :
    start.past word =
      ⟨word.length, (1 + word.count '\n' : Nat),
        (1 + (word.reverse.takeWhile (· ≠ '\n')).length : Nat)⟩ := by
  induction word using List.reverseRecOn with
  | nil => rfl
  | append_singleton word c ih =>
      rw [past_concat, ih, advance]
      by_cases hfeed : c = '\n'
      · have hone : ((1 : Nat) : UInt32) = 1 := rfl
        simp [hfeed, hone, ← Nat.add_assoc, natCast_add_one]
      · simp [hfeed, ← Nat.add_assoc, natCast_add_one]

example : start.past ['a', '\n', 'b'] = ⟨3, 2, 2⟩ := by decide

/-- A line has its number as long as 32 bits can count the lines, and no longer. -/
theorem line_past_start_eq_iff (word : List Char) :
    (start.past word).line.toNat = 1 + word.count '\n' ↔ 1 + word.count '\n' < UInt32.size := by
  rw [past_start_eq]
  exact toNat_natCast_eq_iff _

/-- So has a column. -/
theorem column_past_start_eq_iff (word : List Char) :
    (start.past word).column.toNat = 1 + (word.reverse.takeWhile (· ≠ '\n')).length ↔
      1 + (word.reverse.takeWhile (· ≠ '\n')).length < UInt32.size := by
  rw [past_start_eq]
  exact toNat_natCast_eq_iff _

/-- The place `p` of a text that begins at `base` and not at the start: so many characters further on,
in the line and the column to which they lead from there. -/
def rebase (base : Position) (text : List Char) (p : Position) : Position :=
  { base.past (text.take p.offset) with offset := base.offset + p.offset }

/-- Moved to `base`, a beginning of the text leads where it leads from there. -/
theorem rebase_past_start (base : Position) {text word : List Char} (hbegins : word <+: text) :
    base.rebase text (start.past word) = base.past word := by
  have hoffset : (start.past word).offset = word.length := by rw [past_start_eq]
  rw [rebase, hoffset, ← List.prefix_iff_eq_take.mp hbegins, ← offset_past]

/-- The place after a beginning of a text tells where the beginning ends. -/
theorem append_inj_of_past {p : Position} {first second left right : List Char}
    (hsplit : first ++ left = second ++ right) (hplace : p.past first = p.past second) :
    first = second ∧ left = right := by
  have hoffset := congrArg Position.offset hplace
  rw [offset_past, offset_past] at hoffset
  exact List.append_inj hsplit (by omega)

end Position

end TableLexer
