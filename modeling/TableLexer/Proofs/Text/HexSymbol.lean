import Mathlib.Data.Nat.Digits.Defs
import Mathlib.Tactic.Ring
import TableLexer.Proofs.Automaton.Counting
/-!
Symbols as numbers in base sixteen.  A cell is cut at its markers and the pieces are put together; what
remains is decoded if it is a number in base sixteen that is the number of a character, and also if it
is such a number after a plus sign.
-/

namespace TableLexer

namespace HexSymbol

section Numerals

/-- The digits of base sixteen, in the order of their values. -/
def digits : List Char :=
  ['0', '1', '2', '3', '4', '5', '6', '7', '8', '9', 'a', 'b', 'c', 'd', 'e', 'f']

/-- The value of a digit, whichever its case is. -/
def digitValue (c : Char) : Nat := digits.idxOf c.toLower

/-- Whether a word is a number in base sixteen: one digit or more, each of either case. -/
def IsNumeral (word : List Char) : Prop := word ≠ [] ∧ ∀ c ∈ word, c.isHexDigit

instance (word : List Char) : Decidable (IsNumeral word) :=
  inferInstanceAs (Decidable (word ≠ [] ∧ ∀ c ∈ word, c.isHexDigit))

/-- The number that a word of digits writes. -/
def numeral (word : List Char) : Nat := Nat.ofDigits 16 (word.reverse.map digitValue)

/-- Whether a word is the number of a character. -/
def Writes (word : List Char) (c : Char) : Prop := IsNumeral word ∧ numeral word = c.toNat

theorem numeral_cons (c : Char) (word : List Char) :
    numeral (c :: word) = digitValue c * 16 ^ word.length + numeral word := by
  rw [numeral, List.reverse_cons, List.map_append, Nat.ofDigits_append, List.map_singleton,
    Nat.ofDigits_singleton, List.length_map, List.length_reverse, numeral, Nat.add_comm,
    Nat.mul_comm]

theorem isHexDigit_iff (c : Char) : c.isHexDigit ↔
    ('0' ≤ c ∧ c ≤ '9') ∨ ('a' ≤ c ∧ c ≤ 'f') ∨ ('A' ≤ c ∧ c ≤ 'F') := by
  simp only [Char.isHexDigit, Char.isDigit, Bool.or_eq_true, Bool.and_eq_true, decide_eq_true_iff,
    Char.le_def, ge_iff_le, or_assoc]

theorem digit?_ofNat : ∀ n < 128, (Char.ofNat n).isHexDigit →
    digit? (Char.ofNat n) = some (digitValue (Char.ofNat n)) := by
  decide +kernel

theorem digit?_of_isHexDigit {c : Char} (hc : c.isHexDigit) : digit? c = some (digitValue c) := by
  have hlt : c.toNat < 128 := by
    rcases (isHexDigit_iff c).mp hc with ⟨-, hle⟩ | ⟨-, hle⟩ | ⟨-, hle⟩
    · exact Nat.lt_of_le_of_lt hle (by decide)
    · exact Nat.lt_of_le_of_lt hle (by decide)
    · exact Nat.lt_of_le_of_lt hle (by decide)
  have hdigit := digit?_ofNat c.toNat hlt
  rw [Char.ofNat_toNat] at hdigit
  exact hdigit hc

theorem digit?_of_not_isHexDigit {c : Char} (hc : ¬ c.isHexDigit) : digit? c = none := by
  rw [isHexDigit_iff, not_or, not_or] at hc
  rw [digit?, if_neg hc.1, if_neg hc.2.1, if_neg hc.2.2]

/-- Digits go on a number that was read before them. -/
theorem valueFrom_eq_some_iff (read : Nat) (word : List Char) (n : Nat) :
    valueFrom read word = some n ↔
      (∀ c ∈ word, c.isHexDigit) ∧ read * 16 ^ word.length + numeral word = n := by
  induction word generalizing read with
  | nil => simp [valueFrom, numeral]
  | cons c word ih =>
      rw [valueFrom, List.forall_mem_cons]
      by_cases hc : c.isHexDigit
      · have hshift : (16 * read + digitValue c) * 16 ^ word.length + numeral word =
            read * 16 ^ (c :: word).length + numeral (c :: word) := by
          rw [numeral_cons, List.length_cons, Nat.pow_succ]
          ring
        rw [digit?_of_isHexDigit hc, Option.bind_some, ih, hshift]
        simp [hc]
      · rw [digit?_of_not_isHexDigit hc, Option.bind_none]
        simp [hc]

/-- A plus sign is no digit. -/
theorem not_isNumeral_plus (word : List Char) : ¬ IsNumeral ('+' :: word) := by
  rintro ⟨-, hdigits⟩
  exact absurd (hdigits '+' List.mem_cons_self) (by decide)

/-- A number is a numeral, or a numeral after a plus sign. -/
theorem value?_eq_some_iff (word : List Char) (n : Nat) : value? word = some n ↔
    (IsNumeral word ∧ numeral word = n) ∨
      ∃ rest, word = '+' :: rest ∧ IsNumeral rest ∧ numeral rest = n := by
  have hvalue : ∀ word, word ≠ [] →
      (valueFrom 0 word = some n ↔ IsNumeral word ∧ numeral word = n) := by
    intro word hne
    rw [valueFrom_eq_some_iff, Nat.zero_mul, Nat.zero_add, IsNumeral, and_iff_right hne]
  have hempty : ¬ IsNumeral [] := fun hnumeral => hnumeral.1 rfl
  fun_cases value? word with
  | case1 => simp [hempty]
  | case2 => simp [hempty, not_isNumeral_plus]
  | case3 rest hne =>
      rw [hvalue rest hne]
      simp [not_isNumeral_plus]
  | case4 word hne hsingle hsigned =>
      rw [hvalue word hne, or_iff_left]
      rintro ⟨rest, heq, -⟩
      exact hsigned rest heq

theorem scalar?_eq_some_iff (n : Nat) (c : Char) : scalar? n = some c ↔ n = c.toNat := by
  rw [scalar?, Option.ite_none_right_eq_some]
  constructor
  · rintro ⟨hvalid, hchar⟩
    rw [← Option.some.inj hchar, Char.ofNat, dif_pos hvalid]
    rfl
  · rintro rfl
    exact ⟨c.valid, by rw [Char.ofNat_toNat]⟩

end Numerals

section Markers

/-- What marks an escape. -/
def marker : List Char := ['0', 'x']

/-- Whether `rest` is a cell without its markers: the cell is cut at its markers, and the pieces are put
together. -/
def Unmarked (cell rest : List Char) : Prop :=
  ∃ pieces : List (List Char), (∀ piece ∈ pieces, ¬ marker <:+: piece) ∧
    cell = marker.intercalate pieces ∧ rest = pieces.flatten

theorem not_marker_infix_nil : ¬ marker <:+: [] := by simp [marker]

/-- A marker stands at the beginning, or behind the first character. -/
theorem marker_infix_cons_iff (c : Char) (rest : List Char) :
    marker <:+: c :: rest ↔ (c = '0' ∧ rest.head? = some 'x') ∨ marker <:+: rest := by
  rw [List.infix_cons_iff, marker, List.cons_prefix_cons, List.singleton_prefix_iff_head?_eq_some,
    eq_comm (a := '0')]

theorem hasMarker_iff (cell : List Char) : hasMarker cell ↔ marker <:+: cell := by
  fun_induction hasMarker cell with
  | case1 rest => simp [marker_infix_cons_iff]
  | case2 c rest hother ih =>
      rw [marker_infix_cons_iff, ih, or_iff_right]
      rintro ⟨hc, hhead⟩
      obtain ⟨tail, htail⟩ := List.head?_eq_some_iff.mp hhead
      exact hother tail hc htail
  | case3 => exact iff_of_false Bool.false_ne_true not_marker_infix_nil

/-- Reading goes past a piece without a marker, if what follows does not make it one. -/
theorem withoutMarkers_append {piece : List Char} (hpiece : ¬ marker <:+: piece) (kept : List Char)
    {rest : List Char} (hrest : rest.head? ≠ some 'x') :
    withoutMarkers kept (piece ++ rest) = withoutMarkers (piece.reverse ++ kept) rest := by
  induction piece generalizing kept with
  | nil => rfl
  | cons c piece ih =>
      rw [marker_infix_cons_iff, not_or] at hpiece
      have hother : ∀ tail, c = '0' → piece ++ rest = 'x' :: tail → False := by
        intro tail hc htail
        cases piece with
        | nil => exact hrest (by rw [← List.nil_append rest, htail, List.head?_cons])
        | cons d piece =>
            rw [List.cons_append] at htail
            exact hpiece.1 ⟨hc, by rw [(List.cons.inj htail).1, List.head?_cons]⟩
      rw [List.cons_append, withoutMarkers, ih hpiece.2, List.reverse_cons, List.append_assoc,
        List.singleton_append]
      exact hother

/-- Between the markers, reading keeps the pieces. -/
theorem withoutMarkers_intercalate {pieces : List (List Char)}
    (hpieces : ∀ piece ∈ pieces, ¬ marker <:+: piece) (kept : List Char) :
    withoutMarkers kept (marker.intercalate pieces) = kept.reverse ++ pieces.flatten := by
  induction pieces generalizing kept with
  | nil => simp [withoutMarkers]
  | cons piece pieces ih =>
      rw [List.forall_mem_cons] at hpieces
      cases pieces with
      | nil =>
          have hread : withoutMarkers kept (piece ++ []) = withoutMarkers (piece.reverse ++ kept) [] :=
            withoutMarkers_append hpieces.1 kept (by simp)
          rw [List.append_nil] at hread
          rw [List.intercalate_singleton, hread, withoutMarkers]
          simp
      | cons next pieces =>
          rw [List.intercalate_cons_cons, List.append_assoc,
            withoutMarkers_append hpieces.1 kept (by simp [marker]), marker, List.cons_append,
            List.cons_append, List.nil_append, withoutMarkers]
          rw [show ['0', 'x'] = marker from rfl, ih hpieces.2]
          simp

/-- Every cell can be cut at its markers. -/
theorem exists_pieces (kept cell : List Char) :
    ∃ piece pieces, (∀ other ∈ piece :: pieces, ¬ marker <:+: other) ∧
      cell = marker.intercalate (piece :: pieces) ∧
      withoutMarkers kept cell = kept.reverse ++ (piece :: pieces).flatten := by
  fun_induction withoutMarkers kept cell with
  | case1 kept rest ih =>
      obtain ⟨piece, pieces, hpieces, hrest, hread⟩ := ih
      refine ⟨[], piece :: pieces, ?_, ?_, ?_⟩
      · exact List.forall_mem_cons.mpr ⟨not_marker_infix_nil, hpieces⟩
      · rw [List.intercalate_cons_cons, ← hrest]
        rfl
      · exact hread
  | case2 kept c rest hother ih =>
      obtain ⟨piece, pieces, hpieces, hrest, hread⟩ := ih
      rw [List.forall_mem_cons] at hpieces
      refine ⟨c :: piece, pieces, ?_, ?_, ?_⟩
      · rw [List.forall_mem_cons, marker_infix_cons_iff, or_iff_left hpieces.1]
        refine ⟨?_, hpieces.2⟩
        rintro ⟨hc, hhead⟩
        obtain ⟨tail, rfl⟩ := List.head?_eq_some_iff.mp hhead
        exact hother _ hc (hrest.trans List.intercalate_cons_cons_left)
      · rw [List.intercalate_cons_cons_left, hrest]
      · rw [hread]
        simp
  | case3 kept =>
      exact ⟨[], [], List.forall_mem_singleton.mpr not_marker_infix_nil, rfl, by simp⟩

/-- There is one way to take the markers out. -/
theorem unmarked_iff (cell rest : List Char) :
    Unmarked cell rest ↔ rest = withoutMarkers [] cell := by
  constructor
  · rintro ⟨pieces, hpieces, rfl, rfl⟩
    rw [withoutMarkers_intercalate hpieces, List.reverse_nil, List.nil_append]
  · rintro rfl
    obtain ⟨piece, pieces, hpieces, hcell, hread⟩ := exists_pieces [] cell
    exact ⟨piece :: pieces, hpieces, hcell, by simpa using hread⟩

end Markers

section Cells

/-- A cell decodes as what remains of it without its markers says, with or without a plus sign. -/
theorem decode?_eq_some_iff (cell : String) (c : Char) : decode? cell = some c ↔
    Writes (withoutMarkers [] cell.toList) c ∨
      ∃ word, withoutMarkers [] cell.toList = '+' :: word ∧ Writes word c := by
  simp only [decode?, Option.bind_eq_some_iff, scalar?_eq_some_iff, value?_eq_some_iff, Writes]
  constructor
  · rintro ⟨n, hvalue, rfl⟩
    exact hvalue
  · exact fun hvalue => ⟨c.toNat, hvalue, rfl⟩

theorem ofCell?_of_marker {cell : String} (hmarker : marker <:+: cell.toList) :
    ofCell? cell = decode? cell :=
  if_pos ((hasMarker_iff cell.toList).mpr hmarker)

/-- A header cell with a marker that decodes to nothing has no symbol. -/
theorem symbol?_eq_none_of_marker {cell : String} (hmarker : marker <:+: cell.toList)
    (hnone : decode? cell = none) : Table.symbol? cell = none := by
  rw [Table.symbol?, ofCell?_of_marker hmarker, hnone, Option.filter_none]

/-- Whether a cell decodes to a character if and only if what remains of it without its markers is the
number of that character; a header cell with a marker and without such a number has no symbol. -/
def DecodesNumerals (cell : String) : Prop :=
  ∀ word, Unmarked cell.toList word →
    (∀ c, decode? cell = some c ↔ Writes word c) ∧
    (marker <:+: cell.toList → (∀ c, ¬ Writes word c) → Table.symbol? cell = none)

/-- What cells decode to.  The markers of a cell can be taken out in one way.  What remains decodes to the
character whose number it is in base sixteen, and so it does after a plus sign; it decodes to nothing
else.  A header cell with a marker that decodes to nothing makes its column absent.  So only numbers are
decoded if and only if what remains is no number of a character after a plus sign. -/
theorem decodesNumerals_iff (cell : String) :
    (∃ word, (∀ other, Unmarked cell.toList other ↔ other = word) ∧
      ∀ c, decode? cell = some c ↔ Writes word c ∨ ∃ rest, word = '+' :: rest ∧ Writes rest c) ∧
    (∀ header j, Table.labelColumns ≤ j → header[j]? = some cell → marker <:+: cell.toList →
      decode? cell = none →
        (j, cell) ∈ (Table.columnsOf header).absent ∧
        (Table.columnsOf header).classes[j - Table.labelColumns]? = some none) ∧
    (DecodesNumerals cell ↔
      ∀ word, Unmarked cell.toList ('+' :: word) → ∀ c, ¬ Writes word c) := by
  refine ⟨⟨_, unmarked_iff cell.toList, decode?_eq_some_iff cell⟩, ?_, ?_⟩
  · intro header j hplace hcell hmarker hnone
    have habsent : (j, cell) ∈ (Table.columnsOf header).absent :=
      (Table.mem_absent_columnsOf_iff header j cell).mpr
        ⟨hplace, hcell, symbol?_eq_none_of_marker hmarker hnone⟩
    exact ⟨habsent, Table.getElem?_classes_of_absent habsent⟩
  · constructor
    · intro hnumerals word hword c hwrites
      have hdecodes : decode? cell = some c :=
        (decode?_eq_some_iff cell c).mpr
          (.inr ⟨word, ((unmarked_iff _ _).mp hword).symm, hwrites⟩)
      obtain ⟨hnumeral, -⟩ := ((hnumerals _ hword).1 c).mp hdecodes
      exact not_isNumeral_plus word hnumeral
    · intro hplain word hword
      have hdecodes : ∀ c, decode? cell = some c ↔ Writes word c := by
        intro c
        rw [decode?_eq_some_iff, ← (unmarked_iff _ _).mp hword, or_iff_left]
        rintro ⟨rest, rfl, hwrites⟩
        exact hplain rest hword c hwrites
      refine ⟨hdecodes, fun hmarker hnone => symbol?_eq_none_of_marker hmarker ?_⟩
      rw [Option.eq_none_iff_forall_ne_some]
      exact fun c hc => hnone c ((hdecodes c).mp hc)

/-- A plus sign before a number is let through. -/
theorem not_decodesNumerals_plus : ¬ DecodesNumerals "0x+41" := by
  have hword : Unmarked "0x+41".toList ['+', '4', '1'] := by
    rw [unmarked_iff]
    decide
  intro hnumerals
  have hwrites : Writes ['+', '4', '1'] 'A' := ((hnumerals _ hword).1 'A').mp (by decide)
  exact not_isNumeral_plus _ hwrites.1

end Cells

end HexSymbol

end TableLexer
