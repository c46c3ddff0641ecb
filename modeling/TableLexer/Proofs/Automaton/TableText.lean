import Mathlib.Data.List.Induction
import TableLexer.Proofs.Automaton.TableRows
/-!
The text of a table.  Rows of cells without commas and line endings are read from a table as they were
written to it, and all of them are kept if their first cells differ.
-/

namespace TableLexer

/-- What is to hold of the characters of a word is checked at these, and not at all characters. -/
instance (priority := high) decidableForallCharacters {p : Char → Prop} [DecidablePred p]
    (word : List Char) : Decidable (∀ c ∈ word, p c) :=
  List.decidableBAll p word

namespace Text

theorem linesFrom_append_of_notMem {word : List Char} (hword : '\n' ∉ word) (line : List Char)
    (done : List (List Char)) (rest : List Char) :
    linesFrom line done (word ++ rest) = linesFrom (word.reverse ++ line) done rest := by
  induction word generalizing line with
  | nil => rfl
  | cons c word ih =>
      have hc : c ≠ '\n' := fun heq => hword (heq ▸ List.mem_cons_self)
      have hrest : '\n' ∉ word := fun hmem => hword (List.mem_cons_of_mem c hmem)
      rw [List.cons_append, linesFrom, if_neg hc, ih hrest, List.reverse_cons, List.append_assoc,
        List.singleton_append]

theorem dropReturn_of_notMem {line : List Char} (hline : '\r' ∉ line) : dropReturn line = line := by
  rw [dropReturn.eq_def]
  split
  next rest => exact absurd List.mem_cons_self hline
  next => rfl

/-- A line without line endings ends with a line feed. -/
theorem linesFrom_line {line : List Char} (hfeed : '\n' ∉ line) (hreturn : '\r' ∉ line)
    (done : List (List Char)) (rest : List Char) :
    linesFrom [] done (line ++ '\n' :: rest) = linesFrom [] (line :: done) rest := by
  rw [linesFrom_append_of_notMem hfeed, List.append_nil, linesFrom, if_pos rfl,
    dropReturn_of_notMem (by simpa using hreturn), List.reverse_reverse]

/-- Lines that are ended by line feeds, and hold no line ending themselves. -/
theorem linesFrom_flatMap {words : List (List Char)}
    (hwords : ∀ word ∈ words, '\n' ∉ word ∧ '\r' ∉ word) (done : List (List Char)) :
    linesFrom [] done (words.flatMap (· ++ ['\n'])) = done.reverse ++ words := by
  induction words generalizing done with
  | nil => simp [linesFrom]
  | cons word words ih =>
      obtain ⟨hfeed, hreturn⟩ := hwords word List.mem_cons_self
      have hrest := ih fun other hmem => hwords other (List.mem_cons_of_mem word hmem)
      rw [List.flatMap_cons, List.append_assoc, List.singleton_append,
        linesFrom_line hfeed hreturn, hrest]
      simp

theorem splitFrom_append_of_notMem {separator : Char} {word : List Char} (hword : separator ∉ word)
    (piece : List Char) (done : List (List Char)) (rest : List Char) :
    splitFrom separator piece done (word ++ rest) =
      splitFrom separator (word.reverse ++ piece) done rest := by
  induction word generalizing piece with
  | nil => rfl
  | cons c word ih =>
      have hc : c ≠ separator := fun heq => hword (heq ▸ List.mem_cons_self)
      have hrest : separator ∉ word := fun hmem => hword (List.mem_cons_of_mem c hmem)
      rw [List.cons_append, splitFrom, if_neg hc, ih hrest, List.reverse_cons, List.append_assoc,
        List.singleton_append]

/-- Pieces that are joined by separators, and hold none themselves. -/
theorem splitFrom_intercalate {separator : Char} {words : List (List Char)} (hne : words ≠ [])
    (hwords : ∀ word ∈ words, separator ∉ word) (done : List (List Char)) :
    splitFrom separator [] done ([separator].intercalate words) = done.reverse ++ words := by
  induction words generalizing done with
  | nil => exact absurd rfl hne
  | cons word words ih =>
      have hword := hwords word List.mem_cons_self
      cases words with
      | nil =>
          have hend := splitFrom_append_of_notMem hword [] done []
          rw [List.append_nil, List.append_nil] at hend
          rw [List.intercalate_singleton, hend, splitFrom]
          simp
      | cons next words =>
          have hrest := ih (List.cons_ne_nil next words) fun other hmem =>
            hwords other (List.mem_cons_of_mem word hmem)
          rw [List.intercalate_cons_cons, List.append_assoc, splitFrom_append_of_notMem hword,
            List.append_nil, List.singleton_append, splitFrom, if_pos rfl, List.reverse_reverse,
            hrest]
          simp

theorem mem_intercalate {separator c : Char} {words : List (List Char)}
    (hmem : c ∈ [separator].intercalate words) : c = separator ∨ ∃ word ∈ words, c ∈ word := by
  induction words with
  | nil => simp at hmem
  | cons word words ih =>
      cases words with
      | nil => exact .inr ⟨word, List.mem_cons_self, by simpa using hmem⟩
      | cons next words =>
          rw [List.intercalate_cons_cons, List.append_assoc, List.singleton_append] at hmem
          rcases List.mem_append.mp hmem with hword | hrest
          · exact .inr ⟨word, List.mem_cons_self, hword⟩
          rcases List.mem_cons.mp hrest with hseparator | hrest
          · exact .inl hseparator
          rcases ih hrest with hseparator | ⟨other, hother, hc⟩
          · exact .inl hseparator
          · exact .inr ⟨other, List.mem_cons_of_mem word hother, hc⟩

end Text

namespace Table

/-- A cell that can be written: it holds neither a comma nor a line ending. -/
def Plain (cell : String) : Prop := ∀ c ∈ cell.toList, c ≠ ',' ∧ c ≠ '\n' ∧ c ≠ '\r'

instance (cell : String) : Decidable (Plain cell) :=
  inferInstanceAs (Decidable (∀ c ∈ cell.toList, c ≠ ',' ∧ c ≠ '\n' ∧ c ≠ '\r'))

theorem lines_write {rows : List (List String)} (hplain : ∀ cells ∈ rows, ∀ cell ∈ cells, Plain cell) :
    Text.lines (write rows) = rows.map (",".intercalate ·) := by
  have htext : (write rows).toList =
      (rows.map fun cells => [','].intercalate (cells.map String.toList)).flatMap (· ++ ['\n']) := by
    simp [write, String.toList_join, List.flatMap_map, String.toList_intercalate]
  have hends : ∀ word ∈ rows.map fun cells => [','].intercalate (cells.map String.toList),
      '\n' ∉ word ∧ '\r' ∉ word := by
    intro word hmem
    obtain ⟨cells, hcells, rfl⟩ := List.mem_map.mp hmem
    have hchars : ∀ c ∈ [','].intercalate (cells.map String.toList), c ≠ '\n' ∧ c ≠ '\r' := by
      intro c hc
      rcases Text.mem_intercalate hc with rfl | ⟨word, hword, hc⟩
      · decide
      · obtain ⟨cell, hcell, rfl⟩ := List.mem_map.mp hword
        exact (hplain cells hcells cell hcell c hc).2
    exact ⟨fun hmem => (hchars _ hmem).1 rfl, fun hmem => (hchars _ hmem).2 rfl⟩
  rw [Text.lines, htext, Text.linesFrom_flatMap hends, List.reverse_nil, List.nil_append,
    List.map_map]
  apply List.map_congr_left
  intro cells _
  rw [Function.comp, ← String.toList_inj, String.toList_ofList, String.toList_intercalate]
  rfl

theorem cut_intercalate {cells : List String} (hne : cells ≠ []) (hplain : ∀ cell ∈ cells, Plain cell) :
    Text.cut ',' (",".intercalate cells) = cells := by
  have hcommas : ∀ word ∈ cells.map String.toList, ',' ∉ word := by
    intro word hmem hcomma
    obtain ⟨cell, hcell, rfl⟩ := List.mem_map.mp hmem
    exact (hplain cell hcell ',' hcomma).1 rfl
  have htext : (",".intercalate cells).toList = [','].intercalate (cells.map String.toList) :=
    String.toList_intercalate
  rw [Text.cut, htext, Text.splitFrom_intercalate (by simpa using hne) hcommas, List.reverse_nil,
    List.nil_append, List.map_map]
  simp [Function.comp_def]

/-- Rows are read as they were written. -/
theorem textRows_write {rows : List (List String)} (hlabel : ∀ cells ∈ rows, label cells ≠ "")
    (hplain : ∀ cells ∈ rows, ∀ cell ∈ cells, Plain cell) : textRows (write rows) = rows := by
  have hlines : ∀ line ∈ rows.map (",".intercalate ·), decide (line ≠ "") = true := by
    intro line hmem
    obtain ⟨cells, hcells, rfl⟩ := List.mem_map.mp hmem
    cases cells with
    | nil => exact absurd rfl (hlabel [] hcells)
    | cons cell cells =>
        rw [decide_eq_true_iff]
        intro hempty
        have hcut := cut_intercalate (List.cons_ne_nil cell cells) (hplain _ hcells)
        rw [hempty] at hcut
        exact hlabel _ hcells (List.cons.inj hcut).1.symm
  rw [textRows, lines_write hplain, List.filter_eq_self.mpr hlines, List.map_map]
  refine (List.map_congr_left ?_).trans (List.map_id rows)
  intro cells hcells
  have hne : cells ≠ [] := by
    rintro rfl
    exact hlabel [] hcells rfl
  exact cut_intercalate hne (hplain cells hcells)

/-- Rows with different first cells are all kept. -/
theorem keptRows_eq_self {rows : List (List String)} (hnodup : (rows.map label).Nodup) :
    keptRows rows = rows := by
  induction rows using List.reverseRecOn with
  | nil => rfl
  | append_singleton rows cells ih =>
      rw [List.map_append, List.nodup_append] at hnodup
      obtain ⟨hrows, -, hfresh⟩ := hnodup
      have hnot : label cells ∉ rows.map label := fun hmem =>
        hfresh _ hmem (label cells) (List.mem_singleton_self _) rfl
      rw [keptRows_concat, ih hrows, if_neg hnot]

/-- A table whose first row is the header, with different names for its states. -/
theorem headerRow_cons {header : List String} {rows : List (List String)}
    (hmarker : label header = headerMarker) (hnodup : ((header :: rows).map label).Nodup) :
    headerRow (header :: rows) = header ∧ stateRows (header :: rows) = rows := by
  have hrows : ∀ cells ∈ rows, label cells ≠ headerMarker := by
    intro cells hmem heq
    rw [List.map_cons, List.nodup_cons, hmarker, ← heq] at hnodup
    exact hnodup.1 (List.mem_map_of_mem hmem)
  rw [headerRow, stateRows, keptRows_eq_self hnodup]
  constructor
  · rw [List.find?_cons_of_pos (by simpa using hmarker), Option.getD_some]
  · rw [List.filter_cons_of_neg (by simpa using hmarker), List.filter_eq_self]
    simpa using hrows

end Table

end TableLexer
