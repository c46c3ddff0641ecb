import Std.Data.HashSet.Lemmas
import TableLexer.Automaton.Table
/-!
Rows and columns of a table.  A row is kept if no row before it has the same first cell.  The
symbols of the columns are numbered in the order in which they come first.
-/

namespace TableLexer.Table

/-- The rows of a text: the cells of every line that is not empty. -/
def textRows (text : String) : List (List String) :=
  ((Text.lines text).filter (· ≠ "")).map (Text.cut ',')

/-- The rows whose first cell is not the first cell of any row before them. -/
def keptRows (rows : List (List String)) : List (List String) :=
  (rows.zipIdx.filter fun (cells, i) => label cells ∉ (rows.take i).map label).map Prod.fst

/-- The kept row that is the header; a table without one has no cells there. -/
def headerRow (rows : List (List String)) : List String :=
  ((keptRows rows).find? fun cells => label cells = headerMarker).getD []

/-- The kept rows that are states. -/
def stateRows (rows : List (List String)) : List (List String) :=
  (keptRows rows).filter fun cells => label cells ≠ headerMarker

theorem keptRows_concat (rows : List (List String)) (cells : List String) :
    keptRows (rows ++ [cells]) =
      keptRows rows ++ if label cells ∈ rows.map label then [] else [cells] := by
  have hearlier : rows.zipIdx.filter
        (fun (cells', i) => label cells' ∉ ((rows ++ [cells]).take i).map label) =
      rows.zipIdx.filter (fun (cells', i) => label cells' ∉ (rows.take i).map label) := by
    apply List.filter_congr
    rintro ⟨cells', i⟩ hmem
    have hi : i ≤ rows.length := Nat.le_of_lt (List.snd_lt_of_mem_zipIdx hmem)
    simp only [List.take_append_of_le_length hi]
  rw [keptRows, List.zipIdx_append, List.filter_append, hearlier, List.map_append, keptRows]
  congr 1
  split <;> simp_all

theorem keptRows_sublist (rows : List (List String)) : (keptRows rows).Sublist rows := by
  have hsublist : (keptRows rows).Sublist (rows.zipIdx.map Prod.fst) :=
    List.filter_sublist.map Prod.fst
  rwa [List.zipIdx_map_fst] at hsublist

theorem mem_of_mem_keptRows {rows : List (List String)} {cells : List String}
    (hmem : cells ∈ keptRows rows) : cells ∈ rows :=
  (keptRows_sublist rows).subset hmem

/-- What `keepFirst` has made of the rows in `done`. -/
structure Keeping (done : List (List String)) (seen : Std.HashSet String)
    (kept : List (List String)) : Prop where
  kept_eq : kept.reverse = keptRows done
  seen_iff : ∀ name, seen.contains name ↔ name ∈ done.map label
  nodup : ((keptRows done).map label).Nodup

theorem Keeping.nil : Keeping [] ∅ [] := ⟨rfl, by simp, List.nodup_nil⟩

theorem Keeping.repeated {done : List (List String)} {seen : Std.HashSet String}
    {kept : List (List String)} (hkeeping : Keeping done seen kept) {cells : List String}
    (hseen : seen.contains (label cells)) : Keeping (done ++ [cells]) seen kept := by
  have hmem := (hkeeping.seen_iff _).mp hseen
  have hkept : keptRows (done ++ [cells]) = keptRows done := by
    rw [keptRows_concat, if_pos hmem, List.append_nil]
  refine ⟨hkeeping.kept_eq.trans hkept.symm, ?_, hkept ▸ hkeeping.nodup⟩
  intro name
  rw [hkeeping.seen_iff, List.map_append, List.mem_append]
  constructor
  · exact .inl
  · rintro (hname | hlast)
    · exact hname
    · obtain rfl := List.mem_singleton.mp hlast
      exact hmem

theorem Keeping.fresh {done : List (List String)} {seen : Std.HashSet String}
    {kept : List (List String)} (hkeeping : Keeping done seen kept) {cells : List String}
    (hfresh : ¬ seen.contains (label cells)) :
    Keeping (done ++ [cells]) (seen.insert (label cells)) (cells :: kept) := by
  have hnotMem : label cells ∉ done.map label := fun h => hfresh ((hkeeping.seen_iff _).mpr h)
  have hkept : keptRows (done ++ [cells]) = keptRows done ++ [cells] := by
    rw [keptRows_concat, if_neg hnotMem]
  refine ⟨?_, ?_, ?_⟩
  · rw [hkept, List.reverse_cons, hkeeping.kept_eq]
  · intro name
    rw [Std.HashSet.contains_insert, Bool.or_eq_true, hkeeping.seen_iff, beq_iff_eq,
      List.map_append, List.mem_append, List.map_singleton, List.mem_singleton, or_comm,
      eq_comm]
  · rw [hkept, List.map_append, List.nodup_append]
    refine ⟨hkeeping.nodup, by simp, ?_⟩
    intro name hname other hother heq
    obtain rfl := List.mem_singleton.mp (heq ▸ hother)
    obtain ⟨earlier, hearlier, hlabel⟩ := List.mem_map.mp hname
    exact hnotMem (hlabel ▸ List.mem_map_of_mem (mem_of_mem_keptRows hearlier))

theorem Keeping.keepFirst {done : List (List String)} {seen : Std.HashSet String}
    {kept : List (List String)} (hkeeping : Keeping done seen kept) (repeated : List String)
    (rest : List (List String)) :
    (Table.keepFirst seen kept repeated rest).1 = keptRows (done ++ rest) ∧
      ((keptRows (done ++ rest)).map label).Nodup := by
  induction rest generalizing done seen kept repeated with
  | nil =>
      rw [List.append_nil]
      exact ⟨hkeeping.kept_eq, hkeeping.nodup⟩
  | cons cells rest ih =>
      rw [List.append_cons, Table.keepFirst]
      by_cases hseen : seen.contains (label cells)
      · rw [if_pos hseen]
        exact ih (hkeeping.repeated hseen) _
      · rw [if_neg hseen]
        exact ih (hkeeping.fresh hseen) _

/-- No two kept rows have the same first cell. -/
theorem nodup_label_keptRows (rows : List (List String)) : ((keptRows rows).map label).Nodup :=
  (Keeping.nil.keepFirst [] rows).2

example : keptRows [["S", "a"], ["T"], ["S", "b"]] = [["S", "a"], ["T"]] := by decide

theorem nodup_label_stateRows (rows : List (List String)) : ((stateRows rows).map label).Nodup :=
  (nodup_label_keptRows rows).sublist (List.filter_sublist.map label)

theorem header?_rowsOf (text : String) : (rowsOf text).header =
    (keptRows (textRows text)).find? fun cells => label cells = headerMarker :=
  congrArg (List.find? _) (Keeping.nil.keepFirst [] (textRows text)).1

theorem header_rowsOf (text : String) : (rowsOf text).header.getD [] = headerRow (textRows text) := by
  rw [header?_rowsOf, headerRow]

theorem states_rowsOf (text : String) : (rowsOf text).states = stateRows (textRows text) :=
  congrArg (List.filter fun cells => label cells ≠ headerMarker)
    (Keeping.nil.keepFirst [] (textRows text)).1

/-- What `addColumn` has made of the header cells in `done`. -/
structure Gathers (columns : Columns) (done : List String) : Prop where
  classes_eq : columns.classes.reverse =
    done.map fun cell => (symbol? cell).bind columns.alphabet.idxOf?
  mem_alphabet_iff : ∀ c, c ∈ columns.alphabet ↔ ∃ cell ∈ done, symbol? cell = some c
  nodup : columns.alphabet.Nodup

theorem Gathers.nil : Gathers ⟨[], [], []⟩ [] := ⟨rfl, by simp, by simp⟩

theorem idxOf?_append_of_mem {alphabet : List Char} {c : Char} (hmem : c ∈ alphabet)
    (others : List Char) : (alphabet ++ others).idxOf? c = alphabet.idxOf? c := by
  obtain ⟨i, hi⟩ := Option.isSome_iff_exists.mp (List.isSome_idxOf?.mpr hmem)
  rw [hi]
  rw [List.idxOf?] at hi ⊢
  rw [List.findIdx?_append, hi, Option.some_or]

theorem idxOf?_concat_of_not_mem {alphabet : List Char} {c : Char} (hmem : c ∉ alphabet) :
    (alphabet ++ [c]).idxOf? c = some alphabet.length := by
  rw [← List.idxOf?_eq_none_iff, List.idxOf?] at hmem
  rw [List.idxOf?, List.findIdx?_append, hmem]
  simp

/-- A new symbol at the end of an alphabet leaves the classes of the columns before it as they
are. -/
theorem Gathers.classes_eq_concat {columns : Columns} {done : List String}
    (hgathers : Gathers columns done) (c : Char) : columns.classes.reverse =
      done.map fun cell => (symbol? cell).bind (columns.alphabet ++ [c]).idxOf? := by
  rw [hgathers.classes_eq]
  apply List.map_congr_left
  intro cell hcell
  cases hsymbol : symbol? cell with
  | none => rfl
  | some d =>
      have hmem := (hgathers.mem_alphabet_iff d).mpr ⟨cell, hcell, hsymbol⟩
      exact (idxOf?_append_of_mem hmem [c]).symm

theorem Gathers.add {columns : Columns} {done : List String} (hgathers : Gathers columns done)
    (place : Nat) (cell : String) : Gathers (addColumn columns place cell) (done ++ [cell]) := by
  have hmem : ∀ c, (∃ other ∈ done ++ [cell], symbol? other = some c) ↔
      c ∈ columns.alphabet ∨ symbol? cell = some c := by
    intro c
    rw [hgathers.mem_alphabet_iff]
    simp only [List.mem_append, List.mem_singleton, or_and_right, exists_or, exists_eq_left]
  cases hsymbol : symbol? cell with
  | none =>
      simp only [addColumn, hsymbol]
      refine ⟨?_, ?_, hgathers.nodup⟩
      · simp [hgathers.classes_eq, hsymbol]
      · intro d
        rw [hmem, hsymbol]
        simp
  | some c =>
      cases hclass : columns.alphabet.idxOf? c with
      | some symbolClass =>
          simp only [addColumn, hsymbol, hclass]
          have hold : c ∈ columns.alphabet := List.isSome_idxOf?.mp (by rw [hclass]; rfl)
          refine ⟨?_, ?_, hgathers.nodup⟩
          · simp [hgathers.classes_eq, hsymbol, hclass]
          · intro d
            rw [hmem, hsymbol, Option.some.injEq]
            constructor
            · exact .inl
            · rintro (hd | rfl)
              · exact hd
              · exact hold
      | none =>
          simp only [addColumn, hsymbol, hclass]
          have hnew : c ∉ columns.alphabet := List.idxOf?_eq_none_iff.mp hclass
          refine ⟨?_, ?_, ?_⟩
          · simp [hgathers.classes_eq_concat c, hsymbol, idxOf?_concat_of_not_mem hnew]
          · intro d
            rw [hmem, hsymbol, Option.some.injEq, List.mem_append, List.mem_singleton,
              eq_comm (a := c)]
          · rw [List.nodup_append]
            refine ⟨hgathers.nodup, by simp, ?_⟩
            intro d hd e he heq
            obtain rfl := List.mem_singleton.mp (heq ▸ he)
            exact hnew hd

theorem Gathers.foldl {columns : Columns} {done : List String} (hgathers : Gathers columns done)
    (cells : List (String × Nat)) :
    Gathers (cells.foldl (fun columns (cell, place) => addColumn columns place cell) columns)
      (done ++ cells.map Prod.fst) := by
  induction cells generalizing columns done with
  | nil => simpa using hgathers
  | cons cell cells ih =>
      rw [List.foldl_cons, List.map_cons, List.append_cons]
      exact ih (hgathers.add cell.2 cell.1)

/-- The columns of a header: every column has the class of its symbol, and the classes number the
distinct symbols. -/
theorem columnsOf_gathers (header : List String) :
    ((columnsOf header).classes = (header.drop labelColumns).map fun cell =>
      (symbol? cell).bind (columnsOf header).alphabet.idxOf?) ∧
    (∀ c, c ∈ (columnsOf header).alphabet ↔
      ∃ cell ∈ header.drop labelColumns, symbol? cell = some c) ∧
    (columnsOf header).alphabet.Nodup := by
  have hgathers := Gathers.nil.foldl (header.zipIdx.drop labelColumns)
  rw [List.nil_append, List.map_drop, List.zipIdx_map_fst] at hgathers
  exact ⟨hgathers.classes_eq, hgathers.mem_alphabet_iff, hgathers.nodup⟩

example : (columnsOf ["", "", "a", "0x62", "a"]).classes = [some 0, some 1, some 0] := by decide

/-- A column has the class of a symbol if and only if it has the symbol. -/
theorem bind_idxOf?_eq_some_iff {alphabet : List Char} {c : Char} {symbolClass : Nat}
    (hclass : alphabet.idxOf? c = some symbolClass) (symbol : Option Char) :
    symbol.bind alphabet.idxOf? = some symbolClass ↔ symbol = some c := by
  constructor
  · cases symbol with
    | none => simp
    | some d =>
        intro hd
        obtain ⟨_, hentry, -⟩ := List.idxOf?_eq_some_iff.mp hclass
        obtain ⟨_, hentry', -⟩ := List.idxOf?_eq_some_iff.mp hd
        rw [← hentry, ← hentry']
  · rintro rfl
    exact hclass

end TableLexer.Table
