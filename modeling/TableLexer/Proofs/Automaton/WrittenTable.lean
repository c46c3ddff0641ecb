import TableLexer.Proofs.Automaton.Soundness
import TableLexer.Proofs.Automaton.TableText
import TableLexer.StandardTables
/-!
Machines of written tables.  A table that is written from rows has one column for every symbol, so its
machine leads where the destinations of the rows say and nowhere else.  The standard tables are written
from such rows, and questions about their machines become questions about a list.
-/

namespace TableLexer

open Table (Plain)

namespace StandardTables

/-- The first row of every written table. -/
def headerCells : List String := [Table.headerMarker, "Accepted"] ++ symbols.map symbolCell

/-- Rows that can be written: their names differ from each other, from no name and from the marker of
the header, and none of their cells holds a comma or a line ending. -/
structure Writable (rows : List Row) : Prop where
  names_nodup : (rows.map Row.name).Nodup
  named : ∀ row ∈ rows, row.name ≠ "" ∧ row.name ≠ Table.headerMarker
  plain : ∀ row ∈ rows, Plain row.name ∧ Plain row.accepted ∧ ∀ c, Plain (row.destination c)

theorem map_label_cells (rows : List Row) :
    (rows.map Row.cells).map Table.label = rows.map Row.name := by
  rw [List.map_map]
  rfl

theorem plain_headerCells : ∀ cell ∈ headerCells, Plain cell := by decide +kernel

/-- The symbols are single bytes, and each is decoded from its own header cell. -/
theorem symbol?_symbolCell : ∀ c ∈ symbols, Table.symbol? (symbolCell c) = some c := by
  decide +kernel

theorem nodup_symbols : symbols.Nodup := by decide +kernel

theorem textRows_write {rows : List Row} (hrows : Writable rows) :
    Table.textRows (write rows) = headerCells :: rows.map Row.cells := by
  apply Table.textRows_write
  · intro cells hmem
    rcases List.mem_cons.mp hmem with rfl | hmem
    · decide
    · obtain ⟨row, hrow, rfl⟩ := List.mem_map.mp hmem
      exact (hrows.named row hrow).1
  · intro cells hmem cell hcell
    rcases List.mem_cons.mp hmem with rfl | hmem
    · exact plain_headerCells cell hcell
    · obtain ⟨row, hrow, rfl⟩ := List.mem_map.mp hmem
      obtain ⟨hname, haccepted, hdestination⟩ := hrows.plain row hrow
      rcases List.mem_cons.mp hcell with rfl | hcell
      · exact hname
      rcases List.mem_cons.mp hcell with rfl | hcell
      · exact haccepted
      · obtain ⟨c, -, rfl⟩ := List.mem_map.mp hcell
        exact hdestination c

/-- The header and the states of a written table. -/
theorem rows_write {rows : List Row} (hrows : Writable rows) :
    Table.headerRow (Table.textRows (write rows)) = headerCells ∧
      Table.stateRows (Table.textRows (write rows)) = rows.map Row.cells := by
  rw [textRows_write hrows]
  apply Table.headerRow_cons rfl
  rw [List.map_cons, map_label_cells, List.nodup_cons]
  refine ⟨?_, hrows.names_nodup⟩
  intro hmem
  obtain ⟨row, hrow, hname⟩ := List.mem_map.mp hmem
  exact (hrows.named row hrow).2 hname

/-- In a written table a column leads on the character whose place among the symbols it has. -/
theorem leads_write_iff {rows : List Row} (hrows : Writable rows) (row : Row) (c : Char)
    (j k : Nat) :
    Table.Leads headerCells (rows.map Row.cells) row.cells c j k ↔
      (∃ n, j = 2 + n ∧ symbols[n]? = some c) ∧
        (rows.map Row.name)[k]? = some (row.destination c) := by
  constructor
  · rintro ⟨hplace, ⟨head, hhead, hsymbol⟩, hsingle, cell, hcell, -, htarget⟩
    obtain ⟨n, rfl⟩ := Nat.exists_eq_add_of_le hplace
    have hcolumn : (symbols.map symbolCell)[n]? = some head := by
      rw [← hhead, headerCells, List.getElem?_append_right (by simp)]
      simp
    rw [List.getElem?_map, Option.map_eq_some_iff] at hcolumn
    obtain ⟨d, hd, rfl⟩ := hcolumn
    have hdecoded := (Table.symbol?_eq_some_iff _ c).mpr ⟨hsymbol, hsingle⟩
    rw [symbol?_symbolCell d (List.mem_of_getElem? hd)] at hdecoded
    obtain rfl := Option.some.inj hdecoded
    have hdestination : (symbols.map row.destination)[n]? = some cell := by
      rw [← hcell, Row.cells, Nat.add_comm]
      rfl
    rw [List.getElem?_map, hd, Option.map_some, Option.some.injEq] at hdestination
    rw [hdestination, ← htarget, ← List.getElem?_map, map_label_cells]
    exact ⟨⟨n, rfl, hd⟩, rfl⟩
  · rintro ⟨⟨n, rfl, hn⟩, htarget⟩
    obtain ⟨hsymbol, hsingle⟩ := (Table.symbol?_eq_some_iff _ c).mp
      (symbol?_symbolCell c (List.mem_of_getElem? hn))
    refine ⟨Nat.le_add_right 2 n, ⟨symbolCell c, ?_, hsymbol⟩, hsingle, row.destination c, ?_, ?_, ?_⟩
    · rw [headerCells, List.getElem?_append_right (by simp)]
      simp [hn]
    · have hcolumn : (symbols.map row.destination)[n]? = some (row.destination c) := by
        rw [List.getElem?_map, hn, Option.map_some]
      rw [← hcolumn, Row.cells, Nat.add_comm]
      rfl
    · intro hempty
      rw [hempty] at htarget
      obtain ⟨other, hother, hname⟩ := List.mem_map.mp (List.mem_of_getElem? htarget)
      exact (hrows.named other hother).1 hname
    · rw [← List.getElem?_map, map_label_cells, htarget]

/-- A state of a written table leads on a symbol where its row says, if that is the name of a state. -/
theorem transition?_parse_write {rows : List Row} (hrows : Writable rows) (i : Nat) (c : Char) :
    (Table.parse (write rows)).value.machine.transition? i c =
      rows[i]?.bind fun row =>
        if c ∈ symbols then (rows.map Row.name).idxOf? (row.destination c) else none := by
  have hnodup : ((rows.map Row.cells).map Table.label).Nodup :=
    (map_label_cells rows).symm ▸ hrows.names_nodup
  rw [Table.machine_parse, (rows_write hrows).1, (rows_write hrows).2]
  apply Option.ext
  intro k
  rw [Table.transition?_rowStates_iff _ _ hnodup, Option.bind_eq_some_iff]
  constructor
  · rintro ⟨cells, hcells, j, hleads, -⟩
    rw [List.getElem?_map, Option.map_eq_some_iff] at hcells
    obtain ⟨row, hrow, rfl⟩ := hcells
    obtain ⟨⟨n, -, hn⟩, htarget⟩ :=
      (leads_write_iff hrows row c j k).mp hleads
    refine ⟨row, hrow, ?_⟩
    rw [if_pos (List.mem_of_getElem? hn), Machine.idxOf?_eq_some_iff_of_nodup hrows.names_nodup]
    exact htarget
  · rintro ⟨row, hrow, htarget⟩
    rw [Option.ite_none_right_eq_some,
      Machine.idxOf?_eq_some_iff_of_nodup hrows.names_nodup] at htarget
    obtain ⟨hsymbol, htarget⟩ := htarget
    obtain ⟨n, hn⟩ := List.mem_iff_getElem?.mp hsymbol
    have hleads := leads_write_iff hrows row c
    refine ⟨row.cells, by rw [List.getElem?_map, hrow, Option.map_some], 2 + n,
      (hleads _ k).mpr ⟨⟨n, rfl, hn⟩, htarget⟩, ?_⟩
    -- No two columns have the same symbol, so there is no column before this one.
    intro j' hj' k' hleads'
    obtain ⟨⟨n', rfl, hn'⟩, -⟩ := (hleads j' k').mp hleads'
    have hsame := (Machine.idxOf?_eq_some_iff_of_nodup nodup_symbols c n).mpr hn
    rw [(Machine.idxOf?_eq_some_iff_of_nodup nodup_symbols c n').mpr hn'] at hsame
    have := Option.some.inj hsame
    omega

theorem state?_parse_write {rows : List Row} (hrows : Writable rows) (i : Nat) :
    ((Table.parse (write rows)).value.machine.state? i).map State.accepted =
      rows[i]?.map fun row => if row.accepted = "" then none else some row.accepted := by
  rw [Table.machine_parse, (rows_write hrows).1, (rows_write hrows).2, Machine.state?,
    Machine.ofStates, List.getElem?_toArray, List.map_map, List.getElem?_map, Option.map_map]
  refine congrArg (fun f => rows[i]?.map f) (funext fun row => ?_)
  have hcell : row.cells[1]? = some row.accepted := rfl
  rw [Function.comp, Function.comp, (Table.rowState_frame _ _ row.cells).2, hcell,
    Option.filter_some]
  by_cases hempty : row.accepted = ""
  · simp [hempty]
  · simp [hempty]

theorem accepted?_parse_write {rows : List Row} (hrows : Writable rows) (i : Nat) :
    (Table.parse (write rows)).value.machine.accepted? i =
      rows[i]?.bind fun row => if row.accepted = "" then none else some row.accepted := by
  have hstate := state?_parse_write hrows i
  rw [Machine.accepted?]
  cases hfound : (Table.parse (write rows)).value.machine.state? i with
  | none =>
      rw [hfound, Option.map_none, eq_comm, Option.map_eq_none_iff] at hstate
      rw [hstate, Option.bind_none]
  | some s =>
      rw [hfound, Option.map_some, eq_comm, Option.map_eq_some_iff] at hstate
      obtain ⟨row, hrow, haccepted⟩ := hstate
      rw [hrow, Option.bind_some, haccepted]

/-- The states of a written table are numbered as its rows. -/
theorem stateId?_parse_write {rows : List Row} (hrows : Writable rows) (name : String) :
    (Table.parse (write rows)).value.machine.stateId? name =
      (rows.map Row.name).idxOf? name := by
  have hnames : (((rows.map Row.cells).map (Table.rowState headerCells
      (rows.map Row.cells))).map State.name) = rows.map Row.name := by
    rw [List.map_map, ← map_label_cells]
    exact List.map_congr_left fun cells _ => (Table.rowState_frame _ _ cells).1
  rw [Table.machine_parse, (rows_write hrows).1, (rows_write hrows).2]
  apply Option.ext
  intro i
  rw [Machine.stateId?_ofStates_iff (hnames.symm ▸ hrows.names_nodup), ← List.getElem?_map, hnames,
    Machine.idxOf?_eq_some_iff_of_nodup hrows.names_nodup]

/-- The machine of a written table begins in the first row. -/
theorem entry_parse_write {rows : List Row} (hrows : Writable rows) :
    (Table.parse (write rows)).value.machine.entry = if rows = [] then none else some 0 := by
  rw [Table.machine_parse, (rows_write hrows).2, Machine.ofStates]
  simp

/-- A state of a written table is dead if it leads nowhere on all symbols. -/
theorem isDead_parse_write {rows : List Row} (hrows : Writable rows) (i : Nat) :
    (Table.parse (write rows)).value.machine.isDead i ↔
      ∀ row ∈ rows[i]?, ∀ c ∈ symbols, row.destination c ∉ rows.map Row.name := by
  have hsound := Table.sound_parse (write rows)
  have htransition := transition?_parse_write hrows i
  have hsize : (Table.parse (write rows)).value.machine.size = rows.length := by
    rw [Table.machine_parse, (rows_write hrows).2]
    simp [Machine.size, Machine.ofStates]
  by_cases hi : i < rows.length
  · have hrow : rows[i]? = some rows[i] := List.getElem?_eq_getElem hi
    rw [hsound.isDead_iff (hsize ▸ hi)]
    simp only [htransition, hrow, Option.bind_some, Option.mem_some_iff, forall_eq',
      ite_eq_right_iff, List.idxOf?_eq_none_iff]
  · have hnone : rows[i]? = none := List.getElem?_eq_none (Nat.le_of_not_lt hi)
    have hstate : (Table.parse (write rows)).value.machine.state? i = none := by
      apply Array.getElem?_eq_none
      rw [← Machine.size, hsize]
      exact Nat.le_of_not_lt hi
    simp [Machine.isDead, hstate, hnone]

end StandardTables

end TableLexer
