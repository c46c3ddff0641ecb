import TableLexer.Proofs.Automaton.Filling
import TableLexer.Proofs.Automaton.Numbering
import TableLexer.Proofs.Automaton.TableRows
/-!
The machine of a table.  Its states are the rows that are kept, and each of them leads on a
character where the least column of the character leads that names a state.
-/

namespace TableLexer.Table

/-- In a row of a table, column `j` leads to state `k` on a character: the header cell of the column
decodes to it, it is a single byte, and the cell of the row names the state. -/
structure Leads (header : List String) (states : List (List String)) (cells : List String)
    (c : Char) (j k : Nat) : Prop where
  place : 2 ≤ j
  symbol : ∃ cell, header[j]? = some cell ∧ HexSymbol.ofCell? cell = some c
  single : c.toNat < 256
  target : ∃ cell, cells[j]? = some cell ∧ cell ≠ "" ∧ states[k]?.map label = some cell

theorem symbol?_eq_some_iff (cell : String) (c : Char) :
    symbol? cell = some c ↔ HexSymbol.ofCell? cell = some c ∧ c.toNat < 256 := by
  rw [symbol?, Option.filter_eq_some_iff, decide_eq_true_iff, Machine.alphabetSize]

/-- A character on which a column leads has a class. -/
theorem Leads.exists_class {header : List String} {states : List (List String)}
    {cells : List String} {c : Char} {j k : Nat} (hleads : Leads header states cells c j k) :
    ∃ symbolClass, (columnsOf header).alphabet.idxOf? c = some symbolClass := by
  obtain ⟨hplace, ⟨cell, hcell, hsymbol⟩, hsingle, -⟩ := hleads
  obtain ⟨-, hmem, -⟩ := columnsOf_gathers header
  apply Option.isSome_iff_exists.mp
  rw [List.isSome_idxOf?, hmem]
  refine ⟨cell, ?_, (symbol?_eq_some_iff cell c).mpr ⟨hsymbol, hsingle⟩⟩
  obtain ⟨i, rfl⟩ := Nat.exists_eq_add_of_le hplace
  rw [← List.getElem?_drop] at hcell
  exact List.mem_of_getElem? hcell

theorem bind_aim?_eq_some_iff {stateId? : String → Option Nat} {header : List String}
    {states : List (List String)}
    (hstateId : ∀ name k, stateId? name = some k ↔ states[k]?.map label = some name)
    {c : Char} {symbolClass : Nat} (hsingle : c.toNat < 256)
    (hclass : (columnsOf header).alphabet.idxOf? c = some symbolClass) (cells : List String)
    (j k : Nat) :
    (((cells.drop labelColumns).zip (columnsOf header).classes)[j]?).bind
        (aim? stateId? symbolClass) = some k ↔ Leads header states cells c (2 + j) k := by
  rw [Option.bind_eq_some_iff, (columnsOf_gathers header).1]
  constructor
  · rintro ⟨⟨cell, columnClass⟩, hzip, haim⟩
    obtain ⟨hcell, hcolumn⟩ := List.getElem?_zip_eq_some.mp hzip
    rw [List.getElem?_drop] at hcell
    rw [List.getElem?_map, List.getElem?_drop, Option.map_eq_some_iff] at hcolumn
    obtain ⟨head, hhead, hcolumn⟩ := hcolumn
    rw [aim?, Option.ite_none_right_eq_some] at haim
    obtain ⟨⟨rfl, hempty⟩, haim⟩ := haim
    have hsymbol := (bind_idxOf?_eq_some_iff hclass _).mp hcolumn
    rw [symbol?_eq_some_iff] at hsymbol
    exact ⟨Nat.le_add_right 2 j, ⟨head, hhead, hsymbol.1⟩, hsingle,
      ⟨cell, hcell, hempty, (hstateId cell k).mp haim⟩⟩
  · rintro ⟨-, ⟨head, hhead, hsymbol⟩, -, ⟨cell, hcell, hempty, htarget⟩⟩
    refine ⟨(cell, some symbolClass), List.getElem?_zip_eq_some.mpr ⟨?_, ?_⟩, ?_⟩
    · rw [List.getElem?_drop]
      exact hcell
    · rw [List.getElem?_map, List.getElem?_drop, labelColumns, hhead, Option.map_some,
        (symbol?_eq_some_iff head c).mpr ⟨hsymbol, hsingle⟩, Option.bind_some, hclass]
    · rw [aim?, if_pos ⟨rfl, hempty⟩]
      exact (hstateId cell k).mpr htarget

/-- What `findSome?` finds is what the first place gives that gives anything. -/
theorem findSome?_eq_some_iff_first {α β : Type} (f : α → Option β) (l : List α) (b : β) :
    l.findSome? f = some b ↔
      ∃ i : Nat, l[i]?.bind f = some b ∧ ∀ j < i, l[j]?.bind f = none := by
  rw [List.findSome?_eq_some_iff]
  constructor
  · rintro ⟨before, a, after, rfl, ha, hbefore⟩
    refine ⟨before.length, by simpa using ha, ?_⟩
    intro j hj
    rw [List.getElem?_append_left hj, List.getElem?_eq_getElem hj]
    exact hbefore _ (List.getElem_mem hj)
  · rintro ⟨i, hi, hbefore⟩
    obtain ⟨a, ha, hb⟩ := Option.bind_eq_some_iff.mp hi
    obtain ⟨hlt, rfl⟩ := List.getElem?_eq_some_iff.mp ha
    refine ⟨l.take i, l[i], l.drop (i + 1), ?_, hb, ?_⟩
    · rw [← List.drop_eq_getElem_cons hlt, List.take_append_drop]
    · intro x hx
      obtain ⟨j, hj, rfl⟩ := List.mem_take_iff_getElem.mp hx
      have hnone := hbefore j (by omega)
      rwa [List.getElem?_eq_getElem (by omega), Option.bind_some] at hnone

/-- On a character a row leads where its least column leads that leads anywhere on it. -/
theorem destination?_fillRow_iff {stateId? : String → Option Nat} {header : List String}
    {states : List (List String)}
    (hstateId : ∀ name k, stateId? name = some k ↔ states[k]?.map label = some name)
    {c : Char} {symbolClass : Nat} (hsingle : c.toNat < 256)
    (hclass : (columnsOf header).alphabet.idxOf? c = some symbolClass) (cells : List String)
    (k : Nat) :
    (fillRow stateId? (columnsOf header) cells).state.destination? symbolClass = some k ↔
      ∃ j, Leads header states cells c j k ∧
        ∀ j' < j, ∀ k', ¬ Leads header states cells c j' k' := by
  obtain ⟨hlt, -⟩ := List.idxOf?_eq_some_iff.mp hclass
  have hleads := bind_aim?_eq_some_iff hstateId hsingle hclass cells
  rw [destination?_fillRow _ _ _ hlt, findSome?_eq_some_iff_first]
  constructor
  · rintro ⟨i, hi, hbefore⟩
    refine ⟨2 + i, (hleads i k).mp hi, ?_⟩
    intro j' hj' k' hleads'
    -- The zipped columns begin at the third one.
    obtain ⟨i', rfl⟩ := Nat.exists_eq_add_of_le hleads'.place
    have hnone := hbefore i' (by omega)
    rw [(hleads i' k').mpr hleads'] at hnone
    contradiction
  · rintro ⟨j, hj, hbefore⟩
    obtain ⟨i, rfl⟩ := Nat.exists_eq_add_of_le hj.place
    refine ⟨i, (hleads i k).mpr hj, ?_⟩
    intro i' hi'
    rw [Option.eq_none_iff_forall_ne_some]
    intro k' hk'
    exact hbefore (2 + i') (by omega) k' ((hleads i' k').mp hk')

/-- `m` is the machine that the rows of a table describe. -/
structure Describes (rows : List (List String)) (m : Machine) : Prop where
  states_eq : m.states.toList.map (fun s => (s.name, s.accepted)) =
    (stateRows rows).map fun cells => (label cells, (cells[1]?).filter (· ≠ ""))
  entry_eq : m.entry = if stateRows rows = [] then none else some 0
  stateId?_iff : ∀ name i,
    m.stateId? name = some i ↔ (stateRows rows)[i]?.map label = some name
  transition?_iff : ∀ i cells, (stateRows rows)[i]? = some cells → ∀ c k,
    m.transition? i c = some k ↔
      ∃ j, Leads (headerRow rows) (stateRows rows) cells c j k ∧
        ∀ j' < j, ∀ k', ¬ Leads (headerRow rows) (stateRows rows) cells c j' k'
  transition?_eq_none : ∀ i cells, (stateRows rows)[i]? = some cells → ∀ c,
    (∀ j k, ¬ Leads (headerRow rows) (stateRows rows) cells c j k) → m.transition? i c = none
  headerless : (∀ cells ∈ rows, label cells ≠ headerMarker) → ∀ i c, m.transition? i c = none

/-- The state that a row becomes among all rows of states. -/
def rowState (header : List String) (states : List (List String)) (cells : List String) : State :=
  (fillRow (fun name => (Machine.indexOf (states.map label))[name]?) (columnsOf header) cells).state

theorem rowState_frame (header : List String) (states : List (List String)) (cells : List String) :
    (rowState header states cells).name = label cells ∧
      (rowState header states cells).accepted = (cells[1]?).filter (· ≠ "") :=
  state_fillRow _ _ cells

theorem machine_parse (text : String) : (parse text).value.machine =
    Machine.ofStates (columnsOf (headerRow (textRows text))).alphabet
      ((stateRows (textRows text)).map
        (rowState (headerRow (textRows text)) (stateRows (textRows text)))) := by
  rw [← header_rowsOf, ← states_rowsOf]
  simp only [parse, load, fillRows, List.map_map]
  rfl

/-- The number of a row among rows of states with different names. -/
theorem getElem?_indexOf_label_iff {states : List (List String)}
    (hnodup : (states.map label).Nodup) (name : String) (k : Nat) :
    (Machine.indexOf (states.map label))[name]? = some k ↔ states[k]?.map label = some name := by
  rw [Machine.getElem?_indexOf_iff hnodup, List.getElem?_map]

theorem transition?_rowStates_iff (header : List String) (states : List (List String))
    (hnodup : (states.map label).Nodup) (i : Nat) (c : Char) (k : Nat) :
    (Machine.ofStates (columnsOf header).alphabet
        (states.map (rowState header states))).transition? i c = some k ↔
      ∃ cells, states[i]? = some cells ∧ ∃ j, Leads header states cells c j k ∧
        ∀ j' < j, ∀ k', ¬ Leads header states cells c j' k' := by
  have hstateId := getElem?_indexOf_label_iff hnodup
  rw [Machine.transition?_ofStates_iff]
  constructor
  · rintro ⟨hsingle, symbolClass, s, hclass, hs, hdestination⟩
    rw [List.getElem?_map, Option.map_eq_some_iff] at hs
    obtain ⟨cells, hcells, rfl⟩ := hs
    exact ⟨cells, hcells, (destination?_fillRow_iff hstateId hsingle hclass cells k).mp hdestination⟩
  · rintro ⟨cells, hcells, j, hleads, hbefore⟩
    obtain ⟨symbolClass, hclass⟩ := hleads.exists_class
    refine ⟨hleads.single, symbolClass, rowState header states cells, hclass, ?_, ?_⟩
    · rw [List.getElem?_map, hcells, Option.map_some]
    · exact (destination?_fillRow_iff hstateId hleads.single hclass cells k).mpr
        ⟨j, hleads, hbefore⟩

theorem headerRow_eq_nil {rows : List (List String)}
    (hnone : ∀ cells ∈ rows, label cells ≠ headerMarker) : headerRow rows = [] := by
  rw [headerRow, List.find?_eq_none.mpr, Option.getD_none]
  intro cells hcells
  simpa using hnone cells (mem_of_mem_keptRows hcells)

/-- Reading a table gives the machine that its rows describe. -/
theorem parse_describes (text : String) :
    Describes (textRows text) (parse text).value.machine := by
  have hnodup := nodup_label_stateRows (textRows text)
  rw [machine_parse]
  generalize textRows text = rows at hnodup ⊢
  have htransition := transition?_rowStates_iff (headerRow rows) (stateRows rows) hnodup
  have hname : ((stateRows rows).map (rowState (headerRow rows) (stateRows rows))).map State.name =
      (stateRows rows).map label := by
    rw [List.map_map]
    apply List.map_congr_left
    intro cells _
    exact (rowState_frame _ _ cells).1
  refine ⟨?_, ?_, ?_, ?_, ?_, ?_⟩
  · rw [Machine.ofStates, List.toList_toArray, List.map_map]
    apply List.map_congr_left
    intro cells _
    obtain ⟨hlabel, haccepted⟩ := rowState_frame (headerRow rows) (stateRows rows) cells
    exact Prod.ext hlabel haccepted
  · rw [Machine.ofStates]
    simp
  · intro name i
    rw [Machine.stateId?_ofStates_iff (hname ▸ hnodup), ← List.getElem?_map, hname,
      List.getElem?_map]
  · intro i cells hcells c k
    rw [htransition]
    simp [hcells]
  · intro i cells hcells c hnone
    rw [Option.eq_none_iff_forall_ne_some]
    intro k hk
    obtain ⟨cells', hcells', j, hleads, -⟩ := (htransition i c k).mp hk
    obtain rfl := Option.some_inj.mp (hcells.symm.trans hcells')
    exact hnone j k hleads
  · intro hnone i c
    rw [Option.eq_none_iff_forall_ne_some]
    intro k hk
    obtain ⟨cells, -, j, hleads, -⟩ := (htransition i c k).mp hk
    obtain ⟨cell, hcell, -⟩ := hleads.symbol
    simp [headerRow_eq_nil hnone] at hcell

end TableLexer.Table
