import TableLexer.Proofs.Alike
import TableLexer.Proofs.Automaton.Counting
import TableLexer.Proofs.Automaton.TableText
/-!
Tidy tables.  A table that says nothing twice can be read without regard to the order of its rows and
columns: its states lead, by their names, where their cells say, and its report counts the cells that
say nothing.
-/

namespace TableLexer

namespace Table

variable {header : List String} {states : List (List String)}

/-- A header and rows of states that say nothing twice, with a cell for every column. -/
structure Tidy (header : List String) (states : List (List String)) : Prop where
  marked : label header = headerMarker
  unmarked : ∀ cells ∈ states, label cells ≠ headerMarker
  names_nodup : (states.map label).Nodup
  symbols_nodup : ((header.drop labelColumns).filterMap symbol?).Nodup
  length_eq : ∀ cells ∈ states, cells.length = header.length

/-- The rows of a table have a header somewhere among the states. -/
def Presents (rows : List (List String)) (header : List String) (states : List (List String)) :
    Prop :=
  ∃ before after, rows = before ++ header :: after ∧ states = before ++ after

section Rows

variable {before after : List (List String)}

/-- All rows of a tidy table are kept. -/
theorem Tidy.keptRows_eq (htidy : Tidy header (before ++ after)) :
    keptRows (before ++ header :: after) = before ++ header :: after := by
  apply keptRows_eq_self
  rw [(List.perm_middle.map label).nodup_iff, List.map_cons, List.nodup_cons, htidy.marked]
  refine ⟨?_, htidy.names_nodup⟩
  intro hmem
  obtain ⟨cells, hcells, hlabel⟩ := List.mem_map.mp hmem
  exact htidy.unmarked cells hcells hlabel

theorem Tidy.find?_eq (htidy : Tidy header (before ++ after)) :
    (before ++ header :: after).find? (fun cells => label cells = headerMarker) = some header := by
  have hbefore : before.find? (fun cells => label cells = headerMarker) = none := by
    apply List.find?_eq_none.mpr
    intro cells hcells
    simpa using htidy.unmarked cells (List.mem_append_left after hcells)
  rw [List.find?_append, hbefore, Option.none_or,
    List.find?_cons_of_pos (by simpa using htidy.marked)]

theorem Tidy.filter_eq (htidy : Tidy header (before ++ after)) :
    (before ++ header :: after).filter (fun cells => label cells ≠ headerMarker) =
      before ++ after := by
  have hall : ∀ cells ∈ before ++ after, decide (label cells ≠ headerMarker) = true :=
    fun cells hcells => decide_eq_true (htidy.unmarked cells hcells)
  rw [List.filter_append, List.filter_cons_of_neg (by simpa using htidy.marked),
    ← List.filter_append, List.filter_eq_self.mpr hall]

end Rows

/-- Nothing is left out of the rows of a tidy table, wherever its header stands. -/
theorem Tidy.rowsOf_eq (htidy : Tidy header states) {text : String}
    (hrows : Presents (textRows text) header states) :
    rowsOf text = ⟨states.length + 1, some header, states, []⟩ := by
  obtain ⟨before, after, htext, rfl⟩ := hrows
  have hkept : keptRows (textRows text) = before ++ header :: after := by
    rw [htext, htidy.keptRows_eq]
  have hlengths : (textRows text).length = (before ++ after).length + 1 := by
    rw [htext, List.length_append, List.length_cons, List.length_append, Nat.add_assoc]
  have hrepeated : (rowsOf text).repeated = [] := by
    have hbalance := length_keptRows_add_repeated text
    rw [hkept, ← htext] at hbalance
    exact List.eq_nil_of_length_eq_zero (by omega)
  have hheader : (rowsOf text).header = some header := by
    rw [header?_rowsOf, hkept, htidy.find?_eq]
  have hstates : (rowsOf text).states = before ++ after := by
    rw [states_rowsOf, stateRows, hkept, htidy.filter_eq]
  rw [← hlengths, ← hheader, ← hstates, ← hrepeated]
  rfl

/-- The machine of a header and rows of states. -/
def machineOf (header : List String) (states : List (List String)) : Machine :=
  .ofStates (columnsOf header).alphabet (states.map (rowState header states))

theorem Tidy.machine_parse (htidy : Tidy header states) {text : String}
    (hrows : Presents (textRows text) header states) :
    (parse text).value.machine = machineOf header states := by
  rw [Table.machine_parse, ← header_rowsOf, ← states_rowsOf, htidy.rowsOf_eq hrows]
  rfl

theorem state?_machineOf (header : List String) (states : List (List String)) (i : Nat) :
    (machineOf header states).state? i = states[i]?.map (rowState header states) := by
  rw [Machine.state?, machineOf, Machine.ofStates, List.getElem?_toArray, List.getElem?_map]

theorem name?_machineOf (header : List String) (states : List (List String)) (i : Nat) :
    (machineOf header states).name? i = states[i]?.map label := by
  rw [Machine.name?, state?_machineOf, Option.map_map]
  congr 1
  funext cells
  exact (rowState_frame header states cells).1

theorem accepted?_machineOf {cells : List String} {i : Nat} (hcells : states[i]? = some cells) :
    (machineOf header states).accepted? i = (cells[1]?).filter (· ≠ "") := by
  rw [Machine.accepted?, state?_machineOf, hcells]
  exact (rowState_frame header states cells).2

theorem entryName?_machineOf (header : List String) (states : List (List String)) :
    (machineOf header states).entryName? = states.head?.map label := by
  cases states with
  | nil => rfl
  | cons cells states => 
      rw [Machine.entryName?_eq_bind]
      exact name?_machineOf header (cells :: states) 0

/-- The cells of a row from the third on, under the header cells of their columns. -/
def columnCells (header cells : List String) : List (String × String) :=
  (header.drop labelColumns).zip (cells.drop labelColumns)

theorem mem_columnCells_iff {cells : List String} {head cell : String} :
    (head, cell) ∈ columnCells header cells ↔
      ∃ j, labelColumns ≤ j ∧ header[j]? = some head ∧ cells[j]? = some cell := by
  rw [columnCells, List.mem_iff_getElem?]
  constructor
  · rintro ⟨n, hn⟩
    obtain ⟨hhead, hcell⟩ := List.getElem?_zip_eq_some.mp hn
    rw [List.getElem?_drop] at hhead hcell
    exact ⟨labelColumns + n, Nat.le_add_right _ _, hhead, hcell⟩
  · rintro ⟨j, hplace, hhead, hcell⟩
    obtain ⟨n, rfl⟩ := Nat.exists_eq_add_of_le hplace
    refine ⟨n, List.getElem?_zip_eq_some.mpr ⟨?_, ?_⟩⟩
    · rwa [List.getElem?_drop]
    · rwa [List.getElem?_drop]

theorem ne_of_nodup_filterMap {α β : Type} {f : α → Option β} {l : List α}
    (hnodup : (l.filterMap f).Nodup) {i j : Nat} (hlt : i < j) {x y : α} (hx : l[i]? = some x)
    (hy : l[j]? = some y) {b : β} (hfx : f x = some b) : f y ≠ some b := by
  intro hfy
  obtain ⟨hi, rfl⟩ := List.getElem?_eq_some_iff.mp hx
  obtain ⟨hj, rfl⟩ := List.getElem?_eq_some_iff.mp hy
  have hpairs := List.pairwise_iff_getElem.mp (List.pairwise_filterMap.mp hnodup) i j hi hj hlt
  exact hpairs b hfx b hfy rfl

/-- No two columns of a tidy table have the same symbol. -/
theorem Tidy.eq_of_symbol? (htidy : Tidy header states) {j k : Nat} {first second : String}
    {c : Char} (hj : labelColumns ≤ j) (hk : labelColumns ≤ k) (hfirst : header[j]? = some first)
    (hsecond : header[k]? = some second) (hsymbol : symbol? first = some c)
    (hsymbol' : symbol? second = some c) : j = k := by
  obtain ⟨n, rfl⟩ := Nat.exists_eq_add_of_le hj
  obtain ⟨n', rfl⟩ := Nat.exists_eq_add_of_le hk
  rw [← List.getElem?_drop] at hfirst hsecond
  rcases Nat.lt_trichotomy n n' with hlt | rfl | hlt
  · exact absurd hsymbol' (ne_of_nodup_filterMap htidy.symbols_nodup hlt hfirst hsecond hsymbol)
  · rfl
  · exact absurd hsymbol (ne_of_nodup_filterMap htidy.symbols_nodup hlt hsecond hfirst hsymbol')

/-- A state of a tidy table leads to the states that its cells name. -/
theorem Tidy.targetName?_machineOf_iff (htidy : Tidy header states) {cells : List String} {i : Nat}
    (hcells : states[i]? = some cells) (c : Char) (name : String) :
    (machineOf header states).targetName? i c = some name ↔
      name ≠ "" ∧ name ∈ states.map label ∧
        ∃ head, symbol? head = some c ∧ (head, name) ∈ columnCells header cells := by
  rw [Machine.targetName?, Option.bind_eq_some_iff]
  constructor
  · rintro ⟨k, htransition, hname⟩
    rw [name?_machineOf] at hname
    rw [machineOf, transition?_rowStates_iff header states htidy.names_nodup] at htransition
    obtain ⟨cells', hcells', j, hleads, -⟩ := htransition
    obtain rfl := Option.some.inj (hcells.symm.trans hcells')
    obtain ⟨hplace, ⟨head, hhead, hsymbol⟩, hsingle, ⟨cell, hcell, hne, htarget⟩⟩ := hleads
    obtain rfl := Option.some.inj (hname.symm.trans htarget)
    refine ⟨hne, ?_, head, (symbol?_eq_some_iff head c).mpr ⟨hsymbol, hsingle⟩, ?_⟩
    · rw [← List.getElem?_map] at hname
      exact List.mem_of_getElem? hname
    · exact mem_columnCells_iff.mpr ⟨j, hplace, hhead, hcell⟩
  · rintro ⟨hne, hmem, head, hsymbol, hcolumn⟩
    obtain ⟨j, hplace, hhead, hcell⟩ := mem_columnCells_iff.mp hcolumn
    obtain ⟨hdecoded, hsingle⟩ := (symbol?_eq_some_iff head c).mp hsymbol
    obtain ⟨k, hk⟩ := List.mem_iff_getElem?.mp hmem
    rw [List.getElem?_map] at hk
    refine ⟨k, ?_, by rw [name?_machineOf, hk]⟩
    rw [machineOf, transition?_rowStates_iff header states htidy.names_nodup]
    refine ⟨cells, hcells, j, ⟨hplace, ⟨head, hhead, hdecoded⟩, hsingle, name, hcell, hne, hk⟩, ?_⟩
    intro j' hj' k' hleads
    obtain ⟨hplace', ⟨head', hhead', hdecoded'⟩, -, -⟩ := hleads
    have hsame := htidy.eq_of_symbol? hplace' hplace hhead' hhead
      ((symbol?_eq_some_iff head' c).mpr ⟨hdecoded', hsingle⟩) hsymbol
    exact absurd hsame (Nat.ne_of_lt hj')

/-- Whether a cell is lost: there is a symbol above it, and it names none of the states. -/
def lost (names : List String) (column : String × String) : Bool :=
  (symbol? column.1).isSome && column.2 ≠ "" && column.2 ∉ names

/-- A column has a class if its header cell has a symbol, so cells can be counted under the one or the
other. -/
theorem countP_zip_classes (p : Bool → String → Bool) (header cells : List String) :
    ((cells.drop labelColumns).zip (columnsOf header).classes).countP
        (fun cell => p cell.2.isSome cell.1) =
      (columnCells header cells).countP fun column => p (symbol? column.1).isSome column.2 := by
  obtain ⟨hclasses, hsymbols, -⟩ := columnsOf_gathers header
  rw [hclasses, List.zip_map_right, ← List.zip_swap, List.map_map, List.countP_map, columnCells]
  apply List.countP_congr
  rintro ⟨head, cell⟩ hmem
  have hclass : ((symbol? head).bind (columnsOf header).alphabet.idxOf?).isSome =
      (symbol? head).isSome := by
    cases hsymbol : symbol? head with
    | none => rfl
    | some c =>
        have hc : c ∈ (columnsOf header).alphabet :=
          (hsymbols c).mpr ⟨head, (List.of_mem_zip hmem).1, hsymbol⟩
        simpa using hc
  simp [hclass]

/-- What is lost of a row is what dangles in it. -/
theorem countP_dangles (hnames : (states.map label).Nodup) (cells : List String) :
    ((cells.drop labelColumns).zip (columnsOf header).classes).countP
        (dangles fun name => (Machine.indexOf (states.map label))[name]?) =
      (columnCells header cells).countP (lost (states.map label)) := by
  have hname : ∀ cell, ((Machine.indexOf (states.map label))[cell]?).isNone ↔
      cell ∉ states.map label := by
    intro cell
    rw [Option.isNone_iff_eq_none, Option.eq_none_iff_forall_ne_some, List.mem_iff_getElem?]
    simp only [ne_eq, Machine.getElem?_indexOf_iff hnames, not_exists]
  have hcount := countP_zip_classes (fun classed cell => classed && cell ≠ "" &&
    ((Machine.indexOf (states.map label))[cell]?).isNone) header cells
  refine hcount.trans (List.countP_congr fun column _ => ?_)
  simp [lost, hname]

/-- The report about a tidy table. -/
theorem Tidy.report_parse (htidy : Tidy header states) {text : String}
    (hrows : Presents (textRows text) header states) :
    (parse text).value.report = {
      rows := states.length + 1
      states := states.length
      repeatedRows := 0
      absentColumns := (header.drop labelColumns).countP fun cell => symbol? cell = none
      danglingTransitions :=
        (states.map fun cells => (columnCells header cells).countP (lost (states.map label))).sum
      shadowedTransitions := 0
      missingHeader := false } := by
  have hdangling : ∀ cells, (fillRow (fun name => (Machine.indexOf (states.map label))[name]?)
      (columnsOf header) cells).dangling.length =
        (columnCells header cells).countP (lost (states.map label)) := by
    intro cells
    rw [length_dangling_fillRow, countP_dangles htidy.names_nodup]
  have hshadowed : ∀ cells, (fillRow (fun name => (Machine.indexOf (states.map label))[name]?)
      (columnsOf header) cells).shadowed = 0 :=
    shadowed_fillRow _ htidy.symbols_nodup
  rw [parse, htidy.rowsOf_eq hrows]
  simp only [load, fillRows, Option.getD_some, List.map_map, Function.comp_def, hdangling, hshadowed,
    length_absent_columnsOf]
  have hzero : (states.map fun _ => 0).foldr (· + ·) 0 = 0 := by
    rw [← List.sum_eq_foldr]
    simp
  rw [hzero]
  rfl

end Table

end TableLexer
