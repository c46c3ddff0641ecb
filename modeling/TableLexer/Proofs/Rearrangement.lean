import TableLexer.Proofs.Automaton.TidyTable
/-!
Rearranged tables.  In a tidy table the header may stand anywhere, the columns of the symbols in any
order and the states after the first one in any order: the machines are alike, so the report and the
results of both passes stay the same.
-/

namespace TableLexer

namespace Table

variable {header : List String} {states : List (List String)}

/-- Two tidy tables that say the same have machines that are alike. -/
theorem Tidy.alike {header' : List String} {states' : List (List String)}
    (htidy : Tidy header states) (htidy' : Tidy header' states')
    (hlength : states.length = states'.length)
    (hfirst : states.head?.map label = states'.head?.map label)
    (hnames : ∀ name, name ∈ states.map label ↔ name ∈ states'.map label)
    (hsame : ∀ cells ∈ states, ∀ cells' ∈ states', label cells = label cells' →
      cells[1]? = cells'[1]? ∧
        ∀ column, column ∈ columnCells header cells ↔ column ∈ columnCells header' cells') :
    (machineOf header states).Alike (machineOf header' states') := by
  have hrows : ∀ {i j}, (machineOf header states).Namesakes (machineOf header' states') i j →
      ∃ cells cells', states[i]? = some cells ∧ states'[j]? = some cells' ∧
        cells[1]? = cells'[1]? ∧
        ∀ column, column ∈ columnCells header cells ↔ column ∈ columnCells header' cells' := by
    rintro i j ⟨name, hi, hj⟩
    rw [name?_machineOf, Option.map_eq_some_iff] at hi hj
    obtain ⟨cells, hcells, hlabel⟩ := hi
    obtain ⟨cells', hcells', hlabel'⟩ := hj
    exact ⟨cells, cells', hcells, hcells', hsame cells (List.mem_of_getElem? hcells) cells'
      (List.mem_of_getElem? hcells') (hlabel.trans hlabel'.symm)⟩
  refine ⟨sound_rowStates header htidy.names_nodup, sound_rowStates header' htidy'.names_nodup,
    ?_, ?_, ?_, ?_⟩
  · simpa [Machine.size, machineOf, Machine.ofStates] using hlength
  · rw [entryName?_machineOf, entryName?_machineOf, hfirst]
  · intro i j hstates
    obtain ⟨cells, cells', hcells, hcells', hcategory, -⟩ := hrows hstates
    rw [accepted?_machineOf hcells, accepted?_machineOf hcells', hcategory]
  · intro i j hstates c
    obtain ⟨cells, cells', hcells, hcells', -, hcolumns⟩ := hrows hstates
    apply Option.ext
    intro name
    rw [htidy.targetName?_machineOf_iff hcells, htidy'.targetName?_machineOf_iff hcells', hnames]
    simp only [hcolumns]

/-- An order of the columns of the symbols in rows of a length. -/
def Orders (order : List Nat) (length : Nat) : Prop :=
  order.Perm (List.range' labelColumns (length - labelColumns))

/-- A row whose columns after the first two stand in another order. -/
def arrange (order : List Nat) (cells : List String) : List String :=
  cells.take labelColumns ++ order.map fun j => cells.getD j ""

/-- Rows that present the same header and states in another arrangement: with the columns of the
symbols in another order, and also the states, of which the first one stays the first. -/
def Rearranged (header : List String) (states rows : List (List String)) : Prop :=
  ∃ (order : List Nat) (sequence : List (List String)),
    Orders order header.length ∧ sequence.Perm states ∧ sequence.head? = states.head? ∧
      Presents rows (arrange order header) (sequence.map (arrange order))

section Columns

variable {order : List Nat} {cells : List String}

/-- In a row without a third cell nothing can move. -/
theorem arrange_of_short (hshort : cells.length ≤ labelColumns)
    (horder : Orders order cells.length) :
    arrange order cells = cells := by
  rw [Orders, Nat.sub_eq_zero_of_le hshort, List.range'_zero, List.perm_nil] at horder
  rw [arrange, horder, List.map_nil, List.append_nil, List.take_of_length_le hshort]

/-- The first two cells stay where they are. -/
theorem take_arrange (horder : Orders order cells.length) :
    (arrange order cells).take labelColumns = cells.take labelColumns := by
  rcases Nat.le_total cells.length labelColumns with hshort | hlong
  · rw [arrange_of_short hshort horder]
  · exact List.take_left' (List.length_take_of_le hlong)

theorem drop_arrange (horder : Orders order cells.length) :
    (arrange order cells).drop labelColumns = order.map fun j => cells.getD j "" := by
  rcases Nat.le_total cells.length labelColumns with hshort | hlong
  · rw [arrange_of_short hshort horder, List.drop_eq_nil_of_le hshort]
    rw [Orders, Nat.sub_eq_zero_of_le hshort, List.range'_zero, List.perm_nil] at horder
    rw [horder, List.map_nil]
  · exact List.drop_left' (List.length_take_of_le hlong)

theorem length_arrange (horder : Orders order cells.length) :
    (arrange order cells).length = cells.length := by
  have hlength := horder.length_eq
  rw [List.length_range'] at hlength
  rw [arrange, List.length_append, List.length_map, List.length_take, hlength]
  omega

theorem label_arrange (horder : Orders order cells.length) :
    label (arrange order cells) = label cells := by
  have hlabel : ∀ row : List String, label row = label (row.take labelColumns) := by
    intro row
    cases row <;> rfl
  rw [hlabel, take_arrange horder, ← hlabel]

theorem category_arrange (horder : Orders order cells.length) :
    (arrange order cells)[1]? = cells[1]? := by
  have hcategory : ∀ row : List String, row[1]? = (row.take labelColumns)[1]? :=
    fun row => (List.getElem?_take_of_lt (by decide)).symm
  rw [hcategory, take_arrange horder, ← hcategory]

/-- The cells after the first two, picked one by one. -/
theorem map_range'_getD (cells : List String) :
    (List.range' labelColumns (cells.length - labelColumns)).map (fun j => cells.getD j "") =
      cells.drop labelColumns := by
  apply List.ext_getElem
  · simp
  · intro n hn hn'
    rw [List.length_drop] at hn'
    have hlt : labelColumns + n < cells.length := by omega
    simp [hlt]

/-- The other cells are the same in another order. -/
theorem drop_arrange_perm (horder : Orders order cells.length) :
    ((arrange order cells).drop labelColumns).Perm (cells.drop labelColumns) := by
  rw [drop_arrange horder, ← map_range'_getD]
  exact horder.map _

/-- Cells move with their header cells. -/
theorem columnCells_arrange_perm (hlength : cells.length = header.length)
    (horder : Orders order header.length) :
    (columnCells (arrange order header) (arrange order cells)).Perm (columnCells header cells) := by
  rw [columnCells, columnCells, drop_arrange horder, drop_arrange (hlength ▸ horder),
    ← map_range'_getD, ← map_range'_getD, hlength, List.zip_map', List.zip_map']
  exact horder.map _

end Columns

section States

variable {order : List Nat} {sequence : List (List String)}

theorem Tidy.orders (htidy : Tidy header states) (horder : Orders order header.length)
    {cells : List String} (hcells : cells ∈ states) : Orders order cells.length :=
  (htidy.length_eq cells hcells).symm ▸ horder

/-- The states keep their names. -/
theorem Tidy.map_label_arrange (htidy : Tidy header states) (horder : Orders order header.length)
    (hsequence : sequence.Perm states) :
    (sequence.map (arrange order)).map label = sequence.map label := by
  rw [List.map_map]
  apply List.map_congr_left
  intro cells hcells
  exact label_arrange (htidy.orders horder (hsequence.mem_iff.mp hcells))

theorem Tidy.rearranged (htidy : Tidy header states) (horder : Orders order header.length)
    (hsequence : sequence.Perm states) :
    Tidy (arrange order header) (sequence.map (arrange order)) := by
  constructor
  case marked => rw [label_arrange horder, htidy.marked]
  case unmarked =>
    intro row hrow
    obtain ⟨cells, hmem, rfl⟩ := List.mem_map.mp hrow
    have hcells := hsequence.mem_iff.mp hmem
    rw [label_arrange (htidy.orders horder hcells)]
    exact htidy.unmarked cells hcells
  case names_nodup =>
    rw [htidy.map_label_arrange horder hsequence, (hsequence.map label).nodup_iff]
    exact htidy.names_nodup
  case symbols_nodup =>
    rw [((drop_arrange_perm horder).filterMap symbol?).nodup_iff]
    exact htidy.symbols_nodup
  case length_eq =>
    intro row hrow
    obtain ⟨cells, hmem, rfl⟩ := List.mem_map.mp hrow
    have hcells := hsequence.mem_iff.mp hmem
    rw [length_arrange (htidy.orders horder hcells), length_arrange horder]
    exact htidy.length_eq cells hcells

theorem Tidy.alike_rearranged (htidy : Tidy header states) (horder : Orders order header.length)
    (hsequence : sequence.Perm states) (hfirst : sequence.head? = states.head?) :
    (machineOf header states).Alike
      (machineOf (arrange order header) (sequence.map (arrange order))) := by
  have hlabels := htidy.map_label_arrange horder hsequence
  refine htidy.alike (htidy.rearranged horder hsequence) ?_ ?_ ?_ ?_
  · rw [List.length_map, hsequence.length_eq]
  · rw [← hfirst, ← List.head?_map, ← List.head?_map, hlabels]
  · intro name
    rw [hlabels, (hsequence.map label).mem_iff]
  · intro cells hcells row hrow hlabel
    obtain ⟨moved, hmoved, rfl⟩ := List.mem_map.mp hrow
    have hmoved := hsequence.mem_iff.mp hmoved
    have hrowOrder := htidy.orders horder hmoved
    rw [label_arrange hrowOrder] at hlabel
    obtain rfl := List.inj_on_of_nodup_map htidy.names_nodup hcells hmoved hlabel
    refine ⟨(category_arrange hrowOrder).symm, ?_⟩
    intro column
    exact (columnCells_arrange_perm (htidy.length_eq cells hcells) horder).mem_iff.symm

/-- Cells are lost to the same number wherever they stand. -/
theorem Tidy.sum_lost_rearranged (htidy : Tidy header states) (horder : Orders order header.length)
    (hsequence : sequence.Perm states) :
    ((sequence.map (arrange order)).map fun cells =>
        (columnCells (arrange order header) cells).countP
          (lost ((sequence.map (arrange order)).map label))).sum =
      (states.map fun cells => (columnCells header cells).countP (lost (states.map label))).sum := by
  have hlost : lost ((sequence.map (arrange order)).map label) = lost (states.map label) := by
    funext column
    rw [htidy.map_label_arrange horder hsequence, lost, lost,
      decide_eq_decide.mpr (not_congr (hsequence.map label).mem_iff)]
  rw [hlost, List.map_map, ← (hsequence.map _).sum_eq]
  apply congrArg List.sum
  apply List.map_congr_left
  intro cells hcells
  have hlength := htidy.length_eq cells (hsequence.mem_iff.mp hcells)
  exact (columnCells_arrange_perm hlength horder).countP_eq _

end States

/-- The arrangement of a tidy table does not matter: the report is the same, and so is whatever lexers
and preprocessors make of any text. -/
theorem parse_rearranged (htidy : Tidy header states) {text other : String}
    (hrows : Presents (textRows text) header states)
    (hother : Rearranged header states (textRows other)) :
    (parse other).value.report = (parse text).value.report ∧
    (∀ (keywords : Keywords) (preferences : Preferences.Lexical) (program : String),
      (Lexer.ofTables (parse other).value.machine keywords preferences).map (·.tokenize program) =
        (Lexer.ofTables (parse text).value.machine keywords preferences).map (·.tokenize program)) ∧
    (∀ (preferences : Preferences.Preprocessing) (files : Preferences.Files) (tracing : Bool)
        (s : Preprocessor.State),
      (Preprocessor.ofMachine (parse other).value.machine preferences files).map
          (·.process tracing s) =
        (Preprocessor.ofMachine (parse text).value.machine preferences files).map
          (·.process tracing s)) := by
  obtain ⟨order, sequence, horder, hsequence, hfirst, hpresents⟩ := hother
  have htidy' := htidy.rearranged horder hsequence
  have halike := htidy.alike_rearranged horder hsequence hfirst
  rw [← htidy.machine_parse hrows, ← htidy'.machine_parse hpresents] at halike
  refine ⟨?_, Lexer.map_tokenize_ofTables halike, Preprocessor.map_process_ofMachine halike⟩
  rw [htidy.report_parse hrows, htidy'.report_parse hpresents,
    htidy.sum_lost_rearranged horder hsequence, (drop_arrange_perm horder).countP_eq,
    List.length_map, hsequence.length_eq]

/-- The header of a table for words with breaks between them. -/
def wordHeader : List String := [headerMarker, "Accepted", "a", "-"]

/-- Its states, of which the last names one that is not there. -/
def wordStates : List (List String) :=
  [["Start", "", "Word", "Start"], ["Word", "Word", "Word", "Break"], ["Break", "", "", "Pause"]]

/-- The table as it stands. -/
def wordTable : String :=
  "Valid Chars,Accepted,a,-\nStart,,Word,Start\nWord,Word,Word,Break\nBreak,,,Pause\n"

/-- The table with its header in the middle, and with both columns and two states exchanged. -/
def exchangedWordTable : String :=
  "Start,,Start,Word\nBreak,,Pause,\nValid Chars,Accepted,-,a\nWord,Word,Break,Word\n"

theorem parse_exchangedWordTable :
    Tidy wordHeader wordStates ∧ Presents (textRows wordTable) wordHeader wordStates ∧
      Rearranged wordHeader wordStates (textRows exchangedWordTable) ∧
      (parse exchangedWordTable).value.report =
        { rows := 4, states := 3, danglingTransitions := 1 } := by
  have htidy : Tidy wordHeader wordStates := ⟨rfl, by decide, by decide, by decide, by decide⟩
  have hrows : Presents (textRows wordTable) wordHeader wordStates :=
    ⟨[], wordStates, by decide, rfl⟩
  have horder : Orders [3, 2] wordHeader.length := by
    rw [Orders]
    decide
  have hother : Rearranged wordHeader wordStates (textRows exchangedWordTable) := by
    refine ⟨[3, 2], [["Start", "", "Word", "Start"], ["Break", "", "", "Pause"],
      ["Word", "Word", "Word", "Break"]], horder, by decide, rfl, ?_⟩
    exact ⟨[["Start", "", "Start", "Word"], ["Break", "", "Pause", ""]],
      [["Word", "Word", "Break", "Word"]], by decide, by decide⟩
  refine ⟨htidy, hrows, hother, ?_⟩
  obtain ⟨hreport, -, -⟩ := parse_rearranged htidy hrows hother
  rw [hreport, htidy.report_parse hrows]
  decide

end Table

end TableLexer
