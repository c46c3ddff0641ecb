import Std.Data.HashMap.Lemmas
import TableLexer.Keywords
/-!
Entries of keyword tables.  A lexeme has the category of its first entry: the lines of the text come
first, those of them that name a lexeme and a category, and the insertions after them.  No entry changes
once it is there, and a category that was looked up is not changed by looking it up again.
-/

namespace TableLexer.Keywords

/-- A cell of a line, or the empty text if the line is too short. -/
def cell (line : String) (column : Nat) : String := (Text.cut ',' line)[column]?.getD ""

/-- Whether a line is an entry for a lexeme: its first cell is the lexeme, and its first two cells are not
empty. -/
def IsEntry (lexeme line : String) : Prop :=
  cell line 0 = lexeme ∧ cell line 0 ≠ "" ∧ cell line 1 ≠ ""

instance (lexeme line : String) : Decidable (IsEntry lexeme line) :=
  inferInstanceAs (Decidable (cell line 0 = lexeme ∧ cell line 0 ≠ "" ∧ cell line 1 ≠ ""))

theorem entryOf?_eq (line : String) : entryOf? line =
    if cell line 0 ≠ "" ∧ cell line 1 ≠ "" then some (cell line 0, cell line 1) else none := by
  rw [entryOf?, cell, cell]
  split
  next lexeme category rest hcells => simp [hcells, ite_not, ← not_or]
  next hshort =>
      -- Without a second cell, the second cell counts as empty.
      have hcell : (Text.cut ',' line)[1]? = none := by
        apply List.getElem?_eq_none
        match hcells : Text.cut ',' line with
        | [] => exact Nat.zero_le 1
        | [_] => exact Nat.le_refl 1
        | lexeme :: category :: rest => exact absurd hcells (hshort lexeme category rest)
      simp [hcell]

@[simp] theorem get?_empty (lexeme : String) : empty.get? lexeme = none := by
  simp [get?, empty]

theorem resolve_empty (category lexeme identifierCategory : String) :
    empty.resolve category lexeme identifierCategory = category := by
  simp [resolve]

section Inserting

variable (k : Keywords)

/-- A table after insertions, in turn. -/
def insertAll (entries : List (String × String)) : Keywords :=
  entries.foldl (fun k entry => (k.insert entry.1 entry.2).2) k

theorem insert_of_some {lexeme name : String} (hentry : k.get? lexeme = some name)
    (category : String) : k.insert lexeme category = (false, k) := by
  rw [insert, if_pos]
  rw [Std.HashMap.contains_eq_isSome_getElem?, ← get?, hentry, Option.isSome_some]

theorem insert_of_none {lexeme : String} (hentry : k.get? lexeme = none) (category : String) :
    k.insert lexeme category = (true, ⟨k.entries.insert lexeme category⟩) := by
  rw [insert, if_neg]
  rw [Std.HashMap.contains_eq_isSome_getElem?, ← get?, hentry, Option.isSome_none]
  exact Bool.false_ne_true

/-- An insertion tells whether there was no entry. -/
theorem insert_fst_iff (lexeme category : String) :
    (k.insert lexeme category).1 ↔ k.get? lexeme = none := by
  cases hentry : k.get? lexeme with
  | none => simp [insert_of_none k hentry]
  | some name => simp [insert_of_some k hentry]

/-- An insertion adds an entry where there is none, and changes nothing else. -/
theorem get?_insert (lexeme category word : String) : (k.insert lexeme category).2.get? word =
    (k.get? word).or (if lexeme = word then some category else none) := by
  cases hentry : k.get? lexeme with
  | some name =>
      rw [insert_of_some k hentry]
      by_cases hsame : lexeme = word
      · rw [← hsame, hentry, Option.some_or]
      · rw [if_neg hsame, Option.or_none]
  | none =>
      rw [insert_of_none k hentry, get?, Std.HashMap.getElem?_insert]
      by_cases hsame : lexeme = word
      · rw [if_pos (beq_iff_eq.mpr hsame), if_pos hsame, ← hsame, hentry, Option.none_or]
      · rw [if_neg (mt beq_iff_eq.mp hsame), if_neg hsame, Option.or_none, get?]

/-- Of the insertions for one lexeme the first counts, if there is no entry yet. -/
theorem get?_insertAll (entries : List (String × String)) (word : String) :
    (k.insertAll entries).get? word =
      (k.get? word).or ((entries.find? (·.1 = word)).map Prod.snd) := by
  induction entries generalizing k with
  | nil => simp [insertAll]
  | cons entry entries ih =>
      rw [insertAll, List.foldl_cons, ← insertAll, ih, get?_insert, Option.or_assoc]
      by_cases hsame : entry.1 = word
      · rw [if_pos hsame, List.find?_cons_of_pos (by simpa using hsame), Option.some_or,
          Option.map_some]
      · rw [if_neg hsame, List.find?_cons_of_neg (by simpa using hsame), Option.none_or]

/-- The size of a table is the number of its lexemes. -/
theorem exists_lexemes : ∃ lexemes : List String, lexemes.Nodup ∧
    (∀ lexeme, lexeme ∈ lexemes ↔ k.get? lexeme ≠ none) ∧ k.size = lexemes.length := by
  refine ⟨k.entries.keys, Std.HashMap.nodup_keys, ?_, Std.HashMap.length_keys.symm⟩
  intro lexeme
  rw [Std.HashMap.mem_keys, Std.HashMap.mem_iff_isSome_getElem?, Option.isSome_iff_ne_none, get?]

theorem resolve_of_ne {category identifierCategory : String} (hne : category ≠ identifierCategory)
    (lexeme : String) : k.resolve category lexeme identifierCategory = category :=
  if_neg hne

theorem resolve_resolve (category lexeme identifierCategory : String) :
    k.resolve (k.resolve category lexeme identifierCategory) lexeme identifierCategory =
      k.resolve category lexeme identifierCategory := by
  by_cases hsame : category = identifierCategory
  · cases hentry : k.get? lexeme with
    | none =>
        have hresolve : k.resolve category lexeme identifierCategory = category := by
          rw [resolve, hentry, Option.getD_none, ite_self]
        rw [hresolve, hresolve]
    | some name =>
        have hresolve : k.resolve category lexeme identifierCategory = name := by
          rw [resolve, if_pos hsame, hentry, Option.getD_some]
        rw [hresolve, resolve, hentry, Option.getD_some, ite_self]
  · rw [resolve_of_ne k hsame, resolve_of_ne k hsame]

end Inserting

section Parsing

theorem fst_addLine (x : Keywords × List Notice) (line : String) :
    (addLine x line).1 = x.1.insertAll (entryOf? line).toList := by
  rw [addLine]
  cases entryOf? line with
  | none => rfl
  | some entry =>
      obtain ⟨lexeme, category⟩ := entry
      rw [Option.toList_some, insertAll, List.foldl_cons, List.foldl_nil]
      cases hentry : x.1.get? lexeme with
      | none => simp [insert_of_none x.1 hentry]
      | some name => simp [insert_of_some x.1 hentry]

theorem fst_foldl_addLine (x : Keywords × List Notice) (lines : List String) :
    (lines.foldl addLine x).1 = x.1.insertAll (lines.filterMap entryOf?) := by
  induction lines generalizing x with
  | nil => rfl
  | cons line lines ih =>
      rw [List.foldl_cons, ih, fst_addLine]
      cases hentry : entryOf? line with
      | none =>
          rw [List.filterMap_cons_none hentry]
          rfl
      | some entry =>
          rw [List.filterMap_cons_some hentry]
          rfl

/-- A text is read by inserting the entries of its lines. -/
theorem parse_eq_insertAll (text : String) : (parse text).value =
    empty.insertAll (((Text.lines text).filter (· ≠ "")).filterMap entryOf?) :=
  fst_foldl_addLine (empty, []) _

/-- The keywords of a table with a single line. -/
theorem get?_parse_line {text line lexeme category : String}
    (hlines : (Text.lines text).filter (· ≠ "") = [line])
    (hentry : entryOf? line = some (lexeme, category)) (word : String) :
    (parse text).value.get? word = if lexeme = word then some category else none := by
  rw [parse_eq_insertAll, hlines, List.filterMap_cons_some hentry, List.filterMap_nil, insertAll,
    List.foldl_cons, List.foldl_nil, get?_insert, get?_empty, Option.none_or]

/-- An empty line is no entry, so it makes no difference that empty lines are passed over. -/
theorem filterMap_entryOf? (lines : List String) :
    (lines.filter (· ≠ "")).filterMap entryOf? = lines.filterMap entryOf? := by
  rw [List.filterMap_filter]
  refine congrArg (fun f => lines.filterMap f) (funext fun line => ?_)
  by_cases hempty : line = ""
  · subst hempty
    decide
  · rw [if_pos (decide_eq_true hempty)]

/-- A lexeme has the category of the first line that is an entry for it. -/
theorem get?_parse (text lexeme : String) : (parse text).value.get? lexeme =
    ((Text.lines text).find? (IsEntry lexeme)).map (cell · 1) := by
  have hentry : ∀ line, (entryOf? line).any (·.1 = lexeme) = decide (IsEntry lexeme line) := by
    intro line
    rw [Bool.eq_iff_iff, decide_eq_true_iff, entryOf?_eq, IsEntry]
    by_cases hcells : cell line 0 ≠ "" ∧ cell line 1 ≠ ""
    · simp [hcells]
    · simp [hcells]
  rw [parse_eq_insertAll, filterMap_entryOf?, get?_insertAll, get?_empty, Option.none_or,
    List.find?_filterMap]
  simp only [hentry]
  cases hfound : (Text.lines text).find? (IsEntry lexeme) with
  | none => rfl
  | some line =>
      obtain ⟨-, hcells⟩ : IsEntry lexeme line := by simpa using List.find?_some hfound
      rw [Option.bind_some, entryOf?_eq, if_pos hcells, Option.map_some, Option.map_some]

end Parsing

/-- The entries of a table that is read from a text and then inserted into.  The category of a lexeme is that
of the first line that is an entry for it, or else that of its first insertion.  An insertion tells whether
the lexeme had no entry, and leaves all entries as they are.  The size is the number of lexemes with an
entry.  Only identifiers get the category of their lexeme, and looking it up again changes nothing. -/
theorem first_entries (text : String) (inserted : List (String × String)) :
    let k := (parse text).value.insertAll inserted
    (∀ lexeme, k.get? lexeme =
      (((Text.lines text).find? (IsEntry lexeme)).map (cell · 1)).or
        ((inserted.find? (·.1 = lexeme)).map Prod.snd)) ∧
    (∀ lexeme category,
      ((k.insert lexeme category).1 ↔ k.get? lexeme = none) ∧
      ∀ word name, k.get? word = some name → (k.insert lexeme category).2.get? word = some name) ∧
    (∃ lexemes : List String, lexemes.Nodup ∧
      (∀ lexeme, lexeme ∈ lexemes ↔ k.get? lexeme ≠ none) ∧ k.size = lexemes.length) ∧
    (∀ category lexeme identifierCategory,
      k.resolve identifierCategory lexeme identifierCategory =
        (k.get? lexeme).getD identifierCategory ∧
      (category ≠ identifierCategory → k.resolve category lexeme identifierCategory = category) ∧
      k.resolve (k.resolve category lexeme identifierCategory) lexeme identifierCategory =
        k.resolve category lexeme identifierCategory) := by
  intro k
  refine ⟨?_, ?_, k.exists_lexemes, ?_⟩
  · intro lexeme
    rw [get?_insertAll, get?_parse]
  · intro lexeme category
    refine ⟨k.insert_fst_iff lexeme category, ?_⟩
    intro word name hentry
    rw [get?_insert, hentry, Option.some_or]
  · exact fun category lexeme identifierCategory =>
      ⟨if_pos rfl, fun hne => k.resolve_of_ne hne lexeme,
        k.resolve_resolve category lexeme identifierCategory⟩

end TableLexer.Keywords
