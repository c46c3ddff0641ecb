import TableLexer.Proofs.Automaton.Accepting
import TableLexer.Proofs.StandardLexer
/-!
The states of the standard lexer.  No state leads back to the entry state, and from each of them only a
few categories are still in prospect; so the first character of a lexeme decides among the kinds of
literals.  What is left of each literal is read by a few states of its own.
-/

namespace TableLexer.StandardTables

/-- The categories that may still be accepted from each state on, in the order of the rows.  The entry
state is left out of account. -/
def prospectTable : List (List String) := [
  [],
  ["Identifier"],
  ["Integer Literal", "Float Literal"],
  ["Float Literal"],
  ["Float Literal"],
  ["Member Operator", "Float Literal"],
  ["String Literal"],
  ["String Literal"],
  ["String Literal"],
  ["Character Literal"],
  ["Character Literal"],
  ["Character Literal"],
  ["Character Literal"],
  ["Arithmetic Operator", "Assignment Operator", "Line Comment", "Block Comment"],
  ["Line Comment"],
  ["Line Comment"],
  ["Block Comment"],
  ["Block Comment"],
  ["Block Comment"],
  ["Assignment Operator", "Relational Operator"],
  ["Relational Operator"],
  ["Relational Operator"],
  ["Logical Operator", "Relational Operator"],
  ["Arithmetic Operator", "Assignment Operator"],
  ["Assignment Operator"],
  ["Logical Operator"],
  ["Logical Operator"],
  ["Logical Operator"],
  ["Punctuation"],
  ["Bracket"]]

def prospects (state : Nat) : List String := prospectTable[state]?.getD []

/-- A destination that is not the entry state, and has none but some categories in prospect. -/
def Keeps (categories : List String) (destination : String) : Prop :=
  ∀ state ∈ (lexicalRows.map Row.name).idxOf? destination,
    state ≠ 0 ∧ ∀ category ∈ prospects state, category ∈ categories

instance (categories : List String) (destination : String) :
    Decidable (Keeps categories destination) :=
  inferInstanceAs (Decidable (∀ state ∈ (lexicalRows.map Row.name).idxOf? destination,
    state ≠ 0 ∧ ∀ category ∈ prospects state, category ∈ categories))

theorem keeps_destination :
    ∀ entry ∈ (lexicalRows.zip prospectTable).tail, ∀ c, Keeps entry.2 (entry.1.destination c) := by
  simp only [lexicalRows, prospectTable, List.zip_cons_cons, List.zip_nil_right, List.tail_cons,
    List.forall_mem_cons]
  and_intros
  all_goals with_reducible first
    | exact forall_nowhere (by decide)
    | exact forall_onElse (by decide) (by decide)
    | exact forall_on (by decide) (by decide) _
    | exact forall_onDigit (by decide) (by decide)
    | exact fun c => forall_ite (by decide) (by decide) _
    | exact fun c => forall_ite (by decide) (forall_ite (by decide) (by decide) _) _
    | exact fun entry hmem => absurd hmem List.not_mem_nil

/-- A transition from any other state than the entry state keeps to its prospects. -/
theorem keeps_transition {state target : Nat} {c : Char} (hstate : state ≠ 0)
    (htarget : pipeline.lexer.machine.transition? state c = some target) :
    target ≠ 0 ∧ ∀ category ∈ prospects target, category ∈ prospects state := by
  rw [machine_lexer, transition?_lexicalMachine, Option.bind_eq_some_iff] at htarget
  obtain ⟨row, hrow, hdestination⟩ := htarget
  obtain ⟨-, hdestination⟩ := Option.ite_none_right_eq_some.mp hdestination
  obtain ⟨n, rfl⟩ := Nat.exists_eq_succ_of_ne_zero hstate
  obtain ⟨hlt, -⟩ := List.getElem?_eq_some_iff.mp hrow
  have hlength : lexicalRows.length = prospectTable.length := rfl
  have hprospects : prospectTable[n + 1]? = some (prospects (n + 1)) := by
    rw [prospects, List.getElem?_eq_getElem (hlength ▸ hlt), Option.getD_some]
  have hmem : (row, prospects (n + 1)) ∈ (lexicalRows.zip prospectTable).tail := by
    apply List.mem_of_getElem? (i := n)
    rw [List.getElem?_tail]
    exact List.getElem?_zip_eq_some.mpr ⟨hrow, hprospects⟩
  have hkeeps : Keeps (prospects (n + 1)) (row.destination c) :=
    keeps_destination (row, prospects (n + 1)) hmem c
  exact hkeeps target (Option.mem_def.mpr hdestination)

theorem departs_lexer : pipeline.lexer.machine.Departs 0 :=
  fun _ _ hstate htarget => (keeps_transition hstate htarget).1 rfl

theorem accepted?_mem_prospects {state : Nat} {category : String}
    (haccepted : pipeline.lexer.machine.accepted? state = some category) :
    category ∈ prospects state := by
  have hrows : ∀ state < lexicalRows.length, ∀ category ∈ lexicalRows[state]?.bind fun row =>
      if row.accepted = "" then none else some row.accepted, category ∈ prospects state := by
    decide +kernel
  rw [machine_lexer, accepted?_lexicalMachine] at haccepted
  obtain ⟨row, hrow, -⟩ := Option.bind_eq_some_iff.mp haccepted
  exact hrows state (List.getElem?_eq_some_iff.mp hrow).1 category (Option.mem_def.mpr haccepted)

/-- What a word is accepted as was in prospect from its first character on. -/
theorem mem_prospects_of_category? {state : Nat} {word : List Char} {category : String}
    (hstate : state ≠ 0)
    (hcategory : pipeline.lexer.machine.category? state word = some category) :
    category ∈ prospects state := by
  induction word generalizing state with
  | nil =>
      rw [Machine.category?_nil] at hcategory
      exact accepted?_mem_prospects hcategory
  | cons c word ih =>
      obtain ⟨target, htarget, hrest⟩ := Machine.category?_cons_eq_some_iff.mp hcategory
      obtain ⟨hne, hkeeps⟩ := keeps_transition hstate htarget
      exact hkeeps category (ih hne hrest)

theorem mem_symbols_of_printable {c : Char} (hlow : 0x20 ≤ c.toNat) (hhigh : c.toNat < 0x7F) :
    c ∈ symbols := by
  apply List.mem_append_right
  refine List.mem_map.mpr ⟨c.toNat, ?_, Char.ofNat_toNat c⟩
  rw [List.mem_range'_1]
  omega

theorem mem_symbols_of_isAlphanum {c : Char} (hc : c.isAlphanum) : c ∈ symbols := by
  have hbounds : 0x20 ≤ c.toNat ∧ c.toNat < 0x7F := by
    have hranges : c.isAlphanum = (decide (c.val ≥ 'A'.val ∧ c.val ≤ 'Z'.val) ||
        (decide (c.val ≥ 'a'.val) && decide (c.val ≤ 'z'.val)) ||
        (decide (c.val ≥ '0'.val) && decide (c.val ≤ '9'.val))) := rfl
    simp only [hranges, Bool.or_eq_true, Bool.and_eq_true, decide_eq_true_eq, ge_iff_le,
      UInt32.le_iff_toNat_le] at hc
    have hcode : c.toNat = c.val.toNat := rfl
    rw [hcode]
    simp at hc
    omega
  exact mem_symbols_of_printable hbounds.1 hbounds.2

theorem mem_symbols_of_isDigit {c : Char} (hc : c.isDigit) : c ∈ symbols :=
  mem_symbols_of_isAlphanum (by simp [Char.isAlphanum, hc])

theorem transition?_of_notMem {c : Char} (hc : c ∉ symbols) (state : Nat) :
    pipeline.lexer.machine.transition? state c = none := by
  rw [machine_lexer, transition?_lexicalMachine]
  simp [hc]

theorem mem_symbols_of_transition? {state target : Nat} {c : Char}
    (htarget : pipeline.lexer.machine.transition? state c = some target) : c ∈ symbols := by
  by_contra hforeign
  rw [transition?_of_notMem hforeign] at htarget
  exact absurd htarget nofun

/-- A character that opens a literal, and the state to which it leads. -/
def Opens (c : Char) (state : Nat) : Prop :=
  (state = 1 ∧ (c.isAlpha ∨ c = '_')) ∨ (state = 2 ∧ c.isDigit) ∨ (state = 5 ∧ c = '.') ∨
    (state = 6 ∧ c = '"') ∨ (state = 9 ∧ c = '\'') ∨ (state = 13 ∧ c = '/')

instance (c : Char) (state : Nat) : Decidable (Opens c state) :=
  inferInstanceAs (Decidable ((state = 1 ∧ (c.isAlpha ∨ c = '_')) ∨ (state = 2 ∧ c.isDigit) ∨
    (state = 5 ∧ c = '.') ∨ (state = 6 ∧ c = '"') ∨ (state = 9 ∧ c = '\'') ∨ (state = 13 ∧ c = '/')))

/-- The states to which such characters lead. -/
def openStates : List Nat := [1, 2, 5, 6, 9, 13]

def literalCategories : List String := ["Identifier", "Integer Literal", "Float Literal",
  "String Literal", "Character Literal", "Line Comment", "Block Comment"]

theorem Opens.mem_openStates {c : Char} {state : Nat} (hopens : Opens c state) :
    state ∈ openStates := by
  rcases hopens with ⟨rfl, -⟩ | ⟨rfl, -⟩ | ⟨rfl, -⟩ | ⟨rfl, -⟩ | ⟨rfl, -⟩ | ⟨rfl, -⟩ <;> decide

theorem Opens.state_ne_zero {c : Char} {state : Nat} (hopens : Opens c state) : state ≠ 0 := by
  have hall : ∀ state ∈ openStates, state ≠ 0 := by decide
  exact hall state hopens.mem_openStates

theorem Opens.mem_symbols {c : Char} {state : Nat} (hopens : Opens c state) : c ∈ symbols := by
  rcases hopens with ⟨-, hletter | rfl⟩ | ⟨-, hdigit⟩ | ⟨-, rfl⟩ | ⟨-, rfl⟩ | ⟨-, rfl⟩ | ⟨-, rfl⟩
  · exact mem_symbols_of_isAlphanum (by simp [Char.isAlphanum, hletter])
  · decide
  · exact mem_symbols_of_isDigit hdigit
  all_goals decide

theorem Opens.transition? {c : Char} {state : Nat} (hopens : Opens c state) :
    pipeline.lexer.machine.transition? 0 c = some state := by
  have hall : ∀ c ∈ symbols, ∀ state ∈ openStates, Opens c state →
      lexicalRows[0]?.bind (fun row => (lexicalRows.map Row.name).idxOf? (row.destination c)) =
        some state := by
    decide +kernel
  rw [machine_lexer, transition?_lexicalMachine_of_mem hopens.mem_symbols]
  exact hall c hopens.mem_symbols state hopens.mem_openStates hopens

/-- No other character opens a literal. -/
theorem opens_of_transition? {c : Char} {state : Nat} {category : String}
    (htransition : pipeline.lexer.machine.transition? 0 c = some state)
    (hliteral : category ∈ literalCategories) (hprospect : category ∈ prospects state) :
    Opens c state := by
  have hall : ∀ c ∈ symbols, ∀ state ∈ lexicalRows[0]?.bind (fun row =>
      (lexicalRows.map Row.name).idxOf? (row.destination c)),
      (∃ category ∈ literalCategories, category ∈ prospects state) → Opens c state := by
    decide +kernel
  have hc := mem_symbols_of_transition? htransition
  rw [machine_lexer, transition?_lexicalMachine_of_mem hc] at htransition
  exact hall c hc state (Option.mem_def.mpr htransition) ⟨category, hliteral, hprospect⟩

/-- The number of the state with a name. -/
def number? (name : String) : Option Nat := (lexicalRows.map Row.name).idxOf? name

/-- The states to which those of the literals lead. -/
theorem numbers :
    number? "" = none ∧ number? "Float" = some 4 ∧
    number? "String Body" = some 6 ∧ number? "String Escape" = some 7 ∧
    number? "String End" = some 8 ∧ number? "Char Escape" = some 10 ∧
    number? "Char Body" = some 11 ∧ number? "Char End" = some 12 ∧
    number? "Line Comment" = some 14 ∧ number? "Block Comment" = some 16 ∧
    number? "Block Comment Star" = some 17 ∧ number? "Block Comment End" = some 18 ∧
    number? "Compound Assign" = some 24 := by
  decide

section Rows

variable {c : Char} {state : Nat}

theorem transition?_row {row : Row} (hrow : lexicalRows[state]? = some row) (hc : c ∈ symbols) :
    pipeline.lexer.machine.transition? state c = number? (row.destination c) := by
  rw [machine_lexer, transition?_lexicalMachine_of_mem hc, hrow, Option.bind_some, number?]

theorem transition?_fraction (hstate : state ∈ [3, 4, 5]) (hc : c ∈ symbols) :
    pipeline.lexer.machine.transition? state c = if c.isDigit then some 4 else none := by
  have hrow : ∃ name accepted, lexicalRows[state]? = some ⟨name, accepted, onDigit "Float"⟩ := by
    simp only [List.mem_cons, List.not_mem_nil, or_false] at hstate
    rcases hstate with rfl | rfl | rfl
    all_goals exact ⟨_, _, rfl⟩
  obtain ⟨name, accepted, hrow⟩ := hrow
  rw [transition?_row hrow hc]
  simp only [onDigit]
  grind [numbers]

theorem transition?_string (hc : c ∈ symbols) : pipeline.lexer.machine.transition? 6 c =
    if c = '\n' ∨ c = '\r' then none
    else if c = '"' then some 8
    else if c = '\\' then some 7
    else some 6 := by
  rw [transition?_row rfl hc]
  simp only [onElse, List.lookup_cons, List.lookup_nil]
  grind [numbers]

theorem transition?_stringEscape (hc : c ∈ symbols) : pipeline.lexer.machine.transition? 7 c =
    if c = '\n' ∨ c = '\r' then none else some 6 := by
  rw [transition?_row rfl hc]
  simp only [onElse, List.lookup_cons, List.lookup_nil]
  grind [numbers]

theorem transition?_character (hc : c ∈ symbols) : pipeline.lexer.machine.transition? 9 c =
    if c = '\n' ∨ c = '\r' ∨ c = '\'' then none
    else if c = '\\' then some 10
    else some 11 := by
  rw [transition?_row rfl hc]
  simp only [onElse, List.lookup_cons, List.lookup_nil]
  grind [numbers]

theorem transition?_characterEscape (hc : c ∈ symbols) :
    pipeline.lexer.machine.transition? 10 c =
      if c = '\n' ∨ c = '\r' then none else some 11 := by
  rw [transition?_row rfl hc]
  simp only [onElse, List.lookup_cons, List.lookup_nil]
  grind [numbers]

theorem transition?_characterEnd (hc : c ∈ symbols) : pipeline.lexer.machine.transition? 11 c =
    if c = '\'' then some 12 else none := by
  rw [transition?_row rfl hc]
  simp only [on]
  grind [numbers]

theorem transition?_afterSlash (hc : c ∈ symbols) : pipeline.lexer.machine.transition? 13 c =
    if c = '/' then some 14
    else if c = '*' then some 16
    else if c = '=' then some 24
    else none := by
  rw [transition?_row rfl hc]
  simp only [onElse, List.lookup_cons, List.lookup_nil]
  grind [numbers]

theorem transition?_block (hc : c ∈ symbols) : pipeline.lexer.machine.transition? 16 c =
    some (if c = '*' then 17 else 16) := by
  rw [transition?_row rfl hc]
  simp only [onElse, List.lookup_cons, List.lookup_nil]
  grind [numbers]

theorem transition?_blockStar (hc : c ∈ symbols) : pipeline.lexer.machine.transition? 17 c =
    some (if c = '*' then 17 else if c = '/' then 18 else 16) := by
  rw [transition?_row rfl hc]
  simp only [onElse, List.lookup_cons, List.lookup_nil]
  grind [numbers]

end Rows

/-- The states of quoted texts and block comments that have begun and not ended. -/
def unfinishedStates : List Nat := [6, 7, 9, 10, 11, 16, 17]

theorem accepted?_unfinished {state : Nat} (hstate : state ∈ unfinishedStates) :
    pipeline.lexer.machine.accepted? state = none := by
  have hrows : ∀ state ∈ unfinishedStates, (lexicalRows[state]?.bind fun row =>
      if row.accepted = "" then none else some row.accepted) = none := by
    decide
  rw [machine_lexer, accepted?_lexicalMachine]
  exact hrows state hstate

/-- What has begun and not ended goes on with a symbol that leads on. -/
theorem exists_symbol_of_category? {state : Nat} {word : List Char} {category : String}
    (hstate : state ∈ unfinishedStates)
    (hcategory : pipeline.lexer.machine.category? state word = some category) :
    ∃ c rest target, word = c :: rest ∧ c ∈ symbols ∧
      pipeline.lexer.machine.transition? state c = some target ∧
      pipeline.lexer.machine.category? target rest = some category := by
  cases word with
  | nil =>
      rw [Machine.category?_nil, accepted?_unfinished hstate] at hcategory
      exact absurd hcategory nofun
  | cons c rest =>
      obtain ⟨target, htarget, hrest⟩ := Machine.category?_cons_eq_some_iff.mp hcategory
      exact ⟨c, rest, target, rfl, mem_symbols_of_transition? htarget, htarget, hrest⟩

/-- The states in which a literal or a comment has ended, with its category. -/
def endings : List (Nat × String) := [(8, "String Literal"), (12, "Character Literal"),
  (15, "Line Comment"), (18, "Block Comment")]

/-- Where a literal or a comment has ended nothing follows. -/
theorem category?_ended {state : Nat} {category : String} (hended : (state, category) ∈ endings)
    {word : List Char} :
    pipeline.lexer.machine.category? state word = some category ↔ word = [] := by
  have hrows : ∀ ending ∈ endings,
      lexicalRows[ending.1]?.map (fun row => row.accepted) = some ending.2 ∧ ending.2 ≠ "" := by
    decide
  have hdead : ∀ c, pipeline.lexer.machine.transition? state c = none := by
    intro c
    rw [machine_lexer, transition?_lexicalMachine]
    simp only [endings, List.mem_cons, Prod.mk.injEq, List.not_mem_nil, or_false] at hended
    rcases hended with ⟨rfl, -⟩ | ⟨rfl, -⟩ | ⟨rfl, -⟩ | ⟨rfl, -⟩ <;> simp [lexicalRows, nowhere]
  have haccepted : pipeline.lexer.machine.accepted? state = some category := by
    obtain ⟨hrow, hne⟩ := hrows (state, category) hended
    obtain ⟨row, hrow, rfl⟩ := Option.map_eq_some_iff.mp hrow
    rw [machine_lexer, accepted?_lexicalMachine, hrow, Option.bind_some, if_neg hne]
  rw [Machine.category?_eq_some_iff_of_dead hdead]
  exact and_iff_right haccepted

end TableLexer.StandardTables
