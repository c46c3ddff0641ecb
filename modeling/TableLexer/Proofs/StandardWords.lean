import TableLexer.Proofs.StandardStates
/-!
What the standard lexer still reads in the states of its literals: digits, items between quotes up to
the quote that ends them, and comments up to their end.
-/

namespace TableLexer.StandardTables

/-- One item between quotes: a symbol that stands for itself, or one after a backslash. -/
inductive Item (quote : Char) : List Char → Prop
  | plain {c : Char} (hsymbol : c ∈ symbols) (hplain : c ∉ [quote, '\\', '\n', '\r']) : Item quote [c]
  | escaped {c : Char} (hsymbol : c ∈ symbols) (hline : c ∉ ['\n', '\r']) : Item quote ['\\', c]

section Words

variable {word : List Char}

theorem category?_identifier :
    pipeline.lexer.machine.category? 1 word = some "Identifier" ↔
      ∀ c ∈ word, c.isAlphanum ∨ c = '_' := by
  have hloop : ∀ c, c.isAlphanum ∨ c = '_' →
      pipeline.lexer.machine.transition? 1 c = some 1 := by
    intro c hc
    have hsymbol : c ∈ symbols := by
      rcases hc with hc | rfl
      · exact mem_symbols_of_isAlphanum hc
      · decide
    rw [transition?_identifier c hsymbol, if_pos hc]
  have hstop : ∀ c, ¬ (c.isAlphanum ∨ c = '_') →
      pipeline.lexer.machine.transition? 1 c = none := by
    intro c hc
    by_cases hsymbol : c ∈ symbols
    · rw [transition?_identifier c hsymbol, if_neg hc]
    · exact transition?_of_notMem hsymbol 1
  rw [Machine.category?_eq_some_iff_of_loop hloop hstop]
  exact and_iff_right accepted?_identifier

/-- A number goes on with digits, or with a dot after which it is a number with a fraction. -/
theorem category?_number (category : String) :
    pipeline.lexer.machine.category? 2 word = some category ↔
      (category = "Integer Literal" ∧ ∀ c ∈ word, c.isDigit) ∨
      ∃ whole fraction, word = whole ++ '.' :: fraction ∧ (∀ c ∈ whole, c.isDigit) ∧
        pipeline.lexer.machine.category? 3 fraction = some category := by
  have hexit : pipeline.lexer.machine.transition? 2 '.' = some 3 := by
    rw [transition?_number '.' (by decide)]
    decide
  have hdot : ¬ ('.'.isDigit = true) := by decide
  have hloop : ∀ c, c.isDigit = true → pipeline.lexer.machine.transition? 2 c = some 2 := by
    intro c hc
    rw [transition?_number c (mem_symbols_of_isDigit hc), if_pos hc]
  have hstop : ∀ c, c ≠ '.' → ¬ c.isDigit = true →
      pipeline.lexer.machine.transition? 2 c = none := by
    intro c hne hc
    by_cases hsymbol : c ∈ symbols
    · rw [transition?_number c hsymbol, if_neg hc, if_neg hne]
    · exact transition?_of_notMem hsymbol 2
  rw [Machine.category?_eq_some_iff_of_exit hexit hdot hloop hstop, accepted?_number,
    Option.some.injEq, eq_comm]

theorem category?_integer :
    pipeline.lexer.machine.category? 2 word = some "Integer Literal" ↔ ∀ c ∈ word, c.isDigit := by
  have hfraction : ∀ fraction,
      pipeline.lexer.machine.category? 3 fraction ≠ some "Integer Literal" := by
    intro fraction hcategory
    have hprospect : "Integer Literal" ∉ prospects 3 := by decide
    exact hprospect (mem_prospects_of_category? (by decide) hcategory)
  rw [category?_number]
  simp only [hfraction, and_false, exists_false, or_false, true_and]

/-- In the states around the dot of a number digits lead on. -/
theorem transition?_digits {state : Nat} (hstate : state ∈ [3, 4, 5]) (c : Char) :
    pipeline.lexer.machine.transition? state c = if c.isDigit then some 4 else none := by
  by_cases hsymbol : c ∈ symbols
  · exact transition?_fraction hstate hsymbol
  · rw [transition?_of_notMem hsymbol, if_neg fun hdigit => hsymbol (mem_symbols_of_isDigit hdigit)]

theorem category?_digits :
    pipeline.lexer.machine.category? 4 word = some "Float Literal" ↔ ∀ c ∈ word, c.isDigit := by
  have haccepted : pipeline.lexer.machine.accepted? 4 = some "Float Literal" := by
    rw [machine_lexer, accepted?_lexicalMachine]
    decide
  have hloop : ∀ c, c.isDigit = true → pipeline.lexer.machine.transition? 4 c = some 4 :=
    fun c hc => (transition?_digits (by decide) c).trans (if_pos hc)
  have hstop : ∀ c, ¬ c.isDigit = true → pipeline.lexer.machine.transition? 4 c = none :=
    fun c hc => (transition?_digits (by decide) c).trans (if_neg hc)
  rw [Machine.category?_eq_some_iff_of_loop hloop hstop]
  exact and_iff_right haccepted

/-- After the dot of a number there has to be a digit. -/
theorem category?_fraction {state : Nat} (hstate : state ∈ [3, 5]) :
    pipeline.lexer.machine.category? state word = some "Float Literal" ↔
      word ≠ [] ∧ ∀ c ∈ word, c.isDigit := by
  have hdigits : state ∈ [3, 4, 5] := by
    simp only [List.mem_cons, List.not_mem_nil, or_false] at hstate ⊢
    omega
  cases word with
  | nil =>
      have haccepted : pipeline.lexer.machine.accepted? state ≠ some "Float Literal" := by
        rw [machine_lexer, accepted?_lexicalMachine]
        simp only [List.mem_cons, List.not_mem_nil, or_false] at hstate
        rcases hstate with rfl | rfl <;> decide
      rw [Machine.category?_nil]
      exact iff_of_false haccepted (by simp)
  | cons c word =>
      by_cases hc : c.isDigit
      · rw [Machine.category?_cons_of_some ((transition?_digits hdigits c).trans (if_pos hc)),
          category?_digits, List.forall_mem_cons]
        simp [hc]
      · rw [Machine.category?_cons_of_none ((transition?_digits hdigits c).trans (if_neg hc))]
        simp [hc]

theorem category?_float :
    pipeline.lexer.machine.category? 2 word = some "Float Literal" ↔
      ∃ whole fraction, word = whole ++ '.' :: fraction ∧ (∀ c ∈ whole, c.isDigit) ∧
        fraction ≠ [] ∧ ∀ c ∈ fraction, c.isDigit := by
  have hne : "Float Literal" ≠ "Integer Literal" := by decide
  have hthree : 3 ∈ [3, 5] := by decide
  rw [category?_number]
  simp only [hne, false_and, false_or, category?_fraction hthree]

theorem category?_lineComment :
    pipeline.lexer.machine.category? 14 word = some "Line Comment" ↔
      ∃ body, (∀ c ∈ body, c ∈ symbols ∧ c ≠ '\n') ∧ word = body ++ ['\n'] := by
  have hexit : pipeline.lexer.machine.transition? 14 '\n' = some 15 :=
    (transition?_comment '\n' (by decide)).trans (by decide)
  have hfeed : ¬ ('\n' ∈ symbols ∧ '\n' ≠ '\n') := fun h => h.2 rfl
  have hloop : ∀ c, c ∈ symbols ∧ c ≠ '\n' → pipeline.lexer.machine.transition? 14 c = some 14 := by
    intro c hc
    rw [transition?_comment c hc.1, if_neg hc.2]
  have hstop : ∀ c, c ≠ '\n' → ¬ (c ∈ symbols ∧ c ≠ '\n') →
      pipeline.lexer.machine.transition? 14 c = none :=
    fun c hne hc => transition?_of_notMem (fun hsymbol => hc ⟨hsymbol, hne⟩) 14
  rw [Machine.category?_eq_some_iff_of_exit hexit hfeed hloop hstop, accepted?_comment]
  constructor
  · rintro (⟨hnone, -⟩ | ⟨body, rest, rfl, hbody, hrest⟩)
    · exact absurd hnone nofun
    · rw [category?_ended (by decide)] at hrest
      exact ⟨body, hbody, by rw [hrest]⟩
  · rintro ⟨body, hbody, rfl⟩
    exact .inr ⟨body, [], rfl, hbody, (category?_ended (by decide)).mpr rfl⟩

/-- An item of a string leads back to the state in which it begins. -/
theorem category?_item_append {item : List Char} (hitem : Item '"' item) :
    pipeline.lexer.machine.category? 6 (item ++ word) =
      pipeline.lexer.machine.category? 6 word := by
  cases hitem with
  | @plain c hsymbol hplain =>
      have hc : pipeline.lexer.machine.transition? 6 c = some 6 := by
        rw [transition?_string hsymbol]
        grind
      exact Machine.category?_cons_of_some hc word
  | @escaped c hsymbol hline =>
      have hbackslash : pipeline.lexer.machine.transition? 6 '\\' = some 7 :=
        (transition?_string (by decide)).trans (by decide)
      have hc : pipeline.lexer.machine.transition? 7 c = some 6 := by
        rw [transition?_stringEscape hsymbol]
        grind
      exact (Machine.category?_cons_of_some hbackslash _).trans
        (Machine.category?_cons_of_some hc word)

/-- Where a string goes on, it ends or has an item before the rest of it. -/
theorem category?_string_cases
    (hcategory : pipeline.lexer.machine.category? 6 word = some "String Literal") :
    word = ['"'] ∨ ∃ item rest, Item '"' item ∧ word = item ++ rest ∧
      pipeline.lexer.machine.category? 6 rest = some "String Literal" := by
  obtain ⟨c, rest, target, rfl, hc, htarget, hrest⟩ :=
    exists_symbol_of_category? (by decide) hcategory
  rw [transition?_string hc] at htarget
  split_ifs at htarget with hline hquote hescape
  · obtain rfl := Option.some.inj htarget
    rw [category?_ended (by decide)] at hrest
    exact .inl (by rw [hquote, hrest])
  · obtain rfl := Option.some.inj htarget
    obtain ⟨d, rest, target, rfl, hd, htarget, hrest⟩ :=
      exists_symbol_of_category? (by decide) hrest
    rw [transition?_stringEscape hd] at htarget
    split_ifs at htarget with hline
    obtain rfl := Option.some.inj htarget
    exact .inr ⟨['\\', d], rest, .escaped hd (by simpa using hline), by rw [hescape]; rfl, hrest⟩
  · obtain rfl := Option.some.inj htarget
    have hplain : c ∉ ['"', '\\', '\n', '\r'] := by
      simp only [List.mem_cons, List.not_mem_nil, or_false, not_or] at hline ⊢
      exact ⟨hquote, hescape, hline⟩
    exact .inr ⟨[c], rest, .plain hc hplain, rfl, hrest⟩

theorem category?_string :
    pipeline.lexer.machine.category? 6 word = some "String Literal" ↔
      ∃ items : List (List Char), (∀ item ∈ items, Item '"' item) ∧
        word = items.flatten ++ ['"'] := by
  have hquote : pipeline.lexer.machine.transition? 6 '"' = some 8 :=
    (transition?_string (by decide)).trans (by decide)
  constructor
  · intro hcategory
    induction hlength : word.length using Nat.strongRecOn generalizing word with
    | ind n ih =>
        rcases category?_string_cases hcategory with rfl | ⟨item, rest, hitem, rfl, hrest⟩
        · exact ⟨[], nofun, rfl⟩
        · have hshorter : rest.length < n := by
            rw [← hlength, List.length_append]
            cases hitem <;> simp
          obtain ⟨items, hitems, rfl⟩ := ih rest.length hshorter hrest rfl
          exact ⟨item :: items, List.forall_mem_cons.mpr ⟨hitem, hitems⟩, by simp⟩
  · rintro ⟨items, hitems, rfl⟩
    induction items with
    | nil =>
        rw [List.flatten_nil, List.nil_append, Machine.category?_cons_of_some hquote,
          category?_ended (by decide)]
    | cons item items ih =>
        obtain ⟨hitem, hitems⟩ := List.forall_mem_cons.mp hitems
        rw [List.flatten_cons, List.append_assoc, category?_item_append hitem]
        exact ih hitems

/-- After the item of a character there has to be the quote. -/
theorem category?_characterEnd :
    pipeline.lexer.machine.category? 11 word = some "Character Literal" ↔ word = ['\''] := by
  have hquote : pipeline.lexer.machine.transition? 11 '\'' = some 12 :=
    (transition?_characterEnd (by decide)).trans (by decide)
  constructor
  · intro hcategory
    obtain ⟨c, rest, target, rfl, hc, htarget, hrest⟩ :=
      exists_symbol_of_category? (by decide) hcategory
    rw [transition?_characterEnd hc] at htarget
    split_ifs at htarget with hend
    obtain rfl := Option.some.inj htarget
    rw [category?_ended (by decide)] at hrest
    rw [hend, hrest]
  · rintro rfl
    rw [Machine.category?_cons_of_some hquote, category?_ended (by decide)]

theorem category?_character :
    pipeline.lexer.machine.category? 9 word = some "Character Literal" ↔
      ∃ item, Item '\'' item ∧ word = item ++ ['\''] := by
  constructor
  · intro hcategory
    obtain ⟨c, rest, target, rfl, hc, htarget, hrest⟩ :=
      exists_symbol_of_category? (by decide) hcategory
    rw [transition?_character hc] at htarget
    split_ifs at htarget with hline hescape
    · obtain rfl := Option.some.inj htarget
      obtain ⟨d, rest, target, rfl, hd, htarget, hrest⟩ :=
        exists_symbol_of_category? (by decide) hrest
      rw [transition?_characterEscape hd] at htarget
      split_ifs at htarget with hline
      obtain rfl := Option.some.inj htarget
      rw [category?_characterEnd] at hrest
      exact ⟨['\\', d], .escaped hd (by simpa using hline), by rw [hescape, hrest]; rfl⟩
    · obtain rfl := Option.some.inj htarget
      rw [category?_characterEnd] at hrest
      have hplain : c ∉ ['\'', '\\', '\n', '\r'] := by
        simp only [List.mem_cons, List.not_mem_nil, or_false, not_or] at hline ⊢
        exact ⟨hline.2.2, hescape, hline.1, hline.2.1⟩
      exact ⟨[c], .plain hc hplain, by rw [hrest]; rfl⟩
  · rintro ⟨item, hitem, rfl⟩
    cases hitem with
    | @plain c hsymbol hplain =>
        have hc : pipeline.lexer.machine.transition? 9 c = some 11 := by
          rw [transition?_character hsymbol]
          grind
        rw [List.singleton_append, Machine.category?_cons_of_some hc, category?_characterEnd]
    | @escaped c hsymbol hline =>
        have hbackslash : pipeline.lexer.machine.transition? 9 '\\' = some 10 :=
          (transition?_character (by decide)).trans (by decide)
        have hc : pipeline.lexer.machine.transition? 10 c = some 11 := by
          rw [transition?_characterEscape hsymbol]
          grind
        rw [List.cons_append, Machine.category?_cons_of_some hbackslash, List.singleton_append,
          Machine.category?_cons_of_some hc, category?_characterEnd]

/-- A text that ends with the first mark that ends a comment. -/
def Closes (word : List Char) : Prop :=
  ∃ body, (∀ c ∈ body, c ∈ symbols) ∧ ¬ ['*', '/'] <:+: body ∧ word = body ++ ['*', '/']

theorem not_closes_nil : ¬ Closes [] := by
  rintro ⟨body, -, -, hword⟩
  simp at hword

/-- A character that is no star may stand before. -/
theorem closes_cons_iff {c : Char} (hc : c ≠ '*') :
    Closes (c :: word) ↔ c ∈ symbols ∧ Closes word := by
  have hinside : ∀ body, ['*', '/'] <:+: c :: body ↔ ['*', '/'] <:+: body := by
    intro body
    rw [List.infix_cons_iff, List.cons_prefix_cons]
    simp [hc.symm]
  constructor
  · rintro ⟨body, hsymbols, hopen, hword⟩
    cases body with
    | nil => exact absurd (List.cons.inj hword).1 hc
    | cons d body =>
        obtain ⟨rfl, rfl⟩ := List.cons.inj hword
        obtain ⟨hd, hsymbols⟩ := List.forall_mem_cons.mp hsymbols
        exact ⟨hd, body, hsymbols, fun h => hopen ((hinside body).mpr h), rfl⟩
  · rintro ⟨hsymbol, body, hsymbols, hopen, rfl⟩
    exact ⟨c :: body, List.forall_mem_cons.mpr ⟨hsymbol, hsymbols⟩,
      fun h => hopen ((hinside body).mp h), rfl⟩

/-- A star may stand before anything but a slash. -/
theorem closes_star_iff {c : Char} (hc : c ≠ '/') :
    Closes ('*' :: c :: word) ↔ Closes (c :: word) := by
  constructor
  · rintro ⟨body, hsymbols, hopen, hword⟩
    cases body with
    | nil => exact absurd (List.cons.inj (List.cons.inj hword).2).1 hc
    | cons d body =>
        obtain ⟨-, hword⟩ := List.cons.inj hword
        exact ⟨body, (List.forall_mem_cons.mp hsymbols).2,
          fun h => hopen (List.infix_cons h), hword⟩
  · rintro ⟨body, hsymbols, hopen, hword⟩
    refine ⟨'*' :: body, List.forall_mem_cons.mpr ⟨by decide, hsymbols⟩, ?_, by rw [hword]; rfl⟩
    intro hmark
    rcases List.infix_cons_iff.mp hmark with hbegins | hinside
    · cases body with
      | nil => simp at hbegins
      | cons d body =>
          obtain ⟨-, hbegins⟩ := List.cons_prefix_cons.mp hbegins
          have hslash : '/' = d := (List.cons_prefix_cons.mp hbegins).1
          exact hc ((List.cons.inj hword).1.trans hslash.symm)
    · exact hopen hinside

/-- A star and a slash end a comment. -/
theorem closes_mark_iff : Closes ('*' :: '/' :: word) ↔ word = [] := by
  constructor
  · rintro ⟨body, -, hopen, hword⟩
    cases body with
    | nil => exact (List.cons.inj (List.cons.inj hword).2).2
    | cons d body =>
        obtain ⟨rfl, hrest⟩ := List.cons.inj hword
        cases body with
        | nil => simp at hrest
        | cons e body =>
            obtain ⟨rfl, -⟩ := List.cons.inj hrest
            exact absurd ⟨[], body, rfl⟩ hopen
  · rintro rfl
    exact ⟨[], nofun, by decide, rfl⟩

theorem not_closes_star : ¬ Closes ['*'] := by
  rintro ⟨body, -, -, hword⟩
  have hlength := congrArg List.length hword
  simp at hlength

theorem mem_symbols_of_closes {c : Char} (hcloses : Closes (c :: word)) : c ∈ symbols := by
  by_cases hc : c = '*'
  · rw [hc]
    decide
  · exact ((closes_cons_iff hc).mp hcloses).1

/-- In a block comment a star that was just read counts as the next character. -/
theorem category?_blockComment :
    (pipeline.lexer.machine.category? 16 word = some "Block Comment" ↔ Closes word) ∧
      (pipeline.lexer.machine.category? 17 word = some "Block Comment" ↔ Closes ('*' :: word)) := by
  induction word with
  | nil =>
      rw [Machine.category?_nil, Machine.category?_nil, accepted?_unfinished (by decide),
        accepted?_unfinished (by decide)]
      exact ⟨iff_of_false nofun not_closes_nil, iff_of_false nofun not_closes_star⟩
  | cons c word ih =>
      obtain ⟨hbody, hstar⟩ := ih
      by_cases hc : c ∈ symbols
      · constructor
        · rw [Machine.category?_cons, transition?_block hc, Option.bind_some]
          split_ifs with hcase
          · rw [hstar, hcase]
          · rw [hbody, closes_cons_iff hcase]
            exact (and_iff_right hc).symm
        · rw [Machine.category?_cons, transition?_blockStar hc, Option.bind_some]
          split_ifs with hcase hslash
          · rw [hstar, hcase, closes_star_iff (by decide)]
          · rw [hslash, closes_mark_iff, category?_ended (by decide)]
          · rw [hbody, closes_star_iff hslash, closes_cons_iff hcase]
            exact (and_iff_right hc).symm
      · have hslash : c ≠ '/' := by
          rintro rfl
          exact hc (by decide)
        have hforeign : ¬ Closes (c :: word) := fun hcloses => hc (mem_symbols_of_closes hcloses)
        rw [Machine.category?_cons_of_none (transition?_of_notMem hc 16),
          Machine.category?_cons_of_none (transition?_of_notMem hc 17), closes_star_iff hslash]
        exact ⟨iff_of_false nofun hforeign, iff_of_false nofun hforeign⟩

/-- After a slash a comment goes on with another slash or with a star. -/
theorem category?_afterSlash {category : String}
    (hcomment : category ∉ ["Arithmetic Operator", "Assignment Operator"]) :
    pipeline.lexer.machine.category? 13 word = some category ↔
      (∃ rest, word = '/' :: rest ∧
        pipeline.lexer.machine.category? 14 rest = some category) ∨
      (∃ rest, word = '*' :: rest ∧
        pipeline.lexer.machine.category? 16 rest = some category) := by
  have hslash : pipeline.lexer.machine.transition? 13 '/' = some 14 :=
    (transition?_afterSlash (by decide)).trans (by decide)
  have hstar : pipeline.lexer.machine.transition? 13 '*' = some 16 :=
    (transition?_afterSlash (by decide)).trans (by decide)
  simp only [List.mem_cons, List.not_mem_nil, or_false, not_or] at hcomment
  constructor
  · intro hcategory
    cases word with
    | nil =>
        have haccepted : pipeline.lexer.machine.accepted? 13 = some "Arithmetic Operator" := by
          rw [machine_lexer, accepted?_lexicalMachine]
          decide
        rw [Machine.category?_nil, haccepted, Option.some.injEq] at hcategory
        exact absurd hcategory.symm hcomment.1
    | cons c rest =>
        obtain ⟨target, htarget, hrest⟩ := Machine.category?_cons_eq_some_iff.mp hcategory
        rw [transition?_afterSlash (mem_symbols_of_transition? htarget)] at htarget
        split_ifs at htarget with hline hblock hassign
        · obtain rfl := Option.some.inj htarget
          exact .inl ⟨rest, by rw [hline], hrest⟩
        · obtain rfl := Option.some.inj htarget
          exact .inr ⟨rest, by rw [hblock], hrest⟩
        · obtain rfl := Option.some.inj htarget
          have hprospects : prospects 24 = ["Assignment Operator"] := by decide
          have hprospect := mem_prospects_of_category? (by decide) hrest
          rw [hprospects, List.mem_singleton] at hprospect
          exact absurd hprospect hcomment.2
  · rintro (⟨rest, rfl, hrest⟩ | ⟨rest, rfl, hrest⟩)
    · rwa [Machine.category?_cons_of_some hslash]
    · rwa [Machine.category?_cons_of_some hstar]

end Words

end TableLexer.StandardTables
