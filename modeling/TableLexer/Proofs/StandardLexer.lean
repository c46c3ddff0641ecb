import TableLexer.Proofs.Lexer.Covering
import TableLexer.Proofs.StandardTables
/-!
What the lexer of the standard tables makes of numbers and of comments that do not end.  A number goes
on with digits, and with a dot, after which only a further digit is accepted.  A line comment goes on
with everything but the line feed, which ends it.
-/

namespace TableLexer.StandardTables

open Lexer

/-- A digit begins a number. -/
theorem transition?_digit : ∀ c ∈ symbols, c.isDigit →
    pipeline.lexer.machine.transition? 0 c = some 2 := by
  intro c hc
  rw [machine_lexer, transition?_lexicalMachine_of_mem hc]
  revert c
  decide

theorem transition?_number : ∀ c ∈ symbols, pipeline.lexer.machine.transition? 2 c =
    if c.isDigit then some 2 else if c = '.' then some 3 else none := by
  intro c hc
  rw [machine_lexer, transition?_lexicalMachine_of_mem hc]
  revert c
  decide

theorem accepted?_number : pipeline.lexer.machine.accepted? 2 = some "Integer Literal" := by
  rw [machine_lexer, accepted?_lexicalMachine]
  decide

theorem accepted?_fraction : pipeline.lexer.machine.accepted? 3 = none := by
  rw [machine_lexer, accepted?_lexicalMachine]
  decide

/-- A letter begins an identifier. -/
theorem transition?_letter : ∀ c ∈ symbols, c.isAlpha →
    pipeline.lexer.machine.transition? 0 c = some 1 := by
  intro c hc
  rw [machine_lexer, transition?_lexicalMachine_of_mem hc]
  revert c
  decide

theorem transition?_identifier : ∀ c ∈ symbols, pipeline.lexer.machine.transition? 1 c =
    if c.isAlphanum ∨ c = '_' then some 1 else none := by
  intro c hc
  rw [machine_lexer, transition?_lexicalMachine_of_mem hc]
  revert c
  decide

theorem accepted?_identifier : pipeline.lexer.machine.accepted? 1 = some "Identifier" := by
  rw [machine_lexer, accepted?_lexicalMachine]
  decide

/-- A blank leads back to where the lexer begins. -/
theorem transition?_blank : pipeline.lexer.machine.transition? 0 ' ' = some 0 := by
  rw [machine_lexer, transition?_lexicalMachine]
  decide

/-- A slash may begin a comment. -/
theorem transition?_slash : pipeline.lexer.machine.transition? 0 '/' = some 13 := by
  rw [machine_lexer, transition?_lexicalMachine]
  decide

theorem transition?_slashes : pipeline.lexer.machine.transition? 13 '/' = some 14 := by
  rw [machine_lexer, transition?_lexicalMachine]
  decide

theorem transition?_comment : ∀ c ∈ symbols, pipeline.lexer.machine.transition? 14 c =
    some (if c = '\n' then 15 else 14) := by
  intro c hc
  rw [machine_lexer, transition?_lexicalMachine_of_mem hc]
  revert c
  decide

theorem accepted?_comment : pipeline.lexer.machine.accepted? 14 = none := by
  rw [machine_lexer, accepted?_lexicalMachine]
  decide

/-- A text of digits is one number. -/
theorem tokenize_number (c : Char) (digits : List Char)
    (hdigits : ∀ d ∈ c :: digits, d ∈ symbols ∧ d.isDigit)
    (hshort : (c :: digits).length ≤ limits.lexemeLength) :
    (pipeline.lexer.tokenize (String.ofList (c :: digits))).1.value =
      .ok ⟨#[⟨⟨String.ofList (c :: digits), some "Integer Literal"⟩,
        ⟨.start, Position.start.past (c :: digits)⟩⟩], 0⟩ := by
  obtain ⟨hc, hdigit⟩ := hdigits c List.mem_cons_self
  have hopens : pipeline.lexer.machine.run? 0 [c] = some 2 := by
    rw [Machine.run?_cons, transition?_digit c hc hdigit, Option.bind_some, Machine.run?_nil]
  have hloop : ∀ d ∈ digits, pipeline.lexer.machine.transition? 2 d = some 2 := by
    intro d hmem
    obtain ⟨hd, hdigit⟩ := hdigits d (List.mem_cons_of_mem c hmem)
    rw [transition?_number d hd, if_pos hdigit]
  have hrun : pipeline.lexer.machine.run? 0 ([c] ++ digits) = some 2 := by
    rw [Machine.run?_append_of_run? hopens, Machine.run?_loop hloop]
  have haway : pipeline.lexer.machine.Away 0 ([c] ++ digits) :=
    (Machine.away_singleton _ 0 c).append_loop hopens (by decide) hloop
  exact Lexer.tokenize_of_run hrun (by decide) haway
    (Lexer.verdict?_of_ne accepted?_number (by decide) (by decide) _) fun _ => hshort

/-- A word of letters leads to the state of the identifiers, and does not come back. -/
theorem run?_letters {word : List Char} (hne : word ≠ [])
    (hword : ∀ d ∈ word, d ∈ symbols ∧ d.isAlpha) :
    pipeline.lexer.machine.run? 0 word = some 1 ∧ pipeline.lexer.machine.Away 0 word := by
  obtain ⟨c, letters, rfl⟩ := List.exists_cons_of_ne_nil hne
  obtain ⟨hc, hletter⟩ := hword c List.mem_cons_self
  have hopens : pipeline.lexer.machine.run? 0 [c] = some 1 := by
    rw [Machine.run?_cons, transition?_letter c hc hletter, Option.bind_some, Machine.run?_nil]
  have hloop : ∀ d ∈ letters, pipeline.lexer.machine.transition? 1 d = some 1 := by
    intro d hmem
    obtain ⟨hd, hletter⟩ := hword d (List.mem_cons_of_mem c hmem)
    rw [transition?_identifier d hd, if_pos (.inl (by simp [Char.isAlphanum, hletter]))]
  constructor
  · rw [← List.singleton_append, Machine.run?_append_of_run? hopens, Machine.run?_loop hloop]
  · exact (Machine.away_singleton _ 0 c).append_loop hopens (by decide) hloop

/-- A word of letters is one lexeme for every lexer of the standard table, blanks before it are passed
over, and it ends where the text does, or before a blank. -/
theorem reading_letters {l : Lexer} (hmachine : l.machine = pipeline.lexer.machine)
    (hentry : l.entry = 0) {place : Position} {blanks word rest : List Char}
    {tokens : List (Located Token)} (hblanks : ∀ d ∈ blanks, d = ' ') (hne : word ≠ [])
    (hword : ∀ d ∈ word, d ∈ symbols ∧ d.isAlpha) (hrest : ∀ d ∈ rest.head?, d = ' ')
    (hreading : l.Reading (place.past (blanks ++ word)) rest tokens) :
    l.Reading place (blanks ++ word ++ rest) (l.emitted 1 (place.past blanks) word ++ tokens) := by
  obtain ⟨hrun, haway⟩ := run?_letters hne hword
  have htrip : l.machine.run? 0 blanks = some 0 := by
    refine Machine.run?_loop fun d hmem => ?_
    rw [hblanks d hmem, hmachine, transition?_blank]
  have hstuck : ∀ d tail, rest = d :: tail → l.machine.transition? 1 d = none := by
    rintro d tail rfl
    rw [hrest d rfl, hmachine, transition?_identifier ' ' (by decide)]
    decide
  rw [← hmachine, ← hentry] at hrun haway
  rw [← hentry] at htrip
  exact .of_run htrip hrun (by rw [hentry]; decide) haway hstuck hreading

/-- A scan of a word of letters finds an identifier. -/
theorem traverse_letters {l : Lexer} (hmachine : l.machine = pipeline.lexer.machine)
    (hentry : l.entry = 0) {word : List Char} (hne : word ≠ [])
    (hword : ∀ d ∈ word, d ∈ symbols ∧ d.isAlpha) :
    (l.traverse (.ofText (String.ofList word))).accepted? l.machine = some "Identifier" ∧
      (l.traverse (.ofText (String.ofList word))).lexemeText = String.ofList word := by
  obtain ⟨hrun, haway⟩ := run?_letters hne hword
  rw [← hmachine, ← hentry] at hrun haway
  have hlongest : l.machine.LongestRun l.entry (State.ofText (String.ofList word)).rest
      ([] ++ word) 1 := by
    have hwhole : l.machine.LongestRun l.entry (word ++ []) word 1 := .of_stuck hrun (by simp)
    simpa [State.ofText] using hwhole
  obtain ⟨hstate, hlexeme⟩ := traverse_of_lastVisit hlongest (.of_away rfl hne haway)
    (by simp [hentry])
  have hfull : (l.traverse (.ofText (String.ofList word))).lexeme ≠ [] := by
    rintro hnil
    simp [hnil, hne.symm] at hlexeme
  constructor
  · rw [Traversal.accepted?_of_lexeme hfull, hstate, hmachine, accepted?_identifier]
  · rw [Traversal.lexemeText, hlexeme]

/-- What a lexer of the standard table makes of a word of letters: an identifier, or what the keyword
table says. -/
theorem emitted_letters {l : Lexer} (hmachine : l.machine = pipeline.lexer.machine)
    (hcategory : l.preferences.identifierCategory = "Identifier") (start : Position)
    {word : List Char} {name : String}
    (hname : (l.keywords.get? (String.ofList word)).getD "Identifier" = name) :
    l.emitted 1 start word =
      if l.preferences.skips "Identifier" || l.preferences.skips name then []
      else [⟨⟨String.ofList word, some name⟩, ⟨start, start.past word⟩⟩] := by
  have haccepted : l.machine.accepted? 1 = some "Identifier" := by
    rw [hmachine, accepted?_identifier]
  have hresolve : l.keywords.resolve "Identifier" (String.ofList word) "Identifier" = name := by
    rw [Keywords.resolve, if_pos rfl, hname]
  rw [Lexer.emitted, Lexer.verdict?, haccepted, hcategory]
  simp only [hresolve]
  split <;> rfl

/-- Two words of letters with a blank between them are two lexemes. -/
theorem tokenize_letters_letters {l : Lexer} (hmachine : l.machine = pipeline.lexer.machine)
    (hentry : l.entry = 0) {first second : List Char} (hne : first ≠ [] ∧ second ≠ [])
    (hletters : ∀ d ∈ first ++ second, d ∈ symbols ∧ d.isAlpha)
    (hshort : (first ++ second).length ≤ limits.lexemeLength) :
    (l.tokenize (String.ofList (first ++ ' ' :: second))).1.value =
      .ok ⟨(l.emitted 1 .start first ++
        l.emitted 1 (Position.start.past (first ++ [' '])) second).toArray, 0⟩ := by
  rw [List.forall_mem_append] at hletters
  rw [List.length_append] at hshort
  have hlast : l.Reading (Position.start.past first) ([' '] ++ second ++ [])
      (l.emitted 1 ((Position.start.past first).past [' ']) second ++ []) :=
    reading_letters hmachine hentry (by simp) hne.2 hletters.2 (by simp) (.nil l _)
  rw [List.append_nil, List.append_nil, ← Position.past_append] at hlast
  have hreading : l.Reading .start ([] ++ first ++ ([' '] ++ second)) _ :=
    reading_letters hmachine hentry (by simp) hne.1 hletters.1 (by simp) hlast
  rw [Lexer.tokenize_eq_ok_iff, String.toList_ofList]
  refine ⟨hreading, ⟨.inl ?_, ?_⟩, rfl⟩
  · have hone : ∀ start word, (l.emitted 1 start word).length ≤ 1 :=
      fun _ _ => Option.length_toList_le
    have hsum := Nat.add_le_add (hone .start first)
      (hone (Position.start.past (first ++ [' '])) second)
    rw [Nat.zero_add, TokenStream.toList, List.length_append]
    exact Nat.lt_of_le_of_lt hsum (by decide)
  · intro t hmem hgood
    rcases List.mem_append.mp hmem with hmem | hmem
    · rw [Token.length, (Lexer.of_mem_emitted hmem).1, String.length_ofList]
      omega
    · rw [Token.length, (Lexer.of_mem_emitted hmem).1, String.length_ofList]
      omega

/-- A comment that goes on to the end of the text is one bad token, however long it is. -/
theorem tokenize_openComment (body : List Char) (hbody : ∀ c ∈ body, c ∈ symbols ∧ c ≠ '\n') :
    (pipeline.lexer.tokenize (String.ofList ('/' :: '/' :: body))).1.value =
      .ok ⟨#[⟨.bad (String.ofList ('/' :: '/' :: body)),
        ⟨.start, Position.start.past ('/' :: '/' :: body)⟩⟩], 0⟩ := by
  have hslash : pipeline.lexer.machine.run? 0 ['/'] = some 13 := by
    rw [Machine.run?_cons, transition?_slash, Option.bind_some, Machine.run?_nil]
  have hslashes : pipeline.lexer.machine.run? 0 ['/', '/'] = some 14 :=
    (Machine.run?_concat_of_run? hslash '/').trans transition?_slashes
  have hloop : ∀ c ∈ body, pipeline.lexer.machine.transition? 14 c = some 14 := by
    intro c hmem
    obtain ⟨hc, hfeed⟩ := hbody c hmem
    rw [transition?_comment c hc, if_neg hfeed]
  have hrun : pipeline.lexer.machine.run? 0 (['/', '/'] ++ body) = some 14 := by
    rw [Machine.run?_append_of_run? hslashes, Machine.run?_loop hloop]
  have haway : pipeline.lexer.machine.Away 0 (['/', '/'] ++ body) :=
    ((Machine.away_singleton _ 0 '/').concat hslash (by decide) '/').append_loop hslashes
      (by decide) hloop
  exact Lexer.tokenize_of_run hrun (by decide) haway
    (Lexer.verdict?_of_not_accepted accepted?_comment _) fun hgood => nomatch hgood

end TableLexer.StandardTables
