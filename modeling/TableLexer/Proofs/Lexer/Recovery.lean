import TableLexer.Proofs.Automaton.Soundness
import TableLexer.Proofs.Lexer.Limits
import TableLexer.Proofs.StandardLexer
/-!
How far a character that belongs to no lexeme reaches.  A run ends before a character without
transitions as it ends before the end of the text, so what stands before the character is read as if
the text ended there, and what comes after it as if the text began there, only at another place.
-/

namespace TableLexer

/-- A value of a text that begins at `base` and not at the start. -/
def Located.rebase {α : Type} (base : Position) (text : List Char) (x : Located α) : Located α :=
  ⟨x.value, ⟨base.rebase text x.span.start, base.rebase text x.span.stop⟩⟩

theorem Located.rebase_past_start {α : Type} (base : Position) (value : α)
    {text before word : List Char} (hbegins : before ++ word <+: text) :
    Located.rebase base text ⟨value, ⟨.past .start before, .past .start (before ++ word)⟩⟩ =
      ⟨value, ⟨base.past before, base.past (before ++ word)⟩⟩ := by
  rw [Located.rebase, base.rebase_past_start ((List.prefix_append _ _).trans hbegins),
    base.rebase_past_start hbegins]

namespace Lexer

variable {l : Lexer}

theorem emitted_past_start (l : Lexer) (base : Position) (state : Nat)
    {text before lexeme : List Char} (hbegins : before ++ lexeme <+: text) :
    l.emitted state (base.past before) lexeme =
      (l.emitted state (Position.start.past before) lexeme).map (Located.rebase base text) := by
  rw [emitted, emitted, ← Position.past_append, ← Position.past_append]
  cases l.verdict? state (String.ofList lexeme) with
  | none => rfl
  | some token => simp [Located.rebase_past_start _ _ hbegins]

/-- The lexemes of a text do not depend on the place where it begins. -/
theorem Reading.rebase (base : Position) (before : List Char) {text rest : List Char}
    (htext : text = before ++ rest) {tokens : List (Located Token)}
    (hreading : l.Reading (Position.start.past before) rest tokens) :
    l.Reading (base.past before) rest (tokens.map (Located.rebase base text)) := by
  -- A reading of the rest begins further on, so what was read joins what stands before it.
  generalize hplace : Position.start.past before = place at hreading
  induction hreading generalizing before with
  | @lexeme place rest trip lexeme tail state tokens hsplit hrun haway hvisit hrest ih =>
      subst hplace hsplit
      rw [← List.append_assoc] at htext
      have hbegins : before ++ trip ++ lexeme <+: text := ⟨tail, by simp [htext]⟩
      have hmoved := ih _ htext (Position.past_append ..)
      rw [Position.past_append] at hmoved
      rw [List.map_append, ← Position.past_append, ← emitted_past_start _ _ _ hbegins,
        Position.past_append]
      exact .lexeme rfl hrun haway hvisit hmoved
  | @unrecognized place rest run tail c tokens hsplit hrun hrest ih =>
      subst hplace hsplit
      have hplace : ∀ base : Position,
          ((base.past before).past run).advance c = base.past (before ++ run ++ [c]) := by
        intro base
        rw [Position.past_concat, Position.past_append]
      have hbegins : before ++ run ++ [c] <+: text := ⟨tail, by simp [htext]⟩
      have hmoved := ih _ (by simp [htext]) (hplace .start).symm
      rw [← hplace] at hmoved
      rw [List.map_cons, hplace, ← Position.past_append, Located.rebase_past_start _ _ hbegins,
        ← hplace, Position.past_append]
      exact .unrecognized rfl hrun hmoved
  | @roundTrip place rest trip lexeme hsplit hrun haccepts hvisit =>
      subst hplace
      have hbegins : before ++ trip ++ lexeme <+: text := ⟨[], by simp [htext, hsplit]⟩
      rw [← Position.past_append, ← emitted_past_start _ _ _ hbegins, Position.past_append]
      exact .roundTrip hsplit hrun haccepts hvisit
  | finished hrun hnone => exact .finished hrun hnone

/-- Two readings make one with a character without transitions between them, if the entry state does
not accept. -/
theorem Reading.append_foreign {place : Position} {text rest : List Char} {c : Char}
    {before after : List (Located Token)} (hbefore : l.Reading place text before)
    (hforeign : ∀ i, l.machine.transition? i c = none)
    (hquiet : l.machine.isAccepting l.entry = false)
    (hafter : l.Reading (place.past (text ++ [c])) rest after) :
    l.Reading place (text ++ c :: rest)
      (before ++ ⟨.bad (String.singleton c), ⟨place.past text, place.past (text ++ [c])⟩⟩ ::
        after) := by
  induction hbefore with
  | @lexeme place text trip lexeme inner state tokens hsplit hrun haway hvisit hrest ih =>
      subst hsplit
      have hplace : ∀ more, (place.past (trip ++ lexeme)).past more =
          place.past (trip ++ lexeme ++ more) := fun more => (place.past_append _ more).symm
      rw [hplace, hplace, ← List.append_assoc] at ih
      rw [List.append_assoc (l.emitted state (place.past trip) lexeme)]
      exact .lexeme (List.append_assoc ..) (hrun.append_foreign hforeign rest) haway hvisit
        (ih hafter)
  | @unrecognized place text run inner d tokens hsplit hrun hrest ih =>
      subst hsplit
      have hplace : ∀ more, ((place.past run).advance d).past more =
          place.past (run ++ d :: more) := by
        intro more
        rw [Position.past_append, Position.past_cons]
      rw [hplace, hplace, ← List.cons_append, ← List.append_assoc] at ih
      exact .unrecognized (List.append_assoc ..) (hrun.append_foreign hforeign rest) (ih hafter)
  | roundTrip hsplit hrun haccepts =>
      rw [hquiet] at haccepts
      exact absurd haccepts Bool.false_ne_true
  | finished hrun =>
      -- Where the text ended, its last run now ends at the character, which begins no lexeme.
      rw [Position.past_concat] at hafter ⊢
      exact .unrecognized rfl (hrun.append_foreign hforeign rest) hafter

/-- Of tokens that the limits let through, fewer are let through, wherever they stand. -/
theorem FitsLimits.of_part {place finish place' finish' : Position}
    {tokens part : List (Located Token)} (hfits : FitsLimits 0 place finish tokens)
    (hfewer : part.length < tokens.length)
    (hpart : ∀ t ∈ part, ∃ u ∈ tokens, u.value = t.value) : FitsLimits 0 place' finish' part := by
  constructor
  · left
    rcases hfits.few with hfew | ⟨hfew, -⟩ <;> omega
  · intro t hmem hgood
    obtain ⟨u, hu, hvalue⟩ := hpart t hmem
    rw [← hvalue] at hgood ⊢
    exact hfits.short u hu hgood

theorem machine_of_ofTables {machine : Machine} {keywords : Keywords}
    {preferences : Preferences.Lexical} (hl : Lexer.ofTables machine keywords preferences = .ok l) :
    l.machine = machine := by
  unfold ofTables at hl
  split at hl
  next entry hentry => rw [← Except.ok.inj hl]
  next => exact absurd hl nofun

/-- A character outside the alphabet of a table does not reach far: it is a bad token, the text before it
is tokenized as if nothing followed, and the text after it as if nothing preceded. -/
theorem tokenize_around_foreign {table : String} {names : List String} {keywords : Keywords}
    {preferences : Preferences.Lexical} {l : Lexer} {u v : String} {c : Char} {stream : TokenStream}
    (htables : Lexer.ofTables ((Table.parse table).value.machine.setEntries names) keywords
      preferences = .ok l)
    (hquiet : l.machine.isAccepting l.entry = false) (hforeign : c ∉ l.machine.alphabet)
    (hok : (l.tokenize (u ++ String.singleton c ++ v)).1.value = .ok stream) :
    ∃ before after,
      (l.tokenize u).1.value = .ok before ∧ (l.tokenize v).1.value = .ok after ∧
      stream.toList = before.toList ++
        ⟨.bad (String.singleton c), ⟨.past .start u.toList, .past .start (u.toList ++ [c])⟩⟩ ::
          after.toList.map (Located.rebase (.past .start (u.toList ++ [c])) v.toList) := by
  have hsound : l.machine.Sound := by
    rw [machine_of_ofTables htables]
    exact (Table.sound_parse table).setEntries names
  obtain ⟨before, hbefore⟩ : ∃ before, l.Reading .start u.toList before :=
    l.exists_reading (.ofText u)
  obtain ⟨after, hafter⟩ : ∃ after, l.Reading .start v.toList after :=
    l.exists_reading (.ofText v)
  have hboth := hbefore.append_foreign (hsound.transition?_of_notMem hforeign) hquiet
    (hafter.rebase (.past .start (u.toList ++ [c])) [] rfl)
  obtain ⟨hreading, hfits, -⟩ := (l.tokenize_eq_ok_iff _ stream).mp hok
  have htext : (u ++ String.singleton c ++ v).toList = u.toList ++ c :: v.toList := by simp
  rw [htext] at hreading
  have htokens := hreading.unique hboth
  rw [htokens] at hfits
  refine ⟨⟨before.toArray, 0⟩, ⟨after.toArray, 0⟩, ?_, ?_, htokens⟩
  · refine (l.tokenize_eq_ok_iff u _).mpr ⟨hbefore, hfits.of_part ?_ ?_, rfl⟩
    · change before.length < _
      rw [List.length_append, List.length_cons]
      omega
    · exact fun t hmem => ⟨t, List.mem_append_left _ hmem, rfl⟩
  · refine (l.tokenize_eq_ok_iff v _).mpr ⟨hafter, hfits.of_part ?_ ?_, rfl⟩
    · change after.length < _
      rw [List.length_append, List.length_cons, List.length_map]
      omega
    · intro t hmem
      have hmoved := List.mem_map_of_mem
        (f := Located.rebase (.past .start (u.toList ++ [c])) v.toList) hmem
      exact ⟨_, List.mem_append_right _ (List.mem_cons_of_mem _ hmoved), rfl⟩

/-- The euro sign is no symbol of the standard table. -/
theorem tokenize_around_euro :
    (StandardTables.pipeline.lexer.tokenize "1€2").1.value =
        .ok ⟨#[⟨⟨"1", some "Integer Literal"⟩, ⟨⟨0, 1, 1⟩, ⟨1, 1, 2⟩⟩⟩,
          ⟨.bad "€", ⟨⟨1, 1, 2⟩, ⟨2, 1, 3⟩⟩⟩,
          ⟨⟨"2", some "Integer Literal"⟩, ⟨⟨2, 1, 3⟩, ⟨3, 1, 4⟩⟩⟩], 0⟩ ∧
      ∃ before after,
        (StandardTables.pipeline.lexer.tokenize "1").1.value = .ok before ∧
        (StandardTables.pipeline.lexer.tokenize "2").1.value = .ok after ∧
        ([⟨⟨"1", some "Integer Literal"⟩, ⟨⟨0, 1, 1⟩, ⟨1, 1, 2⟩⟩⟩,
          ⟨.bad "€", ⟨⟨1, 1, 2⟩, ⟨2, 1, 3⟩⟩⟩,
          ⟨⟨"2", some "Integer Literal"⟩, ⟨⟨2, 1, 3⟩, ⟨3, 1, 4⟩⟩⟩] : List (Located Token)) =
          before.toList ++
            ⟨.bad "€", ⟨⟨1, 1, 2⟩, ⟨2, 1, 3⟩⟩⟩ ::
              after.toList.map (Located.rebase ⟨2, 1, 3⟩ ['2']) := by
  have htables : Lexer.ofTables ((Table.parse StandardTables.lexical).value.machine.setEntries [])
      (Keywords.parse StandardTables.keywords).value (.ofEnvironment ⟨[]⟩) =
      .ok StandardTables.pipeline.lexer := by
    rw [← StandardTables.ofTables_lexicalMachine, StandardTables.lexicalMachine]
    rfl
  have hsound : StandardTables.pipeline.lexer.machine.Sound := by
    rw [StandardTables.machine_lexer, StandardTables.lexicalMachine]
    exact Table.sound_parse StandardTables.lexical
  have hforeign : '€' ∉ StandardTables.pipeline.lexer.machine.alphabet :=
    fun hmem => absurd (hsound.alphabet_single '€' hmem) (by decide)
  have hquiet : StandardTables.pipeline.lexer.machine.isAccepting
      StandardTables.pipeline.lexer.entry = false := by
    rw [StandardTables.machine_lexer, StandardTables.entry_lexer, Machine.isAccepting,
      StandardTables.accepted?_lexicalMachine]
    decide
  have hone := reading_of_tokenize (StandardTables.tokenize_number '1' [] (by decide) (by decide))
  have htwo := reading_of_tokenize (StandardTables.tokenize_number '2' [] (by decide) (by decide))
  have hreading := hone.append_foreign (hsound.transition?_of_notMem hforeign) hquiet
    (htwo.rebase (.past .start ['1', '€']) [] rfl)
  have hok := (StandardTables.pipeline.lexer.tokenize_eq_ok_iff
    ("1" ++ String.singleton '€' ++ "2") ⟨#[_, _, _], 0⟩).mpr
      ⟨hreading, ⟨.inl (by decide), by decide⟩, rfl⟩
  exact ⟨hok, tokenize_around_foreign htables hquiet hforeign hok⟩

end Lexer

end TableLexer
