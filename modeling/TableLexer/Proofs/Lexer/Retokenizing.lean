import TableLexer.Proofs.Lexer.Categories
/-!
Tokenizing a lexeme alone.  The run over a lexeme reads nothing but the lexeme, so it is the same when the
text ends there and nothing stands before.  Every token of a stream, a bad one or a single character that
begins no token included, is therefore the only token of its own lexeme.
-/

namespace TableLexer.Lexer

variable {l : Lexer}

/-- The one token that stands for the whole of its lexeme. -/
def whole (t : Token) : Located Token :=
  ⟨t, ⟨.start, Position.start.past t.lexeme.toList⟩⟩

/-- A word on which the run does not come home before its end is one lexeme; at the end of a text it may
come home if the entry state accepts. -/
theorem Reading.of_away {place : Position} {word : List Char} {state : Nat}
    (hrun : l.machine.run? l.entry word = some state) (haway : l.machine.Away l.entry word)
    (hne : word ≠ []) (hends : state = l.entry → l.machine.isAccepting l.entry) :
    l.Reading place word (l.emitted state place word) := by
  by_cases hhome : state = l.entry
  · subst hhome
    have hlongest : l.machine.LongestRun l.entry (word ++ []) word l.entry :=
      .of_stuck hrun (by simp)
    rw [List.append_nil] at hlongest
    have hvisit : l.machine.LastVisit l.entry ([] ++ word) [] := .of_away rfl hne haway
    exact .roundTrip rfl hlongest (hends rfl) hvisit
  · have hreading : l.Reading place ([] ++ word ++ []) (l.emitted state place word ++ []) :=
      .of_run rfl hrun hhome haway (by simp) (.nil l _)
    simpa using hreading

/-- What a run leaves in the stream after round trips, it also leaves if its lexeme is the whole text. -/
theorem Reading.whole_of_mem_emitted {start : Position} {text trip lexeme : List Char} {state : Nat}
    {t : Located Token} (hrun : l.machine.LongestRun l.entry text (trip ++ lexeme) state)
    (hvisit : l.machine.LastVisit l.entry (trip ++ lexeme) trip)
    (hends : state = l.entry → l.machine.isAccepting l.entry)
    (hmem : t ∈ l.emitted state start lexeme) :
    l.Reading .start t.value.lexeme.toList [whole t.value] := by
  have hleads : l.machine.run? l.entry lexeme = some state := by
    rw [← Machine.run?_append_of_run? hvisit.returns, hrun.leads]
  have hlexeme : t.value.lexeme.toList = lexeme := by
    rw [(of_mem_emitted hmem).1, String.toList_ofList]
  obtain ⟨token, hverdict, rfl⟩ := Option.map_eq_some_iff.mp (Option.mem_toList.mp hmem)
  have hemitted : l.emitted state .start lexeme = [whole token] := by
    rw [emitted, hverdict, whole, hlexeme]
    rfl
  rw [hlexeme, ← hemitted]
  exact .of_away hleads hvisit.away (hvisit.ne_nil rfl) hends

/-- Every token of a reading is the reading of its lexeme. -/
theorem Reading.whole {place : Position} {text : List Char} {tokens : List (Located Token)}
    (hreading : l.Reading place text tokens) :
    ∀ t ∈ tokens, l.Reading .start t.value.lexeme.toList [Lexer.whole t.value] := by
  induction hreading with
  | @lexeme place text trip lexeme rest state tokens hsplit hrun haway hvisit hrest ih =>
      intro t hmem
      rcases List.mem_append.mp hmem with hmem | hmem
      · exact whole_of_mem_emitted hrun hvisit (fun hhome => absurd hhome haway) hmem
      · exact ih t hmem
  | @unrecognized place text run rest c tokens hsplit hrun hrest ih =>
      intro t hmem
      rcases List.mem_cons.mp hmem with rfl | hmem
      · rw [hsplit] at hrun
        have hlone : l.Reading .start [c]
            [⟨.bad (String.singleton c), ⟨.start, Position.start.advance c⟩⟩] :=
          .of_stuck hrun.stuck (.nil l _)
        simpa [Token.bad, Lexer.whole] using hlone
      · exact ih t hmem
  | @roundTrip place text trip lexeme hsplit hrun haccepts hvisit =>
      intro t hmem
      subst hsplit
      exact whole_of_mem_emitted hrun hvisit (fun _ => haccepts) hmem
  | finished hrun hnone => exact fun t hmem => absurd hmem List.not_mem_nil

/-- A lexeme that is tokenized alone gives its token again: the same lexeme in the same category, or bad
again, from the first to the last character, and nothing else. -/
theorem tokenize_lexeme {text : String} {stream : TokenStream}
    (hok : (l.tokenize text).1.value = .ok stream) :
    ∀ t ∈ stream.toList, (l.tokenize t.value.lexeme).1.value =
      .ok ⟨#[⟨t.value, ⟨.start, Position.start.past t.value.lexeme.toList⟩⟩], 0⟩ := by
  obtain ⟨hreading, hfits, -⟩ := (l.tokenize_eq_ok_iff text stream).mp hok
  intro t hmem
  refine (l.tokenize_eq_ok_iff _ _).mpr ⟨hreading.whole t hmem, ⟨.inl ?_, ?_⟩, rfl⟩
  · exact show 1 < limits.tokens by decide
  · intro u hu hgood
    obtain rfl := List.mem_singleton.mp hu
    exact hfits.short t hmem hgood

/-- A keyword, and a character that is no symbol: both are read alone as they are read together. -/
theorem tokenize_lexemes_conditional :
    (conditional.tokenize "if €").1.value = .ok ⟨#[⟨⟨"if", some "If"⟩, ⟨⟨0, 1, 1⟩, ⟨2, 1, 3⟩⟩⟩,
        ⟨.bad "€", ⟨⟨3, 1, 4⟩, ⟨4, 1, 5⟩⟩⟩], 0⟩ ∧
      (conditional.tokenize "if").1.value =
        .ok ⟨#[⟨⟨"if", some "If"⟩, ⟨⟨0, 1, 1⟩, ⟨2, 1, 3⟩⟩⟩], 0⟩ ∧
      (conditional.tokenize "€").1.value = .ok ⟨#[⟨.bad "€", ⟨⟨0, 1, 1⟩, ⟨1, 1, 2⟩⟩⟩], 0⟩ := by
  have hmachine : conditional.machine = StandardTables.pipeline.lexer.machine := rfl
  have hforeign : conditional.machine.transition? conditional.entry '€' = none := by
    rw [hmachine, StandardTables.machine_lexer, StandardTables.transition?_lexicalMachine]
    decide
  have hblank : conditional.machine.run? conditional.entry ([] ++ [' ']) = some conditional.entry :=
    (Machine.run?_concat_of_run? rfl ' ').trans StandardTables.transition?_blank
  have hkeyword : conditional.emitted 1 .start ['i', 'f'] =
      [⟨⟨"if", some "If"⟩, ⟨⟨0, 1, 1⟩, ⟨2, 1, 3⟩⟩⟩] := by
    have hname : (conditional.keywords.get? "if").getD "Identifier" = "If" := by
      rw [get?_conditional.1, Option.getD_some]
    exact (StandardTables.emitted_letters hmachine rfl .start hname).trans (if_neg (by decide))
  -- The text is read from its end.
  have heuro : conditional.Reading ⟨3, 1, 4⟩ ['€'] [⟨.bad "€", ⟨⟨3, 1, 4⟩, ⟨4, 1, 5⟩⟩⟩] :=
    .of_stuck hforeign (.nil conditional _)
  have hrest : conditional.Reading ⟨2, 1, 3⟩ ([' '] ++ ['€']) _ :=
    .of_home hblank (by simpa using hforeign) nofun heuro
  have hreading : conditional.Reading .start ([] ++ ['i', 'f'] ++ ([' '] ++ ['€'])) _ :=
    StandardTables.reading_letters hmachine rfl (by simp) (by simp) (by decide) (by simp) hrest
  have hok := (conditional.tokenize_eq_ok_iff "if €" ⟨#[_, _], 0⟩).mpr
    ⟨hkeyword ▸ hreading, ⟨.inl (by decide), by decide⟩, rfl⟩
  exact ⟨hok, tokenize_lexeme hok _ (.head _), tokenize_lexeme hok _ (.tail _ (.head _))⟩

end TableLexer.Lexer
