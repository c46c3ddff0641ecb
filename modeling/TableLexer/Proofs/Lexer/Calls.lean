import TableLexer.Proofs.Lexer.Covering
/-!
Calls in any order.  A lexer can be given a program, asked for tokens, told to pass over one character,
and told to tokenize a text, which a limit may end halfway.  Whatever was called, its places are places
of the program that it was given last: what it has read is a beginning of the program, the last lexeme
began within it, and a token covers the lexeme that it was made of.
-/

namespace TableLexer

/-- The stretch of a text that a span covers. -/
def Span.cut (span : Span) (text : List Char) : List Char :=
  (text.drop span.start.offset).take span.length

theorem Span.cut_past (before lexeme rest : List Char) :
    Span.cut ⟨.past .start before, .past .start (before ++ lexeme)⟩ (before ++ lexeme ++ rest) =
      lexeme := by
  have hlength : (Position.start.past (before ++ lexeme)).offset -
      (Position.start.past before).offset = lexeme.length := by
    rw [Position.offset_past, Position.offset_past, List.length_append]
    omega
  have hoffset : (Position.start.past before).offset = before.length := by
    rw [Position.past_start_eq]
  rw [Span.cut, Span.length, hlength, hoffset, List.append_assoc, List.drop_left, List.take_left]

namespace Lexer

variable {l : Lexer} {s : State} {program read before : List Char}

/-- A state stands in a program: the characters of `read` are behind it, and the last lexeme began
after those of `before`. -/
structure State.StandsIn (s : State) (program read before : List Char) : Prop where
  splits : program = read ++ s.rest
  position_eq : s.position = .past .start read
  begins : before <+: read
  tokenStart_eq : s.tokenStart = .past .start before

theorem standsIn_ofText (text : String) : (State.ofText text).StandsIn text.toList [] [] :=
  ⟨rfl, rfl, List.prefix_rfl, rfl⟩

/-- What is counted has no part in where a state stands. -/
theorem State.StandsIn.counting (hstands : s.StandsIn program read before) (item : Item) :
    (s.counting item).StandsIn program read before := by
  cases item with
  | token t => exact hstands
  | bad lexeme => exact hstands
  | unrecognized c =>
      exact ⟨hstands.splits, hstands.position_eq, hstands.begins, hstands.tokenStart_eq⟩

/-- A traversal begins where the state stands, and its lexeme begins after the round trips. -/
theorem State.StandsIn.traverse (hstands : s.StandsIn program read before) (l : Lexer) :
    ∃ trip, (s.after (l.traverse s)).StandsIn program
      (read ++ trip ++ (l.traverse s).lexeme.reverse) (read ++ trip) := by
  obtain ⟨trip, hreads, -⟩ := l.exists_reads_traverse s
  refine ⟨trip, ?_, ?_, List.prefix_append _ _, ?_⟩
  · have hsplits := hreads.splits
    simp only [List.append_assoc] at hsplits ⊢
    exact hstands.splits.trans (congrArg (read ++ ·) hsplits)
  · have hstop := hreads.stop_eq
    rw [hstands.position_eq, ← Position.past_append, ← List.append_assoc] at hstop
    exact hstop
  · have hstart := hreads.start_eq
    rw [hstands.position_eq, ← Position.past_append] at hstart
    exact hstart

/-- After a scan the state stands behind the lexeme of its token. -/
theorem State.StandsIn.scan (hstands : s.StandsIn program read before) (l : Lexer) :
    ∃ read' before', (l.scan s).2.StandsIn program read' before' ∧
      ∀ t, (l.scan s).1.token? = some t → read' = before' ++ t.lexeme.toList := by
  obtain ⟨trip, hsplits, hposition, hbegins, htokenStart⟩ := hstands.traverse l
  rcases l.scan_cases s with ⟨category, -, hscan⟩ | ⟨-, -, hscan⟩ | ⟨-, -, hscan⟩
  · refine ⟨_, _, by rw [hscan]; exact ⟨hsplits, hposition, hbegins, htokenStart⟩, ?_⟩
    intro t htoken
    obtain ⟨name, haccept⟩ := l.exists_category_accept s.metrics (l.traverse s).lexemeText category
    rw [hscan, haccept] at htoken
    obtain rfl := Option.some.inj htoken
    rw [Traversal.lexemeText, String.toList_ofList]
  · refine ⟨_, _, by rw [hscan]; exact ⟨hsplits, hposition, hbegins, htokenStart⟩, ?_⟩
    intro t htoken
    rw [hscan] at htoken
    exact absurd htoken (Option.some_ne_none t).symm
  · refine ⟨_, _, by rw [hscan]; exact ⟨hsplits, hposition, hbegins, htokenStart⟩, ?_⟩
    intro t htoken
    rw [hscan] at htoken
    obtain rfl := Option.some.inj htoken
    rw [Token.bad, Traversal.lexemeText, String.toList_ofList]

/-- After a step the state stands behind the lexeme of its token, whatever was left out before it. -/
theorem State.StandsIn.next (hstands : s.StandsIn program read before) (l : Lexer) :
    ∃ read' before', (l.next s).2.StandsIn program read' before' ∧
      ∀ t, (l.next s).1.token? = some t → read' = before' ++ t.lexeme.toList := by
  fun_induction Lexer.next l s generalizing read before with
  | case1 s token reached hscan hdiscards ih =>
      obtain ⟨read', before', hreached, -⟩ := hstands.scan l
      rw [hscan] at hreached
      exact ih ⟨hreached.splits, hreached.position_eq, hreached.begins, hreached.tokenStart_eq⟩
  | case2 s token reached hscan | case3 s lexeme reached hscan | case4 s reached hscan =>
      have hreached := hstands.scan l
      rwa [hscan] at hreached

theorem State.StandsIn.skip (hstands : s.StandsIn program read before) :
    ∃ read' before', s.skip.2.StandsIn program read' before' ∧
      ∀ c, s.skip.1 = some c → read' = before' ++ [c] := by
  cases hrest : s.rest with
  | nil =>
      simp only [State.skip, hrest]
      exact ⟨read, before, hstands, fun c hnone => absurd hnone (Option.some_ne_none c).symm⟩
  | cons c rest =>
      simp only [State.skip, hrest]
      refine ⟨read ++ [c], read, ⟨?_, ?_, List.prefix_append _ _, hstands.position_eq⟩, ?_⟩
      · rw [hstands.splits, hrest, List.append_assoc, List.singleton_append]
      · rw [Position.past_concat, hstands.position_eq]
      · intro d hd
        rw [Option.some.inj hd]

theorem State.StandsIn.item (hstands : s.StandsIn program read before) (l : Lexer) :
    ∃ read' before', (l.item s).2.StandsIn program read' before' := by
  obtain ⟨read', before', hreached, -⟩ := hstands.next l
  unfold Lexer.item
  split
  next token reached hnext => exact ⟨read', before', by rwa [hnext] at hreached⟩
  next lexeme reached hnext => exact ⟨read', before', by rwa [hnext] at hreached⟩
  next reached hnext =>
    rw [hnext] at hreached
    obtain ⟨read'', before'', hskipped, -⟩ := hreached.skip
    split
    next c after hskip => exact ⟨read'', before'', by rwa [hskip] at hskipped⟩
    next after hskip => exact ⟨read'', before'', by rwa [hskip] at hskipped⟩

/-- Wherever the loop over items ends, also at a limit, the state stands in the program. -/
theorem State.StandsIn.tokenizeFrom (hstands : s.StandsIn program read before) (l : Lexer)
    (stream : TokenStream) (said : List Notice) :
    ∃ read' before', (l.tokenizeFrom s stream said).2.StandsIn program read' before' := by
  fun_induction Lexer.tokenizeFrom l s stream said generalizing read before with
  | case1 s stream said hended => exact ⟨read, before, hstands⟩
  | case2 s stream said hmore hfull => exact ⟨read, before, hstands⟩
  | case3 s stream said hmore hroom reached hitem =>
      have hreached := hstands.item l
      rwa [hitem] at hreached
  | case4 s stream said hmore hroom found reached hitem e herror =>
      have hreached := hstands.item l
      rwa [hitem] at hreached
  | case5 s stream said hmore hroom found reached hitem hfits ih =>
      obtain ⟨read', before', hreached⟩ := hstands.item l
      rw [hitem] at hreached
      exact ih (hreached.counting found)

/-- What can be asked of a lexer. -/
inductive Call where
  | load (text : String)
  | next
  | skip
  | tokenize (text : String)

/-- A lexer in use: the program that it was given last, and how far it has come with it. -/
structure Use where
  program : String
  state : State

def Use.after (l : Lexer) (u : Use) : Call → Use
  | .load text => ⟨text, .ofText text⟩
  | .next => ⟨u.program, (l.next u.state).2⟩
  | .skip => ⟨u.program, u.state.skip.2⟩
  | .tokenize text => ⟨text, (l.tokenize text).2⟩

def useAfter (l : Lexer) (calls : List Call) : Use := calls.foldl (Use.after l) ⟨"", .empty⟩

/-- No call leads out of the program. -/
theorem Use.standsIn_after (l : Lexer) {u : Use}
    (hstands : u.state.StandsIn u.program.toList read before) (call : Call) :
    ∃ read' before', (u.after l call).state.StandsIn (u.after l call).program.toList read' before' := by
  cases call with
  | load text => exact ⟨[], [], standsIn_ofText text⟩
  | next =>
      obtain ⟨read', before', hnext, -⟩ := hstands.next l
      exact ⟨read', before', hnext⟩
  | skip =>
      obtain ⟨read', before', hskip, -⟩ := hstands.skip
      exact ⟨read', before', hskip⟩
  | tokenize text => exact (standsIn_ofText text).tokenizeFrom l .empty [l.startNotice text]

theorem exists_standsIn_useAfter (l : Lexer) (calls : List Call) :
    ∃ read before,
      (l.useAfter calls).state.StandsIn (l.useAfter calls).program.toList read before := by
  induction calls using List.reverseRecOn with
  | nil => exact ⟨[], [], standsIn_ofText ""⟩
  | append_singleton calls call ih =>
      obtain ⟨read, before, hstands⟩ := ih
      rw [useAfter, List.foldl_append]
      exact Use.standsIn_after l hstands call

/-- The span of the last lexeme covers what stands between the two places. -/
theorem State.StandsIn.cut_tokenSpan {lexeme : List Char}
    (hstands : s.StandsIn program (before ++ lexeme) before) :
    s.tokenSpan.cut program = lexeme := by
  rw [State.tokenSpan, hstands.position_eq, hstands.tokenStart_eq, hstands.splits]
  exact Span.cut_past before lexeme s.rest

/-- Spans that follow each other in a text, none of them empty. -/
def Ordered (tokens : List (Located Token)) : Prop :=
  (∀ t ∈ tokens, t.span.start.offset < t.span.stop.offset) ∧
    tokens.Pairwise fun t u => t.span.stop.offset ≤ u.span.start.offset

theorem ordered_append {first second : List (Located Token)} {place : Nat}
    (hfirst : Ordered first) (hsecond : Ordered second)
    (hbefore : ∀ t ∈ first, t.span.stop.offset ≤ place)
    (hafter : ∀ t ∈ second, place ≤ t.span.start.offset) : Ordered (first ++ second) := by
  refine ⟨List.forall_mem_append.mpr ⟨hfirst.1, hsecond.1⟩, ?_⟩
  apply List.pairwise_append.mpr
  refine ⟨hfirst.2, hsecond.2, ?_⟩
  intro t ht u hu
  exact Nat.le_trans (hbefore t ht) (hafter u hu)

theorem ordered_singleton {t : Located Token} (hne : t.span.start.offset < t.span.stop.offset) :
    Ordered [t] :=
  ⟨List.forall_mem_singleton.mpr hne, List.pairwise_singleton _ t⟩

/-- A lexeme leaves at most one token, which covers it. -/
theorem ordered_emitted (l : Lexer) (state : Nat) (start : Position) {lexeme : List Char}
    (hne : lexeme ≠ []) : Ordered (l.emitted state start lexeme) ∧
      ∀ t ∈ l.emitted state start lexeme, t.span.start.offset = start.offset ∧
        t.span.stop.offset = start.offset + lexeme.length := by
  have hpos : 0 < lexeme.length := List.length_pos_iff.mpr hne
  rw [emitted]
  cases l.verdict? state (String.ofList lexeme) with
  | none => exact ⟨⟨List.forall_mem_nil _, .nil⟩, List.forall_mem_nil _⟩
  | some token =>
      have hstop := start.offset_past lexeme
      refine ⟨ordered_singleton ?_, List.forall_mem_singleton.mpr ⟨rfl, hstop⟩⟩
      exact hstop ▸ Nat.lt_add_of_pos_right hpos

/-- The tokens of a reading are ordered, and none begins before the place of the text. -/
theorem Reading.ordered {place : Position} {text : List Char} {tokens : List (Located Token)}
    (hreading : l.Reading place text tokens) :
    Ordered tokens ∧ ∀ t ∈ tokens, place.offset ≤ t.span.start.offset := by
  induction hreading with
  | @lexeme place text trip lexeme rest state tokens hsplit hrun haway hvisit hrest ih =>
      obtain ⟨hemitted, hspan⟩ := l.ordered_emitted state (place.past trip) (hvisit.ne_nil rfl)
      obtain ⟨hordered, hlater⟩ := ih
      rw [Position.past_append, Position.offset_past] at hlater
      have hplace := place.offset_past trip
      refine ⟨ordered_append hemitted hordered (fun t hmem => Nat.le_of_eq (hspan t hmem).2)
        hlater, ?_⟩
      intro t hmem
      rcases List.mem_append.mp hmem with hmem | hmem
      · have hstart := (hspan t hmem).1
        omega
      · have hstart := hlater t hmem
        omega
  | @unrecognized place text run rest c tokens hsplit hrun hrest ih =>
      obtain ⟨hordered, hlater⟩ := ih
      have hstop := (place.past run).offset_advance c
      have hplace := place.offset_past run
      refine ⟨ordered_append (ordered_singleton ?_) hordered ?_ hlater, ?_⟩
      · exact hstop ▸ Nat.lt_succ_self _
      · exact List.forall_mem_singleton.mpr (Nat.le_refl _)
      · intro t hmem
        rcases List.mem_cons.mp hmem with rfl | hmem
        · exact hplace ▸ Nat.le_add_right _ _
        · have hstart := hlater t hmem
          omega
  | @roundTrip place text trip lexeme hsplit hrun haccepts hvisit =>
      obtain ⟨hemitted, hspan⟩ :=
        l.ordered_emitted l.entry (place.past trip) (hvisit.ne_nil hsplit)
      refine ⟨hemitted, fun t hmem => ?_⟩
      rw [(hspan t hmem).1, Position.offset_past]
      exact Nat.le_add_right _ _
  | finished hrun hnone => exact ⟨⟨List.forall_mem_nil _, .nil⟩, List.forall_mem_nil _⟩

/-- Whatever was called, a lexer stands in its program.  Its place is the one that the characters behind
it lead to: it counts them, the line feeds among them and those after the last line feed, in 32 bits
each of the latter, which is exact as long as 32 bits are enough.  The last lexeme began at one of these
places, a token and a character that is passed over are covered by the span that is left, and the tokens
of a stream follow each other. -/
theorem places_useAfter (l : Lexer) (calls : List Call) :
    let u := l.useAfter calls
    (∃ read before, u.program.toList = read ++ u.state.rest ∧
      u.state.position = .past .start read ∧
      u.state.position = ⟨read.length, (1 + read.count '\n' : Nat),
        (1 + (read.reverse.takeWhile (· ≠ '\n')).length : Nat)⟩ ∧
      (u.state.position.line.toNat = 1 + read.count '\n' ↔ 1 + read.count '\n' < UInt32.size) ∧
      (u.state.position.column.toNat = 1 + (read.reverse.takeWhile (· ≠ '\n')).length ↔
        1 + (read.reverse.takeWhile (· ≠ '\n')).length < UInt32.size) ∧
      before <+: read ∧ u.state.tokenStart = .past .start before ∧
      u.state.tokenSpan.start.offset ≤ u.state.tokenSpan.stop.offset) ∧
    (∀ t, (l.next u.state).1.token? = some t →
      (l.next u.state).2.tokenSpan.cut u.program.toList = t.lexeme.toList) ∧
    (∀ c, u.state.skip.1 = some c → u.state.skip.2.tokenSpan.cut u.program.toList = [c]) ∧
    (∀ text stream, (l.tokenize text).1.value = .ok stream → Ordered stream.toList) := by
  intro u
  obtain ⟨read, before, hstands⟩ := l.exists_standsIn_useAfter calls
  refine ⟨⟨read, before, hstands.splits, hstands.position_eq, ?_, ?_, ?_, hstands.begins,
    hstands.tokenStart_eq, ?_⟩, ?_, ?_, ?_⟩
  · rw [hstands.position_eq, Position.past_start_eq]
  · rw [hstands.position_eq]
    exact Position.line_past_start_eq_iff read
  · rw [hstands.position_eq]
    exact Position.column_past_start_eq_iff read
  · change u.state.tokenStart.offset ≤ u.state.position.offset
    rw [hstands.tokenStart_eq, hstands.position_eq, Position.past_start_eq, Position.past_start_eq]
    exact hstands.begins.length_le
  · intro t htoken
    obtain ⟨read', before', hnext, hlexeme⟩ := hstands.next l
    rw [hlexeme t htoken] at hnext
    exact hnext.cut_tokenSpan
  · intro c hc
    obtain ⟨read', before', hskip, hchar⟩ := hstands.skip
    rw [hchar c hc] at hskip
    exact hskip.cut_tokenSpan
  · intro text stream hok
    exact (reading_of_tokenize hok).ordered.1

end Lexer

end TableLexer
