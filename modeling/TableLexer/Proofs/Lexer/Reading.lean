import TableLexer.Lexer.Tokenize
import TableLexer.Proofs.Lexer.Traversal
/-!
Readings: what a text consists of for a lexer, said by longest runs alone.  A reading cuts the text
where the longest run from the entry state ends, passes over round trips, and names each lexeme by
the state that the run has reached.  Every text has exactly one reading, and tokenizing gives its
tokens unless a limit is in the way.
-/

namespace TableLexer

namespace Lexer

/-- What a lexeme is when its run ends in `state`: a bad token if the state does not accept, and
otherwise a token whose category went through the keyword table.  Nothing is left of it if one of
the two categories is left out. -/
def verdict? (l : Lexer) (state : Nat) (lexeme : String) : Option Token :=
  match l.machine.accepted? state with
  | none => some (.bad lexeme)
  | some category =>
      let name := l.keywords.resolve category lexeme l.preferences.identifierCategory
      if l.preferences.skips category || l.preferences.skips name then none
      else some ⟨lexeme, some name⟩

/-- The tokens, one or none, that a lexeme leaves in the stream. -/
def emitted (l : Lexer) (state : Nat) (start : Position) (lexeme : List Char) :
    List (Located Token) :=
  ((l.verdict? state (String.ofList lexeme)).map fun token =>
    ⟨token, ⟨start, start.past lexeme⟩⟩).toList

/-- `l.Reading place text tokens`: the text at a place consists of the given tokens.

In a lexeme the longest run ends away from the entry state; the lexeme begins where the run visits
the entry state for the last time.  A longest run that ends in the entry state is passed over, and
then the text ends or its next character is a bad token of its own.  The one exception is a run to
the end of the text when the entry state accepts: its last round trip is a lexeme. -/
inductive Reading (l : Lexer) : Position → List Char → List (Located Token) → Prop
  | lexeme {place : Position} {text trip lexeme rest : List Char} {state : Nat}
      {tokens : List (Located Token)}
      (hsplit : text = trip ++ lexeme ++ rest)
      (hrun : l.machine.LongestRun l.entry text (trip ++ lexeme) state)
      (haway : state ≠ l.entry)
      (hvisit : l.machine.LastVisit l.entry (trip ++ lexeme) trip)
      (hrest : Reading l (place.past (trip ++ lexeme)) rest tokens) :
      Reading l place text (l.emitted state (place.past trip) lexeme ++ tokens)
  | unrecognized {place : Position} {text run rest : List Char} {c : Char}
      {tokens : List (Located Token)}
      (hsplit : text = run ++ c :: rest)
      (hrun : l.machine.LongestRun l.entry text run l.entry)
      (hrest : Reading l ((place.past run).advance c) rest tokens) :
      Reading l place text
        (⟨.bad (String.singleton c), ⟨place.past run, (place.past run).advance c⟩⟩ :: tokens)
  | roundTrip {place : Position} {text trip lexeme : List Char}
      (hsplit : text = trip ++ lexeme)
      (hrun : l.machine.LongestRun l.entry text text l.entry)
      (haccepts : l.machine.isAccepting l.entry)
      (hvisit : l.machine.LastVisit l.entry text trip) :
      Reading l place text (l.emitted l.entry (place.past trip) lexeme)
  | finished {place : Position} {text : List Char}
      (hrun : l.machine.LongestRun l.entry text text l.entry)
      (hnone : text = [] ∨ l.machine.isAccepting l.entry = false) :
      Reading l place text []

/-- A text has at most one reading. -/
theorem Reading.unique {l : Lexer} {place : Position} {text : List Char}
    {first second : List (Located Token)} (hfirst : l.Reading place text first)
    (hsecond : l.Reading place text second) : first = second := by
  induction hfirst generalizing second with
  | @lexeme place text trip lexeme rest state tokens hsplit hrun haway hvisit hrest ih =>
      cases hsecond with
      | @lexeme _ _ trip' lexeme' rest' state' tokens' hsplit' hrun' haway' hvisit' hrest' =>
          obtain ⟨hword, rfl⟩ := hrun.unique hrun'
          rw [← hword] at hvisit'
          obtain rfl := hvisit.unique hvisit'
          obtain rfl := List.append_cancel_left hword
          rw [hsplit] at hsplit'
          obtain rfl := List.append_cancel_left hsplit'
          rw [ih hrest']
      | unrecognized hsplit' hrun' => exact absurd (hrun.unique hrun').2 haway
      | roundTrip hsplit' hrun' => exact absurd (hrun.unique hrun').2 haway
      | finished hrun' => exact absurd (hrun.unique hrun').2 haway
  | @unrecognized place text run rest c tokens hsplit hrun hrest ih =>
      cases hsecond with
      | lexeme hsplit' hrun' haway' => exact absurd (hrun'.unique hrun).2 haway'
      | unrecognized hsplit' hrun' hrest' =>
          obtain ⟨rfl, -⟩ := hrun.unique hrun'
          rw [hsplit] at hsplit'
          obtain ⟨rfl, rfl⟩ := List.cons.inj (List.append_cancel_left hsplit')
          rw [ih hrest']
      | roundTrip hsplit' hrun' =>
          obtain ⟨rfl, -⟩ := hrun.unique hrun'
          simp at hsplit
      | finished hrun' =>
          obtain ⟨rfl, -⟩ := hrun.unique hrun'
          simp at hsplit
  | @roundTrip place text trip lexeme hsplit hrun haccepts hvisit =>
      cases hsecond with
      | lexeme hsplit' hrun' haway' => exact absurd (hrun'.unique hrun).2 haway'
      | unrecognized hsplit' hrun' =>
          obtain ⟨rfl, -⟩ := hrun.unique hrun'
          simp at hsplit'
      | roundTrip hsplit' hrun' haccepts' hvisit' =>
          obtain rfl := hvisit.unique hvisit'
          rw [hsplit] at hsplit'
          rw [List.append_cancel_left hsplit']
      | finished hrun' hnone =>
          rcases hnone with rfl | hnone
          · exact absurd (List.prefix_nil.mp hvisit.begins) hvisit.leaves
          · simp [haccepts] at hnone
  | @finished place text hrun hnone =>
      cases hsecond with
      | lexeme hsplit' hrun' haway' => exact absurd (hrun'.unique hrun).2 haway'
      | unrecognized hsplit' hrun' =>
          obtain ⟨rfl, -⟩ := hrun.unique hrun'
          simp at hsplit'
      | roundTrip hsplit' hrun' haccepts hvisit =>
          rcases hnone with rfl | hnone
          · exact absurd (List.prefix_nil.mp hvisit.begins) hvisit.leaves
          · simp [haccepts] at hnone
      | finished => rfl

/-- There is nothing in a text that has ended. -/
theorem Reading.nil (l : Lexer) (place : Position) : l.Reading place [] [] := by
  have hrun : l.machine.LongestRun l.entry ([] ++ []) [] l.entry :=
    .of_stuck rfl fun c tail h => absurd h (List.cons_ne_nil c tail).symm
  exact .finished hrun (.inl rfl)

/-- A character without a transition from the entry state is a bad token of its own. -/
theorem Reading.of_stuck {l : Lexer} {place : Position} {c : Char} {rest : List Char}
    {tokens : List (Located Token)} (hstuck : l.machine.transition? l.entry c = none)
    (hrest : l.Reading (place.advance c) rest tokens) :
    l.Reading place (c :: rest)
      (⟨.bad (String.singleton c), ⟨place, place.advance c⟩⟩ :: tokens) := by
  have hrun : l.machine.LongestRun l.entry ([] ++ c :: rest) [] l.entry := by
    apply Machine.LongestRun.of_stuck rfl
    intro d tail hsplit
    rw [← (List.cons.inj hsplit).1]
    exact hstuck
  exact .unrecognized (List.nil_append _).symm hrun hrest

/-- A run that comes back to the entry state and is stuck there leaves nothing behind. -/
theorem Reading.of_home {l : Lexer} {place : Position} {run rest : List Char}
    {tokens : List (Located Token)} (hhome : l.machine.run? l.entry run = some l.entry)
    (hstuck : ∀ c tail, rest = c :: tail → l.machine.transition? l.entry c = none)
    (hquiet : rest = [] → run = [] ∨ l.machine.isAccepting l.entry = false)
    (hrest : l.Reading (place.past run) rest tokens) : l.Reading place (run ++ rest) tokens := by
  have hrun := Machine.LongestRun.of_stuck hhome hstuck
  cases rest with
  | nil =>
      rw [hrest.unique (.nil l _)]
      rw [List.append_nil] at hrun ⊢
      exact .finished hrun (hquiet rfl)
  | cons c rest =>
      -- The reading of the rest begins with `c`, whichever round trips came before it.
      have hhalt : l.machine.LongestRun l.entry ([] ++ c :: rest) [] l.entry :=
        .of_stuck rfl hstuck
      cases hrest with
      | lexeme hsplit' hrun' haway => exact absurd (hrun'.unique hhalt).2 haway
      | unrecognized hsplit' hrun' hrest' =>
          obtain ⟨rfl, -⟩ := hrun'.unique hhalt
          obtain ⟨rfl, rfl⟩ := List.cons.inj hsplit'
          exact .unrecognized rfl hrun hrest'
      | roundTrip hsplit' hrun' => exact absurd (hrun'.unique hhalt).1 (List.cons_ne_nil _ _)
      | finished hrun' => exact absurd (hrun'.unique hhalt).1 (List.cons_ne_nil _ _)

/-- A word that leads away from the entry state and is stuck in the end is a lexeme; round trips before
it are passed over. -/
theorem Reading.of_run {l : Lexer} {place : Position} {trip word rest : List Char} {state : Nat}
    {tokens : List (Located Token)} (htrip : l.machine.run? l.entry trip = some l.entry)
    (hrun : l.machine.run? l.entry word = some state) (hstate : state ≠ l.entry)
    (haway : l.machine.Away l.entry word)
    (hstuck : ∀ c tail, rest = c :: tail → l.machine.transition? state c = none)
    (hrest : l.Reading (place.past (trip ++ word)) rest tokens) :
    l.Reading place (trip ++ word ++ rest) (l.emitted state (place.past trip) word ++ tokens) := by
  have hne : word ≠ [] := by
    rintro rfl
    exact hstate (Option.some.inj hrun).symm
  have hboth : l.machine.run? l.entry (trip ++ word) = some state := by
    rw [Machine.run?_append_of_run? htrip, hrun]
  exact .lexeme rfl (.of_stuck hboth hstuck) hstate (.of_away htrip hne haway) hrest

/-- The lexeme of a halted traversal, before a reading of what is still to read. -/
theorem Reading.of_reads {l : Lexer} {place : Position} {text trip : List Char} {t : Traversal}
    {tokens : List (Located Token)} (hreads : t.Reads l.machine l.entry place text trip)
    (hhalted : t.Halted l.machine l.entry) (hlexeme : t.lexeme ≠ [])
    (hends : t.state = l.entry → l.machine.isAccepting l.entry)
    (hrest : l.Reading t.stop t.rest tokens) :
    l.Reading place text (l.emitted t.state t.start t.lexeme.reverse ++ tokens) := by
  have hrun := hreads.longestRun hhalted
  have hvisit := hreads.lastVisit hlexeme
  rw [hreads.start_eq]
  by_cases hhome : t.state = l.entry
  · have hended : t.rest = [] := by
      cases hsplit : t.rest with
      | nil => rfl
      | cons c tail => exact absurd ((hhalted c tail hsplit).2 hhome) hlexeme
    rw [hended] at hrest
    have htext : text = trip ++ t.lexeme.reverse := by
      rw [hreads.splits, hended, List.append_nil]
    rw [hrest.unique (.nil l _), List.append_nil, hhome]
    rw [hhome, ← htext] at hrun
    rw [← htext] at hvisit
    exact .roundTrip htext hrun (hends hhome) hvisit
  · rw [hreads.stop_eq] at hrest
    exact .lexeme hreads.splits hrun hhome hvisit hrest

/-- A halted traversal without an accepted lexeme that has come home has passed over round trips. -/
theorem Reading.of_reads_home {l : Lexer} {place : Position} {text trip : List Char}
    {t : Traversal} {tokens : List (Located Token)}
    (hreads : t.Reads l.machine l.entry place text trip)
    (hhalted : t.Halted l.machine l.entry) (hhome : t.state = l.entry)
    (hnone : t.accepted? l.machine = none) (hempty : t.rest = [] → t.lexeme = [] → text = [])
    (hrest : l.Reading t.stop t.rest tokens) : l.Reading place text tokens := by
  have hrun := (hreads.longestRun hhalted).leads
  rw [hhome] at hrun
  have hstuck : ∀ c tail, t.rest = c :: tail → l.machine.transition? l.entry c = none := by
    intro c tail hsplit
    rw [← hhome]
    exact (hhalted c tail hsplit).1
  have hquiet : t.rest = [] →
      trip ++ t.lexeme.reverse = [] ∨ l.machine.isAccepting l.entry = false := by
    intro hended
    by_cases hlexeme : t.lexeme = []
    · have hsplit := hreads.splits
      rw [hempty hended hlexeme, hended, List.append_nil] at hsplit
      exact .inl hsplit.symm
    · rw [Traversal.accepted?_of_lexeme hlexeme, hhome] at hnone
      exact .inr (by rw [Machine.isAccepting, hnone, Option.isSome_none])
  rw [hreads.stop_eq] at hrest
  rw [hreads.splits]
  exact .of_home hrun hstuck hquiet hrest

/-- The tokens, one or none, that an outcome leaves in the stream. -/
def kept (l : Lexer) (outcome : Outcome) (span : Span) : List (Located Token) :=
  ((outcome.token?.filter fun token => !l.discards token).map fun token => ⟨token, span⟩).toList

theorem kept_of_discards {l : Lexer} {token : Token} (hdiscards : l.discards token) (span : Span) :
    l.kept (.token token) span = [] := by
  simp [kept, Outcome.token?, hdiscards, Option.filter_some]

theorem kept_of_not_discards {l : Lexer} {token : Token} (hkeeps : ¬ l.discards token)
    (span : Span) : l.kept (.token token) span = [⟨token, span⟩] := by
  simp [kept, Outcome.token?, hkeeps, Option.filter_some]

theorem kept_bad (l : Lexer) (lexeme : String) (span : Span) :
    l.kept (.bad lexeme) span = [⟨.bad lexeme, span⟩] := rfl

theorem kept_none (l : Lexer) (span : Span) : l.kept .none span = [] := rfl

theorem discards_some (l : Lexer) (lexeme category : String) :
    l.discards ⟨lexeme, some category⟩ = l.preferences.skips category := rfl

theorem exists_category_accept (l : Lexer) (metrics : Metrics) (lexeme category : String) :
    ∃ name, (l.accept metrics lexeme category).1 = ⟨lexeme, some name⟩ := by
  rw [accept]
  split
  · exact ⟨category, rfl⟩
  · exact ⟨_, rfl⟩

/-- The category that the state accepts and the one after the keyword table are tested at
different times, and together they decide what the verdict decides. -/
theorem verdict?_of_accepted {l : Lexer} {state : Nat} {category : String}
    (haccepted : l.machine.accepted? state = some category) (metrics : Metrics)
    (lexeme : String) :
    l.verdict? state lexeme =
      (some (l.accept metrics lexeme category).1).filter fun token => !l.discards token := by
  simp only [verdict?, haccepted, accept]
  by_cases hskips : l.preferences.skips category
  · simp [hskips, discards_some, Option.filter_some]
  · by_cases hnamed : l.preferences.skips
        (l.keywords.resolve category lexeme l.preferences.identifierCategory)
    · simp [hskips, hnamed, discards_some, Option.filter_some]
    · simp [hskips, hnamed, discards_some, Option.filter_some]

theorem verdict?_of_not_accepted {l : Lexer} {state : Nat}
    (hnone : l.machine.accepted? state = none) (lexeme : String) :
    l.verdict? state lexeme = some (.bad lexeme) := by
  simp [verdict?, hnone]

theorem emitted_of_reads {l : Lexer} {place : Position} {text trip : List Char} {t : Traversal}
    (hreads : t.Reads l.machine l.entry place text trip) :
    l.emitted t.state t.start t.lexeme.reverse =
      ((l.verdict? t.state t.lexemeText).map fun token =>
        ⟨token, ⟨t.start, t.stop⟩⟩).toList := by
  have hstop : t.stop = t.start.past t.lexeme.reverse := by
    rw [hreads.stop_eq, hreads.start_eq, Position.past_append]
  rw [hstop]
  rfl

/-- What a scan can do: it accepts a lexeme, it comes home without one, or it ends away from home
in a state that does not accept. -/
theorem scan_cases (l : Lexer) (s : State) :
    (∃ category, (l.traverse s).accepted? l.machine = some category ∧
      l.scan s = (.token (l.accept s.metrics (l.traverse s).lexemeText category).1,
        { s.after (l.traverse s) with
          metrics := (l.accept s.metrics (l.traverse s).lexemeText category).2 })) ∨
    ((l.traverse s).accepted? l.machine = none ∧ (l.traverse s).state = l.entry ∧
      l.scan s = (.none, s.after (l.traverse s))) ∨
    ((l.traverse s).accepted? l.machine = none ∧ (l.traverse s).state ≠ l.entry ∧
      l.scan s = (.bad (l.traverse s).lexemeText,
        { s.after (l.traverse s) with
          metrics := s.metrics.addBad (l.traverse s).lexeme.length })) := by
  cases haccepted : (l.traverse s).accepted? l.machine with
  | some category => exact .inl ⟨category, rfl, by simp only [scan, haccepted]⟩
  | none =>
      by_cases hhome : (l.traverse s).state = l.entry
      · exact .inr (.inl ⟨rfl, hhome, by simp only [scan, haccepted, if_pos hhome]⟩)
      · exact .inr (.inr ⟨rfl, hhome, by simp only [scan, haccepted, if_neg hhome]⟩)

/-- The traversal of a scan cuts what is still to read into round trips, lexeme and rest. -/
theorem exists_reads_traverse (l : Lexer) (s : State) :
    ∃ trip, (l.traverse s).Reads l.machine l.entry s.position s.rest trip ∧
      (l.traverse s).Halted l.machine l.entry :=
  Traversal.exists_reads_ofText l.machine l.entry s.position s.rest

/-- Where a traversal ends is said by its longest run, and its lexeme by the last visit of this run to the
entry state. -/
theorem traverse_of_lastVisit {l : Lexer} {s : State} {trip lexeme : List Char} {state : Nat}
    (hrun : l.machine.LongestRun l.entry s.rest (trip ++ lexeme) state)
    (hvisit : l.machine.LastVisit l.entry (trip ++ lexeme) trip)
    (hends : state = l.entry → trip ++ lexeme = s.rest) :
    (l.traverse s).state = state ∧ (l.traverse s).lexeme.reverse = lexeme := by
  obtain ⟨trip', hreads, hhalted⟩ := l.exists_reads_traverse s
  obtain ⟨hword, hstate⟩ := (hreads.longestRun hhalted).unique hrun
  have hlexeme : (l.traverse s).lexeme ≠ [] := by
    intro hnil
    by_cases hhome : state = l.entry
    · have hsplit := hreads.splits
      rw [hword, hends hhome, List.self_eq_append_right] at hsplit
      -- The lexeme of a traversal to the end of a text is empty only if the text is.
      have hempty : s.rest = [] :=
        (Traversal.eq_nil_of_lexeme_follow_eq_nil _ _ _ _ _ _ _ hsplit hnil).2
      rw [hends hhome, hempty] at hvisit
      exact hvisit.leaves (List.prefix_nil.mp hvisit.begins)
    · exact hreads.lexeme_ne_nil (hstate ▸ hhome) hnil
  have hlast := hreads.lastVisit hlexeme
  rw [hword] at hlast
  obtain rfl := hlast.unique hvisit
  exact ⟨hstate, List.append_cancel_left hword⟩

/-- One scan: what its outcome leaves in the stream comes before a reading of the rest. -/
theorem reading_of_scan {l : Lexer} {s reached : State} {outcome : Outcome}
    {tokens : List (Located Token)} (hscan : l.scan s = (outcome, reached))
    (hrest : l.Reading reached.position reached.rest tokens) :
    l.Reading s.position s.rest (l.kept outcome reached.tokenSpan ++ tokens) := by
  obtain ⟨trip, hreads, hhalted⟩ := l.exists_reads_traverse s
  rcases l.scan_cases s with ⟨category, haccepted, hcase⟩ | ⟨hnone, hhome, hcase⟩ |
    ⟨hnone, haway, hcase⟩
  · obtain ⟨rfl, rfl⟩ := Prod.mk.inj (hscan.symm.trans hcase)
    have hlexeme := Traversal.lexeme_ne_nil_of_accepted? haccepted
    rw [Traversal.accepted?_of_lexeme hlexeme] at haccepted
    have hends : (l.traverse s).state = l.entry → l.machine.isAccepting l.entry := by
      intro hhome
      rw [← hhome, Machine.isAccepting, haccepted, Option.isSome_some]
    have hreading := Reading.of_reads hreads hhalted hlexeme hends hrest
    rw [emitted_of_reads hreads, verdict?_of_accepted haccepted s.metrics] at hreading
    exact hreading
  · obtain ⟨rfl, rfl⟩ := Prod.mk.inj (hscan.symm.trans hcase)
    refine .of_reads_home hreads hhalted hhome hnone ?_ hrest
    intro hended hlexeme
    exact (Traversal.eq_nil_of_lexeme_follow_eq_nil _ _ _ _ _ _ _ hended hlexeme).2
  · obtain ⟨rfl, rfl⟩ := Prod.mk.inj (hscan.symm.trans hcase)
    have hlexeme := hreads.lexeme_ne_nil haway
    rw [Traversal.accepted?_of_lexeme hlexeme] at hnone
    have hreading := Reading.of_reads hreads hhalted hlexeme (fun hhome => absurd hhome haway) hrest
    rw [emitted_of_reads hreads, verdict?_of_not_accepted hnone] at hreading
    exact hreading

/-- A scan without a token halts where no token begins. -/
theorem stuck_of_scan_eq_none {l : Lexer} {s reached : State} {c : Char} {tail : List Char}
    (hscan : l.scan s = (.none, reached)) (hrest : reached.rest = c :: tail) :
    l.machine.transition? l.entry c = none := by
  obtain ⟨trip, hreads, hhalted⟩ := l.exists_reads_traverse s
  rcases l.scan_cases s with ⟨category, haccepted, hcase⟩ | ⟨_, hhome, hcase⟩ |
    ⟨_, haway, hcase⟩
  · simp [hcase] at hscan
  · obtain ⟨-, rfl⟩ := Prod.mk.inj (hscan.symm.trans hcase)
    rw [← hhome]
    exact (hhalted c tail hrest).1
  · simp [hcase] at hscan

end Lexer

end TableLexer
