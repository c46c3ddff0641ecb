import TableLexer.Proofs.Lexer.Discarding
import TableLexer.Proofs.Lexer.Moving
/-!
Round trips.  A walk that comes back to the entry state starts its lexeme anew when it looks at the next
character.  At the end of a program there is none, so the last round trip still is a lexeme there; if the
entry state accepts, it becomes a token.
-/

namespace TableLexer

namespace Machine

/-- A word has a run, and the run is in `home` only before the first character. -/
structure StaysAway (m : Machine) (home : Nat) (word : List Char) : Prop where
  runs : (m.run? home word).isSome
  away : ∀ first, first <+: word → first ≠ [] → m.run? home first ≠ some home

theorem Away.staysAway {m : Machine} {home state : Nat} {word : List Char}
    (haway : m.Away home word) (hleads : m.run? home word = some state) (hstate : state ≠ home) :
    m.StaysAway home word := by
  constructor
  · rw [hleads, Option.isSome_some]
  · intro first hfirst hne
    by_cases hwhole : first = word
    · rw [hwhole, hleads]
      exact fun hhome => hstate (Option.some.inj hhome)
    · exact haway first hfirst hne hwhole

/-- Where a machine begins does not change where its states lead. -/
theorem transition?_begun (m : Machine) (entry : Option Nat) (state : Nat) (c : Char) :
    { m with entry := entry : Machine }.transition? state c = m.transition? state c := rfl

theorem accepted?_begun (m : Machine) (entry : Option Nat) (state : Nat) :
    { m with entry := entry : Machine }.accepted? state = m.accepted? state := rfl

end Machine

namespace Lexer

variable {l : Lexer} {s last : State} {t : Token} {passed : List Token} {trip lexeme : List Char}

/-- No character of a round trip gets into the lexeme of a step. -/
def KeepsTripsOut (l : Lexer) (s : State) : Prop :=
  ∀ t, (l.next s).1.token? = some t → l.machine.StaysAway l.entry t.lexeme.toList

/-- After some rounds nothing but round trips is left of the program, and the entry state accepts the last
one, `lexeme`, as a token that stays. -/
structure EndsInTrip (l : Lexer) (s : State) (passed : List Token) (last : State)
    (trip lexeme : List Char) : Prop where
  passes : l.PassesOver s passed last
  splits : last.rest = trip ++ lexeme
  returns : l.machine.run? l.entry last.rest = some l.entry
  visit : l.machine.LastVisit l.entry last.rest trip
  accepts : l.machine.isAccepting l.entry
  stays : (l.verdict? l.entry (String.ofList lexeme)).isSome

/-- A step goes on from where its rounds lead. -/
theorem PassesOver.next_eq (hpasses : l.PassesOver s passed last) : l.next s = l.next last := by
  induction hpasses with
  | refl s => rfl
  | round hscan hdiscards hrest ih =>
      rw [next_of_discards (by rw [hscan]) hdiscards, hscan]
      exact ih

/-- The token of a scan holds the lexeme of its traversal, which ends in the entry state only at the end
of the program, and if this state accepts. -/
theorem lexeme_of_scan (htoken : (l.scan s).1.token? = some t) :
    t.lexeme = (l.traverse s).lexemeText ∧
      ((l.traverse s).state = l.entry →
        (l.traverse s).rest = [] ∧ l.machine.isAccepting l.entry ∧ (l.traverse s).lexeme ≠ []) := by
  obtain ⟨trip, hreads, hhalted⟩ := l.exists_reads_traverse s
  rcases l.scan_cases s with ⟨category, haccepted, hscan⟩ | ⟨-, -, hscan⟩ | ⟨-, haway, hscan⟩
  · obtain ⟨name, haccept⟩ := l.exists_category_accept s.metrics (l.traverse s).lexemeText category
    simp only [hscan, haccept, Outcome.token?, Option.some.injEq] at htoken
    subst htoken
    have hlexeme := Traversal.lexeme_ne_nil_of_accepted? haccepted
    refine ⟨rfl, fun hhome => ⟨?_, ?_, hlexeme⟩⟩
    · cases hrest : (l.traverse s).rest with
      | nil => rfl
      | cons c tail => exact absurd ((hhalted c tail hrest).2 hhome) hlexeme
    · rw [Traversal.accepted?_of_lexeme hlexeme, hhome] at haccepted
      simp [Machine.isAccepting, haccepted]
  · simp [hscan, Outcome.token?] at htoken
  · simp only [hscan, Outcome.token?, Option.some.injEq] at htoken
    subst htoken
    exact ⟨rfl, fun hhome => absurd hhome haway⟩

theorem scan_of_lexeme {category : String} (hlexeme : (l.traverse s).lexeme ≠ [])
    (haccepted : l.machine.accepted? (l.traverse s).state = some category) :
    (l.scan s).1 = .token (l.accept s.metrics (l.traverse s).lexemeText category).1 := by
  rw [← Traversal.accepted?_of_lexeme hlexeme] at haccepted
  rw [scan_of_accepted haccepted]

/-- The verdict on a lexeme whose state accepts is that of the step: is its token left out? -/
theorem isSome_verdict?_iff {state : Nat} {category : String}
    (haccepted : l.machine.accepted? state = some category) (metrics : Metrics) (lexeme : String) :
    (l.verdict? state lexeme).isSome ↔
      l.discards (l.accept metrics lexeme category).1 = false := by
  simp [verdict?_of_accepted haccepted metrics, Option.filter_some]

/-- A token whose run ends in the entry state is the last round trip of the program. -/
theorem exists_endsInTrip (hpasses : l.PassesOver s passed last)
    (htoken : (l.scan last).1.token? = some t)
    (hstays : ∀ t, (l.scan last).1 = .token t → l.discards t = false)
    (hhome : (l.traverse last).state = l.entry) :
    ∃ trip lexeme, l.EndsInTrip s passed last trip lexeme := by
  obtain ⟨trip, hreads, hhalted⟩ := l.exists_reads_traverse last
  obtain ⟨hrest, haccepts, hlexeme⟩ := (lexeme_of_scan htoken).2 hhome
  obtain ⟨category, haccepted⟩ := Option.isSome_iff_exists.mp haccepts
  have hsplit : last.rest = trip ++ (l.traverse last).lexeme.reverse := by
    simpa [hrest] using hreads.splits
  have hrun := hreads.longestRun hhalted
  have hvisit := hreads.lastVisit hlexeme
  rw [← hsplit, hhome] at hrun
  rw [← hsplit] at hvisit
  have hscan := scan_of_lexeme hlexeme (hhome ▸ haccepted)
  exact ⟨trip, _, hpasses, hsplit, hrun.leads, hvisit, haccepts,
    (isSome_verdict?_iff haccepted last.metrics _).mpr (hstays _ hscan)⟩

/-- The last round trip of a program is the lexeme of a step, if the entry state accepts it. -/
theorem EndsInTrip.exists_token (hends : l.EndsInTrip s passed last trip lexeme) :
    ∃ t, (l.next s).1.token? = some t ∧ t.lexeme.toList = lexeme := by
  have hvisit := hends.visit
  rw [hends.splits] at hvisit
  have hrun : l.machine.LongestRun l.entry last.rest (trip ++ lexeme) l.entry := by
    have hwhole : l.machine.LongestRun l.entry (last.rest ++ []) last.rest l.entry :=
      .of_stuck hends.returns (by simp)
    simpa [← hends.splits] using hwhole
  obtain ⟨hstate, hlexeme⟩ := traverse_of_lastVisit hrun hvisit (fun _ => hends.splits.symm)
  have hne : (l.traverse last).lexeme ≠ [] := by
    intro hnil
    simp only [hnil, List.reverse_nil] at hlexeme
    exact hvisit.leaves (by rw [← hlexeme, List.append_nil])
  obtain ⟨category, haccepted⟩ := Option.isSome_iff_exists.mp hends.accepts
  have hscan := scan_of_lexeme hne (hstate ▸ haccepted)
  have hkept : l.discards (l.accept last.metrics (l.traverse last).lexemeText category).1 = false := by
    rw [← isSome_verdict?_iff haccepted, Traversal.lexemeText, hlexeme]
    exact hends.stays
  obtain ⟨name, haccept⟩ := l.exists_category_accept last.metrics (l.traverse last).lexemeText category
  rw [haccept] at hscan hkept
  refine ⟨⟨(l.traverse last).lexemeText, some name⟩, ?_, ?_⟩
  rotate_left
  · rw [Traversal.lexemeText, String.toList_ofList, hlexeme]
  rw [hends.passes.next_eq, next_of_keeps, hscan, Outcome.token?]
  intro other hother
  obtain rfl := Outcome.token.inj (hscan.symm.trans hother)
  simp [hkept]

/-- A program whose last round trip becomes a token does not keep it out of the lexeme. -/
theorem KeepsTripsOut.not_endsInTrip (hkeeps : l.KeepsTripsOut s) :
    ¬ l.EndsInTrip s passed last trip lexeme := by
  intro hends
  obtain ⟨t, htoken, rfl⟩ := hends.exists_token
  have hreturns := hends.returns
  rw [hends.splits, Machine.run?_append_of_run? hends.visit.returns] at hreturns
  refine (hkeeps t htoken).away _ List.prefix_rfl ?_ hreturns
  intro hnil
  exact hends.visit.leaves (by rw [hends.splits, hnil, List.append_nil])

/-- The run over the lexeme of a step is away from the entry state but before the first character and,
it may be, after the last one: there it is in the entry state only if this state accepts and the program
has come to its end.  So round trips are kept out of lexemes if and only if the program does not end with
a round trip that becomes a token. -/
theorem keepsTripsOut_iff (l : Lexer) (s : State) :
    (∀ t, (l.next s).1.token? = some t → ∃ state,
      l.machine.run? l.entry t.lexeme.toList = some state ∧
      l.machine.Away l.entry t.lexeme.toList ∧
      (state = l.entry → (l.next s).2.rest = [] ∧ l.machine.isAccepting l.entry)) ∧
    (l.KeepsTripsOut s ↔
      ¬ ∃ passed last trip lexeme, l.EndsInTrip s passed last trip lexeme) := by
  obtain ⟨passed, last, hpasses, hnext, hstays⟩ := l.exists_passesOver_next s
  obtain ⟨_, hreads, -⟩ := l.exists_reads_traverse last
  have hlexeme : ∀ t, (l.next s).1.token? = some t →
      t.lexeme.toList = (l.traverse last).lexeme.reverse := by
    intro t htoken
    rw [hnext] at htoken
    rw [(lexeme_of_scan htoken).1, Traversal.lexemeText, String.toList_ofList]
  refine ⟨fun t htoken => ⟨(l.traverse last).state, ?_, ?_, fun hhome => ?_⟩, ?_, ?_⟩
  · rw [hlexeme t htoken, hreads.leads]
  · rw [hlexeme t htoken]
    exact hreads.away
  · rw [hnext] at htoken
    obtain ⟨hrest, haccepts, -⟩ := (lexeme_of_scan htoken).2 hhome
    exact ⟨by rw [hnext, rest_scan, hrest], haccepts⟩
  · rintro hkeeps ⟨passed, last, trip, lexeme, hends⟩
    exact hkeeps.not_endsInTrip hends
  · intro hnone t htoken
    rw [hlexeme t htoken]
    refine hreads.away.staysAway hreads.leads fun hhome => hnone ?_
    rw [hnext] at htoken
    exact ⟨passed, last, exists_endsInTrip hpasses htoken hstays hhome⟩

/-- If the entry state leads back to itself on every character of the rest and accepts, the last character
is a round trip that becomes a token. -/
theorem endsInTrip_of_loop {c : Char} {category : String} (hrest : s.rest = trip ++ [c])
    (hloop : ∀ d ∈ s.rest, l.machine.transition? l.entry d = some l.entry)
    (haccepted : l.machine.accepted? l.entry = some category)
    (hname : category ≠ l.preferences.identifierCategory)
    (hkeeps : l.preferences.skips category = false) : l.EndsInTrip s [] s trip [c] where
  passes := .refl s
  splits := hrest
  returns := Machine.run?_loop hloop
  visit := by
    have hreturns : l.machine.run? l.entry trip = some l.entry :=
      Machine.run?_loop fun d hmem => hloop d (by simp [hrest, hmem])
    rw [hrest]
    exact .of_away hreturns (List.cons_ne_nil c []) (Machine.away_singleton _ _ c)
  accepts := by rw [Machine.isAccepting, haccepted, Option.isSome_some]
  stays := by rw [verdict?_of_ne haccepted hname hkeeps, Option.isSome_some]

/-- If the tables make a lexer, so they do when another state is the entry state. -/
theorem ofTables_begun {machine : Machine} {keywords : Keywords} {preferences : Preferences.Lexical}
    (hbuilt : Lexer.ofTables machine keywords preferences = .ok l) (home : Nat) :
    Lexer.ofTables { machine with entry := some home } keywords preferences =
      .ok { l with machine := { machine with entry := some home }, entry := home } := by
  cases hentry : machine.entry with
  | none => simp [Lexer.ofTables, hentry] at hbuilt
  | some entry =>
      simp only [Lexer.ofTables, hentry, Except.ok.injEq] at hbuilt
      rw [Lexer.ofTables, ← hbuilt]

/-- The machine of the standard table, begun in the state of the numbers. -/
def numberMachine : Machine := { StandardTables.lexicalMachine with entry := some 2 }

def numbering : Lexer := { StandardTables.pipeline.lexer with machine := numberMachine, entry := 2 }

-- These go through a lemma about all machines: a `rfl` here would make the kernel read the table.
theorem transition?_numbering (state : Nat) (c : Char) :
    numbering.machine.transition? state c = StandardTables.lexicalMachine.transition? state c :=
  Machine.transition?_begun _ _ _ _

theorem accepted?_numbering (state : Nat) :
    numbering.machine.accepted? state = StandardTables.lexicalMachine.accepted? state :=
  Machine.accepted?_begun _ _ _

theorem endsInTrip_numbering :
    numbering.EndsInTrip (.ofText "12") [] (.ofText "12") ['1'] ['2'] := by
  have hdigit : ∀ c ∈ ['1', '2'], c ∈ StandardTables.symbols ∧ c.isDigit := by decide
  have haccepted : numbering.machine.accepted? 2 = some "Integer Literal" :=
    (accepted?_numbering 2).trans StandardTables.accepted?_number
  refine endsInTrip_of_loop rfl ?_ haccepted (by decide) (by decide)
  intro c hmem
  obtain ⟨hsymbol, hc⟩ := hdigit c hmem
  exact (transition?_numbering 2 c).trans
    ((StandardTables.transition?_number c hsymbol).trans (if_pos hc))

/-- Round trips are not always kept out of lexemes: with the state of the numbers as the entry state, the
last digit of a program is one. -/
theorem not_keepsTripsOut_numbering :
    (StandardTables.lexicalMachine.setEntry "Integer" = .ok numberMachine ∧
      Lexer.ofTables numberMachine (Keywords.parse StandardTables.keywords).value
        (.ofEnvironment ⟨[]⟩) = .ok numbering) ∧
      ¬ numbering.KeepsTripsOut (.ofText "12") := by
  refine ⟨⟨?_, ofTables_begun StandardTables.ofTables_lexicalMachine 2⟩, ?_⟩
  · have hid : StandardTables.lexicalMachine.stateId? "Integer" = some 2 := by
      rw [StandardTables.stateId?_lexicalMachine]
      decide
    rw [Machine.setEntry, hid]
    rfl
  · exact fun hkeeps => hkeeps.not_endsInTrip endsInTrip_numbering

end Lexer

end TableLexer
