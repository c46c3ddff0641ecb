import TableLexer.Proofs.Lexer.Reading
import TableLexer.Proofs.StandardLexer
/-!
Longest matches.  A scan reads on for as long as there are transitions, also past an accepting state,
and the state in which its run ends decides alone: no accepting state on the way is remembered.  So it
finds the longest beginning that is accepted exactly where its run ends with it; where the run goes
further, all that was read is one bad token.
-/

namespace TableLexer

namespace Machine

variable {m : Machine} {home : Nat} {text word : List Char}

/-- A word that leads from `home` to an accepting state without coming back. -/
def Accepts (m : Machine) (home : Nat) (word : List Char) : Prop :=
  ∃ state, m.run? home word = some state ∧ state ≠ home ∧ m.isAccepting state ∧ m.Away home word

/-- `word` is the longest beginning of `text` that is accepted. -/
structure LongestAccepted (m : Machine) (home : Nat) (text word : List Char) : Prop where
  begins : word <+: text
  accepts : m.Accepts home word
  longest : ∀ other, other <+: text → m.Accepts home other → other.length ≤ word.length

theorem LongestAccepted.unique {other : List Char} (hword : m.LongestAccepted home text word)
    (hother : m.LongestAccepted home text other) : word = other := by
  have hle := hother.longest word hword.begins hword.accepts
  have hge := hword.longest other hother.begins hother.accepts
  exact (List.prefix_of_prefix_length_le hword.begins hother.begins hle).eq_of_length_le hge

/-- Of the beginnings that are accepted, one is the longest. -/
theorem exists_longestAccepted (hbegins : word <+: text) (haccepts : m.Accepts home word) :
    ∃ longest, m.LongestAccepted home text longest := by
  induction hgap : text.length - word.length using Nat.strongRecOn generalizing word with
  | ind n ih =>
      by_cases hlongest : ∀ other, other <+: text → m.Accepts home other → other.length ≤ word.length
      · exact ⟨word, hbegins, haccepts, hlongest⟩
      · push Not at hlongest
        obtain ⟨other, hother, haccepts', hlonger⟩ := hlongest
        have hle := hother.length_le
        exact ih (text.length - other.length) (by omega) hother haccepts' rfl

end Machine

namespace Lexer

/-- What a scan reads: round trips, then the run of its lexeme, as far as there are transitions.  What
follows the run is left. -/
structure Scans (l : Lexer) (s : State) (trip run rest : List Char) (state : Nat) : Prop where
  splits : s.rest = trip ++ run ++ rest
  start_eq : (l.scan s).2.tokenStart = s.position.past trip
  rest_eq : (l.scan s).2.rest = rest
  longestRun : l.machine.LongestRun l.entry (run ++ rest) run state
  away : l.machine.Away l.entry run

theorem exists_scans_traverse (l : Lexer) (s : State) :
    ∃ trip, l.Scans s trip (l.traverse s).lexeme.reverse (l.traverse s).rest (l.traverse s).state := by
  obtain ⟨trip, hreads, hhalted⟩ := l.exists_reads_traverse s
  have hstart : (l.scan s).2.tokenStart = (l.traverse s).start := by
    rcases l.scan_cases s with ⟨category, -, hscan⟩ | ⟨-, -, hscan⟩ | ⟨-, -, hscan⟩
    all_goals
      rw [hscan]
      rfl
  exact ⟨trip, hreads.splits, hstart.trans hreads.start_eq, l.rest_scan s,
    .of_stuck hreads.leads fun c tail hrest => (hhalted c tail hrest).1, hreads.away⟩

variable {l : Lexer} {s : State} {trip run rest word : List Char} {state : Nat}

/-- Where the lexeme begins tells what follows the round trips, and that tells how far the run goes. -/
theorem Scans.eq_of_start {trip' body : List Char} (hscans : l.Scans s trip run rest state)
    (hsplit : s.rest = trip' ++ body) (hstart : (l.scan s).2.tokenStart = s.position.past trip') :
    body = run ++ rest := by
  have hsplits := hscans.splits
  rw [List.append_assoc, hsplit] at hsplits
  exact (Position.append_inj_of_past hsplits (hstart.symm.trans hscans.start_eq)).2

/-- The outcome of a scan depends on the state in which its run ends. -/
theorem Scans.outcome (hscans : l.Scans s trip run rest state) :
    (∃ category, l.machine.accepted? state = some category ∧
      (l.scan s).1 = .token (l.accept s.metrics (String.ofList run) category).1) ∨
    (state = l.entry ∧ (l.scan s).1 = .none) ∨
    (state ≠ l.entry ∧ l.machine.accepted? state = none ∧
      (l.scan s).1 = .bad (String.ofList run)) := by
  obtain ⟨trip', htraverse⟩ := l.exists_scans_traverse s
  obtain ⟨rfl, rfl⟩ : run = (l.traverse s).lexeme.reverse ∧ state = (l.traverse s).state := by
    have hsplit := hscans.splits
    rw [List.append_assoc] at hsplit
    have hlongest := hscans.longestRun
    rw [htraverse.eq_of_start hsplit hscans.start_eq] at hlongest
    exact hlongest.unique htraverse.longestRun
  obtain ⟨trip'', hreads, -⟩ := l.exists_reads_traverse s
  rcases l.scan_cases s with ⟨category, haccepted, hscan⟩ | ⟨-, hhome, hscan⟩ | ⟨hnone, haway, hscan⟩
  · rw [Traversal.accepted?_of_lexeme (Traversal.lexeme_ne_nil_of_accepted? haccepted)] at haccepted
    exact .inl ⟨category, haccepted, by rw [hscan]; rfl⟩
  · exact .inr (.inl ⟨hhome, by rw [hscan]⟩)
  · rw [Traversal.accepted?_of_lexeme (hreads.lexeme_ne_nil haway)] at hnone
    exact .inr (.inr ⟨haway, hnone, by rw [hscan]; rfl⟩)

/-- A token and a bad token hold the run of the scan as their lexeme. -/
theorem Scans.lexeme_of_token (hscans : l.Scans s trip run rest state) {t : Token}
    (htoken : (l.scan s).1 = .token t) : t.lexeme = String.ofList run := by
  rcases hscans.outcome with ⟨category, -, houtcome⟩ | ⟨-, houtcome⟩ | ⟨-, -, houtcome⟩
  · obtain ⟨name, haccept⟩ := l.exists_category_accept s.metrics (String.ofList run) category
    rw [houtcome, haccept] at htoken
    rw [← Outcome.token.inj htoken]
  · simp [houtcome] at htoken
  · simp [houtcome] at htoken

theorem Scans.lexeme_of_bad (hscans : l.Scans s trip run rest state) {lexeme : String}
    (hbad : (l.scan s).1 = .bad lexeme) : lexeme = String.ofList run := by
  rcases hscans.outcome with ⟨category, -, houtcome⟩ | ⟨-, houtcome⟩ | ⟨-, -, houtcome⟩
  · simp [houtcome] at hbad
  · simp [houtcome] at hbad
  · exact Outcome.bad.inj (hbad.symm.trans houtcome)

/-- A run is accepted for the state in which it ends. -/
theorem Scans.accepts_iff (hscans : l.Scans s trip run rest state) :
    l.machine.Accepts l.entry run ↔ state ≠ l.entry ∧ l.machine.isAccepting state := by
  constructor
  · rintro ⟨state', hleads, haway, haccepting, -⟩
    obtain rfl := Option.some.inj (hleads.symm.trans hscans.longestRun.leads)
    exact ⟨haway, haccepting⟩
  · rintro ⟨haway, haccepting⟩
    exact ⟨state, hscans.longestRun.leads, haway, haccepting, hscans.away⟩

/-- No longer beginning than the run is accepted. -/
theorem Scans.longestAccepted (hscans : l.Scans s trip run rest state)
    (haccepts : l.machine.Accepts l.entry run) :
    l.machine.LongestAccepted l.entry (run ++ rest) run := by
  refine ⟨List.prefix_append run rest, haccepts, ?_⟩
  rintro other hother ⟨state', hleads, -⟩
  exact hscans.longestRun.longest other hother (by rw [hleads]; rfl)

/-- A run that is accepted gives a token. -/
theorem Scans.token_of_accepts (hscans : l.Scans s trip run rest state)
    (haccepts : l.machine.Accepts l.entry run) :
    ∃ name, (l.scan s).1 = .token ⟨String.ofList run, some name⟩ := by
  obtain ⟨haway, haccepting⟩ := hscans.accepts_iff.mp haccepts
  rcases hscans.outcome with ⟨category, -, houtcome⟩ | ⟨hhome, -⟩ | ⟨-, hnone, -⟩
  · obtain ⟨name, haccept⟩ := l.exists_category_accept s.metrics (String.ofList run) category
    exact ⟨name, by rw [houtcome, haccept]⟩
  · exact absurd hhome haway
  · simp [Machine.isAccepting, hnone] at haccepting

/-- A run that ends in a state that does not accept is a bad token, but for a run that comes home. -/
theorem Scans.outcome_of_not_accepting (hscans : l.Scans s trip run rest state)
    (hnot : l.machine.isAccepting state = false) :
    (l.scan s).1 = if state = l.entry then .none else .bad (String.ofList run) := by
  rcases hscans.outcome with ⟨category, haccepted, -⟩ | ⟨hhome, hnone⟩ | ⟨haway, -, hbad⟩
  · simp [Machine.isAccepting, haccepted] at hnot
  · rw [if_pos hhome, hnone]
  · rw [if_neg haway, hbad]

/-- Where the run goes on past the longest beginning that is accepted, and does not come home, the
whole of it is a bad token. -/
theorem Scans.bad_of_ne (hscans : l.Scans s trip run rest state) (haway : state ≠ l.entry)
    (hlongest : l.machine.LongestAccepted l.entry (run ++ rest) word) (hne : word ≠ run) :
    (l.scan s).1 = .bad (String.ofList run) := by
  have hnot : l.machine.isAccepting state = false := by
    by_contra haccepting
    rw [Bool.not_eq_false] at haccepting
    have hrun := hscans.longestAccepted (hscans.accepts_iff.mpr ⟨haway, haccepting⟩)
    exact hne (hlongest.unique hrun)
  rw [hscans.outcome_of_not_accepting hnot, if_neg haway]

/-- The scan falls back to the longest accepted beginning of what follows the round trips: it gives a
token of this beginning whenever there is one, and a bad token only where no beginning of it is
accepted. -/
def PrefersLongestAccepted (l : Lexer) (s : State) : Prop :=
  ∀ trip body, s.rest = trip ++ body → (l.scan s).2.tokenStart = s.position.past trip →
    (∀ word, l.machine.LongestAccepted l.entry body word →
      ∃ category, (l.scan s).1 = .token ⟨String.ofList word, category⟩) ∧
    (∀ lexeme, (l.scan s).1 = .bad lexeme →
      ∀ word, word <+: lexeme.toList → ¬ l.machine.Accepts l.entry word)

/-- A scan falls back to the longest accepted beginning exactly where it does not have to: where its
run ends with this beginning. -/
theorem Scans.prefersLongestAccepted_iff (hscans : l.Scans s trip run rest state) :
    l.PrefersLongestAccepted s ↔
      ∀ word, l.machine.LongestAccepted l.entry (run ++ rest) word → word = run := by
  constructor
  · intro hprefers word hlongest
    have hsplit := hscans.splits
    rw [List.append_assoc] at hsplit
    obtain ⟨category, htoken⟩ := (hprefers trip _ hsplit hscans.start_eq).1 word hlongest
    exact String.ofList_injective (hscans.lexeme_of_token htoken)
  · intro hends trip' body hsplit hstart
    obtain rfl := hscans.eq_of_start hsplit hstart
    -- Where a beginning is accepted, the longest one is the run, which then is a token.
    have htoken : ∀ word, l.machine.LongestAccepted l.entry (run ++ rest) word →
        ∃ name, (l.scan s).1 = .token ⟨String.ofList word, some name⟩ := by
      intro word hlongest
      obtain rfl := hends word hlongest
      exact hscans.token_of_accepts hlongest.accepts
    constructor
    · intro word hlongest
      obtain ⟨name, hname⟩ := htoken word hlongest
      exact ⟨some name, hname⟩
    · intro lexeme hbad word hword haccepts
      rw [hscans.lexeme_of_bad hbad, String.toList_ofList] at hword
      obtain ⟨longest, hlongest⟩ := Machine.exists_longestAccepted
        (hword.trans (List.prefix_append run rest)) haccepts
      obtain ⟨name, hname⟩ := htoken longest hlongest
      exact Outcome.noConfusion (hbad.symm.trans hname)

/-- A scan reads the whole run and judges it by the state in which it ends.  A run that is accepted is a
token, and no longer beginning is accepted.  A run that ends elsewhere in a state that does not accept is
a bad token, also where it goes past a beginning that is accepted, and a run that comes home to such a
state is no token.  So a scan falls back to the longest accepted beginning exactly where the run is
this beginning. -/
theorem scan_judges_whole_run (l : Lexer) (s : State) :
    ∃ trip run rest state, l.Scans s trip run rest state ∧
      (state ≠ l.entry → l.machine.isAccepting state →
        (∃ category, (l.scan s).1 = .token ⟨String.ofList run, some category⟩) ∧
          l.machine.LongestAccepted l.entry (run ++ rest) run) ∧
      (l.machine.isAccepting state = false →
        (l.scan s).1 = if state = l.entry then .none else .bad (String.ofList run)) ∧
      (∀ word, l.machine.LongestAccepted l.entry (run ++ rest) word → word ≠ run →
        state ≠ l.entry → (l.scan s).1 = .bad (String.ofList run)) ∧
      (l.PrefersLongestAccepted s ↔
        ∀ word, l.machine.LongestAccepted l.entry (run ++ rest) word → word = run) := by
  obtain ⟨trip, hscans⟩ := l.exists_scans_traverse s
  refine ⟨trip, _, _, _, hscans, ?_, hscans.outcome_of_not_accepting, ?_,
    hscans.prefersLongestAccepted_iff⟩
  · intro haway haccepting
    have haccepts := hscans.accepts_iff.mpr ⟨haway, haccepting⟩
    exact ⟨hscans.token_of_accepts haccepts, hscans.longestAccepted haccepts⟩
  · intro word hlongest hne haway
    exact hscans.bad_of_ne haway hlongest hne

/-- A lexer that accepts a digit, and goes on from there to a dot without accepting, does not fall back
to the digit. -/
theorem not_prefers_of_digit_dot {l : Lexer} {number fraction : Nat}
    (hdigit : l.machine.transition? l.entry '1' = some number)
    (hdot : l.machine.transition? number '.' = some fraction)
    (haway : number ≠ l.entry ∧ fraction ≠ l.entry)
    (hnumber : l.machine.isAccepting number) (hfraction : l.machine.accepted? fraction = none) :
    ¬ l.PrefersLongestAccepted (.ofText "1.") := by
  have htext : (State.ofText "1.").rest = ['1', '.'] := rfl
  have htraverse : l.traverse (.ofText "1.") = ⟨fraction, ['.', '1'], .start, ⟨2, 1, 3⟩, []⟩ := by
    rw [traverse, htext, Traversal.ofText]
    simp only [Traversal.follow, hdigit, hdot, if_neg haway.1]
    rfl
  have hscan : (l.scan (.ofText "1.")).1 = .bad "1." ∧
      (l.scan (.ofText "1.")).2.tokenStart = .start := by
    simp only [scan, htraverse, Traversal.accepted?, hfraction, if_neg haway.2]
    exact ⟨rfl, rfl⟩
  have haccepts : l.machine.Accepts l.entry ['1'] := by
    refine ⟨number, ?_, haway.1, hnumber, l.machine.away_singleton l.entry '1'⟩
    rw [Machine.run?_cons, hdigit, Option.bind_some, Machine.run?_nil]
  intro hprefers
  exact (hprefers [] ['1', '.'] htext hscan.2).2 "1." hscan.1 ['1'] ⟨['.'], rfl⟩ haccepts

/-- The lexer of the standard tables does not fall back: of a number with a dot and no fraction the
number is accepted, but the run goes on to the dot, and both are one bad token. -/
theorem not_prefersLongestAccepted :
    Lexer.ofTables StandardTables.lexicalMachine (Keywords.parse StandardTables.keywords).value
        (.ofEnvironment ⟨[]⟩) = .ok StandardTables.pipeline.lexer ∧
      ¬ StandardTables.pipeline.lexer.PrefersLongestAccepted (.ofText "1.") := by
  refine ⟨StandardTables.ofTables_lexicalMachine, ?_⟩
  have hdot := StandardTables.transition?_number '.' (by decide)
  refine not_prefers_of_digit_dot (StandardTables.transition?_digit '1' (by decide) (by decide)) hdot
    ⟨by decide, by decide⟩ ?_ StandardTables.accepted?_fraction
  rw [Machine.isAccepting, StandardTables.accepted?_number, Option.isSome_some]

end Lexer

end TableLexer
