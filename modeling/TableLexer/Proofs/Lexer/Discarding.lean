import TableLexer.Proofs.Lexer.Categories
/-!
Tokens that are left out.  A step reads one token after the other until one stays.  A token whose
category in the machine is left out is not counted as a token.  An identifier that goes only because
of its category in the keyword table was counted before it goes.
-/

namespace TableLexer.Lexer

variable {l : Lexer} {s middle reached last : State} {t : Token} {passed : List Token}

/-- The token that a scan accepts, in the category of the machine: the keyword table was not asked
yet. -/
def found? (l : Lexer) (s : State) : Option Token :=
  ((l.traverse s).accepted? l.machine).map fun category =>
    ⟨(l.traverse s).lexemeText, some category⟩

/-- Whether a token goes because of the keyword table: it is an identifier, identifiers stay, and the
category of its entry is left out. -/
def loses (l : Lexer) (t : Token) : Bool :=
  !l.discards t && t.category == some l.preferences.identifierCategory &&
    (l.keywords.get? t.lexeme).any l.preferences.skips

/-- The scan from a state finds a token that goes because of the keyword table. -/
def LosesAt (l : Lexer) (s : State) : Prop :=
  ∃ t, l.found? s = some t ∧ l.loses t

theorem loses_iff {lexeme category : String} :
    l.loses ⟨lexeme, some category⟩ ↔ l.preferences.skips category = false ∧
      category = l.preferences.identifierCategory ∧
      ∃ name, l.keywords.get? lexeme = some name ∧ l.preferences.skips name := by
  simp [loses, discards, Option.any_eq_true, and_assoc]

/-- Of the tokens that stay in the category of the machine, those go that the keyword table makes
go. -/
theorem discards_rename_iff (hkeeps : l.discards t = false) :
    l.discards (l.rename t) ↔ l.loses t := by
  obtain ⟨lexeme, category⟩ := t
  cases category with
  | none => simp [rename, discards, loses]
  | some category =>
      have hskips : l.preferences.skips category = false := by simpa [discards] using hkeeps
      rw [loses_iff]
      by_cases hidentifier : category = l.preferences.identifierCategory
      · subst hidentifier
        cases hname : l.keywords.get? lexeme with
        | none => simp [rename, discards, Keywords.resolve, hname, hskips]
        | some name => simp [rename, discards, Keywords.resolve, hname, hskips]
      · simp [rename, discards, Keywords.resolve, hidentifier, hskips]

theorem accept_of_skips {category : String} (hskips : l.preferences.skips category)
    (metrics : Metrics) (lexeme : String) :
    l.accept metrics lexeme category = (⟨lexeme, some category⟩, metrics) := by
  simp [accept, hskips]

theorem accept_of_keeps {category : String} (hkeeps : l.preferences.skips category = false)
    (metrics : Metrics) (lexeme : String) :
    l.accept metrics lexeme category =
      (l.rename ⟨lexeme, some category⟩,
        metrics.addToken l.preferences
          (l.keywords.resolve category lexeme l.preferences.identifierCategory)
          (l.keywords.resolve category lexeme l.preferences.identifierCategory != category)
          lexeme.length) := by
  simp [accept, rename, hkeeps]

/-- A token that the keyword table makes go is counted as a keyword. -/
theorem exists_accept_of_loses {lexeme category : String}
    (hloses : l.loses ⟨lexeme, some category⟩) (metrics : Metrics) :
    ∃ name, l.preferences.skips name ∧ l.accept metrics lexeme category =
      (⟨lexeme, some name⟩, metrics.addToken l.preferences name true lexeme.length) := by
  obtain ⟨hkeeps, rfl, name, hname, hskips⟩ := loses_iff.mp hloses
  have hrenamed : (name != l.preferences.identifierCategory) = true := by
    rw [bne_iff_ne]
    rintro rfl
    simp [hkeeps] at hskips
  refine ⟨name, hskips, ?_⟩
  simp [accept, Keywords.resolve, hkeeps, hname, hrenamed]

theorem scan_of_accepted {category : String}
    (haccepted : (l.traverse s).accepted? l.machine = some category) :
    l.scan s = (.token (l.accept s.metrics (l.traverse s).lexemeText category).1,
      { s.after (l.traverse s) with
        metrics := (l.accept s.metrics (l.traverse s).lexemeText category).2 }) := by
  simp only [scan, haccepted]

/-- A scan that finds a token accepts it. -/
theorem exists_scan_of_found (hfound : l.found? s = some t) :
    ∃ category, t = ⟨(l.traverse s).lexemeText, some category⟩ ∧
      l.scan s = (.token (l.accept s.metrics t.lexeme category).1,
        { s.after (l.traverse s) with
          metrics := (l.accept s.metrics t.lexeme category).2 }) := by
  obtain ⟨category, haccepted, rfl⟩ := Option.map_eq_some_iff.mp hfound
  exact ⟨category, rfl, scan_of_accepted haccepted⟩

theorem exists_found_of_scan (hscan : l.scan s = (.token t, reached)) :
    ∃ found, l.found? s = some found := by
  rcases l.scan_cases s with ⟨category, haccepted, -⟩ | ⟨-, -, hcase⟩ | ⟨-, -, hcase⟩
  · exact ⟨_, by simp only [found?, haccepted, Option.map_some]; rfl⟩
  · simp [hcase] at hscan
  · simp [hcase] at hscan

/-- What becomes of the counters when a token is left out. -/
theorem metrics_of_discarded (hscan : l.scan s = (.token t, reached)) (hdiscards : l.discards t) :
    (¬ l.LosesAt s ∧ reached.metrics = s.metrics) ∨
    (l.LosesAt s ∧ ∃ name, t.category = some name ∧
      reached.metrics = s.metrics.addToken l.preferences name true t.length) := by
  obtain ⟨found, hfound⟩ := exists_found_of_scan hscan
  obtain ⟨category, rfl, hcase⟩ := exists_scan_of_found hfound
  obtain ⟨htoken, rfl⟩ := Prod.mk.inj (hscan.symm.trans hcase)
  obtain rfl := Outcome.token.inj htoken
  cases hloses : l.loses ⟨(l.traverse s).lexemeText, some category⟩ with
  | true =>
      obtain ⟨name, -, haccept⟩ := exists_accept_of_loses hloses s.metrics
      right
      refine ⟨⟨_, hfound, hloses⟩, name, ?_⟩
      simp [haccept, Token.length]
  | false =>
      have hskips : l.preferences.skips category := by
        by_contra hkeeps
        rw [Bool.not_eq_true] at hkeeps
        have hstays : l.discards ⟨(l.traverse s).lexemeText, some category⟩ = false := hkeeps
        rw [accept_of_keeps hkeeps, discards_rename_iff hstays, hloses] at hdiscards
        exact Bool.noConfusion hdiscards
      left
      constructor
      · rintro ⟨other, hother, hlost⟩
        obtain rfl := Option.some.inj (hfound.symm.trans hother)
        simp [hloses] at hlost
      · simp [accept_of_skips hskips]

/-- A token that the keyword table makes go is left out by the step, too. -/
theorem exists_discarded_of_losesAt (hloses : l.LosesAt s) :
    ∃ t reached, l.scan s = (.token t, reached) ∧ l.discards t := by
  obtain ⟨found, hfound, hlost⟩ := hloses
  obtain ⟨category, rfl, hcase⟩ := exists_scan_of_found hfound
  obtain ⟨name, hskips, haccept⟩ := exists_accept_of_loses hlost s.metrics
  refine ⟨_, _, hcase, ?_⟩
  simpa [haccept, discards] using hskips

/-- The rounds of a step: from `s` on the tokens of `passed` are left out one after the other, which
leads to `last`. -/
inductive PassesOver (l : Lexer) : State → List Token → State → Prop
  | refl (s : State) : PassesOver l s [] s
  | round {s reached last : State} {t : Token} {passed : List Token}
      (hscan : l.scan s = (.token t, reached)) (hdiscards : l.discards t)
      (hrest : PassesOver l { reached with metrics := reached.metrics.addSkipped } passed last) :
      PassesOver l s (t :: passed) last

/-- One more round. -/
theorem PassesOver.concat (hpasses : l.PassesOver s passed last)
    (hscan : l.scan last = (.token t, reached)) (hdiscards : l.discards t) :
    l.PassesOver s (passed ++ [t]) { reached with metrics := reached.metrics.addSkipped } := by
  induction hpasses with
  | refl s => exact .round hscan hdiscards (.refl _)
  | round hfirst hgoes hrest ih => exact .round hfirst hgoes (ih hscan)

/-- A step is some rounds, and then a scan whose token stays. -/
theorem exists_passesOver_next (l : Lexer) (s : State) :
    ∃ passed last, l.PassesOver s passed last ∧ l.next s = l.scan last ∧
      ∀ t, (l.scan last).1 = .token t → l.discards t = false := by
  fun_induction next l s with
  | case1 s t reached hscan hdiscards ih =>
      obtain ⟨passed, last, hpasses, hnext, hstays⟩ := ih
      exact ⟨t :: passed, last, .round hscan hdiscards hpasses, hnext, hstays⟩
  | case2 s t reached hscan hkeeps =>
      refine ⟨[], s, .refl s, hscan.symm, fun other hother => ?_⟩
      simp only [hscan, Outcome.token.injEq] at hother
      simpa [← hother] using hkeeps
  | case3 s lexeme reached hscan => exact ⟨[], s, .refl s, hscan.symm, by simp [hscan]⟩
  | case4 s reached hscan => exact ⟨[], s, .refl s, hscan.symm, by simp [hscan]⟩

/-- The tokens that a step leaves out change no counter but the one of the skipped tokens. -/
def LeavesNoTrace (l : Lexer) (s : State) : Prop :=
  ∀ passed last, l.PassesOver s passed last →
    last.metrics = { s.metrics with skipped := s.metrics.skipped + passed.length }

/-- If the keyword table makes no token go on the way, only skipped tokens are counted. -/
theorem PassesOver.metrics_eq (hpasses : l.PassesOver s passed last)
    (hkeeps : ∀ passed middle, l.PassesOver s passed middle → ¬ l.LosesAt middle) :
    last.metrics = { s.metrics with skipped := s.metrics.skipped + passed.length } := by
  induction hpasses with
  | refl s => rfl
  | @round s reached last t passed hscan hdiscards hrest ih =>
      have hsame : reached.metrics = s.metrics := by
        rcases metrics_of_discarded hscan hdiscards with ⟨-, hsame⟩ | ⟨hloses, -⟩
        · exact hsame
        · exact absurd hloses (hkeeps [] _ (.refl _))
      rw [ih fun passed middle hmiddle => hkeeps _ middle (.round hscan hdiscards hmiddle)]
      simp only [hsame, Metrics.addSkipped, List.length_cons]
      congr 1
      omega

/-- A token that the keyword table makes go leaves a trace. -/
theorem LeavesNoTrace.not_losesAt (hclean : l.LeavesNoTrace s)
    (hpasses : l.PassesOver s passed middle) : ¬ l.LosesAt middle := by
  intro hloses
  obtain ⟨t, reached, hscan, hdiscards⟩ := exists_discarded_of_losesAt hloses
  have hbefore := congrArg Metrics.recorded (hclean passed middle hpasses)
  have hafter := congrArg Metrics.recorded (hclean _ _ (hpasses.concat hscan hdiscards))
  rcases metrics_of_discarded hscan hdiscards with ⟨hkeeps, -⟩ | ⟨-, name, -, hcounted⟩
  · exact hkeeps hloses
  · simp only [hcounted, Metrics.addSkipped, Metrics.addToken] at hbefore hafter
    omega

/-- What a step leaves out.  It goes through rounds, in each of which a token is left out, and ends with a
scan whose token stays.  A token that is left out in the category of the machine changes no counter; one
that goes because of the keyword table is counted as a token, and as a keyword of a category that is
left out.  So the tokens that go leave no trace if and only if none of them goes because of the keyword
table. -/
theorem leavesNoTrace_iff (l : Lexer) (s : State) :
    (∃ passed last, l.PassesOver s passed last ∧ l.next s = l.scan last ∧
      ∀ t, (l.scan last).1 = .token t → l.discards t = false) ∧
    (∀ t reached, l.scan s = (.token t, reached) → l.discards t →
      (¬ l.LosesAt s ∧ reached.metrics = s.metrics) ∨
      (l.LosesAt s ∧ ∃ name, t.category = some name ∧
        reached.metrics = s.metrics.addToken l.preferences name true t.length)) ∧
    (l.LeavesNoTrace s ↔ ∀ passed middle, l.PassesOver s passed middle → ¬ l.LosesAt middle) := by
  refine ⟨l.exists_passesOver_next s, fun t reached => metrics_of_discarded, ?_⟩
  constructor
  · exact fun hclean passed middle => hclean.not_losesAt
  · exact fun hkeeps passed last hpasses => hpasses.metrics_eq hkeeps

/-- A lexer of the standard table whose keyword table takes a word for a comment. -/
def remarking : Lexer :=
  StandardTables.pipeline.lexer.withKeywords (Keywords.parse "if,Line Comment\n").value

theorem losesAt_remarking : remarking.LosesAt (.ofText "if") := by
  obtain ⟨haccepted, hlexeme⟩ := StandardTables.traverse_letters
    (show remarking.machine = StandardTables.pipeline.lexer.machine from rfl) rfl
    (show ['i', 'f'] ≠ [] by decide) (by decide)
  have hlines : (Text.lines "if,Line Comment\n").filter (· ≠ "") = ["if,Line Comment"] := by decide
  have hentry : Keywords.entryOf? "if,Line Comment" = some ("if", "Line Comment") := by decide
  have hkeyword : remarking.keywords.get? "if" = some "Line Comment" :=
    Keywords.get?_parse_line hlines hentry "if"
  have hfound : remarking.found? (.ofText "if") = some ⟨"if", some "Identifier"⟩ := by
    rw [found?]
    exact Option.map_eq_some_iff.mpr ⟨_, haccepted, by rw [hlexeme]⟩
  exact ⟨_, hfound, loses_iff.mpr ⟨by decide, rfl, _, hkeyword, by decide⟩⟩

/-- Not every token that goes leaves no trace: an identifier that the keyword table takes for a comment
is counted. -/
theorem not_leavesNoTrace_remarking :
    Lexer.ofTables StandardTables.lexicalMachine (Keywords.parse "if,Line Comment\n").value
        (.ofEnvironment ⟨[]⟩) = .ok remarking ∧
      ¬ remarking.LeavesNoTrace (.ofText "if") := by
  constructor
  · rw [Lexer.ofTables, StandardTables.entry_lexicalMachine]
    rfl
  · exact fun hclean => hclean.not_losesAt (.refl _) losesAt_remarking

end TableLexer.Lexer
