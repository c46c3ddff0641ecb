import TableLexer.Proofs.Lexer.Discarding
import TableLexer.Proofs.Lexer.Items
/-!
What the metrics are going to be.  The machine alone, without keywords and with nothing left out, cuts a
text into the same lexemes as the lexer, so its items are all that a run can count.  What they add to the
metrics is said by one formula for each counter.  Added to what was counted before, the items that are still
to read give the same metrics before and after every step, and so these are the metrics in the end.
-/

namespace TableLexer

namespace Lexer

variable {l : Lexer} {s reached last : State} {t : Token} {passed : List Token} {item : Item}

section Plain

/-- The machine of a lexer alone: it has no keywords, and nothing is left out. -/
def plain (l : Lexer) : Lexer := (l.withKeywords .empty).skipping []

def plainItems (l : Lexer) (text : String) : List (Located Item) := l.plain.items (.ofText text)

theorem discards_plain (l : Lexer) (t : Token) : l.plain.discards t = false := by
  unfold discards
  split <;> rfl

theorem next_plain (l : Lexer) (s : State) : l.plain.next s = l.plain.scan s :=
  next_of_keeps fun t _ => by simp [discards_plain]

theorem accept_plain (l : Lexer) (metrics : Metrics) (lexeme category : String) :
    (l.plain.accept metrics lexeme category).1 = ⟨lexeme, some category⟩ := by
  have hskips : l.plain.preferences.skips category = false :=
    l.discards_plain ⟨lexeme, some category⟩
  rw [accept_of_keeps hskips]
  simp [rename, plain, skipping, withKeywords, Keywords.resolve_empty]

theorem items_plain_of_scan_token (hscan : l.plain.scan s = (.token t, reached)) :
    l.plain.items s = ⟨.token t, reached.tokenSpan⟩ :: l.plain.items reached := by
  apply items_of_item
  rw [Lexer.item, next_plain, hscan]

theorem items_plain_of_scan_bad {lexeme : String} (hscan : l.plain.scan s = (.bad lexeme, reached)) :
    l.plain.items s = ⟨.bad lexeme, reached.tokenSpan⟩ :: l.plain.items reached := by
  apply items_of_item
  rw [Lexer.item, next_plain, hscan]

/-- What a scan of a lexer does, and what it is for the machine alone. -/
theorem scan_plain_cases (l : Lexer) (s : State) :
    (∃ category, l.scan s =
        (.token (l.accept s.metrics (l.traverse s).lexemeText category).1,
          { s.after (l.traverse s) with
            metrics := (l.accept s.metrics (l.traverse s).lexemeText category).2 }) ∧
      l.plain.items s =
        ⟨.token ⟨(l.traverse s).lexemeText, some category⟩, (s.after (l.traverse s)).tokenSpan⟩ ::
          l.plain.items (s.after (l.traverse s))) ∨
    (l.scan s = (.none, s.after (l.traverse s)) ∧ l.plain.scan s = (.none, s.after (l.traverse s))) ∨
    (l.scan s = (.bad (l.traverse s).lexemeText,
        { s.after (l.traverse s) with
          metrics := s.metrics.addBad (l.traverse s).lexeme.length }) ∧
      l.plain.items s =
        ⟨.bad (l.traverse s).lexemeText, (s.after (l.traverse s)).tokenSpan⟩ ::
          l.plain.items (s.after (l.traverse s))) := by
  -- The machine decides how a scan ends, and both lexers have the same machine.
  rcases l.scan_cases s with ⟨category, haccepted, hscan⟩ | ⟨hnone, hhome, hscan⟩ |
    ⟨hnone, haway, hscan⟩
  · left
    have hplain := scan_of_accepted (l := l.plain) haccepted
    rw [accept_plain] at hplain
    refine ⟨category, hscan, (items_plain_of_scan_token hplain).trans ?_⟩
    exact congrArg _ (items_eq rfl rfl)
  · right; left
    refine ⟨hscan, ?_⟩
    rcases l.plain.scan_cases s with ⟨category, haccepted, -⟩ | ⟨-, -, hplain⟩ | ⟨-, haway, -⟩
    · cases hnone.symm.trans haccepted
    · exact hplain
    · exact absurd hhome haway
  · right; right
    refine ⟨hscan, ?_⟩
    rcases l.plain.scan_cases s with ⟨category, haccepted, -⟩ | ⟨-, hhome, -⟩ | ⟨-, -, hplain⟩
    · cases hnone.symm.trans haccepted
    · exact absurd hhome haway
    · refine (items_plain_of_scan_bad hplain).trans ?_
      exact congrArg _ (items_eq rfl rfl)

end Plain

section Counters

def stays (l : Lexer) (t : Token) : Bool := (l.resolve? t).isSome

theorem resolve?_eq (l : Lexer) (t : Token) :
    l.resolve? t = if l.stays t then some (l.rename t) else none := by
  by_cases hgoes : (l.discards t || l.discards (l.rename t)) = true
  · rw [stays, resolve?, if_pos hgoes]
    rfl
  · rw [stays, resolve?, if_neg hgoes]
    rfl

@[simp] theorem discards_none (l : Lexer) (lexeme : String) : l.discards ⟨lexeme, none⟩ = false := rfl

@[simp] theorem rename_none (l : Lexer) (lexeme : String) :
    l.rename ⟨lexeme, none⟩ = ⟨lexeme, none⟩ := rfl

@[simp] theorem stays_none (l : Lexer) (lexeme : String) : l.stays ⟨lexeme, none⟩ = true := rfl

@[simp] theorem rename_some (l : Lexer) (lexeme category : String) :
    l.rename ⟨lexeme, some category⟩ =
      ⟨lexeme, some (l.keywords.resolve category lexeme l.preferences.identifierCategory)⟩ := rfl

@[simp] theorem stays_some (l : Lexer) (lexeme category : String) :
    l.stays ⟨lexeme, some category⟩ = !(l.preferences.skips category || l.preferences.skips
      (l.keywords.resolve category lexeme l.preferences.identifierCategory)) := by
  rw [stays, resolve?, rename_some, discards_some, discards_some]
  cases l.preferences.skips category || l.preferences.skips
    (l.keywords.resolve category lexeme l.preferences.identifierCategory) <;> rfl

/-- A token that is an identifier after the keyword table was asked was one before. -/
theorem category_eq_of_resolve_eq (l : Lexer) (lexeme category : String)
    (hname : l.keywords.resolve category lexeme l.preferences.identifierCategory =
      l.preferences.identifierCategory) : category = l.preferences.identifierCategory := by
  by_contra hne
  rw [Keywords.resolve, if_neg hne] at hname
  exact hne hname

/-- Whether an item of the machine is counted as a token. -/
def records (l : Lexer) (i : Item) : Bool := !i.isUnrecognized && !l.discards i.toToken

def renames (l : Lexer) (t : Token) : Bool := (l.rename t).category != t.category

/-- The category in which an item of the machine is counted. -/
def recordedName? (l : Lexer) (t : Token) : Option String :=
  if l.discards t then none else (l.rename t).category

/-- Metrics with all that items of the machine add to them. -/
def accounted (l : Lexer) (m : Metrics) (items : List (Located Item)) : Metrics where
  recorded := m.recorded + items.countP fun i => l.records i.value
  keywords := m.keywords + items.countP fun i =>
    l.records i.value && l.renames i.value.toToken
  identifiers := m.identifiers + items.countP fun i =>
    l.stays i.value.toToken && (l.rename i.value.toToken).isOf l.preferences.identifierCategory
  bad := m.bad + items.countP fun i => !i.value.isUnrecognized && i.value.toToken.isBad
  unrecognized := m.unrecognized + items.countP fun i => i.value.isUnrecognized
  skipped := m.skipped + items.countP fun i => !l.stays i.value.toToken
  longest := ((items.filter fun i => l.records i.value).map fun i => i.value.toToken.length).foldl
    max m.longest
  tally :=
    if l.preferences.countCategories then
      (items.filterMap fun i => l.recordedName? i.value.toToken).foldl Tally.add m.tally
    else m.tally

theorem accounted_nil (l : Lexer) (m : Metrics) : l.accounted m [] = m := by
  simp [accounted]

theorem accounted_append (l : Lexer) (m : Metrics) (first second : List (Located Item)) :
    l.accounted m (first ++ second) = l.accounted (l.accounted m first) second := by
  by_cases hcount : l.preferences.countCategories
  · simp [accounted, hcount, Nat.add_assoc]
  · simp [accounted, hcount, Nat.add_assoc]

theorem accounted_unrecognized (l : Lexer) (m : Metrics) (c : Char) (span : Span) :
    l.accounted m [⟨.unrecognized c, span⟩] = m.addUnrecognized := by
  simp [accounted, records, recordedName?, renames, Item.isUnrecognized, Item.toToken, Token.bad,
    Token.isOf, Metrics.addUnrecognized]

theorem accounted_bad (l : Lexer) (m : Metrics) (lexeme : String) (span : Span) :
    l.accounted m [⟨.bad lexeme, span⟩] = m.addBad lexeme.length := by
  simp [accounted, records, recordedName?, renames, Item.isUnrecognized, Item.toToken, Token.bad,
    Token.isBad, Token.isOf, Token.length, Metrics.addBad]

/-- Metrics after a token that the machine accepts in a category: it is looked up and counted, and skipped
if its category then is left out. -/
def noted (l : Lexer) (m : Metrics) (lexeme category : String) : Metrics :=
  if l.discards (l.accept m lexeme category).1 then (l.accept m lexeme category).2.addSkipped
  else (l.accept m lexeme category).2

theorem accounted_token (l : Lexer) (m : Metrics) (lexeme category : String) (span : Span) :
    l.accounted m [⟨.token ⟨lexeme, some category⟩, span⟩] = l.noted m lexeme category := by
  cases hskips : l.preferences.skips category with
  | true =>
      simp [accounted, records, recordedName?, discards_some, Item.isUnrecognized, Item.toToken,
        Token.isBad, noted, accept_of_skips hskips, hskips, Metrics.addSkipped]
  | false =>
      have hidentifier := l.category_eq_of_resolve_eq lexeme category
      generalize hname : l.keywords.resolve category lexeme l.preferences.identifierCategory = name
        at hidentifier
      by_cases hsame : name = category
      · simp [accounted, records, recordedName?, renames, discards_some, Item.isUnrecognized,
          Item.toToken, Token.isBad, Token.isOf, Token.length, noted, accept_of_keeps hskips, hname,
          hskips, hsame, Metrics.addToken]
        split <;> rfl
      · have hne : name ≠ l.preferences.identifierCategory :=
          fun hname => hsame (hname.trans (hidentifier hname).symm)
        cases hnamed : l.preferences.skips name with
        | true =>
            simp [accounted, records, recordedName?, renames, discards_some, Item.isUnrecognized,
              Item.toToken, Token.isBad, Token.length, noted, accept_of_keeps hskips, hname, hskips,
              hnamed, hsame, Metrics.addToken, Metrics.addSkipped]
        | false =>
            simp [accounted, records, recordedName?, renames, discards_some, Item.isUnrecognized,
              Item.toToken, Token.isBad, Token.isOf, Token.length, noted, accept_of_keeps hskips, hname,
              hskips, hnamed, hsame, hne, Metrics.addToken]

end Counters

section Forecast

/-- What the metrics are going to be: those of a state, with the items of the machine that are still to
read. -/
def forecast (l : Lexer) (s : State) : Metrics := l.accounted s.metrics (l.plain.items s)

theorem forecast_eq (hrest : reached.rest = s.rest) (hposition : reached.position = s.position) :
    l.forecast reached = l.accounted reached.metrics (l.plain.items s) := by
  rw [forecast, items_eq hrest hposition]

theorem forecast_of_items {i : Located Item} {items : List (Located Item)}
    (hitems : l.plain.items s = i :: items) :
    l.forecast s = l.accounted (l.accounted s.metrics [i]) items := by
  rw [forecast, hitems, ← List.singleton_append, accounted_append]

/-- A scan that gives a token keeps the forecast, if the token is counted as skipped when it is left
out. -/
theorem forecast_of_token (hscan : l.scan s = (.token t, reached)) :
    l.forecast { reached with
      metrics := if l.discards t then reached.metrics.addSkipped else reached.metrics } =
      l.forecast s := by
  rcases l.scan_plain_cases s with ⟨category, hcase, hitems⟩ | ⟨hcase, -⟩ | ⟨hcase, -⟩
  · obtain ⟨htoken, rfl⟩ := Prod.mk.inj (hscan.symm.trans hcase)
    obtain rfl := Outcome.token.inj htoken
    rw [forecast_of_items hitems, accounted_token, noted]
    exact forecast_eq rfl rfl
  · cases hscan.symm.trans hcase
  · cases hscan.symm.trans hcase

theorem forecast_of_bad {lexeme : String} (hscan : l.scan s = (.bad lexeme, reached)) :
    l.forecast reached = l.forecast s := by
  rcases l.scan_plain_cases s with ⟨category, hcase, -⟩ | ⟨hcase, -⟩ | ⟨hcase, hitems⟩
  · cases hscan.symm.trans hcase
  · cases hscan.symm.trans hcase
  · obtain ⟨hlexeme, rfl⟩ := Prod.mk.inj (hscan.symm.trans hcase)
    have hlength : (l.traverse s).lexemeText.length = (l.traverse s).lexeme.length := by
      rw [Traversal.lexemeText, String.length_ofList, List.length_reverse]
    rw [forecast_of_items hitems, accounted_bad, hlength]
    exact forecast_eq rfl rfl

/-- The rounds of a step keep the forecast. -/
theorem PassesOver.forecast_eq (hpasses : l.PassesOver s passed last) :
    l.forecast last = l.forecast s := by
  induction hpasses with
  | refl s => rfl
  | round hscan hdiscards hrest ih =>
      have hround := forecast_of_token hscan
      rw [if_pos hdiscards] at hround
      exact ih.trans hround

/-- Where a scan gives nothing, the machine alone gives nothing, too. -/
theorem scan_plain_of_none (hscan : l.scan s = (.none, reached)) :
    l.plain.scan s = (.none, reached) ∧ reached.metrics = s.metrics := by
  rcases l.scan_plain_cases s with ⟨category, hcase, -⟩ | ⟨hcase, hplain⟩ | ⟨hcase, -⟩
  · cases hscan.symm.trans hcase
  · obtain rfl := (Prod.mk.inj (hscan.symm.trans hcase)).2
    exact ⟨hplain, rfl⟩
  · cases hscan.symm.trans hcase

/-- Taking in an item keeps the forecast. -/
theorem forecast_item (hitem : l.item s = (some item, reached)) :
    l.forecast (reached.counting item) = l.forecast s := by
  obtain ⟨passed, last, hpasses, hnext, hstays⟩ := l.exists_passesOver_next s
  rw [← hpasses.forecast_eq]
  rw [Lexer.item, hnext] at hitem
  cases hscan : l.scan last with
  | mk outcome middle =>
      rw [hscan] at hitem hstays
      cases outcome with
      | token t =>
          obtain ⟨hsome, rfl⟩ := Prod.mk.inj hitem
          obtain rfl := Option.some.inj hsome
          have hkept := forecast_of_token hscan
          rw [hstays t rfl] at hkept
          exact hkept
      | bad lexeme =>
          obtain ⟨hsome, rfl⟩ := Prod.mk.inj hitem
          obtain rfl := Option.some.inj hsome
          exact forecast_of_bad hscan
      | none =>
          obtain ⟨hplain, hsame⟩ := scan_plain_of_none hscan
          have hplainItem : l.plain.item last = (some item, reached) := by
            rw [Lexer.item, next_plain, hplain]
            exact hitem
          cases hrest : middle.rest with
          | nil => simp [State.skip, hrest] at hitem
          | cons c tail =>
              simp only [State.skip, hrest, Prod.mk.injEq, Option.some.injEq] at hitem
              obtain ⟨rfl, rfl⟩ := hitem
              rw [forecast_of_items (items_of_item hplainItem), accounted_unrecognized, ← hsame]
              exact forecast_eq rfl rfl

/-- Where no item is left, the metrics are as forecast. -/
theorem metrics_of_item_eq_none (hitem : l.item s = (none, reached)) :
    reached.metrics = l.forecast s := by
  obtain ⟨passed, last, hpasses, hnext, -⟩ := l.exists_passesOver_next s
  rw [← hpasses.forecast_eq]
  rw [Lexer.item, hnext] at hitem
  cases hscan : l.scan last with
  | mk outcome middle =>
      rw [hscan] at hitem
      cases outcome with
      | token t => cases (Prod.mk.inj hitem).1
      | bad lexeme => cases (Prod.mk.inj hitem).1
      | none =>
          obtain ⟨hplain, hsame⟩ := scan_plain_of_none hscan
          have hplainItem : l.plain.item last = (none, reached) := by
            rw [Lexer.item, next_plain, hplain]
            exact hitem
          rw [forecast, items_of_item_eq_none hplainItem, accounted_nil, ← hsame]
          cases hrest : middle.rest with
          | nil =>
              simp only [State.skip, hrest, Prod.mk.injEq] at hitem
              rw [← hitem.2]
          | cons c tail => simp [State.skip, hrest] at hitem

/-- The metrics of a stream are as forecast. -/
theorem metrics_tokenizeFrom {stream result : TokenStream} {said : List Notice}
    (hok : (l.tokenizeFrom s stream said).1.value = .ok result) :
    (l.tokenizeFrom s stream said).2.metrics = l.forecast s := by
  fun_induction tokenizeFrom l s stream said with
  | case1 s stream said hended =>
      rw [forecast, items_of_rest_eq_nil (List.isEmpty_iff.mp hended), accounted_nil]
  | case2 s stream said hmore hfull e => simp at hok
  | case3 s stream said hmore hroom reached hitem => exact metrics_of_item_eq_none hitem
  | case4 s stream said hmore hroom item reached hitem e herror => simp at hok
  | case5 s stream said hmore hroom item reached hitem hfits ih =>
      exact (ih hok).trans (forecast_item hitem)

/-- The metrics of all items of a text. -/
def counted (l : Lexer) (text : String) : Metrics := l.accounted .zero (l.plainItems text)

/-- The metrics of a stream are those of all items of its text. -/
theorem metrics_tokenize {text : String} {stream : TokenStream}
    (hok : (l.tokenize text).1.value = .ok stream) : (l.tokenize text).2.metrics = l.counted text :=
  metrics_tokenizeFrom hok

end Forecast

end Lexer

end TableLexer
