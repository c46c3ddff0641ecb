import TableLexer.Proofs.Lexer.Forecast
/-!
What metrics account for.  The items of the machine are told apart by what becomes of them: some stay, which
gives the tokens of the stream, some go because of the keyword table, and the others are left out in the
category of the machine.  Each counter counts some of them.
-/

namespace TableLexer

namespace Tally

theorem count_eq (t : Tally) (name : String) : t.count name = t.occurrences[name]?.getD 0 :=
  Std.TreeMap.getD_eq_getD_getElem?

theorem getElem?_add (t : Tally) (category name : String) :
    (t.add category).occurrences[name]? =
      if category = name then some (t.count category + 1) else t.occurrences[name]? := by
  simp [add, Std.TreeMap.getElem?_insert]

theorem getElem?_foldl_add (t : Tally) (names : List String) (name : String) :
    (names.foldl add t).occurrences[name]? =
      if name ∈ names then some (t.count name + names.count name) else t.occurrences[name]? := by
  induction names generalizing t with
  | nil => simp
  | cons first names ih =>
      rw [List.foldl_cons, ih, count_eq, getElem?_add]
      by_cases hfirst : first = name
      · subst hfirst
        by_cases hmem : first ∈ names
        · simp [hmem]
          omega
        · simp [hmem, List.count_eq_zero_of_not_mem hmem]
      · simp [hfirst, Ne.symm hfirst, count_eq]

/-- The tally of a list holds each name of the list with the number of its occurrences. -/
theorem mem_toList_ofList (names : List String) (name : String) (n : Nat) :
    (name, n) ∈ (ofList names).toList ↔ 0 < n ∧ n = names.count name := by
  rw [toList, Std.TreeMap.mem_toList_iff_getElem?_eq_some, ofList, getElem?_foldl_add]
  have hempty : empty.occurrences[name]? = none := by simp [empty]
  rw [count_eq, hempty]
  by_cases hmem : name ∈ names
  · have hcount := List.count_pos_iff.mpr hmem
    simp [hmem]
    omega
  · simp [hmem, List.count_eq_zero_of_not_mem hmem]
    omega

end Tally

namespace Lexer

variable {l : Lexer} {text : String} {stream : TokenStream}

/-- The items of a text that stay. -/
def staying (l : Lexer) (text : String) : List (Located Item) :=
  (l.plainItems text).filter fun i => l.stays i.value.toToken

/-- The items of a text that go because of the keyword table. -/
def lost (l : Lexer) (text : String) : List (Located Item) :=
  (l.plainItems text).filter fun i => l.loses i.value.toToken

/-- The names of the good tokens among items, after the keyword table was asked. -/
def namesOf (l : Lexer) (items : List (Located Item)) : List String :=
  items.filterMap fun i => (l.rename i.value.toToken).category

/-- What the counters of `m` say about a text and its stream.  The stream holds the items that stay, after
the keyword table was asked.  Bad tokens and single characters that begin no token are the bad tokens of the
stream, and all but the single characters are recorded, with the lost ones.  Identifiers are counted by
their category in the stream; keywords are the tokens, lost or not, that have got another category.  The
longest lexeme is 0 if nothing was recorded, and everything that does not stay was skipped. -/
structure Accounts (l : Lexer) (text : String) (stream : TokenStream) (m : Metrics) : Prop where
  stream_eq : stream.toList = (l.staying text).map (Located.map fun i => l.rename i.toToken)
  unrecognized : m.unrecognized = (l.staying text).countP fun i => i.value.isUnrecognized
  bad : m.bad + m.unrecognized = stream.badCount
  recorded : m.recorded = stream.size - m.unrecognized + (l.lost text).length
  identifiers : m.identifiers = (stream.ofCategory l.preferences.identifierCategory).length
  keywords : m.keywords = (l.staying text ++ l.lost text).countP fun i => l.renames i.value.toToken
  tally : ∀ name n, (name, n) ∈ m.tally.toList ↔
    l.preferences.countCategories ∧ 0 < n ∧
      n = (stream.toList.filterMap (·.value.category) ++ l.namesOf (l.lost text)).count name
  longest : m.longest = (((l.staying text).filter (fun i => !i.value.isUnrecognized) ++
    l.lost text).map fun i => i.value.toToken.length).max?.getD 0
  skipped : m.skipped = (l.plainItems text).countP fun i => !l.stays i.value.toToken

/-- The tokens of a stream are the items that stay, after the keyword table was asked. -/
theorem toList_eq_staying (hok : (l.tokenize text).1.value = .ok stream) :
    stream.toList = (l.staying text).map (Located.map fun i => l.rename i.toToken) := by
  have hplain : l.plain.Reading .start text.toList
      ((l.plainItems text).map (Located.map Item.toToken)) := l.plain.reading_items (.ofText text)
  rw [(reading_of_tokenize hok).unique (l.reworks_resolve?.reading hplain), List.filterMap_map,
    staying, ← List.filterMap_eq_map, List.filterMap_filter]
  congr 1
  funext i
  simp only [Function.comp_apply, Located.filterMap?, Located.map, resolve?_eq]
  cases l.stays i.value.toToken <;> rfl

/-- What can become of a token of the machine: it is left out in its category, or it stays, or the keyword
table makes it go. -/
theorem discards_or_stays_or_loses (l : Lexer) (t : Token) :
    (l.discards t = true ∧ l.stays t = false ∧ l.loses t = false) ∨
    (l.discards t = false ∧ l.stays t = true ∧ l.loses t = false) ∨
    (l.discards t = false ∧ l.stays t = false ∧ l.loses t = true) := by
  cases hdiscards : l.discards t with
  | true => simp [stays, resolve?, loses, hdiscards]
  | false =>
      have hrename := discards_rename_iff hdiscards
      cases hloses : l.loses t with
      | true =>
          have hskips : l.discards (l.rename t) = true := hrename.mpr hloses
          simp [stays, resolve?, hskips]
      | false =>
          have hkeeps : l.discards (l.rename t) = false := by simpa [hloses] using hrename
          simp [stays, resolve?, hdiscards, hkeeps]

/-- A character that begins no token stays. -/
theorem stays_of_isUnrecognized {i : Item} (hunrecognized : i.isUnrecognized) :
    l.stays i.toToken = true := by
  cases i with
  | token t => cases hunrecognized
  | bad lexeme => rfl
  | unrecognized c => rfl

/-- Those that are not left out in their category are those that stay and those that go because of the
keyword table. -/
theorem staying_append_lost_perm (l : Lexer) (text : String) :
    (l.staying text ++ l.lost text).Perm
      ((l.plainItems text).filter fun i => !l.discards i.value.toToken) := by
  have hperm := List.filter_append_perm (fun i => l.stays i.value.toToken)
    ((l.plainItems text).filter fun i => !l.discards i.value.toToken)
  rw [List.filter_filter, List.filter_filter] at hperm
  have hstaying : l.staying text = (l.plainItems text).filter fun i =>
      l.stays i.value.toToken && !l.discards i.value.toToken := by
    apply List.filter_congr
    intro i _
    rcases l.discards_or_stays_or_loses i.value.toToken with
      ⟨hd, hs, -⟩ | ⟨hd, hs, -⟩ | ⟨hd, hs, -⟩ <;> simp [hd, hs]
  have hlost : l.lost text = (l.plainItems text).filter fun i =>
      !l.stays i.value.toToken && !l.discards i.value.toToken := by
    apply List.filter_congr
    intro i _
    rcases l.discards_or_stays_or_loses i.value.toToken with
      ⟨hd, hs, hl⟩ | ⟨hd, hs, hl⟩ | ⟨hd, hs, hl⟩ <;> simp [hd, hs, hl]
  rwa [hstaying, hlost]

/-- The ones among them that are counted as tokens. -/
theorem recorded_perm (l : Lexer) (text : String) :
    ((l.staying text).filter (fun i => !i.value.isUnrecognized) ++ l.lost text).Perm
      ((l.plainItems text).filter fun i => l.records i.value) := by
  have hlost : (l.lost text).filter (fun i => !i.value.isUnrecognized) = l.lost text := by
    apply List.filter_eq_self.mpr
    intro i hmem
    have hloses : l.loses i.value.toToken = true := (List.mem_filter.mp hmem).2
    cases hunrecognized : i.value.isUnrecognized with
    | false => rfl
    | true =>
        have hstays : l.stays i.value.toToken = true := stays_of_isUnrecognized hunrecognized
        rcases l.discards_or_stays_or_loses i.value.toToken with
          ⟨-, -, hkeeps⟩ | ⟨-, -, hkeeps⟩ | ⟨-, hgoes, -⟩
        · cases hloses.symm.trans hkeeps
        · cases hloses.symm.trans hkeeps
        · cases hstays.symm.trans hgoes
  have hperm := (l.staying_append_lost_perm text).filter fun i => !i.value.isUnrecognized
  rwa [List.filter_append, hlost, List.filter_filter] at hperm

/-- Two counts make up a third, if they do so for each element. -/
theorem countP_add_countP {α : Type} {p q r : α → Bool} {xs : List α}
    (hsum : ∀ x, (p x).toNat + (q x).toNat = (r x).toNat) :
    xs.countP p + xs.countP q = xs.countP r := by
  induction xs with
  | nil => rfl
  | cons x xs ih =>
      have hx := hsum x
      cases hp : p x <;> cases hq : q x <;> cases hr : r x <;> simp [hp, hq, hr] at hx ⊢ <;> omega

/-- A token stays a good one, or a bad one, when the keyword table is asked. -/
theorem isBad_rename (l : Lexer) (t : Token) : (l.rename t).isBad = t.isBad := (l.rename_keeps t).2

section Counters

theorem unrecognized_counted (l : Lexer) (text : String) :
    (l.counted text).unrecognized = (l.staying text).countP fun i => i.value.isUnrecognized := by
  simp only [counted, accounted, Metrics.zero, Nat.zero_add, staying, List.countP_filter]
  apply List.countP_congr
  intro i _
  simpa using stays_of_isUnrecognized

/-- Neither bad tokens nor characters that begin no token are keywords. -/
theorem keywords_counted (l : Lexer) (text : String) :
    (l.counted text).keywords =
      (l.staying text ++ l.lost text).countP fun i => l.renames i.value.toToken := by
  rw [(l.staying_append_lost_perm text).countP_eq, List.countP_filter]
  simp only [counted, accounted, Metrics.zero, Nat.zero_add]
  apply List.countP_congr
  intro i _
  cases i.value with
  | token t => simp [records, Item.isUnrecognized, and_comm]
  | bad lexeme => simp [renames, Item.toToken, Token.bad]
  | unrecognized c => simp [renames, Item.toToken, Token.bad]

/-- Characters that begin no token are not left out, and they are not recorded. -/
theorem recorded_add_unrecognized (l : Lexer) (text : String) :
    (l.counted text).recorded + (l.counted text).unrecognized =
      (l.staying text).length + (l.lost text).length := by
  have hlength := (l.staying_append_lost_perm text).length_eq
  rw [List.length_append, ← List.countP_eq_length_filter] at hlength
  rw [hlength]
  simp only [counted, accounted, Metrics.zero, Nat.zero_add]
  apply countP_add_countP
  intro i
  cases i.value with
  | token t => simp [records, Item.isUnrecognized]
  | bad lexeme => rfl
  | unrecognized c => rfl

theorem longest_counted (l : Lexer) (text : String) :
    (l.counted text).longest = (((l.staying text).filter (fun i => !i.value.isUnrecognized) ++
      l.lost text).map fun i => i.value.toToken.length).max?.getD 0 := by
  have hperm := (l.recorded_perm text).map fun i => i.value.toToken.length
  have hgreatest := List.foldl_max (l := ((l.staying text).filter (fun i =>
    !i.value.isUnrecognized) ++ l.lost text).map fun i => i.value.toToken.length) (a := 0)
  rw [hperm.foldl_eq, Nat.zero_max] at hgreatest
  exact hgreatest

end Counters

section Stream

variable (hok : (l.tokenize text).1.value = .ok stream)

include hok

theorem size_eq : stream.size = (l.staying text).length := by
  rw [← stream.length_toList, toList_eq_staying hok, List.length_map]

/-- What is counted in a stream are items that stay. -/
theorem countP_toList (p : Token → Bool) :
    stream.toList.countP (fun t => p t.value) =
      (l.plainItems text).countP fun i => p (l.rename i.value.toToken) && l.stays i.value.toToken := by
  rw [toList_eq_staying hok, List.countP_map, staying, List.countP_filter]
  rfl

theorem badCount_eq :
    stream.badCount = (l.plainItems text).countP fun i => i.value.toToken.isBad := by
  rw [TokenStream.badCount, TokenStream.bad, ← List.countP_eq_length_filter, countP_toList hok]
  apply List.countP_congr
  intro i _
  rw [isBad_rename]
  cases hcategory : i.value.toToken with
  | mk lexeme category =>
      cases category with
      | none => simp
      | some category => simp [Token.isBad]

/-- The bad tokens of a stream are the ones recorded, and the characters that begin no token. -/
theorem bad_add_unrecognized :
    (l.counted text).bad + (l.counted text).unrecognized = stream.badCount := by
  simp only [counted, accounted, Metrics.zero, Nat.zero_add]
  rw [badCount_eq hok]
  apply countP_add_countP
  intro i
  cases i.value with
  | token t => simp [Item.isUnrecognized]
  | bad lexeme => rfl
  | unrecognized c => rfl

theorem recorded_counted :
    (l.counted text).recorded =
      stream.size - (l.counted text).unrecognized + (l.lost text).length := by
  have hall := l.recorded_add_unrecognized text
  have hle : (l.counted text).unrecognized ≤ stream.size := by
    rw [unrecognized_counted, size_eq hok]
    exact List.countP_le_length
  rw [← size_eq hok] at hall
  omega

theorem identifiers_counted :
    (l.counted text).identifiers = (stream.ofCategory l.preferences.identifierCategory).length := by
  simp only [counted, accounted, Metrics.zero, Nat.zero_add]
  rw [TokenStream.ofCategory, ← List.countP_eq_length_filter,
    countP_toList hok fun t => t.isOf l.preferences.identifierCategory]
  simp only [Bool.and_comm]

/-- The names in a stream and of the items that are lost are those under which tokens were counted. -/
theorem names_perm :
    (stream.toList.filterMap (·.value.category) ++ l.namesOf (l.lost text)).Perm
      ((l.plainItems text).filterMap fun i => l.recordedName? i.value.toToken) := by
  have hnames : stream.toList.filterMap (·.value.category) = l.namesOf (l.staying text) := by
    rw [toList_eq_staying hok, List.filterMap_map]
    rfl
  have hcounted : ((l.plainItems text).filterMap fun i => l.recordedName? i.value.toToken) =
      l.namesOf ((l.plainItems text).filter fun i => !l.discards i.value.toToken) := by
    rw [namesOf, List.filterMap_filter]
    congr 1
    funext i
    rw [recordedName?]
    cases l.discards i.value.toToken <;> rfl
  have hperm := (l.staying_append_lost_perm text).filterMap fun i =>
    (l.rename i.value.toToken).category
  rw [List.filterMap_append] at hperm
  rw [hnames, hcounted]
  exact hperm

theorem mem_tally_counted_iff (name : String) (n : Nat) :
    (name, n) ∈ (l.counted text).tally.toList ↔ l.preferences.countCategories ∧ 0 < n ∧
      n = (stream.toList.filterMap (·.value.category) ++ l.namesOf (l.lost text)).count name := by
  cases hcounts : l.preferences.countCategories with
  | false => simp [counted, accounted, hcounts, Metrics.zero, Tally.toList, Tally.empty]
  | true =>
      have htally : (l.counted text).tally =
          .ofList ((l.plainItems text).filterMap fun i => l.recordedName? i.value.toToken) :=
        if_pos hcounts
      rw [htally, Tally.mem_toList_ofList, (names_perm hok).count_eq, eq_self_iff_true, true_and]

end Stream

/-- The metrics of a stream account for its tokens and for the lost ones. -/
theorem accounts_metrics_tokenize (hok : (l.tokenize text).1.value = .ok stream) :
    l.Accounts text stream (l.tokenize text).2.metrics := by
  rw [metrics_tokenize hok]
  exact {
    stream_eq := toList_eq_staying hok
    unrecognized := l.unrecognized_counted text
    bad := bad_add_unrecognized hok
    recorded := recorded_counted hok
    identifiers := identifiers_counted hok
    keywords := l.keywords_counted text
    tally := mem_tally_counted_iff hok
    longest := l.longest_counted text
    skipped := Nat.zero_add _ }

/-- A keyword that is left out, and an identifier that stays. -/
theorem accounts_metrics_conditional :
    ∃ stream, ((conditional.skipping ["If"]).tokenize "if x").1.value = .ok stream ∧
      (conditional.skipping ["If"]).Accounts "if x" stream
        ((conditional.skipping ["If"]).tokenize "if x").2.metrics :=
  ⟨_, tokenize_conditional ["If"], accounts_metrics_tokenize (tokenize_conditional ["If"])⟩

end Lexer

end TableLexer
