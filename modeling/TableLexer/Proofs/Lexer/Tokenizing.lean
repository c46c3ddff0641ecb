import TableLexer.Proofs.Lexer.Reading
/-!
Tokenizing gives the reading of a text.  Each operation of a lexer puts what it finds before a
reading of what it leaves: a scan at most one token, a step the token of its outcome, an item exactly
one token.  The loop over items then gathers a whole reading, unless a limit stops it.
-/

namespace TableLexer.Lexer

/-- A step passes over tokens that are left out and then reads what its outcome says. -/
theorem reading_of_next {l : Lexer} {s reached : State} {outcome : Outcome}
    {tokens : List (Located Token)} (hnext : l.next s = (outcome, reached))
    (hrest : l.Reading reached.position reached.rest tokens) :
    l.Reading s.position s.rest
      ((outcome.token?.map fun token => ⟨token, reached.tokenSpan⟩).toList ++ tokens) := by
  fun_induction next l s with
  | case1 s token middle hscan hdiscards ih =>
      have hreading := reading_of_scan hscan (ih hnext)
      rwa [kept_of_discards hdiscards, List.nil_append] at hreading
  | case2 s token middle hscan hkeeps =>
      obtain ⟨rfl, rfl⟩ := Prod.mk.inj hnext
      have hreading := reading_of_scan hscan hrest
      rwa [kept_of_not_discards hkeeps] at hreading
  | case3 s lexeme middle hscan =>
      obtain ⟨rfl, rfl⟩ := Prod.mk.inj hnext
      have hreading := reading_of_scan hscan hrest
      rwa [kept_bad] at hreading
  | case4 s middle hscan =>
      obtain ⟨rfl, rfl⟩ := Prod.mk.inj hnext
      have hreading := reading_of_scan hscan hrest
      rwa [kept_none] at hreading

/-- A step without a token halts where no token begins. -/
theorem stuck_of_next_eq_none {l : Lexer} {s reached : State} {c : Char} {tail : List Char}
    (hnext : l.next s = (.none, reached)) (hrest : reached.rest = c :: tail) :
    l.machine.transition? l.entry c = none := by
  fun_induction next l s with
  | case1 s token middle hscan hdiscards ih => exact ih hnext
  | case2 s token middle hscan hkeeps => simp at hnext
  | case3 s lexeme middle hscan => simp at hnext
  | case4 s middle hscan =>
      obtain ⟨-, rfl⟩ := Prod.mk.inj hnext
      exact stuck_of_scan_eq_none hscan hrest

/-- An item is one token of the reading, where no token begins a bad one for one character. -/
theorem reading_of_item {l : Lexer} {s reached : State} {item : Item}
    {tokens : List (Located Token)} (hitem : l.item s = (some item, reached))
    (hrest : l.Reading reached.position reached.rest tokens) :
    l.Reading s.position s.rest (⟨item.toToken, reached.tokenSpan⟩ :: tokens) := by
  unfold Lexer.item at hitem
  split at hitem
  next token middle hnext =>
    obtain ⟨hsome, rfl⟩ := Prod.mk.inj hitem
    obtain rfl := Option.some.inj hsome
    exact reading_of_next hnext hrest
  next lexeme middle hnext =>
    obtain ⟨hsome, rfl⟩ := Prod.mk.inj hitem
    obtain rfl := Option.some.inj hsome
    exact reading_of_next hnext hrest
  next middle hnext =>
    cases hmiddle : middle.rest with
    | nil => simp [State.skip, hmiddle] at hitem
    | cons c tail =>
        simp only [State.skip, hmiddle, Prod.mk.injEq, Option.some.injEq] at hitem
        obtain ⟨rfl, rfl⟩ := hitem
        have hstuck := stuck_of_next_eq_none hnext hmiddle
        refine reading_of_next hnext ?_
        rw [hmiddle]
        exact .of_stuck hstuck hrest

theorem reading_of_item_eq_none {l : Lexer} {s reached : State}
    (hitem : l.item s = (none, reached)) : l.Reading s.position s.rest [] := by
  unfold Lexer.item at hitem
  split at hitem
  next token middle hnext => simp at hitem
  next lexeme middle hnext => simp at hitem
  next middle hnext =>
    refine reading_of_next hnext ?_
    cases hmiddle : middle.rest with
    | nil => exact .nil l middle.position
    | cons c tail => simp [State.skip, hmiddle] at hitem

theorem length_rest_of_item {l : Lexer} {s reached : State} {item : Item}
    (hitem : l.item s = (some item, reached)) : reached.rest.length < s.rest.length := by
  have hread := l.length_rest_item_lt s
  rw [hitem] at hread
  exact hread (Option.some_ne_none item)

/-- Every text has a reading, from any state of a lexer on. -/
theorem exists_reading (l : Lexer) (s : State) :
    ∃ tokens, l.Reading s.position s.rest tokens := by
  induction hlength : s.rest.length using Nat.strongRecOn generalizing s with
  | ind n ih =>
      cases hitem : l.item s with
      | mk found reached =>
          cases found with
          | none => exact ⟨[], reading_of_item_eq_none hitem⟩
          | some item =>
              have hshorter := length_rest_of_item hitem
              obtain ⟨tokens, hrest⟩ := ih reached.rest.length (by omega) reached rfl
              exact ⟨_, reading_of_item hitem hrest⟩

/-- A limit is in the way of `tokens` when `count` tokens are there before them: there are too many,
or a good one is too long. -/
def ExceedsLimits (count : Nat) (tokens : List (Located Token)) : Prop :=
  limits.tokens ≤ count + tokens.length ∨
    ∃ token ∈ tokens, token.value.isBad = false ∧ limits.lexemeLength < token.value.length

theorem ExceedsLimits.cons {count : Nat} {tokens : List (Located Token)}
    (hexceeds : ExceedsLimits (count + 1) tokens) (token : Located Token) :
    ExceedsLimits count (token :: tokens) := by
  rcases hexceeds with hmany | ⟨long, hmem, hgood, hlong⟩
  · left
    rw [List.length_cons]
    omega
  · exact .inr ⟨long, List.mem_cons_of_mem token hmem, hgood, hlong⟩

theorem isBad_of_scan_eq_token {l : Lexer} {s reached : State} {token : Token}
    (hscan : l.scan s = (.token token, reached)) : token.isBad = false := by
  rcases l.scan_cases s with ⟨category, _, hcase⟩ | ⟨_, _, hcase⟩ | ⟨_, _, hcase⟩
  · obtain ⟨htoken, -⟩ := Prod.mk.inj (hscan.symm.trans hcase)
    obtain rfl := Outcome.token.inj htoken
    unfold accept
    split <;> rfl
  · simp [hcase] at hscan
  · simp [hcase] at hscan

/-- The tokens of a step are good ones. -/
theorem isBad_of_next_eq_token {l : Lexer} {s reached : State} {token : Token}
    (hnext : l.next s = (.token token, reached)) : token.isBad = false := by
  fun_induction next l s with
  | case1 s token middle hscan hdiscards ih => exact ih hnext
  | case2 s token middle hscan hkeeps =>
      obtain ⟨htoken, -⟩ := Prod.mk.inj hnext
      obtain rfl := Outcome.token.inj htoken
      exact isBad_of_scan_eq_token hscan
  | case3 s lexeme middle hscan => simp at hnext
  | case4 s middle hscan => simp at hnext

/-- The tokens of items are good ones. -/
theorem isBad_of_item_eq_token {l : Lexer} {s reached : State} {token : Token}
    (hitem : l.item s = (some (.token token), reached)) : token.isBad = false := by
  unfold Lexer.item at hitem
  split at hitem
  next _ middle hnext =>
    obtain ⟨hsome, rfl⟩ := Prod.mk.inj hitem
    obtain rfl := Item.token.inj (Option.some.inj hsome)
    exact isBad_of_next_eq_token hnext
  next lexeme middle hnext => simp at hitem
  next middle hnext =>
    cases hmiddle : middle.rest <;> simp [State.skip, hmiddle] at hitem

/-- An item that ends the stream early is a good token, and too long. -/
theorem too_long_of_itemError? {l : Lexer} {s reached : State} {found : Item} {e : LexerError}
    (hitem : l.item s = (some found, reached)) (herror : itemError? found = some e) :
    found.toToken.isBad = false ∧ limits.lexemeLength < found.toToken.length := by
  cases found with
  | token token =>
      refine ⟨isBad_of_item_eq_token hitem, ?_⟩
      by_cases hlong : limits.lexemeLength < token.length
      · exact hlong
      · simp [itemError?, hlong] at herror
  | bad lexeme => simp [itemError?] at herror
  | unrecognized c => simp [itemError?] at herror

/-- The loop over items appends a reading of what is still to read, or a limit is in the way. -/
theorem exists_reading_tokenizeFrom (l : Lexer) (s : State) (stream : TokenStream)
    (said : List Notice) :
    ∃ tokens, l.Reading s.position s.rest tokens ∧
      ((l.tokenizeFrom s stream said).1.value =
          .ok { stream with tokens := stream.tokens ++ tokens.toArray } ∨
        ExceedsLimits stream.size tokens ∧
          ∃ e, (l.tokenizeFrom s stream said).1.value = .error e) := by
  fun_induction tokenizeFrom l s stream said with
  | case1 s stream said hended =>
      rw [List.isEmpty_iff.mp hended]
      exact ⟨[], .nil l s.position, .inl (by simp)⟩
  | case2 s stream said hmore hfull e =>
      obtain ⟨tokens, hreading⟩ := l.exists_reading s
      exact ⟨tokens, hreading, .inr ⟨.inl (by omega), e, rfl⟩⟩
  | case3 s stream said hmore hroom reached hitem =>
      exact ⟨[], reading_of_item_eq_none hitem, .inl (by simp)⟩
  | case4 s stream said hmore hroom found reached hitem e herror =>
      obtain ⟨tokens, hrest⟩ := l.exists_reading reached
      have hlong := too_long_of_itemError? hitem herror
      exact ⟨_, reading_of_item hitem hrest,
        .inr ⟨.inr ⟨_, List.mem_cons_self, hlong⟩, e, rfl⟩⟩
  | case5 s stream said hmore hroom found reached hitem hfits ih =>
      obtain ⟨tokens, hrest, hvalue⟩ := ih
      have hcounting : (reached.counting found).position = reached.position ∧
          (reached.counting found).rest = reached.rest := by
        cases found <;> exact ⟨rfl, rfl⟩
      rw [hcounting.1, hcounting.2] at hrest
      refine ⟨_, reading_of_item hitem hrest, ?_⟩
      rcases hvalue with hvalue | ⟨hexceeds, e, hvalue⟩
      · left
        rw [hvalue]
        simp [TokenStream.push]
      · refine .inr ⟨ExceedsLimits.cons ?_ _, e, hvalue⟩
        simpa [TokenStream.push, TokenStream.size] using hexceeds

/-- Every text has exactly one reading.  A stream that tokenizing gives holds its tokens, and
tokenizing gives this stream unless there are as many tokens as the limit or a good token is too
long. -/
theorem tokenize_reading (l : Lexer) (text : String) :
    ∃ tokens, (∀ other, l.Reading .start text.toList other ↔ other = tokens) ∧
      (∀ stream, (l.tokenize text).1.value = .ok stream → stream = ⟨tokens.toArray, 0⟩) ∧
      (¬ ExceedsLimits 0 tokens → (l.tokenize text).1.value = .ok ⟨tokens.toArray, 0⟩) := by
  obtain ⟨tokens, hreading, hvalue⟩ :=
    l.exists_reading_tokenizeFrom (.ofText text) .empty [l.startNotice text]
  change (l.tokenize text).1.value = .ok ⟨#[] ++ tokens.toArray, 0⟩ ∨ ExceedsLimits 0 tokens ∧
    ∃ e, (l.tokenize text).1.value = .error e at hvalue
  rw [Array.empty_append] at hvalue
  refine ⟨tokens, ?_, ?_, ?_⟩
  · intro other
    constructor
    · exact fun hother => hother.unique hreading
    · rintro rfl
      exact hreading
  · intro stream hstream
    rcases hvalue with hok | ⟨-, e, herror⟩
    · rw [hok] at hstream
      exact (Except.ok.inj hstream).symm
    · simp [herror] at hstream
  · intro hfits
    rcases hvalue with hok | ⟨hexceeds, -⟩
    · exact hok
    · exact absurd hexceeds hfits

end TableLexer.Lexer
