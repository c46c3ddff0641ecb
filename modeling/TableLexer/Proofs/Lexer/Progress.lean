import TableLexer.Proofs.Lexer.Items
/-!
Progress.  A step reads what it leaves out and then the lexeme of its token, which is not empty; it stops
without a token only at the end of the program or where no token begins.  So the characters still to read
bound how often the loops go around, and how many tokens are recorded.
-/

namespace TableLexer.Lexer

variable {l : Lexer} {s reached : State}

/-- `reached` comes after `s` when the characters of `passed` and then those of `lexeme` are read. -/
structure State.Reads (s reached : State) (passed lexeme : List Char) : Prop where
  splits : s.rest = passed ++ lexeme ++ reached.rest
  position_eq : reached.position = s.position.past (passed ++ lexeme)

/-- Reading goes on where it stopped. -/
theorem State.Reads.trans {middle : State} {first second passed lexeme : List Char}
    (hfirst : s.Reads middle first second) (hsecond : middle.Reads reached passed lexeme) :
    s.Reads reached (first ++ second ++ passed) lexeme where
  splits := by rw [hfirst.splits, hsecond.splits]; simp only [List.append_assoc]
  position_eq := by
    rw [hsecond.position_eq, hfirst.position_eq, ← Position.past_append]
    simp only [List.append_assoc]

theorem State.Reads.offset_eq {passed lexeme : List Char} (hreads : s.Reads reached passed lexeme) :
    reached.position.offset = s.position.offset + (passed.length + lexeme.length) := by
  rw [hreads.position_eq, Position.offset_past, List.length_append]

/-- A scan reads round trips and then a lexeme, which is that of its token and not empty. -/
theorem exists_reads_scan (l : Lexer) (s : State) :
    ∃ trip lexeme, s.Reads (l.scan s).2 trip lexeme ∧
      ∀ t, (l.scan s).1.token? = some t → t.lexeme.toList = lexeme ∧ lexeme ≠ [] := by
  obtain ⟨trip, hreads, -⟩ := l.exists_reads_traverse s
  refine ⟨trip, (l.traverse s).lexeme.reverse, ?_⟩
  rcases l.scan_cases s with ⟨category, haccepted, hscan⟩ | ⟨-, -, hscan⟩ | ⟨-, haway, hscan⟩
  · refine ⟨by rw [hscan]; exact ⟨hreads.splits, hreads.stop_eq⟩, fun t htoken => ?_⟩
    obtain ⟨name, haccept⟩ := l.exists_category_accept s.metrics (l.traverse s).lexemeText category
    rw [hscan, haccept] at htoken
    obtain rfl := Option.some.inj htoken
    exact ⟨String.toList_ofList, List.reverse_ne_nil_iff.mpr
      (Traversal.lexeme_ne_nil_of_accepted? haccepted)⟩
  · refine ⟨by rw [hscan]; exact ⟨hreads.splits, hreads.stop_eq⟩, fun t htoken => ?_⟩
    simp [hscan, Outcome.token?] at htoken
  · refine ⟨by rw [hscan]; exact ⟨hreads.splits, hreads.stop_eq⟩, fun t htoken => ?_⟩
    rw [hscan] at htoken
    obtain rfl := Option.some.inj htoken
    exact ⟨String.toList_ofList, List.reverse_ne_nil_iff.mpr (hreads.lexeme_ne_nil haway)⟩

/-- A step passes over what it leaves out and then reads a lexeme, which is that of its token and not
empty. -/
theorem exists_reads_next (l : Lexer) (s : State) :
    ∃ passed lexeme, s.Reads (l.next s).2 passed lexeme ∧
      ∀ t, (l.next s).1.token? = some t → t.lexeme.toList = lexeme ∧ lexeme ≠ [] := by
  fun_induction next l s with
  | case1 s t reached hscan hdiscards ih =>
      obtain ⟨trip, skipped, hfirst, -⟩ := l.exists_reads_scan s
      rw [hscan] at hfirst
      obtain ⟨passed, lexeme, hsecond, htoken⟩ := ih
      have hskipped : s.Reads { reached with metrics := reached.metrics.addSkipped } trip skipped :=
        ⟨hfirst.splits, hfirst.position_eq⟩
      exact ⟨_, _, hskipped.trans hsecond, htoken⟩
  | case2 s t reached hscan | case3 s lexeme reached hscan | case4 s reached hscan =>
      have hreads := l.exists_reads_scan s
      rwa [hscan] at hreads

/-- The step with at most `n` scans; no result if they are not enough. -/
def nextWithin (l : Lexer) : Nat → State → Option (Outcome × State)
  | 0, _ => none
  | n + 1, s =>
    match l.scan s with
    | (.token t, reached) =>
      if l.discards t then l.nextWithin n { reached with metrics := reached.metrics.addSkipped }
      else some (.token t, reached)
    | (.bad lexeme, reached) => some (.bad lexeme, reached)
    | (.none, reached) => some (.none, reached)

/-- More scans than there are characters are always enough: each but the last one reads a lexeme that is
left out. -/
theorem nextWithin_eq {n : Nat} (hbound : s.rest.length < n) : l.nextWithin n s = some (l.next s) := by
  obtain ⟨n, rfl⟩ := Nat.exists_eq_succ_of_ne_zero (Nat.ne_zero_of_lt hbound)
  fun_induction next l s generalizing n with
  | case1 s t reached hscan hdiscards ih =>
      have hread := l.length_rest_scan_lt s
      rw [hscan] at hread
      have hshorter : reached.rest.length < n := Nat.lt_of_lt_of_le (hread Outcome.noConfusion)
        (Nat.le_of_lt_succ hbound)
      obtain ⟨n, rfl⟩ := Nat.exists_eq_succ_of_ne_zero (Nat.ne_zero_of_lt hshorter)
      rw [nextWithin, hscan]
      simp only [hdiscards, if_true]
      exact ih n hshorter
  | case2 s t reached hscan hkeeps =>
      rw [nextWithin, hscan]
      simp only [hkeeps]
      rfl
  | case3 s lexeme reached hscan | case4 s reached hscan => rw [nextWithin, hscan]

/-- The item of the outcome of a step. -/
def itemAfter : Outcome × State → Option Item × State
  | (.token t, reached) => (some (.token t), reached)
  | (.bad lexeme, reached) => (some (.bad lexeme), reached)
  | (.none, reached) => (reached.skip.1.map .unrecognized, reached.skip.2)

theorem itemAfter_next (l : Lexer) (s : State) : itemAfter (l.next s) = l.item s := by
  unfold Lexer.item
  cases l.next s with
  | mk outcome reached =>
      cases outcome with
      | token t => rfl
      | bad lexeme => rfl
      | none => cases hrest : reached.rest <;> simp [itemAfter, State.skip, hrest]

theorem itemWithin_eq {n : Nat} (hbound : s.rest.length < n) :
    (l.nextWithin n s).map itemAfter = some (l.item s) := by
  rw [nextWithin_eq hbound, Option.map_some, itemAfter_next]

/-- The loop over items with at most `n` rounds, and at most `n` scans in each; no result if they are not
enough. -/
def tokenizeWithin (l : Lexer) : Nat → State → TokenStream → List Notice →
    Option (Logged (Except LexerError TokenStream) × State)
  | 0, _, _, _ => none
  | n + 1, s, stream, said =>
    if s.rest.isEmpty then some (⟨.ok stream, (doneNotice stream s.metrics :: said).reverse⟩, s)
    else if limits.tokens ≤ stream.size then
      let e := LexerError.tooManyTokens stream.size
      some (⟨.error e, (tooManyNotice e s.tokenSpan :: said).reverse⟩, s)
    else
      match (l.nextWithin (n + 1) s).map itemAfter with
      | none => none
      | some (none, reached) =>
        some (⟨.ok stream, (doneNotice stream reached.metrics :: said).reverse⟩, reached)
      | some (some item, reached) =>
        match itemError? item with
        | some e => some (⟨.error e, (tooLongNotice e reached.tokenSpan :: said).reverse⟩, reached)
        | none =>
          l.tokenizeWithin n (reached.counting item) (stream.push ⟨item.toToken, reached.tokenSpan⟩)
            (l.itemNotices item reached.tokenSpan ++ said)

/-- More rounds than there are characters are always enough: each but the last one reads an item. -/
theorem tokenizeWithin_eq {n : Nat} {stream : TokenStream} {said : List Notice}
    (hbound : s.rest.length < n) :
    l.tokenizeWithin n s stream said = some (l.tokenizeFrom s stream said) := by
  obtain ⟨n, rfl⟩ := Nat.exists_eq_succ_of_ne_zero (Nat.ne_zero_of_lt hbound)
  fun_induction tokenizeFrom l s stream said generalizing n with
  | case1 s stream said hended => rw [tokenizeWithin, if_pos hended]
  | case2 s stream said hmore hfull e => rw [tokenizeWithin, if_neg hmore, if_pos hfull]
  | case3 s stream said hmore hroom reached hnone =>
      rw [tokenizeWithin, if_neg hmore, if_neg hroom, itemWithin_eq hbound, hnone]
  | case4 s stream said hmore hroom item reached hsome e herror =>
      rw [tokenizeWithin, if_neg hmore, if_neg hroom, itemWithin_eq hbound, hsome]
      simp only [herror]
  | case5 s stream said hmore hroom item reached hsome hfits ih =>
      have hshorter : (reached.counting item).rest.length < n := by
        rw [rest_counting]
        exact Nat.lt_of_lt_of_le (length_rest_of_item hsome) (Nat.le_of_lt_succ hbound)
      obtain ⟨n, rfl⟩ := Nat.exists_eq_succ_of_ne_zero (Nat.ne_zero_of_lt hshorter)
      rw [tokenizeWithin, if_neg hmore, if_neg hroom, itemWithin_eq hbound, hsome]
      simp only [hfits]
      exact ih n hshorter

/-- What was recorded, what was not recognized, and what is still to read. -/
def State.weight (s : State) : Nat :=
  s.metrics.recorded + s.metrics.unrecognized + s.rest.length

theorem recorded_accept_le (l : Lexer) (metrics : Metrics) (lexeme category : String) :
    (l.accept metrics lexeme category).2.recorded ≤ metrics.recorded + 1 := by
  unfold accept
  split
  · exact Nat.le_succ _
  · exact Nat.le_refl _

/-- A token that a scan records was read. -/
theorem weight_scan_le (l : Lexer) (s : State) : (l.scan s).2.weight ≤ s.weight := by
  have hstays := l.length_rest_scan_le s
  have hreads := l.length_rest_scan_lt s
  have hunrecognized := l.unrecognized_scan s
  rcases l.scan_cases s with ⟨category, -, hscan⟩ | ⟨-, -, hscan⟩ | ⟨-, -, hscan⟩
  · have hrecorded := l.recorded_accept_le s.metrics (l.traverse s).lexemeText category
    rw [hscan] at hreads hunrecognized ⊢
    have hread := hreads Outcome.noConfusion
    simp only [State.weight] at hread hunrecognized hrecorded ⊢
    omega
  · rw [hscan] at hstays ⊢
    exact Nat.add_le_add_left hstays _
  · rw [hscan] at hreads ⊢
    have hread := hreads Outcome.noConfusion
    simp only [State.weight, Metrics.addBad] at hread ⊢
    omega

theorem weight_next_le (l : Lexer) (s : State) : (l.next s).2.weight ≤ s.weight :=
  rel_next_of_rel_scan (P := fun s reached => reached.weight ≤ s.weight) l.weight_scan_le
    (fun _ _ _ hfirst hrest => Nat.le_trans hrest hfirst) s

/-- Passing over a character that is not recognized makes room for counting it. -/
theorem weight_item_le (l : Lexer) (s : State) :
    (l.item s).2.weight ≤ s.weight ∧
      ∀ item, (l.item s).1 = some item → ((l.item s).2.counting item).weight ≤ s.weight := by
  have hnext := l.weight_next_le s
  rw [← itemAfter_next]
  generalize l.next s = step at hnext ⊢
  obtain ⟨token | lexeme | _, reached⟩ := step
  · refine ⟨hnext, fun item hitem => ?_⟩
    obtain rfl := Option.some.inj hitem
    exact hnext
  · refine ⟨hnext, fun item hitem => ?_⟩
    obtain rfl := Option.some.inj hitem
    exact hnext
  · cases hrest : reached.rest with
    | nil => simpa [itemAfter, State.skip, hrest] using hnext
    | cons c rest =>
        simp only [State.weight, hrest, List.length_cons] at hnext
        simp only [itemAfter, State.skip, hrest, Option.map_some]
        refine ⟨?_, fun item hitem => ?_⟩
        · simp only [State.weight]
          omega
        · obtain rfl := Option.some.inj hitem
          simp only [State.counting, Metrics.addUnrecognized, State.weight]
          omega

/-- However the loop ends, no more tokens and unrecognized characters were counted than characters were
read. -/
theorem weight_tokenizeFrom_le (l : Lexer) (s : State) (stream : TokenStream) (said : List Notice) :
    (l.tokenizeFrom s stream said).2.weight ≤ s.weight := by
  fun_induction tokenizeFrom l s stream said with
  | case1 s stream said hended => exact Nat.le_refl _
  | case2 s stream said hmore hfull e => exact Nat.le_refl _
  | case3 s stream said hmore hroom reached hitem =>
      have hle := (l.weight_item_le s).1
      rwa [hitem] at hle
  | case4 s stream said hmore hroom item reached hitem e herror =>
      have hle := (l.weight_item_le s).1
      rwa [hitem] at hle
  | case5 s stream said hmore hroom item reached hitem hfits ih =>
      have hle := (l.weight_item_le s).2
      rw [hitem] at hle
      exact Nat.le_trans ih (hle item rfl)

/-- Reading makes progress.  A step ends after at most one scan more than there are characters still to
read.  The lexeme of its token, good or bad, is not empty, and the place moves on behind it.  A step that
gives no token leaves the end of the program, or a character on which no token begins.  So tokenizing ends
after at most one round more than a text has characters, and records at most as many tokens. -/
theorem next_advances_and_tokenize_ends (l : Lexer) :
    (∀ s n, s.rest.length < n → l.nextWithin n s = some (l.next s)) ∧
    (∀ s t, (l.next s).1.token? = some t →
      ∃ passed, s.rest = passed ++ t.lexeme.toList ++ (l.next s).2.rest ∧ t.lexeme ≠ "" ∧
        s.position.offset < (l.next s).2.position.offset) ∧
    (∀ s, (l.next s).1 = .none → (l.next s).2.rest = [] ∨
      ∃ c tail, (l.next s).2.rest = c :: tail ∧ l.machine.transition? l.entry c = none) ∧
    (∀ text n, text.length < n →
      l.tokenizeWithin n (.ofText text) .empty [l.startNotice text] = some (l.tokenize text)) ∧
    ∀ text, (l.tokenize text).2.metrics.recorded + (l.tokenize text).2.metrics.unrecognized ≤
        text.length ∧
      ∀ stream, (l.tokenize text).1.value = .ok stream → stream.size ≤ text.length := by
  refine ⟨fun s n => nextWithin_eq, ?_, ?_, ?_, fun text => ⟨?_, ?_⟩⟩
  · intro s t htoken
    obtain ⟨passed, lexeme, hreads, hlexeme⟩ := l.exists_reads_next s
    obtain ⟨rfl, hne⟩ := hlexeme t htoken
    refine ⟨passed, hreads.splits, fun hempty => hne (by rw [hempty]; rfl), ?_⟩
    have hpos := List.length_pos_iff.mpr hne
    rw [hreads.offset_eq]
    omega
  · intro s hnone
    cases hrest : (l.next s).2.rest with
    | nil => exact .inl rfl
    | cons c tail =>
        exact .inr ⟨c, tail, rfl, stuck_of_next_eq_none (Prod.ext hnone rfl) hrest⟩
  · intro text n hbound
    rw [← String.length_toList] at hbound
    exact tokenizeWithin_eq hbound
  · have hle := l.weight_tokenizeFrom_le (.ofText text) .empty [l.startNotice text]
    have hstart : (State.ofText text).weight = text.length := by
      rw [State.weight, State.ofText, String.length_toList]
      exact Nat.zero_add _
    rw [hstart] at hle
    exact Nat.le_trans (Nat.le_add_right _ _) hle
  · intro stream hok
    have htokens : stream.toList = (l.items (.ofText text)).map (Located.map Item.toToken) :=
      (takesIn_tokenizeFrom hok).tokens
    rw [← TokenStream.length_toList, htokens, List.length_map, ← String.length_toList]
    exact l.length_items_le (.ofText text)

end TableLexer.Lexer
