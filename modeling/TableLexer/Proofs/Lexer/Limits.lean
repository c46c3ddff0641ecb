import TableLexer.Proofs.Lexer.Tokenizing
/-!
Which readings the limits let through.  Tokenizing looks at the number of tokens before each one it
reads, as long as there is text left, and at the length of each good one.  So it gives a stream exactly
when no good token is too long and the tokens are fewer than the limit, or as many and nothing follows
the last of them, not even text that is left out.
-/

namespace TableLexer.Lexer

def State.finish (s : State) : Position := s.position.past s.rest

theorem finish_traverse (l : Lexer) (s : State) : (s.after (l.traverse s)).finish = s.finish := by
  obtain ⟨trip, hreads, -⟩ := l.exists_reads_traverse s
  have hstop : (l.traverse s).stop = s.position.past (trip ++ (l.traverse s).lexeme.reverse) :=
    hreads.stop_eq
  change (l.traverse s).stop.past (l.traverse s).rest = s.position.past s.rest
  rw [hreads.splits, Position.past_append, hstop]

theorem finish_scan (l : Lexer) (s : State) : (l.scan s).2.finish = s.finish := by
  have htraverse := l.finish_traverse s
  rcases l.scan_cases s with ⟨category, -, hscan⟩ | ⟨-, -, hscan⟩ | ⟨-, -, hscan⟩
  all_goals
    rw [hscan]
    exact htraverse

theorem finish_next (l : Lexer) (s : State) : (l.next s).2.finish = s.finish := by
  fun_induction next l s with
  | case1 s token reached hscan hdiscards ih =>
      have hfinish := l.finish_scan s
      rw [hscan] at hfinish
      exact ih.trans hfinish
  | case2 s token reached hscan | case3 s lexeme reached hscan | case4 s reached hscan =>
      have hfinish := l.finish_scan s
      rwa [hscan] at hfinish

/-- Reading an item leaves the end of the program where it is. -/
theorem finish_item (l : Lexer) (s : State) : (l.item s).2.finish = s.finish := by
  have hfinish := l.finish_next s
  unfold Lexer.item
  split
  next token reached hnext => rwa [hnext] at hfinish
  next lexeme reached hnext => rwa [hnext] at hfinish
  next reached hnext =>
    rw [hnext] at hfinish
    cases hrest : reached.rest with
    | nil => simpa [State.skip, hrest] using hfinish
    | cons c tail => simpa [State.skip, hrest, State.finish] using hfinish

theorem rest_eq_nil_of_position_eq_finish {s : State} (hended : s.position = s.finish) :
    s.rest = [] := by
  have hoffset := congrArg Position.offset hended
  rw [State.finish, Position.offset_past] at hoffset
  exact List.length_eq_zero_iff.mp (by omega)

/-- The place where the last of some tokens ends, or `place` if there are none. -/
def lastStop (place : Position) (tokens : List (Located Token)) : Position :=
  tokens.foldl (fun _ t => t.span.stop) place

/-- The limits let `tokens` through, which are all that is read from `place` to `finish`, when `count`
tokens are there before them. -/
structure FitsLimits (count : Nat) (place finish : Position) (tokens : List (Located Token)) : Prop
    where
  few : count + tokens.length < limits.tokens ∨
    count + tokens.length = limits.tokens ∧ lastStop place tokens = finish
  short : ∀ t ∈ tokens, t.value.isBad = false → t.value.length ≤ limits.lexemeLength

theorem fitsLimits_cons_iff {count : Nat} {place finish : Position} {t : Located Token}
    {tokens : List (Located Token)} :
    FitsLimits count place finish (t :: tokens) ↔
      (t.value.isBad = false → t.value.length ≤ limits.lexemeLength) ∧
        FitsLimits (count + 1) t.span.stop finish tokens := by
  have hcount : count + (t :: tokens).length = count + 1 + tokens.length := by
    rw [List.length_cons]
    omega
  constructor
  · rintro ⟨hfew, hshort⟩
    rw [hcount] at hfew
    exact ⟨hshort t List.mem_cons_self, hfew, fun u hmem => hshort u (List.mem_cons_of_mem t hmem)⟩
  · rintro ⟨hhead, hfew, hshort⟩
    refine ⟨by rwa [hcount], ?_⟩
    intro u hmem
    rcases List.mem_cons.mp hmem with rfl | hmem
    · exact hhead
    · exact hshort u hmem

/-- An item passes the check of its length if it is bad, or not too long. -/
theorem itemError?_eq_none_iff {l : Lexer} {s reached : State} {item : Item}
    (hitem : l.item s = (some item, reached)) :
    itemError? item = none ↔
      (item.toToken.isBad = false → item.toToken.length ≤ limits.lexemeLength) := by
  cases herror : itemError? item with
  | none =>
      refine iff_of_true rfl fun hgood => ?_
      cases item with
      | token t =>
          rw [itemError?, ite_eq_right_iff] at herror
          exact Nat.le_of_not_lt fun hlong => Option.some_ne_none _ (herror hlong)
      | bad lexeme => simp [Item.toToken, Token.bad, Token.isBad] at hgood
      | unrecognized c => simp [Item.toToken, Token.bad, Token.isBad] at hgood
  | some e =>
      obtain ⟨hgood, hlong⟩ := too_long_of_itemError? hitem herror
      exact iff_of_false (Option.some_ne_none e) fun hshort =>
        Nat.not_le_of_lt hlong (hshort hgood)

theorem ok_eq_ok_iff_append_nil (stream result : TokenStream) :
    (Except.ok stream : Except LexerError TokenStream) = .ok result ↔
      result = { stream with tokens := stream.tokens ++ ([] : List (Located Token)).toArray } := by
  rw [Except.ok.injEq, Array.append_empty]
  exact eq_comm

/-- The loop over items gives a stream exactly when the limits let the reading of what is still to read
through, and then appends it. -/
theorem exists_reading_tokenizeFrom_eq_ok_iff (l : Lexer) (s : State) (stream : TokenStream)
    (said : List Notice) (hroom : stream.size ≤ limits.tokens) :
    ∃ tokens, l.Reading s.position s.rest tokens ∧
      ∀ result, (l.tokenizeFrom s stream said).1.value = .ok result ↔
        FitsLimits stream.size s.position s.finish tokens ∧
          result = { stream with tokens := stream.tokens ++ tokens.toArray } := by
  fun_induction tokenizeFrom l s stream said with
  | case1 s stream said hended =>
      have hfinish : s.position = s.finish := by rw [State.finish, List.isEmpty_iff.mp hended]; rfl
      have hfits : FitsLimits stream.size s.position s.finish [] :=
        ⟨(Nat.lt_or_eq_of_le hroom).imp id fun heq => ⟨heq, hfinish⟩, by simp⟩
      rw [List.isEmpty_iff.mp hended]
      refine ⟨[], .nil l s.position, fun result => ?_⟩
      rw [and_iff_right hfits]
      exact ok_eq_ok_iff_append_nil stream result
  | case2 s stream said hmore hfull e =>
      obtain ⟨tokens, hreading⟩ := l.exists_reading s
      refine ⟨tokens, hreading, fun result => iff_of_false (by simp) ?_⟩
      rintro ⟨⟨hfew, -⟩, -⟩
      -- There is room for no token, and with none the text would have to end here.
      have hlength : tokens = [] := List.length_eq_zero_iff.mp (by omega)
      rcases hfew with hfew | ⟨-, hstop⟩
      · omega
      · rw [hlength] at hstop
        exact hmore (List.isEmpty_iff.mpr (rest_eq_nil_of_position_eq_finish hstop))
  | case3 s stream said hmore hopen reached hitem =>
      have hfits : FitsLimits stream.size s.position s.finish [] :=
        ⟨.inl (Nat.lt_of_not_le hopen), by simp⟩
      refine ⟨[], reading_of_item_eq_none hitem, fun result => ?_⟩
      rw [and_iff_right hfits]
      exact ok_eq_ok_iff_append_nil stream result
  | case4 s stream said hmore hopen found reached hitem e herror =>
      obtain ⟨tokens, hrest⟩ := l.exists_reading reached
      refine ⟨_, reading_of_item hitem hrest, fun result => iff_of_false (by simp) ?_⟩
      rintro ⟨hfits, -⟩
      rw [(itemError?_eq_none_iff hitem).mpr (fitsLimits_cons_iff.mp hfits).1] at herror
      exact Option.some_ne_none e herror.symm
  | case5 s stream said hmore hopen found reached hitem hfits ih =>
      have hcounting : (reached.counting found).position = reached.position ∧
          (reached.counting found).rest = reached.rest := by
        cases found <;> exact ⟨rfl, rfl⟩
      have hfinish : (reached.counting found).finish = s.finish := by
        have hitem' := l.finish_item s
        rw [hitem] at hitem'
        rw [State.finish, hcounting.1, hcounting.2]
        exact hitem'
      obtain ⟨tokens, hrest, hvalue⟩ := ih (by rw [TokenStream.size_push]; omega)
      rw [hcounting.1, hcounting.2] at hrest
      refine ⟨_, reading_of_item hitem hrest, fun result => ?_⟩
      rw [hvalue, TokenStream.size_push, hfinish, hcounting.1, fitsLimits_cons_iff,
        ← itemError?_eq_none_iff hitem]
      simp [hfits, TokenStream.push, State.tokenSpan]

/-- Tokenizing gives a stream exactly when it holds the reading of the text, and the limits let that
through. -/
theorem tokenize_eq_ok_iff (l : Lexer) (text : String) (stream : TokenStream) :
    (l.tokenize text).1.value = .ok stream ↔
      l.Reading .start text.toList stream.toList ∧
        FitsLimits 0 .start (Position.start.past text.toList) stream.toList ∧ stream.next = 0 := by
  obtain ⟨tokens, hreading, hvalue⟩ := l.exists_reading_tokenizeFrom_eq_ok_iff (.ofText text)
    .empty [l.startNotice text] (Nat.zero_le _)
  have hstream : ∀ other : TokenStream, other = ⟨#[] ++ tokens.toArray, 0⟩ ↔
      other.toList = tokens ∧ other.next = 0 := by
    rintro ⟨others, next⟩
    rw [Array.empty_append, TokenStream.mk.injEq, TokenStream.toList, Array.toArray_eq]
  rw [tokenize, hvalue stream]
  change FitsLimits 0 .start (Position.start.past text.toList) tokens ∧
    stream = ⟨#[] ++ tokens.toArray, 0⟩ ↔ _
  rw [hstream]
  constructor
  · rintro ⟨hfits, rfl, hnext⟩
    exact ⟨hreading, hfits, hnext⟩
  · rintro ⟨hother, hfits, hnext⟩
    obtain rfl := hreading.unique hother
    exact ⟨hfits, rfl, hnext⟩

end TableLexer.Lexer
