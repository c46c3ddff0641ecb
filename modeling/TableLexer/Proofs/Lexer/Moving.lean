import TableLexer.Lexer.Tokenize
/-!
Moved texts.  What a lexer finds depends on the characters that are still to read and on nothing before
them: each of its operations gives the same outcome, and leaves the same characters, from two states
that differ in their places and metrics only.  So a lexeme that is left out at the beginning of a
program leaves the tokens as they are.
-/

namespace TableLexer

/-- The tokens of a stream without their places. -/
def TokenStream.contents (s : TokenStream) : List Token := s.toList.map Located.value

theorem TokenStream.contents_push (s : TokenStream) (t : Located Token) :
    (s.push t).contents = s.contents ++ [t.value] := by
  rw [contents, toList_push, List.map_append, List.map_singleton, contents]

theorem TokenStream.length_contents (s : TokenStream) : s.contents.length = s.size := by
  rw [contents, List.length_map, length_toList]

theorem Traversal.follow_moved (m : Machine) (entry state : Nat) (lexeme : List Char)
    (start stop start' stop' : Position) (text : List Char) :
    (follow m entry state lexeme start' stop' text).state =
        (follow m entry state lexeme start stop text).state ∧
      (follow m entry state lexeme start' stop' text).lexeme =
        (follow m entry state lexeme start stop text).lexeme ∧
      (follow m entry state lexeme start' stop' text).rest =
        (follow m entry state lexeme start stop text).rest := by
  induction text generalizing state lexeme start stop start' stop' with
  | nil => exact ⟨rfl, rfl, rfl⟩
  | cons c rest ih =>
      unfold follow
      cases m.transition? state c with
      | none => exact ⟨rfl, rfl, rfl⟩
      | some target => exact ih ..

namespace Lexer

variable {l : Lexer} {s s' : State}

theorem accept_moved (l : Lexer) (metrics metrics' : Metrics) (lexeme category : String) :
    (l.accept metrics' lexeme category).1 = (l.accept metrics lexeme category).1 := by
  unfold accept
  split <;> rfl

theorem scan_moved (l : Lexer) (hrest : s'.rest = s.rest) :
    (l.scan s').1 = (l.scan s).1 ∧ (l.scan s').2.rest = (l.scan s).2.rest := by
  obtain ⟨hstate, hlexeme, hleft⟩ := Traversal.follow_moved l.machine l.entry l.entry []
    s.position s.position s'.position s'.position s.rest
  have htraverse' : l.traverse s' = .ofText l.machine l.entry s'.position s.rest := by
    rw [traverse, hrest]
  rw [rest_scan, rest_scan]
  refine ⟨?_, by rw [htraverse']; exact hleft⟩
  have haccepted : (l.traverse s').accepted? l.machine = (l.traverse s).accepted? l.machine := by
    rw [htraverse', Traversal.accepted?, Traversal.accepted?, Traversal.ofText, hstate, hlexeme]
    rfl
  have htext : (l.traverse s').lexemeText = (l.traverse s).lexemeText := by
    rw [htraverse', Traversal.lexemeText, Traversal.lexemeText, Traversal.ofText, hlexeme]
    rfl
  have hends : (l.traverse s').state = (l.traverse s).state := by
    rw [htraverse']
    exact hstate
  unfold scan
  simp only [haccepted, htext, hends]
  cases (l.traverse s).accepted? l.machine with
  | some category => exact congrArg Outcome.token (l.accept_moved ..)
  | none => by_cases hhome : (l.traverse s).state = l.entry <;> simp only [hhome, if_true, if_false]

theorem next_of_discards {t : Token} (hscan : (l.scan s).1 = .token t) (hdiscards : l.discards t) :
    l.next s = l.next { (l.scan s).2 with metrics := (l.scan s).2.metrics.addSkipped } := by
  rw [next]
  split
  next found reached hfound =>
    rw [hfound] at hscan ⊢
    obtain rfl := Outcome.token.inj hscan
    rw [if_pos hdiscards]
  next lexeme reached hfound => simp [hfound] at hscan
  next reached hfound => simp [hfound] at hscan

theorem next_of_keeps (hkeeps : ∀ t, (l.scan s).1 = .token t → ¬ l.discards t) :
    l.next s = l.scan s := by
  rw [next]
  split
  next t reached hscan => rw [if_neg (hkeeps t (by rw [hscan])), hscan]
  next lexeme reached hscan => exact hscan.symm
  next reached hscan => exact hscan.symm

theorem next_moved (l : Lexer) (hrest : s'.rest = s.rest) :
    (l.next s').1 = (l.next s).1 ∧ (l.next s').2.rest = (l.next s).2.rest := by
  fun_induction next l s generalizing s' with
  | case1 s t reached hscan hdiscards ih =>
      obtain ⟨houtcome, hleft⟩ := scan_moved l hrest
      rw [hscan] at houtcome hleft
      rw [next_of_discards houtcome hdiscards]
      exact ih hleft
  | case2 s t reached hscan hkeeps =>
      obtain ⟨houtcome, hleft⟩ := scan_moved l hrest
      rw [hscan] at houtcome hleft
      have hnext : l.next s' = l.scan s' := next_of_keeps fun other hother => by
        obtain rfl := Outcome.token.inj (houtcome.symm.trans hother)
        exact hkeeps
      rw [hnext]
      exact ⟨houtcome, hleft⟩
  | case3 s lexeme reached hscan =>
      obtain ⟨houtcome, hleft⟩ := scan_moved l hrest
      rw [hscan] at houtcome hleft
      rw [next_of_keeps fun other hother => by simp [houtcome] at hother]
      exact ⟨houtcome, hleft⟩
  | case4 s reached hscan =>
      obtain ⟨houtcome, hleft⟩ := scan_moved l hrest
      rw [hscan] at houtcome hleft
      rw [next_of_keeps fun other hother => by simp [houtcome] at hother]
      exact ⟨houtcome, hleft⟩

/-- What an item is, and what it leaves, depends on the next outcome and on what that leaves. -/
theorem item_of_next (houtcome : (l.next s').1 = (l.next s).1)
    (hrest : (l.next s').2.rest = (l.next s).2.rest) :
    (l.item s').1 = (l.item s).1 ∧ (l.item s').2.rest = (l.item s).2.rest := by
  cases hnext : l.next s with
  | mk outcome reached =>
      cases hnext' : l.next s' with
      | mk outcome' reached' =>
          rw [hnext, hnext'] at houtcome hrest
          obtain rfl : outcome' = outcome := houtcome
          cases outcome' with
          | token t => simpa [item, hnext, hnext'] using hrest
          | bad lexeme => simpa [item, hnext, hnext'] using hrest
          | none =>
              simp only at hrest
              cases hreached : reached.rest with
              | nil => simp [item, hnext, hnext', State.skip, hreached, hrest]
              | cons c rest => simp [item, hnext, hnext', State.skip, hreached, hrest]

theorem rest_counting (s : State) (item : Item) : (s.counting item).rest = s.rest := by
  cases item <;> rfl

/-- The tokens of what is still to read after those of a stream, or the limit that is in their way. -/
def contentsFrom (l : Lexer) (s : State) (stream : TokenStream) (said : List Notice) :
    Except LexerError (List Token) :=
  (l.tokenizeFrom s stream said).1.value.map TokenStream.contents

/-- One turn of the loop over items. -/
theorem contentsFrom_eq (l : Lexer) (s : State) (stream : TokenStream) (said : List Notice) :
    l.contentsFrom s stream said =
      if s.rest.isEmpty then .ok stream.contents
      else if limits.tokens ≤ stream.size then .error (.tooManyTokens stream.size)
      else
        match (l.item s).1 with
        | none => .ok stream.contents
        | some item =>
            match itemError? item with
            | some e => .error e
            | none =>
                l.contentsFrom ((l.item s).2.counting item)
                  (stream.push ⟨item.toToken, (l.item s).2.tokenSpan⟩)
                  (l.itemNotices item (l.item s).2.tokenSpan ++ said) := by
  rw [contentsFrom, tokenizeFrom]
  split
  · rfl
  split
  · rfl
  split
  next reached hitem =>
    rw [hitem]
    rfl
  next item reached hitem =>
    rw [hitem]
    cases herror : itemError? item with
    | some e =>
        simp only [herror]
        rfl
    | none =>
        simp only [herror]
        rfl

/-- Two states with the same next item go on alike if what is after it does. -/
theorem contentsFrom_of_item {stream stream' : TokenStream} {said said' : List Notice}
    (hmore : s.rest ≠ []) (hmore' : s'.rest ≠ []) (hstream : stream'.contents = stream.contents)
    (hitem : (l.item s').1 = (l.item s).1)
    (hafter : ∀ item, (l.item s).1 = some item → ∀ token token' said said', token'.value = token.value →
      l.contentsFrom ((l.item s').2.counting item) (stream'.push token') said' =
        l.contentsFrom ((l.item s).2.counting item) (stream.push token) said) :
    l.contentsFrom s' stream' said' = l.contentsFrom s stream said := by
  have hsize : stream'.size = stream.size := by
    rw [← stream'.length_contents, hstream, stream.length_contents]
  have hopen : ¬ s.rest.isEmpty := fun hnil => hmore (List.isEmpty_iff.mp hnil)
  have hopen' : ¬ s'.rest.isEmpty := fun hnil => hmore' (List.isEmpty_iff.mp hnil)
  rw [l.contentsFrom_eq s', l.contentsFrom_eq s, hsize, hitem, hstream, if_neg hopen',
    if_neg hopen]
  by_cases hfull : limits.tokens ≤ stream.size
  · rw [if_pos hfull, if_pos hfull]
  rw [if_neg hfull, if_neg hfull]
  cases hfound : (l.item s).1 with
  | none => rfl
  | some item =>
      cases herror : itemError? item with
      | some e => simp only [herror]
      | none =>
          simp only [herror]
          exact hafter item hfound _ _ _ _ rfl

theorem contentsFrom_moved (l : Lexer) {stream stream' : TokenStream} (said said' : List Notice)
    (hrest : s'.rest = s.rest) (hstream : stream'.contents = stream.contents) :
    l.contentsFrom s' stream' said' = l.contentsFrom s stream said := by
  induction hlength : s.rest.length using Nat.strongRecOn
    generalizing s s' stream stream' said said' with
  | ind n ih =>
      by_cases hended : s.rest = []
      · rw [l.contentsFrom_eq s', l.contentsFrom_eq s, hrest, hstream, hended]
        rfl
      · obtain ⟨hnext, hkept⟩ := l.next_moved hrest
        obtain ⟨hitem, hleft⟩ := item_of_next hnext hkept
        refine contentsFrom_of_item hended (hrest ▸ hended) hstream hitem ?_
        intro item hfound token token' said said' htoken
        have hread := l.length_rest_item_lt s (by rw [hfound]; exact Option.some_ne_none item)
        refine ih _ (hlength ▸ hread) _ _ ?_ ?_ (by rw [rest_counting])
        · rw [rest_counting, rest_counting, hleft]
        · rw [TokenStream.contents_push, TokenStream.contents_push, hstream, htoken]

def contents (l : Lexer) (text : String) : Except LexerError (List Token) :=
  (l.tokenize text).1.value.map TokenStream.contents

/-- A lexeme at the beginning of a text that is left out leaves no trace: the tokens are those of the
text after it, and a limit is in their way if it is in the way of those. -/
theorem contents_of_discards {text rest : String} {t : Token}
    (hscan : (l.scan (.ofText text)).1 = .token t) (hdiscards : l.discards t)
    (hrest : (l.scan (.ofText text)).2.rest = rest.toList) : l.contents text = l.contents rest := by
  have hmoved : (l.next (.ofText text)).1 = (l.next (.ofText rest)).1 ∧
      (l.next (.ofText text)).2.rest = (l.next (.ofText rest)).2.rest := by
    rw [next_of_discards hscan hdiscards]
    exact l.next_moved hrest
  obtain ⟨houtcome, hkept⟩ := hmoved
  obtain ⟨hitem, hleft⟩ := item_of_next houtcome hkept
  have hread := l.length_rest_scan_lt (.ofText text) (by rw [hscan]; exact Outcome.noConfusion)
  have hmore : (State.ofText text).rest ≠ [] := by
    intro hnil
    simp [hnil] at hread
  change l.contentsFrom (.ofText text) .empty _ = l.contentsFrom (.ofText rest) .empty _
  by_cases hended : (State.ofText rest).rest = []
  · have hopen : ¬ (State.ofText text).rest.isEmpty := fun hnil => hmore (List.isEmpty_iff.mp hnil)
    have hnone : (l.item (.ofText rest)).1 = none := by
      cases hfound : (l.item (.ofText rest)).1 with
      | none => rfl
      | some item =>
          have hshorter := l.length_rest_item_lt (.ofText rest)
            (by rw [hfound]; exact Option.some_ne_none item)
          simp [hended] at hshorter
    rw [contentsFrom_eq, contentsFrom_eq, hitem, hnone, hended, if_neg hopen]
    rfl
  · refine contentsFrom_of_item hended hmore rfl hitem ?_
    intro item hfound token token' said said' htoken
    apply contentsFrom_moved
    · rw [rest_counting, rest_counting, hleft]
    · rw [TokenStream.contents_push, TokenStream.contents_push, htoken]

end Lexer

end TableLexer
