import TableLexer.Proofs.Lexer.Limits
import TableLexer.Proofs.Lexer.Moving
/-!
The items of a program.  Stepping through a program yields tokens, bad tokens, and single characters that
begin no token.  What comes next depends on the characters still to read and on their place, and not on
what was counted.  Tokenizing takes in one item after another, so the tokens of its stream, its notices
and its count of unrecognized characters are those of the items.
-/

namespace TableLexer.Lexer

/-- The items of what is still to read, each with the span that stepping leaves. -/
def items (l : Lexer) (s : State) : List (Located Item) :=
  match _ : l.item s with
  | (none, _) => []
  | (some item, reached) => ⟨item, reached.tokenSpan⟩ :: l.items reached
termination_by s.rest.length
decreasing_by
  rename_i found
  have hread := l.length_rest_item_lt s
  rw [found] at hread
  exact hread (Option.some_ne_none item)

variable {l : Lexer} {s s' reached : State} {item : Item}

theorem items_of_item (hitem : l.item s = (some item, reached)) :
    l.items s = ⟨item, reached.tokenSpan⟩ :: l.items reached := by
  rw [items]
  split
  next other hother => simp [hitem] at hother
  next found other hother =>
    obtain ⟨hsome, rfl⟩ := Prod.mk.inj (hitem.symm.trans hother)
    rw [Option.some.inj hsome]

theorem items_of_item_eq_none (hitem : l.item s = (none, reached)) : l.items s = [] := by
  rw [items]
  split
  next other hother => rfl
  next found other hother => simp [hitem] at hother

theorem items_of_rest_eq_nil (hended : s.rest = []) : l.items s = [] := by
  cases hitem : l.item s with
  | mk found reached =>
      cases found with
      | none => exact items_of_item_eq_none hitem
      | some item =>
          have hread := length_rest_of_item hitem
          simp [hended] at hread

/-- What was counted has no part in a scan. -/
theorem exists_scan_eq (hrest : s'.rest = s.rest) (hposition : s'.position = s.position) :
    ∃ metrics, l.scan s' = ((l.scan s).1, { (l.scan s).2 with metrics }) := by
  have htraverse : l.traverse s' = l.traverse s := by rw [traverse, traverse, hrest, hposition]
  rcases l.scan_cases s with ⟨category, haccepted, hscan⟩ | ⟨hnone, hhome, hscan⟩ |
    ⟨hnone, haway, hscan⟩
  · rw [hscan, ← l.accept_moved s.metrics s'.metrics]
    exact ⟨_, by simp only [scan, htraverse, haccepted]; rfl⟩
  · rw [hscan]
    exact ⟨s'.metrics, by simp only [scan, htraverse, hnone, if_pos hhome]; rfl⟩
  · rw [hscan]
    exact ⟨_, by simp only [scan, htraverse, hnone, if_neg haway]; rfl⟩

theorem exists_next_eq (hrest : s'.rest = s.rest) (hposition : s'.position = s.position) :
    ∃ metrics, l.next s' = ((l.next s).1, { (l.next s).2 with metrics }) := by
  fun_induction next l s generalizing s' with
  | case1 s t reached hscan hdiscards ih =>
      obtain ⟨metrics, hscan'⟩ := l.exists_scan_eq hrest hposition
      rw [hscan] at hscan'
      rw [next_of_discards (congrArg Prod.fst hscan') hdiscards, hscan']
      exact ih rfl rfl
  | case2 s t reached hscan hkeeps =>
      obtain ⟨metrics, hscan'⟩ := l.exists_scan_eq hrest hposition
      rw [hscan] at hscan'
      refine ⟨metrics, (next_of_keeps fun other hother => ?_).trans hscan'⟩
      rw [hscan'] at hother
      exact Outcome.token.inj hother ▸ hkeeps
  | case3 s lexeme reached hscan | case4 s reached hscan =>
      obtain ⟨metrics, hscan'⟩ := l.exists_scan_eq hrest hposition
      rw [hscan] at hscan'
      exact ⟨metrics, (next_of_keeps fun other hother => by simp [hscan'] at hother).trans hscan'⟩

theorem exists_item_eq (hrest : s'.rest = s.rest) (hposition : s'.position = s.position) :
    ∃ metrics, l.item s' = ((l.item s).1, { (l.item s).2 with metrics }) := by
  obtain ⟨metrics, hnext⟩ := l.exists_next_eq hrest hposition
  unfold Lexer.item
  rw [hnext]
  cases l.next s with
  | mk outcome middle =>
      cases outcome with
      | token t => exact ⟨metrics, rfl⟩
      | bad lexeme => exact ⟨metrics, rfl⟩
      | none => cases hmiddle : middle.rest <;> exact ⟨metrics, by simp [State.skip, hmiddle]⟩

/-- What was counted has no part in the items. -/
theorem items_eq (hrest : s'.rest = s.rest) (hposition : s'.position = s.position) :
    l.items s' = l.items s := by
  fun_induction items l s generalizing s' with
  | case1 s reached hitem =>
      obtain ⟨metrics, hitem'⟩ := l.exists_item_eq hrest hposition
      rw [hitem] at hitem'
      exact items_of_item_eq_none hitem'
  | case2 s item reached hitem ih =>
      obtain ⟨metrics, hitem'⟩ := l.exists_item_eq hrest hposition
      rw [hitem] at hitem'
      have htail : l.items { reached with metrics } = l.items reached := ih rfl rfl
      rw [items_of_item hitem', htail]
      rfl

theorem items_counting (l : Lexer) (s : State) (item : Item) :
    l.items (s.counting item) = l.items s := by
  cases item with
  | token t => rfl
  | bad lexeme => rfl
  | unrecognized c => exact items_eq rfl rfl

/-- The tokens of the items are the reading of what is still to read. -/
theorem reading_items (l : Lexer) (s : State) :
    l.Reading s.position s.rest ((l.items s).map (Located.map Item.toToken)) := by
  fun_induction items l s with
  | case1 s reached hitem => exact reading_of_item_eq_none hitem
  | case2 s item reached hitem ih => exact reading_of_item hitem ih

/-- The tokens of a stream are those of the items. -/
theorem toList_of_tokenize {text : String} {stream : TokenStream}
    (hok : (l.tokenize text).1.value = .ok stream) :
    stream.toList = (l.items (.ofText text)).map (Located.map Item.toToken) :=
  ((l.tokenize_eq_ok_iff text stream).mp hok).1.unique (l.reading_items (.ofText text))

/-- Each item takes at least one of the characters still to read. -/
theorem length_items_le (l : Lexer) (s : State) : (l.items s).length ≤ s.rest.length := by
  fun_induction items l s with
  | case1 s reached hitem => exact Nat.zero_le _
  | case2 s item reached hitem ih =>
      have hread := length_rest_of_item hitem
      rw [List.length_cons]
      omega

def Item.isUnrecognized : Item → Bool
  | unrecognized _ => true
  | _ => false

theorem unrecognized_counting (s : State) (item : Item) :
    (s.counting item).metrics.unrecognized =
      s.metrics.unrecognized + if item.isUnrecognized then 1 else 0 := by
  cases item <;> rfl

theorem unrecognized_accept (l : Lexer) (metrics : Metrics) (lexeme category : String) :
    (l.accept metrics lexeme category).2.unrecognized = metrics.unrecognized := by
  unfold accept
  split <;> rfl

theorem unrecognized_scan (l : Lexer) (s : State) :
    (l.scan s).2.metrics.unrecognized = s.metrics.unrecognized := by
  rcases l.scan_cases s with ⟨category, -, hscan⟩ | ⟨-, -, hscan⟩ | ⟨-, -, hscan⟩
  · rw [hscan]
    exact l.unrecognized_accept ..
  · rw [hscan]
    rfl
  · rw [hscan]
    rfl

/-- A step leads from a state to another in the way that scans do, if two scans in a row do so. -/
theorem rel_next_of_rel_scan {P : State → State → Prop} (hscan : ∀ s, P s (l.scan s).2)
    (htrans : ∀ s middle reached, P s middle →
      P { middle with metrics := middle.metrics.addSkipped } reached → P s reached) (s : State) :
    P s (l.next s).2 := by
  fun_induction next l s with
  | case1 s t reached heq hdiscards ih =>
      have hfirst := hscan s
      rw [heq] at hfirst
      exact htrans s reached _ hfirst ih
  | case2 s t reached heq | case3 s lexeme reached heq | case4 s reached heq =>
      have honly := hscan s
      rwa [heq] at honly

theorem unrecognized_next (l : Lexer) (s : State) :
    (l.next s).2.metrics.unrecognized = s.metrics.unrecognized :=
  rel_next_of_rel_scan (P := fun s reached => reached.metrics.unrecognized = s.metrics.unrecognized)
    l.unrecognized_scan (fun _ _ _ hfirst hrest => hrest.trans hfirst) s

/-- Reading an item does not count it as unrecognized yet. -/
theorem unrecognized_item (l : Lexer) (s : State) :
    (l.item s).2.metrics.unrecognized = s.metrics.unrecognized := by
  have hcount := l.unrecognized_next s
  unfold Lexer.item
  split
  next t reached hnext => rwa [hnext] at hcount
  next lexeme reached hnext => rwa [hnext] at hcount
  next reached hnext =>
    rw [hnext] at hcount
    cases hrest : reached.rest <;> simpa [State.skip, hrest] using hcount

/-- What a run of the loop has done with the items of what was still to read, if it has given the stream
`result`: the stream holds their tokens, what was said about each of them stands between what was said
before and the last notice, and the unrecognized ones were counted. -/
structure TakesIn (l : Lexer) (s : State) (stream : TokenStream) (said : List Notice)
    (run : Logged (Except LexerError TokenStream) × State) (result : TokenStream) : Prop where
  tokens : result.toList =
    stream.toList ++ (l.items s).map (Located.map Item.toToken)
  notices : run.1.notices = said.reverse ++
    (l.items s).flatMap (fun i => l.itemNotices i.value i.span) ++
      [doneNotice result run.2.metrics]
  unrecognized : run.2.metrics.unrecognized =
    s.metrics.unrecognized + (l.items s).countP (·.value.isUnrecognized)

/-- At most one thing is said about an item. -/
theorem reverse_itemNotices (l : Lexer) (item : Item) (span : Span) :
    (l.itemNotices item span).reverse = l.itemNotices item span := by
  unfold itemNotices
  split
  · cases itemNotice? item span <;> rfl
  · rfl

/-- Where nothing is left to read the loop has nothing to take in. -/
theorem takesIn_nil {stream : TokenStream} {said : List Notice} (hitems : l.items s = [])
    (hcount : reached.metrics.unrecognized = s.metrics.unrecognized) :
    l.TakesIn s stream said
      (⟨.ok stream, (doneNotice stream reached.metrics :: said).reverse⟩, reached) stream where
  tokens := by simp [hitems]
  notices := by simp [hitems]
  unrecognized := by simp [hitems, hcount]

theorem takesIn_tokenizeFrom {stream result : TokenStream} {said : List Notice}
    (hok : (l.tokenizeFrom s stream said).1.value = .ok result) :
    l.TakesIn s stream said (l.tokenizeFrom s stream said) result := by
  fun_induction tokenizeFrom l s stream said with
  | case1 s stream said hended =>
      obtain rfl := Except.ok.inj hok
      exact takesIn_nil (items_of_rest_eq_nil (List.isEmpty_iff.mp hended)) rfl
  | case2 s stream said hmore hfull e => simp at hok
  | case3 s stream said hmore hroom reached hitem =>
      obtain rfl := Except.ok.inj hok
      have hcount := l.unrecognized_item s
      rw [hitem] at hcount
      exact takesIn_nil (items_of_item_eq_none hitem) hcount
  | case4 s stream said hmore hroom item reached hitem e herror => simp at hok
  | case5 s stream said hmore hroom item reached hitem hfits ih =>
      obtain ⟨htokens, hnotices, hunrecognized⟩ := ih hok
      have hcount := l.unrecognized_item s
      rw [hitem] at hcount
      rw [items_counting] at htokens hnotices hunrecognized
      constructor
      · rw [htokens, items_of_item hitem, TokenStream.toList_push, List.map_cons,
          List.append_assoc, List.singleton_append]
        rfl
      · rw [hnotices, items_of_item hitem, List.flatMap_cons, List.reverse_append,
          reverse_itemNotices, List.append_assoc said.reverse]
      · rw [hunrecognized, items_of_item hitem, unrecognized_counting, hcount, List.countP_cons,
          Nat.add_assoc]
        exact congrArg _ (Nat.add_comm ..)

/-- What the loop gives up for: a stream that is full, or an item that is too long. -/
theorem error_of_tokenizeFrom {stream : TokenStream} {said : List Notice} {e : LexerError}
    (hroom : stream.size ≤ limits.tokens)
    (herror : (l.tokenizeFrom s stream said).1.value = .error e) :
    e = .tooManyTokens limits.tokens ∨ ∃ i ∈ l.items s, itemError? i.value = some e := by
  fun_induction tokenizeFrom l s stream said with
  | case1 s stream said hended => simp at herror
  | case2 s stream said hmore hfull e' =>
      left
      rw [← Except.error.inj herror]
      exact congrArg LexerError.tooManyTokens (Nat.le_antisymm hroom hfull)
  | case3 s stream said hmore hopen reached hitem => simp at herror
  | case4 s stream said hmore hopen item reached hitem e' hlong =>
      right
      rw [← Except.error.inj herror, items_of_item hitem]
      exact ⟨_, List.mem_cons_self, hlong⟩
  | case5 s stream said hmore hopen item reached hitem hfits ih =>
      rcases ih (by rw [TokenStream.size_push]; omega) herror with hmany | ⟨i, hmem, hlong⟩
      · exact .inl hmany
      · right
        rw [items_counting] at hmem
        rw [items_of_item hitem]
        exact ⟨i, List.mem_cons_of_mem _ hmem, hlong⟩

end TableLexer.Lexer
