import TableLexer.Proofs.Preprocessor.Response
/-!
What passes of a text.  A word after which reading stops, and not before, is a segment whatever follows
it.  So a text that begins with such a word passes as the word does, and then as the rest does.
-/

namespace TableLexer

namespace Machine

variable {m : Machine} {state target : Nat} {c : Char} {word : List Char}

/-- Reading a word from `state` on ends a segment with the last character of the word, and not before,
and comes to `final`. -/
inductive Closes (m : Machine) : Nat → List Char → Nat → Prop
  | last {state : Nat} {c : Char} (hends : m.endsSegment state c) :
      Closes m state [c] (m.settle state c)
  | more {state final : Nat} {c : Char} {word : List Char} (hgoes : ¬ m.endsSegment state c)
      (hrest : Closes m (m.settle state c) word final) : Closes m state (c :: word) final

theorem settle_of_transition (htarget : m.transition? state c = some target) :
    m.settle state c = target := by
  rw [settle, htarget, Option.getD_some]

theorem endsSegment_of_transition (htarget : m.transition? state c = some target) :
    m.endsSegment state c = m.isDead target := by
  rw [endsSegment, settle_of_transition htarget, htarget]
  rfl

/-- A transition to a dead state closes a segment. -/
theorem Closes.of_dead (htarget : m.transition? state c = some target) (hdead : m.isDead target) :
    m.Closes state [c] target := by
  have hclosed : m.Closes state [c] (m.settle state c) :=
    .last (by rw [endsSegment_of_transition htarget, hdead])
  rwa [settle_of_transition htarget] at hclosed

/-- A character without a transition from an accepting state closes a segment, and belongs to it. -/
theorem Closes.of_stuck (hstuck : m.transition? state c = none) (haccepts : m.isAccepting state) :
    m.Closes state [c] state := by
  have hclosed : m.Closes state [c] (m.settle state c) :=
    .last (by rw [endsSegment, hstuck, haccepts]; rfl)
  rwa [settle, hstuck, Option.getD_none] at hclosed

/-- A transition to a state that is not dead leaves the segment open. -/
theorem Closes.of_live {final : Nat} (htarget : m.transition? state c = some target)
    (hlive : ¬ m.isDead target) (hrest : m.Closes target word final) :
    m.Closes state (c :: word) final := by
  refine .more (by rwa [endsSegment_of_transition htarget]) ?_
  rwa [settle_of_transition htarget]

theorem Closes.ne_nil {final : Nat} (hcloses : m.Closes state word final) : word ≠ [] := by
  cases hcloses with
  | last hends => exact List.cons_ne_nil _ _
  | more hgoes hrest => exact List.cons_ne_nil _ _

theorem Closes.settled_eq {final : Nat} (hcloses : m.Closes state word final) :
    m.settled state word = final := by
  induction hcloses with
  | last hends => rfl
  | more hgoes hrest ih => exact ih

theorem Closes.lexeme_read {final : Nat} (hcloses : m.Closes state word final) (lexeme : List Char)
    (place : Position) (rest : List Char) :
    (Segment.read m state lexeme place (word ++ rest)).lexeme = word.reverse ++ lexeme := by
  induction hcloses generalizing lexeme place with
  | last hends =>
      rw [List.singleton_append, Segment.read, if_pos hends]
      rfl
  | more hgoes hrest ih =>
      rw [List.cons_append, Segment.read, if_neg hgoes, ih, List.reverse_cons, List.append_assoc,
        List.singleton_append]

theorem Closes.firstSegment {entry final : Nat} (hcloses : m.Closes entry word final)
    (rest : List Char) : m.FirstSegment entry (word ++ rest) word := by
  have hlexeme := hcloses.lexeme_read [] .start rest
  rw [List.append_nil] at hlexeme
  have hreads : (Segment.read m entry [] .start (word ++ rest)).Reads m entry .start (word ++ rest) :=
    Segment.reads_read [] (word ++ rest) rfl fun first hfirst hne =>
      absurd (List.prefix_nil.mp hfirst) hne
  have hne : (Segment.read m entry [] .start (word ++ rest)).lexeme ≠ [] := by
    rw [hlexeme]
    exact fun hnil => hcloses.ne_nil (List.reverse_eq_nil_iff.mp hnil)
  have hfirst := hreads.firstSegment hne
  rwa [hlexeme, List.reverse_reverse] at hfirst

end Machine

namespace Preprocessor

variable {p : Preprocessor}

/-- The characters of a text that pass. -/
def passed (p : Preprocessor) (text : List Char) : List Char :=
  (p.processText false (String.ofList text)).value.text.toList

theorem text_processText (p : Preprocessor) (tracing : Bool) (text : String) :
    (p.processText tracing text).value.text = String.ofList (p.passed text.toList) := by
  rw [passed, String.ofList_toList, String.ofList_toList]
  rfl

theorem passed_eq_of_cut {text : List Char} {words : List (List Char)}
    (hcut : p.machine.Cut p.entry text words) :
    p.passed text = (words.filter fun word =>
      p.categoryOf word = some p.preferences.passthroughCategory).flatten := by
  obtain ⟨words', hcut', hsegments⟩ := p.machine.exists_cut_segments p.entry (String.ofList text)
  rw [String.toList_ofList] at hcut'
  obtain rfl := hcut'.unique hcut
  have htext := (answers_respond hcut').text_eq
  rw [← hsegments] at htext
  rw [passed, ← String.toList_ofList (l := (words'.filter _).flatten), ← htext]
  rfl

theorem passed_nil (p : Preprocessor) : p.passed [] = [] := passed_eq_of_cut .nil

/-- A closed segment passes if its state accepts the category that passes, and the rest passes as it
does without the segment. -/
theorem passed_append {word : List Char} {final : Nat}
    (hcloses : p.machine.Closes p.entry word final) (rest : List Char) :
    p.passed (word ++ rest) =
      (if p.machine.accepted? final = some p.preferences.passthroughCategory then word else []) ++
        p.passed rest := by
  obtain ⟨words, hcut, -⟩ := p.machine.exists_cut_segments p.entry (String.ofList rest)
  rw [String.toList_ofList] at hcut
  have hcategory : p.categoryOf word = p.machine.accepted? final := by
    rw [categoryOf, hcloses.settled_eq]
  rw [passed_eq_of_cut (.cons rfl (hcloses.firstSegment rest) hcut), passed_eq_of_cut hcut,
    List.filter_cons, hcategory]
  by_cases hpasses : p.machine.accepted? final = some p.preferences.passthroughCategory
  · simp [hpasses]
  · simp [hpasses]

end Preprocessor

end TableLexer
