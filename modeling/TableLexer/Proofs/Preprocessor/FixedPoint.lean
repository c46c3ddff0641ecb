import TableLexer.Proofs.Preprocessor.Response
/-!
A second pass.  Where a segment ends is decided by its own characters, unless the text ends with it.
So segments that are taken out of a cut are the cut of what they spell, and the text of a response
passes unchanged.
-/

namespace TableLexer

namespace Machine

/-- What follows the first segment may be exchanged, as long as nothing is put after a segment that
the end of the text has cut. -/
theorem FirstSegment.exchange {m : Machine} {entry : Nat} {word rest rest' : List Char}
    (hfirst : m.FirstSegment entry (word ++ rest) word) (hrest : rest = [] → rest' = []) :
    m.FirstSegment entry (word ++ rest') word where
  begins := List.prefix_append word rest'
  nonempty := hfirst.nonempty
  ends := by
    rcases hfirst.ends with hstops | hended
    · exact .inl hstops
    · rw [hrest (List.self_eq_append_right.mp hended), List.append_nil]
      exact .inr rfl
  shortest := by
    intro other hother hne hends
    apply Nat.le_of_not_lt
    intro hshorter
    have hbegins : other <+: word :=
      List.prefix_of_prefix_length_le hother (List.prefix_append ..) (Nat.le_of_lt hshorter)
    rcases hends with hstops | rfl
    · have hle := hfirst.shortest other (hbegins.trans (List.prefix_append ..)) hne (.inl hstops)
      exact absurd hle (Nat.not_le_of_lt hshorter)
    · rw [List.length_append] at hshorter
      omega

/-- Segments that are taken out of a cut, in order, are the cut of what they spell. -/
theorem Cut.filter {m : Machine} {entry : Nat} {text : List Char} {words : List (List Char)}
    (hcut : m.Cut entry text words) (keep : List Char → Bool) :
    m.Cut entry (words.filter keep).flatten (words.filter keep) := by
  induction hcut with
  | nil => exact .nil
  | @cons text word rest words hsplit hfirst hrest ih =>
      by_cases hkeep : keep word
      · rw [List.filter_cons_of_pos hkeep, List.flatten_cons]
        refine .cons rfl ?_ ih
        rw [hsplit] at hfirst
        apply hfirst.exchange
        -- Only the last segment can be one that the end of the text has cut.
        rintro rfl
        obtain rfl := hrest.unique .nil
        rfl
      · rwa [List.filter_cons_of_neg hkeep]

end Machine

namespace Preprocessor

/-- Where every segment passes, the response is the text and nothing else. -/
theorem Answers.eq_of_passed {p : Preprocessor} {text : List Char} {words : List (List Char)}
    {r : Response} (hanswers : p.Answers text words r) (hcut : p.machine.Cut p.entry text words)
    (hpassed : ∀ word ∈ words, p.categoryOf word = some p.preferences.passthroughCategory) :
    r = ⟨String.ofList text, [], []⟩ := by
  have hcategory : ∀ t ∈ p.machine.segmentTokens p.entry .start words,
      t.value.category = some p.preferences.passthroughCategory := by
    intro t hmem
    obtain ⟨before, word, after, rfl, rfl⟩ := Machine.exists_of_mem_segmentTokens hmem
    exact hpassed word (by simp)
  have htext : r.text = String.ofList text := by
    rw [hanswers.text_eq, List.filter_eq_self.mpr (by simpa using hpassed), hcut.flatten_eq]
  have hwarnings : r.warnings = [] := by
    rw [hanswers.warnings_eq, List.filter_eq_nil_iff]
    intro t hmem
    simp [hcategory t hmem]
  have herrors : r.errors = [] := by
    rw [hanswers.errors_eq, List.filter_eq_nil_iff]
    intro t hmem
    simp [hcategory t hmem]
  obtain ⟨passed, warnings, errors⟩ := r
  simp only at htext hwarnings herrors
  rw [htext, hwarnings, herrors]

/-- A pass over the text of a response gives the same text again, and neither warnings nor
errors. -/
theorem process_response_text (p : Preprocessor) (tracing again : Bool) (text : String) :
    ∃ r, (p.process tracing (.ofText text)).1.value = .ok r ∧
      (p.process again (.ofText r.text)).1.value = .ok ⟨r.text, [], []⟩ := by
  obtain ⟨words, hcut, hsegments⟩ := p.machine.exists_cut_segments p.entry text
  refine ⟨respond p.preferences (p.machine.segments p.entry text), rfl, ?_⟩
  rw [hsegments]
  have hanswers := answers_respond hcut
  generalize respond p.preferences (p.machine.segmentTokens p.entry .start words) = r at hanswers ⊢
  have hkept := hcut.filter fun word =>
    p.categoryOf word = some p.preferences.passthroughCategory
  have htext := congrArg String.toList hanswers.text_eq
  rw [String.toList_ofList] at htext
  rw [← htext] at hkept
  obtain ⟨words', hcut', hsegments'⟩ := p.machine.exists_cut_segments p.entry r.text
  obtain rfl := hcut'.unique hkept
  have hanswers' := answers_respond hcut'
  have hresponse := hanswers'.eq_of_passed hcut' fun word hword => by
    simpa using (List.mem_filter.mp hword).2
  rw [String.ofList_toList] at hresponse
  change Except.ok (respond p.preferences (p.machine.segments p.entry r.text)) = _
  rw [hsegments', hresponse]

end Preprocessor

end TableLexer
