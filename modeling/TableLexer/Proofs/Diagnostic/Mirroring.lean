import TableLexer.Proofs.Diagnostic.Posting
import TableLexer.Proofs.Lexer.Calls
import TableLexer.Proofs.Lexer.Items
import TableLexer.Proofs.Origins
/-!
Results and their events.  Whatever is wrong with a program is told twice: in the result, as a token or a
segment, and to the service, as an event.  Both tell the same in the same order.
-/

namespace TableLexer

/-- An event reports a token: it has its span, and its lexeme as a clipped literal under a name. -/
structure Event.Reports (e : Event) (level : Level) (code : Code) (name : String)
    (t : Located Token) : Prop where
  level_eq : e.level = level
  code_eq : e.code = code
  span_eq : e.span = some t.span
  lexeme_eq : e.details.lookup name = some (clip (Literal.ofText t.value.lexeme))

theorem Session.reports_eventOf {n : Notice} {name : String} {t : Located Token}
    (hspan : n.span = some t.span) (hdetails : n.details = [(name, Literal.ofText t.value.lexeme)])
    (huntimed : n.timed = false) (hpath : name ≠ Event.filePathName)
    (hid : name ≠ Event.fileIdName) (s : Session) :
    (s.eventOf n).Reports n.level n.code name t where
  level_eq := s.level_eventOf n
  code_eq := s.code_eventOf n
  span_eq := (s.span_eventOf n).trans hspan
  lexeme_eq := lookup_eventOf_of_details hdetails huntimed hpath hid s

namespace Lexer

def Item.isFault : Item → Bool
  | token _ => false
  | bad _ | unrecognized _ => true

/-- An event reports an item that is no good token; the characters that begin no token have a code of
their own. -/
def Item.ReportedBy (i : Located Item) (e : Event) : Prop :=
  match i.value with
  | .token _ => False
  | .bad _ => e.Reports .error .badToken "lexeme" (i.map toToken)
  | .unrecognized _ => e.Reports .error .unrecognized "character" (i.map toToken)

/-- The codes of events about items. -/
def isFaultCode (code : Code) : Bool := code = .badToken || code = .unrecognized

/-- The items that are no good tokens give the bad tokens. -/
theorem isBad_toToken_of_mem_items {l : Lexer} {s : State} {i : Located Item}
    (hmem : i ∈ l.items s) : i.value.toToken.isBad = i.value.isFault := by
  fun_induction items l s with
  | case1 s reached hitem => simp at hmem
  | case2 s item reached hitem ih =>
      rcases List.mem_cons.mp hmem with rfl | hmem
      · cases item with
        | token t => exact isBad_of_item_eq_token hitem
        | bad lexeme => rfl
        | unrecognized c => rfl
      · exact ih hmem

/-- Tokenizing has nothing to say besides what it says about items, apart from its beginning and its
end. -/
theorem filter_notices_tokenize {l : Lexer} {text : String} {stream : TokenStream}
    (hok : (l.tokenize text).1.value = .ok stream) {test : Code → Bool}
    (hstart : test .debugging = false) (hdone : test .tokenized = false) :
    (l.tokenize text).1.notices.filter (fun n => test n.code) =
      ((l.items (.ofText text)).flatMap fun i => l.itemNotices i.value i.span).filter
        fun n => test n.code := by
  have hnotices := (takesIn_tokenizeFrom hok).notices
  rw [tokenize, hnotices, List.filter_append, List.filter_append, List.reverse_singleton,
    List.filter_singleton, List.filter_singleton]
  simp only [startNotice, doneNotice, Notice.debug, Notice.success, hstart, hdone]
  simp

/-- Where bad tokens are reported, one notice reports each item that is no good token, and nothing is said
about the others. -/
theorem forall₂_reportedBy {l : Lexer} (hwanted : l.preferences.logBadTokens = true)
    {test : Code → Bool} (hbad : test .badToken = true) (hunrecognized : test .unrecognized = true)
    (s : Session) (items : List (Located Item)) :
    List.Forall₂ Item.ReportedBy (items.filter fun i => i.value.isFault)
      (s.handed ((items.flatMap fun i => l.itemNotices i.value i.span).filter
        fun n => test n.code)) := by
  apply Session.forall₂_handed
  · rintro ⟨item, span⟩ hfault
    cases item with
    | token t => simp [Item.isFault] at hfault
    | bad lexeme =>
        refine ⟨.error .badToken "Bad token" [("lexeme", Literal.ofText lexeme)] (some span), ?_,
          by simp [Notice.error], s.reports_eventOf rfl rfl rfl (by decide) (by decide)⟩
        simp [itemNotices, hwanted, itemNotice?, Notice.error, hbad]
    | unrecognized c =>
        refine ⟨.error .unrecognized "Unrecognized character"
          [("character", Literal.ofText (String.singleton c))] (some span), ?_,
          by simp [Notice.error], s.reports_eventOf rfl rfl rfl (by decide) (by decide)⟩
        simp [itemNotices, hwanted, itemNotice?, Notice.error, hunrecognized]
  · rintro ⟨item, span⟩ hgood
    cases item with
    | token t => simp [itemNotices, itemNotice?]
    | bad lexeme => simp [Item.isFault] at hgood
    | unrecognized c => simp [Item.isFault] at hgood

/-- The events about items are those about the items that are no good tokens, one by one and in order:
these items are the bad tokens of the stream, and those with the code of unrecognized characters were
counted as such.  Where bad tokens are not reported there is no such event. -/
structure Mirrored (l : Lexer) (text : String) (stream : TokenStream) (events : List Event) :
    Prop where
  faults : ((l.items (.ofText text)).filter fun i => i.value.isFault).map (Located.map Item.toToken) =
    stream.bad
  counted : ((l.items (.ofText text)).filter fun i => i.value.isFault).countP
    (fun i => i.value.isUnrecognized) = (l.tokenize text).2.metrics.unrecognized
  reported : l.preferences.logBadTokens = true → List.Forall₂ Item.ReportedBy
    ((l.items (.ofText text)).filter fun i => i.value.isFault) events
  silent : l.preferences.logBadTokens = false → events = []

theorem mirrored_of_tokenize {l : Lexer} {text : String} {stream : TokenStream}
    (hok : (l.tokenize text).1.value = .ok stream) (s : Session) :
    l.Mirrored text stream
      ((s.handed (l.tokenize text).1.notices).filter fun e => isFaultCode e.code) := by
  have htakes := takesIn_tokenizeFrom hok
  have hevents := s.filter_handed isFaultCode (l.tokenize text).1.notices
  rw [filter_notices_tokenize hok (by decide) (by decide)] at hevents
  constructor
  · have htokens : stream.toList = (l.items (.ofText text)).map (Located.map Item.toToken) :=
      htakes.tokens
    rw [TokenStream.bad, htokens, List.filter_map]
    congr 1
    exact List.filter_congr fun i hmem => (isBad_toToken_of_mem_items hmem).symm
  · rw [tokenize, htakes.unrecognized, List.countP_filter]
    refine (List.countP_congr fun i _ => ?_).trans (Nat.zero_add _).symm
    cases i.value <;> simp [Item.isFault, Item.isUnrecognized]
  · intro hwanted
    rw [hevents]
    exact forall₂_reportedBy hwanted (by decide) (by decide) s _
  · intro hunwanted
    rw [hevents]
    simp [itemNotices, hunwanted, Session.handed]

end Lexer

namespace Machine

theorem Cut.ne_nil_of_mem {m : Machine} {entry : Nat} {text word : List Char}
    {words : List (List Char)} (hcut : m.Cut entry text words) (hmem : word ∈ words) :
    word ≠ [] := by
  induction hcut with
  | nil => simp at hmem
  | cons hsplit hfirst hrest ih =>
      rcases List.mem_cons.mp hmem with rfl | hmem
      · exact hfirst.nonempty
      · exact ih hmem

/-- Segments stand in the order of the text. -/
theorem ordered_segmentTokens (m : Machine) (entry : Nat) (place : Position)
    {words : List (List Char)} (hne : ∀ word ∈ words, word ≠ []) :
    Lexer.Ordered (m.segmentTokens entry place words) ∧
      ∀ t ∈ m.segmentTokens entry place words, place.offset ≤ t.span.start.offset := by
  induction words generalizing place with
  | nil => exact ⟨⟨List.forall_mem_nil _, .nil⟩, List.forall_mem_nil _⟩
  | cons word words ih =>
      obtain ⟨hfirst, hwords⟩ := List.forall_mem_cons.mp hne
      have hpos : 0 < word.length := List.length_pos_iff.mpr hfirst
      obtain ⟨hordered, hlater⟩ := ih (place.past word) hwords
      have hstop := place.offset_past word
      rw [hstop] at hlater
      have hsingle : Lexer.Ordered [m.segmentToken entry place word] :=
        Lexer.ordered_singleton (hstop ▸ Nat.lt_add_of_pos_right hpos)
      refine ⟨Lexer.ordered_append hsingle hordered
        (List.forall_mem_singleton.mpr (Nat.le_of_eq hstop)) hlater, ?_⟩
      refine List.forall_mem_cons.mpr ⟨Nat.le_refl _, fun t hmem => ?_⟩
      exact Nat.le_trans (Nat.le_add_right _ _) (hlater t hmem)

theorem ordered_segments (m : Machine) (entry : Nat) (text : String) :
    Lexer.Ordered (m.segments entry text) := by
  obtain ⟨words, hcut, hsegments⟩ := m.exists_cut_segments entry text
  rw [hsegments]
  exact (m.ordered_segmentTokens entry .start fun word => hcut.ne_nil_of_mem).1

end Machine

theorem Lexer.Ordered.filter {tokens : List (Located Token)} (hordered : Ordered tokens)
    (keep : Located Token → Bool) : Ordered (tokens.filter keep) :=
  ⟨fun t hmem => hordered.1 t (List.mem_filter.mp hmem).1, hordered.2.filter keep⟩

namespace Preprocessor

/-- An event reports a segment; errors and warnings have codes of their own. -/
def ReportedBy (t : Located Token) (e : Event) : Prop :=
  if t.value.isBad then e.Reports .error .segmentError "lexeme" t
  else e.Reports .warning .segmentWarning "lexeme" t

/-- Whether a segment is reported with one of some codes. -/
def isReported (p : Preferences.Preprocessing) (test : Code → Bool) (t : Located Token) : Bool :=
  match role p t.value with
  | .error => test .segmentError
  | .warning => test .segmentWarning
  | .passed | .dropped => false

theorem isBad_eq_role (p : Preferences.Preprocessing) (t : Token) :
    t.isBad = decide (role p t = .error) := by
  rw [Bool.eq_iff_iff, decide_eq_true_iff, role_eq_iff, Role.admits, Token.isBad,
    Option.isNone_iff_eq_none]

/-- A pass has nothing to say besides what it says about segments, apart from its end. -/
theorem filter_notices_processText (p : Preprocessor) (tracing : Bool) (text : String)
    {test : Code → Bool} (hdone : test .preprocessed = false) :
    (p.processText tracing text).notices.filter (fun n => test n.code) =
      ((p.machine.segments p.entry text).flatMap (segmentNotices p.preferences tracing)).filter
        fun n => test n.code := by
  rw [processText, List.filter_append, List.filter_singleton]
  simp only [doneNotice, Notice.success, hdone]
  simp

/-- One notice reports each segment that is an error or a warning, and nothing is said about the others
unless they are traced. -/
theorem forall₂_reportedBy (p : Preferences.Preprocessing) (tracing : Bool) {test : Code → Bool}
    (htrace : test .debugging = false) (s : Session) (segments : List (Located Token)) :
    List.Forall₂ ReportedBy (segments.filter (isReported p test))
      (s.handed ((segments.flatMap (segmentNotices p tracing)).filter fun n => test n.code)) := by
  have htraced : ∀ t, (segmentNotices p tracing t).filter (fun n => test n.code) =
      (roleNotice? p t).toList.filter fun n => test n.code := by
    intro t
    cases tracing <;> simp [segmentNotices, traceNotice, Notice.debug, htrace]
  apply Session.forall₂_handed
  · intro t hreported
    rw [htraced]
    cases hrole : role p t.value with
    | error =>
        rw [isReported, hrole] at hreported
        refine ⟨.error .segmentError "Preprocessor error token"
          [("lexeme", Literal.ofText t.value.lexeme)] (some t.span), ?_, by simp [Notice.error], ?_⟩
        · simp [roleNotice?, hrole, Notice.error, hreported]
        · rw [ReportedBy, isBad_eq_role p, hrole, if_pos (by decide)]
          exact s.reports_eventOf rfl rfl rfl (by decide) (by decide)
    | warning =>
        rw [isReported, hrole] at hreported
        refine ⟨.warning .segmentWarning "Preprocessor warning token"
          [("lexeme", Literal.ofText t.value.lexeme)] (some t.span), ?_, by simp [Notice.warning], ?_⟩
        · simp [roleNotice?, hrole, Notice.warning, hreported]
        · rw [ReportedBy, isBad_eq_role p, hrole, if_neg (by decide)]
          exact s.reports_eventOf rfl rfl rfl (by decide) (by decide)
    | passed => simp [isReported, hrole] at hreported
    | dropped => simp [isReported, hrole] at hreported
  · intro t hother
    rw [htraced]
    cases hrole : role p t.value <;> simp_all [isReported, roleNotice?, Notice.error, Notice.warning]

/-- The codes of events about segments. -/
def isSegmentCode (code : Code) : Bool := code = .segmentError || code = .segmentWarning

/-- The events about segments report the errors and warnings of a response, merged in the order of the
program. -/
def Mirrored (r : Response) (events : List Event) : Prop :=
  ∃ merged, merged.filter (fun t => t.value.isBad) = r.errors ∧
    merged.filter (fun t => !t.value.isBad) = r.warnings ∧ Lexer.Ordered merged ∧
    List.Forall₂ ReportedBy merged events

theorem mirrored_of_process {p : Preprocessor} {tracing : Bool} {state : State} {r : Response}
    (hok : (p.process tracing state).1.value = .ok r) (s : Session) :
    Mirrored r
      ((s.handed (p.process tracing state).1.notices).filter fun e => isSegmentCode e.code) := by
  obtain ⟨unread⟩ := state
  cases unread with
  | none => simp [process] at hok
  | some text =>
      obtain rfl := Except.ok.inj hok
      refine ⟨(p.machine.segments p.entry text).filter (isReported p.preferences isSegmentCode), ?_, ?_,
        (p.machine.ordered_segments p.entry text).filter _, ?_⟩
      · rw [List.filter_filter]
        apply List.filter_congr
        intro t _
        rw [isBad_eq_role p.preferences, isReported]
        cases role p.preferences t.value <;> rfl
      · rw [List.filter_filter]
        apply List.filter_congr
        intro t _
        rw [isBad_eq_role p.preferences, isReported]
        cases role p.preferences t.value <;> rfl
      · rw [process]
        simp only [Logged.map]
        rw [s.filter_handed, filter_notices_processText p tracing text (by decide)]
        exact forall₂_reportedBy p.preferences tracing (by decide) s _

end Preprocessor

namespace Pipeline

/-- A program that goes through both passes is reported by both, one after the other. -/
theorem notices_processText {p : Pipeline} {tracing : Bool} {text : String} {state : State}
    {r : Result} (hok : (p.processText tracing text state).1.value = .ok r) :
    (p.processText tracing text state).1.notices =
      (p.preprocessor.processText tracing text).notices ++
        (p.lexer.tokenize r.response.text).1.notices ++ [doneNotice "<source>" r] := by
  obtain ⟨hresponse, htokens⟩ := of_processText hok
  rw [hresponse] at htokens
  have hvalue := hok
  rw [value_processText, htokens] at hvalue
  have hresult := Except.ok.inj hvalue
  rw [hresponse, processText, processOpen, Preprocessor.process]
  simp only [Preprocessor.State.ofText, Logged.map, htokens, hresult]

/-- The codes of events about errors. -/
def isErrorCode (code : Code) : Bool := Lexer.isFaultCode code || code = .segmentError

/-- Where bad tokens are reported, the events about errors are as many as the errors of the result. -/
theorem countP_handed_of_processText {p : Pipeline} {tracing : Bool} {text : String} {state : State}
    {r : Result} (hok : (p.processText tracing text state).1.value = .ok r)
    (hwanted : p.lexer.preferences.logBadTokens = true) (s : Session) :
    (s.handed (p.processText tracing text state).1.notices).countP (fun e => isErrorCode e.code) =
      r.errorCount := by
  obtain ⟨hresponse, htokens⟩ := of_processText hok
  have hfirst := Preprocessor.forall₂_reportedBy p.preprocessor.preferences tracing
    (show isErrorCode .debugging = false by decide) s
    (p.preprocessor.machine.segments p.preprocessor.entry text)
  rw [← p.preprocessor.filter_notices_processText tracing text (by decide)] at hfirst
  have hsecond := Lexer.forall₂_reportedBy hwanted (show isErrorCode .badToken = true by decide)
    (by decide) s (p.lexer.items (.ofText r.response.text))
  rw [← Lexer.filter_notices_tokenize htokens (by decide) (by decide)] at hsecond
  have hsegments : (p.preprocessor.machine.segments p.preprocessor.entry text).filter
      (Preprocessor.isReported p.preprocessor.preferences isErrorCode) = r.response.errors := by
    rw [hresponse]
    apply List.filter_congr
    intro t _
    rw [Preprocessor.isReported]
    cases Preprocessor.role p.preprocessor.preferences t.value <;> rfl
  have hdone : s.handed ([doneNotice "<source>" r].filter fun n => isErrorCode n.code) = [] := rfl
  rw [List.countP_eq_length_filter, s.filter_handed, notices_processText hok, List.filter_append,
    List.filter_append, s.handed_append, s.handed_append, List.length_append, List.length_append,
    hdone, ← hfirst.length_eq, ← hsecond.length_eq, hsegments]
  have hbad := congrArg List.length (Lexer.mirrored_of_tokenize htokens s).faults
  rw [List.length_map] at hbad
  rw [hbad]
  rfl

/-- Whatever is wrong with a program is told to the service as it is told in the result.  The service
receives the events of notices in their order, as far as its threshold lets them through.  The events of
a tokenized program report its bad tokens, those of a preprocessed program its errors and warnings, in the
order of the program.  So the events of a processed program count its errors. -/
theorem events_mirror_results (p : Pipeline) (s : Session) :
    (∀ notices, (s.postAll notices).received.toList = s.received.toList ++
      (s.handed notices).filter fun e => s.threshold.passes e.level) ∧
    (∀ text stream, (p.lexer.tokenize text).1.value = .ok stream →
      p.lexer.Mirrored text stream
        ((s.handed (p.lexer.tokenize text).1.notices).filter fun e => Lexer.isFaultCode e.code)) ∧
    (∀ tracing state r, (p.preprocessor.process tracing state).1.value = .ok r →
      Preprocessor.Mirrored r
        ((s.handed (p.preprocessor.process tracing state).1.notices).filter
          fun e => Preprocessor.isSegmentCode e.code)) ∧
    ∀ tracing text state r, (p.processText tracing text state).1.value = .ok r →
      p.lexer.preferences.logBadTokens = true →
      (s.handed (p.processText tracing text state).1.notices).countP (fun e => isErrorCode e.code) =
        r.errorCount :=
  ⟨s.received_postAll, fun _ _ hok => Lexer.mirrored_of_tokenize hok s,
    fun _ _ _ hok => Preprocessor.mirrored_of_process hok s,
    fun _ _ _ _ hok hwanted => countP_handed_of_processText hok hwanted s⟩

end Pipeline

end TableLexer
