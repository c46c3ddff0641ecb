import Mathlib.Data.List.Forall2
import TableLexer.Diagnostic.Session
/-!
What becomes of a notice.  A session makes an event of it, hands the event to the service, and collects
it if it is an error or a warning and a file is at work.  Nothing else of the session changes, so
several notices give the events that each of them would give alone, in their order.
-/

namespace TableLexer

namespace Details

/-- A detail has the value that it was given last. -/
@[simp] theorem lookup_put_self (details : Details) (name value : String) :
    (details.put name value).lookup name = some value := by
  induction details with
  | nil => simp [put]
  | cons d rest ih =>
      obtain ⟨n, v⟩ := d
      rw [put]
      split
      · simp
      split
      · simp
      next hlt hne =>
        rw [List.lookup_cons, beq_false_of_ne hne]
        exact ih

/-- Giving one detail a value leaves the others. -/
theorem lookup_put_of_ne {name other : String} (hne : other ≠ name) (details : Details)
    (value : String) : (details.put name value).lookup other = details.lookup other := by
  induction details with
  | nil => simp [put, hne]
  | cons d rest ih =>
      obtain ⟨n, v⟩ := d
      rw [put]
      split
      · rw [List.lookup_cons, beq_false_of_ne hne]
      split
      next heq => simp [List.lookup_cons, ← heq, beq_false_of_ne hne]
      · rw [List.lookup_cons, List.lookup_cons, ih]

end Details

namespace Session

variable {s s' : Session}

/-- The event of a notice, without the file at work. -/
def plainEventOf (s : Session) (n : Notice) : Event :=
  { s with context := none }.eventOf n

/-- An event says which file is at work where that is wanted, and otherwise it is plain. -/
theorem eventOf_cases (s : Session) (n : Notice) :
    (∃ file, s.context = some file ∧ s.preferences.fileContext = true ∧
      s.eventOf n = ((s.plainEventOf n).withDetail Event.filePathName file.path.text).withDetail
        Event.fileIdName (toString file.id)) ∨
    ((s.context = none ∨ s.preferences.fileContext = false) ∧
      s.eventOf n = s.plainEventOf n) := by
  cases hcontext : s.context with
  | none => exact .inr ⟨.inl rfl, by simp only [eventOf, plainEventOf, hcontext]⟩
  | some file =>
      cases hwanted : s.preferences.fileContext with
      | true =>
          exact .inl ⟨file, rfl, rfl, by simp only [eventOf, plainEventOf, hcontext, hwanted, if_true]⟩
      | false =>
          exact .inr ⟨.inr rfl, by simp [eventOf, plainEventOf, hcontext, hwanted]⟩

@[simp] theorem level_eventOf (s : Session) (n : Notice) : (s.eventOf n).level = n.level := by
  rcases s.eventOf_cases n with ⟨file, -, -, hevent⟩ | ⟨-, hevent⟩ <;> rw [hevent] <;> rfl

@[simp] theorem code_eventOf (s : Session) (n : Notice) : (s.eventOf n).code = n.code := by
  rcases s.eventOf_cases n with ⟨file, -, -, hevent⟩ | ⟨-, hevent⟩ <;> rw [hevent] <;> rfl

@[simp] theorem span_eventOf (s : Session) (n : Notice) : (s.eventOf n).span = n.span := by
  rcases s.eventOf_cases n with ⟨file, -, -, hevent⟩ | ⟨-, hevent⟩ <;> rw [hevent] <;> rfl

/-- Details that do not name the file are those that the notice states. -/
theorem lookup_eventOf_of_ne {name : String} (hpath : name ≠ Event.filePathName)
    (hid : name ≠ Event.fileIdName) (s : Session) (n : Notice) :
    (s.eventOf n).details.lookup name = (s.plainEventOf n).details.lookup name := by
  rcases s.eventOf_cases n with ⟨file, -, -, hevent⟩ | ⟨-, hevent⟩
  · rw [hevent, Event.withDetail, Details.lookup_put_of_ne hid, Event.withDetail,
      Details.lookup_put_of_ne hpath]
  · rw [hevent]

/-- A notice with one detail gives an event with that detail, clipped. -/
theorem lookup_eventOf_of_details {n : Notice} {name value : String}
    (hdetails : n.details = [(name, value)]) (huntimed : n.timed = false)
    (hpath : name ≠ Event.filePathName) (hid : name ≠ Event.fileIdName) (s : Session) :
    (s.eventOf n).details.lookup name = some (clip value) := by
  rw [lookup_eventOf_of_ne hpath hid]
  simp [plainEventOf, eventOf, hdetails, huntimed]

/-- Nobody but the session says which file is at work. -/
theorem lookup_eventOf_of_context {file : FileContext} (hcontext : s.context = some file)
    (hwanted : s.preferences.fileContext = true) (n : Notice) :
    (s.eventOf n).details.lookup Event.filePathName = some file.path.text ∧
      (s.eventOf n).details.lookup Event.fileIdName = some (toString file.id) := by
  rcases s.eventOf_cases n with ⟨other, hother, -, hevent⟩ | ⟨hnone | hunwanted, -⟩
  · obtain rfl := Option.some.inj (hother.symm.trans hcontext)
    have hne : Event.filePathName ≠ Event.fileIdName := by decide
    rw [hevent, Event.withDetail, Event.withDetail]
    exact ⟨by rw [Details.lookup_put_of_ne hne, Details.lookup_put_self],
      Details.lookup_put_self _ _ _⟩
  · simp [hnone] at hcontext
  · simp [hwanted] at hunwanted

/-- Two sessions that differ in nothing but what they collected and received. -/
structure SameSetting (s s' : Session) : Prop where
  preferences : s'.preferences = s.preferences
  threshold : s'.threshold = s.threshold
  elapsed : s'.elapsed = s.elapsed
  context : s'.context = s.context

theorem SameSetting.eventOf (hsame : s.SameSetting s') (n : Notice) :
    s'.eventOf n = s.eventOf n := by
  unfold Session.eventOf
  rw [hsame.preferences, hsame.elapsed, hsame.context]

theorem SameSetting.wantsDebug (hsame : s.SameSetting s') : s'.wantsDebug = s.wantsDebug := by
  rw [Session.wantsDebug, hsame.preferences, Session.wantsDebug]

theorem sameSetting_deliver (s : Session) (e : Event) : s.SameSetting (s.deliver e) := by
  unfold deliver
  split <;> exact ⟨rfl, rfl, rfl, rfl⟩

theorem sameSetting_collect (s : Session) (e : Event) : s.SameSetting (s.collect e) := by
  unfold collect
  split
  · split <;> exact ⟨rfl, rfl, rfl, rfl⟩
  · exact ⟨rfl, rfl, rfl, rfl⟩

theorem sameSetting_emit (s : Session) (n : Notice) : s.SameSetting (s.emit n) := by
  have hdelivered := s.sameSetting_deliver (s.eventOf n)
  have hcollected := (s.deliver (s.eventOf n)).sameSetting_collect (s.eventOf n)
  exact ⟨hcollected.preferences.trans hdelivered.preferences,
    hcollected.threshold.trans hdelivered.threshold, hcollected.elapsed.trans hdelivered.elapsed,
    hcollected.context.trans hdelivered.context⟩

theorem received_deliver (s : Session) (e : Event) :
    (s.deliver e).received.toList =
      s.received.toList ++ [e].filter (fun e => s.threshold.passes e.level) := by
  unfold deliver
  split
  next hpasses => simp [hpasses]
  next hfails => simp [hfails]

/-- Collecting does not reach the service. -/
theorem received_collect (s : Session) (e : Event) : (s.collect e).received = s.received := by
  unfold collect
  split
  · split <;> rfl
  · rfl

theorem received_emit (s : Session) (n : Notice) :
    (s.emit n).received.toList =
      s.received.toList ++ [s.eventOf n].filter (fun e => s.threshold.passes e.level) := by
  rw [emit, received_collect, received_deliver]

/-- Whether a notice becomes an event at all. -/
def admits (s : Session) (n : Notice) : Bool := n.level ≠ .debug || s.wantsDebug

/-- The events of notices, in order, as the service gets to see them. -/
def handed (s : Session) (notices : List Notice) : List Event :=
  (notices.filter s.admits).map s.eventOf

theorem post_of_admits {n : Notice} (hadmits : s.admits n = true) : s.post n = s.emit n := by
  rw [post, if_neg]
  rintro ⟨hdebug, hunwanted⟩
  simp [admits, hdebug, hunwanted] at hadmits

theorem post_of_not_admits {n : Notice} (hadmits : s.admits n = false) : s.post n = s := by
  rw [post, if_pos]
  simpa [admits] using hadmits

theorem SameSetting.handed (hsame : s.SameSetting s') (notices : List Notice) :
    s'.handed notices = s.handed notices := by
  have hadmits : s'.admits = s.admits := by
    funext n
    rw [admits, hsame.wantsDebug, admits]
  rw [Session.handed, hadmits, Session.handed]
  exact List.map_congr_left fun n _ => hsame.eventOf n

/-- Posting notices hands their events to the service, which receives those that its threshold lets
through. -/
theorem received_postAll (s : Session) (notices : List Notice) :
    (s.postAll notices).received.toList =
      s.received.toList ++ (s.handed notices).filter (fun e => s.threshold.passes e.level) := by
  induction notices generalizing s with
  | nil => simp [postAll, handed]
  | cons n notices ih =>
      rw [postAll, List.foldl_cons, ← postAll, ih]
      cases hadmits : s.admits n with
      | true =>
          have hsame := s.sameSetting_emit n
          rw [post_of_admits hadmits, received_emit, hsame.handed, hsame.threshold,
            List.append_assoc, ← List.filter_append, handed, handed, List.filter_cons_of_pos hadmits,
            List.map_cons, List.singleton_append]
      | false =>
          rw [post_of_not_admits hadmits, handed, handed,
            List.filter_cons_of_neg (by rw [hadmits]; exact Bool.false_ne_true)]

theorem handed_append (s : Session) (first second : List Notice) :
    s.handed (first ++ second) = s.handed first ++ s.handed second := by
  rw [handed, List.filter_append, List.map_append, handed, handed]

/-- The events of some codes are those of the notices of these codes. -/
theorem filter_handed (s : Session) (test : Code → Bool) (notices : List Notice) :
    (s.handed notices).filter (fun e => test e.code) =
      s.handed (notices.filter fun n => test n.code) := by
  rw [handed, List.filter_map, handed, List.filter_filter, List.filter_filter]
  congr 1
  apply List.filter_congr
  intro n _
  rw [Function.comp_apply, code_eventOf, Bool.and_comm]

theorem handed_singleton {n : Notice} (hlevel : n.level ≠ .debug) (s : Session) :
    s.handed [n] = [s.eventOf n] := by
  simp [handed, admits, hlevel]

/-- If some things are reported by one notice of the wanted codes each, and nothing of these codes is
said about the others, then the events of these codes report them one by one and in order. -/
theorem forall₂_handed {α : Type} {R : α → Event → Prop} {reported : α → Bool}
    {notices : α → List Notice} {test : Code → Bool}
    (hreported : ∀ a, reported a = true → ∃ n, (notices a).filter (fun n => test n.code) = [n] ∧
      n.level ≠ .debug ∧ R a (s.eventOf n))
    (hothers : ∀ a, reported a = false → (notices a).filter (fun n => test n.code) = [])
    (things : List α) :
    List.Forall₂ R (things.filter reported)
      (s.handed ((things.flatMap notices).filter fun n => test n.code)) := by
  induction things with
  | nil => exact .nil
  | cons a things ih =>
      rw [List.flatMap_cons, List.filter_append, handed_append]
      cases hcase : reported a with
      | true =>
          obtain ⟨n, hnotices, hlevel, hR⟩ := hreported a hcase
          rw [hnotices, s.handed_singleton hlevel, List.filter_cons_of_pos hcase]
          exact .cons hR ih
      | false =>
          rw [hothers a hcase, List.filter_cons_of_neg (by simp [hcase])]
          exact ih

end Session

end TableLexer
