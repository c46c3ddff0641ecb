import Mathlib.Data.List.DropRight
import TableLexer.Proofs.Diagnostic.Collecting
import TableLexer.Proofs.Diagnostic.Posting
/-!
Dispatch.  Whoever logs something names no file: the session knows which file is at work.  Every event goes
to the service, and an error or a warning of a file goes to the collector as well.  So for each path the
collector keeps what the service received while that path was at work.
-/

namespace TableLexer

/-- Something that is asked of a session.  A bare error goes to the service and to nobody else. -/
inductive LogCall where
  | enter (path : Path) (id : Nat)
  | leave
  | error (code : Code) (message : String) (details : List (String × String)) (span : Option Span)
  | warning (code : Code) (message : String) (details : List (String × String)) (span : Option Span)
  | success (code : Code) (message : String) (details : List (String × String))
  | info (message : String) (details : List (String × String))
  | debug (message : String) (details : List (String × String))
  | bareError (code : Code) (message : String)
  | clear
deriving DecidableEq

namespace LogCall

def notice? : LogCall → Option Notice
  | error code message details span => some (.error code message details span)
  | warning code message details span => some (.warning code message details span)
  | success code message details => some (.success code message details)
  | info message details => some (.info message details)
  | debug message details => some (.debug message details)
  | enter _ _ | leave | bareError _ _ | clear => none

/-- Whether a call logs an error or a warning with details. -/
def isCollected : LogCall → Bool
  | error .. | warning .. => true
  | _ => false

end LogCall

namespace Session

def call (s : Session) : LogCall → Session
  | .enter path id => s.enter path id
  | .leave => s.leave
  | .error code message details span => s.emit (.error code message details span)
  | .warning code message details span => s.emit (.warning code message details span)
  | .success code message details => s.emit (.success code message details)
  | .info message details => s.emit (.info message details)
  | .debug message details => s.emit (.debug message details)
  | .bareError code message => s.deliver { level := .error, code, message }
  | .clear => s.clearCollected

theorem call_of_notice {s : Session} {c : LogCall} {n : Notice} (hnotice : c.notice? = some n) :
    s.call c = s.emit n := by
  cases c <;> cases hnotice <;> rfl

/-- The session before any call, with a service that lets every level through. -/
def fresh (preferences : Preferences.Logging) (elapsed : String) : Session :=
  { preferences, threshold := .debug, elapsed }

end Session

/-- A call, and the session in which it was made. -/
structure LogStep where
  before : Session
  call : LogCall

namespace LogStep

/-- The events that the service received because of a call. -/
def received (step : LogStep) : List Event :=
  (step.before.call step.call).received.toList.drop step.before.received.size

/-- Whether a step logs an error or a warning while a path is at work. -/
def concerns (p : Path) (step : LogStep) : Bool :=
  step.call.isCollected && step.before.context.any fun file => p.parts = file.path.parts

/-- The steps after the last one that clears the collector. -/
def sinceClear (steps : List LogStep) : List LogStep :=
  steps.rtakeWhile fun step => step.call ≠ .clear

end LogStep

namespace Session

/-- The calls one after another, each with the session in which it is made. -/
def steps (s : Session) : List LogCall → List LogStep
  | [] => []
  | c :: calls => ⟨s, c⟩ :: (s.call c).steps calls

def afterCalls (s : Session) (calls : List LogCall) : Session := calls.foldl call s

theorem steps_concat (s : Session) (calls : List LogCall) (c : LogCall) :
    s.steps (calls ++ [c]) = s.steps calls ++ [⟨s.afterCalls calls, c⟩] := by
  induction calls generalizing s with
  | nil => rfl
  | cons first calls ih =>
      rw [List.cons_append, steps, ih, steps, List.cons_append]
      rfl

theorem afterCalls_concat (s : Session) (calls : List LogCall) (c : LogCall) :
    s.afterCalls (calls ++ [c]) = (s.afterCalls calls).call c := by
  rw [afterCalls, List.foldl_concat, afterCalls]

variable {s : Session} {c : LogCall} {n : Notice}

theorem collector_deliver (s : Session) (e : Event) : (s.deliver e).collector = s.collector := by
  unfold deliver
  split <;> rfl

/-- An error or a warning of the file at work is collected, as the event that was delivered. -/
theorem collector_emit_of_context {file : FileContext}
    (hlevel : n.level = .error ∨ n.level = .warning) (hcontext : s.context = some file) :
    (s.emit n).collector = s.collector.record file.path (s.eventOf n) := by
  have hfault : ((s.eventOf n).isError || (s.eventOf n).isWarning) = true := by
    rw [Event.isError, Event.isWarning, level_eventOf]
    rcases hlevel with hlevel | hlevel <;> rw [hlevel] <;> rfl
  rw [emit, collect]
  simp only [(s.sameSetting_deliver _).context, hcontext, hfault, if_true, collector_deliver]

/-- Everything else is not. -/
theorem collector_emit_of_other
    (hother : s.context = none ∨ n.level ≠ .error ∧ n.level ≠ .warning) :
    (s.emit n).collector = s.collector := by
  rw [emit, collect, (s.sameSetting_deliver _).context]
  rcases hother with hnone | ⟨herror, hwarning⟩
  · simp only [hnone, collector_deliver]
  · have hfault : ((s.eventOf n).isError || (s.eventOf n).isWarning) = false := by
      simp [Event.isError, Event.isWarning, herror, hwarning]
    cases s.context with
    | none => exact s.collector_deliver _
    | some file =>
        simp only [hfault]
        exact s.collector_deliver _

end Session

namespace LogStep

variable {s : Session} {c : LogCall} {n : Notice}

/-- A service that lets every level through receives the event of a notice, and nothing else. -/
theorem received_of_notice (hthreshold : s.threshold = .debug) (hnotice : c.notice? = some n) :
    (LogStep.mk s c).received = [s.eventOf n] := by
  have hpasses : [s.eventOf n].filter (fun e => s.threshold.passes e.level) = [s.eventOf n] := by
    rw [hthreshold, List.filter_eq_self]
    intro e _
    cases e.level <;> rfl
  rw [received, Session.call_of_notice hnotice, Session.received_emit, hpasses, ← Array.length_toList,
    List.drop_left]

/-- What the service received of a path since the collector was cleared last, from calls that log errors
and warnings with details. -/
def receivedOf (steps : List LogStep) (p : Path) : List Event :=
  ((sinceClear steps).filter (concerns p)).flatMap received

theorem receivedOf_concat_clear (steps : List LogStep) (p : Path) :
    receivedOf (steps ++ [⟨s, .clear⟩]) p = [] := by
  rw [receivedOf, sinceClear, List.rtakeWhile_concat_neg]
  · rfl
  · simp

theorem receivedOf_concat (steps : List LogStep) (hclear : c ≠ .clear) (p : Path) :
    receivedOf (steps ++ [⟨s, c⟩]) p =
      receivedOf steps p ++ if concerns p ⟨s, c⟩ then (LogStep.mk s c).received else [] := by
  rw [receivedOf, sinceClear, List.rtakeWhile_concat_pos, List.filter_append, List.flatMap_append]
  · congr 1
    cases hconcerns : concerns p ⟨s, c⟩ <;> simp [hconcerns]
  · simpa using hclear

/-- A step that logs no error and no warning of a file adds nothing. -/
theorem receivedOf_concat_of_not_concerns (steps : List LogStep) (hclear : c ≠ .clear)
    (hother : s.context = none ∨ c.isCollected = false) :
    receivedOf (steps ++ [⟨s, c⟩]) = receivedOf steps := by
  funext p
  have hconcerns : concerns p ⟨s, c⟩ = false := by
    rcases hother with hnone | hlevel
    · simp [concerns, hnone]
    · simp [concerns, hlevel]
  rw [receivedOf_concat steps hclear, hconcerns, if_neg Bool.false_ne_true, List.append_nil]

end LogStep

namespace Session

variable {s : Session} {preferences : Preferences.Logging} {steps : List LogStep}

/-- What holds after every call: the service lets every level through, and the collector keeps what the
service received of each path. -/
structure Dispatched (preferences : Preferences.Logging) (s : Session) (steps : List LogStep) :
    Prop where
  preferences_eq : s.preferences = preferences
  threshold_eq : s.threshold = .debug
  keeps : s.collector.Keeps (LogStep.receivedOf steps)

theorem Dispatched.emit {c : LogCall} {n : Notice} (hdispatched : Dispatched preferences s steps)
    (hnotice : c.notice? = some n)
    (hlevel : c.isCollected = true ↔ n.level = .error ∨ n.level = .warning) :
    Dispatched preferences (s.emit n) (steps ++ [⟨s, c⟩]) where
  preferences_eq := (s.sameSetting_emit n).preferences.trans hdispatched.preferences_eq
  threshold_eq := (s.sameSetting_emit n).threshold.trans hdispatched.threshold_eq
  keeps := by
    have hclear : c ≠ .clear := by
      rintro rfl
      cases hnotice
    cases hcontext : s.context with
    | none =>
        rw [collector_emit_of_other (.inl hcontext),
          LogStep.receivedOf_concat_of_not_concerns steps hclear (.inl hcontext)]
        exact hdispatched.keeps
    | some file =>
        cases hcollected : c.isCollected with
        | true =>
            have hreceived : LogStep.receivedOf (steps ++ [⟨s, c⟩]) = fun p =>
                LogStep.receivedOf steps p ++
                  if p.parts = file.path.parts then [s.eventOf n] else [] := by
              funext p
              rw [LogStep.receivedOf_concat steps hclear,
                LogStep.received_of_notice hdispatched.threshold_eq hnotice]
              simp [LogStep.concerns, hcollected, hcontext]
            rw [collector_emit_of_context (hlevel.mp hcollected) hcontext, hreceived]
            exact hdispatched.keeps.record file.path (s.eventOf n)
        | false =>
            have hother := mt hlevel.mpr (Bool.eq_false_iff.mp hcollected)
            rw [collector_emit_of_other (.inr (not_or.mp hother)),
              LogStep.receivedOf_concat_of_not_concerns steps hclear (.inr hcollected)]
            exact hdispatched.keeps

/-- Every call keeps the correspondence of the collector and the service. -/
theorem Dispatched.call (hdispatched : Dispatched preferences s steps) (c : LogCall) :
    Dispatched preferences (s.call c) (steps ++ [⟨s, c⟩]) := by
  cases c with
  | error code message details span =>
      exact hdispatched.emit rfl (by simp [LogCall.isCollected, Notice.error])
  | warning code message details span =>
      exact hdispatched.emit rfl (by simp [LogCall.isCollected, Notice.warning])
  | success code message details =>
      exact hdispatched.emit rfl (by simp [LogCall.isCollected, Notice.success])
  | info message details => exact hdispatched.emit rfl (by simp [LogCall.isCollected, Notice.info])
  | debug message details => exact hdispatched.emit rfl (by simp [LogCall.isCollected, Notice.debug])
  | enter path id =>
      obtain ⟨hpreferences, hthreshold, hkeeps⟩ := hdispatched
      refine ⟨hpreferences, hthreshold, ?_⟩
      rw [LogStep.receivedOf_concat_of_not_concerns (c := .enter path id) steps (by simp)
        (.inr rfl)]
      exact hkeeps.startFile path
  | leave =>
      obtain ⟨hpreferences, hthreshold, hkeeps⟩ := hdispatched
      refine ⟨hpreferences, hthreshold, ?_⟩
      rw [LogStep.receivedOf_concat_of_not_concerns (c := .leave) steps (by simp) (.inr rfl)]
      exact hkeeps
  | bareError code message =>
      have hsame := s.sameSetting_deliver { level := .error, code, message }
      refine ⟨hsame.preferences.trans hdispatched.preferences_eq,
        hsame.threshold.trans hdispatched.threshold_eq, ?_⟩
      rw [LogStep.receivedOf_concat_of_not_concerns (c := .bareError code message) steps
        (by simp) (.inr rfl), Session.call, collector_deliver]
      exact hdispatched.keeps
  | clear =>
      refine ⟨hdispatched.preferences_eq, hdispatched.threshold_eq, ?_⟩
      have hreceived : LogStep.receivedOf (steps ++ [⟨s, .clear⟩]) = fun _ => [] := by
        funext p
        exact LogStep.receivedOf_concat_clear steps p
      rw [hreceived]
      exact Collector.keeps_empty

/-- The correspondence holds after every run, and held when any of its calls was made. -/
theorem dispatched_afterCalls (preferences : Preferences.Logging) (elapsed : String)
    (calls : List LogCall) :
    Dispatched preferences ((fresh preferences elapsed).afterCalls calls)
        ((fresh preferences elapsed).steps calls) ∧
      ∀ step ∈ (fresh preferences elapsed).steps calls,
        step.before.preferences = preferences ∧ step.before.threshold = .debug := by
  induction calls using List.reverseRecOn with
  | nil =>
      have hreceived : LogStep.receivedOf [] = fun _ => [] := rfl
      refine ⟨⟨rfl, rfl, ?_⟩, by simp [steps]⟩
      rw [steps, hreceived]
      exact Collector.keeps_empty
  | append_singleton calls c ih =>
      obtain ⟨hdispatched, hearlier⟩ := ih
      rw [steps_concat, afterCalls_concat]
      refine ⟨hdispatched.call c, List.forall_mem_append.mpr ⟨hearlier, ?_⟩⟩
      exact List.forall_mem_singleton.mpr ⟨hdispatched.preferences_eq, hdispatched.threshold_eq⟩

/-- The collector and the service agree.  Whatever is asked of a session whose service lets every level
through, the collector holds for each path the first of the events that the service received, since the
collector was cleared, from calls that logged errors and warnings while the path was at work, and a
marker if there were more than it has room for.  Every call with details is received as its one event,
and where the file at work is wanted the event names it, whatever the details say. -/
theorem collected_eq_received (preferences : Preferences.Logging) (elapsed : String)
    (calls : List LogCall) :
    (∀ p, ((fresh preferences elapsed).afterCalls calls).collector.events p =
      FileRecord.bounded (LogStep.receivedOf ((fresh preferences elapsed).steps calls) p)) ∧
    ∀ step ∈ (fresh preferences elapsed).steps calls, ∀ n, step.call.notice? = some n →
      step.received = [step.before.eventOf n] ∧
      ∀ file, step.before.context = some file → preferences.fileContext = true →
        ∀ e ∈ step.received, e.details.lookup Event.filePathName = some file.path.text ∧
          e.details.lookup Event.fileIdName = some (toString file.id) := by
  obtain ⟨hdispatched, hsteps⟩ := dispatched_afterCalls preferences elapsed calls
  refine ⟨hdispatched.keeps.events_eq, fun step hmem n hnotice => ?_⟩
  obtain ⟨hpreferences, hthreshold⟩ := hsteps step hmem
  have hreceived := LogStep.received_of_notice hthreshold hnotice
  refine ⟨hreceived, fun file hcontext hwanted e he => ?_⟩
  obtain rfl := List.mem_singleton.mp (hreceived ▸ he)
  exact lookup_eventOf_of_context hcontext (hpreferences ▸ hwanted) n

end Session

end TableLexer
