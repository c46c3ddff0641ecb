import Mathlib.Data.List.DropRight
import Mathlib.Data.List.Induction
import TableLexer.Diagnostic.Sink
/-!
Remembered events.  A memory that takes in one event after another holds the last of them, as many as the
buffer has room for.  An event reaches a memory directly, through a service, or together with other memories
behind one threshold; a threshold only decides which events come, and a memory that is cleared begins anew.
-/

namespace TableLexer

namespace Memory

theorem bufferedEvents_pos : 0 < limits.bufferedEvents := by decide

/-- Room for one event is made by keeping the last ones. -/
theorem toList_makeRoom (events : Array Event) :
    (makeRoom events).toList = events.toList.rtake (limits.bufferedEvents - 1) := by
  have hpos := bufferedEvents_pos
  rw [makeRoom, List.rtake, Array.length_toList]
  split
  next hroom =>
    have hnone : events.size - (limits.bufferedEvents - 1) = 0 := by omega
    rw [hnone, List.drop_zero]
  next hfull =>
    have hmany : events.size + 1 - limits.bufferedEvents =
        events.size - (limits.bufferedEvents - 1) := by omega
    rw [Array.toList_extract, hmany, List.extract_eq_take_drop, List.take_of_length_le]
    simp

theorem toList_receive (m : Memory) (e : Event) :
    (m.receive e).toList = m.toList.rtake (limits.bufferedEvents - 1) ++ [e] := by
  rw [receive, toList, Array.toList_push, toList_makeRoom, toList]

theorem rtake_rtake {α : Type} (l : List α) (m n : Nat) :
    (l.rtake m).rtake n = l.rtake (min n m) := by
  rw [List.rtake_eq_reverse_take_reverse, List.rtake_eq_reverse_take_reverse, List.reverse_reverse,
    List.take_take, List.rtake_eq_reverse_take_reverse]

/-- A memory that took in some events holds the last ones. -/
theorem toList_foldl_receive (events : List Event) :
    (events.foldl receive empty).toList = events.rtake limits.bufferedEvents := by
  have hlimit : limits.bufferedEvents - 1 + 1 = limits.bufferedEvents :=
    Nat.sub_add_cancel bufferedEvents_pos
  induction events using List.reverseRecOn with
  | nil => rw [List.rtake_nil]; rfl
  | append_singleton events e ih =>
      have hconcat := List.rtake_concat_succ events (limits.bufferedEvents - 1) e
      rw [List.foldl_concat, toList_receive, ih, rtake_rtake, Nat.min_eq_left (Nat.sub_le _ _),
        ← hconcat, hlimit]

theorem size_foldl_receive (events : List Event) :
    (events.foldl receive empty).size = min events.length limits.bufferedEvents := by
  rw [size, ← Array.length_toList, ← toList, toList_foldl_receive, List.rtake, List.length_drop,
    Nat.sub_sub_eq_min]

end Memory

/-- Something that is asked of memories behind one threshold: an event goes to one of them directly, to a
service in front of one of them, or to all of them at once, and one of them is cleared. -/
inductive SinkCall where
  | direct (i : Nat) (e : Event)
  | service (i : Nat) (e : Event)
  | fanout (e : Event)
  | clear (i : Nat)
deriving DecidableEq

namespace SinkCall

/-- The event that comes to memory `i`, if one does.  Only what is sent directly comes in spite of its
level. -/
def eventFor? (threshold : Level) (i : Nat) : SinkCall → Option Event
  | direct j e => if j = i then some e else none
  | service j e => if j = i ∧ e.level.rank ≤ threshold.rank then some e else none
  | fanout e => if e.level.rank ≤ threshold.rank then some e else none
  | clear _ => none

/-- The calls after the last one that clears memory `i`. -/
def sinceClear (i : Nat) (calls : List SinkCall) : List SinkCall :=
  calls.rtakeWhile fun c => c ≠ .clear i

/-- The events that came to memory `i` since it was cleared. -/
def sentTo (threshold : Level) (i : Nat) (calls : List SinkCall) : List Event :=
  (sinceClear i calls).filterMap (eventFor? threshold i)

theorem sentTo_concat_clear (threshold : Level) (i : Nat) (calls : List SinkCall) :
    sentTo threshold i (calls ++ [.clear i]) = [] := by
  rw [sentTo, sinceClear, List.rtakeWhile_concat_neg]
  · rfl
  · simp

theorem sentTo_concat {c : SinkCall} {i : Nat} (hclear : c ≠ .clear i) (threshold : Level)
    (calls : List SinkCall) :
    sentTo threshold i (calls ++ [c]) =
      sentTo threshold i calls ++ (c.eventFor? threshold i).toList := by
  rw [sentTo, sinceClear, List.rtakeWhile_concat_pos, List.filterMap_append, sentTo, sinceClear]
  · cases hevent : c.eventFor? threshold i <;> simp [hevent]
  · simpa using hclear

end SinkCall

namespace Fanout

/-- The memories after a call. -/
def call (f : Fanout) : SinkCall → Fanout
  | .direct i e => { f with memories := f.memories.modify i fun m => m.receive e }
  | .service i e =>
    { f with memories := f.memories.modify i fun m => ((Service.mk f.threshold m).receive e).memory }
  | .fanout e => f.receive e
  | .clear i => { f with memories := f.memories.modify i fun _ => .empty }

/-- Memories without events. -/
def fresh (threshold : Level) (n : Nat) : Fanout := ⟨threshold, List.replicate n .empty⟩

/-- New memories after some calls. -/
def afterCalls (threshold : Level) (n : Nat) (calls : List SinkCall) : Fanout :=
  calls.foldl call (fresh threshold n)

theorem threshold_call (f : Fanout) (c : SinkCall) : (f.call c).threshold = f.threshold := by
  cases c with
  | fanout e =>
      rw [call, receive]
      split <;> rfl
  | direct | service | clear => rfl

/-- What a call does to one of the memories: it clears the memory, sends it an event, or leaves it. -/
theorem getElem?_call (f : Fanout) (c : SinkCall) (i : Nat) :
    (f.call c).memories[i]? = f.memories[i]?.map fun m =>
      if c = .clear i then .empty else (c.eventFor? f.threshold i).toList.foldl Memory.receive m := by
  cases c with
  | direct j e =>
      rw [call, List.getElem?_modify]
      by_cases hi : j = i <;> simp [SinkCall.eventFor?, hi]
  | service j e =>
      rw [call, List.getElem?_modify]
      by_cases hi : j = i <;> by_cases hlevel : e.level.rank ≤ f.threshold.rank <;>
        simp [SinkCall.eventFor?, Service.receive, Level.passes, hi, hlevel]
  | fanout e =>
      rw [call, receive]
      by_cases hlevel : e.level.rank ≤ f.threshold.rank <;>
        simp [SinkCall.eventFor?, Level.passes, hlevel]
  | clear j =>
      rw [call, List.getElem?_modify]
      by_cases hi : j = i <;> simp [SinkCall.eventFor?, hi]

theorem threshold_afterCalls (threshold : Level) (n : Nat) (calls : List SinkCall) :
    (afterCalls threshold n calls).threshold = threshold := by
  induction calls using List.reverseRecOn with
  | nil => rfl
  | append_singleton calls c ih => rw [afterCalls, List.foldl_concat, threshold_call, ← afterCalls, ih]

/-- After every history a memory has taken in what came to it since it was cleared, and nothing else. -/
theorem getElem?_afterCalls {n i : Nat} (hi : i < n) (threshold : Level) (calls : List SinkCall) :
    (afterCalls threshold n calls).memories[i]? =
      some ((SinkCall.sentTo threshold i calls).foldl Memory.receive .empty) := by
  induction calls using List.reverseRecOn with
  | nil => simp [afterCalls, fresh, SinkCall.sentTo, SinkCall.sinceClear, hi]
  | append_singleton calls c ih =>
      rw [afterCalls, List.foldl_concat, getElem?_call, ← afterCalls, ih, threshold_afterCalls,
        Option.map_some]
      by_cases hclear : c = .clear i
      · rw [if_pos hclear, hclear, SinkCall.sentTo_concat_clear, List.foldl_nil]
      · rw [if_neg hclear, SinkCall.sentTo_concat hclear, List.foldl_append]

/-- A memory keeps the most recent events.  However events come to it, it holds the last ones of those that
came since it was cleared, in the order in which they came and never more than the limit of the buffer;
behind a threshold only the events of its level or more pressing ones come.  Whatever a memory is asked is
answered from these events. -/
theorem memories_afterCalls (threshold : Level) (n : Nat) (calls : List SinkCall) (i : Fin n) :
    ∃ m, (afterCalls threshold n calls).memories[i.val]? = some m ∧
      let latest := (SinkCall.sentTo threshold i calls).rtake limits.bufferedEvents
      m.toList = latest ∧
      m.size = min (SinkCall.sentTo threshold i calls).length limits.bufferedEvents ∧
      m.size ≤ limits.bufferedEvents ∧
      m.errors = latest.filter (fun e => e.level = .error) ∧
      m.warnings = latest.filter (fun e => e.level = .warning) ∧
      (∀ category, m.ofCategory category = latest.filter fun e => e.code.category = category) ∧
      (∀ code, m.hasError code = true ↔ ∃ e ∈ latest, e.level = .error ∧ e.code = code) ∧
      ∀ code, m.hasSuccess code = true ↔ ∃ e ∈ latest, e.level = .info ∧ e.code = code := by
  refine ⟨_, getElem?_afterCalls i.isLt threshold calls, ?_⟩
  intro latest
  generalize hm : (SinkCall.sentTo threshold i calls).foldl Memory.receive .empty = m
  have hlatest : m.toList = latest := hm ▸ Memory.toList_foldl_receive _
  have hsize : m.size = min (SinkCall.sentTo threshold i calls).length limits.bufferedEvents :=
    hm ▸ Memory.size_foldl_receive _
  refine ⟨hlatest, hsize, hsize ▸ Nat.min_le_right _ _, ?_, ?_, fun category => ?_, fun code => ?_,
    fun code => ?_⟩
  · rw [Memory.errors, hlatest]; rfl
  · rw [Memory.warnings, hlatest]; rfl
  · rw [Memory.ofCategory, hlatest]
  · simp [Memory.hasError, hlatest, Event.isError]
  · simp [Memory.hasSuccess, hlatest, Event.isInfo]

end Fanout

end TableLexer
