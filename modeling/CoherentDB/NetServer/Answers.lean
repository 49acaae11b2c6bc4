import CoherentDB.Lib.Runs
import CoherentDB.NetServer.SingleSend

/-!
# The answers to the writers

Every call of `write` passes a `write_handler_t` that is to be told how the sending of
the message ended.  `asio_direct_send` and `handle_write` hand it on with the message,
from the first send to the last.  No step of `handle_write` invokes it, and none looks
at the error code: after an error the rest of the message is sent again.

A run is recorded as a list of events.  The handlers are named by the number of their
call of `write`.  `Answered` says what the events should be; `answered_iff` that they are
not, from the first end of a message on.
-/

namespace CoherentDB
namespace NetServer

open Runs Util

/-- What a run shows of `write_queue` to the outside. -/
inductive Event
  /-- `async_write_some` is called with a message. -/
  | submitted (message : Message)
  /-- `handle_write` is run for a completion of the socket. -/
  | handled (error : Option ℕ) (bytesTransferred : ℕ) (message : Message)
  /-- A `write_handler_t` is invoked. -/
  | invoked (handler : ℕ) (error : Option ℕ) (size : ℕ)
  deriving DecidableEq

/-- The events of a step that is possible. -/
def State.events (s : State) : Action → List Event
  | .write _ _ | .complete _ _ _ => []
  | .advance i =>
      match s.activities[i]? with
      | some (.writing message) | some (.sending message) => [.submitted message]
      | some (.handling error bytesTransferred message) =>
          [.handled error bytesTransferred message]
      | some (.pushing _) | some (.outstanding _) | some .testing | some .popping | none => []

/-- The queue, the sizes of the messages passed to `write` so far and the events so far. -/
structure Recorded where
  state : State
  sizes : List ℕ
  events : List Event

namespace Recorded

def initial : Recorded := ⟨State.initial, [], []⟩

/-- The action with the handler named by the number of its call. -/
def named (calls : ℕ) : Action → Action
  | .write message elementSize => .write { message with handler := calls } elementSize
  | .complete i error bytesTransferred => .complete i error bytesTransferred
  | .advance i => .advance i

/-- One step, recorded. -/
def step (r : Recorded) (action : Action) : Option Recorded :=
  let action := named r.sizes.length action
  (r.state.step action).map fun s =>
    ⟨s, r.sizes ++ action.accepted.map fun message => message.bytes.length,
      r.events ++ r.state.events action⟩

end Recorded

namespace Event

/-- How the message of a handler ended, where the event is its end: an error or its last
byte. -/
def ending (handler : ℕ) : Event → Option (Option ℕ)
  | .handled error bytesTransferred message =>
      if message.handler = handler ∧ (error.isSome ∨ bytesTransferred = message.bytes.length) then
        some error
      else none
  | .submitted _ | .invoked _ _ _ => none

/-- What a handler is told. -/
def told (handler : ℕ) : Event → Option (Option ℕ × ℕ)
  | .invoked other error size => if other = handler then some (error, size) else none
  | .submitted _ | .handled _ _ _ => none

/-- The event tells `handle_write` of an error or of the last byte of a message. -/
def EndsMessage : Event → Prop
  | .handled error bytesTransferred message =>
      error.isSome ∨ bytesTransferred = message.bytes.length
  | .submitted _ | .invoked _ _ _ => False

instance : (event : Event) → Decidable event.EndsMessage
  | .handled _ _ _ => inferInstanceAs (Decidable (_ ∨ _))
  | .submitted _ | .invoked _ _ _ => isFalse id

end Event

/-- A handler is told what it should be: nothing before its message ends, then once the whole
size or the error. -/
def ToldOnce (events : List Event) (handler size : ℕ) : Prop :=
  match events.findSome? (Event.ending handler) with
  | none => events.filterMap (Event.told handler) = []
  | some none => events.filterMap (Event.told handler) = [(none, size)]
  | some (some error) => ∃ k, events.filterMap (Event.told handler) = [(some error, k)]

/-- Once `handle_write` was told of an error the message is not submitted again. -/
def NotAgain (events : List Event) (handler : ℕ) : Prop :=
  ∀ before after error k message other,
    events = before ++ .handled (some error) k message :: after → message.handler = handler →
      .submitted other ∈ after → other.handler ≠ handler

/-- Every write is answered once. -/
def Recorded.Answered (r : Recorded) : Prop :=
  ∀ handler size, r.sizes[handler]? = some size →
    ToldOnce r.events handler size ∧ NotAgain r.events handler

section Names

/-- The handler that an activity has with it. -/
def Activity.handler? : Activity → Option ℕ
  | .pushing message | .writing message | .outstanding message | .handling _ _ message
  | .sending message => some message.handler
  | .testing | .popping => none

/-- A message with this handler is under way or in the queue. -/
def State.Names (s : State) (handler : ℕ) : Prop :=
  (∃ message ∈ s.messagesQueue, message.handler = handler) ∨
    ∃ a ∈ s.activities, a.handler? = some handler

variable {s s' : State} {i handler : ℕ} {a : Activity} {action : Action}

/-- An activity that goes on as others leaves only their handlers. -/
theorem State.Names.of_splice {next : List Activity} (h : s'.Names handler)
    (hactivities : s'.activities = ListRange.splice s.activities i next)
    (hqueue : ∀ message ∈ s'.messagesQueue, s.Names message.handler)
    (hnext : ∀ b ∈ next, ∀ handler, b.handler? = some handler → s.Names handler) :
    s.Names handler := by
  rcases h with ⟨message, hmem, rfl⟩ | ⟨b, hb, hhandler⟩
  · exact hqueue message hmem
  · rw [hactivities] at hb
    rcases ListRange.mem_splice hb with hmem | hmem
    · exact hnext b hmem handler hhandler
    · exact Or.inr ⟨b, hmem, hhandler⟩

theorem State.names_advance (hi : s.activities[i]? = some a) (hmoves : s.Moves i a s')
    (h : s'.Names handler) : s.Names handler := by
  have hmem : a ∈ s.activities := List.mem_of_getElem? hi
  have hqueue : ∀ message ∈ s.messagesQueue, s.Names message.handler :=
    fun message hmessage => Or.inl ⟨message, hmessage, rfl⟩
  -- Where one message is handed on, its handler is the one the activity had.
  have hown {b : Activity} (hsame : b.handler? = a.handler?) :
      ∀ c ∈ [b], ∀ handler, c.handler? = some handler → s.Names handler := by
    intro c hc handler hhandler
    rw [List.mem_singleton.mp hc, hsame] at hhandler
    exact Or.inr ⟨a, hmem, hhandler⟩
  have hnone {b : Activity} (hfree : b.handler? = none) :
      ∀ c ∈ [b], ∀ handler, c.handler? = some handler → s.Names handler := by
    intro c hc handler hhandler
    rw [List.mem_singleton.mp hc, hfree] at hhandler
    cases hhandler
  cases hmoves with
  | push message =>
      refine h.of_splice rfl ?_ (by simp)
      intro other hother
      rw [List.mem_append, List.mem_singleton] at hother
      rcases hother with hother | rfl
      · exact hqueue other hother
      · exact Or.inr ⟨_, hmem, rfl⟩
  | firstSend message | send message => exact h.of_splice rfl hqueue (hown rfl)
  | takeRest error k message => exact h.of_splice rfl hqueue (hown rfl)
  | takeNext error message => exact h.of_splice rfl hqueue (hnone rfl)
  | foundMore => exact h.of_splice rfl hqueue (hnone rfl)
  | foundEmpty => exact h.of_splice rfl hqueue (by simp)
  | pop message rest hfront =>
      have hhead : message ∈ s.messagesQueue := hfront ▸ List.mem_cons_self
      refine h.of_splice rfl ?_ ?_
      · intro other hother
        exact hqueue other (hfront ▸ List.mem_cons_of_mem message hother)
      · intro b hb handler hhandler
        rw [List.mem_singleton.mp hb] at hhandler
        exact Or.inl ⟨message, hhead, Option.some.inj hhandler⟩

/-- A step brings no handler but that of the message passed to `write`. -/
theorem State.names_step (hstep : s.step action = some s') (h : s'.Names handler) :
    s.Names handler ∨ handler ∈ action.accepted.map Message.handler := by
  rcases State.step_cases hstep with ⟨message, elementSize, rfl, -, rfl⟩ |
    ⟨i, error, k, message, rfl, hi, -, rfl⟩ | ⟨i, a, rfl, hi, hmoves⟩
  · rcases h with hqueued | ⟨a, ha, hhandler⟩
    · simp only [State.write] at hqueued
      split_ifs at hqueued <;> exact Or.inl (Or.inl hqueued)
    · have hmem : a ∈ s.activities ∨ a.handler? = some message.handler := by
        simp only [State.write] at ha
        split_ifs at ha
        all_goals
          rcases List.mem_append.mp ha with hold | hnew
          · exact Or.inl hold
          · exact Or.inr (by rw [List.mem_singleton.mp hnew]; rfl)
      rcases hmem with hold | hnew
      · exact Or.inl (Or.inr ⟨a, hold, hhandler⟩)
      · rw [hnew, Option.some_inj] at hhandler
        exact Or.inr (List.mem_singleton.mpr hhandler.symm)
  · refine Or.inl (h.of_splice rfl ?_ ?_)
    · exact fun other hother => Or.inl ⟨other, hother, rfl⟩
    · intro b hb handler hhandler
      rw [List.mem_singleton.mp hb] at hhandler
      exact Or.inr ⟨_, List.mem_of_getElem? hi, hhandler⟩
  · exact Or.inl (State.names_advance hi hmoves h)

end Names

/-- The event is about one of the first `calls` messages, and no answer. -/
def Event.Known (calls : ℕ) : Event → Prop
  | .submitted message | .handled _ _ message => message.handler < calls
  | .invoked _ _ _ => False

theorem State.events_known {s : State} {action : Action} {calls : ℕ}
    (hnames : ∀ handler, s.Names handler → handler < calls) :
    ∀ event ∈ s.events action, event.Known calls := by
  have hactivity {i : ℕ} {a : Activity} {handler : ℕ} (hi : s.activities[i]? = some a)
      (hhandler : a.handler? = some handler) : handler < calls :=
    hnames handler (Or.inr ⟨a, List.mem_of_getElem? hi, hhandler⟩)
  cases action with
  | write | complete => exact fun event hevent => absurd hevent List.not_mem_nil
  | advance i =>
      intro event hevent
      cases hi : s.activities[i]? with
      | none => simp [State.events, hi] at hevent
      | some a =>
          cases a with
          | writing message | sending message | handling error k message =>
              simp only [State.events, hi, List.mem_singleton] at hevent
              subst hevent
              exact hactivity hi rfl
          | pushing | outstanding | testing | popping => simp [State.events, hi] at hevent

namespace Recorded

/-- The handlers are those of the calls so far, and none has been invoked. -/
structure Silent (r : Recorded) : Prop where
  names : ∀ handler, r.state.Names handler → handler < r.sizes.length
  events : ∀ event ∈ r.events, event.Known r.sizes.length

theorem Silent.step {r r' : Recorded} {action : Action} (h : r.Silent)
    (hstep : r.step action = some r') : r'.Silent := by
  obtain ⟨s', hs, rfl⟩ := Option.map_eq_some_iff.mp hstep
  have hmore : r.sizes.length ≤ (r.sizes ++ (named r.sizes.length action).accepted.map
      fun message => message.bytes.length).length := by
    rw [List.length_append]
    exact Nat.le_add_right _ _
  constructor
  · intro handler hhandler
    rcases State.names_step hs hhandler with hold | hnew
    · exact (h.names handler hold).trans_le hmore
    · cases action with
      | write message elementSize =>
          rw [List.mem_singleton.mp hnew]
          simp [named, Action.accepted]
      | complete | advance => cases hnew
  · intro event hevent
    have hknown : event.Known r.sizes.length := by
      rcases List.mem_append.mp hevent with hold | hnew
      · exact h.events event hold
      · exact State.events_known h.names event hnew
    cases event with
    | submitted message | handled error k message => exact lt_of_lt_of_le hknown hmore
    | invoked handler error size => exact hknown

theorem silent_of_run {actions : List Action} {r : Recorded}
    (hrun : Runs.Run step anyAction initial actions r) : r.Silent := by
  refine hrun.invariant (P := fun _ r => r.Silent) ?_ ?_
  · refine ⟨?_, by simp [initial]⟩
    rintro handler (⟨_, hmem, -⟩ | ⟨_, hmem, -⟩) <;> cases hmem
  · exact fun _ _ _ _ h _ hstep => h.step hstep

theorem Silent.told {r : Recorded} (h : r.Silent) (handler : ℕ) :
    r.events.filterMap (Event.told handler) = [] := by
  rw [List.filterMap_eq_nil_iff]
  intro event hevent
  cases event with
  | submitted | handled => rfl
  | invoked other error size => exact absurd (h.events _ hevent) id

/-- **The writers are answered exactly as long as there is nothing to tell**: in every run, with
any writers and any completions, every write has been answered once if and only if `handle_write`
has been told neither of an error nor of the last byte of a message. -/
theorem answered_iff {actions : List Action} {r : Recorded}
    (hrun : Runs.Run step anyAction initial actions r) :
    r.Answered ↔ ∀ event ∈ r.events, ¬ event.EndsMessage := by
  have hsilent := silent_of_run hrun
  constructor
  · intro hanswered event hevent hends
    cases event with
    | submitted | invoked => exact hends
    | handled error k message =>
        have hcall : message.handler < r.sizes.length := hsilent.events _ hevent
        have htold := (hanswered message.handler _ (List.getElem?_eq_getElem hcall)).1
        have hending : Event.ending message.handler (.handled error k message) = some error :=
          if_pos ⟨rfl, hends⟩
        -- No handler is ever invoked, so the end of this message is told to nobody.
        unfold ToldOnce at htold
        rw [hsilent.told] at htold
        cases hfound : r.events.findSome? (Event.ending message.handler) with
        | none =>
            rw [List.findSome?_eq_none_iff] at hfound
            rw [hfound _ hevent] at hending
            cases hending
        | some ending =>
            rw [hfound] at htold
            cases ending with
            | none => cases htold
            | some error =>
                obtain ⟨k, hk⟩ := htold
                cases hk
  · intro hnone handler size _
    constructor
    · have hending : r.events.findSome? (Event.ending handler) = none := by
        rw [List.findSome?_eq_none_iff]
        intro event hevent
        cases event with
        | submitted | invoked => rfl
        | handled error k message =>
            exact if_neg fun hends => hnone _ hevent hends.2
      unfold ToldOnce
      rw [hending]
      exact hsilent.told handler
    · rintro before after error k message other hsplit - -
      -- An error would be the end of its message.
      refine absurd (Or.inl rfl) (hnone (.handled (some error) k message) ?_)
      rw [hsplit]
      exact List.mem_append_right _ List.mem_cons_self

/-- A message goes out in two parts, and nobody has to be told yet. -/
theorem answered_iff_firstPart :
    ∃ r, Runs.Run step anyAction initial
        [.write ⟨[1, 2], 0⟩ 1, .advance 0, .complete 0 none 1, .advance 0, .advance 0] r ∧
      r.events = [.submitted ⟨[1, 2], 0⟩, .handled none 1 ⟨[1, 2], 0⟩, .submitted ⟨[2], 0⟩] ∧
      r.Answered :=
  have hrun := Runs.Run.start.performAll _ rfl
  ⟨_, hrun, rfl, (answered_iff hrun).mpr (by decide)⟩

/-- The first message is transferred in full; for the second one the socket reports an error. -/
def endedTwice : List Action :=
  [.write ⟨[1], 0⟩ 1, .advance 0, .complete 0 none 1, .advance 0, .advance 0,
    .write ⟨[2], 0⟩ 1, .advance 0, .complete 0 (some 32) 0, .advance 0, .advance 0]

/-- Neither handler is told, and the message that failed is submitted again. -/
theorem no_handler_is_invoked :
    ∃ r, Runs.Run step anyAction initial endedTwice r ∧
      r.events = [.submitted ⟨[1], 0⟩, .handled none 1 ⟨[1], 0⟩,
        .submitted ⟨[2], 1⟩, .handled (some 32) 0 ⟨[2], 1⟩, .submitted ⟨[2], 1⟩] ∧
      ¬ ToldOnce r.events 0 1 ∧ ¬ ToldOnce r.events 1 1 ∧ ¬ NotAgain r.events 1 ∧
      ¬ r.Answered := by
  refine ⟨_, Runs.Run.start.performAll endedTwice rfl, rfl, ?_, ?_, ?_, ?_⟩
  · intro htold
    cases htold
  · rintro ⟨k, htold⟩
    cases htold
  · intro hagain
    exact hagain [.submitted ⟨[1], 0⟩, .handled none 1 ⟨[1], 0⟩, .submitted ⟨[2], 1⟩]
      [.submitted ⟨[2], 1⟩] 32 0 ⟨[2], 1⟩ ⟨[2], 1⟩ rfl rfl List.mem_cons_self rfl
  · intro hanswered
    obtain ⟨k, htold⟩ := (hanswered 1 1 rfl).1
    cases htold

end Recorded

end NetServer
end CoherentDB
