import CoherentDB.Lib.ListRange
import CoherentDB.Lib.Runs
import CoherentDB.Util.Misc

/-!
# `write_queue`

Threads call `write`, and for every `async_write_some` the socket runs
`handle_write` once, on any thread.  A step here is one critical section of the
queue's mutex, one operation of `messages_queue` (which has a lock of its own) or
one call of `async_write_some`; between two steps of a call any other call may take
its own.  The one section that asks `messages_queue.empty()` is cut in two, since a
push needs only the lock of `messages_queue`: it may fall between the lock and the
question.

* `Activity` lists what can be under way and is the program counter of each call;
* `State.step` performs one step;
* `messages` lists the messages that the actions of a run pass to `write`.

`Owned` is the invariant of the flag `waits`: it is set exactly while one send is on
its way, from the decision to issue it to the end of its `handle_write`.
-/

namespace CoherentDB
namespace NetServer

open MachineInt ListRange Util

/-- A `message_observer_t`: the bytes of the buffer and the handler to be told. -/
structure Message where
  bytes : List Byte
  handler : ℕ
  deriving DecidableEq

/-- A call that is under way, or a send that the socket has not completed. -/
inductive Activity
  /-- `write` has found `waits` set and is about to push. -/
  | pushing (message : Message)
  /-- `write` has set `waits` and is about to send. -/
  | writing (message : Message)
  /-- `async_write_some` was called; its handler has not been run. -/
  | outstanding (message : Message)
  /-- `handle_write` is about to lock. -/
  | handling (error : Option ℕ) (bytesTransferred : ℕ) (message : Message)
  /-- `handle_write` holds the mutex and is about to call `messages_queue.empty()`. -/
  | testing
  /-- `handle_write` is about to call `messages_queue.pop()`. -/
  | popping
  /-- `handle_write` is about to send. -/
  | sending (message : Message)
  deriving DecidableEq

/-- The fields of `write_queue`, the activities over it and the bytes that the socket took. -/
structure State where
  waits : Bool
  messagesQueue : List Message
  bytesUnconfirmed : ℕ
  messagesUnconfirmed : ℕ
  /-- The mutex is held. -/
  locked : Bool
  activities : List Activity
  wire : List Byte
  deriving DecidableEq

/-- One step of the system. -/
inductive Action
  /-- The locked part of `write` for elements of `elementSize` bytes. -/
  | write (message : Message) (elementSize : ℕ)
  /-- The socket takes bytes and completes the send with number `i`. -/
  | complete (i : ℕ) (error : Option ℕ) (bytesTransferred : ℕ)
  /-- The activity with number `i` takes its next step. -/
  | advance (i : ℕ)
  deriving DecidableEq

namespace State

/-- The state after the constructor of `write_queue`. -/
def initial : State := ⟨false, [], 0, 0, false, [], []⟩

variable (s : State)

/-- The activity with number `i` goes on as `next`, or ends. -/
def continueAs (i : ℕ) (next : List Activity) : State :=
  { s with activities := splice s.activities i next }

@[simp] theorem continueAs_waits (i : ℕ) (next : List Activity) :
    (s.continueAs i next).waits = s.waits := rfl

@[simp] theorem continueAs_locked (i : ℕ) (next : List Activity) :
    (s.continueAs i next).locked = s.locked := rfl

@[simp] theorem continueAs_messagesQueue (i : ℕ) (next : List Activity) :
    (s.continueAs i next).messagesQueue = s.messagesQueue := rfl

@[simp] theorem continueAs_wire (i : ℕ) (next : List Activity) :
    (s.continueAs i next).wire = s.wire := rfl

/-- `write` up to the unlock. -/
def write (message : Message) (elementSize : ℕ) : State :=
  let s := { s with
    bytesUnconfirmed := addWrap 64 s.bytesUnconfirmed (message.bytes.length * elementSize)
    messagesUnconfirmed := addWrap 64 s.messagesUnconfirmed 1 }
  if s.waits then
    { s with activities := s.activities ++ [.pushing message] }
  else
    { s with waits := true, activities := s.activities ++ [.writing message] }

/-- The next step of an activity; none where it is blocked or the socket has to act. -/
def advance (i : ℕ) : Activity → Option State
  | .pushing message =>
      some { s.continueAs i [] with messagesQueue := s.messagesQueue ++ [message] }
  | .writing message | .sending message => some (s.continueAs i [.outstanding message])
  | .outstanding _ => none
  | .handling _ bytesTransferred message =>
      if s.locked then none
      else
        let s := { s with
          messagesUnconfirmed := subWrap 64 s.messagesUnconfirmed 1
          bytesUnconfirmed := subWrap 64 s.bytesUnconfirmed bytesTransferred }
        -- The error code is not looked at: after an error the rest is sent again.
        if message.bytes.length ≠ bytesTransferred then
          some (s.continueAs i
            [.sending { message with bytes := message.bytes.drop bytesTransferred }])
        else
          some { s.continueAs i [.testing] with locked := true }
  | .testing =>
      if s.messagesQueue ≠ [] then
        some { s.continueAs i [.popping] with locked := false }
      else
        -- `waits` is cleared in the critical section that found the queue empty.
        some { s.continueAs i [] with waits := false, locked := false }
  | .popping =>
      -- `pop` waits on the condition variable while the queue is empty.
      match s.messagesQueue with
      | [] => none
      | message :: rest => some { s.continueAs i [.sending message] with messagesQueue := rest }

/-- One step; none where the action is not possible. -/
def step : Action → Option State
  | .write message elementSize => if s.locked then none else some (s.write message elementSize)
  | .complete i error bytesTransferred =>
      match s.activities[i]? with
      | some (.outstanding message) =>
          if bytesTransferred ≤ message.bytes.length then
            some { s.continueAs i [.handling error bytesTransferred message] with
              wire := s.wire ++ message.bytes.take bytesTransferred }
          else none
      | _ => none
  | .advance i => s.activities[i]?.bind (s.advance i)

end State

/-- The messages that an action passes to `write`. -/
def Action.accepted : Action → List Message
  | .write message _ => [message]
  | .complete _ _ _ | .advance _ => []

/-- The messages that a run passes to `write`. -/
def messages (actions : List Action) : List Message := actions.flatMap Action.accepted

theorem messages_concat (actions : List Action) (action : Action) :
    messages (actions ++ [action]) = messages actions ++ action.accepted := by
  rw [messages, List.flatMap_append, List.flatMap_singleton]
  rfl

/-- The part of an activity in the sending of messages: all but a `write` that only has to
push takes part. -/
def Activity.isSend : Activity → Bool
  | .pushing _ => false
  | .writing _ | .outstanding _ | .handling _ _ _ | .testing | .popping | .sending _ => true

/-- The sends on their way. -/
def State.sends (s : State) : List Activity := s.activities.filter Activity.isSend

/-- The writes that have to push. -/
def State.pushes (s : State) : List Activity := s.activities.filter fun a => !a.isSend

/-- All that the next step of an activity can do. -/
inductive State.Moves (s : State) (i : ℕ) : Activity → State → Prop
  | push (message : Message) : s.Moves i (.pushing message)
      { s.continueAs i [] with messagesQueue := s.messagesQueue ++ [message] }
  | firstSend (message : Message) :
      s.Moves i (.writing message) (s.continueAs i [.outstanding message])
  | send (message : Message) :
      s.Moves i (.sending message) (s.continueAs i [.outstanding message])
  | takeRest (error : Option ℕ) (bytesTransferred : ℕ) (message : Message)
      (hfree : s.locked = false) (hpart : message.bytes.length ≠ bytesTransferred) :
      s.Moves i (.handling error bytesTransferred message)
        { s.continueAs i [.sending { message with bytes := message.bytes.drop bytesTransferred }] with
          messagesUnconfirmed := subWrap 64 s.messagesUnconfirmed 1
          bytesUnconfirmed := subWrap 64 s.bytesUnconfirmed bytesTransferred }
  | takeNext (error : Option ℕ) (message : Message) (hfree : s.locked = false) :
      s.Moves i (.handling error message.bytes.length message)
        { s.continueAs i [.testing] with
          messagesUnconfirmed := subWrap 64 s.messagesUnconfirmed 1
          bytesUnconfirmed := subWrap 64 s.bytesUnconfirmed message.bytes.length
          locked := true }
  | foundMore (hqueue : s.messagesQueue ≠ []) :
      s.Moves i .testing { s.continueAs i [.popping] with locked := false }
  | foundEmpty (hqueue : s.messagesQueue = []) :
      s.Moves i .testing { s.continueAs i [] with waits := false, locked := false }
  | pop (message : Message) (rest : List Message) (hqueue : s.messagesQueue = message :: rest) :
      s.Moves i .popping { s.continueAs i [.sending message] with messagesQueue := rest }

theorem State.moves_of_advance {s s' : State} {i : ℕ} {a : Activity}
    (hstep : s.advance i a = some s') : s.Moves i a s' := by
  cases a with
  | pushing message =>
      obtain rfl := Option.some.inj hstep
      exact .push message
  | writing message =>
      obtain rfl := Option.some.inj hstep
      exact .firstSend message
  | outstanding message => cases hstep
  | handling error bytesTransferred message =>
      simp only [State.advance] at hstep
      split_ifs at hstep with hlocked hpart
      · obtain rfl := Option.some.inj hstep
        exact .takeRest error bytesTransferred message (by simpa using hlocked) hpart
      · obtain rfl := Option.some.inj hstep
        obtain rfl : message.bytes.length = bytesTransferred := not_not.mp hpart
        exact .takeNext error message (by simpa using hlocked)
  | testing =>
      simp only [State.advance] at hstep
      split_ifs at hstep with hqueue
      · obtain rfl := Option.some.inj hstep
        exact .foundMore hqueue
      · obtain rfl := Option.some.inj hstep
        exact .foundEmpty (not_not.mp hqueue)
  | popping =>
      simp only [State.advance] at hstep
      split at hstep
      · cases hstep
      · obtain rfl := Option.some.inj hstep
        exact .pop _ _ ‹_›
  | sending message =>
      obtain rfl := Option.some.inj hstep
      exact .send message

/-- All that a step can do. -/
theorem State.step_cases {s s' : State} {action : Action} (hstep : s.step action = some s') :
    (∃ message elementSize, action = .write message elementSize ∧ s.locked = false ∧
      s' = s.write message elementSize) ∨
    (∃ i error bytesTransferred message, action = .complete i error bytesTransferred ∧
      s.activities[i]? = some (.outstanding message) ∧
      bytesTransferred ≤ message.bytes.length ∧
      s' = { s.continueAs i [.handling error bytesTransferred message] with
        wire := s.wire ++ message.bytes.take bytesTransferred }) ∨
    (∃ i a, action = .advance i ∧ s.activities[i]? = some a ∧ s.Moves i a s') := by
  cases action with
  | write message elementSize =>
      simp only [State.step] at hstep
      split_ifs at hstep with hlocked
      exact Or.inl ⟨message, elementSize, rfl, by simpa using hlocked,
        (Option.some.inj hstep).symm⟩
  | complete i error bytesTransferred =>
      simp only [State.step] at hstep
      split at hstep
      · split_ifs at hstep with hle
        exact Or.inr (Or.inl ⟨i, error, bytesTransferred, _, rfl, ‹_›, hle,
          (Option.some.inj hstep).symm⟩)
      · cases hstep
  | advance i =>
      obtain ⟨a, hi, hadvance⟩ := Option.bind_eq_some_iff.mp hstep
      exact Or.inr (Or.inr ⟨i, a, rfl, hi, State.moves_of_advance hadvance⟩)

/-- The invariant of `waits`, of the mutex and of the call of `pop`. -/
structure State.Owned (s : State) : Prop where
  sends : s.sends.length = if s.waits then 1 else 0
  locked : s.locked = true ↔ Activity.testing ∈ s.sends
  popping : Activity.popping ∈ s.sends → s.messagesQueue ≠ []

section Steps

variable {s s' : State} {i : ℕ} {a : Activity} {messages : List Message} {action : Action}

/-- A step of a send leaves it the only one, and no push comes or goes. -/
theorem State.Owned.move (h : s.Owned) (hi : s.activities[i]? = some a) (ha : a.isSend = true)
    (next : List Activity) (hnext : ∀ b ∈ next, b.isSend = true) :
    s.waits = true ∧ s.sends = [a] ∧ (s.continueAs i next).sends = next ∧
      (s.continueAs i next).pushes = s.pushes := by
  have hone : s.sends.length ≤ 1 := by
    rw [h.sends]
    split_ifs <;> omega
  obtain ⟨hself, hreplaced⟩ := filter_splice_of_single hi ha hone next
  refine ⟨?_, hself, ?_, ?_⟩
  · by_contra hwaits
    have hlength := h.sends
    rw [if_neg hwaits, show s.sends = [a] from hself] at hlength
    cases hlength
  · show (splice s.activities i next).filter Activity.isSend = next
    rw [hreplaced, List.filter_eq_self]
    exact hnext
  · refine filter_splice_of_not hi (by rw [ha]; rfl) ?_
    rw [List.filter_eq_nil_iff]
    intro b hb
    rw [hnext b hb]
    decide

/-- The push of a `write` leaves the sends alone. -/
theorem State.sends_of_push {message : Message}
    (hi : s.activities[i]? = some (.pushing message)) : (s.continueAs i []).sends = s.sends :=
  filter_splice_of_not hi rfl rfl

/-- A `write` that finds `waits` set adds a push. -/
theorem State.write_waiting (hwaits : s.waits = true) (message : Message) (elementSize : ℕ) :
    (s.write message elementSize).sends = s.sends ∧
      (s.write message elementSize).pushes = s.pushes ++ [.pushing message] ∧
      (s.write message elementSize).waits = true ∧
      (s.write message elementSize).locked = s.locked ∧
      (s.write message elementSize).messagesQueue = s.messagesQueue ∧
      (s.write message elementSize).wire = s.wire := by
  unfold State.write
  rw [if_pos hwaits]
  refine ⟨?_, ?_, hwaits, rfl, rfl, rfl⟩
  · show (s.activities ++ [Activity.pushing message]).filter Activity.isSend = _
    rw [List.filter_append]
    exact List.append_nil _
  · show (s.activities ++ [Activity.pushing message]).filter (fun a => !a.isSend) = _
    rw [List.filter_append]
    rfl

/-- A `write` that finds `waits` clear takes the socket. -/
theorem State.write_idle (hwaits : s.waits = false) (message : Message) (elementSize : ℕ) :
    (s.write message elementSize).sends = s.sends ++ [.writing message] ∧
      (s.write message elementSize).pushes = s.pushes ∧
      (s.write message elementSize).waits = true ∧
      (s.write message elementSize).locked = s.locked ∧
      (s.write message elementSize).messagesQueue = s.messagesQueue ∧
      (s.write message elementSize).wire = s.wire := by
  unfold State.write
  rw [if_neg (by rw [hwaits]; decide)]
  refine ⟨?_, ?_, rfl, rfl, rfl, rfl⟩
  · show (s.activities ++ [Activity.writing message]).filter Activity.isSend = _
    rw [List.filter_append]
    rfl
  · show (s.activities ++ [Activity.writing message]).filter (fun a => !a.isSend) = _
    rw [List.filter_append]
    exact List.append_nil _

/-- One send is on its way. -/
theorem State.owned_of_single (hsends : s.sends = [a]) (hwaits : s.waits = true)
    (hlocked : s.locked = true ↔ a = .testing) (hpop : a = .popping → s.messagesQueue ≠ []) :
    s.Owned := by
  refine ⟨?_, ?_, ?_⟩
  · rw [hsends, hwaits]
    rfl
  · rw [hsends, List.mem_singleton, hlocked]
    exact eq_comm
  · rw [hsends, List.mem_singleton]
    intro hmem
    exact hpop hmem.symm

/-- A step that touches no send. -/
theorem State.Owned.of_same (h : s.Owned) (hsends : s'.sends = s.sends)
    (hwaits : s'.waits = s.waits) (hlocked : s'.locked = s.locked)
    (hqueue : s.messagesQueue ≠ [] → s'.messagesQueue ≠ []) : s'.Owned := by
  refine ⟨?_, ?_, ?_⟩
  · rw [hsends, hwaits]
    exact h.sends
  · rw [hsends, hlocked]
    exact h.locked
  · rw [hsends]
    intro hpop
    exact hqueue (h.popping hpop)

/-- Whether the mutex is held, read off the only send. -/
theorem State.Owned.locked_iff (h : s.Owned) (hsends : s.sends = [a]) :
    s.locked = true ↔ a = .testing := by
  rw [h.locked, hsends, List.mem_singleton]
  exact eq_comm

/-- The only send goes on as `b`; neither is the test of the queue, and `b` is no pop. -/
theorem State.Owned.passOn (h : s.Owned) (hi : s.activities[i]? = some a) (ha : a.isSend = true)
    {b : Activity} (hb : b.isSend = true) (hnot : a ≠ .testing ∧ b ≠ .testing ∧ b ≠ .popping)
    (hsends : s'.sends = (s.continueAs i [b]).sends) (hwaits : s'.waits = s.waits)
    (hlocked : s'.locked = s.locked) : s'.Owned := by
  obtain ⟨hset, hself, hone, -⟩ := h.move hi ha [b] (by simpa using hb)
  apply State.owned_of_single (hsends.trans hone) (hwaits.trans hset)
  · rw [hlocked, h.locked_iff hself]
    exact iff_of_false hnot.1 hnot.2.1
  · intro habs
    exact absurd habs hnot.2.2

theorem State.Owned.write (h : s.Owned) (message : Message) (elementSize : ℕ) :
    (s.write message elementSize).Owned := by
  cases hwaits : s.waits with
  | true =>
      obtain ⟨hsends, -, hw, hl, hq, -⟩ := State.write_waiting hwaits message elementSize
      apply h.of_same hsends (hw.trans hwaits.symm) hl
      rw [hq]
      exact id
  | false =>
      obtain ⟨hsends, -, hw, hl, hq, -⟩ := State.write_idle hwaits message elementSize
      have hnone : s.sends = [] := by
        rw [← List.length_eq_zero_iff, h.sends, hwaits]
        rfl
      rw [hnone] at hsends
      refine State.owned_of_single hsends hw ?_ (fun habs => by cases habs)
      rw [hl, h.locked, hnone]
      simp

theorem State.Owned.advance (h : s.Owned) (hi : s.activities[i]? = some a)
    (hmoves : s.Moves i a s') : s'.Owned := by
  cases hmoves with
  | push message => exact h.of_same (State.sends_of_push hi) rfl rfl (fun _ => by simp)
  | firstSend message | send message => exact h.passOn hi rfl rfl (by simp) rfl rfl rfl
  | takeRest error bytesTransferred message hfree hpart =>
      obtain ⟨hwaits, -, hsends, -⟩ := h.move hi rfl
        [.sending { message with bytes := message.bytes.drop bytesTransferred }]
        (by simp [Activity.isSend])
      exact State.owned_of_single hsends hwaits (by simpa using hfree) (by simp)
  | takeNext error message hfree =>
      obtain ⟨hwaits, -, hsends, -⟩ := h.move hi rfl [.testing] (by simp [Activity.isSend])
      exact State.owned_of_single hsends hwaits (by simp) (by simp)
  | foundMore hqueue =>
      obtain ⟨hwaits, -, hsends, -⟩ := h.move hi rfl [.popping] (by simp [Activity.isSend])
      exact State.owned_of_single hsends hwaits (by simp) (fun _ => hqueue)
  | foundEmpty hqueue =>
      obtain ⟨-, -, hsends, -⟩ := h.move hi rfl [] (by simp)
      refine ⟨congrArg List.length hsends, ?_, ?_⟩
      · show false = true ↔ Activity.testing ∈ (s.continueAs i []).sends
        rw [hsends]
        simp
      · show Activity.popping ∈ (s.continueAs i []).sends → _
        rw [hsends]
        simp
  | pop message rest hqueue =>
      exact h.passOn hi rfl rfl (by simp) rfl rfl rfl

/-- **`waits` is set exactly while one send is on its way**, with any number of writers. -/
theorem State.Owned.step (h : s.Owned) (hstep : s.step action = some s') : s'.Owned := by
  rcases State.step_cases hstep with ⟨message, elementSize, rfl, -, rfl⟩ |
    ⟨i, error, bytesTransferred, message, rfl, hi, -, rfl⟩ | ⟨i, a, rfl, hi, hmoves⟩
  · exact h.write message elementSize
  · exact h.passOn hi rfl rfl (by simp) rfl rfl rfl
  · exact h.advance hi hmoves

theorem State.initial_owned : State.initial.Owned :=
  ⟨rfl, by decide, by decide⟩

end Steps

end NetServer
end CoherentDB
