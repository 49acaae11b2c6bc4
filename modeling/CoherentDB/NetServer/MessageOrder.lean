import CoherentDB.NetServer.WriteQueue

/-!
# The order of one caller's messages

One caller passes messages to `write`, one after another.  `write` reads `waits` under
the mutex but pushes after the unlock.  When `handle_write` asks for the queue's
emptiness in between, it clears `waits` and the pushed message has nobody to send it:
`handleWrite_strands_message` is such a run.

`TestsAfterPush` says that a step is not this one.  In the runs without it `InOrder`
holds: the bytes on the wire, those of the send under way, those in the queue and those
of the message about to be pushed are the caller's messages, in this order.
-/

namespace CoherentDB
namespace NetServer

open MachineInt ListRange Runs Util

/-- The activity is a call of `write`. -/
def Activity.isWrite : Activity → Bool
  | .pushing _ | .writing _ => true
  | .outstanding _ | .handling _ _ _ | .testing | .popping | .sending _ => false

/-- `write` is called by one caller, who calls it again after it has returned. -/
def OneCaller (s : State) : Action → Prop
  | .write _ _ => ∀ a ∈ s.activities, a.isWrite = false
  | .complete _ _ _ | .advance _ => True

/-- `handle_write` does not find the queue empty while a `write` call stands between its test
of `waits` and its push. -/
def TestsAfterPush (s : State) : Action → Prop
  | .advance i => s.activities[i]? = some .testing → s.messagesQueue = [] →
      ∀ a ∈ s.activities, a.isSend = true
  | .write _ _ | .complete _ _ _ => True

instance (s : State) : (action : Action) → Decidable (OneCaller s action)
  | .write _ _ => inferInstanceAs (Decidable (∀ a ∈ s.activities, a.isWrite = false))
  | .complete _ _ _ | .advance _ => isTrue trivial

instance (s : State) : (action : Action) → Decidable (TestsAfterPush s action)
  | .advance i => inferInstanceAs (Decidable (s.activities[i]? = some .testing →
      s.messagesQueue = [] → ∀ a ∈ s.activities, a.isSend = true))
  | .write _ _ | .complete _ _ _ => isTrue trivial

/-- The bytes of a send that the socket has not taken. -/
def Activity.left : Activity → List Byte
  | .writing message | .outstanding message | .sending message => message.bytes
  | .handling _ bytesTransferred message => message.bytes.drop bytesTransferred
  | .pushing _ | .testing | .popping => []

/-- The bytes of a message that is about to be pushed. -/
def Activity.late : Activity → List Byte
  | .pushing message => message.bytes
  | .writing _ | .outstanding _ | .handling _ _ _ | .testing | .popping | .sending _ => []

/-- The bytes of a list of messages. -/
def stream (messages : List Message) : List Byte := messages.flatMap Message.bytes

/-- The invariant of one caller's messages. -/
structure InOrder (s : State) (messages : List Message) : Prop where
  owned : s.Owned
  caller : s.pushes.length ≤ 1
  idle : s.waits = false → s.messagesQueue = [] ∧ s.pushes = []
  bytes : s.wire ++ s.sends.flatMap Activity.left ++ stream s.messagesQueue ++
    s.pushes.flatMap Activity.late = stream messages

section Steps

variable {s s' : State} {messages : List Message} {i : ℕ} {a : Activity} {action : Action}

theorem stream_append (messages : List Message) (message : Message) :
    stream (messages ++ [message]) = stream messages ++ message.bytes := by
  simp [stream]

theorem InOrder.write (h : InOrder s messages) (message : Message) (elementSize : ℕ)
    (hcaller : ∀ a ∈ s.activities, a.isWrite = false) :
    InOrder (s.write message elementSize) (messages ++ [message]) := by
  have hpushes : s.pushes = [] := by
    rw [State.pushes, List.filter_eq_nil_iff]
    intro a ha
    have hwrite := hcaller a ha
    cases a <;> simp_all [Activity.isWrite, Activity.isSend]
  have howned := h.owned.write message elementSize
  have hbytes := h.bytes
  rw [hpushes] at hbytes
  cases hwaits : s.waits with
  | true =>
      obtain ⟨hs, hp, hw, -, hq, hwire⟩ := State.write_waiting hwaits message elementSize
      rw [hpushes] at hp
      refine ⟨howned, by rw [hp]; exact le_rfl, by rw [hw]; simp, ?_⟩
      rw [hs, hp, hq, hwire, stream_append, ← hbytes]
      simp [Activity.late]
  | false =>
      obtain ⟨hs, hp, hw, -, hq, hwire⟩ := State.write_idle hwaits message elementSize
      obtain ⟨hempty, -⟩ := h.idle hwaits
      rw [hpushes] at hp
      refine ⟨howned, by rw [hp]; exact Nat.zero_le 1, by rw [hw]; simp, ?_⟩
      rw [hempty] at hbytes
      rw [hs, hp, hq, hwire, hempty, stream_append, ← hbytes]
      simp [stream, Activity.left]

/-- The only send goes on: its bytes that are left are the same, but for those that go to the
wire or come from the queue. -/
theorem InOrder.move (h : InOrder s messages) (hi : s.activities[i]? = some a)
    (ha : a.isSend = true) {next : Activity} (howned : s'.Owned)
    (hsends : s'.sends = [next]) (hpushes : s'.pushes = s.pushes) (hwaits : s'.waits = true)
    (hbytes : s'.wire ++ next.left ++ stream s'.messagesQueue =
      s.wire ++ a.left ++ stream s.messagesQueue) : InOrder s' messages := by
  obtain ⟨-, hself, -, -⟩ := h.owned.move hi ha [] (by simp)
  refine ⟨howned, by rw [hpushes]; exact h.caller, by rw [hwaits]; simp, ?_⟩
  have hold := h.bytes
  rw [hself, List.flatMap_singleton] at hold
  rw [hsends, List.flatMap_singleton, hpushes, hbytes, hold]

/-- The push of the only message that is late. -/
theorem InOrder.push (h : InOrder s messages) {message : Message}
    (hi : s.activities[i]? = some (.pushing message)) :
    InOrder { s.continueAs i [] with messagesQueue := s.messagesQueue ++ [message] } messages := by
  obtain ⟨hself, hnone⟩ := filter_splice_of_single hi rfl h.caller []
  replace hself : s.pushes = [.pushing message] := hself
  have hpushes : State.pushes { s.continueAs i [] with
      messagesQueue := s.messagesQueue ++ [message] } = [] := hnone
  have hsends : State.sends { s.continueAs i [] with
      messagesQueue := s.messagesQueue ++ [message] } = s.sends := State.sends_of_push hi
  have hbytes := h.bytes
  rw [hself] at hbytes
  refine ⟨h.owned.advance hi (.push message), by rw [hpushes]; exact Nat.zero_le 1, ?_, ?_⟩
  · intro hidle
    have habs := (h.idle hidle).2
    rw [hself] at habs
    cases habs
  · rw [hsends, hpushes, ← hbytes]
    simp [stream_append, Activity.late]

theorem InOrder.advance (h : InOrder s messages) (hi : s.activities[i]? = some a)
    (hmoves : s.Moves i a s') (htest : TestsAfterPush s (.advance i)) : InOrder s' messages := by
  have howned := h.owned.advance hi hmoves
  cases hmoves with
  | push message => exact h.push hi
  | firstSend message | send message =>
      obtain ⟨hwaits, -, hsends, hpushes⟩ :=
        h.owned.move hi rfl [.outstanding message] (by simp [Activity.isSend])
      exact h.move hi rfl howned hsends hpushes hwaits rfl
  | takeRest error bytesTransferred message hfree hpart =>
      obtain ⟨hwaits, -, hsends, hpushes⟩ := h.owned.move hi rfl
        [.sending { message with bytes := message.bytes.drop bytesTransferred }]
        (by simp [Activity.isSend])
      exact h.move hi rfl howned hsends hpushes hwaits rfl
  | takeNext error message hfree =>
      obtain ⟨hwaits, -, hsends, hpushes⟩ :=
        h.owned.move hi rfl [.testing] (by simp [Activity.isSend])
      apply h.move hi rfl howned hsends hpushes hwaits
      simp [Activity.left]
  | foundMore hqueue =>
      obtain ⟨hwaits, -, hsends, hpushes⟩ :=
        h.owned.move hi rfl [.popping] (by simp [Activity.isSend])
      exact h.move hi rfl howned hsends hpushes hwaits rfl
  | foundEmpty hqueue =>
      -- No push is to come, so all messages are on the wire.
      obtain ⟨-, hself, hsends, hpushes⟩ := h.owned.move hi rfl [] (by simp)
      have hnone : s.pushes = [] := by
        rw [State.pushes, List.filter_eq_nil_iff]
        intro b hb
        rw [htest hi hqueue b hb]
        decide
      have hbytes := h.bytes
      rw [hself, hnone] at hbytes
      refine ⟨howned, ?_, fun _ => ⟨hqueue, hpushes.trans hnone⟩, ?_⟩
      · show (s.continueAs i []).pushes.length ≤ 1
        rw [hpushes]
        exact h.caller
      · show s.wire ++ (s.continueAs i []).sends.flatMap Activity.left ++
          stream s.messagesQueue ++ (s.continueAs i []).pushes.flatMap Activity.late = _
        rw [hsends, hpushes, hnone, ← hbytes]
        rfl
  | pop message rest hqueue =>
      obtain ⟨hwaits, -, hsends, hpushes⟩ :=
        h.owned.move hi rfl [.sending message] (by simp [Activity.isSend])
      apply h.move hi rfl howned hsends hpushes hwaits
      simp [hqueue, stream, Activity.left]

theorem InOrder.step (h : InOrder s messages) (hcaller : OneCaller s action)
    (htest : TestsAfterPush s action) (hstep : s.step action = some s') :
    InOrder s' (messages ++ action.accepted) := by
  have howned := h.owned.step hstep
  rcases State.step_cases hstep with ⟨message, elementSize, rfl, -, rfl⟩ |
    ⟨i, error, bytesTransferred, message, rfl, hi, -, rfl⟩ | ⟨i, a, rfl, hi, hmoves⟩
  · exact h.write message elementSize hcaller
  · obtain ⟨hwaits, -, hsends, hpushes⟩ :=
      h.owned.move hi rfl [.handling error bytesTransferred message] (by simp [Activity.isSend])
    rw [Action.accepted, List.append_nil]
    apply h.move hi rfl howned hsends hpushes hwaits
    -- What the socket takes is the front of what was left.
    show s.wire ++ message.bytes.take bytesTransferred ++ message.bytes.drop bytesTransferred ++
      stream s.messagesQueue = s.wire ++ message.bytes ++ stream s.messagesQueue
    rw [List.append_assoc s.wire, List.take_append_drop]
  · rw [Action.accepted, List.append_nil]
    exact h.advance hi hmoves htest

end Steps

/-- **Messages are sent in order and none is stranded** in every run of one caller in which
`handle_write` never finds the queue empty before a push that is under way. -/
theorem messages_in_order {actions : List Action} {s : State}
    (hrun : Run State.step (fun s action => OneCaller s action ∧ TestsAfterPush s action)
      State.initial actions s) :
    s.wire <+: stream (messages actions) ∧
      (s.activities = [] → s.messagesQueue = [] ∧ s.wire = stream (messages actions)) := by
  have h : InOrder s (messages actions) := by
    refine hrun.invariant (P := fun actions s => InOrder s (messages actions))
      ⟨State.initial_owned, by decide, by decide, rfl⟩ ?_
    intro actions s s' action h hallowed hstep
    rw [messages_concat]
    exact h.step hallowed.1 hallowed.2 hstep
  constructor
  · rw [← h.bytes, List.append_assoc, List.append_assoc]
    exact List.prefix_append _ _
  · intro hquiet
    have hsends : s.sends = [] := by rw [State.sends, hquiet]; rfl
    have hpushes : s.pushes = [] := by rw [State.pushes, hquiet]; rfl
    have hwaits : s.waits = false := by
      have hlength := h.owned.sends
      rw [hsends] at hlength
      by_contra hwaits
      rw [if_pos (by simpa using hwaits)] at hlength
      cases hlength
    obtain ⟨hqueue, -⟩ := h.idle hwaits
    have hbytes := h.bytes
    rw [hsends, hpushes, hqueue] at hbytes
    refine ⟨hqueue, ?_⟩
    rw [← hbytes]
    simp [stream]

/-- Two messages; the second is pushed while the first is sent in two parts. -/
def partialSends : List Action :=
  [.write ⟨[1, 2], 0⟩ 1, .advance 0, .write ⟨[3], 1⟩ 1, .complete 0 none 1, .advance 0, .advance 1,
    .advance 0, .complete 0 none 1, .advance 0, .advance 0, .advance 0, .advance 0,
    .complete 0 none 1, .advance 0, .advance 0]

theorem messages_in_order_partialSends :
    let s : State := ⟨false, [], 0, 2 ^ 64 - 1, false, [], [1, 2, 3]⟩
    Run State.step (fun s action => OneCaller s action ∧ TestsAfterPush s action) State.initial
        partialSends s ∧
      s.wire <+: stream [⟨[1, 2], 0⟩, ⟨[3], 1⟩] ∧
      (s.activities = [] → s.messagesQueue = [] ∧ s.wire = stream [⟨[1, 2], 0⟩, ⟨[3], 1⟩]) := by
  intro s
  have hrun : Run State.step (fun s action => OneCaller s action ∧ TestsAfterPush s action)
      State.initial partialSends s := Run.start.performAll partialSends (by decide)
  exact ⟨hrun, messages_in_order hrun⟩

/-- The second `write` tests `waits` while the first message is complete but its
`handle_write` has not locked yet; the push comes after `handle_write` found the queue empty. -/
def latePush : List Action :=
  [.write ⟨[1], 0⟩ 1, .advance 0, .complete 0 none 1, .write ⟨[2], 1⟩ 1, .advance 0, .advance 0,
    .advance 0]

/-- A message is stranded in the queue with nothing under way, and the next one overtakes
it. -/
theorem handleWrite_strands_message :
    (∃ s, Run State.step OneCaller State.initial latePush s ∧ s.activities = [] ∧
      s.messagesQueue = [⟨[2], 1⟩]) ∧
    (∃ actions s, Run State.step OneCaller State.initial actions s ∧
      messages actions = [⟨[1], 0⟩, ⟨[2], 1⟩, ⟨[3], 2⟩] ∧ s.wire = [1, 3] ∧
      ¬ s.wire <+: stream (messages actions)) := by
  have hstranded : Run State.step OneCaller State.initial latePush
      ⟨false, [⟨[2], 1⟩], 1, 1, false, [], [1]⟩ := Run.start.performAll latePush (by decide)
  have hovertaken : Run State.step OneCaller State.initial
      (latePush ++ [.write ⟨[3], 2⟩ 1, .advance 0, .complete 0 none 1])
      ⟨true, [⟨[2], 1⟩], 2, 2, false, [.handling none 1 ⟨[3], 2⟩], [1, 3]⟩ :=
    hstranded.performAll [.write ⟨[3], 2⟩ 1, .advance 0, .complete 0 none 1] (by decide)
  exact ⟨⟨_, hstranded, rfl, rfl⟩, ⟨_, _, hovertaken, rfl, rfl, by decide⟩⟩

end NetServer
end CoherentDB
