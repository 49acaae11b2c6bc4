import CoherentDB.NetServer.Answers

/-!
# The counters of unconfirmed bytes and messages

`write` adds the bytes and the message it accepts to two counters, and every run of
`handle_write` takes away the bytes that were transferred and one message.  But `write`
counts elements times their size where the buffer is as many bytes as there are elements,
and `handle_write` takes a message away for each part of it that was transferred.

`load` measures the messages that are under way or in the queue.  As long as messages are made
of bytes and transferred whole, both counters are loads; the first step that is not so makes
one of them wrong (`unconfirmed_exact`).
-/

namespace CoherentDB
namespace NetServer

open MachineInt ListRange Runs Util

namespace Event

/-- The bytes that `handle_write` is told of. -/
def confirmedBytes : Event → ℕ
  | .handled _ bytesTransferred _ => bytesTransferred
  | .submitted _ | .invoked _ _ _ => 0

/-- The message whose last byte `handle_write` is told of. -/
def confirmedMessages : Event → ℕ
  | .handled _ bytesTransferred message => if bytesTransferred = message.bytes.length then 1 else 0
  | .submitted _ | .invoked _ _ _ => 0

end Event

/-- The counters are what was accepted and not confirmed yet. -/
structure Recorded.CountsExact (r : Recorded) : Prop where
  messages : r.state.messagesUnconfirmed + (r.events.map Event.confirmedMessages).sum =
    r.sizes.length
  bytes : r.state.bytesUnconfirmed + (r.events.map Event.confirmedBytes).sum = r.sizes.sum

/-- The elements of a message count for as many bytes as the buffer has, the counters do not
reach `2 ^ 64`, and `handle_write` is told of whole messages. -/
def CountsKept (s : State) : Action → Prop
  | .write message elementSize =>
      message.bytes.length * elementSize % 2 ^ 64 = message.bytes.length ∧
        s.bytesUnconfirmed + message.bytes.length < 2 ^ 64 ∧ s.messagesUnconfirmed + 1 < 2 ^ 64
  | .complete _ _ _ => True
  | .advance i => ∀ error bytesTransferred message,
      s.activities[i]? = some (.handling error bytesTransferred message) →
        bytesTransferred = message.bytes.length

/-- A measure of the message that an activity has with it. -/
def Activity.load (q : Message → ℕ) : Activity → ℕ
  | .pushing message | .writing message | .outstanding message | .handling _ _ message
  | .sending message => q message
  | .testing | .popping => 0

/-- The measure of all messages under way and in the queue. -/
def State.load (q : Message → ℕ) (s : State) : ℕ :=
  (s.activities.map (Activity.load q)).sum + (s.messagesQueue.map q).sum

section Steps

variable {q : Message → ℕ} {s s' : State} {i : ℕ} {a : Activity}

/-- An activity goes on with another load. -/
theorem State.load_continueAs (q : Message → ℕ) (hi : s.activities[i]? = some a)
    (next : List Activity) :
    (s.continueAs i next).load q + a.load q = s.load q + (next.map (Activity.load q)).sum := by
  have hsum := sum_map_splice (Activity.load q) hi next
  unfold State.load
  show ((splice s.activities i next).map (Activity.load q)).sum + (s.messagesQueue.map q).sum +
    a.load q = _
  omega

/-- The message of an activity is part of the load. -/
theorem State.load_le (q : Message → ℕ) (hi : s.activities[i]? = some a) : a.load q ≤ s.load q := by
  have hload := State.load_continueAs q hi []
  rw [List.map_nil, List.sum_nil] at hload
  omega

/-- `write` adds its message. -/
theorem State.load_write (q : Message → ℕ) (message : Message) (elementSize : ℕ) :
    (s.write message elementSize).load q = s.load q + q message := by
  unfold State.load State.write
  dsimp only
  split_ifs
  all_goals
    simp only [List.map_append, List.map_singleton, List.sum_append, List.sum_singleton,
      Activity.load]
    omega

/-- **Only `handle_write` changes the load and the counters**; every other step hands a message
on. -/
theorem State.Moves.load_same (q : Message → ℕ) (hi : s.activities[i]? = some a)
    (hmoves : s.Moves i a s') (hnot : ∀ error k message, a ≠ .handling error k message) :
    s'.load q = s.load q ∧ s'.messagesUnconfirmed = s.messagesUnconfirmed ∧
      s'.bytesUnconfirmed = s.bytesUnconfirmed := by
  cases hmoves with
  | push message =>
      have hload := State.load_continueAs q hi []
      refine ⟨?_, rfl, rfl⟩
      simp only [State.load, State.continueAs, List.map_append, List.map_singleton, List.sum_append,
        List.sum_singleton, List.map_nil, List.sum_nil, Activity.load] at hload ⊢
      omega
  | firstSend message | send message =>
      have hload := State.load_continueAs q hi [.outstanding message]
      rw [List.map_singleton, List.sum_singleton] at hload
      exact ⟨Nat.add_right_cancel hload, rfl, rfl⟩
  | takeRest error k message hfree hpart => exact absurd rfl (hnot error k message)
  | takeNext error message hfree => exact absurd rfl (hnot error _ message)
  | foundMore hqueue =>
      have hload := State.load_continueAs q hi [.popping]
      exact ⟨hload, rfl, rfl⟩
  | foundEmpty hqueue =>
      have hload := State.load_continueAs q hi []
      exact ⟨hload, rfl, rfl⟩
  | pop message rest hqueue =>
      have hload := State.load_continueAs q hi [.sending message]
      refine ⟨?_, rfl, rfl⟩
      simp only [State.load, State.continueAs, hqueue, List.map_cons, List.sum_cons,
        List.map_nil, List.sum_nil, Activity.load] at hload ⊢
      omega

/-- The message that `handle_write` was told of in full is no load any more. -/
theorem State.load_takeNext (q : Message → ℕ) {error : Option ℕ} {k : ℕ} {message : Message}
    (hi : s.activities[i]? = some (.handling error k message)) :
    (s.continueAs i [.testing]).load q + q message = s.load q := by
  have hload := State.load_continueAs q hi [.testing]
  exact hload

/-- A step of another activity confirms nothing. -/
theorem State.events_confirm_nothing (hi : s.activities[i]? = some a)
    (hnot : ∀ error k message, a ≠ .handling error k message) :
    ((s.events (.advance i)).map Event.confirmedMessages).sum = 0 ∧
      ((s.events (.advance i)).map Event.confirmedBytes).sum = 0 := by
  cases a with
  | handling error k message => exact absurd rfl (hnot error k message)
  | pushing | writing | outstanding | testing | popping | sending =>
      simp [State.events, hi, Event.confirmedMessages, Event.confirmedBytes]

end Steps

/-- The counters are exact, and they are the load of the queue. -/
structure Recorded.Loaded (r : Recorded) : Prop where
  exact : r.CountsExact
  messages : r.state.messagesUnconfirmed = r.state.load fun _ => 1
  bytes : r.state.bytesUnconfirmed = r.state.load fun message => message.bytes.length
  messagesWord : r.state.messagesUnconfirmed < 2 ^ 64
  bytesWord : r.state.bytesUnconfirmed < 2 ^ 64

namespace Recorded

variable {r r' : Recorded} {s' : State} {i : ℕ} {a : Activity}

/-- A step keeps the counters exact if and only if it is `CountsKept`, and then they are loads
again. -/
def StepCounted (r r' : Recorded) (action : Action) : Prop :=
  (r'.CountsExact ↔ CountsKept r.state action) ∧ (CountsKept r.state action → r'.Loaded)

/-- A step that changes the counters as it should. -/
theorem Loaded.stepCounted {action : Action} (hkept : CountsKept r.state action)
    (h : r'.Loaded) : StepCounted r r' action :=
  ⟨iff_of_true h.exact hkept, fun _ => h⟩

/-- A step that changes neither the counters nor the load, and confirms nothing. -/
theorem Loaded.of_same (h : r.Loaded) {events : List Event}
    (hload : ∀ q, s'.load q = r.state.load q)
    (hcounters : s'.messagesUnconfirmed = r.state.messagesUnconfirmed ∧
      s'.bytesUnconfirmed = r.state.bytesUnconfirmed)
    (hevents : (events.map Event.confirmedMessages).sum = 0 ∧
      (events.map Event.confirmedBytes).sum = 0) :
    Loaded ⟨s', r.sizes, r.events ++ events⟩ := by
  refine ⟨⟨?_, ?_⟩, ?_, ?_, ?_, ?_⟩
  · rw [List.map_append, List.sum_append, hevents.1, hcounters.1]
    exact h.exact.messages
  · rw [List.map_append, List.sum_append, hevents.2, hcounters.2]
    exact h.exact.bytes
  · rw [hcounters.1, hload]
    exact h.messages
  · rw [hcounters.2, hload]
    exact h.bytes
  · rw [hcounters.1]
    exact h.messagesWord
  · rw [hcounters.2]
    exact h.bytesWord

/-- **`write` counts its message right** if and only if it counts bytes and neither counter wraps
around. -/
theorem Loaded.write (h : r.Loaded) (message : Message) (elementSize : ℕ) :
    StepCounted r ⟨r.state.write message elementSize, r.sizes ++ [message.bytes.length], r.events⟩
      (.write message elementSize) := by
  obtain ⟨hmessages, hbytes⟩ := h.exact
  have hbytesWord := h.bytesWord
  have hcounters : (r.state.write message elementSize).messagesUnconfirmed =
        addWrap 64 r.state.messagesUnconfirmed 1 ∧
      (r.state.write message elementSize).bytesUnconfirmed =
        addWrap 64 r.state.bytesUnconfirmed (message.bytes.length * elementSize) := by
    unfold State.write
    dsimp only
    split_ifs <;> exact ⟨rfl, rfl⟩
  by_cases hkept : CountsKept r.state (.write message elementSize)
  · obtain ⟨hsame, hbytesLt, hmessagesLt⟩ := id hkept
    have hcounted : (r.state.write message elementSize).messagesUnconfirmed =
          r.state.messagesUnconfirmed + 1 ∧
        (r.state.write message elementSize).bytesUnconfirmed =
          r.state.bytesUnconfirmed + message.bytes.length := by
      generalize message.bytes.length * elementSize = product at hsame hcounters
      rw [hcounters.1, hcounters.2, addWrap, addWrap]
      omega
    refine Loaded.stepCounted hkept ⟨⟨?_, ?_⟩, ?_, ?_, ?_, ?_⟩
    · simp only [hcounted.1, List.length_append, List.length_singleton]
      omega
    · simp only [hcounted.2, List.sum_append, List.sum_singleton]
      omega
    · rw [hcounted.1, State.load_write, h.messages]
    · rw [hcounted.2, State.load_write, h.bytes]
    · rw [hcounted.1]
      exact hmessagesLt
    · rw [hcounted.2]
      exact hbytesLt
  · refine ⟨iff_of_false ?_ hkept, fun habs => absurd habs hkept⟩
    rintro ⟨hmessages', hbytes'⟩
    apply hkept
    simp only [hcounters.1, hcounters.2, List.length_append, List.length_singleton, List.sum_append,
      List.sum_singleton, addWrap] at hmessages' hbytes'
    rw [CountsKept]
    generalize message.bytes.length * elementSize = product at *
    omega

/-- **`handle_write` takes away what was confirmed** if and only if it is told of a whole
message. -/
theorem Loaded.handled (h : r.Loaded) {error : Option ℕ} {k : ℕ} {message : Message}
    (hi : r.state.activities[i]? = some (.handling error k message))
    (hmoves : r.state.Moves i (.handling error k message) s') :
    StepCounted r ⟨s', r.sizes, r.events ++ [.handled error k message]⟩ (.advance i) := by
  obtain ⟨hmessages, hbytes⟩ := h.exact
  have hmessagesWord := h.messagesWord
  have hbytesWord := h.bytesWord
  have hone : 1 ≤ r.state.messagesUnconfirmed := by
    rw [h.messages]
    exact State.load_le (fun _ => 1) hi
  have hlength : message.bytes.length ≤ r.state.bytesUnconfirmed := by
    rw [h.bytes]
    exact State.load_le (fun message => message.bytes.length) hi
  have hless : subWrap 64 r.state.messagesUnconfirmed 1 = r.state.messagesUnconfirmed - 1 :=
    subWrap_of_le hone hmessagesWord
  cases hmoves with
  | takeRest _ _ _ hfree hpart =>
      have hnot : ¬ CountsKept r.state (.advance i) := fun hkept =>
        hpart (hkept error k message hi).symm
      refine ⟨iff_of_false ?_ hnot, fun habs => absurd habs hnot⟩
      rintro ⟨hmessages', -⟩
      simp only [List.map_append, List.map_singleton, List.sum_append, List.sum_singleton,
        Event.confirmedMessages, if_neg (Ne.symm hpart), hless] at hmessages'
      omega
  | takeNext _ _ hfree =>
      have hkept : CountsKept r.state (.advance i) := by
        intro error' k' message' hi'
        rw [hi] at hi'
        cases hi'
        rfl
      have hfewer : subWrap 64 r.state.bytesUnconfirmed message.bytes.length =
          r.state.bytesUnconfirmed - message.bytes.length := subWrap_of_le hlength hbytesWord
      have hloadMessages := State.load_takeNext (fun _ => 1) hi
      have hloadBytes := State.load_takeNext (fun message => message.bytes.length) hi
      rw [← h.messages] at hloadMessages
      rw [← h.bytes] at hloadBytes
      refine Loaded.stepCounted hkept ⟨⟨?_, ?_⟩, ?_, ?_, ?_, ?_⟩
      · simp only [List.map_append, List.map_singleton, List.sum_append, List.sum_singleton,
          Event.confirmedMessages, if_pos, hless]
        omega
      · simp only [List.map_append, List.map_singleton, List.sum_append, List.sum_singleton,
          Event.confirmedBytes, hfewer]
        omega
      · show subWrap 64 r.state.messagesUnconfirmed 1 = (r.state.continueAs i [.testing]).load _
        omega
      · show subWrap 64 r.state.bytesUnconfirmed message.bytes.length =
          (r.state.continueAs i [.testing]).load _
        omega
      · exact subWrap_lt 64 _ _
      · exact subWrap_lt 64 _ _

/-- The name of a handler is not counted. -/
theorem countsKept_named (s : State) (calls : ℕ) (action : Action) :
    CountsKept s (named calls action) ↔ CountsKept s action := by
  cases action <;> exact Iff.rfl

/-- **Every step.** -/
theorem Loaded.step {action : Action} (h : r.Loaded) (hstep : r.step action = some r') :
    StepCounted r r' action := by
  obtain ⟨s', hs, rfl⟩ := Option.map_eq_some_iff.mp hstep
  rw [StepCounted, ← countsKept_named r.state r.sizes.length action, ← StepCounted]
  generalize named r.sizes.length action = action at *
  rcases State.step_cases hs with ⟨message, elementSize, rfl, -, rfl⟩ |
    ⟨i, error, k, message, rfl, hi, -, rfl⟩ | ⟨i, a, rfl, hi, hmoves⟩
  · simpa [Action.accepted, State.events] using h.write message elementSize
  · rw [Action.accepted, List.map_nil, List.append_nil, State.events]
    refine Loaded.stepCounted trivial (h.of_same (fun q => ?_) ⟨rfl, rfl⟩ ⟨rfl, rfl⟩)
    have hload := State.load_continueAs q hi [.handling error k message]
    rw [List.map_singleton, List.sum_singleton] at hload
    exact Nat.add_right_cancel hload
  · rw [Action.accepted, List.map_nil, List.append_nil]
    by_cases hhandling : ∃ error k message, a = .handling error k message
    · obtain ⟨error, k, message, rfl⟩ := hhandling
      have hevents : r.state.events (.advance i) = [.handled error k message] := by
        simp only [State.events, hi]
      rw [hevents]
      exact h.handled hi hmoves
    · push Not at hhandling
      refine Loaded.stepCounted ?_ ?_
      · intro error k message hi'
        rw [hi] at hi'
        exact absurd (Option.some.inj hi') (hhandling error k message)
      · exact h.of_same (fun q => (hmoves.load_same q hi hhandling).1)
          (hmoves.load_same (fun _ => 1) hi hhandling).2 (State.events_confirm_nothing hi hhandling)

theorem initial_loaded : Recorded.initial.Loaded :=
  ⟨⟨rfl, rfl⟩, rfl, rfl, by decide, by decide⟩

/-- **When the counters of unconfirmed bytes and messages are exact.**  In every run, with any
writers, whose messages are made of bytes and transferred whole, the counters are in every state
what was accepted and not confirmed yet.  The next step keeps them so if and only if it is of
that kind, too. -/
theorem unconfirmed_exact {actions : List Action} {r : Recorded}
    (hrun : Runs.Run step (fun r action => CountsKept r.state action) initial actions r) :
    r.CountsExact ∧ ∀ action r', r.step action = some r' →
      (r'.CountsExact ↔ CountsKept r.state action) := by
  have hloaded : r.Loaded := by
    refine hrun.invariant (P := fun _ r => r.Loaded) initial_loaded ?_
    exact fun _ _ _ _ h hkept hstep => (h.step hstep).2 hkept
  exact ⟨hloaded.exact, fun action r' hstep => (hloaded.step hstep).1⟩

/-- Two bytes, transferred one at a time. -/
def oneByteAtATime : List Action :=
  [.write ⟨[1, 2], 0⟩ 1, .advance 0, .complete 0 none 1, .advance 0, .advance 0,
    .complete 0 none 1, .advance 0, .advance 0]

/-- After the first byte no message counts as unconfirmed; after the second the counter has
wrapped around.  A message of two elements of four bytes counts for eight bytes, of which two
can ever be confirmed. -/
theorem unconfirmed_inexact :
    (∃ r, Runs.Run step anyAction initial (oneByteAtATime.take 4) r ∧ r.state.locked = false ∧
      r.state.messagesUnconfirmed = 0 ∧ r.state.bytesUnconfirmed = 1 ∧ ¬ r.CountsExact) ∧
    (∃ r, Runs.Run step anyAction initial oneByteAtATime r ∧ r.state.locked = false ∧
      r.state.messagesUnconfirmed = 2 ^ 64 - 1 ∧ r.state.activities = [] ∧ ¬ r.CountsExact) ∧
    ∃ r, Runs.Run step anyAction initial [.write ⟨[1, 2], 0⟩ 4] r ∧ r.state.locked = false ∧
      r.state.bytesUnconfirmed = 8 ∧ ¬ r.CountsExact := by
  refine ⟨⟨_, Runs.Run.start.performAll _ rfl, rfl, rfl, rfl, fun h => ?_⟩,
    ⟨_, Runs.Run.start.performAll _ rfl, rfl, rfl, rfl, fun h => ?_⟩,
    ⟨_, Runs.Run.start.performAll _ rfl, rfl, rfl, fun h => ?_⟩⟩
  · exact absurd h.messages (by decide)
  · exact absurd h.messages (by decide)
  · exact absurd h.bytes (by decide)

/-- Two messages, of which the first is transferred whole and confirmed. -/
def oneOfTwo : List Action :=
  [.write ⟨[1, 2], 0⟩ 1, .write ⟨[3], 0⟩ 1, .advance 0, .complete 0 none 2, .advance 0]

theorem unconfirmed_exact_oneOfTwo :
    ∃ r, Runs.Run step (fun r action => CountsKept r.state action) initial oneOfTwo r ∧
      r.state.messagesUnconfirmed = 1 ∧ r.CountsExact := by
  obtain ⟨r, hfollows, hone⟩ : ∃ r, Follows step (fun r action => CountsKept r.state action) initial
      oneOfTwo r ∧ r.state.messagesUnconfirmed = 1 := by
    refine ⟨_, ⟨And.intro rfl (And.intro (by decide) (by decide)), _, rfl,
      And.intro rfl (And.intro (by decide) (by decide)), _, rfl, ?_, _, rfl, trivial, _, rfl, ?_, _,
      rfl, rfl⟩, rfl⟩
    · rintro error k message ⟨⟩
    · rintro error k message ⟨⟩
      rfl
  have hrun := Runs.Run.start.follows oneOfTwo hfollows
  exact ⟨r, hrun, hone, (unconfirmed_exact hrun).1⟩

end Recorded

end NetServer
end CoherentDB
