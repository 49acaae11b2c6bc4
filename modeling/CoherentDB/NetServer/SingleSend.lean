import CoherentDB.NetServer.MessageOrder

/-!
# One send at a time

With any number of threads in `write`, `waits` hands the socket from one send to the
next, and nothing else touches it.  So the bytes that the socket has taken are whole
messages, one after the other, and a front part of the one whose send is under way.
`Unmixed` says so, and accounts for every message passed to `write`: it is on the wire,
under way, in the queue, or about to be pushed.

The order among messages of different threads is left open, and so is the order that
`MessageOrder` is about.
-/

namespace CoherentDB
namespace NetServer

open ListRange Runs Util

/-- What the socket has not taken of the message that a send is about. -/
def Activity.rest : Activity → Option Message
  | .writing message | .outstanding message | .sending message => some message
  | .handling _ bytesTransferred message =>
      some { message with bytes := message.bytes.drop bytesTransferred }
  | .pushing _ | .testing | .popping => none

/-- The message that is about to be pushed. -/
def Activity.pushed : Activity → List Message
  | .pushing message => [message]
  | .writing _ | .outstanding _ | .handling _ _ _ | .testing | .popping | .sending _ => []

/-- The messages that the calls of `write` are about to push. -/
def State.pushed (s : State) : List Message := s.activities.flatMap Activity.pushed

/-- The sends are about the message `current`, of which the socket has taken `taken`. -/
inductive UnderWay : List Activity → List Message → List Byte → Prop
  | idle {sends : List Activity} (hnone : ∀ a ∈ sends, a.rest = none) : UnderWay sends [] []
  | one {a : Activity} {rest : Message} (message : Message) (taken : List Byte)
      (hrest : a.rest = some rest) (hhandler : message.handler = rest.handler)
      (hbytes : message.bytes = taken ++ rest.bytes) : UnderWay [a] [message] taken

/-- The socket has taken whole messages and a part of the one under way; these, the queue and
the pushes to come are the messages passed to `write`. -/
def Unmixed (s : State) (messages : List Message) : Prop :=
  ∃ done current taken, s.wire = stream done ++ taken ∧ UnderWay s.sends current taken ∧
    (done ++ current ++ s.messagesQueue ++ s.pushed).Perm messages

section Steps

variable {s s' : State} {messages : List Message} {message : Message} {i : ℕ} {a b : Activity}
  {action : Action} {current : List Message} {taken : List Byte}

theorem State.pushed_of_send (hi : s.activities[i]? = some a) (ha : a.pushed = [])
    {next : List Activity} (hnext : next.flatMap Activity.pushed = []) :
    (s.continueAs i next).pushed = s.pushed := by
  obtain ⟨before, after, hl, -, hsplice⟩ := exists_split hi
  show (splice s.activities i next).flatMap _ = s.activities.flatMap _
  rw [hsplice, hl]
  simp only [List.flatMap_append, List.flatMap_cons, ha, hnext, List.nil_append, List.append_nil]

theorem UnderWay.single (h : UnderWay [a] current taken) :
    (a.rest = none ∧ current = [] ∧ taken = []) ∨
      ∃ m rest, current = [m] ∧ a.rest = some rest ∧ m.handler = rest.handler ∧
        m.bytes = taken ++ rest.bytes := by
  cases h with
  | idle hnone => exact Or.inl ⟨hnone a List.mem_cons_self, rfl, rfl⟩
  | one m taken hrest hhandler hbytes => exact Or.inr ⟨m, _, rfl, hrest, hhandler, hbytes⟩

/-- A send goes on with the same message. -/
theorem UnderWay.goOn (h : UnderWay [a] current taken) (hrest : b.rest = a.rest) :
    UnderWay [b] current taken := by
  obtain ⟨hnone, rfl, rfl⟩ | ⟨m, rest, rfl, hsome, hhandler, hbytes⟩ := h.single
  · refine .idle fun c hc => ?_
    rw [List.mem_singleton] at hc
    rw [hc, hrest, hnone]
  · exact .one m taken (hrest.trans hsome) hhandler hbytes

/-- A step that leaves the message under way, the queue and the pushes to come as they are. -/
theorem Unmixed.goOn (h : Unmixed s messages) (hsends : s.sends = [a])
    (hsends' : s'.sends = [b]) (hrest : b.rest = a.rest) (hwire : s'.wire = s.wire)
    (hqueue : s'.messagesQueue = s.messagesQueue) (hpushed : s'.pushed = s.pushed) :
    Unmixed s' messages := by
  obtain ⟨done, current, taken, hbytes, hunder, hperm⟩ := h
  rw [hsends] at hunder
  refine ⟨done, current, taken, hwire.trans hbytes, ?_, ?_⟩
  · rw [hsends']
    exact hunder.goOn hrest
  · rw [hqueue, hpushed]
    exact hperm

/-- No message is under way. -/
theorem Unmixed.of_idle {done : List Message} (hwire : s.wire = stream done)
    (hsends : ∀ a ∈ s.sends, a.rest = none)
    (hperm : (done ++ s.messagesQueue ++ s.pushed).Perm messages) : Unmixed s messages := by
  refine ⟨done, [], [], ?_, .idle hsends, ?_⟩
  · rw [List.append_nil]
    exact hwire
  · rw [List.append_nil]
    exact hperm

/-- The send is between two messages. -/
theorem Unmixed.idle (h : Unmixed s messages) (hsends : s.sends = [a]) (hrest : a.rest = none) :
    ∃ done, s.wire = stream done ∧ (done ++ s.messagesQueue ++ s.pushed).Perm messages := by
  obtain ⟨done, current, taken, hbytes, hunder, hperm⟩ := h
  rw [hsends] at hunder
  obtain ⟨-, rfl, rfl⟩ | ⟨m, rest, -, hsome, -, -⟩ := hunder.single
  · rw [List.append_nil] at hbytes hperm
    exact ⟨done, hbytes, hperm⟩
  · rw [hrest] at hsome
    cases hsome

theorem Unmixed.write (h : Unmixed s messages) (howned : s.Owned) (message : Message)
    (elementSize : ℕ) : Unmixed (s.write message elementSize) (messages ++ [message]) := by
  obtain ⟨done, current, taken, hbytes, hunder, hperm⟩ := h
  cases hwaits : s.waits with
  | true =>
      obtain ⟨hsends, -, -, -, hqueue, hwire⟩ := State.write_waiting hwaits message elementSize
      have hpushed : (s.write message elementSize).pushed = s.pushed ++ [message] := by
        unfold State.write
        rw [if_pos hwaits]
        show (s.activities ++ [Activity.pushing message]).flatMap _ = _
        rw [List.flatMap_append]
        rfl
      refine ⟨done, current, taken, hwire.trans hbytes, by rwa [hsends], ?_⟩
      rw [hqueue, hpushed, ← List.append_assoc]
      exact hperm.append_right _
  | false =>
      obtain ⟨hsends, -, -, -, hqueue, hwire⟩ := State.write_idle hwaits message elementSize
      have hpushed : (s.write message elementSize).pushed = s.pushed := by
        unfold State.write
        rw [if_neg (by rw [hwaits]; decide)]
        show (s.activities ++ [Activity.writing message]).flatMap _ = _
        rw [List.flatMap_append]
        exact List.append_nil _
      have hnone : s.sends = [] := by
        rw [← List.length_eq_zero_iff, howned.sends, hwaits]
        rfl
      rw [hnone] at hunder hsends
      cases hunder with
      | idle =>
          refine ⟨done, [message], [], hwire.trans hbytes, ?_, ?_⟩
          · rw [hsends]
            exact .one message [] rfl rfl rfl
          · rw [hqueue, hpushed]
            rw [List.append_nil, List.append_assoc] at hperm
            have hlast : (done ++ [message] ++ s.messagesQueue ++ s.pushed).Perm
                (done ++ (s.messagesQueue ++ s.pushed) ++ [message]) := by
              rw [List.append_assoc, List.append_assoc, List.append_assoc]
              exact (List.perm_append_comm).append_left done
            exact hlast.trans (hperm.append_right _)

/-- The socket takes the next bytes of the message under way. -/
theorem Unmixed.complete (h : Unmixed s messages) (howned : s.Owned)
    (hi : s.activities[i]? = some (.outstanding message)) (error : Option ℕ) (k : ℕ) :
    Unmixed { s.continueAs i [.handling error k message] with
      wire := s.wire ++ message.bytes.take k } messages := by
  obtain ⟨-, hself, hsends, -⟩ :=
    howned.move hi rfl [.handling error k message] (by simp [Activity.isSend])
  obtain ⟨done, current, taken, hbytes, hunder, hperm⟩ := h
  rw [hself] at hunder
  obtain ⟨hnone, -, -⟩ | ⟨m, rest, rfl, hrest, hhandler, hm⟩ := hunder.single
  · cases hnone
  · obtain rfl : message = rest := Option.some.inj hrest
    refine ⟨done, [m], taken ++ message.bytes.take k, ?_, ?_, ?_⟩
    · show s.wire ++ message.bytes.take k = _
      rw [hbytes, List.append_assoc]
    · show UnderWay (s.continueAs i [.handling error k message]).sends _ _
      rw [hsends]
      refine .one m _ rfl hhandler ?_
      rw [List.append_assoc, List.take_append_drop, hm]
    · have hpushed : (s.continueAs i [.handling error k message]).pushed = s.pushed :=
        State.pushed_of_send hi rfl rfl
      show (done ++ [m] ++ s.messagesQueue ++ (s.continueAs i _).pushed).Perm messages
      rw [hpushed]
      exact hperm

theorem Unmixed.advance (h : Unmixed s messages) (howned : s.Owned)
    (hi : s.activities[i]? = some a) (hmoves : s.Moves i a s') : Unmixed s' messages := by
  cases hmoves with
  | push message =>
      obtain ⟨done, current, taken, hbytes, hunder, hperm⟩ := h
      obtain ⟨before, after, hl, -, hsplice⟩ := exists_split hi
      refine ⟨done, current, taken, hbytes, ?_, ?_⟩
      · show UnderWay (s.continueAs i []).sends _ _
        rw [State.sends_of_push hi]
        exact hunder
      · show (done ++ current ++ (s.messagesQueue ++ [message]) ++
          (splice s.activities i []).flatMap Activity.pushed).Perm messages
        refine List.Perm.trans ?_ hperm
        rw [hsplice, State.pushed, hl]
        simp only [List.flatMap_append, List.flatMap_cons, Activity.pushed, List.append_assoc,
          List.singleton_append, List.nil_append]
        -- The message moves from the pushes to come to the end of the queue.
        refine List.Perm.append_left _ (List.Perm.append_left _ (List.Perm.append_left _ ?_))
        exact List.perm_middle.symm
  | firstSend message | send message =>
      obtain ⟨-, hself, hsends, -⟩ :=
        howned.move hi rfl [.outstanding message] (by simp [Activity.isSend])
      exact h.goOn hself hsends rfl rfl rfl (State.pushed_of_send hi rfl rfl)
  | takeRest error k message hfree hpart =>
      obtain ⟨-, hself, hsends, -⟩ := howned.move hi rfl
        [.sending { message with bytes := message.bytes.drop k }] (by simp [Activity.isSend])
      exact h.goOn hself hsends rfl rfl rfl (State.pushed_of_send hi rfl rfl)
  | takeNext error message hfree =>
      -- The last byte has been taken: the message is done.
      obtain ⟨-, hself, hsends, -⟩ := howned.move hi rfl [.testing] (by simp [Activity.isSend])
      obtain ⟨done, current, taken, hbytes, hunder, hperm⟩ := h
      rw [hself] at hunder
      obtain ⟨hnone, -, -⟩ | ⟨m, rest, rfl, hrest, -, hm⟩ := hunder.single
      · cases hnone
      · obtain rfl := Option.some.inj hrest
        rw [List.drop_length, List.append_nil] at hm
        have hwire : s.wire = stream (done ++ [m]) := by
          rw [hbytes, stream_append, hm]
        refine .of_idle hwire ?_ ?_
        · intro b hb
          change b ∈ (s.continueAs i [.testing]).sends at hb
          rw [hsends, List.mem_singleton] at hb
          rw [hb]
          rfl
        · show (done ++ [m] ++ s.messagesQueue ++ (s.continueAs i _).pushed).Perm messages
          rw [State.pushed_of_send hi rfl rfl]
          exact hperm
  | foundMore hqueue =>
      obtain ⟨-, hself, hsends, -⟩ := howned.move hi rfl [.popping] (by simp [Activity.isSend])
      exact h.goOn hself hsends rfl rfl rfl (State.pushed_of_send hi rfl rfl)
  | foundEmpty hqueue =>
      obtain ⟨-, hself, hsends, -⟩ := howned.move hi rfl [] (by simp)
      obtain ⟨done, hbytes, hperm⟩ := h.idle hself rfl
      refine .of_idle hbytes ?_ ?_
      · intro b hb
        change b ∈ (s.continueAs i []).sends at hb
        rw [hsends] at hb
        cases hb
      · show (done ++ s.messagesQueue ++ (s.continueAs i []).pushed).Perm messages
        rw [State.pushed_of_send hi rfl rfl]
        exact hperm
  | pop message rest hqueue =>
      obtain ⟨-, hself, hsends, -⟩ :=
        howned.move hi rfl [.sending message] (by simp [Activity.isSend])
      obtain ⟨done, hbytes, hperm⟩ := h.idle hself rfl
      refine ⟨done, [message], [], ?_, ?_, ?_⟩
      · rw [List.append_nil]
        exact hbytes
      · show UnderWay (s.continueAs i [.sending message]).sends _ _
        rw [hsends]
        exact .one message [] rfl rfl rfl
      · show (done ++ [message] ++ rest ++ (s.continueAs i _).pushed).Perm messages
        rw [State.pushed_of_send hi rfl rfl, List.append_assoc done, List.singleton_append]
        rw [hqueue] at hperm
        exact hperm

theorem Unmixed.step (h : Unmixed s messages) (howned : s.Owned)
    (hstep : s.step action = some s') : Unmixed s' (messages ++ action.accepted) := by
  rcases State.step_cases hstep with ⟨message, elementSize, rfl, -, rfl⟩ |
    ⟨i, error, k, message, rfl, hi, -, rfl⟩ | ⟨i, a, rfl, hi, hmoves⟩
  · exact h.write howned message elementSize
  · rw [Action.accepted, List.append_nil]
    exact h.complete howned hi error k
  · rw [Action.accepted, List.append_nil]
    exact h.advance howned hi hmoves

end Steps

/-- **One send at a time, and no message mixed with another**, for any number of writers and any
partial transfers. -/
theorem one_send_at_a_time {actions : List Action} {s : State}
    (hrun : Run State.step anyAction State.initial actions s) :
    s.sends.length ≤ 1 ∧ (s.locked = false → (s.waits = true ↔ s.sends ≠ [])) ∧
      (.popping ∈ s.activities → s.messagesQueue ≠ []) ∧ Unmixed s (messages actions) := by
  have h : s.Owned ∧ Unmixed s (messages actions) := by
    refine hrun.invariant (P := fun actions s => s.Owned ∧ Unmixed s (messages actions)) ?_ ?_
    · exact ⟨State.initial_owned, [], [], [], rfl, .idle (by decide), .refl _⟩
    · rintro actions s s' action ⟨howned, hunmixed⟩ - hstep
      rw [messages_concat]
      exact ⟨howned.step hstep, hunmixed.step howned hstep⟩
  obtain ⟨howned, hunmixed⟩ := h
  have hlength := howned.sends
  refine ⟨?_, ?_, ?_, hunmixed⟩
  · rw [hlength]
    split_ifs <;> omega
  · intro _
    rw [← List.length_pos_iff, hlength]
    cases s.waits <;> decide
  · intro hpop
    exact howned.popping (List.mem_filter.mpr ⟨hpop, rfl⟩)

/-- Three writers: the second and the third push in the other order, while the first message goes
out in two parts. -/
def crossedPushes : List Action :=
  [.write ⟨[1, 2], 0⟩ 1, .write ⟨[3], 1⟩ 1, .write ⟨[4, 5], 2⟩ 1, .advance 2, .advance 0,
    .complete 0 none 1, .advance 0, .advance 1, .advance 0, .complete 0 none 1, .advance 0,
    .advance 0, .advance 0, .advance 0, .complete 0 none 1]

theorem one_send_at_a_time_crossedPushes :
    ∃ s, Run State.step anyAction State.initial crossedPushes s ∧ s.wire = [1, 2, 4] ∧
      s.messagesQueue = [⟨[3], 1⟩] ∧ s.sends.length ≤ 1 ∧
      (s.locked = false → (s.waits = true ↔ s.sends ≠ [])) ∧
      (.popping ∈ s.activities → s.messagesQueue ≠ []) ∧
      Unmixed s [⟨[1, 2], 0⟩, ⟨[3], 1⟩, ⟨[4, 5], 2⟩] :=
  have hrun := Run.start.performAll crossedPushes rfl
  ⟨_, hrun, rfl, rfl, one_send_at_a_time hrun⟩

end NetServer
end CoherentDB
