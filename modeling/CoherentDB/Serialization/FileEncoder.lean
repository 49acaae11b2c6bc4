import CoherentDB.Lib.Runs
import CoherentDB.Serialization.Encoders

/-!
# `file_encoder`

The encoder collects up to `bufferSize` bytes and hands them to `write(2)` when it
needs room, and in its destructor.  `write(2)` may transfer everything, only a part,
or fail; `flush` throws unless everything was transferred, and then keeps its whole
buffer.

An operation returns or throws; the encoder stays as the operation left it in both
cases.  Beside the fields of the source the model keeps what has reached the
descriptor, a log of the calls of `write(2)`, and whether an operation has thrown
before it had taken all of its bytes.
-/

namespace CoherentDB
namespace Serialization

open Util Runs

/-- What `write(2)` does with the bytes it is given. -/
inductive WriteResult
  | complete
  | short (k : ℕ)
  | failed
  deriving DecidableEq, Repr

/-- The bytes transferred of those asked for; a short transfer leaves some out. -/
def WriteResult.transferred (asked : ℕ) : WriteResult → ℕ
  | .complete => asked
  | .short k => min k (asked - 1)
  | .failed => 0

/-- A call of `write(2)`: its size, what it transferred, and whether bytes had been lost
before it. -/
structure WriteCall where
  asked : ℕ
  transferred : ℕ
  afterLoss : Bool
  deriving DecidableEq, Repr

structure FileEncoder where
  bufferSize : ℕ
  positive : 0 < bufferSize
  buffer : List Byte
  /-- What has reached the descriptor. -/
  descriptor : List Byte
  log : List WriteCall
  /-- An operation has thrown and left bytes out. -/
  lost : Bool

/-- How a call ends, and the object it leaves. -/
inductive Outcome (σ : Type)
  | returned (s : σ)
  | threw (what : String) (s : σ)

namespace Outcome

variable {σ : Type}

def state : Outcome σ → σ
  | .returned s | .threw _ s => s

/-- Go on where the call has returned. -/
def andThen (o : Outcome σ) (f : σ → Outcome σ) : Outcome σ :=
  match o with
  | .returned s => f s
  | .threw what s => .threw what s

end Outcome

namespace FileEncoder

/-- The constructor. -/
def new (bufferSize : ℕ) (positive : 0 < bufferSize) : FileEncoder :=
  ⟨bufferSize, positive, [], [], [], false⟩

section Operations

-- The result of each call of `write(2)`, by its number.
variable (write : ℕ → WriteResult)

/-- `flush`. -/
def flush (e : FileEncoder) : Outcome FileEncoder :=
  if e.buffer = [] then .returned e
  else
    let len := (write e.log.length).transferred e.buffer.length
    let e' := { e with
      descriptor := e.descriptor ++ e.buffer.take len
      log := e.log ++ [⟨e.buffer.length, len, e.lost⟩] }
    -- The buffer is cleared on success only; a short transfer leaves all of it.
    if len ≠ e.buffer.length then .threw "write error" e'
    else .returned { e' with buffer := [] }

/-- `flush` where the buffer is full. -/
def makeRoom (e : FileEncoder) : Outcome FileEncoder :=
  if e.bufferSize ≤ e.buffer.length then e.flush write else .returned e

/-- `write_char`. -/
def writeChar (c : Byte) (e : FileEncoder) : Outcome FileEncoder :=
  (e.makeRoom write).andThen fun e => .returned { e with buffer := e.buffer ++ [c] }

theorem flush_bufferSize (e : FileEncoder) : (e.flush write).state.bufferSize = e.bufferSize := by
  unfold flush
  split
  · rfl
  · dsimp only
    split <;> rfl

/-- The object that `makeRoom` leaves has the same size, and room where it has returned. -/
theorem makeRoom_room {e e' : FileEncoder} (h : e.makeRoom write = .returned e') :
    e'.bufferSize = e.bufferSize ∧ e'.buffer.length < e'.bufferSize := by
  unfold makeRoom at h
  split at h
  case isTrue hfull =>
      have hsize := flush_bufferSize write e
      rw [h] at hsize
      unfold flush at h
      split at h
      case isTrue hempty =>
          have hpositive := e.positive
          rw [hempty, List.length_nil] at hfull
          omega
      case isFalse hbuffer =>
          dsimp only at h
          split at h
          · cases h
          · cases h
            exact ⟨hsize, e.positive⟩
  case isFalse hroom =>
      cases h
      exact ⟨rfl, Nat.lt_of_not_le hroom⟩

/-- `memcpy`, round by round. -/
def memcpy (src : List Byte) (e : FileEncoder) : Outcome FileEncoder :=
  match hroom : e.makeRoom write with
  | .threw what e' => .threw what e'
  | .returned e' =>
      let toWrite := min src.length (e'.bufferSize - e'.buffer.length)
      let e'' := { e' with buffer := e'.buffer ++ src.take toWrite }
      if hdone : src.length - toWrite = 0 then .returned e''
      else
        have hless : (src.drop toWrite).length < src.length := by
          have hspace := (makeRoom_room write hroom).2
          rw [List.length_drop]
          omega
        memcpy (src.drop toWrite) e''
termination_by src.length
decreasing_by exact hless

/-- One operation of a codec. -/
def call (e : FileEncoder) : Operation → Outcome FileEncoder
  | .writeChar c => e.writeChar write c
  | .memcpy src => e.memcpy write src

/-- One operation, and that it has left out its last byte where it throws. -/
def perform (operation : Operation) (e : FileEncoder) : Outcome FileEncoder :=
  match e.call write operation with
  | .returned e' => .returned e'
  | .threw what e' => .threw what { e' with lost := e'.lost || !operation.bytes.isEmpty }

/-- The operations of a codec up to the first exception. -/
def performAll : List Operation → FileEncoder → Outcome FileEncoder
  | [], e => .returned e
  | operation :: rest, e => (e.perform write operation).andThen (performAll rest)

/-- The destructor. -/
def destroy (e : FileEncoder) : Outcome FileEncoder := e.flush write

end Operations

/-- One round of `memcpy` and the rest. -/
theorem memcpy_eq (write : ℕ → WriteResult) (src : List Byte) (e : FileEncoder) :
    e.memcpy write src = (e.makeRoom write).andThen fun e' =>
      let toWrite := min src.length (e'.bufferSize - e'.buffer.length)
      let e'' := { e' with buffer := e'.buffer ++ src.take toWrite }
      if src.length - toWrite = 0 then .returned e''
      else e''.memcpy write (src.drop toWrite) := by
  rw [memcpy]
  split
  · next hroom => rw [hroom]; rfl
  · next hroom => simp only [hroom, Outcome.andThen, dite_eq_ite]

section Complete

variable (e : FileEncoder)

/-- What has been written and what is to be written next. -/
def content : List Byte := e.descriptor ++ e.buffer

/-- Every `write(2)` transfers all it is asked to. -/
def alwaysComplete : ℕ → WriteResult := fun _ => .complete

theorem flush_complete :
    ∃ e', e.flush alwaysComplete = .returned e' ∧ e'.content = e.content ∧ e'.buffer = [] := by
  unfold flush
  split
  · next hbuffer => exact ⟨e, rfl, rfl, hbuffer⟩
  · dsimp only
    have hall : (alwaysComplete e.log.length).transferred e.buffer.length = e.buffer.length := rfl
    rw [hall, if_neg (not_not.mpr rfl)]
    refine ⟨_, rfl, ?_, rfl⟩
    show e.descriptor ++ e.buffer.take e.buffer.length ++ [] = e.content
    rw [List.take_length, List.append_nil, content]

theorem makeRoom_complete :
    ∃ e', e.makeRoom alwaysComplete = .returned e' ∧ e'.content = e.content := by
  unfold makeRoom
  split_ifs
  · obtain ⟨e', hflush, hcontent, -⟩ := e.flush_complete
    exact ⟨e', hflush, hcontent⟩
  · exact ⟨e, rfl, rfl⟩

theorem content_accept (bytes : List Byte) :
    content { e with buffer := e.buffer ++ bytes } = e.content ++ bytes :=
  (List.append_assoc e.descriptor e.buffer bytes).symm

theorem memcpy_complete (src : List Byte) :
    ∃ e', e.memcpy alwaysComplete src = .returned e' ∧ e'.content = e.content ++ src := by
  induction hn : src.length using Nat.strong_induction_on generalizing src e with
  | _ n ih =>
    obtain ⟨e', hroom, hcontent⟩ := e.makeRoom_complete
    have hspace := (makeRoom_room _ hroom).2
    rw [memcpy_eq, hroom]
    simp only [Outcome.andThen]
    generalize htoWrite : min src.length (e'.bufferSize - e'.buffer.length) = toWrite
    have haccept := e'.content_accept (src.take toWrite)
    rw [hcontent] at haccept
    split_ifs with hdone
    · refine ⟨_, rfl, ?_⟩
      rw [haccept, List.take_of_length_le (by omega)]
    · have hless : (src.drop toWrite).length < n := by
        rw [List.length_drop]
        omega
      obtain ⟨e'', hrest, hafter⟩ := ih _ hless
        { e' with buffer := e'.buffer ++ src.take toWrite } (src.drop toWrite) rfl
      refine ⟨e'', hrest, ?_⟩
      rw [hafter, haccept, List.append_assoc, List.take_append_drop]

theorem perform_complete (operation : Operation) :
    ∃ e', e.perform alwaysComplete operation = .returned e' ∧
      e'.content = e.content ++ operation.bytes := by
  have hcall : ∃ e', e.call alwaysComplete operation = .returned e' ∧
      e'.content = e.content ++ operation.bytes := by
    cases operation with
    | writeChar c =>
        obtain ⟨e', hroom, hcontent⟩ := e.makeRoom_complete
        refine ⟨{ e' with buffer := e'.buffer ++ [c] }, ?_, ?_⟩
        · rw [call, FileEncoder.writeChar, hroom]
          rfl
        · rw [content_accept, hcontent]
          rfl
    | memcpy src => exact e.memcpy_complete src
  obtain ⟨e', hreturned, hcontent⟩ := hcall
  refine ⟨e', ?_, hcontent⟩
  rw [perform, hreturned]

theorem performAll_complete (operations : List Operation) :
    ∃ e', e.performAll alwaysComplete operations = .returned e' ∧
      e'.content = e.content ++ bytesOf operations := by
  induction operations generalizing e with
  | nil => exact ⟨e, rfl, (List.append_nil _).symm⟩
  | cons operation rest ih =>
      obtain ⟨e₁, hfirst, hcontent₁⟩ := e.perform_complete operation
      obtain ⟨e₂, hrest, hcontent₂⟩ := ih e₁
      refine ⟨e₂, ?_, ?_⟩
      · rw [performAll, hfirst]
        exact hrest
      · rw [hcontent₂, hcontent₁, List.append_assoc]
        rfl

end Complete

end FileEncoder

/-- The call leaves the descriptor where a further byte is out of place: it has transferred a
part of the buffer, which `flush` then keeps whole, or everything up to a gap. -/
def WriteCall.Spoils (call : WriteCall) : Prop :=
  0 < call.transferred ∧ call.transferred < call.asked ∨
    call.afterLoss = true ∧ call.transferred = call.asked

instance (call : WriteCall) : Decidable call.Spoils :=
  inferInstanceAs (Decidable (_ ∨ _))

/-- No byte is transferred after a call that spoils the descriptor. -/
def Quiet (log : List WriteCall) : Prop :=
  log.Pairwise fun earlier later => earlier.Spoils → later.transferred = 0

instance (log : List WriteCall) : Decidable (Quiet log) :=
  inferInstanceAs (Decidable (List.Pairwise _ log))

theorem quiet_append_singleton {log : List WriteCall} {call : WriteCall} :
    Quiet (log ++ [call]) ↔ Quiet log ∧ ∀ earlier ∈ log, earlier.Spoils → call.transferred = 0 := by
  rw [Quiet, List.pairwise_append]
  simp [Quiet]

namespace FileEncoder

/-- No call has spoilt the descriptor. -/
def Unspoilt (e : FileEncoder) : Prop := ∀ call ∈ e.log, ¬ call.Spoils

/-- The encoder has been given `stream`.  What is still to be written continues the descriptor;
once bytes are lost the buffer is full, and nothing gets in behind the gap. -/
structure Follows (e : FileEncoder) (stream : List Byte) : Prop where
  reached : Quiet e.log → e.descriptor <+: stream
  whole : e.Unspoilt → e.lost = false → e.descriptor ++ e.buffer = stream
  stuck : e.Unspoilt → e.lost = true →
    e.bufferSize ≤ e.buffer.length ∧ e.descriptor ++ e.buffer <+: stream

section Follows

variable {write : ℕ → WriteResult} {e e' : FileEncoder} {stream : List Byte} {what : String}

theorem Follows.buffered (h : e.Follows stream) (hunspoilt : e.Unspoilt) :
    e.descriptor ++ e.buffer <+: stream := by
  cases hlost : e.lost with
  | false => exact (h.whole hunspoilt hlost) ▸ List.prefix_rfl
  | true => exact (h.stuck hunspoilt hlost).2

/-- Bytes that find room in the buffer are the next ones of the stream. -/
theorem Follows.accept (h : e.Follows stream) (hroom : e.buffer.length < e.bufferSize)
    (bytes : List Byte) :
    Follows { e with buffer := e.buffer ++ bytes } (stream ++ bytes) where
  reached hquiet := (h.reached hquiet).trans (List.prefix_append _ _)
  whole hunspoilt hlost := by
    rw [← List.append_assoc, h.whole hunspoilt hlost]
  stuck hunspoilt hlost := absurd hroom (Nat.not_lt.mpr (h.stuck hunspoilt hlost).1)

theorem transferred_le (result : WriteResult) (asked : ℕ) : result.transferred asked ≤ asked := by
  cases result with
  | complete => exact le_rfl
  | short k => exact (min_le_right _ _).trans (Nat.sub_le _ _)
  | failed => exact Nat.zero_le _

theorem unspoilt_append_singleton {call : WriteCall}
    (hlog : e'.log = e.log ++ [call]) : e'.Unspoilt ↔ e.Unspoilt ∧ ¬ call.Spoils := by
  unfold Unspoilt
  rw [hlog]
  simp only [List.mem_append, List.mem_singleton, or_imp, forall_and, forall_eq]

/-- The log and the descriptor after one more `write(2)`. -/
theorem Follows.reached_write (h : e.Follows stream) {len : ℕ} (asked : ℕ)
    (hquiet : Quiet (e.log ++ [⟨asked, len, e.lost⟩])) :
    e.descriptor ++ e.buffer.take len <+: stream := by
  obtain ⟨hbefore, hsilent⟩ := quiet_append_singleton.mp hquiet
  by_cases hunspoilt : e.Unspoilt
  · have htake : e.descriptor ++ e.buffer.take len <+: e.descriptor ++ e.buffer :=
      (List.prefix_append_right_inj _).mpr (List.take_prefix _ _)
    exact htake.trans (h.buffered hunspoilt)
  · unfold Unspoilt at hunspoilt
    push Not at hunspoilt
    obtain ⟨call, hcall, hspoils⟩ := hunspoilt
    have hlen : len = 0 := hsilent call hcall hspoils
    rw [hlen, List.take_zero, List.append_nil]
    exact h.reached hbefore

/-- `flush` gives nothing to the stream and takes nothing from it. -/
theorem Follows.flush (h : e.Follows stream) : (e.flush write).state.Follows stream := by
  unfold FileEncoder.flush
  split
  · exact h
  · next hbuffer =>
    have hpositive : 0 < e.buffer.length := List.length_pos_of_ne_nil hbuffer
    have hle := transferred_le (write e.log.length) e.buffer.length
    generalize hlen : (write e.log.length).transferred e.buffer.length = len at hle
    dsimp only
    split
    · next hshort =>
      -- What is not spoilt by an incomplete transfer has seen none of it.
      have hnone {call : WriteCall} (hcall : call = ⟨e.buffer.length, len, e.lost⟩)
          (hgood : ¬ call.Spoils) : len = 0 := by
        subst hcall
        by_contra hsome
        exact hgood (Or.inl ⟨Nat.pos_of_ne_zero hsome, lt_of_le_of_ne hle hshort⟩)
      refine ⟨h.reached_write _, fun hunspoilt hlost => ?_, fun hunspoilt hlost => ?_⟩
      · obtain ⟨hbefore, hgood⟩ := (unspoilt_append_singleton rfl).mp hunspoilt
        change e.descriptor ++ e.buffer.take len ++ e.buffer = stream
        rw [hnone rfl hgood, List.take_zero, List.append_nil]
        exact h.whole hbefore hlost
      · obtain ⟨hbefore, hgood⟩ := (unspoilt_append_singleton rfl).mp hunspoilt
        change e.bufferSize ≤ e.buffer.length ∧
          e.descriptor ++ e.buffer.take len ++ e.buffer <+: stream
        rw [hnone rfl hgood, List.take_zero, List.append_nil]
        exact h.stuck hbefore hlost
    · next hcomplete =>
      have hall : len = e.buffer.length := not_not.mp hcomplete
      refine ⟨h.reached_write _, fun hunspoilt hlost => ?_, fun hunspoilt hlost => ?_⟩
      · obtain ⟨hbefore, -⟩ := (unspoilt_append_singleton rfl).mp hunspoilt
        change e.descriptor ++ e.buffer.take len ++ [] = stream
        rw [hall, List.take_length, List.append_nil]
        exact h.whole hbefore hlost
      · obtain ⟨-, hgood⟩ := (unspoilt_append_singleton rfl).mp hunspoilt
        exact absurd (Or.inr ⟨hlost, hall⟩) hgood

theorem Follows.makeRoom (h : e.Follows stream) : (e.makeRoom write).state.Follows stream := by
  unfold FileEncoder.makeRoom
  split_ifs
  · exact h.flush
  · exact h

/-- Where there is no room to be had, the buffer stays full. -/
theorem makeRoom_threw (h : e.makeRoom write = .threw what e') :
    e'.bufferSize ≤ e'.buffer.length := by
  unfold FileEncoder.makeRoom at h
  split_ifs at h with hfull
  unfold FileEncoder.flush at h
  split at h
  · cases h
  · dsimp only at h
    split at h
    · cases h
      exact hfull
    · cases h

/-- What an operation with the bytes `bytes` may leave. -/
def Leaves (o : Outcome FileEncoder) (stream bytes : List Byte) : Prop :=
  match o with
  | .returned e => e.Follows (stream ++ bytes)
  | .threw _ e => ∃ taken, taken <+: bytes ∧ e.Follows (stream ++ taken) ∧
      e.bufferSize ≤ e.buffer.length

theorem Follows.leaves_of_threw (h : e.Follows stream) (bytes : List Byte)
    (hroom : e.makeRoom write = .threw what e') : Leaves (.threw what e') stream bytes := by
  have hafter : e'.Follows stream := by
    have hstate : (e.makeRoom write).state.Follows stream := h.makeRoom
    rwa [hroom] at hstate
  refine ⟨[], List.nil_prefix, ?_, makeRoom_threw hroom⟩
  rwa [List.append_nil]

theorem Follows.of_returned (h : e.Follows stream) (hroom : e.makeRoom write = .returned e') :
    e'.Follows stream := by
  have hstate : (e.makeRoom write).state.Follows stream := h.makeRoom
  rwa [hroom] at hstate

theorem Follows.writeChar (h : e.Follows stream) (c : Byte) :
    Leaves (e.writeChar write c) stream [c] := by
  unfold FileEncoder.writeChar
  cases hroom : e.makeRoom write with
  | threw what e' => exact h.leaves_of_threw [c] hroom
  | returned e' => exact (h.of_returned hroom).accept (makeRoom_room write hroom).2 [c]

/-- The rounds of `memcpy` take the bytes one piece after the other. -/
theorem Follows.memcpy (h : e.Follows stream) (src : List Byte) :
    Leaves (e.memcpy write src) stream src := by
  induction hn : src.length using Nat.strong_induction_on generalizing src e stream with
  | _ n ih =>
    rw [memcpy_eq]
    cases hroom : e.makeRoom write with
    | threw what e' => exact h.leaves_of_threw src hroom
    | returned e' =>
        have hspace := (makeRoom_room write hroom).2
        simp only [Outcome.andThen]
        generalize htoWrite : min src.length (e'.bufferSize - e'.buffer.length) = toWrite
        have haccept := (h.of_returned hroom).accept hspace (src.take toWrite)
        split_ifs with hdone
        · have hall : src.take toWrite = src := List.take_of_length_le (by omega)
          rw [hall] at haccept ⊢
          exact haccept
        · have hless : (src.drop toWrite).length < n := by
            rw [List.length_drop]
            omega
          have hrest := ih _ hless haccept (src.drop toWrite) rfl
          generalize FileEncoder.memcpy write (src.drop toWrite) _ = o at hrest
          cases o with
          | returned e'' =>
              have hwhole : e''.Follows (stream ++ src.take toWrite ++ src.drop toWrite) := hrest
              rw [List.append_assoc, List.take_append_drop] at hwhole
              exact hwhole
          | threw what e'' =>
              obtain ⟨taken, hprefix, hfollows, hfull⟩ := hrest
              refine ⟨src.take toWrite ++ taken, ?_, ?_, hfull⟩
              · have hlonger := (List.prefix_append_right_inj (src.take toWrite)).mpr hprefix
                rwa [List.take_append_drop] at hlonger
              · rwa [← List.append_assoc]

/-- After an operation the encoder has been given all of its bytes, also those it lost. -/
theorem Follows.perform (h : e.Follows stream) (operation : Operation) :
    (e.perform write operation).state.Follows (stream ++ operation.bytes) := by
  have hleaves : Leaves (e.call write operation) stream operation.bytes := by
    cases operation with
    | writeChar c => exact h.writeChar c
    | memcpy src => exact h.memcpy src
  unfold FileEncoder.perform
  generalize e.call write operation = o at hleaves
  cases o with
  | returned e' => exact hleaves
  | threw what e' =>
      obtain ⟨taken, hprefix, hfollows, hfull⟩ := hleaves
      have hlonger : stream ++ taken <+: stream ++ operation.bytes :=
        (List.prefix_append_right_inj _).mpr hprefix
      refine ⟨fun hquiet => (hfollows.reached hquiet).trans hlonger, ?_, ?_⟩
      · intro hunspoilt hlost
        -- Nothing is lost, so there was nothing to lose.
        obtain ⟨hbefore, hempty⟩ := Bool.or_eq_false_iff.mp hlost
        have hbytes : operation.bytes = [] := by simpa using hempty
        rw [hbytes] at hprefix ⊢
        rw [← List.prefix_nil.mp hprefix]
        exact hfollows.whole hunspoilt hbefore
      · intro hunspoilt _
        exact ⟨hfull, (hfollows.buffered hunspoilt).trans hlonger⟩

end Follows
end FileEncoder

/-- An encoder in use and the bytes the codec has emitted. -/
structure Encoding where
  encoder : FileEncoder
  emitted : List Byte
  destroyed : Bool

/-- What is done with an encoder.  Operations may follow one that has thrown. -/
inductive EncoderUse
  | encode (operation : Operation)
  | destroy
  deriving DecidableEq, Repr

namespace Encoding

def start (bufferSize : ℕ) (positive : 0 < bufferSize) : Encoding :=
  ⟨.new bufferSize positive, [], false⟩

def step (write : ℕ → WriteResult) (s : Encoding) (use : EncoderUse) : Option Encoding :=
  if s.destroyed then none
  else match use with
    | .encode operation => some
        { s with
          encoder := (s.encoder.perform write operation).state
          emitted := s.emitted ++ operation.bytes }
    | .destroy => some { s with encoder := (s.encoder.destroy write).state, destroyed := true }

theorem step_follows {write : ℕ → WriteResult} {s s' : Encoding} {use : EncoderUse}
    (hfollows : s.encoder.Follows s.emitted) (hstep : s.step write use = some s') :
    s'.encoder.Follows s'.emitted := by
  unfold step at hstep
  split_ifs at hstep
  cases use with
  | encode operation =>
      obtain rfl := Option.some.inj hstep
      exact hfollows.perform operation
  | destroy =>
      obtain rfl := Option.some.inj hstep
      exact hfollows.flush

theorem follows_start (bufferSize : ℕ) (positive : 0 < bufferSize) :
    (start bufferSize positive).encoder.Follows [] where
  reached _ := List.prefix_rfl
  whole _ _ := rfl
  stuck _ hlost := by cases hlost

/-- **What reaches the descriptor is a prefix of what the codec emitted**, after every operation
and after the destructor, whichever calls of `write(2)` are short or fail, as long as no byte is
transferred after a call that spoils the descriptor. -/
theorem descriptor_is_prefix (write : ℕ → WriteResult) (bufferSize : ℕ) (positive : 0 < bufferSize)
    {uses : List EncoderUse} {s : Encoding}
    (hrun : Run (step write) anyAction (start bufferSize positive) uses s)
    (hquiet : Quiet s.encoder.log) : s.encoder.descriptor <+: s.emitted := by
  have hfollows : s.encoder.Follows s.emitted := by
    refine hrun.invariant (P := fun _ s => s.encoder.Follows s.emitted) ?_ ?_
    · exact follows_start bufferSize positive
    · intro _ s s' use hbefore _ hstep
      exact step_follows hbefore hstep
  exact hfollows.reached hquiet

/-- Six chars through a buffer of two.  The second `write(2)` fails and the fifth char is lost;
the third writes one byte, and then the destructor fails to write any. -/
theorem descriptor_is_prefix_failing :
    ∃ s, Run (step fun n => if n = 0 then .complete else if n = 2 then .short 1 else .failed)
        anyAction (start 2 (by decide))
        ([1, 2, 3, 4, 5, 6].map (.encode ∘ .writeChar) ++ [.destroy]) s ∧
      Quiet s.encoder.log ∧ s.encoder.descriptor = [1, 2, 3] ∧
      s.encoder.descriptor <+: s.emitted :=
  have hrun := Run.start.performAll _ rfl
  ⟨_, hrun, by decide, rfl, descriptor_is_prefix _ 2 (by decide) hrun (by decide)⟩

/-- Two chars fill the buffer and the next one finds only one of them written; the destructor
writes both. -/
theorem short_write_repeats_bytes :
    ∃ s, Run (step fun n => if n = 0 then .short 1 else .complete) anyAction
        (start 2 (by decide))
        [.encode (.writeChar 97), .encode (.writeChar 98), .encode (.writeChar 99), .destroy] s ∧
      s.encoder.descriptor = [97, 97, 98] ∧ ¬ s.encoder.descriptor <+: s.emitted := by
  refine ⟨_, Run.start.performAll _ rfl, rfl, by decide⟩

end Encoding
end Serialization
end CoherentDB
