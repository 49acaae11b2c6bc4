import CoherentDB.Serialization.FileEncoder

/-!
# The buffer of `file_encoder`

Where every `write(2)` is complete, the buffer of an encoder cannot be seen from outside.
The bytes of the operations reach the descriptor in their order, all calls of `write(2)`
before the last flush have `bufferSize` bytes, and the buffer never has more
(`buffering_transparent`).

An operation changes the encoder several times: `write_char` flushes and pushes, and each
round of `memcpy` flushes and copies.  `visits` lists the encoder after each of these.
-/

namespace CoherentDB
namespace Serialization

open Util

namespace FileEncoder

section Visits

variable (write : ℕ → WriteResult)

/-- The encoder after each flush and each copy of a `memcpy`. -/
def memcpyVisits (src : List Byte) (e : FileEncoder) : List FileEncoder :=
  match hroom : e.makeRoom write with
  | .threw _ e' => [e']
  | .returned e' =>
      let toWrite := min src.length (e'.bufferSize - e'.buffer.length)
      let e'' := { e' with buffer := e'.buffer ++ src.take toWrite }
      if hdone : src.length - toWrite = 0 then [e', e'']
      else
        have hless : (src.drop toWrite).length < src.length := by
          have hspace := (makeRoom_room write hroom).2
          rw [List.length_drop]
          omega
        e' :: e'' :: memcpyVisits (src.drop toWrite) e''
termination_by src.length
decreasing_by exact hless

/-- The encoder after each flush and each copy of an operation. -/
def visits (e : FileEncoder) : Operation → List FileEncoder
  | .writeChar c =>
      match e.makeRoom write with
      | .threw _ e' => [e']
      | .returned e' => [e', { e' with buffer := e'.buffer ++ [c] }]
  | .memcpy src => e.memcpyVisits write src

/-- The same for a sequence of operations, from the encoder itself on. -/
def allVisits : List Operation → FileEncoder → List FileEncoder
  | [], e => [e]
  | operation :: rest, e => e :: e.visits write operation ++
      allVisits rest (e.perform write operation).state

/-- One round of `memcpy` and the rest. -/
theorem memcpyVisits_eq {src : List Byte} {e e' : FileEncoder}
    (hroom : e.makeRoom write = .returned e') :
    e.memcpyVisits write src =
      let toWrite := min src.length (e'.bufferSize - e'.buffer.length)
      let e'' := { e' with buffer := e'.buffer ++ src.take toWrite }
      if src.length - toWrite = 0 then [e', e'']
      else e' :: e'' :: e''.memcpyVisits write (src.drop toWrite) := by
  rw [memcpyVisits]
  split
  · next hthrew =>
    rw [hthrew] at hroom
    cases hroom
  · next hreturned =>
    rw [hreturned] at hroom
    cases hroom
    simp only [dite_eq_ite]

end Visits

/-- The buffer has not more bytes than it may have, and every `write(2)` had as many. -/
structure Tight (e : FileEncoder) (bufferSize : ℕ) : Prop where
  size : e.bufferSize = bufferSize
  buffer : e.buffer.length ≤ bufferSize
  calls : ∀ call ∈ e.log, call.asked = bufferSize ∧ call.transferred = bufferSize

section Tight

variable {e e' : FileEncoder} {bufferSize : ℕ}

/-- The encoder flushes before an operation only where its buffer is full. -/
theorem Tight.makeRoom (h : e.Tight bufferSize)
    (hroom : e.makeRoom alwaysComplete = .returned e') : e'.Tight bufferSize := by
  unfold FileEncoder.makeRoom at hroom
  split_ifs at hroom with hfull
  · have hlength : e.buffer.length = bufferSize := by
      have hle := h.buffer
      have hsize := h.size
      omega
    unfold flush at hroom
    split at hroom
    · cases hroom
      exact h
    · dsimp only at hroom
      have hall : (alwaysComplete e.log.length).transferred e.buffer.length = e.buffer.length := rfl
      rw [hall, if_neg (not_not.mpr rfl)] at hroom
      cases hroom
      refine ⟨h.size, Nat.zero_le _, fun call hcall => ?_⟩
      rcases List.mem_append.mp hcall with hold | hnew
      · exact h.calls call hold
      · obtain rfl := List.mem_singleton.mp hnew
        exact ⟨hlength, hlength⟩
  · cases hroom
    exact h

/-- Bytes that find room leave the encoder tight. -/
theorem Tight.accept (h : e.Tight bufferSize) {bytes : List Byte}
    (hbytes : bytes.length ≤ e.bufferSize - e.buffer.length) :
    Tight { e with buffer := e.buffer ++ bytes } bufferSize := by
  have hle := h.buffer
  have hsize := h.size
  refine ⟨h.size, ?_, h.calls⟩
  show (e.buffer ++ bytes).length ≤ bufferSize
  rw [List.length_append]
  omega

/-- **A `memcpy` keeps the encoder tight** in all its rounds, and leaves the last of the encoders that
it goes through. -/
theorem Tight.memcpy (h : e.Tight bufferSize) (src : List Byte) :
    (∀ visited ∈ e.memcpyVisits alwaysComplete src, visited.Tight bufferSize) ∧
      (e.memcpyVisits alwaysComplete src).getLast? =
        some (e.memcpy alwaysComplete src).state := by
  induction hn : src.length using Nat.strong_induction_on generalizing src e with
  | _ n ih =>
    obtain ⟨e', hroom, -⟩ := e.makeRoom_complete
    have htight := h.makeRoom hroom
    have hspace := (makeRoom_room _ hroom).2
    rw [memcpyVisits_eq _ hroom, memcpy_eq, hroom]
    simp only [Outcome.andThen]
    generalize htoWrite : min src.length (e'.bufferSize - e'.buffer.length) = toWrite
    have haccept : Tight { e' with buffer := e'.buffer ++ src.take toWrite } bufferSize := by
      refine htight.accept ?_
      rw [List.length_take]
      omega
    split_ifs with hdone
    · refine ⟨?_, rfl⟩
      simp only [List.forall_mem_cons]
      exact ⟨htight, haccept, fun _ hnone => absurd hnone List.not_mem_nil⟩
    · have hless : (src.drop toWrite).length < n := by
        rw [List.length_drop]
        omega
      obtain ⟨hvisits, hlast⟩ := ih _ hless haccept (src.drop toWrite) rfl
      refine ⟨?_, ?_⟩
      · simp only [List.forall_mem_cons]
        exact ⟨htight, haccept, hvisits⟩
      · rw [List.getLast?_cons, List.getLast?_cons, hlast]
        rfl

/-- **An operation keeps the encoder tight.** -/
theorem Tight.visits (h : e.Tight bufferSize) (operation : Operation) :
    (∀ visited ∈ e.visits alwaysComplete operation, visited.Tight bufferSize) ∧
      (e.visits alwaysComplete operation).getLast? =
        some (e.perform alwaysComplete operation).state := by
  have hstate : (e.perform alwaysComplete operation).state =
      (e.call alwaysComplete operation).state := by
    obtain ⟨e', hreturned, -⟩ := e.perform_complete operation
    rw [hreturned]
    unfold perform at hreturned
    split at hreturned
    · next hcall =>
      cases hreturned
      rw [hcall]
    · cases hreturned
  rw [hstate]
  cases operation with
  | writeChar c =>
      obtain ⟨e', hroom, -⟩ := e.makeRoom_complete
      have htight := h.makeRoom hroom
      have hspace := (makeRoom_room _ hroom).2
      have haccept : Tight { e' with buffer := e'.buffer ++ [c] } bufferSize := by
        refine htight.accept ?_
        rw [List.length_singleton]
        omega
      rw [FileEncoder.visits, call, FileEncoder.writeChar, hroom]
      refine ⟨?_, rfl⟩
      simp only [List.forall_mem_cons]
      exact ⟨htight, haccept, fun _ hnone => absurd hnone List.not_mem_nil⟩
  | memcpy src => exact h.memcpy src

/-- **Any number of operations do.** -/
theorem Tight.allVisits (h : e.Tight bufferSize) (operations : List Operation) :
    (∀ visited ∈ e.allVisits alwaysComplete operations, visited.Tight bufferSize) ∧
      (e.allVisits alwaysComplete operations).getLast? =
        some (e.performAll alwaysComplete operations).state := by
  induction operations generalizing e with
  | nil =>
      refine ⟨?_, rfl⟩
      simp only [FileEncoder.allVisits, List.mem_singleton, forall_eq]
      exact h
  | cons operation rest ih =>
      obtain ⟨e', hreturned, -⟩ := e.perform_complete operation
      obtain ⟨hvisits, hlast⟩ := h.visits operation
      rw [hreturned] at hlast
      have hnext : e'.Tight bufferSize := hvisits e' (List.mem_of_getLast? hlast)
      obtain ⟨hrest, hend⟩ := ih hnext
      rw [FileEncoder.allVisits, performAll, hreturned]
      refine ⟨?_, ?_⟩
      · intro visited hmem
        rcases List.mem_append.mp hmem with hfirst | hafter
        · rcases List.mem_cons.mp hfirst with rfl | hinside
          · exact h
          · exact hvisits visited hinside
        · exact hrest visited hafter
      · rw [List.getLast?_append]
        show (e'.allVisits alwaysComplete rest).getLast?.or _ = _
        rw [hend]
        rfl

end Tight

end FileEncoder

/-- **Buffering is transparent.**  For every buffer size and every sequence of operations the calls
return, the buffer never has more than `bufferSize` bytes, every `write(2)` before the last flush
has exactly `bufferSize`, and after it the descriptor has the bytes of all operations in their
order. -/
theorem buffering_transparent (bufferSize : ℕ) (positive : 0 < bufferSize)
    (operations : List Operation) :
    ∃ e e', (FileEncoder.new bufferSize positive).performAll FileEncoder.alwaysComplete operations =
        .returned e ∧
      e.flush FileEncoder.alwaysComplete = .returned e' ∧
      ((FileEncoder.new bufferSize positive).allVisits FileEncoder.alwaysComplete
        operations).getLast? = some e ∧
      (∀ visited ∈ (FileEncoder.new bufferSize positive).allVisits FileEncoder.alwaysComplete
        operations, visited.buffer.length ≤ bufferSize) ∧
      (∀ call ∈ e.log, call.asked = bufferSize ∧ call.transferred = bufferSize) ∧
      e'.buffer = [] ∧ e'.descriptor = bytesOf operations := by
  have hstart : (FileEncoder.new bufferSize positive).Tight bufferSize :=
    ⟨rfl, Nat.zero_le _, fun _ hcall => absurd hcall List.not_mem_nil⟩
  obtain ⟨e, hreturned, hcontent⟩ :=
    (FileEncoder.new bufferSize positive).performAll_complete operations
  obtain ⟨hvisits, hlast⟩ := hstart.allVisits operations
  rw [hreturned] at hlast
  have htight := hvisits e (List.mem_of_getLast? hlast)
  obtain ⟨e', hflush, hsame, hempty⟩ := e.flush_complete
  refine ⟨e, e', hreturned, hflush, hlast, fun visited hmem => (hvisits visited hmem).buffer,
    htight.calls, hempty, ?_⟩
  rw [hcontent, FileEncoder.content, hempty, List.append_nil] at hsame
  exact hsame

/-- A char, three bytes and none through a buffer of two. -/
theorem buffering_transparent_two :
    ∃ e e', (FileEncoder.new 2 (by decide)).performAll FileEncoder.alwaysComplete
        [.writeChar 1, .memcpy [2, 3, 4], .memcpy []] = .returned e ∧
      e.flush FileEncoder.alwaysComplete = .returned e' ∧
      (∀ call ∈ e.log, call.asked = 2 ∧ call.transferred = 2) ∧
      e'.descriptor = [1, 2, 3, 4] := by
  obtain ⟨e, e', hreturned, hflush, -, -, hcalls, -, hbytes⟩ := buffering_transparent 2 (by decide)
    [.writeChar 1, .memcpy [2, 3, 4], .memcpy []]
  exact ⟨e, e', hreturned, hflush, hcalls, hbytes⟩

end Serialization
end CoherentDB
