import CoherentDB.Util.AioWorker
import CoherentDB.Util.FileStore
import CoherentDB.Util.SyncHistories

/-!
# `sync_file`

Any number of threads read and write one open file through a `sync_file`.  These are the
synchronous calls of `SyncCalls.lean`: the workers of an `aio_context` make the system calls, and
the callback of a call asserts that the transfer is complete and that there was no error.

The file was opened for reading and writing and without `O_APPEND`.  A system call is one atomic
step: it is assumed that the kernel lets no other transfer of the same file in between, also for
the calls of several workers, and what it returns is part of the action.  The buffers of a call
are not used by others while it waits.

A callback gets `errno` as its thread has it, which may be an old one from before the file was
open.  `iovec_len` counts in 32 bits, so it is the number of the bytes only below `2 ^ 31`
(`short_transfer_passes`).

`FileSpec.Leaves` is what the file is for: a read gives what was written last at each position.
-/

namespace CoherentDB
namespace Util

open ListRange Runs WriteLog

/-- The transfers of `sync_file`.  A buffer is what it holds before the call. -/
inductive FileCall
  | pread (buf : List Byte) (off : ℕ)
  | preadv (iovecs : List (List Byte)) (off : ℕ)
  | pwrite (buf : List Byte) (off : ℕ)
  | pwritev (iovecs : List (List Byte)) (off : ℕ)

/-- `iovec_len`, whose sum is an `int32_t`. -/
def iovecLen (vec : List (List Byte)) : ℤ :=
  vec.foldl (fun sum iov => (sum + iov.length).bmod (2 ^ 32)) 0

/-- What the file holds, and the `errno` of each worker. -/
structure FileShared where
  content : List Byte
  errno : ℕ → ℤ

namespace FileCall

def iovecs : FileCall → List (List Byte)
  | .pread buf _ | .pwrite buf _ => [buf]
  | .preadv iovecs _ | .pwritev iovecs _ => iovecs

def off : FileCall → ℕ
  | .pread _ off | .preadv _ off | .pwrite _ off | .pwritev _ off => off

def writes : FileCall → Bool
  | .pread _ _ | .preadv _ _ => false
  | .pwrite _ _ | .pwritev _ _ => true

/-- What the callback compares the result with. -/
def expected : FileCall → ℤ
  | .pread buf _ | .pwrite buf _ => buf.length
  | .preadv iovecs _ | .pwritev iovecs _ => iovecLen iovecs

/-- The buffers of a vector have less than `2 ^ 31` bytes. -/
def Small : FileCall → Prop
  | .pread _ _ | .pwrite _ _ => True
  | .preadv iovecs _ | .pwritev iovecs _ => iovecs.flatten.length < 2 ^ 31

variable (op : FileCall)

/-- The bytes of the buffers, one after the other. -/
def bytes : List Byte := op.iovecs.flatten

/-- The system call: the content of the file and the buffers afterwards; none where the kernel does
not answer so. -/
def transfer (content : List Byte) : CallOutcome → Option (List Byte × List (List Byte))
  | .failed _ _ => some (content, op.iovecs)
  | .succeeded res =>
      if op.writes then
        if res ≤ op.bytes.length then
          some (Util.pwritev content op.iovecs op.off (.wrote res), op.iovecs)
        else none
      else if res ≤ min op.bytes.length (content.length - op.off) then
        some (content, scatter (slice content op.off res) op.iovecs)
      else none

/-- `handle_exact` in worker `w`, with the callback of `sync_file` up to `complete`.  The buffers
afterwards are the result. -/
def handleExact (shared : FileShared) (w : ℕ) (outcome : CallOutcome) :
    Effect FileShared (List (List Byte)) :=
  match op.transfer shared.content outcome with
  | none => .impossible
  | some (content, bufs) =>
      let err := outcome.errnoAfter (shared.errno w)
      if outcome.res = op.expected ∧ err = 0 then
        .done ⟨content, Function.update shared.errno w err⟩ bufs
      else .aborts

end FileCall

/-- The transfers are possible one after the other on a file that held `initial`, leave these
buffers and make these changes, the newest first. -/
inductive FileSpec.Leaves (initial : List Byte) :
    List (FileCall × List (List Byte)) → List (Change Unit Byte) → Prop
  | start : Leaves initial [] [.stored () 0 initial]
  /-- The buffers keep their lengths and get what stands at each position. -/
  | read {effects : List (FileCall × List (List Byte))} {changes : List (Change Unit Byte)}
      (op : FileCall) (bufs : List (List Byte)) (h : Leaves initial effects changes)
      (hread : op.writes = false) (hlengths : bufs.map List.length = op.iovecs.map List.length)
      (hbytes : ∀ i < op.bytes.length,
        bufs.flatten[i]? = lookup 0 () (op.off + i) changes) :
      Leaves initial (effects ++ [(op, bufs)]) changes
  /-- All bytes of the buffers are stored. -/
  | write {effects : List (FileCall × List (List Byte))} {changes : List (Change Unit Byte)}
      (op : FileCall) (h : Leaves initial effects changes) (hwrite : op.writes = true) :
      Leaves initial (effects ++ [(op, op.iovecs)]) (.stored () op.off op.bytes :: changes)

/-! ### The check of the callbacks -/

section Check

variable {op : FileCall} {shared shared' : FileShared} {w : ℕ} {outcome : CallOutcome}
  {bufs : List (List Byte)}

theorem iovecLen_eq_bmod (vec : List (List Byte)) :
    iovecLen vec = (vec.flatten.length : ℤ).bmod (2 ^ 32) := by
  have hfold : ∀ sum : ℤ,
      vec.foldl (fun sum iov => (sum + iov.length).bmod (2 ^ 32)) (sum.bmod (2 ^ 32)) =
        (sum + vec.flatten.length).bmod (2 ^ 32) := by
    induction vec with
    | nil => exact fun sum => congrArg (Int.bmod · (2 ^ 32)) (Int.add_zero sum).symm
    | cons iov rest ih =>
        intro sum
        rw [List.foldl_cons, Int.bmod_add_bmod, ih, List.flatten_cons, List.length_append,
          Nat.cast_add, Int.add_assoc]
  have h := hfold 0
  rw [Int.zero_add] at h
  exact h

/-- A vector of `2 ^ 32` bytes and a few more passes for written as soon as the few are. -/
theorem short_transfer_passes {iovecs : List (List Byte)} {off few : ℕ} (hfew : few < 2 ^ 31)
    (hlength : iovecs.flatten.length = 2 ^ 32 + few) (herrno : shared.errno w = 0) :
    (FileCall.pwritev iovecs off).handleExact shared w (.succeeded few) =
      .done ⟨writeAt shared.content off (iovecs.flatten.take few),
        Function.update shared.errno w 0⟩ iovecs := by
  have hexpected : (FileCall.pwritev iovecs off).expected = few := by
    rw [FileCall.expected, iovecLen_eq_bmod, hlength, Nat.cast_add, Nat.cast_pow, Nat.cast_ofNat]
    have hwraps : ((2 : ℤ) ^ 32 + few).bmod (2 ^ 32) = (few : ℤ).bmod (2 ^ 32) :=
      Int.add_bmod_left (2 ^ 32) few
    rw [hwraps]
    apply Int.bmod_eq_of_le <;> omega
  have hle : few ≤ (FileCall.pwritev iovecs off).bytes.length := by
    show few ≤ iovecs.flatten.length
    omega
  have htransfer : (FileCall.pwritev iovecs off).transfer shared.content (.succeeded few) =
      some (writeAt shared.content off (iovecs.flatten.take few), iovecs) := if_pos hle
  have hpasses : (CallOutcome.succeeded few).res = (FileCall.pwritev iovecs off).expected ∧
      (CallOutcome.succeeded few).errnoAfter (shared.errno w) = 0 := ⟨hexpected.symm, herrno⟩
  rw [FileCall.handleExact, htransfer]
  dsimp only
  rw [if_pos hpasses, hpasses.2]

end Check

/-! ### The specification -/

section Refinement

variable {initial : List Byte} {errno : ℕ → ℤ} {shared shared' : FileShared}
  {effects : List (FileCall × List (List Byte))} {changes : List (Change Unit Byte)}
  {op : FileCall} {w : ℕ} {outcome : CallOutcome} {bufs : List (List Byte)}

/-- The file holds what the changes say, and no worker has got an error. -/
structure FileRefines (initial : List Byte) (errno : ℕ → ℤ)
    (effects : List (FileCall × List (List Byte))) (shared : FileShared)
    (changes : List (Change Unit Byte)) : Prop where
  leaves : FileSpec.Leaves initial effects changes
  content : ∀ i, shared.content[i]? = lookup 0 () i changes
  errno : shared.errno = errno

theorem FileRefines.start (initial : List Byte) (errno : ℕ → ℤ) :
    FileRefines initial errno [] ⟨initial, errno⟩ [.stored () 0 initial] := by
  refine ⟨.start, fun i => ?_, rfl⟩
  show initial[i]? = _
  by_cases hin : i < initial.length
  · have hnone : ∀ change ∈ ([] : List (Change Unit Byte)), ¬ change.Reaches () i := nofun
    have hlt : i < 0 + initial.length := by omega
    exact (lookup_of_newest hnone (Nat.zero_le i) hlt).symm
  · have hnot : ¬ (Change.stored () 0 initial).Reaches () i := by
      rintro ⟨-, -, hlt⟩
      omega
    rw [lookup_cons_of_not_reaches hnot, List.getElem?_eq_none (Nat.not_lt.mp hin)]
    rfl

/-- What a full read leaves in the buffers. -/
theorem FileRefines.read (h : FileRefines initial errno effects shared changes)
    (hread : op.writes = false) (hsame : shared'.errno = shared.errno)
    (htransfer : op.transfer shared.content (.succeeded op.bytes.length) =
      some (shared'.content, bufs)) :
    FileRefines initial errno (effects ++ [(op, bufs)]) shared' changes := by
  rw [FileCall.transfer, if_neg (by rw [hread]; exact Bool.false_ne_true)] at htransfer
  obtain ⟨hroom, hafter⟩ := Option.ite_none_right_eq_some.mp htransfer
  obtain ⟨hcontent, rfl⟩ := Prod.mk.inj (Option.some.inj hafter)
  have hlength : (slice shared.content op.off op.bytes.length).length =
      op.iovecs.flatten.length := by
    show _ = op.bytes.length
    by_cases hnone : op.bytes.length = 0
    · rw [hnone, slice_zero]
      rfl
    · exact length_slice (by omega)
  refine ⟨.read op _ h.leaves hread (scatter_lengths _ _) fun i hi => ?_, fun i => ?_, ?_⟩
  · rw [flatten_scatter hlength.le, overwrite_all hlength, getElem?_slice, if_pos hi]
    exact h.content (op.off + i)
  · rw [← hcontent]
    exact h.content i
  · rw [hsame]
    exact h.errno

/-- A full write stores all its bytes. -/
theorem FileRefines.write (h : FileRefines initial errno effects shared changes)
    (hwrite : op.writes = true) (hsame : shared'.errno = shared.errno)
    (htransfer : op.transfer shared.content (.succeeded op.bytes.length) =
      some (shared'.content, bufs)) :
    FileRefines initial errno (effects ++ [(op, bufs)]) shared'
      (.stored () op.off op.bytes :: changes) := by
  rw [FileCall.transfer, if_pos hwrite, if_pos le_rfl] at htransfer
  obtain ⟨hcontent, rfl⟩ := Prod.mk.inj (Option.some.inj htransfer)
  have hall : pwritev shared.content op.iovecs op.off (.wrote op.bytes.length) =
      writeAt shared.content op.off op.bytes := by
    rw [pwritev, FileCall.bytes, List.take_length]
  refine ⟨.write op h.leaves hwrite, fun i => ?_, ?_⟩
  · rw [← hcontent, hall, getElem?_writeAt shared.content op.bytes () op.off i, h.content i]
    rfl
  · rw [hsame]
    exact h.errno

end Refinement

end Util
end CoherentDB
