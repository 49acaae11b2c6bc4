import CoherentDB.Util.AsyncFile

/-!
# `aio_worker`

A worker hands each request that it pops to `handle_exact` for the request's class.  That
function makes one system call and calls the callback of the request with the result and
with `errno`.

`errno` belongs to the thread.  A system call that fails sets it, one that succeeds leaves
it as it was, so a callback gets the error of the last call that has failed on its thread.
The completions of a worker are truthful exactly if none of its calls succeeds after one
that failed (`completions_truthful_iff`).
-/

namespace CoherentDB
namespace Util

open Debug

/-- An `iovec`: the address of a buffer and its length. -/
structure IoVec where
  base : ℕ
  len : ℕ
  deriving DecidableEq

/-- The requests with the fields of their classes; `C` are the callbacks, and a buffer is its
address. -/
inductive AioRequest (C : Type)
  | openReq (cb : C) (path : String) (flags mode : ℤ)
  | preadReq (cb : C) (fd : ℤ) (buf : ℕ) (off size : ℤ)
  | preadvReq (cb : C) (fd : ℤ) (iovecs : List IoVec) (off : ℤ)
  | pwriteReq (cb : C) (fd : ℤ) (buf : ℕ) (off size : ℤ)
  | pwritevReq (cb : C) (fd : ℤ) (iovecs : List IoVec) (off : ℤ)
  | closeReq (cb : C) (fd : ℤ)
  deriving DecidableEq

/-- The system calls of a worker, with the arguments in the order of the call. -/
inductive SystemCall
  | openCall (path : String) (flags mode : ℤ)
  | preadCall (fd : ℤ) (buf : ℕ) (size off : ℤ)
  | preadvCall (fd : ℤ) (iovecs : List IoVec) (count : ℕ) (off : ℤ)
  | pwriteCall (fd : ℤ) (buf : ℕ) (size off : ℤ)
  | pwritevCall (fd : ℤ) (iovecs : List IoVec) (count : ℕ) (off : ℤ)
  | closeCall (fd : ℤ)
  deriving DecidableEq

/-- How a system call ends. -/
inductive CallOutcome
  | succeeded (res : ℕ)
  | failed (code : ℤ) (hcode : code ≠ 0)
  deriving DecidableEq

namespace CallOutcome

/-- What the system call returns. -/
def res : CallOutcome → ℤ
  | .succeeded res => res
  | .failed _ _ => -1

/-- `errno` after the call; only a call that fails sets it. -/
def errnoAfter (errno : ℤ) : CallOutcome → ℤ
  | .succeeded _ => errno
  | .failed code _ => code

end CallOutcome

/-- A call of the callback of a request, which is `open_completed` for an `aio_open_req` and so
on. -/
structure Completion (C : Type) where
  request : AioRequest C
  res : ℤ
  err : ℤ
  deriving DecidableEq

/-- The error is 0 if and only if the system call has succeeded. -/
def Completion.Truthful {C : Type} (completion : Completion C) : Prop :=
  completion.err = 0 ↔ 0 ≤ completion.res

/-- The thread of a worker: its `errno`, the system calls it has made and the callbacks it has
called. -/
structure AioWorker (C : Type) where
  errno : ℤ
  calls : List SystemCall
  completions : List (Completion C)
  deriving DecidableEq

namespace AioWorker

variable {C : Type}

/-- A thread that has handled nothing. -/
def start (errno : ℤ) : AioWorker C := ⟨errno, [], []⟩

variable (worker : AioWorker C)

/-- The body that all overloads of `handle_exact` have: one system call, then the callback of the
request. -/
def complete (request : AioRequest C) (call : SystemCall) (outcome : CallOutcome) :
    AioWorker C where
  errno := outcome.errnoAfter worker.errno
  calls := worker.calls ++ [call]
  completions :=
    worker.completions ++ [⟨request, outcome.res, outcome.errnoAfter worker.errno⟩]

/-- `handle_exact` of the class of the request, which `handle` calls through
`handle_in_worker`. -/
def handle (request : AioRequest C) (outcome : CallOutcome) : AioWorker C :=
  match request with
  | .openReq _ path flags mode => worker.complete request (.openCall path flags mode) outcome
  | .preadReq _ fd buf off size => worker.complete request (.preadCall fd buf size off) outcome
  | .preadvReq _ fd iovecs off =>
      worker.complete request (.preadvCall fd iovecs iovecs.length off) outcome
  | .pwriteReq _ fd buf off size => worker.complete request (.pwriteCall fd buf size off) outcome
  | .pwritevReq _ fd iovecs off =>
      worker.complete request (.pwritevCall fd iovecs iovecs.length off) outcome
  | .closeReq _ fd => worker.complete request (.closeCall fd) outcome

/-- The requests that a worker handles in its life, with the outcomes of their system calls. -/
def handleAll (handled : List (AioRequest C × CallOutcome)) : AioWorker C :=
  handled.foldl (fun worker (request, outcome) => worker.handle request outcome) worker

end AioWorker

section Handling

variable {C : Type} (worker : AioWorker C)

/-- Whatever the request, it takes one system call and one completion. -/
theorem AioWorker.handle_eq (request : AioRequest C) (outcome : CallOutcome) :
    ∃ call, worker.handle request outcome = worker.complete request call outcome := by
  cases request with
  | openReq cb path flags mode => exact ⟨.openCall path flags mode, rfl⟩
  | preadReq cb fd buf off size => exact ⟨.preadCall fd buf size off, rfl⟩
  | preadvReq cb fd iovecs off => exact ⟨.preadvCall fd iovecs iovecs.length off, rfl⟩
  | pwriteReq cb fd buf off size => exact ⟨.pwriteCall fd buf size off, rfl⟩
  | pwritevReq cb fd iovecs off => exact ⟨.pwritevCall fd iovecs iovecs.length off, rfl⟩
  | closeReq cb fd => exact ⟨.closeCall fd, rfl⟩

/-- The completions that a thread with this `errno` makes. -/
def completionsFrom : ℤ → List (AioRequest C × CallOutcome) → List (Completion C)
  | _, [] => []
  | errno, (request, outcome) :: rest =>
      ⟨request, outcome.res, outcome.errnoAfter errno⟩ ::
        completionsFrom (outcome.errnoAfter errno) rest

theorem AioWorker.handleAll_completions (handled : List (AioRequest C × CallOutcome)) :
    (worker.handleAll handled).completions =
      worker.completions ++ completionsFrom worker.errno handled := by
  induction handled generalizing worker with
  | nil => exact (List.append_nil _).symm
  | cons first rest ih =>
      obtain ⟨request, outcome⟩ := first
      obtain ⟨call, hhandle⟩ := worker.handle_eq request outcome
      show ((worker.handle request outcome).handleAll rest).completions = _
      rw [ih, hhandle, AioWorker.complete, completionsFrom, List.append_assoc]
      rfl

theorem AioWorker.length_handleAll_calls (handled : List (AioRequest C × CallOutcome)) :
    (worker.handleAll handled).calls.length = worker.calls.length + handled.length := by
  induction handled generalizing worker with
  | nil => rfl
  | cons first rest ih =>
      obtain ⟨request, outcome⟩ := first
      obtain ⟨call, hhandle⟩ := worker.handle_eq request outcome
      show ((worker.handle request outcome).handleAll rest).calls.length = _
      rw [ih, hhandle, AioWorker.complete, List.length_append, List.length_cons,
        List.length_cons, List.length_nil]
      omega

theorem map_completionsFrom (errno : ℤ) (handled : List (AioRequest C × CallOutcome)) :
    (completionsFrom errno handled).map (fun completion => (completion.request, completion.res)) =
      handled.map fun (request, outcome) => (request, outcome.res) := by
  induction handled generalizing errno with
  | nil => rfl
  | cons first rest ih =>
      rw [completionsFrom, List.map_cons, List.map_cons, ih]

/-- A call that succeeded is reported truthfully only from a thread without an old error; a call
that failed is always. -/
theorem truthful_errnoAfter_iff (request : AioRequest C) (outcome : CallOutcome) (errno : ℤ) :
    Completion.Truthful ⟨request, outcome.res, outcome.errnoAfter errno⟩ ↔
      (0 ≤ outcome.res → errno = 0) := by
  cases outcome with
  | succeeded res =>
      simp [Completion.Truthful, CallOutcome.res, CallOutcome.errnoAfter]
  | failed code hcode => simp [Completion.Truthful, CallOutcome.res, CallOutcome.errnoAfter, hcode]

/-- No call of these succeeds on a thread with an old error, be it from before them all or from one
of them. -/
def NoSuccessAfterError (errno : ℤ) (handled : List (AioRequest C × CallOutcome)) : Prop :=
  (∀ call ∈ handled, 0 ≤ call.2.res → errno = 0) ∧
    handled.Pairwise fun earlier later => 0 ≤ later.2.res → 0 ≤ earlier.2.res

/-- After its first call a thread goes on with the error that this call leaves. -/
theorem noSuccessAfterError_cons (errno : ℤ) (request : AioRequest C) (outcome : CallOutcome)
    (rest : List (AioRequest C × CallOutcome)) :
    NoSuccessAfterError errno ((request, outcome) :: rest) ↔
      (0 ≤ outcome.res → errno = 0) ∧ NoSuccessAfterError (outcome.errnoAfter errno) rest := by
  rw [NoSuccessAfterError, NoSuccessAfterError, List.forall_mem_cons, List.pairwise_cons]
  cases outcome with
  | succeeded res =>
      have hres : (0 : ℤ) ≤ (CallOutcome.succeeded res).res := Int.natCast_nonneg res
      constructor
      · rintro ⟨⟨hfirst, hrest⟩, -, hpairs⟩
        exact ⟨hfirst, hrest, hpairs⟩
      · rintro ⟨hfirst, hrest, hpairs⟩
        exact ⟨⟨hfirst, hrest⟩, fun _ _ _ => hres, hpairs⟩
  | failed code hcode =>
      -- The error of this call is there for all later ones.
      have hres : ¬ (0 : ℤ) ≤ (CallOutcome.failed code hcode).res := by
        show ¬ (0 : ℤ) ≤ -1
        decide
      constructor
      · rintro ⟨⟨hfirst, -⟩, hlater, hpairs⟩
        exact ⟨hfirst, fun call hcall hsucceeded => absurd (hlater call hcall hsucceeded) hres,
          hpairs⟩
      · rintro ⟨hfirst, hrest, hpairs⟩
        exact ⟨⟨hfirst, fun call hcall hsucceeded => absurd (hrest call hcall hsucceeded) hcode⟩,
          fun call hcall hsucceeded => absurd (hrest call hcall hsucceeded) hcode, hpairs⟩

theorem forall_completionsFrom_truthful_iff (errno : ℤ)
    (handled : List (AioRequest C × CallOutcome)) :
    (∀ completion ∈ completionsFrom errno handled, completion.Truthful) ↔
      NoSuccessAfterError errno handled := by
  induction handled generalizing errno with
  | nil => simp [completionsFrom, NoSuccessAfterError]
  | cons first rest ih =>
      obtain ⟨request, outcome⟩ := first
      rw [completionsFrom, List.forall_mem_cons, truthful_errnoAfter_iff, ih,
        noSuccessAfterError_cons]

/-- `close_completed` of the file passes on what it gets. -/
theorem AsyncFile.closeCompleted_passes {D : Type} {file file' : AsyncFile D} {cb : D}
    {res err res' err' : ℤ} (h : file.closeCompleted res err = .ok (file', cb, res', err')) :
    res' = res ∧ err' = err := by
  obtain ⟨-, hcall⟩ := dAssert_bind_ok h
  cases hclosing : file.closeCb with
  | none =>
      rw [hclosing] at hcall
      cases hcall
  | some cb' =>
      rw [hclosing] at hcall
      cases hcall
      exact ⟨rfl, rfl⟩

end Handling

/-- **When completions are truthful.**  In every life of a worker each request takes one system
call and is completed once, in order, with the result of its own call, and a file passes the
completion of a close on as it is.  All completions are truthful exactly if no call succeeds on
the thread after `errno` has been set, by an earlier call or before the first one. -/
theorem completions_truthful_iff {C D : Type} (errno : ℤ)
    (handled : List (AioRequest C × CallOutcome)) :
    ((AioWorker.start errno).handleAll handled).calls.length = handled.length ∧
      ((AioWorker.start errno).handleAll handled).completions.map
          (fun completion => (completion.request, completion.res)) =
        handled.map (fun (request, outcome) => (request, outcome.res)) ∧
      (∀ completion ∈ ((AioWorker.start errno).handleAll handled).completions,
        ∀ (file file' : AsyncFile D) (cb : D) (res err : ℤ),
          file.closeCompleted completion.res completion.err = .ok (file', cb, res, err) →
            ((err = 0 ↔ 0 ≤ res) ↔ completion.Truthful)) ∧
      ((∀ completion ∈ ((AioWorker.start errno).handleAll handled).completions,
          completion.Truthful) ↔
        NoSuccessAfterError errno handled) := by
  have hcompletions := (AioWorker.start errno).handleAll_completions handled
  have hcalls := (AioWorker.start errno).length_handleAll_calls handled
  rw [hcompletions]
  refine ⟨hcalls.trans (Nat.zero_add _), map_completionsFrom errno handled, ?_,
    forall_completionsFrom_truthful_iff errno handled⟩
  intro completion _ file file' cb res err hclosed
  obtain ⟨rfl, rfl⟩ := AsyncFile.closeCompleted_passes hclosed
  exact Iff.rfl

/-- A thread without an error fails to open a file with `ENOENT`; the pread(2) of another file that
it makes next reads its 4 bytes, and is reported with the error 2. -/
theorem successful_pread_reported_with_old_error :
    ((AioWorker.start 0).handleAll
        [(.openReq 7 "file" 0 420, .failed 2 (by decide)),
          (.preadReq 8 3 4096 0 4, .succeeded 4)]).completions =
        [⟨.openReq 7 "file" 0 420, -1, 2⟩, ⟨.preadReq 8 3 4096 0 4, 4, 2⟩] ∧
      ¬ ∀ completion ∈ ((AioWorker.start 0).handleAll
          [((.openReq 7 "file" 0 420 : AioRequest ℕ), .failed 2 (by decide)),
            (.preadReq 8 3 4096 0 4, .succeeded 4)]).completions, completion.Truthful := by
  refine ⟨rfl, fun htruthful => ?_⟩
  have hpread := (htruthful ⟨.preadReq 8 3 4096 0 4, 4, 2⟩ (by decide)).mpr (by decide)
  cases hpread

end Util
end CoherentDB
