import CoherentDB.Lib.Runs
import CoherentDB.Util.Misc

/-!
# `async_file`

`submit_open` and `submit_close` leave the user's callback in the file and a request with
the `aio_context`.  A worker makes the system call and calls `open_completed` or
`close_completed` of the file, which changes `fd` and calls the user's callback.

A step is one call of a `submit_` function, one system call of a worker, or one call of
a completion; workers take the requests in any order, and other threads may act between
the system call and the completion.  A call whose assertion fails is not a step.

`open_completed` always reports 0.  A run reports all its opens truthfully exactly if
no open(2) in it has failed (`opens_reported_truthfully_iff`).
-/

namespace CoherentDB
namespace Util

open Debug Runs

/-- What open(2) returns, with `errno` after the call; only a failed call sets it. -/
structure OpenResult where
  fd : ℤ
  errno : ℤ
  valid : 0 ≤ fd ∨ fd = -1 ∧ 0 < errno
  deriving DecidableEq

/-- The requests that only use the descriptor. -/
inductive Transfer
  | pread
  | preadv
  | pwrite
  | pwritev
  deriving DecidableEq, Repr

/-- A request of the `aio_context`; after the system call it has the results. -/
inductive Request
  | openReq (path : String) (flags mode : ℤ)
  | opened (path : String) (flags mode : ℤ) (result : OpenResult)
  | closeReq (fd : ℤ)
  | closed (fd res errno : ℤ)
  | transfer (kind : Transfer) (fd : ℤ)
  deriving DecidableEq

/-- An `aio_open_req` that has not been completed. -/
def Request.isOpening : Request → Bool
  | .openReq _ _ _ | .opened _ _ _ _ => true
  | .closeReq _ | .closed _ _ _ | .transfer _ _ => false

/-- An `aio_close_req` that has not been completed. -/
def Request.isClosing : Request → Bool
  | .closeReq _ | .closed _ _ _ => true
  | .openReq _ _ _ | .opened _ _ _ _ | .transfer _ _ => false

/-- An `async_file`; `C` are the user's callbacks. -/
structure AsyncFile (C : Type) where
  path : String
  openCb : Option C
  closeCb : Option C
  fd : ℤ
  deriving DecidableEq

namespace AsyncFile

variable {C : Type} (file : AsyncFile C)

def notOpen : ℤ := -1

/-- `is_open`. -/
def isOpen : Bool := decide (file.fd ≠ notOpen)

/-- `submit_open`. -/
def submitOpen (cb : C) (flags mode : ℤ) : Except Failure (AsyncFile C × Request) := do
  dAssert (file.isOpen = false)
  dAssert (file.openCb.isNone = true)
  dAssert (file.closeCb.isNone = true)
  return ({ file with openCb := some cb }, .openReq file.path flags mode)

/-- `submit_pread`, `submit_preadv`, `submit_pwrite` and `submit_pwritev`. -/
def submitTransfer (kind : Transfer) : Except Failure Request := do
  dAssert (file.isOpen = true)
  return .transfer kind file.fd

def submitPread : Except Failure Request := file.submitTransfer .pread

def submitPreadv : Except Failure Request := file.submitTransfer .preadv

def submitPwrite : Except Failure Request := file.submitTransfer .pwrite

def submitPwritev : Except Failure Request := file.submitTransfer .pwritev

/-- `submit_close`. -/
def submitClose (cb : C) : Except Failure (AsyncFile C × Request) := do
  dAssert (file.isOpen = true)
  dAssert (file.closeCb.isNone = true)
  dAssert (file.openCb.isNone = true)
  return ({ file with closeCb := some cb }, .closeReq file.fd)

/-- `open_completed`, with the callback that it calls and the `err` that it passes on. -/
def openCompleted (result : OpenResult) : Except Failure (AsyncFile C × C × ℤ) := do
  dAssert (file.fd = notOpen)
  match file.openCb with
  | none => .error .assertion
  | some cb =>
      let fd := if 0 ≤ result.fd then result.fd else file.fd
      -- The callback gets a 0 and not `err`, which is 0 only with a descriptor.
      return ({ file with fd := fd, openCb := none }, cb, 0)

/-- `close_completed`, with the callback that it calls and what it passes on. -/
def closeCompleted (res errno : ℤ) : Except Failure (AsyncFile C × C × ℤ × ℤ) := do
  dAssert (file.fd ≠ notOpen)
  match file.closeCb with
  | none => .error .assertion
  | some cb =>
      let fd := if res = 0 then notOpen else file.fd
      return ({ file with fd := fd, closeCb := none }, cb, res, errno)

end AsyncFile

/-- A call of `open_callback::open_completed`: the file at that moment and what open(2) has
returned. -/
structure Report (C : Type) where
  cb : C
  err : ℤ
  file : AsyncFile C
  result : OpenResult
  deriving DecidableEq

/-- The report has the error 0 if and only if the file is open, and else that of open(2); with a 0
the callback may submit reads, writes and a close. -/
def Report.Truthful {C : Type} (report : Report C) : Prop :=
  (report.err = 0 ↔ report.file.isOpen = true) ∧
    (report.file.isOpen = false → report.err = report.result.errno) ∧
    (report.err = 0 →
      (∀ kind, ∃ request, report.file.submitTransfer kind = .ok request) ∧
        ∀ cb, ∃ next, report.file.submitClose cb = .ok next)

/-- A file with its requests.  `opens` are the callbacks of all calls of `submit_open`, and
`reports` the calls of `open_completed` that they have got. -/
structure AioSystem (C : Type) where
  file : AsyncFile C
  requests : List Request
  opens : List C
  reports : List (Report C)
  deriving DecidableEq

/-- One step; those of the workers name the request. -/
inductive AioAction (C : Type)
  | submitOpen (cb : C) (flags mode : ℤ)
  | submitTransfer (kind : Transfer)
  | submitClose (cb : C)
  /-- A worker calls open(2). -/
  | callOpen (path : String) (flags mode : ℤ) (result : OpenResult)
  /-- A worker calls close(2). -/
  | callClose (fd res errno : ℤ)
  /-- A worker reads or writes, and calls the user's callback. -/
  | callTransfer (kind : Transfer) (fd : ℤ)
  | openCompleted (path : String) (flags mode : ℤ) (result : OpenResult)
  | closeCompleted (fd res errno : ℤ)
  deriving DecidableEq

namespace AioSystem

variable {C : Type}

/-- A file that has been constructed, with nothing submitted. -/
def start (path : String) : AioSystem C :=
  ⟨⟨path, none, none, AsyncFile.notOpen⟩, [], [], []⟩

variable (s : AioSystem C)

/-- The other requests, where this one is there. -/
def take (request : Request) : Option (List Request) :=
  if request ∈ s.requests then some (s.requests.erase request) else none

/-- One step; none where the action is not possible. -/
def step : AioAction C → Option (AioSystem C)
  | .submitOpen cb flags mode => do
      let (file, request) ← (s.file.submitOpen cb flags mode).toOption
      some { s with file := file, requests := request :: s.requests, opens := s.opens ++ [cb] }
  | .submitTransfer kind => do
      let request ← (s.file.submitTransfer kind).toOption
      some { s with requests := request :: s.requests }
  | .submitClose cb => do
      let (file, request) ← (s.file.submitClose cb).toOption
      some { s with file := file, requests := request :: s.requests }
  | .callOpen path flags mode result => do
      let rest ← s.take (.openReq path flags mode)
      some { s with requests := .opened path flags mode result :: rest }
  | .callClose fd res errno => do
      let rest ← s.take (.closeReq fd)
      some { s with requests := .closed fd res errno :: rest }
  | .callTransfer kind fd => do
      let rest ← s.take (.transfer kind fd)
      some { s with requests := rest }
  | .openCompleted path flags mode result => do
      let rest ← s.take (.opened path flags mode result)
      let (file, cb, err) ← (s.file.openCompleted result).toOption
      some { s with
        file := file
        requests := rest
        reports := s.reports ++ [⟨cb, err, file, result⟩] }
  | .closeCompleted fd res errno => do
      let rest ← s.take (.closed fd res errno)
      let (file, _, _, _) ← (s.file.closeCompleted res errno).toOption
      some { s with file := file, requests := rest }

end AioSystem

/-- All that a step can do. -/
inductive AioSystem.Moves {C : Type} (s : AioSystem C) : AioAction C → AioSystem C → Prop
  | submitOpen (cb : C) (flags mode : ℤ) (hfd : s.file.fd = AsyncFile.notOpen)
      (hopening : s.file.openCb = none) (hclosing : s.file.closeCb = none) :
      Moves s (.submitOpen cb flags mode)
        { s with
          file := { s.file with openCb := some cb }
          requests := .openReq s.file.path flags mode :: s.requests
          opens := s.opens ++ [cb] }
  | submitTransfer (kind : Transfer) (hfd : s.file.fd ≠ AsyncFile.notOpen) :
      Moves s (.submitTransfer kind)
        { s with requests := .transfer kind s.file.fd :: s.requests }
  | submitClose (cb : C) (hfd : s.file.fd ≠ AsyncFile.notOpen)
      (hclosing : s.file.closeCb = none) (hopening : s.file.openCb = none) :
      Moves s (.submitClose cb)
        { s with
          file := { s.file with closeCb := some cb }
          requests := .closeReq s.file.fd :: s.requests }
  | callOpen (path : String) (flags mode : ℤ) (result : OpenResult)
      (hmem : .openReq path flags mode ∈ s.requests) :
      Moves s (.callOpen path flags mode result)
        { s with
          requests := .opened path flags mode result ::
            s.requests.erase (.openReq path flags mode) }
  | callClose (fd res errno : ℤ) (hmem : .closeReq fd ∈ s.requests) :
      Moves s (.callClose fd res errno)
        { s with requests := .closed fd res errno :: s.requests.erase (.closeReq fd) }
  | callTransfer (kind : Transfer) (fd : ℤ) (hmem : .transfer kind fd ∈ s.requests) :
      Moves s (.callTransfer kind fd)
        { s with requests := s.requests.erase (.transfer kind fd) }
  | openCompleted (path : String) (flags mode : ℤ) (result : OpenResult) (cb : C)
      (file : AsyncFile C) (hmem : .opened path flags mode result ∈ s.requests)
      (hfd : s.file.fd = AsyncFile.notOpen) (hopening : s.file.openCb = some cb)
      (hfile : file = { s.file with fd := result.fd, openCb := none }) :
      Moves s (.openCompleted path flags mode result)
        { s with
          file := file
          requests := s.requests.erase (.opened path flags mode result)
          reports := s.reports ++ [⟨cb, 0, file, result⟩] }
  | closeCompleted (fd res errno : ℤ) (cb : C) (hmem : .closed fd res errno ∈ s.requests)
      (hfd : s.file.fd ≠ AsyncFile.notOpen) (hclosing : s.file.closeCb = some cb) :
      Moves s (.closeCompleted fd res errno)
        { s with
          file := { s.file with
            fd := if res = 0 then AsyncFile.notOpen else s.file.fd
            closeCb := none }
          requests := s.requests.erase (.closed fd res errno) }

section Steps

variable {C : Type} {s s' : AioSystem C} {action : AioAction C}

theorem AsyncFile.isOpen_eq_true {file : AsyncFile C} :
    file.isOpen = true ↔ file.fd ≠ AsyncFile.notOpen :=
  decide_eq_true_iff

theorem AsyncFile.isOpen_eq_false {file : AsyncFile C} :
    file.isOpen = false ↔ file.fd = AsyncFile.notOpen := by
  rw [AsyncFile.isOpen, decide_eq_false_iff_not, not_not]

theorem AioSystem.take_eq_some {request : Request} {rest : List Request}
    (h : s.take request = some rest) : request ∈ s.requests ∧ rest = s.requests.erase request := by
  rw [AioSystem.take] at h
  split_ifs at h with hmem
  exact ⟨hmem, (Option.some.inj h).symm⟩

/-- Without a descriptor open(2) has returned -1, which is what `fd` is already. -/
theorem OpenResult.fd_eq (result : OpenResult) :
    (if 0 ≤ result.fd then result.fd else AsyncFile.notOpen) = result.fd := by
  split_ifs with hfd
  · rfl
  · obtain hvalid | ⟨hvalid, -⟩ := result.valid
    · exact absurd hvalid hfd
    · exact hvalid.symm

theorem AioSystem.moves_of_step (hstep : s.step action = some s') : s.Moves action s' := by
  cases action with
  | submitOpen cb flags mode =>
      obtain ⟨next, hsubmit, hnext⟩ := Option.bind_eq_some_iff.mp hstep
      obtain ⟨hfd, hsubmit⟩ := toOption_dAssert_bind hsubmit
      obtain ⟨hopening, hsubmit⟩ := toOption_dAssert_bind hsubmit
      obtain ⟨hclosing, hsubmit⟩ := toOption_dAssert_bind hsubmit
      obtain rfl := Option.some.inj hsubmit
      obtain rfl := Option.some.inj hnext
      exact .submitOpen cb flags mode (AsyncFile.isOpen_eq_false.mp hfd)
        (Option.isNone_iff_eq_none.mp hopening) (Option.isNone_iff_eq_none.mp hclosing)
  | submitTransfer kind =>
      obtain ⟨request, hsubmit, hnext⟩ := Option.bind_eq_some_iff.mp hstep
      obtain ⟨hfd, hsubmit⟩ := toOption_dAssert_bind hsubmit
      obtain rfl := Option.some.inj hsubmit
      obtain rfl := Option.some.inj hnext
      exact .submitTransfer kind (AsyncFile.isOpen_eq_true.mp hfd)
  | submitClose cb =>
      obtain ⟨next, hsubmit, hnext⟩ := Option.bind_eq_some_iff.mp hstep
      obtain ⟨hfd, hsubmit⟩ := toOption_dAssert_bind hsubmit
      obtain ⟨hclosing, hsubmit⟩ := toOption_dAssert_bind hsubmit
      obtain ⟨hopening, hsubmit⟩ := toOption_dAssert_bind hsubmit
      obtain rfl := Option.some.inj hsubmit
      obtain rfl := Option.some.inj hnext
      exact .submitClose cb (AsyncFile.isOpen_eq_true.mp hfd)
        (Option.isNone_iff_eq_none.mp hclosing) (Option.isNone_iff_eq_none.mp hopening)
  | callOpen path flags mode result =>
      obtain ⟨rest, htake, hnext⟩ := Option.bind_eq_some_iff.mp hstep
      obtain ⟨hmem, rfl⟩ := AioSystem.take_eq_some htake
      obtain rfl := Option.some.inj hnext
      exact .callOpen path flags mode result hmem
  | callClose fd res errno =>
      obtain ⟨rest, htake, hnext⟩ := Option.bind_eq_some_iff.mp hstep
      obtain ⟨hmem, rfl⟩ := AioSystem.take_eq_some htake
      obtain rfl := Option.some.inj hnext
      exact .callClose fd res errno hmem
  | callTransfer kind fd =>
      obtain ⟨rest, htake, hnext⟩ := Option.bind_eq_some_iff.mp hstep
      obtain ⟨hmem, rfl⟩ := AioSystem.take_eq_some htake
      obtain rfl := Option.some.inj hnext
      exact .callTransfer kind fd hmem
  | openCompleted path flags mode result =>
      obtain ⟨rest, htake, hrest⟩ := Option.bind_eq_some_iff.mp hstep
      obtain ⟨hmem, rfl⟩ := AioSystem.take_eq_some htake
      obtain ⟨called, hcall, hnext⟩ := Option.bind_eq_some_iff.mp hrest
      obtain ⟨hfd, hcall⟩ := toOption_dAssert_bind hcall
      cases hopening : s.file.openCb with
      | none =>
          rw [hopening] at hcall
          cases hcall
      | some cb =>
          rw [hopening] at hcall
          obtain rfl := Option.some.inj hcall
          obtain rfl := Option.some.inj hnext
          refine .openCompleted path flags mode result cb _ hmem hfd hopening ?_
          rw [hfd, result.fd_eq]
  | closeCompleted fd res errno =>
      obtain ⟨rest, htake, hrest⟩ := Option.bind_eq_some_iff.mp hstep
      obtain ⟨hmem, rfl⟩ := AioSystem.take_eq_some htake
      obtain ⟨called, hcall, hnext⟩ := Option.bind_eq_some_iff.mp hrest
      obtain ⟨hfd, hcall⟩ := toOption_dAssert_bind hcall
      cases hclosing : s.file.closeCb with
      | none =>
          rw [hclosing] at hcall
          cases hcall
      | some cb =>
          rw [hclosing] at hcall
          obtain rfl := Option.some.inj hcall
          obtain rfl := Option.some.inj hnext
          exact .closeCompleted fd res errno cb hmem hfd hclosing

/-- There is an open request or a close request exactly while its callback is in the file, and
each call of `submit_open` has been reported or is the one in the file. -/
structure AioSystem.Coherent (s : AioSystem C) : Prop where
  opening : s.requests.countP Request.isOpening = s.file.openCb.toList.length
  closing : s.requests.countP Request.isClosing = s.file.closeCb.toList.length
  notOpen : s.file.openCb ≠ none → s.file.fd = AsyncFile.notOpen
  stillOpen : s.file.closeCb ≠ none → s.file.fd ≠ AsyncFile.notOpen
  once : s.opens = s.reports.map Report.cb ++ s.file.openCb.toList

theorem AioSystem.start_coherent (path : String) : (AioSystem.start path : AioSystem C).Coherent :=
  ⟨rfl, rfl, fun h => absurd rfl h, fun h => absurd rfl h, rfl⟩

theorem countP_erase_add {l : List Request} {request : Request} (hmem : request ∈ l)
    (p : Request → Bool) :
    (l.erase request).countP p + (if p request = true then 1 else 0) = l.countP p := by
  rw [(List.perm_cons_erase hmem).countP_eq, List.countP_cons]

/-- A request that turns into one of the same kind. -/
theorem countP_cons_erase {l : List Request} {old new : Request} (hmem : old ∈ l)
    {p : Request → Bool} (hkind : p new = p old) : (new :: l.erase old).countP p = l.countP p := by
  rw [List.countP_cons, hkind, countP_erase_add hmem]

/-- **One step keeps the invariant.** -/
theorem AioSystem.Coherent.step (h : s.Coherent) (hmoves : s.Moves action s') : s'.Coherent := by
  obtain ⟨hopening, hclosing, hnotOpen, hstillOpen, honce⟩ := h
  cases hmoves with
  | submitOpen cb flags mode hfd hopen hclose =>
      rw [hopen] at hopening honce
      refine ⟨?_, ?_, fun _ => hfd, hstillOpen, ?_⟩
      · rw [List.countP_cons, hopening]
        rfl
      · simpa [Request.isClosing] using hclosing
      · simp [honce]
  | submitTransfer kind hfd =>
      refine ⟨?_, ?_, hnotOpen, hstillOpen, honce⟩
      · simpa [Request.isOpening] using hopening
      · simpa [Request.isClosing] using hclosing
  | submitClose cb hfd hclose hopen =>
      rw [hclose] at hclosing
      refine ⟨?_, ?_, hnotOpen, fun _ => hfd, honce⟩
      · simpa [Request.isOpening] using hopening
      · rw [List.countP_cons, hclosing]
        rfl
  | callOpen path flags mode result hmem | callClose fd res errno hmem =>
      exact ⟨(countP_cons_erase hmem rfl).trans hopening,
        (countP_cons_erase hmem rfl).trans hclosing, hnotOpen, hstillOpen, honce⟩
  | callTransfer kind fd hmem =>
      refine ⟨?_, ?_, hnotOpen, hstillOpen, honce⟩
      · rw [← hopening, ← countP_erase_add hmem]
        rfl
      · rw [← hclosing, ← countP_erase_add hmem]
        rfl
  | openCompleted path flags mode result cb file hmem hfd hopen hfile =>
      subst hfile
      rw [hopen] at hopening honce
      rw [← countP_erase_add hmem] at hopening hclosing
      -- No close is under way, since the file has not been open.
      have hclose : s.file.closeCb = none := by
        by_contra hne
        exact hstillOpen hne hfd
      refine ⟨Nat.succ.inj hopening, hclosing, fun hne => absurd rfl hne,
        fun hne => absurd hclose hne, ?_⟩
      simp [honce]
  | closeCompleted fd res errno cb hmem hfd hclose =>
      rw [hclose] at hclosing
      rw [← countP_erase_add hmem] at hopening hclosing
      have hopen : s.file.openCb = none := by
        by_contra hne
        exact hfd (hnotOpen hne)
      exact ⟨hopening, Nat.succ.inj hclosing, fun hne => absurd hopen hne,
        fun hne => absurd rfl hne, honce⟩

/-- A completion finds its callback in the file. -/
theorem AioSystem.Coherent.openCompleted_isSome (h : s.Coherent) {path : String} {flags mode : ℤ}
    {result : OpenResult} (hmem : .opened path flags mode result ∈ s.requests) :
    (s.step (.openCompleted path flags mode result)).isSome = true := by
  have hpos : 0 < s.requests.countP Request.isOpening := List.countP_pos_iff.mpr ⟨_, hmem, rfl⟩
  rw [h.opening] at hpos
  cases hopening : s.file.openCb with
  | none =>
      rw [hopening] at hpos
      exact absurd hpos (Nat.lt_irrefl 0)
  | some cb =>
      have hfd : s.file.fd = AsyncFile.notOpen := h.notOpen (by rw [hopening]; simp)
      simp only [AioSystem.step, AioSystem.take, if_pos hmem, AsyncFile.openCompleted,
        dAssert_of hfd, ok_bind, hopening]
      rfl

/-- What the file reports for a result of open(2) is true exactly if it is a descriptor. -/
theorem Report.truthful_iff {file : AsyncFile C} (hopening : file.openCb = none)
    (hclosing : file.closeCb = none) (cb : C) (result : OpenResult) (hfd : file.fd = result.fd) :
    Report.Truthful ⟨cb, 0, file, result⟩ ↔ 0 ≤ result.fd := by
  constructor
  · intro htruthful
    have hopen := AsyncFile.isOpen_eq_true.mp (htruthful.1.mp rfl)
    rw [hfd] at hopen
    obtain hvalid | ⟨hvalid, -⟩ := result.valid
    · exact hvalid
    · exact absurd hvalid hopen
  · intro hvalid
    have hopen : file.isOpen = true := by
      rw [AsyncFile.isOpen_eq_true, hfd, AsyncFile.notOpen]
      omega
    refine ⟨⟨fun _ => hopen, fun _ => rfl⟩, ?_, fun _ => ⟨fun kind => ?_, fun cb => ?_⟩⟩
    · intro hnot
      rw [hopen] at hnot
      cases hnot
    · refine ⟨.transfer kind file.fd, ?_⟩
      rw [AsyncFile.submitTransfer, dAssert_of hopen]
      rfl
    · refine ⟨({ file with closeCb := some cb }, .closeReq file.fd), ?_⟩
      rw [AsyncFile.submitClose, dAssert_of hopen, hopening, hclosing]
      rfl

/-- The result that a step hands to `open_completed`. -/
def AioAction.opened? : AioAction C → Option OpenResult
  | .openCompleted _ _ _ result => some result
  | .submitOpen _ _ _ | .submitTransfer _ | .submitClose _ | .callOpen _ _ _ _ | .callClose _ _ _
  | .callTransfer _ _ | .closeCompleted _ _ _ => none

/-- The reports of a run are those for its results, and the false ones are those for failures. -/
structure AioSystem.Recorded (s : AioSystem C) (actions : List (AioAction C)) : Prop where
  results : s.reports.map Report.result = actions.filterMap AioAction.opened?
  truthful : ∀ report ∈ s.reports, report.Truthful ↔ 0 ≤ report.result.fd

theorem AioSystem.Recorded.step {actions : List (AioAction C)} (hcoherent : s.Coherent)
    (h : s.Recorded actions) (hmoves : s.Moves action s') : s'.Recorded (actions ++ [action]) := by
  cases hmoves with
  | openCompleted path flags mode result cb file hmem hfd hopen hfile =>
      have hclose : file.closeCb = none := by
        subst hfile
        by_contra hne
        exact hcoherent.stillOpen hne hfd
      constructor
      · rw [List.map_append, List.filterMap_append, h.results]
        rfl
      · intro report hreport
        rcases List.mem_append.mp hreport with hold | hnew
        · exact h.truthful report hold
        · obtain rfl := List.mem_singleton.mp hnew
          subst hfile
          exact Report.truthful_iff rfl hclose cb result rfl
  | submitOpen | submitTransfer | submitClose | callOpen | callClose | callTransfer
  | closeCompleted =>
      constructor
      · rw [List.filterMap_append, ← h.results]
        exact (List.append_nil _).symm
      · exact h.truthful

end Steps

/-- **When opens are reported truthfully.**  In every run each call of `submit_open` has been
reported to its callback exactly once, or is the one that a worker still has to complete, which
it can.  All reports are truthful exactly if no open(2) that was reported has failed. -/
theorem opens_reported_truthfully_iff {C : Type} {path : String} {actions : List (AioAction C)}
    {s : AioSystem C} (hrun : Run AioSystem.step anyAction (AioSystem.start path) actions s) :
    s.opens = s.reports.map Report.cb ++ s.file.openCb.toList ∧
      s.requests.countP Request.isOpening = s.file.openCb.toList.length ∧
      (∀ path flags mode result, .opened path flags mode result ∈ s.requests →
        (s.step (.openCompleted path flags mode result)).isSome = true) ∧
      ((∀ report ∈ s.reports, report.Truthful) ↔
        ∀ path flags mode result, .openCompleted path flags mode result ∈ actions →
          0 ≤ result.fd) := by
  have hboth : s.Coherent ∧ s.Recorded actions := by
    refine hrun.invariant (P := fun actions s => s.Coherent ∧ s.Recorded actions) ?_ ?_
    · exact ⟨AioSystem.start_coherent path, rfl, fun _ hmem => nomatch hmem⟩
    · intro actions s s' action h _ hstep
      have hmoves := AioSystem.moves_of_step hstep
      exact ⟨h.1.step hmoves, h.2.step h.1 hmoves⟩
  obtain ⟨hcoherent, hrecorded⟩ := hboth
  have hresults : ∀ result, (∃ report ∈ s.reports, report.result = result) ↔
      ∃ path flags mode, .openCompleted path flags mode result ∈ actions := by
    intro result
    rw [← List.mem_map, hrecorded.results, List.mem_filterMap]
    constructor
    · rintro ⟨action, hmem, hopened⟩
      cases action with
      | openCompleted path flags mode other =>
          obtain rfl := Option.some.inj hopened
          exact ⟨path, flags, mode, hmem⟩
      | submitOpen | submitTransfer | submitClose | callOpen | callClose | callTransfer
      | closeCompleted => cases hopened
    · rintro ⟨path, flags, mode, hmem⟩
      exact ⟨_, hmem, rfl⟩
  refine ⟨hcoherent.once, hcoherent.opening, fun _ _ _ _ => hcoherent.openCompleted_isSome, ?_⟩
  constructor
  · intro htruthful path flags mode result hmem
    obtain ⟨report, hreport, rfl⟩ := (hresults result).mpr ⟨path, flags, mode, hmem⟩
    exact (hrecorded.truthful report hreport).mp (htruthful report hreport)
  · intro hsucceeded report hreport
    obtain ⟨path, flags, mode, hmem⟩ := (hresults report.result).mp ⟨report, hreport, rfl⟩
    exact (hrecorded.truthful report hreport).mpr (hsucceeded path flags mode _ hmem)

/-- open(2) fails with `ENOENT`. -/
def noSuchFile : OpenResult := ⟨-1, 2, Or.inr ⟨rfl, by decide⟩⟩

/-- open(2) gives the descriptor 3; `errno` is from an earlier call. -/
def descriptorThree : OpenResult := ⟨3, 11, Or.inl (by decide)⟩

/-- One open with the given result, up to its report to the callback `7`. -/
def oneOpen (result : OpenResult) : List (AioAction ℕ) :=
  [.submitOpen 7 0 420, .callOpen "file" 0 420 result, .openCompleted "file" 0 420 result]

/-- The file is opened, read, closed and opened again; both reports are truthful. -/
theorem opens_reported_truthfully_iff_again :
    ∃ s, Run AioSystem.step anyAction (AioSystem.start "file")
        (oneOpen descriptorThree ++
          [.submitTransfer .pread, .callTransfer .pread 3, .submitClose 8, .callClose 3 0 11,
            .closeCompleted 3 0 11] ++
          oneOpen descriptorThree) s ∧
      s.reports.map Report.cb = [7, 7] ∧ ∀ report ∈ s.reports, report.Truthful := by
  have hdone : performAll AioSystem.step anyAction (AioSystem.start "file")
      (oneOpen descriptorThree ++
        [.submitTransfer .pread, .callTransfer .pread 3, .submitClose 8, .callClose 3 0 11,
          .closeCompleted 3 0 11] ++
        oneOpen descriptorThree) =
      some ⟨⟨"file", none, none, 3⟩, [], [7, 7],
        [⟨7, 0, ⟨"file", none, none, 3⟩, descriptorThree⟩,
          ⟨7, 0, ⟨"file", none, none, 3⟩, descriptorThree⟩]⟩ := by decide
  have hrun := Run.start.performAll _ hdone
  obtain ⟨-, -, -, hiff⟩ := opens_reported_truthfully_iff hrun
  refine ⟨_, hrun, rfl, hiff.mpr ?_⟩
  intro path flags mode result hmem
  simp [oneOpen] at hmem
  rw [hmem.2.2.2]
  decide

/-- The failed open is reported with the error 0, and the callback that now reads runs into the
assertion of `submit_pread`. -/
theorem failed_open_reported_as_success :
    ∃ s report, Run AioSystem.step anyAction (AioSystem.start "file") (oneOpen noSuchFile) s ∧
      s.reports = [report] ∧ report.cb = 7 ∧ report.err = 0 ∧ report.file.isOpen = false ∧
      report.file.submitPread = .error .assertion ∧ ¬ report.Truthful := by
  have hdone : performAll AioSystem.step anyAction (AioSystem.start "file") (oneOpen noSuchFile) =
      some ⟨⟨"file", none, none, -1⟩, [], [7],
        [⟨7, 0, ⟨"file", none, none, -1⟩, noSuchFile⟩]⟩ := by decide
  refine ⟨_, _, Run.start.performAll _ hdone, rfl, rfl, rfl, rfl, rfl, fun htruthful => ?_⟩
  have hopen := htruthful.1.mp rfl
  cases hopen

end Util
end CoherentDB
