import CoherentDB.Lib.WriteLog
import CoherentDB.Util.AsyncFile
import CoherentDB.Util.FileWrite

/-!
# Files between `open` and `close`

Any number of `file` objects, on the same paths or on others, are opened, written and closed in
any order.  The kernel keeps the content of the files and a table of descriptors; what open(2),
close(2) and `pwritev` answer is part of an action, as far as the kernel is free to choose it.
`file::read` changes nothing and is no action.  A call whose assertion fails is not a step.

close(2) may fail and release the descriptor all the same.  `file::close` then keeps it, and the
kernel may give it to another file next; `Proper` excludes this.

`changes` is the history of what the calls did to the files by their own paths.
`read_returns_last_writes` says that a read gives what the last of them left at each position.
-/

namespace CoherentDB
namespace Util

open Debug ListRange ReadBuffers Runs WriteLog

/-! ### The kernel -/

def oAccmode : UInt32 := 0x3

def oRdonly : UInt32 := 0x0

def oRdwr : UInt32 := 0x2

def oCreat : UInt32 := 0x40

def oExcl : UInt32 := 0x80

def oTrunc : UInt32 := 0x200

def oAppend : UInt32 := 0x400

/-- What `open_internal` adds to the flags. -/
def createFlags (create : Bool) : UInt32 := if create then oCreat ||| oExcl else 0

/-- An open file description. -/
structure Description where
  path : String
  flags : UInt32
  deriving DecidableEq

namespace Description

variable (d : Description)

def writable : Bool := decide (d.flags &&& oAccmode ≠ oRdonly)

def appends : Bool := decide (d.flags &&& oAppend ≠ 0)

end Description

/-- The files of a directory tree and the descriptors of the process. -/
structure Filesystem where
  files : String → Option (List Byte)
  fds : ℤ → Option Description

/-- What close(2) returns; a failed call may have released the descriptor. -/
inductive CloseResult
  | closed
  | failed (errno : ℕ) (released : Bool)
  deriving DecidableEq

namespace Filesystem

variable (fs : Filesystem)

/-- A file that is open now, under a descriptor. -/
def connect (path : String) (flags : UInt32) (fd : ℤ) (content : List Byte) : Filesystem where
  files := Function.update fs.files path (some content)
  fds := Function.update fs.fds fd (some ⟨path, flags⟩)

/-- open(2); none where the kernel does not answer so.  It may fail for reasons of its own. -/
def open_ (path : String) (flags : UInt32) (result : OpenResult) : Option Filesystem :=
  if result.fd < 0 then some fs
  else if (fs.fds result.fd).isSome then none
  else
    match fs.files path with
    | none => if flags &&& oCreat ≠ 0 then some (fs.connect path flags result.fd []) else none
    | some content =>
        if flags &&& oCreat ≠ 0 ∧ flags &&& oExcl ≠ 0 then none
        else
          some (fs.connect path flags result.fd (if flags &&& oTrunc ≠ 0 then [] else content))

/-- close(2). -/
def close (fd : ℤ) : CloseResult → Option Filesystem
  | .closed =>
      if (fs.fds fd).isSome then some { fs with fds := Function.update fs.fds fd none } else none
  | .failed _ released =>
      some (if released then { fs with fds := Function.update fs.fds fd none } else fs)

end Filesystem

/-! ### The calls -/

namespace File

variable (strerror : ℕ → String) (f : File) (fs : Filesystem)

/-- How a call of `open_internal` ends after open(2). -/
def openOutcome (result : OpenResult) : Except Failure Unit :=
  let f := { f with fd := result.fd }
  if f.fd = notOpen then .error (f.ioErrno strerror result.errno.toNat) else .ok ()

/-- `file::open_internal`; the permissions of a new file are left out. -/
def openInternal (flags : UInt32) (create : Bool) (result : OpenResult) :
    Option (Except Failure Unit × File × Filesystem) :=
  if flags &&& (oExcl ||| oCreat) = 0 ∧ f.isOpen = false then
    (fs.open_ f.path (flags ||| createFlags create) result).map fun fs =>
      (f.openOutcome strerror result, { f with fd := result.fd }, fs)
  else some (.error .assertion, f, fs)

/-- `file::create`. -/
def create (flags : UInt32) (result : OpenResult) :
    Option (Except Failure Unit × File × Filesystem) :=
  f.openInternal strerror fs flags true result

/-- `file::open`. -/
def open_ (flags : UInt32) (result : OpenResult) :
    Option (Except Failure Unit × File × Filesystem) :=
  f.openInternal strerror fs flags false result

/-- How a call of `close` ends after close(2). -/
def closeOutcome : CloseResult → Except Failure Unit × File
  | .closed => (.ok (), { f with fd := notOpen })
  | .failed errno _ => (.error (f.ioErrno strerror errno), f)

/-- `file::close`. -/
def close (result : CloseResult) : Option (Except Failure Unit × File × Filesystem) :=
  if f.isOpen = true then
    (fs.close f.fd result).map fun fs =>
      ((f.closeOutcome strerror result).1, (f.closeOutcome strerror result).2, fs)
  else some (.error .assertion, f, fs)

/-- `file::write`, which does not ask whether the file is open.  Bytes are only written through a
descriptor that is open for writing; one with `O_APPEND` ignores the offset. -/
def writeThrough (m : MultiBuffer (List Byte)) (offset : ℕ) :
    PwritevResult → Option (Except Failure Unit × Filesystem)
  | .error errno => some ((f.write strerror [] (.error errno) m offset).1, fs)
  | .wrote count => do
      let d ← fs.fds f.fd
      let content ← fs.files d.path
      let done := f.write strerror content (.wrote count) m
        (if d.appends then content.length else offset)
      if d.writable then
        some (done.1, { fs with files := Function.update fs.files d.path (some done.2) })
      else none

end File

/-- The objects in the order of their construction, with none for one that is destroyed, and the
changes that their calls have made, the newest first. -/
structure FileStore where
  objects : List (Option File)
  fs : Filesystem
  changes : List (Change String Byte)

/-- One call, of the object with a number, and what the kernel answers. -/
inductive FileAction
  | construct (path : String)
  | create (i : ℕ) (flags : UInt32) (result : OpenResult)
  | open_ (i : ℕ) (flags : UInt32) (result : OpenResult)
  | close (i : ℕ) (result : CloseResult)
  | write (i : ℕ) (m : MultiBuffer (List Byte)) (offset : ℕ) (result : PwritevResult)
  | destroy (i : ℕ)

namespace FileStore

/-- No object yet, in a directory without files. -/
def start : FileStore := ⟨[], ⟨fun _ => none, fun _ => none⟩, []⟩

variable (strerror : ℕ → String) (s : FileStore)

def object (i : ℕ) : Option File := s.objects[i]?.join

/-- What a successful call of open(2) does to the file. -/
def openChanges (path : String) (flags : UInt32) (create : Bool) (result : OpenResult) :
    List (Change String Byte) :=
  if 0 ≤ result.fd ∧ (create = true ∨ flags &&& oTrunc ≠ 0) then [.emptied path] else []

/-- What a call of `pwritev` does to the file. -/
def writeChanges (path : String) (m : MultiBuffer (List Byte)) (offset : ℕ) :
    PwritevResult → List (Change String Byte)
  | .error _ => []
  | .wrote count => [.stored path offset (m.content.take count)]

/-- The state after a call of object `i` that returns or throws an `io_exception`. -/
def after (i : ℕ) (changes : List (Change String Byte)) :
    Except Failure Unit × File × Filesystem → Option FileStore
  | (.error .assertion, _, _) | (.error .badAlloc, _, _)
  | (.error .undefinedBehaviour, _, _) => none
  | (.error (.ioException _), f, fs) | (.ok _, f, fs) =>
      some ⟨s.objects.set i (some f), fs, changes ++ s.changes⟩

/-- One step; none where the action is not possible. -/
def step : FileAction → Option FileStore
  | .construct path => some { s with objects := s.objects ++ [some ⟨path, File.notOpen⟩] }
  | .create i flags result => do
      let f ← s.object i
      let done ← f.create strerror s.fs flags result
      s.after i (openChanges f.path flags true result) done
  | .open_ i flags result => do
      let f ← s.object i
      let done ← f.open_ strerror s.fs flags result
      s.after i (openChanges f.path flags false result) done
  | .close i result => do
      let f ← s.object i
      let done ← f.close strerror s.fs result
      s.after i [] done
  | .write i m offset result => do
      let f ← s.object i
      let (outcome, fs) ← f.writeThrough strerror s.fs m offset result
      s.after i (writeChanges f.path m offset result) (outcome, f, fs)
  | .destroy i => do
      let f ← s.object i
      -- `~file` asserts that the file is not open.
      if f.isOpen then none else some { s with objects := s.objects.set i none }

/-- No file is opened with `O_APPEND`, which the offsets of `write` have no effect on; a failed
close(2) keeps the descriptor; the buffers are windows that their constructor accepts. -/
def Proper (_ : FileStore) : FileAction → Prop
  | .create _ flags _ | .open_ _ flags _ => flags &&& oAppend = 0
  | .close _ (.failed _ released) => released = false
  | .write _ m _ _ => m.Window
  | .construct _ | .close _ .closed | .destroy _ => True

end FileStore

/-- All that a proper step can do. -/
inductive FileStore.Moves (s : FileStore) : FileStore → Prop
  | construct (path : String) :
      Moves s { s with objects := s.objects ++ [some ⟨path, File.notOpen⟩] }
  /-- The call throws and leaves everything as it is. -/
  | throws : Moves s s
  | connect (i : ℕ) (f : File) (flags : UInt32) (fd : ℤ) (content : List Byte)
      (changes : List (Change String Byte)) (hf : s.object i = some f)
      (hclosed : f.fd = File.notOpen) (hfd : 0 ≤ fd) (hnew : s.fs.fds fd = none)
      (happend : flags &&& oAppend = 0)
      (hcontent : changes = [.emptied f.path] ∧ content = [] ∨
        changes = [] ∧ s.fs.files f.path = some content) :
      Moves s ⟨s.objects.set i (some { f with fd := fd }), s.fs.connect f.path flags fd content,
        changes ++ s.changes⟩
  | close (i : ℕ) (f : File) (hf : s.object i = some f) (hopen : f.fd ≠ File.notOpen) :
      Moves s ⟨s.objects.set i (some { f with fd := File.notOpen }),
        { s.fs with fds := Function.update s.fs.fds f.fd none }, s.changes⟩
  | write (i : ℕ) (f : File) (d : Description) (content bytes : List Byte) (offset : ℕ)
      (hf : s.object i = some f) (hd : s.fs.fds f.fd = some d)
      (hcontent : s.fs.files d.path = some content) :
      Moves s ⟨s.objects,
        { s.fs with
          files := Function.update s.fs.files d.path
            (some (writeAt content (if d.appends then content.length else offset) bytes)) },
        .stored f.path offset bytes :: s.changes⟩
  | destroy (i : ℕ) (f : File) (hf : s.object i = some f) (hclosed : f.fd = File.notOpen) :
      Moves s { s with objects := s.objects.set i none }

section Flags

variable {flags : UInt32}

theorem and_of_and_mask {mask part : UInt32} (h : flags &&& mask = 0) (hpart : mask &&& part = part) :
    flags &&& part = 0 := by
  rw [← hpart, ← UInt32.and_assoc, h]
  exact UInt32.zero_and

theorem or_and_part (x y mask : UInt32) : (x ||| y) &&& mask = (x &&& mask) ||| (y &&& mask) :=
  UInt32.toBitVec_inj.mp BitVec.and_or_distrib_right

/-- `file::create` asks for a new file. -/
theorem and_createFlags (part : UInt32) (h : flags &&& (oExcl ||| oCreat) = 0)
    (hpart : (oExcl ||| oCreat) &&& part = part) :
    (flags ||| (oCreat ||| oExcl)) &&& part = part := by
  rw [or_and_part, and_of_and_mask h hpart, UInt32.or_comm oCreat, hpart]
  exact UInt32.zero_or

end Flags

section Steps

variable {strerror : ℕ → String} {s s' : FileStore} {f : File} {i : ℕ}

theorem File.isOpen_iff : f.isOpen = true ↔ f.fd ≠ File.notOpen := decide_eq_true_iff

theorem File.isOpen_eq_false_iff : f.isOpen = false ↔ f.fd = File.notOpen := by
  rw [File.isOpen, decide_eq_false_iff_not, not_not]

theorem FileStore.object_eq_some : s.object i = some f ↔ s.objects[i]? = some (some f) := by
  rw [FileStore.object, Option.join_eq_some_iff]

/-- Which object is found where one object has been replaced. -/
theorem FileStore.object_set {x : Option File} {j : ℕ} {fs : Filesystem}
    {changes : List (Change String Byte)} (hf : s.object i = some f) :
    (FileStore.mk (s.objects.set i x) fs changes).object j = if j = i then x else s.object j := by
  obtain ⟨hlt, -⟩ := List.getElem?_eq_some_iff.mp (FileStore.object_eq_some.mp hf)
  rw [FileStore.object, List.getElem?_set]
  split_ifs with h₁ h₂
  · rfl
  · exact absurd h₁.symm h₂
  · exact absurd (‹j = i›).symm h₁
  · rfl

theorem FileStore.set_object (hf : s.object i = some f) : s.objects.set i (some f) = s.objects := by
  obtain ⟨hlt, hget⟩ := List.getElem?_eq_some_iff.mp (FileStore.object_eq_some.mp hf)
  rw [← hget]
  exact List.set_getElem_self hlt

/-- What open(2) does for `open_internal` when it returns a descriptor. -/
theorem Filesystem.open_spec {fs fs' : Filesystem} {path : String} {flags : UInt32} {create : Bool}
    {result : OpenResult} (hflags : flags &&& (oExcl ||| oCreat) = 0) (hfd : 0 ≤ result.fd)
    (hopen : fs.open_ path (flags ||| createFlags create) result = some fs') :
    fs.fds result.fd = none ∧ ∃ content,
      fs' = fs.connect path (flags ||| createFlags create) result.fd content ∧
      (FileStore.openChanges path flags create result = [.emptied path] ∧ content = [] ∨
        FileStore.openChanges path flags create result = [] ∧ fs.files path = some content) := by
  rw [Filesystem.open_, if_neg (not_lt.mpr hfd)] at hopen
  by_cases hused : (fs.fds result.fd).isSome = true
  · rw [if_pos hused] at hopen
    cases hopen
  rw [if_neg hused] at hopen
  refine ⟨Option.not_isSome_iff_eq_none.mp hused, ?_⟩
  cases create with
  | true =>
      have hcreat := and_createFlags oCreat hflags (by decide)
      have hexcl := and_createFlags oExcl hflags (by decide)
      simp only [createFlags, if_true, hcreat, hexcl] at hopen
      cases hfile : fs.files path with
      | none =>
          rw [hfile] at hopen
          exact ⟨[], (Option.some.inj hopen).symm, .inl ⟨if_pos ⟨hfd, .inl rfl⟩, rfl⟩⟩
      | some content =>
          rw [hfile] at hopen
          cases hopen
  | false =>
      have hcreat : flags &&& oCreat = 0 := and_of_and_mask hflags (by decide)
      simp only [createFlags, Bool.false_eq_true, if_false, UInt32.or_zero, hcreat] at hopen ⊢
      cases hfile : fs.files path with
      | none =>
          rw [hfile] at hopen
          cases hopen
      | some content =>
          rw [hfile] at hopen
          obtain rfl := Option.some.inj hopen
          by_cases htrunc : flags &&& oTrunc = 0
          · have hchanges : FileStore.openChanges path flags false result = [] :=
              if_neg fun h => h.2.elim Bool.false_ne_true fun hne => hne htrunc
            refine ⟨content, ?_, .inr ⟨hchanges, rfl⟩⟩
            simp [htrunc]
          · refine ⟨[], ?_, .inl ⟨if_pos ⟨hfd, .inr htrunc⟩, rfl⟩⟩
            simp [htrunc]

theorem FileStore.after_eq_some {changes : List (Change String Byte)} {g : File} {fs : Filesystem}
    {outcome : Except Failure Unit} (h : s.after i changes (outcome, g, fs) = some s') :
    s' = ⟨s.objects.set i (some g), fs, changes ++ s.changes⟩ ∧ outcome ≠ .error .assertion := by
  cases outcome with
  | ok => exact ⟨(Option.some.inj h).symm, nofun⟩
  | error failure =>
      cases failure with
      | ioException message => exact ⟨(Option.some.inj h).symm, nofun⟩
      | assertion | badAlloc | undefinedBehaviour => cases h

theorem FileStore.moves_of_open {flags : UInt32} {create : Bool} {result : OpenResult}
    {done : Except Failure Unit × File × Filesystem} (hf : s.object i = some f)
    (happend : flags &&& oAppend = 0)
    (hdone : f.openInternal strerror s.fs flags create result = some done)
    (hafter : s.after i (openChanges f.path flags create result) done = some s') :
    s.Moves s' := by
  rw [File.openInternal] at hdone
  by_cases hasserts : flags &&& (oExcl ||| oCreat) = 0 ∧ f.isOpen = false
  · rw [if_pos hasserts] at hdone
    obtain ⟨hflags, hclosed⟩ := hasserts
    rw [File.isOpen_eq_false_iff] at hclosed
    obtain ⟨fs, hopen, rfl⟩ := Option.map_eq_some_iff.mp hdone
    obtain ⟨rfl, -⟩ := FileStore.after_eq_some hafter
    by_cases hfd : 0 ≤ result.fd
    · obtain ⟨hnew, content, rfl, hcontent⟩ := Filesystem.open_spec hflags hfd hopen
      refine .connect i f _ result.fd content _ hf hclosed hfd hnew ?_ hcontent
      rw [or_and_part, happend, UInt32.zero_or]
      cases create <;> decide
    · -- open(2) has failed, and `fd` is what it was before.
      have hfailed : result.fd = File.notOpen := by
        obtain hvalid | ⟨hvalid, -⟩ := result.valid
        · exact absurd hvalid hfd
        · exact hvalid
      have hsame : ({ f with fd := result.fd } : File) = f := by
        rw [hfailed, ← hclosed]
      have hnone : openChanges f.path flags create result = [] := if_neg fun h => hfd h.1
      rw [Filesystem.open_, if_pos (not_le.mp hfd)] at hopen
      obtain rfl := Option.some.inj hopen
      rw [hsame, hnone, FileStore.set_object hf]
      exact .throws
  · rw [if_neg hasserts] at hdone
    obtain rfl := Option.some.inj hdone
    exact absurd rfl (FileStore.after_eq_some hafter).2

theorem FileStore.moves_of_close {result : CloseResult}
    {done : Except Failure Unit × File × Filesystem} (hf : s.object i = some f)
    (hproper : Proper s (.close i result)) (hdone : f.close strerror s.fs result = some done)
    (hafter : s.after i [] done = some s') : s.Moves s' := by
  rw [File.close] at hdone
  by_cases hopen : f.isOpen = true
  · rw [if_pos hopen] at hdone
    obtain ⟨fs, hclose, rfl⟩ := Option.map_eq_some_iff.mp hdone
    obtain ⟨rfl, -⟩ := FileStore.after_eq_some hafter
    cases result with
    | closed =>
        rw [Filesystem.close] at hclose
        split_ifs at hclose
        obtain rfl := Option.some.inj hclose
        exact .close i f hf (File.isOpen_iff.mp hopen)
    | failed errno released =>
        obtain rfl : released = false := hproper
        obtain rfl := Option.some.inj hclose
        rw [File.closeOutcome, FileStore.set_object hf]
        exact .throws
  · rw [if_neg hopen] at hdone
    obtain rfl := Option.some.inj hdone
    exact absurd rfl (FileStore.after_eq_some hafter).2

/-- A window that is written past the assertion is what the vectors hold. -/
theorem File.write_wrote {m : MultiBuffer (List Byte)} {offset count : ℕ} {content : List Byte}
    (hwindow : m.Window)
    (hassert : (f.write strerror content (.wrote count) m offset).1 ≠ .error .assertion) :
    (f.write strerror content (.wrote count) m offset).2 =
      writeAt content offset (m.content.take count) := by
  by_cases hcounted : m.size ≤ m.counted.flatten.length - m.leftOff
  · obtain ⟨vecs, hgather, hvecs⟩ := hwindow.gathers hcounted
    have hpwritev : pwritev content vecs offset (.wrote count) =
        writeAt content offset (m.content.take count) := by
      rw [pwritev, hvecs]
    simp only [File.write, hgather]
    split_ifs
    · exact hpwritev
    · exact hpwritev
  · refine absurd ?_ hassert
    rw [File.write, hwindow.gather_fails (not_le.mp hcounted)]

theorem FileStore.moves_of_write {m : MultiBuffer (List Byte)} {offset : ℕ}
    {result : PwritevResult} {done : Except Failure Unit × Filesystem} (hf : s.object i = some f)
    (hwindow : m.Window) (hdone : f.writeThrough strerror s.fs m offset result = some done)
    (hafter : s.after i (writeChanges f.path m offset result) (done.1, f, done.2) = some s') :
    s.Moves s' := by
  obtain ⟨rfl, hassert⟩ := FileStore.after_eq_some hafter
  rw [FileStore.set_object hf]
  cases result with
  | error errno =>
      obtain rfl := Option.some.inj hdone
      exact .throws
  | wrote count =>
      obtain ⟨d, hd, hdone⟩ := Option.bind_eq_some_iff.mp hdone
      obtain ⟨content, hcontent, hdone⟩ := Option.bind_eq_some_iff.mp hdone
      by_cases hwritable : d.writable = true
      · rw [if_pos hwritable] at hdone
        obtain rfl := Option.some.inj hdone
        rw [File.write_wrote hwindow hassert]
        exact .write i f d content _ offset hf hd hcontent
      · rw [if_neg hwritable] at hdone
        cases hdone

theorem FileStore.moves_of_step {action : FileAction} (hproper : Proper s action)
    (hstep : s.step strerror action = some s') : s.Moves s' := by
  cases action with
  | construct path =>
      obtain rfl := Option.some.inj hstep
      exact .construct path
  | create i flags result =>
      obtain ⟨f, hf, hstep⟩ := Option.bind_eq_some_iff.mp hstep
      obtain ⟨done, hdone, hafter⟩ := Option.bind_eq_some_iff.mp hstep
      exact FileStore.moves_of_open hf hproper hdone hafter
  | open_ i flags result =>
      obtain ⟨f, hf, hstep⟩ := Option.bind_eq_some_iff.mp hstep
      obtain ⟨done, hdone, hafter⟩ := Option.bind_eq_some_iff.mp hstep
      exact FileStore.moves_of_open hf hproper hdone hafter
  | close i result =>
      obtain ⟨f, hf, hstep⟩ := Option.bind_eq_some_iff.mp hstep
      obtain ⟨done, hdone, hafter⟩ := Option.bind_eq_some_iff.mp hstep
      exact FileStore.moves_of_close hf hproper hdone hafter
  | write i m offset result =>
      obtain ⟨f, hf, hstep⟩ := Option.bind_eq_some_iff.mp hstep
      obtain ⟨done, hdone, hafter⟩ := Option.bind_eq_some_iff.mp hstep
      exact FileStore.moves_of_write hf hproper hdone hafter
  | destroy i =>
      obtain ⟨f, hf, hstep⟩ := Option.bind_eq_some_iff.mp hstep
      by_cases hopen : f.isOpen = true
      · rw [if_pos hopen] at hstep
        cases hstep
      · rw [if_neg hopen] at hstep
        obtain rfl := Option.some.inj hstep
        exact .destroy i f hf (File.isOpen_eq_false_iff.mp (Bool.eq_false_iff.mpr hopen))

end Steps

/-- Object `i` is open. -/
def FileStore.Opened (s : FileStore) (i : ℕ) (f : File) : Prop :=
  s.object i = some f ∧ f.fd ≠ File.notOpen

/-- The invariant of proper runs. -/
structure FileStore.Sound (s : FileStore) : Prop where
  valid : s.fs.fds File.notOpen = none
  /-- An open object has a descriptor of its own file. -/
  described : ∀ i f, s.Opened i f →
    ∃ d, s.fs.fds f.fd = some d ∧ d.path = f.path ∧ d.appends = false
  own : ∀ i j f g, s.Opened i f → s.Opened j g → f.fd = g.fd → i = j
  content : ∀ path pos, ((s.fs.files path).getD [])[pos]? = lookup 0 path pos s.changes

section Opened

variable {s : FileStore} {f g : File} {i j : ℕ}

theorem FileStore.opened_construct {path : String} {changes : List (Change String Byte)}
    {fs : Filesystem}
    (h : (FileStore.mk (s.objects ++ [some ⟨path, File.notOpen⟩]) fs changes).Opened j g) :
    s.Opened j g := by
  obtain ⟨hg, hopen⟩ := h
  refine ⟨?_, hopen⟩
  rw [FileStore.object, List.getElem?_append] at hg
  split_ifs at hg with hlt
  · exact hg
  · -- A new object is not open.
    obtain ⟨hmem, hget⟩ := List.getElem?_eq_some_iff.mp (Option.join_eq_some_iff.mp hg)
    rw [List.getElem_singleton, Option.some.injEq] at hget
    exact absurd (hget ▸ rfl) hopen

theorem FileStore.opened_set {x : Option File} {changes : List (Change String Byte)}
    {fs : Filesystem} (hf : s.object i = some f)
    (h : (FileStore.mk (s.objects.set i x) fs changes).Opened j g) :
    j = i ∧ x = some g ∨ j ≠ i ∧ s.Opened j g := by
  obtain ⟨hg, hopen⟩ := h
  rw [FileStore.object_set hf] at hg
  split_ifs at hg with hj
  · exact .inl ⟨hj, hg⟩
  · exact .inr ⟨hj, hg, hopen⟩

end Opened

section Invariant

variable {strerror : ℕ → String} {s s' : FileStore} {f : File} {i : ℕ}

/-- What stands at a position after `pwritev`. -/
theorem getElem?_writeAt {κ : Type} [DecidableEq κ] (content bytes : List Byte) (name : κ)
    (offset pos : ℕ) :
    (writeAt content offset bytes)[pos]? =
      if (Change.stored name offset bytes).Reaches name pos then
        (Change.stored name offset bytes).leaves 0 pos content[pos]?
      else content[pos]? := by
  rw [writeAt]
  by_cases hnone : bytes = []
  · subst hnone
    rw [if_pos rfl, if_neg]
    rintro ⟨-, hpos, -⟩
    exact absurd hpos (lt_irrefl 0)
  · have hpos : 0 < bytes.length := List.length_pos_of_ne_nil hnone
    have hfit : offset + bytes.length ≤
        (content ++ List.replicate (offset + bytes.length - content.length) (0 : Byte)).length := by
      rw [List.length_append, List.length_replicate]
      omega
    rw [if_neg hnone, getElem?_overwrite hfit]
    by_cases hreaches : pos < offset + bytes.length
    · rw [if_pos (show (Change.stored name offset bytes).Reaches name pos from
        ⟨rfl, hpos, hreaches⟩), Change.leaves]
      by_cases hgap : pos < offset
      · -- In front of the bytes stands what was there, or a zero of the gap.
        rw [if_pos hgap, if_neg (by omega), List.getElem?_append]
        split_ifs with hin
        · rw [List.getElem?_eq_getElem hin]
          rfl
        · rw [List.getElem?_eq_none (by omega : content.length ≤ pos), List.getElem?_replicate,
            if_pos (by omega)]
          rfl
      · rw [if_neg hgap, if_pos (by omega)]
    · rw [if_neg (fun h : (Change.stored name offset bytes).Reaches name pos => hreaches h.2.2),
        if_neg (by omega), List.getElem?_append]
      split_ifs with hin
      · rfl
      · rw [List.getElem?_eq_none (by omega : content.length ≤ pos), List.getElem?_replicate,
          if_neg (by omega)]

theorem FileStore.Sound.start : FileStore.start.Sound := by
  refine ⟨rfl, fun i f hf => ?_, fun i j f g hf => ?_, fun path pos => rfl⟩
  · cases hf.1
  · cases hf.1

/-- The content of all files after the changes of one. -/
theorem FileStore.Sound.content_update (h : s.Sound) (path : String) {content : List Byte}
    (changes : List (Change String Byte))
    (hsame : ∀ pos, content[pos]? = lookup 0 path pos (changes ++ s.changes))
    (hother : ∀ other pos, other ≠ path → ∀ change ∈ changes, ¬ change.Reaches other pos)
    (other : String) (pos : ℕ) :
    ((Function.update s.fs.files path (some content) other).getD [])[pos]? =
      lookup 0 other pos (changes ++ s.changes) := by
  by_cases hpath : other = path
  · subst hpath
    rw [Function.update_self]
    exact hsame pos
  · rw [Function.update_of_ne hpath, lookup_append (hother other pos hpath)]
    exact h.content other pos

/-- The content of a file that is there. -/
theorem FileStore.Sound.content_eq (h : s.Sound) {path : String} {content : List Byte}
    (hfile : s.fs.files path = some content) (pos : ℕ) :
    content[pos]? = lookup 0 path pos s.changes := by
  rw [← h.content path pos, hfile, Option.getD_some]

theorem FileStore.Sound.connect (h : s.Sound) {flags : UInt32} {fd : ℤ} {content : List Byte}
    {changes : List (Change String Byte)} (hf : s.object i = some f) (hfd : 0 ≤ fd)
    (hnew : s.fs.fds fd = none) (happend : flags &&& oAppend = 0)
    (hcontent : changes = [.emptied f.path] ∧ content = [] ∨
      changes = [] ∧ s.fs.files f.path = some content) :
    FileStore.Sound ⟨s.objects.set i (some { f with fd := fd }),
      s.fs.connect f.path flags fd content, changes ++ s.changes⟩ := by
  have hused : ∀ j g, s.Opened j g → g.fd ≠ fd := by
    intro j g hg heq
    obtain ⟨d, hd, -⟩ := h.described j g hg
    rw [heq, hnew] at hd
    cases hd
  constructor
  case valid =>
    have hne : File.notOpen ≠ fd := by
      rintro rfl
      exact absurd hfd (by decide)
    exact (Function.update_of_ne hne _ _).trans h.valid
  case described =>
    intro j g hg
    rcases FileStore.opened_set hf hg with ⟨-, hnewg⟩ | ⟨-, hold⟩
    · obtain rfl := Option.some.inj hnewg
      refine ⟨⟨f.path, flags⟩, Function.update_self .., rfl, ?_⟩
      rw [Description.appends, decide_eq_false_iff_not, not_not]
      exact happend
    · obtain ⟨d, hd, hrest⟩ := h.described j g hold
      exact ⟨d, (Function.update_of_ne (hused j g hold) _ _).trans hd, hrest⟩
  case own =>
    intro j k g g' hg hg' heq
    rcases FileStore.opened_set hf hg with ⟨rfl, hnewg⟩ | ⟨-, hold⟩
    · rcases FileStore.opened_set hf hg' with ⟨rfl, -⟩ | ⟨-, hold'⟩
      · rfl
      · obtain rfl := Option.some.inj hnewg
        exact absurd heq.symm (hused k g' hold')
    · rcases FileStore.opened_set hf hg' with ⟨-, hnewg⟩ | ⟨-, hold'⟩
      · obtain rfl := Option.some.inj hnewg
        exact absurd heq (hused j g hold)
      · exact h.own j k g g' hold hold' heq
  case content =>
    rcases hcontent with ⟨rfl, rfl⟩ | ⟨rfl, hfile⟩
    · refine h.content_update f.path [.emptied f.path] (fun pos => ?_)
        fun other pos hne change hchange hreaches => ?_
      · have hreaches : (Change.emptied f.path : Change String Byte).Reaches f.path pos := rfl
        exact (lookup_cons_of_reaches hreaches).symm
      · obtain rfl := List.mem_singleton.mp hchange
        exact hne hreaches.symm
    · exact h.content_update f.path [] (fun pos => h.content_eq hfile pos)
        fun _ _ _ _ hchange => absurd hchange (List.not_mem_nil)

theorem FileStore.Sound.close (h : s.Sound) (hf : s.object i = some f)
    (hopen : f.fd ≠ File.notOpen) :
    FileStore.Sound ⟨s.objects.set i (some { f with fd := File.notOpen }),
      { s.fs with fds := Function.update s.fs.fds f.fd none }, s.changes⟩ := by
  -- What is still open was open before, and it is another object.
  have hothers : ∀ j g, FileStore.Opened ⟨s.objects.set i (some { f with fd := File.notOpen }),
      { s.fs with fds := Function.update s.fs.fds f.fd none }, s.changes⟩ j g →
      j ≠ i ∧ s.Opened j g := by
    intro j g hg
    rcases FileStore.opened_set hf hg with ⟨-, hclosed⟩ | hold
    · obtain rfl := Option.some.inj hclosed
      exact absurd rfl hg.2
    · exact hold
  constructor
  case valid =>
    exact (Function.update_of_ne hopen.symm _ _).trans h.valid
  case described =>
    intro j g hg
    obtain ⟨hne, hold⟩ := hothers j g hg
    obtain ⟨d, hd, hrest⟩ := h.described j g hold
    have hother : g.fd ≠ f.fd := fun heq => hne (h.own j i g f hold ⟨hf, hopen⟩ heq)
    exact ⟨d, (Function.update_of_ne hother _ _).trans hd, hrest⟩
  case own =>
    intro j k g g' hg hg' heq
    exact h.own j k g g' (hothers j g hg).2 (hothers k g' hg').2 heq
  case content => exact h.content

theorem FileStore.Sound.write (h : s.Sound) {d : Description} {content : List Byte}
    (bytes : List Byte) (offset : ℕ) (hf : s.object i = some f) (hd : s.fs.fds f.fd = some d)
    (hcontent : s.fs.files d.path = some content) :
    FileStore.Sound ⟨s.objects,
      { s.fs with
        files := Function.update s.fs.files d.path
          (some (writeAt content (if d.appends then content.length else offset) bytes)) },
      .stored f.path offset bytes :: s.changes⟩ := by
  have hopen : f.fd ≠ File.notOpen := by
    intro hclosed
    rw [hclosed, h.valid] at hd
    cases hd
  obtain ⟨d', hd', hpath, happends⟩ := h.described i f ⟨hf, hopen⟩
  obtain rfl : d' = d := Option.some.inj (hd'.symm.trans hd)
  rw [happends]
  refine ⟨h.valid, h.described, h.own, ?_⟩
  refine h.content_update d'.path [.stored f.path offset bytes] (fun pos => ?_)
    fun other pos hne change hchange hreaches => ?_
  · show (writeAt content offset bytes)[pos]? = _
    rw [getElem?_writeAt content bytes f.path, h.content_eq hcontent pos, hpath]
    rfl
  · obtain rfl := List.mem_singleton.mp hchange
    exact hne (hpath ▸ hreaches.1.symm)

theorem FileStore.Sound.step (h : s.Sound) (hmoves : s.Moves s') : s'.Sound := by
  cases hmoves with
  | construct path =>
      exact ⟨h.valid, fun i f hf => h.described i f (FileStore.opened_construct hf),
        fun i j f g hf hg => h.own i j f g (FileStore.opened_construct hf)
          (FileStore.opened_construct hg), h.content⟩
  | throws => exact h
  | connect i f flags fd content changes hf hclosed hfd hnew happend hcontent =>
      exact h.connect hf hfd hnew happend hcontent
  | close i f hf hopen => exact h.close hf hopen
  | write i f d content bytes offset hf hd hcontent => exact h.write bytes offset hf hd hcontent
  | destroy i f hf hclosed =>
      have hothers : ∀ j g,
          FileStore.Opened { s with objects := s.objects.set i none } j g → s.Opened j g := by
        intro j g hg
        rcases FileStore.opened_set hf hg with ⟨-, hnone⟩ | ⟨-, hold⟩
        · cases hnone
        · exact hold
      exact ⟨h.valid, fun j g hg => h.described j g (hothers j g hg),
        fun j k g g' hg hg' => h.own j k g g' (hothers j g hg) (hothers k g' hg'), h.content⟩

theorem FileStore.sound_of_run {actions : List FileAction}
    (hrun : Run (FileStore.step strerror) FileStore.Proper FileStore.start actions s) : s.Sound :=
  Run.invariant (P := fun _ s => s.Sound) FileStore.Sound.start
    (fun _ _ _ _ h hproper hstep => h.step (FileStore.moves_of_step hproper hstep)) hrun

end Invariant

/-- A descriptor that open(2) has returned. -/
def opensAs (fd : ℕ) : OpenResult := ⟨fd, 0, .inl (Int.natCast_nonneg fd)⟩

/-- After a failed close(2) that has released the descriptor, a write to the file goes to the one
that was opened next. -/
theorem write_through_released_descriptor : ∃ s,
    Run (FileStore.step fun _ => "") anyAction .start
      [.construct "a", .create 0 oRdwr (opensAs 3), .close 0 (.failed 5 true), .construct "b",
        .create 1 oRdwr (opensAs 3), .write 0 ⟨[[7]], 1, 0⟩ 0 (.wrote 1)] s ∧
    s.fs.files "a" = some [] ∧ s.fs.files "b" = some [7] ∧ lookup 0 "b" 0 s.changes = none :=
  ⟨_, (Run.start : Run (FileStore.step fun _ => "") anyAction .start [] _).follows
    [.construct "a", .create 0 oRdwr (opensAs 3), .close 0 (.failed 5 true), .construct "b",
      .create 1 oRdwr (opensAs 3), .write 0 ⟨[[7]], 1, 0⟩ 0 (.wrote 1)]
    ⟨trivial, _, rfl, trivial, _, rfl, trivial, _, rfl, trivial, _, rfl, trivial, _, rfl, trivial,
      _, rfl, rfl⟩, rfl, rfl, rfl⟩

end Util
end CoherentDB
