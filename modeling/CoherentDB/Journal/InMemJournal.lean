import CoherentDB.Journal.Journal
import CoherentDB.Lib.OrderedTable
import CoherentDB.Util.File
import CoherentDB.Util.MultiBufferValues
import CoherentDB.Util.SyncCalls

/-!
# `in_mem_journal` behind `sync_journal_wrapper`

Any number of threads call `insert` and `erase` of the wrapper.  These are the synchronous calls
of `SyncCalls.lean`: the only worker of the journal executes their requests and calls their
callbacks, which check that they are the callbacks of these requests.  `recover` runs in the
thread that calls it and reads the records with no lock, so that it is only called while nobody
else uses the journal.

`random` chooses the handles, so the handle that ends the loop of an insertion is part of the
action.  The buffers of the callers lie in a heap that does not change while they wait, and there
is memory for every new buffer.

`JournalSpec` is what the journal is for: a finite map, with the calls as its operations one after
the other.
-/

namespace CoherentDB
namespace Journal

open Debug Util Containers

/-- An entry of `contents`; the buffer is kept as its bytes. -/
structure Record where
  owner : UInt32
  handle : UInt32
  data : List Byte
  deriving DecidableEq

def Record.key (record : Record) : Key := (record.owner, record.handle)

/-- The order of the pairs. -/
def keyOrder (key : Key) : ℕ ×ₗ ℕ := toLex (key.1.toNat, key.2.toNat)

/-- `mapt_t`. -/
abbrev Contents := OrderedTable Record fun record => keyOrder record.key

def lookupRecord (contents : Contents) (key : Key) : Option Record :=
  contents.find? (keyOrder key)

/-- A call of `recovery_dispatcher::dispatch`. -/
structure Dispatch where
  owner : UInt32
  handle : UInt32
  buf : MultiBuffer (List Byte)

def Dispatch.key (d : Dispatch) : Key := (d.owner, d.handle)

/-- A `multi_buffer const &`: an address and what lies there. -/
structure BufferRef where
  addr : ℕ
  buf : MultiBuffer BufferId

/-- The calls of the wrapper. -/
inductive Op
  | insert (owner : UInt32) (buf : BufferRef)
  | erase (owner handle : UInt32)
  | recover

/-- What a call gives to its caller. -/
inductive Result
  | inserted (handle : UInt32)
  | erased
  | recovered (dispatched : List Dispatch)

/-- `random` returns values below `2 ^ 31`. -/
def randomBound : ℕ := 2 ^ 31

/-- The loop of `recover`: the multi_buffers that are dispatched. -/
def dispatchAll : List Record → Except Failure (List Dispatch)
  | [] => .ok []
  | record :: rest => do
      let buf ← MultiBuffer.create List.length [record.data] record.data.length 0
      let more ← dispatchAll rest
      return ⟨record.owner, record.handle, buf⟩ :: more

/-! ### The requests and their callbacks -/

/-- The callback object in the wrapper's `insert`. -/
structure InsertCb where
  owner : UInt32
  buf : BufferRef

/-- `insert_success`, up to the call of `complete`; the handle is for the caller. -/
def InsertCb.insertSuccess (cb : InsertCb) (owner : UInt32) (buf : BufferRef) (handle : UInt32) :
    Except Failure UInt32 := do
  dAssert (cb.owner = owner)
  dAssert (cb.buf.addr = buf.addr)
  return handle

/-- The callback object in the wrapper's `erase`. -/
structure EraseCb where
  owner : UInt32
  handle : UInt32

/-- `erase_success`, up to the call of `complete`. -/
def EraseCb.eraseSuccess (cb : EraseCb) (owner handle : UInt32) : Except Failure Unit := do
  dAssert (cb.owner = owner)
  dAssert (cb.handle = handle)

/-- The fields of `insert_req`. -/
structure InMemJournal.InsertReq where
  owner : UInt32
  buf : BufferRef
  cb : InsertCb

/-- The fields of `erase_req`. -/
structure InMemJournal.EraseReq where
  owner : UInt32
  handle : UInt32
  cb : EraseCb

/-- The request that `sync_journal_wrapper::insert` schedules. -/
def insertReq (owner : UInt32) (buf : BufferRef) : InMemJournal.InsertReq :=
  ⟨owner, buf, ⟨owner, buf⟩⟩

/-- The request that `sync_journal_wrapper::erase` schedules. -/
def eraseReq (owner handle : UInt32) : InMemJournal.EraseReq := ⟨owner, handle, ⟨owner, handle⟩⟩

section Execution

variable (heap : Heap) (memory : ℕ → Byte) (contents : Contents)

/-- `insert_req::execute`, whose loop ends with `handle`. -/
def InMemJournal.InsertReq.execute (req : InMemJournal.InsertReq) (handle : UInt32) :
    Effect Contents Result :=
  if handle.toNat < randomBound ∧ lookupRecord contents (req.owner, handle) = none then
    match req.buf.buf.read heap (blockAt memory 0 req.buf.buf.size) 0 with
    | .error _ => .aborts
    | .ok data =>
        match req.cb.insertSuccess req.owner req.buf handle with
        | .error _ => .aborts
        | .ok given => .done (contents.insert ⟨req.owner, handle, data⟩) (.inserted given)
  else .impossible

/-- `erase_req::execute`. -/
def InMemJournal.EraseReq.execute (req : InMemJournal.EraseReq) : Effect Contents Result :=
  if lookupRecord contents (req.owner, req.handle) = none then .aborts
  else
    match req.cb.eraseSuccess req.owner req.handle with
    | .error _ => .aborts
    | .ok () => .done (contents.erase (keyOrder (req.owner, req.handle))) .erased

/-- `recover`. -/
def recover : Effect Contents Result :=
  match dispatchAll contents.entries with
  | .error _ => .aborts
  | .ok dispatched => .done .empty (.recovered dispatched)

end Execution

/-! ### The specification -/

/-- The records of a journal. -/
abbrev JournalSpec := Key → Option (List Byte)

/-- The bytes that a `multi_buffer` shows. -/
def bytesIn (heap : Heap) (buf : MultiBuffer BufferId) : List Byte :=
  ListRange.slice (heap.flat buf.buffers) buf.leftOff buf.size

/-- The calls are possible one after the other with these results on a journal that was empty, and
leave this one: an insertion chooses a handle that its owner does not use, an erasure finds its
record, and a recovery dispatches all records in the order of their keys. -/
inductive JournalSpec.Leaves (heap : Heap) : List (Op × Result) → JournalSpec → Prop
  | empty : Leaves heap [] fun _ => none
  | insert {effects : List (Op × Result)} {m : JournalSpec} (owner handle : UInt32)
      (buf : BufferRef) (h : Leaves heap effects m)
      (hfresh : m (owner, handle) = none) :
      Leaves heap (effects ++ [(.insert owner buf, .inserted handle)])
        (Function.update m (owner, handle) (some (bytesIn heap buf.buf)))
  | erase {effects : List (Op × Result)} {m : JournalSpec} (owner handle : UInt32)
      (h : Leaves heap effects m) (hthere : m (owner, handle) ≠ none) :
      Leaves heap (effects ++ [(.erase owner handle, .erased)])
        (Function.update m (owner, handle) none)
  | recover {effects : List (Op × Result)} {m : JournalSpec} (dispatched : List Dispatch)
      (h : Leaves heap effects m)
      (hsorted : dispatched.Pairwise fun d d' => keyOrder d.key < keyOrder d'.key)
      (hall : ∀ key data, m key = some data ↔
        ∃ d ∈ dispatched, d.key = key ∧ d.buf.content = data) :
      Leaves heap (effects ++ [(.recover, .recovered dispatched)]) fun _ => none

end Journal
end CoherentDB
