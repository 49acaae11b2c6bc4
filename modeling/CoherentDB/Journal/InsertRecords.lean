import CoherentDB.Journal.Journal

/-!
# `journal`: insert requests and their records

`insert_req::execute` takes the next handle, notes the request in `insert_reqs` under its
owner and that handle, and appends a record to `block_buf`.  Where the block has no room,
it writes and clears the block and appends again.

`journal_block` is a parameter here, since the repository has only a body for it that
refuses every record.  What is assumed of it is that an append that returns true stores
the record with exactly the given numbers, and one that returns false stores nothing.

The second attempt passes the handle as the owner and the owner as the handle.  So the
records carry what the requests are registered under exactly if each request finds room
at the first attempt or has its handle as its owner (`insert_records_iff`).
-/

namespace CoherentDB
namespace Journal

open Debug Util Runs

/-- A `journal_record` of an insert, with its data. -/
structure InsertRecord (Buf : Type) where
  owner : UInt32
  handle : UInt32
  buf : Buf
  deriving DecidableEq

/-- `insert_req`; `C` are the callbacks. -/
structure InsertReq (C Buf : Type) where
  owner : UInt32
  buf : Buf
  cb : C
  deriving DecidableEq

/-- An implementation of `journal_block`, with the records that a block holds. -/
structure JournalBlock (Block Buf : Type) where
  appendInsertRecord : Block → UInt32 → UInt32 → Buf → Block × Bool
  readyToSync : Block → Bool
  clear : Block → Block
  records : Block → List (InsertRecord Buf)
  stores : ∀ block owner handle buf, (appendInsertRecord block owner handle buf).2 = true →
    records (appendInsertRecord block owner handle buf).1 =
      records block ++ [⟨owner, handle, buf⟩]
  keeps : ∀ block owner handle buf, (appendInsertRecord block owner handle buf).2 = false →
    records (appendInsertRecord block owner handle buf).1 = records block

/-- A request that has been executed: the handle under which it is in `insert_reqs`, and the
records that its appends have added. -/
structure Insertion (C Buf : Type) where
  request : InsertReq C Buf
  handle : UInt32
  stored : List (InsertRecord Buf)
  deriving DecidableEq

/-- One record was stored, which carries what the request is registered under. -/
def Insertion.Faithful {C Buf : Type} (insertion : Insertion C Buf) : Prop :=
  insertion.stored =
    [⟨insertion.request.owner, insertion.handle, insertion.request.buf⟩]

/-- What `insert_req::execute` uses of the journal; `written` are the blocks that `write_block`
got, and `insertions` is the history of the requests. -/
structure InsertState (C Block Buf : Type) where
  maxHandle : UInt32
  insertReqs : Key → Option (InsertReq C Buf)
  blockBuf : Block
  written : List Block
  insertions : List (Insertion C Buf)

namespace InsertState

variable {C Block Buf : Type} (impl : JournalBlock Block Buf) (s : InsertState C Block Buf)
  (req : InsertReq C Buf)

/-- The records that `after` has and `before` has not, where they were added at the end. -/
def added (before after : Block) : List (InsertRecord Buf) :=
  (impl.records after).drop (impl.records before).length

/-- `insert_req::execute`; the test of `MAX_REC_SIZE` has an empty body. -/
def execute : Except Failure (InsertState C Block Buf) := do
  let handle := s.maxHandle
  let insertReqs := Function.update s.insertReqs (req.owner, handle) (some req)
  let (block, appended) := impl.appendInsertRecord s.blockBuf req.owner handle req.buf
  let sync := impl.readyToSync block || !appended
  let written := if sync then s.written ++ [block] else s.written
  let blockBuf := if sync then impl.clear block else block
  if appended then
    return ⟨s.maxHandle + 1, insertReqs, blockBuf, written,
      s.insertions ++ [⟨req, handle, added impl s.blockBuf block⟩]⟩
  else
    -- The arguments stand the other way round than above.
    let (again, appended) := impl.appendInsertRecord blockBuf handle req.owner req.buf
    -- `r_assert`
    dAssert (appended = true)
    return ⟨s.maxHandle + 1, insertReqs, again, written,
      s.insertions ++
        [⟨req, handle, added impl s.blockBuf block ++ added impl blockBuf again⟩]⟩

/-- One request of the journal thread; none where the assertion fails. -/
def step : Option (InsertState C Block Buf) := (s.execute impl req).toOption

/-- The block has room for the record of the request. -/
def HasRoom : Prop :=
  (impl.appendInsertRecord s.blockBuf req.owner s.maxHandle req.buf).2 = true

/-- The request finds room, or it has the handle that it gets as its owner. -/
def RoomOrSame : Prop := s.HasRoom impl req ∨ req.owner = s.maxHandle

end InsertState

section Execution

variable {C Block Buf : Type} {impl : JournalBlock Block Buf} {s s' : InsertState C Block Buf}
  {req : InsertReq C Buf}

theorem InsertState.added_of_true {block : Block} {owner handle : UInt32} {buf : Buf}
    (h : (impl.appendInsertRecord block owner handle buf).2 = true) :
    added impl block (impl.appendInsertRecord block owner handle buf).1 =
      [⟨owner, handle, buf⟩] := by
  rw [added, impl.stores _ _ _ _ h, List.drop_left]

theorem InsertState.added_of_false {block : Block} {owner handle : UInt32} {buf : Buf}
    (h : (impl.appendInsertRecord block owner handle buf).2 = false) :
    added impl block (impl.appendInsertRecord block owner handle buf).1 = [] := by
  rw [added, impl.keeps _ _ _ _ h, List.drop_length]

/-- What a request does that passes the assertion: it is registered under its owner and the next
handle, and one record is stored for it, with the two numbers swapped where the block had no
room. -/
theorem InsertState.step_cases (hstep : s.step impl req = some s') :
    s'.maxHandle = s.maxHandle + 1 ∧
      s'.insertReqs = Function.update s.insertReqs (req.owner, s.maxHandle) (some req) ∧
      (s.HasRoom impl req ∧ s'.insertions =
          s.insertions ++ [⟨req, s.maxHandle, [⟨req.owner, s.maxHandle, req.buf⟩]⟩] ∨
        ¬ s.HasRoom impl req ∧ s'.insertions =
          s.insertions ++ [⟨req, s.maxHandle, [⟨s.maxHandle, req.owner, req.buf⟩]⟩]) := by
  have hok := toOption_eq_some.mp hstep
  simp only [InsertState.execute] at hok
  cases hroom : (impl.appendInsertRecord s.blockBuf req.owner s.maxHandle req.buf).2 with
  | true =>
      simp only [hroom, if_true] at hok
      cases hok
      refine ⟨rfl, rfl, Or.inl ⟨hroom, ?_⟩⟩
      rw [InsertState.added_of_true hroom]
  | false =>
      simp only [hroom, Bool.false_eq_true, if_false] at hok
      obtain ⟨hagain, hok⟩ := dAssert_bind_ok hok
      cases hok
      refine ⟨rfl, rfl, Or.inr ⟨?_, ?_⟩⟩
      · rw [InsertState.HasRoom, hroom]
        decide
      · rw [InsertState.added_of_false hroom, InsertState.added_of_true hagain, List.nil_append]

/-- The record of a request is faithful exactly if the request finds room or its two numbers are the
same. -/
theorem InsertState.step_insertion (hstep : s.step impl req = some s') :
    ∃ insertion, s'.insertions = s.insertions ++ [insertion] ∧ insertion.request = req ∧
      s'.insertReqs =
        Function.update s.insertReqs (req.owner, insertion.handle) (some req) ∧
      (insertion.Faithful ↔ s.RoomOrSame impl req) := by
  obtain ⟨-, hreqs, ⟨hroom, hnew⟩ | ⟨hroom, hnew⟩⟩ := InsertState.step_cases hstep
  · exact ⟨_, hnew, rfl, hreqs, fun _ => Or.inl hroom, fun _ => rfl⟩
  · refine ⟨_, hnew, rfl, hreqs, fun hfaithful => ?_, fun hor => ?_⟩
    · simp only [Insertion.Faithful, List.cons.injEq, InsertRecord.mk.injEq] at hfaithful
      exact Or.inr hfaithful.1.2.1
    · have hsame := hor.resolve_left hroom
      simp [Insertion.Faithful, hsame]

end Execution

/-- **When records carry what their requests are registered under.**  For every sequence of insert
requests from any state of the journal, there is one insertion for each of them, and `insert_reqs`
has it under its owner and the handle of the insertion.  All insertions are faithful exactly if
every request finds room in the block or has its handle as its owner. -/
theorem insert_records_iff {C Block Buf : Type} (impl : JournalBlock Block Buf)
    {s s' : InsertState C Block Buf} (reqs : List (InsertReq C Buf))
    (hrun : Follows (InsertState.step impl) anyAction s reqs s') :
    ∃ insertions, s'.insertions = s.insertions ++ insertions ∧
      insertions.map Insertion.request = reqs ∧
      s'.insertReqs = insertions.foldl (fun insertReqs insertion =>
        Function.update insertReqs (insertion.request.owner, insertion.handle)
          (some insertion.request)) s.insertReqs ∧
      ((∀ insertion ∈ insertions, insertion.Faithful) ↔
        Follows (InsertState.step impl) (InsertState.RoomOrSame impl) s reqs s') := by
  induction reqs generalizing s with
  | nil =>
      obtain rfl := hrun
      refine ⟨[], (List.append_nil _).symm, rfl, rfl, fun _ => rfl, fun _ _ hmem => ?_⟩
      cases hmem
  | cons req rest ih =>
      obtain ⟨-, s₁, hstep, hrest⟩ := hrun
      obtain ⟨first, hfirst, hreq, hmap, hfaithful⟩ := InsertState.step_insertion hstep
      obtain ⟨later, hlater, hreqs, hmaps, hiff⟩ := ih hrest
      refine ⟨first :: later, ?_, ?_, ?_, ?_⟩
      · rw [hlater, hfirst, List.append_assoc]
        rfl
      · rw [List.map_cons, hreq, hreqs]
      · rw [hmaps, hmap, List.foldl_cons, hreq]
      · rw [List.forall_mem_cons, hfaithful, hiff]
        constructor
        · rintro ⟨hallowed, hfollows⟩
          exact ⟨hallowed, s₁, hstep, hfollows⟩
        · rintro ⟨hallowed, s₂, hstep', hfollows⟩
          obtain rfl := Option.some.inj (hstep.symm.trans hstep')
          exact ⟨hallowed, hfollows⟩

/-- Blocks with room for one record. -/
def oneRecordBlock : JournalBlock (List (InsertRecord ℕ)) ℕ where
  appendInsertRecord block owner handle buf :=
    if block = [] then ([⟨owner, handle, buf⟩], true) else (block, false)
  readyToSync _ := false
  clear _ := []
  records block := block
  stores block owner handle buf h := by
    split_ifs at h ⊢ with hempty
    rw [hempty]
    rfl
  keeps block owner handle buf h := by
    split_ifs at h ⊢ with hempty
    rfl

/-- A journal with an empty block that gives out the handles from 3 on. -/
def emptyBlock : InsertState ℕ (List (InsertRecord ℕ)) ℕ := ⟨3, fun _ => none, [], [], []⟩

/-- The owner 5 finds room; the owner 4 finds none, but gets the handle 4. -/
theorem insert_records_iff_same_numbers :
    ∃ s, Follows (InsertState.step oneRecordBlock) anyAction emptyBlock
        [⟨5, 70, 0⟩, ⟨4, 71, 0⟩] s ∧
      ∀ insertion ∈ s.insertions, insertion.Faithful := by
  have hrun : Follows (InsertState.step oneRecordBlock) (InsertState.RoomOrSame oneRecordBlock)
      emptyBlock [⟨5, 70, 0⟩, ⟨4, 71, 0⟩] _ :=
    ⟨Or.inl rfl, _, rfl, Or.inr rfl, _, rfl, rfl⟩
  have hany : Follows (InsertState.step oneRecordBlock) anyAction
      emptyBlock [⟨5, 70, 0⟩, ⟨4, 71, 0⟩] _ :=
    ⟨trivial, _, rfl, trivial, _, rfl, rfl⟩
  obtain ⟨insertions, hinsertions, -, -, hiff⟩ := insert_records_iff oneRecordBlock _ hany
  refine ⟨_, hany, ?_⟩
  rw [hinsertions]
  exact hiff.mpr hrun

/-- The second request of the owner 5 gets the handle 4 and finds no room; its record has the owner
4 and the handle 5. -/
theorem retry_swaps_owner_and_handle :
    ∃ s insertion, Follows (InsertState.step oneRecordBlock) anyAction emptyBlock
        [⟨5, 70, 0⟩, ⟨5, 71, 0⟩] s ∧
      insertion ∈ s.insertions ∧ insertion.request = ⟨5, 71, 0⟩ ∧ insertion.handle = 4 ∧
      insertion.stored = [⟨4, 5, 71⟩] ∧ ¬ insertion.Faithful := by
  refine ⟨_, ⟨⟨5, 71, 0⟩, 4, [⟨4, 5, 71⟩]⟩, ⟨trivial, _, rfl, trivial, _, rfl, rfl⟩,
    List.mem_cons_of_mem _ (List.mem_singleton_self _), rfl, rfl, rfl, ?_⟩
  simp [Insertion.Faithful]

end Journal
end CoherentDB
