import CoherentDB.Util.MultiBuffer

/-!
# Value semantics of `multi_buffer` under copy-on-write

`Store` is a heap of buffers with a family of `multi_buffer`s over it, built by the
constructor and the copy constructor and changed by `write`.  `Store.Sound` is the
invariant: every member fits its buffers, and the reference counts cover all
pointers of all members, whoever else may hold pointers.

Above it stands the purpose of the class: `Access.apply` works on a list of
independent byte arrays.  The theorem of the file says that every sequence of
reads and writes on a reachable store is that sequence on the arrays the members
show, with every byte outside the windows left as it was.
-/

namespace CoherentDB
namespace Util

open Debug MachineInt ListRange

/-- A heap of buffers and the `multi_buffer`s over it. -/
structure Store where
  heap : Heap
  members : List (MultiBuffer BufferId)

/-- New pointers to the buffers of a list. -/
def Heap.retain (h : Heap) (ids : List BufferId) : Heap :=
  { h with useCount := fun id => h.useCount id + ids.count id }

/-- The promises of the constructor's caller: no buffer is empty, the first is longer than
`left_off`, the window fits and all sizes together stay in `uint32_t`. -/
structure MultiBuffer.Fits (h : Heap) (m : MultiBuffer BufferId) : Prop where
  nonempty : ∀ id ∈ m.buffers, 0 < h.getSize id
  front : ∀ id ∈ m.buffers.head?, m.leftOff < h.getSize id
  window : m.leftOff + m.size ≤ (h.flat m.buffers).length
  word : (h.flat m.buffers).length < 2 ^ 32

namespace Store

variable (st : Store)

/-- A vector of pointers to existing buffers goes into a new `multi_buffer`. -/
def construct (ids : List BufferId) (size leftOff : ℕ) : Except Failure Store := do
  let m ← MultiBuffer.create st.heap.getSize ids size leftOff
  return ⟨st.heap.retain ids, st.members ++ [m]⟩

/-- The copy constructor of `multi_buffer`. -/
def copy (m : MultiBuffer BufferId) : Store :=
  ⟨st.heap.retain m.buffers, st.members ++ [m]⟩

/-- `read` on a member. -/
def read (i : ℕ) (buf : List Byte) (off : ℕ) : Except Failure (List Byte) :=
  match st.members[i]? with
  | none => .error .undefinedBehaviour
  | some m => m.read st.heap buf off

/-- `write` on a member. -/
def write (i : ℕ) (buf : List Byte) (off : ℕ) : Except Failure Store :=
  match st.members[i]? with
  | none => .error .undefinedBehaviour
  | some m => do
      let (m', heap) ← m.write st.heap buf off
      return ⟨heap, st.members.set i m'⟩

/-- The byte array that a member shows. -/
def array (m : MultiBuffer BufferId) : List Byte :=
  slice (st.heap.flat m.buffers) m.leftOff m.size

/-- The bytes of a member's buffers before and behind its window. -/
def margin (m : MultiBuffer BufferId) : List Byte × List Byte :=
  ((st.heap.flat m.buffers).take m.leftOff, (st.heap.flat m.buffers).drop (m.leftOff + m.size))

/-- The arrays of all members. -/
def arrays : List (List Byte) := st.members.map st.array

/-- The margins of all members. -/
def margins : List (List Byte × List Byte) := st.members.map st.margin

/-- The stores that can be built over any heap, whatever pointers its counts stand for. -/
inductive Reachable : Store → Prop
  | start (h : Heap) : Reachable ⟨h, []⟩
  | construct {st st' : Store} {ids : List BufferId} {size leftOff : ℕ} (hst : Reachable st)
      (hknown : ∀ id ∈ ids, id < st.heap.next)
      (hfits : MultiBuffer.Fits st.heap ⟨ids, size, leftOff⟩)
      (h : st.construct ids size leftOff = .ok st') : Reachable st'
  | copy {st : Store} {m : MultiBuffer BufferId} (hst : Reachable st) (hm : m ∈ st.members) :
      Reachable (st.copy m)
  | write {st st' : Store} {i off : ℕ} {buf : List Byte} {m : MultiBuffer BufferId}
      (hst : Reachable st) (hm : st.members[i]? = some m) (hfit : off + buf.length ≤ m.size)
      (h : st.write i buf off = .ok st') : Reachable st'

end Store

/-- A read or a write on one member. -/
inductive Access
  | read (i : ℕ) (buf : List Byte) (off : ℕ)
  | write (i : ℕ) (buf : List Byte) (off : ℕ)

namespace Access

/-- The member and the range of an access. -/
def target : Access → ℕ × ℕ × ℕ
  | .read i buf off | .write i buf off => (i, off, buf.length)

/-- The range of an access lies inside the array it is for. -/
def Within (arrays : List (List Byte)) (a : Access) : Prop :=
  ∃ array, arrays[a.target.1]? = some array ∧ a.target.2.1 + a.target.2.2 ≤ array.length

/-- An access on independent arrays: the arrays after it and the bytes it returns. -/
def apply (arrays : List (List Byte)) : Access → List (List Byte) × List Byte
  | .read i buf off => (arrays, slice (arrays.getD i []) off buf.length)
  | .write i buf off => (arrays.modify i (fun array => overwrite array off buf), [])

/-- A sequence of accesses on independent arrays. -/
def applyAll (arrays : List (List Byte)) : List Access → List (List Byte) × List (List Byte)
  | [] => (arrays, [])
  | a :: rest =>
      let (arrays', out) := a.apply arrays
      let (arrays'', outs) := applyAll arrays' rest
      (arrays'', out :: outs)

/-- An access on a store. -/
def perform (st : Store) : Access → Except Failure (Store × List Byte)
  | .read i buf off => do
      let out ← st.read i buf off
      return (st, out)
  | .write i buf off => do
      let st' ← st.write i buf off
      return (st', [])

/-- A sequence of accesses on a store. -/
def performAll (st : Store) : List Access → Except Failure (Store × List (List Byte))
  | [] => .ok (st, [])
  | a :: rest => do
      let (st', out) ← a.perform st
      let (st'', outs) ← performAll st' rest
      return (st'', out :: outs)

end Access

/-- The number of pointers to a buffer in a family. -/
def pointers (members : List (MultiBuffer BufferId)) (id : BufferId) : ℕ :=
  (members.map fun m => m.buffers.count id).sum

section Pointers

variable {members : List (MultiBuffer BufferId)} {m m' : MultiBuffer BufferId} {i : ℕ}
  {id : BufferId}

theorem pointers_append (l₁ l₂ : List (MultiBuffer BufferId)) (id : BufferId) :
    pointers (l₁ ++ l₂) id = pointers l₁ id + pointers l₂ id := by
  simp [pointers]

theorem pointers_cons (m : MultiBuffer BufferId) (l : List (MultiBuffer BufferId))
    (id : BufferId) : pointers (m :: l) id = m.buffers.count id + pointers l id := by
  simp [pointers]

theorem pointers_pos (hm : m ∈ members) (hid : id ∈ m.buffers) : 0 < pointers members id := by
  have hle : m.buffers.count id ≤ pointers members id :=
    List.single_le_sum (by simp) _ (List.mem_map_of_mem hm)
  exact lt_of_lt_of_le (List.count_pos_iff.mpr hid) hle

/-- The pointers of one member and of the others. -/
theorem pointers_eraseIdx (hm : members[i]? = some m) (id : BufferId) :
    pointers members id = pointers (members.eraseIdx i) id + m.buffers.count id := by
  obtain ⟨hi, rfl⟩ := List.getElem?_eq_some_iff.mp hm
  rw [List.eraseIdx_eq_take_drop_succ, pointers_append]
  conv_lhs => rw [← List.take_append_drop i members, List.drop_eq_getElem_cons hi]
  rw [pointers_append, pointers_cons]
  omega

theorem pointers_set (hm : members[i]? = some m) (m' : MultiBuffer BufferId) (id : BufferId) :
    pointers (members.set i m') id =
      pointers (members.eraseIdx i) id + m'.buffers.count id := by
  obtain ⟨hi, -⟩ := List.getElem?_eq_some_iff.mp hm
  rw [List.eraseIdx_eq_take_drop_succ, List.set_eq_take_append_cons_drop, if_pos hi,
    pointers_append, pointers_append, pointers_cons]
  omega

end Pointers

section Member

variable {h h' : Heap} {m m' : MultiBuffer BufferId} {buf : List Byte} {off : ℕ}

/-- The constructor's assertions pass for buffers that fit. -/
theorem MultiBuffer.Fits.construct {st : Store} {ids : List BufferId} {size leftOff : ℕ}
    (hfits : MultiBuffer.Fits st.heap ⟨ids, size, leftOff⟩) :
    st.construct ids size leftOff =
      .ok ⟨st.heap.retain ids, st.members ++ [⟨ids, size, leftOff⟩]⟩ := by
  have htotal : (ids.map st.heap.getSize).sum = (st.heap.flat ids).length := by
    rw [Heap.flat, List.length_flatten, List.map_map]
    rfl
  have hcreate : MultiBuffer.create st.heap.getSize ids size leftOff =
      .ok ⟨ids, size, leftOff⟩ := by
    apply MultiBuffer.create_of_fits
    · rw [htotal]
      exact hfits.word
    · rw [htotal]
      exact hfits.window
    · exact hfits.front
  rw [Store.construct, hcreate, ok_bind]
  rfl

/-- The loop of `do_rw` starts at the first buffer with the whole request ahead of it. -/
theorem MultiBuffer.Fits.chain (hfits : m.Fits h) : h.Chain m.leftOff m.buffers true 0 :=
  ⟨hfits.nonempty, hfits.front, by rw [Nat.zero_add]; exact hfits.word⟩

theorem MultiBuffer.Fits.cursor (hfits : m.Fits h) (hfit : off + buf.length ≤ m.size) :
    Cursor buf.length off 0 buf.length ∧
      (if true then m.leftOff else 0) + ahead buf.length off 0 buf.length + buf.length
        ≤ (h.flat m.buffers).length := by
  have hwindow := hfits.window
  have hword := hfits.word
  refine ⟨⟨le_rfl, Nat.zero_le _, fun hlt => absurd hlt (lt_irrefl _), by omega⟩, ?_⟩
  simp only [ahead, if_true]
  omega

/-- The entry checks of `do_rw` pass for a request inside the window. -/
theorem MultiBuffer.Fits.checks (hfits : m.Fits h) (hfit : off + buf.length ≤ m.size) :
    addWrap 32 buf.length off ≤ m.size ∧ (buf.length ≠ 0 → m.buffers ≠ []) := by
  have hwindow := hfits.window
  have hword := hfits.word
  constructor
  · rw [addWrap_of_lt (by omega)]
    omega
  · intro hpos hnil
    rw [hnil, Heap.flat_nil, List.length_nil] at hwindow
    omega

/-- **`read` returns the bytes of the window.** -/
theorem MultiBuffer.Fits.read (hfits : m.Fits h) (hfit : off + buf.length ≤ m.size) :
    m.read h buf off =
      .ok (slice (slice (h.flat m.buffers) m.leftOff m.size) off buf.length) := by
  obtain ⟨hcheck, hnonempty⟩ := hfits.checks hfit
  rw [slice_slice hfit]
  rcases Nat.eq_zero_or_pos buf.length with hzero | hpos
  · have hnil : buf = [] := List.length_eq_zero_iff.mp hzero
    subst hnil
    simp only [List.length_nil] at hcheck
    simp [MultiBuffer.read, MultiBuffer.doRw, dAssert_of hcheck, slice]
  · have hwindow := hfits.window
    have hloop := rwLoop_read m.buffers true 0 buf.length buf rfl hfits.chain
      fun _ => hfits.cursor hfit
    have hbytes : (slice (h.flat m.buffers) (m.leftOff + off) buf.length).length = buf.length :=
      length_slice (by omega)
    simp only [ahead, if_true, Nat.sub_self, Nat.add_zero, Nat.sub_zero,
      overwrite_all hbytes] at hloop
    simp only [MultiBuffer.read, MultiBuffer.doRw, dAssert_of hcheck, ok_bind, if_neg hpos.ne',
      dAssert_of (hnonempty hpos.ne'), hloop]
    rfl

/-- **`write` overwrites the bytes of the window** and no buffer that another pointer leads
to. -/
theorem MultiBuffer.Fits.write {refs : BufferId → ℕ} (hfits : m.Fits h)
    (hh : h.Holds refs m.buffers) (hfit : off + buf.length ≤ m.size) :
    ∃ m' h', m.write h buf off = .ok (m', h') ∧ m'.size = m.size ∧ m'.leftOff = m.leftOff ∧
      h'.flat m'.buffers = overwrite (h.flat m.buffers) (m.leftOff + off) buf ∧ m'.Fits h' ∧
      (∀ j, 0 < refs j → h'.data j = h.data j) ∧ h'.Holds refs m'.buffers := by
  obtain ⟨hcheck, hnonempty⟩ := hfits.checks hfit
  have hwindow := hfits.window
  rcases Nat.eq_zero_or_pos buf.length with hzero | hpos
  · have hnil : buf = [] := List.length_eq_zero_iff.mp hzero
    subst hnil
    refine ⟨m, h, ?_, rfl, rfl, (overwrite_nil _ _).symm, hfits, fun _ _ => rfl, hh⟩
    simp only [List.length_nil] at hcheck
    simp only [MultiBuffer.write, MultiBuffer.doRw, List.length_nil, dAssert_of hcheck, ok_bind,
      if_true]
    rfl
  · obtain ⟨ids', h', hloop, hflat, hsizes, hkeep, hheld⟩ :=
      rwLoop_write rfl m.buffers true 0 buf.length h refs hh hfits.chain
        fun _ => hfits.cursor hfit
    simp only [ahead, if_true, Nat.sub_self, Nat.add_zero, Nat.sub_zero, slice_all] at hflat
    have hlength : (h'.flat ids').length = (h.flat m.buffers).length := by
      rw [hflat, length_overwrite (by omega)]
    refine ⟨⟨ids', m.size, m.leftOff⟩, h', ?_, rfl, rfl, hflat, ⟨?_, ?_, ?_, ?_⟩, hkeep, hheld⟩
    · simp only [MultiBuffer.write, MultiBuffer.doRw, dAssert_of hcheck, ok_bind,
        if_neg hpos.ne', dAssert_of (hnonempty hpos.ne'), hloop]
      rfl
    · intro id hid
      have hmem : h'.getSize id ∈ m.buffers.map h.getSize := by
        rw [← hsizes]
        exact List.mem_map_of_mem hid
      obtain ⟨id₀, hid₀, heq⟩ := List.mem_map.mp hmem
      rw [← heq]
      exact hfits.nonempty id₀ hid₀
    · intro id hid
      have hhead : h'.getSize id ∈ (m.buffers.map h.getSize).head? := by
        rw [← hsizes, List.head?_map, Option.mem_def.mp hid]
        rfl
      rw [List.head?_map] at hhead
      obtain ⟨id₀, hid₀, heq⟩ := Option.map_eq_some_iff.mp hhead
      rw [← heq]
      exact hfits.front id₀ hid₀
    · rw [hlength]
      exact hwindow
    · rw [hlength]
      exact hfits.word

/-- A member whose buffers kept their content. -/
theorem MultiBuffer.Fits.congr (hfits : m.Fits h)
    (hsame : ∀ id ∈ m.buffers, h'.data id = h.data id) : m.Fits h' := by
  have hsize : ∀ id ∈ m.buffers, h'.getSize id = h.getSize id := fun id hid => by
    rw [Heap.getSize, Heap.getSize, hsame id hid]
  have hflat := Heap.flat_congr hsame
  refine ⟨fun id hid => ?_, fun id hid => ?_, ?_, ?_⟩
  · rw [hsize id hid]
    exact hfits.nonempty id hid
  · rw [hsize id (List.mem_of_mem_head? hid)]
    exact hfits.front id hid
  · rw [hflat]
    exact hfits.window
  · rw [hflat]
    exact hfits.word

end Member

/-- The invariant of a store. -/
structure Store.Sound (st : Store) : Prop where
  fits : ∀ m ∈ st.members, m.Fits st.heap
  count : ∀ id, pointers st.members id ≤ st.heap.useCount id
  known : ∀ id, 0 < pointers st.members id → id < st.heap.next

section Steps

variable {st st' : Store} {i off : ℕ} {buf : List Byte} {m : MultiBuffer BufferId}

/-- A view of all members after one of them was replaced. -/
theorem map_set_eq_modify {α β : Type} {l : List α} {x x' : α} {view view' : α → β} {f : β → β}
    (hx : l[i]? = some x) (hself : view' x' = f (view x))
    (hother : ∀ j y, j ≠ i → l[j]? = some y → view' y = view y) :
    (l.set i x').map view' = (l.map view).modify i f := by
  obtain ⟨hi, hxi⟩ := List.getElem?_eq_some_iff.mp hx
  apply List.ext_getElem?
  intro j
  rw [List.getElem?_map, List.getElem?_set, List.getElem?_modify, List.getElem?_map]
  by_cases hj : i = j
  · subst hj
    simp [hi, hxi, hself]
  · rw [if_neg hj]
    cases hy : l[j]? with
    | none => rfl
    | some y => simp [hj, hother j y (fun heq => hj heq.symm) hy]

/-- A new member over existing buffers. -/
theorem Store.Sound.add (h : st.Sound) (hknown : ∀ id ∈ m.buffers, id < st.heap.next)
    (hfits : m.Fits st.heap) : Store.Sound ⟨st.heap.retain m.buffers, st.members ++ [m]⟩ := by
  have hpointers : ∀ id, pointers (st.members ++ [m]) id =
      pointers st.members id + m.buffers.count id := by
    intro id
    rw [pointers_append, pointers_cons]
    rfl
  refine ⟨fun m' hm' => ?_, fun id => ?_, fun id hid => ?_⟩
  · rcases List.mem_append.mp hm' with hm' | hm'
    · exact (h.fits m' hm').congr fun _ _ => rfl
    · rw [List.mem_singleton.mp hm']
      exact hfits.congr fun _ _ => rfl
  · rw [hpointers]
    exact Nat.add_le_add_right (h.count id) _
  · rw [hpointers] at hid
    rcases Nat.eq_zero_or_pos (pointers st.members id) with hzero | hpos
    · exact hknown id (List.count_pos_iff.mp (by omega))
    · exact h.known id hpos

/-- Seen from one member, the pointers of the others are held elsewhere. -/
theorem Store.Sound.holds_member (h : st.Sound) (hm : st.members[i]? = some m) :
    st.heap.Holds (pointers (st.members.eraseIdx i)) m.buffers := by
  constructor
  · intro id
    rw [← pointers_eraseIdx hm]
    exact h.count id
  · intro id hid
    apply h.known id
    rw [pointers_eraseIdx hm]
    rcases hid with hid | hid
    · omega
    · have := List.count_pos_iff.mpr hid
      omega

/-- **One write**: the member's window is overwritten, its margins and every other member are
as before, and the invariant holds again. -/
theorem Store.Sound.write (h : st.Sound) (hm : st.members[i]? = some m)
    (hfit : off + buf.length ≤ m.size) :
    ∃ st', st.write i buf off = .ok st' ∧ st'.Sound ∧
      st'.arrays = st.arrays.modify i (fun array => overwrite array off buf) ∧
      st'.margins = st.margins := by
  have hmem : m ∈ st.members := List.mem_of_getElem? hm
  have hfits := h.fits m hmem
  have hwindow := hfits.window
  obtain ⟨m', heap, hwrite, hsize, hleft, hflat, hfits', hkeep, hholds'⟩ :=
    hfits.write (h.holds_member hm) hfit
  -- The buffers of every other member have another pointer.
  have hothers : ∀ j m₀, j ≠ i → st.members[j]? = some m₀ →
      ∀ id ∈ m₀.buffers, heap.data id = st.heap.data id := by
    intro j m₀ hne hm₀ id hid
    exact hkeep id (pointers_pos (List.mem_eraseIdx_iff_getElem?.mpr ⟨j, hne, hm₀⟩) hid)
  refine ⟨⟨heap, st.members.set i m'⟩, ?_, ⟨fun m₀ hm₀ => ?_, fun id => ?_, fun id hid => ?_⟩,
    ?_, ?_⟩
  · simp only [Store.write, hm, hwrite, ok_bind]
    rfl
  · obtain ⟨j, hj⟩ := List.mem_iff_getElem?.mp hm₀
    by_cases hji : j = i
    · subst hji
      rw [List.getElem?_set_self (List.getElem?_eq_some_iff.mp hm).1] at hj
      exact Option.some.inj hj ▸ hfits'
    · rw [List.getElem?_set_ne (fun heq => hji heq.symm)] at hj
      exact (h.fits m₀ (List.mem_of_getElem? hj)).congr (hothers j m₀ hji hj)
  · rw [pointers_set hm]
    exact hholds'.count id
  · rw [pointers_set hm] at hid
    refine hholds'.known id ?_
    rcases Nat.eq_zero_or_pos (pointers (st.members.eraseIdx i) id) with hzero | hpos
    · exact Or.inr (List.count_pos_iff.mp (by omega))
    · exact Or.inl hpos
  · apply map_set_eq_modify hm
    · show slice (heap.flat m'.buffers) m'.leftOff m'.size = _
      rw [hflat, hsize, hleft]
      exact slice_overwrite hwindow hfit
    · intro j m₀ hne hm₀
      rw [Store.array, Store.array, Heap.flat_congr (hothers j m₀ hne hm₀)]
  · have hmargins : (st.members.set i m').map (Store.margin ⟨heap, st.members.set i m'⟩) =
        (st.members.map st.margin).modify i id := by
      apply map_set_eq_modify hm
      · show ((heap.flat m'.buffers).take m'.leftOff,
          (heap.flat m'.buffers).drop (m'.leftOff + m'.size)) = st.margin m
        rw [hflat, hsize, hleft, take_overwrite (by omega) (by omega),
          drop_overwrite (by omega) (by omega)]
        rfl
      · intro j m₀ hne hm₀
        rw [Store.margin, Store.margin, Heap.flat_congr (hothers j m₀ hne hm₀)]
    rw [List.modify_id] at hmargins
    exact hmargins

/-- Every reachable store is sound. -/
theorem Store.Reachable.sound (h : st.Reachable) : st.Sound := by
  induction h with
  | start h => exact ⟨by simp, by simp [pointers], by simp [pointers]⟩
  | @construct st st' ids size leftOff hst hknown hfits h ih =>
      rw [hfits.construct] at h
      obtain rfl := Except.ok.inj h
      exact ih.add hknown hfits
  | copy hst hm ih => exact ih.add (fun id hid => ih.known id (pointers_pos hm hid)) (ih.fits _ hm)
  | write hst hm hfit h ih =>
      obtain ⟨st₁, hwrite, hsound, -⟩ := ih.write hm hfit
      obtain rfl := Except.ok.inj (hwrite.symm.trans h)
      exact hsound

/-- An access on a sound store is the access on the arrays it shows. -/
theorem Store.Sound.perform (h : st.Sound) {a : Access} (ha : a.Within st.arrays) :
    ∃ st' out, a.perform st = .ok (st', out) ∧ st'.Sound ∧ (st'.arrays, out) = a.apply st.arrays ∧
      st'.margins = st.margins := by
  obtain ⟨array, harray, hfit⟩ := ha
  rw [Store.arrays, List.getElem?_map] at harray
  obtain ⟨m, hm, rfl⟩ := Option.map_eq_some_iff.mp harray
  have hfits := h.fits m (List.mem_of_getElem? hm)
  have hlength : (st.array m).length = m.size := length_slice hfits.window
  rw [hlength] at hfit
  cases a with
  | read i buf off =>
      have hread : m.read st.heap buf off = .ok (slice (st.array m) off buf.length) :=
        hfits.read hfit
      refine ⟨st, slice (st.array m) off buf.length, ?_, h, ?_, rfl⟩
      · simp only [Access.perform, Store.read, show st.members[i]? = some m from hm, hread, ok_bind]
        rfl
      · simp [Access.apply, Store.arrays, show st.members[i]? = some m from hm]
  | write i buf off =>
      obtain ⟨st', hwrite, hsound, harrays, hmargins⟩ := h.write hm hfit
      refine ⟨st', [], ?_, hsound, ?_, hmargins⟩
      · simp only [Access.perform, show st.write i buf off = .ok st' from hwrite, ok_bind]
        rfl
      · simp only [Access.apply, harrays]
        rfl

/-- Accesses do not change which ranges are inside. -/
theorem Access.Within.apply {arrays : List (List Byte)} {a b : Access} (ha : a.Within arrays)
    (hb : b.Within arrays) : a.Within (b.apply arrays).1 := by
  cases b with
  | read i buf off => exact ha
  | write i buf off =>
      obtain ⟨array, harray, hfit⟩ := ha
      obtain ⟨array', harray', hfit'⟩ := hb
      simp only [Access.target] at harray' hfit'
      by_cases hi : i = a.target.1
      · subst hi
        obtain rfl : array = array' := Option.some.inj (harray.symm.trans harray')
        refine ⟨overwrite array off buf, ?_, ?_⟩
        · simp [Access.apply, harray]
        · rw [length_overwrite hfit']
          exact hfit
      · refine ⟨array, ?_, hfit⟩
        simp only [Access.apply]
        rw [List.getElem?_modify_ne _ _ hi]
        exact harray

end Steps

/-- **`multi_buffer` has value semantics.**  On every reachable store every sequence of reads
and writes inside the members' windows succeeds, returns what the same sequence on independent
byte arrays returns, leaves the members with the arrays that it leaves, and changes no byte
outside a window. -/
theorem multiBuffer_valueSemantics {st : Store} (hst : st.Reachable) (accesses : List Access)
    (hwithin : ∀ a ∈ accesses, a.Within st.arrays) :
    ∃ st' outs, Access.performAll st accesses = .ok (st', outs) ∧
      (st'.arrays, outs) = Access.applyAll st.arrays accesses ∧ st'.margins = st.margins := by
  have hsound := hst.sound
  clear hst
  induction accesses generalizing st with
  | nil => exact ⟨st, [], rfl, rfl, rfl⟩
  | cons a rest ih =>
      have ha := hwithin a List.mem_cons_self
      obtain ⟨st₁, out, hperform, hsound₁, happly, hmargins⟩ := hsound.perform ha
      have harrays : st₁.arrays = (a.apply st.arrays).1 := congrArg Prod.fst happly
      have hout : out = (a.apply st.arrays).2 := congrArg Prod.snd happly
      obtain ⟨st₂, outs, hrun, hall, hmargins₂⟩ := ih
        (fun b hb => harrays ▸ (hwithin b (List.mem_cons_of_mem a hb)).apply ha) hsound₁
      refine ⟨st₂, out :: outs, ?_, ?_, hmargins₂.trans hmargins⟩
      · simp only [Access.performAll, hperform, ok_bind, hrun]
        rfl
      · rw [harrays] at hall
        simp only [Access.applyAll, ← hall, ← hout]

/-- Two `multi_buffer`s, each showing four bytes of one buffer that it lists twice. -/
def sharedStore : Store where
  heap := ((⟨fun _ => [1, 2, 3], fun _ => 0, 1⟩ : Heap).retain [0, 0]).retain [0, 0]
  members := [⟨[0, 0], 4, 1⟩, ⟨[0, 0], 4, 1⟩]

theorem sharedStore_reachable : sharedStore.Reachable := by
  have hfits : MultiBuffer.Fits ⟨fun _ => [1, 2, 3], fun _ => 0, 1⟩ ⟨[0, 0], 4, 1⟩ :=
    ⟨by decide, by decide, by decide, by decide⟩
  have hone := Store.Reachable.construct (Store.Reachable.start _) (by decide) hfits rfl
  exact hone.copy List.mem_cons_self

theorem multiBuffer_valueSemantics_sharedStore :
    ∃ st' outs, Access.performAll sharedStore [.write 0 [8, 9] 1, .read 1 [0, 0] 1] =
        .ok (st', outs) ∧
      (st'.arrays, outs) = ([[2, 8, 9, 2], [2, 3, 1, 2]], [[], [3, 1]]) ∧
      st'.margins = sharedStore.margins := by
  have hwithin : ∀ a ∈ [Access.write 0 [8, 9] 1, .read 1 [0, 0] 1],
      a.Within sharedStore.arrays := by
    intro a ha
    simp only [List.mem_cons, List.not_mem_nil, or_false] at ha
    rcases ha with rfl | rfl
    · exact ⟨[2, 3, 1, 2], by decide, by decide⟩
    · exact ⟨[2, 3, 1, 2], by decide, by decide⟩
  exact multiBuffer_valueSemantics sharedStore_reachable _ hwithin

end Util
end CoherentDB
