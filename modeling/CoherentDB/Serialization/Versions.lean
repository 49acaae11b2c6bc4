import CoherentDB.Serialization.Truncation

/-!
# Structs with versions

`for_each(f, v)` of a struct visits the members that the struct has in version `v`.  The one for
encoding is const; the one for decoding may also assign to members that the version lacks, and
may pass a version on to a member.  The codec of a struct does nothing but call it, for every byte
order and with the optimizers.

So only the visited values are written, one after the other, and nothing of the structs or of
their versions.  What was written by the calls of one program is read by those of another one as
soon as the types agree that the two visit, whatever the structs, and `Take` says with which
results.
-/

namespace CoherentDB
namespace Serialization

open Debug Util

/-- A member of a struct. -/
structure Member (α β : Type) where
  get : α → β
  set : β → α → α

/-- What `for_each` does with an object, for one version. -/
inductive Visits : Type → Type 1
  | done {α : Type} : Visits α
  /-- `f(x_)` for a member that is no struct with versions. -/
  | member {α β : Type} (t : Serializable β) (m : Member α β) (rest : Visits α) : Visits α
  /-- `f(x_, v)`, with the `for_each` of the member for `v`. -/
  | struct {α β : Type} (body : Visits β) (m : Member α β) (rest : Visits α) : Visits α
  /-- An assignment to members. -/
  | assign {α : Type} (g : α → α) (rest : Visits α) : Visits α

/-- A value that is written. -/
structure Sent where
  {α : Type}
  type : Serializable α
  value : α

namespace Visits

/-- `Codec<T>::encode(enc, x, v)`, which is `x.for_each(enc, v)`. -/
def encode (c : Codec) : {α : Type} → Visits α → α → List Operation
  | _, .done, _ => []
  | _, .member t m rest, x => Serialization.encode c t (m.get x) ++ encode c rest x
  | _, .struct body m rest, x => encode c body (m.get x) ++ encode c rest x
  | _, .assign g rest, x => encode c rest (g x)

/-- `Codec<T>::decode(dec, x, v)`, which is `x.for_each(dec, v)`. -/
def decode {σ : Type} (d : Decoder σ) (fresh : {α : Type} → Serializable α → α) (c : Codec) :
    {α : Type} → Visits α → α → σ → Except DecodeError (α × σ)
  | _, .done, x, s => .ok (x, s)
  | _, .member t m rest, x, s => do
      let (y, s) ← Serialization.decode d fresh c t (m.get x) s
      decode d fresh c rest (m.set y x) s
  | _, .struct body m rest, x, s => do
      let (y, s) ← decode d fresh c body (m.get x) s
      decode d fresh c rest (m.set y x) s
  | _, .assign g rest, x, s => decode d fresh c rest (g x) s

/-- The values that are visited in an object. -/
def sent : {α : Type} → Visits α → α → List Sent
  | _, .done, _ => []
  | _, .member t m rest, x => ⟨t, m.get x⟩ :: sent rest x
  | _, .struct body m rest, x => sent body (m.get x) ++ sent rest x
  | _, .assign g rest, x => sent rest (g x)

/-- The visits store these values in an object and leave another one. -/
inductive Take : {α : Type} → Visits α → α → List Sent → α → Prop
  | done {α : Type} {x : α} : Take .done x [] x
  | member {α β : Type} {t : Serializable β} {m : Member α β} {rest : Visits α} {x x' : α} {y : β}
      {values : List Sent} (hrest : Take rest (m.set y x) values x') :
      Take (.member t m rest) x (⟨t, y⟩ :: values) x'
  | struct {α β : Type} {body : Visits β} {m : Member α β} {rest : Visits α} {x x' : α} {y : β}
      {first values : List Sent} (hbody : Take body (m.get x) first y)
      (hrest : Take rest (m.set y x) values x') :
      Take (.struct body m rest) x (first ++ values) x'
  | assign {α : Type} {g : α → α} {rest : Visits α} {x x' : α} {values : List Sent}
      (hrest : Take rest (g x) values x') : Take (.assign g rest) x values x'

end Visits

/-- A call of an encoder with a value, or of a decoder with a variable that has it: of a type
without versions, or of a struct with the visits of its version. -/
inductive Call : Type 1
  | plain {α : Type} (t : Serializable α) (x : α)
  | versioned {α : Type} (body : Visits α) (x : α)

namespace Call

/-- `enc(x)` or `enc(x, v)`. -/
def encode (c : Codec) : Call → List Operation
  | .plain t x => Serialization.encode c t x
  | .versioned body x => body.encode c x

/-- `dec(x)` or `dec(x, v)`, with the variable after the call. -/
def decode {σ : Type} (d : Decoder σ) (fresh : {α : Type} → Serializable α → α) (c : Codec)
    (call : Call) (s : σ) : Except DecodeError (Call × σ) :=
  match call with
  | .plain t x => (Serialization.decode d fresh c t x s).map fun (y, s) => (.plain t y, s)
  | .versioned body x => (body.decode d fresh c x s).map fun (y, s) => (.versioned body y, s)

def sent : Call → List Sent
  | .plain t x => [⟨t, x⟩]
  | .versioned body x => body.sent x

/-- A call of a decoder stores these values in its variable. -/
inductive Take : Call → List Sent → Call → Prop
  | plain {α : Type} {t : Serializable α} {x y : α} : Take (.plain t x) [⟨t, y⟩] (.plain t y)
  | versioned {α : Type} {body : Visits α} {x y : α} {values : List Sent}
      (hbody : body.Take x values y) : Take (.versioned body x) values (.versioned body y)

/-- `enc(x)(y, v)...`. -/
def encodeAll (c : Codec) (calls : List Call) : List Operation := calls.flatMap (encode c)

/-- `dec(x)(y, v)...`, up to the first exception. -/
def decodeAll {σ : Type} (d : Decoder σ) (fresh : {α : Type} → Serializable α → α) (c : Codec) :
    List Call → σ → Except DecodeError (List Call × σ)
  | [], s => .ok ([], s)
  | call :: rest, s => do
      let (call, s) ← call.decode d fresh c s
      let (rest, s) ← decodeAll d fresh c rest s
      return (call :: rest, s)

/-- The calls of a decoder store these values in their variables, each call those that the ones
before it leave. -/
inductive TakeAll : List Call → List Sent → List Call → Prop
  | nil : TakeAll [] [] []
  | cons {call call' : Call} {calls calls' : List Call} {first values : List Sent}
      (hcall : Take call first call') (hrest : TakeAll calls values calls') :
      TakeAll (call :: calls) (first ++ values) (call' :: calls')

end Call

section Writing

variable (c : Codec)

/-- What is written for a list of values. -/
def encodeSent (values : List Sent) : List Operation :=
  values.flatMap fun value => encode c value.type value.value

theorem encodeSent_append (a b : List Sent) :
    encodeSent c (a ++ b) = encodeSent c a ++ encodeSent c b :=
  List.flatMap_append

theorem encodeSent_cons (value : Sent) (values : List Sent) :
    encodeSent c (value :: values) = encode c value.type value.value ++ encodeSent c values :=
  List.flatMap_cons

theorem Visits.encode_eq {α : Type} (body : Visits α) (x : α) :
    body.encode c x = encodeSent c (body.sent x) := by
  induction body with
  | done => rfl
  | member t m rest ih => rw [Visits.encode, Visits.sent, encodeSent_cons, ih]
  | struct body m rest ihbody ihrest =>
      rw [Visits.encode, Visits.sent, encodeSent_append, ihbody, ihrest]
  | assign g rest ih => exact ih (g x)

theorem Call.encode_eq (call : Call) : call.encode c = encodeSent c call.sent := by
  cases call with
  | plain t x => rw [Call.encode, Call.sent, encodeSent_cons, encodeSent, List.flatMap_nil,
      List.append_nil]
  | versioned body x => exact body.encode_eq c x

theorem Call.encodeAll_eq (calls : List Call) :
    Call.encodeAll c calls = encodeSent c (calls.flatMap Call.sent) := by
  induction calls with
  | nil => rfl
  | cons call calls ih =>
      rw [Call.encodeAll, List.flatMap_cons, List.flatMap_cons, encodeSent_append, call.encode_eq]
      exact congrArg _ ih

end Writing

section Reading

variable {σ : Type} {d : Decoder σ} (fresh : {α : Type} → Serializable α → α) (c : Codec)
  {s : σ} {r : Except DecodeError σ} {values : List Sent}

/-- The visits replay the operations for the values that they take. -/
theorem Visits.decode_of_replay {α : Type} {body : Visits α} {x x' : α}
    (htake : body.Take x values x') (hsmall : ∀ value ∈ values, value.type.Small value.value)
    (h : Replay d (encodeSent c values) s r) : body.decode d fresh c x s = withState x' r := by
  induction htake generalizing s r with
  | done =>
      cases h
      rfl
  | @member α β t m rest x x' y values hrest ih =>
      rw [encodeSent_cons] at h
      obtain ⟨hy, hvalues⟩ := List.forall_mem_cons.mp hsmall
      exact Replay.bind h (fun q hq => Serialization.decode_of_replay fresh c t y hy _ s q hq)
        fun s' hs' => ih hvalues hs'
  | struct hbody hrest ihbody ihrest =>
      rw [encodeSent_append] at h
      have hfirst := fun value hvalue => hsmall value (List.mem_append_left _ hvalue)
      have hlater := fun value hvalue => hsmall value (List.mem_append_right _ hvalue)
      exact Replay.bind h (fun q hq => ihbody hfirst hq) fun s' hs' => ihrest hlater hs'
  | assign hrest ih => exact ih hsmall h

theorem Call.decode_of_replay {call call' : Call} (htake : call.Take values call')
    (hsmall : ∀ value ∈ values, value.type.Small value.value)
    (h : Replay d (encodeSent c values) s r) :
    call.decode d fresh c s = r.map fun s' => (call', s') := by
  cases htake with
  | @plain α t x y =>
      rw [encodeSent_cons, encodeSent, List.flatMap_nil, List.append_nil] at h
      rw [Call.decode, Serialization.decode_of_replay fresh c t y
        (hsmall _ (List.mem_singleton_self _)) x s r h]
      cases r <;> rfl
  | @versioned α body x y values hbody =>
      rw [Call.decode, Visits.decode_of_replay fresh c hbody hsmall h]
      cases r <;> rfl

/-- **The calls of a decoder replay those of an encoder** that have sent the values they take. -/
theorem Call.decodeAll_of_replay {calls calls' : List Call} (htake : TakeAll calls values calls')
    (hsmall : ∀ value ∈ values, value.type.Small value.value)
    (h : Replay d (encodeSent c values) s r) :
    decodeAll d fresh c calls s = r.map fun s' => (calls', s') := by
  induction htake generalizing s with
  | nil =>
      cases h
      rfl
  | @cons call call' calls calls' first values hcall hrest ih =>
      rw [encodeSent_append] at h
      have hfirst := fun value hvalue => hsmall value (List.mem_append_left _ hvalue)
      have hlater := fun value hvalue => hsmall value (List.mem_append_right _ hvalue)
      obtain ⟨s', hreplay, hothers⟩ | ⟨e, rfl, hreplay⟩ := h.append
      · rw [decodeAll, Call.decode_of_replay fresh c hcall hfirst hreplay]
        show (decodeAll d fresh c calls s' >>= fun p => .ok (call' :: p.1, p.2)) = _
        rw [ih hlater hothers]
        cases r <;> rfl
      · rw [decodeAll, Call.decode_of_replay fresh c hcall hfirst hreplay]
        rfl

end Reading

/-- What `buffer_encoder` makes of these calls, starting with an empty buffer. -/
def Call.bufferEncodeAll (c : Codec) (calls : List Call) : List Byte :=
  (Call.encodeAll c calls).foldl bufferEncoder []

theorem Call.bufferEncodeAll_eq (c : Codec) (calls : List Call) :
    Call.bufferEncodeAll c calls = bytesOf (encodeSent c (calls.flatMap Call.sent)) := by
  rw [Call.bufferEncodeAll, foldl_bufferEncoder, List.nil_append, Call.encodeAll_eq]

/-- **Programs with different versions understand each other.**  When the calls that read store
the values that were written, whatever the structs and the versions on the two sides, they return
with these variables and use exactly the bytes that were written; and on a strict prefix of these
bytes they throw `std::out_of_range`. -/
theorem versions_interchange (fresh : {α : Type} → Serializable α → α) (c : Codec)
    {writing reading result : List Call}
    (hsmall : ∀ value ∈ writing.flatMap Call.sent, value.type.Small value.value)
    (htake : Call.TakeAll reading (writing.flatMap Call.sent) result) :
    (∀ rest, Call.decodeAll bufferDecoder fresh c reading
      (Call.bufferEncodeAll c writing ++ rest) = .ok (result, rest)) ∧
    ∀ p, p <+: Call.bufferEncodeAll c writing → p ≠ Call.bufferEncodeAll c writing →
      ∃ what, Call.decodeAll bufferDecoder fresh c reading p = .error (.outOfRange what) := by
  rw [Call.bufferEncodeAll_eq]
  constructor
  · intro rest
    exact Call.decodeAll_of_replay fresh c htake hsmall (replay_bufferDecoder _ rest)
  · intro p hstart hne
    obtain ⟨what, hreplay⟩ := replay_strictPrefix _ hstart hne
    exact ⟨what, Call.decodeAll_of_replay fresh c htake hsmall hreplay⟩

/-! ### The structs of `version_test` -/

namespace VersionTest

/-- `A_old`. -/
structure AOld where
  ax : List Byte
  ay : IntType.uint32.Value

structure A where
  ax : List Byte
  ay : IntType.uint32.Value
  az : IntType.uint64.Value

/-- A `B` remembers the version in which it was read. -/
structure B where
  v : IntType.uint32.Value
  f1 : IntType.int64.Value
  f2 : IntType.int64.Value

/-- Both `for_each` of `A_old`. -/
def AOld.forEach : Visits AOld :=
  .member .string ⟨AOld.ax, fun ax a => { a with ax := ax }⟩ <|
  .member (.int .uint32) ⟨AOld.ay, fun ay a => { a with ay := ay }⟩ .done

/-- The first two visits of all `for_each` of `A`. -/
def A.visitOld (rest : Visits A) : Visits A :=
  .member .string ⟨A.ax, fun ax a => { a with ax := ax }⟩ <|
  .member (.int .uint32) ⟨A.ay, fun ay a => { a with ay := ay }⟩ rest

def A.visitNew : Visits A :=
  .member (.int .uint64) ⟨A.az, fun az a => { a with az := az }⟩ .done

/-- `A::for_each(f, v)`; without a version it is 1. -/
def A.forEach (v : IntType.uint32.Value) : Visits A :=
  A.visitOld (if v ≠ 0 then A.visitNew else .assign (fun a => { a with az := 7 }) .done)

/-- `A::for_each(f) const`. -/
def A.forEachConst : Visits A := A.visitOld A.visitNew

/-- `A::for_each(f, v) const`. -/
def A.forEachConstVersion (v : IntType.uint32.Value) : Visits A :=
  A.visitOld (if v ≠ 0 then A.visitNew else .done)

def B.visitFirst (rest : Visits B) : Visits B :=
  .member (.int .int64) ⟨B.f1, fun f1 b => { b with f1 := f1 }⟩ rest

def B.visitSecond (rest : Visits B) : Visits B :=
  .member (.int .int64) ⟨B.f2, fun f2 b => { b with f2 := f2 }⟩ rest

/-- `B::for_each(f, v)`; without a version it is 2. -/
def B.forEach (v : IntType.uint32.Value) : Visits B :=
  let last : Visits B := .assign (fun b => { b with v := v }) .done
  let second := if 1 < v then B.visitSecond last else .assign (fun b => { b with f2 := -1 }) last
  if 0 < v then B.visitFirst second else .assign (fun b => { b with f1 := -1 }) second

/-- `B::for_each(f) const`. -/
def B.forEachConst : Visits B := B.visitFirst (B.visitSecond .done)

/-- Without a version an `A` is written as of version 1. -/
theorem A.sent_forEachConst (a : A) :
    A.forEachConst.sent a = (A.forEachConstVersion 1).sent a :=
  rfl

/-- An `A_old` is an `A` of version 0. -/
theorem AOld.sent_forEach (a : AOld) (az : IntType.uint64.Value) :
    AOld.forEach.sent a = (A.forEachConstVersion 0).sent ⟨a.ax, a.ay, az⟩ :=
  rfl

/-- What is written in a version is read in it, and where the version has no `az` it is 7. -/
theorem A.take_forEach (v : IntType.uint32.Value) (target a : A) :
    (A.forEach v).Take target ((A.forEachConstVersion v).sent a)
      (if v = 0 then { a with az := 7 } else a) := by
  by_cases hv : v = 0
  · subst hv
    exact .member (.member (.assign .done))
  · rw [A.forEach, A.forEachConstVersion, if_pos hv, if_pos hv, if_neg hv]
    exact .member (.member (.member .done))

/-- A `B` of version `v` is the first `v` members, and -1 takes the place of the others. -/
theorem B.take_forEach (v : IntType.uint32.Value) (target b : B) :
    (B.forEach v).Take target ((B.forEachConst.sent b).take v.toNat)
      ⟨v, if 0 < v then b.f1 else -1, if 1 < v then b.f2 else -1⟩ := by
  have hsent : B.forEachConst.sent b = [⟨.int .int64, b.f1⟩, ⟨.int .int64, b.f2⟩] := rfl
  have hfirst : 0 < v ↔ 0 < v.toNat := BitVec.lt_def
  have hsecond : 1 < v ↔ 1 < v.toNat := BitVec.lt_def
  rcases Nat.lt_trichotomy v.toNat 1 with hlt | heq | hgt
  · have hnone : v.toNat = 0 := by omega
    have hf : ¬ 0 < v := fun h => absurd (hfirst.mp h) (by omega)
    have hs : ¬ 1 < v := fun h => absurd (hsecond.mp h) (by omega)
    rw [B.forEach, if_neg hf, if_neg hs, if_neg hf, if_neg hs, hsent, hnone]
    exact .assign (.assign (.assign .done))
  · have hf : 0 < v := hfirst.mpr (by omega)
    have hs : ¬ 1 < v := fun h => absurd (hsecond.mp h) (by omega)
    rw [B.forEach, if_pos hf, if_neg hs, if_pos hf, if_neg hs, hsent, heq]
    exact .member (.assign (.assign .done))
  · have hf : 0 < v := hfirst.mpr (by omega)
    have hs : 1 < v := hsecond.mpr hgt
    rw [B.forEach, if_pos hf, if_pos hs, if_pos hf, if_pos hs, hsent, List.take_of_length_le hgt]
    exact .member (.member (.assign .done))

/-- An `A_old`, an `A` and an integer, read as an `A` of version 0, an `A` and a `B` of
version 1. -/
theorem versions_interchange_archive :
    Call.decodeAll bufferDecoder Serializable.zero (.plain .little)
      [.versioned (A.forEach 0) ⟨[], 0, 0⟩, .versioned (A.forEach 1) ⟨[], 0, 0⟩,
        .versioned (B.forEach 1) ⟨0, 0, 0⟩]
      (Call.bufferEncodeAll (.plain .little)
        [.versioned AOld.forEach ⟨[120, 121], 111⟩, .versioned A.forEachConst ⟨[122], 113, 251⟩,
          .plain (.int .int64) 10] ++ [7]) =
    .ok ([.versioned (A.forEach 0) ⟨[120, 121], 111, 7⟩,
      .versioned (A.forEach 1) ⟨[122], 113, 251⟩, .versioned (B.forEach 1) ⟨1, 10, -1⟩], [7]) := by
  refine (versions_interchange Serializable.zero (.plain .little) ?_ ?_).1 [7]
  · intro value hvalue
    simp only [List.flatMap_cons, List.flatMap_nil, Call.sent, AOld.forEach, A.forEachConst,
      A.visitOld, A.visitNew, Visits.sent, List.cons_append, List.nil_append, List.mem_cons,
      List.not_mem_nil, or_false] at hvalue
    rcases hvalue with rfl | rfl | rfl | rfl | rfl | rfl
    · show 2 < 2 ^ 32
      decide
    · trivial
    · show 1 < 2 ^ 32
      decide
    · trivial
    · trivial
    · trivial
  · show Call.TakeAll _ (AOld.forEach.sent ⟨[120, 121], 111⟩ ++
      (A.forEachConst.sent ⟨[122], 113, 251⟩ ++ ((B.forEachConst.sent ⟨2, 10, 0⟩).take 1 ++ []))) _
    rw [AOld.sent_forEach _ 0, A.sent_forEachConst]
    exact .cons (.versioned (A.take_forEach 0 _ _)) <|
      .cons (.versioned (A.take_forEach 1 _ _)) <| .cons (.versioned (B.take_forEach 1 _ _)) .nil

end VersionTest

end Serialization
end CoherentDB
