import CoherentDB.NetServer.ThreadPool
import CoherentDB.NetServer.SingleSend

/-!
# The echo server

A chunk that a connection receives becomes a task of the workers: `echo_responder` writes it
back, asks for the next chunk and defers two tasks `t1` that meet at a `join_point`, whose
callback `t2` runs in the second `join`.  Here this is one system for any number of connections
and workers: the `thread_pool`, the `write_queue` of each connection with its socket, and the
join points.

A step is a step of the pool or of a `write_queue`, a completed read, or the next statement of a
task; between two steps of a worker everything else may go on.  A call of `write` returns here
after its critical section, and what it has to do behind that is an activity of the
`write_queue`: a task may go on earlier than in the code, never later.

The properties are laws of conservation: a `Ledger` gives every message, task and join point a
worth so that no step changes the total.
-/

namespace CoherentDB
namespace NetServer

open ListRange Util

/-- What the echo server writes to a connection.  The number tells which join point a message
belongs to; it is not part of the bytes. -/
inductive EchoMessage
  | data (bytes : List Byte)
  | t1Done (joinP : ℕ)
  | joined (joinP : ℕ)
  deriving DecidableEq

/-- The bytes of a string literal, with the zero that ends it. -/
def literalBytes (text : String) : List Byte :=
  text.toList.map (fun c => UInt8.ofNat c.toNat) ++ [0]

/-- The bytes that are passed to `write`; both literals are sent with their final zero. -/
def EchoMessage.bytes : EchoMessage → List Byte
  | .data bytes => bytes
  | .t1Done _ => literalBytes "t1 done\n"
  | .joined _ => literalBytes "2 tasks joined\n"

/-- The message with `EMPTY_WRITE_CALLBACK`. -/
def EchoMessage.message (m : EchoMessage) : Message := ⟨m.bytes, 0⟩

variable {ι : Type}

/-- What is left of a task: the next statement of `echo_responder`, `t1` or `t2`. -/
inductive EchoTask (ι : Type)
  /-- `echo_responder` is called. -/
  | responder (conn : ι) (data : List Byte)
  /-- It is about to call `read`. -/
  | reading (conn : ι)
  /-- It is about to create the join point. -/
  | creating (conn : ι)
  | firstDefer (conn : ι) (joinP : ℕ)
  | secondDefer (conn : ι) (joinP : ℕ)
  /-- `t1` is called. -/
  | t1 (conn : ι) (joinP : ℕ)
  /-- It is about to call `join`. -/
  | joining (conn : ι) (joinP : ℕ)
  /-- `t2` is called, in a `join`. -/
  | t2 (conn : ι) (joinP : ℕ)
  | returning
  deriving DecidableEq

/-- A `connection`: the reads that the socket has not completed and the `out_queue`.
`received` and `wrote` are histories. -/
structure EchoConn where
  accepted : Bool
  reads : ℕ
  received : List (List Byte)
  wrote : List EchoMessage
  out : State
  deriving DecidableEq

/-- The server with the connections `ι`. -/
structure Echo (ι : Type) where
  pool : ThreadPool (EchoTask ι)
  conns : ι → EchoConn
  joinPoints : List (JoinPoint (EchoTask ι))

/-- One step of the system. -/
inductive EchoAction (ι : Type)
  /-- `handle_accept` of a new connection. -/
  | accept (conn : ι)
  /-- A read of the connection completes and `handle_read` is called. -/
  | handleRead (conn : ι) (error : Bool) (data : List Byte)
  /-- A step of the pool on its own. -/
  | pool (action : ThreadPoolAction (EchoTask ι))
  /-- The worker `i` goes on with its task. -/
  | work (i : ℕ)
  /-- A step of the `out_queue` of the connection or of its socket. -/
  | socket (conn : ι) (action : Action)

namespace Echo

variable [DecidableEq ι] (s : Echo ι)

/-- A server with `workersNum` workers, before `run`. -/
def constructed (workersNum : ℤ) : Echo ι :=
  ⟨.constructed workersNum, fun _ => ⟨false, 0, [], [], State.initial⟩, []⟩

def setConn (c : ι) (conn : EchoConn) : Echo ι := { s with conns := Function.update s.conns c conn }

/-- `MAX_BYTES`. -/
def maxBytes : ℕ := 42

/-- `connection::read`. -/
def read (c : ι) : Echo ι := s.setConn c { s.conns c with reads := (s.conns c).reads + 1 }

/-- `connection::write` up to the unlock in `write_queue::write`. -/
def write (c : ι) (m : EchoMessage) : Option (Echo ι) :=
  ((s.conns c).out.step (.write m.message 1)).map fun out =>
    s.setConn c { s.conns c with wrote := (s.conns c).wrote ++ [m], out := out }

/-- `thread_pool::schedule` up to the notification. -/
def schedule (task : EchoTask ι) : Option (Echo ι) :=
  (s.pool.step (.schedule task)).map fun pool => { s with pool := pool }

/-- The next statement of a task, with what is left of the task. -/
def perform : EchoTask ι → Option (Echo ι × EchoTask ι)
  | .responder c data => (s.write c (.data data)).map fun s => (s, .reading c)
  | .reading c => some (s.read c, .creating c)
  | .creating c =>
      let joinP := s.joinPoints.length
      some ({ s with joinPoints := s.joinPoints ++ [⟨2, .t2 c joinP⟩] }, .firstDefer c joinP)
  | .firstDefer c joinP => (s.schedule (.t1 c joinP)).map fun s => (s, .secondDefer c joinP)
  | .secondDefer c joinP => (s.schedule (.t1 c joinP)).map fun s => (s, .returning)
  | .t1 c joinP => (s.write c (.t1Done joinP)).map fun s => (s, .joining c joinP)
  | .joining _ joinP =>
      s.joinPoints[joinP]?.map fun j =>
        ({ s with joinPoints := s.joinPoints.set joinP j.join.1 }, j.join.2.getD .returning)
  | .t2 c joinP => (s.write c (.joined joinP)).map fun s => (s, .returning)
  | .returning => none

/-- The worker `i` goes on with what is left of its task. -/
def goOn (i : ℕ) (task : EchoTask ι) : Option (Echo ι) :=
  (s.pool.step (.goOn i task)).map fun pool => { s with pool := pool }

/-- The steps that the pool takes on its own: a worker returns only from a task that is done, and
nobody calls `interrupt`. -/
def poolMay : ThreadPoolAction (EchoTask ι) → Bool
  | .run | .notify _ | .wakeUp _ => true
  | .advance i =>
      match s.pool.workers[i]? with
      | some ⟨.running task, _⟩ => task = .returning
      | _ => true
  | .interrupt _ | .schedule _ | .goOn _ _ | .unwind _ => false

/-- One step; none where the action is not possible. -/
def step : EchoAction ι → Option (Echo ι)
  | .accept c =>
      -- `echo_acceptor` asks for the first chunk.
      if (s.conns c).accepted then none
      else some ((s.setConn c { s.conns c with accepted := true }).read c)
  | .handleRead c error data =>
      match (s.conns c).reads with
      | 0 => none
      | reads + 1 =>
          if error then some (s.setConn c { s.conns c with reads := reads })
          else if data.length ≤ maxBytes then
            (s.setConn c { s.conns c with
              reads := reads
              received := (s.conns c).received ++ [data] }).schedule (.responder c data)
          else none
  | .pool action =>
      if s.poolMay action then (s.pool.step action).map fun pool => { s with pool := pool }
      else none
  | .work i =>
      match s.pool.workers[i]? with
      | some ⟨.running task, _⟩ => (s.perform task).bind fun (s, task) => s.goOn i task
      | _ => none
  | .socket c action =>
      match action with
      | .write _ _ => none
      | .complete _ _ _ | .advance _ =>
          ((s.conns c).out.step action).map fun out => s.setConn c { s.conns c with out := out }

end Echo

/-! ### What a step does -/

/-- The statements that write. -/
inductive EchoTask.Writes : EchoTask ι → ι → EchoMessage → EchoTask ι → Prop
  | data (c : ι) (data : List Byte) : Writes (.responder c data) c (.data data) (.reading c)
  | t1 (c : ι) (joinP : ℕ) : Writes (.t1 c joinP) c (.t1Done joinP) (.joining c joinP)
  | t2 (c : ι) (joinP : ℕ) : Writes (.t2 c joinP) c (.joined joinP) .returning

/-- The statements that defer a task. -/
inductive EchoTask.Defers : EchoTask ι → EchoTask ι → EchoTask ι → Prop
  | first (c : ι) (joinP : ℕ) :
      Defers (.firstDefer c joinP) (.t1 c joinP) (.secondDefer c joinP)
  | second (c : ι) (joinP : ℕ) : Defers (.secondDefer c joinP) (.t1 c joinP) .returning

section Steps

variable [DecidableEq ι]

/-- All that a step can do, with the pool known by the tasks that are left in it. -/
inductive Echo.Moves (s : Echo ι) : Echo ι → Prop
  | pool (pool : ThreadPool (EchoTask ι)) (htasks : pool.tasks = s.pool.tasks) :
      Moves s { s with pool := pool }
  | returns (pool : ThreadPool (EchoTask ι)) (htasks : pool.tasks + {.returning} = s.pool.tasks) :
      Moves s { s with pool := pool }
  | accept (c : ι) (hnew : (s.conns c).accepted = false) :
      Moves s (s.setConn c
        { s.conns c with accepted := true, reads := (s.conns c).reads + 1 })
  | fails (c : ι) (reads : ℕ) (hreads : (s.conns c).reads = reads + 1) :
      Moves s (s.setConn c { s.conns c with reads := reads })
  | receive (pool : ThreadPool (EchoTask ι)) (c : ι) (reads : ℕ) (data : List Byte)
      (hreads : (s.conns c).reads = reads + 1)
      (htasks : pool.tasks = .responder c data ::ₘ s.pool.tasks) :
      Moves s { s.setConn c { s.conns c with
        reads := reads
        received := (s.conns c).received ++ [data] } with pool := pool }
  | socket (c : ι) (action : Action) (out : State) (haccepted : action.accepted = [])
      (hout : (s.conns c).out.step action = some out) :
      Moves s (s.setConn c { s.conns c with out := out })
  | write (pool : ThreadPool (EchoTask ι)) (c : ι) (m : EchoMessage) (old new : EchoTask ι)
      (out : State) (hwrites : old.Writes c m new)
      (htasks : pool.tasks + {old} = s.pool.tasks + {new})
      (hout : (s.conns c).out.step (.write m.message 1) = some out) :
      Moves s { s.setConn c { s.conns c with
        wrote := (s.conns c).wrote ++ [m]
        out := out } with pool := pool }
  | read (pool : ThreadPool (EchoTask ι)) (c : ι)
      (htasks : pool.tasks + {.reading c} = s.pool.tasks + {.creating c}) :
      Moves s { s.setConn c { s.conns c with reads := (s.conns c).reads + 1 } with pool := pool }
  | create (pool : ThreadPool (EchoTask ι)) (c : ι)
      (htasks : pool.tasks + {.creating c} =
        s.pool.tasks + {.firstDefer c s.joinPoints.length}) :
      Moves s { s with
        pool := pool
        joinPoints := s.joinPoints ++ [⟨2, .t2 c s.joinPoints.length⟩] }
  | defers (pool : ThreadPool (EchoTask ι)) (old task new : EchoTask ι)
      (hdefers : old.Defers task new)
      (htasks : pool.tasks + {old} = task ::ₘ s.pool.tasks + {new}) :
      Moves s { s with pool := pool }
  | join (pool : ThreadPool (EchoTask ι)) (c : ι) (joinP : ℕ) (j : JoinPoint (EchoTask ι))
      (hj : s.joinPoints[joinP]? = some j)
      (htasks : pool.tasks + {.joining c joinP} =
        s.pool.tasks + {j.join.2.getD .returning}) :
      Moves s { s with pool := pool, joinPoints := s.joinPoints.set joinP j.join.1 }

variable {s s' : Echo ι} {action : EchoAction ι}

theorem ThreadPool.Served.step {T : Type} {p p' : ThreadPool T} {action : ThreadPoolAction T}
    (h : p.Served) (hstep : p.step action = some p') : p'.Served :=
  h.moves (ThreadPool.moves_of_step hstep)

/-- A task of the worker `i` that defers another one. -/
theorem Echo.moves_defers {i : ℕ} {old task new : EchoTask ι} {interrupted : Bool}
    {s₁ : Echo ι} {pool : ThreadPool (EchoTask ι)} (hdefers : old.Defers task new)
    (hi : s.pool.workers[i]? = some ⟨.running old, interrupted⟩)
    (hschedule : s.schedule task = some s₁) (hgoOn : s₁.pool.step (.goOn i new) = some pool) :
    s.Moves { s₁ with pool := pool } ∧ (s.pool.Served → pool.Served) := by
  obtain ⟨pool₁, hpool₁, rfl⟩ := Option.map_eq_some_iff.mp hschedule
  refine ⟨?_, fun h => (h.step hpool₁).step hgoOn⟩
  obtain ⟨-, hnext⟩ := ThreadPool.step_eq_some.mp hpool₁
  obtain rfl := Option.some.inj hnext
  refine .defers pool old task new hdefers ?_
  rw [← tasks_schedule s.pool task (s.pool.notifying + 1)]
  exact tasks_goOn hi hgoOn

/-- The next statement of a task of the worker `i`. -/
theorem Echo.moves_work {i : ℕ} (hstep : s.step (.work i) = some s') :
    s.Moves s' ∧ (s.pool.Served → s'.pool.Served) := by
  rw [Echo.step] at hstep
  split at hstep
  case h_2 => cases hstep
  case h_1 task interrupted hi =>
  obtain ⟨⟨s₁, task'⟩, hperform, hgoOn⟩ := Option.bind_eq_some_iff.mp hstep
  obtain ⟨pool, hpool, rfl⟩ := Option.map_eq_some_iff.mp hgoOn
  cases task with
  | responder c data =>
      obtain ⟨s₂, hwrite, heq⟩ := Option.map_eq_some_iff.mp hperform
      obtain ⟨rfl, rfl⟩ := Prod.ext_iff.mp heq
      obtain ⟨out, hout, rfl⟩ := Option.map_eq_some_iff.mp hwrite
      exact ⟨.write pool c _ _ _ out (.data c data) (tasks_goOn hi hpool) hout, fun h => h.step hpool⟩
  | reading c =>
      obtain ⟨rfl, rfl⟩ := Prod.ext_iff.mp (Option.some.inj hperform)
      exact ⟨.read pool c (tasks_goOn hi hpool), fun h => h.step hpool⟩
  | creating c =>
      obtain ⟨rfl, rfl⟩ := Prod.ext_iff.mp (Option.some.inj hperform)
      exact ⟨.create pool c (tasks_goOn hi hpool), fun h => h.step hpool⟩
  | firstDefer c joinP =>
      rw [Echo.perform, Option.map_eq_some_iff] at hperform
      obtain ⟨s₂, hschedule, heq⟩ := hperform
      obtain ⟨rfl, rfl⟩ := Prod.ext_iff.mp heq
      exact Echo.moves_defers (.first c joinP) hi hschedule hpool
  | secondDefer c joinP =>
      rw [Echo.perform, Option.map_eq_some_iff] at hperform
      obtain ⟨s₂, hschedule, heq⟩ := hperform
      obtain ⟨rfl, rfl⟩ := Prod.ext_iff.mp heq
      exact Echo.moves_defers (.second c joinP) hi hschedule hpool
  | t1 c joinP =>
      obtain ⟨s₂, hwrite, heq⟩ := Option.map_eq_some_iff.mp hperform
      obtain ⟨rfl, rfl⟩ := Prod.ext_iff.mp heq
      obtain ⟨out, hout, rfl⟩ := Option.map_eq_some_iff.mp hwrite
      exact ⟨.write pool c _ _ _ out (.t1 c joinP) (tasks_goOn hi hpool) hout, fun h => h.step hpool⟩
  | joining c joinP =>
      obtain ⟨j, hj, heq⟩ := Option.map_eq_some_iff.mp hperform
      obtain ⟨rfl, rfl⟩ := Prod.ext_iff.mp heq
      exact ⟨.join pool c joinP j hj (tasks_goOn hi hpool), fun h => h.step hpool⟩
  | t2 c joinP =>
      obtain ⟨s₂, hwrite, heq⟩ := Option.map_eq_some_iff.mp hperform
      obtain ⟨rfl, rfl⟩ := Prod.ext_iff.mp heq
      obtain ⟨out, hout, rfl⟩ := Option.map_eq_some_iff.mp hwrite
      exact ⟨.write pool c _ _ _ out (.t2 c joinP) (tasks_goOn hi hpool) hout, fun h => h.step hpool⟩
  | returning => cases hperform

theorem Echo.moves_pool {action : ThreadPoolAction (EchoTask ι)}
    (hstep : s.step (.pool action) = some s') :
    s.Moves s' ∧ (s.pool.Served → s'.pool.Served) := by
  rw [Echo.step] at hstep
  split_ifs at hstep with hmay
  obtain ⟨pool, hpool, rfl⟩ := Option.map_eq_some_iff.mp hstep
  refine ⟨?_, fun h => h.step hpool⟩
  have hmoves := ThreadPool.moves_of_step hpool
  cases action with
  | run => exact .pool pool (hmoves.tasks_eq rfl (by simp))
  | notify woken => exact .pool pool (hmoves.tasks_eq rfl (by simp))
  | wakeUp i => exact .pool pool (hmoves.tasks_eq rfl (by simp))
  | advance i =>
      rw [Echo.poolMay] at hmay
      split at hmay
      case h_1 task interrupted hi =>
        obtain rfl := of_decide_eq_true hmay
        exact .returns pool (tasks_returns hi hpool)
      case h_2 hruns =>
        refine .pool pool (hmoves.tasks_eq rfl ?_)
        rintro k ⟨place, interrupted⟩ task hk rfl
        refine ⟨?_, by simp, by simp⟩
        rintro heq
        obtain rfl := ThreadPoolAction.advance.inj heq
        exact hruns task interrupted hk
  | interrupt | schedule | goOn | unwind => cases hmay

theorem Echo.moves_of_step (hstep : s.step action = some s') :
    s.Moves s' ∧ (s.pool.Served → s'.pool.Served) := by
  cases action with
  | accept c =>
      rw [Echo.step] at hstep
      split_ifs at hstep with haccepted
      obtain rfl := Option.some.inj hstep
      refine ⟨?_, id⟩
      have hmove := Echo.Moves.accept c (Bool.eq_false_of_not_eq_true haccepted)
      simpa [Echo.read, Echo.setConn] using hmove
  | handleRead c error data =>
      rw [Echo.step] at hstep
      split at hstep
      case h_1 => cases hstep
      case h_2 reads hreads =>
        split_ifs at hstep with herror hsize
        · obtain rfl := Option.some.inj hstep
          exact ⟨.fails c reads hreads, id⟩
        · obtain ⟨pool, hpool, rfl⟩ := Option.map_eq_some_iff.mp hstep
          refine ⟨.receive pool c reads data hreads ?_, fun h => h.step hpool⟩
          obtain ⟨-, hnext⟩ := ThreadPool.step_eq_some.mp hpool
          obtain rfl := Option.some.inj hnext
          exact tasks_schedule s.pool _ _
  | pool action => exact Echo.moves_pool hstep
  | work i => exact Echo.moves_work hstep
  | socket c action =>
      cases action with
      | write message elementSize => cases hstep
      | complete i error k =>
          obtain ⟨out, hout, rfl⟩ := Option.map_eq_some_iff.mp hstep
          exact ⟨.socket c _ out rfl hout, id⟩
      | advance i =>
          obtain ⟨out, hout, rfl⟩ := Option.map_eq_some_iff.mp hstep
          exact ⟨.socket c _ out rfl hout, id⟩

end Steps

/-! ### Ledgers -/

/-- What a message, a task, a join point and a received chunk are worth. -/
structure Ledger (ι : Type) where
  message : EchoMessage → ℤ
  task : EchoTask ι → ℤ
  joinPoint : ℕ → JoinPoint (EchoTask ι) → ℤ
  chunk : ℤ

namespace Ledger

variable [DecidableEq ι]

/-- What the messages written to a connection are worth beyond the chunks received from it. -/
def conn (L : Ledger ι) (conn : EchoConn) : ℤ :=
  (conn.wrote.map L.message).sum - L.chunk * conn.received.length

/-- What the connection `c`, the tasks and the join points are worth. -/
def total (L : Ledger ι) (c : ι) (s : Echo ι) : ℤ :=
  L.conn (s.conns c) + (s.pool.tasks.map L.task).sum + (s.joinPoints.mapIdx L.joinPoint).sum

/-- No statement changes what everything is worth. -/
structure Balanced (L : Ledger ι) (c : ι) : Prop where
  writes : ∀ {c' m} {old new : EchoTask ι}, old.Writes c' m new →
    (if c' = c then L.message m else 0) + L.task new = L.task old
  read : ∀ c', L.task (.creating c') = L.task (.reading c')
  create : ∀ c' joinP, L.joinPoint joinP ⟨2, .t2 c' joinP⟩ + L.task (.firstDefer c' joinP) =
    L.task (.creating c')
  defers : ∀ {old task new : EchoTask ι}, old.Defers task new →
    L.task task + L.task new = L.task old
  join : ∀ c' c'' joinP k, L.joinPoint joinP (JoinPoint.join ⟨k, .t2 c'' joinP⟩).1 +
      L.task ((JoinPoint.join ⟨k, .t2 c'' joinP⟩).2.getD .returning) =
    L.joinPoint joinP ⟨k, .t2 c'' joinP⟩ + L.task (.joining c' joinP)
  returns : L.task .returning = 0
  receive : ∀ c' data, L.task (.responder c' data) = if c' = c then L.chunk else 0

end Ledger

/-- The callback of every join point is its `t2`. -/
def Echo.Callbacks (s : Echo ι) : Prop :=
  ∀ (joinP : ℕ) (j : JoinPoint (EchoTask ι)), s.joinPoints[joinP]? = some j →
    ∃ c, j.callback = .t2 c joinP

/-- The sum over the tasks, from an exchange of tasks. -/
theorem sum_tasks {M : Type} [AddCommMonoid M] (f : EchoTask ι → M)
    {tasks tasks' old new : Multiset (EchoTask ι)} (h : tasks' + old = tasks + new) :
    (tasks'.map f).sum + (old.map f).sum = (tasks.map f).sum + (new.map f).sum := by
  rw [← Multiset.sum_add, ← Multiset.map_add, h, Multiset.map_add, Multiset.sum_add]

/-- One task in the place of another. -/
theorem Ledger.tasks_exchange (L : Ledger ι) {tasks tasks' : Multiset (EchoTask ι)}
    {old new : EchoTask ι} (h : tasks' + {old} = tasks + {new}) :
    (tasks'.map L.task).sum = (tasks.map L.task).sum + (L.task new - L.task old) := by
  have hsum := sum_tasks L.task h
  simp only [Multiset.map_singleton, Multiset.sum_singleton] at hsum
  linarith

/-- The total is kept if the changes of its three parts cancel. -/
theorem Ledger.total_eq {L : Ledger ι} {c : ι} {s s' : Echo ι} {dConn dTasks dJoins : ℤ}
    (hconn : L.conn (s'.conns c) = L.conn (s.conns c) + dConn)
    (htasks : (s'.pool.tasks.map L.task).sum = (s.pool.tasks.map L.task).sum + dTasks)
    (hjoins : (s'.joinPoints.mapIdx L.joinPoint).sum =
      (s.joinPoints.mapIdx L.joinPoint).sum + dJoins)
    (hzero : dConn + dTasks + dJoins = 0) : L.total c s' = L.total c s := by
  rw [Ledger.total, Ledger.total, hconn, htasks, hjoins]
  linarith

section Ledgers

variable [DecidableEq ι] {L : Ledger ι} {c c' : ι} {s s' : Echo ι}

theorem Echo.Callbacks.moves (h : s.Callbacks) (hmoves : s.Moves s') : s'.Callbacks := by
  cases hmoves with
  | create pool c htasks =>
      intro joinP j hj
      rcases lt_or_ge joinP s.joinPoints.length with hlt | hge
      · have hold : s.joinPoints[joinP]? = some j := by
          rw [← hj]
          exact (List.getElem?_append_left hlt).symm
        exact h joinP j hold
      · have hnew := (List.getElem?_append_right hge).symm.trans hj
        rw [List.getElem?_singleton] at hnew
        split_ifs at hnew with hlast
        obtain rfl := Option.some.inj hnew
        exact ⟨c, by rw [Nat.le_antisymm (Nat.sub_eq_zero_iff_le.mp hlast) hge]⟩
  | join pool c joinP j hj htasks =>
      intro k j' hj'
      have hset : (s.joinPoints.set joinP j.join.1)[k]? = some j' := hj'
      rw [List.getElem?_set] at hset
      split_ifs at hset with hk hlt
      · obtain rfl := Option.some.inj hset
        subst hk
        exact h joinP j hj
      · exact h k j' hset
  | pool | returns | accept | fails | receive | socket | write | read | defers => exact h

theorem conns_setConn (conn : EchoConn) :
    (s.setConn c' conn).conns c = if c' = c then conn else s.conns c := by
  by_cases h : c' = c
  · rw [if_pos h, ← h]
    exact Function.update_self _ _ _
  · rw [if_neg h]
    exact Function.update_of_ne (Ne.symm h) _ _

/-- A change of a connection that neither receives nor writes. -/
theorem Ledger.conn_same (L : Ledger ι) (c : ι) {conn : EchoConn}
    (hwrote : conn.wrote = (s.conns c').wrote) (hreceived : conn.received = (s.conns c').received) :
    L.conn ((s.setConn c' conn).conns c) = L.conn (s.conns c) + 0 := by
  rw [conns_setConn, add_zero]
  split_ifs with h
  · rw [← h, Ledger.conn, Ledger.conn, hwrote, hreceived]
  · rfl

theorem Ledger.conn_write (L : Ledger ι) (c : ι) {conn : EchoConn} (m : EchoMessage)
    (hwrote : conn.wrote = (s.conns c').wrote ++ [m])
    (hreceived : conn.received = (s.conns c').received) :
    L.conn ((s.setConn c' conn).conns c) =
      L.conn (s.conns c) + if c' = c then L.message m else 0 := by
  rw [conns_setConn]
  split_ifs with h
  · rw [← h, Ledger.conn, Ledger.conn, hwrote, hreceived, List.map_append, List.sum_append,
      List.map_singleton, List.sum_singleton]
    ring
  · rw [add_zero]

theorem Ledger.conn_receive (L : Ledger ι) (c : ι) {conn : EchoConn} (data : List Byte)
    (hwrote : conn.wrote = (s.conns c').wrote)
    (hreceived : conn.received = (s.conns c').received ++ [data]) :
    L.conn ((s.setConn c' conn).conns c) =
      L.conn (s.conns c) + -(if c' = c then L.chunk else 0) := by
  rw [conns_setConn]
  split_ifs with h
  · rw [← h, Ledger.conn, Ledger.conn, hwrote, hreceived, List.length_append,
      List.length_singleton]
    push_cast
    ring
  · rw [neg_zero, add_zero]

/-- A step keeps what everything is worth. -/
theorem Ledger.Balanced.moves (hL : L.Balanced c) (hcallbacks : s.Callbacks) (hmoves : s.Moves s') :
    L.total c s' = L.total c s := by
  have hsame : ∀ (n : ℤ), n = n + 0 := fun n => (add_zero n).symm
  cases hmoves with
  | pool pool htasks => rw [Ledger.total, Ledger.total, htasks]
  | returns pool htasks =>
      have hsum := sum_tasks L.task (htasks.trans (add_zero _).symm)
      simp only [Multiset.map_singleton, Multiset.sum_singleton, Multiset.map_zero,
        Multiset.sum_zero, hL.returns, add_zero] at hsum
      rw [Ledger.total, Ledger.total, hsum]
  | accept c' hnew => exact Ledger.total_eq (L.conn_same c rfl rfl) (hsame _) (hsame _) rfl
  | fails c' reads hreads => exact Ledger.total_eq (L.conn_same c rfl rfl) (hsame _) (hsame _) rfl
  | socket c' action out haccepted hout =>
      exact Ledger.total_eq (L.conn_same c rfl rfl) (hsame _) (hsame _) rfl
  | receive pool c' reads data hreads htasks =>
      have hsum : (pool.tasks.map L.task).sum =
          (s.pool.tasks.map L.task).sum + L.task (.responder c' data) := by
        rw [htasks, Multiset.map_cons, Multiset.sum_cons, add_comm]
      refine Ledger.total_eq (L.conn_receive c data rfl rfl) hsum (hsame _) ?_
      rw [hL.receive]
      ring
  | write pool c' m old new out hwrites htasks hout =>
      refine Ledger.total_eq (L.conn_write c m rfl rfl) (L.tasks_exchange htasks) (hsame _) ?_
      rw [← hL.writes hwrites]
      ring
  | read pool c' htasks =>
      refine Ledger.total_eq (L.conn_same c rfl rfl) (L.tasks_exchange htasks) (hsame _) ?_
      rw [hL.read]
      ring
  | create pool c' htasks =>
      have hjoins : ((s.joinPoints ++ [(⟨2, .t2 c' s.joinPoints.length⟩ :
            JoinPoint (EchoTask ι))]).mapIdx L.joinPoint).sum =
          (s.joinPoints.mapIdx L.joinPoint).sum +
            L.joinPoint s.joinPoints.length ⟨2, .t2 c' s.joinPoints.length⟩ := by
        rw [List.mapIdx_concat, List.sum_append, List.sum_singleton]
      refine Ledger.total_eq (hsame _) (L.tasks_exchange htasks) hjoins ?_
      rw [← hL.create c' s.joinPoints.length]
      ring
  | defers pool old task new hdefers htasks =>
      have hsum := sum_tasks L.task htasks
      simp only [Multiset.map_singleton, Multiset.sum_singleton, Multiset.map_cons,
        Multiset.sum_cons] at hsum
      have hworth := hL.defers hdefers
      rw [Ledger.total, Ledger.total]
      dsimp only
      linarith
  | join pool c' joinP j hj htasks =>
      obtain ⟨k, callback⟩ := j
      obtain ⟨c'', rfl⟩ : ∃ c'', callback = .t2 c'' joinP := hcallbacks joinP _ hj
      have hi : (s.joinPoints.mapIdx L.joinPoint)[joinP]? =
          some (L.joinPoint joinP ⟨k, .t2 c'' joinP⟩) := by
        rw [List.getElem?_mapIdx, hj]
        rfl
      have hset := sum_set hi (L.joinPoint joinP (JoinPoint.join ⟨k, .t2 c'' joinP⟩).1)
      have hjoins : ((s.joinPoints.set joinP
            (JoinPoint.join ⟨k, .t2 c'' joinP⟩).1).mapIdx L.joinPoint).sum =
          (s.joinPoints.mapIdx L.joinPoint).sum +
            (L.joinPoint joinP (JoinPoint.join ⟨k, .t2 c'' joinP⟩).1 -
              L.joinPoint joinP ⟨k, .t2 c'' joinP⟩) := by
        rw [List.mapIdx_set]
        linarith
      refine Ledger.total_eq (hsame _) (L.tasks_exchange htasks) hjoins ?_
      have hworth := hL.join c' c'' joinP k
      linarith

end Ledgers

/-! ### The reads and the chunks of a connection -/

/-- The chunk of a message that echoes one. -/
def EchoMessage.chunk : EchoMessage → Option (List Byte)
  | .data bytes => some bytes
  | .t1Done _ | .joined _ => none

/-- The chunks that were written back, in order. -/
def EchoConn.echoed (conn : EchoConn) : List (List Byte) := conn.wrote.filterMap EchoMessage.chunk

section Reads

variable [DecidableEq ι]

/-- A task that is going to ask for the next chunk of `c` counts once. -/
def EchoTask.asks (c : ι) : EchoTask ι → ℕ
  | .responder c' _ | .reading c' => if c' = c then 1 else 0
  | .creating _ | .firstDefer _ _ | .secondDefer _ _ | .t1 _ _ | .joining _ _ | .t2 _ _
  | .returning => 0

/-- The chunk of `c` that a task is going to write back. -/
def EchoTask.chunks (c : ι) : EchoTask ι → Multiset (List Byte)
  | .responder c' data => if c' = c then {data} else 0
  | .reading _ | .creating _ | .firstDefer _ _ | .secondDefer _ _ | .t1 _ _ | .joining _ _
  | .t2 _ _ | .returning => 0

/-- A connection has one read under way or one task that is going to ask for it, and the chunk
of that task is the only one that is not written back. -/
structure EchoConn.Sound (conn : EchoConn) (asks : ℕ) (chunks : Multiset (List Byte)) : Prop where
  reads : conn.reads + asks ≤ if conn.accepted then 1 else 0
  order : ∃ pending, conn.received = conn.echoed ++ pending ∧ (pending : Multiset _) = chunks
  owned : conn.out.Owned
  unmixed : Unmixed conn.out (conn.wrote.map EchoMessage.message)

/-- The connection `c` among the tasks that are left. -/
def Echo.ConnSound (s : Echo ι) (c : ι) : Prop :=
  (s.conns c).Sound (s.pool.tasks.map (EchoTask.asks c)).sum
    (s.pool.tasks.map (EchoTask.chunks c)).sum

variable {c : ι} {s s' : Echo ι}

/-- A task with a chunk to write back is going to ask for the next one. -/
theorem card_chunks_le (c : ι) (tasks : Multiset (EchoTask ι)) :
    (tasks.map (EchoTask.chunks c)).sum.card ≤ (tasks.map (EchoTask.asks c)).sum := by
  induction tasks using Multiset.induction_on with
  | empty => simp
  | cons task tasks ih =>
      rw [Multiset.map_cons, Multiset.sum_cons, Multiset.card_add, Multiset.map_cons,
        Multiset.sum_cons]
      apply Nat.add_le_add _ ih
      cases task with
      | responder c' data =>
          by_cases h : c' = c
          · simp [EchoTask.chunks, EchoTask.asks, h]
          · simp [EchoTask.chunks, EchoTask.asks, h]
      | reading | creating | firstDefer | secondDefer | t1 | joining | t2 | returning =>
          exact Nat.zero_le _

theorem EchoConn.Sound.asks_le {conn : EchoConn} {asks : ℕ} {chunks : Multiset (List Byte)}
    (h : conn.Sound asks chunks) : conn.reads + asks ≤ 1 :=
  h.reads.trans (by split_ifs <;> decide)

/-- An exchange of tasks that neither ask nor write back. -/
theorem Echo.ConnSound.of_tasks (h : s.ConnSound c) (hconn : s'.conns c = s.conns c)
    (old new : Multiset (EchoTask ι)) (htasks : s'.pool.tasks + old = s.pool.tasks + new)
    (hasks : (new.map (EchoTask.asks c)).sum = (old.map (EchoTask.asks c)).sum)
    (hchunks : (new.map (EchoTask.chunks c)).sum = (old.map (EchoTask.chunks c)).sum) :
    s'.ConnSound c := by
  have hsumAsks := sum_tasks (EchoTask.asks c) htasks
  have hsumChunks := sum_tasks (EchoTask.chunks c) htasks
  rw [hasks] at hsumAsks
  rw [hchunks] at hsumChunks
  rw [Echo.ConnSound, hconn, add_right_cancel hsumAsks, add_right_cancel hsumChunks]
  exact h

theorem EchoConn.echoed_write (conn : EchoConn) (m : EchoMessage) (out : State) :
    EchoConn.echoed { conn with wrote := conn.wrote ++ [m], out := out } =
      conn.echoed ++ m.chunk.toList := by
  rw [EchoConn.echoed, EchoConn.echoed, List.filterMap_append]
  cases m <;> rfl

/-- A message is passed to the `write_queue` of the connection. -/
theorem EchoConn.Sound.write {conn : EchoConn} {asks asks' : ℕ}
    {chunks chunks' : Multiset (List Byte)} (h : conn.Sound asks chunks) {m : EchoMessage}
    {out : State} (hout : conn.out.step (.write m.message 1) = some out) (hasks : asks' = asks)
    (hchunks : chunks' + ↑m.chunk.toList = chunks) (hfew : chunks.card ≤ asks) :
    EchoConn.Sound { conn with wrote := conn.wrote ++ [m], out := out } asks' chunks' := by
  obtain ⟨pending, hreceived, hpending⟩ := h.order
  have hasksLe := h.asks_le
  refine ⟨by rw [hasks]; exact h.reads, ?_, h.owned.step hout, ?_⟩
  · rw [EchoConn.echoed_write]
    cases m with
    | data bytes =>
        -- The chunk is the only one that is left.
        have hcard : chunks'.card + 1 = chunks.card := by
          rw [← hchunks, Multiset.card_add]
          rfl
        have hnone : chunks' = 0 := by
          rw [← Multiset.card_eq_zero]
          omega
        rw [hnone, zero_add] at hchunks
        have hone : pending = [bytes] := by
          rw [← Multiset.coe_eq_singleton, hpending, ← hchunks]
          rfl
        exact ⟨[], by rw [List.append_nil, hreceived, hone]; rfl, hnone.symm⟩
    | t1Done joinP =>
        exact ⟨pending, by rw [hreceived]; simp [EchoMessage.chunk],
          hpending.trans (hchunks.symm.trans (add_zero _))⟩
    | joined joinP =>
        exact ⟨pending, by rw [hreceived]; simp [EchoMessage.chunk],
          hpending.trans (hchunks.symm.trans (add_zero _))⟩
  · have hstep := h.unmixed.step h.owned hout
    rw [List.map_append, List.map_singleton]
    exact hstep

/-- What a writing task asks for and writes back. -/
theorem EchoTask.Writes.exchange {c' : ι} {m : EchoMessage} {old new : EchoTask ι}
    (h : old.Writes c' m new) :
    new.asks c = old.asks c ∧
      (if c' = c then new.chunks c + ↑m.chunk.toList else new.chunks c) = old.chunks c := by
  cases h with
  | data data =>
      refine ⟨rfl, ?_⟩
      by_cases h : c' = c
      · rw [if_pos h, EchoTask.chunks, EchoTask.chunks, if_pos h, zero_add]
        rfl
      · rw [if_neg h, EchoTask.chunks, EchoTask.chunks, if_neg h]
  | t1 joinP =>
      refine ⟨rfl, ?_⟩
      split_ifs
      · exact add_zero _
      · rfl
  | t2 joinP =>
      refine ⟨rfl, ?_⟩
      split_ifs
      · exact add_zero _
      · rfl

/-- A step keeps the state of every connection sound. -/
theorem Echo.ConnSound.moves (h : s.ConnSound c) (hcallbacks : s.Callbacks) (hmoves : s.Moves s') :
    s'.ConnSound c := by
  have hother : ∀ {c' : ι} {conn : EchoConn}, c' ≠ c → (s.setConn c' conn).conns c = s.conns c := by
    intro c' conn hne
    rw [conns_setConn, if_neg hne]
  have hsame : ∀ {c' : ι} {conn : EchoConn}, c' = c → (s.setConn c' conn).conns c = conn := by
    intro c' conn heq
    rw [conns_setConn, if_pos heq]
  obtain ⟨pending, hreceived, hpending⟩ := h.order
  have hreads := h.reads
  have hfew := card_chunks_le c s.pool.tasks
  cases hmoves with
  | pool pool htasks => exact h.of_tasks rfl 0 0 (by simpa using htasks) rfl rfl
  | returns pool htasks =>
      exact h.of_tasks rfl {.returning} 0 (by simpa using htasks) rfl rfl
  | create pool c' htasks => exact h.of_tasks rfl _ _ htasks rfl rfl
  | defers pool old task new hdefers htasks =>
      refine h.of_tasks rfl {old} (task ::ₘ {new}) ?_ ?_ ?_
      · exact htasks.trans (by simp [add_comm])
      · cases hdefers <;> rfl
      · cases hdefers <;> rfl
  | join pool c' joinP j hj htasks =>
      obtain ⟨c'', hcallback⟩ := hcallbacks joinP j hj
      refine h.of_tasks rfl _ _ htasks ?_ ?_
      · rw [JoinPoint.join]
        dsimp only
        split_ifs
        · rw [hcallback]
          rfl
        · rfl
      · rw [JoinPoint.join]
        dsimp only
        split_ifs
        · rw [hcallback]
          rfl
        · rfl
  | accept c' hnew =>
      by_cases heq : c' = c
      · obtain rfl := heq
        rw [hnew] at hreads
        rw [Echo.ConnSound, hsame rfl]
        refine ⟨?_, ⟨pending, hreceived, hpending⟩, h.owned, h.unmixed⟩
        have hnone := Nat.le_zero.mp hreads
        show (s.conns c').reads + 1 + _ ≤ 1
        exact (Nat.add_right_comm _ _ _).le.trans (Nat.succ_le_succ hnone.le)
      · exact h.of_tasks (hother heq) 0 0 rfl rfl rfl
  | fails c' reads hfails =>
      by_cases heq : c' = c
      · obtain rfl := heq
        rw [hfails] at hreads
        rw [Echo.ConnSound, hsame rfl]
        refine ⟨le_trans ?_ hreads, ⟨pending, hreceived, hpending⟩, h.owned, h.unmixed⟩
        exact Nat.add_le_add_right (Nat.le_succ reads) _
      · exact h.of_tasks (hother heq) 0 0 rfl rfl rfl
  | socket c' action out haccepted hout =>
      by_cases heq : c' = c
      · obtain rfl := heq
        rw [Echo.ConnSound, hsame rfl]
        refine ⟨hreads, ⟨pending, hreceived, hpending⟩, h.owned.step hout, ?_⟩
        have hstep := h.unmixed.step h.owned hout
        rw [haccepted, List.append_nil] at hstep
        exact hstep
      · exact h.of_tasks (hother heq) 0 0 rfl rfl rfl
  | receive pool c' reads data hread htasks =>
      by_cases heq : c' = c
      · obtain rfl := heq
        have hasksLe := h.asks_le
        have hasks : (pool.tasks.map (EchoTask.asks c')).sum =
            1 + (s.pool.tasks.map (EchoTask.asks c')).sum := by
          rw [htasks, Multiset.map_cons, Multiset.sum_cons, EchoTask.asks, if_pos rfl]
        -- The read under way shows that no task is going to write back.
        have hzero : (s.pool.tasks.map (EchoTask.chunks c')).sum = 0 := by
          rw [← Multiset.card_eq_zero]
          omega
        have hchunks : (pool.tasks.map (EchoTask.chunks c')).sum = {data} := by
          rw [htasks, Multiset.map_cons, Multiset.sum_cons, hzero, EchoTask.chunks, if_pos rfl,
            add_zero]
        have hnone : pending = [] := by
          rw [← Multiset.coe_eq_zero, hpending, hzero]
        show ((s.setConn c' _).conns c').Sound _ _
        rw [hsame rfl]
        refine ⟨?_, ⟨[data], ?_, hchunks.symm⟩, h.owned, h.unmixed⟩
        · show reads + (pool.tasks.map (EchoTask.asks c')).sum ≤
            if (s.conns c').accepted then 1 else 0
          rw [hasks]
          omega
        · show (s.conns c').received ++ [data] = (s.conns c').echoed ++ [data]
          rw [hreceived, hnone, List.append_nil]
      · refine h.of_tasks (hother heq) 0 {.responder c' data} ?_ ?_ ?_
        · rw [add_zero, Multiset.add_comm]
          exact htasks
        · simp [EchoTask.asks, heq]
        · simp [EchoTask.chunks, heq]
  | write pool c' m old new out hwrites htasks hout =>
      obtain ⟨hasks, hchunks⟩ := hwrites.exchange (c := c)
      have hsumAsks := sum_tasks (EchoTask.asks c) htasks
      have hsumChunks := sum_tasks (EchoTask.chunks c) htasks
      simp only [Multiset.map_singleton, Multiset.sum_singleton] at hsumAsks hsumChunks
      rw [hasks] at hsumAsks
      by_cases heq : c' = c
      · rw [if_pos heq] at hchunks
        obtain rfl := heq
        show ((s.setConn c' _).conns c').Sound _ _
        rw [hsame rfl]
        refine h.write hout (add_right_cancel hsumAsks) ?_ hfew
        rw [← hchunks, add_comm (new.chunks c'), ← add_assoc] at hsumChunks
        exact add_right_cancel hsumChunks
      · rw [if_neg heq] at hchunks
        exact h.of_tasks (hother heq) _ _ htasks (by simpa using hasks) (by simpa using hchunks)
  | read pool c' htasks =>
      by_cases heq : c' = c
      · obtain rfl := heq
        have hsumAsks := sum_tasks (EchoTask.asks c') htasks
        have hsumChunks := sum_tasks (EchoTask.chunks c') htasks
        simp only [Multiset.map_singleton, Multiset.sum_singleton, EchoTask.asks, EchoTask.chunks,
          if_true, add_zero] at hsumAsks hsumChunks
        show ((s.setConn c' _).conns c').Sound _ _
        rw [hsame rfl]
        refine ⟨?_, ⟨pending, hreceived, hpending.trans hsumChunks.symm⟩, h.owned, h.unmixed⟩
        show (s.conns c').reads + 1 + (pool.tasks.map (EchoTask.asks c')).sum ≤
          if (s.conns c').accepted then 1 else 0
        omega
      · refine h.of_tasks (hother heq) _ _ htasks ?_ rfl
        simp [EchoTask.asks, heq]

end Reads

/-! ### What is owed to a connection -/

def EchoMessage.isT1Done : EchoMessage → Bool
  | .t1Done _ => true
  | .data _ | .joined _ => false

def EchoMessage.isJoined : EchoMessage → Bool
  | .joined _ => true
  | .data _ | .t1Done _ => false

section Owed

variable [DecidableEq ι]

/-- Two messages of `t1` for every chunk of `c`. -/
def t1Ledger (c : ι) : Ledger ι where
  message m := if m.isT1Done then 1 else 0
  task
    | .responder c' _ | .reading c' | .creating c' | .firstDefer c' _ => if c' = c then 2 else 0
    | .secondDefer c' _ | .t1 c' _ => if c' = c then 1 else 0
    | .joining _ _ | .t2 _ _ | .returning => 0
  joinPoint _ _ := 0
  chunk := 2

/-- One message of `t2` for every chunk of `c`; a join point that waits for a `join` owes it. -/
def joinedLedger (c : ι) : Ledger ι where
  message m := if m.isJoined then 1 else 0
  task
    | .responder c' _ | .reading c' | .creating c' | .t2 c' _ => if c' = c then 1 else 0
    | .firstDefer _ _ | .secondDefer _ _ | .t1 _ _ | .joining _ _ | .returning => 0
  joinPoint joinP j := if j.callback = .t2 c joinP ∧ 0 < j.counter then 1 else 0
  chunk := 1

/-- Two messages of `t1` for the join point `p` of `c`. -/
def t1LedgerOf (c : ι) (p : ℕ) : Ledger ι where
  message m := if m = .t1Done p then 1 else 0
  task
    | .firstDefer c' joinP => if c' = c ∧ joinP = p then 2 else 0
    | .secondDefer c' joinP | .t1 c' joinP => if c' = c ∧ joinP = p then 1 else 0
    | .responder _ _ | .reading _ | .creating _ | .joining _ _ | .t2 _ _ | .returning => 0
  joinPoint joinP j := if joinP = p then (if j.callback = .t2 c p then -2 else 0) else 0
  chunk := 0

/-- The tasks that have yet to join the join point `p`, against its counter. -/
def counterLedger (p : ℕ) : Ledger ι where
  message _ := 0
  task
    | .firstDefer _ joinP => if joinP = p then 2 else 0
    | .secondDefer _ joinP | .t1 _ joinP | .joining _ joinP => if joinP = p then 1 else 0
    | .responder _ _ | .reading _ | .creating _ | .t2 _ _ | .returning => 0
  joinPoint joinP j := if joinP = p then -j.counter else 0
  chunk := 0

/-- One message of `t2` for the join point `p` of `c`, once its counter is down. -/
def joinedLedgerOf (c : ι) (p : ℕ) : Ledger ι where
  message m := if m = .joined p then 1 else 0
  task
    | .t2 c' joinP => if c' = c ∧ joinP = p then 1 else 0
    | .responder _ _ | .reading _ | .creating _ | .firstDefer _ _ | .secondDefer _ _ | .t1 _ _
    | .joining _ _ | .returning => 0
  joinPoint joinP j :=
    if joinP = p then (if j.callback = .t2 c p ∧ j.counter ≤ 0 then -1 else 0) else 0
  chunk := 0

theorem t1Ledger_balanced (c : ι) : (t1Ledger c).Balanced c where
  writes h := by cases h <;> simp [t1Ledger, EchoMessage.isT1Done]
  read _ := rfl
  create c' _ := by simp [t1Ledger]
  defers h := by
    cases h with
    | first c' joinP =>
        simp only [t1Ledger]
        split_ifs <;> rfl
    | second c' joinP => exact add_zero _
  join c' c'' joinP k := by
    simp only [t1Ledger, JoinPoint.join]
    split_ifs <;> rfl
  returns := rfl
  receive _ _ := rfl

theorem joinedLedger_balanced (c : ι) : (joinedLedger c).Balanced c where
  writes h := by cases h <;> simp [joinedLedger, EchoMessage.isJoined]
  read _ := rfl
  create c' joinP := by simp [joinedLedger]
  defers h := by cases h <;> rfl
  join c' c'' joinP k := by
    by_cases hc : c'' = c
    · by_cases hk : k - 1 = 0
      · have hone : k = 1 := by omega
        simp [joinedLedger, JoinPoint.join, hc, hone]
      · have hsign : 1 < k ↔ 0 < k := by omega
        simp [joinedLedger, JoinPoint.join, hc, hk, hsign]
    · by_cases hk : k - 1 = 0
      · simp [joinedLedger, JoinPoint.join, hc, hk]
      · simp [joinedLedger, JoinPoint.join, hc, hk]
  returns := rfl
  receive _ _ := rfl

theorem t1LedgerOf_balanced (c : ι) (p : ℕ) : (t1LedgerOf c p).Balanced c where
  writes h := by
    cases h with
    | data data => simp [t1LedgerOf]
    | t1 joinP => simp [t1LedgerOf, ite_and]
    | t2 joinP => simp [t1LedgerOf]
  read _ := rfl
  create c' joinP := by
    by_cases hp : joinP = p
    · by_cases hc : c' = c
      · simp [t1LedgerOf, hp, hc]
      · simp [t1LedgerOf, hp, hc]
    · simp [t1LedgerOf, hp]
  defers h := by
    cases h with
    | first c' joinP =>
        simp only [t1LedgerOf]
        split_ifs <;> rfl
    | second c' joinP => exact add_zero _
  join c' c'' joinP k := by
    simp only [t1LedgerOf, JoinPoint.join]
    split_ifs <;> rfl
  returns := rfl
  receive c' _ := by simp [t1LedgerOf]

theorem counterLedger_balanced (c : ι) (p : ℕ) : (counterLedger p : Ledger ι).Balanced c where
  writes h := by cases h <;> simp [counterLedger]
  read _ := rfl
  create c' joinP := by
    by_cases hp : joinP = p
    · simp [counterLedger, hp]
    · simp [counterLedger, hp]
  defers h := by
    cases h with
    | first c' joinP =>
        simp only [counterLedger]
        split_ifs <;> rfl
    | second c' joinP => exact add_zero _
  join c' c'' joinP k := by
    by_cases hp : joinP = p
    · simp only [counterLedger, JoinPoint.join, hp, if_true]
      split_ifs <;> simp <;> ring
    · simp only [counterLedger, JoinPoint.join, hp, if_false]
      split_ifs <;> rfl
  returns := rfl
  receive c' _ := by simp [counterLedger]

theorem joinedLedgerOf_balanced (c : ι) (p : ℕ) : (joinedLedgerOf c p).Balanced c where
  writes h := by
    cases h with
    | data data => simp [joinedLedgerOf]
    | t1 joinP => simp [joinedLedgerOf]
    | t2 joinP => simp [joinedLedgerOf, ite_and]
  read _ := rfl
  create c' joinP := by simp [joinedLedgerOf]
  defers h := by cases h <;> rfl
  join c' c'' joinP k := by
    by_cases hp : joinP = p
    · by_cases hc : c'' = c
      · by_cases hk : k - 1 = 0
        · have hone : k = 1 := by omega
          simp [joinedLedgerOf, JoinPoint.join, hp, hc, hone]
        · have hsign : k - 1 ≤ 0 ↔ k ≤ 0 := by omega
          simp [joinedLedgerOf, JoinPoint.join, hp, hc, hk, hsign]
      · by_cases hk : k - 1 = 0
        · simp [joinedLedgerOf, JoinPoint.join, hp, hc, hk]
        · simp [joinedLedgerOf, JoinPoint.join, hp, hc, hk]
    · by_cases hk : k - 1 = 0
      · simp [joinedLedgerOf, JoinPoint.join, hp, hk]
      · simp [joinedLedgerOf, JoinPoint.join, hp, hk]
  returns := rfl
  receive c' _ := by simp [joinedLedgerOf]

/-- What is worth one where a condition holds counts how often it holds. -/
theorem sum_map_indicator {α : Type} (q : α → Prop) [DecidablePred q] (l : List α) :
    (l.map fun x => if q x then (1 : ℤ) else 0).sum = (l.countP fun x => decide (q x)) := by
  induction l with
  | nil => rfl
  | cons x rest ih =>
      rw [List.map_cons, List.sum_cons, ih, List.countP_cons]
      by_cases hx : q x
      · simp [hx, add_comm]
      · simp [hx]

/-- Only the entry at the position `p` counts. -/
theorem sum_mapIdx_single {α : Type} (p : ℕ) (f : α → ℤ) (l : List α) :
    (l.mapIdx fun i x => if i = p then f x else 0).sum = (l[p]?.map f).getD 0 := by
  induction l using List.reverseRecOn with
  | nil => rfl
  | append_singleton l x ih =>
      rw [List.mapIdx_concat, List.sum_append, List.sum_singleton, ih]
      rcases lt_trichotomy p l.length with hlt | heq | hgt
      · rw [if_neg hlt.ne', add_zero, List.getElem?_append_left hlt]
      · rw [if_pos heq.symm, heq, List.getElem?_eq_none le_rfl, List.getElem?_append_right le_rfl]
        simp
      · rw [if_neg hgt.ne, List.getElem?_eq_none hgt.le, List.getElem?_eq_none (by simp; omega)]
        rfl

/-- The invariant of the server. -/
structure Echo.Sound (s : Echo ι) : Prop where
  served : s.pool.Served
  callbacks : s.Callbacks
  conns : ∀ c, s.ConnSound c
  balanced : ∀ (L : Ledger ι) (c : ι), L.Balanced c → L.total c s = 0

variable {s s' : Echo ι} {action : EchoAction ι}

theorem Echo.Sound.step (h : s.Sound) (hstep : s.step action = some s') : s'.Sound := by
  obtain ⟨hmoves, hserved⟩ := Echo.moves_of_step hstep
  refine ⟨hserved h.served, h.callbacks.moves hmoves, ?_, ?_⟩
  · intro c
    exact (h.conns c).moves h.callbacks hmoves
  · intro L c hL
    rw [hL.moves h.callbacks hmoves]
    exact h.balanced L c hL

theorem Echo.sound_constructed (workersNum : ℤ) : (Echo.constructed workersNum : Echo ι).Sound where
  served := ThreadPool.served_constructed workersNum
  callbacks joinP j hj := by cases hj
  conns _ := by
    refine ⟨le_rfl, ⟨[], rfl, rfl⟩, State.initial_owned, [], [], [], rfl, .idle ?_, .refl _⟩
    intro a ha
    cases ha
  balanced L c _ := by simp [Ledger.total, Ledger.conn, Echo.constructed, ThreadPool.tasks,
    ThreadPool.constructed, ThreadPool.inHand]

/-- A ledger that counts messages of one kind against what one join point owes. -/
theorem Echo.Sound.owed (h : s.Sound) {c : ι} {L : Ledger ι} (hL : L.Balanced c) {p : ℕ}
    {q : EchoMessage → Prop} [DecidablePred q] {f : JoinPoint (EchoTask ι) → ℤ}
    (hmessage : L.message = fun m => if q m then 1 else 0)
    (hjoinPoint : L.joinPoint = fun i j => if i = p then f j else 0) (hchunk : L.chunk = 0) :
    ((s.conns c).wrote.countP (fun m => decide (q m)) : ℤ) + (s.pool.tasks.map L.task).sum +
      (s.joinPoints[p]?.map f).getD 0 = 0 := by
  have htotal := h.balanced L c hL
  rw [Ledger.total, Ledger.conn, hmessage, hjoinPoint, hchunk, sum_map_indicator,
    sum_mapIdx_single, zero_mul, sub_zero] at htotal
  exact htotal

/-- The counter of a join point is the number of joins to come. -/
theorem Echo.Sound.counter_eq (h : s.Sound) (c : ι) {p : ℕ} {j : JoinPoint (EchoTask ι)}
    (hj : s.joinPoints[p]? = some j) :
    j.counter = (s.pool.tasks.map (counterLedger p : Ledger ι).task).sum := by
  have howed := h.owed (counterLedger_balanced c p) (q := fun _ => False)
    (f := fun j => -j.counter) rfl rfl rfl
  rw [hj, List.countP_eq_zero.mpr (by simp)] at howed
  simp only [Option.map_some, Option.getD_some, Nat.cast_zero, zero_add] at howed
  linarith

/-- What is owed for a join point is not negative. -/
theorem t1LedgerOf_nonneg (c : ι) (p : ℕ) (tasks : Multiset (EchoTask ι)) :
    0 ≤ (tasks.map (t1LedgerOf c p).task).sum := by
  apply Multiset.sum_nonneg
  intro n hn
  obtain ⟨task, -, rfl⟩ := Multiset.mem_map.mp hn
  cases task with
  | firstDefer | secondDefer | t1 =>
      simp only [t1LedgerOf]
      split_ifs <;> decide
  | responder | reading | creating | joining | t2 | returning => exact le_rfl

theorem joinedLedgerOf_nonneg (c : ι) (p : ℕ) (tasks : Multiset (EchoTask ι)) :
    0 ≤ (tasks.map (joinedLedgerOf c p).task).sum := by
  apply Multiset.sum_nonneg
  intro n hn
  obtain ⟨task, -, rfl⟩ := Multiset.mem_map.mp hn
  cases task with
  | t2 =>
      simp only [joinedLedgerOf]
      split_ifs <;> decide
  | responder | reading | creating | firstDefer | secondDefer | t1 | joining | returning =>
      exact le_rfl

/-- A task that owes a message of `t1` is going to join. -/
theorem t1_le_counter (c : ι) (p : ℕ) (tasks : Multiset (EchoTask ι)) :
    (tasks.map (t1LedgerOf c p).task).sum ≤ (tasks.map (counterLedger p : Ledger ι).task).sum := by
  apply Multiset.sum_map_le_sum_map
  intro task _
  cases task with
  | firstDefer c' joinP =>
      simp only [t1LedgerOf, counterLedger]
      split_ifs <;> simp_all
  | secondDefer c' joinP =>
      simp only [t1LedgerOf, counterLedger]
      split_ifs <;> simp_all
  | t1 c' joinP =>
      simp only [t1LedgerOf, counterLedger]
      split_ifs <;> simp_all
  | joining c' joinP =>
      simp only [t1LedgerOf, counterLedger]
      split_ifs <;> simp
  | responder | reading | creating | t2 | returning => exact le_rfl

/-- The messages of a join point: at most two of `t1`, and that of `t2` once at most and behind
both of them. -/
theorem Echo.Sound.joinPoint_messages (h : s.Sound) (c : ι) (p : ℕ) :
    (s.conns c).wrote.count (.t1Done p) ≤ 2 ∧ (s.conns c).wrote.count (.joined p) ≤ 1 ∧
      (.joined p ∈ (s.conns c).wrote → (s.conns c).wrote.count (.t1Done p) = 2) := by
  have ht1 : ((s.conns c).wrote.count (.t1Done p) : ℤ) + _ + _ = 0 :=
    h.owed (t1LedgerOf_balanced c p) rfl rfl rfl
  have hjoined : ((s.conns c).wrote.count (.joined p) : ℤ) + _ + _ = 0 :=
    h.owed (joinedLedgerOf_balanced c p) rfl rfl rfl
  have ht1Nonneg := t1LedgerOf_nonneg c p s.pool.tasks
  have hjoinedNonneg := joinedLedgerOf_nonneg c p s.pool.tasks
  cases hj : s.joinPoints[p]? with
  | none =>
      -- There is no such join point yet.
      rw [hj, Option.map_none, Option.getD_none] at ht1 hjoined
      have hnone : (s.conns c).wrote.count (.joined p) = 0 := by omega
      refine ⟨by omega, by omega, fun hmem => ?_⟩
      exact absurd hmem (List.count_eq_zero.mp hnone)
  | some j =>
      rw [hj, Option.map_some, Option.getD_some] at ht1 hjoined
      refine ⟨by split_ifs at ht1 <;> omega, by split_ifs at hjoined <;> omega, fun hmem => ?_⟩
      have hpos := List.count_pos_iff.mpr hmem
      split_ifs at hjoined with hdown
      · rw [if_pos hdown.1] at ht1
        -- The counter is down, so that nobody is going to join.
        have hcounter := h.counter_eq c hj
        have hle := t1_le_counter c p s.pool.tasks
        omega
      · omega

/-- With no task left, all the messages that the received chunks ask for have been written. -/
theorem Echo.Sound.all_written (h : s.Sound) (hnone : s.pool.tasks = 0) (c : ι) :
    (s.conns c).echoed = (s.conns c).received ∧
      (s.conns c).wrote.countP EchoMessage.isT1Done = 2 * (s.conns c).received.length ∧
      (s.conns c).wrote.countP EchoMessage.isJoined = (s.conns c).received.length := by
  refine ⟨?_, ?_, ?_⟩
  · obtain ⟨pending, hreceived, hpending⟩ := (h.conns c).order
    rw [hnone, Multiset.map_zero, Multiset.sum_zero, Multiset.coe_eq_zero] at hpending
    rw [hreceived, hpending, List.append_nil]
  · have htotal := h.balanced _ c (t1Ledger_balanced c)
    have hmessages : ((s.conns c).wrote.map (t1Ledger c).message).sum =
        (s.conns c).wrote.countP EchoMessage.isT1Done :=
      (sum_map_indicator _ _).trans (by simp)
    have hjoins : (s.joinPoints.mapIdx (t1Ledger c).joinPoint).sum = 0 :=
      List.sum_eq_zero (by simp [t1Ledger])
    rw [Ledger.total, Ledger.conn, hmessages, hjoins, hnone, Multiset.map_zero,
      Multiset.sum_zero] at htotal
    simp only [t1Ledger] at htotal
    omega
  · have htotal := h.balanced _ c (joinedLedger_balanced c)
    have hmessages : ((s.conns c).wrote.map (joinedLedger c).message).sum =
        (s.conns c).wrote.countP EchoMessage.isJoined :=
      (sum_map_indicator _ _).trans (by simp)
    have hjoins : (s.joinPoints.mapIdx (joinedLedger c).joinPoint).sum = 0 := by
      apply List.sum_eq_zero
      intro n hn
      obtain ⟨p, hp, rfl⟩ := List.mem_mapIdx.mp hn
      have hcounter := h.counter_eq c (List.getElem?_eq_getElem hp)
      rw [hnone, Multiset.map_zero, Multiset.sum_zero] at hcounter
      simp [joinedLedger, hcounter]
    rw [Ledger.total, Ledger.conn, hmessages, hjoins, hnone, Multiset.map_zero,
      Multiset.sum_zero] at htotal
    simp only [joinedLedger] at htotal
    omega

/-- **The echo server answers every chunk**, for any number of connections and workers and in
every order of their steps.  A connection has one read under way at most; what is written back is
what was received, in order, up to one last chunk; a join point brings two messages of `t1`, and
one of `t2` after them; what the socket has taken are whole messages and a part of one; and when
the pool is at rest and a worker waits, everything that is due has been written. -/
theorem echo_answers (workersNum : ℤ) (actions : List (EchoAction ι)) (s : Echo ι)
    (hrun : Runs.Run Echo.step Runs.anyAction (Echo.constructed workersNum) actions s) (c : ι) :
    (s.conns c).reads ≤ 1 ∧
      (∃ pending, (s.conns c).received = (s.conns c).echoed ++ pending ∧ pending.length ≤ 1) ∧
      (∀ p, (s.conns c).wrote.count (.t1Done p) ≤ 2 ∧ (s.conns c).wrote.count (.joined p) ≤ 1 ∧
        (.joined p ∈ (s.conns c).wrote → (s.conns c).wrote.count (.t1Done p) = 2)) ∧
      Unmixed (s.conns c).out ((s.conns c).wrote.map EchoMessage.message) ∧
      (s.pool.Resting → (∃ w ∈ s.pool.workers, w.place.isWaiting = true) →
        (s.conns c).echoed = (s.conns c).received ∧
          (s.conns c).wrote.countP EchoMessage.isT1Done = 2 * (s.conns c).received.length ∧
          (s.conns c).wrote.countP EchoMessage.isJoined = (s.conns c).received.length) := by
  have h : s.Sound := hrun.invariant (P := fun _ s => s.Sound) (Echo.sound_constructed workersNum)
    fun _ _ _ _ h _ hstep => h.step hstep
  have hasks := (h.conns c).asks_le
  refine ⟨by omega, ?_, h.joinPoint_messages c, (h.conns c).unmixed, ?_⟩
  · obtain ⟨pending, hreceived, hpending⟩ := (h.conns c).order
    refine ⟨pending, hreceived, ?_⟩
    have hfew := card_chunks_le c s.pool.tasks
    rw [← Multiset.coe_card, hpending]
    omega
  · intro hrests hwaits
    have hempty := h.served.empty_of_resting hrests hwaits
    have hnone : s.pool.tasks = 0 := by
      rw [ThreadPool.tasks, hempty, hrests.inHand_eq_nil]
      rfl
    exact h.all_written hnone c

end Owed

/-- One worker answers a chunk of two bytes. -/
def oneChunk : List (EchoAction Unit) :=
  [.pool .run, .accept (), .pool (.advance 0), .pool (.advance 0), .handleRead () false [1, 2],
    .pool (.notify (some 0)), .pool (.advance 0), .work 0, .work 0, .work 0, .work 0, .work 0,
    .pool (.advance 0), .pool (.advance 0), .pool (.advance 0), .work 0, .work 0,
    .pool (.advance 0), .pool (.advance 0), .pool (.advance 0), .work 0, .work 0, .work 0,
    .pool (.advance 0), .pool (.advance 0), .pool (.advance 0), .pool (.notify (some 0)),
    .pool (.advance 0), .pool (.notify (some 0)), .pool (.advance 0)]

theorem echo_answers_oneChunk :
    ∃ s : Echo Unit,
      Runs.Run Echo.step Runs.anyAction (Echo.constructed 1) oneChunk s ∧
        (s.conns ()).wrote = [.data [1, 2], .t1Done 0, .t1Done 0, .joined 0] ∧
        (s.conns ()).echoed = (s.conns ()).received := by
  obtain ⟨s, hperformed⟩ : ∃ s : Echo Unit, Runs.performAll Echo.step Runs.anyAction
      (Echo.constructed 1) oneChunk = some s := ⟨_, rfl⟩
  have hrun := Runs.Run.performAll .start oneChunk hperformed
  obtain rfl := Option.some.inj hperformed
  have hanswered := (echo_answers 1 oneChunk _ hrun ()).2.2.2.2
  refine ⟨_, hrun, rfl, (hanswered ⟨rfl, ?_⟩ ?_).1⟩
  · decide
  · decide

end NetServer
end CoherentDB
