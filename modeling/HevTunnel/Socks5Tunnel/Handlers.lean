import HevTunnel.SessionList
import HevTunnel.ThreadPool

/-!
# Accepting a session

`tcp_accept_handler` and `udp_recv_handler` in `hev-socks5-tunnel.c` run on
the lwIP thread for each new control block (`pcb`). Past the checks of `err`
and `run` (and, for UDP, of a mapped-DNS query, which is answered and then
removes the control block), both take the same path. The session
constructor (`hev_socks5_session_tcp_new`, `hev_socks5_session_udp_new`)
creates a session object bound to the control block; `malloc` gives its
`SessionTaskData`; `insert_session` registers the session, with a node of its
own `malloc`; `hev_thread_pool_submit` queues `session_task_wrapper` on the
task data, with a work item of its own `malloc`. When the submit fails, the
handler calls `remove_session` and frees the task data. On every failure the
TCP handler returns `ERR_MEM`, on which lwIP aborts the control block, and
the UDP handler calls `udp_remove`.

Each allocation is an input (`Allocs`, `0` for `NULL`). The registry is
`SessionList.State` and the handler's calls on it are steps of
`SessionList.system`; the pool is `ThreadPool.HevThreadPool`, submitted to by
`ThreadPool.hevThreadPoolSubmit`. The engine records the live session
objects with the control block each was created on, and the live task data
with its session.

* A failed handler leaves the registry, the worker queue and the live task
  data as they were (`startSession_failed`), and its registry stays a run of
  the registry's system (`startSession_reachable`).
* The session object it created stays allocated, bound to the control block
  that lwIP aborts or `udp_remove` frees, on every failure after the
  constructor succeeded (`startSession_sessions`): the source frees the task
  data, never the session.
* A `NULL` node in `insert_session` is silent: the handler succeeds with its
  task queued, and the session is not in the registry
  (`startSession_started`).
-/

namespace HevTunnel.Socks5Tunnel

open ThreadPool (hevThreadPoolSubmit)

/-- `ERR_OK` of lwIP's `err_t`. -/
def errOk : Int := 0

/-- `ERR_MEM`. -/
def errMem : Int := -1

/-- `ERR_RST`. -/
def errRst : Int := -14

/-- The address of `session_task_wrapper`, the task both handlers submit (a
    function, never `NULL`). -/
def sessionTaskWrapper : Nat := 1

/-- What the allocations of a handler return, `0` for `NULL`. -/
structure Allocs where
  /-- The session constructor. -/
  session : Nat
  /-- `malloc` of the `SessionTaskData`. -/
  taskData : Nat
  /-- `malloc` of the node in `insert_session`. -/
  node : Nat
  /-- `malloc` of the work item in `hev_thread_pool_submit`. -/
  item : Nat
  deriving DecidableEq

/-- What the handlers read and change. -/
structure Engine where
  /-- `run`. -/
  run : Bool
  /-- The session registry, with the abstract list of its sessions. -/
  registry : SessionList.State
  /-- `thread_pool`. -/
  pool : ThreadPool.HevThreadPool
  /-- The live session objects, each with the control block it was created on. -/
  sessions : List (Nat × Nat)
  /-- The live `SessionTaskData` blocks, each with its session. -/
  taskData : List (Nat × Nat)
  /-- The UDP control blocks passed to `udp_remove`. -/
  removed : List Nat

/-- How the path the handlers share ends. -/
inductive Outcome
  /-- The task is queued. -/
  | started
  /-- The session constructor returned `NULL`. -/
  | noSession
  /-- `malloc` of the `SessionTaskData` returned `NULL`. -/
  | noTaskData
  /-- `hev_thread_pool_submit` returned `-1`: the session is removed from the
      registry and its task data freed. -/
  | notSubmitted
  deriving DecidableEq

/-- The path both handlers share once the control block is accepted: create
    the session, allocate its task data, `insert_session`,
    `hev_thread_pool_submit`, and on a failed submit `remove_session` and
    `free (task_data)` (the block allocated and freed on that path is not
    live after it). `none` when the loop of `remove_session` runs out of its
    `fuel` turns, or `malloc` returns a node in use. -/
def startSession (e : Engine) (pcb : Nat) (a : Allocs) (fuel : Nat) :
    Option (Outcome × Engine) :=
  if a.session = 0 then some (.noSession, e)
  else if a.taskData = 0 then
    some (.noTaskData, { e with sessions := (a.session, pcb) :: e.sessions })
  else match SessionList.next e.registry fuel (.insert a.session a.node) with
    | none => none
    | some registry =>
      let r := hevThreadPoolSubmit e.pool sessionTaskWrapper a.taskData a.item
      if r.1 < 0 then
        (SessionList.next registry fuel (.remove a.session)).map fun registry =>
          (.notSubmitted,
            { e with registry := registry, pool := r.2, sessions := (a.session, pcb) :: e.sessions })
      else
        some (.started,
          { e with
            registry := registry, pool := r.2, sessions := (a.session, pcb) :: e.sessions,
            taskData := (a.taskData, a.session) :: e.taskData })

/-- `tcp_accept_handler (arg, pcb, err)` and what it returns; lwIP aborts the
    control block on any value but `ERR_OK`. -/
def tcpAcceptHandler (e : Engine) (pcb : Nat) (err : Int) (a : Allocs) (fuel : Nat) :
    Option (Int × Engine) :=
  if err ≠ errOk then some (err, e)
  else if !e.run then some (errRst, e)
  else (startSession e pcb a fuel).map fun r => (if r.1 = .started then errOk else errMem, r.2)

/-- `udp_recv_handler (arg, pcb, p, addr, port)`, `mappedDns` saying that
    mapped DNS is on and the datagram is an IPv4 query to its address and
    port; that query is answered, and the control block removed, as it is
    when `run` is clear. -/
def udpRecvHandler (e : Engine) (pcb : Nat) (mappedDns : Bool) (a : Allocs) (fuel : Nat) :
    Option Engine :=
  if !e.run then some { e with removed := pcb :: e.removed }
  else if mappedDns then some { e with removed := pcb :: e.removed }
  else (startSession e pcb a fuel).map fun r =>
    if r.1 = .started then r.2 else { r.2 with removed := pcb :: r.2.removed }

/-! ## The shared path -/

section StartSession

variable {e e' : Engine} {pcb fuel : Nat} {a : Allocs} {o : Outcome}

/-- Whatever the outcome, the session object the constructor created stays
    live, bound to the control block. -/
theorem startSession_sessions (h : startSession e pcb a fuel = some (o, e')) :
    e'.sessions = if a.session = 0 then e.sessions else (a.session, pcb) :: e.sessions := by
  unfold startSession at h
  split_ifs at h with hs ht
  · cases h; simp [hs]
  · cases h; simp [hs]
  split at h
  · cases h
  dsimp only at h
  split_ifs at h
  · obtain ⟨_, -, h⟩ := Option.map_eq_some'.1 h
    cases h; simp [hs]
  · cases h; simp [hs]

/-- A failure leaves the registry of a fresh session, the queue and the live
    task data as they were. -/
theorem startSession_failed (h : startSession e pcb a fuel = some (o, e')) (ho : o ≠ .started)
    (hfresh : a.session ∉ e.registry.sessions) :
    e'.registry.sessions = e.registry.sessions ∧ e'.pool = e.pool ∧ e'.taskData = e.taskData := by
  unfold startSession at h
  split_ifs at h with hs ht
  · cases h; exact ⟨rfl, rfl, rfl⟩
  · cases h; exact ⟨rfl, rfl, rfl⟩
  split at h
  · cases h
  rename_i registry hins
  dsimp only at h
  split_ifs at h with hr
  · obtain ⟨registry', hrem, h⟩ := Option.map_eq_some'.1 h
    cases h
    refine ⟨?_, ThreadPool.hevThreadPoolSubmit_failed hr, rfl⟩
    rw [SessionList.next_remove_sessions hrem, SessionList.next_insert_sessions hins]
    split_ifs
    · exact List.erase_of_not_mem hfresh
    · rw [List.erase_append_right _ hfresh, List.erase_cons_head, List.append_nil]
  · cases h; exact absurd rfl ho

/-- A started session: its task data holds it and is queued by a successful
    submit, and the registry holds it unless `malloc` gave no node. -/
theorem startSession_started (h : startSession e pcb a fuel = some (.started, e')) :
    a.session ≠ 0 ∧ a.taskData ≠ 0 ∧ e'.taskData = (a.taskData, a.session) :: e.taskData ∧
      hevThreadPoolSubmit e.pool sessionTaskWrapper a.taskData a.item = (0, e'.pool) ∧
      e'.registry.sessions =
        if a.node = 0 then e.registry.sessions else e.registry.sessions ++ [a.session] := by
  unfold startSession at h
  split_ifs at h with hs ht
  · cases h
  · cases h
  split at h
  · cases h
  rename_i registry hins
  dsimp only at h
  split_ifs at h with hr
  · obtain ⟨_, -, h⟩ := Option.map_eq_some'.1 h
    cases h
  · cases h
    refine ⟨hs, ht, rfl, ?_, SessionList.next_insert_sessions hins⟩
    have h₀ := ThreadPool.hevThreadPoolSubmit_fst e.pool sessionTaskWrapper a.taskData a.item
    exact Prod.ext (by omega) rfl

/-- The pool after the shared path: the one the submit left when the session
    started, else the pool as it was (a failed submit changes nothing). -/
theorem startSession_pool (h : startSession e pcb a fuel = some (o, e')) :
    e'.pool = if o = .started then (hevThreadPoolSubmit e.pool sessionTaskWrapper a.taskData a.item).2
      else e.pool := by
  unfold startSession at h
  split_ifs at h
  · cases h; simp
  · cases h; simp
  split at h
  · cases h
  dsimp only at h
  split_ifs at h with hr
  · obtain ⟨_, -, h⟩ := Option.map_eq_some'.1 h
    cases h
    exact (ThreadPool.hevThreadPoolSubmit_failed hr).symm ▸ by simp
  · cases h; simp

/-- The registry stays a run of the registry's system. -/
theorem startSession_reachable (hr : SessionList.system.Reachable e.registry)
    (h : startSession e pcb a fuel = some (o, e')) : SessionList.system.Reachable e'.registry := by
  unfold startSession at h
  split_ifs at h
  · cases h; exact hr
  · cases h; exact hr
  split at h
  · cases h
  rename_i registry hins
  have r₁ := SessionList.reachable_next hr fuel _ hins
  dsimp only at h
  split_ifs at h
  · obtain ⟨_, hrem, h⟩ := Option.map_eq_some'.1 h
    cases h
    exact SessionList.reachable_next r₁ fuel _ hrem
  · cases h; exact r₁

/-- The shared path leaves `run` and the removed control blocks alone. -/
theorem startSession_removed (h : startSession e pcb a fuel = some (o, e')) :
    e'.removed = e.removed := by
  unfold startSession at h
  split_ifs at h
  · cases h; rfl
  · cases h; rfl
  split at h
  · cases h
  dsimp only at h
  split_ifs at h
  · obtain ⟨_, -, h⟩ := Option.map_eq_some'.1 h
    cases h; rfl
  · cases h; rfl

end StartSession

/-! ## The handlers -/

section Handlers

variable {e e' : Engine} {pcb fuel : Nat} {a : Allocs}

/-- A TCP handler past its checks returns `ERR_MEM` exactly when the shared
    path did not start the session. -/
theorem tcpAcceptHandler_eq (hrun : e.run = true) :
    tcpAcceptHandler e pcb errOk a fuel =
      (startSession e pcb a fuel).map fun r => (if r.1 = .started then errOk else errMem, r.2) := by
  simp [tcpAcceptHandler, hrun]

/-- A TCP handler that fails past its checks ended the shared path without
    starting the session. -/
theorem tcpAcceptHandler_failed (hrun : e.run = true) {r : Int}
    (h : tcpAcceptHandler e pcb errOk a fuel = some (r, e')) (hr : r ≠ errOk) :
    ∃ o, o ≠ .started ∧ startSession e pcb a fuel = some (o, e') := by
  rw [tcpAcceptHandler_eq hrun] at h
  obtain ⟨⟨o, e''⟩, hs, h⟩ := Option.map_eq_some'.1 h
  obtain ⟨rfl, rfl⟩ := Prod.mk.inj h
  exact ⟨o, fun ho => hr (by simp [ho]), hs⟩

/-- A TCP handler returns `ERR_OK` only when `run` is set and the shared path
    started the session. -/
theorem tcpAcceptHandler_ok (h : tcpAcceptHandler e pcb errOk a fuel = some (errOk, e')) :
    startSession e pcb a fuel = some (.started, e') := by
  have hrun : e.run = true := by
    by_contra hrun
    simp [tcpAcceptHandler, hrun, errRst, errOk] at h
  rw [tcpAcceptHandler_eq hrun] at h
  obtain ⟨⟨o, e''⟩, hs, h⟩ := Option.map_eq_some'.1 h
  obtain ⟨ho, rfl⟩ := Prod.mk.inj h
  by_cases hst : o = .started
  · exact hst ▸ hs
  · simp [hst, errMem, errOk] at ho

/-- A UDP handler that removes the control block on its session path ended
    the shared path without starting the session. -/
theorem udpRecvHandler_failed (hrun : e.run = true)
    (h : udpRecvHandler e pcb false a fuel = some e') (hrem : e'.removed = pcb :: e.removed) :
    ∃ o e'', o ≠ .started ∧ startSession e pcb a fuel = some (o, e'') ∧
      e' = { e'' with removed := pcb :: e''.removed } := by
  simp only [udpRecvHandler, hrun, Bool.not_true, Bool.false_eq_true, if_false] at h
  obtain ⟨⟨o, e''⟩, hs, h⟩ := Option.map_eq_some'.1 h
  by_cases ho : o = .started
  · subst ho
    simp only [if_true] at h
    subst h
    rw [startSession_removed hs] at hrem
    exact absurd hrem (List.cons_ne_self _ _).symm
  · simp only [ho, if_false] at h
    exact ⟨o, e'', ho, hs, h.symm⟩

end Handlers

/-- An engine that runs, with an empty registry and an empty queue served
    by one worker. -/
def idleEngine : Engine :=
  ⟨true, ⟨SessionList.empty, []⟩,
    { numThreads := 1, shutdown := false, queueHead := 0, queueTail := 0, queueSize := 0,
      activeThreads := 0, items := fun _ => none }, [], [], []⟩

/-- The handlers are all-or-nothing for the registry and the worker queue,
    not for the session object: on every failure after the constructor
    succeeded (TCP returning `ERR_MEM`, UDP removing its control block), the
    registry, the queue and the live task data are as they were, but the
    session object stays live, bound to the aborted or removed control
    block. A `NULL` registry node still gives `ERR_OK`, with the task queued
    and the session not registered. Runs from `idleEngine`: a TCP submit
    whose work item is `NULL`, a UDP session whose task data is `NULL`, and a
    TCP session whose registry node is `NULL`. -/
theorem accept_failure_leaks_session :
    (∀ e pcb a fuel r e', e.run = true → tcpAcceptHandler e pcb errOk a fuel = some (r, e') →
      r ≠ errOk → a.session ∉ e.registry.sessions →
      e'.registry.sessions = e.registry.sessions ∧ e'.pool = e.pool ∧ e'.taskData = e.taskData ∧
        e'.sessions = if a.session = 0 then e.sessions else (a.session, pcb) :: e.sessions) ∧
    (∀ e pcb a fuel e', e.run = true → udpRecvHandler e pcb false a fuel = some e' →
      e'.removed = pcb :: e.removed → a.session ∉ e.registry.sessions →
      e'.registry.sessions = e.registry.sessions ∧ e'.pool = e.pool ∧ e'.taskData = e.taskData ∧
        e'.sessions = if a.session = 0 then e.sessions else (a.session, pcb) :: e.sessions) ∧
    (∀ e pcb a fuel e', tcpAcceptHandler e pcb errOk a fuel = some (errOk, e') → a.node = 0 →
      e'.registry.sessions = e.registry.sessions ∧
        e'.taskData = (a.taskData, a.session) :: e.taskData ∧
        hevThreadPoolSubmit e.pool sessionTaskWrapper a.taskData a.item = (0, e'.pool)) ∧
    (∃ e', tcpAcceptHandler idleEngine 5 errOk ⟨7, 8, 9, 0⟩ 2 = some (errMem, e') ∧
      e'.registry.sessions = [] ∧ e'.pool.queueSize = 0 ∧ e'.sessions = [(7, 5)]) ∧
    (∃ e', udpRecvHandler idleEngine 5 false ⟨7, 0, 0, 0⟩ 0 = some e' ∧
      e'.removed = [5] ∧ e'.sessions = [(7, 5)]) ∧
    ∃ e', tcpAcceptHandler idleEngine 5 errOk ⟨7, 8, 0, 9⟩ 0 = some (errOk, e') ∧
      e'.registry.sessions = [] ∧ e'.pool.queueHead = 9 ∧
      e'.pool.items 9 = some ⟨sessionTaskWrapper, 8, 0⟩ := by
  refine ⟨fun e pcb a fuel r e' hrun h hr hfresh => ?_, fun e pcb a fuel e' hrun h hrem hfresh => ?_,
    fun e pcb a fuel e' h hn => ?_, ⟨_, rfl, rfl, rfl, rfl⟩, ⟨_, rfl, rfl, rfl⟩,
    ⟨_, rfl, rfl, rfl, rfl⟩⟩
  · obtain ⟨o, ho, hs⟩ := tcpAcceptHandler_failed hrun h hr
    obtain ⟨h₁, h₂, h₃⟩ := startSession_failed hs ho hfresh
    exact ⟨h₁, h₂, h₃, startSession_sessions hs⟩
  · obtain ⟨o, e'', ho, hs, rfl⟩ := udpRecvHandler_failed hrun h hrem
    obtain ⟨h₁, h₂, h₃⟩ := startSession_failed hs ho hfresh
    have h₄ := startSession_sessions hs
    exact ⟨h₁, h₂, h₃, h₄⟩
  · obtain ⟨-, -, ht, hq, hreg⟩ := startSession_started (tcpAcceptHandler_ok h)
    exact ⟨by rw [hreg, if_pos hn], ht, hq⟩

end HevTunnel.Socks5Tunnel
