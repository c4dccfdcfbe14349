import HevTunnel.Socks5Tunnel.Handlers

/-!
# The life of a session

A session starts on the lwIP thread, in `tcp_accept_handler` or
`udp_recv_handler` (the path they share is `startSession`), and ends on a
worker of the thread pool, in `session_task_wrapper`: once the session's run
function returns, the wrapper calls `remove_session (task_data->session)`
and frees the `SessionTaskData`. `hev_socks5_tunnel_fini` destroys the pool,
whose workers first drain its queue, and then frees the nodes left in the
registry.

The system here runs the three together, in any interleaving:

* a handler past its checks is one step (handlers are serialised by
  `lwip_mutex`; their calls on the registry and on the queue are under
  `session_mutex` and `queue_mutex`, and no worker sees their session before
  the submit); each allocation returns a block not in use;
* the pool's workers and `hev_thread_pool_destroy` move as `ThreadPool.next`
  has them, the step that runs a task running the wrapper's clean-up;
* `hev_socks5_tunnel_run` and `_stop` write `run`; the clean-up of `fini`
  runs once the pool is destroyed.

Proved of every reachable state (`session_tasks_conserved`): each live
`SessionTaskData` is the data of exactly one task the pool accepted and has
not run, and each registered session has live task data. Hence
(`destroyed_pool_clears_sessions`) once `hev_thread_pool_destroy` has
returned no task data is live and the registry is empty: the clean-up loop
of `fini` finds nothing to free.
-/

namespace HevTunnel.Socks5Tunnel.Sessions

open ThreadPool (Job HevWorkItem)

/-- The handlers, the registry, and the pool with its threads. -/
structure State where
  /-- The pool, its workers and `destroy`, with the tasks accepted and run. -/
  tp : ThreadPool.State
  /-- `run`. -/
  run : Bool
  /-- The session registry. -/
  registry : SessionList.State
  /-- The live session objects, each with its control block. -/
  sessions : List (Nat × Nat)
  /-- The live `SessionTaskData` blocks, each with its session. -/
  taskData : List (Nat × Nat)

/-- What the handlers read and write. -/
def State.engine (s : State) : Engine := ⟨s.run, s.registry, s.tp.pool, s.sessions, s.taskData, []⟩

/-- The state after the shared path of a handler ended as `o` with `e`; a
    started session's task, on the task data `data`, is accepted by the pool. -/
def State.handled (s : State) (data : Nat) (o : Outcome) (e : Engine) : State :=
  { s with
    tp := { s.tp with
      pool := e.pool
      accepted := if o = .started then s.tp.accepted ++ [(sessionTaskWrapper, data)]
        else s.tp.accepted }
    registry := e.registry
    sessions := e.sessions
    taskData := e.taskData }

/-- The clean-up of `session_task_wrapper (data)` once the session's run
    function has returned: `remove_session (task_data->session)`, its loop
    run with `fuel` turns, and `free (task_data)`. `none` when `data` is not
    live task data. -/
def State.cleanUp (s : State) (data fuel : Nat) : Option State := do
  let p ← s.taskData.find? (·.1 == data)
  let registry ← SessionList.next s.registry fuel (.remove p.2)
  pure { s with registry := registry, taskData := s.taskData.erase p }

/-- Who moves. -/
inductive Event
  /-- A handler past its checks runs the shared path on the control block
      `pcb`, the remove loop of a failed submit with `fuel` turns. -/
  | accept (pcb : Nat) (a : Allocs) (fuel : Nat)
  /-- A step of the worker `i`; a task it runs is `session_task_wrapper`,
      its remove loop with `fuel` turns. -/
  | worker (i fuel : Nat)
  | destroy
  /-- `hev_socks5_tunnel_run` or `hev_socks5_tunnel_stop` writes `run`. -/
  | setRun (b : Bool)
  /-- The clean-up of `hev_socks5_tunnel_fini`, its loop with `fuel` turns. -/
  | clear (fuel : Nat)

/-- One step. A handler runs while `run` is set and the pool is not being
    destroyed, the constructor, `malloc` of the task data and of the work
    item each returning a block not in use. -/
def next (s : State) : Event → Option State
  | .accept pcb a fuel =>
    if s.run ∧ s.tp.destroyer = .idle ∧ s.tp.pool.items a.item = none ∧
        a.session ∉ s.sessions.map Prod.fst ∧ a.taskData ∉ s.taskData.map Prod.fst then
      (startSession s.engine pcb a fuel).map fun r => s.handled a.taskData r.1 r.2
    else none
  | .worker i fuel =>
    if i < s.tp.pool.numThreads then
      (ThreadPool.workerStep s.tp i).bind fun tp =>
        match s.tp.workers i with
        | .execute item => (s.tp.pool.items item).bind fun n => { s with tp := tp }.cleanUp n.data fuel
        | _ => some { s with tp := tp }
    else none
  | .destroy => (ThreadPool.destroyStep s.tp).map fun tp => { s with tp := tp }
  | .setRun b => some { s with run := b }
  | .clear fuel =>
    if s.tp.destroyer = .done then
      (SessionList.next s.registry fuel .clear).map fun registry => { s with registry := registry }
    else none

/-- The pool as `hev_thread_pool_new` leaves it, `run` clear, no session. -/
def initial (numThreads nprocs : Int) : State :=
  ⟨ThreadPool.initial numThreads nprocs, false, ⟨SessionList.empty, []⟩, [], []⟩

def system : System State where
  init s := ∃ numThreads nprocs, s = initial numThreads nprocs
  step s s' := ∃ e, next s e = some s'

theorem reachable_next {s s' : State} (hs : system.Reachable s) (e : Event)
    (h : next s e = some s') : system.Reachable s' :=
  hs.step ⟨e, h⟩

/-! ## The pool's side -/

section Pool

open ThreadPool

variable {t t' : ThreadPool.State}

theorem workerStep_ghosts {i : Nat} (h : workerStep t i = some t') :
    t'.accepted = t.accepted ∧
      t'.ran = t.ran ++ match t.workers i with
        | .execute x => ((t.pool.items x).map HevWorkItem.job).toList
        | _ => [] := by
  unfold workerStep at h
  split at h <;> rename_i hw <;> simp only [hw]
  · -- the section under `queue_mutex` dequeues, exits, or waits
    split at h
    · cases h
    split at h
    · cases h; simp
    dsimp only at h
    split at h
    · cases h; simp
    split at h
    · cases h
    · cases h; simp
  · split at h
    · cases h
    · rename_i hn; cases h; simp [hn]
  · cases h; simp
  · cases h; simp
  · cases h

theorem destroyStep_ghosts (h : destroyStep t = some t') :
    t'.accepted = t.accepted ∧ t'.ran = t.ran := by
  unfold destroyStep at h
  split at h
  · cases h; simp
  · split_ifs at h <;> cases h <;> simp
  · dsimp only at h
    split_ifs at h
    · cases h; simp
    split at h
    · cases h
    · cases h; simp
  · cases h

/-- A task a worker is about to run has been accepted and has not run. -/
theorem pending_of_execute (hi : ThreadPool.Inv t) {i x : Nat} {n : HevWorkItem}
    (hiK : i < t.pool.numThreads) (hw : t.workers i = .execute x) (hn : t.pool.items x = some n) :
    (t.ran : Multiset Job) + {n.job} ≤ t.accepted := by
  obtain ⟨ps, hq⟩ := hi.queue
  have hrun : ({n.job} : Multiset Job) ≤ running t.pool.items t.workers t.pool.numThreads := by
    have h₁ : (t.workers i).running t.pool.items = {n.job} := by simp [Worker.running, hw, hn]
    rw [← h₁]
    exact Finset.single_le_sum (f := fun j => (t.workers j).running t.pool.items)
      (fun _ _ => zero_le _) (Finset.mem_range.2 hiK)
  calc (t.ran : Multiset Job) + {n.job}
      ≤ t.ran + running t.pool.items t.workers t.pool.numThreads := add_le_add_left hrun _
    _ = t.dequeued := hi.ran
    _ ≤ t.accepted := by rw [← hq.fifo, ← Multiset.coe_add]; exact Multiset.le_add_right _ _

/-- Once `destroy` has returned, every accepted task has run. -/
theorem ran_of_done (hi : ThreadPool.Inv t) (hd : t.destroyer = .done) :
    (t.ran : Multiset Job) = t.accepted := by
  obtain ⟨ps, hq⟩ := hi.queue
  have hps : ps = [] := hq.queue.head_eq_zero.1 (hi.head_of_joined (.inr hd))
  have hrun : running t.pool.items t.workers t.pool.numThreads = 0 :=
    Finset.sum_eq_zero fun j hj => by rw [hi.joined_all (.inr hd) j (Finset.mem_range.1 hj)]; rfl
  have hdeq : t.dequeued = t.accepted := by simpa [hps, jobs] using hq.fifo
  rw [← hdeq, ← hi.ran, hrun, add_zero]

end Pool

/-- A registry holding no session is empty: `session_list_head` and
    `session_list_tail` are `NULL` and `session_count` is zero. -/
theorem registry_empty {r : SessionList.State} (hr : SessionList.system.Reachable r)
    (h : r.sessions = []) : r.reg.head = 0 ∧ r.reg.tail = 0 ∧ r.reg.count = 0 := by
  obtain ⟨ps, hd, hc, hs⟩ := SessionList.reachable_inv hr
  cases ps with
  | nil => exact ⟨hd.head_eq_zero.2 rfl, hd.tail_eq_zero.2 rfl, by simpa using hc⟩
  | cons x ps =>
    obtain ⟨n, hn⟩ := Option.ne_none_iff_exists'.1 (hd.seg.mem x (List.mem_cons_self _ _)).2
    rw [SessionList.sessionsOf_cons hn, h] at hs
    cases hs

/-- `List.perm_cons_erase`, for the `BEq` of the list's elements. -/
theorem perm_cons_erase_beq {α : Type} [BEq α] [LawfulBEq α] {a : α} {l : List α} (h : a ∈ l) :
    l.Perm (a :: l.erase a) :=
  let ⟨_, _, _, e₁, e₂⟩ := List.exists_erase_eq h
  e₂ ▸ e₁ ▸ List.perm_middle

/-! ## The invariant -/

/-- The task whose data is the live block `p`. -/
def taskOf (p : Nat × Nat) : Job := (sessionTaskWrapper, p.1)

/-- The pool and the registry are runs of their systems; each live task
    data block is the data of one accepted task not yet run; each registered
    session has live task data, whose session is a live object. -/
structure Inv (s : State) : Prop where
  tp : ThreadPool.system.Reachable s.tp
  registry : SessionList.system.Reachable s.registry
  conserved : ((s.taskData.map taskOf : List Job) : Multiset Job) + s.tp.ran = s.tp.accepted
  registered : (s.registry.sessions : Multiset Nat) ≤ (s.taskData.map Prod.snd : List Nat)
  live : ∀ p ∈ s.taskData, p.2 ∈ s.sessions.map Prod.fst

theorem inv_initial (numThreads nprocs : Int) : Inv (initial numThreads nprocs) where
  tp := .init ⟨numThreads, nprocs, rfl⟩
  registry := .init rfl
  conserved := by simp [initial, ThreadPool.initial]
  registered := by simp [initial]
  live := by simp [initial]

section Steps

variable {s : State}

theorem Inv.accept (hi : Inv s) {pcb fuel : Nat} {a : Allocs} {o : Outcome} {e : Engine}
    (hidle : s.tp.destroyer = .idle) (hitem : s.tp.pool.items a.item = none)
    (hses : a.session ∉ s.sessions.map Prod.fst) (h : startSession s.engine pcb a fuel = some (o, e)) :
    Inv (s.handled a.taskData o e) := by
  have hreg : SessionList.system.Reachable e.registry := startSession_reachable hi.registry h
  have hsess := startSession_sessions h
  by_cases ho : o = .started
  · subst ho
    obtain ⟨hs0, -, htd, hsub, hrs⟩ := startSession_started h
    have htp : (s.handled a.taskData .started e).tp =
        ThreadPool.submit s.tp sessionTaskWrapper a.taskData a.item := by
      simp only [State.handled, ThreadPool.submit, State.engine] at hsub ⊢
      rw [hsub]; rfl
    refine ⟨htp ▸ ThreadPool.reachable_next hi.tp (.submit sessionTaskWrapper a.taskData a.item)
      (by simp [ThreadPool.next, hidle, hitem]),
      hreg, ?_, ?_, ?_⟩
    · have hc := Multiset.coe_eq_coe.1 (Multiset.coe_add _ _ ▸ hi.conserved)
      simp only [State.handled, State.engine, htd, if_true, List.map_cons, Multiset.coe_add,
        Multiset.coe_eq_coe, List.cons_append]
      exact (hc.cons _).trans (List.perm_append_singleton _ _).symm
    · simp only [State.handled, State.engine, htd, hrs, List.map_cons, ← Multiset.cons_coe]
      split_ifs
      · exact hi.registered.trans (Multiset.le_cons_self _ _)
      · rw [← Multiset.coe_add, Multiset.coe_singleton, add_comm, Multiset.singleton_add]
        exact Multiset.cons_le_cons _ hi.registered
    · simp only [State.handled, State.engine, htd, hsess, if_neg hs0, List.mem_cons, List.map_cons]
      rintro p (rfl | hp)
      · exact .inl rfl
      · exact .inr (hi.live p hp)
  · -- a fresh session is in no registry entry, so the failure undoes everything
    have hfresh : a.session ∉ s.registry.sessions := fun hm => by
      obtain ⟨p, hp, hpe⟩ := List.mem_map.1 (Multiset.mem_of_le hi.registered hm)
      exact hses (hpe ▸ hi.live p hp)
    obtain ⟨hrs, hpool, htd⟩ := startSession_failed h ho hfresh
    have htp : (s.handled a.taskData o e).tp = s.tp := by
      simp only [State.handled, hpool, State.engine, if_neg ho]
    refine ⟨htp ▸ hi.tp, hreg, ?_, ?_, ?_⟩
    · simpa only [State.handled, htd, if_neg ho, State.engine] using hi.conserved
    · simpa only [State.handled, htd, hrs, State.engine] using hi.registered
    · intro p hp
      simp only [State.handled, htd, State.engine] at hp ⊢
      rw [hsess]
      split_ifs
      · exact hi.live p hp
      · exact List.mem_cons_of_mem _ (hi.live p hp)

/-- The wrapper's clean-up, run by a worker on the task it dequeued: it
    finds the task data live, removes its session, and frees it. -/
theorem Inv.run_task (hi : Inv s) {i x fuel : Nat} {n : HevWorkItem} {tp : ThreadPool.State}
    {s' : State} (hiK : i < s.tp.pool.numThreads) (hw : s.tp.workers i = .execute x)
    (hn : s.tp.pool.items x = some n) (hstep : ThreadPool.workerStep s.tp i = some tp)
    (h : { s with tp := tp }.cleanUp n.data fuel = some s') : Inv s' := by
  obtain ⟨hacc, hran⟩ := workerStep_ghosts hstep
  simp only [hw, hn, Option.map_some', Option.toList_some] at hran
  -- the task is pending, so its data is live
  have hmem : n.job ∈ (s.taskData.map taskOf : List Job) := by
    have h₁ := pending_of_execute (ThreadPool.reachable_inv hi.tp) hiK hw hn
    rw [← hi.conserved, add_comm] at h₁
    exact Multiset.singleton_le.1 (le_of_add_le_add_right h₁)
  obtain ⟨q, hq, hjob⟩ := List.mem_map.1 hmem
  simp only [State.cleanUp, Option.bind_eq_bind] at h
  obtain ⟨p, hp, h⟩ := Option.bind_eq_some.1 h
  obtain ⟨reg', hrem, h⟩ := Option.bind_eq_some.1 h
  cases h
  have hpL : p ∈ s.taskData := List.mem_of_find?_eq_some hp
  have hpq : taskOf p = n.job := by
    have := List.find?_some hp
    simp only [beq_iff_eq] at this
    rw [← hjob]; simp only [taskOf, this, ← show q.1 = n.data from congrArg Prod.snd hjob]
  -- the task data of `p` leaves the live blocks as its task enters `ran`
  have hperm : ((s.taskData.erase p).map taskOf ++ (s.tp.ran ++ [taskOf p])).Perm
      (s.taskData.map taskOf ++ s.tp.ran) :=
    have hL : (s.taskData.map taskOf).Perm (taskOf p :: (s.taskData.erase p).map taskOf) :=
      (perm_cons_erase_beq hpL).map taskOf
    ((List.perm_append_singleton _ _).append_left _).trans <| List.perm_middle.trans
      (hL.append_right _).symm
  have hsnd : ((s.taskData.map Prod.snd).erase p.2).Perm ((s.taskData.erase p).map Prod.snd) := by
    simpa using ((perm_cons_erase_beq hpL).map Prod.snd).erase p.2
  refine ⟨ThreadPool.reachable_next hi.tp (.worker i) (by simp [ThreadPool.next, hiK, hstep]),
    SessionList.reachable_next hi.registry fuel _ hrem, ?_, ?_, ?_⟩
  · dsimp only
    rw [hacc, hran, ← hpq, ← hi.conserved, Multiset.coe_add, Multiset.coe_add]
    exact Multiset.coe_eq_coe.2 hperm
  · dsimp only
    rw [SessionList.next_remove_sessions hrem]
    exact Multiset.coe_le.2 (((Multiset.coe_le.1 hi.registered).erase p.2).trans hsnd.subperm)
  · exact fun r hr => hi.live r (List.mem_of_mem_erase hr)

theorem Inv.worker (hi : Inv s) {i fuel : Nat} {s' : State} (h : next s (.worker i fuel) = some s') :
    Inv s' := by
  simp only [next] at h
  split_ifs at h with hiK
  obtain ⟨tp, hstep, h⟩ := Option.bind_eq_some.1 h
  have htp : ThreadPool.system.Reachable tp :=
    ThreadPool.reachable_next hi.tp (.worker i) (by simp [ThreadPool.next, hiK, hstep])
  obtain ⟨hacc, hran⟩ := workerStep_ghosts hstep
  cases hw : s.tp.workers i with
  | execute x =>
    simp only [hw] at h
    obtain ⟨n, hn, h⟩ := Option.bind_eq_some.1 h
    exact hi.run_task hiK hw hn hstep h
  | _ =>
    simp only [hw, Option.some.injEq, List.append_nil] at h hran
    subst h
    exact ⟨htp, hi.registry, by rw [hacc, hran]; exact hi.conserved, hi.registered, hi.live⟩

theorem inv_next (hi : Inv s) {e : Event} {s' : State} (h : next s e = some s') : Inv s' := by
  cases e with
  | accept pcb a fuel =>
    simp only [next] at h
    split_ifs at h with hg
    obtain ⟨⟨o, e⟩, hss, rfl⟩ := Option.map_eq_some'.1 h
    exact hi.accept hg.2.1 hg.2.2.1 hg.2.2.2.1 hss
  | worker i fuel => exact hi.worker h
  | destroy =>
    obtain ⟨tp, hstep, rfl⟩ := Option.map_eq_some'.1 h
    obtain ⟨hacc, hran⟩ := destroyStep_ghosts hstep
    exact ⟨ThreadPool.reachable_next hi.tp .destroy hstep, hi.registry,
      by simpa [hacc, hran] using hi.conserved, hi.registered, hi.live⟩
  | setRun b =>
    cases h
    exact ⟨hi.tp, hi.registry, hi.conserved, hi.registered, hi.live⟩
  | clear fuel =>
    simp only [next] at h
    split_ifs at h
    obtain ⟨reg, hc, rfl⟩ := Option.map_eq_some'.1 h
    have : reg.sessions = [] := by
      obtain ⟨_, -, h⟩ := Option.map_eq_some'.1 hc
      rw [← h]
    exact ⟨hi.tp, SessionList.reachable_next hi.registry fuel _ hc, hi.conserved,
      by simp [this], hi.live⟩

theorem reachable_inv (hs : system.Reachable s) : Inv s :=
  System.reachable_induction (fun _ ⟨_, _, h⟩ => h ▸ inv_initial _ _)
    (fun _ _ _ hi ⟨_, h⟩ => inv_next hi h) hs

end Steps

/-! ## Every interleaving -/

/-- Under every interleaving of the handlers, the pool's workers,
    `run`/`stop` and `destroy`: each live `SessionTaskData` is the data of
    exactly one task the pool accepted and has not run (so none is freed
    twice or outlives its task), and each session in the registry has live
    task data. -/
theorem session_tasks_conserved {s : State} (hs : system.Reachable s) :
    ((s.taskData.map taskOf : List Job) : Multiset Job) + s.tp.ran = s.tp.accepted ∧
      (s.registry.sessions : Multiset Nat) ≤ (s.taskData.map Prod.snd : List Nat) :=
  let hi := reachable_inv hs
  ⟨hi.conserved, hi.registered⟩

/-- A session accepted on the control block `5` (session `7`, task data `8`,
    node `9`, work item `10`): registered, its task queued. -/
theorem session_tasks_conserved_accepted : ∃ s, system.Reachable s ∧
    s.taskData = [(8, 7)] ∧ s.registry.sessions = [7] ∧ s.tp.accepted = [(sessionTaskWrapper, 8)] ∧
    (((s.taskData.map taskOf : List Job) : Multiset Job) + s.tp.ran = s.tp.accepted ∧
      (s.registry.sessions : Multiset Nat) ≤ (s.taskData.map Prod.snd : List Nat)) := by
  have r₁ := reachable_next (.init ⟨1, 1, rfl⟩) (.setRun true) rfl
  have r₂ := reachable_next r₁ (.accept 5 ⟨7, 8, 9, 10⟩ 2) rfl
  exact ⟨_, r₂, rfl, rfl, rfl, session_tasks_conserved r₂⟩

/-- Once `hev_thread_pool_destroy` has returned, every task data block has
    been freed and the registry is empty (`session_list_head` and
    `session_list_tail` `NULL`, `session_count` zero): the clean-up loop of
    `hev_socks5_tunnel_fini` frees no node. -/
theorem destroyed_pool_clears_sessions {s : State} (hs : system.Reachable s)
    (hd : s.tp.destroyer = .done) :
    s.taskData = [] ∧ s.registry.sessions = [] ∧
      s.registry.reg.head = 0 ∧ s.registry.reg.tail = 0 ∧ s.registry.reg.count = 0 := by
  have hi := reachable_inv hs
  have hc := hi.conserved
  rw [ran_of_done (ThreadPool.reachable_inv hi.tp) hd, add_left_eq_self, Multiset.coe_eq_zero,
    List.map_eq_nil_iff] at hc
  have hr : s.registry.sessions = [] := by
    simpa [hc] using hi.registered
  exact ⟨hc, hr, registry_empty hi.registry hr⟩

/-- The session of `session_tasks_conserved_accepted` run by the pool's one
    worker, then the pool destroyed. -/
theorem destroyed_pool_clears_sessions_run : ∃ s, system.Reachable s ∧
    s.tp.destroyer = .done ∧ s.tp.ran = [(sessionTaskWrapper, 8)] ∧
    (s.taskData = [] ∧ s.registry.sessions = [] ∧
      s.registry.reg.head = 0 ∧ s.registry.reg.tail = 0 ∧ s.registry.reg.count = 0) := by
  have r₁ := reachable_next (.init ⟨1, 1, rfl⟩) (.setRun true) rfl
  have r₂ := reachable_next r₁ (.accept 5 ⟨7, 8, 9, 10⟩ 2) rfl
  -- the worker dequeues the task, runs the wrapper, frees the item
  have r₃ := reachable_next r₂ (.worker 0 2) rfl
  have r₄ := reachable_next r₃ (.worker 0 2) rfl
  have r₅ := reachable_next r₄ (.worker 0 2) rfl
  have r₆ := reachable_next r₅ (.worker 0 2) rfl
  -- `destroy`: shutdown, the worker exits, joined, the queue found empty
  have r₇ := reachable_next r₆ .destroy rfl
  have r₈ := reachable_next r₇ (.worker 0 2) rfl
  have r₉ := reachable_next r₈ .destroy rfl
  have r₁₀ := reachable_next r₉ .destroy rfl
  have r₁₁ := reachable_next r₁₀ .destroy rfl
  exact ⟨_, r₁₁, rfl, rfl, destroyed_pool_clears_sessions r₁₁ rfl⟩

end HevTunnel.Socks5Tunnel.Sessions
