import HevTunnel.System
import HevTunnel.RingBuffer
import Mathlib.Data.Multiset.Basic

/-!
# The adaptive worker pool

`hev-adaptive-pool.c`: worker threads take `AdaptivePoolWork` items from a
ring (`hev-ring-buffer.h`, used here under `pool->mutex` only, so through its
sequential functions) and count themselves in `idle_threads` while they wait
on `pool->cond`; an adjuster thread calls `hev_adaptive_pool_adjust` every
`adjustment_interval` seconds, which starts a worker into
`workers[current_threads]` when the queue grows, or only decrements
`current_threads` when too many workers are idle;
`hev_adaptive_pool_destroy` clears `running`, wakes the workers, joins the
adjuster and then the workers of the first `current_threads` slots, and
frees the ring.

Every section under `pool->mutex` is one step. `adjust` runs outside the
mutex, and its `hev_ring_buffer_size` loads the ring's `head` and then its
`tail`: a call is two steps, the load of `head`, then the rest of the call
(its loads of `tail`, `idle_threads` and `current_threads`, the tests and
the count); a worker's `fetch_add` on `active_threads` is taken with the pop
before it (coarser steps only remove interleavings, so a run of this model is
a run of the code). The threads are a list, a `pthread_create` appending one;
the state carries as ghosts the work accepted by `submit` and the work run.

Two runs refute what the pool is meant to do:

* `accepted_task_dropped`: a worker sees `running` cleared before it pops, so
  `destroy` returns with an accepted task never run, still in the ring;
* `current_threads_drift`: after a scale-up and a scale-down, two workers are
  alive while `current_threads = 1`; `destroy` then joins only
  `workers[0]` and returns while the other worker still waits on the pool's
  condition variable.

What does hold, under every interleaving (`work_taken_once`): the ring is
used as a queue, tasks leave it in the order they were accepted, and each
task taken from it is run once, or is being run. The depth `adjust` reads is
the number of tasks waiting at its `tail` load less the tasks submitted since
its `head` load, modulo `4096`: exact when none was, and `4095` on an empty
ring after one task submitted and taken between the two loads.
-/

namespace HevTunnel.AdaptivePool

open RingBuffer

/-- `HevAdaptivePoolConfig`. -/
structure HevAdaptivePoolConfig where
  minThreads : Int
  maxThreads : Int
  scaleUpThreshold : Int
  scaleDownThreshold : Int
  adjustmentInterval : Int

/-- An `AdaptivePoolWork`: the task and its argument. -/
abbrev Work := Nat × Nat

/-- `AdaptivePoolWorker`: `thread` is the thread created into the slot, an
    index into the list of threads. -/
structure AdaptivePoolWorker where
  thread : Nat
  active : Bool
  shouldExit : Bool

/-- `HevAdaptivePool`. -/
structure HevAdaptivePool where
  workers : Nat → AdaptivePoolWorker
  minThreads : Int
  maxThreads : Int
  currentThreads : Int
  activeThreads : Int
  idleThreads : Int
  workQueue : HevRingBuffer Work
  running : Bool
  scaleUpThreshold : Int
  scaleDownThreshold : Int

/-- Where a thread running `worker_thread_func` is. -/
inductive Worker
  /-- At `while (atomic_load (&pool->running))`. -/
  | top
  /-- In `pthread_cond_wait`, counted in `idle_threads`. -/
  | waiting
  /-- Popped `work`: run it, free it, decrement `active_threads`. -/
  | run (work : Work)
  /-- Returned. -/
  | exited
  deriving DecidableEq

/-- Where the adjuster thread is. -/
inductive Adjuster
  /-- At the top of its loop. -/
  | running
  /-- In `hev_adaptive_pool_adjust`, `hev_ring_buffer_size` having loaded
      the ring's `head`; `submitted` is a ghost, the number of tasks
      accepted by then. -/
  | sizing (head submitted : Nat)
  | exited
  deriving DecidableEq

/-- Where `hev_adaptive_pool_destroy` is. -/
inductive Destroyer
  | idle
  /-- `running` cleared and the workers woken: join the adjuster. -/
  | joinAdjuster
  /-- Join the workers of the slots `i < count`, `count` the
      `current_threads` loaded after the adjuster's join. -/
  | joinWorkers (i count : Nat)
  /-- The ring and the pool freed. -/
  | done
  deriving DecidableEq

/-- The pool, its threads, and as ghosts the work accepted and the work run. -/
structure State where
  pool : HevAdaptivePool
  threads : List Worker
  adjuster : Adjuster
  destroyer : Destroyer
  accepted : List Work
  executed : List Work

/-- The slot `workers[i]` after a `pthread_create` into it: the new thread
    if `ok`, the old `pthread_t` otherwise; `active` set either way. -/
def HevAdaptivePool.startSlot (pool : HevAdaptivePool) (i thread : Nat) (ok : Bool) :
    HevAdaptivePool :=
  let w := pool.workers i
  let w' : AdaptivePoolWorker :=
    { w with thread := if ok then thread else w.thread, active := true }
  { pool with workers := Function.update pool.workers i w' }

/-- `hev_adaptive_pool_new (config)` once the ring and the slots are
    allocated: `oks` are the outcomes of the `pthread_create` calls starting
    the minimum threads, each counted in `current_threads` whatever its
    outcome. -/
def hevAdaptivePoolNew (config : HevAdaptivePoolConfig) (oks : List Bool) : State :=
  let pool : HevAdaptivePool :=
    { workers := fun _ => ⟨0, false, false⟩, minThreads := config.minThreads,
      maxThreads := config.maxThreads, currentThreads := 0, activeThreads := 0,
      idleThreads := 0, workQueue := hevRingBufferNew, running := true,
      scaleUpThreshold := config.scaleUpThreshold,
      scaleDownThreshold := config.scaleDownThreshold }
  let start := fun (acc : HevAdaptivePool × List Worker) (ok : Bool) =>
    let p := acc.1.startSlot acc.1.currentThreads.toNat acc.2.length ok
    (({ p with currentThreads := acc.1.currentThreads + 1 } : HevAdaptivePool),
     if ok then acc.2 ++ [.top] else acc.2)
  let r := oks.foldl start (pool, [])
  ⟨r.1, r.2, .running, .idle, [], []⟩

/-- `hev_adaptive_pool_adjust` from its second load on: `head` is the ring's
    `head` its `hev_ring_buffer_size` loaded, `tail` is loaded now, and `ok`
    is the outcome of its `pthread_create`. -/
def hevAdaptivePoolAdjust (s : State) (head : Nat) (ok : Bool) : State :=
  let depth : Int := ringSize head s.pool.workQueue.tail s.pool.workQueue.mask
  let idle := s.pool.idleThreads
  let current := s.pool.currentThreads
  if depth > s.pool.scaleUpThreshold ∧ idle < 2 ∧ current < s.pool.maxThreads then
    let p := s.pool.startSlot current.toNat s.threads.length ok
    { s with pool := { p with currentThreads := current + 1 },
             threads := if ok then s.threads ++ [.top] else s.threads }
  else if idle > s.pool.scaleDownThreshold ∧ depth < 10 ∧ current > s.pool.minThreads then
    { s with pool := { s.pool with currentThreads := current - 1 } }
  else s

/-- The section of `hev_adaptive_pool_submit` under the mutex, for the work
    `work` just allocated: push it, `-1` if the ring is full. -/
def hevAdaptivePoolSubmit (s : State) (work : Work) : Int × State :=
  let r := hevRingBufferPush s.pool.workQueue work
  if r.1 < 0 then (-1, s)
  else (0, { s with pool := { s.pool with workQueue := r.2 }, accepted := s.accepted ++ [work] })

/-- After `pthread_cond_wait`, or with no wait: leave `idle_threads`, quit on
    a cleared `running`, else pop (and count the worker active if it got
    work). -/
def takeWork (s : State) (t : Nat) : State :=
  let pool := { s.pool with idleThreads := s.pool.idleThreads - 1 }
  if ¬pool.running then { s with pool := pool, threads := s.threads.set t .exited }
  else
    match hevRingBufferPop pool.workQueue with
    | (some work, q) =>
      { s with pool := { pool with workQueue := q, activeThreads := pool.activeThreads + 1 },
               threads := s.threads.set t (.run work) }
    | (none, q) => { s with pool := { pool with workQueue := q }, threads := s.threads.set t .top }

/-- One step of the worker thread `t`. -/
def workerStep (s : State) (t : Nat) : Option State :=
  match s.threads[t]? with
  | some .top =>
    if ¬s.pool.running then some { s with threads := s.threads.set t .exited }
    else
      let s := { s with pool := { s.pool with idleThreads := s.pool.idleThreads + 1 } }
      if s.pool.running ∧ hevRingBufferSize s.pool.workQueue = 0 then
        some { s with threads := s.threads.set t .waiting }
      else some (takeWork s t)
  | some .waiting =>
    if s.pool.running ∧ hevRingBufferSize s.pool.workQueue = 0 then none
    else some (takeWork s t)
  | some (.run work) =>
    some { s with pool := { s.pool with activeThreads := s.pool.activeThreads - 1 },
                  threads := s.threads.set t .top, executed := s.executed ++ [work] }
  | _ => none

/-- One step of `hev_adaptive_pool_destroy`. -/
def destroyStep (s : State) : Option State :=
  match s.destroyer with
  | .idle => some { s with pool := { s.pool with running := false }, destroyer := .joinAdjuster }
  | .joinAdjuster =>
    if s.adjuster = .exited then
      some { s with destroyer := .joinWorkers 0 s.pool.currentThreads.toNat }
    else none
  | .joinWorkers i count =>
    if i < count then
      let w := s.pool.workers i
      if ¬w.active then some { s with destroyer := .joinWorkers (i + 1) count }
      else if s.threads[w.thread]? = some .exited then
        some { s with destroyer := .joinWorkers (i + 1) count }
      else none
    else some { s with destroyer := .done }
  | .done => none

/-- Who moves. -/
inductive Event
  /-- A call of `submit (task, data)` whose `malloc` succeeded. -/
  | submit (task data : Nat)
  | worker (t : Nat)
  /-- The adjuster: its exit once `running` is cleared, else the first load
      of a call of `adjust`, or the rest of that call (`ok` the outcome of
      its `pthread_create`). -/
  | adjust (ok : Bool)
  | destroy

/-- One step; `submit` only before `destroy` starts. -/
def next (s : State) : Event → Option State
  | .submit task data =>
    if s.destroyer = .idle ∧ task ≠ 0 then some (hevAdaptivePoolSubmit s (task, data)).2
    else none
  | .worker t => workerStep s t
  | .adjust ok =>
    match s.adjuster with
    | .running =>
      if s.pool.running then
        some { s with adjuster := .sizing s.pool.workQueue.head s.accepted.length }
      else some { s with adjuster := .exited }
    | .sizing head _ => some { hevAdaptivePoolAdjust s head ok with adjuster := .running }
    | .exited => none
  | .destroy => destroyStep s

def system : System State where
  init s := ∃ config oks, oks.length = config.minThreads.toNat ∧ s = hevAdaptivePoolNew config oks
  step s s' := ∃ e, next s e = some s'

/-- The worker threads not returned. -/
def aliveCount (s : State) : Nat := (s.threads.filter (· ≠ .exited)).length

theorem reachable_next {s s' : State} (hs : system.Reachable s) (e : Event)
    (h : next s e = some s') : system.Reachable s' :=
  hs.step ⟨e, h⟩

/-- One worker, one accepted task, and `destroy` at once: the worker sees
    `running` cleared at the top of its loop and returns, `destroy` joins it
    and frees the ring with the task still in it. -/
theorem accepted_task_dropped :
    ∃ s, system.Reachable s ∧ s.destroyer = .done ∧ s.accepted = [(1, 0)] ∧
      s.executed = [] ∧ hevRingBufferSize s.pool.workQueue = 1 := by
  have r₀ : system.Reachable (hevAdaptivePoolNew ⟨1, 1, 0, 0, 1⟩ [true]) :=
    .init ⟨⟨1, 1, 0, 0, 1⟩, [true], rfl, rfl⟩
  have r₁ := reachable_next r₀ (.submit 1 0) rfl
  have r₂ := reachable_next r₁ .destroy rfl
  have r₃ := reachable_next r₂ (.adjust true) rfl
  have r₄ := reachable_next r₃ .destroy rfl
  have r₅ := reachable_next r₄ (.worker 0) rfl
  have r₆ := reachable_next r₅ .destroy rfl
  have r₇ := reachable_next r₆ .destroy rfl
  exact ⟨_, r₇, rfl, rfl, rfl, rfl⟩

/-- A scale-up into `workers[1]`, a scale-down while that worker waits, and a
    second scale-up into `workers[1]`: `current_threads` is `1` with two
    workers alive, the second scale-up overwrites the `pthread_t` of the
    waiting worker, and `destroy` returns while that worker still waits. -/
theorem current_threads_drift :
    (∃ s, system.Reachable s ∧ s.pool.currentThreads = 1 ∧ aliveCount s = 2) ∧
    (∃ s s', system.Reachable s ∧ next s (.adjust true) = some s' ∧
      s.threads[(s.pool.workers 1).thread]? = some .waiting ∧
      (s'.pool.workers 1).thread ≠ (s.pool.workers 1).thread) ∧
    (∃ s, system.Reachable s ∧ s.destroyer = .done ∧ s.threads[1]? = some .waiting) := by
  have r₀ : system.Reachable (hevAdaptivePoolNew ⟨1, 2, 0, 0, 1⟩ [true]) :=
    .init ⟨⟨1, 2, 0, 0, 1⟩, [true], rfl, rfl⟩
  have r₁ := reachable_next r₀ (.submit 1 0) rfl
  have r₂ := reachable_next r₁ (.adjust true) rfl
  have r₃ := reachable_next r₂ (.adjust true) rfl
  have r₄ := reachable_next r₃ (.worker 0) rfl
  have r₅ := reachable_next r₄ (.worker 1) rfl
  have r₆ := reachable_next r₅ (.adjust true) rfl
  have r₇ := reachable_next r₆ (.adjust true) rfl
  have r₈ := reachable_next r₇ (.submit 2 0) rfl
  have r₉ := reachable_next r₈ (.adjust true) rfl
  have r₁₀ := reachable_next r₉ (.adjust true) rfl
  have r₁₁ := reachable_next r₁₀ .destroy rfl
  have r₁₂ := reachable_next r₁₁ (.adjust true) rfl
  have r₁₃ := reachable_next r₁₂ .destroy rfl
  have r₁₄ := reachable_next r₁₃ (.worker 0) rfl
  have r₁₅ := reachable_next r₁₄ (.worker 0) rfl
  have r₁₆ := reachable_next r₁₅ .destroy rfl
  have r₁₇ := reachable_next r₁₆ (.worker 2) rfl
  have r₁₈ := reachable_next r₁₇ .destroy rfl
  have r₁₉ := reachable_next r₁₈ .destroy rfl
  exact ⟨⟨_, r₇, rfl, rfl⟩, ⟨_, _, r₉, rfl, rfl, by decide⟩, ⟨_, r₁₉, rfl, rfl⟩⟩

/-! ## No task is lost or run twice -/

/-- The task a worker thread is running. -/
def Worker.work : Worker → Multiset Work
  | .run work => {work}
  | _ => 0

/-- The tasks the worker threads are running. -/
def runningWork (threads : List Worker) : Multiset Work := (threads.map Worker.work).sum

theorem runningWork_set {ts : List Worker} {t : Nat} {w : Worker} (h : ts[t]? = some w)
    (w' : Worker) : runningWork (ts.set t w') + w.work = runningWork ts + w'.work :=
  sum_map_set _ h w'

theorem runningWork_set_of_work {ts : List Worker} {t : Nat} {w w' : Worker} (h : ts[t]? = some w)
    (hw : w.work = 0) (hw' : w'.work = 0) : runningWork (ts.set t w') = runningWork ts := by
  simpa [hw, hw'] using runningWork_set h w'

@[simp] theorem runningWork_append_top (ts : List Worker) :
    runningWork (ts ++ [.top]) = runningWork ts := by
  simp [runningWork, Worker.work]

/-- The invariant: the ring is well formed, and the tasks taken from it, then
    those in it, are the tasks accepted, the tasks taken being those run or
    running. -/
structure Inv (s : State) : Prop where
  wellFormed : WellFormed s.pool.workQueue
  fifo : ∃ taken, taken ++ contents s.pool.workQueue = s.accepted ∧
    (taken : Multiset Work) = s.executed + runningWork s.threads

variable {s s' : State}

/-- A step that keeps the ring's contents, the ghosts and the running tasks
    keeps the invariant. -/
theorem Inv.frame (hi : Inv s) (hw : WellFormed s'.pool.workQueue)
    (hq : contents s'.pool.workQueue = contents s.pool.workQueue) (ha : s'.accepted = s.accepted)
    (he : s'.executed = s.executed) (hr : runningWork s'.threads = runningWork s.threads) :
    Inv s' :=
  ⟨hw, by rw [hq, ha, he, hr]; exact hi.fifo⟩

/-- The start loop of `hev_adaptive_pool_new` leaves the ring alone and
    starts threads at the top of their loop. -/
theorem foldl_start {f : HevAdaptivePool × List Worker → Bool → HevAdaptivePool × List Worker}
    (hf : ∀ acc ok, (f acc ok).1.workQueue = acc.1.workQueue ∧
      runningWork (f acc ok).2 = runningWork acc.2) :
    ∀ (oks : List Bool) acc, (oks.foldl f acc).1.workQueue = acc.1.workQueue ∧
      runningWork (oks.foldl f acc).2 = runningWork acc.2
  | [], _ => ⟨rfl, rfl⟩
  | ok :: oks, acc => by
    obtain ⟨h₁, h₂⟩ := foldl_start hf oks (f acc ok)
    rw [List.foldl_cons, h₁, h₂]
    exact hf acc ok

theorem hevAdaptivePoolNew_queue (config : HevAdaptivePoolConfig) (oks : List Bool) :
    (hevAdaptivePoolNew config oks).pool.workQueue = hevRingBufferNew ∧
      runningWork (hevAdaptivePoolNew config oks).threads = 0 := by
  dsimp only [hevAdaptivePoolNew]
  refine foldl_start ?_ oks _
  intro acc ok
  exact ⟨rfl, by cases ok <;> simp⟩

theorem inv_new (config : HevAdaptivePoolConfig) (oks : List Bool) :
    Inv (hevAdaptivePoolNew config oks) := by
  obtain ⟨hq, hr⟩ := hevAdaptivePoolNew_queue config oks
  refine ⟨hq ▸ wellFormed_new, [], ?_, ?_⟩
  · rw [hq, contents_new]; rfl
  · rw [hr]; rfl

theorem Inv.submit (hi : Inv s) (work : Work) : Inv (hevAdaptivePoolSubmit s work).2 := by
  obtain ⟨hw, taken, hfifo, htaken⟩ := hi
  obtain ⟨hw', ⟨h0, hc⟩ | ⟨h1, -⟩⟩ := hevRingBufferPush_spec hw work
  · have hn : ¬(hevRingBufferPush s.pool.workQueue work).1 < 0 := by rw [h0]; decide
    simp only [hevAdaptivePoolSubmit, if_neg hn]
    exact ⟨hw', taken, by rw [hc, ← List.append_assoc, hfifo], htaken⟩
  · have hn : (hevRingBufferPush s.pool.workQueue work).1 < 0 := by rw [h1]; decide
    simp only [hevAdaptivePoolSubmit, if_pos hn]
    exact ⟨hw, taken, hfifo, htaken⟩

/-- A worker holding no task leaves `idle_threads`, and returns, waits
    again, or takes the first task of the ring. -/
theorem Inv.take (hi : Inv s) {t : Nat} {w : Worker} (ht : s.threads[t]? = some w)
    (hw : w.work = 0) : Inv (takeWork s t) := by
  obtain ⟨hwf, taken, hfifo, htaken⟩ := hi
  dsimp only [takeWork]
  split
  · exact Inv.frame ⟨hwf, taken, hfifo, htaken⟩ hwf rfl rfl rfl (runningWork_set_of_work ht hw rfl)
  obtain ⟨hwf', hpop⟩ := hevRingBufferPop_spec hwf
  split
  · next work q hp =>
    rw [hp] at hwf' hpop
    have hr : runningWork (s.threads.set t (.run work)) = runningWork s.threads + {work} := by
      simpa [hw] using runningWork_set ht (.run work)
    refine ⟨hwf', taken ++ [work], ?_, ?_⟩
    · rw [← hfifo, ← hpop, List.append_assoc, Option.toList_some, List.singleton_append]
    · rw [hr, ← add_assoc, ← htaken, ← Multiset.coe_singleton, Multiset.coe_add]
  · next q hp =>
    rw [hp] at hwf' hpop
    exact Inv.frame ⟨hwf, taken, hfifo, htaken⟩ hwf' hpop rfl rfl (runningWork_set_of_work ht hw rfl)

theorem Inv.worker (hi : Inv s) {t : Nat} (h : workerStep s t = some s') : Inv s' := by
  unfold workerStep at h
  split at h
  · next ht =>
    split at h
    · cases h
      exact hi.frame hi.wellFormed rfl rfl rfl (runningWork_set_of_work ht rfl rfl)
    dsimp only at h
    split at h <;> cases h
    · exact hi.frame hi.wellFormed rfl rfl rfl (runningWork_set_of_work ht rfl rfl)
    · refine Inv.take ?_ ht rfl
      exact hi.frame hi.wellFormed rfl rfl rfl rfl
  · next ht =>
    split at h
    · cases h
    cases h
    exact hi.take ht rfl
  · next work ht =>
    cases h
    obtain ⟨hwf, taken, hfifo, htaken⟩ := hi
    have hr : runningWork (s.threads.set t .top) + {work} = runningWork s.threads := by
      simpa [Worker.work] using runningWork_set ht .top
    refine ⟨hwf, taken, hfifo, ?_⟩
    rw [htaken, ← hr, ← Multiset.coe_add, Multiset.coe_singleton]
    ac_rfl
  · cases h

theorem Inv.adjust (hi : Inv s) (head : Nat) (ok : Bool) :
    Inv (hevAdaptivePoolAdjust s head ok) := by
  dsimp only [hevAdaptivePoolAdjust]
  split_ifs <;> exact hi.frame hi.wellFormed rfl rfl rfl (by cases ok <;> simp)

theorem Inv.destroy (hi : Inv s) (h : destroyStep s = some s') : Inv s' := by
  dsimp only [destroyStep] at h
  repeat' split at h
  all_goals cases h
  all_goals exact hi.frame hi.wellFormed rfl rfl rfl rfl

theorem inv_next (hi : Inv s) {e : Event} (h : next s e = some s') : Inv s' := by
  cases e with
  | submit task data =>
    simp only [next] at h
    split_ifs at h
    cases h
    exact hi.submit _
  | worker t => exact hi.worker h
  | adjust ok =>
    simp only [next] at h
    split at h
    · split_ifs at h <;> cases h <;> exact hi.frame hi.wellFormed rfl rfl rfl rfl
    · cases h; exact (hi.adjust _ ok).frame (hi.adjust _ ok).wellFormed rfl rfl rfl rfl
    · cases h
  | destroy => exact hi.destroy h

theorem reachable_inv (hs : system.Reachable s) : Inv s :=
  System.reachable_induction (fun _ ⟨config, oks, _, h⟩ => h ▸ inv_new config oks)
    (fun _ _ _ hi ⟨_, h⟩ => inv_next hi h) hs

/-! ## The depth `adjust` reads -/

/-- While the adjuster is inside `adjust` with the ring's `head` loaded, the
    ring's `head` has moved on by one for each task accepted since. -/
def Sizing (s : State) : Prop :=
  ∀ head a, s.adjuster = .sizing head a →
    head < 4096 ∧ a ≤ s.accepted.length ∧
      s.pool.workQueue.head = (head + (s.accepted.length - a)) % 4096

/-- A step that keeps the adjuster, the ring's `head` and the tasks accepted
    keeps `Sizing`. -/
theorem Sizing.frame (hz : Sizing s) (hadj : s'.adjuster = s.adjuster)
    (hh : s'.pool.workQueue.head = s.pool.workQueue.head) (ha : s'.accepted = s.accepted) :
    Sizing s' := by
  intro head a h
  rw [hh, ha]
  exact hz head a (hadj ▸ h)

/-- A worker's take leaves the adjuster, the ring's `head` and the tasks
    accepted. -/
theorem takeWork_frame (t : Nat) : (takeWork s t).adjuster = s.adjuster ∧
    (takeWork s t).pool.workQueue.head = s.pool.workQueue.head ∧
    (takeWork s t).accepted = s.accepted := by
  dsimp only [takeWork]
  split
  · exact ⟨rfl, rfl, rfl⟩
  · have hh := hevRingBufferPop_head s.pool.workQueue
    split <;> simp_all

/-- So does every step of a worker. -/
theorem workerStep_frame {t : Nat} (h : workerStep s t = some s') : s'.adjuster = s.adjuster ∧
    s'.pool.workQueue.head = s.pool.workQueue.head ∧ s'.accepted = s.accepted := by
  unfold workerStep at h
  split at h
  · split at h
    · cases h; exact ⟨rfl, rfl, rfl⟩
    dsimp only at h
    split at h <;> cases h
    · exact ⟨rfl, rfl, rfl⟩
    · exact takeWork_frame t
  · split at h
    · cases h
    cases h; exact takeWork_frame t
  · cases h; exact ⟨rfl, rfl, rfl⟩
  · cases h

/-- And every step of `destroy`. -/
theorem destroyStep_frame (h : destroyStep s = some s') : s'.adjuster = s.adjuster ∧
    s'.pool.workQueue.head = s.pool.workQueue.head ∧ s'.accepted = s.accepted := by
  dsimp only [destroyStep] at h
  repeat' split at h
  all_goals cases h
  all_goals exact ⟨rfl, rfl, rfl⟩

/-- An accepted `submit` pushes one task and moves `head` on by one. -/
theorem Sizing.submit (hz : Sizing s) (hw : WellFormed s.pool.workQueue) (work : Work) :
    Sizing (hevAdaptivePoolSubmit s work).2 := by
  have hh := hevRingBufferPush_head hw work
  rcases hevRingBufferPush_fst s.pool.workQueue work with h0 | h1
  · have hn : ¬(hevRingBufferPush s.pool.workQueue work).1 < 0 := by rw [h0]; decide
    rw [if_pos h0] at hh
    intro head a h
    simp only [hevAdaptivePoolSubmit, if_neg hn] at h ⊢
    obtain ⟨hlt, ha, he⟩ := hz head a h
    refine ⟨hlt, by simp; omega, ?_⟩
    rw [hh, he, List.length_append, List.length_singleton]
    omega
  · have hn : (hevRingBufferPush s.pool.workQueue work).1 < 0 := by rw [h1]; decide
    simp only [hevAdaptivePoolSubmit, if_pos hn]
    exact hz

/-- Every step keeps `Sizing`; the adjuster's load of `head` starts it. -/
theorem sizing_next (hi : Inv s) (hz : Sizing s) {e : Event} (h : next s e = some s') :
    Sizing s' := by
  cases e with
  | submit task data =>
    simp only [next] at h
    split_ifs at h
    cases h
    exact hz.submit hi.wellFormed _
  | worker t =>
    obtain ⟨h₁, h₂, h₃⟩ := workerStep_frame h
    exact hz.frame h₁ h₂ h₃
  | adjust ok =>
    simp only [next] at h
    split at h
    · split_ifs at h <;> cases h <;> intro head a h' <;> cases h'
      have hlt := hi.wellFormed.head_lt
      exact ⟨hlt, le_rfl, by simp [Nat.mod_eq_of_lt hlt]⟩
    · cases h; intro head a h'; cases h'
    · cases h
  | destroy =>
    obtain ⟨h₁, h₂, h₃⟩ := destroyStep_frame h
    exact hz.frame h₁ h₂ h₃

theorem reachable_sizing (hs : system.Reachable s) : Sizing s :=
  System.reachable_induction
    (fun _ ⟨config, oks, _, h⟩ head a ha => by
      subst h; cases ha)
    (fun _ _ hr hz ⟨_, h⟩ => sizing_next (reachable_inv hr) hz h) hs

/-- Under every interleaving of `submit`, the workers, the adjuster and
    `destroy`: the tasks taken from the ring, then those still in it, are the
    tasks accepted, in order; the tasks taken are those run and those being
    run, each once. And while the adjuster is inside
    `hev_adaptive_pool_adjust` with the ring's `head` loaded, the depth its
    load of `tail` reads is the number of tasks in the ring less those
    accepted since the load of `head`, modulo `4096`. -/
theorem work_taken_once (hs : system.Reachable s) :
    (∃ taken, taken ++ contents s.pool.workQueue = s.accepted ∧
      (taken : Multiset Work) = s.executed + runningWork s.threads) ∧
    ∀ head a, s.adjuster = .sizing head a →
      ringSize head s.pool.workQueue.tail s.pool.workQueue.mask =
        ((contents s.pool.workQueue).length + 4096 - (s.accepted.length - a) % 4096) % 4096 := by
  obtain ⟨hw, taken, h₁, h₂⟩ := reachable_inv hs
  refine ⟨⟨taken, h₁, h₂⟩, fun head a h => ?_⟩
  obtain ⟨hlt, ha, he⟩ := reachable_sizing hs head a h
  have hn := hevRingBufferSize_eq_length hw
  have ht : s.pool.workQueue.tail < 4096 := hw.tail_lt
  rw [hevRingBufferSize, hw.mask, ringSize_eq hw.head_lt ht, he] at hn
  rw [hw.mask, ringSize_eq hlt ht, ← hn]
  simp only [RingBuffer.dist]
  omega

/-- The adjuster loads `head` on an empty ring; a task is submitted and taken
    by the worker; the load of `tail` then reads a depth of `4095` on the
    empty ring, and the call scales up. -/
theorem work_taken_once_torn :
    ∃ s, system.Reachable s ∧ contents s.pool.workQueue = [] ∧ s.adjuster = .sizing 0 0 ∧
      ringSize 0 s.pool.workQueue.tail s.pool.workQueue.mask = 4095 ∧
      (hevAdaptivePoolAdjust s 0 true).pool.currentThreads = 2 ∧
      ((∃ taken, taken ++ contents s.pool.workQueue = s.accepted ∧
        (taken : Multiset Work) = s.executed + runningWork s.threads) ∧
      ∀ head a, s.adjuster = .sizing head a →
        ringSize head s.pool.workQueue.tail s.pool.workQueue.mask =
          ((contents s.pool.workQueue).length + 4096 - (s.accepted.length - a) % 4096) % 4096) := by
  have r₀ : system.Reachable (hevAdaptivePoolNew ⟨1, 2, 0, 5, 1⟩ [true]) :=
    .init ⟨⟨1, 2, 0, 5, 1⟩, [true], rfl, rfl⟩
  have r₁ := reachable_next r₀ (.adjust true) rfl
  have r₂ := reachable_next r₁ (.submit 1 0) rfl
  have r₃ := reachable_next r₂ (.worker 0) rfl
  exact ⟨_, r₃, by decide, rfl, by decide, by decide, work_taken_once r₃⟩

/-! ## The bounds, with the adjuster the only caller of `adjust` -/

/-- The fields `adjust` tests and moves: `min_threads`, `max_threads` and
    `current_threads`. -/
def HevAdaptivePool.counts (p : HevAdaptivePool) : Int × Int × Int :=
  (p.minThreads, p.maxThreads, p.currentThreads)

/-- `min_threads ≤ current_threads ≤ max_threads`. -/
def InBounds (p : HevAdaptivePool) : Prop :=
  p.minThreads ≤ p.currentThreads ∧ p.currentThreads ≤ p.maxThreads

theorem InBounds.of_counts {p p' : HevAdaptivePool} (hb : InBounds p) (h : p'.counts = p.counts) :
    InBounds p' := by
  simp only [HevAdaptivePool.counts, Prod.mk.injEq] at h
  exact ⟨h.1 ▸ h.2.2 ▸ hb.1, h.2.1 ▸ h.2.2 ▸ hb.2⟩

/-- The start loop of `hev_adaptive_pool_new` counts every `pthread_create`
    in `current_threads`, and keeps the bounds. -/
theorem foldl_start_counts {f : HevAdaptivePool × List Worker → Bool → HevAdaptivePool × List Worker}
    (hf : ∀ acc ok, (f acc ok).1.counts = (acc.1.minThreads, acc.1.maxThreads, acc.1.currentThreads + 1)) :
    ∀ (oks : List Bool) acc, (oks.foldl f acc).1.counts =
      (acc.1.minThreads, acc.1.maxThreads, acc.1.currentThreads + oks.length)
  | [], acc => by simp [HevAdaptivePool.counts]
  | ok :: oks, acc => by
    have := hf acc ok
    simp only [HevAdaptivePool.counts, Prod.mk.injEq] at this
    rw [List.foldl_cons, foldl_start_counts hf oks (f acc ok), this.1, this.2.1, this.2.2,
      List.length_cons]
    simp only [Prod.mk.injEq, true_and]; omega

theorem hevAdaptivePoolNew_counts (config : HevAdaptivePoolConfig) (oks : List Bool) :
    (hevAdaptivePoolNew config oks).pool.counts =
      (config.minThreads, config.maxThreads, (oks.length : Int)) := by
  dsimp only [hevAdaptivePoolNew]
  refine (foldl_start_counts ?_ oks _).trans ?_
  · intro acc ok; rfl
  · simp [HevAdaptivePool.counts]

theorem hevAdaptivePoolSubmit_counts (work : Work) :
    (hevAdaptivePoolSubmit s work).2.pool.counts = s.pool.counts := by
  dsimp only [hevAdaptivePoolSubmit]; split <;> rfl

theorem takeWork_counts (t : Nat) : (takeWork s t).pool.counts = s.pool.counts := by
  dsimp only [takeWork]; split
  · rfl
  · split <;> rfl

theorem workerStep_counts {t : Nat} (h : workerStep s t = some s') : s'.pool.counts = s.pool.counts := by
  unfold workerStep at h
  split at h
  · split at h
    · cases h; rfl
    dsimp only at h
    split at h <;> cases h
    · rfl
    · exact takeWork_counts t
  · split at h
    · cases h
    cases h; exact takeWork_counts t
  · cases h; rfl
  · cases h

theorem destroyStep_counts (h : destroyStep s = some s') : s'.pool.counts = s.pool.counts := by
  dsimp only [destroyStep] at h
  repeat' split at h
  all_goals cases h
  all_goals rfl

/-- A call of `adjust` keeps `min_threads` and `max_threads`. -/
theorem hevAdaptivePoolAdjust_minMax (head : Nat) (ok : Bool) :
    (hevAdaptivePoolAdjust s head ok).pool.minThreads = s.pool.minThreads ∧
      (hevAdaptivePoolAdjust s head ok).pool.maxThreads = s.pool.maxThreads := by
  dsimp only [hevAdaptivePoolAdjust]; split_ifs <;> exact ⟨rfl, rfl⟩

/-- A step leaves the counts alone, or ends a call of `adjust`. -/
theorem next_counts {e : Event} (h : next s e = some s') :
    s'.pool.counts = s.pool.counts ∨ ∃ head ok, s'.pool = (hevAdaptivePoolAdjust s head ok).pool := by
  cases e with
  | submit task data =>
    simp only [next] at h
    split_ifs at h
    cases h
    exact .inl (hevAdaptivePoolSubmit_counts _)
  | worker t => exact .inl (workerStep_counts h)
  | adjust ok =>
    simp only [next] at h
    split at h
    · split_ifs at h <;> cases h <;> exact .inl rfl
    · cases h; exact .inr ⟨_, ok, rfl⟩
    · cases h
  | destroy => exact .inl (destroyStep_counts h)

/-- A call of `adjust` that no other call interleaves scales up only below
    `max_threads` and down only above `min_threads`. -/
theorem InBounds.adjust (hb : InBounds s.pool) (head : Nat) (ok : Bool) :
    InBounds (hevAdaptivePoolAdjust s head ok).pool := by
  have ⟨h₁, h₂⟩ := hb
  dsimp only [hevAdaptivePoolAdjust]
  split_ifs
  all_goals first
    | exact hb
    | exact ⟨by dsimp only [HevAdaptivePool.startSlot]; omega,
        by dsimp only [HevAdaptivePool.startSlot]; omega⟩

/-- With the adjuster thread the only caller of `hev_adaptive_pool_adjust`,
    each call one step, and `0 ≤ min_threads ≤ max_threads`:
    `min_threads ≤ current_threads ≤ max_threads` in every reachable state. -/
theorem bounds_alone (hs : system.Reachable s) (h0 : 0 ≤ s.pool.minThreads)
    (hm : s.pool.minThreads ≤ s.pool.maxThreads) : InBounds s.pool := by
  induction hs with
  | init hi =>
    obtain ⟨config, oks, hl, rfl⟩ := hi
    have hc := hevAdaptivePoolNew_counts config oks
    simp only [HevAdaptivePool.counts, Prod.mk.injEq] at hc
    rw [hc.1] at h0 hm
    rw [hc.2.1] at hm
    exact ⟨by rw [hc.1, hc.2.2, hl]; omega, by rw [hc.2.1, hc.2.2, hl]; omega⟩
  | step _ hst ih =>
    obtain ⟨e, h⟩ := hst
    rcases next_counts h with hc | ⟨head, ok, hp⟩
    · have hc' := hc
      simp only [HevAdaptivePool.counts, Prod.mk.injEq] at hc'
      exact (ih (hc'.1 ▸ h0) (hc'.1 ▸ hc'.2.1 ▸ hm)).of_counts hc
    · obtain ⟨hmin, hmax⟩ := hevAdaptivePoolAdjust_minMax (s := _) head ok
      rw [hp] at h0 hm ⊢
      exact (ih (hmin ▸ h0) (hmin ▸ hmax ▸ hm)).adjust head ok

/-- One scale-up to `max_threads`: the bounds hold. -/
theorem bounds_alone_run :
    ∃ s, system.Reachable s ∧ s.pool.currentThreads = 2 ∧ 0 ≤ s.pool.minThreads ∧
      s.pool.minThreads ≤ s.pool.maxThreads ∧ InBounds s.pool := by
  have r₀ : system.Reachable (hevAdaptivePoolNew ⟨1, 2, 0, 5, 1⟩ [true]) :=
    .init ⟨⟨1, 2, 0, 5, 1⟩, [true], rfl, rfl⟩
  have r₁ := reachable_next r₀ (.submit 1 0) rfl
  have r₂ := reachable_next r₁ (.adjust true) rfl
  have r₃ := reachable_next r₂ (.adjust true) rfl
  exact ⟨_, r₃, rfl, by decide, by decide, bounds_alone r₃ (by decide) (by decide)⟩

end HevTunnel.AdaptivePool
