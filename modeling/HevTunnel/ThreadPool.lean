import HevTunnel.System
import HevTunnel.Heap
import Mathlib

/-!
# The fixed worker pool

`hev-thread-pool.c`: `K` worker threads take work items from a singly-linked
queue (`queue_head`, `queue_tail`, `queue_size`) under `queue_mutex`;
`hev_thread_pool_submit` links a `malloc`ed item at the tail unless the queue
holds `MAX_QUEUE_SIZE` items; a worker unlinks the head, counts itself in
`active_threads`, runs the task outside the lock, frees the item and counts
itself out; `hev_thread_pool_destroy` sets `shutdown`, joins the workers in
order and frees what is left in the queue.

Every section under `queue_mutex` is one step, and so are the task's run and
the `free` of its item; submitters stop before `destroy` starts. The state
carries as ghosts the tasks accepted, dequeued, run and dropped by `destroy`.

Proved of every interleaving (`system.Reachable`), as `fifo_exactly_once`:
the queue is a well-formed list of `queue_size ≤ MAX_QUEUE_SIZE` nodes with
`queue_tail` its last node; `active_threads` counts the workers between a
dequeue and the end of their task; tasks leave the queue in submission
order; and once `destroy` has returned, every accepted task was dequeued and
run exactly once and none was freed unrun.
-/

namespace HevTunnel.ThreadPool

open Heap

/-- `MAX_QUEUE_SIZE`. -/
def maxQueueSize : Int := 10000

/-- `MIN_THREADS`. -/
def minThreads : Int := 2

/-- `MAX_THREADS`. -/
def maxThreads : Int := 64

/-- `get_cpu_count` on Linux: `get_nprocs ()`, raised to `MIN_THREADS` and
    lowered to `MAX_THREADS`. -/
def getCpuCount (nprocs : Int) : Int :=
  min (max nprocs minThreads) maxThreads

/-- The number of workers `hev_thread_pool_new (num_threads)` starts: twice
    the CPU count, at most `MAX_THREADS`, when `num_threads ≤ 0`. -/
def threadCount (numThreads nprocs : Int) : Int :=
  if numThreads ≤ 0 then min (getCpuCount nprocs * 2) maxThreads else numThreads

theorem threadCount_pos (numThreads nprocs : Int) : 0 < threadCount numThreads nprocs := by
  unfold threadCount getCpuCount minThreads maxThreads
  split_ifs <;> omega

/-- A work item: the task, its argument and the link. -/
structure HevWorkItem where
  task : Nat
  data : Nat
  next : Nat
  deriving DecidableEq

/-- What a task runs: the task and its argument. -/
abbrev Job := Nat × Nat

/-- The task of a work item. -/
def HevWorkItem.job (n : HevWorkItem) : Job := (n.task, n.data)

/-- The pool, with the heap of its work items. -/
structure HevThreadPool where
  numThreads : Nat
  shutdown : Bool
  queueHead : Nat
  queueTail : Nat
  queueSize : Int
  activeThreads : Int
  items : Nat → Option HevWorkItem

/-- `queue_tail->next = item`. -/
def setNext (items : Nat → Option HevWorkItem) (p a : Nat) : Nat → Option HevWorkItem :=
  Function.update items p ((items p).map fun n => { n with next := a })

theorem setNext_of_ne {items : Nat → Option HevWorkItem} {p a x : Nat} (hx : x ≠ p) :
    setNext items p a x = items x :=
  Function.update_noteq hx _ _

theorem setNext_job (items : Nat → Option HevWorkItem) (p a x : Nat) :
    (setNext items p a x).map HevWorkItem.job = (items x).map HevWorkItem.job := by
  by_cases hx : x = p
  · subst hx
    simp only [setNext, Function.update_same, Option.map_map]
    cases items x <;> rfl
  · rw [setNext_of_ne hx]

/-- `hev_thread_pool_submit (pool, task, data)`, `item` being what `malloc`
    returned (`0` for `NULL`): `-1` for a `NULL` task, a failed `malloc` or a
    full queue, else `0` with the item linked at the tail. -/
def hevThreadPoolSubmit (pool : HevThreadPool) (task data item : Nat) : Int × HevThreadPool :=
  if task = 0 ∨ item = 0 then (-1, pool)
  else if pool.queueSize ≥ maxQueueSize then (-1, pool)
  else
    let items := Function.update pool.items item (some ⟨task, data, 0⟩)
    if pool.queueTail ≠ 0 then
      (0, { pool with items := setNext items pool.queueTail item, queueTail := item,
                      queueSize := pool.queueSize + 1 })
    else
      (0, { pool with items := items, queueHead := item, queueTail := item,
                      queueSize := pool.queueSize + 1 })

/-! ## Threads -/

/-- Where a worker is in `worker_thread`. -/
inductive Worker
  /-- At the top of its loop: lock, wait for work or shutdown. -/
  | loop
  /-- The item `item` dequeued: run its task. -/
  | execute (item : Nat)
  /-- The task run: free `item`. -/
  | release (item : Nat)
  /-- Lock and decrement `active_threads`. -/
  | finish
  /-- Returned. -/
  | exited
  deriving DecidableEq

/-- Where `hev_thread_pool_destroy` is. -/
inductive Destroyer
  /-- Not called. -/
  | idle
  /-- `shutdown` set; joining the worker `i`. -/
  | join (i : Nat)
  /-- The workers joined: freeing what is left in the queue. -/
  | cleanup
  /-- Returned. -/
  | done
  deriving DecidableEq

/-- The pool, its threads, and as ghosts the tasks accepted by `submit`,
    taken from the queue, run, and freed by `destroy`'s clean-up loop. -/
structure State where
  pool : HevThreadPool
  workers : Nat → Worker
  destroyer : Destroyer
  accepted : List Job
  dequeued : List Job
  ran : List Job
  dropped : List Job

/-- A submitter's call of `hev_thread_pool_submit`, its item allocated at a
    free address. -/
def submit (s : State) (task data item : Nat) : State :=
  let r := hevThreadPoolSubmit s.pool task data item
  { s with pool := r.2, accepted := if r.1 = 0 then s.accepted ++ [(task, data)] else s.accepted }

/-- One step of the worker `i`: a section under `queue_mutex`, the run of a
    task, or the `free` of its item. -/
def workerStep (s : State) (i : Nat) : Option State :=
  match s.workers i with
  | .loop =>
    if s.pool.queueSize = 0 ∧ s.pool.shutdown = false then none
    else if s.pool.shutdown ∧ s.pool.queueSize = 0 then
      some { s with workers := Function.update s.workers i .exited }
    else
      let item := s.pool.queueHead
      if item = 0 then some s
      else match s.pool.items item with
        | none => none
        | some n => some { s with
            pool := { s.pool with
              queueHead := n.next,
              queueTail := if s.pool.queueTail = item then 0 else s.pool.queueTail,
              queueSize := s.pool.queueSize - 1,
              activeThreads := s.pool.activeThreads + 1 },
            workers := Function.update s.workers i (.execute item),
            dequeued := s.dequeued ++ [n.job] }
  | .execute item =>
    match s.pool.items item with
    | none => none
    | some n => some { s with workers := Function.update s.workers i (.release item),
                              ran := s.ran ++ [n.job] }
  | .release item =>
    some { s with pool := { s.pool with items := Function.update s.pool.items item none },
                  workers := Function.update s.workers i .finish }
  | .finish =>
    some { s with pool := { s.pool with activeThreads := s.pool.activeThreads - 1 },
                  workers := Function.update s.workers i .loop }
  | .exited => none

/-- One step of `hev_thread_pool_destroy`. -/
def destroyStep (s : State) : Option State :=
  match s.destroyer with
  | .idle => some { s with pool := { s.pool with shutdown := true }, destroyer := .join 0 }
  | .join i =>
    if i < s.pool.numThreads then
      if s.workers i = .exited then some { s with destroyer := .join (i + 1) } else none
    else some { s with destroyer := .cleanup }
  | .cleanup =>
    let item := s.pool.queueHead
    if item = 0 then some { s with destroyer := .done }
    else match s.pool.items item with
      | none => none
      | some n => some { s with
          pool := { s.pool with queueHead := n.next,
                                items := Function.update s.pool.items item none },
          dropped := s.dropped ++ [n.job] }
  | .done => none

/-- Who moves. -/
inductive Event
  /-- A submitter calls `submit (task, data)`, `malloc` giving `item`. -/
  | submit (task data item : Nat)
  | worker (i : Nat)
  | destroy

/-- One step of the system; `submit` only before `destroy` starts, with an
    item at an address not in use. -/
def next (s : State) : Event → Option State
  | .submit task data item =>
    if s.destroyer = .idle ∧ s.pool.items item = none then some (submit s task data item)
    else none
  | .worker i => if i < s.pool.numThreads then workerStep s i else none
  | .destroy => destroyStep s

/-- The pool as `hev_thread_pool_new (num_threads)` leaves it when it starts
    all its workers. -/
def initial (numThreads nprocs : Int) : State where
  pool := { numThreads := (threadCount numThreads nprocs).toNat, shutdown := false,
            queueHead := 0, queueTail := 0, queueSize := 0, activeThreads := 0,
            items := fun _ => none }
  workers := fun _ => .loop
  destroyer := .idle
  accepted := []
  dequeued := []
  ran := []
  dropped := []

def system : System State where
  init s := ∃ numThreads nprocs, s = initial numThreads nprocs
  step s s' := ∃ e, next s e = some s'

/-! ## What the workers own -/

/-- The tasks of the nodes `ps`, in order. -/
def jobs (items : Nat → Option HevWorkItem) (ps : List Nat) : List Job :=
  ps.filterMap fun x => (items x).map HevWorkItem.job

/-- The item a worker owns, from its dequeue to its `free`. -/
def Worker.item : Worker → Option Nat
  | .execute x | .release x => some x
  | _ => none

/-- Whether a worker is counted in `active_threads`: from its dequeue to the
    end of its task. -/
def Worker.isBusy : Worker → Bool
  | .execute _ | .release _ | .finish => true
  | _ => false

/-- The task a worker has dequeued and not yet run. -/
def Worker.running (items : Nat → Option HevWorkItem) : Worker → Multiset Job
  | .execute x => (((items x).map HevWorkItem.job).toList : Multiset Job)
  | _ => 0

/-- The number of workers counted in `active_threads`. -/
def busyCount (workers : Nat → Worker) (K : Nat) : Nat :=
  ((Finset.range K).filter fun i => (workers i).isBusy).card

/-- The tasks dequeued and not yet run. -/
def running (items : Nat → Option HevWorkItem) (workers : Nat → Worker) (K : Nat) :
    Multiset Job :=
  ∑ i ∈ Finset.range K, (workers i).running items

theorem sum_range_update {M : Type} [AddCommMonoid M] (f : Worker → M) (w : Nat → Worker)
    {i K : Nat} (hi : i < K) (x : Worker) :
    ∑ j ∈ Finset.range K, f (Function.update w i x j) + f (w i) =
      ∑ j ∈ Finset.range K, f (w j) + f x := by
  have hm := Finset.mem_range.2 hi
  have hrest : ∑ j ∈ (Finset.range K).erase i, f (Function.update w i x j) =
      ∑ j ∈ (Finset.range K).erase i, f (w j) :=
    Finset.sum_congr rfl fun j hj => by rw [Function.update_noteq (Finset.ne_of_mem_erase hj)]
  rw [← Finset.add_sum_erase _ _ hm, ← Finset.add_sum_erase _ (fun j => f (w j)) hm, hrest,
    Function.update_same]
  ac_rfl

theorem busyCount_update (w : Nat → Worker) {i K : Nat} (hi : i < K) (x : Worker) :
    busyCount (Function.update w i x) K + (if (w i).isBusy then 1 else 0) =
      busyCount w K + if x.isBusy then 1 else 0 := by
  simp only [busyCount, Finset.card_filter]
  exact sum_range_update (fun w => if w.isBusy then 1 else 0) w hi x

theorem running_update (items : Nat → Option HevWorkItem) (w : Nat → Worker) {i K : Nat}
    (hi : i < K) (x : Worker) :
    running items (Function.update w i x) K + (w i).running items =
      running items w K + x.running items :=
  sum_range_update _ w hi x

/-- The tasks dequeued and not run depend only on the items the workers own. -/
theorem running_congr {items items' : Nat → Option HevWorkItem} {w : Nat → Worker} {K : Nat}
    (h : ∀ j < K, ∀ y, (w j).item = some y →
      (items' y).map HevWorkItem.job = (items y).map HevWorkItem.job) :
    running items' w K = running items w K := by
  refine Finset.sum_congr rfl fun j hj => ?_
  cases hw : w j with
  | execute y => simp only [Worker.running, h j (Finset.mem_range.1 hj) y (by rw [hw]; rfl)]
  | _ => rfl

theorem jobs_congr {items items' : Nat → Option HevWorkItem} {ps : List Nat}
    (h : ∀ x ∈ ps, (items' x).map HevWorkItem.job = (items x).map HevWorkItem.job) :
    jobs items' ps = jobs items ps :=
  List.filterMap_congr h

theorem jobs_append (items : Nat → Option HevWorkItem) (ps qs : List Nat) :
    jobs items (ps ++ qs) = jobs items ps ++ jobs items qs :=
  List.filterMap_append _ _ _

theorem jobs_singleton {items : Nat → Option HevWorkItem} {x : Nat} {n : HevWorkItem}
    (h : items x = some n) : jobs items [x] = [n.job] := by
  simp [jobs, h]

theorem item_update {w : Nat → Worker} {i j y : Nat} {x : Worker}
    (h : (Function.update w i x j).item = some y) :
    (j = i ∧ x.item = some y) ∨ (j ≠ i ∧ (w j).item = some y) := by
  by_cases hj : j = i
  · subst hj; simp_all
  · simp_all [Function.update_noteq hj]

/-- Only a worker that has not exited moves; the exited ones stay so. -/
theorem update_of_exited {w : Nat → Worker} {i j : Nat} (x : Worker) (hwi : w i ≠ .exited)
    (hj : w j = .exited) : Function.update w i x j = .exited := by
  rw [Function.update_noteq fun e => hwi (by rw [← e]; exact hj), hj]

/-! ## Submitting -/

/-- What `submit` does: nothing, or link the item at the tail. -/
theorem hevThreadPoolSubmit_spec (task data : Nat) {pool : HevThreadPool} {item : Nat}
    {ps : List Nat}
    (hq : IsQueue pool.items HevWorkItem.next pool.queueHead pool.queueTail ps)
    (hfree : pool.items item = none) :
    hevThreadPoolSubmit pool task data item = (-1, pool) ∨
    ∃ pool', hevThreadPoolSubmit pool task data item = (0, pool') ∧
      pool.queueSize < maxQueueSize ∧
      IsQueue pool'.items HevWorkItem.next pool'.queueHead pool'.queueTail (ps ++ [item]) ∧
      pool'.queueSize = pool.queueSize + 1 ∧
      pool'.items item = some ⟨task, data, 0⟩ ∧
      (∀ x ∈ ps, (pool'.items x).map HevWorkItem.job = (pool.items x).map HevWorkItem.job) ∧
      (∀ x, x ∉ ps → x ≠ item → pool'.items x = pool.items x) ∧
      pool'.numThreads = pool.numThreads ∧ pool'.shutdown = pool.shutdown ∧
      pool'.activeThreads = pool.activeThreads := by
  unfold hevThreadPoolSubmit
  by_cases h₁ : task = 0 ∨ item = 0
  · exact .inl (if_pos h₁)
  by_cases h₂ : pool.queueSize ≥ maxQueueSize
  · exact .inl (by rw [if_neg h₁, if_pos h₂])
  rw [if_neg h₁, if_neg h₂]
  dsimp only
  have hne : item ≠ 0 := fun e => h₁ (.inr e)
  have hnot : ∀ x ∈ ps, x ≠ item := fun x hx e => (hq.seg.mem x hx).2 (e ▸ hfree)
  by_cases ht : pool.queueTail ≠ 0
  · -- linked after the tail
    rw [if_pos ht]
    refine .inr ⟨_, rfl, by omega, ?_, rfl, ?_, ?_, ?_, rfl, rfl, rfl⟩
    · have htm := hq.tail_mem ht
      have hti := hnot _ htm
      obtain ⟨n, hn⟩ := Option.ne_none_iff_exists'.1 (hq.seg.mem _ htm).2
      exact hq.push_tail ht hne (fun hm => (hq.seg.mem _ hm).2 hfree)
        (fun x hx hxt => by simp only [setNext_of_ne hxt, Function.update_noteq (hnot x hx)])
        ⟨{ n with next := item }, by simp [setNext, Function.update_noteq hti, hn], rfl⟩
        ⟨⟨task, data, 0⟩, by simp [setNext_of_ne hti.symm], rfl⟩
    · simp [setNext_of_ne (hnot _ (hq.tail_mem ht)).symm]
    · intro x hx
      simp only [setNext_job, Function.update_noteq (hnot x hx)]
    · intro x hx hxi
      have hxt : x ≠ pool.queueTail := fun e => hx (e ▸ hq.tail_mem ht)
      simp only [setNext_of_ne hxt, Function.update_noteq hxi]
  · -- the first item of an empty queue
    rw [if_neg ht]
    rw [not_not] at ht
    refine .inr ⟨_, rfl, by omega, (ht ▸ hq).push_empty hne ⟨_, Function.update_same _ _ _, rfl⟩,
      rfl, Function.update_same _ _ _, fun x hx => ?_, fun x _ hxi => Function.update_noteq hxi _ _,
      rfl, rfl, rfl⟩
    simp only [Function.update_noteq (hnot x hx)]

/-- `submit` fails, leaving the pool as it is, or returns `0`. -/
theorem hevThreadPoolSubmit_cases (pool : HevThreadPool) (task data item : Nat) :
    hevThreadPoolSubmit pool task data item = (-1, pool) ∨
      (hevThreadPoolSubmit pool task data item).1 = 0 := by
  unfold hevThreadPoolSubmit
  by_cases h₁ : task = 0 ∨ item = 0
  · exact .inl (if_pos h₁)
  by_cases h₂ : pool.queueSize ≥ maxQueueSize
  · exact .inl (by rw [if_neg h₁, if_pos h₂])
  rw [if_neg h₁, if_neg h₂]
  exact .inr (by dsimp only; split <;> rfl)

/-- `submit` returns `-1` or `0`. -/
theorem hevThreadPoolSubmit_fst (pool : HevThreadPool) (task data item : Nat) :
    (hevThreadPoolSubmit pool task data item).1 = -1 ∨
      (hevThreadPoolSubmit pool task data item).1 = 0 := by
  rcases hevThreadPoolSubmit_cases pool task data item with h | h
  · exact .inl (by rw [h])
  · exact .inr h

/-- A failed `submit` leaves the pool as it is. -/
theorem hevThreadPoolSubmit_failed {pool : HevThreadPool} {task data item : Nat}
    (h : (hevThreadPoolSubmit pool task data item).1 < 0) :
    (hevThreadPoolSubmit pool task data item).2 = pool := by
  rcases hevThreadPoolSubmit_cases pool task data item with h' | h'
  · rw [h']
  · rw [h'] at h
    exact absurd h (lt_irrefl 0)

theorem exited_of_update {w : Nat → Worker} {i j : Nat} {x : Worker} (hx : x ≠ .exited)
    (h : Function.update w i x j = .exited) : w j = .exited := by
  by_cases hji : j = i
  · subst hji; exact absurd (by simpa using h) hx
  · rwa [Function.update_noteq hji] at h

/-- A worker that gives up its item leaves the others' items. -/
theorem item_update_none {w : Nat → Worker} {i j y : Nat} {x : Worker}
    (h : (Function.update w i x j).item = some y) (hx : x.item = none) :
    j ≠ i ∧ (w j).item = some y := by
  rcases item_update h with ⟨-, h⟩ | h
  · simp [hx] at h
  · exact h

/-- A worker that keeps its item leaves every worker's item as it was. -/
theorem item_update_of_eq (w : Nat → Worker) (i : Nat) {x : Worker} (hx : x.item = (w i).item)
    (j : Nat) : (Function.update w i x j).item = (w j).item := by
  by_cases hji : j = i
  · subst hji; simpa using hx
  · rw [Function.update_noteq hji]

/-! ## The invariant -/

/-- The queue of a state, of the nodes `ps`, and the items the workers own:
    the queue holds the accepted tasks not yet dequeued, and an owned item is
    allocated, out of the queue, and owned by one worker. -/
structure QueueInv (s : State) (ps : List Nat) : Prop where
  queue : IsQueue s.pool.items HevWorkItem.next s.pool.queueHead s.pool.queueTail ps
  size : s.pool.queueSize = ps.length
  size_le : s.pool.queueSize ≤ maxQueueSize
  fifo : s.dequeued ++ jobs s.pool.items ps = s.accepted
  held : ∀ i < s.pool.numThreads, ∀ x, (s.workers i).item = some x →
    x ∉ ps ∧ s.pool.items x ≠ none
  owner : ∀ i < s.pool.numThreads, ∀ j < s.pool.numThreads, ∀ x,
    (s.workers i).item = some x → (s.workers j).item = some x → i = j

/-- The invariant of the pool. -/
structure Inv (s : State) : Prop where
  threads : 0 < s.pool.numThreads
  queue : ∃ ps, QueueInv s ps
  active : s.pool.activeThreads = busyCount s.workers s.pool.numThreads
  ran : (s.ran : Multiset Job) + running s.pool.items s.workers s.pool.numThreads = s.dequeued
  shutdown : s.pool.shutdown = true ↔ s.destroyer ≠ .idle
  exited : ∀ i < s.pool.numThreads, s.workers i = .exited →
    s.pool.shutdown = true ∧ s.pool.queueHead = 0
  joined : ∀ k, s.destroyer = .join k → ∀ j < k, s.workers j = .exited
  joined_all : s.destroyer = .cleanup ∨ s.destroyer = .done →
    ∀ j < s.pool.numThreads, s.workers j = .exited
  dropped : s.dropped = []

theorem inv_initial (numThreads nprocs : Int) : Inv (initial numThreads nprocs) where
  threads := by have := threadCount_pos numThreads nprocs; simp only [initial]; omega
  queue := ⟨[], isQueue_empty, rfl, by simp [initial, maxQueueSize], rfl,
    by simp [initial, Worker.item], by simp [initial, Worker.item]⟩
  active := by simp [initial, busyCount, Worker.isBusy]
  ran := by simp [initial, running, Worker.running]
  shutdown := by simp [initial]
  exited := by simp [initial]
  joined := by simp [initial]
  joined_all := by simp [initial]
  dropped := rfl

variable {s : State}

theorem inv_submit (hi : Inv s) {task data item : Nat} (hidle : s.destroyer = .idle)
    (hfree : s.pool.items item = none) : Inv (submit s task data item) := by
  obtain ⟨ps, hq⟩ := hi.queue
  rcases hevThreadPoolSubmit_spec task data hq.queue hfree with
    hr | ⟨pool', hr, hlt, hq', hsize, hitem, hjobs, hframe, hK, hsd, hact⟩
  · have hs : submit s task data item = s := by simp [submit, hr]
    rw [hs]; exact hi
  have hs : submit s task data item =
      { s with pool := pool', accepted := s.accepted ++ [(task, data)] } := by
    simp [submit, hr]
  rw [hs]
  have hheld : ∀ j < s.pool.numThreads, ∀ y, (s.workers j).item = some y →
      pool'.items y = s.pool.items y := fun j hj y hy =>
    hframe y (hq.held j hj y hy).1 fun e => (hq.held j hj y hy).2 (e ▸ hfree)
  refine ⟨hK ▸ hi.threads,
    ⟨ps ++ [item], hq', ?_, show pool'.queueSize ≤ maxQueueSize by omega, ?_, ?_, hK ▸ hq.owner⟩,
    hact.trans (hK ▸ hi.active), ?_, hsd ▸ hi.shutdown, ?_, ?_, ?_, hi.dropped⟩
  · simp [hsize, hq.size]
  · show s.dequeued ++ jobs pool'.items (ps ++ [item]) = s.accepted ++ [(task, data)]
    rw [jobs_append, jobs_congr hjobs, jobs_singleton hitem, ← List.append_assoc, hq.fifo]
    rfl
  · intro j hj y hy
    rw [hK] at hj
    obtain ⟨hy₁, hy₂⟩ := hq.held j hj y hy
    have hyi : y ≠ item := fun e => hy₂ (e ▸ hfree)
    exact ⟨by simp [hy₁, hyi], hheld j hj y hy ▸ hy₂⟩
  · show (s.ran : Multiset Job) + running pool'.items s.workers pool'.numThreads = s.dequeued
    rw [hK, running_congr fun j hj y hy => by rw [hheld j hj y hy]]
    exact hi.ran
  · intro j hj he
    rw [hK] at hj
    exact absurd (hi.shutdown.1 (hi.exited j hj he).1) (not_not.2 hidle)
  · intro k hk; simp [hidle] at hk
  · intro hk; simp [hidle] at hk

/-! ## The workers' steps -/

section Workers

variable (hi : Inv s) {i : Nat} (hiK : i < s.pool.numThreads)
include hi hiK

theorem inv_exit (hw : s.workers i = .loop) (hsd : s.pool.shutdown = true)
    (hz : s.pool.queueSize = 0) :
    Inv { s with workers := Function.update s.workers i .exited } := by
  obtain ⟨ps, hq⟩ := hi.queue
  have hps : ps = [] := List.eq_nil_of_length_eq_zero (by have := hq.size; omega)
  have hitem : ∀ j y, (Function.update s.workers i .exited j).item = some y →
      (s.workers j).item = some y := fun j y h => by
    rcases item_update h with ⟨_, h⟩ | ⟨_, h⟩
    · simp [Worker.item] at h
    · exact h
  have hwi : s.workers i ≠ .exited := by simp [hw]
  refine ⟨hi.threads, ⟨ps, hq.queue, hq.size, hq.size_le, hq.fifo,
    fun j hj y hy => hq.held j hj y (hitem j y hy),
    fun j hj k hk y h₁ h₂ => hq.owner j hj k hk y (hitem j y h₁) (hitem k y h₂)⟩,
    ?_, ?_, hi.shutdown, ?_, ?_, ?_, hi.dropped⟩
  · have := busyCount_update s.workers hiK .exited
    simp [hw, Worker.isBusy] at this
    dsimp only; rw [hi.active, this]
  · have := running_update s.pool.items s.workers hiK .exited
    simp only [hw, Worker.running, add_zero] at this
    dsimp only; rw [this]; exact hi.ran
  · intro j hj he
    dsimp only at hj he ⊢
    by_cases hji : j = i
    · exact ⟨hsd, (hq.queue.head_eq_zero).2 hps⟩
    · rw [Function.update_noteq hji] at he; exact hi.exited j hj he
  · exact fun k hk j hjk => update_of_exited _ hwi (hi.joined k hk j hjk)
  · exact fun hd j hj => update_of_exited _ hwi (hi.joined_all hd j hj)

theorem inv_dequeue {n : HevWorkItem} (hw : s.workers i = .loop) (hh : s.pool.queueHead ≠ 0)
    (hn : s.pool.items s.pool.queueHead = some n) :
    Inv { s with
      pool := { s.pool with
        queueHead := n.next,
        queueTail := if s.pool.queueTail = s.pool.queueHead then 0 else s.pool.queueTail,
        queueSize := s.pool.queueSize - 1,
        activeThreads := s.pool.activeThreads + 1 },
      workers := Function.update s.workers i (.execute s.pool.queueHead),
      dequeued := s.dequeued ++ [n.job] } := by
  obtain ⟨ps, hq⟩ := hi.queue
  obtain ⟨ps', rfl, hq'⟩ := hq.queue.pop hh hn
  have hnd := List.nodup_cons.1 hq.queue.nodup
  have hwi : s.workers i ≠ .exited := by simp [hw]
  refine ⟨hi.threads, ⟨ps', hq', ?_, ?_, ?_, ?_, ?_⟩, ?_, ?_, hi.shutdown, ?_, ?_, ?_, hi.dropped⟩
  · have := hq.size; simp only [List.length_cons, Nat.cast_add, Nat.cast_one] at this
    dsimp only; omega
  · have := hq.size_le; dsimp only; omega
  · dsimp only
    rw [List.append_assoc, ← hq.fifo]
    simp [jobs, hn]
  · intro j hj y hy
    dsimp only at hj hy ⊢
    rcases item_update hy with ⟨-, hy⟩ | ⟨-, hy⟩
    · simp only [Worker.item, Option.some.injEq] at hy
      subst hy; exact ⟨hnd.1, by simp [hn]⟩
    · obtain ⟨h₁, h₂⟩ := hq.held j hj y hy
      exact ⟨fun h => h₁ (.tail _ h), h₂⟩
  · -- the head was in the queue, so no other worker owned it
    intro j hj k hk y h₁ h₂
    dsimp only at hj hk h₁ h₂
    rcases item_update h₁ with ⟨rfl, e₁⟩ | ⟨-, e₁⟩ <;>
      rcases item_update h₂ with ⟨rfl, e₂⟩ | ⟨-, e₂⟩
    · rfl
    · simp only [Worker.item, Option.some.injEq] at e₁
      subst e₁; exact absurd (.head _) (hq.held k hk _ e₂).1
    · simp only [Worker.item, Option.some.injEq] at e₂
      subst e₂; exact absurd (.head _) (hq.held j hj _ e₁).1
    · exact hq.owner j hj k hk y e₁ e₂
  · have := busyCount_update s.workers hiK (.execute s.pool.queueHead)
    simp [hw, Worker.isBusy] at this
    dsimp only; rw [hi.active]; omega
  · have := running_update s.pool.items s.workers hiK (.execute s.pool.queueHead)
    simp only [hw, Worker.running, hn, add_zero, Option.map_some', Option.toList_some] at this
    dsimp only; rw [this, ← add_assoc, hi.ran, Multiset.coe_add]
  · -- a worker exits only on an empty queue
    exact fun j hj he => absurd (hi.exited j hj (exited_of_update (by simp) he)).2 hh
  · exact fun k hk j hjk => update_of_exited _ hwi (hi.joined k hk j hjk)
  · exact fun hd j hj => update_of_exited _ hwi (hi.joined_all hd j hj)

theorem inv_execute {x : Nat} {n : HevWorkItem} (hw : s.workers i = .execute x)
    (hn : s.pool.items x = some n) :
    Inv { s with workers := Function.update s.workers i (.release x), ran := s.ran ++ [n.job] } := by
  obtain ⟨ps, hq⟩ := hi.queue
  have hitem := item_update_of_eq s.workers i
    (show (Worker.release x).item = (s.workers i).item by rw [hw]; rfl)
  have hwi : s.workers i ≠ .exited := by simp [hw]
  refine ⟨hi.threads, ⟨ps, hq.queue, hq.size, hq.size_le, hq.fifo,
    fun j hj y hy => hq.held j hj y ((hitem j).symm.trans hy),
    fun j hj k hk y h₁ h₂ => hq.owner j hj k hk y ((hitem j).symm.trans h₁)
      ((hitem k).symm.trans h₂)⟩, ?_, ?_, hi.shutdown,
    fun j hj he => hi.exited j hj (exited_of_update (by simp) he),
    fun k hk j hjk => update_of_exited _ hwi (hi.joined k hk j hjk),
    fun hd j hj => update_of_exited _ hwi (hi.joined_all hd j hj), hi.dropped⟩
  · have := busyCount_update s.workers hiK (.release x)
    simp [hw, Worker.isBusy] at this
    dsimp only; rw [hi.active, this]
  · have := running_update s.pool.items s.workers hiK (.release x)
    simp only [hw, Worker.running, hn, add_zero, Option.map_some', Option.toList_some] at this
    dsimp only; rw [← hi.ran, ← this, ← Multiset.coe_add]; ac_rfl

theorem inv_release {x : Nat} (hw : s.workers i = .release x) :
    Inv { s with pool := { s.pool with items := Function.update s.pool.items x none },
                 workers := Function.update s.workers i .finish } := by
  obtain ⟨ps, hq⟩ := hi.queue
  have hx : (s.workers i).item = some x := by rw [hw]; rfl
  have hxps := (hq.held i hiK x hx).1
  have hwi : s.workers i ≠ .exited := by simp [hw]
  -- the other workers' items are not `x`
  have hother : ∀ j < s.pool.numThreads, ∀ y, j ≠ i → (s.workers j).item = some y → y ≠ x :=
    fun j hj y hji hy e => hji (hq.owner j hj i hiK y hy (e ▸ hx))
  have hkeep : ∀ y, y ≠ x → Function.update s.pool.items x none y = s.pool.items y :=
    fun y hy => Function.update_noteq hy _ _
  have hps : ∀ y ∈ ps, Function.update s.pool.items x none y = s.pool.items y :=
    fun y hy => hkeep y fun e => hxps (e ▸ hy)
  refine ⟨hi.threads, ⟨ps, hq.queue.frame hps, hq.size, hq.size_le, ?_, ?_, ?_⟩, ?_, ?_,
    hi.shutdown, fun j hj he => hi.exited j hj (exited_of_update (by simp) he),
    fun k hk j hjk => update_of_exited _ hwi (hi.joined k hk j hjk),
    fun hd j hj => update_of_exited _ hwi (hi.joined_all hd j hj), hi.dropped⟩
  · dsimp only; rw [jobs_congr fun y hy => by rw [hps y hy]]; exact hq.fifo
  · intro j hj y hy
    obtain ⟨hji, hy⟩ := item_update_none hy rfl
    exact ⟨(hq.held j hj y hy).1, by
      dsimp only; rw [hkeep y (hother j hj y hji hy)]; exact (hq.held j hj y hy).2⟩
  · intro j hj k hk y h₁ h₂
    exact hq.owner j hj k hk y (item_update_none h₁ rfl).2 (item_update_none h₂ rfl).2
  · have := busyCount_update s.workers hiK .finish
    simp [hw, Worker.isBusy] at this
    dsimp only; rw [hi.active, this]
  · have h₁ := running_update s.pool.items s.workers hiK .finish
    simp only [hw, Worker.running, add_zero] at h₁
    have h₂ : running (Function.update s.pool.items x none) (Function.update s.workers i .finish)
        s.pool.numThreads = running s.pool.items (Function.update s.workers i .finish)
        s.pool.numThreads := running_congr fun j hj y hy => by
      obtain ⟨hji, hy⟩ := item_update_none hy rfl
      rw [hkeep y (hother j hj y hji hy)]
    dsimp only; rw [h₂, h₁]; exact hi.ran

theorem inv_finish (hw : s.workers i = .finish) :
    Inv { s with pool := { s.pool with activeThreads := s.pool.activeThreads - 1 },
                 workers := Function.update s.workers i .loop } := by
  obtain ⟨ps, hq⟩ := hi.queue
  have hwi : s.workers i ≠ .exited := by simp [hw]
  refine ⟨hi.threads, ⟨ps, hq.queue, hq.size, hq.size_le, hq.fifo,
    fun j hj y hy => hq.held j hj y (item_update_none hy rfl).2,
    fun j hj k hk y h₁ h₂ => hq.owner j hj k hk y (item_update_none h₁ rfl).2
      (item_update_none h₂ rfl).2⟩, ?_, ?_, hi.shutdown,
    fun j hj he => hi.exited j hj (exited_of_update (by simp) he),
    fun k hk j hjk => update_of_exited _ hwi (hi.joined k hk j hjk),
    fun hd j hj => update_of_exited _ hwi (hi.joined_all hd j hj), hi.dropped⟩
  · have := busyCount_update s.workers hiK .loop
    simp [hw, Worker.isBusy] at this
    dsimp only; rw [hi.active]; omega
  · have := running_update s.pool.items s.workers hiK .loop
    simp only [hw, Worker.running, add_zero] at this
    dsimp only; rw [this]; exact hi.ran

end Workers

/-! ## Destroying the pool -/

/-- `destroy` leaves the queue and the workers' items as they are. -/
theorem QueueInv.of_destroy {ps : List Nat} (hq : QueueInv s ps) (d : Destroyer) :
    QueueInv { s with destroyer := d } ps :=
  ⟨hq.queue, hq.size, hq.size_le, hq.fifo, hq.held, hq.owner⟩

theorem inv_shutdown (hi : Inv s) :
    Inv { s with pool := { s.pool with shutdown := true }, destroyer := .join 0 } := by
  obtain ⟨ps, hq⟩ := hi.queue
  refine ⟨hi.threads, ⟨ps, hq.queue, hq.size, hq.size_le, hq.fifo, hq.held, hq.owner⟩,
    hi.active, hi.ran, by simp, fun j hj he => ⟨rfl, (hi.exited j hj he).2⟩, ?_, ?_, hi.dropped⟩
  · rintro k ⟨⟩ j hj; omega
  · simp

/-- When `destroy` frees the queue, the queue is empty: the workers, at least
    one, have all exited, and a worker exits only on an empty queue. -/
theorem Inv.head_of_joined (hi : Inv s) (hd : s.destroyer = .cleanup ∨ s.destroyer = .done) :
    s.pool.queueHead = 0 :=
  (hi.exited 0 hi.threads (hi.joined_all hd 0 hi.threads)).2

theorem inv_join (hi : Inv s) {k : Nat} (hd : s.destroyer = .join k) (hk : k < s.pool.numThreads)
    (hw : s.workers k = .exited) : Inv { s with destroyer := .join (k + 1) } := by
  refine ⟨hi.threads, hi.queue.imp fun _ hq => hq.of_destroy _, hi.active, hi.ran,
    by simpa [hd] using hi.shutdown, hi.exited, ?_, by simp, hi.dropped⟩
  rintro k' ⟨⟩ j hj
  rcases Nat.lt_succ_iff_lt_or_eq.1 hj with hj | rfl
  · exact hi.joined k hd j hj
  · exact hw

theorem inv_joined (hi : Inv s) {k : Nat} (hd : s.destroyer = .join k)
    (hk : ¬k < s.pool.numThreads) : Inv { s with destroyer := .cleanup } :=
  ⟨hi.threads, hi.queue.imp fun _ hq => hq.of_destroy _, hi.active, hi.ran,
    by simpa [hd] using hi.shutdown, hi.exited, by simp,
    fun _ j hj => hi.joined k hd j (by dsimp only at hj; omega), hi.dropped⟩

theorem inv_done (hi : Inv s) (hd : s.destroyer = .cleanup) : Inv { s with destroyer := .done } :=
  ⟨hi.threads, hi.queue.imp fun _ hq => hq.of_destroy _, hi.active, hi.ran,
    by simpa [hd] using hi.shutdown, hi.exited, by simp, fun _ => hi.joined_all (.inl hd),
    hi.dropped⟩

/-! ## Every interleaving -/

theorem inv_workerStep (hi : Inv s) {i : Nat} (hiK : i < s.pool.numThreads) {s' : State}
    (h : workerStep s i = some s') : Inv s' := by
  unfold workerStep at h
  split at h
  · rename_i hw
    dsimp only at h
    split at h
    · cases h
    split at h
    · rename_i hz; cases h; exact inv_exit hi hiK hw hz.1 hz.2
    split at h
    · cases h; exact hi
    rename_i hh
    split at h
    · cases h
    rename_i n hn
    cases h; exact inv_dequeue hi hiK hw hh hn
  · rename_i x hw
    split at h
    · cases h
    · rename_i n hn
      cases h; exact inv_execute hi hiK hw hn
  · cases h; exact inv_release hi hiK ‹_›
  · cases h; exact inv_finish hi hiK ‹_›
  · cases h

theorem inv_destroyStep (hi : Inv s) {s' : State} (h : destroyStep s = some s') : Inv s' := by
  unfold destroyStep at h
  split at h
  · cases h; exact inv_shutdown hi
  · split_ifs at h with hk hw
    · cases h; exact inv_join hi ‹_› hk hw
    · cases h; exact inv_joined hi ‹_› hk
  · dsimp only at h
    split_ifs at h with hh
    · cases h; exact inv_done hi ‹_›
    · exact absurd (hi.head_of_joined (.inl ‹_›)) hh
  · cases h

theorem inv_next (hi : Inv s) {e : Event} {s' : State} (h : next s e = some s') : Inv s' := by
  cases e with
  | submit task data item =>
    simp only [next] at h
    split_ifs at h with hc
    cases h
    exact inv_submit hi hc.1 hc.2
  | worker i =>
    simp only [next] at h
    split_ifs at h with hiK
    exact inv_workerStep hi hiK h
  | destroy => exact inv_destroyStep hi h

theorem reachable_inv (hs : system.Reachable s) : Inv s :=
  System.reachable_induction (fun _ ⟨_, _, h⟩ => h ▸ inv_initial _ _)
    (fun _ _ _ hi ⟨_, h⟩ => inv_next hi h) hs

/-- The fixed worker pool, under every interleaving of submitters, workers
    and `destroy`:

    1. the queue is a list of `queue_size ≤ MAX_QUEUE_SIZE` nodes from
       `queue_head`, `queue_tail` its last node;
    2. `active_threads` counts the workers between a dequeue and the end of
       their task;
    3. tasks leave the queue in submission order, and none runs before it
       leaves; once `destroy` has returned, every accepted task has left the
       queue and run exactly once, and none was freed unrun. -/
theorem fifo_exactly_once (hs : system.Reachable s) :
    (∃ ps, IsQueue s.pool.items HevWorkItem.next s.pool.queueHead s.pool.queueTail ps ∧
      s.pool.queueSize = ps.length ∧ s.pool.queueSize ≤ maxQueueSize) ∧
    s.pool.activeThreads = busyCount s.workers s.pool.numThreads ∧
    s.dequeued <+: s.accepted ∧ (s.ran : Multiset Job) ≤ s.dequeued ∧
    (s.destroyer = .done → s.dequeued = s.accepted ∧ s.ran.Perm s.accepted ∧ s.dropped = []) := by
  have hi := reachable_inv hs
  obtain ⟨ps, hq⟩ := hi.queue
  refine ⟨⟨ps, hq.queue, hq.size, hq.size_le⟩, hi.active, ⟨_, hq.fifo⟩,
    hi.ran ▸ Multiset.le_add_right _ _, fun hd => ?_⟩
  -- once `destroy` has returned, the queue is empty and every worker has exited
  have hps : ps = [] := hq.queue.head_eq_zero.1 (hi.head_of_joined (.inr hd))
  have hrun : running s.pool.items s.workers s.pool.numThreads = 0 :=
    Finset.sum_eq_zero fun j hj => by
      rw [hi.joined_all (.inr hd) j (Finset.mem_range.1 hj)]; rfl
  have hdeq : s.dequeued = s.accepted := by simpa [hps, jobs] using hq.fifo
  refine ⟨hdeq, ?_, hi.dropped⟩
  rw [← hdeq, ← Multiset.coe_eq_coe, ← hi.ran, hrun, add_zero]

theorem reachable_next (hs : system.Reachable s) (e : Event) {s' : State}
    (h : next s e = some s') : system.Reachable s' :=
  hs.step ⟨e, h⟩

/-- One worker, one task: submitted, run, then the pool destroyed; the task
    ran once. -/
theorem fifo_exactly_once_run :
    ∃ s, system.Reachable s ∧ s.destroyer = .done ∧ s.ran = [(1, 0)] ∧
      s.dequeued = s.accepted := by
  have r₁ := reachable_next (.init ⟨1, 1, rfl⟩) (.submit 1 0 1) rfl
  have r₂ := reachable_next r₁ (.worker 0) rfl
  have r₃ := reachable_next r₂ (.worker 0) rfl
  have r₄ := reachable_next r₃ (.worker 0) rfl
  have r₅ := reachable_next r₄ (.worker 0) rfl
  have r₆ := reachable_next r₅ .destroy rfl
  have r₇ := reachable_next r₆ (.worker 0) rfl
  have r₈ := reachable_next r₇ .destroy rfl
  have r₉ := reachable_next r₈ .destroy rfl
  have r₁₀ := reachable_next r₉ .destroy rfl
  exact ⟨_, r₁₀, rfl, rfl, ((fifo_exactly_once r₁₀).2.2.2.2 rfl).1⟩

end HevTunnel.ThreadPool
