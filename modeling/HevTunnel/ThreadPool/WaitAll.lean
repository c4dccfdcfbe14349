import HevTunnel.ThreadPool

/-!
# Waiting for the pool to drain

`hev_thread_pool_wait_all` locks `queue_mutex` and waits on `done_cond` while
`queue_size > 0 || active_threads > 0`. A worker that ends a task signals
`done_cond` once its decrement leaves `active_threads` and `queue_size` both
zero. This module adds the callers of `wait_all` to the pool of
`HevTunnel.ThreadPool`, with `done_cond` as POSIX specifies it:
`pthread_cond_signal` unblocks one waiting caller, if any, and a waiting caller
may also wake without a signal.

* `reachable_base`: the pool of every reachable state is reachable in the
  pool's own system, so every invariant of `HevTunnel.ThreadPool` holds here;
* `wait_all_drained`: a caller returns only when every task accepted so far
  has left the queue and run exactly once;
* `Stranded.next`: a caller blocked on a pool with nothing queued and every
  worker waiting for work or exited stays blocked until a task is submitted
  or it wakes spuriously;
* `wait_all_lost_wakeup`: two callers block on one running task; its end
  signals `done_cond` once, which wakes one of them, and the other is then
  stranded on the drained pool.
-/

namespace HevTunnel.ThreadPool.WaitAll

/-- Where a caller of `hev_thread_pool_wait_all` is. -/
inductive Caller
  /-- At the test of its loop, `queue_mutex` locked: on entry, or woken. -/
  | test
  /-- Blocked in `pthread_cond_wait (&done_cond, &queue_mutex)`. -/
  | waiting
  /-- Returned. -/
  | returned
  deriving DecidableEq

/-- The pool and its threads, and the callers of `wait_all`. -/
structure State where
  base : ThreadPool.State
  callers : List Caller

/-- The test of the loop of `wait_all`: wait while a task is queued or
    running, else return. -/
def waitAllTest (pool : HevThreadPool) : Caller :=
  if pool.queueSize > 0 ∨ pool.activeThreads > 0 then .waiting else .returned

/-- `pthread_cond_signal (&done_cond)` unblocking the caller `j`, which is a
    waiting one if any caller waits; with none waiting it does nothing. -/
def signal (callers : List Caller) (j : Nat) : Option (List Caller) :=
  if callers[j]? = some .waiting then some (callers.set j .test)
  else if Caller.waiting ∈ callers then none
  else some callers

/-- Whether the step `e` of the pool from `b` to `b'` signals `done_cond`: a
    worker's decrement of `active_threads` that leaves it and `queue_size`
    zero. -/
def signals (b b' : ThreadPool.State) : ThreadPool.Event → Bool
  | .worker i => b.workers i == .finish && b'.pool.activeThreads == 0 && b'.pool.queueSize == 0
  | _ => false

/-- Who moves. -/
inductive Event
  /-- A step of the pool; a signal of `done_cond` unblocks the caller `wake`. -/
  | pool (e : ThreadPool.Event) (wake : Nat)
  /-- A thread calls `hev_thread_pool_wait_all` and locks `queue_mutex`. -/
  | call
  /-- The caller `j` tests its condition, then waits or returns. -/
  | caller (j : Nat)
  /-- The caller `j` wakes without a signal, as `pthread_cond_wait` may. -/
  | spurious (j : Nat)

/-- One step of the system; `wait_all` is called only before `destroy`. -/
def next (s : State) : Event → Option State
  | .pool e wake =>
    (ThreadPool.next s.base e).bind fun b =>
      if signals s.base b e then (signal s.callers wake).map (State.mk b)
      else some ⟨b, s.callers⟩
  | .call =>
    if s.base.destroyer = .idle then some { s with callers := s.callers ++ [.test] } else none
  | .caller j =>
    if s.callers[j]? = some .test then
      some { s with callers := s.callers.set j (waitAllTest s.base.pool) }
    else none
  | .spurious j =>
    if s.callers[j]? = some .waiting then some { s with callers := s.callers.set j .test }
    else none

def system : System State where
  init s := ∃ numThreads nprocs, s = ⟨initial numThreads nprocs, []⟩
  step s s' := ∃ e, next s e = some s'

/-! ## What each event does -/

section Steps

variable {s s' : State}

theorem next_pool {e : ThreadPool.Event} {wake : Nat} (h : next s (.pool e wake) = some s') :
    ThreadPool.next s.base e = some s'.base ∧
      (signals s.base s'.base e = false → s'.callers = s.callers) := by
  obtain ⟨b, hb, h⟩ := Option.bind_eq_some.1 h
  split at h
  next hsig =>
    obtain ⟨cs, -, rfl⟩ := Option.map_eq_some'.1 h
    exact ⟨hb, fun hf => absurd hsig (by rw [hf]; decide)⟩
  next => cases h; exact ⟨hb, fun _ => rfl⟩

theorem next_call (h : next s .call = some s') :
    s'.base = s.base ∧ s'.callers = s.callers ++ [.test] := by
  simp only [next] at h
  split_ifs at h
  cases h
  exact ⟨rfl, rfl⟩

theorem next_caller {j : Nat} (h : next s (.caller j) = some s') :
    s.callers[j]? = some .test ∧
      s' = { s with callers := s.callers.set j (waitAllTest s.base.pool) } := by
  simp only [next] at h
  split_ifs at h with hj
  exact ⟨hj, (Option.some.inj h).symm⟩

theorem next_spurious {j : Nat} (h : next s (.spurious j) = some s') :
    s.callers[j]? = some .waiting ∧ s' = { s with callers := s.callers.set j .test } := by
  simp only [next] at h
  split_ifs at h with hj
  exact ⟨hj, (Option.some.inj h).symm⟩

/-- A step moves the pool by one of its own steps, or leaves it. -/
theorem next_base {e : Event} (h : next s e = some s') :
    s'.base = s.base ∨ ThreadPool.system.step s.base s'.base := by
  cases e with
  | pool e wake => exact .inr ⟨e, (next_pool h).1⟩
  | call => exact .inl (next_call h).1
  | caller j => rw [(next_caller h).2]; exact .inl rfl
  | spurious j => rw [(next_spurious h).2]; exact .inl rfl

end Steps

/-- The pool refines its own system: the callers of `wait_all` only read it. -/
theorem reachable_base {s : State} (hs : system.Reachable s) :
    ThreadPool.system.Reachable s.base := by
  induction hs with
  | init h => obtain ⟨n, p, rfl⟩ := h; exact .init ⟨n, p, rfl⟩
  | step _ hst ih =>
    obtain ⟨e, h⟩ := hst
    rcases next_base h with he | hb
    · exact he ▸ ih
    · exact ih.step hb

theorem reachable_next {s : State} (hs : system.Reachable s) (e : Event) {s' : State}
    (h : next s e = some s') : system.Reachable s' :=
  hs.step ⟨e, h⟩

/-! ## A caller returns on a drained pool -/

/-- With no worker counted in `active_threads`, no task is between its dequeue
    and its run. -/
theorem running_eq_zero (items : Nat → Option HevWorkItem) {w : Nat → Worker} {K : Nat}
    (h : busyCount w K = 0) : running items w K = 0 := by
  refine Finset.sum_eq_zero fun i hi => ?_
  have hb := Finset.filter_eq_empty_iff.1 (Finset.card_eq_zero.1 h) hi
  revert hb
  cases w i <;> simp [Worker.isBusy, Worker.running]

/-- `hev_thread_pool_wait_all` returns only when every task accepted so far
    has left the queue and run exactly once: in a reachable state, its test
    returns only then. -/
theorem wait_all_drained {s : State} (hs : system.Reachable s)
    (hr : waitAllTest s.base.pool = .returned) :
    s.base.dequeued = s.base.accepted ∧ s.base.ran.Perm s.base.accepted := by
  -- the test found nothing queued and nothing running
  have hidle : s.base.pool.queueSize ≤ 0 ∧ s.base.pool.activeThreads ≤ 0 := by
    unfold waitAllTest at hr
    split_ifs at hr with hc
    exact not_or.1 hc |>.imp le_of_not_lt le_of_not_lt
  have hi := ThreadPool.reachable_inv (reachable_base hs)
  obtain ⟨ps, hq⟩ := hi.queue
  have hps : ps = [] := List.eq_nil_of_length_eq_zero (by have := hq.size; omega)
  have hdeq : s.base.dequeued = s.base.accepted := by simpa [hps, jobs] using hq.fifo
  have hrun : running s.base.pool.items s.base.workers s.base.pool.numThreads = 0 :=
    running_eq_zero _ (by have := hi.active; omega)
  refine ⟨hdeq, ?_⟩
  rw [← hdeq, ← Multiset.coe_eq_coe, ← hi.ran, hrun, add_zero]

/-- One worker runs one task; a call of `wait_all` then returns at once. -/
theorem wait_all_drained_run :
    ∃ s, system.Reachable s ∧ s.base.ran = [(1, 0)] ∧ waitAllTest s.base.pool = .returned ∧
      s.base.dequeued = s.base.accepted ∧ s.base.ran.Perm s.base.accepted := by
  have r₁ := reachable_next (.init ⟨1, 1, rfl⟩) (.pool (.submit 1 0 1) 0) rfl
  have r₂ := reachable_next r₁ (.pool (.worker 0) 0) rfl
  have r₃ := reachable_next r₂ (.pool (.worker 0) 0) rfl
  have r₄ := reachable_next r₃ (.pool (.worker 0) 0) rfl
  have r₅ := reachable_next r₄ (.pool (.worker 0) 0) rfl
  exact ⟨_, r₅, rfl, rfl, wait_all_drained r₅ rfl⟩

/-! ## A lost wake-up -/

/-- A pool with nothing queued and every worker waiting for work or exited:
    no worker can dequeue, so none will end a task and signal `done_cond`. -/
structure Idle (b : ThreadPool.State) : Prop where
  size : b.pool.queueSize = 0
  head : b.pool.queueHead = 0
  workers : ∀ i, b.workers i = .loop ∨ b.workers i = .exited

section Idle

variable {b b' : ThreadPool.State}

/-- On an idle pool a worker waits for work, or exits once `shutdown` is set. -/
theorem Idle.workerStep (hb : Idle b) {i : Nat} (h : workerStep b i = some b') :
    Idle b' ∧ b.workers i ≠ .finish := by
  rcases hb.workers i with hw | hw
  · have hb' : b' = { b with workers := Function.update b.workers i .exited } := by
      cases hsd : b.pool.shutdown <;>
        simp only [ThreadPool.workerStep, hw, hb.size, hsd, true_and, and_true, if_true,
          reduceCtorEq, if_false, Option.some.injEq] at h
      exact h.symm
    subst hb'
    refine ⟨⟨hb.size, hb.head, fun k => ?_⟩, by rw [hw]; decide⟩
    dsimp only
    by_cases hk : k = i
    · subst hk; exact .inr (Function.update_same _ _ _)
    · rw [Function.update_noteq hk]; exact hb.workers k
  · simp [ThreadPool.workerStep, hw] at h

/-- `destroy` sets `shutdown`, joins and finds the queue empty: the pool
    stays idle. -/
theorem Idle.destroyStep (hb : Idle b) (h : destroyStep b = some b') : Idle b' := by
  unfold ThreadPool.destroyStep at h
  split at h
  · cases h; exact ⟨hb.size, hb.head, hb.workers⟩
  · split_ifs at h <;> cases h <;> exact ⟨hb.size, hb.head, hb.workers⟩
  · simp only [hb.head, if_true, Option.some.injEq] at h
    cases h; exact ⟨hb.size, hb.head, hb.workers⟩
  · cases h

/-- A step of an idle pool other than a submission keeps it idle and
    signals nothing. -/
theorem Idle.next (hb : Idle b) {e : ThreadPool.Event} (he : ∀ t d x, e ≠ .submit t d x)
    (h : ThreadPool.next b e = some b') : Idle b' ∧ signals b b' e = false := by
  cases e with
  | submit t d x => exact absurd rfl (he t d x)
  | worker i =>
    simp only [ThreadPool.next] at h
    split_ifs at h
    obtain ⟨hb', hfin⟩ := hb.workerStep h
    exact ⟨hb', by simp [signals, hfin]⟩
  | destroy => exact ⟨hb.destroyStep h, rfl⟩

end Idle

/-- An event that neither submits a task nor wakes a caller spuriously. -/
def Event.quiet : Event → Bool
  | .pool (.submit ..) _ => false
  | .spurious _ => false
  | _ => true

/-- A step by a quiet event. -/
def QuietStep (s s' : State) : Prop := ∃ e, e.quiet = true ∧ next s e = some s'

/-- The caller `j` blocked on an idle pool. -/
structure Stranded (j : Nat) (s : State) : Prop where
  waiting : s.callers[j]? = some .waiting
  idle : Idle s.base

/-- A stranded caller stays blocked under every quiet step: the pool stays
    idle and signals nothing, and only its own test or a spurious wake-up
    would move it. -/
theorem Stranded.next {j : Nat} {s s' : State} (hs : Stranded j s) {e : Event}
    (hq : e.quiet = true) (h : next s e = some s') : Stranded j s' := by
  cases e with
  | pool e wake =>
    obtain ⟨hb, hc⟩ := next_pool h
    have he : ∀ t d x, e ≠ .submit t d x := by rintro t d x rfl; cases hq
    obtain ⟨hidle, hsig⟩ := hs.idle.next he hb
    exact ⟨hc hsig ▸ hs.waiting, hidle⟩
  | call =>
    obtain ⟨hb, hc⟩ := next_call h
    have hlt : j < s.callers.length := (List.getElem?_eq_some_iff.1 hs.waiting).1
    exact ⟨by rw [hc, List.getElem?_append_left hlt]; exact hs.waiting, hb ▸ hs.idle⟩
  | caller k =>
    obtain ⟨hk, rfl⟩ := next_caller h
    have hne : k ≠ j := by rintro rfl; rw [hs.waiting] at hk; cases hk
    exact ⟨by rw [List.getElem?_set_ne hne]; exact hs.waiting, hs.idle⟩
  | spurious k => cases hq

theorem Stranded.quiet_run {j : Nat} {s s' : State} (hs : Stranded j s)
    (h : Relation.ReflTransGen QuietStep s s') : Stranded j s' := by
  induction h with
  | refl => exact hs
  | tail _ hst ih => obtain ⟨e, hq, he⟩ := hst; exact ih.next hq he

/-- A lost wake-up. One worker runs one task; two threads call `wait_all`
    while it runs, and both block. The end of the task signals `done_cond`
    once, which wakes the first; it returns. The pool is drained, yet the
    second stays blocked under every run that submits no task and has no
    spurious wake-up: `pthread_cond_signal`, where `pthread_cond_broadcast`
    would wake both. -/
theorem wait_all_lost_wakeup :
    ∃ s, system.Reachable s ∧ s.callers = [.returned, .waiting] ∧ s.base.ran = [(1, 0)] ∧
      s.base.pool.queueSize = 0 ∧ s.base.pool.activeThreads = 0 ∧
      ∀ s', Relation.ReflTransGen QuietStep s s' → s'.callers[1]? = some .waiting := by
  have r₁ := reachable_next (.init ⟨1, 1, rfl⟩) (.pool (.submit 1 0 1) 0) rfl
  have r₂ := reachable_next r₁ (.pool (.worker 0) 0) rfl
  have r₃ := reachable_next r₂ .call rfl
  have r₄ := reachable_next r₃ (.caller 0) rfl
  have r₅ := reachable_next r₄ .call rfl
  have r₆ := reachable_next r₅ (.caller 1) rfl
  have r₇ := reachable_next r₆ (.pool (.worker 0) 0) rfl
  have r₈ := reachable_next r₇ (.pool (.worker 0) 0) rfl
  have r₉ := reachable_next r₈ (.pool (.worker 0) 0) rfl
  have r₁₀ := reachable_next r₉ (.caller 0) rfl
  refine ⟨_, r₁₀, rfl, rfl, rfl, rfl, fun s' h =>
    (Stranded.quiet_run ⟨rfl, rfl, rfl, fun i => .inl ?_⟩ h).waiting⟩
  -- the worker is back at the top of its loop; the others never moved
  by_cases hi : i = 0 <;> simp [hi, Function.update, initial, ThreadPool.submit]

end HevTunnel.ThreadPool.WaitAll
