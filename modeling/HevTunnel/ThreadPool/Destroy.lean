import HevTunnel.ThreadPool

/-!
# `hev_thread_pool_destroy` returns

`destroy` sets `shutdown` and joins the workers one after the other; a worker
returns once it finds `shutdown` set and the queue empty, so each join waits
for the queue to drain. With the run of a task one step, as the pool's model
has it, `destroy` returns under every interleaving:

* `drainSteps`: the steps left once no task is submitted, four for each
  queued task (dequeue, run, free, count out), those of each worker to the
  end of its task and its return, and those of `destroy`;
* `drain_step`: once `destroy` has been called, every step lowers it;
* `destroy_progress`: and a state where `destroy` has not returned always
  has a step, of the worker it joins or its own;
* `destroy_returns`: so from every reachable state a run reaches the return
  of `destroy`, and once `destroy` has been called every run reaches it,
  within `drainSteps` steps.
-/

namespace HevTunnel.ThreadPool

open Heap

/-- The steps a worker has left before it returns, the queue being empty. -/
def Worker.stepsLeft : Worker → Nat
  | .loop => 1
  | .execute _ => 4
  | .release _ => 3
  | .finish => 2
  | .exited => 0

/-- The steps `destroy` has left, with `K` workers. -/
def Destroyer.stepsLeft (K : Nat) : Destroyer → Nat
  | .idle => K + 3
  | .join i => K - i + 2
  | .cleanup => 1
  | .done => 0

/-- The steps left to the return of `destroy`, no task being submitted. -/
def drainSteps (s : State) : Nat :=
  4 * s.pool.queueSize.toNat + ∑ j ∈ Finset.range s.pool.numThreads, (s.workers j).stepsLeft +
    s.destroyer.stepsLeft s.pool.numThreads

section Steps

variable {s s' : State}

/-- A step of the worker `i` alone, to `x`, lowers the steps left when it
    lowers the worker's and the queue's. -/
theorem drainSteps_update {i : Nat} {x : Worker} (hiK : i < s.pool.numThreads)
    (hw : s'.workers = Function.update s.workers i x) (hK : s'.pool.numThreads = s.pool.numThreads)
    (hd : s'.destroyer = s.destroyer)
    (hlt : 4 * s'.pool.queueSize.toNat + x.stepsLeft <
      4 * s.pool.queueSize.toNat + (s.workers i).stepsLeft) :
    drainSteps s' < drainSteps s := by
  have := sum_range_update Worker.stepsLeft s.workers hiK x
  simp only [drainSteps, hw, hK, hd]
  omega

/-- After `shutdown`, a worker's step does one of the steps left. -/
theorem drainSteps_workerStep (hi : Inv s) (hsd : s.pool.shutdown = true) {i : Nat}
    (hiK : i < s.pool.numThreads) (h : workerStep s i = some s') :
    s'.destroyer = s.destroyer ∧ drainSteps s' < drainSteps s := by
  obtain ⟨ps, hq⟩ := hi.queue
  unfold workerStep at h
  split at h
  · rename_i hw
    dsimp only at h
    split at h
    · cases h
    split at h
    · -- the queue is empty: the worker returns
      cases h
      exact ⟨rfl, drainSteps_update hiK rfl rfl rfl (by simp only [hw, Worker.stepsLeft]; omega)⟩
    rename_i hz
    split at h
    · -- with a task queued the head is not `NULL`: no idle turn
      rename_i hh
      have hps : ps ≠ [] := fun hps => hz ⟨hsd, by simpa [hps] using hq.size⟩
      exact absurd (hq.queue.head_eq_zero.1 hh) hps
    split at h
    · cases h
    · -- the head is dequeued
      cases h
      have hpos : s.pool.queueSize ≠ 0 := fun h0 => hz ⟨hsd, h0⟩
      have hsize := hq.size
      exact ⟨rfl, drainSteps_update hiK rfl rfl rfl (by simp only [hw, Worker.stepsLeft]; omega)⟩
  · rename_i x hw
    split at h
    · cases h
    · cases h
      exact ⟨rfl, drainSteps_update hiK rfl rfl rfl (by simp only [hw, Worker.stepsLeft]; omega)⟩
  · cases h
    exact ⟨rfl, drainSteps_update hiK rfl rfl rfl (by simp only [‹_›, Worker.stepsLeft]; omega)⟩
  · cases h
    exact ⟨rfl, drainSteps_update hiK rfl rfl rfl (by simp only [‹_›, Worker.stepsLeft]; omega)⟩
  · cases h

/-- A step of `destroy` after its first does one of its steps left; freeing
    a queued item never happens, the queue being empty once the workers are
    joined. -/
theorem drainSteps_destroyStep (hi : Inv s) (hd : s.destroyer ≠ .idle)
    (h : destroyStep s = some s') : s'.destroyer ≠ .idle ∧ drainSteps s' < drainSteps s := by
  unfold destroyStep at h
  split at h
  · exact absurd ‹_› hd
  · rename_i i hdi
    split_ifs at h with hk hw
    · cases h
      refine ⟨by simp, ?_⟩
      simp only [drainSteps, hdi, Destroyer.stepsLeft]
      omega
    · cases h
      refine ⟨by simp, ?_⟩
      simp only [drainSteps, hdi, Destroyer.stepsLeft]
      omega
  · rename_i hdc
    dsimp only at h
    split_ifs at h with hh
    · cases h
      refine ⟨by simp, ?_⟩
      simp only [drainSteps, hdc, Destroyer.stepsLeft]
      omega
    · exact absurd (hi.head_of_joined (.inl hdc)) hh
  · cases h

/-- Once `destroy` has been called, every step lowers the steps left. -/
theorem drain_step (hi : Inv s) (hd : s.destroyer ≠ .idle) (h : system.step s s') :
    s'.destroyer ≠ .idle ∧ drainSteps s' < drainSteps s := by
  obtain ⟨e, h⟩ := h
  cases e with
  | submit task data item =>
    -- submitters have stopped
    simp only [next] at h
    split_ifs at h with hc
    exact absurd hc.1 hd
  | worker i =>
    simp only [next] at h
    split_ifs at h with hiK
    obtain ⟨hdd, hlt⟩ := drainSteps_workerStep hi (hi.shutdown.2 hd) hiK h
    exact ⟨hdd ▸ hd, hlt⟩
  | destroy => exact drainSteps_destroyStep hi hd h

/-- After `shutdown`, a worker that has not returned can step: it returns on
    an empty queue, dequeues its head, or goes on with its task. -/
theorem workerStep_of_shutdown (hi : Inv s) (hsd : s.pool.shutdown = true) {i : Nat}
    (hiK : i < s.pool.numThreads) (hw : s.workers i ≠ .exited) : ∃ s', workerStep s i = some s' := by
  obtain ⟨ps, hq⟩ := hi.queue
  unfold workerStep
  cases hwi : s.workers i with
  | loop =>
    dsimp only
    rw [if_neg fun h => by simp [hsd] at h]
    by_cases hz : s.pool.queueSize = 0
    · exact ⟨_, if_pos ⟨hsd, hz⟩⟩
    rw [if_neg fun h => hz h.2]
    have hps : ps ≠ [] := fun hps => hz (by simpa [hps] using hq.size)
    have hh : s.pool.queueHead ≠ 0 := mt hq.queue.head_eq_zero.1 hps
    obtain ⟨n, -, hn, -, -⟩ := hq.queue.seg.head_cons hh
    rw [if_neg hh, hn]
    exact ⟨_, rfl⟩
  | execute x =>
    -- the item of a task being run is allocated
    obtain ⟨n, hn⟩ := Option.ne_none_iff_exists'.1 (hq.held i hiK x (by rw [hwi]; rfl)).2
    dsimp only
    rw [hn]
    exact ⟨_, rfl⟩
  | release x => exact ⟨_, rfl⟩
  | finish => exact ⟨_, rfl⟩
  | exited => exact absurd hwi hw

/-- Once `destroy` has been called and until it returns, some step is
    enabled: of the worker it joins if that one has not returned, else its
    own. -/
theorem destroy_progress (hi : Inv s) (hd : s.destroyer ≠ .idle) (hdone : s.destroyer ≠ .done) :
    ∃ s', system.step s s' := by
  have hsd := hi.shutdown.2 hd
  cases hds : s.destroyer with
  | idle => exact absurd hds hd
  | join k =>
    by_cases hk : k < s.pool.numThreads
    · by_cases hw : s.workers k = .exited
      · exact ⟨_, .destroy, by simp only [next, destroyStep, hds, if_pos hk, if_pos hw]; rfl⟩
      · obtain ⟨s', h⟩ := workerStep_of_shutdown hi hsd hk hw
        exact ⟨s', .worker k, by simp only [next, if_pos hk, h]⟩
    · exact ⟨_, .destroy, by simp only [next, destroyStep, hds, if_neg hk]; rfl⟩
  | cleanup =>
    exact ⟨_, .destroy, by
      simp only [next, destroyStep, hds, hi.head_of_joined (.inl hds), if_true]; rfl⟩
  | done => exact absurd hds hdone

end Steps

/-- From a state where `destroy` has been called, a run reaches its
    return. -/
theorem run_to_done : ∀ (n : Nat) (s : State), system.Reachable s → s.destroyer ≠ .idle →
    drainSteps s ≤ n → ∃ t, Relation.ReflTransGen system.step s t ∧ t.destroyer = .done
  | 0, s, hs, hd, hn => by
    -- no step is left: `destroy` has returned
    by_contra hne
    obtain ⟨s', h⟩ := destroy_progress (reachable_inv hs) hd fun hdone => hne ⟨s, .refl, hdone⟩
    have := (drain_step (reachable_inv hs) hd h).2
    omega
  | n + 1, s, hs, hd, hn => by
    by_cases hdone : s.destroyer = .done
    · exact ⟨s, .refl, hdone⟩
    obtain ⟨s', h⟩ := destroy_progress (reachable_inv hs) hd hdone
    obtain ⟨hd', hlt⟩ := drain_step (reachable_inv hs) hd h
    obtain ⟨t, ht, htd⟩ := run_to_done n s' (hs.step h) hd' (by omega)
    exact ⟨t, .head h ht, htd⟩

/-- `hev_thread_pool_destroy` returns. From every reachable state, a run
    reaches its return (calling it if no one has). Once it has been called,
    no state before its return is stuck, and every step lowers the steps
    left (`drainSteps`): every run reaches the return, within that many
    steps, whatever the order of the workers' steps. -/
theorem destroy_returns {s : State} (hs : system.Reachable s) :
    (∃ t, Relation.ReflTransGen system.step s t ∧ t.destroyer = .done) ∧
    (s.destroyer ≠ .idle →
      (s.destroyer ≠ .done → ∃ s', system.step s s') ∧
      ∀ s', system.step s s' → s'.destroyer ≠ .idle ∧ drainSteps s' < drainSteps s) := by
  have hi := reachable_inv hs
  refine ⟨?_, fun hd => ⟨destroy_progress hi hd, fun s' h => drain_step hi hd h⟩⟩
  by_cases hd : s.destroyer = .idle
  · -- the call of `destroy`: `shutdown`, then the joins
    have h : system.step s { s with pool := { s.pool with shutdown := true }, destroyer := .join 0 } :=
      ⟨.destroy, by simp only [next, destroyStep, hd]⟩
    obtain ⟨t, ht, htd⟩ := run_to_done _ _ (hs.step h) (by simp) le_rfl
    exact ⟨t, .head h ht, htd⟩
  · exact run_to_done _ s hs hd le_rfl

/-- The pool as `hev_thread_pool_new (1)` leaves it. -/
theorem destroy_returns_initial :
    system.Reachable (initial 1 1) ∧
    ((∃ t, Relation.ReflTransGen system.step (initial 1 1) t ∧ t.destroyer = .done) ∧
    ((initial 1 1).destroyer ≠ .idle →
      ((initial 1 1).destroyer ≠ .done → ∃ s', system.step (initial 1 1) s') ∧
      ∀ s', system.step (initial 1 1) s' →
        s'.destroyer ≠ .idle ∧ drainSteps s' < drainSteps (initial 1 1))) :=
  ⟨.init ⟨1, 1, rfl⟩, destroy_returns (.init ⟨1, 1, rfl⟩)⟩

end HevTunnel.ThreadPool
