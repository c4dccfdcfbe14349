import HevTunnel.AdaptivePool

/-!
# Concurrent calls of `hev_adaptive_pool_adjust`

`hev_adaptive_pool_adjust` is exported as a manual trigger, so besides the
adjuster thread any thread may call it. A call loads the ring's `head` and
`tail` (its `queue_depth`), `idle_threads` and `current_threads`, one atomic
access each, tests them,
creates a thread into `workers[current]` on a scale-up and then increments
`current_threads` by `atomic_fetch_add`, or on a scale-down decrements it by
`atomic_fetch_sub`; nothing orders two calls. This module splits every call
at those accesses, over the pool of `HevTunnel.AdaptivePool`, whose own
`adjust` event is a whole call; `writes` records, as a ghost, every index of
`workers` that `new` or a call writes.

* `adjust_solo`: a call that no other step interleaves does what
  `hev_adaptive_pool_adjust` does as one step;
* `writes_below_max`: every index written is below `max_threads`, as each
  call tests the value it writes at;
* `adjust_bounds_race`: two calls that load the same `current_threads` both
  scale up, past `max_threads`; calls that scale down together take it below
  `min_threads`, to `-1`, and a scale-up then creates a thread into
  `workers[-1]`. With the adjuster the only caller, the bounds hold
  (`AdaptivePool.bounds_alone`).
-/

namespace HevTunnel.AdaptivePool.Adjust

open RingBuffer

/-- Where a call of `hev_adaptive_pool_adjust` is, with what it has loaded. -/
inductive AdjustCall
  /-- `queue_depth = hev_ring_buffer_size (pool->work_queue)`: load `head`. -/
  | loadDepth
  /-- Load `tail`, and `queue_depth = (head - tail) & mask`. -/
  | loadTail (head : Nat)
  /-- `idle = atomic_load (&pool->idle_threads)`. -/
  | loadIdle (depth : Int)
  /-- `current = atomic_load (&pool->current_threads)`. -/
  | loadCurrent (depth idle : Int)
  /-- The tests; a scale-up creates its thread into `workers[current]`. -/
  | test (depth idle current : Int)
  /-- `atomic_fetch_add (&pool->current_threads, 1)`. -/
  | fetchAdd
  /-- `atomic_fetch_sub (&pool->current_threads, 1)`. -/
  | fetchSub
  /-- Returned. -/
  | done
  deriving DecidableEq

/-- The pool and its threads, the calls of `adjust`, and the ghost of the
    indices of `workers` written. -/
structure State where
  base : AdaptivePool.State
  calls : List AdjustCall
  writes : List Int

/-- The call `j` moved to `c`. -/
def State.setCall (s : State) (j : Nat) (c : AdjustCall) : State :=
  { s with calls := s.calls.set j c }

/-- `pthread_create (&pool->workers[current].thread, ...)` and
    `atomic_init (&pool->workers[current].active, true)`, `ok` the outcome of
    `pthread_create`; an index outside the array writes no slot of the model. -/
def createWorker (s : State) (current : Int) (ok : Bool) : State :=
  { s with
    base := { s.base with
      pool := if 0 ≤ current then s.base.pool.startSlot current.toNat s.base.threads.length ok
        else s.base.pool,
      threads := if ok then s.base.threads ++ [.top] else s.base.threads },
    writes := s.writes ++ [current] }

/-- `current_threads` moved by `d`. -/
def addCurrent (s : State) (d : Int) : State :=
  { s with base := { s.base with pool := { s.base.pool with
      currentThreads := s.base.pool.currentThreads + d } } }

/-- One step of the call `j`; `ok` is the outcome of its `pthread_create`. -/
def adjustStep (s : State) (j : Nat) (ok : Bool) : Option State :=
  let p := s.base.pool
  match s.calls[j]? with
  | some .loadDepth => some (s.setCall j (.loadTail p.workQueue.head))
  | some (.loadTail head) =>
    some (s.setCall j (.loadIdle (ringSize head p.workQueue.tail p.workQueue.mask)))
  | some (.loadIdle depth) => some (s.setCall j (.loadCurrent depth p.idleThreads))
  | some (.loadCurrent depth idle) => some (s.setCall j (.test depth idle p.currentThreads))
  | some (.test depth idle current) =>
    if depth > p.scaleUpThreshold ∧ idle < 2 ∧ current < p.maxThreads then
      some ((createWorker s current ok).setCall j .fetchAdd)
    else if idle > p.scaleDownThreshold ∧ depth < 10 ∧ current > p.minThreads then
      some (s.setCall j .fetchSub)
    else some (s.setCall j .done)
  | some .fetchAdd => some ((addCurrent s 1).setCall j .done)
  | some .fetchSub => some ((addCurrent s (-1)).setCall j .done)
  | _ => none

/-- Who moves. -/
inductive Event
  /-- A step of the pool other than a call of `adjust`: a `submit`, a
      worker, `destroy`, or the adjuster's return once `running` is cleared. -/
  | pool (e : AdaptivePool.Event)
  /-- A thread, the adjuster or another, calls `adjust` while the pool is
      not being destroyed. -/
  | call
  | adjust (j : Nat) (ok : Bool)

/-- The base event `e` is a call of `adjust` by the adjuster thread. -/
def isAdjustCall (b : AdaptivePool.State) : AdaptivePool.Event → Bool
  | .adjust _ => b.pool.running
  | _ => false

def next (s : State) : Event → Option State
  | .pool e =>
    if isAdjustCall s.base e then none
    else (AdaptivePool.next s.base e).map fun b => { s with base := b }
  | .call =>
    if s.base.destroyer = .idle then some { s with calls := s.calls ++ [.loadDepth] } else none
  | .adjust j ok => adjustStep s j ok

/-- A pool from `hev_adaptive_pool_new` with `0 ≤ min_threads ≤
    max_threads`, which wrote the slots below `min_threads`. -/
def system : System State where
  init s := ∃ config oks, 0 ≤ config.minThreads ∧ config.minThreads ≤ config.maxThreads ∧
    oks.length = config.minThreads.toNat ∧
    s = ⟨hevAdaptivePoolNew config oks, [], (List.range oks.length).map Int.ofNat⟩
  step s s' := ∃ e, next s e = some s'

theorem reachable_next {s s' : State} (hs : system.Reachable s) (e : Event)
    (h : next s e = some s') : system.Reachable s' :=
  hs.step ⟨e, h⟩

/-! ## What a step does to `max_threads` and `writes` -/

section Steps

variable {s s' : State}

@[simp] theorem setCall_base (j : Nat) (c : AdjustCall) : (s.setCall j c).base = s.base := rfl

@[simp] theorem setCall_writes (j : Nat) (c : AdjustCall) : (s.setCall j c).writes = s.writes := rfl

@[simp] theorem createWorker_maxThreads (c : Int) (ok : Bool) :
    (createWorker s c ok).base.pool.maxThreads = s.base.pool.maxThreads := by
  unfold createWorker; split <;> rfl

@[simp] theorem createWorker_writes (c : Int) (ok : Bool) :
    (createWorker s c ok).writes = s.writes ++ [c] := rfl

@[simp] theorem addCurrent_maxThreads (d : Int) :
    (addCurrent s d).base.pool.maxThreads = s.base.pool.maxThreads := rfl

@[simp] theorem addCurrent_writes (d : Int) : (addCurrent s d).writes = s.writes := rfl

/-- A call's step keeps `max_threads`, and writes only at the `current` it
    loaded and found below `max_threads`. -/
theorem adjustStep_writes {j : Nat} {ok : Bool} (h : adjustStep s j ok = some s') :
    s'.base.pool.maxThreads = s.base.pool.maxThreads ∧
      (s'.writes = s.writes ∨ ∃ c < s.base.pool.maxThreads, s'.writes = s.writes ++ [c]) := by
  unfold adjustStep at h
  split at h
  all_goals first
    | (cases h; done)
    | (cases h; exact ⟨rfl, .inl rfl⟩)
    | skip
  -- the tests: a scale-up writes at the `current` it found below `max_threads`
  dsimp only at h
  split_ifs at h with hup
  · cases h; exact ⟨by simp, .inr ⟨_, hup.2.2, by simp⟩⟩
  all_goals cases h; exact ⟨rfl, .inl rfl⟩

/-- Every step keeps `max_threads`, and writes only below it. -/
theorem next_writes {e : Event} (h : next s e = some s') :
    s'.base.pool.maxThreads = s.base.pool.maxThreads ∧
      (s'.writes = s.writes ∨ ∃ c < s.base.pool.maxThreads, s'.writes = s.writes ++ [c]) := by
  cases e with
  | pool e =>
    simp only [next] at h
    split_ifs at h
    obtain ⟨b, hb, rfl⟩ := Option.map_eq_some'.1 h
    refine ⟨?_, .inl rfl⟩
    rcases AdaptivePool.next_counts hb with hc | ⟨head, ok, hp⟩
    · simp only [HevAdaptivePool.counts, Prod.mk.injEq] at hc
      exact hc.2.1
    · dsimp only; rw [hp]; exact (hevAdaptivePoolAdjust_minMax head ok).2
  | call =>
    simp only [next] at h
    split_ifs at h
    cases h
    exact ⟨rfl, .inl rfl⟩
  | adjust j ok => exact adjustStep_writes h

end Steps

/-- Every index of `workers` that `new` or a call of `adjust` writes, under
    every interleaving of the calls with each other and with the pool, is
    below `max_threads`: each call writes at the `current_threads` it loaded
    and found below `max_threads`. -/
theorem writes_below_max {s : State} (hs : system.Reachable s) :
    ∀ i ∈ s.writes, i < s.base.pool.maxThreads := by
  induction hs with
  | init hi =>
    obtain ⟨config, oks, h0, hm, hl, rfl⟩ := hi
    have hc := hevAdaptivePoolNew_counts config oks
    simp only [HevAdaptivePool.counts, Prod.mk.injEq] at hc
    intro i hi
    obtain ⟨k, hk, rfl⟩ := List.mem_map.1 hi
    rw [hc.2.1, Int.ofNat_eq_coe]
    have := List.mem_range.1 hk
    omega
  | step _ hst ih =>
    obtain ⟨e, h⟩ := hst
    obtain ⟨hmax, hw | ⟨c, hc, hw⟩⟩ := next_writes h
    · rw [hw, hmax]; exact ih
    · intro i hi
      rw [hw, List.mem_append, List.mem_singleton] at hi
      rw [hmax]
      rcases hi with hi | rfl
      · exact ih i hi
      · exact hc

/-! ## A call alone is `hev_adaptive_pool_adjust` -/

/-- The steps of the call `j` alone. -/
def CallStep (j : Nat) (ok : Bool) (s s' : State) : Prop := adjustStep s j ok = some s'

theorem setCall_get {s : State} {j : Nat} (hj : j < s.calls.length) (c : AdjustCall) :
    (s.setCall j c).calls[j]? = some c :=
  List.getElem?_set_self hj

/-- A call that no other step interleaves, from its first load to its return,
    moves the pool as the adjuster's call of `hev_adaptive_pool_adjust` moves
    it with no step between its two (on a pool whose `current_threads` is
    not negative, which the adjuster's model writes at
    `current_threads.toNat`). -/
theorem adjust_solo {s : State} {j : Nat} (hj : s.calls[j]? = some .loadDepth) (ok : Bool)
    (h0 : 0 ≤ s.base.pool.currentThreads) :
    ∃ s', Relation.ReflTransGen (CallStep j ok) s s' ∧ s'.calls[j]? = some .done ∧
      s'.base = hevAdaptivePoolAdjust s.base s.base.pool.workQueue.head ok := by
  have hlt : j < s.calls.length := (List.getElem?_eq_some_iff.1 hj).1
  have hl : ∀ (t : State) c, t.calls.length = s.calls.length → (t.setCall j c).calls.length = s.calls.length :=
    fun t c ht => by simp [State.setCall, ht]
  -- the four loads read the pool as it is
  let p := s.base.pool
  let d := ringSize p.workQueue.head p.workQueue.tail p.workQueue.mask
  let s₀ := s.setCall j (.loadTail p.workQueue.head)
  let s₁ := s₀.setCall j (.loadIdle d)
  let s₂ := s₁.setCall j (.loadCurrent d p.idleThreads)
  let s₃ := s₂.setCall j (.test d p.idleThreads p.currentThreads)
  have l₀ : s₀.calls.length = s.calls.length := hl s _ rfl
  have l₁ : s₁.calls.length = s.calls.length := hl s₀ _ l₀
  have l₂ : s₂.calls.length = s.calls.length := hl s₁ _ l₁
  have l₃ : s₃.calls.length = s.calls.length := hl s₂ _ l₂
  have g₀ : s₀.calls[j]? = some (.loadTail p.workQueue.head) := setCall_get hlt _
  have g₁ : s₁.calls[j]? = some (.loadIdle d) := setCall_get (l₀ ▸ hlt) _
  have g₂ : s₂.calls[j]? = some (.loadCurrent d p.idleThreads) := setCall_get (l₁ ▸ hlt) _
  have g₃ : s₃.calls[j]? = some (.test d p.idleThreads p.currentThreads) :=
    setCall_get (l₂ ▸ hlt) _
  have e₀ : CallStep j ok s s₀ := by unfold CallStep adjustStep; rw [hj]
  have e₁ : CallStep j ok s₀ s₁ := by unfold CallStep adjustStep; rw [g₀]; rfl
  have e₂ : CallStep j ok s₁ s₂ := by unfold CallStep adjustStep; rw [g₁]; rfl
  have e₃ : CallStep j ok s₂ s₃ := by unfold CallStep adjustStep; rw [g₂]; rfl
  have r₃ : Relation.ReflTransGen (CallStep j ok) s s₃ := .tail (.tail (.tail (.single e₀) e₁) e₂) e₃
  have hj₃ : j < s₃.calls.length := l₃ ▸ hlt
  -- the tests, then the count, as the adjuster's call makes them at once
  by_cases hup : (d : Int) > p.scaleUpThreshold ∧ p.idleThreads < 2 ∧
      p.currentThreads < p.maxThreads
  · let s₄ := (createWorker s₃ p.currentThreads ok).setCall j .fetchAdd
    have e₄ : CallStep j ok s₃ s₄ := by unfold CallStep adjustStep; rw [g₃]; exact if_pos hup
    have g₄ : s₄.calls[j]? = some .fetchAdd := setCall_get hj₃ _
    have e₅ : CallStep j ok s₄ ((addCurrent s₄ 1).setCall j .done) := by
      unfold CallStep adjustStep; rw [g₄]
    refine ⟨_, (r₃.tail e₄).tail e₅, setCall_get (s := addCurrent s₄ 1)
      (by simpa [s₄, addCurrent, createWorker, State.setCall] using hj₃) _, ?_⟩
    unfold hevAdaptivePoolAdjust
    rw [if_pos hup]
    simp only [s₄, createWorker, addCurrent, State.setCall, if_pos h0]
    rfl
  by_cases hdown : p.idleThreads > p.scaleDownThreshold ∧ (d : Int) < 10 ∧
      p.currentThreads > p.minThreads
  · let s₄ := s₃.setCall j .fetchSub
    have e₄ : CallStep j ok s₃ s₄ := by
      unfold CallStep adjustStep; rw [g₃]; exact (if_neg hup).trans (if_pos hdown)
    have g₄ : s₄.calls[j]? = some .fetchSub := setCall_get hj₃ _
    have e₅ : CallStep j ok s₄ ((addCurrent s₄ (-1)).setCall j .done) := by
      unfold CallStep adjustStep; rw [g₄]
    refine ⟨_, (r₃.tail e₄).tail e₅, setCall_get (s := addCurrent s₄ (-1))
      (by simpa [s₄, addCurrent, State.setCall] using hj₃) _, ?_⟩
    unfold hevAdaptivePoolAdjust
    rw [if_neg hup, if_pos hdown]
    rfl
  · have e₄ : CallStep j ok s₃ (s₃.setCall j .done) := by
      unfold CallStep adjustStep; rw [g₃]; exact (if_neg hup).trans (if_neg hdown)
    refine ⟨_, r₃.tail e₄, setCall_get hj₃ _, ?_⟩
    unfold hevAdaptivePoolAdjust
    rw [if_neg hup, if_neg hdown]
    rfl

/-! ## Two races -/

/-- The index half holds under every interleaving; the bounds do not. With
    `min_threads = 1`, `max_threads = 2`, one task queued and no idle
    worker, two calls load `current_threads = 1` before either increments
    it: both create a thread into `workers[1]` and increment, and
    `current_threads` is `3`. With `min_threads = 0`, `max_threads = 1`,
    after a scale-up to `1` and the new worker waiting, two calls load
    `current_threads = 1` and both scale down, to `-1`; a task submitted,
    a third call scales up and creates a thread into `workers[-1]`. -/
theorem adjust_bounds_race :
    (∀ s, system.Reachable s → ∀ i ∈ s.writes, i < s.base.pool.maxThreads) ∧
    (∃ s, system.Reachable s ∧ s.base.pool.maxThreads < s.base.pool.currentThreads) ∧
    (∃ s, system.Reachable s ∧ s.base.pool.currentThreads < s.base.pool.minThreads ∧
      -1 ∈ s.writes) := by
  refine ⟨fun _ hs => writes_below_max hs, ?_, ?_⟩
  · have r₀ : system.Reachable ⟨hevAdaptivePoolNew ⟨1, 2, 0, 5, 1⟩ [true], [], [0]⟩ :=
      .init ⟨⟨1, 2, 0, 5, 1⟩, [true], by decide, by decide, rfl, rfl⟩
    have r₁ := reachable_next r₀ (.pool (.submit 1 0)) rfl
    have r₂ := reachable_next r₁ .call rfl
    have r₃ := reachable_next r₂ .call rfl
    have r₄ := reachable_next r₃ (.adjust 0 true) rfl
    have r₅ := reachable_next r₄ (.adjust 0 true) rfl
    have r₆ := reachable_next r₅ (.adjust 0 true) rfl
    have r₇ := reachable_next r₆ (.adjust 0 true) rfl
    have r₈ := reachable_next r₇ (.adjust 1 true) rfl
    have r₉ := reachable_next r₈ (.adjust 1 true) rfl
    have r₁₀ := reachable_next r₉ (.adjust 1 true) rfl
    have r₁₁ := reachable_next r₁₀ (.adjust 1 true) rfl
    have r₁₂ := reachable_next r₁₁ (.adjust 0 true) rfl
    have r₁₃ := reachable_next r₁₂ (.adjust 1 true) rfl
    have r₁₄ := reachable_next r₁₃ (.adjust 0 true) rfl
    have r₁₅ := reachable_next r₁₄ (.adjust 1 true) rfl
    exact ⟨_, r₁₅, by decide⟩
  · have r₀ : system.Reachable ⟨hevAdaptivePoolNew ⟨0, 1, 0, 0, 1⟩ [], [], []⟩ :=
      .init ⟨⟨0, 1, 0, 0, 1⟩, [], by decide, by decide, rfl, rfl⟩
    have r₁ := reachable_next r₀ (.pool (.submit 1 0)) rfl
    have r₂ := reachable_next r₁ .call rfl
    have r₃ := reachable_next r₂ (.adjust 0 true) rfl
    have r₄ := reachable_next r₃ (.adjust 0 true) rfl
    have r₅ := reachable_next r₄ (.adjust 0 true) rfl
    have r₆ := reachable_next r₅ (.adjust 0 true) rfl
    have r₇ := reachable_next r₆ (.adjust 0 true) rfl
    have r₈ := reachable_next r₇ (.adjust 0 true) rfl
    have r₉ := reachable_next r₈ (.pool (.worker 0)) rfl
    have r₁₀ := reachable_next r₉ (.pool (.worker 0)) rfl
    have r₁₁ := reachable_next r₁₀ (.pool (.worker 0)) rfl
    have r₁₂ := reachable_next r₁₁ .call rfl
    have r₁₃ := reachable_next r₁₂ .call rfl
    have r₁₄ := reachable_next r₁₃ (.adjust 1 true) rfl
    have r₁₅ := reachable_next r₁₄ (.adjust 1 true) rfl
    have r₁₆ := reachable_next r₁₅ (.adjust 1 true) rfl
    have r₁₇ := reachable_next r₁₆ (.adjust 1 true) rfl
    have r₁₈ := reachable_next r₁₇ (.adjust 2 true) rfl
    have r₁₉ := reachable_next r₁₈ (.adjust 2 true) rfl
    have r₂₀ := reachable_next r₁₉ (.adjust 2 true) rfl
    have r₂₁ := reachable_next r₂₀ (.adjust 2 true) rfl
    have r₂₂ := reachable_next r₂₁ (.adjust 1 true) rfl
    have r₂₃ := reachable_next r₂₂ (.adjust 2 true) rfl
    have r₂₄ := reachable_next r₂₃ (.adjust 1 true) rfl
    have r₂₅ := reachable_next r₂₄ (.adjust 2 true) rfl
    have r₂₆ := reachable_next r₂₅ (.pool (.submit 2 0)) rfl
    have r₂₇ := reachable_next r₂₆ .call rfl
    have r₂₈ := reachable_next r₂₇ (.adjust 3 true) rfl
    have r₂₉ := reachable_next r₂₈ (.adjust 3 true) rfl
    have r₃₀ := reachable_next r₂₉ (.adjust 3 true) rfl
    have r₃₁ := reachable_next r₃₀ (.adjust 3 true) rfl
    have r₃₂ := reachable_next r₃₁ (.adjust 3 true) rfl
    exact ⟨_, r₃₂, by decide, by decide⟩

end HevTunnel.AdaptivePool.Adjust
