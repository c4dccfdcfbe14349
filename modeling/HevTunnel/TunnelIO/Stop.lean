import HevTunnel.TunnelIO.Conservation

/-!
# `hev_tunnel_io_stop` returns once the writes stop

`stop` clears `running` and joins the writers; a writer loops while
`running || write_queue_size > 0`, so each join waits for the queue to
drain. `hev_tunnel_io_write` does not test `running`: a write may still
start during the joins, and each one queued keeps the writers looping. Once
no write starts, the joins end:

* `stopSteps`: the steps left to the return of `stop`, four for each queued
  node (taken in a batch, written, and its share of a batch's turn), those
  of each writer and of each caller under way, and the joins;
* `stopSteps_next`: while `stop` joins, every step but the start of a write
  lowers it, and the joins go on until they return;
* `stop_progress`: a joining `stop` always has a step that is not a write:
  the writer it joins, or its own;
* `stop_returns`: so from every state where `stop` (or `destroy`'s `stop`)
  joins there is a run to its return, and every run in which no write
  starts reaches it, within `stopSteps` steps.
-/

namespace HevTunnel.TunnelIO

open Heap

/-- The steps a writer has left before it returns once `running` is clear,
    `busy` when the queue holds a node: a test of the loop that finds work
    costs a turn (lock, take, end of batch) and its return. -/
def Writer.stepsLeft (busy : Bool) : Writer → Nat
  | .top => if busy then 4 else 1
  | .locking | .waiting => 3
  | .batch ns => ns.length + if busy then 5 else 2
  | .exited => 0

/-- The steps a caller under way has left, with `W` writers: a node it queues
    costs four steps and may send each writer round once more. -/
def Caller.stepsLeft (W : Nat) : Caller → Nat
  | .enqueue _ _ => 5 + 3 * W
  | .reject _ _ => 1
  | .idle => 0

/-- The joins of `stop` left, with `K` writers, its return included. -/
def Control.joinsLeft (K : Nat) : Control → Nat
  | .joinWriters i _ => K - i + 1
  | _ => 0

/-- The steps left to the return of `stop`, no write starting. -/
def stopSteps (s : State) : Nat :=
  4 * s.io.writeQueueSize.toNat +
    (s.writers.map (Writer.stepsLeft (decide (0 < s.io.writeQueueSize)))).sum +
    (s.callers.map (Caller.stepsLeft s.writers.length)).sum + s.control.joinsLeft s.io.numWriters

/-! ## The writers' steps left -/

section StepsLeft

theorem Writer.stepsLeft_mono (b b' : Bool) (h : b' = true → b = true) (w : Writer) :
    w.stepsLeft b' ≤ w.stepsLeft b := by
  cases w <;> cases b <;> cases b' <;> simp_all [Writer.stepsLeft]

/-- A node queued sends each writer round at most once more. -/
theorem sum_stepsLeft_le (ws : List Writer) :
    (ws.map (Writer.stepsLeft true)).sum ≤ (ws.map (Writer.stepsLeft false)).sum + 3 * ws.length := by
  induction ws with
  | nil => rfl
  | cons w ws ih =>
    have : w.stepsLeft true ≤ w.stepsLeft false + 3 := by cases w <;> simp [Writer.stepsLeft]
    simp only [List.map_cons, List.sum_cons, List.length_cons]
    omega

end StepsLeft

/-! ## Every step of a joining stop -/

section Steps

variable {s s' : State}

theorem hevTunnelIoWrite_size {io io' : HevTunnelIO} {a : Nat} (h : hevTunnelIoWrite io a = (0, io')) :
    io'.writeQueueSize = io.writeQueueSize + 1 ∧ io'.numWriters = io.numWriters := by
  unfold hevTunnelIoWrite at h
  split_ifs at h <;> cases h <;> exact ⟨rfl, rfl⟩

/-- A step of the writer `i` alone, the queue's size kept, lowers the steps
    left when it lowers the writer's. -/
theorem stopSteps_setWriter {i : Nat} {w w' : Writer} (hw : s.writers[i]? = some w)
    (hq : s'.io.writeQueueSize = s.io.writeQueueSize) (hws : s'.writers = s.writers.set i w')
    (hc : s'.callers = s.callers) (hctl : s'.control = s.control)
    (hK : s'.io.numWriters = s.io.numWriters)
    (hlt : w'.stepsLeft (decide (0 < s.io.writeQueueSize)) <
      w.stepsLeft (decide (0 < s.io.writeQueueSize))) :
    stopSteps s' < stopSteps s := by
  have := sum_map_set (Writer.stepsLeft (decide (0 < s.io.writeQueueSize))) hw w'
  simp only [stopSteps, hq, hws, hc, hctl, hK, List.length_set]
  omega

/-- With `running` clear, a writer past its test takes a batch without
    waiting: the nodes it takes pay for its turn, and if it finds none the
    queue is empty, and so is its turn. -/
theorem stopSteps_take {ps r : List Nat} (hl : s.ledger.Inv ps r) (hdr : s.ledger.draining = false)
    {i : Nat} {w : Writer} (hw : s.writers[i]? = some w) (hwl : w = .locking ∨ w = .waiting) :
    stopSteps
        { s with
          io := (takeWriteBatch s.io).2
          writers := s.writers.set i (.batch (takeWriteBatch s.io).1)
          taken := s.taken ++ (takeWriteBatch s.io).1.map (packetOf s.io.nodes) } <
      stopSteps s := by
  have hsize : s.io.writeQueueSize = ps.length := hl.size hdr
  obtain ⟨hb, -, hsz, -⟩ := @takeWriteBatch_spec s.io ps (hl.isQueue hdr) hsize
  have hmono := List.sum_le_sum (l := s.writers) fun x _ =>
    Writer.stepsLeft_mono (decide (0 < s.io.writeQueueSize))
      (decide (0 < (takeWriteBatch s.io).2.writeQueueSize)) (by
        simp only [decide_eq_true_eq, hsz, hsize, List.length_drop]; omega) x
  have hset := sum_map_set (Writer.stepsLeft (decide (0 < (takeWriteBatch s.io).2.writeQueueSize)))
    hw (.batch (takeWriteBatch s.io).1)
  have hw3 : ∀ b, w.stepsLeft b = 3 := by rcases hwl with rfl | rfl <;> intro b <;> rfl
  have hbatch : ∀ b ns, (Writer.batch ns).stepsLeft b = ns.length + if b then 5 else 2 :=
    fun _ _ => rfl
  have hK : (takeWriteBatch s.io).2.numWriters = s.io.numWriters := rfl
  -- the batch is the first `WRITE_BATCH_SIZE` nodes, or all of them
  have hk : (ps.take writeBatchSize).length + (ps.drop writeBatchSize).length = ps.length := by
    rw [← List.length_append, List.take_append_drop]
  have hk16 : (ps.take writeBatchSize).length ≤ writeBatchSize := List.length_take_le _ _
  have hdrop := List.length_drop writeBatchSize ps
  simp only [stopSteps, List.length_set, hw3, hbatch, hb, hsz, hsize, hK] at hset hmono ⊢
  simp only [writeBatchSize] at hk hk16 hdrop hset hmono ⊢
  split_ifs at hset with hq' <;> simp only [decide_eq_true_eq] at hq' <;> omega

/-- While `stop` joins, a writer's step lowers the steps left: with
    `running` clear it never waits, and a batch it takes pays its turn. -/
theorem stopSteps_writerStep (hi : Inv s) {j : Nat} {d : Bool} (hj : s.control = .joinWriters j d)
    {i : Nat} {copied : Bool} (h : writerStep s i copied = some s') :
    stopSteps s' < stopSteps s ∧ s'.control = s.control ∧ s'.startFailed = s.startFailed := by
  obtain ⟨hrun, -, -⟩ := hi.joining j d hj
  obtain ⟨ps, hl⟩ := hi.ledger
  have hdr : s.ledger.draining = false := by simp [State.ledger, hj, Control.draining]
  have hsize : s.io.writeQueueSize = ps.length := hl.size hdr
  unfold writerStep at h
  split at h
  · -- the test of the loop: round again on a queued node, else return
    rename_i hw
    split_ifs at h with hgo
    · cases h
      have hq : 0 < s.io.writeQueueSize := by simpa [hrun] using hgo
      exact ⟨stopSteps_setWriter hw rfl rfl rfl rfl rfl (by simp [Writer.stepsLeft, hq]), rfl, rfl⟩
    · cases h
      have hq : ¬ 0 < s.io.writeQueueSize := by simpa [hrun] using hgo
      exact ⟨stopSteps_setWriter hw rfl rfl rfl rfl rfl (by simp [Writer.stepsLeft, hq]), rfl, rfl⟩
  · rename_i hw
    split_ifs at h with hwait
    · simp [hrun] at hwait
    · cases h
      exact ⟨stopSteps_take hl hdr hw (.inl rfl), rfl, rfl⟩
  · rename_i hw
    split_ifs at h with hwait
    · simp [hrun] at hwait
    · cases h
      exact ⟨stopSteps_take hl hdr hw (.inr rfl), rfl, rfl⟩
  · -- a packet of the batch written and freed
    rename_i hw
    cases h
    exact ⟨stopSteps_setWriter hw rfl rfl rfl rfl rfl (by simp [Writer.stepsLeft]), rfl, rfl⟩
  · -- the batch done: back to the test
    rename_i hw
    cases h
    exact ⟨stopSteps_setWriter hw rfl rfl rfl rfl rfl (by simp [Writer.stepsLeft]; split_ifs <;> omega),
      rfl, rfl⟩
  · cases h

/-- While `stop` joins, a caller's step lowers the steps left: a node it
    queues pays for itself and for sending each writer round once more. -/
theorem stopSteps_callerStep (hi : Inv s) {j : Nat} {d : Bool} (hj : s.control = .joinWriters j d)
    {c : Nat} (h : callerStep s c = some s') :
    stopSteps s' < stopSteps s ∧ s'.control = s.control ∧ s'.startFailed = s.startFailed := by
  obtain ⟨ps, hl⟩ := hi.ledger
  have hdr : s.ledger.draining = false := by simp [State.ledger, hj, Control.draining]
  have hsize : s.io.writeQueueSize = ps.length := hl.size hdr
  rcases callerStep_cases h with ⟨p, a, hc, ⟨io', hw, rfl⟩ | rfl⟩ | ⟨p, a, hc, rfl⟩
  · -- the node queued
    obtain ⟨hq', hK⟩ := hevTunnelIoWrite_size hw
    have hset := sum_map_set (Caller.stepsLeft s.writers.length) hc .idle
    have hup := sum_stepsLeft_le s.writers
    have hlo := List.sum_le_sum (l := s.writers) fun x _ =>
      Writer.stepsLeft_mono (decide (0 < s.io.writeQueueSize)) false (by simp) x
    have hhi := List.sum_le_sum (l := s.writers) fun x _ =>
      Writer.stepsLeft_mono true (decide (0 < io'.writeQueueSize)) (by simp) x
    refine ⟨?_, rfl, rfl⟩
    simp only [stopSteps, hq', hK, Caller.stepsLeft, List.length_set] at hset hhi ⊢
    omega
  · -- the queue was full
    have hset := sum_map_set (Caller.stepsLeft s.writers.length) hc (.reject p a)
    refine ⟨?_, rfl, rfl⟩
    simp only [stopSteps, Caller.stepsLeft] at hset ⊢
    omega
  · -- the rejected node and reference released
    have hset := sum_map_set (Caller.stepsLeft s.writers.length) hc .idle
    refine ⟨?_, rfl, rfl⟩
    simp only [stopSteps, Caller.stepsLeft] at hset ⊢
    omega

/-- A join, or the return past the last: the steps left lower, and the
    joins go on until they return. -/
theorem stopSteps_controlStep {j : Nat} {d : Bool} (hj : s.control = .joinWriters j d)
    (h : controlStep s = some s') :
    stopSteps s' < stopSteps s ∧
      (s'.control = (if d then .drain else .stopped true) ∨ ∃ i, s'.control = .joinWriters i d) ∧
      s'.startFailed = s.startFailed := by
  rcases controlStep_cases h with ⟨i, d', hc, hlt, -, rfl⟩ | ⟨i, d', hc, hle, rfl⟩ |
    ⟨hc, -, -⟩ | ⟨n, hc, -⟩
  · obtain ⟨rfl, rfl⟩ : j = i ∧ d = d' := by simpa [hj] using hc
    refine ⟨?_, .inr ⟨_, rfl⟩, rfl⟩
    simp only [stopSteps, hj, Control.joinsLeft]
    omega
  · obtain ⟨rfl, rfl⟩ : j = i ∧ d = d' := by simpa [hj] using hc
    refine ⟨?_, .inl rfl, rfl⟩
    cases d <;> simp only [stopSteps, hj, Control.joinsLeft, if_true, if_false, Bool.false_eq_true] <;>
      omega
  · rw [hj] at hc; cases hc
  · rw [hj] at hc; cases hc

/-- While `stop` joins, every step but the start of a write lowers the steps
    left, and the joins go on until they return. -/
theorem stopSteps_next (hi : Inv s) {j : Nat} {d : Bool} (hj : s.control = .joinWriters j d)
    {e : Event} (hne : ∀ c p node, e ≠ .write c p node) (h : next s e = some s') :
    stopSteps s' < stopSteps s ∧
      (s'.control = (if d then .drain else .stopped true) ∨ ∃ i, s'.control = .joinWriters i d) ∧
      s'.startFailed = s.startFailed := by
  cases e with
  | start | startFail | stop | destroy =>
    -- the control thread is in `stop`
    simp [next, hj, Control.mayDestroy] at h
  | write c p node => exact absurd rfl (hne c p node)
  | caller c =>
    obtain ⟨hlt, hc, hf⟩ := stopSteps_callerStep hi hj h
    exact ⟨hlt, .inr ⟨j, hc.trans hj⟩, hf⟩
  | writer i copied =>
    obtain ⟨hlt, hc, hf⟩ := stopSteps_writerStep hi hj h
    exact ⟨hlt, .inr ⟨j, hc.trans hj⟩, hf⟩
  | control => exact stopSteps_controlStep hj h

/-- A writer that has not returned can always step. -/
theorem writerStep_of_ne_exited {i : Nat} {w : Writer} (hw : s.writers[i]? = some w)
    (hne : w ≠ .exited) (copied : Bool) : ∃ s', writerStep s i copied = some s' := by
  unfold writerStep
  rw [hw]
  cases w with
  | top | locking | waiting => dsimp only; split_ifs <;> exact ⟨_, rfl⟩
  | batch ns => cases ns <;> exact ⟨_, rfl⟩
  | exited => exact absurd rfl hne

/-- A joining `stop` always has a step that is not a write: the writer it
    joins, or its own once that writer has returned. -/
theorem stop_progress (hi : Inv s) {j : Nat} {d : Bool} (hj : s.control = .joinWriters j d) :
    ∃ e s', (∀ c p node, e ≠ .write c p node) ∧ next s e = some s' := by
  obtain ⟨-, hlen, -⟩ := hi.joining j d hj
  by_cases hk : j < s.io.numWriters
  · obtain ⟨w, hw⟩ : ∃ w, s.writers[j]? = some w :=
      Option.ne_none_iff_exists'.1 (by rw [Ne, List.getElem?_eq_none_iff]; omega)
    by_cases he : w = .exited
    · subst he
      exact ⟨.control, _, fun _ _ _ => by simp,
        by simp only [next, controlStep, hj, if_pos hk, hw, if_true]; rfl⟩
    · obtain ⟨s', h⟩ := writerStep_of_ne_exited hw he false
      exact ⟨.writer j false, s', fun _ _ _ => by simp, h⟩
  · exact ⟨.control, _, fun _ _ _ => by simp, by simp only [next, controlStep, hj, if_neg hk]; rfl⟩

end Steps

/-- From a state where `stop` joins, a run reaches its return. -/
theorem stop_run : ∀ (n : Nat) (s : State) (j : Nat) (d : Bool), system.Reachable s →
    s.startFailed = false → s.control = .joinWriters j d → stopSteps s ≤ n →
    ∃ t, Relation.ReflTransGen system.step s t ∧ t.control = if d then .drain else .stopped true
  | n, s, j, d, hs, hok, hj, hn => by
    have hi := reachable_inv hs hok
    obtain ⟨e, s', hne, h⟩ := stop_progress hi hj
    obtain ⟨hlt, hc, hf⟩ := stopSteps_next hi hj hne h
    rcases hc with hc | ⟨i, hc⟩
    · exact ⟨s', .single ⟨e, h⟩, hc⟩
    · match n with
      | 0 => omega
      | n + 1 =>
        obtain ⟨t, ht, htc⟩ :=
          stop_run n s' i d (hs.step ⟨e, h⟩) (hf.trans hok) hc (by omega)
        exact ⟨t, .head ⟨e, h⟩ ht, htc⟩

/-- `hev_tunnel_io_stop` returns once the writes stop. In every run in which
    `hev_tunnel_io_start` did not fail, from every state where `stop` (alone
    or in `destroy`) joins the writers: a run reaches its return; no such
    state is stuck, a step that is not a new write being always enabled; and
    every step but a new write lowers the steps left (`stopSteps`) and keeps
    `stop` joining until it returns. So every run in which no new write
    starts reaches the return of `stop`, within `stopSteps` steps. -/
theorem stop_returns {s : State} (hs : system.Reachable s) (hok : s.startFailed = false)
    {j : Nat} {d : Bool} (hj : s.control = .joinWriters j d) :
    (∃ t, Relation.ReflTransGen system.step s t ∧ t.control = if d then .drain else .stopped true) ∧
    (∃ e s', (∀ c p node, e ≠ .write c p node) ∧ next s e = some s') ∧
    ∀ e s', (∀ c p node, e ≠ .write c p node) → next s e = some s' →
      stopSteps s' < stopSteps s ∧
        (s'.control = (if d then .drain else .stopped true) ∨ ∃ i, s'.control = .joinWriters i d) :=
  have hi := reachable_inv hs hok
  ⟨stop_run _ s j d hs hok hj le_rfl, stop_progress hi hj,
    fun _ _ hne h => (stopSteps_next hi hj hne h).imp_right And.left⟩

/-- Two processors: the I/O started, a packet queued, then `stop` called. -/
theorem stop_returns_queued : ∃ s, system.Reachable s ∧ s.startFailed = false ∧
    s.control = .joinWriters 0 false ∧ s.io.writeQueueSize = 1 ∧
    ((∃ t, Relation.ReflTransGen system.step s t ∧ t.control = .stopped true) ∧
    (∃ e s', (∀ c p node, e ≠ .write c p node) ∧ next s e = some s') ∧
    ∀ e s', (∀ c p node, e ≠ .write c p node) → next s e = some s' →
      stopSteps s' < stopSteps s ∧
        (s'.control = .stopped true ∨ ∃ i, s'.control = .joinWriters i false)) := by
  have r₀ := reachable_next (.init ⟨2, 1, fun _ => false, fun _ => 1, rfl⟩) .start rfl
  have r₁ := reachable_next r₀ (.write 0 1 10) rfl
  have r₂ := reachable_next r₁ (.caller 0) rfl
  have r₃ := reachable_next r₂ .stop rfl
  exact ⟨_, r₃, rfl, rfl, rfl, stop_returns r₃ rfl rfl⟩

end HevTunnel.TunnelIO
