import HevTunnel.TunnelIO.Lifecycle

/-!
# Stopping reaps every thread

The other side of `failed_start_leaves_threads`. Along a run in which no
start has failed after creating a thread (no orphan), `hev_tunnel_io_stop`
joins exactly the threads not yet joined, each once, and gets through its
joins: with `running` clear every thread returns, and each join finds its
thread returned.

* `HevTunnelIO.slotsFrom`, `State.toJoin`: the handles the joins of `stop`
  have still to reach, in their order: every slot while the I/O runs, the
  slots from the current join on while a stop joins, none otherwise;
* `Reaps`: these are the threads created and not joined, each once; kept by
  every step to a state with no orphan (`reaps_next`);
* `stop_reaps_every_thread`: so, along every run with no orphan, once `stop`
  or `destroy` has returned every thread is joined, and from every state in
  which one is joining a run of the threads' returns and of its joins takes
  it to its return, every thread joined.
-/

namespace HevTunnel.TunnelIO.Lifecycle

/-- The handles in the slots `i, i + 1, …` of the threads of `k`. -/
def HevTunnelIO.slotsFrom (io : HevTunnelIO) (k : Kind) (i : Nat) : List Nat :=
  (List.range' i (io.count k - i)).map (io.slots k)

/-- The handles the joins of `stop` have still to reach, in their order:
    every slot while the I/O runs, those from the current join on while a
    stop joins (the readers', then the writers'), none otherwise. -/
def State.toJoin (s : State) : List Nat :=
  if s.io.running then s.io.slotsFrom .reader 0 ++ s.io.slotsFrom .writer 0
  else match s.control with
    | .join .reader i _ => s.io.slotsFrom .reader i ++ s.io.slotsFrom .writer 0
    | .join .writer i _ => s.io.slotsFrom .writer i
    | _ => []

/-- The thread of handle `h` was created and is not joined. -/
def State.Unjoined (s : State) (h : Nat) : Prop :=
  0 < h ∧ ∃ k st, s.threads[h - 1]? = some (k, st) ∧ st ≠ .joined

/-- The joins to come reach every thread not joined, each once. -/
structure Reaps (s : State) : Prop where
  nodup : s.toJoin.Nodup
  mem_toJoin : ∀ h, h ∈ s.toJoin ↔ s.Unjoined h

/-! ## The joins to come -/

section ToJoin

variable {io : HevTunnelIO} {k : Kind} {i : Nat}

theorem slotsFrom_of_lt (h : i < io.count k) :
    io.slotsFrom k i = io.slots k i :: io.slotsFrom k (i + 1) := by
  rw [ HevTunnelIO.slotsFrom, HevTunnelIO.slotsFrom,
    show io.count k - i = io.count k - (i + 1) + 1 by omega, List.range'_succ, List.map_cons]

theorem slotsFrom_of_le (h : io.count k ≤ i) : io.slotsFrom k i = [] := by
  rw [ HevTunnelIO.slotsFrom, Nat.sub_eq_zero_of_le h]
  rfl

/-- Slots holding the handles `a, a + 1, …`. -/
theorem slotsFrom_zero {a n : Nat} (hn : io.count k = n) (hs : ∀ j < n, io.slots k j = a + j) :
    io.slotsFrom k 0 = List.range' a n := by
  rw [ HevTunnelIO.slotsFrom, Nat.sub_zero, hn, List.map_congr_left (g := fun j => a + j) fun j hj =>
    hs j (by rw [List.mem_range'_1] at hj; omega), List.map_add_range', Nat.add_zero]

variable {s : State}

/-- While a stop joins slot `i` of the threads of `k`, the joins to come are
    those of the slots from `i` on, and the writers' after the readers'. -/
theorem toJoin_join {d : Bool} (hrun : s.io.running = false) (hc : s.control = .join k i d) :
    s.toJoin = s.io.slotsFrom k i ++ if k = .reader then s.io.slotsFrom .writer 0 else [] := by
  cases k <;> simp [State.toJoin, hrun, hc]

/-- With the I/O not running and no stop joining, no join is to come. -/
theorem toJoin_quiet (hrun : s.io.running = false) (hc : s.control.joining = false) :
    s.toJoin = [] := by
  unfold State.toJoin
  rw [if_neg (by simp [hrun])]
  split <;> simp_all [Control.joining]

end ToJoin

/-! ## What each step does to the threads not joined -/

section Unjoined

variable {s s' : State}

theorem joined_of_not_unjoined (hall : ∀ h, ¬ s.Unjoined h) : ∀ x ∈ s.threads, x.2 = .joined := by
  intro x hx
  obtain ⟨g, hg⟩ := List.mem_iff_getElem?.1 hx
  by_contra hne
  exact hall (g + 1) ⟨g.succ_pos, x.1, x.2, hg, hne⟩

/-- Setting the thread at index `g`: its handle `g + 1` is unjoined as the
    new entry says, the others as before. -/
theorem unjoined_set {g : Nat} {x y : Kind × Status} (hg : s.threads[g]? = some x)
    (hth : s'.threads = s.threads.set g y) {h : Nat} :
    s'.Unjoined h ↔ if h = g + 1 then y.2 ≠ .joined else s.Unjoined h := by
  unfold State.Unjoined
  rw [hth]
  split_ifs with hh
  · subst hh
    rw [Nat.add_sub_cancel, List.getElem?_set_self (List.getElem?_eq_some_iff.1 hg).1]
    exact ⟨fun ⟨_, _, _, hy, hst⟩ => by cases Option.some.inj hy; exact hst,
      fun hy => ⟨g.succ_pos, y.1, y.2, rfl, hy⟩⟩
  · exact and_congr_right fun hp => by rw [List.getElem?_set_ne (by omega)]

/-- Threads appended, all running, to threads all joined: the threads not
    joined are the new ones. -/
theorem unjoined_append {new : List (Kind × Status)} (hall : ∀ h, ¬ s.Unjoined h)
    (hth : s'.threads = s.threads ++ new) (hnew : ∀ x ∈ new, x.2 = .running) {h : Nat} :
    s'.Unjoined h ↔ s.threads.length < h ∧ h ≤ s.threads.length + new.length := by
  by_cases hlt : h - 1 < s.threads.length
  · have hu := hall h
    unfold State.Unjoined at hu ⊢
    rw [hth, List.getElem?_append_left hlt]
    exact ⟨fun h' => absurd h' hu, fun h' => by omega⟩
  · unfold State.Unjoined
    rw [hth, List.getElem?_append_right (by omega)]
    constructor
    · rintro ⟨hp, k, st, hget, -⟩
      have := (List.getElem?_eq_some_iff.1 hget).1
      omega
    · rintro ⟨h₁, h₂⟩
      obtain ⟨x, hx⟩ : ∃ x, new[h - 1 - s.threads.length]? = some x :=
        Option.ne_none_iff_exists'.1 (by rw [Ne, List.getElem?_eq_none_iff]; omega)
      exact ⟨by omega, x.1, x.2, hx, by rw [hnew x (List.mem_iff_getElem?.2 ⟨_, hx⟩)]; decide⟩

end Unjoined

/-! ## Every step -/

section Steps

variable {s s' : State}

/-- Another state with the same joins to come and the same threads. -/
theorem Reaps.congr (hr : Reaps s) (ht : s'.toJoin = s.toJoin) (hth : s'.threads = s.threads) :
    Reaps s' :=
  ⟨ht ▸ hr.nodup, fun h => by
    rw [ht, hr.mem_toJoin]
    unfold State.Unjoined
    rw [hth]⟩

theorem reaps_quiet (ht : s.toJoin = []) (hall : ∀ h, ¬ s.Unjoined h) : Reaps s :=
  ⟨ht ▸ List.nodup_nil, fun h => by simp [ht, hall h]⟩

/-- The failure branch of `start`, the threads `new` created before it. -/
theorem startFailed_orphans {new : List (Kind × Status)} (hth : s'.threads = s.threads ++ new) :
    (s.startFailed s').orphans = s.orphans ++ List.range' (s.threads.length + 1) new.length := by
  simp [State.startFailed, hth]

/-- `hev_tunnel_io_start` on an I/O that does not run appends running
    threads and either fails, `running` clear and the new threads orphaned,
    or leaves one new thread in each slot, to be joined in their order. -/
theorem hevTunnelIoStart_threads (hrun : s.io.running = false) (creates : Nat → Bool) :
    ∃ new : List (Kind × Status), (∀ x ∈ new, x.2 = .running) ∧
      (hevTunnelIoStart s creates).2.threads = s.threads ++ new ∧
      (hevTunnelIoStart s creates).2.control = s.control ∧
      ((hevTunnelIoStart s creates).2.io.running = false ∧
          (hevTunnelIoStart s creates).2.orphans =
            s.orphans ++ List.range' (s.threads.length + 1) new.length ∨
        (hevTunnelIoStart s creates).2.orphans = s.orphans ∧
          (hevTunnelIoStart s creates).2.toJoin = List.range' (s.threads.length + 1) new.length) := by
  unfold hevTunnelIoStart
  rw [if_neg (by simp [hrun])]
  have spec₁ := createLoop_spec .reader creates s.io.numReaders 0 0
    { s with io := { s.io with running := true } }
  split
  · -- a reader's creation failed
    rename_i s₁ hr
    rw [hr] at spec₁
    obtain ⟨m₁, -, -, hth₁, -, -, hctl₁, -, -⟩ := spec₁
    exact ⟨_, fun x hx => (List.eq_of_mem_replicate hx).symm ▸ rfl, hth₁, hctl₁,
      .inl ⟨rfl, startFailed_orphans hth₁⟩⟩
  rename_i s₁ hr
  rw [hr] at spec₁
  obtain ⟨m₁, -, hok₁, hth₁, hrun₁, hcount₁, hctl₁, horph₁, hslots₁⟩ := spec₁
  obtain rfl := hok₁ rfl
  have spec₂ := createLoop_spec .writer creates s.io.numWriters 0 s.io.numReaders s₁
  have hnew : ∀ m, ∀ x ∈ List.replicate s.io.numReaders (Kind.reader, Status.running) ++
      List.replicate m (.writer, .running), x.2 = .running := by
    intro m x hx
    rcases List.mem_append.1 hx with hx | hx <;> rw [List.eq_of_mem_replicate hx]
  split
  · -- a writer's creation failed
    rename_i s₂ hw
    rw [hw] at spec₂
    obtain ⟨m₂, -, -, hth₂, -, -, hctl₂, -, -⟩ := spec₂
    have hth : s₂.threads = s.threads ++ (List.replicate s.io.numReaders (.reader, .running) ++
        List.replicate m₂ (.writer, .running)) := by
      rw [hth₂, hth₁, List.append_assoc]
    exact ⟨_, hnew m₂, hth, hctl₂.trans hctl₁, .inl ⟨rfl, startFailed_orphans hth⟩⟩
  -- both loops ran to the end: the readers' handles, then the writers'
  rename_i s₂ hw
  rw [hw] at spec₂
  obtain ⟨m₂, -, hok₂, hth₂, hrun₂, hcount₂, hctl₂, horph₂, hslots₂⟩ := spec₂
  obtain rfl := hok₂ rfl
  refine ⟨_, hnew _, by rw [hth₂, hth₁, List.append_assoc], hctl₂.trans hctl₁,
    .inr ⟨horph₂.trans horph₁, ?_⟩⟩
  have hlen₁ : s₁.threads.length = s.threads.length + s.io.numReaders := by
    rw [hth₁, List.length_append, List.length_replicate]
  dsimp only
  rw [State.toJoin, if_pos (hrun₂.trans hrun₁), List.length_append, List.length_replicate,
    List.length_replicate, Nat.add_comm s.io.numReaders, ← List.range'_append, Nat.one_mul]
  congr 1
  · refine slotsFrom_zero (by rw [hcount₂, hcount₁]; rfl) fun j hj => ?_
    rw [hslots₂, if_neg (by simp), hslots₁, if_pos ⟨rfl, Nat.zero_le _, by omega⟩]
    dsimp only
    omega
  · refine slotsFrom_zero (by rw [hcount₂, hcount₁]; rfl) fun j hj => ?_
    rw [hslots₂, if_pos ⟨rfl, Nat.zero_le _, by omega⟩, hlen₁]
    omega

/-- A start keeps the joins to come the threads not joined, when it leaves
    no orphan: failing, it created no thread; else its threads, the only ones
    not joined, fill the slots. -/
theorem Reaps.start (hr : Reaps s) (hctl : s.control = .idle) {creates : Nat → Bool}
    (ho : (hevTunnelIoStart s creates).2.orphans = []) : Reaps (hevTunnelIoStart s creates).2 := by
  by_cases hrun : s.io.running = true
  · rw [hevTunnelIoStart, if_pos hrun]
    exact hr
  rw [Bool.not_eq_true] at hrun
  -- before the start, every thread is joined
  have hall : ∀ h, ¬ s.Unjoined h := fun h hu => by
    simpa [toJoin_quiet hrun (by simp [hctl, Control.joining])] using (hr.mem_toJoin h).2 hu
  obtain ⟨new, hnew, hth, hctl', hout⟩ := hevTunnelIoStart_threads hrun creates
  have hu := fun h => unjoined_append (h := h) hall hth hnew
  rcases hout with ⟨hrun', horph⟩ | ⟨-, htj⟩
  · rw [horph, List.append_eq_nil, List.range'_eq_nil] at ho
    refine reaps_quiet (toJoin_quiet hrun' (by simp [hctl', hctl, Control.joining])) fun h hu' => ?_
    have := (hu h).1 hu'
    omega
  · refine ⟨htj ▸ List.nodup_range' _ _, fun h => ?_⟩
    rw [htj, List.mem_range'_1, hu]
    omega

/-- The first step of `stop` or `destroy` leaves the joins to come as they
    were: every slot if the I/O ran, none if not. -/
theorem Reaps.begin_stop (hr : Reaps s) (hctl : s.control = .idle) (d : Bool) :
    Reaps (beginStop s d) := by
  by_cases hrun : s.io.running = true
  · refine hr.congr ?_ (by rw [beginStop, if_pos hrun])
    rw [beginStop, if_pos hrun, toJoin_join rfl rfl, State.toJoin, if_pos hrun]
    rfl
  · rw [Bool.not_eq_true] at hrun
    refine hr.congr ?_ (by rw [beginStop, if_neg (by simp [hrun])])
    rw [toJoin_quiet hrun (by simp [hctl, Control.joining]), beginStop, if_neg (by simp [hrun])]
    exact toJoin_quiet hrun (by cases d <;> rfl)

/-- A join reaps the thread of the first handle to come; past the last slot
    of a kind, the joins to come stay. -/
theorem Reaps.control_step (hi : Inv s) (hr : Reaps s) (h : controlStep s = some s') : Reaps s' := by
  unfold controlStep at h
  split at h
  · rename_i k i d hc
    have hrun : s.io.running = false := hi.joining (by simp [hc, Control.joining])
    by_cases hlt : i < s.io.count k
    · rw [if_pos hlt] at h
      obtain ⟨s₁, hj, rfl⟩ := Option.map_eq_some'.1 h
      obtain ⟨g, k', hg, hget, rfl⟩ := join_spec hj
      -- the handle joined is the first to come
      have htj : s.toJoin = (g + 1) :: State.toJoin
          { s with threads := s.threads.set g (k', .joined), control := .join k (i + 1) d } := by
        rw [toJoin_join hrun hc, slotsFrom_of_lt hlt, hg]
        cases k <;> simp [State.toJoin, hrun]
      have hnd := hr.nodup
      rw [htj, List.nodup_cons] at hnd
      refine ⟨hnd.2, fun h => ?_⟩
      rw [unjoined_set hget rfl]
      split_ifs with hh
      · subst hh
        simpa using hnd.1
      · rw [← hr.mem_toJoin, htj, List.mem_cons, or_iff_right hh]
    · -- past the last slot of a kind
      rw [if_neg hlt] at h
      refine hr.congr ?_ (by cases k <;> cases h <;> rfl)
      rw [toJoin_join hrun hc, slotsFrom_of_le (not_lt.1 hlt)]
      cases k <;> cases h <;> cases d <;> simp [State.toJoin, hrun]
  · cases h

/-- A thread that returns stays to be joined. -/
theorem Reaps.thread_step (hr : Reaps s) {h : Nat} (ht : threadStep s h = some s') : Reaps s' := by
  obtain ⟨g, k, rfl, hget, -, rfl⟩ := threadStep_spec ht
  refine ⟨hr.nodup, fun h => ?_⟩
  rw [unjoined_set hget rfl]
  split_ifs with hh
  · subst hh
    exact ⟨fun _ => by simp, fun _ => (hr.mem_toJoin _).2 ⟨g.succ_pos, k, .running, hget, by decide⟩⟩
  · exact hr.mem_toJoin h

theorem reaps_next (hi : Inv s) (hr : Reaps s) {e : Event} (h : next s e = some s')
    (ho : s'.orphans = []) : Reaps s' := by
  cases e with
  | start creates =>
    simp only [next] at h
    split_ifs at h with hc
    cases h
    exact hr.start hc ho
  | stop =>
    simp only [next] at h
    split_ifs at h with hc
    cases h
    exact hr.begin_stop hc false
  | destroy =>
    simp only [next] at h
    split_ifs at h with hc
    cases h
    exact hr.begin_stop hc true
  | control => exact hr.control_step hi h
  | thread t => exact hr.thread_step h

/-- Orphans are never forgotten. -/
theorem next_orphans {e : Event} (h : next s e = some s') : ∃ l, s'.orphans = s.orphans ++ l := by
  cases e with
  | start creates =>
    simp only [next] at h
    split_ifs at h
    cases h
    by_cases hrun : s.io.running = true
    · rw [hevTunnelIoStart, if_pos hrun]
      exact ⟨[], (List.append_nil _).symm⟩
    · obtain ⟨new, -, -, -, ⟨-, ho⟩ | ⟨ho, -⟩⟩ :=
        hevTunnelIoStart_threads (Bool.not_eq_true _ ▸ hrun) creates
      · exact ⟨_, ho⟩
      · exact ⟨[], by rw [ho, List.append_nil]⟩
  | stop | destroy =>
    simp only [next] at h
    split_ifs at h
    cases h
    unfold beginStop
    split_ifs <;> exact ⟨[], (List.append_nil _).symm⟩
  | control =>
    change controlStep s = some s' at h
    unfold controlStep at h
    split at h
    · rename_i k i d _
      by_cases hlt : i < s.io.count k
      · rw [if_pos hlt] at h
        obtain ⟨s₁, hj, rfl⟩ := Option.map_eq_some'.1 h
        obtain ⟨g, k', -, -, rfl⟩ := join_spec hj
        exact ⟨[], (List.append_nil _).symm⟩
      · rw [if_neg hlt] at h
        cases k <;> cases h <;> exact ⟨[], (List.append_nil _).symm⟩
    · cases h
  | thread t =>
    obtain ⟨g, k, rfl, -, -, rfl⟩ := threadStep_spec h
    exact ⟨[], (List.append_nil _).symm⟩

end Steps

/-- Along every run, while no start has left an orphan, the joins to come
    are the threads not joined, each once. -/
theorem reachable_reaps {s : State} (hs : system.Reachable s) (ho : s.orphans = []) : Reaps s := by
  induction hs with
  | init h =>
    obtain ⟨n, rfl⟩ := h
    exact reaps_quiet (toJoin_quiet rfl rfl) fun h ⟨_, _, _, hget, _⟩ => by simp at hget
  | step hs hst ih =>
    obtain ⟨e, h⟩ := hst
    obtain ⟨l, hl⟩ := next_orphans h
    exact reaps_next (reachable_inv hs) (ih (List.append_eq_nil.1 (hl ▸ ho)).1) h ho

/-! ## Every stop returns -/

/-- Where the control thread goes once the joins of the threads of `k` are
    done: to the writers' after the readers', else the call returns. -/
def Control.afterJoins (k : Kind) (d : Bool) : Control :=
  match k with
  | .reader => .join .writer 0 d
  | .writer => if d then .destroyed else .idle

section Progress

variable {s : State} {k : Kind} {i : Nat} {d : Bool}

/-- A stop joining slot `i` gets past it: the thread there returns, if it
    has not, and is joined. -/
theorem join_advances (hs : system.Reachable s) (ho : s.orphans = []) (hc : s.control = .join k i d)
    (hlt : i < s.io.count k) :
    ∃ t, Relation.ReflTransGen system.step s t ∧ t.io = s.io ∧ t.control = .join k (i + 1) d ∧
      t.orphans = [] := by
  have hrun : s.io.running = false := (reachable_inv hs).joining (by simp [hc, Control.joining])
  -- the slot holds a thread not joined
  have hmem : s.io.slots k i ∈ s.toJoin := by
    rw [toJoin_join hrun hc, slotsFrom_of_lt hlt]
    exact List.mem_append_left _ (List.mem_cons_self _ _)
  obtain ⟨hpos, k', st, hget, hst⟩ := ((reachable_reaps hs ho).mem_toJoin _).1 hmem
  obtain ⟨g, hg⟩ : ∃ g, s.io.slots k i = g + 1 := ⟨_, (Nat.succ_pred_eq_of_pos hpos).symm⟩
  rw [hg, Nat.add_sub_cancel] at hget
  -- once it has returned, the join reaps it
  have hjoin : ∀ u : State, u.io = s.io → u.control = s.control → u.orphans = [] →
      u.threads[g]? = some (k', .exited) →
      ∃ t, system.step u t ∧ t.io = s.io ∧ t.control = .join k (i + 1) d ∧ t.orphans = [] :=
    fun u hio hcu hou hgu =>
      ⟨{ u with threads := u.threads.set g (k', .joined), control := .join k (i + 1) d },
        ⟨.control, by simp only [next, controlStep, hcu, hc, hio, if_pos hlt, hg, State.join, hgu,
          Option.map_some']⟩, hio, rfl, hou⟩
  cases st with
  | running =>
    -- the thread finds `running` clear and returns
    have hlen := (List.getElem?_eq_some_iff.1 hget).1
    obtain ⟨t, hst, ht⟩ := hjoin { s with threads := s.threads.set g (k', .exited) } rfl rfl ho
      (List.getElem?_set_self hlen)
    have h₁ : next s (.thread (g + 1)) = some { s with threads := s.threads.set g (k', .exited) } := by
      simp only [next, threadStep, hrun, hget, Bool.false_eq_true, false_and, if_false]
    exact ⟨t, .head ⟨_, h₁⟩ (.single hst), ht⟩
  | exited =>
    obtain ⟨t, hst, ht⟩ := hjoin s rfl rfl ho hget
    exact ⟨t, .single hst, ht⟩
  | joined => exact absurd rfl hst

/-- The joins of the threads of `k` from slot `i` on all happen. -/
theorem joins_finish : ∀ (n i : Nat) (s : State), system.Reachable s → s.orphans = [] →
    s.control = .join k i d → s.io.count k - i = n →
    ∃ t, Relation.ReflTransGen system.step s t ∧ t.io = s.io ∧ t.control = Control.afterJoins k d ∧
      t.orphans = []
  | 0, i, s, _, ho, hc, hn => by
    -- past the last slot
    have hle : ¬ i < s.io.count k := by omega
    refine ⟨{ s with control := Control.afterJoins k d }, .single ⟨.control, ?_⟩, rfl, rfl, ho⟩
    cases k <;> simp only [next, controlStep, hc, if_neg hle, Control.afterJoins]
  | n + 1, i, s, hs, ho, hc, hn => by
    obtain ⟨t, hst, hio, htc, hto⟩ := join_advances hs ho hc (by omega)
    obtain ⟨u, htu, hiou, huc, huo⟩ := joins_finish n (i + 1) t (hs.star hst) hto htc (by rw [hio]; omega)
    exact ⟨u, hst.trans htu, hiou.trans hio, huc, huo⟩

end Progress

/-- With no start failed after creating a thread, `hev_tunnel_io_stop` and
    `hev_tunnel_io_destroy` reap every thread. Along every such run: the
    joins still to come are exactly the threads not joined, each once; so
    once a `stop` or `destroy` has returned (or none ran while the I/O did
    not run) every thread is joined; and from every state in which one is
    joining, a run of the threads' returns and of its joins takes it to its
    return, every thread joined. -/
theorem stop_reaps_every_thread {s : State} (hs : system.Reachable s) (ho : s.orphans = []) :
    (s.toJoin.Nodup ∧ ∀ h, h ∈ s.toJoin ↔ s.Unjoined h) ∧
    (s.io.running = false → s.control.joining = false → ∀ x ∈ s.threads, x.2 = .joined) ∧
    ∀ k i d, s.control = .join k i d → ∃ t, Relation.ReflTransGen system.step s t ∧
      t.control = (if d then .destroyed else .idle) ∧ ∀ x ∈ t.threads, x.2 = .joined := by
  have hr := reachable_reaps hs ho
  -- a state with no join to come has every thread joined
  have hdone : ∀ t, system.Reachable t → t.orphans = [] → t.io.running = false →
      t.control.joining = false → ∀ x ∈ t.threads, x.2 = .joined := fun t ht hto hrun hc =>
    joined_of_not_unjoined fun h hu => by
      simpa [toJoin_quiet hrun hc] using ((reachable_reaps ht hto).mem_toJoin h).2 hu
  refine ⟨⟨hr.nodup, hr.mem_toJoin⟩, hdone s hs ho, fun k i d hc => ?_⟩
  have hrun : s.io.running = false := (reachable_inv hs).joining (by simp [hc, Control.joining])
  -- the joins of the readers, if under way, then those of the writers
  obtain ⟨t, hst, hio, htc, hto⟩ : ∃ t, Relation.ReflTransGen system.step s t ∧ t.io = s.io ∧
      t.control = (if d then .destroyed else .idle) ∧ t.orphans = [] := by
    cases k with
    | writer => exact joins_finish _ i s hs ho hc rfl
    | reader =>
      obtain ⟨t, hst, hio, htc, hto⟩ := joins_finish _ i s hs ho hc rfl
      obtain ⟨u, htu, hiou, huc, huo⟩ := joins_finish _ 0 t (hs.star hst) hto htc rfl
      exact ⟨u, hst.trans htu, hiou.trans hio, huc, huo⟩
  exact ⟨t, hst, htc, hdone t (hs.star hst) hto (hio ▸ hrun) (by rw [htc]; cases d <;> rfl)⟩

/-- On four processors, a start that succeeds, then `stop` about to join
    its four threads, the I/O's: the joins to come are the handles `1` to
    `4`, and the stop returns with all four joined. -/
theorem stop_reaps_every_thread_four : ∃ s, system.Reachable s ∧ s.orphans = [] ∧
    s.control = .join .reader 0 false ∧ s.toJoin = [1, 2, 3, 4] ∧
    ((s.toJoin.Nodup ∧ ∀ h, h ∈ s.toJoin ↔ s.Unjoined h) ∧
      (s.io.running = false → s.control.joining = false → ∀ x ∈ s.threads, x.2 = .joined) ∧
      ∀ k i d, s.control = .join k i d → ∃ t, Relation.ReflTransGen system.step s t ∧
        t.control = (if d then .destroyed else .idle) ∧ ∀ x ∈ t.threads, x.2 = .joined) := by
  have r₁ := reachable_next (.init ⟨4, rfl⟩) (.start fun _ => true) rfl
  have r₂ := reachable_next r₁ .stop rfl
  exact ⟨_, r₂, rfl, rfl, rfl, stop_reaps_every_thread r₂ rfl⟩

end HevTunnel.TunnelIO.Lifecycle
