import HevTunnel.System

/-!
# Starting and stopping the TUN threads

`hev_tunnel_io_start` sets `running`, creates `num_readers` reader threads
into `reader_threads[]`, then `num_writers` writer threads into
`writer_threads[]`; when a `pthread_create` fails it clears `running` and
returns `-1` at once. `hev_tunnel_io_stop` returns at once unless `running` is
set; else it clears it and joins every handle of the two arrays, the readers
first. `hev_tunnel_io_destroy` calls `stop`, then frees the queue, the
mutexes, the arrays and the I/O.

A writer runs its loop until it finds `running` clear and the write queue
empty (the queue is `HevTunnel.TunnelIO`'s; here a writer may return at any
test once `running` is clear). A reader returns once it finds `running`
clear, and also while it is set: when the `malloc` of its buffer fails, and
when `read` fails with an error other than `EAGAIN`, `EWOULDBLOCK` or
`EINTR`. The state holds
every thread created, with its routine and whether it runs, has returned or
was joined, and as a ghost the threads created by starts that failed. Start,
stop and destroy are called by one control thread, one at a time, as
`hev_socks5_tunnel_run` and `hev_socks5_tunnel_fini` call them; a join is a
step of its own, taken once its thread has returned.

* `Inv`: a thread of a failed start is never joined, and while the control
  thread runs or stops the I/O, no slot holds one (a start that succeeds
  overwrites every slot);
* `reachable_inv`: so along every run;
* `failed_start_leaves_threads`: a start failing at a writer leaves its
  readers running and never joined: `stop` and `destroy` return without
  joining them, and a later start succeeds but overwrites their handles.
-/

namespace HevTunnel.TunnelIO.Lifecycle

/-- The routine a thread runs. -/
inductive Kind
  | reader
  | writer
  deriving DecidableEq

/-- Where a created thread is. -/
inductive Status
  /-- In `reader_thread` or `writer_thread`. -/
  | running
  /-- Returned, not yet joined. -/
  | exited
  /-- Reaped by `pthread_join`. -/
  | joined
  deriving DecidableEq

/-- `HevTunnelIO`, the fields of its threads. -/
structure HevTunnelIO where
  running : Bool
  /-- `reader_threads`: the handle in each slot (`0` as `calloc` leaves it). -/
  readerThreads : Nat → Nat
  numReaders : Nat
  /-- `writer_threads`. -/
  writerThreads : Nat → Nat
  numWriters : Nat

/-- The slots of the threads of a kind. -/
def HevTunnelIO.slots (io : HevTunnelIO) : Kind → Nat → Nat
  | .reader => io.readerThreads
  | .writer => io.writerThreads

/-- How many threads of a kind `start` creates. -/
def HevTunnelIO.count (io : HevTunnelIO) : Kind → Nat
  | .reader => io.numReaders
  | .writer => io.numWriters

/-- `pthread_create (&slots[i], ...)` storing the handle `h`. -/
def HevTunnelIO.setSlot (io : HevTunnelIO) (kind : Kind) (i h : Nat) : HevTunnelIO :=
  match kind with
  | .reader => { io with readerThreads := Function.update io.readerThreads i h }
  | .writer => { io with writerThreads := Function.update io.writerThreads i h }

/-- `hev_tunnel_io_new` on `numCpus` processors: two readers and two writers
    from four processors on, else one of each; the slot arrays `calloc`ed. -/
def hevTunnelIoNew (numCpus : Int) : HevTunnelIO :=
  let numCpus := if numCpus < 2 then 2 else numCpus
  { running := false, readerThreads := fun _ => 0, numReaders := if numCpus ≥ 4 then 2 else 1,
    writerThreads := fun _ => 0, numWriters := if numCpus ≥ 4 then 2 else 1 }

/-- Where the control thread is. -/
inductive Control
  | idle
  /-- In `hev_tunnel_io_stop`, `running` cleared: joining slot `i` of the
      threads of `kind`; `destroying` if the call is `destroy`'s. -/
  | join (kind : Kind) (i : Nat) (destroying : Bool)
  /-- `hev_tunnel_io_destroy` returned. -/
  | destroyed
  deriving DecidableEq

/-- The control thread is joining. -/
def Control.joining : Control → Bool
  | .join .. => true
  | _ => false

/-- The I/O, every thread created (the one of handle `h` at index `h - 1`),
    the control thread, and the ghost. -/
structure State where
  io : HevTunnelIO
  threads : List (Kind × Status)
  control : Control
  /-- The handles of the threads created by starts that failed. -/
  orphans : List Nat

/-- A `pthread_create` of a `kind` thread into slot `i` that succeeds: a new
    running thread, its handle one past the last. -/
def State.create (s : State) (kind : Kind) (i : Nat) : State :=
  { s with
    threads := s.threads ++ [(kind, .running)], io := s.io.setSlot kind i (s.threads.length + 1) }

/-- A loop of `start`, `for (i = 0; i < n; i++) if (pthread_create (&slots[i],
    ...) != 0) { ...; return -1; }`, from slot `i` with `n` turns left,
    `creates c` being the result of the start's `c`-th `pthread_create`:
    whether every call succeeded, and the state after the loop. -/
def createLoop (kind : Kind) (creates : Nat → Bool) : (n i call : Nat) → State → Bool × State
  | 0, _, _, s => (true, s)
  | n + 1, i, call, s =>
    if creates call then createLoop kind creates n (i + 1) (call + 1) (s.create kind i)
    else (false, s)

/-- The failure branch of `start`: clear `running`; the threads created since
    `s` join the orphans. -/
def State.startFailed (s s' : State) : State :=
  { s' with
    io := { s'.io with running := false },
    orphans := s.orphans ++ List.range' (s.threads.length + 1) (s'.threads.length - s.threads.length) }

/-- `hev_tunnel_io_start (io)`, `creates c` being the result of its `c`-th
    `pthread_create`. -/
def hevTunnelIoStart (s : State) (creates : Nat → Bool) : Int × State :=
  if s.io.running then (-1, s)
  else
    match createLoop .reader creates s.io.numReaders 0 0 { s with io := { s.io with running := true } } with
    | (false, s₁) => (-1, s.startFailed s₁)
    | (true, s₁) =>
      match createLoop .writer creates s.io.numWriters 0 s.io.numReaders s₁ with
      | (false, s₂) => (-1, s.startFailed s₂)
      | (true, s₂) => (0, s₂)

/-- The first step of `hev_tunnel_io_stop`, alone or in `destroy`: clear
    `running` and join the threads if it was set; else return at once (and
    `destroy` frees the I/O). -/
def beginStop (s : State) (destroying : Bool) : State :=
  if s.io.running then
    { s with io := { s.io with running := false }, control := .join .reader 0 destroying }
  else { s with control := if destroying then .destroyed else .idle }

/-- `pthread_join` on the handle `h`, once its thread has returned. -/
def State.join (s : State) : Nat → Option State
  | 0 => none
  | h + 1 => match s.threads[h]? with
    | some (k, .exited) => some { s with threads := s.threads.set h (k, .joined) }
    | _ => none

/-- A step of `stop` past its first: join the next slot, the readers' then
    the writers'; after the last, return (and `destroy` frees the I/O). -/
def controlStep (s : State) : Option State :=
  match s.control with
  | .join k i d =>
    if i < s.io.count k then
      (s.join (s.io.slots k i)).map fun s => { s with control := .join k (i + 1) d }
    else
      match k with
      | .reader => some { s with control := .join .writer 0 d }
      | .writer => some { s with control := if d then .destroyed else .idle }
  | _ => none

/-- The thread of handle `h` returns: a writer once it finds `running`
    clear at the test of its loop, a reader then or at a failed `malloc` or
    `read`, whether `running` is set or not. -/
def threadStep (s : State) : Nat → Option State
  | 0 => none
  | h + 1 =>
    match s.threads[h]? with
    | some (k, .running) =>
      if s.io.running ∧ k = .writer then none
      else some { s with threads := s.threads.set h (k, .exited) }
    | _ => none

/-- Who moves. -/
inductive Event
  | start (creates : Nat → Bool)
  | stop
  | destroy
  /-- The control thread's next join. -/
  | control
  /-- The thread of handle `h`. -/
  | thread (h : Nat)

/-- One step; the control thread calls `start`, `stop` or `destroy` only
    when the last call has returned, and none after `destroy`. -/
def next (s : State) : Event → Option State
  | .start creates => if s.control = .idle then some (hevTunnelIoStart s creates).2 else none
  | .stop => if s.control = .idle then some (beginStop s false) else none
  | .destroy => if s.control = .idle then some (beginStop s true) else none
  | .control => controlStep s
  | .thread h => threadStep s h

def system : System State where
  init s := ∃ numCpus, s = ⟨hevTunnelIoNew numCpus, [], .idle, []⟩
  step s s' := ∃ e, next s e = some s'

theorem reachable_next {s s' : State} (hs : system.Reachable s) (e : Event)
    (h : next s e = some s') : system.Reachable s' :=
  hs.step ⟨e, h⟩

/-! ## What each step does -/

section Slots

variable (io : HevTunnelIO) (kind : Kind) (i h : Nat)

@[simp] theorem slots_setSlot (k : Kind) (j : Nat) :
    (io.setSlot kind i h).slots k j = if k = kind ∧ j = i then h else io.slots k j := by
  cases kind <;> cases k <;> by_cases hj : j = i <;>
    simp [ HevTunnelIO.setSlot, HevTunnelIO.slots, hj]

@[simp] theorem count_setSlot (k : Kind) : (io.setSlot kind i h).count k = io.count k := by
  cases kind <;> cases k <;> rfl

@[simp] theorem running_setSlot : (io.setSlot kind i h).running = io.running := by
  cases kind <;> rfl

end Slots

/-- A loop of `start` appends `m ≤ n` running threads, all `n` when every
    call succeeded, and stores their handles in the slots `i` to
    `i + m - 1`; it changes nothing else. -/
theorem createLoop_spec (kind : Kind) (creates : Nat → Bool) (n i call : Nat) (s : State) :
    ∃ m ≤ n, ((createLoop kind creates n i call s).1 = true → m = n) ∧
      (createLoop kind creates n i call s).2.threads = s.threads ++ List.replicate m (kind, .running) ∧
      (createLoop kind creates n i call s).2.io.running = s.io.running ∧
      (∀ k, (createLoop kind creates n i call s).2.io.count k = s.io.count k) ∧
      (createLoop kind creates n i call s).2.control = s.control ∧
      (createLoop kind creates n i call s).2.orphans = s.orphans ∧
      ∀ k j, (createLoop kind creates n i call s).2.io.slots k j =
        if k = kind ∧ i ≤ j ∧ j < i + m then s.threads.length + (j - i) + 1 else s.io.slots k j := by
  induction n generalizing i call s with
  | zero =>
    refine ⟨0, le_rfl, fun _ => rfl, (List.append_nil _).symm, rfl, fun _ => rfl, rfl, rfl,
      fun k j => ?_⟩
    rw [if_neg fun h => absurd h.2.2 (by omega)]; rfl
  | succ n ih =>
    simp only [createLoop]
    split_ifs with hc
    · -- one more thread, then the rest of the loop from slot `i + 1`
      obtain ⟨m, hm, hok, hth, hrun, hcount, hctl, horph, hslots⟩ :=
        ih (i + 1) (call + 1) (s.create kind i)
      refine ⟨m + 1, by omega, fun h => by rw [hok h], ?_, hrun.trans (running_setSlot ..),
        fun k => (hcount k).trans (count_setSlot _ _ _ _ k), hctl, horph, fun k j => ?_⟩
      · rw [hth]
        simp only [State.create, List.append_assoc, List.singleton_append, List.replicate_succ]
      · rw [hslots]
        simp only [State.create, slots_setSlot, List.length_append, List.length_singleton]
        by_cases hk : k = kind
        · simp only [hk, true_and]
          split_ifs <;> omega
        · simp only [hk, false_and, if_false]
    · refine ⟨0, Nat.zero_le _, fun h => absurd h (by decide), (List.append_nil _).symm, rfl,
        fun _ => rfl, rfl, rfl,
        fun k j => ?_⟩
      rw [if_neg fun h => absurd h.2.2 (by omega)]

/-- A join reaps a returned thread and changes nothing else. -/
theorem join_spec {s s' : State} {h : Nat} (hj : s.join h = some s') :
    ∃ g k, h = g + 1 ∧ s.threads[g]? = some (k, .exited) ∧
      s' = { s with threads := s.threads.set g (k, .joined) } := by
  cases h with
  | zero => cases hj
  | succ g =>
    simp only [State.join] at hj
    split at hj
    · cases hj; exact ⟨g, _, rfl, by assumption, rfl⟩
    · cases hj

/-- A thread's step: a running thread returns, a writer only once `running`
    is clear, and nothing else changes. -/
theorem threadStep_spec {s s' : State} {h : Nat} (ht : threadStep s h = some s') :
    ∃ g k, h = g + 1 ∧ s.threads[g]? = some (k, .running) ∧
      (s.io.running = false ∨ k = .reader) ∧
      s' = { s with threads := s.threads.set g (k, .exited) } := by
  cases h with
  | zero => cases ht
  | succ g =>
    simp only [threadStep] at ht
    split at ht
    · rename_i k hget
      split_ifs at ht with hr
      cases ht
      refine ⟨g, k, rfl, hget, ?_, rfl⟩
      cases k <;> simp_all
    · cases ht

/-! ## Every run -/

/-- The invariant: every orphan is a thread never joined; while the control
    thread joins, `running` is clear; and while the I/O runs or is being
    stopped, no slot holds an orphan. -/
structure Inv (s : State) : Prop where
  orphan : ∀ h ∈ s.orphans, 0 < h ∧ ∃ k st, s.threads[h - 1]? = some (k, st) ∧ st ≠ .joined
  joining : s.control.joining = true → s.io.running = false
  slots : s.io.running = true ∨ s.control.joining = true →
    ∀ k i, i < s.io.count k → s.io.slots k i ∉ s.orphans

theorem inv_init (numCpus : Int) : Inv ⟨hevTunnelIoNew numCpus, [], .idle, []⟩ :=
  ⟨by simp, by simp [Control.joining], by simp⟩

section Steps

variable {s s' : State}

/-- An orphan is among the threads. -/
theorem Inv.orphan_le (hi : Inv s) {h : Nat} (hh : h ∈ s.orphans) : h ≤ s.threads.length := by
  obtain ⟨hpos, _k, _st, hget, -⟩ := hi.orphan h hh
  by_contra hlt
  rw [List.getElem?_eq_none (by omega)] at hget
  cases hget

/-- Appending threads keeps what the orphans are. -/
theorem Inv.orphan_append (hi : Inv s) {h : Nat} (hh : h ∈ s.orphans) (new : List (Kind × Status)) :
    ∃ k st, (s.threads ++ new)[h - 1]? = some (k, st) ∧ st ≠ .joined := by
  obtain ⟨hpos, k, st, hget, hst⟩ := hi.orphan h hh
  exact ⟨k, st, by rw [List.getElem?_append_left (by have := hi.orphan_le hh; omega), hget], hst⟩

/-- A failed start: its threads, all running, join the orphans, and
    `running` is clear. -/
theorem Inv.startFailed (hi : Inv s) {new : List (Kind × Status)}
    (hth : s'.threads = s.threads ++ new) (hnew : ∀ x ∈ new, x.2 = .running)
    (hctl : s'.control = .idle) : Inv (s.startFailed s') := by
  refine ⟨fun h hh => ?_, by simp [State.startFailed, hctl, Control.joining],
    by simp [State.startFailed, hctl, Control.joining]⟩
  simp only [State.startFailed, List.mem_append, List.mem_range'_1] at hh
  show 0 < h ∧ ∃ k st, s'.threads[h - 1]? = some (k, st) ∧ st ≠ .joined
  rw [hth]
  rcases hh with hh | ⟨h₁, h₂⟩
  · exact ⟨(hi.orphan h hh).1, hi.orphan_append hh new⟩
  · -- a thread of this start: running
    have hlen : s'.threads.length = s.threads.length + new.length := by
      rw [hth, List.length_append]
    obtain ⟨x, hx⟩ : ∃ x, new[h - 1 - s.threads.length]? = some x :=
      Option.ne_none_iff_exists'.1 (by rw [Ne, List.getElem?_eq_none_iff]; omega)
    refine ⟨by omega, x.1, x.2, ?_, by rw [hnew x (List.mem_iff_getElem?.2 ⟨_, hx⟩)]; decide⟩
    rw [List.getElem?_append_right (by omega), hx]

/-- A start keeps the invariant; one that succeeds fills every slot with a
    thread it created. -/
theorem Inv.start (hi : Inv s) (hctl : s.control = .idle) (creates : Nat → Bool) :
    Inv (hevTunnelIoStart s creates).2 := by
  unfold hevTunnelIoStart
  split_ifs with hrun
  · exact hi
  have spec₁ := createLoop_spec .reader creates s.io.numReaders 0 0
    { s with io := { s.io with running := true } }
  split
  · -- a reader's creation failed
    rename_i s₁ hr
    rw [hr] at spec₁
    dsimp only at spec₁
    obtain ⟨m₁, -, -, hth₁, -, -, hctl₁, -, -⟩ := spec₁
    exact hi.startFailed hth₁ (by simp [List.mem_replicate]) (hctl₁.trans hctl)
  rename_i s₁ hr
  rw [hr] at spec₁
  dsimp only at spec₁
  obtain ⟨m₁, -, hok₁, hth₁, hrun₁, hcount₁, hctl₁, horph₁, hslots₁⟩ := spec₁
  obtain rfl := hok₁ rfl
  have spec₂ := createLoop_spec .writer creates s.io.numWriters 0 s.io.numReaders s₁
  split
  · -- a writer's creation failed
    rename_i s₂ hw
    rw [hw] at spec₂
    dsimp only at spec₂
    obtain ⟨m₂, -, -, hth₂, -, -, hctl₂, -, -⟩ := spec₂
    have hth : s₂.threads = s.threads ++ (List.replicate s.io.numReaders (.reader, .running) ++
        List.replicate m₂ (.writer, .running)) := by
      rw [hth₂, hth₁, List.append_assoc]
    refine hi.startFailed hth (fun x hx => ?_) (hctl₂.trans (hctl₁.trans hctl))
    simp only [List.mem_append, List.mem_replicate] at hx
    rcases hx with ⟨-, rfl⟩ | ⟨-, rfl⟩ <;> rfl
  -- both loops ran to the end: every slot holds a thread of this start
  rename_i s₂ hw
  rw [hw] at spec₂
  dsimp only at spec₂
  obtain ⟨m₂, -, hok₂, hth₂, -, hcount₂, hctl₂, horph₂, hslots₂⟩ := spec₂
  obtain rfl := hok₂ rfl
  refine ⟨fun h hh => ?_, fun hj => absurd hj (by simp [hctl₂, hctl₁, hctl, Control.joining]),
    fun _ k i hi' hmem => ?_⟩
  · rw [horph₂, horph₁] at hh
    obtain ⟨k, st, hget, hst⟩ := hi.orphan_append hh
      (List.replicate s.io.numReaders (.reader, .running) ++
        List.replicate s.io.numWriters (.writer, .running))
    exact ⟨(hi.orphan h hh).1, k, st, by rw [hth₂, hth₁, List.append_assoc]; exact hget, hst⟩
  · -- the slot holds a thread of this start, past every orphan
    rw [horph₂, horph₁] at hmem
    have hle := hi.orphan_le hmem
    rw [hcount₂, hcount₁] at hi'
    rw [hslots₂, hslots₁] at hle
    cases k <;> simp only [ HevTunnelIO.count] at hi'
    · rw [if_neg (by simp), if_pos ⟨rfl, Nat.zero_le _, by omega⟩] at hle
      omega
    · rw [if_pos ⟨rfl, Nat.zero_le _, by omega⟩, hth₁, List.length_append,
        List.length_replicate] at hle
      omega

/-- The first step of `stop` or `destroy` keeps the invariant. -/
theorem Inv.begin_stop (hi : Inv s) (d : Bool) : Inv (beginStop s d) := by
  by_cases hrun : s.io.running = true
  · rw [beginStop, if_pos hrun]
    exact ⟨hi.orphan, fun _ => rfl, fun _ => hi.slots (.inl hrun)⟩
  · rw [beginStop, if_neg hrun]
    refine ⟨hi.orphan, fun h => ?_, fun h => ?_⟩ <;> cases d <;> simp_all [Control.joining]

/-- A join reaps a thread of a slot, never an orphan. -/
theorem Inv.control_step (hi : Inv s) (h : controlStep s = some s') : Inv s' := by
  unfold controlStep at h
  split at h
  · rename_i k i d hc
    have hj : s.control.joining = true := by simp [hc, Control.joining]
    have hrun := hi.joining hj
    by_cases hlt : i < s.io.count k
    · rw [if_pos hlt] at h
      obtain ⟨s₁, hjoin, rfl⟩ := Option.map_eq_some'.1 h
      obtain ⟨g, k', hg, -, rfl⟩ := join_spec hjoin
      have hno : g + 1 ∉ s.orphans := hg ▸ hi.slots (.inr hj) k i hlt
      refine ⟨fun h hh => ?_, fun _ => hrun, fun _ => hi.slots (.inr hj)⟩
      obtain ⟨hpos, k₀, st, hget, hst⟩ := hi.orphan h hh
      have hne : g ≠ h - 1 := fun e => hno (by rw [e, Nat.sub_add_cancel hpos]; exact hh)
      exact ⟨hpos, k₀, st, by rw [List.getElem?_set_ne hne]; exact hget, hst⟩
    · rw [if_neg hlt] at h
      cases k <;> cases h
      · exact ⟨hi.orphan, fun _ => hrun, fun _ => hi.slots (.inr hj)⟩
      · refine ⟨hi.orphan, fun h => ?_, fun h => ?_⟩ <;> cases d <;>
          simp_all [Control.joining]
  · cases h

/-- A thread that returns is not joined. -/
theorem Inv.thread_step (hi : Inv s) {h : Nat} (ht : threadStep s h = some s') : Inv s' := by
  obtain ⟨g, k, rfl, hget, -, rfl⟩ := threadStep_spec ht
  refine ⟨fun h hh => ?_, hi.joining, hi.slots⟩
  obtain ⟨hpos, k₀, st, hget₀, hst⟩ := hi.orphan h hh
  by_cases hg : g = h - 1
  · refine ⟨hpos, k, .exited, ?_, by decide⟩
    rw [← hg, List.getElem?_set_self (List.getElem?_eq_some_iff.1 hget).1]
  · exact ⟨hpos, k₀, st, by rw [List.getElem?_set_ne hg]; exact hget₀, hst⟩

theorem inv_next (hi : Inv s) {e : Event} (h : next s e = some s') : Inv s' := by
  cases e with
  | start creates =>
    simp only [next] at h
    split_ifs at h with hc
    cases h; exact hi.start hc creates
  | stop =>
    simp only [next] at h
    split_ifs at h
    cases h; exact hi.begin_stop false
  | destroy =>
    simp only [next] at h
    split_ifs at h
    cases h; exact hi.begin_stop true
  | control => exact hi.control_step h
  | thread t => exact hi.thread_step h

end Steps

theorem reachable_inv {s : State} (hs : system.Reachable s) : Inv s :=
  System.reachable_induction (fun _ ⟨n, h⟩ => h ▸ inv_init n)
    (fun _ _ _ hi ⟨_, h⟩ => inv_next hi h) hs

/-! ## A failed start -/

/-- A start from an I/O that is not running and that fails, at whichever
    `pthread_create`: `running` is clear, so the `stop` or `destroy` after it
    returns at once, joining nothing. -/
theorem hevTunnelIoStart_failed {s s' : State} {creates : Nat → Bool}
    (hr : s.io.running = false) (h : hevTunnelIoStart s creates = (-1, s')) :
    (beginStop s' false).control = .idle ∧ (beginStop s' true).control = .destroyed ∧
      (beginStop s' false).threads = s'.threads := by
  have hrun : s'.io.running = false := by
    unfold hevTunnelIoStart at h
    rw [if_neg (by simp [hr])] at h
    split at h
    · cases h; rfl
    · split at h
      · cases h; rfl
      · cases h
  simp [beginStop, hrun]

/-- A failed start leaves its threads behind: along every run, no thread
    created by a start that failed is ever joined, and every failed start
    clears `running`, so that the `stop` or `destroy` after it joins
    nothing. On four processors, a start whose first writer's
    `pthread_create` fails leaves its two readers running; `destroy` then
    returns with them running; after `stop` instead, a later start succeeds,
    and once the next `stop` has joined its threads the two readers are still
    running, never joined. -/
theorem failed_start_leaves_threads :
    (∀ s, system.Reachable s → ∀ h ∈ s.orphans,
      ∃ k st, s.threads[h - 1]? = some (k, st) ∧ st ≠ .joined) ∧
    (∀ s creates s', s.io.running = false → hevTunnelIoStart s creates = (-1, s') →
      (beginStop s' false).control = .idle ∧ (beginStop s' true).control = .destroyed ∧
        (beginStop s' false).threads = s'.threads) ∧
    (∃ s, system.Reachable s ∧ s.control = .destroyed ∧ s.orphans = [1, 2] ∧
      s.threads = [(.reader, .running), (.reader, .running)]) ∧
    ∃ s, system.Reachable s ∧ (hevTunnelIoStart s fun _ => true).1 = 0 ∧ s.orphans = [1, 2] ∧
      ∃ s', system.Reachable s' ∧ s'.control = .idle ∧ s'.orphans = [1, 2] ∧
        s'.threads = [(.reader, .running), (.reader, .running), (.reader, .joined),
          (.reader, .joined), (.writer, .joined), (.writer, .joined)] := by
  refine ⟨fun s hs h hh => ((reachable_inv hs).orphan h hh).2,
    fun s creates s' hr h => hevTunnelIoStart_failed hr h, ?_⟩
  -- the start fails at its third `pthread_create`, the first writer's
  have r₁ := reachable_next (.init ⟨4, rfl⟩) (.start fun c => c != 2) rfl
  have r₂ := reachable_next r₁ .destroy rfl
  refine ⟨⟨_, r₂, rfl, rfl, rfl⟩, ?_⟩
  -- `stop` returns at once; a second start creates four threads
  have r₃ := reachable_next r₁ .stop rfl
  have r₄ := reachable_next r₃ (.start fun _ => true) rfl
  -- the next `stop`: its four threads return and are joined
  have r₅ := reachable_next r₄ .stop rfl
  have r₆ := reachable_next r₅ (.thread 3) rfl
  have r₇ := reachable_next r₆ (.thread 4) rfl
  have r₈ := reachable_next r₇ (.thread 5) rfl
  have r₉ := reachable_next r₈ (.thread 6) rfl
  have r₁₀ := reachable_next r₉ .control rfl
  have r₁₁ := reachable_next r₁₀ .control rfl
  have r₁₂ := reachable_next r₁₁ .control rfl
  have r₁₃ := reachable_next r₁₂ .control rfl
  have r₁₄ := reachable_next r₁₃ .control rfl
  have r₁₅ := reachable_next r₁₄ .control rfl
  exact ⟨_, r₃, rfl, rfl, _, r₁₅, rfl, rfl, rfl⟩

end HevTunnel.TunnelIO.Lifecycle
