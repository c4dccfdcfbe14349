import HevTunnel.System
import Mathlib
/-!
# The connection pool

`hev-connection-pool.c` keeps up to `CONN_POOL_SIZE` idle outbound sockets
for reuse. `hev_connection_pool_get` counts the request and, under the
pool's mutex, scans the slots: an idle slot used within the last
`CONN_IDLE_TIMEOUT` seconds is probed with `recv (MSG_PEEK | MSG_DONTWAIT)`,
closed and emptied if the peer has gone, and otherwise handed out (a hit).
If no slot is handed out, `get` leaves the mutex, opens a socket, connects it
to `server:port`, and counts a miss under the mutex again. `release` marks
the slot of an fd idle, or files an fd the pool does not know into an empty
slot, or closes it if the pool is full; `remove` closes the slot of an fd;
`cleanup` closes every idle slot past the timeout.

The pool is modelled with any number of client threads, each section under
the mutex one atomic step, and with `get` split where the code leaves the
mutex. The kernel is modelled as handing out, on `socket`, an fd that is not
open; the clock and the outcomes of `recv`, `socket` and `connect` are
chosen by the environment at every step. Ghost state records the fds each
client holds, the fds open in the process, the destination each fd was
created for, and each hit's destination against its fd's.

* `pool_hit_ignores_destination`: every hit hands out an fd some miss
  created, but the scan never reads `server` or `port`, so a socket connected
  to one destination is handed out for another;
* `pool_ownership_exclusive`: no fd is in two slots, no fd is held twice or
  both held and idle in a slot, and the pool closes an fd only when no other
  client holds it;
* `pool_stats_miss_failures`: at every quiescent point, hits and misses add
  up to the requests less the failed `get`s; a `socket` or `connect` failure
  is counted as a request and as neither.
-/

namespace HevTunnel.ConnectionPool

/-- `CONN_POOL_SIZE`. -/
def connPoolSize : Nat := 128

/-- `CONN_IDLE_TIMEOUT`, in seconds. -/
def connIdleTimeout : Int := 60

/-- `struct _HevConnection`. -/
structure HevConnection where
  fd : Int
  lastUsed : Int
  created : Int
  inUse : Bool
  useCount : Nat
  deriving DecidableEq

/-- `struct _HevConnectionPool`: the `size` slots in use of `conns`, and the
    statistics. -/
structure HevConnectionPool where
  conns : List HevConnection
  totalRequests : Nat
  cacheHits : Nat
  cacheMisses : Nat
  evictions : Nat
  deriving DecidableEq

/-- `hev_connection_pool_new (size)`, `calloc` succeeding. -/
def hevConnectionPoolNew (size : Nat) : HevConnectionPool where
  conns := List.replicate (min size connPoolSize) ⟨-1, 0, 0, false, 0⟩
  totalRequests := 0
  cacheHits := 0
  cacheMisses := 0
  evictions := 0

/-! ## The sections under the mutex -/

/-- The test of the scan of `get`: a pooled idle connection used within the
    last `CONN_IDLE_TIMEOUT` seconds. -/
def HevConnection.reusable (now : Int) (c : HevConnection) : Bool :=
  decide (0 ≤ c.fd) && !c.inUse && decide (now - c.lastUsed < connIdleTimeout)

/-- What the scan of `get` leaves: the slots, the fd it reuses, and the fds
    it closes. -/
structure Scan where
  conns : List HevConnection
  hit : Option Int
  closed : List Int

/-- The scan of `hev_connection_pool_get` from slot `i` on; `alive i` is the
    outcome of the probe of slot `i`: false when `recv` returns `0`, or fails
    with an error other than `EAGAIN`/`EWOULDBLOCK`. -/
def scanConns (now : Int) (alive : Nat → Bool) (i : Nat) : List HevConnection → Scan
  | [] => ⟨[], none, []⟩
  | c :: cs =>
    if c.reusable now then
      if alive i then
        ⟨{ c with inUse := true, lastUsed := now, useCount := (c.useCount + 1) % 2 ^ 32 } :: cs,
          some c.fd, []⟩
      else
        let r := scanConns now alive (i + 1) cs
        ⟨{ c with fd := -1 } :: r.conns, r.hit, c.fd :: r.closed⟩
    else
      let r := scanConns now alive (i + 1) cs
      ⟨c :: r.conns, r.hit, r.closed⟩

/-- The first section of `hev_connection_pool_get`: the request counted and
    the scan; the pool, the fd handed out, and the fds closed. -/
def hevConnectionPoolGetLocked (pool : HevConnectionPool) (now : Int) (alive : Nat → Bool) :
    HevConnectionPool × Option Int × List Int :=
  let r := scanConns now alive 0 pool.conns
  ({ pool with
      conns := r.conns
      totalRequests := pool.totalRequests + 1
      cacheHits := if r.hit.isSome then pool.cacheHits + 1 else pool.cacheHits
      evictions := pool.evictions + r.closed.length }, r.hit, r.closed)

/-- The second section of `hev_connection_pool_get`, after a connect. -/
def hevConnectionPoolCountMiss (pool : HevConnectionPool) : HevConnectionPool :=
  { pool with cacheMisses := pool.cacheMisses + 1 }

/-- The first slot satisfying `p` replaced by `f` of it, as the loops of
    `release` and `remove` do before their `break`; `none` if no slot does. -/
def updateFirst (p : HevConnection → Bool) (f : HevConnection → HevConnection) :
    List HevConnection → Option (List HevConnection)
  | [] => none
  | c :: cs => if p c then some (f c :: cs) else (updateFirst p f cs).map (c :: ·)

/-- `hev_connection_pool_release (pool, fd)`: the pool and the fds closed. -/
def hevConnectionPoolRelease (pool : HevConnectionPool) (fd now : Int) :
    HevConnectionPool × List Int :=
  if fd < 0 then (pool, []) else
  match updateFirst (·.fd == fd) (fun c => { c with inUse := false, lastUsed := now }) pool.conns with
  | some conns => ({ pool with conns := conns }, [])
  | none =>
    match updateFirst (fun c => decide (c.fd < 0))
        (fun c => { c with fd := fd, inUse := false, lastUsed := now, created := now, useCount := 1 })
        pool.conns with
    | some conns => ({ pool with conns := conns }, [])
    | none => ({ pool with evictions := pool.evictions + 1 }, [fd])

/-- `hev_connection_pool_remove (pool, fd)`: the pool and the fds closed. -/
def hevConnectionPoolRemove (pool : HevConnectionPool) (fd : Int) : HevConnectionPool × List Int :=
  if fd < 0 then (pool, []) else
  match updateFirst (·.fd == fd) (fun c => { c with fd := -1, inUse := false }) pool.conns with
  | some conns => ({ pool with conns := conns, evictions := pool.evictions + 1 }, [fd])
  | none => (pool, [])

/-- The test of `cleanup`: a pooled idle connection unused for
    `CONN_IDLE_TIMEOUT` seconds. -/
def HevConnection.expired (now : Int) (c : HevConnection) : Bool :=
  decide (0 ≤ c.fd) && !c.inUse && decide (now - c.lastUsed ≥ connIdleTimeout)

/-- `hev_connection_pool_cleanup (pool)`: the pool and the fds closed. -/
def hevConnectionPoolCleanup (pool : HevConnectionPool) (now : Int) :
    HevConnectionPool × List Int :=
  let closed := (pool.conns.filter (·.expired now)).map (·.fd)
  ({ pool with
      conns := pool.conns.map fun c => if c.expired now then { c with fd := -1 } else c
      evictions := pool.evictions + closed.length }, closed)

/-! ## What each section does to the slots

Each section is described by what it does to two counts per fd: the slots
holding it, and the idle slots holding it. -/

/-- The slots holding `fd`. -/
def slotCount (conns : List HevConnection) (fd : Int) : Nat := conns.countP (·.fd == fd)

/-- The idle slots holding `fd`. -/
def idleCount (conns : List HevConnection) (fd : Int) : Nat :=
  conns.countP fun c => c.fd == fd && !c.inUse

@[simp] theorem slotCount_nil (x : Int) : slotCount [] x = 0 := rfl

@[simp] theorem idleCount_nil (x : Int) : idleCount [] x = 0 := rfl

@[simp] theorem slotCount_cons (c : HevConnection) (cs : List HevConnection) (x : Int) :
    slotCount (c :: cs) x = slotCount cs x + if c.fd = x then 1 else 0 := by
  simp [slotCount, List.countP_cons]

@[simp] theorem idleCount_cons (c : HevConnection) (cs : List HevConnection) (x : Int) :
    idleCount (c :: cs) x = idleCount cs x + if c.fd = x ∧ c.inUse = false then 1 else 0 := by
  simp [idleCount, List.countP_cons]

section Counts

variable {x : Int} (now : Int) (alive : Nat → Bool)

theorem reusable_iff {now : Int} {c : HevConnection} :
    c.reusable now = true ↔ 0 ≤ c.fd ∧ c.inUse = false ∧ now - c.lastUsed < connIdleTimeout := by
  simp [HevConnection.reusable, and_assoc]

/-- The scan empties the slots it closes and takes the slot it hands out
    from the idle ones. -/
theorem scanConns_counts (hx : 0 ≤ x) : ∀ (i : Nat) (conns : List HevConnection),
    slotCount (scanConns now alive i conns).conns x + (scanConns now alive i conns).closed.count x =
      slotCount conns x ∧
    idleCount (scanConns now alive i conns).conns x + (scanConns now alive i conns).closed.count x +
      (if (scanConns now alive i conns).hit = some x then 1 else 0) = idleCount conns x
  | _, [] => by simp [scanConns]
  | i, c :: cs => by
    have ih := scanConns_counts hx (i + 1) cs
    have hne : (-1 : Int) ≠ x := by omega
    by_cases hr : c.reusable now
    · have hu := (reusable_iff.1 hr).2.1
      by_cases ha : alive i
      · -- handed out
        simp [scanConns, hr, ha, hu]
      · -- closed and emptied
        simp only [scanConns, hr, ha, if_true, Bool.false_eq_true, if_false, slotCount_cons,
          idleCount_cons, List.count_cons, beq_iff_eq, hne, false_and, hu, and_true] at ih ⊢
        omega
    · simp only [scanConns, hr, Bool.false_eq_true, if_false, slotCount_cons, idleCount_cons] at ih ⊢
      omega

theorem scanConns_hit_nonneg : ∀ (i : Nat) (conns : List HevConnection) {h : Int},
    (scanConns now alive i conns).hit = some h → 0 ≤ h
  | _, [], _, hh => by simp [scanConns] at hh
  | i, c :: cs, h, hh => by
    by_cases hr : c.reusable now
    · by_cases ha : alive i
      · simp only [scanConns, hr, ha, if_true, Option.some.injEq] at hh
        exact hh ▸ (reusable_iff.1 hr).1
      · simp only [scanConns, hr, ha, if_true, Bool.false_eq_true, if_false] at hh
        exact scanConns_hit_nonneg (i + 1) cs hh
    · simp only [scanConns, hr, Bool.false_eq_true, if_false] at hh
      exact scanConns_hit_nonneg (i + 1) cs hh

theorem scanConns_closed_nonneg : ∀ (i : Nat) (conns : List HevConnection),
    ∀ y ∈ (scanConns now alive i conns).closed, 0 ≤ y
  | _, [], _, hy => by simp [scanConns] at hy
  | i, c :: cs, y, hy => by
    by_cases hr : c.reusable now
    · by_cases ha : alive i
      · simp [scanConns, hr, ha] at hy
      · simp only [scanConns, hr, ha, if_true, Bool.false_eq_true, if_false, List.mem_cons] at hy
        rcases hy with rfl | hy
        · exact (reusable_iff.1 hr).1
        · exact scanConns_closed_nonneg (i + 1) cs y hy
    · simp only [scanConns, hr, Bool.false_eq_true, if_false] at hy
      exact scanConns_closed_nonneg (i + 1) cs y hy

/-- `updateFirst` replaces one slot satisfying `p`: every count moves by what
    the replacement changes. -/
theorem updateFirst_countP {p : HevConnection → Bool} {f : HevConnection → HevConnection} :
    ∀ {conns conns' : List HevConnection}, updateFirst p f conns = some conns' →
      ∃ c ∈ conns, p c ∧ ∀ q : HevConnection → Bool,
        conns'.countP q + (if q c then 1 else 0) = conns.countP q + (if q (f c) then 1 else 0)
  | [], _, h => by simp [updateFirst] at h
  | c :: cs, conns', h => by
    simp only [updateFirst] at h
    split at h
    · cases h
      exact ⟨c, List.mem_cons_self _ _, ‹_›, fun q => by simp only [List.countP_cons]; omega⟩
    · obtain ⟨cs', hcs, rfl⟩ := Option.map_eq_some'.1 h
      obtain ⟨d, hd, hpd, hq⟩ := updateFirst_countP hcs
      exact ⟨d, List.mem_cons_of_mem _ hd, hpd, fun q => by
        have := hq q; simp only [List.countP_cons]; omega⟩

theorem updateFirst_none {p : HevConnection → Bool} {f : HevConnection → HevConnection} :
    ∀ {conns : List HevConnection}, updateFirst p f conns = none → ∀ c ∈ conns, p c = false
  | [], _, _, hc => by simp at hc
  | c :: cs, h, d, hd => by
    simp only [updateFirst] at h
    split at h
    · cases h
    · rcases List.mem_cons.1 hd with rfl | hd
      · simpa using ‹¬p d = true›
      · exact updateFirst_none (Option.map_eq_none'.1 h) d hd

/-- `cleanup` empties the slots it closes, all of them idle. -/
theorem cleanup_counts (hx : 0 ≤ x) : ∀ conns : List HevConnection,
    slotCount (conns.map fun c => if c.expired now then { c with fd := -1 } else c) x +
        ((conns.filter (·.expired now)).map (·.fd)).count x = slotCount conns x ∧
    idleCount (conns.map fun c => if c.expired now then { c with fd := -1 } else c) x +
        ((conns.filter (·.expired now)).map (·.fd)).count x = idleCount conns x
  | [] => by simp
  | c :: cs => by
    have ih := cleanup_counts hx cs
    have hne : (-1 : Int) ≠ x := by omega
    by_cases he : c.expired now
    · have hu : c.inUse = false := by simp [HevConnection.expired] at he; exact he.1.2
      simp only [List.map_cons, he, if_true, List.filter_cons, slotCount_cons, idleCount_cons,
        List.count_cons, beq_iff_eq, hne, false_and, hu, and_true, if_false] at ih ⊢
      omega
    · simp only [List.map_cons, he, Bool.false_eq_true, if_false, List.filter_cons, slotCount_cons,
        idleCount_cons] at ih ⊢
      omega

theorem cleanup_closed_nonneg (conns : List HevConnection) :
    ∀ y ∈ (conns.filter (·.expired now)).map (·.fd), 0 ≤ y := by
  simp only [List.mem_map, List.mem_filter]
  rintro _ ⟨c, ⟨-, he⟩, rfl⟩
  simp only [HevConnection.expired, Bool.and_eq_true, decide_eq_true_eq] at he
  exact he.1.1

end Counts

/-! ## Clients

A client is a thread calling the pool. `get` takes four steps: the section
under the mutex; `socket`; `connect`; and the section counting the miss.
Every other call is one section under the mutex. -/

/-- The `server` and `port` arguments of `get`. -/
structure Dest where
  server : String
  port : Nat
  deriving DecidableEq

/-- Where a client is in its call. -/
inductive Call
  | idle
  /-- `get` found no slot to hand out; `socket` is next. -/
  | miss (dest : Dest)
  /-- `socket` returned `fd`; `connect` is next. -/
  | connecting (fd : Int)
  /-- `connect` succeeded or is in progress; the miss is counted next. -/
  | counting (fd : Int)
  deriving DecidableEq

/-- A `get` past its first section and not yet returned. -/
def Call.pending : Call → Nat
  | .idle => 0
  | _ => 1

structure State where
  pool : HevConnectionPool
  /-- Each client's place in its call. -/
  calls : List Call
  /-- Ghost: the fds each client holds, from a hit or from `socket`. -/
  held : List (Nat × Int)
  /-- Ghost: the fds open in the process. -/
  opened : List Int
  /-- Ghost: the destination each fd was created for, the latest first. -/
  origins : List (Int × Dest)
  /-- Ghost: each hit's destination, and that of the fd it handed out. -/
  hits : List (Dest × Option Dest)
  /-- Ghost: the `get`s that returned `-1` after counting their request. -/
  failed : Nat
  /-- Ghost: the fds the last step closed. -/
  closed : List Int

/-- Who moves, with the outcomes the environment chooses. -/
inductive Event
  /-- Client `j` calls `get (server, port)` at time `now`; `alive` the
      outcomes of the probes. -/
  | get (j : Nat) (dest : Dest) (now : Int) (alive : Nat → Bool)
  /-- `socket` returns `fd` to client `j`, negative on failure. -/
  | socket (j : Nat) (fd : Int)
  /-- `connect` of client `j` succeeds or is in progress (`ok`), or fails. -/
  | connect (j : Nat) (ok : Bool)
  | countMiss (j : Nat)
  | release (j : Nat) (fd now : Int)
  | remove (j : Nat) (fd : Int)
  /-- Any thread calls `cleanup` at time `now`. -/
  | cleanup (now : Int)

/-- The client an event is a step of. -/
def Event.caller : Event → Option Nat
  | .get j .. | .socket j _ | .connect j _ | .countMiss j | .release j .. | .remove j _ => some j
  | .cleanup _ => none

/-- The fds `closed` closed. -/
def closeFds (opened closed : List Int) : List Int := opened.filter fun y => y ∉ closed

/-- A section under the mutex that leaves the pool `r.1` and closes the fds
    `r.2`. -/
def State.locked (s : State) (r : HevConnectionPool × List Int) : State :=
  { s with pool := r.1, opened := closeFds s.opened r.2, closed := r.2 }

/-- The first section of `get` by client `j`: a hit is held by `j`, a miss
    goes on to `socket`. -/
def State.get (s : State) (j : Nat) (dest : Dest) (now : Int) (alive : Nat → Bool) : State :=
  let r := hevConnectionPoolGetLocked s.pool now alive
  match r.2.1 with
  | some fd => { s.locked (r.1, r.2.2) with
      held := (j, fd) :: s.held, hits := (dest, s.origins.lookup fd) :: s.hits }
  | none => { s.locked (r.1, r.2.2) with calls := s.calls.set j (.miss dest) }

/-- `socket` returns `fd ≥ 0` to client `j`, at a miss for `dest`. -/
def State.socketReturned (s : State) (j : Nat) (dest : Dest) (fd : Int) : State :=
  { s with
    calls := s.calls.set j (.connecting fd), held := (j, fd) :: s.held,
    opened := fd :: s.opened, origins := (fd, dest) :: s.origins, closed := [] }

/-- `connect` of client `j` failed: `close (fd)` and `return -1`. -/
def State.connectFailed (s : State) (j : Nat) (fd : Int) : State :=
  { s with
    calls := s.calls.set j .idle, held := s.held.erase (j, fd),
    opened := closeFds s.opened [fd], failed := s.failed + 1, closed := [fd] }

/-- `release` or `remove` of `fd` by client `j`, the section leaving `r`. -/
def State.giveBack (s : State) (j : Nat) (fd : Int) (r : HevConnectionPool × List Int) : State :=
  { s.locked r with held := s.held.erase (j, fd) }

/-- A client releases or removes only an fd it holds, and only between its
    calls; the kernel's `socket` returns an fd that is not open. -/
def next (s : State) : Event → Option State
  | .get j dest now alive => if s.calls[j]? = some .idle then some (s.get j dest now alive) else none
  | .socket j fd =>
    match s.calls[j]? with
    | some (.miss dest) =>
      if fd < 0 then some { s with calls := s.calls.set j .idle, failed := s.failed + 1, closed := [] }
      else if fd ∈ s.opened then none
      else some (s.socketReturned j dest fd)
    | _ => none
  | .connect j ok =>
    match s.calls[j]? with
    | some (.connecting fd) =>
      if ok then some { s with calls := s.calls.set j (.counting fd), closed := [] }
      else some (s.connectFailed j fd)
    | _ => none
  | .countMiss j =>
    match s.calls[j]? with
    | some (.counting _) => some { s with
        pool := hevConnectionPoolCountMiss s.pool, calls := s.calls.set j .idle, closed := [] }
    | _ => none
  | .release j fd now =>
    if s.calls[j]? = some .idle ∧ (j, fd) ∈ s.held then
      some (s.giveBack j fd (hevConnectionPoolRelease s.pool fd now))
    else none
  | .remove j fd =>
    if s.calls[j]? = some .idle ∧ (j, fd) ∈ s.held then
      some (s.giveBack j fd (hevConnectionPoolRemove s.pool fd))
    else none
  | .cleanup now => some (s.locked (hevConnectionPoolCleanup s.pool now))

/-- A pool from `hev_connection_pool_new` and any number of clients. -/
def system : System State where
  init s := ∃ size n, s = ⟨hevConnectionPoolNew size, List.replicate n .idle, [], [], [], [], 0, []⟩
  step s s' := ∃ e, next s e = some s'

theorem reachable_next {s s' : State} (hs : system.Reachable s) (e : Event)
    (h : next s e = some s') : system.Reachable s' :=
  hs.step ⟨e, h⟩

/-! ## The invariant -/

/-- The clients holding `fd`. -/
def heldCount (held : List (Nat × Int)) (fd : Int) : Nat := held.countP (·.2 == fd)

/-- The fd a `get` holds past `socket`. -/
def Call.fd? : Call → Option Int
  | .connecting fd | .counting fd => some fd
  | _ => none

section Held

variable {held : List (Nat × Int)} {p q : Nat × Int}

@[simp] theorem heldCount_cons (x : Int) :
    heldCount (p :: held) x = heldCount held x + if p.2 = x then 1 else 0 := by
  simp [heldCount, List.countP_cons]

theorem heldCount_erase (h : p ∈ held) (x : Int) :
    heldCount (held.erase p) x + (if p.2 = x then 1 else 0) = heldCount held x := by
  induction held with
  | nil => cases h
  | cons q held ih =>
    by_cases hq : q = p
    · subst hq; simp
    · have := ih ((List.mem_cons.1 h).resolve_left (Ne.symm hq))
      simp only [List.erase_cons, beq_iff_eq, hq, if_false, heldCount_cons]
      omega

theorem heldCount_pos (h : p ∈ held) : 0 < heldCount held p.2 :=
  List.countP_pos_iff.2 ⟨p, h, by simp⟩

/-- An fd held at most once has one holder. -/
theorem held_unique (hle : heldCount held p.2 ≤ 1) (hp : p ∈ held) (hq : q ∈ held)
    (h : q.2 = p.2) : q = p := by
  by_contra hne
  have h₁ := heldCount_erase hp p.2
  have h₂ : 0 < heldCount (held.erase p) p.2 := h ▸ heldCount_pos ((List.mem_erase_of_ne hne).2 hq)
  rw [if_pos rfl] at h₁; omega

end Held

theorem idleCount_le (conns : List HevConnection) (x : Int) : idleCount conns x ≤ slotCount conns x :=
  List.countP_mono_left fun c _ h => by simp only [Bool.and_eq_true] at h; exact h.1

theorem getElem?_set_cases {l : List Call} {j j' : Nat} {a c : Call} (h : (l.set j a)[j']? = some c) :
    (j' = j ∧ c = a) ∨ (j' ≠ j ∧ l[j']? = some c) := by
  rw [List.getElem?_set] at h
  split at h
  · split at h
    · exact .inl ⟨‹j = j'›.symm, (Option.some.inj h).symm⟩
    · cases h
  · exact .inr ⟨fun e => ‹¬j = j'› e.symm, h⟩

theorem mem_closeFds {opened closed : List Int} {y : Int} :
    y ∈ closeFds opened closed ↔ y ∈ opened ∧ y ∉ closed := by
  simp [closeFds]

/-- What holds of every reachable state. -/
structure Inv (s : State) : Prop where
  /-- No fd is in two slots. -/
  slot_le : ∀ x, 0 ≤ x → slotCount s.pool.conns x ≤ 1
  /-- An fd is idle in a slot, or held by one client, or neither. -/
  idle_held : ∀ x, 0 ≤ x → idleCount s.pool.conns x + heldCount s.held x ≤ 1
  held_nonneg : ∀ p ∈ s.held, 0 ≤ p.2
  /-- An fd in a slot or held is open, and was created by a miss. -/
  known : ∀ x, 0 ≤ x → 0 < slotCount s.pool.conns x + heldCount s.held x →
    x ∈ s.opened ∧ (s.origins.lookup x).isSome
  /-- A `get` past `socket` holds its fd, which is in no slot. -/
  inflight : ∀ j c x, s.calls[j]? = some c → c.fd? = some x →
    (j, x) ∈ s.held ∧ slotCount s.pool.conns x = 0
  /-- Every request is a hit, a miss, a failure, or a `get` under way. -/
  requests : s.pool.totalRequests =
    s.pool.cacheHits + s.pool.cacheMisses + s.failed + (s.calls.map Call.pending).sum
  hits_known : ∀ h ∈ s.hits, h.2.isSome

theorem inv_init {s : State} (h : system.init s) : Inv s := by
  obtain ⟨size, n, rfl⟩ := h
  have hslot : ∀ x, 0 ≤ x → slotCount (hevConnectionPoolNew size).conns x = 0 := fun x hx => by
    simp only [slotCount, hevConnectionPoolNew, List.countP_replicate, beq_iff_eq]
    rw [if_neg (by omega)]
  refine ⟨fun x hx => by rw [hslot x hx]; omega, fun x hx => ?_, by simp, fun x hx h => ?_,
    fun j c x hc hx => ?_, ?_, by simp⟩
  · have := idleCount_le (hevConnectionPoolNew size).conns x
    simp only [heldCount, List.countP_nil]; rw [hslot x hx] at this; omega
  · simp [hslot x hx, heldCount] at h
  · rw [List.getElem?_replicate] at hc
    split at hc <;> cases hc
    cases hx
  · simp [hevConnectionPoolNew, Call.pending]

section Steps

variable {s : State} {j : Nat}

theorem Inv.get (hi : Inv s) (hj : s.calls[j]? = some .idle) (dest : Dest) (now : Int)
    (alive : Nat → Bool) : Inv (s.get j dest now alive) := by
  have hc := fun x (hx : 0 ≤ x) => scanConns_counts now alive hx 0 s.pool.conns
  have hhit : ∀ h, (scanConns now alive 0 s.pool.conns).hit = some h → 0 ≤ h :=
    fun _ => scanConns_hit_nonneg now alive 0 s.pool.conns
  simp only [State.get, hevConnectionPoolGetLocked]
  generalize scanConns now alive 0 s.pool.conns = r at hc hhit
  obtain ⟨r, hit, closed⟩ := r
  dsimp only at hc hhit ⊢
  -- per fd: the scan only takes from the slots, and what it closes or
  -- hands out was idle, so nobody held it
  have hfd : ∀ x, 0 ≤ x →
      slotCount r x ≤ slotCount s.pool.conns x ∧
      idleCount r x + (if hit = some x then 1 else 0) + heldCount s.held x ≤ 1 ∧
      (0 < slotCount r x + heldCount s.held x + (if hit = some x then 1 else 0) →
        closed.count x = 0 ∧ 0 < slotCount s.pool.conns x + heldCount s.held x) := by
    intro x hx
    obtain ⟨h₁, h₂⟩ := hc x hx
    have := hi.slot_le x hx; have := hi.idle_held x hx; have := idleCount_le s.pool.conns x
    by_cases hx' : hit = some x
    · simp only [hx', if_true] at h₂ ⊢; omega
    · simp only [hx', if_false] at h₂ ⊢; omega
  have hknown : ∀ x, 0 ≤ x → 0 < slotCount r x + heldCount s.held x + (if hit = some x then 1 else 0) →
      x ∈ closeFds s.opened closed ∧ (s.origins.lookup x).isSome := by
    intro x hx hpos
    obtain ⟨hcl, hpos'⟩ := (hfd x hx).2.2 hpos
    obtain ⟨ho, hl⟩ := hi.known x hx hpos'
    exact ⟨mem_closeFds.2 ⟨ho, List.count_eq_zero.1 hcl⟩, hl⟩
  have hinflight : ∀ j' c x, s.calls[j']? = some c → c.fd? = some x →
      (j', x) ∈ s.held ∧ slotCount r x = 0 := fun j' c x hc' hx => by
    obtain ⟨hm, h0⟩ := hi.inflight j' c x hc' hx
    exact ⟨hm, by have := (hfd x (hi.held_nonneg _ hm)).1; omega⟩
  cases hit with
  | none =>
    refine ⟨fun x hx => ?_, fun x hx => ?_, hi.held_nonneg, fun x hx hpos => ?_,
      fun j' c x hc' hx => ?_, ?_, hi.hits_known⟩
    · have := (hfd x hx).1; have := hi.slot_le x hx; simp only [State.locked]; omega
    · have := (hfd x hx).2.1; simp only [State.locked]; simp at this; omega
    · exact hknown x hx (by simpa [State.locked] using hpos)
    · rcases getElem?_set_cases hc' with ⟨rfl, rfl⟩ | ⟨-, hc'⟩
      · cases hx
      · exact hinflight j' c x hc' hx
    · have := sum_map_set Call.pending hj (.miss dest)
      have := hi.requests
      simp only [State.locked, Call.pending, Option.isSome_none, Bool.false_eq_true, if_false] at *
      omega
  | some h =>
    have hx₀ := hhit h rfl
    refine ⟨fun x hx => ?_, fun x hx => ?_, ?_, fun x hx hpos => ?_,
      fun j' c x hc' hx => ?_, ?_, ?_⟩
    · have := (hfd x hx).1; have := hi.slot_le x hx; simp only [State.locked]; omega
    · have := (hfd x hx).2.1
      simp only [State.locked, heldCount_cons, Option.some.injEq] at this ⊢
      omega
    · intro p hp
      rcases List.mem_cons.1 hp with rfl | hp
      · exact hx₀
      · exact hi.held_nonneg p hp
    · simp only [State.locked, heldCount_cons] at hpos ⊢
      exact hknown x hx (by simp only [Option.some.injEq]; omega)
    · obtain ⟨hm, h0⟩ := hinflight j' c x hc' hx
      exact ⟨List.mem_cons_of_mem _ hm, h0⟩
    · have := hi.requests
      simp only [State.locked, Option.isSome_some, if_true] at *
      omega
    · intro e he
      rcases List.mem_cons.1 he with rfl | he
      · exact (hknown h hx₀ (by rw [if_pos rfl]; exact Nat.succ_pos _)).2
      · exact hi.hits_known e he

theorem Inv.socketFailed (hi : Inv s) {dest : Dest} (hj : s.calls[j]? = some (.miss dest)) :
    Inv { s with calls := s.calls.set j .idle, failed := s.failed + 1, closed := [] } := by
  refine ⟨hi.slot_le, hi.idle_held, hi.held_nonneg, hi.known, fun j' c x hc hx => ?_, ?_,
    hi.hits_known⟩
  · rcases getElem?_set_cases hc with ⟨-, rfl⟩ | ⟨-, hc⟩
    · cases hx
    · exact hi.inflight j' c x hc hx
  · have := sum_map_set Call.pending hj .idle; have := hi.requests
    simp only [Call.pending] at *; omega

theorem Inv.socketReturned (hi : Inv s) {dest : Dest} {fd : Int}
    (hj : s.calls[j]? = some (.miss dest)) (hfd : 0 ≤ fd) (hnew : fd ∉ s.opened) :
    Inv (s.socketReturned j dest fd) := by
  -- a fd that is not open is in no slot and held by nobody
  have hfresh : slotCount s.pool.conns fd + heldCount s.held fd = 0 :=
    Nat.eq_zero_of_not_pos fun h => hnew (hi.known fd hfd h).1
  have hlookup : ∀ x, ((fd, dest) :: s.origins).lookup x =
      if x = fd then some dest else s.origins.lookup x := fun x => by
    by_cases hx : x = fd
    · subst hx; simp [List.lookup_cons]
    · simp [List.lookup_cons, hx, beq_false_of_ne hx]
  refine ⟨hi.slot_le, fun x hx => ?_, fun p hp => ?_, fun x hx hpos => ?_,
    fun j' c x hc hx => ?_, ?_, hi.hits_known⟩
  · have := hi.idle_held x hx; have := idleCount_le s.pool.conns fd
    simp only [State.socketReturned, heldCount_cons]
    by_cases h : fd = x
    · subst h; rw [if_pos rfl]; omega
    · rw [if_neg h]; omega
  · rcases List.mem_cons.1 hp with rfl | hp
    · exact hfd
    · exact hi.held_nonneg p hp
  · simp only [State.socketReturned, heldCount_cons, hlookup, List.mem_cons] at hpos ⊢
    by_cases hx' : fd = x
    · subst hx'; simp
    · rw [if_neg hx', Nat.add_zero] at hpos
      exact ⟨.inr (hi.known x hx hpos).1, by rw [if_neg (Ne.symm hx')]; exact (hi.known x hx hpos).2⟩
  · rcases getElem?_set_cases hc with ⟨rfl, rfl⟩ | ⟨-, hc⟩
    · cases hx; exact ⟨List.mem_cons_self _ _, by simp only [State.socketReturned]; omega⟩
    · obtain ⟨hm, h0⟩ := hi.inflight j' c x hc hx
      exact ⟨List.mem_cons_of_mem _ hm, h0⟩
  · have := sum_map_set Call.pending hj (.connecting fd); have := hi.requests
    simp only [State.socketReturned, Call.pending] at *; omega

theorem Inv.connectOk (hi : Inv s) {fd : Int} (hj : s.calls[j]? = some (.connecting fd)) :
    Inv { s with calls := s.calls.set j (.counting fd), closed := [] } := by
  refine ⟨hi.slot_le, hi.idle_held, hi.held_nonneg, hi.known, fun j' c x hc hx => ?_, ?_,
    hi.hits_known⟩
  · rcases getElem?_set_cases hc with ⟨rfl, rfl⟩ | ⟨-, hc⟩
    · exact hi.inflight j' _ x hj hx
    · exact hi.inflight j' c x hc hx
  · have := sum_map_set Call.pending hj (.counting fd); have := hi.requests
    simp only [Call.pending] at *; omega

theorem Inv.connectFailed (hi : Inv s) {fd : Int} (hj : s.calls[j]? = some (.connecting fd)) :
    Inv (s.connectFailed j fd) := by
  obtain ⟨hm, h0⟩ := hi.inflight j _ fd hj rfl
  have hfd := hi.held_nonneg _ hm
  have he := heldCount_erase hm
  refine ⟨hi.slot_le, fun x hx => ?_, fun p hp => hi.held_nonneg p (List.mem_of_mem_erase hp),
    fun x hx hpos => ?_, fun j' c x hc hx => ?_, ?_, hi.hits_known⟩
  · have := hi.idle_held x hx; have := he x; simp only [State.connectFailed]; omega
  · have := he x; have := hi.idle_held x hx
    simp only [State.connectFailed, mem_closeFds, List.mem_singleton] at hpos ⊢
    have hne : x ≠ fd := by rintro rfl; simp only [if_true] at this; omega
    exact ⟨⟨(hi.known x hx (by omega)).1, hne⟩, (hi.known x hx (by omega)).2⟩
  · rcases getElem?_set_cases hc with ⟨-, rfl⟩ | ⟨hne, hc⟩
    · cases hx
    · obtain ⟨hm', h0'⟩ := hi.inflight j' c x hc hx
      exact ⟨(List.mem_erase_of_ne fun h => hne (Prod.mk.inj h).1).2 hm', h0'⟩
  · have := sum_map_set Call.pending hj .idle; have := hi.requests
    simp only [State.connectFailed, Call.pending] at *; omega

theorem Inv.countMiss (hi : Inv s) {fd : Int} (hj : s.calls[j]? = some (.counting fd)) :
    Inv { s with
      pool := hevConnectionPoolCountMiss s.pool, calls := s.calls.set j .idle, closed := [] } := by
  refine ⟨hi.slot_le, hi.idle_held, hi.held_nonneg, hi.known, fun j' c x hc hx => ?_, ?_,
    hi.hits_known⟩
  · rcases getElem?_set_cases hc with ⟨-, rfl⟩ | ⟨-, hc⟩
    · cases hx
    · exact hi.inflight j' c x hc hx
  · have := sum_map_set Call.pending hj .idle; have := hi.requests
    simp only [hevConnectionPoolCountMiss, Call.pending] at *; omega

/-- A section that moves the fd `fd` alone: every other fd keeps its counts,
    `fd` stays in at most one slot and is closed only if it leaves them, and
    the requests, hits and misses stay. -/
structure MovesOnly (pool : HevConnectionPool) (fd : Int) (r : HevConnectionPool × List Int) :
    Prop where
  other : ∀ x, 0 ≤ x → x ≠ fd →
    slotCount r.1.conns x = slotCount pool.conns x ∧ idleCount r.1.conns x = idleCount pool.conns x
  slot_le : slotCount r.1.conns fd ≤ 1
  closed : r.2 = [] ∨ r.2 = [fd] ∧ slotCount r.1.conns fd = 0
  stats : r.1.totalRequests = pool.totalRequests ∧ r.1.cacheHits = pool.cacheHits ∧
    r.1.cacheMisses = pool.cacheMisses

theorem MovesOnly.closed_sub {pool : HevConnectionPool} {fd : Int} {r : HevConnectionPool × List Int}
    (hm : MovesOnly pool fd r) {x : Int} (hx : x ∈ r.2) : x = fd := by
  rcases hm.closed with h | ⟨h, -⟩ <;> rw [h] at hx
  · cases hx
  · exact List.mem_singleton.1 hx

theorem Inv.giveBack (hi : Inv s) {fd : Int} {r : HevConnectionPool × List Int}
    (hj : s.calls[j]? = some .idle) (hh : (j, fd) ∈ s.held) (hm : MovesOnly s.pool fd r) :
    Inv (s.giveBack j fd r) := by
  have hfd : 0 ≤ fd := hi.held_nonneg _ hh
  have he : ∀ x, heldCount (s.held.erase (j, fd)) x + (if fd = x then 1 else 0) =
      heldCount s.held x := heldCount_erase hh
  have h1 : heldCount s.held fd = 1 := by
    have := heldCount_pos hh; have := hi.idle_held fd hfd; simp only at *; omega
  -- the holder of `fd` is `j`
  have huniq : ∀ p ∈ s.held, p.2 = fd → p = (j, fd) :=
    fun p hp h => held_unique (by rw [h1]) hh hp h
  refine ⟨fun x hx => ?_, fun x hx => ?_, fun p hp => hi.held_nonneg p (List.mem_of_mem_erase hp),
    fun x hx hpos => ?_, fun j' c x hc hx => ?_, ?_, hi.hits_known⟩
  all_goals dsimp only [State.giveBack, State.locked] at *
  · by_cases hxf : x = fd
    · subst hxf; exact hm.slot_le
    · rw [(hm.other x hx hxf).1]; exact hi.slot_le x hx
  · have := he x
    by_cases hxf : x = fd
    · subst hxf; have := idleCount_le r.1.conns x; have := hm.slot_le
      rw [if_pos rfl] at *; omega
    · have := hi.idle_held x hx; rw [if_neg (Ne.symm hxf)] at *
      rw [(hm.other x hx hxf).2]; omega
  · have := he x
    rw [mem_closeFds]
    by_cases hxf : x = fd
    · subst hxf
      rw [if_pos rfl] at this
      have hs : 0 < slotCount r.1.conns x := by omega
      have hcl : r.2 = [] := hm.closed.resolve_right fun h => by omega
      have := hi.known x hx (by omega)
      exact ⟨⟨this.1, by simp [hcl]⟩, this.2⟩
    · rw [(hm.other x hx hxf).1] at hpos; rw [if_neg (Ne.symm hxf)] at this
      have := hi.known x hx (by omega)
      exact ⟨⟨this.1, fun h => hxf (hm.closed_sub h)⟩, this.2⟩
  · obtain ⟨hm', h0⟩ := hi.inflight j' c x hc hx
    have hne : j' ≠ j := fun h => by subst h; rw [hj] at hc; cases hc; cases hx
    have hxf : x ≠ fd := fun h => hne (Prod.mk.inj (huniq _ hm' h)).1
    refine ⟨(List.mem_erase_of_ne fun h => hne (Prod.mk.inj h).1).2 hm', ?_⟩
    rw [(hm.other x (hi.held_nonneg _ hm') hxf).1, h0]
  · obtain ⟨h₁, h₂, h₃⟩ := hm.stats; have := hi.requests; omega

theorem release_movesOnly {pool : HevConnectionPool} {fd : Int} (now : Int) (hfd : 0 ≤ fd)
    (hle : slotCount pool.conns fd ≤ 1) : MovesOnly pool fd (hevConnectionPoolRelease pool fd now) := by
  unfold hevConnectionPoolRelease
  rw [if_neg (by omega)]
  split
  · -- the slot of `fd` marked idle
    rename_i conns h
    obtain ⟨c, -, hp, hq⟩ := updateFirst_countP h
    simp only [beq_iff_eq] at hp
    refine ⟨fun x hx hxf => ⟨?_, ?_⟩, ?_, .inl rfl, ⟨rfl, rfl, rfl⟩⟩
    · have := hq (·.fd == x); dsimp only [slotCount] at this ⊢; omega
    · have := hq fun c => c.fd == x && !c.inUse
      simp [hp, Ne.symm hxf] at this; simpa [idleCount] using this
    · have := hq (·.fd == fd); dsimp only [slotCount] at this hle ⊢; omega
  · rename_i hnone
    have h0 : slotCount pool.conns fd = 0 :=
      List.countP_eq_zero.2 fun c hc => by simp [updateFirst_none hnone c hc]
    split
    · -- `fd` filed into the first empty slot
      rename_i conns h
      obtain ⟨c, -, hp, hq⟩ := updateFirst_countP h
      simp only [decide_eq_true_eq] at hp
      refine ⟨fun x hx hxf => ⟨?_, ?_⟩, ?_, .inl rfl, ⟨rfl, rfl, rfl⟩⟩
      · have := hq (·.fd == x)
        simp [show c.fd ≠ x by omega, Ne.symm hxf] at this; simpa [slotCount] using this
      · have := hq fun c => c.fd == x && !c.inUse
        simp [show c.fd ≠ x by omega, Ne.symm hxf] at this; simpa [idleCount] using this
      · have := hq (·.fd == fd)
        simp [show c.fd ≠ fd by omega] at this; simp only [slotCount] at h0 ⊢; omega
    · -- the pool is full: `close (fd)`
      exact ⟨fun _ _ _ => ⟨rfl, rfl⟩, by simp only; omega, .inr ⟨rfl, h0⟩, ⟨rfl, rfl, rfl⟩⟩

theorem remove_movesOnly {pool : HevConnectionPool} {fd : Int} (hfd : 0 ≤ fd)
    (hle : slotCount pool.conns fd ≤ 1) : MovesOnly pool fd (hevConnectionPoolRemove pool fd) := by
  unfold hevConnectionPoolRemove
  rw [if_neg (by omega)]
  split
  · rename_i conns h
    obtain ⟨c, -, hp, hq⟩ := updateFirst_countP h
    simp only [beq_iff_eq] at hp
    have hs := hq (·.fd == fd)
    simp [hp, show (-1 : Int) ≠ fd by omega] at hs
    refine ⟨fun x hx hxf => ⟨?_, ?_⟩, by simp only [slotCount] at hle ⊢; omega,
      .inr ⟨rfl, by simp only [slotCount] at hle ⊢; omega⟩, ⟨rfl, rfl, rfl⟩⟩
    · have := hq (·.fd == x)
      simp [hp, Ne.symm hxf, show (-1 : Int) ≠ x by omega] at this; simpa [slotCount] using this
    · have := hq fun c => c.fd == x && !c.inUse
      simp [hp, Ne.symm hxf, show (-1 : Int) ≠ x by omega] at this; simpa [idleCount] using this
  · exact ⟨fun _ _ _ => ⟨rfl, rfl⟩, hle, .inl rfl, ⟨rfl, rfl, rfl⟩⟩

theorem Inv.cleanup (hi : Inv s) (now : Int) : Inv (s.locked (hevConnectionPoolCleanup s.pool now)) := by
  have hc := fun x (hx : 0 ≤ x) => cleanup_counts now hx s.pool.conns
  refine ⟨fun x hx => ?_, fun x hx => ?_, hi.held_nonneg, fun x hx hpos => ?_, fun j' c x hc' hx => ?_,
    hi.requests, hi.hits_known⟩
  · have := hc x hx; have := hi.slot_le x hx
    simp only [State.locked, hevConnectionPoolCleanup]; omega
  · have := hc x hx; have := hi.idle_held x hx
    simp only [State.locked, hevConnectionPoolCleanup]; omega
  · have := hc x hx; have := hi.slot_le x hx; have := hi.idle_held x hx
    have := idleCount_le s.pool.conns x
    simp only [State.locked, hevConnectionPoolCleanup, mem_closeFds] at hpos ⊢
    have hcl : ((s.pool.conns.filter (·.expired now)).map (·.fd)).count x = 0 := by omega
    have := hi.known x hx (by omega)
    exact ⟨⟨this.1, List.count_eq_zero.1 hcl⟩, this.2⟩
  · obtain ⟨hm, h0⟩ := hi.inflight j' c x hc' hx
    have := hc x (hi.held_nonneg _ hm)
    exact ⟨hm, by simp only [State.locked, hevConnectionPoolCleanup]; omega⟩

theorem inv_next (hi : Inv s) {e : Event} {s' : State} (h : next s e = some s') : Inv s' := by
  cases e with
  | get j dest now alive =>
    simp only [next] at h
    split at h
    · cases h; exact hi.get ‹_› dest now alive
    · cases h
  | socket j fd =>
    simp only [next] at h
    split at h
    · rename_i dest hj
      split at h
      · cases h; exact hi.socketFailed hj
      · split at h
        · cases h
        · cases h; exact hi.socketReturned hj (by omega) ‹_›
    · cases h
  | connect j ok =>
    simp only [next] at h
    split at h
    · rename_i fd hj
      split at h
      · cases h; exact hi.connectOk hj
      · cases h; exact hi.connectFailed hj
    · cases h
  | countMiss j =>
    simp only [next] at h
    split at h
    · cases h; exact hi.countMiss ‹_›
    · cases h
  | release j fd now =>
    simp only [next] at h
    split at h
    · rename_i hg; cases h
      have hfd := hi.held_nonneg _ hg.2
      exact hi.giveBack hg.1 hg.2 (release_movesOnly now hfd (hi.slot_le _ hfd))
    · cases h
  | remove j fd =>
    simp only [next] at h
    split at h
    · rename_i hg; cases h
      have hfd := hi.held_nonneg _ hg.2
      exact hi.giveBack hg.1 hg.2 (remove_movesOnly hfd (hi.slot_le _ hfd))
    · cases h
  | cleanup now => cases h; exact hi.cleanup now

end Steps

theorem reachable_inv {s : State} (hs : system.Reachable s) : Inv s :=
  System.reachable_induction (fun _ h => inv_init h) (fun _ _ _ hi ⟨_, h⟩ => inv_next hi h) hs

/-! ## Closing -/

section Closing

variable {s : State}

/-- An fd idle in a slot is held by nobody. -/
theorem Inv.unheld_of_idle (hi : Inv s) {x : Int} (hx : 0 ≤ x)
    (hidle : 0 < idleCount s.pool.conns x) : ∀ p ∈ s.held, p.2 ≠ x := fun p hp h => by
  have := hi.idle_held x hx; have := h ▸ heldCount_pos hp; omega

theorem get_closed (j : Nat) (dest : Dest) (now : Int) (alive : Nat → Bool) :
    (s.get j dest now alive).closed = (scanConns now alive 0 s.pool.conns).closed := by
  simp only [State.get, hevConnectionPoolGetLocked]; split <;> rfl

/-- The fds a step closes are held by nobody but the client that steps. -/
theorem Inv.closed_unheld (hi : Inv s) {e : Event} {s' : State} (h : next s e = some s') :
    ∀ x ∈ s'.closed, ∀ p ∈ s.held, p.2 = x → some p.1 = e.caller := by
  -- closing the fd of the caller's own holding
  have hown : ∀ j fd, (j, fd) ∈ s.held → ∀ p ∈ s.held, p.2 = fd → p.1 = j := fun j fd hh p hp hx => by
    have h1 : heldCount s.held fd ≤ 1 := by
      have := hi.idle_held fd (hi.held_nonneg _ hh); simp only at this; omega
    exact (Prod.mk.inj (held_unique (p := (j, fd)) h1 hh hp hx)).1
  intro x hx p hp hpx
  cases e with
  | get j dest now alive =>
    simp only [next] at h
    split at h
    · cases h
      rw [get_closed] at hx
      have hx₀ := scanConns_closed_nonneg now alive 0 s.pool.conns x hx
      have := (scanConns_counts now alive hx₀ 0 s.pool.conns).2
      have := List.count_pos_iff.2 hx
      exact absurd hpx (hi.unheld_of_idle hx₀ (by omega) p hp)
    · cases h
  | socket j fd =>
    simp only [next] at h
    split at h
    · split at h
      · cases h; cases hx
      · split at h
        · cases h
        · cases h; cases hx
    · cases h
  | connect j ok =>
    simp only [next] at h
    split at h
    · rename_i fd hj
      split at h
      · cases h; cases hx
      · cases h
        rw [List.mem_singleton.1 hx] at hpx
        exact congrArg some (hown j fd (hi.inflight j _ fd hj rfl).1 p hp hpx)
    · cases h
  | countMiss j =>
    simp only [next] at h
    split at h
    · cases h; cases hx
    · cases h
  | release j fd now =>
    simp only [next] at h
    split at h
    · rename_i hg; cases h
      have hfd := hi.held_nonneg _ hg.2
      rw [(release_movesOnly now hfd (hi.slot_le _ hfd)).closed_sub hx] at hpx
      exact congrArg some (hown j fd hg.2 p hp hpx)
    · cases h
  | remove j fd =>
    simp only [next] at h
    split at h
    · rename_i hg; cases h
      have hfd := hi.held_nonneg _ hg.2
      rw [(remove_movesOnly hfd (hi.slot_le _ hfd)).closed_sub hx] at hpx
      exact congrArg some (hown j fd hg.2 p hp hpx)
    · cases h
  | cleanup now =>
    cases h
    simp only [State.locked, hevConnectionPoolCleanup] at hx
    have hx₀ := cleanup_closed_nonneg now s.pool.conns x hx
    have := (cleanup_counts now hx₀ s.pool.conns).2
    have := List.count_pos_iff.2 hx
    exact absurd hpx (hi.unheld_of_idle hx₀ (by omega) p hp)

end Closing

/-! ## Destinations, ownership and statistics -/

/-- A miss for `10.0.0.1:80` whose socket is then released, and a `get` for
    `10.0.0.2:80` by another client: the scan hands out the first socket. -/
theorem crossed_run : ∃ s, system.Reachable s ∧
    s.hits = [(⟨"10.0.0.2", 80⟩, some ⟨"10.0.0.1", 80⟩)] ∧ s.held = [(1, 3)] := by
  have r₀ : system.Reachable (⟨hevConnectionPoolNew 1, [.idle, .idle], [], [], [], [], 0, []⟩ : State) :=
    .init ⟨1, 2, rfl⟩
  have r₁ := reachable_next r₀ (.get 0 ⟨"10.0.0.1", 80⟩ 0 fun _ => true) rfl
  have r₂ := reachable_next r₁ (.socket 0 3) rfl
  have r₃ := reachable_next r₂ (.connect 0 true) rfl
  have r₄ := reachable_next r₃ (.countMiss 0) rfl
  have r₅ := reachable_next r₄ (.release 0 3 0) rfl
  have r₆ := reachable_next r₅ (.get 1 ⟨"10.0.0.2", 80⟩ 0 fun _ => true) rfl
  exact ⟨_, r₆, rfl, rfl⟩

theorem pool_hit_ignores_destination :
    (∀ s, system.Reachable s → ∀ h ∈ s.hits, h.2.isSome) ∧
    ∃ s, system.Reachable s ∧ ∃ d o, (d, some o) ∈ s.hits ∧ o ≠ d := by
  refine ⟨fun s hs => (reachable_inv hs).hits_known, ?_⟩
  obtain ⟨s, hs, hh, -⟩ := crossed_run
  exact ⟨s, hs, _, _, hh ▸ List.mem_singleton_self _, by decide⟩

theorem pool_ownership_exclusive {s : State} (hs : system.Reachable s) :
    (∀ fd, 0 ≤ fd → slotCount s.pool.conns fd ≤ 1) ∧
    (∀ fd, heldCount s.held fd ≤ 1) ∧
    (∀ fd, 0 ≤ fd → idleCount s.pool.conns fd + heldCount s.held fd ≤ 1) ∧
    ∀ e s', next s e = some s' → ∀ fd ∈ s'.closed, ∀ p ∈ s.held, p.2 = fd → some p.1 = e.caller := by
  have hi := reachable_inv hs
  refine ⟨hi.slot_le, fun fd => ?_, hi.idle_held, fun e s' h => hi.closed_unheld h⟩
  by_cases hfd : 0 ≤ fd
  · have := hi.idle_held fd hfd; omega
  · have : heldCount s.held fd = 0 := List.countP_eq_zero.2 fun p hp h =>
      hfd (by simp only [beq_iff_eq] at h; exact h ▸ hi.held_nonneg p hp)
    omega

theorem pool_ownership_exclusive_crossed : ∃ s, system.Reachable s ∧ s.held = [(1, 3)] ∧
    idleCount s.pool.conns 3 + heldCount s.held 3 ≤ 1 := by
  obtain ⟨s, hs, -, hh⟩ := crossed_run
  exact ⟨s, hs, hh, (pool_ownership_exclusive hs).2.2.1 3 (by decide)⟩

theorem pool_stats_miss_failures :
    (∀ s, system.Reachable s → (∀ c ∈ s.calls, c = .idle) →
      s.pool.cacheHits + s.pool.cacheMisses + s.failed = s.pool.totalRequests) ∧
    ∃ s, system.Reachable s ∧ (∀ c ∈ s.calls, c = .idle) ∧
      s.pool.cacheHits + s.pool.cacheMisses ≠ s.pool.totalRequests := by
  refine ⟨fun s hs hq => ?_, ?_⟩
  · have h0 : (s.calls.map Call.pending).sum = 0 := List.sum_eq_zero fun n hn => by
      obtain ⟨c, hc, rfl⟩ := List.mem_map.1 hn; rw [hq c hc]; rfl
    have := (reachable_inv hs).requests; omega
  · -- `socket` fails after the request is counted
    have r₀ : system.Reachable (⟨hevConnectionPoolNew 1, [.idle], [], [], [], [], 0, []⟩ : State) :=
      .init ⟨1, 1, rfl⟩
    have r₁ := reachable_next r₀ (.get 0 ⟨"10.0.0.1", 80⟩ 0 fun _ => true) rfl
    have r₂ := reachable_next r₁ (.socket 0 (-1)) (by rfl)
    exact ⟨_, r₂, by decide, by decide⟩

end HevTunnel.ConnectionPool
