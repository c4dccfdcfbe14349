import HevTunnel.System
import HevTunnel.Heap
import Mathlib

/-!
# The TUN write queue

`hev-tunnel-io.c`: `hev_tunnel_io_write` takes a reference on the packet,
links a `malloc`ed node holding it at the tail of the write queue
(`write_queue_head`, `write_queue_tail`, `write_queue_size`) under
`write_mutex`, unless the queue holds `WRITE_QUEUE_SIZE` nodes; each
`writer_thread` loops while `running || write_queue_size > 0`, waits (1 ms at
a time) for a node, takes up to `WRITE_BATCH_SIZE` nodes from the head, and
outside the lock writes each packet to the TUN fd and frees the packet and the
node; `hev_tunnel_io_stop` clears `running` and joins the writers, but only if
the I/O was running; `hev_tunnel_io_destroy` stops and frees whatever is left
in the queue.

Every section under `write_mutex` is one step; so are a writer's test of its
loop condition (`running` never becomes true again once cleared, so reading
its two fields at once changes nothing), a caller's allocation and
`pbuf_ref`, and the write and release of one packet. Callers stop calling
before `destroy` starts. The state carries as ghosts the reference counts
the packets started with, and the packets accepted, taken by the writers,
drained by `destroy`, handed to `write ()`, and released unwritten (a chained
packet whose copy buffer was not allocated).

* `hevTunnelIoWrite_spec`, `takeWriteBatch_spec`: the queue operations on a
  well-formed queue, as list operations;
* `callerStep_cases`, `writerStep_cases`, `controlStep_cases`: everything one
  step of a caller, a writer or the control thread can do.
-/

namespace HevTunnel.TunnelIO

open Heap

/-- `WRITE_QUEUE_SIZE`. -/
def writeQueueSize : Int := 4096

/-- `WRITE_BATCH_SIZE`. -/
def writeBatchSize : Nat := 16

/-- `HevPacketNode`: the packet (a `struct pbuf *`) and the link. -/
structure HevPacketNode where
  packet : Nat
  next : Nat
  deriving DecidableEq

/-- `HevTunnelIO`, the fields of the write path, with the heap of its nodes. -/
structure HevTunnelIO where
  running : Bool
  numWriters : Nat
  writeQueueHead : Nat
  writeQueueTail : Nat
  writeQueueSize : Int
  nodes : Nat → Option HevPacketNode

/-- `hev_tunnel_io_new` on a machine with `numCpus` processors online:
    `calloc`ed, with one writer below four processors and two from four on. -/
def hevTunnelIoNew (numCpus : Int) : HevTunnelIO :=
  let numCpus := if numCpus < 2 then 2 else numCpus
  { running := false, numWriters := if numCpus ≥ 4 then 2 else 1,
    writeQueueHead := 0, writeQueueTail := 0, writeQueueSize := 0, nodes := fun _ => none }

theorem hevTunnelIoNew_numWriters_pos (numCpus : Int) : 0 < (hevTunnelIoNew numCpus).numWriters := by
  simp only [hevTunnelIoNew]; split_ifs <;> decide

/-- `io->write_queue_tail->next = node`. -/
def setNext (nodes : Nat → Option HevPacketNode) (p a : Nat) : Nat → Option HevPacketNode :=
  Function.update nodes p ((nodes p).map fun n => { n with next := a })

/-- The section of `hev_tunnel_io_write (io, buf)` under `write_mutex`, for
    the node `node` holding `buf`: `-1` if the queue is full, else `0` with
    the node linked at the tail. -/
def hevTunnelIoWrite (io : HevTunnelIO) (node : Nat) : Int × HevTunnelIO :=
  if io.writeQueueSize ≥ writeQueueSize then (-1, io)
  else if io.writeQueueTail ≠ 0 then
    (0, { io with nodes := setNext io.nodes io.writeQueueTail node, writeQueueTail := node,
                  writeQueueSize := io.writeQueueSize + 1 })
  else
    (0, { io with writeQueueHead := node, writeQueueTail := node,
                  writeQueueSize := io.writeQueueSize + 1 })

/-- The batch loop of `writer_thread`: at most `k` nodes from `head` on,
    the head after them, and the size decremented once per node. -/
def takeBatch (nodes : Nat → Option HevPacketNode) : Nat → Nat → Int → List Nat × Nat × Int
  | 0, head, size => ([], head, size)
  | k + 1, head, size =>
    if head = 0 then ([], head, size)
    else match nodes head with
      | some n => let r := takeBatch nodes k n.next (size - 1); (head :: r.1, r.2)
      | none => ([], head, size)

/-- A writer's section under `write_mutex` after its wait: take a batch,
    and clear the tail if the queue is left empty. -/
def takeWriteBatch (io : HevTunnelIO) : List Nat × HevTunnelIO :=
  let r := takeBatch io.nodes writeBatchSize io.writeQueueHead io.writeQueueSize
  (r.1, { io with writeQueueHead := r.2.1, writeQueueSize := r.2.2,
                  writeQueueTail := if r.2.1 = 0 then 0 else io.writeQueueTail })

/-- The packet of the node at `x`. -/
def packetOf (nodes : Nat → Option HevPacketNode) (x : Nat) : Nat :=
  ((nodes x).map HevPacketNode.packet).getD 0

/-! ## Threads -/

/-- Where a thread calling `hev_tunnel_io_write` is. -/
inductive Caller
  | idle
  /-- `node` allocated for the packet `p`, its reference taken: lock and
      link it. -/
  | enqueue (p node : Nat)
  /-- The queue was full: `pbuf_free (buf)` and `free (node)`. -/
  | reject (p node : Nat)
  deriving DecidableEq

/-- Where a `writer_thread` is. -/
inductive Writer
  /-- At `while (io->running || io->write_queue_size > 0)`. -/
  | top
  /-- Lock, and test the wait condition. -/
  | locking
  /-- In `pthread_cond_timedwait`. -/
  | waiting
  /-- The nodes of the batch still to write and free. -/
  | batch (nodes : List Nat)
  /-- Returned. -/
  | exited
  deriving DecidableEq

/-- Where the thread that stops and destroys the I/O is. -/
inductive Control
  | idle
  /-- In `hev_tunnel_io_stop`, `running` cleared: joining the writer `i`;
      `destroying` if the call is `destroy`'s. -/
  | joinWriters (i : Nat) (destroying : Bool)
  /-- `hev_tunnel_io_stop` returned; `joined` if it found the I/O running. -/
  | stopped (joined : Bool)
  /-- `hev_tunnel_io_destroy`, its `stop` returned: freeing the queue. -/
  | drain
  /-- `hev_tunnel_io_destroy` returned. -/
  | destroyed
  deriving DecidableEq

/-- `destroy` has begun. -/
def Control.destroying : Control → Bool
  | .joinWriters _ d => d
  | .drain | .destroyed => true
  | _ => false

/-- `destroy`'s drain has begun. -/
def Control.draining : Control → Bool
  | .drain | .destroyed => true
  | _ => false

/-- `destroy` may be called: nothing else is. -/
def Control.mayDestroy : Control → Bool
  | .idle | .stopped _ => true
  | _ => false

/-- The I/O, the reference count of each packet, the threads, and the ghosts. -/
structure State where
  io : HevTunnelIO
  refs : Nat → Nat
  callers : List Caller
  writers : List Writer
  control : Control
  /-- Which packets are chained (`p->len != p->tot_len`). -/
  chained : Nat → Bool
  /-- The reference counts the packets started with. -/
  refs₀ : Nat → Nat
  accepted : List Nat
  taken : List Nat
  drained : List Nat
  written : List Nat
  unwritten : List Nat
  /-- No write was under way when `stop` was called, and none began since. -/
  quiet : Bool
  startFailed : Bool

/-- A caller's step. -/
def callerStep (s : State) (c : Nat) : Option State :=
  match s.callers[c]? with
  | some (.enqueue p node) =>
    let r := hevTunnelIoWrite s.io node
    if r.1 = 0 then
      some { s with io := r.2, callers := s.callers.set c .idle, accepted := s.accepted ++ [p] }
    else some { s with callers := s.callers.set c (.reject p node) }
  | some (.reject p node) =>
    some { s with io := { s.io with nodes := Function.update s.io.nodes node none },
                  refs := Function.update s.refs p (s.refs p - 1),
                  callers := s.callers.set c .idle }
  | _ => none

/-- A writer's step; `copied` is whether the copy buffer of a chained packet
    is allocated. -/
def writerStep (s : State) (i : Nat) (copied : Bool) : Option State :=
  match s.writers[i]? with
  | some .top =>
    if s.io.running ∨ s.io.writeQueueSize > 0 then some { s with writers := s.writers.set i .locking }
    else some { s with writers := s.writers.set i .exited }
  | some .locking | some .waiting =>
    if s.io.writeQueueSize = 0 ∧ s.io.running then some { s with writers := s.writers.set i .waiting }
    else
      let r := takeWriteBatch s.io
      some { s with io := r.2, writers := s.writers.set i (.batch r.1),
                    taken := s.taken ++ r.1.map (packetOf s.io.nodes) }
  | some (.batch (n :: ns)) =>
    let p := packetOf s.io.nodes n
    let handed := !s.chained p || copied
    some { s with io := { s.io with nodes := Function.update s.io.nodes n none },
                  refs := Function.update s.refs p (s.refs p - 1),
                  writers := s.writers.set i (.batch ns),
                  written := if handed then s.written ++ [p] else s.written,
                  unwritten := if handed then s.unwritten else s.unwritten ++ [p] }
  | some (.batch []) => some { s with writers := s.writers.set i .top }
  | _ => none

/-- A step of `stop` or `destroy` past their first: a join, or one node of
    the drain. -/
def controlStep (s : State) : Option State :=
  match s.control with
  | .joinWriters i d =>
    if i < s.io.numWriters then
      if s.writers[i]? = some .exited then some { s with control := .joinWriters (i + 1) d }
      else none
    else some { s with control := if d then .drain else .stopped true }
  | .drain =>
    let head := s.io.writeQueueHead
    if head = 0 then some { s with control := .destroyed }
    else match s.io.nodes head with
      | some n =>
        some { s with io := { s.io with writeQueueHead := n.next,
                                        nodes := Function.update s.io.nodes head none },
                      refs := if n.packet ≠ 0 then Function.update s.refs n.packet (s.refs n.packet - 1)
                              else s.refs,
                      drained := s.drained ++ [n.packet] }
      | none => none
  | _ => none

/-- Who moves. -/
inductive Event
  /-- `hev_tunnel_io_start` creating every thread. -/
  | start
  /-- `hev_tunnel_io_start` failing after creating `created` writers. -/
  | startFail (created : Nat)
  /-- The caller `c` calls `hev_tunnel_io_write (io, p)`, `malloc` giving
      `node`. -/
  | write (c p node : Nat)
  | caller (c : Nat)
  | writer (i : Nat) (copied : Bool)
  /-- `hev_tunnel_io_stop` called alone. -/
  | stop
  | destroy
  | control

/-- One step; a write starts only before `destroy` and `destroy` only when no
    write is under way. -/
def next (s : State) : Event → Option State
  | .start =>
    if s.control = .idle ∧ s.io.running = false ∧ s.writers = [] ∧ s.startFailed = false then
      some { s with io := { s.io with running := true },
                    writers := List.replicate s.io.numWriters .top }
    else none
  | .startFail created =>
    if s.control = .idle ∧ s.io.running = false ∧ s.writers = [] ∧ s.startFailed = false ∧
        created ≤ s.io.numWriters then
      some { s with writers := List.replicate created .top, startFailed := true }
    else none
  | .write c p node =>
    if s.callers[c]? = some .idle ∧ s.control.destroying = false ∧ p ≠ 0 ∧ node ≠ 0 ∧
        s.io.nodes node = none then
      some { s with io := { s.io with nodes := Function.update s.io.nodes node (some ⟨p, 0⟩) },
                    refs := Function.update s.refs p (s.refs p + 1),
                    callers := s.callers.set c (.enqueue p node), quiet := false }
    else none
  | .caller c => callerStep s c
  | .writer i copied => writerStep s i copied
  | .stop =>
    if s.control = .idle then
      some { s with io := { s.io with running := false },
                    control := if s.io.running then .joinWriters 0 false else .stopped false,
                    quiet := s.callers.all (· = .idle) }
    else none
  | .destroy =>
    if s.control.mayDestroy ∧ s.callers.all (· = .idle) then
      some { s with io := { s.io with running := false },
                    control := if s.io.running then .joinWriters 0 true else .drain }
    else none
  | .control => controlStep s

/-- A new I/O, not started, with `callers` threads that may write to it,
    the packets `chained` chained and holding `refs` references. -/
def initial (numCpus : Int) (callers : Nat) (chained : Nat → Bool) (refs : Nat → Nat) : State where
  io := hevTunnelIoNew numCpus
  refs := refs
  callers := List.replicate callers .idle
  writers := []
  control := .idle
  chained := chained
  refs₀ := refs
  accepted := []
  taken := []
  drained := []
  written := []
  unwritten := []
  quiet := false
  startFailed := false

def system : System State where
  init s := ∃ numCpus callers chained refs, s = initial numCpus callers chained refs
  step s s' := ∃ e, next s e = some s'

theorem reachable_next {s s' : State} (hs : system.Reachable s) (e : Event)
    (h : next s e = some s') : system.Reachable s' :=
  hs.step ⟨e, h⟩

/-! ## The queue operations -/

theorem packetOf_update_ne {nodes : Nat → Option HevPacketNode} {x y : Nat}
    (v : Option HevPacketNode) (h : y ≠ x) :
    packetOf (Function.update nodes x v) y = packetOf nodes y := by
  simp [packetOf, Function.update_noteq h]

@[simp] theorem packetOf_setNext (nodes : Nat → Option HevPacketNode) (p a : Nat) :
    packetOf (setNext nodes p a) = packetOf nodes := by
  funext y
  by_cases h : y = p
  · subst h; simp only [packetOf, setNext, Function.update_same, Option.map_map]; rfl
  · simp only [packetOf, setNext, Function.update_noteq h]

theorem packetOf_of_eq {nodes : Nat → Option HevPacketNode} {x p : Nat} {n : Nat}
    (h : nodes x = some ⟨p, n⟩) : packetOf nodes x = p := by
  simp [packetOf, h]

theorem setNext_eq_none {nodes : Nat → Option HevPacketNode} {p a x : Nat} :
    setNext nodes p a x = none ↔ nodes x = none := by
  by_cases h : x = p
  · subst h; simp [setNext]
  · simp [setNext, Function.update_noteq h]

/-- What the locked section of `hev_tunnel_io_write` does when it accepts:
    the queue had room, and the node is linked at the tail of the queue. -/
theorem hevTunnelIoWrite_spec {io io' : HevTunnelIO} {a p : Nat} {ps : List Nat}
    (hq : IsQueue io.nodes HevPacketNode.next io.writeQueueHead io.writeQueueTail ps)
    (ha : a ≠ 0) (hna : io.nodes a = some ⟨p, 0⟩) (hnot : a ∉ ps)
    (hw : hevTunnelIoWrite io a = (0, io')) :
    io.writeQueueSize < writeQueueSize ∧ io'.writeQueueSize = io.writeQueueSize + 1 ∧
      IsQueue io'.nodes HevPacketNode.next io'.writeQueueHead io'.writeQueueTail (ps ++ [a]) ∧
      packetOf io'.nodes = packetOf io.nodes ∧ (∀ x, io'.nodes x = none ↔ io.nodes x = none) ∧
      (∀ x, x ∉ ps → io'.nodes x = io.nodes x) := by
  unfold hevTunnelIoWrite at hw
  split_ifs at hw with hfull ht
  · simp at hw
  -- linked after the tail
  · cases hw
    have htm := hq.tail_mem ht
    have hta : io.writeQueueTail ≠ a := fun e => hnot (e ▸ htm)
    obtain ⟨n, hn⟩ := Option.ne_none_iff_exists'.1 (hq.seg.mem _ htm).2
    refine ⟨by omega, rfl, hq.push_tail ht ha hnot (fun x _ hx => Function.update_noteq hx _ _)
      ⟨{ n with next := a }, by simp [setNext, hn], rfl⟩
      ⟨⟨p, 0⟩, by simp [setNext, Function.update_noteq hta.symm, hna], rfl⟩,
      packetOf_setNext _ _ _, fun x => setNext_eq_none,
      fun x hx => Function.update_noteq (by rintro rfl; exact hx htm) _ _⟩
  -- the first node of an empty queue
  · cases hw
    rw [not_not] at ht
    exact ⟨by omega, rfl, (ht ▸ hq).push_empty ha ⟨_, hna, rfl⟩, rfl, fun _ => Iff.rfl,
      fun _ _ => rfl⟩

@[simp] theorem hevTunnelIoWrite_running (io : HevTunnelIO) (a : Nat) :
    (hevTunnelIoWrite io a).2.running = io.running := by
  unfold hevTunnelIoWrite; split_ifs <;> rfl

@[simp] theorem hevTunnelIoWrite_numWriters (io : HevTunnelIO) (a : Nat) :
    (hevTunnelIoWrite io a).2.numWriters = io.numWriters := by
  unfold hevTunnelIoWrite; split_ifs <;> rfl

/-- The batch loop follows the list of the queue: it takes its first `k`
    nodes and stops at the rest. -/
theorem takeBatch_spec {nodes : Nat → Option HevPacketNode} :
    ∀ (k : Nat) {head : Nat} {ps : List Nat} (size : Int), Seg nodes HevPacketNode.next head 0 ps →
      ∃ q, takeBatch nodes k head size = (ps.take k, q, size - (ps.take k).length) ∧
        Seg nodes HevPacketNode.next q 0 (ps.drop k)
  | 0, head, ps, size, hs => ⟨head, by simp [takeBatch], by simpa using hs⟩
  | k + 1, _, _, size, hs => by
    cases hs with
    | nil => exact ⟨0, by simp [takeBatch], .nil 0⟩
    | cons hp hn hs =>
      obtain ⟨q, hq, hs'⟩ := takeBatch_spec k (size - 1) hs
      refine ⟨q, ?_, hs'⟩
      simp only [takeBatch, hp, if_false, hn, hq, List.take_succ_cons, List.length_cons,
        Prod.mk.injEq, true_and]
      push_cast; omega

theorem seg_ne_zero {nodes : Nat → Option HevPacketNode} {q : Nat} {ps : List Nat}
    (hs : Seg nodes HevPacketNode.next q 0 ps) : q = 0 ↔ ps = [] := by
  cases hs with
  | nil => simp
  | cons hp => simp [hp]

theorem getLastD_of_append {ps qs : List Nat} (h : qs ≠ []) (d : Nat) :
    (ps ++ qs).getLastD d = qs.getLastD d := by
  simp only [List.getLastD_eq_getLast?, List.getLast?_append, Option.getD]
  obtain ⟨x, hx⟩ := Option.ne_none_iff_exists'.1 (mt List.getLast?_eq_none_iff.1 h)
  simp [hx]

/-- A writer's section under `write_mutex` on the list from
    `write_queue_head`, whatever `write_queue_size` and `write_queue_tail`
    say: it takes the first nodes of the list, at most `WRITE_BATCH_SIZE`,
    leaves the rest from the new head, and lowers the size by one per node
    taken. -/
theorem takeWriteBatch_seg {io : HevTunnelIO} {ps : List Nat}
    (hs : Seg io.nodes HevPacketNode.next io.writeQueueHead 0 ps) :
    ∃ q, takeWriteBatch io = (ps.take writeBatchSize,
      { io with writeQueueHead := q,
                writeQueueSize := io.writeQueueSize - (ps.take writeBatchSize).length,
                writeQueueTail := if q = 0 then 0 else io.writeQueueTail }) ∧
      Seg io.nodes HevPacketNode.next q 0 (ps.drop writeBatchSize) := by
  obtain ⟨q, hq', hs'⟩ := takeBatch_spec writeBatchSize io.writeQueueSize hs
  exact ⟨q, by simp only [takeWriteBatch, hq'], hs'⟩

/-- A writer's section under `write_mutex` on a well-formed queue: it takes
    the first nodes of the queue, at most `WRITE_BATCH_SIZE`, and leaves the
    rest a well-formed queue of the right size. -/
theorem takeWriteBatch_spec {io : HevTunnelIO} {ps : List Nat}
    (hq : IsQueue io.nodes HevPacketNode.next io.writeQueueHead io.writeQueueTail ps)
    (hsize : io.writeQueueSize = ps.length) :
    (takeWriteBatch io).1 = ps.take writeBatchSize ∧
      IsQueue (takeWriteBatch io).2.nodes HevPacketNode.next (takeWriteBatch io).2.writeQueueHead
        (takeWriteBatch io).2.writeQueueTail (ps.drop writeBatchSize) ∧
      (takeWriteBatch io).2.writeQueueSize = (ps.drop writeBatchSize).length ∧
      (takeWriteBatch io).2.nodes = io.nodes := by
  obtain ⟨q, e, hs⟩ := takeWriteBatch_seg hq.seg
  rw [e]
  refine ⟨rfl, ⟨hs, ?_, hq.nodup.sublist (List.drop_sublist _ _)⟩, ?_, rfl⟩ <;> dsimp only
  · by_cases hd : ps.drop writeBatchSize = []
    · simp [hd, (seg_ne_zero hs).2 hd]
    · rw [if_neg (mt (seg_ne_zero hs).1 hd), hq.tail_eq, ← List.take_append_drop writeBatchSize ps,
        getLastD_of_append hd, List.take_append_drop]
  · simp only [hsize, List.length_drop, List.length_take]
    omega

/-! ## What each step does -/

section Steps

variable {s s' : State}

/-- A caller links its node, finds the queue full, or releases a rejected
    write. -/
theorem callerStep_cases {c : Nat} (h : callerStep s c = some s') :
    (∃ p a, s.callers[c]? = some (.enqueue p a) ∧
      ((∃ io', hevTunnelIoWrite s.io a = (0, io') ∧
          s' = { s with io := io', callers := s.callers.set c .idle,
                        accepted := s.accepted ++ [p] }) ∨
        s' = { s with callers := s.callers.set c (.reject p a) })) ∨
    (∃ p a, s.callers[c]? = some (.reject p a) ∧
      s' = { s with io := { s.io with nodes := Function.update s.io.nodes a none },
                    refs := Function.update s.refs p (s.refs p - 1),
                    callers := s.callers.set c .idle }) := by
  unfold callerStep at h
  split at h
  · rename_i p a hc
    refine .inl ⟨p, a, hc, ?_⟩
    dsimp only at h
    split_ifs at h with hr
    · exact .inl ⟨_, Prod.ext hr rfl, (Option.some.inj h).symm⟩
    · exact .inr (Option.some.inj h).symm
  · exact .inr ⟨_, _, ‹_›, (Option.some.inj h).symm⟩
  · cases h

/-- A writer tests its loop condition, waits, takes a batch, writes and
    frees one packet of its batch, or ends its batch. -/
theorem writerStep_cases {i : Nat} {copied : Bool} (h : writerStep s i copied = some s') :
    (s.writers[i]? = some .top ∧ s' = { s with writers := s.writers.set i .locking }) ∨
    (s.writers[i]? = some .top ∧ s.io.running = false ∧ s.io.writeQueueSize ≤ 0 ∧
      s' = { s with writers := s.writers.set i .exited }) ∨
    (∃ w, s.writers[i]? = some w ∧ (w = .locking ∨ w = .waiting) ∧
      (s' = { s with writers := s.writers.set i .waiting } ∨
        s' = { s with io := (takeWriteBatch s.io).2,
                      writers := s.writers.set i (.batch (takeWriteBatch s.io).1),
                      taken := s.taken ++ (takeWriteBatch s.io).1.map (packetOf s.io.nodes) })) ∨
    (∃ n ns, s.writers[i]? = some (.batch (n :: ns)) ∧
      s' = { s with
        io := { s.io with nodes := Function.update s.io.nodes n none },
        refs := Function.update s.refs (packetOf s.io.nodes n)
          (s.refs (packetOf s.io.nodes n) - 1),
        writers := s.writers.set i (.batch ns),
        written := if !s.chained (packetOf s.io.nodes n) || copied
          then s.written ++ [packetOf s.io.nodes n] else s.written,
        unwritten := if !s.chained (packetOf s.io.nodes n) || copied
          then s.unwritten else s.unwritten ++ [packetOf s.io.nodes n] }) ∨
    (s.writers[i]? = some (.batch []) ∧ s' = { s with writers := s.writers.set i .top }) := by
  unfold writerStep at h
  split at h
  · rename_i hw
    split_ifs at h with hc
    · exact .inl ⟨hw, (Option.some.inj h).symm⟩
    · simp only [not_or, Bool.not_eq_true, not_lt] at hc
      exact .inr (.inl ⟨hw, hc.1, hc.2, (Option.some.inj h).symm⟩)
  all_goals first
    | (rename_i hw
       split_ifs at h
       · exact .inr (.inr (.inl ⟨_, hw, by simp, .inl (Option.some.inj h).symm⟩))
       · exact .inr (.inr (.inl ⟨_, hw, by simp, .inr (Option.some.inj h).symm⟩)))
    | exact .inr (.inr (.inr (.inl ⟨_, _, ‹_›, (Option.some.inj h).symm⟩)))
    | exact .inr (.inr (.inr (.inr ⟨‹_›, (Option.some.inj h).symm⟩)))
    | cases h

/-- `stop` or `destroy` joins a writer, ends its joins, or drains a node or
    the empty queue. -/
theorem controlStep_cases (h : controlStep s = some s') :
    (∃ i d, s.control = .joinWriters i d ∧ i < s.io.numWriters ∧
      s.writers[i]? = some .exited ∧ s' = { s with control := .joinWriters (i + 1) d }) ∨
    (∃ i d, s.control = .joinWriters i d ∧ s.io.numWriters ≤ i ∧
      s' = { s with control := if d then .drain else .stopped true }) ∨
    (s.control = .drain ∧ s.io.writeQueueHead = 0 ∧ s' = { s with control := .destroyed }) ∨
    (∃ n, s.control = .drain ∧ s.io.writeQueueHead ≠ 0 ∧
      s.io.nodes s.io.writeQueueHead = some n ∧
      s' = { s with
        io := { s.io with writeQueueHead := n.next,
                          nodes := Function.update s.io.nodes s.io.writeQueueHead none },
        refs := if n.packet ≠ 0 then Function.update s.refs n.packet (s.refs n.packet - 1)
                else s.refs,
        drained := s.drained ++ [n.packet] }) := by
  unfold controlStep at h
  split at h
  · rename_i i d hc
    by_cases hi : i < s.io.numWriters
    · rw [if_pos hi] at h
      split_ifs at h with he
      exact .inl ⟨i, d, hc, hi, he, (Option.some.inj h).symm⟩
    · rw [if_neg hi] at h
      exact .inr (.inl ⟨i, d, hc, by omega, (Option.some.inj h).symm⟩)
  · rename_i hc
    dsimp only at h
    split_ifs at h with hh
    · exact .inr (.inr (.inl ⟨hc, hh, (Option.some.inj h).symm⟩))
    · split at h
      · exact .inr (.inr (.inr ⟨_, hc, hh, ‹_›, (Option.some.inj h).symm⟩))
      · cases h
  · cases h

end Steps

end HevTunnel.TunnelIO
