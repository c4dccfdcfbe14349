import HevTunnel.TunnelIOEnhanced

/-!
# The zero-copy path

`hev_tunnel_io_enhanced_splice (io, dst_fd, len)` moves bytes from the TUN
device to `dst_fd` through the pipe `pipe_fds` that `new` creates in
`HEV_IO_MODE_ZEROCOPY`, by two non-blocking `splice ()`s: the first fills
pipe buffers with up to `len` bytes of the device and returns their number
`n`; the second moves up to `n` bytes from the front of the pipe to `dst_fd`
and returns `written`, which the counters count. What the second does not
move stays in the pipe, and nothing but a later call reads the pipe.

`readv`, `writev` and `reset_stats` change only the counters, `read_batch`
and `write_batch` the pool and the counters (`HevTunnel.TunnelIOEnhanced`);
the caller makes these calls in any order. The kernel's answers are oracles,
bounded only by what the kernel guarantees: the pipe has `cap` buffers
(`PIPE_DEF_BUFFERS` for a pipe of `pipe2 ()`); the first `splice ()` fills
free buffers, each with some bytes, with at most `len` in all, or fills none
and returns `0` or `-1`, as it must when no buffer is free; the second moves
at most `n` bytes from the front of the pipe, or none and returns `0` or
`-1`, as when `dst_fd` would block.

* `splice_in_order`: along every run, the bytes written to the descriptors,
  then those in the pipe, are the bytes taken from the device, in order; in
  the other modes nothing is taken;
* `splice_misroutes`: so what a call leaves in the pipe goes to the
  descriptor of a later call: whenever the pipe holds a byte and has a free
  buffer, a call to any `dst_fd` can write that byte there;
* `splice_stalls`: from every state of a zero-copy I/O, one call whose
  `dst_fd` would block fills the pipe; then no call moves a byte again, as
  the first `splice ()` finds no free buffer and the call returns before the
  second, the only one that empties the pipe.
-/

namespace HevTunnel.TunnelIOEnhanced

open MemoryPool

/-- `PIPE_DEF_BUFFERS`: the buffers of a pipe that `pipe2 ()` makes. -/
def pipeDefBuffers : Nat := 16

/-- `HevIOMode`. -/
inductive HevIOMode
  | standard
  | batch
  | zerocopy
  | iov
  deriving DecidableEq

/-- `HevTunnelIOEnhanced` whole: the pool and the counters of the batch
    calls, `stats.zero_copy_operations`, and `pipe_fds`, `-1` unless `new`
    made the pipe. -/
structure Enhanced where
  io : HevTunnelIOEnhanced
  zeroCopyOperations : UInt64
  pipeFds : Int × Int

/-- `hev_tunnel_io_enhanced_readv (io, iov, iovcnt)`, `iov` a pointer (`0`
    for `NULL`), `n` what `readv ()` returns. -/
def hevTunnelIoEnhancedReadv (e : Enhanced) (iov : Nat) (iovcnt n : Int) : Int × Enhanced :=
  if iov = 0 ∨ iovcnt ≤ 0 then (-1, e)
  else if n > 0 then
    (n, { e with
      io := { e.io with
        stats := { e.io.stats with
          bytesRead := e.io.stats.bytesRead + UInt64.ofNat n.toNat
          packetsRead := e.io.stats.packetsRead + 1 } } })
  else if n < 0 then (n, { e with io := e.io.error })
  else (n, e)

/-- `hev_tunnel_io_enhanced_writev (io, iov, iovcnt)`, `n` what `writev ()`
    returns. -/
def hevTunnelIoEnhancedWritev (e : Enhanced) (iov : Nat) (iovcnt n : Int) : Int × Enhanced :=
  if iov = 0 ∨ iovcnt ≤ 0 then (-1, e)
  else if n > 0 then
    (n, { e with
      io := { e.io with
        stats := { e.io.stats with
          bytesWritten := e.io.stats.bytesWritten + UInt64.ofNat n.toNat
          packetsWritten := e.io.stats.packetsWritten + 1 } } })
  else if n < 0 then (n, { e with io := e.io.error })
  else (n, e)

/-- `hev_tunnel_io_enhanced_get_stats`: the seven counters. -/
def hevTunnelIoEnhancedGetStats (e : Enhanced) : HevTunnelIOStats × UInt64 :=
  (e.io.stats, e.zeroCopyOperations)

/-- `hev_tunnel_io_enhanced_reset_stats`: the counters zeroed (`memset`). -/
def hevTunnelIoEnhancedResetStats (e : Enhanced) : Enhanced :=
  { e with io := { e.io with stats := ⟨0, 0, 0, 0, 0, 0⟩ }, zeroCopyOperations := 0 }

/-! ## The pipe -/

/-- The kernel's side of the zero-copy path: the pipe's buffers, oldest
    first; and, recorded along the run, each byte `splice ()` took from the
    device, with the `dst_fd` of the call that took it, and each byte it
    wrote, with the descriptor it went to. -/
structure Kernel where
  pipe : List (List UInt8)
  fromTun : List (Int × UInt8)
  toDst : List (Int × UInt8)

/-- The pipe's buffers after `w` bytes are read from its front: those
    emptied are released, the one read in part keeps the rest. -/
def drain : List (List UInt8) → Nat → List (List UInt8)
  | [], _ => []
  | b :: bufs, w => if w < b.length then b.drop w :: bufs else drain bufs (w - b.length)

/-- The first `splice ()`, from the device into the pipe, for a call to
    `dst`, filling the buffers `bufs`. -/
def Kernel.spliceIn (k : Kernel) (dst : Int) (bufs : List (List UInt8)) : Kernel :=
  { k with pipe := k.pipe ++ bufs, fromTun := k.fromTun ++ bufs.flatten.map (dst, ·) }

/-- The second `splice ()`, from the pipe to `dst`, moving `w` bytes. -/
def Kernel.spliceOut (k : Kernel) (dst : Int) (w : Nat) : Kernel :=
  { k with pipe := drain k.pipe w, toDst := k.toDst ++ (k.pipe.flatten.take w).map (dst, ·) }

/-- What the first `splice ()` does: fill the pipe buffers `bufs` and
    return the number of their bytes, or fill none and return `ret`. -/
inductive Fill
  | filled (bufs : List (List UInt8))
  | failed (ret : Int)

/-- The buffers a first `splice ()` fills. -/
def Fill.bufs : Fill → List (List UInt8)
  | .filled bufs => bufs
  | .failed _ => []

/-- What a first `splice ()` returns. -/
def Fill.ret : Fill → Int
  | .filled bufs => bufs.flatten.length
  | .failed ret => ret

/-- What the kernel may do for a first `splice ()` of `len` bytes into a
    pipe of `cap` buffers holding `pipe`: fill at least one free buffer, none
    left empty, with at most `len` bytes; or fill none and return `0` or
    `-1`. -/
def Fill.Valid (cap len : Nat) (pipe : List (List UInt8)) : Fill → Prop
  | .filled bufs =>
    bufs ≠ [] ∧ (∀ b ∈ bufs, b ≠ []) ∧ pipe.length + bufs.length ≤ cap ∧ bufs.flatten.length ≤ len
  | .failed ret => ret = 0 ∨ ret = -1

instance (cap len : Nat) (pipe : List (List UInt8)) : (f : Fill) → Decidable (f.Valid cap len pipe)
  | .filled _ => inferInstanceAs (Decidable (_ ∧ _ ∧ _ ∧ _))
  | .failed _ => inferInstanceAs (Decidable (_ ∨ _))

/-- `io->stats.bytes_read += written; io->stats.bytes_written += written;
    io->stats.zero_copy_operations++;` -/
def Enhanced.spliced (e : Enhanced) (written : Nat) : Enhanced :=
  { e with
    io := { e.io with
      stats := { e.io.stats with
        bytesRead := e.io.stats.bytesRead + UInt64.ofNat written
        bytesWritten := e.io.stats.bytesWritten + UInt64.ofNat written } }
    zeroCopyOperations := e.zeroCopyOperations + 1 }

/-- `hev_tunnel_io_enhanced_splice (io, dst_fd, len)` on Linux, the first
    `splice ()` doing `fill` and the second returning `written`: what it
    returns, and the I/O and the kernel after. -/
def hevTunnelIoEnhancedSplice (e : Enhanced) (k : Kernel) (dstFd : Int) (fill : Fill)
    (written : Int) : Int × Enhanced × Kernel :=
  if dstFd < 0 ∨ e.pipeFds.1 < 0 then (-1, e, k)
  else
    let n := fill.ret
    let k := k.spliceIn dstFd fill.bufs
    if n ≤ 0 then (n, e, k)
    else if written > 0 then (written, e.spliced written.toNat, k.spliceOut dstFd written.toNat)
    else (written, e, k)

@[simp] theorem Kernel.spliceIn_pipe (k : Kernel) (dst : Int) (bufs : List (List UInt8)) :
    (k.spliceIn dst bufs).pipe = k.pipe ++ bufs := rfl

@[simp] theorem Kernel.spliceIn_fromTun (k : Kernel) (dst : Int) (bufs : List (List UInt8)) :
    (k.spliceIn dst bufs).fromTun = k.fromTun ++ bufs.flatten.map (dst, ·) := rfl

@[simp] theorem Kernel.spliceIn_toDst (k : Kernel) (dst : Int) (bufs : List (List UInt8)) :
    (k.spliceIn dst bufs).toDst = k.toDst := rfl

@[simp] theorem Kernel.spliceIn_nil (k : Kernel) (dst : Int) : k.spliceIn dst [] = k := by
  simp [Kernel.spliceIn]

@[simp] theorem Kernel.spliceOut_pipe (k : Kernel) (dst : Int) (w : Nat) :
    (k.spliceOut dst w).pipe = drain k.pipe w := rfl

@[simp] theorem Kernel.spliceOut_fromTun (k : Kernel) (dst : Int) (w : Nat) :
    (k.spliceOut dst w).fromTun = k.fromTun := rfl

@[simp] theorem Kernel.spliceOut_toDst (k : Kernel) (dst : Int) (w : Nat) :
    (k.spliceOut dst w).toDst = k.toDst ++ (k.pipe.flatten.take w).map (dst, ·) := rfl

/-- Reading `w` bytes of the pipe leaves its bytes past the first `w`. -/
theorem flatten_drain : ∀ (bufs : List (List UInt8)) (w : Nat), (drain bufs w).flatten = bufs.flatten.drop w
  | [], _ => by simp [drain]
  | b :: bufs, w => by
    unfold drain
    split_ifs with h
    · rw [List.flatten_cons, List.flatten_cons, List.drop_append_of_le_length h.le]
    · rw [flatten_drain bufs, List.flatten_cons, List.drop_append_eq_append_drop,
        List.drop_eq_nil_of_le (show b.length ≤ w by omega), List.nil_append]

theorem length_drain_le : ∀ (bufs : List (List UInt8)) (w : Nat), (drain bufs w).length ≤ bufs.length
  | [], _ => le_rfl
  | b :: bufs, w => by
    unfold drain
    split_ifs
    · exact le_rfl
    · exact (length_drain_le bufs _).trans (Nat.le_succ _)

theorem drain_ne_nil : ∀ {bufs : List (List UInt8)} (w : Nat), (∀ b ∈ bufs, b ≠ []) →
    ∀ b ∈ drain bufs w, b ≠ []
  | [], _, _ => by simp [drain]
  | b :: bufs, w, h => by
    unfold drain
    split_ifs with hw
    · intro c hc
      rcases List.mem_cons.1 hc with rfl | hc
      · exact List.ne_nil_of_length_pos (by rw [List.length_drop]; omega)
      · exact h c (List.mem_cons_of_mem _ hc)
    · exact drain_ne_nil _ fun c hc => h c (List.mem_cons_of_mem _ hc)

/-- A kernel state the calls keep: in order, the bytes written and those in
    the pipe are the bytes taken; the pipe's buffers hold bytes, and are at
    most `cap`. -/
structure Kernel.Wf (cap : Nat) (k : Kernel) : Prop where
  inOrder : k.toDst.map Prod.snd ++ k.pipe.flatten = k.fromTun.map Prod.snd
  nonempty : ∀ b ∈ k.pipe, b ≠ []
  bounded : k.pipe.length ≤ cap

section Wf

variable {cap : Nat} {k : Kernel}

theorem Kernel.Wf.spliceIn (h : k.Wf cap) {len : Nat} {fill : Fill}
    (hv : fill.Valid cap len k.pipe) (dst : Int) : (k.spliceIn dst fill.bufs).Wf cap := by
  cases fill with
  | failed ret => rw [Fill.bufs, Kernel.spliceIn_nil]; exact h
  | filled bufs =>
    obtain ⟨-, hne, hle, -⟩ := hv
    refine ⟨?_, ?_, by simpa using hle⟩
    · simp only [Kernel.spliceIn_toDst, Kernel.spliceIn_pipe, Kernel.spliceIn_fromTun, Fill.bufs,
        List.flatten_append, List.map_append, List.map_map, Function.comp_def, List.map_id',
        ← List.append_assoc, h.inOrder]
    · simpa [or_imp, forall_and] using ⟨h.nonempty, hne⟩

theorem Kernel.Wf.spliceOut (h : k.Wf cap) (dst : Int) (w : Nat) : (k.spliceOut dst w).Wf cap where
  inOrder := by
    simp only [Kernel.spliceOut_toDst, Kernel.spliceOut_pipe, Kernel.spliceOut_fromTun, flatten_drain,
      List.map_append, List.map_map, Function.comp_def, List.map_id', List.append_assoc,
      List.take_append_drop, h.inOrder]
  nonempty := drain_ne_nil w h.nonempty
  bounded := (length_drain_le _ w).trans h.bounded

end Wf

/-- What a `splice` call does to the kernel: nothing; or, the pipe open and
    `dst_fd` valid, it fills what the first `splice ()` filled, and, if that
    was something, moves what the second moved. -/
theorem splice_kernel (e : Enhanced) (k : Kernel) (dstFd : Int) (fill : Fill) (written : Int) :
    (hevTunnelIoEnhancedSplice e k dstFd fill written).2.2 = k ∨
      0 ≤ e.pipeFds.1 ∧
        ((hevTunnelIoEnhancedSplice e k dstFd fill written).2.2 = k.spliceIn dstFd fill.bufs ∨
          (hevTunnelIoEnhancedSplice e k dstFd fill written).2.2 =
            (k.spliceIn dstFd fill.bufs).spliceOut dstFd written.toNat) := by
  unfold hevTunnelIoEnhancedSplice
  dsimp only
  split_ifs with hg
  · exact .inl rfl
  · exact .inr ⟨by omega, .inl rfl⟩
  · exact .inr ⟨by omega, .inr rfl⟩
  · exact .inr ⟨by omega, .inl rfl⟩

theorem splice_pipeFds (e : Enhanced) (k : Kernel) (dstFd : Int) (fill : Fill) (written : Int) :
    (hevTunnelIoEnhancedSplice e k dstFd fill written).2.1.pipeFds = e.pipeFds := by
  unfold hevTunnelIoEnhancedSplice
  dsimp only
  split_ifs <;> rfl

/-- With every buffer in use, the first `splice ()` fills none, and the call
    moves nothing and returns `0` or less. -/
theorem splice_full {cap len : Nat} {k : Kernel} (hfull : k.pipe.length = cap) {fill : Fill}
    (hv : fill.Valid cap len k.pipe) (e : Enhanced) (dstFd written : Int) :
    (hevTunnelIoEnhancedSplice e k dstFd fill written).1 ≤ 0 ∧
      (hevTunnelIoEnhancedSplice e k dstFd fill written).2.2 = k := by
  cases fill with
  | filled bufs =>
    obtain ⟨hne, -, hle, -⟩ := hv
    exact absurd (List.length_pos.2 hne) (by omega)
  | failed ret =>
    have hr : ret ≤ 0 := by rcases hv with rfl | rfl <;> decide
    unfold hevTunnelIoEnhancedSplice
    split_ifs <;> simp_all [Fill.ret, Fill.bufs, Kernel.spliceIn]

/-! ## The caller -/

namespace Zerocopy

/-- The caller's side: the I/O, the buffers it holds, and the kernel. -/
structure State where
  io : Enhanced
  held : List Nat
  kernel : Kernel

/-- A call of the caller, with the kernel's answers. -/
inductive Call
  | batch (e : Event)
  | splice (dstFd : Int) (len : Nat) (fill : Fill) (written : Int)
  | readv (iov : Nat) (iovcnt n : Int)
  | writev (iov : Nat) (iovcnt n : Int)
  | resetStats

/-- A call, with a pipe of `cap` buffers: a batch call as the batch model
    has it; a `splice` with the answers the kernel may give. -/
def next (cap : Nat) (s : State) : Call → Option State
  | .batch e => (TunnelIOEnhanced.next ⟨s.io.io, s.held⟩ e).map fun c =>
      { s with io := { s.io with io := c.io }, held := c.held }
  | .splice dstFd len fill written =>
    if fill.Valid cap len s.kernel.pipe ∧ -1 ≤ written ∧ written ≤ fill.ret then
      let r := hevTunnelIoEnhancedSplice s.io s.kernel dstFd fill written
      some { s with io := r.2.1, kernel := r.2.2 }
    else none
  | .readv iov iovcnt n => some { s with io := (hevTunnelIoEnhancedReadv s.io iov iovcnt n).2 }
  | .writev iov iovcnt n => some { s with io := (hevTunnelIoEnhancedWritev s.io iov iovcnt n).2 }
  | .resetStats => some { s with io := hevTunnelIoEnhancedResetStats s.io }

/-- `hev_tunnel_io_enhanced_new (tun_fd, mode)`: the pool and the counters
    as the batch model starts them, `zero_copy_operations` zero, and the two
    descriptors of `pipe2 ()` in `HEV_IO_MODE_ZEROCOPY`, `-1` in the other
    modes; the pipe is empty. -/
def system (cap : Nat) : System State where
  init s := TunnelIOEnhanced.system.init ⟨s.io.io, s.held⟩ ∧ s.io.zeroCopyOperations = 0 ∧
    (∃ mode : HevIOMode, if mode = .zerocopy then 0 ≤ s.io.pipeFds.1 ∧ 0 ≤ s.io.pipeFds.2
      else s.io.pipeFds = (-1, -1)) ∧
    s.kernel = ⟨[], [], []⟩
  step s s' := ∃ c, next cap s c = some s'

variable {cap : Nat} {s s' : State}

/-- What a call does to the descriptors and the kernel: a `splice` as
    `hevTunnelIoEnhancedSplice`, with a first `splice ()` the kernel may do;
    every other call leaves both. -/
theorem next_cases {c : Call} (h : next cap s c = some s') :
    s'.io.pipeFds = s.io.pipeFds ∧
      (s'.kernel = s.kernel ∨ ∃ dstFd len fill written, fill.Valid cap len s.kernel.pipe ∧
        s'.kernel = (hevTunnelIoEnhancedSplice s.io s.kernel dstFd fill written).2.2) := by
  cases c with
  | batch e =>
    obtain ⟨c, -, rfl⟩ := Option.map_eq_some'.1 h
    exact ⟨rfl, .inl rfl⟩
  | splice dstFd len fill written =>
    simp only [next] at h
    split_ifs at h with hv
    cases h
    exact ⟨splice_pipeFds _ _ _ _ _, .inr ⟨dstFd, len, fill, written, hv.1, rfl⟩⟩
  | readv iov iovcnt n =>
    cases h
    refine ⟨?_, .inl rfl⟩
    unfold hevTunnelIoEnhancedReadv
    split_ifs <;> rfl
  | writev iov iovcnt n =>
    cases h
    refine ⟨?_, .inl rfl⟩
    unfold hevTunnelIoEnhancedWritev
    split_ifs <;> rfl
  | resetStats => cases h; exact ⟨rfl, .inl rfl⟩

/-- The invariant: the kernel as the calls keep it, and no byte taken
    without the pipe. -/
structure Inv (cap : Nat) (s : State) : Prop where
  wf : s.kernel.Wf cap
  closed : s.io.pipeFds.1 < 0 → s.kernel.fromTun = []

theorem inv_init (h : (system cap).init s) : Inv cap s := by
  obtain ⟨-, -, -, hk⟩ := h
  refine ⟨?_, fun _ => by rw [hk]⟩
  rw [hk]
  exact ⟨rfl, fun _ h => absurd h (List.not_mem_nil _), Nat.zero_le _⟩

theorem inv_next (hi : Inv cap s) {c : Call} (h : next cap s c = some s') : Inv cap s' := by
  obtain ⟨hfd, hk⟩ := next_cases h
  -- the kernel stays well formed, and stays as it is without the pipe
  have hwf : s'.kernel.Wf cap ∧ (s.io.pipeFds.1 < 0 → s'.kernel = s.kernel) := by
    rcases hk with hk | ⟨dstFd, len, fill, written, hv, hk⟩
    · rw [hk]
      exact ⟨hi.wf, fun _ => rfl⟩
    · rw [hk]
      rcases splice_kernel s.io s.kernel dstFd fill written with e | ⟨hopen, e | e⟩ <;> rw [e]
      · exact ⟨hi.wf, fun _ => rfl⟩
      · exact ⟨hi.wf.spliceIn hv dstFd, fun h => absurd hopen (by omega)⟩
      · exact ⟨(hi.wf.spliceIn hv dstFd).spliceOut dstFd _, fun h => absurd hopen (by omega)⟩
  refine ⟨hwf.1, fun h => ?_⟩
  rw [hfd] at h
  rw [hwf.2 h]
  exact hi.closed h

theorem reachable_inv (hs : (system cap).Reachable s) : Inv cap s :=
  System.reachable_induction (fun _ h => inv_init h) (fun _ _ _ hi ⟨_, h⟩ => inv_next hi h) hs

/-- Along every run of calls, the bytes written to the descriptors, then
    those in the pipe, are the bytes taken from the device, in order: none is
    lost, duplicated or reordered. Without the pipe, none is taken. -/
theorem splice_in_order (hs : (system cap).Reachable s) :
    s.kernel.toDst.map Prod.snd ++ s.kernel.pipe.flatten = s.kernel.fromTun.map Prod.snd ∧
      (s.io.pipeFds.1 < 0 → s.kernel.fromTun = []) :=
  ⟨(reachable_inv hs).wf.inOrder, (reachable_inv hs).closed⟩

/-- The oldest byte taken and not written, taken by a call to `a`, is
    written to `d` by a call to `d`, whenever the pipe has a free buffer:
    what a call leaves in the pipe goes to the descriptor of a later call. -/
theorem splice_misroutes (hs : (system cap).Reachable s) {a : Int} {x : UInt8}
    {rest : List (Int × UInt8)} (hx : s.kernel.fromTun.drop s.kernel.toDst.length = (a, x) :: rest)
    (hroom : s.kernel.pipe.length < cap) {d : Int} (hd : 0 ≤ d) :
    ∃ s', (system cap).step s s' ∧ s'.kernel.toDst = s.kernel.toDst ++ [(d, x)] := by
  have hi := reachable_inv hs
  -- the pipe holds the bytes taken and not written, `x` first
  have hpipe : s.kernel.pipe.flatten = x :: rest.map Prod.snd := by
    have e := congrArg (List.drop s.kernel.toDst.length) hi.wf.inOrder
    rwa [List.drop_left' (List.length_map _ _), ← List.map_drop, hx] at e
  have hopen : 0 ≤ s.io.pipeFds.1 := by
    by_contra hc
    have := hi.closed (by omega)
    simp [this] at hx
  -- a call to `d` filling one buffer, then writing one byte
  have hv : (Fill.filled [[0]]).Valid cap 1 s.kernel.pipe := by
    refine ⟨List.cons_ne_nil _ _, by simp, by simpa using hroom, by simp⟩
  have hn : next cap s (.splice d 1 (.filled [[0]]) 1) =
      some { s with
        io := (hevTunnelIoEnhancedSplice s.io s.kernel d (.filled [[0]]) 1).2.1
        kernel := (hevTunnelIoEnhancedSplice s.io s.kernel d (.filled [[0]]) 1).2.2 } := by
    rw [next, if_pos ⟨hv, by decide, by simp [Fill.ret]⟩]
  refine ⟨_, ⟨_, hn⟩, ?_⟩
  have hg : ¬(d < 0 ∨ s.io.pipeFds.1 < 0) := by omega
  simp [hevTunnelIoEnhancedSplice, hg, Fill.ret, Fill.bufs, hpipe]

/-- From `t` on no call moves a byte: every run keeps the kernel as it is,
    and every `splice` returns `0` or less, whatever the kernel answers. -/
def Stalled (cap : Nat) (t : State) : Prop :=
  ∀ u, Relation.ReflTransGen (system cap).step t u → u.kernel = t.kernel ∧
    ∀ dstFd len fill written, fill.Valid cap len u.kernel.pipe →
      (hevTunnelIoEnhancedSplice u.io u.kernel dstFd fill written).1 ≤ 0

/-- A call with every buffer of the pipe in use keeps the kernel. -/
theorem full_step (hfull : s.kernel.pipe.length = cap) (h : (system cap).step s s') :
    s'.kernel = s.kernel := by
  obtain ⟨c, hc⟩ := h
  obtain ⟨-, hk | ⟨dstFd, len, fill, written, hv, hk⟩⟩ := next_cases hc
  · exact hk
  · rw [hk]
    exact (splice_full hfull hv _ _ _).2

theorem stalled_of_full (hfull : s.kernel.pipe.length = cap) : Stalled cap s := by
  intro u hu
  have hk : u.kernel = s.kernel := by
    induction hu with
    | refl => rfl
    | tail _ hst ih => rw [full_step (by rw [ih]; exact hfull) hst, ih]
  exact ⟨hk, fun _ _ _ _ hv => (splice_full (by rw [hk]; exact hfull) hv _ _ _).1⟩

/-- From every reachable state of a zero-copy I/O, one call whose `dst_fd`
    would block, the device holding enough data, fills every free buffer of
    the pipe; from then on no call moves a byte, and the pipe never empties. -/
theorem splice_stalls (hs : (system cap).Reachable s) (hopen : 0 ≤ s.io.pipeFds.1) :
    ∃ t, Relation.ReflTransGen (system cap).step s t ∧ Stalled cap t := by
  have hb := (reachable_inv hs).wf.bounded
  rcases Nat.lt_or_ge s.kernel.pipe.length cap with hlt | hge
  · -- a byte in each free buffer; the second `splice ()` fails
    have hv : (Fill.filled (List.replicate (cap - s.kernel.pipe.length) [0])).Valid cap
        (cap - s.kernel.pipe.length) s.kernel.pipe :=
      ⟨by simp; omega, by simp, by simp; omega, by simp⟩
    have hr : (Fill.filled (List.replicate (cap - s.kernel.pipe.length) [0])).ret =
        ((cap - s.kernel.pipe.length : Nat) : Int) := by simp [Fill.ret]
    have hn : next cap s (.splice 0 (cap - s.kernel.pipe.length)
        (.filled (List.replicate (cap - s.kernel.pipe.length) [0])) (-1)) =
        some { s with kernel := s.kernel.spliceIn 0 (List.replicate (cap - s.kernel.pipe.length) [0]) } := by
      rw [next, if_pos ⟨hv, by decide, by omega⟩]
      simp [hevTunnelIoEnhancedSplice, hr, Fill.bufs, show ¬ s.io.pipeFds.1 < 0 by omega,
        show ¬ ((cap - s.kernel.pipe.length : Nat) : Int) ≤ 0 by omega]
    refine ⟨_, .single ⟨_, hn⟩, stalled_of_full ?_⟩
    simp only [Kernel.spliceIn_pipe, List.length_append, List.length_replicate]
    omega
  · exact ⟨s, .refl, stalled_of_full (by omega)⟩

/-! ## A new zero-copy I/O -/

/-- `hev_tunnel_io_enhanced_new (tun_fd, HEV_IO_MODE_ZEROCOPY)`, `pipe2 ()`
    returning the descriptors `3` and `4`. -/
def fresh : State := ⟨⟨⟨newPool, ⟨0, 0, 0, 0, 0, 0⟩⟩, 0, (3, 4)⟩, [], ⟨[], [], []⟩⟩

theorem fresh_reachable (cap : Nat) : (system cap).Reachable fresh :=
  .init ⟨⟨(· + 1), fun _ _ _ _ e => by simpa using e, newPool, newPool_eq, rfl⟩, rfl, ⟨.zerocopy, by decide⟩, rfl⟩

theorem splice_in_order_fresh :
    (system pipeDefBuffers).Reachable fresh ∧
      (fresh.kernel.toDst.map Prod.snd ++ fresh.kernel.pipe.flatten = fresh.kernel.fromTun.map Prod.snd ∧
        (fresh.io.pipeFds.1 < 0 → fresh.kernel.fromTun = [])) :=
  ⟨fresh_reachable _, splice_in_order (fresh_reachable pipeDefBuffers)⟩

/-- `fresh` after a call to descriptor `3` whose second `splice ()` would
    block: the byte `7` it took stays in the pipe. -/
def leftover : State := { fresh with kernel := ⟨[[7]], [(3, 7)], []⟩ }

theorem leftover_reachable : (system pipeDefBuffers).Reachable leftover :=
  .step (fresh_reachable _) ⟨.splice 3 1 (.filled [[7]]) (-1), by
    rw [next, if_pos (by decide)]
    rfl⟩

theorem splice_misroutes_leftover :
    (system pipeDefBuffers).Reachable leftover ∧
      ∃ s', (system pipeDefBuffers).step leftover s' ∧ s'.kernel.toDst = [(4, 7)] :=
  ⟨leftover_reachable, splice_misroutes leftover_reachable
    (show leftover.kernel.fromTun.drop leftover.kernel.toDst.length = (3, 7) :: [] from rfl)
    (by decide) (show (0 : Int) ≤ 4 by decide)⟩

theorem splice_stalls_fresh :
    (system pipeDefBuffers).Reachable fresh ∧ 0 ≤ fresh.io.pipeFds.1 ∧
      ∃ t, Relation.ReflTransGen (system pipeDefBuffers).step fresh t ∧ Stalled pipeDefBuffers t :=
  ⟨fresh_reachable _, by decide, splice_stalls (fresh_reachable _) (by decide)⟩

end Zerocopy

end HevTunnel.TunnelIOEnhanced
