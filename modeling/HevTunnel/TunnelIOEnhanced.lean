import HevTunnel.MemoryPool.Alone
import HevTunnel.TunnelIO.Packet

/-!
# Batch I/O over the buffer pool

`hev-tunnel-io-enhanced.c`: an enhanced I/O owns a pool of 1024 buffers
(`hev_memory_pool_new (2048, 1024)`). `read_batch` takes a buffer from the
pool and reads a packet into it, up to `max_count` times; it stops at the
first `NULL` from the pool, and at the first read that fails, would block or
reads nothing, returning that read's buffer to the pool; the buffers read
go to the caller in `buffers[0..count)`. `write_batch` writes
`buffers[0..count)` in turn, stops at the first write that fails or would
block, and returns each buffer written to the pool.

The caller calls the two in any order, whatever each `read ()` and
`write ()` returns, and hands `write_batch` only distinct buffers it holds:
those `read_batch` returned that no `write_batch` freed. It is the one
thread using the pool (`MemoryPool.Alone`), so each call of the pool is a
run of the concurrent pool's client.

* `readLoop_spec`, `writeLoop_spec`: a read loop hands out the buffers of
  the new slots its client holds, in order; a write loop drops the slots of
  the buffers it wrote, in order;
* `reachable_holds`: along every run the caller holds the buffers of the
  slots the pool's client holds;
* `batch_pool_exact`: so a `read_batch` returning `c` claimed exactly `c`
  free slots, whose buffers are `buffers[0..c)`, and left every other bit;
  a `write_batch` returning `w` freed exactly the slots of `buffers[0..w)`;
  and `allocated` is the number of buffers the caller holds.
-/

namespace HevTunnel.TunnelIOEnhanced

open MemoryPool TunnelIO

/-- `HevTunnelIOStats`, the `uint64_t` counters the batch calls update. -/
structure HevTunnelIOStats where
  bytesRead : UInt64
  bytesWritten : UInt64
  packetsRead : UInt64
  packetsWritten : UInt64
  batchesProcessed : UInt64
  errors : UInt64
  deriving DecidableEq

/-- `HevTunnelIOEnhanced`: its buffer pool and its counters. -/
structure HevTunnelIOEnhanced where
  bufferPool : HevMemoryPool
  stats : HevTunnelIOStats

/-- What a batch loop works on: the I/O, the caller's arrays `buffers` and
    `sizes`, and `count`, the iterations that went through. -/
structure Batch where
  io : HevTunnelIOEnhanced
  buffers : Nat → Nat
  sizes : Nat → Nat
  count : Nat

/-- `io->stats.errors++`. -/
def HevTunnelIOEnhanced.error (io : HevTunnelIOEnhanced) : HevTunnelIOEnhanced :=
  { io with stats := { io.stats with errors := io.stats.errors + 1 } }

/-- `if (count > 0) io->stats.batches_processed++;`, ending both calls. -/
def Batch.finish (b : Batch) : Batch :=
  if b.count > 0 then
    { b with io := { b.io with stats := { b.io.stats with batchesProcessed := b.io.stats.batchesProcessed + 1 } } }
  else b

/-- An iteration of `read_batch` that read `n` bytes into `buf`, taken from
    `pool`: `buffers[i] = buf; sizes[i] = n; count++;` and the counters. -/
def Batch.stored (b : Batch) (pool : HevMemoryPool) (i buf n : Nat) : Batch where
  io :=
    { bufferPool := pool
      stats := { b.io.stats with
        packetsRead := b.io.stats.packetsRead + 1
        bytesRead := b.io.stats.bytesRead + UInt64.ofNat n } }
  buffers := Function.update b.buffers i buf
  sizes := Function.update b.sizes i n
  count := b.count + 1

/-- The `for` loop of `read_batch` at iteration `i`, `k` iterations left;
    `read i` is what the `read ()` of iteration `i` returns. -/
def readLoop (read : Nat → IoResult) : Nat → Nat → Batch → Batch
  | 0, _, b => b
  | k + 1, i, b =>
    let (buf, pool) := hevMemoryPoolAlloc b.io.bufferPool
    if buf = 0 then { b with io := { b.io with bufferPool := pool } }
    else
      match read i with
      | .error errno =>
        let io := { b.io with bufferPool := hevMemoryPoolFree pool buf }
        if errno = .eagain ∨ errno = .ewouldblock then { b with io }
        else { b with io := io.error }
      | .ok 0 => { b with io := { b.io with bufferPool := hevMemoryPoolFree pool buf } }
      | .ok n => readLoop read k (i + 1) (b.stored pool i buf n)

/-- `hev_tunnel_io_enhanced_read_batch (io, buffers, sizes, max_count)`, its
    pointers not `NULL`: what it returns, and the I/O and the arrays after. -/
def hevTunnelIoEnhancedReadBatch (io : HevTunnelIOEnhanced) (buffers sizes : Nat → Nat)
    (maxCount : Int) (read : Nat → IoResult) : Int × Batch :=
  if maxCount ≤ 0 then (-1, ⟨io, buffers, sizes, 0⟩)
  else
    let b := (readLoop read maxCount.toNat 0 ⟨io, buffers, sizes, 0⟩).finish
    (b.count, b)

/-- An iteration of `write_batch` that wrote `n` bytes of `buffers[i]`: the
    counters, `written++`, and the buffer back to the pool. -/
def Batch.written (b : Batch) (i n : Nat) : Batch :=
  { b with
    io :=
      { bufferPool := hevMemoryPoolFree b.io.bufferPool (b.buffers i)
        stats := { b.io.stats with
          packetsWritten := b.io.stats.packetsWritten + 1
          bytesWritten := b.io.stats.bytesWritten + UInt64.ofNat n } }
    count := b.count + 1 }

/-- The `for` loop of `write_batch` at iteration `i`, `k` iterations left;
    `write i` is what the `write ()` of iteration `i` returns. -/
def writeLoop (write : Nat → IoResult) : Nat → Nat → Batch → Batch
  | 0, _, b => b
  | k + 1, i, b =>
    match write i with
    | .error errno =>
      if errno = .eagain ∨ errno = .ewouldblock then b
      else { b with io := b.io.error }
    | .ok n => writeLoop write k (i + 1) (b.written i n)

/-- `hev_tunnel_io_enhanced_write_batch (io, buffers, sizes, count)`, its
    pointers not `NULL`. -/
def hevTunnelIoEnhancedWriteBatch (io : HevTunnelIOEnhanced) (buffers sizes : Nat → Nat)
    (count : Int) (write : Nat → IoResult) : Int × Batch :=
  if count ≤ 0 then (-1, ⟨io, buffers, sizes, 0⟩)
  else
    let b := (writeLoop write count.toNat 0 ⟨io, buffers, sizes, 0⟩).finish
    (b.count, b)

/-! ## The caller -/

/-- The entries `a[0..n)` of an array. -/
def slice (a : Nat → Nat) (n : Nat) : List Nat := (List.range n).map a

/-- The caller's side: the I/O, and the buffers it holds. -/
structure State where
  io : HevTunnelIOEnhanced
  held : List Nat

inductive Event
  | readBatch (buffers sizes : Nat → Nat) (maxCount : Int) (read : Nat → IoResult)
  | writeBatch (buffers sizes : Nat → Nat) (count : Int) (write : Nat → IoResult)

/-- A call: `read_batch` hands the caller `buffers[0..c)`; `write_batch` is
    given distinct buffers the caller holds, and takes back `buffers[0..w)`. -/
def next (s : State) : Event → Option State
  | .readBatch buffers sizes maxCount read =>
    let r := hevTunnelIoEnhancedReadBatch s.io buffers sizes maxCount read
    some ⟨r.2.io, s.held ++ slice r.2.buffers r.1.toNat⟩
  | .writeBatch buffers sizes count write =>
    if (slice buffers count.toNat).Nodup ∧ ∀ p ∈ slice buffers count.toNat, p ∈ s.held then
      let r := hevTunnelIoEnhancedWriteBatch s.io buffers sizes count write
      some ⟨r.2.io, s.held.filter fun p => p ∉ slice buffers r.1.toNat⟩
    else none

/-- `hev_tunnel_io_enhanced_new`: the pool of 1024 buffers from distinct
    pointers of `aligned_alloc`, the counters zero (`calloc`). -/
def system : System State where
  init s := ∃ alignedAlloc : Nat → Nat,
    (∀ i j, i < 1024 → j < 1024 → alignedAlloc i = alignedAlloc j → i = j) ∧
    ∃ pool, hevMemoryPoolNew 2048 1024 alignedAlloc = some pool ∧ s = ⟨⟨pool, ⟨0, 0, 0, 0, 0, 0⟩⟩, []⟩
  step s s' := ∃ e, next s e = some s'

/-! ## The loops -/

@[simp] theorem Batch.stored_bufferPool (b : Batch) (pool : HevMemoryPool) (i buf n : Nat) :
    (b.stored pool i buf n).io.bufferPool = pool := rfl

@[simp] theorem Batch.stored_buffers (b : Batch) (pool : HevMemoryPool) (i buf n : Nat) :
    (b.stored pool i buf n).buffers = Function.update b.buffers i buf := rfl

@[simp] theorem Batch.stored_count (b : Batch) (pool : HevMemoryPool) (i buf n : Nat) :
    (b.stored pool i buf n).count = b.count + 1 := rfl

@[simp] theorem Batch.written_bufferPool (b : Batch) (i n : Nat) :
    (b.written i n).io.bufferPool = hevMemoryPoolFree b.io.bufferPool (b.buffers i) := rfl

@[simp] theorem Batch.written_buffers (b : Batch) (i n : Nat) : (b.written i n).buffers = b.buffers := rfl

@[simp] theorem Batch.written_count (b : Batch) (i n : Nat) : (b.written i n).count = b.count + 1 := rfl

@[simp] theorem Batch.finish_bufferPool (b : Batch) : b.finish.io.bufferPool = b.io.bufferPool := by
  unfold Batch.finish; split_ifs <;> rfl

@[simp] theorem Batch.finish_buffers (b : Batch) : b.finish.buffers = b.buffers := by
  unfold Batch.finish; split_ifs <;> rfl

@[simp] theorem Batch.finish_count (b : Batch) : b.finish.count = b.count := by
  unfold Batch.finish; split_ifs <;> rfl

/-- The read loop keeps the pool's buffers and count. -/
theorem readLoop_frame (read : Nat → IoResult) :
    ∀ k i (b : Batch), (readLoop read k i b).io.bufferPool.buffers = b.io.bufferPool.buffers ∧
      (readLoop read k i b).io.bufferPool.bufferCount = b.io.bufferPool.bufferCount
  | 0, _, _ => ⟨rfl, rfl⟩
  | k + 1, i, b => by
    obtain ⟨hb, hc⟩ := hevMemoryPoolAlloc_frame b.io.bufferPool
    rcases hA : hevMemoryPoolAlloc b.io.bufferPool with ⟨buf, pool⟩
    rw [hA] at hb hc
    have hf := hevMemoryPoolFree_frame pool buf
    simp only [readLoop, hA]
    split_ifs
    · exact ⟨hb, hc⟩
    · split
      · split_ifs <;> exact ⟨hf.1.trans hb, hf.2.trans hc⟩
      · exact ⟨hf.1.trans hb, hf.2.trans hc⟩
      · obtain ⟨h₁, h₂⟩ := readLoop_frame read k (i + 1) _
        exact ⟨h₁.trans hb, h₂.trans hc⟩

/-- The read loop from iteration `i`, its pool used alone with the slots
    `slots` held: it claims new slots, whose buffers it stores, in order,
    from `buffers[i]` on, one per iteration that went through. -/
theorem readLoop_spec (read : Nat → IoResult) :
    ∀ k i (b : Batch) (slots : List Nat), Alone b.io.bufferPool slots →
      ∃ new : List Nat, new.length ≤ k ∧ Alone (readLoop read k i b).io.bufferPool (slots ++ new) ∧
        (readLoop read k i b).count = b.count + new.length ∧
        (List.range' i new.length).map (readLoop read k i b).buffers = new.map b.io.bufferPool.buffers ∧
        ∀ m < i, (readLoop read k i b).buffers m = b.buffers m
  | 0, _, _, slots, h => ⟨[], le_rfl, by simpa using h, rfl, rfl, fun _ _ => rfl⟩
  | k + 1, i, b, slots, h => by
    rcases hA : hevMemoryPoolAlloc b.io.bufferPool with ⟨buf, pool⟩
    have hbuf : pool.buffers = b.io.bufferPool.buffers := by
      simpa [hA] using (hevMemoryPoolAlloc_frame b.io.bufferPool).1
    simp only [readLoop, hA]
    rcases h.alloc hA with ⟨rfl, rfl⟩ | ⟨index, rfl, hz, ha⟩
    · -- the pool is exhausted
      exact ⟨[], Nat.zero_le _, by simpa using h, rfl, rfl, fun _ _ => rfl⟩
    · -- the buffer goes back to the pool, dropping its slot
      have hback : Alone (hevMemoryPoolFree pool (b.io.bufferPool.buffers index)) slots := by
        have hfree := ha.free (List.mem_append_right _ (List.mem_singleton_self index))
        have hnd := ha.nodup
        rw [List.erase_append_right _ (List.disjoint_singleton.1 (List.nodup_append.1 hnd).2.2),
          List.erase_cons_head, List.append_nil, hbuf] at hfree
        exact hfree
      rw [if_neg hz]
      split
      · split_ifs <;> exact ⟨[], Nat.zero_le _, by simpa using hback, rfl, rfl, fun _ _ => rfl⟩
      · exact ⟨[], Nat.zero_le _, by simpa using hback, rfl, rfl, fun _ _ => rfl⟩
      · -- a packet: the buffer is the caller's, and the loop goes on
        rename_i n _ _
        obtain ⟨new, hlen, hnew, hcount, hbufs, hbelow⟩ :=
          readLoop_spec read k (i + 1) (b.stored pool i (b.io.bufferPool.buffers index) n) (slots ++ [index]) ha
        refine ⟨index :: new, Nat.succ_le_succ hlen, by rwa [List.append_cons],
          by rw [hcount, Batch.stored_count, List.length_cons, Nat.add_right_comm, Nat.add_assoc], ?_,
          fun m hm => by rw [hbelow m (by omega)]; exact Function.update_noteq (by omega) _ _⟩
        rw [List.length_cons, List.range'_succ, List.map_cons, hbelow i (Nat.lt_succ_self i), hbufs,
          Batch.stored_buffers, Function.update_same, Batch.stored_bufferPool, hbuf, List.map_cons]

/-- The write loop keeps the caller's arrays, and the pool's buffers and
    count. -/
theorem writeLoop_frame (write : Nat → IoResult) :
    ∀ k i (b : Batch), (writeLoop write k i b).buffers = b.buffers ∧
      (writeLoop write k i b).io.bufferPool.buffers = b.io.bufferPool.buffers ∧
      (writeLoop write k i b).io.bufferPool.bufferCount = b.io.bufferPool.bufferCount
  | 0, _, _ => ⟨rfl, rfl, rfl⟩
  | k + 1, i, b => by
    simp only [writeLoop]
    split
    · split_ifs <;> exact ⟨rfl, rfl, rfl⟩
    · rename_i n _
      obtain ⟨h₁, h₂, h₃⟩ := writeLoop_frame write k (i + 1) (b.written i n)
      have hf := hevMemoryPoolFree_frame b.io.bufferPool (b.buffers i)
      exact ⟨h₁, h₂.trans hf.1, h₃.trans hf.2⟩

/-- The write loop from iteration `i`, its pool used alone with the slots
    `slots` held, writing the buffers of the distinct held slots `js`: the
    first `w` of them go back to the pool, in order, for the `w` iterations
    that went through. -/
theorem writeLoop_spec (write : Nat → IoResult) :
    ∀ k i (b : Batch) (slots js : List Nat), Alone b.io.bufferPool slots → js.Nodup →
      (∀ j ∈ js, j ∈ slots) → (List.range' i k).map b.buffers = js.map b.io.bufferPool.buffers →
      ∃ w ≤ k, (writeLoop write k i b).count = b.count + w ∧
        Alone (writeLoop write k i b).io.bufferPool (slots.diff (js.take w)) ∧
        (slots.diff (js.take w)).length + w = slots.length
  | 0, _, _, slots, js, h, _, _, _ => ⟨0, le_rfl, rfl, by simpa using h, by simp⟩
  | k + 1, i, b, slots, js, h, hnd, hsub, hmap => by
    obtain ⟨j, js, rfl⟩ : ∃ j js', js = j :: js' := by
      cases js with
      | nil => simp [List.range'_succ] at hmap
      | cons j js' => exact ⟨j, js', rfl⟩
    simp only [List.range'_succ, List.map_cons, List.cons.injEq] at hmap
    simp only [writeLoop]
    split
    · split_ifs <;> exact ⟨0, Nat.zero_le _, rfl, by simpa using h, by simp⟩
    · -- the buffer is written and goes back to the pool
      rename_i n _
      have hj := hsub j (.head _)
      have hfree := h.free hj
      rw [← hmap.1] at hfree
      have hnd' := List.nodup_cons.1 hnd
      obtain ⟨w, hw, hcount, hw', hlen⟩ := writeLoop_spec write k (i + 1) (b.written i n) (slots.erase j) js
        hfree hnd'.2 (fun x hx => (List.mem_erase_of_ne (fun e : x = j => hnd'.1 (e ▸ hx))).2 (hsub x (.tail _ hx)))
        (by rw [Batch.written_buffers, Batch.written_bufferPool, (hevMemoryPoolFree_frame _ _).1, hmap.2])
      rw [List.length_erase_of_mem hj] at hlen
      have := List.length_pos_of_mem hj
      refine ⟨w + 1, by omega, by rw [hcount, Batch.written_count]; omega, ?_, ?_⟩
      · rwa [List.take_succ_cons, List.diff_cons]
      · rw [List.take_succ_cons, List.diff_cons]; omega

/-! ## Every run -/

/-- The caller holds the buffers of the slots the pool's one client holds. -/
def Holds (s : State) (slots : List Nat) : Prop :=
  Alone s.io.bufferPool slots ∧ s.held = slots.map s.io.bufferPool.buffers

/-- Buffers of held slots are buffers of slots among them. -/
theorem exists_slots {f : Nat → Nat} {slots : List Nat} :
    ∀ ps : List Nat, (∀ p ∈ ps, p ∈ slots.map f) → ∃ js : List Nat, js.map f = ps ∧ ∀ j ∈ js, j ∈ slots
  | [], _ => ⟨[], rfl, fun _ h => absurd h (List.not_mem_nil _)⟩
  | p :: ps, h => by
    obtain ⟨j, hj, rfl⟩ := List.mem_map.1 (h p (.head _))
    obtain ⟨js, hjs, hmem⟩ := exists_slots ps fun q hq => h q (.tail _ hq)
    refine ⟨j :: js, by rw [List.map_cons, hjs], fun x hx => ?_⟩
    rcases List.mem_cons.1 hx with rfl | hx
    · exact hj
    · exact hmem x hx

section Calls

variable {pool : HevMemoryPool} {slots : List Nat}

/-- What a `read_batch` of a positive count does to a pool used alone. -/
theorem readBatch_spec (h : Alone pool slots) (stats : HevTunnelIOStats) (buffers sizes : Nat → Nat)
    {maxCount : Int} (hpos : 0 < maxCount) (read : Nat → IoResult) :
    ∃ new : List Nat,
      (hevTunnelIoEnhancedReadBatch ⟨pool, stats⟩ buffers sizes maxCount read).1 = new.length ∧
      new.length ≤ maxCount.toNat ∧
      Alone (hevTunnelIoEnhancedReadBatch ⟨pool, stats⟩ buffers sizes maxCount read).2.io.bufferPool
        (slots ++ new) ∧
      (hevTunnelIoEnhancedReadBatch ⟨pool, stats⟩ buffers sizes maxCount read).2.io.bufferPool.buffers =
        pool.buffers ∧
      (hevTunnelIoEnhancedReadBatch ⟨pool, stats⟩ buffers sizes maxCount read).2.io.bufferPool.bufferCount =
        pool.bufferCount ∧
      slice (hevTunnelIoEnhancedReadBatch ⟨pool, stats⟩ buffers sizes maxCount read).2.buffers new.length =
        new.map pool.buffers := by
  obtain ⟨new, hlen, hnew, hcount, hbufs, -⟩ :=
    readLoop_spec read maxCount.toNat 0 ⟨⟨pool, stats⟩, buffers, sizes, 0⟩ slots h
  have hf := readLoop_frame read maxCount.toNat 0 ⟨⟨pool, stats⟩, buffers, sizes, 0⟩
  simp only [hevTunnelIoEnhancedReadBatch, if_neg (not_le.2 hpos), Batch.finish_count,
    Batch.finish_bufferPool, Batch.finish_buffers, hcount]
  exact ⟨new, by simp, hlen, hnew, hf.1, hf.2, by rw [slice, List.range_eq_range', hbufs]⟩

/-- What a `write_batch` of a positive count, given the buffers of the
    distinct held slots `js`, does to a pool used alone. -/
theorem writeBatch_spec (h : Alone pool slots) (stats : HevTunnelIOStats) (buffers sizes : Nat → Nat)
    {count : Int} (hpos : 0 < count) (write : Nat → IoResult) {js : List Nat} (hnd : js.Nodup)
    (hsub : ∀ j ∈ js, j ∈ slots) (hmap : js.map pool.buffers = slice buffers count.toNat) :
    ∃ w : Nat, (hevTunnelIoEnhancedWriteBatch ⟨pool, stats⟩ buffers sizes count write).1 = w ∧
      w ≤ count.toNat ∧
      Alone (hevTunnelIoEnhancedWriteBatch ⟨pool, stats⟩ buffers sizes count write).2.io.bufferPool
        (slots.diff (js.take w)) ∧
      (slots.diff (js.take w)).length + w = slots.length ∧
      (hevTunnelIoEnhancedWriteBatch ⟨pool, stats⟩ buffers sizes count write).2.io.bufferPool.buffers =
        pool.buffers ∧
      (hevTunnelIoEnhancedWriteBatch ⟨pool, stats⟩ buffers sizes count write).2.io.bufferPool.bufferCount =
        pool.bufferCount := by
  obtain ⟨w, hw, hcount, hfree, hlen⟩ := writeLoop_spec write count.toNat 0 ⟨⟨pool, stats⟩, buffers, sizes, 0⟩
    slots js h hnd hsub (by rw [← List.range_eq_range', hmap]; rfl)
  have hf := writeLoop_frame write count.toNat 0 ⟨⟨pool, stats⟩, buffers, sizes, 0⟩
  simp only [hevTunnelIoEnhancedWriteBatch, if_neg (not_le.2 hpos), Batch.finish_count,
    Batch.finish_bufferPool, hcount]
  exact ⟨w, by simp, hw, hfree, hlen, hf.2.1, hf.2.2⟩

end Calls

/-- Taking back the buffers of the first `w` of the slots `js` leaves the
    caller the buffers of the other slots. -/
theorem filter_held {pool : HevMemoryPool} {slots js : List Nat} (h : Alone pool slots)
    (hsub : ∀ j ∈ js, j ∈ slots) (w : Nat) :
    (slots.map pool.buffers).filter (fun p => p ∉ (js.take w).map pool.buffers) =
      (slots.diff (js.take w)).map pool.buffers := by
  rw [List.filter_map, h.nodup.diff_eq_filter]
  congr 1
  refine List.filter_congr fun j hj => ?_
  have hmem : pool.buffers j ∈ (js.take w).map pool.buffers ↔ j ∈ js.take w := by
    refine ⟨fun hm => ?_, List.mem_map_of_mem _⟩
    obtain ⟨x, hx, e⟩ := List.mem_map.1 hm
    rwa [h.buffers_inj (h.lt (hsub x (List.mem_of_mem_take hx))) (h.lt hj) e] at hx
  simp only [Function.comp_apply, hmem]

theorem holds_init {s : State} (h : system.init s) : Holds s [] := by
  obtain ⟨alignedAlloc, hinj, pool, hnew, rfl⟩ := h
  exact ⟨alone_new (fun i j hi hj e => hinj i j (by simpa [clampCount, poolMaxBuffers] using hi)
    (by simpa [clampCount, poolMaxBuffers] using hj) e) hnew, rfl⟩

theorem holds_next {s s' : State} {slots : List Nat} (h : Holds s slots) {e : Event}
    (hn : next s e = some s') : ∃ slots', Holds s' slots' := by
  obtain ⟨⟨pool, stats⟩, held⟩ := s
  obtain ⟨ha, hheld⟩ := h
  dsimp only at ha hheld
  subst hheld
  cases e with
  | readBatch buffers sizes maxCount read =>
    cases hn
    by_cases hpos : 0 < maxCount
    · obtain ⟨new, hc, -, hnew, hbuf, -, hslice⟩ := readBatch_spec ha stats buffers sizes hpos read
      refine ⟨slots ++ new, hnew, ?_⟩
      dsimp only
      rw [hc, Int.toNat_natCast, hslice, hbuf, List.map_append]
    · simp only [hevTunnelIoEnhancedReadBatch, if_pos (not_lt.1 hpos)]
      exact ⟨slots, ha, List.append_nil _⟩
  | writeBatch buffers sizes count write =>
    simp only [next] at hn
    split_ifs at hn with hg
    cases hn
    by_cases hpos : 0 < count
    · obtain ⟨js, hmap, hsub⟩ := exists_slots _ hg.2
      have hnd : js.Nodup := List.Nodup.of_map _ (hmap ▸ hg.1)
      obtain ⟨w, hw, hwle, hfree, -, hbuf, -⟩ :=
        writeBatch_spec ha stats buffers sizes hpos write hnd hsub hmap
      refine ⟨slots.diff (js.take w), hfree, ?_⟩
      dsimp only
      have htake : slice buffers w = (js.take w).map pool.buffers := by
        rw [List.map_take, hmap, slice, slice, ← List.map_take, List.take_range, min_eq_left hwle]
      rw [hw, Int.toNat_natCast, htake, hbuf, filter_held ha hsub]
    · simp only [hevTunnelIoEnhancedWriteBatch, if_pos (not_lt.1 hpos)]
      exact ⟨slots, ha, List.filter_eq_self.2 fun p _ => decide_eq_true (List.not_mem_nil p)⟩

theorem reachable_holds {s : State} (hs : system.Reachable s) : ∃ slots, Holds s slots := by
  induction hs with
  | init h => exact ⟨[], holds_init h⟩
  | step _ hst ih =>
    obtain ⟨slots, h⟩ := ih
    obtain ⟨e, hn⟩ := hst
    exact holds_next h hn

/-- The pool `hev_memory_pool_new (2048, 1024)` makes from the buffers at
    addresses `1, 2, …, 1024`. -/
def newPool : HevMemoryPool where
  buffers i := if i < 1024 then i + 1 else 0
  freeBitmap := initialWord 1024
  bufferSize := 2048
  bufferCount := 1024
  allocated := 0
  peakUsage := 0

theorem newPool_eq : hevMemoryPoolNew 2048 1024 (· + 1) = some newPool := by
  rw [hevMemoryPoolNew, if_neg (by simp)]
  rfl

/-- `hev_tunnel_io_enhanced_new` on `newPool`, the counters zero. -/
def newIo : HevTunnelIOEnhanced := ⟨newPool, ⟨0, 0, 0, 0, 0, 0⟩⟩

/-- The caller after a `read_batch` of two one-byte packets on `newIo`: it
    holds the buffers `1` and `2`. -/
def readTwo : State :=
  ⟨(hevTunnelIoEnhancedReadBatch newIo (fun _ => 0) (fun _ => 0) 2 (fun _ => .ok 1)).2.io, [1, 2]⟩

/-- Batch I/O keeps the pool exact, along every run and whatever `read ()`
    and `write ()` return. A `read_batch` returning `c` claimed `c` distinct
    free slots, whose buffers it stored in `buffers[0..c)`, and left every
    other bit; a `write_batch` given distinct held buffers and returning `w`
    set back the bits of the slots of `buffers[0..w)` and left those of
    `buffers[w..count)` clear; and `allocated` is always the number of
    buffers the caller holds. -/
theorem batch_pool_exact :
    (∀ s : State, system.Reachable s → ∀ (buffers sizes : Nat → Nat) (maxCount : Int)
        (read : Nat → IoResult) (c : Int) (b : Batch),
      hevTunnelIoEnhancedReadBatch s.io buffers sizes maxCount read = (c, b) →
      (maxCount ≤ 0 → c = -1 ∧ b.io = s.io) ∧
      (0 < maxCount → 0 ≤ c ∧ c ≤ maxCount ∧
        ∃ new : List Nat, slice b.buffers c.toNat = new.map s.io.bufferPool.buffers ∧ new.Nodup ∧
          (∀ j ∈ new, s.io.bufferPool.bit j = true) ∧
          (∀ j, b.io.bufferPool.bit j = (s.io.bufferPool.bit j && decide (j ∉ new))) ∧
          b.io.bufferPool.allocated = s.io.bufferPool.allocated + c.toNat)) ∧
    (∀ s : State, system.Reachable s → ∀ (buffers sizes : Nat → Nat) (count : Int)
        (write : Nat → IoResult) (w : Int) (b : Batch),
      (slice buffers count.toNat).Nodup → (∀ p ∈ slice buffers count.toNat, p ∈ s.held) →
      hevTunnelIoEnhancedWriteBatch s.io buffers sizes count write = (w, b) →
      (count ≤ 0 → w = -1 ∧ b.io = s.io) ∧
      (0 < count → 0 ≤ w ∧ w ≤ count ∧
        ∃ slots : List Nat, slots.map s.io.bufferPool.buffers = slice buffers count.toNat ∧
          (∀ j ∈ slots, s.io.bufferPool.bit j = false) ∧
          (∀ j, b.io.bufferPool.bit j = (s.io.bufferPool.bit j || decide (j ∈ slots.take w.toNat))) ∧
          (∀ j ∈ slots.drop w.toNat, b.io.bufferPool.bit j = false) ∧
          b.io.bufferPool.allocated + w.toNat = s.io.bufferPool.allocated)) ∧
    (∀ s : State, system.Reachable s → s.io.bufferPool.allocated = s.held.length) := by
  refine ⟨fun s hs buffers sizes maxCount read c b hr => ⟨fun hle => ?_, fun hpos => ?_⟩,
    fun s hs buffers sizes count write w b hnd hin hr => ⟨fun hle => ?_, fun hpos => ?_⟩, fun s hs => ?_⟩
  · rw [hevTunnelIoEnhancedReadBatch, if_pos hle] at hr
    cases hr; exact ⟨rfl, rfl⟩
  · -- a read: the new slots were free and are now held
    obtain ⟨⟨pool, stats⟩, held⟩ := s
    obtain ⟨slots, ha, -⟩ := reachable_holds hs
    obtain ⟨new, hc, hlen, hnew, -, hcnt, hslice⟩ := readBatch_spec ha stats buffers sizes hpos read
    rw [hr] at hc hnew hcnt hslice
    dsimp only at hc hnew hcnt hslice ha ⊢
    subst hc
    have hnd := (List.nodup_append.1 hnew.nodup)
    refine ⟨by omega, by omega, new, by rw [Int.toNat_natCast, hslice], hnd.2.1, fun j hj => ?_,
      fun j => ?_, ?_⟩
    · rw [ha.bit, decide_eq_true_iff]
      exact ⟨hcnt ▸ hnew.lt (List.mem_append_right _ hj), fun hs => hnd.2.2 hs hj⟩
    · rw [hnew.bit, ha.bit, hcnt]
      simp only [List.mem_append, not_or, Bool.decide_and, Bool.and_assoc]
    · rw [hnew.allocated, ha.allocated, List.length_append, Int.toNat_natCast]
  · rw [hevTunnelIoEnhancedWriteBatch, if_pos hle] at hr
    cases hr; exact ⟨rfl, rfl⟩
  · -- a write: the slots of the buffers written go back
    obtain ⟨⟨pool, stats⟩, held⟩ := s
    obtain ⟨slots, ha, hheld⟩ := reachable_holds hs
    dsimp only at ha hheld hin hr ⊢
    subst hheld
    obtain ⟨js, hmap, hsub⟩ := exists_slots _ hin
    have hjs : js.Nodup := List.Nodup.of_map _ (hmap ▸ hnd)
    obtain ⟨w', hw, hwle, hfree, hlen, -, hcnt⟩ :=
      writeBatch_spec ha stats buffers sizes hpos write hjs hsub hmap
    rw [hr] at hw hfree hcnt
    dsimp only at hw hfree hcnt
    subst hw
    rw [Int.toNat_natCast]
    have hbit : ∀ j, b.io.bufferPool.bit j = (pool.bit j || decide (j ∈ js.take w')) := by
      intro j
      rw [hfree.bit, ha.bit, hcnt]
      simp only [ha.nodup.mem_diff_iff]
      by_cases hj : j ∈ js.take w'
      · have := ha.lt (hsub j (List.mem_of_mem_take hj))
        simp [hj, this]
      · simp [hj]
    refine ⟨by omega, by omega, js, hmap, fun j hj => ?_, hbit, fun j hj => ?_, ?_⟩
    · rw [ha.bit]; simp [hsub j hj]
    · have hout : j ∉ js.take w' := fun h => List.disjoint_take_drop hjs le_rfl h hj
      rw [hbit, ha.bit]
      simp [hsub j (List.mem_of_mem_drop hj), hout]
    · rw [hfree.allocated, ha.allocated, ← hlen]
  · -- the caller's buffers are those of the slots its client holds
    obtain ⟨slots, ha, hheld⟩ := reachable_holds hs
    rw [ha.allocated, hheld, List.length_map]

/-- A new I/O reads two packets into the buffers `1` and `2`: the pool
    counts both allocated, and a `write_batch` of both gives both back. -/
theorem batch_pool_exact_read_write :
    system.Reachable readTwo ∧ readTwo.io.bufferPool.allocated = 2 ∧
      ∃ b, hevTunnelIoEnhancedWriteBatch readTwo.io (fun i => i + 1) (fun _ => 1) 2
          (fun _ => .ok 1) = (2, b) ∧ b.io.bufferPool.allocated = 0 := by
  have h₀ : system.Reachable ⟨newIo, []⟩ :=
    .init ⟨(· + 1), fun _ _ _ _ e => by simpa using e, newPool, newPool_eq, rfl⟩
  have h₁ : system.Reachable readTwo :=
    h₀.step ⟨.readBatch (fun _ => 0) (fun _ => 0) 2 (fun _ => .ok 1), rfl⟩
  have h₂ : readTwo.io.bufferPool.allocated = 2 := batch_pool_exact.2.2 _ h₁
  obtain ⟨-, -, -, -, -, -, -, hw⟩ := (batch_pool_exact.2.1 _ h₁ (fun i => i + 1) (fun _ => 1) 2
    (fun _ => .ok 1) 2 _ (by decide) (by decide) rfl).2 (by decide)
  exact ⟨h₁, h₂, _, rfl, by omega⟩

end HevTunnel.TunnelIOEnhanced
