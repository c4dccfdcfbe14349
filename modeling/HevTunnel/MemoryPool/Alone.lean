import HevTunnel.MemoryPool

/-!
# The pool used by one thread

`hev_memory_pool_alloc` and `hev_memory_pool_free` called by one thread, no
other call being under way, as functions of the pool. Every CAS then
succeeds: a weak CAS failing spuriously reloads the same word and tries
again. `alloc` clears the lowest set bit of the first nonzero word, raises
`allocated` and raises `peak_usage` to it; `free` sets the bit of the slot of
its pointer back and lowers `allocated`.

* `hevMemoryPoolAlloc_run`, `hevMemoryPoolFree_run`: each call is a run of
  the concurrent pool (`MemoryPool.system`), one client step per atomic step
  of the source;
* `Alone`: the pool is reachable with one idle client holding `slots`, so
  everything proved of the reachable pools holds of it; then the bitmap is
  the complement of `slots` below the count (`Alone.bit`), the slots are
  distinct (`Alone.nodup`) and `allocated` is their number
  (`Alone.allocated`);
* `Alone.alloc`, `Alone.free`: `alloc` hands out the buffer of a new slot or
  `NULL` and changes nothing, `free` of a held buffer drops its slot.
-/

namespace HevTunnel.MemoryPool

/-- The scan of `hev_memory_pool_alloc` run alone, from word `i`, `k` words
    left: the lowest set bit of the first nonzero word is cleared, then
    `allocated` raised and `peak_usage` raised to it. The slot and the pool,
    or `none` for `NULL`. -/
def allocScan (pool : HevMemoryPool) : Nat → Nat → Option (Nat × HevMemoryPool)
  | 0, _ => none
  | k + 1, i =>
    let bitmap := pool.freeBitmap i
    if bitmap = 0 then allocScan pool k (i + 1)
    else
      let bit := ffs bitmap - 1
      let allocated := pool.allocated + 1
      some (i * 32 + bit,
        { pool with
          freeBitmap := Function.update pool.freeBitmap i (bitmap &&& ~~~(1#32 <<< bit))
          allocated
          peakUsage := if allocated > pool.peakUsage then allocated else pool.peakUsage })

/-- `hev_memory_pool_alloc` run alone: `pool->buffers[index]` of the slot it
    claims, or `NULL` (`0`) past the last word. -/
def hevMemoryPoolAlloc (pool : HevMemoryPool) : Nat × HevMemoryPool :=
  match allocScan pool (bitmapSize pool.bufferCount) 0 with
  | none => (0, pool)
  | some (index, pool') => (pool.buffers index, pool')

/-! ## Each call is a run of the concurrent pool -/

section Run

variable {pool : HevMemoryPool} {held : List Nat} {rest : Multiset Client}

/-- A step of one client, the others left as they are. -/
theorem step_of_clientStep {pool' : HevMemoryPool} {c c' : Client} {a : Action}
    (h : clientStep pool c a = some (pool', c')) :
    system.step ⟨pool, c ::ₘ rest⟩ ⟨pool', c' ::ₘ rest⟩ :=
  ⟨c, Multiset.mem_cons_self _ _, a, pool', c', h, by rw [Multiset.erase_cons_head]⟩

/-- The state an `alloc` returns to: the client idle again, holding the slot
    it claimed. -/
def afterAlloc (pool : HevMemoryPool) (held : List Nat) (rest : Multiset Client) :
    Option (Nat × HevMemoryPool) → State
  | none => ⟨pool, ⟨held, .idle⟩ ::ₘ rest⟩
  | some (index, pool') => ⟨pool', ⟨held ++ [index], .idle⟩ ::ₘ rest⟩

/-- The claim of a set bit in word `i`, then the count and the raise of
    `peak_usage`: four steps of the client. -/
theorem claim_run {i : Nat} (hw : pool.freeBitmap i ≠ 0) :
    Relation.ReflTransGen system.step ⟨pool, ⟨held, .claim i (pool.freeBitmap i)⟩ ::ₘ rest⟩
      (afterAlloc pool held rest (allocScan pool 1 i)) := by
  have h₁ : clientStep pool ⟨held, .claim i (pool.freeBitmap i)⟩ (.step false) =
      some ({ pool with
          freeBitmap := Function.update pool.freeBitmap i
            (pool.freeBitmap i &&& ~~~(1#32 <<< (ffs (pool.freeBitmap i) - 1))) },
        ⟨held, .count (i * 32 + (ffs (pool.freeBitmap i) - 1))⟩) := by
    simp only [clientStep, if_neg hw, and_self, if_true]
  simp only [allocScan, if_neg hw, afterAlloc]
  refine .head (step_of_clientStep h₁) (.head (step_of_clientStep (a := .step false) rfl)
    (.head (step_of_clientStep (a := .step false) rfl) (.single (step_of_clientStep (a := .step false) ?_))))
  by_cases hp : pool.allocated + 1 > pool.peakUsage
  · simp only [clientStep, if_pos hp, and_self, if_true]
  · simp only [clientStep, if_neg hp]

/-- The scan from word `i`: a step per word, `NULL` past the last. -/
theorem allocScan_run :
    ∀ k i, i + k = bitmapSize pool.bufferCount →
      Relation.ReflTransGen system.step ⟨pool, ⟨held, .scan i⟩ ::ₘ rest⟩
        (afterAlloc pool held rest (allocScan pool k i))
  | 0, i, h => .single (step_of_clientStep (a := .step false)
      (by simp [clientStep, show ¬ i < bitmapSize pool.bufferCount by omega]))
  | k + 1, i, h => by
    have hi : i < bitmapSize pool.bufferCount := by omega
    refine .head (step_of_clientStep (a := .step false) (by simp only [clientStep, if_pos hi]; rfl)) ?_
    by_cases hw : pool.freeBitmap i = 0
    · -- an empty word: on to the next
      have h₁ : clientStep pool ⟨held, .claim i (pool.freeBitmap i)⟩ (.step false) =
          some (pool, ⟨held, .scan (i + 1)⟩) := by simp [clientStep, hw]
      rw [allocScan, if_pos hw]
      exact .head (step_of_clientStep h₁) (allocScan_run k (i + 1) (by omega))
    · have e : allocScan pool (k + 1) i = allocScan pool 1 i := by simp only [allocScan, if_neg hw]
      rw [e]
      exact claim_run hw

/-- `hev_memory_pool_alloc` is a run of its client. -/
theorem hevMemoryPoolAlloc_run :
    Relation.ReflTransGen system.step ⟨pool, ⟨held, .idle⟩ ::ₘ rest⟩
      (afterAlloc pool held rest (allocScan pool (bitmapSize pool.bufferCount) 0)) :=
  .head (step_of_clientStep (a := .alloc) rfl) (allocScan_run _ 0 (Nat.zero_add _))

/-- `hev_memory_pool_free` of the buffer of a held slot, that `free` finds,
    while `allocated` counts it, is a run of its client. -/
theorem hevMemoryPoolFree_run {j : Nat} (hj : j ∈ held) (hz : pool.buffers j ≠ 0)
    (hf : findIndex pool (pool.buffers j) = some j) (ha : 0 < pool.allocated)
    (ha' : pool.allocated ≤ 2 ^ 64) :
    Relation.ReflTransGen system.step ⟨pool, ⟨held, .idle⟩ ::ₘ rest⟩
      ⟨hevMemoryPoolFree pool (pool.buffers j), ⟨held.erase j, .idle⟩ ::ₘ rest⟩ := by
  have h₁ : clientStep pool ⟨held, .idle⟩ (.free j) = some (pool, ⟨held.erase j, .release j⟩) := by
    simp [clientStep, hj, hz, hf]
  have e : (pool.allocated + 2 ^ 64 - 1) % 2 ^ 64 = pool.allocated - 1 := by
    rw [show pool.allocated + 2 ^ 64 - 1 = pool.allocated - 1 + 2 ^ 64 by omega, Nat.add_mod_right,
      Nat.mod_eq_of_lt (by omega)]
  refine .head (step_of_clientStep h₁) (.head (step_of_clientStep (a := .step false) rfl)
    (.single (step_of_clientStep (a := .step false) ?_)))
  simp only [clientStep, hevMemoryPoolFree, if_neg hz, hf, e]
  rfl

end Run

/-! ## One idle client -/

/-- The pool as one thread has used it: reachable, with one idle client
    holding `slots`. -/
def Alone (pool : HevMemoryPool) (slots : List Nat) : Prop :=
  system.Reachable ⟨pool, {⟨slots, .idle⟩}⟩

section Alone

variable {pool : HevMemoryPool} {slots : List Nat}

theorem Alone.inv (h : Alone pool slots) : Inv ⟨pool, {⟨slots, .idle⟩}⟩ := reachable_inv h

/-- A new pool, as `hev_memory_pool_new` makes it from distinct buffers. -/
theorem alone_new {size count : Nat} {alignedAlloc : Nat → Nat}
    (hinj : ∀ i j, i < count → j < count → alignedAlloc i = alignedAlloc j → i = j)
    (h : hevMemoryPoolNew size count alignedAlloc = some pool) : Alone pool [] :=
  .init ⟨size, count, alignedAlloc, 1, hinj, h, rfl⟩

/-- Each slot is free, or held once, below the count; neither past it. -/
theorem Alone.count (h : Alone pool slots) (j : Nat) :
    pool.freeCount j + slots.count j = if j < pool.bufferCount then 1 else 0 := by
  simpa [holders, Client.holds, Pc.slot] using h.inv.slots j

theorem Alone.nodup (h : Alone pool slots) : slots.Nodup :=
  List.nodup_iff_count_le_one.2 fun j => by have := h.count j; split_ifs at this <;> omega

theorem Alone.lt (h : Alone pool slots) {j : Nat} (hj : j ∈ slots) : j < pool.bufferCount := by
  have hc := h.count j
  have hpos := List.count_pos_iff.2 hj
  split_ifs at hc with hlt
  · exact hlt
  · omega

/-- The bitmap: the slots below the count that are not held. -/
theorem Alone.bit (h : Alone pool slots) (j : Nat) :
    pool.bit j = decide (j < pool.bufferCount ∧ j ∉ slots) := by
  rw [Bool.eq_iff_iff, decide_eq_true_iff, ← List.count_eq_zero]
  have hc := h.count j
  unfold HevMemoryPool.freeCount at hc
  split_ifs at hc with hb hlt hlt <;> simp only [hb, true_iff, Bool.false_eq_true, false_iff] <;> omega

theorem Alone.allocated (h : Alone pool slots) : pool.allocated = slots.length := by
  simpa [Client.counted] using h.inv.counted

theorem Alone.buffers (h : Alone pool slots) {i : Nat} (hi : i < pool.bufferCount) :
    pool.buffers i ≠ 0 ∧ findIndex pool (pool.buffers i) = some i :=
  h.inv.buffers i hi

/-- The buffers of the slots below the count are distinct. -/
theorem Alone.buffers_inj (h : Alone pool slots) {i j : Nat} (hi : i < pool.bufferCount)
    (hj : j < pool.bufferCount) (e : pool.buffers i = pool.buffers j) : i = j :=
  Option.some.inj ((h.buffers hi).2.symm.trans (e ▸ (h.buffers hj).2))

theorem Alone.length_le (h : Alone pool slots) : slots.length ≤ 2048 := by
  have hsub : slots.Subperm (List.range 2048) :=
    h.nodup.subperm fun j hj => List.mem_range.2 ((h.lt hj).trans_le h.inv.count_le)
  simpa using hsub.length_le

theorem allocScan_frame (pool : HevMemoryPool) :
    ∀ k i {index : Nat} {pool' : HevMemoryPool}, allocScan pool k i = some (index, pool') →
      pool'.buffers = pool.buffers ∧ pool'.bufferCount = pool.bufferCount
  | 0, _, _, _, h => by cases h
  | k + 1, i, _, _, h => by
    simp only [allocScan] at h
    by_cases hw : pool.freeBitmap i = 0
    · rw [if_pos hw] at h
      exact allocScan_frame pool k (i + 1) h
    · rw [if_neg hw] at h
      cases h
      exact ⟨rfl, rfl⟩

theorem hevMemoryPoolAlloc_frame (pool : HevMemoryPool) :
    (hevMemoryPoolAlloc pool).2.buffers = pool.buffers ∧
      (hevMemoryPoolAlloc pool).2.bufferCount = pool.bufferCount := by
  unfold hevMemoryPoolAlloc
  split
  · exact ⟨rfl, rfl⟩
  · rename_i hs
    exact allocScan_frame pool _ _ hs

/-- `alloc` returns `NULL` and changes nothing, or the buffer of a new slot,
    not `NULL`, that the client then holds. -/
theorem Alone.alloc (h : Alone pool slots) {buf : Nat} {pool' : HevMemoryPool}
    (ha : hevMemoryPoolAlloc pool = (buf, pool')) :
    buf = 0 ∧ pool' = pool ∨ ∃ index, buf = pool.buffers index ∧ buf ≠ 0 ∧ Alone pool' (slots ++ [index]) := by
  have hrun := h.star (@hevMemoryPoolAlloc_run pool slots 0)
  unfold hevMemoryPoolAlloc at ha
  split at ha
  · cases ha; exact .inl ⟨rfl, rfl⟩
  · rename_i index pool₁ hs
    cases ha
    rw [hs] at hrun
    replace hrun : Alone pool' (slots ++ [index]) := hrun
    have hlt : index < pool.bufferCount :=
      (allocScan_frame pool _ _ hs).2 ▸ hrun.lt (List.mem_append_right _ (List.mem_singleton_self _))
    exact .inr ⟨index, rfl, (h.buffers hlt).1, hrun⟩

/-- `free` of the buffer of a held slot drops the slot. -/
theorem Alone.free (h : Alone pool slots) {j : Nat} (hj : j ∈ slots) :
    Alone (hevMemoryPoolFree pool (pool.buffers j)) (slots.erase j) := by
  have hlt := h.lt hj
  have hlen := h.length_le
  have ha : 0 < pool.allocated := h.allocated ▸ List.length_pos_of_mem hj
  exact h.star (hevMemoryPoolFree_run hj (h.buffers hlt).1 (h.buffers hlt).2 ha
    (by rw [h.allocated]; omega))

theorem hevMemoryPoolFree_frame (pool : HevMemoryPool) (ptr : Nat) :
    (hevMemoryPoolFree pool ptr).buffers = pool.buffers ∧
      (hevMemoryPoolFree pool ptr).bufferCount = pool.bufferCount := by
  unfold hevMemoryPoolFree
  split_ifs
  · exact ⟨rfl, rfl⟩
  · split <;> exact ⟨rfl, rfl⟩

/-- A pool one thread has used is fixed by its count and the slots it
    holds: its bitmap is their complement below the count, `allocated`
    their number. -/
theorem Alone.canonical {pool' : HevMemoryPool} (h : Alone pool slots) (h' : Alone pool' slots)
    (hc : pool'.bufferCount = pool.bufferCount) :
    pool'.freeBitmap = pool.freeBitmap ∧ pool'.allocated = pool.allocated := by
  refine ⟨funext fun i => BitVec.eq_of_getLsbD_eq fun b => ?_, by rw [h.allocated, h'.allocated]⟩
  have e := slot_div_mod i b.2
  have hb := h.bit (i * 32 + b)
  rw [← hc, ← h'.bit] at hb
  simpa only [HevMemoryPool.bit, e] using hb.symm

end Alone

/-! ## First fit -/

/-- A scan that finds no set bit in its `k` words from word `i`: every bit
    of them is clear. -/
theorem allocScan_none (pool : HevMemoryPool) :
    ∀ k i, allocScan pool k i = none → ∀ j, i * 32 ≤ j → j < (i + k) * 32 → pool.bit j = false
  | 0, _, _, _, h₁, h₂ => absurd h₂ (by omega)
  | k + 1, i, h, j, h₁, h₂ => by
    simp only [allocScan] at h
    by_cases hw : pool.freeBitmap i = 0
    · rw [if_pos hw] at h
      by_cases hj : j < (i + 1) * 32
      · -- a bit of word `i`, which is zero
        simp [HevMemoryPool.bit, show j / 32 = i by omega, hw]
      · exact allocScan_none pool k (i + 1) h j (by omega) (by omega)
    · rw [if_neg hw] at h
      cases h

/-- A scan that claims `index` claims a set bit, the lowest from word `i`
    on, and changes only the bitmap, `allocated`, which it raises, and
    `peak_usage`. -/
theorem allocScan_some (pool : HevMemoryPool) :
    ∀ k i {index : Nat} {pool' : HevMemoryPool}, allocScan pool k i = some (index, pool') →
      pool.bit index = true ∧ (∀ j, i * 32 ≤ j → j < index → pool.bit j = false) ∧
        ∃ f p, pool' = { pool with freeBitmap := f, allocated := pool.allocated + 1, peakUsage := p }
  | 0, _, _, _, h => by cases h
  | k + 1, i, _, _, h => by
    simp only [allocScan] at h
    by_cases hw : pool.freeBitmap i = 0
    · rw [if_pos hw] at h
      obtain ⟨hbit, hlow, e⟩ := allocScan_some pool k (i + 1) h
      refine ⟨hbit, fun j h₁ h₂ => ?_, e⟩
      by_cases hj : j < (i + 1) * 32
      · simp [HevMemoryPool.bit, show j / 32 = i by omega, hw]
      · exact hlow j (by omega) h₂
    · rw [if_neg hw] at h
      cases h
      obtain ⟨hlt, hset⟩ := ffs_spec hw
      have e := slot_div_mod i hlt
      refine ⟨by rw [HevMemoryPool.bit, e.1, e.2, hset], fun j h₁ h₂ => ?_, _, _, rfl⟩
      rw [HevMemoryPool.bit, show j / 32 = i by omega]
      exact ffs_lowest (by omega)

/-- `free` changes only the bitmap and `allocated`. -/
theorem hevMemoryPoolFree_eq (pool : HevMemoryPool) (ptr : Nat) :
    ∃ f a, hevMemoryPoolFree pool ptr = { pool with freeBitmap := f, allocated := a } := by
  unfold hevMemoryPoolFree
  split_ifs
  · exact ⟨_, _, rfl⟩
  · split <;> exact ⟨_, _, rfl⟩

section FirstFit

variable {pool : HevMemoryPool} {slots : List Nat}

theorem Alone.allocScan (h : Alone pool slots) {index : Nat} {pool' : HevMemoryPool}
    (hs : allocScan pool (bitmapSize pool.bufferCount) 0 = some (index, pool')) :
    Alone pool' (slots ++ [index]) := by
  have hrun := h.star (@hevMemoryPoolAlloc_run pool slots 0)
  rwa [hs] at hrun

/-- Run alone, `hev_memory_pool_alloc` is first fit: it returns `NULL`
    exactly when every slot below the count is held, and otherwise the
    buffer of the lowest slot not held, which the thread then holds. -/
theorem alloc_first_fit (h : Alone pool slots) :
    ((hevMemoryPoolAlloc pool).1 = 0 ↔ ∀ j < pool.bufferCount, j ∈ slots) ∧
    ∀ index < pool.bufferCount, index ∉ slots → (∀ j < index, j ∈ slots) →
      (hevMemoryPoolAlloc pool).1 = pool.buffers index ∧
        Alone (hevMemoryPoolAlloc pool).2 (slots ++ [index]) := by
  rw [hevMemoryPoolAlloc]
  cases hs : allocScan pool (bitmapSize pool.bufferCount) 0 with
  | none =>
    -- no bit set below the count: every slot is held
    have hheld : ∀ j < pool.bufferCount, j ∈ slots := fun j hj => by
      have hb := allocScan_none pool _ 0 hs j (Nat.zero_le _) (by unfold bitmapSize; omega)
      rw [h.bit] at hb
      simpa [hj] using hb
    exact ⟨iff_of_true rfl hheld, fun index hi hn _ => absurd (hheld index hi) hn⟩
  | some r =>
    obtain ⟨idx, pool'⟩ := r
    obtain ⟨hbit, hlow, -⟩ := allocScan_some pool _ 0 hs
    rw [h.bit, decide_eq_true_iff] at hbit
    -- the claimed slot is free, and every slot below it is held
    have hmin : ∀ j < idx, j ∈ slots := fun j hj => by
      have hb := hlow j (Nat.zero_le _) hj
      rw [h.bit] at hb
      simpa [show j < pool.bufferCount by omega] using hb
    refine ⟨iff_of_false (h.buffers hbit.1).1 fun hall => hbit.2 (hall idx hbit.1),
      fun index hi hn hlow' => ?_⟩
    obtain rfl : index = idx :=
      le_antisymm (not_lt.1 fun hlt => hbit.2 (hlow' idx hlt)) (not_lt.1 fun hlt => hn (hmin index hlt))
    exact ⟨rfl, h.allocScan hs⟩

/-- Run alone, `hev_memory_pool_free` of the buffer `hev_memory_pool_alloc`
    returned undoes the `alloc`: the pool is as before, but for
    `peak_usage`, which `free` never lowers. -/
theorem alloc_free_round_trip (h : Alone pool slots) :
    hevMemoryPoolFree (hevMemoryPoolAlloc pool).2 (hevMemoryPoolAlloc pool).1 =
      { pool with peakUsage := (hevMemoryPoolAlloc pool).2.peakUsage } := by
  rw [hevMemoryPoolAlloc]
  cases hs : allocScan pool (bitmapSize pool.bufferCount) 0 with
  | none => exact if_pos rfl
  | some r =>
    obtain ⟨index, pool'⟩ := r
    obtain ⟨hbit, -, f, p, e⟩ := allocScan_some pool _ 0 hs
    rw [h.bit, decide_eq_true_iff] at hbit
    have hbuf : pool'.buffers = pool.buffers := by rw [e]
    -- `free` finds the slot and drops it: the thread holds `slots` again
    have h' := (h.allocScan hs).free (List.mem_append_right _ (List.mem_singleton_self index))
    rw [List.erase_append_right _ hbit.2, List.erase_cons_head, List.append_nil, hbuf] at h'
    obtain ⟨f', a', hq⟩ := hevMemoryPoolFree_eq pool' (pool.buffers index)
    rw [hq] at h' ⊢
    -- and a pool is fixed by the slots held
    obtain ⟨rfl, rfl⟩ : f' = pool.freeBitmap ∧ a' = pool.allocated := h.canonical h' (by rw [e])
    subst e
    rfl

/-- `hev_memory_pool_new (64, 1)` with its buffer at address `1`, as one
    thread finds it. -/
theorem alone_one : Alone twoClients.pool [] :=
  alone_new (fun _ _ hi hj _ => by omega) (rfl : hevMemoryPoolNew 64 1 (fun _ => 1) = some _)

theorem alloc_first_fit_one :
    Alone twoClients.pool [] ∧ (hevMemoryPoolAlloc twoClients.pool).1 = twoClients.pool.buffers 0 :=
  ⟨alone_one, ((alloc_first_fit alone_one).2 0 (by decide) (List.not_mem_nil _)
    fun _ hj => absurd hj (Nat.not_lt_zero _)).1⟩

theorem alloc_free_round_trip_one :
    Alone twoClients.pool [] ∧
      hevMemoryPoolFree (hevMemoryPoolAlloc twoClients.pool).2 (hevMemoryPoolAlloc twoClients.pool).1 =
        { twoClients.pool with peakUsage := (hevMemoryPoolAlloc twoClients.pool).2.peakUsage } :=
  ⟨alone_one, alloc_free_round_trip alone_one⟩

end FirstFit

end HevTunnel.MemoryPool
