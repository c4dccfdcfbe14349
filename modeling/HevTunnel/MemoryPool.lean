import HevTunnel.System
import Mathlib

/-!
# The bitmap buffer pool

`hev-memory-pool.c`: `n ≤ POOL_MAX_BUFFERS = 2048` pre-allocated buffers and a
bitmap of 64 words of 32 bits, a set bit marking a free slot. `alloc` scans
the words, claims the lowest set bit of a word by a compare-and-swap, then
counts the allocation (`allocated`) and raises `peak_usage` by a CAS loop;
`free` finds the slot of a pointer, sets its bit back (`fetch_or`) and then
decrements `allocated` (`fetch_sub`).

Any number of client threads run `alloc` and `free` concurrently, every CAS,
`fetch_add`, `fetch_sub`, `fetch_or` and load being one step (`clientStep`); a
weak CAS may also fail spuriously. A client frees only a buffer it holds, and
each once. The clients are a multiset: which thread does what does not
matter, only what each holds.

Proved of every interleaving (`system.Reachable`):

* `buffer_pool_exclusive`: the bit of every slot and the clients holding it
  add up to one for a slot below `n`, and to zero above: no buffer is held by
  two clients, a slot's bit is clear exactly when a client holds it, and no
  bit at or past `n` is ever set, so `alloc` never returns a slot past `n`;
* `quiescent_counters`: `allocated` counts the clients' allocations and stays
  below `peak_usage` or below what a client is about to raise it to; so at a
  quiescent point `popcount + allocated = n` and `allocated ≤ peak_usage`,
  and `peak_usage` never decreases.

The order of the steps in `free` (the bit set before the counter drops) lets
an `alloc` count a slot that is still counted by the `free`:
`peak_usage` can exceed `n` (`peak_exceeds_count`).
-/

namespace HevTunnel.MemoryPool

/-- `POOL_MAX_BUFFERS`. -/
def poolMaxBuffers : Nat := 2048

/-- `HevMemoryPool`. `buffers` are the pointers of the slots (`0` for `NULL`),
    `freeBitmap` the 64 words of `free_bitmap`. -/
structure HevMemoryPool where
  buffers : Nat → Nat
  freeBitmap : Nat → BitVec 32
  bufferSize : Nat
  bufferCount : Nat
  allocated : Nat
  peakUsage : Nat

/-- The number of words of the bitmap that hold the `count` slots. -/
def bitmapSize (count : Nat) : Nat := (count + 31) / 32

/-- The initial word `i` of the bitmap of `count` slots: all ones, except a
    partial last word, and zero (from `memset`) past the last word. -/
def initialWord (count i : Nat) : BitVec 32 :=
  if i < bitmapSize count then
    if i = bitmapSize count - 1 ∧ count - i * 32 < 32 then (1#32 <<< (count - i * 32)) - 1#32
    else 0xFFFFFFFF#32
  else 0

/-- The count `hev_memory_pool_new` keeps: at most `POOL_MAX_BUFFERS`. -/
def clampCount (bufferCount : Nat) : Nat :=
  if bufferCount > poolMaxBuffers then poolMaxBuffers else bufferCount

/-- `hev_memory_pool_new`, given the pointers `alignedAlloc i` that
    `aligned_alloc` returns for the buffers: `NULL` if one of them is. -/
def hevMemoryPoolNew (bufferSize bufferCount : Nat) (alignedAlloc : Nat → Nat) :
    Option HevMemoryPool :=
  if (List.range (clampCount bufferCount)).any (alignedAlloc · == 0) then none
  else some
    { buffers := fun i => if i < clampCount bufferCount then alignedAlloc i else 0
      freeBitmap := initialWord (clampCount bufferCount)
      bufferSize := bufferSize
      bufferCount := clampCount bufferCount
      allocated := 0
      peakUsage := 0 }

/-- The free bit of the slot `index`: bit `index % 32` of word `index / 32`. -/
def HevMemoryPool.bit (pool : HevMemoryPool) (index : Nat) : Bool :=
  (pool.freeBitmap (index / 32)).getLsbD (index % 32)

/-- `__builtin_ffs`: one more than the position of the lowest set bit, `0`
    for `0`. -/
def ffs (x : BitVec 32) : Nat :=
  (((List.range 32).find? fun b => x.getLsbD b).map (· + 1)).getD 0

/-- The search of `hev_memory_pool_free` for the slot of `ptr`: the first
    `i < buffer_count` with `buffers[i] == ptr`. -/
def findIndex (pool : HevMemoryPool) (ptr : Nat) : Option Nat :=
  (List.range pool.bufferCount).find? fun i => pool.buffers i == ptr

/-- The `atomic_fetch_or` of `hev_memory_pool_free`: set the bit of `index`. -/
def HevMemoryPool.setBit (pool : HevMemoryPool) (index : Nat) : HevMemoryPool :=
  let word := pool.freeBitmap (index / 32) ||| 1#32 <<< (index % 32)
  { pool with freeBitmap := Function.update pool.freeBitmap (index / 32) word }

/-- `hev_memory_pool_free` run alone: find the slot, set its bit, decrement
    the `size_t` counter `allocated` (wrapping below zero); nothing for `NULL`
    or a pointer of no slot. -/
def hevMemoryPoolFree (pool : HevMemoryPool) (ptr : Nat) : HevMemoryPool :=
  if ptr = 0 then pool
  else match findIndex pool ptr with
    | none => pool
    | some index => { pool.setBit index with allocated := (pool.allocated + 2 ^ 64 - 1) % 2 ^ 64 }

/-- `hev_memory_pool_get_stats`: `allocated` and `peak_usage`. -/
def hevMemoryPoolGetStats (pool : HevMemoryPool) : Nat × Nat :=
  (pool.allocated, pool.peakUsage)

/-! ## Clients -/

/-- Where a client is in a call of `alloc` or `free`, with its locals. -/
inductive Pc
  | idle
  /-- `alloc`: next, load word `i`, or return `NULL` past the last word. -/
  | scan (i : Nat)
  /-- `alloc`: word `i` loaded as `bitmap`; next, the next word if it is `0`,
      else the CAS clearing its lowest set bit. -/
  | claim (i : Nat) (bitmap : BitVec 32)
  /-- `alloc`: the slot `index` claimed; next, `fetch_add` on `allocated`. -/
  | count (index : Nat)
  /-- `alloc`: `allocated` raised to `allocated`; next, load `peak_usage`. -/
  | loadPeak (index allocated : Nat)
  /-- `alloc`: the loop raising `peak_usage` from `peak` to `allocated`. -/
  | raisePeak (index allocated peak : Nat)
  /-- `free`: the slot `index` found; next, `fetch_or` its bit. -/
  | release (index : Nat)
  /-- `free`: next, `fetch_sub` on `allocated`. -/
  | uncount
  deriving DecidableEq

/-- A client thread: the slots of the buffers it holds, and where it is. -/
structure Client where
  held : List Nat
  pc : Pc
  deriving DecidableEq

/-- What a client does next: call `alloc`, call `free` on the buffer of a
    slot it holds, or take the next step of its call (`spurious` making a
    weak CAS fail although the word is as expected). -/
inductive Action
  | alloc
  | free (index : Nat)
  | step (spurious : Bool)

/-- One step of a client. -/
def clientStep (pool : HevMemoryPool) (c : Client) : Action → Option (HevMemoryPool × Client)
  | .alloc => match c.pc with
    | .idle => some (pool, { c with pc := .scan 0 })
    | _ => none
  | .free index => match c.pc with
    | .idle =>
      if index ∈ c.held then
        let ptr := pool.buffers index
        let held := c.held.erase index
        if ptr = 0 then some (pool, { c with held := held })
        else match findIndex pool ptr with
          | none => some (pool, { c with held := held })
          | some i => some (pool, ⟨held, .release i⟩)
      else none
    | _ => none
  | .step spurious => match c.pc with
    | .idle => none
    | .scan i =>
      if i < bitmapSize pool.bufferCount then some (pool, { c with pc := .claim i (pool.freeBitmap i) })
      else some (pool, { c with pc := .idle })
    | .claim i bitmap =>
      if bitmap = 0 then some (pool, { c with pc := .scan (i + 1) })
      else
        let bit := ffs bitmap - 1
        let desired := bitmap &&& ~~~(1#32 <<< bit)
        if pool.freeBitmap i = bitmap ∧ spurious = false then
          some ({ pool with freeBitmap := Function.update pool.freeBitmap i desired },
                { c with pc := .count (i * 32 + bit) })
        else some (pool, { c with pc := .scan i })
    | .count index =>
      some ({ pool with allocated := pool.allocated + 1 },
            { c with pc := .loadPeak index (pool.allocated + 1) })
    | .loadPeak index allocated =>
      some (pool, { c with pc := .raisePeak index allocated pool.peakUsage })
    | .raisePeak index allocated peak =>
      if allocated > peak then
        if pool.peakUsage = peak ∧ spurious = false then
          some ({ pool with peakUsage := allocated }, ⟨c.held ++ [index], .idle⟩)
        else some (pool, { c with pc := .raisePeak index allocated pool.peakUsage })
      else some (pool, ⟨c.held ++ [index], .idle⟩)
    | .release index => some (pool.setBit index, { c with pc := .uncount })
    | .uncount => some ({ pool with allocated := pool.allocated - 1 }, { c with pc := .idle })

/-- The pool and its clients. -/
structure State where
  pool : HevMemoryPool
  clients : Multiset Client

/-- A pool from `hev_memory_pool_new`, its buffers distinct pointers as
    `aligned_alloc` returns them, and `k` idle clients holding nothing; a step
    is one step of one client. -/
def system : System State where
  init s := ∃ size count alignedAlloc k,
    (∀ i j, i < count → j < count → alignedAlloc i = alignedAlloc j → i = j) ∧
    hevMemoryPoolNew size count alignedAlloc = some s.pool ∧
    s.clients = Multiset.replicate k ⟨[], .idle⟩
  step s s' := ∃ c ∈ s.clients, ∃ a pool' c', clientStep s.pool c a = some (pool', c') ∧
    s' = ⟨pool', c' ::ₘ s.clients.erase c⟩

/-! ## Bits -/

theorem getLsbD_one_shiftLeft (b j : Nat) :
    (1#32 <<< b).getLsbD j = decide (j < 32 ∧ j = b) := by
  simp only [BitVec.getLsbD_shiftLeft, BitVec.getLsbD_one]
  by_cases h : j = b
  · simp [h]
  · simp [h]; omega

/-- The CAS of `alloc` clears exactly the bit `b` of the word. -/
theorem getLsbD_clear (x : BitVec 32) (b j : Nat) :
    (x &&& ~~~(1#32 <<< b)).getLsbD j = (x.getLsbD j && j != b) := by
  rw [BitVec.getLsbD_and, BitVec.getLsbD_not, getLsbD_one_shiftLeft]
  by_cases hj : j < 32
  · by_cases h : j = b <;> simp [h, hj]
  · simp [BitVec.getLsbD_ge x j (by omega)]

/-- The `fetch_or` of `free` sets exactly the bit `b` of the word. -/
theorem getLsbD_set (x : BitVec 32) {b : Nat} (hb : b < 32) (j : Nat) :
    (x ||| 1#32 <<< b).getLsbD j = (x.getLsbD j || j == b) := by
  rw [BitVec.getLsbD_or, getLsbD_one_shiftLeft]
  by_cases h : j = b <;> simp [h, hb]

/-- `__builtin_ffs` of a nonzero word names one of its set bits. -/
theorem ffs_spec {x : BitVec 32} (hx : x ≠ 0) : ffs x - 1 < 32 ∧ x.getLsbD (ffs x - 1) := by
  unfold ffs
  cases h : (List.range 32).find? fun b => x.getLsbD b with
  | none =>
    refine absurd (BitVec.eq_of_getLsbD_eq fun i => ?_) hx
    have := List.find?_eq_none.1 h i (List.mem_range.2 i.2)
    simpa using this
  | some b =>
    exact ⟨List.mem_range.1 (List.mem_of_find?_eq_some h), List.find?_some h⟩

/-- ... and no bit below it is set. -/
theorem ffs_lowest {x : BitVec 32} {b : Nat} (hb : b < ffs x - 1) : x.getLsbD b = false := by
  unfold ffs at hb
  cases h : (List.range 32).find? fun b => x.getLsbD b with
  | none => simp [h] at hb
  | some c =>
    rw [h] at hb
    simpa using (List.find?_range_eq_some.1 h).2.2 b (by simpa using hb)

/-- The partial last word `(1U << r) - 1` has the bits below `r` set. -/
theorem getLsbD_low_mask {r : Nat} (hr : r < 32) (k : Nat) :
    ((1#32 <<< r) - 1#32).getLsbD k = decide (k < r) := by
  have h₁ : 2 ^ r < 2 ^ 32 := Nat.pow_lt_pow_right (by decide) hr
  have h₂ : 1 ≤ 2 ^ r := Nat.one_le_two_pow
  have : ((1#32 <<< r) - 1#32).toNat = 2 ^ r - 1 := by
    rw [BitVec.toNat_sub, BitVec.toNat_shiftLeft]
    simp only [BitVec.toNat_ofNat, Nat.one_mod_two_pow (by decide : 0 < 32), Nat.one_shiftLeft]
    generalize 2 ^ r = x at *
    omega
  rw [BitVec.getLsbD, this, Nat.testBit_two_pow_sub_one]

/-- `hev_memory_pool_new` sets exactly the bits of the slots below the count. -/
theorem getLsbD_initialWord (count j : Nat) :
    (initialWord count (j / 32)).getLsbD (j % 32) = decide (j < count) := by
  unfold initialWord bitmapSize
  split_ifs with h₁ h₂
  · rw [getLsbD_low_mask h₂.2]; simp only [decide_eq_decide]; omega
  · rw [show (0xFFFFFFFF#32) = BitVec.allOnes 32 by decide, BitVec.getLsbD_allOnes]
    simp only [decide_eq_decide]; omega
  · simp only [Bool.false_eq, decide_eq_false_iff_not, show (0 : BitVec 32).getLsbD (j % 32) = false from
      BitVec.getLsbD_zero]; omega

theorem bit_update (pool : HevMemoryPool) (i : Nat) (x : BitVec 32) (j : Nat) :
    { pool with freeBitmap := Function.update pool.freeBitmap i x }.bit j =
      if j / 32 = i then x.getLsbD (j % 32) else pool.bit j := by
  by_cases h : j / 32 = i
  · subst h; simp [HevMemoryPool.bit]
  · simp [HevMemoryPool.bit, h, Function.update_noteq h]

theorem bit_setBit (pool : HevMemoryPool) (index j : Nat) :
    (pool.setBit index).bit j = (pool.bit j || j == index) := by
  rw [HevMemoryPool.setBit, bit_update]
  split_ifs with h
  · have e : (j % 32 == index % 32) = (j == index) := by
      rw [Bool.eq_iff_iff, beq_iff_eq, beq_iff_eq]; constructor <;> intro <;> omega
    rw [getLsbD_set _ (Nat.mod_lt _ (by decide)), e, HevMemoryPool.bit, h]
  · have e : j ≠ index := fun e => h (e ▸ rfl)
    simp [e]

/-! ## Who holds a slot -/

/-- The slot of a call that claimed it and has not returned it, or that is
    releasing it. -/
def Pc.slot : Pc → Option Nat
  | .count i | .loadPeak i _ | .raisePeak i _ _ | .release i => some i
  | _ => none

/-- How many times a client holds the slot `j`: among its buffers, and as
    the slot of its call. -/
def Client.holds (c : Client) (j : Nat) : Nat :=
  c.held.count j + if c.pc.slot = some j then 1 else 0

/-- `1` for a free slot, `0` for a claimed one. -/
def HevMemoryPool.freeCount (pool : HevMemoryPool) (j : Nat) : Nat :=
  if pool.bit j then 1 else 0

/-- The number of holds of the slot `j` among the clients. -/
def holders (clients : Multiset Client) (j : Nat) : Nat := (clients.map (·.holds j)).sum

/-- The allocations a client has counted in `allocated`: its buffers, and
    the slot of its call from the `fetch_add` of `alloc` to the `fetch_sub`
    of `free`. -/
def Client.counted (c : Client) : Nat :=
  c.held.length + match c.pc with
    | .loadPeak .. | .raisePeak .. | .release _ | .uncount => 1
    | _ => 0

/-- The value a client is about to raise `peak_usage` to. -/
def Client.pending (c : Client) : Nat :=
  match c.pc with
  | .loadPeak _ a | .raisePeak _ a _ => a
  | _ => 0

/-- The value of `peak_usage` a client last loaded, in its CAS loop. -/
def Client.stale (c : Client) : Nat :=
  match c.pc with
  | .raisePeak _ _ p => p
  | _ => 0

/-- What one step of a client changes: the buffers stay, the free bits and
    the holds of every slot add up the same, `allocated` moves with the
    client's count, and `peak_usage` only grows, staying above `allocated`
    unless a client is about to raise it. -/
structure Effect (pool : HevMemoryPool) (c : Client) (pool' : HevMemoryPool) (c' : Client) :
    Prop where
  buffers : pool'.buffers = pool.buffers
  bufferCount : pool'.bufferCount = pool.bufferCount
  slots : ∀ j, pool'.freeCount j + c'.holds j = pool.freeCount j + c.holds j
  counted : pool'.allocated + c.counted = pool.allocated + c'.counted
  peak_mono : pool.peakUsage ≤ pool'.peakUsage
  stale : c.stale ≤ pool.peakUsage → c'.stale ≤ pool'.peakUsage
  peak : ∀ r, c.stale ≤ pool.peakUsage → pool.allocated ≤ max pool.peakUsage (max c.pending r) →
    pool'.allocated ≤ max pool'.peakUsage (max c'.pending r)

/-- The slot of bit `b` of word `i`. -/
theorem slot_div_mod (i : Nat) {b : Nat} (hb : b < 32) : (i * 32 + b) / 32 = i ∧ (i * 32 + b) % 32 = b := by
  omega

/-- The CAS of `alloc` on word `i`, found as `w`, clears exactly the bit of
    the slot `i * 32 + b`. -/
theorem bit_claim (pool : HevMemoryPool) {i b : Nat} {w : BitVec 32}
    (hw : pool.freeBitmap i = w) (hb : b < 32) (j : Nat) :
    { pool with freeBitmap := Function.update pool.freeBitmap i (w &&& ~~~(1#32 <<< b)) }.bit j =
      (pool.bit j && j != i * 32 + b) := by
  rw [bit_update]
  split_ifs with h
  · have e : (j % 32 != b) = (j != i * 32 + b) := by
      rw [Bool.eq_iff_iff, bne_iff_ne, bne_iff_ne]; constructor <;> intro <;> omega
    rw [getLsbD_clear, ← hw, e, HevMemoryPool.bit, h]
  · have e : j ≠ i * 32 + b := by omega
    simp [e]

section Effect

variable {pool pool' : HevMemoryPool} {c c' : Client}

/-- Everything one step of a client does, given what its holds guarantee: a
    slot it releases is claimed, a slot it frees is found, and it has counted
    no more than `allocated`. -/
theorem clientStep_effect {a : Action} (h : clientStep pool c a = some (pool', c'))
    (hrel : ∀ i, c.pc = .release i → pool.bit i = false)
    (hheld : ∀ i ∈ c.held, pool.buffers i ≠ 0 ∧ findIndex pool (pool.buffers i) = some i)
    (hcount : c.counted ≤ pool.allocated) : Effect pool c pool' c' := by
  obtain ⟨held, pc⟩ := c
  cases a with
  | alloc =>
    cases pc <;> simp only [clientStep, Option.some.injEq, Prod.mk.injEq, reduceCtorEq] at h
    obtain ⟨rfl, rfl⟩ := h
    exact ⟨rfl, rfl, fun j => rfl, rfl, le_rfl, id, fun _ _ h => h⟩
  | free index =>
    cases pc <;> simp only [clientStep, reduceCtorEq] at h
    split_ifs at h with hi hz
    · exact absurd hz (hheld index hi).1
    rw [(hheld index hi).2] at h
    obtain ⟨rfl, rfl⟩ := Prod.mk.inj (Option.some.inj h)
    refine ⟨rfl, rfl, fun j => ?_, ?_, le_rfl, id, fun _ _ h => h⟩
    · -- the freed slot moves from the buffers to the call
      simp only [Client.holds, Pc.slot, Option.some.injEq, reduceCtorEq, if_false, Nat.add_zero]
      by_cases hj : j = index
      · subst hj
        have := List.count_pos_iff.2 hi
        rw [List.count_erase_self, if_pos rfl]; omega
      · rw [List.count_erase_of_ne hj, if_neg (Ne.symm hj), Nat.add_zero]
    · simp only [Client.counted, List.length_erase_of_mem hi]
      have := List.length_pos_of_mem hi
      omega
  | step spurious =>
    cases pc with
    | idle => cases h
    | scan i =>
      simp only [clientStep] at h
      split_ifs at h <;> obtain ⟨rfl, rfl⟩ := Prod.mk.inj (Option.some.inj h) <;>
        exact ⟨rfl, rfl, fun j => rfl, rfl, le_rfl, id, fun _ _ h => h⟩
    | claim i w =>
      simp only [clientStep] at h
      split_ifs at h with hw hcas
      · obtain ⟨rfl, rfl⟩ := Prod.mk.inj (Option.some.inj h)
        exact ⟨rfl, rfl, fun j => rfl, rfl, le_rfl, id, fun _ _ h => h⟩
      · obtain ⟨rfl, rfl⟩ := Prod.mk.inj (Option.some.inj h)
        obtain ⟨hb, hset⟩ := ffs_spec hw
        refine ⟨rfl, rfl, fun j => ?_, rfl, le_rfl, id, fun _ _ h => h⟩
        simp only [HevMemoryPool.freeCount, bit_claim pool hcas.1 hb, Client.holds, Pc.slot,
          Option.some.injEq, reduceCtorEq, if_false]
        have hbit : pool.bit (i * 32 + (ffs w - 1)) = true := by
          rw [HevMemoryPool.bit, (slot_div_mod i hb).1, (slot_div_mod i hb).2, hcas.1]
          exact hset
        by_cases hj : j = i * 32 + (ffs w - 1)
        · subst hj; simp [hbit]; omega
        · simp [hj, Ne.symm hj]
      · obtain ⟨rfl, rfl⟩ := Prod.mk.inj (Option.some.inj h)
        exact ⟨rfl, rfl, fun j => rfl, rfl, le_rfl, id, fun _ _ h => h⟩
    | count index =>
      obtain ⟨rfl, rfl⟩ := Prod.mk.inj (Option.some.inj h)
      refine ⟨rfl, rfl, fun j => rfl, ?_, le_rfl, id, fun r _ _ => ?_⟩
      · simp only [Client.counted]; omega
      · simp only [Client.pending]; omega
    | loadPeak index a =>
      obtain ⟨rfl, rfl⟩ := Prod.mk.inj (Option.some.inj h)
      exact ⟨rfl, rfl, fun j => rfl, rfl, le_rfl, fun _ => le_rfl, fun _ _ h => h⟩
    | raisePeak index a p =>
      simp only [clientStep] at h
      split_ifs at h with hgt hcas
      · obtain ⟨rfl, rfl⟩ := Prod.mk.inj (Option.some.inj h)
        refine ⟨rfl, rfl, fun j => ?_, ?_, Nat.le_of_lt (hcas.1 ▸ hgt), fun _ => Nat.zero_le _,
          fun r _ h => ?_⟩
        · simp [Client.holds, Pc.slot, List.count_append, List.count_singleton,
            HevMemoryPool.freeCount, HevMemoryPool.bit]
        · simp [Client.counted]
        · simp only [Client.pending] at h ⊢; omega
      · obtain ⟨rfl, rfl⟩ := Prod.mk.inj (Option.some.inj h)
        exact ⟨rfl, rfl, fun j => rfl, rfl, le_rfl, fun _ => le_rfl, fun _ _ h => h⟩
      · obtain ⟨rfl, rfl⟩ := Prod.mk.inj (Option.some.inj h)
        refine ⟨rfl, rfl, fun j => ?_, ?_, le_rfl, fun _ => Nat.zero_le _, fun r hs h => ?_⟩
        · simp [Client.holds, Pc.slot, List.count_append, List.count_singleton]
        · simp [Client.counted]
        · simp only [Client.pending, Client.stale] at h hs ⊢; omega
    | release index =>
      obtain ⟨rfl, rfl⟩ := Prod.mk.inj (Option.some.inj h)
      refine ⟨rfl, rfl, fun j => ?_, rfl, le_rfl, id, fun _ _ h => h⟩
      have hb := hrel index rfl
      simp only [HevMemoryPool.freeCount, bit_setBit, Client.holds, Pc.slot]
      by_cases hj : j = index
      · subst hj; simp [hb, Nat.add_comm]
      · simp [hj, Ne.symm hj]
    | uncount =>
      obtain ⟨rfl, rfl⟩ := Prod.mk.inj (Option.some.inj h)
      refine ⟨rfl, rfl, fun j => rfl, ?_, le_rfl, id, fun r _ h => ?_⟩
      · simp only [Client.counted] at hcount ⊢; omega
      · simp only [Client.pending] at h ⊢; omega

end Effect

/-! ## Every interleaving -/

/-- The invariant of the pool: at most `POOL_MAX_BUFFERS` slots, each with a
    distinct buffer that `free` finds; every slot free or held once, and none
    past the count; `allocated` the clients' counted allocations; and
    `peak_usage` above every stale copy of it and above `allocated`, unless a
    client is about to raise it. -/
structure Inv (s : State) : Prop where
  count_le : s.pool.bufferCount ≤ poolMaxBuffers
  buffers : ∀ i < s.pool.bufferCount,
    s.pool.buffers i ≠ 0 ∧ findIndex s.pool (s.pool.buffers i) = some i
  slots : ∀ j, s.pool.freeCount j + holders s.clients j =
    if j < s.pool.bufferCount then 1 else 0
  counted : s.pool.allocated = (s.clients.map Client.counted).sum
  stale : ∀ c ∈ s.clients, c.stale ≤ s.pool.peakUsage
  peak : s.pool.allocated ≤ max s.pool.peakUsage (s.clients.map Client.pending).sup

/-- `free` finds the slot of a buffer, the buffers being distinct. -/
theorem findIndex_buffers {pool : HevMemoryPool}
    (hinj : ∀ i j, i < pool.bufferCount → j < pool.bufferCount → pool.buffers i = pool.buffers j → i = j)
    {i : Nat} (hi : i < pool.bufferCount) : findIndex pool (pool.buffers i) = some i := by
  unfold findIndex
  cases h : (List.range pool.bufferCount).find? fun k => pool.buffers k == pool.buffers i with
  | none => exact absurd (List.find?_eq_none.1 h i (List.mem_range.2 hi)) (by simp)
  | some k =>
    have hk := List.mem_range.1 (List.mem_of_find?_eq_some h)
    exact congrArg some (hinj k i hk hi (by simpa using List.find?_some h))

theorem inv_init {s : State} (h : system.init s) : Inv s := by
  obtain ⟨pool, clients⟩ := s
  obtain ⟨size, count, alignedAlloc, k, hinj, hnew, hcl⟩ := h
  unfold hevMemoryPoolNew at hnew
  split_ifs at hnew with hnull
  cases hnew
  dsimp only at hcl
  simp only [List.any_eq_true, List.mem_range, beq_iff_eq, not_exists, not_and] at hnull
  have hlt : ∀ i, i < clampCount count → i < count := by
    intro i hi; unfold clampCount at hi; split_ifs at hi <;> omega
  refine ⟨show clampCount count ≤ 2048 by unfold clampCount poolMaxBuffers; split_ifs <;> omega,
    fun i hi => ?_,
    fun j => ?_, ?_, ?_, ?_⟩
  · refine ⟨by simp only [hi, if_true]; exact hnull i hi, findIndex_buffers ?_ hi⟩
    intro a b ha hb e
    simp only [ha, hb, if_true] at e
    exact hinj a b (hlt a ha) (hlt b hb) e
  · simp [hcl, holders, Client.holds, Pc.slot, HevMemoryPool.freeCount, HevMemoryPool.bit,
      getLsbD_initialWord]
  · simp [hcl, Client.counted]
  · intro c hc
    rw [hcl, Multiset.mem_replicate] at hc
    rw [hc.2]; exact le_rfl
  · simp [hcl, Client.pending]

variable {s s' : State}

/-- The holds of one client are among all the holds. -/
theorem holds_le_holders {c : Client} (hc : c ∈ s.clients) (j : Nat) :
    c.holds j ≤ holders s.clients j := by
  rw [holders, ← Multiset.sum_map_erase hc]; omega

/-- A held slot lies below the capacity. -/
theorem held_lt (hi : Inv s) {c : Client} (hc : c ∈ s.clients) {j : Nat} (hj : j ∈ c.held) :
    j < s.pool.bufferCount := by
  have h₁ := holds_le_holders hc j
  have h₂ := hi.slots j
  have h₃ : 0 < c.holds j := Nat.add_pos_left (List.count_pos_iff.2 hj) _
  split_ifs at h₂ with hlt
  · exact hlt
  · omega

/-- What a step of a client from a state of the invariant does. -/
theorem inv_effect (hi : Inv s) {c : Client} (hc : c ∈ s.clients) {a : Action}
    {pool' : HevMemoryPool} {c' : Client} (hstep : clientStep s.pool c a = some (pool', c')) :
    Effect s.pool c pool' c' := by
  have hrel : ∀ i, c.pc = .release i → s.pool.bit i = false := by
    intro i hpc
    have h₁ := holds_le_holders hc i
    have h₂ := hi.slots i
    simp only [Client.holds, hpc, Pc.slot, if_true, HevMemoryPool.freeCount] at h₁ h₂
    by_contra hb
    rw [if_pos (Bool.not_eq_false _ ▸ hb)] at h₂
    split_ifs at h₂ <;> omega
  have hheld : ∀ i ∈ c.held, s.pool.buffers i ≠ 0 ∧ findIndex s.pool (s.pool.buffers i) = some i :=
    fun i hmem => hi.buffers i (held_lt hi hc hmem)
  have hcount : c.counted ≤ s.pool.allocated := by
    rw [hi.counted, ← Multiset.sum_map_erase hc]; omega
  exact clientStep_effect hstep hrel hheld hcount

/-- Every step keeps the invariant. -/
theorem inv_step (hi : Inv s) (h : system.step s s') : Inv s' := by
  obtain ⟨c, hc, a, pool', c', hstep, rfl⟩ := h
  have e := inv_effect hi hc hstep
  have hsum : ∀ (f : Client → Nat), (s.clients.map f).sum = f c + ((s.clients.erase c).map f).sum :=
    fun f => (Multiset.sum_map_erase hc).symm
  have hsup : ∀ (f : Client → Nat), (s.clients.map f).sup = f c ⊔ ((s.clients.erase c).map f).sup :=
    fun f => by rw [← Multiset.sup_cons, ← Multiset.map_cons, Multiset.cons_erase hc]
  refine ⟨e.bufferCount ▸ hi.count_le, fun i hlt => ?_, fun j => ?_, ?_, ?_, ?_⟩
  · rw [e.bufferCount] at hlt
    have hf : findIndex pool' = findIndex s.pool := by
      funext ptr; simp only [findIndex, e.buffers, e.bufferCount]
    rw [hf, e.buffers]
    exact hi.buffers i hlt
  · have h₁ := hi.slots j
    have h₂ := e.slots j
    rw [holders, hsum] at h₁
    simp only [holders, Multiset.map_cons, Multiset.sum_cons, e.bufferCount]
    omega
  · have h₁ := hi.counted
    have h₂ := e.counted
    rw [hsum] at h₁
    simp only [Multiset.map_cons, Multiset.sum_cons]
    omega
  · intro x hx
    rcases Multiset.mem_cons.1 hx with rfl | hx
    · exact e.stale (hi.stale c hc)
    · exact (hi.stale x (Multiset.mem_of_mem_erase hx)).trans e.peak_mono
  · have h₁ := hi.peak
    rw [hsup] at h₁
    simp only [Multiset.map_cons, Multiset.sup_cons]
    exact e.peak _ (hi.stale c hc) h₁

/-- The invariant holds under every interleaving. -/
theorem reachable_inv (hs : system.Reachable s) : Inv s :=
  System.reachable_induction (fun _ h => inv_init h) (fun _ _ _ hi h => inv_step hi h) hs

/-! ## Exclusivity -/

/-- Buffer-pool exclusivity, under every interleaving of any number of
    clients running `alloc` and `free`, each freeing only what it holds:
    the pool has at most `2048` slots, and

    1. no buffer is held by two clients at once (nor twice by one);
    2. the bit of a slot `i < n` is clear exactly when a client holds it;
    3. no bit at or past `n` is set, and no client holds such a slot: `alloc`
       only returns `buffers[i]` with `i < n`. -/
theorem buffer_pool_exclusive (hs : system.Reachable s) :
    s.pool.bufferCount ≤ poolMaxBuffers ∧
    (∀ j, holders s.clients j ≤ 1) ∧
    (∀ j < s.pool.bufferCount, s.pool.bit j = false ↔ holders s.clients j = 1) ∧
    (∀ j, s.pool.bufferCount ≤ j → s.pool.bit j = false ∧ holders s.clients j = 0) := by
  have hi := reachable_inv hs
  have key (j : Nat) : (if s.pool.bit j then 1 else 0) + holders s.clients j =
      if j < s.pool.bufferCount then 1 else 0 := hi.slots j
  refine ⟨hi.count_le, fun j => ?_, fun j hj => ?_, fun j hj => ?_⟩
  · have := key j; split_ifs at this <;> omega
  · have := key j; rw [if_pos hj] at this
    cases hb : s.pool.bit j <;> rw [hb] at this <;> simp at this ⊢ <;> omega
  · have := key j; rw [if_neg (Nat.not_lt.2 hj)] at this
    cases hb : s.pool.bit j
    · simpa [hb] using this
    · simp [hb] at this

/-- One pool of one buffer, as `hev_memory_pool_new (64, 1)` makes it with its
    buffer at address `1`, and two idle clients. -/
def twoClients : State :=
  ⟨{ buffers := fun i => if i < 1 then 1 else 0, freeBitmap := initialWord 1, bufferSize := 64,
     bufferCount := 1, allocated := 0, peakUsage := 0 }, Multiset.replicate 2 ⟨[], .idle⟩⟩

theorem twoClients_reachable : system.Reachable twoClients :=
  .init ⟨64, 1, fun _ => 1, 2, fun _ _ hi hj _ => by omega, rfl, rfl⟩

/-- The new pool of one buffer with two clients is reachable, and has at most
    `2048` slots. -/
theorem buffer_pool_exclusive_new :
    system.Reachable twoClients ∧ twoClients.pool.bufferCount ≤ poolMaxBuffers :=
  ⟨twoClients_reachable, (buffer_pool_exclusive twoClients_reachable).1⟩

/-! ## The counters -/

/-- The number of set bits of the 64 words of the bitmap. -/
def popcount (freeBitmap : Nat → BitVec 32) : Nat :=
  ∑ j ∈ Finset.range 2048, if (freeBitmap (j / 32)).getLsbD (j % 32) then 1 else 0

theorem popcount_eq (pool : HevMemoryPool) :
    popcount pool.freeBitmap = ∑ j ∈ Finset.range 2048, pool.freeCount j := rfl

theorem sum_range_ite_lt (n N : Nat) :
    ∑ j ∈ Finset.range N, (if j < n then 1 else 0) = min n N := by
  induction N with
  | zero => simp
  | succ N ih => rw [Finset.sum_range_succ, ih]; split_ifs <;> omega

/-- An idle client holds each of its buffers once, and has counted them all. -/
theorem sum_holds_idle {c : Client} (hc : c.pc = .idle) {N : Nat} (hN : ∀ j ∈ c.held, j < N) :
    ∑ j ∈ Finset.range N, c.holds j = c.counted := by
  have h : ∑ j ∈ Finset.range N, (c.held : Multiset Nat).count j = c.held.length :=
    Multiset.sum_count_eq_card (by simpa using hN)
  simpa [Client.holds, Client.counted, hc, Pc.slot] using h

theorem sum_holders (clients : Multiset Client) (N : Nat) :
    ∑ j ∈ Finset.range N, holders clients j =
      (clients.map fun c => ∑ j ∈ Finset.range N, c.holds j).sum :=
  Multiset.sum_map_sum_map _ _

/-- `peak_usage` never decreases along a run. -/
theorem peakUsage_le_of_star (hs : system.Reachable s)
    (h : Relation.ReflTransGen system.step s s') : s.pool.peakUsage ≤ s'.pool.peakUsage := by
  induction h with
  | refl => exact le_rfl
  | tail hr hstep ih =>
    obtain ⟨c, hc, a, pool', c', hcs, rfl⟩ := hstep
    exact ih.trans (inv_effect (reachable_inv (hs.star hr)) hc hcs).peak_mono

/-- At a quiescent point the set bits and `allocated` add up to the
    capacity. -/
theorem popcount_add_allocated (hs : system.Reachable s) (hq : ∀ c ∈ s.clients, c.pc = .idle) :
    popcount s.pool.freeBitmap + s.pool.allocated = s.pool.bufferCount := by
  have hi := reachable_inv hs
  have hn : s.pool.bufferCount ≤ 2048 := hi.count_le
  have hslots : ∑ j ∈ Finset.range 2048, (s.pool.freeCount j + holders s.clients j) =
      s.pool.bufferCount := by
    rw [Finset.sum_congr rfl fun j _ => hi.slots j, sum_range_ite_lt]; omega
  have hheld : ∑ j ∈ Finset.range 2048, holders s.clients j = s.pool.allocated := by
    rw [sum_holders, hi.counted]
    refine congrArg Multiset.sum (Multiset.map_congr rfl fun c hc => ?_)
    exact sum_holds_idle (hq c hc) fun j hj => (held_lt hi hc hj).trans_le hn
  rw [popcount_eq, ← hheld, ← Finset.sum_add_distrib, hslots]

/-- What holds of the counters: at every quiescent point (no call under
    way) the set bits and `allocated` add up to the capacity, and
    `allocated ≤ peak_usage`; and `peak_usage` never decreases along a run. -/
theorem quiescent_counters (hs : system.Reachable s) :
    ((∀ c ∈ s.clients, c.pc = .idle) →
      popcount s.pool.freeBitmap + s.pool.allocated = s.pool.bufferCount ∧
      s.pool.allocated ≤ s.pool.peakUsage) ∧
    ∀ s', Relation.ReflTransGen system.step s s' → s.pool.peakUsage ≤ s'.pool.peakUsage := by
  have hi := reachable_inv hs
  refine ⟨fun hq => ⟨popcount_add_allocated hs hq, ?_⟩, fun _ h => peakUsage_le_of_star hs h⟩
  have hsup : (s.clients.map Client.pending).sup ≤ 0 :=
    Multiset.sup_le.2 fun x hx => by
      obtain ⟨c, hc, rfl⟩ := Multiset.mem_map.1 hx
      simp [Client.pending, hq c hc]
  have := hi.peak
  omega

theorem quiescent_counters_new :
    system.Reachable twoClients ∧
      popcount twoClients.pool.freeBitmap + twoClients.pool.allocated =
        twoClients.pool.bufferCount :=
  ⟨twoClients_reachable, ((quiescent_counters twoClients_reachable).1 (by decide)).1⟩

/-- A step of a client, from a reachable state. -/
theorem reachable_client (hs : system.Reachable s) (c : Client) (hc : c ∈ s.clients)
    (a : Action) {pool' : HevMemoryPool} {c' : Client}
    (h : clientStep s.pool c a = some (pool', c')) :
    system.Reachable ⟨pool', c' ::ₘ s.clients.erase c⟩ :=
  hs.step ⟨c, hc, a, pool', c', h, rfl⟩

/-- `peak_usage` can exceed the capacity: on a pool of one buffer, client `A`
    allocates it and frees it up to its `fetch_or`; client `B` then allocates
    it, raising `allocated` and `peak_usage` to `2`; `A` ends its `free`. At
    that quiescent point `peak_usage = 2 > n = 1`. -/
theorem peak_exceeds_count :
    ∃ s, system.Reachable s ∧ (∀ c ∈ s.clients, c.pc = .idle) ∧ s.pool.bufferCount = 1 ∧
      s.pool.allocated = 1 ∧ s.pool.peakUsage = 2 := by
  have r1 := reachable_client twoClients_reachable ⟨[], .idle⟩ (by decide) .alloc rfl
  have r2 := reachable_client r1 ⟨[], .scan 0⟩ (by decide) (.step false) rfl
  have r3 := reachable_client r2 ⟨[], .claim 0 1#32⟩ (by decide) (.step false) rfl
  have r4 := reachable_client r3 ⟨[], .count 0⟩ (by decide) (.step false) rfl
  have r5 := reachable_client r4 ⟨[], .loadPeak 0 1⟩ (by decide) (.step false) rfl
  have r6 := reachable_client r5 ⟨[], .raisePeak 0 1 0⟩ (by decide) (.step false) rfl
  have r7 := reachable_client r6 ⟨[0], .idle⟩ (by decide) (.free 0) rfl
  have r8 := reachable_client r7 ⟨[], .release 0⟩ (by decide) (.step false) rfl
  have r9 := reachable_client r8 ⟨[], .idle⟩ (by decide) .alloc rfl
  have r10 := reachable_client r9 ⟨[], .scan 0⟩ (by decide) (.step false) rfl
  have r11 := reachable_client r10 ⟨[], .claim 0 1#32⟩ (by decide) (.step false) rfl
  have r12 := reachable_client r11 ⟨[], .count 0⟩ (by decide) (.step false) rfl
  have r13 := reachable_client r12 ⟨[], .loadPeak 0 2⟩ (by decide) (.step false) rfl
  have r14 := reachable_client r13 ⟨[], .raisePeak 0 2 1⟩ (by decide) (.step false) rfl
  have r15 := reachable_client r14 ⟨[], .uncount⟩ (by decide) (.step false) rfl
  exact ⟨_, r15, by decide, rfl, rfl, rfl⟩

/-! ## Freeing what no client holds -/

/-- `free` of a pointer that is no buffer of the pool finds no slot. -/
theorem hevMemoryPoolFree_foreign (pool : HevMemoryPool) {ptr : Nat}
    (h : ∀ i < pool.bufferCount, pool.buffers i ≠ ptr) : hevMemoryPoolFree pool ptr = pool := by
  unfold hevMemoryPoolFree findIndex
  split_ifs
  · rfl
  · rw [List.find?_eq_none.2 fun i hi => by simpa using h i (List.mem_range.1 hi)]

/-- The `fetch_or` on a bit already set leaves the bitmap as it is. -/
theorem setBit_of_bit {pool : HevMemoryPool} {i : Nat} (h : pool.bit i = true) :
    pool.setBit i = pool := by
  have hw : pool.freeBitmap (i / 32) ||| 1#32 <<< (i % 32) = pool.freeBitmap (i / 32) :=
    BitVec.eq_of_getLsbD_eq fun j => by
      rw [getLsbD_set _ (Nat.mod_lt _ (by decide))]
      by_cases hj : (j : Nat) = i % 32
      · rw [hj]; simpa [HevMemoryPool.bit] using h
      · simp [hj]
  simp only [HevMemoryPool.setBit, hw, Function.update_eq_self]

/-- `free` of the buffer of a free slot keeps the bitmap and `peak_usage`,
    and still decrements `allocated`. -/
theorem free_of_bit (hi : Inv s) {i : Nat} (hlt : i < s.pool.bufferCount)
    (hb : s.pool.bit i = true) :
    hevMemoryPoolFree s.pool (s.pool.buffers i) =
      { s.pool with allocated := (s.pool.allocated + 2 ^ 64 - 1) % 2 ^ 64 } := by
  obtain ⟨hne, hfind⟩ := hi.buffers i hlt
  unfold hevMemoryPoolFree
  rw [if_neg hne, hfind]
  dsimp only
  rw [setBit_of_bit hb]

/-- One pool of two buffers, as `hev_memory_pool_new (64, 2)` makes it with
    its buffers at addresses `1` and `2`, and one idle client. -/
def twoBuffers : State :=
  ⟨{ buffers := fun i => if i < 2 then i + 1 else 0, freeBitmap := initialWord 2, bufferSize := 64,
     bufferCount := 2, allocated := 0, peakUsage := 0 }, {⟨[], .idle⟩}⟩

theorem twoBuffers_reachable : system.Reachable twoBuffers :=
  .init ⟨64, 2, fun i => i + 1, 1, fun _ _ _ _ => Nat.succ.inj, rfl, rfl⟩

/-- The client of `twoBuffers` allocates slot `0`. -/
theorem slot_zero_allocated :
    ∃ s, system.Reachable s ∧ (∀ c ∈ s.clients, c.pc = .idle) ∧ s.pool.bufferCount = 2 ∧
      s.pool.bit 1 = true ∧ s.pool.allocated = 1 := by
  have r1 := reachable_client twoBuffers_reachable ⟨[], .idle⟩ (by decide) .alloc rfl
  have r2 := reachable_client r1 ⟨[], .scan 0⟩ (by decide) (.step false) rfl
  have r3 := reachable_client r2 ⟨[], .claim 0 3#32⟩ (by decide) (.step false) rfl
  have r4 := reachable_client r3 ⟨[], .count 0⟩ (by decide) (.step false) rfl
  have r5 := reachable_client r4 ⟨[], .loadPeak 0 1⟩ (by decide) (.step false) rfl
  have r6 := reachable_client r5 ⟨[], .raisePeak 0 1 0⟩ (by decide) (.step false) rfl
  exact ⟨_, r6, by decide, rfl, by decide, rfl⟩

/-- Freeing a pointer no client holds is not a no-op: a pointer of no slot
    leaves the pool as it is, but the buffer of a free slot, freed again,
    still decrements `allocated` (wrapping the `size_t` below zero), on every
    reachable state; so after one client allocated slot `0` of two, a double
    free of slot `1` leaves `popcount (free_bitmap) + allocated = n - 1`. -/
theorem double_free_decrements_allocated :
    (∀ (pool : HevMemoryPool) ptr, (∀ i < pool.bufferCount, pool.buffers i ≠ ptr) →
      hevMemoryPoolFree pool ptr = pool) ∧
    (∀ s, system.Reachable s → ∀ i < s.pool.bufferCount, s.pool.bit i = true →
      hevMemoryPoolFree s.pool (s.pool.buffers i) =
        { s.pool with allocated := (s.pool.allocated + 2 ^ 64 - 1) % 2 ^ 64 } ∧
      (hevMemoryPoolFree s.pool (s.pool.buffers i)).allocated ≠ s.pool.allocated) ∧
    ∃ s, system.Reachable s ∧ (∀ c ∈ s.clients, c.pc = .idle) ∧ s.pool.bit 1 = true ∧
      popcount s.pool.freeBitmap + s.pool.allocated = s.pool.bufferCount ∧
      popcount (hevMemoryPoolFree s.pool (s.pool.buffers 1)).freeBitmap +
        (hevMemoryPoolFree s.pool (s.pool.buffers 1)).allocated + 1 = s.pool.bufferCount := by
  refine ⟨fun pool _ h => hevMemoryPoolFree_foreign pool h, fun s hs i hlt hb => ?_, ?_⟩
  · rw [free_of_bit (reachable_inv hs) hlt hb]
    refine ⟨rfl, fun h => ?_⟩
    dsimp only at h
    omega
  · obtain ⟨s, hs, hq, hn, hb, ha⟩ := slot_zero_allocated
    have hc := popcount_add_allocated hs hq
    refine ⟨s, hs, hq, hb, hc, ?_⟩
    rw [free_of_bit (reachable_inv hs) (by omega) hb]
    dsimp only
    omega

end HevTunnel.MemoryPool
