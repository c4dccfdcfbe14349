import HevTunnel.Simd
import Mathlib.Data.UInt

/-!
# `hev_simd_memcpy` and `hev_simd_memcmp`

On an AVX2 build both run a loop over whole 32-byte chunks
(`_mm256_loadu_si256`, then `_mm256_storeu_si256`, or `_mm256_cmpeq_epi8` and
`_mm256_movemask_epi8 (...) != -1`) and hand the tail of fewer than 32 bytes to
libc's `memcpy` or `memcmp`; on other builds they are libc's. The address
space is a function from addresses to bytes (`Memory`); libc's `memcpy` is
what the C standard makes of regions that do not overlap, its `memcmp` the
difference of the first bytes that differ.

* `hevSimdMemcmp_eq_zero`: on every build, for every length and all byte
  regions, `hev_simd_memcmp` returns `0` exactly when the regions agree;
* `hevSimdMemcpy_eq`: on every build, for regions that do not overlap,
  `hev_simd_memcpy` leaves memory as libc's `memcpy` does;
* `simd_memory_agrees_with_libc`: so `hev_simd_memcpy` makes `dst[0..len)`
  equal to `src[0..len)` and writes no other byte.
-/

namespace HevTunnel.Simd

/-- The bytes of the address space. -/
abbrev Memory := Nat → UInt8

/-- `memcpy (dst, src, len)` on regions that do not overlap. -/
def memcpy (mem : Memory) (dst src len : Nat) : Memory := fun x =>
  if dst ≤ x ∧ x < dst + len then mem (src + (x - dst)) else mem x

/-- `memcmp (a, b, len)`: the difference of the first bytes that differ, read
    as `unsigned char`, and `0` when the `len` bytes agree. -/
def memcmp (mem : Memory) (a b : Nat) : Nat → Int
  | 0 => 0
  | len + 1 => if mem a = mem b then memcmp mem (a + 1) (b + 1) len else (mem a).toNat - (mem b).toNat

/-! ### The intrinsics -/

/-- `_mm256_loadu_si256 ((__m256i *)p)`: the bytes at `p`. -/
def mm256LoaduSi256 (mem : Memory) (p : Nat) : Lanes := fun j => (mem (p + j)).toNat

/-- `_mm256_storeu_si256 ((__m256i *)p, a)`: the 32 bytes of `a` stored at `p`. -/
def mm256StoreuSi256 (mem : Memory) (p : Nat) (a : Lanes) : Memory := fun x =>
  if p ≤ x ∧ x < p + 32 then UInt8.ofNat (a (x - p)) else mem x

/-- `_mm256_cmpeq_epi8`: `0xFF` in the bytes that agree, `0` in the others. -/
def mm256CmpeqEpi8 (a b : Lanes) : Lanes := fun j => if a j = b j then 0xFF else 0

/-- `_mm256_movemask_epi8`: the top bits of the 32 bytes, bit `j` from byte
    `j`, as an `int`. -/
def mm256MovemaskEpi8 (a : Lanes) : Int :=
  let m : Nat := ∑ j in Finset.range 32, a j / 2 ^ 7 % 2 * 2 ^ j
  if m < 2 ^ 31 then (m : Int) else (m : Int) - 2 ^ 32

/-! ### The two functions -/

/-- The chunk loop of `hev_simd_memcpy`, `while (len >= 32)`, run `n` times
    from `d` and `s`, then `if (len > 0) memcpy (d, s, len)` on the `rest`. -/
def memcpyLoop (rest : Nat) : (n : Nat) → (mem : Memory) → (d s : Nat) → Memory
  | 0, mem, d, s => if rest > 0 then memcpy mem d s rest else mem
  | n + 1, mem, d, s => memcpyLoop rest n (mm256StoreuSi256 mem d (mm256LoaduSi256 mem s)) (d + 32) (s + 32)

def hevSimdMemcpy (build : SimdBuild) (mem : Memory) (dst src len : Nat) : Memory :=
  match build with
  | .avx2 => memcpyLoop (len % 32) (len / 32) mem dst src
  | _ => memcpy mem dst src len

/-- The chunk loop of `hev_simd_memcmp`, run `n` times from `pa` and `pb`:
    `1` at the first chunk that differs, else `memcmp` of the `rest`, or `0`. -/
def memcmpLoop (mem : Memory) (rest : Nat) : (n pa pb : Nat) → Int
  | 0, pa, pb => if rest > 0 then memcmp mem pa pb rest else 0
  | n + 1, pa, pb =>
    if mm256MovemaskEpi8 (mm256CmpeqEpi8 (mm256LoaduSi256 mem pa) (mm256LoaduSi256 mem pb)) ≠ -1 then 1
    else memcmpLoop mem rest n (pa + 32) (pb + 32)

def hevSimdMemcmp (build : SimdBuild) (mem : Memory) (a b len : Nat) : Int :=
  match build with
  | .avx2 => memcmpLoop mem (len % 32) (len / 32) a b
  | _ => memcmp mem a b len

/-! ### `memcmp` -/

theorem UInt8.ofNat_toNat (b : UInt8) : UInt8.ofNat b.toNat = b := by
  cases b; simp [UInt8.ofNat, UInt8.toNat]

theorem UInt8.eq_of_toNat_eq {a b : UInt8} (h : a.toNat = b.toNat) : a = b :=
  UInt8.eq_of_val_eq (Fin.ext h)

theorem UInt8.toNat_inj_iff {a b : UInt8} : a.toNat = b.toNat ↔ a = b :=
  ⟨UInt8.eq_of_toNat_eq, congrArg _⟩

/-- libc's `memcmp` returns `0` exactly when the bytes agree. -/
theorem memcmp_eq_zero (mem : Memory) (a b len : Nat) :
    memcmp mem a b len = 0 ↔ ∀ i < len, mem (a + i) = mem (b + i) := by
  induction len generalizing a b with
  | zero => simp [memcmp]
  | succ len ih =>
    by_cases h : mem a = mem b
    · rw [memcmp, if_pos h, ih]
      constructor
      · intro hr i hi
        cases i with
        | zero => exact h
        | succ i => simpa [Nat.add_assoc, Nat.add_comm 1] using hr i (by omega)
      · intro hr i hi
        simpa [Nat.add_assoc, Nat.add_comm 1] using hr (i + 1) (by omega)
    · rw [memcmp, if_neg h]
      refine ⟨fun hr => absurd (UInt8.eq_of_toNat_eq (by omega)) h, fun hr => absurd (hr 0 ?_) h⟩
      omega

/-- A sum of distinct powers of two reaches `2 ^ n - 1` only with all of
    them. -/
theorem sum_bits_eq (p : Nat → Prop) [DecidablePred p] (n : Nat) :
    ∑ j in Finset.range n, (if p j then 1 else 0) * 2 ^ j ≤ 2 ^ n - 1 ∧
      (∑ j in Finset.range n, (if p j then 1 else 0) * 2 ^ j = 2 ^ n - 1 ↔ ∀ j < n, p j) := by
  induction n with
  | zero => simp
  | succ n ih =>
    rw [Finset.sum_range_succ, Nat.pow_succ]
    have hpos := Nat.one_le_two_pow (n := n)
    obtain ⟨hle, hiff⟩ := ih
    by_cases hn : p n
    · rw [if_pos hn]
      refine ⟨by omega, ⟨fun h j hj => ?_, fun h => ?_⟩⟩
      · rcases Nat.lt_succ_iff_lt_or_eq.1 hj with hj | rfl
        · exact hiff.1 (by omega) j hj
        · exact hn
      · have := hiff.2 fun j hj => h j (by omega)
        omega
    · rw [if_neg hn]
      exact ⟨by omega, ⟨fun h => by omega, fun h => absurd (h n (by omega)) hn⟩⟩

/-- The mask of `_mm256_cmpeq_epi8` is `-1` exactly when the 32 bytes agree. -/
theorem movemask_cmpeq (a b : Lanes) :
    mm256MovemaskEpi8 (mm256CmpeqEpi8 a b) = -1 ↔ ∀ j < 32, a j = b j := by
  have hbit : ∀ j, mm256CmpeqEpi8 a b j / 2 ^ 7 % 2 = if a j = b j then 1 else 0 := fun j => by
    unfold mm256CmpeqEpi8; split_ifs <;> rfl
  obtain ⟨hle, hiff⟩ := sum_bits_eq (fun j => a j = b j) 32
  rw [← hiff]
  simp only [mm256MovemaskEpi8, hbit]
  generalize ∑ j in Finset.range 32, (if a j = b j then 1 else 0) * 2 ^ j = m at hle ⊢
  split_ifs
  · simp only [false_iff]; omega
  · constructor <;> intro <;> omega

/-- The chunk loop of `hev_simd_memcmp` returns `0` exactly when its chunks
    and its tail agree. -/
theorem memcmpLoop_eq_zero (mem : Memory) (rest n pa pb : Nat) :
    memcmpLoop mem rest n pa pb = 0 ↔ ∀ i < 32 * n + rest, mem (pa + i) = mem (pb + i) := by
  induction n generalizing pa pb with
  | zero =>
    rw [memcmpLoop, Nat.mul_zero, Nat.zero_add]
    by_cases h : rest > 0
    · rw [if_pos h, memcmp_eq_zero]
    · rw [if_neg h]; exact ⟨fun _ i hi => absurd hi (by omega), fun _ => rfl⟩
  | succ n ih =>
    have hchunk := movemask_cmpeq (mm256LoaduSi256 mem pa) (mm256LoaduSi256 mem pb)
    simp only [mm256LoaduSi256, UInt8.toNat_inj_iff] at hchunk
    rw [memcmpLoop]
    by_cases h : ∀ j < 32, mem (pa + j) = mem (pb + j)
    · -- an equal chunk: the rest decides
      rw [if_neg (not_not.2 (hchunk.2 h)), ih]
      constructor
      · intro hr i hi
        by_cases hi' : i < 32
        · exact h i hi'
        · simpa [Nat.add_assoc, Nat.add_sub_cancel' (Nat.le_of_not_lt hi')] using
            hr (i - 32) (by omega)
      · intro hr i hi
        simpa [Nat.add_assoc, Nat.add_comm 32] using hr (32 + i) (by omega)
    · -- a differing chunk: `1`, and the regions differ in it
      rw [if_pos (mt hchunk.1 h)]
      exact ⟨fun h₁ => absurd h₁ (by decide), fun hr => absurd (fun j hj => hr j (by omega)) h⟩

/-- `hev_simd_memcmp` returns `0` exactly when the `len` bytes agree, on
    every build. -/
theorem hevSimdMemcmp_eq_zero (build : SimdBuild) (mem : Memory) (a b len : Nat) :
    hevSimdMemcmp build mem a b len = 0 ↔ ∀ i < len, mem (a + i) = mem (b + i) := by
  cases build with
  | avx2 => rw [hevSimdMemcmp, memcmpLoop_eq_zero, Nat.div_add_mod]
  | neon | other => exact memcmp_eq_zero mem a b len

/-! ### `memcpy` -/

/-- One chunk stored, then `memcpy` of what follows it, is `memcpy` of the
    whole, the source not overlapping the chunk. -/
theorem memcpy_store (mem : Memory) (d s len : Nat) (hds : d + 32 ≤ s ∨ s + (32 + len) ≤ d) :
    memcpy (mm256StoreuSi256 mem d (mm256LoaduSi256 mem s)) (d + 32) (s + 32) len =
      memcpy mem d s (32 + len) := by
  funext x
  simp only [memcpy, mm256StoreuSi256, mm256LoaduSi256]
  by_cases h₁ : d + 32 ≤ x ∧ x < d + 32 + len
  · -- past the chunk: the source byte, which the chunk did not overwrite
    rw [if_pos h₁, if_neg (by omega), if_pos (by omega)]
    congr 1; omega
  · rw [if_neg h₁]
    by_cases h₂ : d ≤ x ∧ x < d + 32
    · rw [if_pos h₂, if_pos (by omega), UInt8.ofNat_toNat]
    · rw [if_neg h₂, if_neg (by omega)]

/-- The chunk loop of `hev_simd_memcpy` is `memcpy` of its chunks and its
    tail, for regions that do not overlap. -/
theorem memcpyLoop_eq (rest n : Nat) (mem : Memory) (d s : Nat)
    (hds : d + (32 * n + rest) ≤ s ∨ s + (32 * n + rest) ≤ d) :
    memcpyLoop rest n mem d s = memcpy mem d s (32 * n + rest) := by
  induction n generalizing mem d s with
  | zero =>
    rw [memcpyLoop, Nat.mul_zero, Nat.zero_add]
    by_cases h : rest > 0
    · rw [if_pos h]
    · rw [if_neg h]
      funext x
      simp only [memcpy]
      rw [if_neg (by omega)]
  | succ n ih =>
    rw [memcpyLoop, ih (mm256StoreuSi256 mem d (mm256LoaduSi256 mem s)) (d + 32) (s + 32) (by omega),
      memcpy_store _ _ _ _ (by omega), Nat.mul_succ, Nat.add_right_comm, Nat.add_comm 32]

/-- `hev_simd_memcpy` is `memcpy` on every build, for regions that do not
    overlap. -/
theorem hevSimdMemcpy_eq (build : SimdBuild) (mem : Memory) (dst src len : Nat)
    (hds : dst + len ≤ src ∨ src + len ≤ dst) :
    hevSimdMemcpy build mem dst src len = memcpy mem dst src len := by
  cases build with
  | avx2 => rw [hevSimdMemcpy, memcpyLoop_eq _ _ _ _ _ (by rwa [Nat.div_add_mod]), Nat.div_add_mod]
  | neon | other => rfl

/-- The AVX2 fast paths agree with libc, on every build, for every length
    and all byte regions: `hev_simd_memcmp (a, b, len)` is `0` exactly when
    `a[0..len)` and `b[0..len)` agree; and on regions that do not overlap,
    `hev_simd_memcpy (dst, src, len)` makes `dst[0..len)` equal to
    `src[0..len)` and leaves every other byte as it was. -/
theorem simd_memory_agrees_with_libc :
    (∀ build mem a b len,
      hevSimdMemcmp build mem a b len = 0 ↔ ∀ i < len, mem (a + i) = mem (b + i)) ∧
    ∀ build mem dst src len, (dst + len ≤ src ∨ src + len ≤ dst) →
      (∀ i < len, hevSimdMemcpy build mem dst src len (dst + i) = mem (src + i)) ∧
      ∀ x, (x < dst ∨ dst + len ≤ x) → hevSimdMemcpy build mem dst src len x = mem x := by
  refine ⟨hevSimdMemcmp_eq_zero, fun build mem dst src len hds => ⟨fun i hi => ?_, fun x hx => ?_⟩⟩
  · rw [hevSimdMemcpy_eq build mem dst src len hds, memcpy, if_pos (by omega), Nat.add_sub_cancel_left]
  · rw [hevSimdMemcpy_eq build mem dst src len hds, memcpy, if_neg (by omega)]

end HevTunnel.Simd
