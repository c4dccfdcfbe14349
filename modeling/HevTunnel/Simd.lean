import Mathlib
/-!
# The Internet checksum of `hev-simd.c`

`hev_simd_checksum` is `checksum_avx2` on an AVX2 build, `checksum_neon` on
an ARM build, and `checksum_scalar` otherwise. `checksum_scalar` adds the
data as host-order (little-endian) 16-bit words into a `uint32_t`, folds the
carries back in and returns the complement. The vector paths add the bytes of
each 32- or 16-byte chunk, widened to 16- or 32-bit lanes, sum the lanes, add
`checksum_scalar` of what is left over, fold and complement again.

Every intrinsic is its lane-wise definition on a register given by its lanes
(`Lanes`). The one's-complement value of a sum is `onesValue`: the
representative in `1 .. 0xFFFF` of a nonzero sum modulo `0xFFFF`, which the
fold loop and the end-around-carry addition both compute.

* `checksum_scalar_is_internet_checksum`: on every buffer of at most 65535
  bytes the accumulator is the exact sum of the words, the fold loop is the
  one's-complement sum, and `checksum_scalar` is the RFC 1071 checksum in
  host byte order;
* `checksumAvx2_eq`, `checksumNeon_eq`: what the vector paths compute, on
  every buffer: the byte sum of the chunks, and the already complemented
  checksum of the tail;
* `simd_checksum_differs`: so both vector paths return the complement of
  `checksum_scalar` on every nonempty buffer shorter than one chunk, and on a
  whole chunk they sum bytes where `checksum_scalar` sums words.
-/

namespace HevTunnel.Simd

/-! ### `checksum_scalar` -/

/-- `*(uint16_t *)data` on a little-endian target (x86, ARM). -/
def loadU16 (lo hi : UInt8) : Nat := lo.toNat + hi.toNat * 256

/-- The word loop `while (len > 1) sum += *(uint16_t *)data ...` and the odd
    byte `if (len > 0) sum += *data`, `sum` the `uint32_t` accumulator. -/
def sumWords (sum : Nat) : List UInt8 → Nat
  | lo :: hi :: rest => sumWords ((sum + loadU16 lo hi) % 2 ^ 32) rest
  | [b] => (sum + b.toNat) % 2 ^ 32
  | [] => sum

/-- `while (sum >> 16) sum = (sum & 0xFFFF) + (sum >> 16);` -/
def foldSum (sum : Nat) : Nat :=
  if sum >>> 16 = 0 then sum else foldSum ((sum &&& 0xFFFF) + (sum >>> 16))
termination_by sum
decreasing_by
  simp only [Nat.shiftRight_eq_div_pow, show (0xFFFF : Nat) = 2 ^ 16 - 1 from rfl,
    Nat.and_pow_two_sub_one_eq_mod] at *
  omega

/-- `(uint16_t)~sum` for a `uint32_t` sum. -/
def complement16 (sum : Nat) : Nat := (2 ^ 32 - 1 - sum) % 2 ^ 16

def checksumScalar (data : List UInt8) : Nat := complement16 (foldSum (sumWords 0 data))

/-! ### The Internet checksum

RFC 1071, in the words of `hev-simd.h`: the complement of the 16-bit
one's-complement sum of the data read as host-order words, a trailing odd
byte padded with zero. -/

/-- The data as 16-bit words in host (little-endian) order, a trailing odd
    byte padded with zero. -/
def hostWords : List UInt8 → List Nat
  | lo :: hi :: rest => (lo.toNat + 256 * hi.toNat) :: hostWords rest
  | [b] => [b.toNat]
  | [] => []

/-- One's-complement addition of 16-bit words: the carry out of bit 15 is
    added back in. -/
def onesAdd (a b : Nat) : Nat := (a + b) % 2 ^ 16 + (a + b) / 2 ^ 16

def internetChecksum (data : List UInt8) : Nat := 0xFFFF - (hostWords data).foldl onesAdd 0

/-! ### One's-complement values -/

theorem byte_lt (b : UInt8) : b.toNat < 256 := b.toNat_lt_size

/-- The one's-complement value of a sum: zero for zero, otherwise its
    representative in `1 .. 0xFFFF` modulo `0xFFFF`. -/
def onesValue (s : Nat) : Nat := if s = 0 then 0 else (s - 1) % 0xFFFF + 1

theorem onesValue_le (s : Nat) : onesValue s ≤ 0xFFFF := by
  unfold onesValue; split <;> omega

theorem onesValue_of_le {s : Nat} (h : s ≤ 0xFFFF) : onesValue s = s := by
  unfold onesValue; split <;> omega

/-- Reducing part of a sum first does not change its value. -/
theorem onesValue_add (s t : Nat) : onesValue (onesValue s + t) = onesValue (s + t) := by
  rcases Nat.eq_zero_or_pos s with rfl | hs
  · rfl
  · have h : onesValue s = (s - 1) % 0xFFFF + 1 := if_neg (by omega)
    rw [h, onesValue, onesValue, if_neg (by omega), if_neg (by omega)]
    omega

/-- One fold step keeps the value: `2 ^ 16` is `1` modulo `0xFFFF`. -/
theorem onesValue_fold (s : Nat) : onesValue (s % 2 ^ 16 + s / 2 ^ 16) = onesValue s := by
  unfold onesValue; split_ifs <;> omega

theorem foldSum_eq (s : Nat) : foldSum s = onesValue s := by
  induction s using Nat.strong_induction_on with
  | _ s ih =>
    rw [foldSum]
    simp only [Nat.shiftRight_eq_div_pow, show (0xFFFF : Nat) = 2 ^ 16 - 1 from rfl,
      Nat.and_pow_two_sub_one_eq_mod]
    split
    · exact (onesValue_of_le (by omega)).symm
    · rw [ih _ (by omega), onesValue_fold]

/-- End-around-carry addition of two words is addition of values. -/
theorem onesAdd_eq {a b : Nat} (ha : a ≤ 0xFFFF) (hb : b ≤ 0xFFFF) :
    onesAdd a b = onesValue (a + b) := by
  unfold onesAdd onesValue; split_ifs <;> omega

theorem foldl_onesAdd (ws : List Nat) (hw : ∀ w ∈ ws, w ≤ 0xFFFF) {a : Nat} (ha : a ≤ 0xFFFF) :
    ws.foldl onesAdd a = onesValue (a + ws.sum) := by
  induction ws generalizing a with
  | nil => simp [onesValue_of_le ha]
  | cons w ws ih =>
    have hw' := hw w (by simp)
    rw [List.foldl_cons, onesAdd_eq ha hw', ih (fun v hv => hw v (by simp [hv])) (onesValue_le _),
      onesValue_add, List.sum_cons, Nat.add_assoc]

theorem hostWords_le : ∀ data : List UInt8, ∀ w ∈ hostWords data, w ≤ 0xFFFF
  | lo :: hi :: rest, w, hw => by
    have := byte_lt lo; have := byte_lt hi
    rcases List.mem_cons.1 hw with rfl | hw
    · omega
    · exact hostWords_le rest w hw
  | [b], w, hw => by
    have := byte_lt b
    rw [hostWords, List.mem_singleton] at hw; omega
  | [], _, hw => by simp [hostWords] at hw

/-- The words of a buffer add up to at most `0x8000` per byte. -/
theorem hostWords_sum_le : ∀ data : List UInt8, (hostWords data).sum ≤ 0x8000 * data.length
  | lo :: hi :: rest => by
    have := byte_lt lo; have := byte_lt hi; have := hostWords_sum_le rest
    simp only [hostWords, List.sum_cons, List.length_cons]; omega
  | [b] => by have := byte_lt b; simp only [hostWords, List.sum_singleton, List.length_singleton]; omega
  | [] => by simp [hostWords]

/-- The `uint32_t` accumulator is the sum of the words, modulo `2 ^ 32`. -/
theorem sumWords_eq : ∀ (sum : Nat) (data : List UInt8), sum < 2 ^ 32 →
    sumWords sum data = (sum + (hostWords data).sum) % 2 ^ 32
  | sum, lo :: hi :: rest, _ => by
    rw [sumWords, sumWords_eq _ rest (Nat.mod_lt _ (by decide)), Nat.mod_add_mod]
    simp only [hostWords, List.sum_cons, loadU16]
    congr 1; omega
  | sum, [b], _ => by simp [sumWords, hostWords]
  | sum, [], h => (Nat.mod_eq_of_lt h).symm

theorem checksumScalar_eq (data : List UInt8) :
    checksumScalar data = complement16 (onesValue ((hostWords data).sum % 2 ^ 32)) := by
  rw [checksumScalar, foldSum_eq, sumWords_eq 0 data (by decide), Nat.zero_add]

theorem complement16_of_le {s : Nat} (h : s ≤ 0xFFFF) : complement16 s = 0xFFFF - s := by
  unfold complement16; omega

theorem checksumScalar_le (data : List UInt8) : checksumScalar data ≤ 0xFFFF := by
  have := Nat.mod_lt (2 ^ 32 - 1 - foldSum (sumWords 0 data)) (show 0 < 2 ^ 16 by decide)
  unfold checksumScalar complement16; omega

theorem checksum_scalar_is_internet_checksum (data : List UInt8) (h : data.length ≤ 65535) :
    sumWords 0 data = (hostWords data).sum ∧
    foldSum (hostWords data).sum = (hostWords data).foldl onesAdd 0 ∧
    checksumScalar data = internetChecksum data := by
  have hlt : (hostWords data).sum < 2 ^ 32 := by
    have := hostWords_sum_le data; omega
  have hfold : foldSum (hostWords data).sum = (hostWords data).foldl onesAdd 0 := by
    rw [foldSum_eq, foldl_onesAdd _ (hostWords_le data) (Nat.zero_le _), Nat.zero_add]
  refine ⟨by rw [sumWords_eq 0 data (by decide), Nat.zero_add, Nat.mod_eq_of_lt hlt], hfold, ?_⟩
  rw [checksumScalar_eq, Nat.mod_eq_of_lt hlt, ← foldSum_eq, hfold, internetChecksum,
    complement16_of_le]
  rw [foldl_onesAdd _ (hostWords_le data) (Nat.zero_le _)]
  exact onesValue_le _

theorem checksum_scalar_is_internet_checksum_ipv4 :
    [0x45, 0x00, 0x00, 0x1c, 0xff].length ≤ 65535 ∧
    checksumScalar [0x45, 0x00, 0x00, 0x1c, 0xff] = internetChecksum [0x45, 0x00, 0x00, 0x1c, 0xff] :=
  ⟨by decide, (checksum_scalar_is_internet_checksum _ (by decide)).2.2⟩

/-! ### Vector registers

A register is given by its lanes, lane `j` at index `j`: an untyped `__m256i`
or `__m128i` by its bytes (`0 .. 31` or `0 .. 15`), which the `epi16`
intrinsics read and write as little-endian 16-bit lanes, and a NEON vector by
the lanes of its type. No intrinsic below reads a lane past its register. -/

abbrev Lanes := Nat → Nat

/-- `_mm256_loadu_si256` and `vld1q_u8`: the bytes at `data`. -/
def loadBytes (data : List UInt8) : Lanes := fun j => (data.getD j 0).toNat

/-- The chunk loop of a vector path, `while (len >= width)`, which runs
    `len / width` times, each pass adding the next `width` bytes into `sum`
    by `chunk`; it returns the sum and what is left of `data`. -/
def vectorLoop (width : Nat) (chunk : Lanes → Lanes → Lanes) :
    Nat → Lanes → List UInt8 → Lanes × List UInt8
  | 0, sum, data => (sum, data)
  | n + 1, sum, data => vectorLoop width chunk n (chunk sum (loadBytes data)) (data.drop width)

/-- The end of both vector paths: `if (len > 0) result += checksum_scalar (data, len)`,
    the fold loop, and `(uint16_t)~result`. -/
def finish (result : Nat) (rest : List UInt8) : Nat :=
  let result := if rest.length > 0 then (result + checksumScalar rest) % 2 ^ 32 else result
  complement16 (foldSum result)

/-! ### `checksum_avx2` -/

/-- The 16-bit lane `i` of a register of bytes, `a[16i+15:16i]`. -/
def epi16 (a : Lanes) (i : Nat) : Nat := a (2 * i) + 256 * a (2 * i + 1)

/-- The register of bytes whose 16-bit lanes are `w`, each kept to 16 bits. -/
def ofEpi16 (w : Nat → Nat) : Lanes := fun j =>
  if j % 2 = 0 then w (j / 2) % 256 else w (j / 2) / 256 % 256

def mm256SetzeroSi256 : Lanes := fun _ => 0

/-- `INTERLEAVE_BYTES` on each 128-bit half of `a` and `b`, from byte `off`
    of the half: bytes of `a` at the even places, of `b` at the odd ones. -/
def interleaveBytes (off : Nat) (a b : Lanes) : Lanes := fun j =>
  let src := 16 * (j / 16) + off + j % 16 / 2
  if j % 2 = 0 then a src else b src

def mm256UnpackloEpi8 (a b : Lanes) : Lanes := interleaveBytes 0 a b

def mm256UnpackhiEpi8 (a b : Lanes) : Lanes := interleaveBytes 8 a b

/-- Lane-wise addition of the 16-bit lanes, wrapping. -/
def addEpi16 (a b : Lanes) : Lanes := ofEpi16 fun i => (epi16 a i + epi16 b i) % 2 ^ 16

def mm256AddEpi16 (a b : Lanes) : Lanes := addEpi16 a b

def mmAddEpi16 (a b : Lanes) : Lanes := addEpi16 a b

/-- `_mm256_extracti128_si256 (a, imm8)`: the half `imm8[0]` selects. -/
def mm256Extracti128Si256 (a : Lanes) (imm8 : Nat) : Lanes := fun j => a (16 * (imm8 % 2) + j)

/-- `_mm_srli_si128 (a, imm8)`: `a` shifted right by `imm8` bytes, zeros
    shifted in. -/
def mmSrliSi128 (a : Lanes) (imm8 : Nat) : Lanes := fun j =>
  if j + imm8 < 16 then a (j + imm8) else 0

/-- `_mm_extract_epi16 (a, imm8)`: the 16-bit lane `imm8[2:0]`. -/
def mmExtractEpi16 (a : Lanes) (imm8 : Nat) : Nat := epi16 a (imm8 % 8)

/-- One pass of the AVX2 loop: the chunk's bytes widened to 16-bit lanes by
    interleaving them with zero, and added. -/
def avx2Chunk (sum chunk : Lanes) : Lanes :=
  let lo := mm256UnpackloEpi8 chunk mm256SetzeroSi256
  let hi := mm256UnpackhiEpi8 chunk mm256SetzeroSi256
  mm256AddEpi16 (mm256AddEpi16 sum lo) hi

/-- The horizontal sum: the two halves added, three shifts and adds, lane `0`. -/
def avx2Horizontal (sum : Lanes) : Nat :=
  let sum128 := mmAddEpi16 (mm256Extracti128Si256 sum 0) (mm256Extracti128Si256 sum 1)
  let sum128 := mmAddEpi16 sum128 (mmSrliSi128 sum128 8)
  let sum128 := mmAddEpi16 sum128 (mmSrliSi128 sum128 4)
  let sum128 := mmAddEpi16 sum128 (mmSrliSi128 sum128 2)
  mmExtractEpi16 sum128 0

def checksumAvx2 (data : List UInt8) : Nat :=
  let r := vectorLoop 32 avx2Chunk (data.length / 32) mm256SetzeroSi256 data
  finish (avx2Horizontal r.1) r.2

/-! ### `checksum_neon` -/

/-- `vdupq_n_u32 (x)`: every lane `x`. -/
def vdupqNU32 (x : Nat) : Lanes := fun _ => x

/-- The high half of a vector of `2 * half` lanes. -/
def vgetHigh (half : Nat) (a : Lanes) : Lanes := fun i => a (i + half)

def vgetLowU8 (a : Lanes) : Lanes := a

def vgetHighU8 (a : Lanes) : Lanes := vgetHigh 8 a

def vgetLowU16 (a : Lanes) : Lanes := a

def vgetHighU16 (a : Lanes) : Lanes := vgetHigh 4 a

/-- `vmovl_u8`: each 8-bit lane zero-extended to 16 bits. -/
def vmovlU8 (a : Lanes) : Lanes := a

/-- `vaddw_u16 (a, b)`: each 16-bit lane of `b` zero-extended and added to
    the 32-bit lane of `a`, wrapping. -/
def vaddwU16 (a b : Lanes) : Lanes := fun i => (a i + b i) % 2 ^ 32

def vgetqLaneU32 (a : Lanes) (lane : Nat) : Nat := a lane

/-- One pass of the NEON loop: each half of the chunk widened, and each
    quarter added into the four 32-bit lanes. -/
def neonChunk (sum chunk : Lanes) : Lanes :=
  let lo := vmovlU8 (vgetLowU8 chunk)
  let hi := vmovlU8 (vgetHighU8 chunk)
  let sum := vaddwU16 sum (vgetLowU16 lo)
  let sum := vaddwU16 sum (vgetHighU16 lo)
  let sum := vaddwU16 sum (vgetLowU16 hi)
  vaddwU16 sum (vgetHighU16 hi)

/-- The horizontal sum, four `uint32_t` additions. -/
def neonHorizontal (sum : Lanes) : Nat :=
  (((vgetqLaneU32 sum 0 + vgetqLaneU32 sum 1) % 2 ^ 32 + vgetqLaneU32 sum 2) % 2 ^ 32 +
    vgetqLaneU32 sum 3) % 2 ^ 32

def checksumNeon (data : List UInt8) : Nat :=
  let r := vectorLoop 16 neonChunk (data.length / 16) (vdupqNU32 0) data
  finish (neonHorizontal r.1) r.2

/-- The build: `HEV_SIMD_AVX2`, `HEV_SIMD_NEON`, or neither (an SSE2 or a
    plain build). -/
inductive SimdBuild
  | avx2
  | neon
  | other
  deriving DecidableEq

def hevSimdChecksum (build : SimdBuild) (data : List UInt8) : Nat :=
  match build with
  | .avx2 => checksumAvx2 data
  | .neon => checksumNeon data
  | .other => checksumScalar data

/-! ### What the vector paths compute -/

/-- The sum of the bytes of a buffer. -/
def byteSum (data : List UInt8) : Nat := (data.map UInt8.toNat).sum

theorem byteSum_append (l₁ l₂ : List UInt8) : byteSum (l₁ ++ l₂) = byteSum l₁ + byteSum l₂ := by
  simp [byteSum]

theorem sum_loadBytes (data : List UInt8) (n : Nat) :
    ∑ j in Finset.range n, loadBytes data j = byteSum (data.take n) := by
  induction n with
  | zero => simp [byteSum]
  | succ n ih =>
    rw [Finset.sum_range_succ, ih, List.take_succ]
    cases h : data[n]? <;> simp [byteSum, loadBytes, h]

/-- A chunk loop whose pass adds the chunk's bytes to a measure `H` of the
    sum, modulo `M`, adds the bytes of all its chunks. -/
theorem vectorLoop_spec {width M : Nat} {chunk : Lanes → Lanes → Lanes} {H : Lanes → Nat}
    (hchunk : ∀ s c, H (chunk s c) % M = (H s + ∑ j in Finset.range width, c j) % M) :
    ∀ n s data, (vectorLoop width chunk n s data).2 = data.drop (width * n) ∧
      H (vectorLoop width chunk n s data).1 % M = (H s + byteSum (data.take (width * n))) % M
  | 0, s, data => by simp [vectorLoop, byteSum]
  | n + 1, s, data => by
    obtain ⟨h₂, h₁⟩ := vectorLoop_spec hchunk n (chunk s (loadBytes data)) (data.drop width)
    have hw : width * (n + 1) = width + width * n := by rw [Nat.mul_succ, Nat.add_comm]
    refine ⟨by rw [vectorLoop, h₂, List.drop_drop, hw], ?_⟩
    rw [vectorLoop, h₁, ← Nat.mod_add_mod, hchunk, Nat.mod_add_mod, sum_loadBytes, hw,
      List.take_add, byteSum_append, Nat.add_assoc]

/-- The tail added to nothing: the complement of `checksum_scalar`. -/
theorem finish_zero {rest : List UInt8} (h : 0 < rest.length) :
    finish 0 rest = 0xFFFF - checksumScalar rest := by
  have hle := checksumScalar_le rest
  rw [finish, if_pos h, Nat.zero_add, Nat.mod_eq_of_lt (by omega), foldSum_eq,
    onesValue_of_le hle, complement16_of_le hle]

/-! #### The AVX2 lanes -/

@[simp] theorem epi16_ofEpi16 (w : Nat → Nat) (i : Nat) : epi16 (ofEpi16 w) i = w i % 2 ^ 16 := by
  have h₀ : 2 * i / 2 = i := by omega
  have h₁ : (2 * i + 1) / 2 = i := by omega
  simp only [epi16, ofEpi16, Nat.mul_mod_right, if_true, h₀, h₁,
    show (2 * i + 1) % 2 = 1 by omega, show (1 : Nat) ≠ 0 by decide, if_false]
  omega

@[simp] theorem epi16_addEpi16 (a b : Lanes) (i : Nat) :
    epi16 (addEpi16 a b) i = (epi16 a i + epi16 b i) % 2 ^ 16 := by
  rw [addEpi16, epi16_ofEpi16, Nat.mod_mod]

/-- Interleaving with zero widens byte `16 (i / 8) + off + i % 8` into lane `i`. -/
theorem epi16_interleaveBytes_zero (off : Nat) (a : Lanes) (i : Nat) :
    epi16 (interleaveBytes off a mm256SetzeroSi256) i = a (16 * (i / 8) + off + i % 8) := by
  have hsrc : 16 * (2 * i / 16) + off + 2 * i % 16 / 2 = 16 * (i / 8) + off + i % 8 := by omega
  simp only [epi16, interleaveBytes, mm256SetzeroSi256, Nat.mul_mod_right, if_true, hsrc,
    show (2 * i + 1) % 2 = 1 by omega, show (1 : Nat) ≠ 0 by decide, if_false, Nat.mul_zero,
    Nat.add_zero]

@[simp] theorem epi16_mm256Extracti128Si256 (a : Lanes) (imm8 i : Nat) :
    epi16 (mm256Extracti128Si256 a imm8) i = epi16 a (8 * (imm8 % 2) + i) := by
  simp only [epi16, mm256Extracti128Si256]
  rw [show 16 * (imm8 % 2) + 2 * i = 2 * (8 * (imm8 % 2) + i) by omega,
    show 16 * (imm8 % 2) + (2 * i + 1) = 2 * (8 * (imm8 % 2) + i) + 1 by omega]

/-- A shift by an even number of bytes shifts whole 16-bit lanes. -/
theorem epi16_mmSrliSi128 (a : Lanes) {imm8 : Nat} (h : imm8 % 2 = 0) (i : Nat) :
    epi16 (mmSrliSi128 a imm8) i = if i + imm8 / 2 < 8 then epi16 a (i + imm8 / 2) else 0 := by
  simp only [epi16, mmSrliSi128]
  split
  · rw [if_pos (by omega), if_pos (by omega), show 2 * i + imm8 = 2 * (i + imm8 / 2) by omega,
      show 2 * i + 1 + imm8 = 2 * (i + imm8 / 2) + 1 by omega]
  · rw [if_neg (by omega), if_neg (by omega)]

/-- The sixteen 16-bit lanes of a `__m256i`, added up. -/
def laneSum16 (a : Lanes) : Nat := ∑ i in Finset.range 16, epi16 a i

theorem avx2Horizontal_eq (s : Lanes) : avx2Horizontal s = laneSum16 s % 2 ^ 16 := by
  simp only [avx2Horizontal, mmAddEpi16, mmExtractEpi16, laneSum16, epi16_addEpi16,
    epi16_mmSrliSi128 _ (show 8 % 2 = 0 from rfl), epi16_mmSrliSi128 _ (show 4 % 2 = 0 from rfl),
    epi16_mmSrliSi128 _ (show 2 % 2 = 0 from rfl), epi16_mm256Extracti128Si256,
    Finset.sum_range_succ, Finset.sum_range_zero]
  simp only [Nat.reduceMod, Nat.reduceMul, Nat.reduceAdd, Nat.reduceDiv, Nat.reduceLT, if_true,
    Nat.add_mod_mod, Nat.mod_add_mod]
  congr 1; omega

theorem laneSum16_addEpi16 (a b : Lanes) :
    laneSum16 (addEpi16 a b) % 2 ^ 16 = (laneSum16 a + laneSum16 b) % 2 ^ 16 := by
  simp only [laneSum16, epi16_addEpi16]
  rw [← Finset.sum_nat_mod, Finset.sum_add_distrib]

/-- Widening a chunk by both unpacks puts each of its 32 bytes in one lane. -/
theorem laneSum16_unpack (c : Lanes) :
    laneSum16 (mm256UnpackloEpi8 c mm256SetzeroSi256) +
      laneSum16 (mm256UnpackhiEpi8 c mm256SetzeroSi256) = ∑ j in Finset.range 32, c j := by
  simp only [laneSum16, mm256UnpackloEpi8, mm256UnpackhiEpi8, epi16_interleaveBytes_zero,
    Finset.sum_range_succ, Finset.sum_range_zero]
  simp only [Nat.reduceMod, Nat.reduceMul, Nat.reduceAdd, Nat.reduceDiv]
  omega

theorem laneSum16_avx2Chunk (s c : Lanes) :
    laneSum16 (avx2Chunk s c) % 2 ^ 16 = (laneSum16 s + ∑ j in Finset.range 32, c j) % 2 ^ 16 := by
  rw [avx2Chunk, mm256AddEpi16, laneSum16_addEpi16, ← Nat.mod_add_mod, mm256AddEpi16,
    laneSum16_addEpi16, Nat.mod_add_mod, Nat.add_assoc, laneSum16_unpack]

theorem checksumAvx2_eq (data : List UInt8) :
    checksumAvx2 data = finish (byteSum (data.take (32 * (data.length / 32))) % 2 ^ 16)
      (data.drop (32 * (data.length / 32))) := by
  obtain ⟨h₂, h₁⟩ := vectorLoop_spec laneSum16_avx2Chunk (data.length / 32) mm256SetzeroSi256 data
  have h₀ : laneSum16 mm256SetzeroSi256 = 0 := by simp [laneSum16, epi16, mm256SetzeroSi256]
  rw [checksumAvx2, avx2Horizontal_eq, h₁, h₂, h₀, Nat.zero_add]

/-! #### The NEON lanes -/

/-- The four 32-bit lanes of a `uint32x4_t`, added up. -/
def laneSum4 (a : Lanes) : Nat := a 0 + a 1 + a 2 + a 3

theorem neonHorizontal_eq (s : Lanes) : neonHorizontal s = laneSum4 s % 2 ^ 32 := by
  simp only [neonHorizontal, vgetqLaneU32, laneSum4, Nat.mod_add_mod]

/-- Four lanes added in `uint32_t`. -/
theorem add_mod_four (a b c d : Nat) :
    (a % 2 ^ 32 + b % 2 ^ 32 + c % 2 ^ 32 + d) % 2 ^ 32 = (a + b + c + d) % 2 ^ 32 := by
  omega

theorem laneSum4_neonChunk (s c : Lanes) :
    laneSum4 (neonChunk s c) % 2 ^ 32 = (laneSum4 s + ∑ j in Finset.range 16, c j) % 2 ^ 32 := by
  simp only [neonChunk, laneSum4, vaddwU16, vgetLowU8, vgetHighU8, vgetLowU16, vgetHighU16,
    vgetHigh, vmovlU8, Finset.sum_range_succ, Finset.sum_range_zero]
  simp only [Nat.reduceAdd, Nat.add_mod_mod, Nat.mod_add_mod]
  rw [add_mod_four]; congr 1; omega

theorem checksumNeon_eq (data : List UInt8) :
    checksumNeon data = finish (byteSum (data.take (16 * (data.length / 16))) % 2 ^ 32)
      (data.drop (16 * (data.length / 16))) := by
  obtain ⟨h₂, h₁⟩ := vectorLoop_spec laneSum4_neonChunk (data.length / 16) (vdupqNU32 0) data
  have h₀ : laneSum4 (vdupqNU32 0) = 0 := rfl
  rw [checksumNeon, neonHorizontal_eq, h₁, h₂, h₀, Nat.zero_add]

theorem simd_checksum_differs :
    (∀ data : List UInt8, 0 < data.length → data.length < 32 →
      checksumAvx2 data = 0xFFFF - checksumScalar data ∧ checksumAvx2 data ≠ checksumScalar data) ∧
    (∀ data : List UInt8, 0 < data.length → data.length < 16 →
      checksumNeon data = 0xFFFF - checksumScalar data ∧ checksumNeon data ≠ checksumScalar data) ∧
    checksumScalar (0 :: 1 :: List.replicate 30 0) = 0xFEFF ∧
    checksumAvx2 (0 :: 1 :: List.replicate 30 0) = 0xFFFE ∧
    checksumNeon (0 :: 1 :: List.replicate 30 0) = 0xFFFE := by
  have hne : ∀ data, 0xFFFF - checksumScalar data ≠ checksumScalar data := fun data => by
    have := checksumScalar_le data; omega
  refine ⟨fun data h₀ h₁ => ?_, fun data h₀ h₁ => ?_, ?_, ?_, ?_⟩
  · have heq : checksumAvx2 data = 0xFFFF - checksumScalar data := by
      rw [checksumAvx2_eq, Nat.div_eq_of_lt h₁, Nat.mul_zero, List.take_zero, List.drop_zero]
      exact finish_zero h₀
    exact ⟨heq, heq ▸ hne data⟩
  · have heq : checksumNeon data = 0xFFFF - checksumScalar data := by
      rw [checksumNeon_eq, Nat.div_eq_of_lt h₁, Nat.mul_zero, List.take_zero, List.drop_zero]
      exact finish_zero h₀
    exact ⟨heq, heq ▸ hne data⟩
  · rw [checksumScalar_eq]; decide
  · rw [checksumAvx2_eq, finish, foldSum_eq]; decide
  · rw [checksumNeon_eq, finish, foldSum_eq]; decide

end HevTunnel.Simd
