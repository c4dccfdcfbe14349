import Mathlib.Data.UInt

/-!
# The bytes of a packet: the reader's copy and the writer's gather

`hev-tunnel-io.c` moves packets between the TUN fd and lwIP's `struct pbuf`
chains. A segment of a chain holds `payload[0..len)` and `tot_len`, the
length of the chain from it. An allocation is the list of its bytes;
`memcpy` into it is `none` when it would store past its end or read past its
source.

* `reader_thread` reads at most `mtu + 4` bytes (an `unsigned int` sum) into
  its buffer, then copies the `n` bytes read into
  `pbuf_alloc (PBUF_RAW, n, PBUF_RAM)`, whose length is a `u16_t`:
  `readerIteration_overrun` — the copy stays inside the pbuf exactly when
  `n < 2 ^ 16`, and `reader_pbuf_overrun` — some read overruns the pbuf
  exactly when `65532 ≤ mtu < 2 ^ 32 - 4`.
* `writer_thread` hands a single-segment packet's payload to `write ()`
  directly, and gathers a chain into a `malloc (p->tot_len)` buffer:
  `gatherLoop_spec` — the gather loop copies the segments one after the
  other; `writer_paths_agree` — on every well-formed chain both paths hand
  over the concatenated payloads, `tot_len` bytes, and the gather loop fills
  its buffer exactly. `writePacket_handed` is the link to the write queue's
  model: a packet reaches `write ()` unless it is chained and its buffer was
  not allocated.
-/

namespace HevTunnel.TunnelIO

/-- A `struct pbuf` segment: the bytes `payload[0..len)` and `tot_len`. -/
structure Pbuf where
  payload : List UInt8
  totLen : Nat
  deriving DecidableEq

/-- `p->len`. -/
def Pbuf.len (p : Pbuf) : Nat := p.payload.length

/-- `memcpy (buf + off, src, n)` into the allocation holding `buf`: `none`
    when it would store past its end or read past `src`. -/
def memcpy (buf : List UInt8) (off : Nat) (src : List UInt8) (n : Nat) : Option (List UInt8) :=
  if off + n ≤ buf.length ∧ n ≤ src.length then some (buf.take off ++ src.take n ++ buf.drop (off + n))
  else none

/-- The `errno` values the loops test. -/
inductive Errno
  | eagain
  | ewouldblock
  | eintr
  | other
  deriving DecidableEq

/-- What `read ()` or `write ()` returns: a count, or `-1` and `errno`. -/
inductive IoResult
  | ok (n : Nat)
  | error (errno : Errno)

/-! ## The reader -/

/-- `pbuf_alloc (PBUF_RAW, length, PBUF_RAM)`: one segment with room for its
    `u16_t` length, or `NULL` when lwIP's heap is exhausted (`ok` false). -/
def pbufAlloc (length : UInt16) (ok : Bool) : Option Pbuf :=
  if ok then some ⟨List.replicate length.toNat 0, length.toNat⟩ else none

/-- Where a pass of the reader's loop ends. -/
inductive ReaderNext
  /-- `continue`: `EAGAIN`, `EINTR`, nothing read, or no pbuf. -/
  | retry
  /-- `break` on another error. -/
  | stop
  /-- A pbuf holding the packet, handed to the callback. -/
  | delivered (p : Pbuf)

/-- One pass of `reader_thread`'s loop on its buffer (of `mtu + 4` bytes):
    `read ()` returning `r` and leaving `buffer`, `pbuf_alloc` succeeding or
    not. `none` is a store past the pbuf. -/
def readerIteration (buffer : List UInt8) (r : IoResult) (allocOk : Bool) : Option ReaderNext :=
  match r with
  | .error e => some (if e = .eagain ∨ e = .ewouldblock ∨ e = .eintr then .retry else .stop)
  | .ok 0 => some .retry
  | .ok n =>
    match pbufAlloc (UInt16.ofNat n) allocOk with
    | none => some .retry
    | some p => (memcpy p.payload 0 buffer n).map fun payload => .delivered { p with payload }

/-- The size `malloc (io->mtu + 4)` and `read (..., io->mtu + 4)` are given:
    an `unsigned int` sum. -/
def readSize (mtu : UInt32) : Nat := (mtu + 4).toNat

theorem readSize_eq (mtu : UInt32) : readSize mtu = (mtu.toNat + 4) % 2 ^ 32 := by
  simp [readSize, UInt32.toNat, UInt32.add_def, BitVec.toNat_add]

theorem memcpy_eq_none {buf src : List UInt8} {off n : Nat} :
    memcpy buf off src n = none ↔ ¬(off + n ≤ buf.length ∧ n ≤ src.length) := by
  unfold memcpy; split_ifs with h <;> simp [h]

/-- A pass that read `n > 0` bytes and got a pbuf copies them into it, and
    stays inside it exactly when `n < 2 ^ 16`: `pbuf_alloc` keeps `n` modulo
    `2 ^ 16`. -/
theorem readerIteration_overrun (buffer : List UInt8) {n : Nat} (hn : 0 < n)
    (hread : n ≤ buffer.length) :
    readerIteration buffer (.ok n) true = none ↔ 2 ^ 16 ≤ n := by
  obtain ⟨k, rfl⟩ : ∃ k, n = k + 1 := ⟨n - 1, by omega⟩
  have hlen : (UInt16.ofNat (k + 1)).toNat = (k + 1) % 2 ^ 16 := by simp [UInt16.toNat, UInt16.ofNat]
  simp only [readerIteration, pbufAlloc, if_true, Option.map_eq_none', memcpy_eq_none,
    List.length_replicate, hlen, Nat.zero_add]
  have := Nat.mod_le (k + 1) (2 ^ 16)
  constructor
  · intro h
    by_contra hlt
    exact h ⟨by rw [Nat.mod_eq_of_lt (by omega)], hread⟩
  · intro h ⟨hle, _⟩
    have := Nat.mod_lt (k + 1) (show 2 ^ 16 > 0 by decide)
    omega

/-- The reader never overruns its pbuf only for small MTUs: every `read ()`
    result `0 < n ≤ mtu + 4` that lwIP stores in a pbuf stays inside it exactly
    when `n < 2 ^ 16`; so some read overruns the pbuf exactly when
    `65532 ≤ mtu < 2 ^ 32 - 4`, e.g. `mtu = 65532` and a read of `65536` bytes,
    which `pbuf_alloc` takes as `0`. -/
theorem reader_pbuf_overrun :
    (∀ (mtu : UInt32) (buffer : List UInt8) (n : Nat), buffer.length = readSize mtu → 0 < n →
      n ≤ readSize mtu → (readerIteration buffer (.ok n) true = none ↔ 2 ^ 16 ≤ n)) ∧
    (∀ mtu : UInt32, (∃ (buffer : List UInt8) (n : Nat), buffer.length = readSize mtu ∧ 0 < n ∧
        n ≤ readSize mtu ∧ readerIteration buffer (.ok n) true = none) ↔
      65532 ≤ mtu.toNat ∧ mtu.toNat < 2 ^ 32 - 4) ∧
    ∃ buffer : List UInt8, buffer.length = readSize 65532 ∧
      readerIteration buffer (.ok 65536) true = none := by
  have hsafe (mtu : UInt32) (buffer : List UInt8) (n : Nat) (hb : buffer.length = readSize mtu)
      (hn : 0 < n) (hr : n ≤ readSize mtu) :=
    readerIteration_overrun buffer hn (hb ▸ hr)
  refine ⟨hsafe, fun mtu => ?_, ⟨List.replicate (readSize 65532) 0, List.length_replicate _ _,
    (hsafe _ _ _ (List.length_replicate _ _) (by decide) (by decide)).2 (by decide)⟩⟩
  have hm : mtu.toNat < 2 ^ 32 := mtu.toBitVec.isLt
  rw [readSize_eq]
  constructor
  · rintro ⟨buffer, n, hb, hn, hr, hnone⟩
    have := (hsafe mtu buffer n (by rw [hb, readSize_eq]) hn (by rwa [readSize_eq])).1 hnone
    by_cases hw : mtu.toNat + 4 < 2 ^ 32
    · rw [Nat.mod_eq_of_lt hw] at hr; omega
    · rw [Nat.mod_eq_sub_mod (by omega), Nat.mod_eq_of_lt (by omega)] at hr; omega
  · rintro ⟨h₁, h₂⟩
    refine ⟨List.replicate (readSize mtu) 0, 2 ^ 16, by rw [List.length_replicate, readSize_eq],
      by decide, by rw [Nat.mod_eq_of_lt (by omega)]; omega, ?_⟩
    exact (hsafe _ _ _ (List.length_replicate _ _) (by decide)
      (by rw [readSize_eq, Nat.mod_eq_of_lt (by omega)]; omega)).2 le_rfl

/-! ## The writer -/

/-- The concatenated payloads of a chain. -/
def chainBytes : List Pbuf → List UInt8
  | [] => []
  | q :: qs => q.payload ++ chainBytes qs

/-- A chain `p :: ps` as lwIP keeps it: each `tot_len` is the segment's `len`
    plus the next segment's `tot_len`, and the last one's is its `len`. -/
def WellFormed : Pbuf → List Pbuf → Prop
  | p, [] => p.totLen = p.len
  | p, q :: qs => p.totLen = p.len + q.totLen ∧ WellFormed q qs

instance decidableWellFormed : (p : Pbuf) → (ps : List Pbuf) → Decidable (WellFormed p ps)
  | p, [] => inferInstanceAs (Decidable (p.totLen = p.len))
  | p, q :: qs =>
    have := decidableWellFormed q qs
    inferInstanceAs (Decidable (p.totLen = p.len + q.totLen ∧ WellFormed q qs))

/-- The gather loop, `for (q = p; q != NULL; q = q->next) { memcpy (ptr,
    q->payload, q->len); ptr += q->len; }`, into `buffer` from offset `ptr`. -/
def gatherLoop : List Pbuf → List UInt8 → Nat → Option (List UInt8 × Nat)
  | [], buffer, ptr => some (buffer, ptr)
  | q :: qs, buffer, ptr => (memcpy buffer ptr q.payload q.len).bind fun buffer => gatherLoop qs buffer (ptr + q.len)

/-- What `writer_thread` hands to `write ()` for the packet `p :: ps`:
    `p->payload` when `p->len == p->tot_len`, else the gathered buffer, `scratch`
    being what `malloc (p->tot_len)` returned (`none` for `NULL`, which skips
    the write), with the bytes `malloc` leaves in it. The outer `none` is a
    store past the buffer. -/
def writePacket (p : Pbuf) (ps : List Pbuf) (scratch : Option (Nat → UInt8)) :
    Option (Option (List UInt8)) :=
  if p.len = p.totLen then some (some p.payload)
  else match scratch with
    | none => some none
    | some junk => (gatherLoop (p :: ps) ((List.range p.totLen).map junk) 0).map fun r => some r.1

/-- `tot_len` of a well-formed chain is the length of its payloads. -/
theorem WellFormed.totLen_eq {p : Pbuf} {ps : List Pbuf} (h : WellFormed p ps) :
    p.totLen = (chainBytes (p :: ps)).length := by
  induction ps generalizing p with
  | nil => simp [chainBytes, h, WellFormed, Pbuf.len] at h ⊢; exact h
  | cons q qs ih =>
    rw [h.1, ih h.2]
    simp [chainBytes, Pbuf.len]

/-- `memcpy` at the end of what is already there. -/
theorem memcpy_append (pre zs src : List UInt8) (n : Nat) (hz : n ≤ zs.length) (hs : n ≤ src.length) :
    memcpy (pre ++ zs) pre.length src n = some (pre ++ src.take n ++ zs.drop n) := by
  rw [memcpy, if_pos ⟨by simp; omega, hs⟩, List.take_left, List.drop_append]

/-- The gather loop from `ptr`, the buffer holding `pre` before `ptr` and
    room for the rest after it: it copies the segments one after the other
    and ends `ptr` past them. -/
theorem gatherLoop_spec (qs : List Pbuf) (pre zs : List UInt8)
    (hz : (chainBytes qs).length ≤ zs.length) :
    gatherLoop qs (pre ++ zs) pre.length =
      some (pre ++ chainBytes qs ++ zs.drop (chainBytes qs).length,
        pre.length + (chainBytes qs).length) := by
  induction qs generalizing pre zs with
  | nil => simp [gatherLoop, chainBytes]
  | cons q qs ih =>
    simp only [chainBytes, List.length_append] at hz ⊢
    rw [gatherLoop, memcpy_append pre zs q.payload q.len (by unfold Pbuf.len; omega) (Nat.le_refl _),
      Option.some_bind, Pbuf.len, List.take_length,
      show pre.length + q.payload.length = (pre ++ q.payload).length by simp,
      ih _ _ (by simp only [List.length_drop]; omega)]
    simp [List.drop_drop, Nat.add_assoc]

/-- On a well-formed chain, the segments after one whose `len` is its
    `tot_len` are empty. -/
theorem chainBytes_of_single {p : Pbuf} {ps : List Pbuf} (h : WellFormed p ps)
    (hsingle : p.len = p.totLen) : chainBytes (p :: ps) = p.payload := by
  have := h.totLen_eq
  simp only [chainBytes, List.length_append] at this
  have h0 : (chainBytes ps).length = 0 := by unfold Pbuf.len at hsingle; omega
  rw [chainBytes, List.length_eq_zero.1 h0, List.append_nil]

/-- The writer's fast path and gather path agree on every well-formed chain:
    the payloads add up to `tot_len` bytes; whichever path it takes,
    `writer_thread` hands `write ()` the concatenated payloads, unless the
    gather buffer could not be allocated; and the gather loop, on any
    `tot_len` bytes `malloc` returns, copies exactly `tot_len` bytes into
    them, storing nothing past them. -/
theorem writer_paths_agree (p : Pbuf) (ps : List Pbuf) (hwf : WellFormed p ps) :
    (chainBytes (p :: ps)).length = p.totLen ∧
    (∀ scratch, writePacket p ps scratch =
      some (if p.len = p.totLen ∨ scratch.isSome then some (chainBytes (p :: ps)) else none)) ∧
    ∀ junk : Nat → UInt8,
      gatherLoop (p :: ps) ((List.range p.totLen).map junk) 0 = some (chainBytes (p :: ps), p.totLen) := by
  have htot := hwf.totLen_eq
  have hgather (junk : Nat → UInt8) :
      gatherLoop (p :: ps) ((List.range p.totLen).map junk) 0 = some (chainBytes (p :: ps), p.totLen) := by
    have := gatherLoop_spec (p :: ps) [] ((List.range p.totLen).map junk) (by simp [htot])
    rwa [List.nil_append, List.length_nil, List.nil_append, ← htot,
      List.drop_eq_nil_of_le (by simp), List.append_nil, Nat.zero_add] at this
  refine ⟨htot.symm, fun scratch => ?_, hgather⟩
  by_cases hsingle : p.len = p.totLen
  · unfold writePacket
    rw [if_pos hsingle, if_pos (.inl hsingle), chainBytes_of_single hwf hsingle]
  · unfold writePacket
    rw [if_neg hsingle]
    cases scratch with
    | none => simp [hsingle]
    | some junk => simp [hgather, hsingle]

/-- A well-formed chain of two segments. -/
theorem writer_paths_agree_chain :
    WellFormed ⟨[1, 2], 3⟩ [⟨[3], 1⟩] ∧
      (chainBytes [⟨[1, 2], 3⟩, ⟨[3], 1⟩]).length = 3 ∧
      (∀ scratch, writePacket ⟨[1, 2], 3⟩ [⟨[3], 1⟩] scratch =
        some (if (⟨[1, 2], 3⟩ : Pbuf).len = 3 ∨ scratch.isSome then
          some (chainBytes [⟨[1, 2], 3⟩, ⟨[3], 1⟩]) else none)) ∧
      ∀ junk : Nat → UInt8, gatherLoop [⟨[1, 2], 3⟩, ⟨[3], 1⟩] ((List.range 3).map junk) 0 =
        some (chainBytes [⟨[1, 2], 3⟩, ⟨[3], 1⟩], 3) :=
  ⟨by decide, writer_paths_agree _ _ (by decide)⟩

/-- The link to the write queue's model, where a writer hands the packet to
    `write ()` when `!chained || copied`: on a well-formed chain,
    `writer_thread` calls `write ()` exactly when the packet is a single
    segment or its buffer was allocated. -/
theorem writePacket_handed {p : Pbuf} {ps : List Pbuf} (hwf : WellFormed p ps)
    (scratch : Option (Nat → UInt8)) :
    (∃ bytes, writePacket p ps scratch = some (some bytes)) ↔
      (!decide (p.len ≠ p.totLen) || scratch.isSome) = true := by
  rw [(writer_paths_agree p ps hwf).2.1 scratch]
  by_cases hs : p.len = p.totLen <;> cases scratch <;> simp [hs]

end HevTunnel.TunnelIO
