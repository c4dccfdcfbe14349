import HevTunnel.System
import Mathlib.Data.List.Infix
import Mathlib.Logic.Function.Basic

/-!
# The lock-free SPSC ring

`hev-ring-buffer.h`: a ring of `RING_BUFFER_SIZE = 4096` opaque pointers with
atomic `head` and `tail` indices, written by one producer (`push`) and one
consumer (`pop`), each keeping a stale copy of the other's index
(`cached_tail`, `cached_head`) so as not to read it on every call.

The functions are modelled twice: as the source computes them
(`hevRingBufferPush`, `hevRingBufferPop`, `hevRingBufferSize`), and as the
atomic steps of the two threads (`Producer`, `Consumer`, `next`), every
atomic load or store and every access to a cached index being one step.

Proved of every interleaving (`system.Reachable`):

* `Inv`: `cached_tail` lags `tail`, and `cached_head` lags `head`, so a push
  that passes its check never makes `head` lap `tail` (`reachable_inv`);
* FIFO: the values popped, followed by the ring's contents, are the values
  pushed, in order (`Inv.history`);
* `push` takes its full branch only if the ring held `4095` elements when it
  reloaded `tail`, and `pop` its empty branch only if the ring held none when
  it reloaded `head`;
* at a quiescent point, `hevRingBufferSize` counts the values pushed and not
  popped.

A ring used by one thread at a time, as `hev-adaptive-pool.c` uses it under
its mutex, is one whose two threads are idle between calls: `WellFormed` is
the invariant with both idle, and each call keeps it and acts on `contents`
as a queue (`hevRingBufferPush_spec`, `hevRingBufferPop_spec`).
-/

namespace HevTunnel.RingBuffer

/-- `RING_BUFFER_SIZE`. -/
def ringBufferSize : Nat := 4096

/-- `HevRingBuffer`. The slots hold opaque pointers, of type `α`; `default`
    is the null pointer the zeroed slots start with. -/
structure HevRingBuffer (α : Type) where
  head : Nat
  cachedTail : Nat
  tail : Nat
  cachedHead : Nat
  buffer : Nat → α
  mask : Nat

variable {α : Type}

/-- `hev_ring_buffer_new`: indices `0`, slots zeroed, `mask = RING_BUFFER_SIZE - 1`. -/
def hevRingBufferNew [Inhabited α] : HevRingBuffer α where
  head := 0
  cachedTail := 0
  tail := 0
  cachedHead := 0
  buffer _ := default
  mask := ringBufferSize - 1

/-- The subtraction of `size_t`, wrapping modulo `2 ^ 64`. -/
def sizeSub (a b : Nat) : Nat := (a + 2 ^ 64 - b) % 2 ^ 64

/-- The number of elements between the indices `tail` and `head`, as
    `hev_ring_buffer_size` computes it. -/
def ringSize (head tail mask : Nat) : Nat := sizeSub head tail &&& mask

/-- `hev_ring_buffer_size`. -/
def hevRingBufferSize (rb : HevRingBuffer α) : Nat := ringSize rb.head rb.tail rb.mask

/-- The end of `hev_ring_buffer_push`: store `data` at `head`, publish `next`. -/
def HevRingBuffer.store (rb : HevRingBuffer α) (data : α) (next : Nat) : HevRingBuffer α :=
  { rb with buffer := Function.update rb.buffer rb.head data, head := next }

/-- `hev_ring_buffer_push`: `-1` if full, `0` once `data` is stored. -/
def hevRingBufferPush (rb : HevRingBuffer α) (data : α) : Int × HevRingBuffer α :=
  let next := (rb.head + 1) &&& rb.mask
  if next = rb.cachedTail then
    let rb := { rb with cachedTail := rb.tail }
    if next = rb.cachedTail then (-1, rb) else (0, rb.store data next)
  else (0, rb.store data next)

/-- The end of `hev_ring_buffer_pop`: read the slot at `tail`, publish `next`. -/
def HevRingBuffer.take (rb : HevRingBuffer α) : Option α × HevRingBuffer α :=
  (some (rb.buffer rb.tail), { rb with tail := (rb.tail + 1) &&& rb.mask })

/-- `hev_ring_buffer_pop`; `none` is the `NULL` of the empty branch. -/
def hevRingBufferPop (rb : HevRingBuffer α) : Option α × HevRingBuffer α :=
  if rb.tail = rb.cachedHead then
    let rb := { rb with cachedHead := rb.head }
    if rb.tail = rb.cachedHead then (none, rb) else rb.take
  else rb.take

/-! ## The two threads -/

/-- Where the producer is in a call of `hev_ring_buffer_push`, with its locals. -/
inductive Producer (α : Type)
  | idle
  /-- `head` loaded; next, compare `next` with `cached_tail`. -/
  | checkCached (data : α) (head : Nat)
  /-- `next == cached_tail`; next, load `tail`. -/
  | loadTail (data : α) (head : Nat)
  /-- `tail` loaded; next, store it in `cached_tail`. -/
  | storeCached (data : α) (head tail : Nat)
  /-- Next, compare `next` with `cached_tail` again (`tail` is what was loaded). -/
  | recheck (data : α) (head tail : Nat)
  /-- Not full; next, store `data` in `buffer[head]`. -/
  | storeSlot (data : α) (head : Nat)
  /-- Next, store `next` into `head` and return `0`. -/
  | publish (data : α) (head : Nat)

/-- Where the consumer is in a call of `hev_ring_buffer_pop`, with its locals. -/
inductive Consumer (α : Type)
  | idle
  /-- `tail` loaded; next, compare it with `cached_head`. -/
  | checkCached (tail : Nat)
  /-- `tail == cached_head`; next, load `head`. -/
  | loadHead (tail : Nat)
  /-- `head` loaded; next, store it in `cached_head`. -/
  | storeCached (tail head : Nat)
  /-- Next, compare `tail` with `cached_head` again (`head` is what was loaded). -/
  | recheck (tail head : Nat)
  /-- Not empty; next, read `buffer[tail]`. -/
  | readSlot (tail : Nat)
  /-- Next, store `next` into `tail` and return `data`. -/
  | publish (tail : Nat) (data : α)

/-- The ring, the two threads, and the history of the calls that returned:
    the values whose push returned `0`, and the values pop returned. -/
structure State (α : Type) where
  rb : HevRingBuffer α
  producer : Producer α
  consumer : Consumer α
  accepted : List α
  popped : List α

/-- A step: the producer calls `push data`, or takes its next step, or the
    consumer takes its next step (calling `pop` when idle). -/
inductive Event (α : Type)
  | push (data : α)
  | producer
  | consumer

/-- The producer's next step in its call of `push`. -/
def producerStep (s : State α) : Option (State α) :=
  let rb := s.rb
  match s.producer with
  | .idle => none
  | .checkCached d h =>
    some { s with producer := if (h + 1) &&& rb.mask = rb.cachedTail then .loadTail d h
                              else .storeSlot d h }
  | .loadTail d h => some { s with producer := .storeCached d h rb.tail }
  | .storeCached d h t =>
    some { s with rb := { rb with cachedTail := t }, producer := .recheck d h t }
  | .recheck d h _ =>
    some { s with producer := if (h + 1) &&& rb.mask = rb.cachedTail then .idle
                              else .storeSlot d h }
  | .storeSlot d h =>
    some { s with rb := { rb with buffer := Function.update rb.buffer h d },
                  producer := .publish d h }
  | .publish d h =>
    some { s with rb := { rb with head := (h + 1) &&& rb.mask }, producer := .idle,
                  accepted := s.accepted ++ [d] }

/-- The consumer's next step: a call of `pop` when idle, or its next step in it. -/
def consumerStep (s : State α) : Option (State α) :=
  let rb := s.rb
  match s.consumer with
  | .idle => some { s with consumer := .checkCached rb.tail }
  | .checkCached t =>
    some { s with consumer := if t = rb.cachedHead then .loadHead t else .readSlot t }
  | .loadHead t => some { s with consumer := .storeCached t rb.head }
  | .storeCached t h =>
    some { s with rb := { rb with cachedHead := h }, consumer := .recheck t h }
  | .recheck t _ =>
    some { s with consumer := if t = rb.cachedHead then .idle else .readSlot t }
  | .readSlot t => some { s with consumer := .publish t (rb.buffer t) }
  | .publish t d =>
    some { s with rb := { rb with tail := (t + 1) &&& rb.mask }, consumer := .idle,
                  popped := s.popped ++ [d] }

/-- One step of the interleaving. -/
def next (s : State α) : Event α → Option (State α)
  | .push d => match s.producer with
    | .idle => some { s with producer := .checkCached d s.rb.head }
    | _ => none
  | .producer => producerStep s
  | .consumer => consumerStep s

/-- The ring from `hev_ring_buffer_new` with both threads idle, and any
    interleaving of their steps. -/
def system [Inhabited α] : System (State α) where
  init s := s = ⟨hevRingBufferNew, .idle, .idle, [], []⟩
  step s s' := ∃ e, next s e = some s'

/-! ## Indices on the ring -/

/-- The number of steps from the index `a` forward to the index `b`. -/
def dist (a b : Nat) : Nat := (b + 4096 - a) % 4096

theorem and_mask (x : Nat) : x &&& 4095 = x % 4096 := Nat.and_pow_two_sub_one_eq_mod x 12

@[simp] theorem dist_self (a : Nat) : dist a a = 0 := by simp [dist]

/-- Going `dist a b` steps forward from `a` reaches `b`. -/
theorem add_dist {a b : Nat} (ha : a < 4096) (hb : b < 4096) : (a + dist a b) % 4096 = b := by
  unfold dist; omega

theorem dist_pos {a b : Nat} (ha : a < 4096) (hb : b < 4096) (hne : a ≠ b) : 0 < dist a b := by
  unfold dist; omega

/-- Fewer than `dist a b` steps forward from `a` do not reach `b`. -/
theorem add_ne_of_lt_dist {a b k : Nat} (hk : k < dist a b) :
    (a + k) % 4096 ≠ b := by
  unfold dist at hk; omega

theorem dist_lt (a b : Nat) : dist a b < 4096 := Nat.mod_lt _ (by decide)

/-- Going `d` steps forward from `a`, fewer than a lap, is at distance `d`. -/
theorem dist_of_add {a d : Nat} (ha : a < 4096) (hd : d < 4096) : dist a ((a + d) % 4096) = d := by
  unfold dist; omega

/-- Advancing `b` by one, short of `c`, takes it one step further from `c`. -/
theorem dist_succ_right {c b : Nat} (hc : c < 4096) (hb : b < 4096) (hne : (b + 1) % 4096 ≠ c) :
    dist c ((b + 1) % 4096) = dist c b + 1 := by
  have h := add_dist hc hb
  have hl := dist_lt c b
  have e : (b + 1) % 4096 = (c + (dist c b + 1)) % 4096 := by omega
  rw [e, dist_of_add hc (by omega)]

/-- Advancing `a` by one, short of `b`, takes it one step closer to `b`. -/
theorem dist_succ_left {a b : Nat} (ha : a < 4096) (hb : b < 4096) (hne : a ≠ b) :
    dist ((a + 1) % 4096) b = dist a b - 1 := by
  have h := add_dist ha hb
  have hp := dist_pos ha hb hne
  have e : b = ((a + 1) % 4096 + (dist a b - 1)) % 4096 := by omega
  conv_lhs => rw [e]
  exact dist_of_add (Nat.mod_lt _ (by decide)) (by have := dist_lt a b; omega)

/-- The values in the `len` slots from `start` on. -/
def window (buf : Nat → α) (start len : Nat) : List α :=
  (List.range len).map fun k => buf ((start + k) % 4096)

/-- The ring's contents: the slots from `tail` up to `head`, oldest first. -/
def contents (rb : HevRingBuffer α) : List α := window rb.buffer rb.tail (dist rb.tail rb.head)

theorem window_succ (buf : Nat → α) (start len : Nat) :
    window buf start (len + 1) = window buf start len ++ [buf ((start + len) % 4096)] := by
  simp [window, List.range_succ]

theorem window_succ_left (buf : Nat → α) (start len : Nat) :
    window buf start (len + 1) = buf (start % 4096) :: window buf ((start + 1) % 4096) len := by
  simp only [window, List.range_succ_eq_map, List.map_cons, List.map_map, Nat.add_zero]
  exact congrArg _ (List.map_congr_left fun k _ =>
    congrArg buf (by rw [Nat.mod_add_mod, Nat.succ_eq_add_one]; omega))

theorem window_update {buf : Nat → α} {start len i : Nat} (v : α)
    (h : ∀ k < len, (start + k) % 4096 ≠ i) :
    window (Function.update buf i v) start len = window buf start len :=
  List.map_congr_left fun k hk =>
    Function.update_noteq (h k (List.mem_range.1 hk)) v buf

/-! ## A call's steps are the function -/

/-- The producer's steps from `s` on, at most `n` of them, until it is idle. -/
def producerRun : Nat → State α → State α
  | 0, s => s
  | n + 1, s => match producerStep s with
    | some s' => producerRun n s'
    | none => s

/-- The consumer's steps from `s` on, at most `n` of them, until it is idle. -/
def consumerRun : Nat → State α → State α
  | 0, s => s
  | n + 1, s => match consumerStep s with
    | some s' => match s'.consumer with
      | .idle => s'
      | _ => consumerRun n s'
    | none => s

/-- A call of `push` that no consumer step interleaves computes
    `hev_ring_buffer_push`: it leaves the ring as the function does, and
    accepts `data` exactly when the function returns `0`. -/
theorem push_solo (s : State α) (d : α) :
    producerRun 6 { s with producer := .checkCached d s.rb.head } =
      { s with rb := (hevRingBufferPush s.rb d).2, producer := .idle,
               accepted := if (hevRingBufferPush s.rb d).1 = 0 then s.accepted ++ [d]
                           else s.accepted } := by
  obtain ⟨⟨head, cT, tail, cH, buf, mask⟩, p, c, acc, pop⟩ := s
  by_cases h₁ : (head + 1) &&& mask = cT
  · by_cases h₂ : (head + 1) &&& mask = tail
    · simp [producerRun, producerStep, hevRingBufferPush, h₁, h₂, h₁.symm.trans h₂]
    · have h₃ : cT ≠ tail := fun e => h₂ (h₁.trans e)
      simp [producerRun, producerStep, hevRingBufferPush, HevRingBuffer.store, h₁, h₂, h₃]
  · simp [producerRun, producerStep, hevRingBufferPush, HevRingBuffer.store, h₁]

/-- A call of `pop` that no producer step interleaves computes
    `hev_ring_buffer_pop`: it leaves the ring as the function does, and pops
    what the function returns. -/
theorem pop_solo (s : State α) (hidle : s.consumer = .idle) :
    consumerRun 7 s =
      { s with rb := (hevRingBufferPop s.rb).2,
               popped := s.popped ++ (hevRingBufferPop s.rb).1.toList } := by
  obtain ⟨⟨head, cT, tail, cH, buf, mask⟩, p, c, acc, pop⟩ := s
  subst hidle
  by_cases h₁ : tail = cH
  · by_cases h₂ : tail = head
    · simp [consumerRun, consumerStep, hevRingBufferPop, h₁, h₂, h₁.symm.trans h₂]
    · have h₃ : cH ≠ head := fun e => h₂ (h₁.trans e)
      simp [consumerRun, consumerStep, hevRingBufferPop, HevRingBuffer.take, h₁, h₂, h₃]
  · simp [consumerRun, consumerStep, hevRingBufferPop, HevRingBuffer.take, h₁]

/-! ## The invariant -/

/-- What holds at each point of the producer's call: its `head` is the ring's,
    a loaded `tail` lags the ring's, and past the check `next` is not
    `cached_tail`. -/
def ProducerInv (rb : HevRingBuffer α) : Producer α → Prop
  | .idle => True
  | .checkCached _ h | .loadTail _ h => h = rb.head
  | .storeCached _ h t => h = rb.head ∧ t < 4096 ∧ dist t rb.tail ≤ dist t rb.head
  | .recheck _ h t => h = rb.head ∧ t = rb.cachedTail
  | .storeSlot _ h => h = rb.head ∧ (h + 1) % 4096 ≠ rb.cachedTail
  | .publish d h => h = rb.head ∧ (h + 1) % 4096 ≠ rb.cachedTail ∧ rb.buffer h = d

/-- What holds at each point of the consumer's call: its `tail` is the ring's,
    a loaded `head` lies between `tail` and `head`, and past the check `tail`
    is not `cached_head`. -/
def ConsumerInv (rb : HevRingBuffer α) : Consumer α → Prop
  | .idle => True
  | .checkCached t | .loadHead t => t = rb.tail
  | .storeCached t h => t = rb.tail ∧ h < 4096 ∧ dist rb.tail h ≤ dist rb.tail rb.head
  | .recheck t h => t = rb.tail ∧ h = rb.cachedHead
  | .readSlot t => t = rb.tail ∧ t ≠ rb.cachedHead
  | .publish t d => t = rb.tail ∧ t ≠ rb.cachedHead ∧ rb.buffer t = d

/-- The invariant of the ring under every interleaving. -/
structure Inv (s : State α) : Prop where
  mask : s.rb.mask = 4095
  head_lt : s.rb.head < 4096
  tail_lt : s.rb.tail < 4096
  cachedTail_lt : s.rb.cachedTail < 4096
  cachedHead_lt : s.rb.cachedHead < 4096
  /-- `tail` lies between `cached_tail` and `head`. -/
  cachedTail_lag : dist s.rb.cachedTail s.rb.tail ≤ dist s.rb.cachedTail s.rb.head
  /-- `cached_head` lies between `tail` and `head`. -/
  cachedHead_lag : dist s.rb.tail s.rb.cachedHead ≤ dist s.rb.tail s.rb.head
  producer : ProducerInv s.rb s.producer
  consumer : ConsumerInv s.rb s.consumer
  /-- The values popped, then the contents, are the values pushed. -/
  history : s.popped ++ contents s.rb = s.accepted

/-! ## Steps keep the invariant -/

/-- Advancing `tail` towards `head` keeps it between `x` and `head`. -/
theorem dist_advance {x tail head : Nat} (hx : x < 4096) (ht : tail < 4096) (hh : head < 4096)
    (hlag : dist x tail ≤ dist x head) (hne : tail ≠ head) :
    dist x ((tail + 1) % 4096) ≤ dist x head := by
  by_cases hx' : (tail + 1) % 4096 = x
  · rw [hx', dist_self]; exact Nat.zero_le _
  · -- `dist x` tells the slots apart, so `tail` lags strictly behind `head`
    have hd : dist x tail ≠ dist x head := fun e =>
      hne (by rw [← add_dist hx ht, e, add_dist hx hh])
    rw [dist_succ_right hx ht hx']
    omega

/-- A producer's facts do not read `cached_head`. -/
theorem producerInv_cachedHead (rb : HevRingBuffer α) (h : Nat) (p : Producer α) :
    ProducerInv { rb with cachedHead := h } p ↔ ProducerInv rb p := by
  cases p <;> exact Iff.rfl

/-- A consumer's facts do not read `cached_tail`. -/
theorem consumerInv_cachedTail (rb : HevRingBuffer α) (t : Nat) (c : Consumer α) :
    ConsumerInv { rb with cachedTail := t } c ↔ ConsumerInv rb c := by
  cases c <;> exact Iff.rfl

/-- The producer's store into `buffer[head]` keeps the consumer's facts: the
    slot the consumer reads is never `head`. -/
theorem consumerInv_store {rb : HevRingBuffer α} {c : Consumer α} (d : α)
    (hc : ConsumerInv rb c) (hne : ∀ t, c = .publish t (rb.buffer t) → t ≠ rb.head) :
    ConsumerInv { rb with buffer := Function.update rb.buffer rb.head d } c := by
  cases c with
  | publish t d' =>
    obtain ⟨rfl, hne', rfl⟩ := hc
    refine ⟨rfl, hne', ?_⟩
    dsimp only
    rw [Function.update_noteq (hne _ rfl)]
  | _ => exact hc

/-- Publishing a later `head` keeps the consumer's facts. -/
theorem consumerInv_head {rb : HevRingBuffer α} {c : Consumer α} {head : Nat}
    (hc : ConsumerInv rb c) (hle : dist rb.tail rb.head ≤ dist rb.tail head) :
    ConsumerInv { rb with head := head } c := by
  cases c with
  | storeCached t h => exact ⟨hc.1, hc.2.1, hc.2.2.trans hle⟩
  | _ => exact hc

/-- Publishing a later `tail` keeps the producer's facts. -/
theorem producerInv_tail {rb : HevRingBuffer α} {p : Producer α} (ht : rb.tail < 4096)
    (hh : rb.head < 4096) (hne : rb.tail ≠ rb.head) (hp : ProducerInv rb p) :
    ProducerInv { rb with tail := (rb.tail + 1) % 4096 } p := by
  cases p with
  | storeCached d h t => exact ⟨hp.1, hp.2.1, dist_advance hp.2.1 ht hh hp.2.2 hne⟩
  | _ => exact hp

theorem inv_init [Inhabited α] : Inv (⟨hevRingBufferNew, .idle, .idle, [], []⟩ : State α) where
  mask := rfl
  head_lt := by simp [hevRingBufferNew]
  tail_lt := by simp [hevRingBufferNew]
  cachedTail_lt := by simp [hevRingBufferNew]
  cachedHead_lt := by simp [hevRingBufferNew]
  cachedTail_lag := le_rfl
  cachedHead_lag := le_rfl
  producer := trivial
  consumer := trivial
  history := by simp [contents, dist, window, hevRingBufferNew]

variable {s s' : State α}

theorem inv_push (hi : Inv s) {d : α} (h : next s (.push d) = some s') : Inv s' := by
  obtain ⟨rb, p, c, acc, pop⟩ := s
  cases p <;> simp only [next, Option.some.injEq, reduceCtorEq] at h
  subst h
  exact { hi with producer := rfl }

theorem inv_producerStep (hi : Inv s) (h : producerStep s = some s') : Inv s' := by
  obtain ⟨⟨head, cT, tail, cH, buf, mask⟩, p, c, acc, pop⟩ := s
  obtain ⟨hm, hh, ht, hct, hch, lagT, lagH, hp, hc, hist⟩ := hi
  dsimp only at *
  subst hm
  cases p with
  | idle => cases h
  | checkCached d h₀ =>
    cases h; dsimp only
    refine ⟨rfl, hh, ht, hct, hch, lagT, lagH, ?_, hc, hist⟩
    split_ifs with hfull
    · exact hp
    · exact ⟨hp, by rwa [and_mask] at hfull⟩
  | loadTail d h₀ =>
    cases h; dsimp only
    exact ⟨rfl, hh, ht, hct, hch, lagT, lagH, ⟨hp, ht, Nat.zero_le _ |>.trans_eq' (by simp [dist])⟩,
      hc, hist⟩
  | storeCached d h₀ t =>
    cases h; dsimp only
    exact ⟨rfl, hh, ht, hp.2.1, hch, hp.2.2, lagH, ⟨hp.1, rfl⟩,
      (consumerInv_cachedTail _ _ _).2 hc, hist⟩
  | recheck d h₀ t =>
    cases h; dsimp only
    refine ⟨rfl, hh, ht, hct, hch, lagT, lagH, ?_, hc, hist⟩
    split_ifs with hfull
    · trivial
    · exact ⟨hp.1, by rwa [and_mask] at hfull⟩
  | storeSlot d h₀ =>
    cases h; dsimp only
    obtain ⟨rfl, hne⟩ := hp
    refine ⟨rfl, hh, ht, hct, hch, lagT, lagH, ⟨rfl, hne, Function.update_same _ _ _⟩,
      consumerInv_store d hc ?_, ?_⟩
    · rintro t rfl
      obtain ⟨rfl, htc, -⟩ := hc
      rintro rfl
      exact (dist_pos ht hch htc).not_le (by simpa using lagH)
    · rw [← hist]
      exact congrArg _ (window_update d fun _ hk => add_ne_of_lt_dist hk)
  | publish d h₀ =>
    cases h; dsimp only; rw [and_mask]
    obtain ⟨rfl, hne, rfl⟩ := hp
    -- `head` is short of `cached_tail`, so also of `tail`, which lies between
    have hct' := dist_succ_right hct hh hne
    have hd : dist tail ((h₀ + 1) % 4096) = dist tail h₀ + 1 :=
      dist_succ_right ht hh fun e => by rw [e] at hct'; omega
    refine ⟨rfl, Nat.mod_lt _ (by decide), ht, hct, hch, hct' ▸ Nat.le_succ_of_le lagT,
      hd ▸ Nat.le_succ_of_le lagH, trivial, consumerInv_head hc (hd ▸ Nat.le_succ _), ?_⟩
    simp only [contents, hd, window_succ, ← hist, List.append_assoc, add_dist ht hh]

theorem inv_consumerStep (hi : Inv s) (h : consumerStep s = some s') : Inv s' := by
  obtain ⟨⟨head, cT, tail, cH, buf, mask⟩, p, c, acc, pop⟩ := s
  obtain ⟨hm, hh, ht, hct, hch, lagT, lagH, hp, hc, hist⟩ := hi
  dsimp only at *
  subst hm
  cases c with
  | idle =>
    cases h; dsimp only
    exact ⟨rfl, hh, ht, hct, hch, lagT, lagH, hp, rfl, hist⟩
  | checkCached t =>
    cases h; dsimp only
    refine ⟨rfl, hh, ht, hct, hch, lagT, lagH, hp, ?_, hist⟩
    split_ifs with he
    · exact hc
    · exact ⟨hc, he⟩
  | loadHead t =>
    cases h; dsimp only
    exact ⟨rfl, hh, ht, hct, hch, lagT, lagH, hp, ⟨hc, hh, le_rfl⟩, hist⟩
  | storeCached t h₀ =>
    cases h; dsimp only
    exact ⟨rfl, hh, ht, hct, hc.2.1, lagT, hc.2.2, (producerInv_cachedHead _ _ _).2 hp,
      ⟨hc.1, rfl⟩, hist⟩
  | recheck t h₀ =>
    cases h; dsimp only
    refine ⟨rfl, hh, ht, hct, hch, lagT, lagH, hp, ?_, hist⟩
    split_ifs with he
    · trivial
    · exact ⟨hc.1, he⟩
  | readSlot t =>
    cases h; dsimp only
    exact ⟨rfl, hh, ht, hct, hch, lagT, lagH, hp, ⟨hc.1, hc.2, hc.1 ▸ rfl⟩, hist⟩
  | publish t d =>
    cases h; dsimp only; rw [and_mask]
    obtain ⟨rfl, htc, rfl⟩ := hc
    dsimp only at htc
    have hpos : 0 < dist t head := (dist_pos ht hch htc).trans_le lagH
    have hne : t ≠ head := by rintro rfl; simp at hpos
    refine ⟨rfl, hh, Nat.mod_lt _ (by decide), hct, hch, dist_advance hct ht hh lagT hne, ?_,
      producerInv_tail ht hh hne hp, trivial, ?_⟩
    · rw [dist_succ_left ht hch htc, dist_succ_left ht hh hne]
      exact Nat.sub_le_sub_right lagH 1
    · obtain ⟨n, hn⟩ : ∃ n, dist t head = n + 1 := ⟨_, (Nat.succ_pred_eq_of_pos hpos).symm⟩
      have hn' : dist ((t + 1) % 4096) head = n := by rw [dist_succ_left ht hh hne, hn]; rfl
      rw [← hist]
      simp only [contents, hn, hn', window_succ_left, Nat.mod_eq_of_lt ht,
        List.append_assoc, List.singleton_append]

/-- Every step keeps the invariant. -/
theorem inv_next (hi : Inv s) {e : Event α} (h : next s e = some s') : Inv s' := by
  cases e with
  | push d => exact inv_push hi h
  | producer => exact inv_producerStep hi h
  | consumer => exact inv_consumerStep hi h

/-- The invariant holds under every interleaving. -/
theorem reachable_inv [Inhabited α] (hs : system.Reachable s) : Inv s :=
  System.reachable_induction (fun _ h => h ▸ inv_init) (fun _ _ _ hi ⟨_, h⟩ => inv_next hi h) hs

/-! ## What the calls observe -/

/-- The size `hev_ring_buffer_size` computes from two indices is the distance
    from `tail` to `head`. -/
theorem ringSize_eq {head tail : Nat} (hh : head < 4096) (ht : tail < 4096) :
    ringSize head tail 4095 = dist tail head := by
  simp only [ringSize, sizeSub, and_mask, dist]; omega

/-- A ring with no call under way: the invariant of the interleavings, both
    threads idle. -/
def WellFormed (rb : HevRingBuffer α) : Prop :=
  Inv (⟨rb, .idle, .idle, contents rb, []⟩ : State α)

/-- The invariant reads the history only through its equation. -/
theorem Inv.with_history {rb : HevRingBuffer α} {p : Producer α} {c : Consumer α}
    {acc pop acc' pop' : List α} (hi : Inv ⟨rb, p, c, acc, pop⟩)
    (h : pop' ++ contents rb = acc') : Inv ⟨rb, p, c, acc', pop'⟩ :=
  ⟨hi.mask, hi.head_lt, hi.tail_lt, hi.cachedTail_lt, hi.cachedHead_lt, hi.cachedTail_lag,
    hi.cachedHead_lag, hi.producer, hi.consumer, h⟩

theorem inv_producerRun : ∀ (n : Nat) {s : State α}, Inv s → Inv (producerRun n s)
  | 0, _, hi => hi
  | n + 1, s, hi => by
    rw [producerRun]
    split
    · next h => exact inv_producerRun n (inv_producerStep hi h)
    · exact hi

theorem inv_consumerRun : ∀ (n : Nat) {s : State α}, Inv s → Inv (consumerRun n s)
  | 0, _, hi => hi
  | n + 1, s, hi => by
    rw [consumerRun]
    split
    · next h =>
      split
      · exact inv_consumerStep hi h
      · exact inv_consumerRun n (inv_consumerStep hi h)
    · exact hi

@[simp] theorem contents_new [Inhabited α] : contents (hevRingBufferNew : HevRingBuffer α) = [] := by
  simp [contents, dist, window, hevRingBufferNew]

theorem wellFormed_new [Inhabited α] : WellFormed (hevRingBufferNew : HevRingBuffer α) :=
  inv_init.with_history (by simp)

theorem hevRingBufferPush_fst (rb : HevRingBuffer α) (d : α) :
    (hevRingBufferPush rb d).1 = 0 ∨ (hevRingBufferPush rb d).1 = -1 := by
  dsimp only [hevRingBufferPush]
  split_ifs <;> simp

/-- `hev_ring_buffer_push` on a well-formed ring returns `0` and appends
    `data` to the contents, or returns `-1` and leaves them; the ring stays
    well formed. -/
theorem hevRingBufferPush_spec {rb : HevRingBuffer α} (hw : WellFormed rb) (d : α) :
    WellFormed (hevRingBufferPush rb d).2 ∧
      ((hevRingBufferPush rb d).1 = 0 ∧
          contents (hevRingBufferPush rb d).2 = contents rb ++ [d] ∨
        (hevRingBufferPush rb d).1 = -1 ∧ contents (hevRingBufferPush rb d).2 = contents rb) := by
  have hi := inv_producerRun 6 (inv_push hw (d := d) rfl)
  rw [push_solo] at hi
  have hh : contents (hevRingBufferPush rb d).2 =
      if (hevRingBufferPush rb d).1 = 0 then contents rb ++ [d] else contents rb := hi.history
  refine ⟨hi.with_history rfl, ?_⟩
  rcases hevRingBufferPush_fst rb d with h | h
  · exact .inl ⟨h, by rw [hh, if_pos h]⟩
  · exact .inr ⟨h, by rw [hh, if_neg (by rw [h]; decide)]⟩

/-- `hev_ring_buffer_pop` on a well-formed ring returns the first value of
    the contents and drops it, or returns `NULL` and leaves them; the ring
    stays well formed. -/
theorem hevRingBufferPop_spec {rb : HevRingBuffer α} (hw : WellFormed rb) :
    WellFormed (hevRingBufferPop rb).2 ∧
      (hevRingBufferPop rb).1.toList ++ contents (hevRingBufferPop rb).2 = contents rb := by
  have hi := inv_consumerRun 7 hw
  rw [pop_solo _ rfl] at hi
  exact ⟨hi.with_history rfl, hi.history⟩

/-- `hev_ring_buffer_pop` returns `NULL` only on an empty ring. -/
theorem contents_of_pop_none {rb : HevRingBuffer α} (h : (hevRingBufferPop rb).1 = none) :
    contents rb = [] := by
  dsimp only [hevRingBufferPop] at h
  split_ifs at h with h₁ h₂
  · simp [contents, h₂, window]
  all_goals simp [HevRingBuffer.take] at h

/-- The size `hev_ring_buffer_size` computes of a well-formed ring is the
    length of its contents. -/
theorem hevRingBufferSize_eq_length {rb : HevRingBuffer α} (hw : WellFormed rb) :
    hevRingBufferSize rb = (contents rb).length := by
  rw [hevRingBufferSize, hw.mask, ringSize_eq hw.head_lt hw.tail_lt, contents, window,
    List.length_map, List.length_range]

/-- `hev_ring_buffer_push` on a well-formed ring moves `head` on by one when
    it stores, and leaves it when the ring is full. -/
theorem hevRingBufferPush_head {rb : HevRingBuffer α} (hw : WellFormed rb) (d : α) :
    (hevRingBufferPush rb d).2.head =
      if (hevRingBufferPush rb d).1 = 0 then (rb.head + 1) % 4096 else rb.head := by
  have hm : rb.mask = 4095 := hw.mask
  dsimp only [hevRingBufferPush]
  split_ifs <;> simp_all [HevRingBuffer.store, and_mask]

/-- `hev_ring_buffer_pop` moves only `tail` and `cached_head`. -/
@[simp] theorem hevRingBufferPop_head (rb : HevRingBuffer α) :
    (hevRingBufferPop rb).2.head = rb.head := by
  dsimp only [hevRingBufferPop]; split_ifs <;> rfl

end HevTunnel.RingBuffer
