import HevTunnel.System
import Mathlib.Data.Multiset.Range
import Mathlib.Data.Multiset.Nodup
import Mathlib.Data.List.GetD

/-!
# The io_uring wrapper

`hev-io-uring.c` over liburing: `hev_io_uring_read` and `hev_io_uring_write`
take an SQE with `io_uring_get_sqe`, `malloc` a request holding the callback,
prepare the SQE and set its `user_data` to the request; `hev_io_uring_submit`
hands the SQEs to the kernel; `hev_io_uring_wait` waits for `min_complete`
CQEs, then for each one calls the request's callback, frees the request, and
advances the CQ.

liburing's `io_uring_get_sqe` advances the local tail of the submission ring
and returns the slot there as it is: what the SQE held stays until it is
prepared. A call whose `malloc` fails returns `-1` after claiming the slot,
and the next `io_uring_submit` hands the kernel that SQE with what it held
before. The kernel runs the submitted operations and completes them in any
order.

The state carries as ghosts the calls that returned `0` (each request
remembers its call), the calls whose callback `wait` invoked and whose
request it freed, and the SQEs claimed by calls that returned `-1`
(`orphans`).

* `pendingSqes_claim`, `pendingSqes_orphan`: a prepared SQE joins the queue
  with its request; a claimed one that is not prepared joins it with what the
  slot held;
* `inv_next`, `reachable_inv`: along every run without an orphan SQE, the
  requests waiting (in the queue, in the kernel, in the CQ) are exactly the
  live ones, and the freed and the live requests together are the calls that
  returned `0`, each once;
* `io_uring_failed_prep_requeues`: so along such runs every request is
  dispatched once; but a failed `malloc` queues an SQE, and after a completed
  request the one-slot ring hands its stale `user_data` back: the callback
  runs twice and the request is freed twice.
-/

namespace HevTunnel.IoUring

/-- The operation of an SQE; `nop` is opcode `0`, that of a zeroed SQE. -/
inductive Op
  | nop
  | read (fd : Int) (buf len : Nat) (offset : Int)
  | write (fd : Int) (buf len : Nat) (offset : Int)
  deriving DecidableEq

/-- A submission queue entry: its operation and `user_data`. -/
structure Sqe where
  op : Op
  userData : Nat
  deriving DecidableEq

/-- A completion queue entry. -/
structure Cqe where
  userData : Nat
  res : Int
  deriving DecidableEq

/-- `struct io_uring` as liburing and the kernel keep it: the `entries` SQE
    slots, the SQEs handed out from `sqeHead` to `sqeTail` and not yet
    submitted, the `user_data` of the operations the kernel runs, and the
    CQEs not yet consumed. -/
structure Ring where
  entries : Nat
  sqes : Nat → Sqe
  sqeHead : Nat
  sqeTail : Nat
  inflight : List Nat
  cq : List Cqe

/-- `HevIoUringRequest`, with the call that allocated it as a ghost. -/
structure HevIoUringRequest where
  callback : Nat
  userData : Nat
  call : Nat

/-- The ring, the heap of requests (what is stored at an address, kept after
    `free`), the addresses allocated and not freed, and the ghosts. -/
structure State where
  ring : Ring
  heap : Nat → HevIoUringRequest
  live : List Nat
  /-- The number of calls that returned `0`, and the callback of each. -/
  calls : Nat
  callbacks : List Nat
  /-- The calls whose callback `wait` invoked, and whose request it freed. -/
  invoked : List Nat
  freed : List Nat
  /-- The SQEs claimed by calls that returned `-1`. -/
  orphans : Nat

/-! ## liburing -/

/-- `io_uring_get_sqe`: the slot at the local tail, which it advances; `NULL`
    when `entries` SQEs wait for submission. -/
def Ring.getSqe (r : Ring) : Option (Nat × Ring) :=
  if r.sqeTail - r.sqeHead < r.entries then some (r.sqeTail % r.entries, { r with sqeTail := r.sqeTail + 1 })
  else none

/-- The `user_data` of the SQEs handed out and not submitted, in order. -/
def Ring.pendingSqes (r : Ring) : List Nat :=
  (List.range' r.sqeHead (r.sqeTail - r.sqeHead)).map fun i => (r.sqes (i % r.entries)).userData

/-- `io_uring_submit`: the kernel takes every SQE handed out; their number. -/
def Ring.submit (r : Ring) : Int × Ring :=
  ((r.sqeTail - r.sqeHead : Nat), { r with inflight := r.inflight ++ r.pendingSqes, sqeHead := r.sqeTail })

/-- The kernel completes an operation of `user_data` `ud` with `res`. -/
def Ring.complete (r : Ring) (ud : Nat) (res : Int) : Option Ring :=
  if ud ∈ r.inflight then some { r with inflight := r.inflight.erase ud, cq := r.cq ++ [⟨ud, res⟩] }
  else none

/-! ## The wrapper -/

/-- `hev_io_uring_read` and `hev_io_uring_write`, preparing `op`; `malloc`
    is what `malloc (sizeof (HevIoUringRequest))` returns (`none` for
    `NULL`). -/
def hevIoUringPrep (op : Op) (callback userData : Nat) (malloc : Option Nat) (s : State) :
    Int × State :=
  match s.ring.getSqe with
  | none => (-1, s)
  | some (slot, ring) =>
    match malloc with
    | none => (-1, { s with ring, orphans := s.orphans + 1 })
    | some req =>
      (0, { s with
        ring := { ring with sqes := Function.update ring.sqes slot ⟨op, req⟩ }
        heap := Function.update s.heap req ⟨callback, userData, s.calls⟩
        live := s.live ++ [req]
        calls := s.calls + 1
        callbacks := s.callbacks ++ [callback] })

/-- `offset >= 0 ? offset : 0`. -/
def prepOffset (offset : Int) : Int := if offset ≥ 0 then offset else 0

def hevIoUringRead (fd : Int) (buf len : Nat) (offset : Int) (callback userData : Nat)
    (malloc : Option Nat) (s : State) : Int × State :=
  hevIoUringPrep (.read fd buf len (prepOffset offset)) callback userData malloc s

def hevIoUringWrite (fd : Int) (buf len : Nat) (offset : Int) (callback userData : Nat)
    (malloc : Option Nat) (s : State) : Int × State :=
  hevIoUringPrep (.write fd buf len (prepOffset offset)) callback userData malloc s

def hevIoUringSubmit (s : State) : Int × State :=
  (s.ring.submit.1, { s with ring := s.ring.submit.2 })

/-- The body of `io_uring_for_each_cqe` in `hev_io_uring_wait`: the request
    of the CQE, if any, has its callback called and is freed. -/
def handleCqe (s : State) (cqe : Cqe) : State :=
  let req := cqe.userData
  if req = 0 then s
  else
    let r := s.heap req
    { s with
      invoked := if r.callback ≠ 0 then s.invoked ++ [r.call] else s.invoked
      freed := s.freed ++ [r.call]
      live := s.live.erase req }

/-- `hev_io_uring_wait (ring, min_complete)`; `err` is the error
    `io_uring_wait_cqe_nr` may return. It waits (`none`) while fewer than
    `min_complete` CQEs are there. -/
def hevIoUringWait (minComplete : Nat) (err : Option Int) (s : State) : Option (Int × State) :=
  match err with
  | some e => some (e, s)
  | none =>
    if s.ring.cq.length < minComplete then none
    else some (s.ring.cq.length, { s.ring.cq.foldl handleCqe s with ring := { s.ring with cq := [] } })

/-! ## The system -/

/-- What the program and the kernel do. -/
inductive Event
  /-- A call of `hev_io_uring_read`, `malloc` returning `malloc`. -/
  | read (fd : Int) (buf len : Nat) (offset : Int) (callback userData : Nat) (malloc : Option Nat)
  | write (fd : Int) (buf len : Nat) (offset : Int) (callback userData : Nat) (malloc : Option Nat)
  | submit
  /-- The kernel completes an operation. -/
  | complete (userData : Nat) (res : Int)
  | wait (minComplete : Nat) (err : Option Int)

/-- `malloc` returns `NULL` or an address not allocated. -/
def State.fresh (s : State) : Option Nat → Bool
  | none => true
  | some a => a ≠ 0 && a ∉ s.live

def next (s : State) : Event → Option State
  | .read fd buf len offset callback userData malloc =>
    if s.fresh malloc then some (hevIoUringRead fd buf len offset callback userData malloc s).2 else none
  | .write fd buf len offset callback userData malloc =>
    if s.fresh malloc then some (hevIoUringWrite fd buf len offset callback userData malloc s).2 else none
  | .submit => some (hevIoUringSubmit s).2
  | .complete ud res => (s.ring.complete ud res).map fun ring => { s with ring }
  | .wait minComplete err => (hevIoUringWait minComplete err s).map Prod.snd

/-- The state after `hev_io_uring_new (entries)`: a ring of `entries` zeroed
    SQEs, nothing allocated. -/
def initial (entries : Nat) : State where
  ring := ⟨entries, fun _ => ⟨.nop, 0⟩, 0, 0, [], []⟩
  heap := fun _ => ⟨0, 0, 0⟩
  live := []
  calls := 0
  callbacks := []
  invoked := []
  freed := []
  orphans := 0

def system : System State where
  init s := ∃ entries, 0 < entries ∧ s = initial entries
  step s s' := ∃ e, next s e = some s'

theorem reachable_next {s s' : State} (hs : system.Reachable s) (e : Event)
    (h : next s e = some s') : system.Reachable s' :=
  .step hs ⟨e, h⟩

/-! ## The submission queue -/

/-- Two indices less than `entries` apart fall in different slots. -/
theorem mod_ne_of_lt {e i t : Nat} (hit : i < t) (hd : t - i < e) : i % e ≠ t % e := by
  intro h
  have h0 := Nat.sub_mod_eq_zero_of_mod_eq h.symm
  rw [Nat.mod_eq_of_lt hd] at h0
  omega

/-- Advancing the tail over a slot appends its `user_data` to the queue,
    whatever the slots of the waiting SQEs hold. -/
theorem pendingSqes_advance (r : Ring) (sqes : Nat → Sqe) (hle : r.sqeHead ≤ r.sqeTail)
    (hsame : ∀ i, r.sqeHead ≤ i → i < r.sqeTail → sqes (i % r.entries) = r.sqes (i % r.entries)) :
    { r with sqes, sqeTail := r.sqeTail + 1 }.pendingSqes =
      r.pendingSqes ++ [(sqes (r.sqeTail % r.entries)).userData] := by
  simp only [Ring.pendingSqes]
  rw [show r.sqeTail + 1 - r.sqeHead = r.sqeTail - r.sqeHead + 1 by omega, List.range'_concat,
    List.map_append, List.map_singleton, Nat.one_mul, Nat.add_sub_cancel' hle]
  congr 1
  refine List.map_congr_left fun i hi => ?_
  rw [List.mem_range'_1] at hi
  rw [hsame i hi.1 (by omega)]

/-- A prepared SQE joins the queue with its `user_data`. -/
theorem pendingSqes_claim (r : Ring) (sqe : Sqe) (hle : r.sqeHead ≤ r.sqeTail)
    (hroom : r.sqeTail - r.sqeHead < r.entries) :
    { r with sqes := Function.update r.sqes (r.sqeTail % r.entries) sqe, sqeTail := r.sqeTail + 1 }.pendingSqes =
      r.pendingSqes ++ [sqe.userData] := by
  rw [pendingSqes_advance r _ hle fun i hi hit => Function.update_noteq (mod_ne_of_lt hit (by omega)) _ _,
    Function.update_same]

/-- A claimed SQE that is not prepared joins the queue with what its slot
    held. -/
theorem pendingSqes_orphan (r : Ring) (hle : r.sqeHead ≤ r.sqeTail) :
    { r with sqeTail := r.sqeTail + 1 }.pendingSqes =
      r.pendingSqes ++ [(r.sqes (r.sqeTail % r.entries)).userData] :=
  pendingSqes_advance r r.sqes hle fun _ _ _ => rfl

theorem pendingSqes_submit (r : Ring) : r.submit.2.pendingSqes = [] := by
  simp [Ring.submit, Ring.pendingSqes]

/-! ## What a call of `read` or `write` does -/

section Prep

variable {s : State} (op : Op) (callback userData : Nat)

/-- With `entries` SQEs waiting, `io_uring_get_sqe` fails and the call
    returns `-1`, changing nothing. -/
theorem hevIoUringPrep_full (malloc : Option Nat)
    (h : ¬ s.ring.sqeTail - s.ring.sqeHead < s.ring.entries) :
    hevIoUringPrep op callback userData malloc s = (-1, s) := by
  simp [hevIoUringPrep, Ring.getSqe, h]

/-- With room, a failed `malloc` returns `-1` after the SQE was claimed. -/
theorem hevIoUringPrep_none (h : s.ring.sqeTail - s.ring.sqeHead < s.ring.entries) :
    hevIoUringPrep op callback userData none s =
      (-1, { s with ring := { s.ring with sqeTail := s.ring.sqeTail + 1 }, orphans := s.orphans + 1 }) := by
  simp [hevIoUringPrep, Ring.getSqe, h]

theorem hevIoUringPrep_orphans (malloc : Option Nat) :
    s.orphans ≤ (hevIoUringPrep op callback userData malloc s).2.orphans := by
  by_cases h : s.ring.sqeTail - s.ring.sqeHead < s.ring.entries
  · cases malloc with
    | none => rw [hevIoUringPrep_none op callback userData h]; exact Nat.le_succ _
    | some a => simp [hevIoUringPrep, Ring.getSqe, h]
  · rw [hevIoUringPrep_full op callback userData malloc h]

end Prep

/-! ## Every run without an orphan -/

/-- The requests waiting: in the submission queue, in the kernel, in the CQ. -/
def State.pending (s : State) : Multiset Nat :=
  (s.ring.pendingSqes : Multiset Nat) + s.ring.inflight + (s.ring.cq.map Cqe.userData : Multiset Nat)

/-- The invariant of the runs without an orphan SQE: the ring's queue within
    its slots; the live requests are the waiting ones, each once and none
    `NULL`; the freed and the live requests are the calls that returned `0`,
    each once; a live request has its call's callback; and `wait` invoked the
    callbacks of the freed requests that have one. -/
structure Inv (s : State) : Prop where
  entries_pos : 0 < s.ring.entries
  head_le : s.ring.sqeHead ≤ s.ring.sqeTail
  room : s.ring.sqeTail - s.ring.sqeHead ≤ s.ring.entries
  live : (s.live : Multiset Nat) = s.pending
  nodup : s.live.Nodup
  nonzero : 0 ∉ s.live
  calls : (s.freed : Multiset Nat) + (s.live.map fun a => (s.heap a).call : Multiset Nat) =
    Multiset.range s.calls
  callbacks_length : s.callbacks.length = s.calls
  callback : ∀ a ∈ s.live, s.callbacks.getD (s.heap a).call 0 = (s.heap a).callback
  invoked : s.invoked = s.freed.filter fun k => s.callbacks.getD k 0 ≠ 0

theorem inv_initial (entries : Nat) (h : 0 < entries) : Inv (initial entries) :=
  ⟨h, le_rfl, Nat.zero_le _, by simp [State.pending, initial, Ring.pendingSqes], List.nodup_nil,
    List.not_mem_nil 0, by simp [initial], rfl, fun _ h => absurd h (List.not_mem_nil _), rfl⟩

variable {s s' : State}

theorem Inv.call_lt (hi : Inv s) {a : Nat} (ha : a ∈ s.live) : (s.heap a).call < s.calls := by
  have h : (s.heap a).call ∈ Multiset.range s.calls := by
    rw [← hi.calls]; exact Multiset.mem_add.2 (.inr (Multiset.mem_coe.2 (List.mem_map_of_mem _ ha)))
  exact Multiset.mem_range.1 h

theorem Inv.freed_lt (hi : Inv s) {k : Nat} (hk : k ∈ s.freed) : k < s.calls := by
  have h : k ∈ Multiset.range s.calls := by
    rw [← hi.calls]; exact Multiset.mem_add.2 (.inl (Multiset.mem_coe.2 hk))
  exact Multiset.mem_range.1 h

/-- A call that returns `0` keeps the invariant. -/
theorem Inv.claim (hi : Inv s) (hroom : s.ring.sqeTail - s.ring.sqeHead < s.ring.entries) {a : Nat}
    (ha : a ≠ 0) (hfresh : a ∉ s.live) (op : Op) (callback userData : Nat) :
    Inv (hevIoUringPrep op callback userData (some a) s).2 := by
  have hsqes := pendingSqes_claim s.ring ⟨op, a⟩ hi.head_le hroom
  have hheap : ∀ b ∈ s.live, Function.update s.heap a ⟨callback, userData, s.calls⟩ b = s.heap b :=
    fun b hb => Function.update_noteq (fun e : b = a => hfresh (e ▸ hb)) _ _
  have hmap : s.live.map (fun b => (Function.update s.heap a ⟨callback, userData, s.calls⟩ b).call) =
      s.live.map fun b => (s.heap b).call :=
    List.map_congr_left fun b hb => by rw [hheap b hb]
  have hgetD : ∀ k < s.calls, (s.callbacks ++ [callback]).getD k 0 = s.callbacks.getD k 0 :=
    fun k hk => List.getD_append _ _ _ _ (hi.callbacks_length ▸ hk)
  have hle := hi.head_le
  simp only [hevIoUringPrep, Ring.getSqe, if_pos hroom]
  refine ⟨hi.entries_pos, by dsimp only; omega, by dsimp only; omega, ?_, ?_, ?_, ?_, ?_, ?_, ?_⟩
  all_goals dsimp only
  · -- the new request waits in the queue
    have h := hi.live
    simp only [State.pending, hsqes, ← Multiset.coe_add] at h ⊢
    rw [h]
    ac_rfl
  · exact List.nodup_append.2 ⟨hi.nodup, List.nodup_singleton a, List.disjoint_singleton.2 hfresh⟩
  · simpa [ha.symm] using hi.nonzero
  · -- the new request is the new call
    rw [List.map_append, hmap, List.map_singleton, Function.update_same, ← Multiset.coe_add,
      ← add_assoc, hi.calls, Multiset.range_succ, add_comm, Multiset.coe_singleton, Multiset.singleton_add]
  · simp [hi.callbacks_length]
  · intro b hb
    rcases List.mem_append.1 hb with hb | hb
    · rw [hheap b hb, hgetD _ (hi.call_lt hb), hi.callback b hb]
    · rw [List.mem_singleton.1 hb, Function.update_same]
      simp [List.getD_append_right, hi.callbacks_length]
  · rw [hi.invoked]
    exact List.filter_congr fun k hk => by rw [hgetD k (hi.freed_lt hk)]

/-- Submitting moves the queue into the kernel. -/
theorem Inv.submit (hi : Inv s) : Inv (hevIoUringSubmit s).2 := by
  have h := hi.live
  refine ⟨hi.entries_pos, le_rfl, by simp [hevIoUringSubmit, Ring.submit], ?_, hi.nodup, hi.nonzero,
    hi.calls, hi.callbacks_length, hi.callback, hi.invoked⟩
  simp only [State.pending, hevIoUringSubmit, pendingSqes_submit] at h ⊢
  simp only [Ring.submit, ← Multiset.coe_add, Multiset.coe_nil, zero_add] at h ⊢
  rw [h]; ac_rfl

/-- A completion moves an operation from the kernel to the CQ. -/
theorem Inv.complete (hi : Inv s) {ud : Nat} {res : Int} {r : Ring} (h : s.ring.complete ud res = some r) :
    Inv { s with ring := r } := by
  unfold Ring.complete at h
  split_ifs at h with hud
  cases h
  refine ⟨hi.entries_pos, hi.head_le, hi.room, ?_, hi.nodup, hi.nonzero, hi.calls, hi.callbacks_length,
    hi.callback, hi.invoked⟩
  have hl := hi.live
  have hcons := Multiset.cons_erase (Multiset.mem_coe.2 hud)
  simp only [State.pending, Ring.pendingSqes] at hl ⊢
  rw [hl, List.map_append, List.map_singleton, ← Multiset.coe_add, ← Multiset.coe_erase,
    Multiset.coe_singleton, ← hcons, Multiset.erase_cons_head]
  simp only [Multiset.add_cons, Multiset.cons_add, add_assoc]
  rw [← Multiset.singleton_add]
  ac_rfl

/-- What `wait` does to the other fields: nothing. -/
theorem foldl_handleCqe_frame (L : List Cqe) (s : State) :
    (L.foldl handleCqe s).heap = s.heap ∧ (L.foldl handleCqe s).calls = s.calls ∧
      (L.foldl handleCqe s).callbacks = s.callbacks ∧ (L.foldl handleCqe s).orphans = s.orphans := by
  induction L generalizing s with
  | nil => exact ⟨rfl, rfl, rfl, rfl⟩
  | cons c L ih =>
    obtain ⟨h₁, h₂, h₃, h₄⟩ := ih (handleCqe s c)
    rw [List.foldl_cons, h₁, h₂, h₃, h₄]
    unfold handleCqe
    dsimp only
    split_ifs <;> exact ⟨rfl, rfl, rfl, rfl⟩

/-- `wait`'s loop over CQEs of live requests, none `NULL`: it frees each
    request, records its call, and records its callback's call when there is
    one. -/
theorem foldl_handleCqe (L : List Cqe) (R : Multiset Nat) (s : State)
    (hnz : ∀ c ∈ L, c.userData ≠ 0)
    (hlive : (s.live : Multiset Nat) = (L.map Cqe.userData : Multiset Nat) + R) :
    ((L.foldl handleCqe s).live : Multiset Nat) = R ∧
    (L.foldl handleCqe s).freed = s.freed ++ L.map (fun c => (s.heap c.userData).call) ∧
    (L.foldl handleCqe s).invoked = s.invoked ++
      ((L.filter fun c => (s.heap c.userData).callback ≠ 0).map fun c => (s.heap c.userData).call) ∧
    (L.foldl handleCqe s).live.Sublist s.live := by
  induction L generalizing s with
  | nil => simpa using hlive
  | cons c L ih =>
    have hc := hnz c (.head _)
    have hlive₁ : ((handleCqe s c).live : Multiset Nat) = (L.map Cqe.userData : Multiset Nat) + R := by
      simp only [handleCqe, hc, if_false, ← Multiset.coe_erase, hlive, List.map_cons,
        ← Multiset.cons_coe, Multiset.cons_add, Multiset.erase_cons_head]
    obtain ⟨h₁, h₂, h₃, h₄⟩ := ih (handleCqe s c) (fun c' hc' => hnz c' (.tail _ hc')) hlive₁
    have hheap := (foldl_handleCqe_frame [] (handleCqe s c)).1
    refine ⟨h₁, ?_, ?_, h₄.trans ?_⟩
    · rw [List.foldl_cons, h₂]
      simp [handleCqe, hc]
    · rw [List.foldl_cons, h₃]
      by_cases hcb : (s.heap c.userData).callback ≠ 0
      · simp [handleCqe, hc, hcb, List.filter_cons]
      · simp [handleCqe, hc, hcb, List.filter_cons]
    · simp only [handleCqe, hc, if_false]
      exact List.erase_sublist _ _

/-- `wait` dispatches the CQ. -/
theorem Inv.wait (hi : Inv s) :
    Inv { s.ring.cq.foldl handleCqe s with ring := { s.ring with cq := [] } } := by
  have hl := hi.live
  simp only [State.pending] at hl
  have hmem : ∀ c ∈ s.ring.cq, c.userData ∈ s.live := fun c hc => by
    rw [← Multiset.mem_coe, hl]
    exact Multiset.mem_add.2 (.inr (Multiset.mem_coe.2 (List.mem_map_of_mem _ hc)))
  obtain ⟨hlive, hfreed, hinv, hsub⟩ := foldl_handleCqe s.ring.cq
    (s.ring.pendingSqes + s.ring.inflight) s
    (fun c hc e => hi.nonzero (e ▸ hmem c hc)) (by rw [hl]; ac_rfl)
  obtain ⟨hheap, hcalls, hcbs, -⟩ := foldl_handleCqe_frame s.ring.cq s
  refine ⟨hi.entries_pos, hi.head_le, hi.room, ?_, hi.nodup.sublist hsub,
    fun h => hi.nonzero (hsub.subset h), ?_, by dsimp only; rw [hcbs, hcalls]; exact hi.callbacks_length,
    fun a ha => ?_, ?_⟩
  · dsimp only
    rw [hlive]
    simp [State.pending, Ring.pendingSqes]
  · -- the requests dispatched move from the live ones to the freed ones
    dsimp only
    rw [hheap, hcalls, hfreed, ← hi.calls, ← Multiset.coe_add]
    simp only [← Multiset.map_coe, hlive, hl, Multiset.map_add, Multiset.map_map, Function.comp_def]
    ac_rfl
  · dsimp only at ha ⊢
    rw [hheap, hcbs]
    exact hi.callback a (hsub.subset ha)
  · dsimp only
    rw [hinv, hfreed, hcbs, hi.invoked, List.filter_append, List.filter_map]
    congr 1
    refine congrArg _ (List.filter_congr fun c hc => ?_)
    simp only [Function.comp_apply, hi.callback _ (hmem c hc)]

/-- A call of `read` or `write` that leaves no orphan SQE keeps the
    invariant. -/
theorem Inv.prep (hi : Inv s) {op : Op} {callback userData : Nat} {malloc : Option Nat}
    (hf : s.fresh malloc) (ho : (hevIoUringPrep op callback userData malloc s).2.orphans = 0) :
    Inv (hevIoUringPrep op callback userData malloc s).2 := by
  by_cases hroom : s.ring.sqeTail - s.ring.sqeHead < s.ring.entries
  · cases malloc with
    | none =>
      rw [hevIoUringPrep_none op callback userData hroom] at ho
      exact absurd ho (Nat.succ_ne_zero _)
    | some a =>
      simp only [State.fresh, Bool.and_eq_true, decide_eq_true_eq] at hf
      exact hi.claim hroom hf.1 hf.2 op callback userData
  · rwa [hevIoUringPrep_full op callback userData malloc hroom]

/-- No step takes an orphan SQE back. -/
theorem next_orphans {e : Event} (h : next s e = some s') : s.orphans ≤ s'.orphans := by
  cases e with
  | read =>
    simp only [next] at h
    split_ifs at h
    cases h; exact hevIoUringPrep_orphans ..
  | write =>
    simp only [next] at h
    split_ifs at h
    cases h; exact hevIoUringPrep_orphans ..
  | submit => cases h; exact le_rfl
  | complete ud res =>
    obtain ⟨r, -, rfl⟩ := Option.map_eq_some'.1 h
    exact le_rfl
  | wait minComplete err =>
    obtain ⟨⟨n, t⟩, hw, rfl⟩ := Option.map_eq_some'.1 h
    simp only [hevIoUringWait] at hw
    split at hw
    · cases hw; exact le_rfl
    · split_ifs at hw
      cases hw; exact (foldl_handleCqe_frame s.ring.cq s).2.2.2.ge

theorem inv_next (hi : Inv s) {e : Event} (h : next s e = some s') (ho : s'.orphans = 0) : Inv s' := by
  cases e with
  | read =>
    simp only [next] at h
    split_ifs at h with hf
    cases h; exact hi.prep hf ho
  | write =>
    simp only [next] at h
    split_ifs at h with hf
    cases h; exact hi.prep hf ho
  | submit => cases h; exact hi.submit
  | complete ud res =>
    obtain ⟨r, hr, rfl⟩ := Option.map_eq_some'.1 h
    exact hi.complete hr
  | wait minComplete err =>
    obtain ⟨⟨n, t⟩, hw, rfl⟩ := Option.map_eq_some'.1 h
    simp only [hevIoUringWait] at hw
    split at hw
    · cases hw; exact hi
    · split_ifs at hw
      cases hw; exact hi.wait

/-- Along every run without an orphan SQE. -/
theorem reachable_inv (hs : system.Reachable s) (ho : s.orphans = 0) : Inv s := by
  induction hs with
  | init h =>
    obtain ⟨entries, hpos, rfl⟩ := h
    exact inv_initial entries hpos
  | step _ hst ih =>
    obtain ⟨e, h⟩ := hst
    have hle := next_orphans h
    exact inv_next (ih (by omega)) h ho

/-! ## A failed `malloc` -/

/-- A call whose `malloc` fails returns `-1`, but the SQE it claimed joins the
    submission queue with the `user_data` its slot held. Along the runs where
    no call did so, `wait` frees each request of a call that returned `0` at
    most once, and once when nothing waits, and invokes the callbacks of the
    freed ones. On a one-slot ring, a read whose request was dispatched and a
    read whose `malloc` fails hand the kernel the first request twice: its
    callback runs twice and it is freed twice. -/
theorem io_uring_failed_prep_requeues :
    (∀ (s : State) (op : Op) (callback userData : Nat), s.ring.sqeHead ≤ s.ring.sqeTail →
      s.ring.sqeTail - s.ring.sqeHead < s.ring.entries →
      (hevIoUringPrep op callback userData none s).1 = -1 ∧
      (hevIoUringPrep op callback userData none s).2.ring.pendingSqes =
        s.ring.pendingSqes ++ [(s.ring.sqes (s.ring.sqeTail % s.ring.entries)).userData]) ∧
    (∀ s : State, system.Reachable s → s.orphans = 0 →
      s.freed.Nodup ∧ (∀ k ∈ s.freed, k < s.calls) ∧
      s.invoked = s.freed.filter (fun k => s.callbacks.getD k 0 ≠ 0) ∧
      (s.pending = 0 → (s.freed : Multiset Nat) = Multiset.range s.calls)) ∧
    (∃ s : State, system.Reachable s ∧ s.calls = 1 ∧ s.invoked = [0, 0] ∧ s.freed = [0, 0]) := by
  refine ⟨fun s op callback userData hle hroom => ?_, fun s hs ho => ?_, ?_⟩
  · rw [hevIoUringPrep_none op callback userData hroom]
    exact ⟨rfl, pendingSqes_orphan s.ring hle⟩
  · have hi := reachable_inv hs ho
    have hnd : (Multiset.range s.calls).Nodup := Multiset.nodup_range _
    rw [← hi.calls, Multiset.nodup_add] at hnd
    refine ⟨Multiset.coe_nodup.1 hnd.1, fun k => hi.freed_lt, hi.invoked, fun h => ?_⟩
    rw [← hi.calls, ← Multiset.map_coe, hi.live, h, Multiset.map_zero, add_zero]
  · -- a read with a callback, dispatched; then a read whose malloc fails
    have r₁ := reachable_next (.init ⟨1, Nat.one_pos, rfl⟩) (.read 0 0 0 0 1 0 (some 1)) rfl
    have r₂ := reachable_next r₁ .submit rfl
    have r₃ := reachable_next r₂ (.complete 1 0) rfl
    have r₄ := reachable_next r₃ (.wait 1 none) rfl
    have r₅ := reachable_next r₄ (.read 0 0 0 0 1 0 none) rfl
    -- the claimed slot still holds the first request
    have r₆ := reachable_next r₅ .submit rfl
    have r₇ := reachable_next r₆ (.complete 1 0) rfl
    have r₈ := reachable_next r₇ (.wait 1 none) rfl
    exact ⟨_, r₈, rfl, rfl, rfl⟩

end HevTunnel.IoUring
