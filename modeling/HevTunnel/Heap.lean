import Mathlib.Data.List.Basic
import Mathlib.Data.List.Nodup

/-!
# Singly-linked queues in a heap

The queues of the engine (the thread pool's work items, the TUN write queue)
are singly-linked lists of `malloc`ed nodes under a head and a tail pointer:
`enqueue` links a fresh node after the tail, `dequeue` unlinks the head. A
heap maps an address to the node stored there (`none` for no allocation);
`NULL` is the address `0`.

* `Seg h next p q ps`: following `next` from `p` visits the nodes `ps` and
  arrives at `q`; a segment only reads its own nodes (`Seg.frame`) and splits
  and joins along `++` (`Seg.append`, `Seg.of_append`);
* `IsQueue h next head tail ps`: the list from `head` is `ps`, ending at
  `NULL`, with `tail` its last node and no node twice; linking a fresh node
  after the tail (`IsQueue.push_tail`, `IsQueue.push_empty`) and unlinking the head (`IsQueue.pop`) keep
  it a queue.
-/

namespace HevTunnel.Heap

variable {α : Type} {h h' : Nat → Option α} {next : α → Nat}

/-- `Seg h next p q ps`: following `next` from `p` through the heap `h` visits
    the nodes at the addresses `ps`, in order, and arrives at `q`. -/
inductive Seg (h : Nat → Option α) (next : α → Nat) : Nat → Nat → List Nat → Prop
  | nil (p : Nat) : Seg h next p p []
  | cons {p q : Nat} {n : α} {ps : List Nat} :
      p ≠ 0 → h p = some n → Seg h next (next n) q ps → Seg h next p q (p :: ps)

theorem seg_singleton {p q : Nat} :
    Seg h next p q [p] ↔ p ≠ 0 ∧ ∃ n, h p = some n ∧ next n = q := by
  constructor
  · rintro (_ | ⟨hp, hn, (_ | _)⟩)
    exact ⟨hp, _, hn, rfl⟩
  · rintro ⟨hp, n, hn, rfl⟩
    exact .cons hp hn (.nil _)

/-- The nodes of a segment are allocated, and none is `NULL`. -/
theorem Seg.mem {p q : Nat} {ps : List Nat} (hs : Seg h next p q ps) :
    ∀ x ∈ ps, x ≠ 0 ∧ h x ≠ none := by
  induction hs with
  | nil => simp
  | cons hp hn _ ih =>
    rintro x (_ | ⟨_, hx⟩)
    · exact ⟨hp, by simp [hn]⟩
    · exact ih x hx

/-- A segment reads only its own nodes. -/
theorem Seg.frame {p q : Nat} {ps : List Nat} (hs : Seg h next p q ps)
    (hh : ∀ x ∈ ps, h' x = h x) : Seg h' next p q ps := by
  induction hs with
  | nil => exact .nil _
  | cons hp hn _ ih =>
    exact .cons hp ((hh _ (.head _)).trans hn) (ih fun x hx => hh x (.tail _ hx))

/-- A segment to `NULL` from a node that is not `NULL` starts with it. -/
theorem Seg.head_cons {p : Nat} {ps : List Nat} (hs : Seg h next p 0 ps) (hp : p ≠ 0) :
    ∃ n ps', h p = some n ∧ ps = p :: ps' ∧ Seg h next (next n) 0 ps' := by
  cases hs with
  | nil => exact absurd rfl hp
  | cons _ hn hs => exact ⟨_, _, hn, rfl, hs⟩

theorem Seg.append {p q r : Nat} {ps qs : List Nat} (h₁ : Seg h next p q ps)
    (h₂ : Seg h next q r qs) : Seg h next p r (ps ++ qs) := by
  induction h₁ with
  | nil => exact h₂
  | cons hp hn _ ih => exact .cons hp hn (ih h₂)

theorem Seg.of_append {p r : Nat} {ps qs : List Nat} (hs : Seg h next p r (ps ++ qs)) :
    ∃ q, Seg h next p q ps ∧ Seg h next q r qs := by
  induction ps generalizing p with
  | nil => exact ⟨p, .nil _, hs⟩
  | cons x ps ih =>
    obtain _ | ⟨hp, hn, hs⟩ := hs
    obtain ⟨q, h₁, h₂⟩ := ih hs
    exact ⟨q, .cons hp hn h₁, h₂⟩

/-- A queue: the list from `head` is `ps`, ending at `NULL`, `tail` is its
    last node (`NULL` when it is empty), and no node occurs twice. -/
structure IsQueue (h : Nat → Option α) (next : α → Nat) (head tail : Nat) (ps : List Nat) :
    Prop where
  seg : Seg h next head 0 ps
  tail_eq : tail = ps.getLastD 0
  nodup : ps.Nodup

theorem isQueue_empty : IsQueue h next 0 0 [] := ⟨.nil 0, rfl, List.nodup_nil⟩

variable {head tail : Nat} {ps : List Nat}

theorem IsQueue.frame (hq : IsQueue h next head tail ps) (hh : ∀ x ∈ ps, h' x = h x) :
    IsQueue h' next head tail ps :=
  ⟨hq.seg.frame hh, hq.tail_eq, hq.nodup⟩

theorem IsQueue.head_eq_zero (hq : IsQueue h next head tail ps) : head = 0 ↔ ps = [] := by
  obtain ⟨_ | ⟨hp, _, _⟩, _, _⟩ := hq
  · simp
  · simp [hp]

theorem IsQueue.tail_eq_zero (hq : IsQueue h next head tail ps) : tail = 0 ↔ ps = [] := by
  rw [hq.tail_eq]
  rcases List.eq_nil_or_concat' ps with rfl | ⟨L, b, rfl⟩
  · simp
  · have hb := (hq.seg.mem b (by simp)).1
    simp [List.getLastD_concat, hb]

theorem IsQueue.tail_mem (hq : IsQueue h next head tail ps) (ht : tail ≠ 0) : tail ∈ ps := by
  rcases List.eq_nil_or_concat' ps with rfl | ⟨L, b, rfl⟩
  · exact absurd (hq.tail_eq_zero.2 rfl) ht
  · simp [hq.tail_eq, List.getLastD_concat]

/-- Making a node `a` the whole of an empty queue (its `next` being `NULL`). -/
theorem IsQueue.push_empty {a : Nat} (hq : IsQueue h next head 0 ps) (ha : a ≠ 0)
    (hnew : ∃ m, h' a = some m ∧ next m = 0) : IsQueue h' next a a (ps ++ [a]) := by
  rw [hq.tail_eq_zero.1 rfl]
  exact ⟨seg_singleton.2 ⟨ha, hnew⟩, rfl, List.nodup_singleton a⟩

/-- Linking a node `a` that is not in a queue after its tail gives the
    queue `ps ++ [a]`: the heap may change only at the old tail, whose `next`
    becomes `a`, and at `a`, whose `next` is `NULL`. -/
theorem IsQueue.push_tail {a : Nat} (hq : IsQueue h next head tail ps) (ht : tail ≠ 0)
    (ha : a ≠ 0) (hnotin : a ∉ ps) (hh : ∀ x ∈ ps, x ≠ tail → h' x = h x)
    (htail : ∃ n, h' tail = some n ∧ next n = a)
    (hnew : ∃ m, h' a = some m ∧ next m = 0) : IsQueue h' next head a (ps ++ [a]) := by
  refine ⟨?_, (List.getLastD_concat _ _ _).symm, List.nodup_append.2
    ⟨hq.nodup, List.nodup_singleton a, List.disjoint_singleton.2 hnotin⟩⟩
  obtain ⟨L, b, rfl⟩ := (List.eq_nil_or_concat' ps).resolve_left (mt hq.tail_eq_zero.2 ht)
  have hb : tail = b := by simpa [List.getLastD_concat] using hq.tail_eq
  subst hb
  obtain ⟨q, hL, _ | _⟩ := hq.seg.of_append
  have hnd := List.nodup_append.1 hq.nodup
  have hL' : Seg h' next head tail L :=
    hL.frame fun x hx => hh x (by simp [hx]) fun e => hnd.2.2 hx (by simp [e])
  have hmid : Seg h' next tail a [tail] := seg_singleton.2 ⟨ht, htail⟩
  simpa using (hL'.append hmid).append (seg_singleton.2 ⟨ha, hnew⟩)

/-- Unlinking the head `p` of a queue, as `dequeue` does: the new head is
    `p`'s `next`, and the tail becomes `NULL` if it was `p`. -/
theorem IsQueue.pop {n : α} (hq : IsQueue h next head tail ps) (hp : head ≠ 0)
    (hn : h head = some n) :
    ∃ ps', ps = head :: ps' ∧ IsQueue h next (next n) (if tail = head then 0 else tail) ps' := by
  obtain ⟨hs, htail, hnd⟩ := hq
  cases hs with
  | nil => exact absurd rfl hp
  | @cons _ _ n' ps' _ hn' hs =>
    rw [hn] at hn'
    cases hn'
    have hnot : head ∉ ps' := (List.nodup_cons.1 hnd).1
    refine ⟨ps', rfl, hs, ?_, (List.nodup_cons.1 hnd).2⟩
    rcases List.eq_nil_or_concat' ps' with rfl | ⟨L, b, rfl⟩
    · simp [htail]
    · have hb : b ≠ head := fun e => hnot (by simp [e])
      simp only [List.getLastD_cons, List.getLastD_concat] at htail ⊢
      simp [htail, hb]

end HevTunnel.Heap
