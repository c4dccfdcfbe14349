import HevTunnel.TunnelIO.Conservation

/-!
# The order of the TUN writes

The write queue is a FIFO, and a writer hands the packets of its batch to
`write ()` in the order it took them. With one `writer_thread` the device
therefore sees the packets in the order `hev_tunnel_io_write` queued them,
less those it could not copy. `hev_tunnel_io_new` starts two writers on a
machine with four or more processors; each writes its batch outside
`write_mutex`, so a batch taken later can reach the device first.

* `Ordered`: the packets written, then those still in the writers' batches,
  form a subsequence of the packets taken; kept by every step of a run with
  one writer (`ordered_next`);
* `one_writer_in_order`: with one writer, the packets handed to `write ()`
  are a subsequence of the packets accepted;
* `two_writers_reorder`: with two writers, from every reachable state where
  each holds a batch, the second can write before the first, whichever
  batch was taken first; so two packets queued one after the other can
  reach the device in the opposite order.
-/

namespace HevTunnel.TunnelIO

open Heap

/-- The packets of a writer's batch still to write, in order, `pkt` giving
    the packet of a node. -/
def Writer.packets (pkt : Nat → Nat) : Writer → List Nat
  | .batch ns => ns.map pkt
  | _ => []

/-- The packets the writers still have to write, writer by writer. -/
def pending (pkt : Nat → Nat) : List Writer → List Nat
  | [] => []
  | w :: ws => w.packets pkt ++ pending pkt ws

/-- What a run with one writer keeps: the packets handed to `write ()`, then
    those of the batches, in the order they were taken. -/
def Ordered (s : State) : Prop :=
  (s.written ++ pending (packetOf s.io.nodes) s.writers).Sublist s.taken

theorem pending_eq_nil {pkt : Nat → Nat} :
    ∀ {ws : List Writer}, (∀ w ∈ ws, w.packets pkt = []) → pending pkt ws = []
  | [], _ => rfl
  | w :: ws, h => by
    rw [pending, h w (List.mem_cons_self _ _),
      pending_eq_nil fun w' hw' => h w' (List.mem_cons_of_mem _ hw')]
    rfl

/-- The batches only read the packets of their own nodes. -/
theorem pending_congr {pkt pkt' : Nat → Nat} :
    ∀ {ws : List Writer}, (∀ x ∈ batchNodes ws, pkt' x = pkt x) → pending pkt' ws = pending pkt ws
  | [], _ => rfl
  | w :: ws, h => by
    have hb : batchNodes (w :: ws) = w.nodes + batchNodes ws := by simp [batchNodes]
    rw [hb] at h
    rw [pending, pending, pending_congr fun x hx => h x (Multiset.mem_add.2 (.inr hx))]
    congr 1
    cases w with
    | batch ns =>
      exact List.map_congr_left fun x hx => h x (Multiset.mem_add.2 (.inl (Multiset.mem_coe.2 hx)))
    | _ => rfl

@[simp] theorem packetOf_hevTunnelIoWrite (io : HevTunnelIO) (a : Nat) :
    packetOf (hevTunnelIoWrite io a).2.nodes = packetOf io.nodes := by
  unfold hevTunnelIoWrite; split_ifs <;> simp

@[simp] theorem takeWriteBatch_nodes (io : HevTunnelIO) : (takeWriteBatch io).2.nodes = io.nodes := rfl

/-- A single writer list, and the writer at `i`. -/
theorem eq_singleton_of_getElem? {ws : List Writer} {i : Nat} {w : Writer} (hl : ws.length ≤ 1)
    (h : ws[i]? = some w) : i = 0 ∧ ws = [w] := by
  match ws, i, h with
  | [w'], 0, h => exact ⟨rfl, by cases h; rfl⟩
  | [], _, h => cases h
  | [_], _ + 1, h => cases h
  | _ :: _ :: _, _, _ => simp at hl

section Steps

variable {s s' : State}

/-- A node the writers hold is allocated, and none is held twice. -/
theorem Inv.batch_facts (hi : Inv s) :
    (∀ x ∈ batchNodes s.writers, s.io.nodes x ≠ none) ∧ (batchNodes s.writers).Nodup ∧
      ∀ x ∈ callerNodes s.callers, x ∉ batchNodes s.writers := by
  obtain ⟨ps, hl⟩ := hi.ledger
  have hnd := Multiset.nodup_add.1 hl.nodup
  have hcb := Multiset.nodup_add.1 hnd.1
  refine ⟨fun x hx => (hl.alloc x ?_).2, hcb.2.1, fun x hx hb => Multiset.disjoint_left.1 hcb.2.2 hx hb⟩
  exact Multiset.mem_add.2 (.inl (Multiset.mem_add.2 (.inr hx)))

/-- A step that moves no writer and changes no packet of a batch node keeps
    the order. -/
theorem Ordered.frame (ho : Ordered s) (hw : s'.writers = s.writers) (hwr : s'.written = s.written)
    (ht : s'.taken = s.taken) (hn : ∀ x ∈ batchNodes s.writers, packetOf s'.io.nodes x = packetOf s.io.nodes x) :
    Ordered s' := by
  unfold Ordered
  rwa [hw, hwr, ht, pending_congr hn]

/-- The step of the one writer keeps the order: it takes a batch when it
    holds none, and writes or drops the first packet of its batch. -/
theorem Ordered.writer (hi : Inv s) (hl : s.writers.length ≤ 1) (ho : Ordered s) {i : Nat}
    {copied : Bool} (h : writerStep s i copied = some s') : Ordered s' := by
  rcases writerStep_cases h with ⟨hw, rfl⟩ | ⟨hw, -, -, rfl⟩ | ⟨w, hw, hlw, rfl | rfl⟩ |
    ⟨n, ns, hw, rfl⟩ | ⟨hw, rfl⟩
  all_goals obtain ⟨rfl, hws⟩ := eq_singleton_of_getElem? hl hw
  all_goals simp only [Ordered, hws, List.set_cons_zero] at ho ⊢
  · simpa [pending, Writer.packets] using ho
  · simpa [pending, Writer.packets] using ho
  · rcases hlw with rfl | rfl <;> simpa [pending, Writer.packets] using ho
  · -- the batch taken goes to the end of both lists
    have ho' : s.written.Sublist s.taken := by
      rcases hlw with rfl | rfl <;> simpa [pending, Writer.packets] using ho
    simpa [pending, Writer.packets] using
      ho'.append_right ((takeWriteBatch s.io).1.map (packetOf s.io.nodes))
  · -- the first packet of the batch is written or dropped; the rest keep their packets
    have hnd : n ∉ ns := by
      have := (hi.batch_facts).2.1
      rw [hws] at this
      exact (by simpa [batchNodes, Writer.nodes] using this : n ∉ ns ∧ ns.Nodup).1
    have hrest : ns.map (packetOf (Function.update s.io.nodes n none)) = ns.map (packetOf s.io.nodes) :=
      List.map_congr_left fun x hx => packetOf_update_ne none fun e => hnd (e ▸ hx)
    simp only [pending, Writer.packets, List.map_cons, List.append_nil, hrest] at ho ⊢
    split_ifs
    · simpa using ho
    · exact ((List.sublist_cons_self _ _).append_left _).trans ho
  · simpa [pending, Writer.packets] using ho

theorem pending_replicate_top (pkt : Nat → Nat) (n : Nat) : pending pkt (List.replicate n .top) = [] :=
  pending_eq_nil fun w hw => by rw [List.eq_of_mem_replicate hw]; rfl

/-- With one writer, every step keeps the order. -/
theorem ordered_next (hi : Inv s) (hl : s.writers.length ≤ 1) (ho : Ordered s) {e : Event}
    (h : next s e = some s') : Ordered s' := by
  have hb := hi.batch_facts
  cases e with
  | start | startFail =>
    simp only [next] at h
    split_ifs at h with hg
    cases h
    simpa [Ordered, pending_replicate_top, hg.2.2.1, pending] using ho
  | write c p node =>
    simp only [next] at h
    split_ifs at h with hg
    cases h
    -- the new node is free, so no batch holds it
    exact ho.frame rfl rfl rfl fun x hx =>
      packetOf_update_ne _ fun e => hb.1 x hx (e ▸ hg.2.2.2.2)
  | caller c =>
    rcases callerStep_cases h with ⟨p, a, hc, ⟨io', hw, rfl⟩ | rfl⟩ | ⟨p, a, hc, rfl⟩
    · exact ho.frame rfl rfl rfl fun x _ => by
        rw [show io' = (hevTunnelIoWrite s.io a).2 by rw [hw], packetOf_hevTunnelIoWrite]
    · exact ho
    · -- the node of a rejected write is the caller's, in no batch
      have ha := mem_callerNodes (List.getElem?_mem hc) (.inr rfl)
      exact ho.frame rfl rfl rfl fun x hx =>
        packetOf_update_ne _ fun e => hb.2.2 a ha (e ▸ hx)
  | writer i copied => exact ho.writer hi hl h
  | stop | destroy =>
    simp only [next] at h
    split_ifs at h <;> cases h <;> exact ho
  | control =>
    rcases controlStep_cases h with ⟨i, d, hc, -, hw, rfl⟩ | ⟨i, d, hc, hle, rfl⟩ |
      ⟨hc, hh, rfl⟩ | ⟨n, hc, hh, hn, rfl⟩
    · exact ho
    · exact ho
    · exact ho
    · -- the drain runs once every writer has returned
      have hd : s.control.draining = true := by rw [hc]; rfl
      exact ho.frame rfl rfl rfl fun x hx => by
        rw [batchNodes_of_exited (hi.draining hd)] at hx
        exact absurd hx (Multiset.not_mem_zero x)

/-- A step keeps the number of writers and the writers within it, and a
    failed start stays failed. -/
theorem next_frame {e : Event} (h : next s e = some s') :
    s'.io.numWriters = s.io.numWriters ∧ (s'.startFailed = false → s.startFailed = false) ∧
      (s.writers.length ≤ s.io.numWriters → s'.writers.length ≤ s'.io.numWriters) := by
  cases e with
  | start =>
    simp only [next] at h
    split_ifs at h
    cases h
    exact ⟨rfl, id, fun _ => by simp⟩
  | startFail created =>
    simp only [next] at h
    split_ifs at h with hg
    cases h
    exact ⟨rfl, fun h => (by cases h), fun _ => by simpa using hg.2.2.2.2⟩
  | write | stop | destroy =>
    simp only [next] at h
    split_ifs at h <;> cases h <;> exact ⟨rfl, id, id⟩
  | caller c =>
    rcases callerStep_cases h with ⟨p, a, hc, ⟨io', hw, rfl⟩ | rfl⟩ | ⟨p, a, hc, rfl⟩
    · have : io'.numWriters = s.io.numWriters := by
        rw [show io' = (hevTunnelIoWrite s.io a).2 by rw [hw], hevTunnelIoWrite_numWriters]
      exact ⟨this, id, fun h => by simpa [this] using h⟩
    all_goals exact ⟨rfl, id, id⟩
  | writer i copied =>
    rcases writerStep_cases h with ⟨hw, rfl⟩ | ⟨hw, -, -, rfl⟩ | ⟨w, hw, hlw, rfl | rfl⟩ |
      ⟨n, ns, hw, rfl⟩ | ⟨hw, rfl⟩
    all_goals exact ⟨rfl, id, fun h => by simpa using h⟩
  | control =>
    rcases controlStep_cases h with ⟨i, d, hc, -, hw, rfl⟩ | ⟨i, d, hc, hle, rfl⟩ |
      ⟨hc, hh, rfl⟩ | ⟨n, hc, hh, hn, rfl⟩
    all_goals exact ⟨rfl, id, id⟩

end Steps

/-! ## Every run -/

/-- What every run with no failed start keeps: at most `numWriters` writers,
    and, with one writer, the order of the writes. -/
structure OrderInv (s : State) : Prop where
  length_le : s.writers.length ≤ s.io.numWriters
  ordered : s.io.numWriters = 1 → Ordered s

theorem reachable_orderInv {s : State} (hs : system.Reachable s) (hok : s.startFailed = false) :
    OrderInv s := by
  induction hs with
  | init h =>
    obtain ⟨numCpus, callers, chained, refs, rfl⟩ := h
    exact ⟨by simp [initial], fun _ => by simp [Ordered, initial, pending]⟩
  | step hs hst ih =>
    obtain ⟨e, h⟩ := hst
    obtain ⟨hK, hsf, hlen⟩ := next_frame h
    have ho := ih (hsf hok)
    exact ⟨hlen ho.length_le, fun h1 => ordered_next (reachable_inv hs (hsf hok))
      (by have := ho.length_le; omega) (ho.ordered (hK ▸ h1)) h⟩

/-- With one writer thread (fewer than four processors), in every run in
    which `hev_tunnel_io_start` does not fail, the packets handed to
    `write ()` are a subsequence of those `hev_tunnel_io_write` accepted: the
    device sees the packets in the order they were queued. -/
theorem one_writer_in_order {s : State} (hs : system.Reachable s) (hok : s.startFailed = false)
    (h1 : s.io.numWriters = 1) : s.written.Sublist s.accepted := by
  obtain ⟨ps, hl⟩ := (reachable_inv hs hok).ledger
  have hfifo := hl.fifo
  simp only [State.ledger] at hfifo
  have htaken : s.taken.Sublist s.accepted := by
    rw [← hfifo]
    exact (List.sublist_append_left _ _).trans (List.sublist_append_left _ _)
  exact ((List.sublist_append_left _ _).trans ((reachable_orderInv hs hok).ordered h1)).trans htaken

/-- Two packets written through the one writer of a two-processor machine. -/
theorem one_writer_in_order_two : ∃ s, system.Reachable s ∧ s.startFailed = false ∧
    s.io.numWriters = 1 ∧ s.written = [1, 2] ∧ s.written.Sublist s.accepted := by
  have r₀ := reachable_next (.init ⟨2, 1, fun _ => false, fun _ => 1, rfl⟩) .start rfl
  have r₁ := reachable_next r₀ (.write 0 1 10) rfl
  have r₂ := reachable_next r₁ (.caller 0) rfl
  have r₃ := reachable_next r₂ (.write 0 2 11) rfl
  have r₄ := reachable_next r₃ (.caller 0) rfl
  -- the writer takes both nodes in one batch and writes them in turn
  have r₅ := reachable_next r₄ (.writer 0 false) rfl
  have r₆ := reachable_next r₅ (.writer 0 false) rfl
  have r₇ := reachable_next r₆ (.writer 0 false) rfl
  have r₈ := reachable_next r₇ (.writer 0 false) rfl
  exact ⟨_, r₈, rfl, rfl, rfl, one_writer_in_order r₈ rfl rfl⟩

/-- With two writer threads, the order of the writes is the scheduler's,
    not the queue's: from every reachable state in which each writer holds a
    batch, the second writer can write the first packet of its batch before
    the first writer writes the first packet of its own, whichever batch was
    taken first. -/
theorem two_writers_reorder {s : State} (hs : system.Reachable s) (hok : s.startFailed = false)
    {a b : Nat} {as bs : List Nat} (h0 : s.writers[0]? = some (.batch (a :: as)))
    (h1 : s.writers[1]? = some (.batch (b :: bs))) :
    ∃ t, Relation.ReflTransGen system.step s t ∧
      t.written = s.written ++ [packetOf s.io.nodes b, packetOf s.io.nodes a] := by
  -- the two batches hold different nodes
  have hab : a ≠ b := by
    have hnd := (reachable_inv hs hok).batch_facts.2.1
    obtain ⟨rest, hws⟩ : ∃ rest, s.writers = .batch (a :: as) :: .batch (b :: bs) :: rest := by
      match hw : s.writers, h0, h1 with
      | _ :: _ :: rest, h0, h1 => exact ⟨rest, by simp_all⟩
    rw [hws] at hnd
    simp only [batchNodes, List.map_cons, List.sum_cons, Writer.nodes] at hnd
    rintro rfl
    exact Multiset.disjoint_left.1 (Multiset.nodup_add.1 hnd).2.2
      (Multiset.mem_coe.2 (List.mem_cons_self _ _))
      (Multiset.mem_add.2 (.inl (Multiset.mem_coe.2 (List.mem_cons_self _ _))))
  -- the second writer writes the first packet of its batch
  have e₁ : next s (.writer 1 true) = some { s with
      io := { s.io with nodes := Function.update s.io.nodes b none },
      refs := Function.update s.refs (packetOf s.io.nodes b) (s.refs (packetOf s.io.nodes b) - 1),
      writers := s.writers.set 1 (.batch bs),
      written := s.written ++ [packetOf s.io.nodes b] } := by
    simp [next, writerStep, h1]
  obtain ⟨s₁, e₁, hw₁, hn₁, hwr₁⟩ : ∃ s₁, next s (.writer 1 true) = some s₁ ∧
      s₁.writers[0]? = some (.batch (a :: as)) ∧ s₁.io.nodes = Function.update s.io.nodes b none ∧
      s₁.written = s.written ++ [packetOf s.io.nodes b] :=
    ⟨_, e₁, by simpa [List.getElem?_set_ne] using h0, rfl, rfl⟩
  -- then the first writer writes the first packet of its own
  have e₂ : (next s₁ (.writer 0 true)).map State.written =
      some (s.written ++ [packetOf s.io.nodes b, packetOf s.io.nodes a]) := by
    simp [next, writerStep, hw₁, hn₁, hwr₁, packetOf_update_ne _ hab]
  obtain ⟨t, e₂, ht⟩ := Option.map_eq_some'.1 e₂
  exact ⟨t, .tail (.single ⟨_, e₁⟩) ⟨_, e₂⟩, ht⟩

/-- A four-processor machine: the first writer took packet `1`, the second
    then took packet `2`; the device can receive `2` first. -/
theorem two_writers_reorder_four : ∃ s, system.Reachable s ∧ s.startFailed = false ∧
    s.io.numWriters = 2 ∧ s.taken = [1, 2] ∧ s.writers = [.batch [10], .batch [11]] ∧
    packetOf s.io.nodes 10 = 1 ∧ packetOf s.io.nodes 11 = 2 ∧
    ∃ t, Relation.ReflTransGen system.step s t ∧
      t.written = s.written ++ [packetOf s.io.nodes 11, packetOf s.io.nodes 10] := by
  have r₀ := reachable_next (.init ⟨4, 1, fun _ => false, fun _ => 1, rfl⟩) .start rfl
  have r₁ := reachable_next r₀ (.write 0 1 10) rfl
  have r₂ := reachable_next r₁ (.caller 0) rfl
  have r₃ := reachable_next r₂ (.writer 0 false) rfl
  have r₄ := reachable_next r₃ (.writer 0 false) rfl
  have r₅ := reachable_next r₄ (.write 0 2 11) rfl
  have r₆ := reachable_next r₅ (.caller 0) rfl
  have r₇ := reachable_next r₆ (.writer 1 false) rfl
  have r₈ := reachable_next r₇ (.writer 1 false) rfl
  exact ⟨_, r₈, rfl, rfl, rfl, rfl, rfl, rfl, two_writers_reorder r₈ rfl rfl rfl⟩

end HevTunnel.TunnelIO
