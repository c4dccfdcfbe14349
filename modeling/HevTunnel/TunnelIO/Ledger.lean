import HevTunnel.TunnelIO
import Mathlib.Data.Multiset.Nodup

/-!
# The ledger of the write path

What the bookkeeping of the write path reads of a state: the queue, the
nodes the callers and the writers hold, the reference counts and the
ghosts. Each step changes the ledger in one of a few ways (`acquire`, `link`,
`take`, `release` of a caller's, a writer's or the drain's node), or not at
all; `Ledger.Inv` is kept by each of them. Its fields say that the nodes held
are distinct and allocated, that each packet holds one reference per node
holding it, and that the packets removed from the queue, in the order they
left it, then those queued, are those accepted, in order, the writers'
takes and the drain's frees being two parts of the packets removed, each in
its order. A writer may take while the drain runs only in a run whose
`start` failed: otherwise the packets removed are those taken, then those
drained (`Inv` in `HevTunnel.TunnelIO.Invariant`).
-/

namespace HevTunnel.TunnelIO

open Heap

theorem map_packetOf_update (nodes : Nat → Option HevPacketNode) {x : Nat}
    (v : Option HevPacketNode) {m : Multiset Nat} (hx : x ∉ m) :
    m.map (packetOf (Function.update nodes x v)) = m.map (packetOf nodes) :=
  Multiset.map_congr rfl fun _ hy => packetOf_update_ne v fun e => hx (e ▸ hy)

/-- The node a caller holds. -/
def Caller.node : Caller → Multiset Nat
  | .enqueue _ a | .reject _ a => {a}
  | .idle => 0

/-- The nodes of a writer's batch. -/
def Writer.nodes : Writer → Multiset Nat
  | .batch ns => ns
  | _ => 0

/-- The nodes the callers hold. -/
def callerNodes (cs : List Caller) : Multiset Nat := (cs.map Caller.node).sum

/-- The nodes of the writers' batches. -/
def batchNodes (ws : List Writer) : Multiset Nat := (ws.map Writer.nodes).sum

theorem callerNodes_set {cs : List Caller} {c : Nat} {x : Caller} (h : cs[c]? = some x)
    (y : Caller) : callerNodes (cs.set c y) + x.node = callerNodes cs + y.node :=
  sum_map_set _ h y

theorem batchNodes_set {ws : List Writer} {i : Nat} {w : Writer} (h : ws[i]? = some w)
    (w' : Writer) : batchNodes (ws.set i w') + w.nodes = batchNodes ws + w'.nodes :=
  sum_map_set _ h w'

/-- A writer's state change that leaves its batch as it is. -/
theorem batchNodes_set_of_nodes {ws : List Writer} {i : Nat} {w : Writer} (h : ws[i]? = some w)
    {w' : Writer} (hn : w'.nodes = w.nodes) : batchNodes (ws.set i w') = batchNodes ws := by
  simpa [hn] using batchNodes_set h w'

@[simp] theorem batchNodes_replicate_top (n : Nat) : batchNodes (List.replicate n .top) = 0 := by
  simp [batchNodes, Writer.nodes, nsmul_zero]

/-- What the bookkeeping of the write path reads of a state. -/
structure Ledger where
  io : HevTunnelIO
  draining : Bool
  refs : Nat → Nat
  refs₀ : Nat → Nat
  callerNodes : Multiset Nat
  batchNodes : Multiset Nat
  accepted : List Nat
  taken : List Nat
  drained : List Nat
  written : List Nat
  unwritten : List Nat

def State.ledger (s : State) : Ledger :=
  ⟨s.io, s.control.draining, s.refs, s.refs₀, callerNodes s.callers, batchNodes s.writers,
   s.accepted, s.taken, s.drained, s.written, s.unwritten⟩

/-- The nodes whose packets hold a reference taken by a write: the callers',
    the batches' and those of the queue `ps`. -/
def Ledger.held (l : Ledger) (ps : List Nat) : Multiset Nat := l.callerNodes + l.batchNodes + ps

/-- The invariant of the write path, the queue being the nodes `ps` and `r`
    the packets removed from it, in the order they left: the nodes `ps` form
    the list from `write_queue_head`, with `write_queue_tail` its last node
    and `write_queue_size` its length until the drain, which is the first to
    free a queued node; the nodes held are allocated and held once; each
    packet's reference count is what it started with plus one per held node
    holding it; the packets removed, then those queued, are those accepted,
    in order, the packets taken and those drained each a part of `r` in its
    order and the two together all of it; and those taken are the ones
    written, released unwritten, or in a batch. -/
structure Ledger.Inv (l : Ledger) (ps r : List Nat) : Prop where
  seg : Seg l.io.nodes HevPacketNode.next l.io.writeQueueHead 0 ps
  tail : l.draining = false → l.io.writeQueueTail = ps.getLastD 0
  size : l.draining = false → l.io.writeQueueSize = ps.length
  size_le : l.io.writeQueueSize ≤ writeQueueSize
  nodup : (l.held ps).Nodup
  alloc : ∀ x ∈ l.held ps, x ≠ 0 ∧ l.io.nodes x ≠ none
  refs : ∀ p, p ≠ 0 → l.refs p = l.refs₀ p + ((l.held ps).map (packetOf l.io.nodes)).count p
  drained : l.draining = false → l.drained = []
  fifo : r ++ ps.map (packetOf l.io.nodes) = l.accepted
  removed : r.Perm (l.taken ++ l.drained) ∧ l.taken.Sublist r ∧ l.drained.Sublist r
  out : (l.written : Multiset Nat) + l.unwritten + l.batchNodes.map (packetOf l.io.nodes) = l.taken

section Ledger

variable {l : Ledger} {ps r : List Nat}

theorem Ledger.mem_held_of_mem (l : Ledger) {x : Nat} (hx : x ∈ ps) : x ∈ l.held ps :=
  Multiset.mem_add.2 (.inr (Multiset.mem_coe.2 hx))

theorem Ledger.Inv.not_held (hi : l.Inv ps r) {x : Nat} (hx : l.io.nodes x = none) :
    x ∉ l.held ps := fun h => (hi.alloc x h).2 hx

/-- A caller allocates the node `a` for the packet `p` and takes a
    reference on `p`. -/
theorem Ledger.Inv.acquire (hi : l.Inv ps r) {p a : Nat} (ha : a ≠ 0) (hfree : l.io.nodes a = none) :
    Ledger.Inv { l with io := { l.io with nodes := Function.update l.io.nodes a (some ⟨p, 0⟩) },
                        refs := Function.update l.refs p (l.refs p + 1),
                        callerNodes := l.callerNodes + {a} } ps r := by
  have hnot := hi.not_held hfree
  have hheld : l.callerNodes + {a} + l.batchNodes + ↑ps = a ::ₘ l.held ps := by
    simp only [Ledger.held, ← Multiset.singleton_add]; ac_rfl
  have hps : ∀ y ∈ ps, y ≠ a := fun y hy e => hnot (e ▸ l.mem_held_of_mem hy)
  have hmap := map_packetOf_update l.io.nodes (some ⟨p, 0⟩) hnot
  refine ⟨hi.seg.frame fun y hy => Function.update_noteq (hps y hy) _ _, hi.tail, hi.size,
    hi.size_le, ?_, ?_, ?_, hi.drained, ?_, hi.removed, ?_⟩ <;> dsimp only [Ledger.held] <;>
    (try rw [hheld])
  · exact Multiset.nodup_cons.2 ⟨hnot, hi.nodup⟩
  · intro x hx
    rcases Multiset.mem_cons.1 hx with rfl | hx
    · simp [ha]
    · have hxa : x ≠ a := fun e => hnot (e ▸ hx)
      rw [Function.update_noteq hxa]; exact hi.alloc x hx
  · intro q hq
    rw [Multiset.map_cons, hmap, Multiset.count_cons, packetOf, Function.update_same]
    by_cases e : q = p
    · subst e; simp [hi.refs q hq]; omega
    · simp [Function.update_noteq e, e, hi.refs q hq]
  · rw [← hi.fifo, List.map_congr_left fun y hy => packetOf_update_ne _ (hps y hy)]
  · have hb : a ∉ l.batchNodes := fun h => hnot (by simp [Ledger.held, h])
    rw [map_packetOf_update _ _ hb, hi.out]

theorem Ledger.Inv.isQueue (hi : l.Inv ps r) (hd : l.draining = false) :
    IsQueue l.io.nodes HevPacketNode.next l.io.writeQueueHead l.io.writeQueueTail ps :=
  ⟨hi.seg, hi.tail hd, Multiset.coe_nodup.1 (Multiset.nodup_of_le (Multiset.le_add_left _ _) hi.nodup)⟩

/-- A node a caller or a writer holds is not queued. -/
theorem Ledger.Inv.not_mem_queue (hi : l.Inv ps r) {x : Nat}
    (hx : x ∈ l.callerNodes + l.batchNodes) : x ∉ ps :=
  fun h => Multiset.disjoint_left.1 (Multiset.nodup_add.1 hi.nodup).2.2 hx (Multiset.mem_coe.2 h)

/-- A caller links its node `a`, holding `p`, at the tail. -/
theorem Ledger.Inv.link (hi : l.Inv ps r) (hd : l.draining = false) {p a : Nat}
    (hna : l.io.nodes a = some ⟨p, 0⟩) {rest : Multiset Nat} (hc : l.callerNodes = rest + {a})
    {io' : HevTunnelIO} (hw : hevTunnelIoWrite l.io a = (0, io')) :
    Ledger.Inv { l with io := io', callerNodes := rest, accepted := l.accepted ++ [p] }
      (ps ++ [a]) r := by
  have hheld : rest + l.batchNodes + ↑(ps ++ [a]) = l.held ps := by
    simp only [Ledger.held, hc, ← Multiset.coe_add, Multiset.coe_singleton]; ac_rfl
  have ha : a ∈ l.held ps := by simp [Ledger.held, hc]
  obtain ⟨hlt, hsize, hq', hpk, hnone, -⟩ := hevTunnelIoWrite_spec (hi.isQueue hd) (hi.alloc a ha).1
    hna (hi.not_mem_queue (by simp [hc])) hw
  refine ⟨hq'.seg, fun _ => hq'.tail_eq, fun _ => by simp [hsize, hi.size hd],
    by rw [hsize]; omega, ?_, ?_, ?_, hi.drained, ?_, hi.removed, ?_⟩ <;> dsimp only [Ledger.held] <;>
    (try rw [hheld])
  · exact hi.nodup
  · exact fun x hx => ⟨(hi.alloc x hx).1, by rw [Ne, hnone]; exact (hi.alloc x hx).2⟩
  · rw [hpk]; exact hi.refs
  · rw [hpk, List.map_append, ← List.append_assoc, hi.fifo, List.map_singleton,
      packetOf_of_eq hna]
  · rw [hpk]; exact hi.out

/-- Removing the packets `b` from the head of the queue, by a take or the
    drain, appends them to `r`, and `r` stays a merge of the writers' takes
    and the drain's frees. -/
theorem removed_append {taken drained : List Nat}
    (h : r.Perm (taken ++ drained) ∧ taken.Sublist r ∧ drained.Sublist r) (b : List Nat) :
    (r ++ b).Perm (taken ++ b ++ drained) ∧ (taken ++ b).Sublist (r ++ b) ∧
      drained.Sublist (r ++ b) ∧ (r ++ b).Perm (taken ++ (drained ++ b)) ∧
      taken.Sublist (r ++ b) ∧ (drained ++ b).Sublist (r ++ b) := by
  obtain ⟨hp, ht, hd⟩ := h
  refine ⟨?_, ht.append_right b, hd.trans (List.sublist_append_left r b), ?_,
    ht.trans (List.sublist_append_left r b), hd.append_right b⟩
  · calc List.Perm (r ++ b) (taken ++ drained ++ b) := hp.append_right b
      _ = taken ++ (drained ++ b) := List.append_assoc _ _ _
      List.Perm _ (taken ++ (b ++ drained)) := List.perm_append_comm.append_left taken
      _ = taken ++ b ++ drained := (List.append_assoc _ _ _).symm
  · rw [← List.append_assoc]; exact hp.append_right b

/-- A writer takes a batch from the head of the queue: its first nodes, at
    most `WRITE_BATCH_SIZE`. Before the drain, the rest is a well-formed
    queue of the right size; during it (only in a run whose `start` failed)
    the rest is still the list from the new head. -/
theorem Ledger.Inv.take (hi : l.Inv ps r) :
    ∃ rest, ps = (takeWriteBatch l.io).1 ++ rest ∧
      Ledger.Inv { l with io := (takeWriteBatch l.io).2,
                          batchNodes := l.batchNodes + (takeWriteBatch l.io).1,
                          taken := l.taken ++ (takeWriteBatch l.io).1.map (packetOf l.io.nodes) }
        rest (r ++ (takeWriteBatch l.io).1.map (packetOf l.io.nodes)) := by
  obtain ⟨q, e, hs⟩ := takeWriteBatch_seg hi.seg
  have hns : (takeWriteBatch l.io).1 = ps.take writeBatchSize := by rw [e]
  have hnodes : (takeWriteBatch l.io).2.nodes = l.io.nodes := by rw [e]
  rw [hns]
  refine ⟨_, (List.take_append_drop _ _).symm, ?_⟩
  have hheld : l.callerNodes + (l.batchNodes + ↑(ps.take writeBatchSize)) +
      ↑(ps.drop writeBatchSize) = l.held ps := by
    conv_rhs => rw [Ledger.held, ← List.take_append_drop writeBatchSize ps, ← Multiset.coe_add]
    ac_rfl
  have hr := removed_append hi.removed ((ps.take writeBatchSize).map (packetOf l.io.nodes))
  refine ⟨by rw [e]; exact hs, fun hd => (takeWriteBatch_spec (hi.isQueue hd) (hi.size hd)).2.1.tail_eq,
    fun hd => (takeWriteBatch_spec (hi.isQueue hd) (hi.size hd)).2.2.1, ?_, ?_, ?_, ?_, hi.drained,
    ?_, ⟨hr.1, hr.2.1, hr.2.2.1⟩, ?_⟩ <;> dsimp only [Ledger.held] <;> (try rw [hheld]) <;>
    (try rw [hnodes])
  · have := hi.size_le
    rw [e]; dsimp only
    omega
  · exact hi.nodup
  · exact hi.alloc
  · exact hi.refs
  · rw [← hi.fifo, List.append_assoc, ← List.map_append, List.take_append_drop]
  · rw [Multiset.map_add, Multiset.map_coe, ← add_assoc, hi.out, Multiset.coe_add]

/-- Dropping the held node `x`: what is left is held once and allocated once
    `x` is freed, and the count of `x`'s packet loses one. -/
theorem Ledger.Inv.release_core (hi : l.Inv ps r) {x : Nat} {m : Multiset Nat}
    (hm : l.held ps = x ::ₘ m) :
    x ∉ m ∧ m.Nodup ∧ (∀ y ∈ m, y ≠ 0 ∧ Function.update l.io.nodes x none y ≠ none) ∧
      ∀ q, q ≠ 0 →
        Function.update l.refs (packetOf l.io.nodes x) (l.refs (packetOf l.io.nodes x) - 1) q =
          l.refs₀ q + (m.map (packetOf (Function.update l.io.nodes x none))).count q := by
  have hnd := hi.nodup
  rw [hm] at hnd
  obtain ⟨hx, hnd⟩ := Multiset.nodup_cons.1 hnd
  refine ⟨hx, hnd, fun y hy => ?_, fun q hq => ?_⟩
  · rw [Function.update_noteq (by rintro rfl; exact hx hy)]
    exact hi.alloc y (hm ▸ Multiset.mem_cons_of_mem hy)
  · have h := hi.refs q hq
    rw [hm, Multiset.map_cons, Multiset.count_cons] at h
    rw [map_packetOf_update _ _ hx]
    by_cases e : q = packetOf l.io.nodes x
    · subst e; simp only [Function.update_same, if_true] at h ⊢; omega
    · rw [Function.update_noteq e, h, if_neg e, Nat.add_zero]

/-- A caller frees the node `a` of its rejected write and drops its
    reference on `p`. -/
theorem Ledger.Inv.release_caller (hi : l.Inv ps r) {p a : Nat} (hna : l.io.nodes a = some ⟨p, 0⟩)
    {rest : Multiset Nat} (hc : l.callerNodes = rest + {a}) :
    Ledger.Inv { l with io := { l.io with nodes := Function.update l.io.nodes a none },
                        refs := Function.update l.refs p (l.refs p - 1), callerNodes := rest } ps r := by
  have hm : l.held ps = a ::ₘ (rest + l.batchNodes + ps) := by
    simp only [Ledger.held, hc, ← Multiset.singleton_add]; ac_rfl
  obtain ⟨hx, hnd, halloc, hrefs⟩ := hi.release_core hm
  rw [packetOf_of_eq hna] at hrefs
  have hps : ∀ y ∈ ps, y ≠ a := fun y hy e => hx (e ▸ by simp [hy])
  refine ⟨hi.seg.frame fun y hy => Function.update_noteq (hps y hy) _ _, hi.tail, hi.size,
    hi.size_le, hnd, halloc, hrefs, hi.drained, ?_, hi.removed, ?_⟩ <;> dsimp only
  · rw [← hi.fifo, List.map_congr_left fun y hy => packetOf_update_ne _ (hps y hy)]
  · rw [map_packetOf_update _ _ fun h => hx (by simp [h]), hi.out]

/-- A writer writes, or fails to copy, the packet of the node `n` of its
    batch, then frees both. -/
theorem Ledger.Inv.release_batch (hi : l.Inv ps r) {n : Nat} {rest : Multiset Nat}
    (hb : l.batchNodes = rest + {n}) (handed : Bool) :
    Ledger.Inv { l with
      io := { l.io with nodes := Function.update l.io.nodes n none },
      refs := Function.update l.refs (packetOf l.io.nodes n) (l.refs (packetOf l.io.nodes n) - 1),
      batchNodes := rest,
      written := if handed then l.written ++ [packetOf l.io.nodes n] else l.written,
      unwritten := if handed then l.unwritten else l.unwritten ++ [packetOf l.io.nodes n] } ps r := by
  have hm : l.held ps = n ::ₘ (l.callerNodes + rest + ps) := by
    simp only [Ledger.held, hb, ← Multiset.singleton_add]; ac_rfl
  obtain ⟨hx, hnd, halloc, hrefs⟩ := hi.release_core hm
  have hps : ∀ y ∈ ps, y ≠ n := fun y hy e => hx (e ▸ by simp [hy])
  refine ⟨hi.seg.frame fun y hy => Function.update_noteq (hps y hy) _ _, hi.tail, hi.size,
    hi.size_le, hnd, halloc, hrefs, hi.drained, ?_, hi.removed, ?_⟩ <;> dsimp only
  · rw [← hi.fifo, List.map_congr_left fun y hy => packetOf_update_ne _ (hps y hy)]
  · rw [map_packetOf_update _ _ fun h => hx (by simp [h]), ← hi.out, hb, Multiset.map_add]
    cases handed <;> simp [← Multiset.coe_add] <;> ac_rfl

/-- `destroy`'s drain frees the head node and its packet. -/
theorem Ledger.Inv.drain_head (hi : l.Inv ps r) (hd : l.draining = true) {n : HevPacketNode}
    (hh : l.io.writeQueueHead ≠ 0) (hn : l.io.nodes l.io.writeQueueHead = some n) :
    ∃ rest, ps = l.io.writeQueueHead :: rest ∧
      Ledger.Inv { l with
        io := { l.io with writeQueueHead := n.next,
                          nodes := Function.update l.io.nodes l.io.writeQueueHead none },
        refs := if n.packet ≠ 0 then Function.update l.refs n.packet (l.refs n.packet - 1)
                else l.refs,
        drained := l.drained ++ [n.packet] } rest (r ++ [n.packet]) := by
  obtain ⟨n', rest, hn', rfl, hs⟩ := hi.seg.head_cons hh
  rw [hn] at hn'
  cases hn'
  refine ⟨rest, rfl, ?_⟩
  have hm : l.held (l.io.writeQueueHead :: rest) =
      l.io.writeQueueHead ::ₘ (l.callerNodes + l.batchNodes + rest) := by
    simp only [Ledger.held, ← Multiset.cons_coe, Multiset.add_cons]
  obtain ⟨hx, hnd, halloc, hrefs⟩ := hi.release_core hm
  have hpk : packetOf l.io.nodes l.io.writeQueueHead = n.packet := by simp [packetOf, hn]
  rw [hpk] at hrefs
  have hrest : ∀ y ∈ rest, y ≠ l.io.writeQueueHead := fun y hy e => hx (e ▸ by simp [hy])
  have hdr : l.draining = false → False := fun h => by rw [hd] at h; cases h
  have hr := removed_append hi.removed [n.packet]
  refine ⟨hs.frame fun y hy => Function.update_noteq (hrest y hy) _ _, fun h => (hdr h).elim,
    fun h => (hdr h).elim, hi.size_le, hnd, halloc, fun q hq => ?_, fun h => (hdr h).elim, ?_,
    ⟨hr.2.2.2.1, hr.2.2.2.2.1, hr.2.2.2.2.2⟩, ?_⟩
  · dsimp only [Ledger.held]
    rw [← hrefs q hq]
    split_ifs with hp
    · rfl
    · rw [Function.update_noteq (by rw [not_not.1 hp]; exact hq)]
  · dsimp only
    rw [← hi.fifo, List.map_congr_left fun y hy => packetOf_update_ne _ (hrest y hy),
      List.map_cons, hpk]
    simp
  · dsimp only
    rw [map_packetOf_update _ _ fun h => hx (by simp [h]), hi.out]

/-- The bookkeeping does not read `running`. -/
theorem Ledger.Inv.setRunning (hi : l.Inv ps r) (b : Bool) :
    Ledger.Inv { l with io := { l.io with running := b } } ps r :=
  ⟨hi.seg, hi.tail, hi.size, hi.size_le, hi.nodup, hi.alloc, hi.refs, hi.drained, hi.fifo,
    hi.removed, hi.out⟩

/-- `destroy`'s drain begins. -/
theorem Ledger.Inv.drain_start (hi : l.Inv ps r) : Ledger.Inv { l with draining := true } ps r :=
  ⟨hi.seg, by simp, by simp, hi.size_le, hi.nodup, hi.alloc, hi.refs, by simp, hi.fifo, hi.removed,
    hi.out⟩

end Ledger

theorem callerNodes_of_idle {cs : List Caller} (h : ∀ c ∈ cs, c = .idle) : callerNodes cs = 0 :=
  List.sum_eq_zero fun x hx => by
    obtain ⟨c, hc, rfl⟩ := List.mem_map.1 hx
    rw [h c hc]; rfl

theorem batchNodes_of_exited {ws : List Writer} (h : ∀ w ∈ ws, w = .exited) : batchNodes ws = 0 :=
  List.sum_eq_zero fun x hx => by
    obtain ⟨w, hw, rfl⟩ := List.mem_map.1 hx
    rw [h w hw]; rfl

theorem callerNodes_replicate_idle (n : Nat) : callerNodes (List.replicate n .idle) = 0 :=
  callerNodes_of_idle fun _ => List.eq_of_mem_replicate

end HevTunnel.TunnelIO
