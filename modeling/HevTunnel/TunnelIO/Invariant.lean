import HevTunnel.TunnelIO.Ledger

/-!
# The invariant of the write path

`Books` is what the steps of the callers, the writers and the drain keep in
every run: the ledger's invariant, and each caller's node holding its packet.
`Inv` is what holds of every state of a run in which `hev_tunnel_io_start`
does not fail: the books for some queue, the packets removed from it being
those taken, then those drained, and how the threads, `running` and the
control thread's progress through `stop` and `destroy` agree. Each step of
each thread keeps it: a writer's moves are framed by `Inv.writer_frame`, a
caller's by `Inv.caller_frame`, and each of `start`, `stop`, `destroy`, the
join loop and the drain loop has its own lemma.
-/

namespace HevTunnel.TunnelIO

open Heap

/-! ## The books -/

/-- Each caller's node holds its packet. -/
def CallersHold (s : State) : Prop :=
  ∀ c ∈ s.callers, ∀ p a, (c = .enqueue p a ∨ c = .reject p a) → s.io.nodes a = some ⟨p, 0⟩

/-- The ledger's invariant, for the queue `ps` and the packets removed `r`,
    and the callers' nodes. -/
structure Books (s : State) (ps r : List Nat) : Prop where
  ledger : s.ledger.Inv ps r
  callers : CallersHold s

/-! ## The invariant -/

/-- The invariant of every run with no failed start: the ledger's; each
    caller's node holds its packet; a packet released unwritten is chained;
    the writers run from the start until `stop`, which joins them all; a
    writer returns only once `running` is cleared; `destroy` finds no caller;
    the drain ends with the queue empty; and after a quiet `stop` the queue
    stays empty once a writer has returned. -/
structure Inv (s : State) : Prop where
  ledger : ∃ ps, s.ledger.Inv ps (s.taken ++ s.drained)
  caller_node : CallersHold s
  unwritten : ∀ p ∈ s.unwritten, s.chained p = true
  numWriters_pos : 0 < s.io.numWriters
  running : s.io.running = true → s.control = .idle ∧ s.writers.length = s.io.numWriters
  exited : .exited ∈ s.writers → s.io.running = false
  unstarted : s.control = .idle → s.io.running = false → s.writers = []
  joining : ∀ i d, s.control = .joinWriters i d → s.io.running = false ∧
    s.writers.length = s.io.numWriters ∧ ∀ j < i, s.writers[j]? = some .exited
  stopped_false : s.control = .stopped false → s.writers = []
  stopped_true : s.control = .stopped true → s.writers.length = s.io.numWriters ∧
    ∀ w ∈ s.writers, w = .exited
  draining : s.control.draining = true → ∀ w ∈ s.writers, w = .exited
  destroying : s.control.destroying = true → ∀ c ∈ s.callers, c = .idle
  destroyed : s.control = .destroyed → s.io.writeQueueHead = 0
  quiet : s.quiet = true → (∀ c ∈ s.callers, c = .idle) ∧
    (.exited ∈ s.writers → s.io.writeQueueHead = 0)

/-! ## Each step keeps the invariant -/

theorem mem_set_exited {ws : List Writer} {i : Nat} {w' : Writer} (hw' : w' ≠ .exited)
    (h : Writer.exited ∈ ws.set i w') : Writer.exited ∈ ws :=
  (List.mem_or_eq_of_mem_set h).resolve_right fun e => hw' e.symm

/-- Moving a writer that has not returned keeps every writer that has. -/
theorem set_keeps_exited {ws : List Writer} {i j : Nat} {w w' : Writer} (h : ws[i]? = some w)
    (hw : w ≠ .exited) (hj : ws[j]? = some .exited) : (ws.set i w')[j]? = some .exited := by
  have hji : i ≠ j := by rintro rfl; rw [h] at hj; exact hw (Option.some.inj hj)
  rw [List.getElem?_set_ne hji]; exact hj

theorem not_all_exited {ws : List Writer} {i : Nat} {w : Writer} (h : ws[i]? = some w)
    (hw : w ≠ .exited) : ¬ ∀ x ∈ ws, x = .exited :=
  fun hall => hw (hall w (List.getElem?_mem h))

theorem mem_callerNodes {cs : List Caller} {c : Caller} (hc : c ∈ cs) {p a : Nat}
    (h : c = .enqueue p a ∨ c = .reject p a) : a ∈ callerNodes cs := by
  induction cs with
  | nil => cases hc
  | cons c' cs ih =>
    simp only [callerNodes, List.map_cons, List.sum_cons, Multiset.mem_add] at ih ⊢
    rcases List.mem_cons.1 hc with rfl | hc
    · left; rcases h with rfl | rfl <;> simp [Caller.node]
    · exact .inr (ih hc)

theorem Control.destroying_of_draining {c : Control} (h : c.draining = true) :
    c.destroying = true := by
  cases c <;> simp_all [Control.draining, Control.destroying]

/-! ## Each step keeps the books -/

section Books

variable {s : State} {ps r : List Nat} (hb : Books s ps r)
include hb

/-- A writer moves without touching its batch. -/
theorem Books.writer_set {i : Nat} {w w' : Writer} (hw : s.writers[i]? = some w)
    (hn : w'.nodes = w.nodes) : Books { s with writers := s.writers.set i w' } ps r := by
  refine ⟨?_, hb.callers⟩
  show Ledger.Inv { s.ledger with batchNodes := batchNodes (s.writers.set i w') } ps r
  rw [batchNodes_set_of_nodes hw hn]; exact hb.ledger

/-- A writer holding no batch takes one from the head of the queue. -/
theorem Books.writer_take {i : Nat} {w : Writer} (hw : s.writers[i]? = some w) (hw0 : w.nodes = 0) :
    ∃ rest, Books { s with io := (takeWriteBatch s.io).2,
                           writers := s.writers.set i (.batch (takeWriteBatch s.io).1),
                           taken := s.taken ++ (takeWriteBatch s.io).1.map (packetOf s.io.nodes) }
      rest (r ++ (takeWriteBatch s.io).1.map (packetOf s.io.nodes)) := by
  obtain ⟨rest, -, hl'⟩ := hb.ledger.take
  have h := batchNodes_set hw (.batch (takeWriteBatch s.io).1)
  rw [hw0, add_zero] at h
  refine ⟨rest, ?_, hb.callers⟩
  dsimp only [State.ledger] at hl' ⊢
  rw [h]; exact hl'

/-- A writer writes, or fails to copy, the first packet of its batch and
    frees it and its node, which no caller holds. -/
theorem Books.writer_release {i n : Nat} {ns : List Nat}
    (hw : s.writers[i]? = some (.batch (n :: ns))) (copied : Bool) :
    Books { s with
      io := { s.io with nodes := Function.update s.io.nodes n none },
      refs := Function.update s.refs (packetOf s.io.nodes n) (s.refs (packetOf s.io.nodes n) - 1),
      writers := s.writers.set i (.batch ns),
      written := if !s.chained (packetOf s.io.nodes n) || copied
        then s.written ++ [packetOf s.io.nodes n] else s.written,
      unwritten := if !s.chained (packetOf s.io.nodes n) || copied
        then s.unwritten else s.unwritten ++ [packetOf s.io.nodes n] } ps r := by
  have hbn : batchNodes s.writers = batchNodes (s.writers.set i (.batch ns)) + {n} := by
    have h := batchNodes_set hw (.batch ns)
    simp only [Writer.nodes, ← Multiset.cons_coe, ← Multiset.singleton_add, ← add_assoc] at h
    exact (add_right_cancel h).symm
  have hn : n ∈ s.ledger.batchNodes := by simp [State.ledger, hbn]
  refine ⟨hb.ledger.release_batch hbn (!s.chained (packetOf s.io.nodes n) || copied),
    fun c hc p a h => ?_⟩
  have hne : a ≠ n := fun e => by
    have := (Multiset.nodup_add.1 (Multiset.nodup_add.1 hb.ledger.nodup).1).2.2
    exact Multiset.disjoint_left.1 this (e ▸ mem_callerNodes hc h) hn
  dsimp only
  rw [Function.update_noteq hne]; exact hb.callers c hc p a h

/-- A caller allocates its node and takes its reference. -/
theorem Books.caller_write {c p a : Nat} (hc : s.callers[c]? = some .idle) (ha : a ≠ 0)
    (hfree : s.io.nodes a = none) :
    Books { s with io := { s.io with nodes := Function.update s.io.nodes a (some ⟨p, 0⟩) },
                   refs := Function.update s.refs p (s.refs p + 1),
                   callers := s.callers.set c (.enqueue p a), quiet := false } ps r := by
  have hcn := callerNodes_set hc (.enqueue p a)
  simp only [Caller.node, add_zero] at hcn
  refine ⟨?_, fun c' hc' p' b h => ?_⟩
  · dsimp only [State.ledger]
    rw [hcn]; exact hb.ledger.acquire ha hfree
  · rcases List.mem_or_eq_of_mem_set hc' with hc' | rfl
    · have hb' := hb.callers c' hc' p' b h
      have hba : b ≠ a := by rintro rfl; rw [hfree] at hb'; cases hb'
      dsimp only; rw [Function.update_noteq hba]; exact hb'
    · rcases h with h | h <;> cases h
      exact Function.update_same _ _ _

/-- A caller links its node at the tail, before the drain. -/
theorem Books.caller_link {c p a : Nat} (hc : s.callers[c]? = some (.enqueue p a))
    (hdr : s.control.draining = false) {io' : HevTunnelIO} (hw : hevTunnelIoWrite s.io a = (0, io')) :
    Books { s with io := io', callers := s.callers.set c .idle, accepted := s.accepted ++ [p] }
      (ps ++ [a]) r := by
  have hl := hb.ledger
  have hcn := callerNodes_set hc .idle
  simp only [Caller.node, add_zero] at hcn
  have hna := hb.callers _ (List.getElem?_mem hc) p a (.inl rfl)
  have ha : a ∈ s.ledger.held ps := by simp [Ledger.held, State.ledger, ← hcn]
  obtain ⟨-, -, -, -, -, hframe⟩ := hevTunnelIoWrite_spec (hl.isQueue hdr) (hl.alloc a ha).1 hna
    (hl.not_mem_queue (by simp [State.ledger, ← hcn])) hw
  refine ⟨hl.link hdr hna hcn.symm hw, fun c' hc' p' b h => ?_⟩
  rcases List.mem_or_eq_of_mem_set hc' with hc' | rfl
  · dsimp only
    rw [hframe b (hl.not_mem_queue (by simp [State.ledger, mem_callerNodes hc' h]))]
    exact hb.callers c' hc' p' b h
  · rcases h with h | h <;> cases h

/-- A caller finds the queue full. -/
theorem Books.caller_reject {c p a : Nat} (hc : s.callers[c]? = some (.enqueue p a)) :
    Books { s with callers := s.callers.set c (.reject p a) } ps r := by
  have hcn : callerNodes (s.callers.set c (.reject p a)) = callerNodes s.callers :=
    add_right_cancel (callerNodes_set hc (.reject p a))
  refine ⟨?_, fun c' hc' p' b h => ?_⟩
  · dsimp only [State.ledger]; rw [hcn]; exact hb.ledger
  · rcases List.mem_or_eq_of_mem_set hc' with hc' | rfl
    · exact hb.callers c' hc' p' b h
    · rcases h with h | h <;> cases h
      exact hb.callers _ (List.getElem?_mem hc) p a (.inl rfl)

/-- A caller frees the node of its rejected write and drops its reference. -/
theorem Books.caller_release {c p a : Nat} (hc : s.callers[c]? = some (.reject p a)) :
    Books { s with io := { s.io with nodes := Function.update s.io.nodes a none },
                   refs := Function.update s.refs p (s.refs p - 1),
                   callers := s.callers.set c .idle } ps r := by
  have hcn := callerNodes_set hc .idle
  simp only [Caller.node, add_zero] at hcn
  have hna := hb.callers _ (List.getElem?_mem hc) p a (.inr rfl)
  have hnot : a ∉ callerNodes (s.callers.set c .idle) := by
    have hnd : (callerNodes (s.callers.set c .idle) + {a}).Nodup := by
      rw [hcn]; exact (Multiset.nodup_add.1 (Multiset.nodup_add.1 hb.ledger.nodup).1).1
    rw [add_comm, Multiset.singleton_add, Multiset.nodup_cons] at hnd
    exact hnd.1
  refine ⟨hb.ledger.release_caller hna hcn.symm, fun c' hc' p' b h => ?_⟩
  have hb' := mem_callerNodes hc' h
  rcases List.mem_or_eq_of_mem_set hc' with hc' | rfl
  · dsimp only
    rw [Function.update_noteq (by rintro rfl; exact hnot hb')]
    exact hb.callers c' hc' p' b h
  · rcases h with h | h <;> cases h

/-- The drain frees the head node and its packet, no caller being under way. -/
theorem Books.drain_step {n : HevPacketNode} (hd : s.control.draining = true)
    (hidle : ∀ c ∈ s.callers, c = .idle) (hh : s.io.writeQueueHead ≠ 0)
    (hn : s.io.nodes s.io.writeQueueHead = some n) :
    ∃ rest, Books { s with
      io := { s.io with writeQueueHead := n.next,
                        nodes := Function.update s.io.nodes s.io.writeQueueHead none },
      refs := if n.packet ≠ 0 then Function.update s.refs n.packet (s.refs n.packet - 1) else s.refs,
      drained := s.drained ++ [n.packet] } rest (r ++ [n.packet]) := by
  obtain ⟨rest, -, hl'⟩ := hb.ledger.drain_head hd hh hn
  refine ⟨rest, hl', fun c hc p a h => ?_⟩
  rw [hidle c hc] at h
  rcases h with h | h <;> cases h

end Books

/-- A caller under way means `destroy` has not begun. -/
theorem Inv.not_destroying {s : State} (hi : Inv s) {c : Nat} {x : Caller}
    (hc : s.callers[c]? = some x) (hx : x ≠ .idle) : s.control.destroying = false := by
  by_contra h
  exact hx (hi.destroying (by simpa using h) x (List.getElem?_mem hc))

/-- A writer that has not returned means the drain has not begun. -/
theorem Inv.not_draining {s : State} (hi : Inv s) {i : Nat} {w : Writer}
    (hw : s.writers[i]? = some w) (hne : w ≠ .exited) : s.control.draining = false := by
  by_contra h
  exact not_all_exited hw hne (hi.draining (by simpa using h))

section Writers

variable {s : State} (hi : Inv s) {i : Nat} {w : Writer} (hw : s.writers[i]? = some w)
  (hne : w ≠ .exited)
include hi hw hne

/-- The invariant, but for the books, when the writer `i`, not returned,
    moves to a state `w'` other than returned. -/
theorem Inv.writer_frame {w' : Writer} (hne' : w' ≠ .exited) (s' : State)
    (hb : ∃ ps, Books s' ps (s'.taken ++ s'.drained)) (hc : s'.callers = s.callers)
    (hio : s'.io.running = s.io.running ∧ s'.io.numWriters = s.io.numWriters)
    (hws : s'.writers = s.writers.set i w') (hu : s'.unwritten = s.unwritten ∨
      ∀ p ∈ s'.unwritten, s'.chained p = true)
    (hctl : s'.control = s.control ∧ s'.chained = s.chained ∧ s'.quiet = s.quiet)
    (hq : s.quiet = true → Writer.exited ∈ s.writers → s'.io.writeQueueHead = 0) : Inv s' := by
  obtain ⟨hctl, hch, hqt⟩ := hctl
  obtain ⟨ps, hb⟩ := hb
  have hall := not_all_exited hw hne
  have hdr := hi.not_draining hw hne
  refine ⟨⟨ps, hb.ledger⟩, hb.callers, ?_, by rw [hio.2]; exact hi.numWriters_pos,
    ?_, ?_, ?_, ?_, ?_, ?_, ?_, by rw [hctl, hc]; exact hi.destroying, ?_, ?_⟩
  · rcases hu with hu | hu
    · rw [hu, hch]; exact hi.unwritten
    · exact hu
  · intro hr; rw [hio.1] at hr; rw [hctl, hws, List.length_set, hio.2]; exact hi.running hr
  · intro he; rw [hio.1]; exact hi.exited (mem_set_exited hne' (hws ▸ he))
  · intro h hr; rw [hctl] at h; rw [hio.1] at hr
    rw [hi.unstarted h hr] at hw; cases hw
  · intro i' d h; rw [hctl] at h
    obtain ⟨h₁, h₂, h₃⟩ := hi.joining i' d h
    exact ⟨hio.1 ▸ h₁, by rw [hws, List.length_set, hio.2]; exact h₂,
      fun j hj => hws ▸ set_keeps_exited hw hne (h₃ j hj)⟩
  · intro h; rw [hctl] at h; rw [hi.stopped_false h] at hw; cases hw
  · intro h; rw [hctl] at h; exact absurd (hi.stopped_true h).2 hall
  · intro h; rw [hctl] at h; rw [hdr] at h; cases h
  · intro h; rw [hctl] at h; rw [h] at hdr; cases hdr
  · intro h; rw [hqt] at h
    exact ⟨hc ▸ (hi.quiet h).1, fun he => hq h (mem_set_exited hne' (hws ▸ he))⟩

/-- A writer moves without touching its batch. -/
theorem Inv.writer_move {w' : Writer} (hne' : w' ≠ .exited) (hn : w'.nodes = w.nodes) :
    Inv { s with writers := s.writers.set i w' } := by
  obtain ⟨ps, hl⟩ := hi.ledger
  exact hi.writer_frame hw hne hne' _ ⟨ps, Books.writer_set ⟨hl, hi.caller_node⟩ hw hn⟩ rfl ⟨rfl, rfl⟩
    rfl (.inl rfl) ⟨rfl, rfl, rfl⟩ fun h he => (hi.quiet h).2 he

/-- A writer takes a batch. -/
theorem Inv.writer_take (hw0 : w.nodes = 0) :
    Inv { s with io := (takeWriteBatch s.io).2,
                 writers := s.writers.set i (.batch (takeWriteBatch s.io).1),
                 taken := s.taken ++ (takeWriteBatch s.io).1.map (packetOf s.io.nodes) } := by
  obtain ⟨ps, hl⟩ := hi.ledger
  have hd0 : s.drained = [] := hl.drained (hi.not_draining hw hne)
  obtain ⟨rest, hb⟩ := Books.writer_take ⟨hl, hi.caller_node⟩ hw hw0
  -- no drain has begun: the packets removed are those taken
  have e : s.taken ++ s.drained ++ (takeWriteBatch s.io).1.map (packetOf s.io.nodes) =
      s.taken ++ (takeWriteBatch s.io).1.map (packetOf s.io.nodes) ++ s.drained := by
    rw [hd0, List.append_nil, List.append_nil]
  have hb' := e ▸ hb
  refine hi.writer_frame hw hne (by simp) _ ⟨rest, hb'⟩ rfl ⟨rfl, rfl⟩ rfl
    (.inl rfl) ⟨rfl, rfl, rfl⟩ fun h he => ?_
  · have hh := (hi.quiet h).2 he
    simp [takeWriteBatch, takeBatch, writeBatchSize, hh]

/-- A writer writes, or fails to copy, the first packet of its batch and
    frees it and its node. -/
theorem Inv.writer_release {n : Nat} {ns : List Nat} (hwb : w = .batch (n :: ns)) (copied : Bool) :
    Inv { s with
      io := { s.io with nodes := Function.update s.io.nodes n none },
      refs := Function.update s.refs (packetOf s.io.nodes n) (s.refs (packetOf s.io.nodes n) - 1),
      writers := s.writers.set i (.batch ns),
      written := if !s.chained (packetOf s.io.nodes n) || copied
        then s.written ++ [packetOf s.io.nodes n] else s.written,
      unwritten := if !s.chained (packetOf s.io.nodes n) || copied
        then s.unwritten else s.unwritten ++ [packetOf s.io.nodes n] } := by
  subst hwb
  obtain ⟨ps, hl⟩ := hi.ledger
  refine hi.writer_frame hw hne (by simp) _ ⟨ps, Books.writer_release ⟨hl, hi.caller_node⟩ hw copied⟩
    rfl ⟨rfl, rfl⟩ rfl (.inr fun p hp => ?_) ⟨rfl, rfl, rfl⟩ fun h he => (hi.quiet h).2 he
  dsimp only at hp
  split_ifs at hp with hh
  · exact hi.unwritten p hp
  · rcases List.mem_append.1 hp with hp | hp
    · exact hi.unwritten p hp
    · rw [List.mem_singleton.1 hp]; simp at hh; exact hh.1

end Writers

/-- A writer that finds `running` cleared and the queue empty returns. -/
theorem Inv.writer_exit {s : State} (hi : Inv s) {i : Nat} (hw : s.writers[i]? = some .top)
    (hr : s.io.running = false) (hz : s.io.writeQueueSize ≤ 0) :
    Inv { s with writers := s.writers.set i .exited } := by
  have hall := not_all_exited hw (by simp)
  have hdr := hi.not_draining hw (by simp)
  obtain ⟨ps, hl⟩ := hi.ledger
  have hh : s.io.writeQueueHead = 0 := by
    have hs := hl.size hdr
    exact (seg_ne_zero hl.seg).2 (List.eq_nil_of_length_eq_zero (by simp [State.ledger] at hs; omega))
  refine ⟨⟨ps, (Books.writer_set ⟨hl, hi.caller_node⟩ hw
    (show Writer.exited.nodes = Writer.top.nodes from rfl)).ledger⟩,
    hi.caller_node, hi.unwritten, hi.numWriters_pos, fun h => by simp_all,
    fun _ => hr, fun h h' => ?_, fun i' d h => ?_, fun h => ?_, fun h => ?_, fun h => ?_,
    hi.destroying, hi.destroyed, fun h => ⟨(hi.quiet h).1, fun _ => hh⟩⟩
  · rw [hi.unstarted h h'] at hw; cases hw
  · obtain ⟨h₁, h₂, h₃⟩ := hi.joining i' d h
    exact ⟨h₁, by simpa using h₂, fun j hj => set_keeps_exited hw (by simp) (h₃ j hj)⟩
  · rw [hi.stopped_false h] at hw; cases hw
  · exact absurd (hi.stopped_true h).2 hall
  · exact absurd (hi.draining h) hall


section Callers

variable {s : State} (hi : Inv s)
include hi

/-- The invariant, but for the ledger and the callers' nodes, after a
    caller's step before `destroy`, with no quiet `stop` since. -/
theorem Inv.caller_frame (hnd : s.control.destroying = false) (s' : State)
    (hb : ∃ ps, Books s' ps (s'.taken ++ s'.drained))
    (hio : s'.io.running = s.io.running ∧ s'.io.numWriters = s.io.numWriters)
    (hrest : s'.writers = s.writers ∧ s'.control = s.control ∧ s'.chained = s.chained ∧
      s'.unwritten = s.unwritten)
    (hq : s'.quiet = false) : Inv s' := by
  obtain ⟨hws, hctl, hch, hu⟩ := hrest
  obtain ⟨ps, hb⟩ := hb
  exact ⟨⟨ps, hb.ledger⟩, hb.callers, by rw [hu, hch]; exact hi.unwritten, by rw [hio.2]; exact hi.numWriters_pos,
    by simpa only [hws, hctl, hio.1, hio.2] using hi.running,
    by simpa only [hws, hio.1] using hi.exited,
    by simpa only [hws, hctl, hio.1] using hi.unstarted,
    by simpa only [hws, hctl, hio.1, hio.2] using hi.joining,
    by simpa only [hws, hctl] using hi.stopped_false,
    by simpa only [hws, hctl, hio.2] using hi.stopped_true,
    by simpa only [hws, hctl] using hi.draining,
    fun h => absurd (hnd ▸ hctl ▸ h) (by decide),
    fun h => absurd (hnd ▸ congrArg Control.destroying (hctl ▸ h)) (by decide),
    by simp [hq]⟩

/-- A caller allocates its node and takes its reference. -/
theorem Inv.caller_write {c p a : Nat} (hc : s.callers[c]? = some .idle)
    (hnd : s.control.destroying = false) (ha : a ≠ 0) (hfree : s.io.nodes a = none) :
    Inv { s with io := { s.io with nodes := Function.update s.io.nodes a (some ⟨p, 0⟩) },
                 refs := Function.update s.refs p (s.refs p + 1),
                 callers := s.callers.set c (.enqueue p a), quiet := false } := by
  obtain ⟨ps, hl⟩ := hi.ledger
  exact hi.caller_frame hnd _ ⟨ps, Books.caller_write ⟨hl, hi.caller_node⟩ hc ha hfree⟩ ⟨rfl, rfl⟩
    ⟨rfl, rfl, rfl, rfl⟩ rfl

/-- A caller links its node at the tail. -/
theorem Inv.caller_link {c p a : Nat} (hc : s.callers[c]? = some (.enqueue p a))
    {io' : HevTunnelIO} (hw : hevTunnelIoWrite s.io a = (0, io')) :
    Inv { s with io := io', callers := s.callers.set c .idle, accepted := s.accepted ++ [p] } := by
  obtain ⟨ps, hl⟩ := hi.ledger
  have hnd := hi.not_destroying hc (by simp)
  have hdr : s.control.draining = false := by
    cases h : s.control.draining
    · rfl
    · rw [Control.destroying_of_draining h] at hnd; cases hnd
  have hq : s.quiet = false := by
    cases h : s.quiet
    · rfl
    · exact absurd ((hi.quiet h).1 _ (List.getElem?_mem hc)) (by simp)
  exact hi.caller_frame hnd _ ⟨ps ++ [a], Books.caller_link ⟨hl, hi.caller_node⟩ hc hdr hw⟩
    ⟨by rw [← hevTunnelIoWrite_running s.io a, hw], by rw [← hevTunnelIoWrite_numWriters s.io a, hw]⟩
    ⟨rfl, rfl, rfl, rfl⟩ hq

/-- A caller finds the queue full. -/
theorem Inv.caller_reject {c p a : Nat} (hc : s.callers[c]? = some (.enqueue p a)) :
    Inv { s with callers := s.callers.set c (.reject p a) } := by
  obtain ⟨ps, hl⟩ := hi.ledger
  have hq : s.quiet = false := by
    cases h : s.quiet
    · rfl
    · exact absurd ((hi.quiet h).1 _ (List.getElem?_mem hc)) (by simp)
  exact hi.caller_frame (hi.not_destroying hc (by simp)) _
    ⟨ps, Books.caller_reject ⟨hl, hi.caller_node⟩ hc⟩ ⟨rfl, rfl⟩ ⟨rfl, rfl, rfl, rfl⟩ hq

/-- A caller frees the node of its rejected write and drops its reference. -/
theorem Inv.caller_release {c p a : Nat} (hc : s.callers[c]? = some (.reject p a)) :
    Inv { s with io := { s.io with nodes := Function.update s.io.nodes a none },
                 refs := Function.update s.refs p (s.refs p - 1),
                 callers := s.callers.set c .idle } := by
  obtain ⟨ps, hl⟩ := hi.ledger
  have hq : s.quiet = false := by
    cases h : s.quiet
    · rfl
    · exact absurd ((hi.quiet h).1 _ (List.getElem?_mem hc)) (by simp)
  exact hi.caller_frame (hi.not_destroying hc (by simp)) _
    ⟨ps, Books.caller_release ⟨hl, hi.caller_node⟩ hc⟩ ⟨rfl, rfl⟩ ⟨rfl, rfl, rfl, rfl⟩ hq

end Callers

section Control

variable {s : State} (hi : Inv s)
include hi

/-- `hev_tunnel_io_start` creates every writer. -/
theorem Inv.start (hc : s.control = .idle) (hw : s.writers = []) :
    Inv { s with io := { s.io with running := true },
                 writers := List.replicate s.io.numWriters .top } := by
  obtain ⟨ps, hl⟩ := hi.ledger
  refine ⟨⟨ps, ?_⟩, hi.caller_node, hi.unwritten, hi.numWriters_pos, fun _ => ⟨hc, by simp⟩,
    fun h => by simp at h, fun _ h => (by cases h), fun i d h => by simp [hc] at h,
    fun h => by simp [hc] at h, fun h => by simp [hc] at h,
    fun h => by simp [hc, Control.draining] at h,
    fun h => by simp [hc, Control.destroying] at h, fun h => by simp [hc] at h,
    fun h => ⟨(hi.quiet h).1, fun he => by simp at he⟩⟩
  dsimp only [State.ledger] at hl ⊢
  rw [batchNodes_replicate_top]; rw [hw] at hl; exact hl.setRunning true

/-- `hev_tunnel_io_stop` called alone: it returns at once, or clears
    `running` and starts joining. -/
theorem Inv.stop (hc : s.control = .idle) :
    Inv { s with io := { s.io with running := false },
                 control := if s.io.running then .joinWriters 0 false else .stopped false,
                 quiet := s.callers.all (· = .idle) } := by
  obtain ⟨ps, hl⟩ := hi.ledger
  have hl' : ∀ c', c'.draining = false →
      Ledger.Inv { s with io := { s.io with running := false }, control := c' }.ledger ps
        (s.taken ++ s.drained) := by
    intro c' hc'
    have := hl.setRunning false
    dsimp only [State.ledger] at this ⊢; rw [hc', hc] at *; exact this
  have hq : ∀ c ∈ s.callers, (s.callers.all (· = .idle) = true) → c = .idle := fun c hc h => by
    simpa using List.all_eq_true.1 h c hc
  cases hr : s.io.running
  · have hw := hi.unstarted hc hr
    refine ⟨⟨ps, hl' _ rfl⟩, hi.caller_node, hi.unwritten, hi.numWriters_pos, fun h => (by cases h),
      fun _ => rfl, fun h => by simp at h, fun i d h => by simp at h, fun _ => hw,
      fun h => by simp at h, fun h => by simp [Control.draining] at h,
      fun h => by simp [Control.destroying] at h, fun h => by simp at h,
      fun h => ⟨fun c hc => hq c hc h, fun he => by simp [hw] at he⟩⟩
  · obtain ⟨-, hlen⟩ := hi.running hr
    have hne : Writer.exited ∉ s.writers := fun he => by rw [hi.exited he] at hr; cases hr
    refine ⟨⟨ps, hl' _ rfl⟩, hi.caller_node, hi.unwritten, hi.numWriters_pos, fun h => (by cases h),
      fun _ => rfl, fun h => by simp at h, fun i d h => ?_, fun h => by simp at h,
      fun h => by simp at h, fun h => by simp [Control.draining] at h,
      fun h => by simp [Control.destroying] at h, fun h => by simp at h,
      fun h => ⟨fun c hc => hq c hc h, fun he => absurd he hne⟩⟩
    simp only [if_true, Control.joinWriters.injEq] at h
    obtain ⟨rfl, -⟩ := h
    exact ⟨rfl, hlen, fun j hj => absurd hj (Nat.not_lt_zero j)⟩

/-- `hev_tunnel_io_destroy`, no write under way: its `stop` returns at once
    and the drain begins, or it clears `running` and starts joining. -/
theorem Inv.destroy (hc : s.control.mayDestroy = true) (hcs : s.callers.all (· = .idle) = true) :
    Inv { s with io := { s.io with running := false },
                 control := if s.io.running then .joinWriters 0 true else .drain } := by
  obtain ⟨ps, hl⟩ := hi.ledger
  have hidle : ∀ c ∈ s.callers, c = .idle := fun c hc => by simpa using List.all_eq_true.1 hcs c hc
  have hdr : s.control.draining = false := by
    revert hc; cases s.control <;> simp [Control.mayDestroy, Control.draining]
  cases hr : s.io.running
  · have hex : ∀ w ∈ s.writers, w = .exited := by
      revert hc
      cases h : s.control with
      | idle => intro _; simp [hi.unstarted h hr]
      | stopped j =>
        intro _
        cases j
        · simp [hi.stopped_false h]
        · exact (hi.stopped_true h).2
      | _ => simp [Control.mayDestroy]
    refine ⟨⟨ps, ?_⟩, hi.caller_node, hi.unwritten, hi.numWriters_pos, fun h => (by cases h),
      fun _ => rfl, fun h => by simp at h, fun i d h => by simp at h, fun h => by simp at h,
      fun h => by simp at h, fun _ => hex, fun _ => hidle, fun h => by simp at h, hi.quiet⟩
    · have := (hl.setRunning false).drain_start
      dsimp only [State.ledger] at this ⊢; exact this
  · obtain ⟨hidl, hlen⟩ := hi.running hr
    refine ⟨⟨ps, ?_⟩, hi.caller_node, hi.unwritten, hi.numWriters_pos, fun h => (by cases h),
      fun _ => rfl, fun h => by simp at h, fun i d h => ?_, fun h => by simp at h,
      fun h => by simp at h, fun h => by simp [Control.draining] at h, fun _ => hidle,
      fun h => by simp at h, hi.quiet⟩
    · have := hl.setRunning false
      dsimp only [State.ledger] at this ⊢
      rw [if_pos rfl]; rw [hidl] at this; exact this
    · simp only [if_true, Control.joinWriters.injEq] at h
      obtain ⟨rfl, -⟩ := h
      exact ⟨rfl, hlen, fun j hj => absurd hj (Nat.not_lt_zero j)⟩

/-- `stop` has joined the writer `i`. -/
theorem Inv.join_next {i : Nat} {d : Bool} (hc : s.control = .joinWriters i d)
    (hw : s.writers[i]? = some .exited) : Inv { s with control := .joinWriters (i + 1) d } := by
  obtain ⟨hr, hlen, hj⟩ := hi.joining i d hc
  have hl : ({ s with control := .joinWriters (i + 1) d } : State).ledger = s.ledger := by
    simp [State.ledger, hc, Control.draining]
  refine ⟨hl ▸ hi.ledger, hi.caller_node, hi.unwritten, hi.numWriters_pos,
    fun h => (by rw [hr] at h; cases h), hi.exited, fun h => by simp at h, fun i' d' h => ?_,
    fun h => by simp at h, fun h => by simp at h, fun h => by simp [Control.draining] at h,
    fun h => hi.destroying (by simpa [hc, Control.destroying] using h), fun h => by simp at h,
    hi.quiet⟩
  simp only [Control.joinWriters.injEq] at h
  obtain ⟨rfl, rfl⟩ := h
  refine ⟨hr, hlen, fun j hj' => ?_⟩
  rcases Nat.lt_succ_iff_lt_or_eq.1 hj' with hj' | rfl
  · exact hj j hj'
  · exact hw

/-- `stop` has joined every writer: it returns, or `destroy` drains. -/
theorem Inv.join_end {i : Nat} {d : Bool} (hc : s.control = .joinWriters i d)
    (hle : s.io.numWriters ≤ i) : Inv { s with control := if d then .drain else .stopped true } := by
  obtain ⟨hr, hlen, hj⟩ := hi.joining i d hc
  obtain ⟨ps, hl⟩ := hi.ledger
  have hall : ∀ w ∈ s.writers, w = .exited := fun w hw => by
    obtain ⟨j, hj', e⟩ := List.getElem_of_mem hw
    have := hj j (by omega)
    rw [List.getElem?_eq_getElem hj', e] at this
    exact Option.some.inj this
  have hdr : s.control.draining = false := by rw [hc]; rfl
  cases d
  · have hl' : ({ s with control := .stopped true } : State).ledger = s.ledger := by
      simp [State.ledger, hc, Control.draining]
    exact ⟨by simpa [hl'] using hi.ledger, hi.caller_node, hi.unwritten, hi.numWriters_pos,
      fun h => (by rw [hr] at h; cases h), hi.exited, fun h => by simp at h, fun i d h => by simp at h,
      fun h => by simp at h, fun _ => ⟨hlen, hall⟩, fun h => by simp [Control.draining] at h,
      fun h => by simp [Control.destroying] at h, fun h => by simp at h, hi.quiet⟩
  · have hl' := hl.drain_start
    refine ⟨⟨ps, ?_⟩, hi.caller_node, hi.unwritten, hi.numWriters_pos,
      fun h => (by rw [hr] at h; cases h), hi.exited, fun h => by simp at h, fun i d h => by simp at h,
      fun h => by simp at h, fun h => by simp at h, fun _ => hall,
      fun _ => hi.destroying (by simp [hc, Control.destroying]), fun h => by simp at h, hi.quiet⟩
    dsimp only [State.ledger] at hl' ⊢
    exact hl'

/-- The drain finds the queue empty: `destroy` returns. -/
theorem Inv.drain_end (hc : s.control = .drain) (hh : s.io.writeQueueHead = 0) :
    Inv { s with control := .destroyed } := by
  have hl : ({ s with control := .destroyed } : State).ledger = s.ledger := by
    simp [State.ledger, hc, Control.draining]
  exact ⟨hl ▸ hi.ledger, hi.caller_node, hi.unwritten, hi.numWriters_pos,
    fun h => (by rw [(hi.running h).1] at hc; cases hc), hi.exited, fun h => by simp at h,
    fun i d h => by simp at h, fun h => by simp at h, fun h => by simp at h,
    fun _ => hi.draining (by simp [hc, Control.draining]),
    fun _ => hi.destroying (by simp [hc, Control.destroying]), fun _ => hh, hi.quiet⟩

/-- The drain frees the head node and its packet. -/
theorem Inv.drain_step {n : HevPacketNode} (hc : s.control = .drain) (hh : s.io.writeQueueHead ≠ 0)
    (hn : s.io.nodes s.io.writeQueueHead = some n) :
    Inv { s with
      io := { s.io with writeQueueHead := n.next,
                        nodes := Function.update s.io.nodes s.io.writeQueueHead none },
      refs := if n.packet ≠ 0 then Function.update s.refs n.packet (s.refs n.packet - 1) else s.refs,
      drained := s.drained ++ [n.packet] } := by
  obtain ⟨ps, hl⟩ := hi.ledger
  have hidle := hi.destroying (by simp [hc, Control.destroying])
  obtain ⟨rest, hb⟩ := Books.drain_step ⟨hl, hi.caller_node⟩ (by simp [hc, Control.draining]) hidle hh hn
  rw [List.append_assoc] at hb
  exact ⟨⟨rest, hb.ledger⟩, hb.callers, hi.unwritten, hi.numWriters_pos,
    fun h => (by rw [(hi.running h).1] at hc; cases hc), hi.exited, fun h => (by rw [hc] at h; cases h),
    fun i d h => (by rw [hc] at h; cases h), fun h => (by rw [hc] at h; cases h),
    fun h => (by rw [hc] at h; cases h), hi.draining, fun _ => hidle, fun h => (by rw [hc] at h; cases h),
    fun h => ⟨(hi.quiet h).1, fun he => absurd ((hi.quiet h).2 he) hh⟩⟩

end Control

end HevTunnel.TunnelIO
