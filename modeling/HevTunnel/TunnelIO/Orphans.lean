import HevTunnel.TunnelIO.Invariant

/-!
# Runs whose `start` failed

A `hev_tunnel_io_start` that fails to create a writer clears `running` and
returns `-1` without joining the writers it did create. Those run on: with
`running` cleared, each takes what is queued and returns once it finds
`write_queue_size` at zero. As nothing sets `running` again, a later `stop`
returns at once, and `destroy` drains the queue, without `write_mutex`,
while they may still take from it.

`Orphaned` is what holds of every state of such a run from the failed
`start` on: the books, for some queue and some order in which packets left
it; `running` cleared, so that `stop` and `destroy` join nothing; `destroy`
finding no caller; and its drain ending with the queue empty. The packets
removed are then a merge of the writers' takes and the drain's frees, no
longer the takes followed by the frees, and a writer may still hold a batch,
with its references, once `destroy` has returned.

* `startFailed_next`: only a failed `start` sets `startFailed`, and nothing
  clears it;
* `Inv.startFail`: the failed `start` leaves `Orphaned`;
* `orphaned_next`: every later step keeps it.
-/

namespace HevTunnel.TunnelIO

open Heap

/-- What holds of every state of a run after a failed `start`: the books,
    `running` cleared, `stop` and `destroy` joining nothing, `destroy`
    finding no caller, and the queue empty once it has returned. -/
structure Orphaned (s : State) : Prop where
  failed : s.startFailed = true
  books : ∃ ps r, Books s ps r
  running : s.io.running = false
  control : s.control = .idle ∨ s.control = .stopped false ∨ s.control.draining = true
  destroying : s.control.destroying = true → ∀ c ∈ s.callers, c = .idle
  destroyed : s.control = .destroyed → s.io.writeQueueHead = 0

/-- `hev_tunnel_io_start` fails after creating `created` writers: they run
    with `running` cleared. -/
theorem Inv.startFail {s : State} (hi : Inv s) (hc : s.control = .idle)
    (hr : s.io.running = false) (hw : s.writers = []) (created : Nat) :
    Orphaned { s with writers := List.replicate created .top, startFailed := true } := by
  obtain ⟨ps, hl⟩ := hi.ledger
  refine ⟨rfl, ⟨ps, s.taken ++ s.drained, ?_, hi.caller_node⟩, hr, .inl hc,
    fun h => by simp [hc, Control.destroying] at h, fun h => by simp [hc] at h⟩
  dsimp only [State.ledger] at hl ⊢
  rw [batchNodes_replicate_top]; rw [hw] at hl; exact hl

section Steps

variable {s : State} (ho : Orphaned s)
include ho

/-- A caller under way means `destroy` has not begun. -/
theorem Orphaned.not_destroying {c : Nat} {x : Caller} (hc : s.callers[c]? = some x)
    (hx : x ≠ .idle) : s.control.destroying = false := by
  by_contra h
  exact hx (ho.destroying (by simpa using h) x (List.getElem?_mem hc))

/-- The books, then the rest as it was, of a step that leaves `running`, the
    control thread and `startFailed` alone and moves the head only before the
    drain's end, the callers only before `destroy`. -/
theorem Orphaned.frame {s' : State} (hb : ∃ ps r, Books s' ps r)
    (hrest : s'.io.running = s.io.running ∧ s'.control = s.control ∧
      s'.startFailed = s.startFailed)
    (hc : s.control.destroying = true → s'.callers = s.callers)
    (hh : s.control = .destroyed → s'.io.writeQueueHead = s.io.writeQueueHead) : Orphaned s' := by
  obtain ⟨hr, hctl, hf⟩ := hrest
  refine ⟨hf ▸ ho.failed, hb, hr ▸ ho.running, hctl ▸ ho.control, fun h => ?_, fun h => ?_⟩
  · rw [hctl] at h; rw [hc h]; exact ho.destroying h
  · rw [hctl] at h; rw [hh h]; exact ho.destroyed h

/-- A writer's step: the books are kept, and a take from an empty queue
    leaves it empty. -/
theorem Orphaned.writer {i : Nat} {copied : Bool} {s' : State}
    (h : writerStep s i copied = some s') : Orphaned s' := by
  obtain ⟨ps, r, hb⟩ := ho.books
  have hset : ∀ {w w' : Writer}, s.writers[i]? = some w → w'.nodes = w.nodes →
      Orphaned { s with writers := s.writers.set i w' } := fun hw hn =>
    ho.frame ⟨ps, r, hb.writer_set hw hn⟩ ⟨rfl, rfl, rfl⟩ (fun _ => rfl) fun _ => rfl
  rcases writerStep_cases h with ⟨hw, rfl⟩ | ⟨hw, -, -, rfl⟩ | ⟨w, hw, hlw, hs'⟩ |
    ⟨n, ns, hw, rfl⟩ | ⟨hw, rfl⟩
  · exact hset hw rfl
  · exact hset hw rfl
  · have h0 : w.nodes = 0 := by rcases hlw with rfl | rfl <;> rfl
    rcases hs' with rfl | rfl
    · exact hset hw h0.symm
    · -- a take at the drain's end finds the queue empty and leaves it so
      obtain ⟨rest, hb'⟩ := hb.writer_take hw h0
      refine ho.frame ⟨rest, _, hb'⟩ ⟨rfl, rfl, rfl⟩ (fun _ => rfl) fun hd => ?_
      simp [takeWriteBatch, takeBatch, writeBatchSize, ho.destroyed hd]
  · exact ho.frame ⟨ps, r, hb.writer_release hw copied⟩ ⟨rfl, rfl, rfl⟩ (fun _ => rfl) fun _ => rfl
  · exact hset hw rfl

/-- A caller's step, before `destroy`. -/
theorem Orphaned.caller {c : Nat} {s' : State} (h : callerStep s c = some s') : Orphaned s' := by
  obtain ⟨ps, r, hb⟩ := ho.books
  rcases callerStep_cases h with ⟨p, a, hc, ⟨io', hw, rfl⟩ | rfl⟩ | ⟨p, a, hc, rfl⟩
  · have hnd := ho.not_destroying hc (by simp)
    have hdr : s.control.draining = false := by
      cases hd : s.control.draining
      · rfl
      · rw [Control.destroying_of_draining hd] at hnd; cases hnd
    exact ho.frame ⟨_, r, hb.caller_link hc hdr hw⟩
      ⟨by rw [← hevTunnelIoWrite_running s.io a, hw], rfl, rfl⟩
      (fun h => absurd h (by rw [hnd]; decide))
      (fun h => absurd (congrArg Control.destroying h) (by rw [hnd]; decide))
  · have hnd := ho.not_destroying hc (by simp)
    exact ho.frame ⟨ps, r, hb.caller_reject hc⟩ ⟨rfl, rfl, rfl⟩
      (fun h => absurd h (by rw [hnd]; decide)) fun _ => rfl
  · have hnd := ho.not_destroying hc (by simp)
    exact ho.frame ⟨ps, r, hb.caller_release hc⟩ ⟨rfl, rfl, rfl⟩
      (fun h => absurd h (by rw [hnd]; decide)) fun _ => rfl

/-- A step of the control thread: the drain frees the head, or finds the
    queue empty and `destroy` returns; with `running` cleared there is no
    join. -/
theorem Orphaned.control_step {s' : State} (h : controlStep s = some s') : Orphaned s' := by
  obtain ⟨ps, r, hb⟩ := ho.books
  have hnj : ∀ i d, s.control ≠ .joinWriters i d := fun i d hc => by
    rcases ho.control with h | h | h <;> rw [hc] at h <;> cases h
  rcases controlStep_cases h with ⟨i, d, hc, -⟩ | ⟨i, d, hc, -⟩ | ⟨hc, hh, rfl⟩ |
    ⟨n, hc, hh, hn, rfl⟩
  · exact absurd hc (hnj i d)
  · exact absurd hc (hnj i d)
  · have hl : ({ s with control := .destroyed } : State).ledger = s.ledger := by
      simp [State.ledger, hc, Control.draining]
    exact ⟨ho.failed, ⟨ps, r, hl ▸ hb.ledger, hb.callers⟩, ho.running, .inr (.inr rfl),
      fun _ => ho.destroying (by simp [hc, Control.destroying]), fun _ => hh⟩
  · have hidle := ho.destroying (by simp [hc, Control.destroying])
    obtain ⟨rest, hb'⟩ := hb.drain_step (by simp [hc, Control.draining]) hidle hh hn
    exact ho.frame ⟨rest, _, hb'⟩ ⟨rfl, rfl, rfl⟩ (fun _ => rfl) fun h => by rw [hc] at h; cases h

end Steps

end HevTunnel.TunnelIO
