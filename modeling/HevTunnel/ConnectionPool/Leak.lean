import HevTunnel.ConnectionPool

/-!
# Removing a connection the pool does not hold

`hev_connection_pool_remove (pool, fd)`, to "remove connection from pool (on
error)", closes `fd` only when a slot holds it. The connection `get` makes
on a miss is in no slot until `release` files it; removed before, its fd is
left open, and nothing in the pool closes it afterwards: the scan of `get`,
`cleanup` and `hev_connection_pool_destroy` close only fds in slots,
`release`, `remove` and a failed `connect` only the fd their caller holds,
and `socket` never returns an fd that is open.

* `Leaked`: an fd open, in no slot and held by no client; `Leaked.step`:
  every step keeps it so, and `hevConnectionPoolDestroy` does not close it;
* `remove_leaks_fresh`: from every reachable state where an idle client
  holds an fd that no slot holds, its `remove` of that fd leaks it for good;
* `destroy_closes_open_once`: on every reachable pool, `destroy` closes only
  open descriptors, and none twice.
-/

namespace HevTunnel.ConnectionPool

/-- `hev_connection_pool_destroy (pool)`: the fds it closes, those of the
    slots holding one, before it frees the pool. -/
def hevConnectionPoolDestroy (pool : HevConnectionPool) : List Int :=
  (pool.conns.filter fun c => decide (0 ≤ c.fd)).map (·.fd)

theorem mem_hevConnectionPoolDestroy {pool : HevConnectionPool} {x : Int} :
    x ∈ hevConnectionPoolDestroy pool ↔ 0 ≤ x ∧ 0 < slotCount pool.conns x := by
  simp only [hevConnectionPoolDestroy, List.mem_map, List.mem_filter, decide_eq_true_eq, slotCount,
    List.countP_pos_iff, beq_iff_eq]
  constructor
  · rintro ⟨c, ⟨hc, h0⟩, rfl⟩; exact ⟨h0, c, hc, rfl⟩
  · rintro ⟨h0, c, hc, rfl⟩; exact ⟨c, ⟨hc, h0⟩, rfl⟩

/-- `x` is open, in no slot, and held by no client. -/
def Leaked (s : State) (x : Int) : Prop :=
  0 ≤ x ∧ x ∈ s.opened ∧ slotCount s.pool.conns x = 0 ∧ heldCount s.held x = 0

theorem updateFirst_eq_none {p : HevConnection → Bool} {f : HevConnection → HevConnection} :
    ∀ {conns : List HevConnection}, (∀ c ∈ conns, p c = false) → updateFirst p f conns = none
  | [], _ => rfl
  | c :: cs, h => by
    rw [updateFirst, if_neg (by simp [h c (List.mem_cons_self _ _)]),
      updateFirst_eq_none fun d hd => h d (List.mem_cons_of_mem _ hd)]
    rfl

variable {s s' : State} {x : Int}

/-- `destroy` closes only fds in slots. -/
theorem Leaked.not_destroyed (hl : Leaked s x) : x ∉ hevConnectionPoolDestroy s.pool :=
  fun hx => absurd hl.2.2.1 (Nat.pos_iff_ne_zero.1 (mem_hevConnectionPoolDestroy.1 hx).2)

/-- A `release` or `remove` of another fd keeps `x` leaked. -/
theorem Leaked.giveBack (hl : Leaked s x) {j : Nat} {fd : Int} {r : HevConnectionPool × List Int}
    (hh : (j, fd) ∈ s.held) (hm : MovesOnly s.pool fd r) : Leaked (s.giveBack j fd r) x := by
  obtain ⟨hx, ho, hs, hc⟩ := hl
  have hne : x ≠ fd := fun e => by subst e; have := heldCount_pos hh; simp only at this; omega
  have he := heldCount_erase hh x
  refine ⟨hx, mem_closeFds.2 ⟨ho, fun h => hne (hm.closed_sub h)⟩, ?_, ?_⟩
  · simp only [State.giveBack, State.locked]
    rw [(hm.other x hx hne).1, hs]
  · simp only [State.giveBack]
    omega

/-- A step keeps `x` leaked: nothing closes it, files it in a slot, or hands
    it to a client. -/
theorem Leaked.step (hi : Inv s) (hl : Leaked s x) {e : Event} (h : next s e = some s') :
    Leaked s' x := by
  obtain ⟨hx, ho, hs, hc⟩ := hl
  cases e with
  | get j dest now alive =>
    simp only [next] at h
    split at h
    · cases h
      -- the scan takes nothing from `x`, which is in no slot
      obtain ⟨h₁, h₂⟩ := scanConns_counts now alive hx 0 s.pool.conns
      have h₃ := idleCount_le s.pool.conns x
      simp only [State.get, hevConnectionPoolGetLocked]
      generalize scanConns now alive 0 s.pool.conns = r at h₁ h₂
      obtain ⟨conns, hit, closed⟩ := r
      dsimp only at h₁ h₂ ⊢
      have hcl : x ∈ closeFds s.opened closed := mem_closeFds.2 ⟨ho, List.count_eq_zero.1 (by omega)⟩
      cases hit with
      | none => exact ⟨hx, hcl, by simp only [State.locked]; omega, hc⟩
      | some y =>
        have hy : y ≠ x := fun e => by subst e; simp only [if_true] at h₂; omega
        refine ⟨hx, hcl, by simp only [State.locked]; omega, ?_⟩
        simp only [heldCount_cons, hy, if_false]
        exact hc
    · cases h
  | socket j fd =>
    simp only [next] at h
    split at h
    · split at h
      · cases h; exact ⟨hx, ho, hs, hc⟩
      · split at h
        · cases h
        · -- a new fd: not `x`, which is open
          rename_i hnew
          cases h
          have hne : fd ≠ x := fun e => hnew (e ▸ ho)
          exact ⟨hx, List.mem_cons_of_mem _ ho, hs, by simp [State.socketReturned, hne, hc]⟩
    · cases h
  | connect j ok =>
    simp only [next] at h
    split at h
    · rename_i fd hj
      split at h
      · cases h; exact ⟨hx, ho, hs, hc⟩
      · -- the fd a failed `connect` closes is its caller's, held
        cases h
        obtain ⟨hm, -⟩ := hi.inflight j _ fd hj rfl
        have hne : x ≠ fd := fun e => by subst e; have := heldCount_pos hm; simp only at this; omega
        have he := heldCount_erase hm x
        refine ⟨hx, mem_closeFds.2 ⟨ho, by simpa using hne⟩, hs, ?_⟩
        simp only [State.connectFailed]
        omega
    · cases h
  | countMiss j =>
    simp only [next] at h
    split at h
    · cases h; exact ⟨hx, ho, hs, hc⟩
    · cases h
  | release j fd now =>
    simp only [next] at h
    split at h
    · rename_i hg
      cases h
      have hfd := hi.held_nonneg _ hg.2
      exact Leaked.giveBack ⟨hx, ho, hs, hc⟩ hg.2 (release_movesOnly now hfd (hi.slot_le _ hfd))
    · cases h
  | remove j fd =>
    simp only [next] at h
    split at h
    · rename_i hg
      cases h
      have hfd := hi.held_nonneg _ hg.2
      exact Leaked.giveBack ⟨hx, ho, hs, hc⟩ hg.2 (remove_movesOnly hfd (hi.slot_le _ hfd))
    · cases h
  | cleanup now =>
    cases h
    obtain ⟨h₁, -⟩ := cleanup_counts now hx s.pool.conns
    simp only [Leaked, State.locked, hevConnectionPoolCleanup]
    exact ⟨hx, mem_closeFds.2 ⟨ho, List.count_eq_zero.1 (by omega)⟩, by omega, hc⟩

theorem Leaked.star (hs : system.Reachable s) (hl : Leaked s x) {t : State}
    (ht : Relation.ReflTransGen system.step s t) : Leaked t x := by
  induction ht with
  | refl => exact hl
  | tail hst hstep ih =>
    obtain ⟨e, he⟩ := hstep
    exact ih.step (reachable_inv (hs.star hst)) he

/-- From every reachable state where an idle client holds an fd that no slot
    holds, as the connection of a miss, its `remove` of that fd closes
    nothing: the fd stays open, in no slot and held by nobody, along every
    run after, and `destroy` does not close it either. -/
theorem remove_leaks_fresh (hs : system.Reachable s) {j : Nat} {fd : Int}
    (hj : s.calls[j]? = some .idle) (hh : (j, fd) ∈ s.held) (hslot : slotCount s.pool.conns fd = 0) :
    ∃ s', next s (.remove j fd) = some s' ∧
      ∀ t, Relation.ReflTransGen system.step s' t → Leaked t fd ∧ fd ∉ hevConnectionPoolDestroy t.pool := by
  have hi := reachable_inv hs
  have hfd := hi.held_nonneg _ hh
  have h1 : heldCount s.held fd = 1 := by
    have := heldCount_pos hh; have := hi.idle_held fd hfd; simp only at *; omega
  have hrem : hevConnectionPoolRemove s.pool fd = (s.pool, []) := by
    unfold hevConnectionPoolRemove
    rw [if_neg (by omega), updateFirst_eq_none fun c hc => ?_]
    by_contra hp
    have : 0 < slotCount s.pool.conns fd := List.countP_pos_iff.2 ⟨c, hc, Bool.not_eq_false _ ▸ hp⟩
    exact absurd hslot (Nat.pos_iff_ne_zero.1 this)
  have hn : next s (.remove j fd) = some (s.giveBack j fd (s.pool, [])) := by
    rw [next, if_pos ⟨hj, hh⟩, hrem]
  -- the fd stays open, and its one holder gives it up
  have hl : Leaked (s.giveBack j fd (s.pool, [])) fd := by
    have he := heldCount_erase hh fd
    refine ⟨hfd, mem_closeFds.2 ⟨(hi.known fd hfd (by omega)).1, List.not_mem_nil _⟩, hslot, ?_⟩
    simp only [State.giveBack, if_true] at he ⊢
    omega
  exact ⟨_, hn, fun t ht => let ht' := hl.star (hs.step ⟨_, hn⟩) ht; ⟨ht', ht'.not_destroyed⟩⟩

theorem remove_leaks_fresh_miss : ∃ s, system.Reachable s ∧ s.calls[0]? = some .idle ∧
    (0, 3) ∈ s.held ∧ slotCount s.pool.conns 3 = 0 ∧
    ∃ s', next s (.remove 0 3) = some s' ∧
      ∀ t, Relation.ReflTransGen system.step s' t → Leaked t 3 ∧ 3 ∉ hevConnectionPoolDestroy t.pool := by
  have r₀ : system.Reachable (⟨hevConnectionPoolNew 1, [.idle], [], [], [], [], 0, []⟩ : State) :=
    .init ⟨1, 1, rfl⟩
  have r₁ := reachable_next r₀ (.get 0 ⟨"10.0.0.1", 80⟩ 0 fun _ => true) rfl
  have r₂ := reachable_next r₁ (.socket 0 3) rfl
  have r₃ := reachable_next r₂ (.connect 0 true) rfl
  have r₄ := reachable_next r₃ (.countMiss 0) rfl
  exact ⟨_, r₄, rfl, List.mem_singleton_self _, rfl, remove_leaks_fresh r₄ rfl (List.mem_singleton_self _) rfl⟩

/-! ## What `destroy` closes -/

/-- On every reachable pool, `hev_connection_pool_destroy` closes only
    descriptors that are open, and none twice: no fd is in two slots. -/
theorem destroy_closes_open_once (hs : system.Reachable s) :
    (hevConnectionPoolDestroy s.pool).Nodup ∧ ∀ x ∈ hevConnectionPoolDestroy s.pool, x ∈ s.opened := by
  have hi := reachable_inv hs
  refine ⟨List.nodup_iff_count_le_one.2 fun x => ?_, fun x hx => ?_⟩
  · by_cases hx : 0 ≤ x
    · calc (hevConnectionPoolDestroy s.pool).count x ≤ slotCount s.pool.conns x := by
            simp only [hevConnectionPoolDestroy, List.count, List.countP_map]
            exact (List.filter_sublist _).countP_le _
        _ ≤ 1 := hi.slot_le x hx
    · rw [List.count_eq_zero.2 fun h => hx (mem_hevConnectionPoolDestroy.1 h).1]
      exact Nat.zero_le 1
  · obtain ⟨h0, hpos⟩ := mem_hevConnectionPoolDestroy.1 hx
    exact (hi.known x h0 (by omega)).1

/-- A miss's connection released into the pool's one slot: `destroy` closes
    it, once. -/
theorem destroy_closes_open_once_released : ∃ s, system.Reachable s ∧
    hevConnectionPoolDestroy s.pool = [3] ∧
    ((hevConnectionPoolDestroy s.pool).Nodup ∧ ∀ x ∈ hevConnectionPoolDestroy s.pool, x ∈ s.opened) := by
  have r₀ : system.Reachable (⟨hevConnectionPoolNew 1, [.idle], [], [], [], [], 0, []⟩ : State) :=
    .init ⟨1, 1, rfl⟩
  have r₁ := reachable_next r₀ (.get 0 ⟨"10.0.0.1", 80⟩ 0 fun _ => true) rfl
  have r₂ := reachable_next r₁ (.socket 0 3) rfl
  have r₃ := reachable_next r₂ (.connect 0 true) rfl
  have r₄ := reachable_next r₃ (.countMiss 0) rfl
  have r₅ := reachable_next r₄ (.release 0 3 0) rfl
  exact ⟨_, r₅, rfl, destroy_closes_open_once r₅⟩

end HevTunnel.ConnectionPool
