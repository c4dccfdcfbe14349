import HevTunnel.Locking

/-!
# The order of the locks

Outside the relock of `lwip_mutex` (`lwip_relocked`), the engine takes its
mutexes in one order: `callback_mutex` (held by a reader while it runs the
read callback), then `lwip_mutex`, then one of `session_mutex`, the write
queue's `write_mutex` and the thread pool's `queue_mutex`, which are never
held together (`Mutex.rank`).

`Disciplined H is H'` says that a skeleton keeps that order when run from
the mutexes `H`, unlocks only what it holds, and ends holding `H'`; a thread
relocking a mutex it holds never runs past it, so nothing after a relock is
asked of it. `check` computes the judgement, and `check_sound` connects the
two; the thread functions pass the check.

* `orderly_next`: every step keeps every thread disciplined from the mutexes
  it owns, so every reachable state is (`reachable_orderly`);
* `locks_ordered`: in every reachable state, a thread waiting for a mutex it
  does not own owns only mutexes of lower rank, and no threads wait for each
  other in a cycle: the engine's only deadlock is a thread waiting for
  itself.
-/

namespace HevTunnel.Locking

open Instr

/-- The rank of a mutex in the order the engine takes them. -/
def Mutex.rank : Mutex → Nat
  | .callback => 0
  | .lwip => 1
  | .session | .write | .queue => 2

/-- The discipline of a skeleton run from the mutexes `H`, ending with `H'`:
    a `lock` takes a mutex above all those held, or is a relock past which
    the thread never runs; an `unlock` releases a held mutex; a call returns
    to its caller with what it holds; every branch of a `choose` keeps the
    discipline up to the end, and a `loop`'s body ends holding what it began
    with. -/
inductive Disciplined : (Mutex → Bool) → List Instr → (Mutex → Bool) → Prop
  | nil (H : Mutex → Bool) : Disciplined H [] H
  | lock {H H' : Mutex → Bool} {m : Mutex} {is : List Instr} (hm : H m = false)
      (ho : ∀ m', H m' = true → m'.rank < m.rank)
      (h : Disciplined (Function.update H m true) is H') : Disciplined H (lock m :: is) H'
  | relock {H H' : Mutex → Bool} {m : Mutex} {is : List Instr} (hm : H m = true) :
      Disciplined H (lock m :: is) H'
  | unlock {H H' : Mutex → Bool} {m : Mutex} {is : List Instr} (hm : H m = true)
      (h : Disciplined (Function.update H m false) is H') : Disciplined H (unlock m :: is) H'
  | stack {H H' : Mutex → Bool} {op : StackOp} {is : List Instr} (h : Disciplined H is H') :
      Disciplined H (stack op :: is) H'
  | tunWrite {H H' : Mutex → Bool} {is : List Instr} (h : Disciplined H is H') :
      Disciplined H (tunWrite :: is) H'
  | foreign {H H' : Mutex → Bool} {is : List Instr} (h : Disciplined H is H') :
      Disciplined H (foreign :: is) H'
  | call {H H₁ H' : Mutex → Bool} {f : Fn} {is : List Instr} (hf : Disciplined H (body f) H₁)
      (h : Disciplined H₁ is H') : Disciplined H (call f :: is) H'
  | choose {H H' : Mutex → Bool} {alts : List (List Instr)} {is : List Instr}
      (h : ∀ a ∈ alts, Disciplined H (a ++ is) H') : Disciplined H (choose alts :: is) H'
  | loop {H H' : Mutex → Bool} {b is : List Instr} (hb : Disciplined H b H)
      (h : Disciplined H is H') : Disciplined H (loop b :: is) H'

theorem Disciplined.append {H H₁ H' : Mutex → Bool} {a is : List Instr}
    (ha : Disciplined H a H₁) (h : Disciplined H₁ is H') : Disciplined H (a ++ is) H' := by
  revert h
  induction ha with
  | nil => exact id
  | lock hm ho _ ih => exact fun h => .lock hm ho (ih h)
  | relock hm => exact fun _ => .relock hm
  | unlock hm _ ih => exact fun h => .unlock hm (ih h)
  | stack _ ih => exact fun h => .stack (ih h)
  | tunWrite _ ih => exact fun h => .tunWrite (ih h)
  | foreign _ ih => exact fun h => .foreign (ih h)
  | call hf _ _ ih => exact fun h => .call hf (ih h)
  | choose _ ih => exact fun h => .choose fun a ha => List.append_assoc a _ is ▸ ih a ha h
  | loop hb _ _ ih => exact fun h => .loop hb (ih h)

/-- The discipline of a thread's frames, the innermost first: each frame
    returns to the next one with what it holds. -/
def FramesDisciplined : (Mutex → Bool) → Frames → Prop
  | _, [] => True
  | H, f :: fs => ∃ H₁, Disciplined H f H₁ ∧ FramesDisciplined H₁ fs

/-- The mutexes the thread `t` owns. -/
def ownedBy (owner : Mutex → Option Nat) (t : Nat) (m : Mutex) : Bool := owner m = some t

/-! ## The discipline, computed -/

/-- All the mutexes. -/
def mutexes : List Mutex := [.callback, .lwip, .session, .write, .queue]

theorem mem_mutexes (m : Mutex) : m ∈ mutexes := by
  cases m <;> simp [mutexes]

/-- Every mutex held is below `m`. -/
def below (H : Mutex → Bool) (m : Mutex) : Bool := mutexes.all fun m' => !H m' || m'.rank < m.rank

/-- The two sets of mutexes are the same. -/
def sameHeld (H₁ H₂ : Mutex → Bool) : Bool := mutexes.all fun m => H₁ m == H₂ m

/-- Two outcomes of the branches of a `choose`, each `some none` if it
    relocks, `some (some H')` if it ends holding `H'`: both, ending alike, or
    `none`. -/
def join : Option (Option (Mutex → Bool)) → Option (Option (Mutex → Bool)) →
    Option (Option (Mutex → Bool))
  | some none, y => y
  | some (some H₁), some none => some (some H₁)
  | some (some H₁), some (some H₂) => if sameHeld H₁ H₂ then some (some H₁) else none
  | _, _ => none

/-- The outcome of all the branches. -/
def joinAll (rs : List (Option (Option (Mutex → Bool)))) : Option (Option (Mutex → Bool)) :=
  rs.foldr join (some none)

/-- The discipline of `is` from `H`: `some (some H')` if it ends holding `H'`,
    `some none` if it relocks on every path, `none` if it breaks the order,
    unlocks a mutex it does not hold, returns from a call only by a relock, or
    runs out of `fuel`. -/
def check : Nat → (Mutex → Bool) → List Instr → Option (Option (Mutex → Bool))
  | 0, _, _ => none
  | _ + 1, H, [] => some (some H)
  | n + 1, H, i :: is =>
    match i with
    | .lock m =>
      if H m then some none
      else if below H m then check n (Function.update H m true) is else none
    | .unlock m => if H m then check n (Function.update H m false) is else none
    | .stack _ | .tunWrite | .foreign => check n H is
    | .call f =>
      match check n H (body f) with
      | some (some H₁) => check n H₁ is
      | _ => none
    | .choose alts =>
      joinAll (alts.map fun a =>
        match check n H a with
        | some (some H₁) => check n H₁ is
        | r => r)
    | .loop b =>
      match check n H b with
      | some none => check n H is
      | some (some H₁) => if sameHeld H₁ H then check n H is else none
      | none => none

theorem below_spec {H : Mutex → Bool} {m : Mutex} (h : below H m = true) :
    ∀ m', H m' = true → m'.rank < m.rank := fun m' hm' => by
  have := List.all_eq_true.1 h m' (mem_mutexes m')
  simpa [hm'] using this

theorem sameHeld_spec {H₁ H₂ : Mutex → Bool} (h : sameHeld H₁ H₂ = true) : H₁ = H₂ :=
  funext fun m => by simpa using List.all_eq_true.1 h m (mem_mutexes m)

/-- An outcome `x` that relocks, or ends as `r` does. -/
def EndsAs (r : Option (Mutex → Bool)) (x : Option (Option (Mutex → Bool))) : Prop :=
  x = some none ∨ ∃ H, r = some H ∧ x = some (some H)

theorem endsAs_some (r : Option (Mutex → Bool)) : EndsAs r (some r) := by
  cases r with
  | none => exact .inl rfl
  | some H => exact .inr ⟨H, rfl, rfl⟩

theorem join_spec {x y : Option (Option (Mutex → Bool))} {r : Option (Mutex → Bool)}
    (h : join x y = some r) : EndsAs r x ∧ EndsAs r y := by
  match x, y, h with
  | some none, _, h => cases h; exact ⟨.inl rfl, endsAs_some r⟩
  | some (some _), some none, h => cases h; exact ⟨endsAs_some _, .inl rfl⟩
  | some (some _), some (some _), h =>
    simp only [join] at h
    split_ifs at h with hs
    cases h
    exact ⟨endsAs_some _, .inr ⟨_, rfl, by rw [sameHeld_spec hs]⟩⟩

/-- Each branch of a joined outcome relocks or ends as the join does. -/
theorem joinAll_spec {rs : List (Option (Option (Mutex → Bool)))} {r : Option (Mutex → Bool)}
    (h : joinAll rs = some r) : ∀ x ∈ rs, EndsAs r x := by
  induction rs generalizing r with
  | nil => simp
  | cons x rs ih =>
    obtain ⟨hx, hj⟩ := join_spec h
    intro y hy
    rcases List.mem_cons.1 hy with rfl | hy
    · exact hx
    rcases hj with hj | ⟨H, rfl, hj⟩
    · rcases ih hj y hy with e | ⟨_, e, _⟩
      · exact .inl e
      · cases e
    · exact ih hj y hy

/-- The checker is sound: whatever follows `is`, disciplined from where `is`
    ends, the whole is disciplined. -/
theorem check_sound :
    ∀ (n : Nat) {H : Mutex → Bool} {is : List Instr} {r : Option (Mutex → Bool)},
    check n H is = some r → ∀ (rest : List Instr) (H' : Mutex → Bool),
      (∀ H₁, r = some H₁ → Disciplined H₁ rest H') → Disciplined H (is ++ rest) H'
  | 0, _, _, _, h => by cases h
  | n + 1, H, [], r, h => fun rest H' hr => by
    cases h
    exact hr H rfl
  | n + 1, H, i :: is, r, h => fun rest H' hr => by
    cases i with
    | lock m =>
      simp only [check] at h
      split_ifs at h with hm hb
      · exact .relock hm
      · exact .lock (by simpa using hm) (below_spec hb) (check_sound n h rest H' hr)
    | unlock m =>
      simp only [check] at h
      split_ifs at h with hm
      exact .unlock hm (check_sound n h rest H' hr)
    | stack op => exact .stack (check_sound n h rest H' hr)
    | tunWrite => exact .tunWrite (check_sound n h rest H' hr)
    | foreign => exact .foreign (check_sound n h rest H' hr)
    | call f =>
      simp only [check] at h
      split at h
      · next H₁ hf =>
        refine .call ?_ (check_sound n h rest H' hr)
        simpa using check_sound n hf [] H₁ fun _ e => by cases e; exact .nil _
      · cases h
    | choose alts =>
      simp only [check] at h
      refine .choose fun a ha => ?_
      have hx := joinAll_spec h _ (List.mem_map_of_mem _ ha)
      rcases hca : check n H a with _ | _ | H₁
      · simp only [hca] at hx
        rcases hx with e | ⟨_, _, e⟩ <;> cases e
      · exact check_sound n hca (is ++ rest) H' fun _ e => by cases e
      · simp only [hca] at hx
        refine check_sound n hca (is ++ rest) H' fun _ e => ?_
        cases e
        rcases hx with hx | ⟨H₂, rfl, hx⟩
        · exact check_sound n hx rest H' fun _ e => by cases e
        · exact check_sound n hx rest H' fun _ e => by cases e; exact hr _ rfl
    | loop b =>
      simp only [check] at h
      split at h
      · next hb =>
        refine .loop ?_ (check_sound n h rest H' hr)
        simpa using check_sound n hb [] H fun _ e => by cases e
      · next H₁ hb =>
        split_ifs at h with hs
        refine .loop ?_ (check_sound n h rest H' hr)
        simpa using check_sound n hb [] H fun _ e => by
          cases e; rw [sameHeld_spec hs]; exact .nil _
      · cases h

/-- A skeleton that passes the check is disciplined. -/
theorem disciplined_of_check {n : Nat} {H : Mutex → Bool} {is : List Instr}
    (h : (check n H is).isSome = true) : ∃ H', Disciplined H is H' := by
  obtain ⟨r, hr⟩ := Option.isSome_iff_exists.1 h
  cases r with
  | none => exact ⟨H, by simpa using check_sound n hr [] H fun _ e => by cases e⟩
  | some H₁ =>
    exact ⟨H₁, by simpa using check_sound n hr [] H₁ fun _ e => by cases e; exact .nil _⟩

/-- The entry functions of the threads keep the discipline from no mutex. -/
theorem threads_checked :
    (check 64 (fun _ => false) (body .timerThreadFunc)).isSome = true ∧
    (check 64 (fun _ => false) (body .readerThread)).isSome = true ∧
    (check 64 (fun _ => false) (body .writerThread)).isSome = true ∧
    (check 64 (fun _ => false) (body .poolWorkerThread)).isSome = true :=
  ⟨rfl, rfl, rfl, rfl⟩

/-! ## Every step keeps the discipline -/

theorem ownedBy_lock {owner : Mutex → Option Nat} {t : Nat} {m : Mutex} :
    ownedBy (Function.update owner m (some t)) t = Function.update (ownedBy owner t) m true := by
  funext m'
  by_cases e : m' = m
  · subst e; simp [ownedBy]
  · simp [ownedBy, Function.update_noteq e]

theorem ownedBy_unlock {owner : Mutex → Option Nat} {t : Nat} {m : Mutex} :
    ownedBy (Function.update owner m none) t = Function.update (ownedBy owner t) m false := by
  funext m'
  by_cases e : m' = m
  · subst e; simp [ownedBy]
  · simp [ownedBy, Function.update_noteq e]

/-- A step of `t` keeps `t` disciplined from what it then owns. -/
theorem threadStep_disciplined {owner o : Mutex → Option Nat} {t k : Nat} {fr fr' : Frames}
    (hd : FramesDisciplined (ownedBy owner t) fr) (h : threadStep owner t k fr = some (o, fr')) :
    FramesDisciplined (ownedBy o t) fr' := by
  match fr, hd, h with
  | [] :: fs, ⟨_, .nil _, hfs⟩, h => cases h; exact hfs
  | (i :: is) :: fs, ⟨H₁, hi, hfs⟩, h =>
    cases hi with
    | lock hm _ hd =>
      simp only [threadStep] at h
      split_ifs at h
      cases h
      exact ⟨H₁, ownedBy_lock ▸ hd, hfs⟩
    | relock hm =>
      simp only [threadStep] at h
      split_ifs at h with ho
      simp [ownedBy, ho] at hm
    | unlock _ hd =>
      simp only [threadStep] at h
      split_ifs at h
      cases h
      exact ⟨H₁, ownedBy_unlock ▸ hd, hfs⟩
    | stack hd => cases h; exact ⟨H₁, hd, hfs⟩
    | tunWrite hd => cases h; exact ⟨H₁, hd, hfs⟩
    | foreign hd => cases h; exact ⟨H₁, hd, hfs⟩
    | call hf hd => cases h; exact ⟨_, hf, H₁, hd, hfs⟩
    | choose hd =>
      simp only [threadStep, Option.map_eq_some'] at h
      obtain ⟨a, ha, e⟩ := h
      cases e
      exact ⟨H₁, hd a (List.getElem?_mem ha), hfs⟩
    | loop hb hd =>
      cases h
      split_ifs
      · exact ⟨H₁, hd, hfs⟩
      · exact ⟨H₁, hb.append (.loop hb hd), hfs⟩

/-- Every thread keeps the discipline from the mutexes it owns. -/
def Orderly (s : State) : Prop :=
  ∀ t fr, s.threads[t]? = some fr → FramesDisciplined (ownedBy s.owner t) fr

theorem orderly_started (readers writers workers : Nat) :
    Orderly (started readers writers workers) := fun t fr hfr => by
  have hown : ownedBy (started readers writers workers).owner t = fun _ => false := by
    funext m; simp [ownedBy, started]
  obtain ⟨h₁, h₂, h₃, h₄⟩ := threads_checked
  rw [hown]
  have hmem := List.getElem?_mem hfr
  simp only [started, List.mem_append, List.mem_singleton, List.mem_replicate] at hmem
  rcases hmem with ((rfl | ⟨-, rfl⟩) | ⟨-, rfl⟩) | ⟨-, rfl⟩
  · obtain ⟨H, hd⟩ := disciplined_of_check h₁; exact ⟨H, hd, trivial⟩
  · obtain ⟨H, hd⟩ := disciplined_of_check h₂; exact ⟨H, hd, trivial⟩
  · obtain ⟨H, hd⟩ := disciplined_of_check h₃; exact ⟨H, hd, trivial⟩
  · obtain ⟨H, hd⟩ := disciplined_of_check h₄; exact ⟨H, hd, trivial⟩

/-- A step of `u` leaves what any other thread owns. -/
theorem ownedBy_of_ne {owner o : Mutex → Option Nat} {u k t : Nat} {fr fr' : Frames}
    (h : threadStep owner u k fr = some (o, fr')) (hne : t ≠ u) :
    ownedBy o t = ownedBy owner t := by
  funext m
  rcases threadStep_owner h m with e | ⟨e₁, e₂⟩ | ⟨e₁, e₂⟩
  · simp [ownedBy, e]
  all_goals simp [ownedBy, e₁, e₂, Ne.symm hne]

theorem orderly_next {s s' : State} {u k : Nat} (ho : Orderly s) (h : next s u k = some s') :
    Orderly s' := by
  unfold next at h
  split at h
  · next fr hfr =>
    obtain ⟨⟨o, fr'⟩, hstep, rfl⟩ := Option.map_eq_some'.1 h
    intro t fr₁ ht
    by_cases e : t = u
    · subst e
      rw [List.getElem?_set_self (List.getElem?_eq_some_iff.1 hfr).1] at ht
      cases ht
      exact threadStep_disciplined (ho t fr hfr) hstep
    · rw [List.getElem?_set_ne (Ne.symm e)] at ht
      exact ownedBy_of_ne hstep e ▸ ho t fr₁ ht
  · cases h

theorem reachable_orderly {s : State} (hs : system.Reachable s) : Orderly s :=
  System.reachable_induction (fun _ ⟨r, w, k, h⟩ => h ▸ orderly_started r w k)
    (fun _ _ _ ho ⟨_, _, h⟩ => orderly_next ho h) hs

/-! ## No cycle of waits -/

/-- The thread `t` waits for `t'`: it is at `lock m`, and `m` is owned by
    `t'`, another thread. -/
def WaitsFor (s : State) (t t' : Nat) : Prop :=
  t ≠ t' ∧ ∃ m, At s t (lock m) ∧ s.owner m = some t'

/-- A thread at `lock m`, not owning `m`, owns only mutexes below it. -/
theorem lock_above_owned {s : State} (ho : Orderly s) {t : Nat} {m : Mutex}
    (hat : At s t (lock m)) (hm : s.owner m ≠ some t) :
    ∀ m', s.owner m' = some t → m'.rank < m.rank := by
  obtain ⟨fr, hfr, hcur⟩ := Option.bind_eq_some.1 hat
  match fr, hcur, ho t fr hfr with
  | (lock _ :: _) :: _, rfl, ⟨_, .lock _ hord _, _⟩ =>
    exact fun m' hm' => hord m' (by simp [ownedBy, hm'])
  | (lock _ :: _) :: _, rfl, ⟨_, .relock h, _⟩ => simp [ownedBy] at h; exact absurd h hm

/-- The rank of the mutex a thread is about to lock, `0` if none. -/
def lockRank (s : State) (t : Nat) : Nat :=
  match (s.threads[t]?).bind current with
  | some (lock m) => m.rank
  | _ => 0

theorem lockRank_of_at {s : State} {t : Nat} {m : Mutex} (h : At s t (lock m)) :
    lockRank s t = m.rank := by
  unfold lockRank; rw [show (s.threads[t]?).bind current = some (lock m) from h]

/-- Along two waits, the mutex waited for rises. -/
theorem lockRank_lt {s : State} (ho : Orderly s) {t t' t'' : Nat} (h₁ : WaitsFor s t t')
    (h₂ : WaitsFor s t' t'') : lockRank s t < lockRank s t' := by
  obtain ⟨-, m, hat, hown⟩ := h₁
  obtain ⟨hne, m', hat', hown'⟩ := h₂
  rw [lockRank_of_at hat, lockRank_of_at hat']
  exact lock_above_owned ho hat' (by rw [hown']; exact fun e => hne (Option.some.inj e).symm) m hown

theorem lockRank_lt_of_transGen {s : State} (ho : Orderly s) {t t' : Nat}
    (h : Relation.TransGen (WaitsFor s) t t') (hw : ∃ t'', WaitsFor s t' t'') :
    lockRank s t < lockRank s t' := by
  induction h with
  | single h₁ => exact lockRank_lt ho h₁ hw.choose_spec
  | tail _ h₁ ih => exact (ih ⟨_, h₁⟩).trans (lockRank_lt ho h₁ hw.choose_spec)

/-- Apart from a relock, the engine's threads take the mutexes in the order
    of `Mutex.rank`: in every reachable state, a thread waiting for a mutex it
    does not own owns only mutexes of lower rank, and no threads wait for
    each other in a cycle. -/
theorem locks_ordered {s : State} (hs : system.Reachable s) :
    (∀ t m, At s t (lock m) → s.owner m ≠ some t →
      ∀ m', s.owner m' = some t → m'.rank < m.rank) ∧
    ∀ t, ¬Relation.TransGen (WaitsFor s) t t := by
  have ho := reachable_orderly hs
  refine ⟨fun t m => lock_above_owned ho, fun t hc => ?_⟩
  obtain ⟨t', h₁, -⟩ := Relation.TransGen.head'_iff.1 hc
  exact lt_irrefl _ (lockRank_lt_of_transGen ho hc ⟨t', h₁⟩)

/-- A reader holding `callback_mutex` waits for `lwip_mutex`, which the
    timer thread holds while in `tcp_tmr`. -/
theorem locks_ordered_waiting :
    ∃ s, system.Reachable s ∧ WaitsFor s 1 0 ∧ s.owner .callback = some 1 ∧
      ((∀ t m, At s t (lock m) → s.owner m ≠ some t →
        ∀ m', s.owner m' = some t → m'.rank < m.rank) ∧
      ∀ t, ¬Relation.TransGen (WaitsFor s) t t) := by
  have r₀ : system.Reachable (started 1 0 0) := .init ⟨1, 0, 0, rfl⟩
  have r₁ := reachable_next r₀ 0 1 rfl
  have r₂ := reachable_next r₁ 0 0 rfl
  have r₃ := reachable_next r₂ 1 1 rfl
  have r₄ := reachable_next r₃ 1 1 rfl
  have r₅ := reachable_next r₄ 1 0 rfl
  have r₆ := reachable_next r₅ 1 1 rfl
  have r₇ := reachable_next r₆ 1 0 rfl
  have r₈ := reachable_next r₇ 1 0 rfl
  have r₉ := reachable_next r₈ 1 0 rfl
  exact ⟨_, r₉, ⟨by decide, .lwip, rfl, rfl⟩, rfl, locks_ordered r₉⟩

end HevTunnel.Locking
