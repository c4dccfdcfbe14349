import HevTunnel.System

/-!
# Running and stopping the engine

`hev-socks5-tunnel.c`, after `hev_socks5_tunnel_init`:

* `hev_socks5_tunnel_run` sets `run = 1`, creates the timer thread, starts
  the TUN I/O (`hev_tunnel_io_start`), then waits in `pthread_join` for the
  timer thread and returns `0`. When the timer thread cannot be created it
  returns `-1` at once; when the I/O fails to start it clears `run`, joins
  the timer thread and returns `-1`. It may be called again once returned.
* `hev_socks5_tunnel_stop`, called from other threads, one call after the
  other, clears `run` and then stops the TUN I/O (`hev_tunnel_io_stop`).
* The timer thread (`timer_thread_func`) loops while `run` is set: each
  turn calls `tcp_tmr ()` under `lwip_mutex`, and the slow timers
  `ip_reass_tmr`, `nd6_tmr` and `ip6_reass_tmr` too when `(counter & 3) == 0`,
  its `unsigned int counter` counting the turns.

The threads take their steps in any order. The TUN I/O is a flag, set by a
start that succeeds and cleared by a stop (`HevTunnel.TunnelIO.Lifecycle`
models its threads). As a ghost, the state records each turn of the current
timer thread, `true` when it ran the slow timers, and counts the `stop`
calls.

* `timer_thread_correct`: along every run, the timer thread runs the slow
  timers on its turns `0, 4, 8, …` and on no other, also once its counter
  wraps at `2^32` turns; and `run` never returns while a timer thread it
  created lives;
* `stop_races_run`: a `stop` racing with `run` can be lost. When `run` is
  about to set the flag and a `stop` to clear it, one order of their steps
  has the `stop` return and `run` then wait for ever, the TUN I/O running,
  until another `stop`; another has `run` return `0`, a clean stop, with
  the TUN I/O it started after the `stop` running.
-/

namespace HevTunnel.Socks5Tunnel.Run

/-- Where `hev_socks5_tunnel_run` is. -/
inductive Main
  /-- About to set `run = 1`. -/
  | setRun
  /-- About to create the timer thread. -/
  | create
  /-- About to call `hev_tunnel_io_start`. -/
  | ioStart
  /-- The I/O failed to start: about to clear `run`. -/
  | clearRun
  /-- In `pthread_join (timer_thread)`, to return `r` after it. -/
  | join (r : Int)
  /-- Returned `r`. -/
  | returned (r : Int)
  deriving DecidableEq

/-- Where the timer thread is. -/
inductive Timer
  /-- Not created. -/
  | none
  /-- At `while (run)`, its counter at `counter`. -/
  | test (counter : BitVec 32)
  /-- In the body of the loop. -/
  | tick (counter : BitVec 32)
  /-- Returned, not joined. -/
  | exited
  /-- Joined. -/
  | joined
  deriving DecidableEq

/-- Where the current call of `hev_socks5_tunnel_stop` is. -/
inductive Stop
  /-- No call under way. -/
  | idle
  /-- About to clear `run`. -/
  | clearRun
  /-- About to call `hev_tunnel_io_stop`. -/
  | ioStop
  deriving DecidableEq

/-- The flag `run`, whether the TUN I/O runs, the three threads, the number
    of `stop` calls, and the turns of the timer thread. -/
structure State where
  run : Bool
  ioRunning : Bool
  main : Main
  timer : Timer
  stop : Stop
  stopCalls : Nat
  ticks : List Bool

/-- A step of `hev_socks5_tunnel_run`, `ok` whether the `pthread_create` or
    the `hev_tunnel_io_start` of the step succeeds; once returned, a new
    call. -/
def mainStep (s : State) (ok : Bool) : Option State :=
  match s.main with
  | .setRun => some { s with run := true, main := .create }
  | .create =>
    if ok then some { s with timer := .test 0, ticks := [], main := .ioStart }
    else some { s with main := .returned (-1) }
  | .ioStart =>
    if ok then some { s with ioRunning := true, main := .join 0 }
    else some { s with main := .clearRun }
  | .clearRun => some { s with run := false, main := .join (-1) }
  | .join r => if s.timer = .exited then some { s with timer := .joined, main := .returned r } else none
  | .returned _ => some { s with main := .setRun }

/-- A step of `timer_thread_func`: the test of `while (run)`, or a turn of
    its body, under `lwip_mutex`. -/
def timerStep (s : State) : Option State :=
  match s.timer with
  | .test counter => some { s with timer := if s.run then .tick counter else .exited }
  | .tick counter =>
    some { s with timer := .test (counter + 1), ticks := s.ticks ++ [counter &&& 3#32 == 0#32] }
  | _ => none

/-- A step of `hev_socks5_tunnel_stop`: a new call, `run = 0`, then
    `hev_tunnel_io_stop (tunnel_io)`, which stops the TUN I/O if it runs. -/
def stopStep (s : State) : Option State :=
  match s.stop with
  | .idle => some { s with stop := .clearRun, stopCalls := s.stopCalls + 1 }
  | .clearRun => some { s with run := false, stop := .ioStop }
  | .ioStop => some { s with ioRunning := false, stop := .idle }

inductive Event
  | main (ok : Bool)
  | timer
  | stop

def next (s : State) : Event → Option State
  | .main ok => mainStep s ok
  | .timer => timerStep s
  | .stop => stopStep s

/-- After `hev_socks5_tunnel_init`: `run` clear, the TUN I/O made but not
    started, and `run` called. -/
def initial : State := ⟨false, false, .setRun, .none, .idle, 0, []⟩

def system : System State where
  init s := s = initial
  step s s' := ∃ e, next s e = some s'

/-- The state after the events `es`, one after the other, if each is a
    step. -/
def exec : State → List Event → Option State
  | s, [] => some s
  | s, e :: es => (next s e).bind fun s' => exec s' es

theorem star_of_exec : ∀ {s t : State} (es : List Event), exec s es = some t →
    Relation.ReflTransGen system.step s t
  | _, _, [], h => by cases h; exact .refl
  | _, _, e :: es, h => by
    obtain ⟨s', h₁, h₂⟩ := Option.bind_eq_some.1 h
    exact .head ⟨e, h₁⟩ (star_of_exec es h₂)

/-! ## The timer thread -/

/-- `run` has no timer thread of its own: it has not created it yet, or has
    returned. -/
def Main.outside : Main → Bool
  | .setRun | .create | .returned _ => true
  | _ => false

/-- The slow timers of a turn: `(counter & 3) == 0`, the counter being the
    number of turns before, modulo `2^32`, are those of every fourth turn. -/
theorem slow_iff {c : BitVec 32} {n : Nat} (hc : c.toNat = n % 2 ^ 32) :
    (c &&& 3#32 == 0#32) = decide (n % 4 = 0) := by
  have h : (c &&& 3#32).toNat = n % 4 := by
    rw [BitVec.toNat_and, hc, show (3#32).toNat = 2 ^ 2 - 1 by rfl, Nat.and_pow_two_sub_one_eq_mod,
      Nat.mod_mod_of_dvd n (Nat.pow_dvd_pow 2 (by decide : 2 ≤ 32))]
  rw [Bool.eq_iff_iff, beq_iff_eq, decide_eq_true_iff, BitVec.toNat_eq, h]
  rfl

/-- The invariant: a timer thread only while `run` has one; its counter
    counts its turns modulo `2^32`, and the turns that ran the slow timers
    are every fourth one. -/
structure Inv (s : State) : Prop where
  outside : s.main.outside → s.timer = .none ∨ s.timer = .joined
  counter : ∀ c, s.timer = .test c ∨ s.timer = .tick c → c.toNat = s.ticks.length % 2 ^ 32
  ticks : ∀ k (hk : k < s.ticks.length), s.ticks[k] = decide (k % 4 = 0)

variable {s s' : State}

theorem inv_initial : Inv initial :=
  ⟨fun _ => .inl rfl, fun _ h => by simp [initial] at h, fun _ hk => absurd hk (Nat.not_lt_zero _)⟩

theorem Inv.main_step (hi : Inv s) {ok : Bool} (h : mainStep s ok = some s') : Inv s' := by
  cases hm : s.main with
  | setRun =>
    simp only [mainStep, hm, Option.some.injEq] at h
    subst h
    exact ⟨fun _ => hi.outside (by rw [hm]; rfl), hi.counter, hi.ticks⟩
  | create =>
    cases ok <;> simp only [mainStep, hm, Bool.false_eq_true, if_false, if_true, Option.some.injEq] at h <;> subst h
    · exact ⟨fun _ => hi.outside (by rw [hm]; rfl), hi.counter, hi.ticks⟩
    · -- a new timer thread: its counter at `0`, no turn yet
      refine ⟨fun h => by simp [Main.outside] at h, fun c h => ?_, fun _ hk => absurd hk (Nat.not_lt_zero _)⟩
      simp only [Timer.test.injEq, reduceCtorEq, or_false] at h
      subst h
      rfl
  | ioStart =>
    cases ok <;> simp only [mainStep, hm, Bool.false_eq_true, if_false, if_true, Option.some.injEq] at h <;>
      subst h <;> exact ⟨fun h => by simp [Main.outside] at h, hi.counter, hi.ticks⟩
  | clearRun =>
    simp only [mainStep, hm, Option.some.injEq] at h
    subst h
    exact ⟨fun h => by simp [Main.outside] at h, hi.counter, hi.ticks⟩
  | join r =>
    simp only [mainStep, hm] at h
    split_ifs at h
    simp only [Option.some.injEq] at h
    subst h
    exact ⟨fun _ => .inr rfl, fun _ h => by simp at h, hi.ticks⟩
  | returned r =>
    simp only [mainStep, hm, Option.some.injEq] at h
    subst h
    exact ⟨fun _ => hi.outside (by rw [hm]; rfl), hi.counter, hi.ticks⟩

theorem Inv.timer_step (hi : Inv s) (h : timerStep s = some s') : Inv s' := by
  cases ht : s.timer with
  | test c =>
    -- the test: the counter stays
    simp only [timerStep, ht, Option.some.injEq] at h
    subst h
    have hout : s.main.outside = false := by
      by_contra ho
      rcases hi.outside (by simpa using ho) with h' | h' <;> rw [ht] at h' <;> cases h'
    refine ⟨fun h => by simp [hout] at h, fun c' h' => ?_, hi.ticks⟩
    have := hi.counter c (.inl ht)
    split_ifs at h' <;> simp_all
  | tick c =>
    -- a turn: the slow timers of turn `ticks.length`, then `counter++`
    simp only [timerStep, ht, Option.some.injEq] at h
    subst h
    have hout : s.main.outside = false := by
      by_contra ho
      rcases hi.outside (by simpa using ho) with h' | h' <;> rw [ht] at h' <;> cases h'
    have hcn := hi.counter c (.inr ht)
    refine ⟨fun h => by simp [hout] at h, fun c' h' => ?_, fun k hk => ?_⟩
    · simp only [or_false, Timer.test.injEq, reduceCtorEq] at h'
      rw [← h', BitVec.toNat_add, hcn, List.length_append, List.length_singleton]
      simp [Nat.add_mod]
    · rw [List.length_append, List.length_singleton] at hk
      rw [List.getElem_append]
      split_ifs with hlt
      · exact hi.ticks k hlt
      · obtain rfl : k = s.ticks.length := by omega
        simpa using slow_iff hcn
  | none | exited | joined => simp [timerStep, ht] at h

theorem Inv.stop_step (hi : Inv s) (h : stopStep s = some s') : Inv s' := by
  unfold stopStep at h
  split at h <;> cases h <;> exact ⟨hi.outside, hi.counter, hi.ticks⟩

theorem reachable_inv (hs : system.Reachable s) : Inv s := by
  refine System.reachable_induction (fun _ h => h ▸ inv_initial) (fun _ _ _ hi ⟨e, h⟩ => ?_) hs
  cases e with
  | main ok => exact hi.main_step h
  | timer => exact hi.timer_step h
  | stop => exact hi.stop_step h

/-- Along every run, the timer thread runs the slow timers on its turns `0,
    4, 8, …` and on no other, also past the wrap of its counter; and `run`
    never returns while a timer thread it created lives. -/
theorem timer_thread_correct (hs : system.Reachable s) :
    (∀ k (hk : k < s.ticks.length), s.ticks[k] = decide (k % 4 = 0)) ∧
      ∀ r, s.main = .returned r → s.timer = .none ∨ s.timer = .joined :=
  ⟨(reachable_inv hs).ticks, fun r h => (reachable_inv hs).outside (by rw [h]; rfl)⟩

theorem timer_thread_correct_initial :
    system.Reachable initial ∧
      ((∀ k (hk : k < initial.ticks.length), initial.ticks[k] = decide (k % 4 = 0)) ∧
        ∀ r, initial.main = .returned r → initial.timer = .none ∨ initial.timer = .joined) :=
  ⟨.init rfl, timer_thread_correct (.init rfl)⟩

/-! ## A stop racing with run -/

/-- From `t` on, as long as no new `stop` is called, `run` waits in its join
    and the TUN I/O runs. -/
def Blocked (t : State) : Prop :=
  ∀ u, Relation.ReflTransGen system.step t u → u.stopCalls = t.stopCalls →
    u.main = .join 0 ∧ u.ioRunning = true

theorem mainStep_frame {ok : Bool} (h : mainStep s ok = some s') :
    s'.stop = s.stop ∧ s'.stopCalls = s.stopCalls := by
  unfold mainStep at h
  split at h
  all_goals (try split at h)
  all_goals first | (cases h; exact ⟨rfl, rfl⟩) | cases h

theorem timerStep_frame (h : timerStep s = some s') :
    s'.main = s.main ∧ s'.run = s.run ∧ s'.ioRunning = s.ioRunning ∧ s'.stop = s.stop ∧
      s'.stopCalls = s.stopCalls := by
  unfold timerStep at h
  split at h <;> cases h <;> exact ⟨rfl, rfl, rfl, rfl, rfl⟩

theorem stopCalls_le (h : system.step s s') : s.stopCalls ≤ s'.stopCalls := by
  obtain ⟨e, h⟩ := h
  cases e with
  | main ok => exact (mainStep_frame h).2.ge
  | timer => exact (timerStep_frame h).2.2.2.2.ge
  | stop =>
    change stopStep s = some s' at h
    unfold stopStep at h
    split at h <;> cases h
    · exact Nat.le_succ _
    all_goals exact le_rfl

/-- `run` in its join, the flag set, no `stop` under way, the timer thread
    looping and the TUN I/O running. -/
def Waiting (u : State) : Prop :=
  u.main = .join 0 ∧ u.run = true ∧ u.ioRunning = true ∧ u.stop = .idle ∧
    ∃ c, u.timer = .test c ∨ u.timer = .tick c

/-- A step that calls no new `stop` keeps `run` waiting: the flag stays set,
    so the timer thread loops and the join never ends. -/
theorem Waiting.step (hw : Waiting s) (h : system.step s s') (hc : s'.stopCalls = s.stopCalls) :
    Waiting s' := by
  obtain ⟨hm, hr, hio, hst, c, ht⟩ := hw
  obtain ⟨e, h⟩ := h
  cases e with
  | main ok =>
    -- the join waits for a timer thread that has not exited
    simp only [next, mainStep, hm] at h
    rcases ht with ht | ht <;> simp [ht] at h
  | timer =>
    simp only [next, timerStep] at h
    rcases ht with ht | ht <;> simp only [ht, hr, if_true, Option.some.injEq] at h <;> subst h
    · exact ⟨hm, rfl, hio, hst, c, .inr rfl⟩
    · exact ⟨hm, rfl, hio, hst, c + 1, .inl rfl⟩
  | stop =>
    simp only [next, stopStep, hst, Option.some.injEq] at h
    subst h
    simp at hc

theorem stopCalls_mono (h : Relation.ReflTransGen system.step s s') : s.stopCalls ≤ s'.stopCalls := by
  induction h with
  | refl => exact le_rfl
  | tail _ hst ih => exact ih.trans (stopCalls_le hst)

theorem Waiting.blocked (hw : Waiting s) : Blocked s := by
  intro u hu hc
  suffices Waiting u from ⟨this.1, this.2.2.1⟩
  induction hu with
  | refl => exact hw
  | tail hsb hbu ih =>
    -- no `stop` called up to `u`, so none up to the state before it
    have h₁ := stopCalls_mono hsb
    have h₂ := stopCalls_le hbu
    exact (ih (by omega)).step hbu (by omega)

/-- When `run` is about to set the flag and a `stop` to clear it, the `stop`
    can be lost: its steps first, then those of `run`, leave `run` waiting
    until another `stop`, with the TUN I/O running. And half lost: with the
    timer thread created before the `stop` and the I/O started after it,
    `run` returns `0` with the TUN I/O running. -/
theorem stop_races_run (hm : s.main = .setRun) (hstop : s.stop = .clearRun) :
    (∃ t, Relation.ReflTransGen system.step s t ∧ t.stop = .idle ∧ t.stopCalls = s.stopCalls ∧
      Blocked t) ∧
    ∃ t, Relation.ReflTransGen system.step s t ∧ t.stop = .idle ∧ t.stopCalls = s.stopCalls ∧
      t.main = .returned 0 ∧ t.ioRunning = true := by
  constructor
  · -- the whole `stop`, then `run` up to its join
    have h : exec s [.stop, .stop, .main true, .main true, .main true] =
        some { s with
          run := true, ioRunning := true, main := .join 0, timer := .test 0, ticks := [], stop := .idle } := by
      simp only [exec, next, stopStep, mainStep, hm, hstop, Option.some_bind, ↓reduceIte, reduceCtorEq]
    exact ⟨_, star_of_exec _ h, rfl, rfl, Waiting.blocked ⟨rfl, rfl, rfl, rfl, 0, .inl rfl⟩⟩
  · -- `run` creates the timer thread; the whole `stop`; the timer thread
    -- exits; `run` starts the I/O and joins
    have h : exec s [.main true, .main true, .stop, .stop, .timer, .main true, .main true] =
        some { s with
          run := false, ioRunning := true, main := .returned 0, timer := .joined, ticks := [],
          stop := .idle } := by
      simp only [exec, next, stopStep, mainStep, timerStep, hm, hstop, Option.some_bind, ↓reduceIte,
        reduceCtorEq, Bool.false_eq_true]
    exact ⟨_, star_of_exec _ h, rfl, rfl, rfl, rfl⟩

/-- `run` just called, and a `stop` too, neither having acted. -/
def racing : State := { initial with stop := .clearRun, stopCalls := 1 }

theorem stop_races_run_racing :
    system.Reachable racing ∧ racing.main = .setRun ∧ racing.stop = .clearRun ∧
      ((∃ t, Relation.ReflTransGen system.step racing t ∧ t.stop = .idle ∧
          t.stopCalls = racing.stopCalls ∧ Blocked t) ∧
        ∃ t, Relation.ReflTransGen system.step racing t ∧ t.stop = .idle ∧
          t.stopCalls = racing.stopCalls ∧ t.main = .returned 0 ∧ t.ioRunning = true) :=
  ⟨.step (.init rfl) ⟨.stop, rfl⟩, rfl, rfl, stop_races_run rfl rfl⟩

end HevTunnel.Socks5Tunnel.Run
