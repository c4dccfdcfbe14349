import HevTunnel.System
import Mathlib.Logic.Function.Basic

/-!
# Locks and the TCP/IP stack

The engine runs lwIP, which is not reentrant, from several threads: the TUN
readers feed packets to `netif.input` through `packet_read_callback`, the
timer thread runs `tcp_tmr`, the writers free the packets they wrote, and the
thread pool's workers run the sessions. `lwip_mutex` is meant to serialise
all of it.

What matters here is the lock skeleton of each function: the order in which
it takes and releases the engine's mutexes, calls into the stack, writes to
the TUN fd and calls other functions. `body f` is that skeleton for the
function `f`, in the order of the source; a condition the skeleton does not
track (`run`, a failed `malloc`, the kind of packet) is a `choose` between
its branches, and a `while` loop is a `loop`. `netif.input` is lwIP's
`ip_input`, which calls the handlers the engine registered (`tcp_accept`,
`udp_recv`, `netif->output`) synchronously, any number of times.

A thread is a stack of frames, each the rest of a function's skeleton; a
mutex has at most one owner, and `pthread_mutex_lock` on a mutex someone
owns waits. Two facts refute the intended discipline:

* `lwip_relocked`: a reader that delivers a UDP datagram holds `lwip_mutex`
  (taken by `packet_read_callback`) when `udp_recv_handler` locks it again;
  it then waits for itself forever (`relock_stuck`), owning the mutex every
  other thread needs;
* `stack_unguarded`: a reader calls `pbuf_alloc` without `lwip_mutex` while
  the timer thread, holding it, is in `tcp_tmr`.
-/

namespace HevTunnel.Locking

/-- The engine's mutexes. -/
inductive Mutex
  /-- `io->callback_mutex`. -/
  | callback
  /-- `lwip_mutex`. -/
  | lwip
  /-- `session_mutex`. -/
  | session
  /-- `io->write_mutex`. -/
  | write
  /-- `pool->queue_mutex`. -/
  | queue
  deriving DecidableEq

/-- The calls into lwIP the engine makes. -/
inductive StackOp
  | pbufAlloc
  | pbufRef
  | pbufFree
  /-- `ip_input`, the body of `netif.input`. -/
  | ipInput
  | tcpTmr
  | ipReassTmr
  | nd6Tmr
  | ip6ReassTmr
  /-- `hev_socks5_session_tcp_new` or `hev_socks5_session_udp_new` on the
      new pcb. -/
  | sessionNew
  | udpSendfrom
  | udpRecv
  | udpRemove
  deriving DecidableEq

/-- The functions whose skeletons are modelled. -/
inductive Fn
  | readerThread
  | writerThread
  | timerThreadFunc
  /-- `worker_thread` of the thread pool. -/
  | poolWorkerThread
  | packetReadCallback
  /-- `netif.input`, lwIP's `ip_input`. -/
  | netifInput
  | tcpAcceptHandler
  | udpRecvHandler
  | netifOutputHandler
  | hevTunnelIoWrite
  | insertSession
  | removeSession
  | hevThreadPoolSubmit
  | sessionTaskWrapper

/-- One instruction of a skeleton. -/
inductive Instr
  | lock (m : Mutex)
  | unlock (m : Mutex)
  /-- A call into lwIP. -/
  | stack (op : StackOp)
  /-- A `write ()` to the TUN fd. -/
  | tunWrite
  /-- A call into code this repository does not contain (a session's
      `run_func`, `hev_socks5_session_run`): its locks are not modelled. -/
  | foreign
  | call (f : Fn)
  /-- One of the branches, the condition not tracked. -/
  | choose (alts : List (List Instr))
  /-- `while`: the body, any number of times. -/
  | loop (body : List Instr)

open Instr

/-- The lock skeleton of each function, in the order of the source. -/
def body : Fn → List Instr
  -- hev-tunnel-io.c: a read of no packet or a failed `pbuf_alloc` continues;
  -- `read_callback` is `packet_read_callback` once init has set it.
  | .readerThread =>
    [loop [choose [[], [stack .pbufAlloc, choose [[],
      [lock .callback, choose [[call .packetReadCallback], [stack .pbufFree]],
       unlock .callback]]]]]]
  -- `pthread_cond_timedwait` releases and retakes `write_mutex`; a chained
  -- packet whose copy buffer is not allocated is not written.
  | .writerThread =>
    [loop [lock .write, loop [unlock .write, lock .write], unlock .write,
      loop [choose [[tunWrite], []], stack .pbufFree]]]
  -- lwIP's `tcp_tmr` may retransmit through `netif->output`.
  | .timerThreadFunc =>
    [loop [lock .lwip, stack .tcpTmr, loop [call .netifOutputHandler],
      choose [[], [stack .ipReassTmr, stack .nd6Tmr, stack .ip6ReassTmr]], unlock .lwip]]
  -- hev-thread-pool.c: the only tasks submitted are `session_task_wrapper`.
  | .poolWorkerThread =>
    [loop [lock .queue, loop [unlock .queue, lock .queue],
      choose [[unlock .queue],
        [unlock .queue, call .sessionTaskWrapper, lock .queue, unlock .queue]]]]
  | .packetReadCallback =>
    [lock .lwip, call .netifInput, choose [[], [stack .pbufFree]], unlock .lwip]
  | .netifInput =>
    [stack .ipInput, loop [choose
      [[call .tcpAcceptHandler], [call .udpRecvHandler], [call .netifOutputHandler]]]]
  -- `err != ERR_OK` or `!run` returns at once; a failed session or
  -- `malloc` returns before `insert_session`.
  | .tcpAcceptHandler =>
    [choose [[],
      [lock .lwip, stack .sessionNew, unlock .lwip, choose [[],
        [call .insertSession, call .hevThreadPoolSubmit,
         choose [[], [call .removeSession]]]]]]]
  -- `!run`; a mapped-DNS query; a new session.
  | .udpRecvHandler =>
    [choose [
      [stack .pbufFree, stack .udpRemove],
      [stack .pbufAlloc, choose [[],
        [lock .lwip, choose [[], [stack .udpSendfrom]], unlock .lwip, stack .pbufFree]],
       stack .pbufFree, stack .udpRecv, stack .udpRemove],
      [stack .pbufFree, lock .lwip, stack .sessionNew, unlock .lwip, choose [
        [stack .udpRemove],
        [call .insertSession, call .hevThreadPoolSubmit,
         choose [[], [call .removeSession, stack .udpRemove]]]]]]]
  | .netifOutputHandler => [call .hevTunnelIoWrite]
  -- A failed `malloc` returns first; a full queue drops the reference.
  | .hevTunnelIoWrite =>
    [choose [[],
      [stack .pbufRef, lock .write, choose [[unlock .write, stack .pbufFree], [unlock .write]]]]]
  | .insertSession => [choose [[], [lock .session, unlock .session]]]
  | .removeSession => [lock .session, unlock .session]
  | .hevThreadPoolSubmit => [choose [[], [lock .queue, unlock .queue]]]
  | .sessionTaskWrapper => [foreign, call .removeSession]

/-- A thread: its stack of frames, the innermost first, each the rest of a
    function's skeleton. -/
abbrev Frames := List (List Instr)

/-- The instruction a thread is at. -/
def current : Frames → Option Instr
  | (i :: _) :: _ => some i
  | _ => none

/-- The threads and the owner of each mutex. -/
structure State where
  threads : List Frames
  owner : Mutex → Option Nat

/-- One step of the thread `t` with the frames `fr`, `k` choosing a branch
    of a `choose` or whether a `loop` runs its body again. A finished frame
    returns; `lock` waits while the mutex has an owner; only the owner
    unlocks. -/
def threadStep (owner : Mutex → Option Nat) (t k : Nat) :
    Frames → Option ((Mutex → Option Nat) × Frames)
  | [] => none
  | [] :: fs => some (owner, fs)
  | (i :: is) :: fs =>
    match i with
    | lock m =>
      if owner m = none then some (Function.update owner m (some t), is :: fs) else none
    | unlock m =>
      if owner m = some t then some (Function.update owner m none, is :: fs) else none
    | stack _ | tunWrite | foreign => some (owner, is :: fs)
    | call f => some (owner, body f :: is :: fs)
    | choose alts => alts[k]?.map fun a => (owner, (a ++ is) :: fs)
    | loop b => some (owner, (if k = 0 then is else b ++ loop b :: is) :: fs)

/-- A step of the thread `t`, `k` its choice. -/
def next (s : State) (t k : Nat) : Option State :=
  match s.threads[t]? with
  | some fr => (threadStep s.owner t k fr).map fun r => ⟨s.threads.set t r.2, r.1⟩
  | none => none

/-- The threads of a running engine, started at their entry functions with
    no mutex owned: the timer thread (`0`), then `readers` readers,
    `writers` writers and `workers` pool workers. -/
def started (readers writers workers : Nat) : State where
  threads := [[body .timerThreadFunc]] ++ List.replicate readers [body .readerThread] ++
    List.replicate writers [body .writerThread] ++ List.replicate workers [body .poolWorkerThread]
  owner _ := none

def system : System State where
  init s := ∃ readers writers workers, s = started readers writers workers
  step s s' := ∃ t k, next s t k = some s'

/-- The thread `t` is at the instruction `i`. -/
def At (s : State) (t : Nat) (i : Instr) : Prop := (s.threads[t]?).bind current = some i

/-- The thread `t` locks `m`, which it owns. -/
def Relocking (s : State) (t : Nat) (m : Mutex) : Prop := At s t (lock m) ∧ s.owner m = some t

/-! ## What a step does to the owners -/

/-- A step of `u` changes the owner of a mutex only from none to `u` (a
    `lock`) or from `u` to none (an `unlock`). -/
theorem threadStep_owner {owner o : Mutex → Option Nat} {u k : Nat} {fr fr' : Frames}
    (h : threadStep owner u k fr = some (o, fr')) (m : Mutex) :
    o m = owner m ∨ (owner m = none ∧ o m = some u) ∨ (owner m = some u ∧ o m = none) := by
  match fr, h with
  | [] :: fs, h => cases h; exact .inl rfl
  | (i :: is) :: fs, h =>
    cases i with
    | lock m' =>
      simp only [threadStep] at h
      split_ifs at h with hm
      cases h
      by_cases e : m = m'
      · subst e; simp [hm]
      · simp [Function.update_noteq e]
    | unlock m' =>
      simp only [threadStep] at h
      split_ifs at h with hm
      cases h
      by_cases e : m = m'
      · subst e; simp [hm]
      · simp [Function.update_noteq e]
    | choose alts =>
      simp only [threadStep, Option.map_eq_some'] at h
      obtain ⟨_, _, e⟩ := h
      cases e; exact .inl rfl
    | _ => simp only [threadStep, Option.some.injEq, Prod.mk.injEq] at h; rw [← h.1]; exact .inl rfl

/-- A thread at `lock m` while owning `m` takes no step. -/
theorem threadStep_relock {owner : Mutex → Option Nat} {t k : Nat} {fr : Frames} {m : Mutex}
    (hat : current fr = some (lock m)) (ho : owner m = some t) : threadStep owner t k fr = none := by
  match fr, hat with
  | (lock _ :: is) :: fs, rfl => simp [threadStep, ho]

/-- A self-deadlock lasts: after any step the thread is where it was and
    still owns the mutex. -/
theorem relocking_step {s s' : State} {t : Nat} {m : Mutex} (hr : Relocking s t m)
    (h : system.step s s') : s'.threads[t]? = s.threads[t]? ∧ s'.owner m = some t := by
  obtain ⟨u, k, h⟩ := h
  obtain ⟨hat, ho⟩ := hr
  unfold next at h
  split at h
  · rename_i fr hfr
    obtain ⟨⟨o, fr'⟩, hstep, rfl⟩ := Option.map_eq_some'.1 h
    have hu : u ≠ t := by
      rintro rfl
      rw [At, hfr] at hat
      rw [threadStep_relock hat ho] at hstep
      cases hstep
    refine ⟨List.getElem?_set_ne hu, ?_⟩
    rcases threadStep_owner hstep m with e | ⟨e, _⟩ | ⟨e, _⟩
    · exact e.trans ho
    · rw [ho] at e; cases e
    · rw [ho] at e; cases e; exact absurd rfl hu
  · cases h

/-- A thread that locks a mutex it owns waits forever: along every run it
    stays where it is and keeps the mutex. -/
theorem relock_stuck {s s' : State} {t : Nat} {m : Mutex} (hr : Relocking s t m)
    (h : Relation.ReflTransGen system.step s s') :
    s'.threads[t]? = s.threads[t]? ∧ s'.owner m = some t := by
  induction h with
  | refl => exact ⟨rfl, hr.2⟩
  | tail _ hst ih =>
    have hr' : Relocking _ t m := ⟨by rw [At, ih.1]; exact hr.1, ih.2⟩
    exact ⟨(relocking_step hr' hst).1.trans ih.1, (relocking_step hr' hst).2⟩

theorem reachable_next {s s' : State} (hs : system.Reachable s) (t k : Nat)
    (h : next s t k = some s') : system.Reachable s' :=
  hs.step ⟨t, k, h⟩

/-- A reader delivering a UDP datagram for a new session: `packet_read_callback`
    takes `lwip_mutex`, `netif.input` calls `udp_recv_handler`, which locks
    `lwip_mutex` again; the reader then never moves and owns `lwip_mutex`
    for ever. -/
theorem lwip_relocked :
    ∃ s t, system.Reachable s ∧ Relocking s t .lwip ∧
      ∀ s', Relation.ReflTransGen system.step s s' →
        s'.threads[t]? = s.threads[t]? ∧ s'.owner .lwip = some t := by
  have r₀ : system.Reachable (started 1 0 0) := .init ⟨1, 0, 0, rfl⟩
  have r₁ := reachable_next r₀ 1 1 rfl
  have r₂ := reachable_next r₁ 1 1 rfl
  have r₃ := reachable_next r₂ 1 0 rfl
  have r₄ := reachable_next r₃ 1 1 rfl
  have r₅ := reachable_next r₄ 1 0 rfl
  have r₆ := reachable_next r₅ 1 0 rfl
  have r₇ := reachable_next r₆ 1 0 rfl
  have r₈ := reachable_next r₇ 1 0 rfl
  have r₉ := reachable_next r₈ 1 0 rfl
  have r₁₀ := reachable_next r₉ 1 0 rfl
  have r₁₁ := reachable_next r₁₀ 1 1 rfl
  have r₁₂ := reachable_next r₁₁ 1 1 rfl
  have r₁₃ := reachable_next r₁₂ 1 0 rfl
  have r₁₄ := reachable_next r₁₃ 1 2 rfl
  have r₁₅ := reachable_next r₁₄ 1 0 rfl
  exact ⟨_, 1, r₁₅, And.intro rfl rfl, fun _ h => relock_stuck (And.intro rfl rfl) h⟩

/-- The timer thread takes `lwip_mutex` and enters `tcp_tmr`; a reader that
    has read a packet calls `pbuf_alloc` meanwhile, without the mutex. -/
theorem stack_unguarded :
    ∃ s, system.Reachable s ∧ At s 1 (stack .pbufAlloc) ∧ s.owner .lwip = some 0 ∧
      At s 0 (stack .tcpTmr) := by
  have r₀ : system.Reachable (started 1 0 0) := .init ⟨1, 0, 0, rfl⟩
  have r₁ := reachable_next r₀ 0 1 rfl
  have r₂ := reachable_next r₁ 0 0 rfl
  have r₃ := reachable_next r₂ 1 1 rfl
  have r₄ := reachable_next r₃ 1 1 rfl
  exact ⟨_, r₄, rfl, rfl, rfl⟩

end HevTunnel.Locking
