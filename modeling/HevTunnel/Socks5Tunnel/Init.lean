import Mathlib.Data.List.Basic

/-!
# Initialising the tunnel

`hev_socks5_tunnel_init (extern_tun_fd)` in `hev-socks5-tunnel.c` runs its
stages one after the other, each as `res = stage (); if (res < 0) goto error;`,
and on `error` calls `hev_socks5_tunnel_fini` and returns `-1`:

* `tunnel_init`: with a caller's descriptor (`extern_tun_fd ≥ 0`), set it
  non-blocking; else open a TUN device (`hev_tunnel_open`), set its MTU, its
  IPv4 and IPv6 addresses when configured, bring it up, and only then set
  `tun_fd_local`;
* `gateway_init`, after `lwip_init`: add `netif`, the listening TCP and the
  UDP control blocks; it never fails;
* `mapped_dns_init`: create the mapped-DNS singleton when a cache size is
  configured;
* `hev_thread_pool_new (0)` and `hev_tunnel_io_new (tun_fd, mtu)`.

`hev_socks5_tunnel_fini` destroys the tunnel I/O and the pool, drops the
mapped-DNS singleton, removes the control blocks and `netif`, and closes the
TUN device when `tun_fd_local` is set. What each call returns is an input
(`InitOutcomes`). The state is what the process holds (`Resources`), its open
descriptors among them. A stage is a function to `Except Resources
Resources`, the error carrying the state the stage left.

Proved of every combination of outcomes, from the state before the first
init with any descriptors `fds` open (`pristine`):

* a failed init releases every lwIP object, the mapped-DNS singleton, the
  pool and the tunnel I/O, and closes none of `fds`, a caller's descriptor
  included; the only descriptor it can leave open is the TUN device it
  opened (`hevSocks5TunnelInit_failed`);
* it leaves that device open whenever setting the MTU, an address or the link
  state fails: `tunnel_init` returns before it sets `tun_fd_local`, so
  `tunnel_fini` skips the close (`init_failure_leaks_tun`).
-/

namespace HevTunnel.Socks5Tunnel

/-- What `hev_socks5_tunnel_init` and `hev_socks5_tunnel_fini` change. -/
structure Resources where
  /-- `tun_fd`. -/
  tunFd : Int
  /-- `tun_fd_local`. -/
  tunFdLocal : Bool
  /-- The descriptors the process holds open. -/
  openFds : List Int
  /-- `netif` is on lwIP's list of interfaces. -/
  netif : Bool
  /-- The listening TCP control block `tcp` is live. -/
  tcp : Bool
  /-- The UDP control block `udp` is live. -/
  udp : Bool
  /-- The mapped-DNS singleton is set. -/
  mappedDns : Bool
  /-- `thread_pool` is a live pool. -/
  threadPool : Bool
  /-- `tunnel_io` is a live engine. -/
  tunnelIo : Bool
  deriving DecidableEq

/-- What the calls of `hev_socks5_tunnel_init` return, and the configuration
    it reads. -/
structure InitOutcomes where
  /-- `ioctl (extern_tun_fd, FIONBIO, ...)` succeeds. -/
  ioctl : Bool
  /-- The descriptor `hev_tunnel_open` returns, negative on failure. -/
  tunnelOpen : Int
  /-- `hev_tunnel_set_mtu` succeeds. -/
  setMtu : Bool
  /-- `none` when no IPv4 address is configured, else whether
      `hev_tunnel_set_ipv4` succeeds. -/
  setIpv4 : Option Bool
  /-- The same for IPv6 and `hev_tunnel_set_ipv6`. -/
  setIpv6 : Option Bool
  /-- `hev_tunnel_set_state (1)` succeeds. -/
  setState : Bool
  /-- The configured mapped-DNS cache size. -/
  dnsCacheSize : Nat
  /-- `hev_mapped_dns_new` returns an object. -/
  dnsNew : Bool
  /-- `hev_thread_pool_new` returns a pool. -/
  threadPoolNew : Bool
  /-- `hev_tunnel_io_new` returns an engine. -/
  tunnelIoNew : Bool
  deriving DecidableEq

/-- The state before the first init, with the descriptors `fds` open. -/
def pristine (fds : List Int) : Resources :=
  ⟨-1, false, fds, false, false, false, false, false, false⟩

/-! ## The stages -/

/-- The configuration in `tunnel_init` of the device it opened: `-1` at the
    first call that fails, else `tun_fd_local = 1` (the post-up script left
    out). -/
def tunnelConfigure (r : Resources) (o : InitOutcomes) : Except Resources Resources :=
  if !o.setMtu then .error r
  else if o.setIpv4 = some false then .error r
  else if o.setIpv6 = some false then .error r
  else if !o.setState then .error r
  else .ok { r with tunFdLocal := true }

/-- `tunnel_init (extern_tun_fd)`. -/
def tunnelInit (r : Resources) (externTunFd : Int) (o : InitOutcomes) :
    Except Resources Resources :=
  if externTunFd ≥ 0 then
    if o.ioctl then .ok { r with tunFd := externTunFd } else .error r
  else if o.tunnelOpen < 0 then .error { r with tunFd := o.tunnelOpen }
  else tunnelConfigure { r with tunFd := o.tunnelOpen, openFds := o.tunnelOpen :: r.openFds } o

/-- `tunnel_fini`: close the device when `tunnel_init` opened it (the
    pre-down script left out). -/
def tunnelFini (r : Resources) : Resources :=
  if !r.tunFdLocal then r
  else { r with openFds := r.openFds.erase r.tunFd, tunFdLocal := false, tunFd := -1 }

/-- `gateway_init`: add `netif`, the listening TCP and the UDP control
    blocks; it returns `0`. -/
def gatewayInit (r : Resources) : Except Resources Resources :=
  .ok { r with netif := true, tcp := true, udp := true }

/-- `gateway_fini`: remove `udp` and `tcp` when set, and `netif`. -/
def gatewayFini (r : Resources) : Resources :=
  { r with udp := false, tcp := false, netif := false }

/-- `mapped_dns_init`. -/
def mappedDnsInit (r : Resources) (o : InitOutcomes) : Except Resources Resources :=
  if o.dnsCacheSize = 0 then .ok r
  else if o.dnsNew then .ok { r with mappedDns := true } else .error r

/-- `mapped_dns_fini`: drop the singleton when set. -/
def mappedDnsFini (r : Resources) : Resources := { r with mappedDns := false }

/-- `thread_pool = hev_thread_pool_new (0)`, failing on `NULL`. -/
def threadPoolNew (r : Resources) (o : InitOutcomes) : Except Resources Resources :=
  if o.threadPoolNew then .ok { r with threadPool := true } else .error r

/-- `tunnel_io = hev_tunnel_io_new (tun_fd, mtu)`, failing on `NULL`. -/
def tunnelIoNew (r : Resources) (o : InitOutcomes) : Except Resources Resources :=
  if o.tunnelIoNew then .ok { r with tunnelIo := true } else .error r

/-- `hev_socks5_tunnel_fini`: destroy the tunnel I/O and the pool when set,
    then the mapped DNS, the gateway and the tunnel (the session list it
    also clears is `SessionList.clearSessions`). -/
def hevSocks5TunnelFini (r : Resources) : Resources :=
  tunnelFini (gatewayFini (mappedDnsFini { r with tunnelIo := false, threadPool := false }))

/-- The stages of `hev_socks5_tunnel_init` after `tunnel_init`. -/
def setupStages (r : Resources) (o : InitOutcomes) : Except Resources Resources := do
  let r ← gatewayInit r
  let r ← mappedDnsInit r o
  let r ← threadPoolNew r o
  tunnelIoNew r o

/-- `hev_socks5_tunnel_init (extern_tun_fd)`: `0`, or `-1` after
    `hev_socks5_tunnel_fini` on the state the failed stage left. -/
def hevSocks5TunnelInit (r : Resources) (externTunFd : Int) (o : InitOutcomes) :
    Int × Resources :=
  match (tunnelInit r externTunFd o).bind (setupStages · o) with
  | .ok r => (0, r)
  | .error r => (-1, hevSocks5TunnelFini r)

/-! ## What each stage keeps -/

section Stages

variable {r r' : Resources} {o : InitOutcomes} {externTunFd : Int}

/-- A chain of stages fails at its first stage or at the rest. -/
theorem bind_eq_error {x : Except Resources Resources} {f : Resources → Except Resources Resources} :
    x.bind f = .error r' ↔ x = .error r' ∨ ∃ r, x = .ok r ∧ f r = .error r' := by
  cases x <;> simp [Except.bind]

/-- The configuration as one test: it fails when one of its calls does. -/
theorem tunnelConfigure_eq : tunnelConfigure r o =
    if o.setMtu = false ∨ o.setIpv4 = some false ∨ o.setIpv6 = some false ∨ o.setState = false
    then .error r else .ok { r with tunFdLocal := true } := by
  rw [tunnelConfigure]
  by_cases h₁ : o.setMtu = false
  · rw [if_pos (by rw [h₁]; rfl), if_pos (.inl h₁)]
  rw [if_neg (by simpa using h₁)]
  by_cases h₂ : o.setIpv4 = some false
  · rw [if_pos h₂, if_pos (.inr (.inl h₂))]
  rw [if_neg h₂]
  by_cases h₃ : o.setIpv6 = some false
  · rw [if_pos h₃, if_pos (.inr (.inr (.inl h₃)))]
  rw [if_neg h₃]
  by_cases h₄ : o.setState = false
  · rw [if_pos (by rw [h₄]; rfl), if_pos (.inr (.inr (.inr h₄)))]
  rw [if_neg (by simpa using h₄), if_neg (by simp [h₁, h₂, h₃, h₄])]

/-- The configuration fails exactly when one of its calls does, and leaves
    the state as it was. -/
theorem tunnelConfigure_error :
    tunnelConfigure r o = .error r' ↔ r' = r ∧
      (o.setMtu = false ∨ o.setIpv4 = some false ∨ o.setIpv6 = some false ∨ o.setState = false) := by
  rw [tunnelConfigure_eq]
  split_ifs with h
  · exact ⟨fun e => ⟨(Except.error.inj e).symm, h⟩, fun ⟨e, _⟩ => e ▸ rfl⟩
  · exact ⟨fun e => (by cases e), fun ⟨_, hf⟩ => absurd hf h⟩

/-- A configuration that succeeds sets `tun_fd_local`. -/
theorem tunnelConfigure_ok (h : tunnelConfigure r o = .ok r') : r' = { r with tunFdLocal := true } := by
  rw [tunnelConfigure_eq] at h
  split_ifs at h
  exact (Except.ok.inj h).symm

/-- A failed `tunnel_init` leaves `tun_fd_local`, and at most adds the
    device it opened to the open descriptors. -/
theorem tunnelInit_error (h : tunnelInit r externTunFd o = .error r') :
    r'.tunFdLocal = r.tunFdLocal ∧
      (r'.openFds = r.openFds ∨ externTunFd < 0 ∧ r'.openFds = o.tunnelOpen :: r.openFds) := by
  unfold tunnelInit at h
  by_cases he : externTunFd ≥ 0
  · rw [if_pos he] at h
    split_ifs at h
    cases h; exact ⟨rfl, .inl rfl⟩
  rw [if_neg he] at h
  split_ifs at h
  · cases h; exact ⟨rfl, .inl rfl⟩
  · obtain ⟨rfl, -⟩ := tunnelConfigure_error.1 h
    exact ⟨rfl, .inr ⟨by omega, rfl⟩⟩

/-- A `tunnel_init` that succeeds keeps a caller's descriptor as it is, or
    opens the device and sets `tun_fd_local`. -/
theorem tunnelInit_ok (h : tunnelInit r externTunFd o = .ok r') :
    (0 ≤ externTunFd ∧ r'.tunFdLocal = r.tunFdLocal ∧ r'.openFds = r.openFds) ∨
      (externTunFd < 0 ∧ r'.tunFdLocal = true ∧ r'.tunFd = o.tunnelOpen ∧
        r'.openFds = o.tunnelOpen :: r.openFds) := by
  unfold tunnelInit at h
  by_cases he : externTunFd ≥ 0
  · rw [if_pos he] at h
    split_ifs at h
    obtain rfl := Except.ok.inj h
    exact .inl ⟨he, rfl, rfl⟩
  rw [if_neg he] at h
  split_ifs at h
  obtain rfl := tunnelConfigure_ok h
  exact .inr ⟨by omega, rfl, rfl, rfl⟩

/-- The state a stage leaves, whether it fails or not. -/
def stageResult : Except Resources Resources → Resources
  | .ok r | .error r => r

/-- `r'` has the descriptor fields of `r`. -/
def SameTun (r r' : Resources) : Prop :=
  r'.tunFd = r.tunFd ∧ r'.tunFdLocal = r.tunFdLocal ∧ r'.openFds = r.openFds

/-- Stages that keep the descriptor fields keep them in a chain. -/
theorem sameTun_bind {x : Except Resources Resources} {f : Resources → Except Resources Resources}
    (hf : ∀ r, SameTun r (stageResult (f r))) (hx : SameTun r (stageResult x)) :
    SameTun r (stageResult (x >>= f)) := by
  cases x with
  | error e => exact hx
  | ok r₁ =>
    obtain ⟨a, b, c⟩ := hf r₁
    exact ⟨a.trans hx.1, b.trans hx.2.1, c.trans hx.2.2⟩

/-- The stages after `tunnel_init` leave `tun_fd`, `tun_fd_local` and the
    open descriptors alone: each one of them does. -/
theorem setupStages_error (h : setupStages r o = .error r') :
    r'.tunFd = r.tunFd ∧ r'.tunFdLocal = r.tunFdLocal ∧ r'.openFds = r.openFds := by
  have hs : SameTun r (stageResult (setupStages r o)) := by
    refine sameTun_bind (fun r₁ => sameTun_bind (fun r₂ => sameTun_bind (fun r₃ => ?_) ?_) ?_)
      ⟨rfl, rfl, rfl⟩
    · unfold tunnelIoNew; split <;> exact ⟨rfl, rfl, rfl⟩
    · unfold threadPoolNew; split <;> exact ⟨rfl, rfl, rfl⟩
    · unfold mappedDnsInit; split <;> (try split) <;> exact ⟨rfl, rfl, rfl⟩
  rwa [h] at hs

/-- `hev_socks5_tunnel_fini` releases everything it checks, and closes the
    device exactly when `tun_fd_local` is set. -/
theorem hevSocks5TunnelFini_spec (r : Resources) :
    (hevSocks5TunnelFini r).netif = false ∧ (hevSocks5TunnelFini r).tcp = false ∧
      (hevSocks5TunnelFini r).udp = false ∧ (hevSocks5TunnelFini r).mappedDns = false ∧
      (hevSocks5TunnelFini r).threadPool = false ∧ (hevSocks5TunnelFini r).tunnelIo = false ∧
      (hevSocks5TunnelFini r).openFds =
        if r.tunFdLocal then r.openFds.erase r.tunFd else r.openFds := by
  unfold hevSocks5TunnelFini tunnelFini
  split_ifs with h₁ h₂ <;> simp_all [gatewayFini, mappedDnsFini]

end Stages

/-! ## A failed init -/

/-- What a failed init from `pristine fds` leaves: no lwIP object, mapped
    DNS, pool or tunnel I/O, and the descriptors `fds`, with at most the TUN
    device it opened. -/
theorem hevSocks5TunnelInit_failed {fds : List Int} {externTunFd : Int} {o : InitOutcomes}
    {r' : Resources} (h : hevSocks5TunnelInit (pristine fds) externTunFd o = (-1, r')) :
    r'.netif = false ∧ r'.tcp = false ∧ r'.udp = false ∧ r'.mappedDns = false ∧
      r'.threadPool = false ∧ r'.tunnelIo = false ∧
      (r'.openFds = fds ∨ externTunFd < 0 ∧ r'.openFds = o.tunnelOpen :: fds) := by
  unfold hevSocks5TunnelInit at h
  split at h
  · cases h
  rename_i r₁ hr
  cases h
  obtain ⟨h₁, h₂, h₃, h₄, h₅, h₆, hfds⟩ := hevSocks5TunnelFini_spec r₁
  refine ⟨h₁, h₂, h₃, h₄, h₅, h₆, ?_⟩
  rw [hfds]
  rcases bind_eq_error.1 hr with hr | ⟨r₀, hr₀, hr⟩
  · -- `tunnel_init` failed: `tun_fd_local` is still clear
    obtain ⟨hl, hfds⟩ := tunnelInit_error hr
    rw [hl]
    exact hfds
  · -- a later stage failed: the device, if opened, is closed
    obtain ⟨ht, hl, hfds⟩ := setupStages_error hr
    rw [hl, ht, hfds]
    rcases tunnelInit_ok hr₀ with ⟨-, hl₀, hfds₀⟩ | ⟨-, hl₀, ht₀, hfds₀⟩
    · rw [hl₀]; exact .inl hfds₀
    · rw [hl₀, ht₀, hfds₀, if_pos rfl, List.erase_cons_head]; exact .inl rfl

/-- A failed init tears down what it set up, except the TUN device: from the
    state before the first init, with any descriptors `fds` open, it leaves
    no lwIP object, mapped DNS, pool or tunnel I/O, and closes none of
    `fds`, a caller's descriptor included. But when it opened the device
    itself and setting the MTU, an address or the link state fails, it
    returns `-1` with the device still open: `tun_fd_local` is still clear,
    so `tunnel_fini` does not close it. -/
theorem init_failure_leaks_tun :
    (∀ fds externTunFd o r', hevSocks5TunnelInit (pristine fds) externTunFd o = (-1, r') →
      r'.netif = false ∧ r'.tcp = false ∧ r'.udp = false ∧ r'.mappedDns = false ∧
      r'.threadPool = false ∧ r'.tunnelIo = false ∧ (∀ fd ∈ fds, fd ∈ r'.openFds) ∧
      (r'.openFds = fds ∨ externTunFd < 0 ∧ r'.openFds = o.tunnelOpen :: fds)) ∧
    ∀ fds externTunFd (o : InitOutcomes), externTunFd < 0 → 0 ≤ o.tunnelOpen →
      (o.setMtu = false ∨ o.setIpv4 = some false ∨ o.setIpv6 = some false ∨
        o.setState = false) →
      hevSocks5TunnelInit (pristine fds) externTunFd o =
        (-1, { pristine (o.tunnelOpen :: fds) with tunFd := o.tunnelOpen }) := by
  refine ⟨fun fds externTunFd o r' h => ?_, fun fds externTunFd o he ho hf => ?_⟩
  · obtain ⟨h₁, h₂, h₃, h₄, h₅, h₆, hfds⟩ := hevSocks5TunnelInit_failed h
    refine ⟨h₁, h₂, h₃, h₄, h₅, h₆, fun fd hfd => ?_, hfds⟩
    rcases hfds with hfds | ⟨-, hfds⟩ <;> rw [hfds]
    · exact hfd
    · exact List.mem_cons_of_mem _ hfd
  · have he' : ¬externTunFd ≥ 0 := by omega
    have ho' : ¬o.tunnelOpen < 0 := by omega
    simp only [hevSocks5TunnelInit, tunnelInit, if_neg he', if_neg ho']
    rw [(tunnelConfigure_error (o := o)).2 ⟨rfl, hf⟩]
    rfl

example : (hevSocks5TunnelInit (pristine [0, 1, 2]) (-1)
    ⟨true, 3, false, none, none, true, 0, true, true, true⟩).2.openFds = [3, 0, 1, 2] := by
  decide

end HevTunnel.Socks5Tunnel
