import Mathlib.Data.List.OfFn

/-!
# The socket filters

`hev-ebpf-filter.c`, as built on Linux (where `HEV_EBPF_SUPPORTED` is
defined): `hev_ebpf_filter_attach` hands one of two classic BPF programs to
`setsockopt (SO_ATTACH_FILTER)`. `drop_icmp_prog` loads the byte at offset
`9`, the protocol of an IPv4 header, and drops the packet if it is
`IPPROTO_ICMP`; `drop_arp_prog` loads the half-word at offset `12`, the
EtherType of an Ethernet header, and drops the packet if it is `ETH_P_ARP`.

The programs run on the kernel's classic BPF machine, modelled for the
instructions of their kind: absolute loads, jumps on a comparison with a
constant, and returns. A filter returns the number of bytes of the packet to
keep, `0` dropping it; a load past the end of the packet drops it.

* `dropIcmpProg_spec`, `dropArpProg_spec`: what each program keeps, on any
  packet;
* `filters_read_two_framings`: the two programs assume two framings of a
  packet. On a packet that starts with an IPv4 header `drop_icmp_prog` drops
  exactly ICMP, but `drop_arp_prog` drops exactly the packets whose source
  address is in `8.6.0.0/16`; on a frame that starts with an Ethernet header
  `drop_arp_prog` drops exactly ARP, but `drop_icmp_prog` drops exactly the
  frames whose source address has `1` as its fourth byte.
-/

namespace HevTunnel.EbpfFilter

/-- `struct sock_filter`: the opcode, the two jump offsets, and the operand. -/
structure SockFilter where
  code : Nat
  jt : Nat
  jf : Nat
  k : Nat
  deriving DecidableEq

/-! ### The fields of an opcode, as `linux/bpf_common.h` numbers them -/

def bpfLd : Nat := 0x00
def bpfJmp : Nat := 0x05
def bpfRet : Nat := 0x06
def bpfW : Nat := 0x00
def bpfH : Nat := 0x08
def bpfB : Nat := 0x10
def bpfAbs : Nat := 0x20
def bpfJa : Nat := 0x00
def bpfJeq : Nat := 0x10
def bpfJgt : Nat := 0x20
def bpfJge : Nat := 0x30
def bpfJset : Nat := 0x40
def bpfK : Nat := 0x00
def bpfA : Nat := 0x10

/-- `BPF_STMT (code, k)`. -/
def bpfStmt (code k : Nat) : SockFilter := ⟨code, 0, 0, k⟩

/-- `BPF_JUMP (code, k, jt, jf)`. -/
def bpfJump (code k jt jf : Nat) : SockFilter := ⟨code, jt, jf, k⟩

/-- `drop_icmp_prog`. -/
def dropIcmpProg : List SockFilter :=
  [bpfStmt (bpfLd ||| bpfB ||| bpfAbs) 9,
   bpfJump (bpfJmp ||| bpfJeq ||| bpfK) 1 0 1,
   bpfStmt (bpfRet ||| bpfK) 0,
   bpfStmt (bpfRet ||| bpfK) 0xFFFFFFFF]

/-- `drop_arp_prog`. -/
def dropArpProg : List SockFilter :=
  [bpfStmt (bpfLd ||| bpfH ||| bpfAbs) 12,
   bpfJump (bpfJmp ||| bpfJeq ||| bpfK) 0x0806 0 1,
   bpfStmt (bpfRet ||| bpfK) 0,
   bpfStmt (bpfRet ||| bpfK) 0xFFFFFFFF]

/-! ## The filter object -/

/-- `HevEbpfFilterType`. -/
inductive HevEbpfFilterType
  | allowAll
  | dropIcmp
  | dropArp
  | custom
  deriving DecidableEq

/-- `struct _HevEbpfFilter`; `prog_fd` and the counters are never written
    after `hev_ebpf_filter_new`. -/
structure HevEbpfFilter where
  progFd : Int
  type : HevEbpfFilterType
  passed : Nat
  dropped : Nat

/-- `hev_ebpf_filter_new (type)`, once `calloc` succeeded. -/
def hevEbpfFilterNew (type : HevEbpfFilterType) : HevEbpfFilter := ⟨-1, type, 0, 0⟩

/-- The program `hev_ebpf_filter_attach` chooses for a type; the types of the
    `default` branch attach none. -/
def attachedProg : HevEbpfFilterType → Option (List SockFilter)
  | .dropIcmp => some dropIcmpProg
  | .dropArp => some dropArpProg
  | _ => none

/-- `hev_ebpf_filter_attach (filter, fd)`, `ok` the outcome of `setsockopt`:
    the return value, and the program attached to the socket. -/
def hevEbpfFilterAttach (filter : Option HevEbpfFilter) (fd : Int) (ok : Bool) :
    Int × Option (List SockFilter) :=
  match filter with
  | none => (-1, none)
  | some filter =>
    if fd < 0 then (-1, none)
    else match attachedProg filter.type with
      | none => (0, none)
      | some prog => if ok then (0, some prog) else (-1, none)

/-- `hev_ebpf_filter_get_stats`: `passed` and `dropped`. -/
def hevEbpfFilterGetStats (filter : HevEbpfFilter) : Nat × Nat := (filter.passed, filter.dropped)

/-! ## The classic BPF machine -/

/-- The byte at offset `k`, `none` past the end of the packet. -/
def loadB (pkt : List UInt8) (k : Nat) : Option Nat := pkt[k]?.map UInt8.toNat

/-- The half-word at offset `k`, in network order. -/
def loadH (pkt : List UInt8) (k : Nat) : Option Nat := do
  let b₀ ← loadB pkt k
  let b₁ ← loadB pkt (k + 1)
  pure (b₀ * 256 + b₁)

/-- The word at offset `k`, in network order. -/
def loadW (pkt : List UInt8) (k : Nat) : Option Nat := do
  let h₀ ← loadH pkt k
  let h₁ ← loadH pkt (k + 2)
  pure (h₀ * 65536 + h₁)

/-- What an instruction does: go on with the accumulator, skipping
    instructions, or return. -/
inductive Outcome
  | next (a skip : Nat)
  | ret (v : Nat)

/-- One instruction on the packet `pkt`, the accumulator holding `a`. An
    opcode outside those modelled returns `0`. -/
def execInsn (pkt : List UInt8) (a : Nat) (ins : SockFilter) : Outcome :=
  let load : Option Nat → Outcome := fun
    | some v => .next v 0
    | none => .ret 0
  let jump : Bool → Outcome := fun c => .next a (if c then ins.jt else ins.jf)
  if ins.code = bpfLd ||| bpfW ||| bpfAbs then load (loadW pkt ins.k)
  else if ins.code = bpfLd ||| bpfH ||| bpfAbs then load (loadH pkt ins.k)
  else if ins.code = bpfLd ||| bpfB ||| bpfAbs then load (loadB pkt ins.k)
  else if ins.code = bpfJmp ||| bpfJa then .next a ins.k
  else if ins.code = bpfJmp ||| bpfJeq ||| bpfK then jump (a == ins.k)
  else if ins.code = bpfJmp ||| bpfJgt ||| bpfK then jump (decide (a > ins.k))
  else if ins.code = bpfJmp ||| bpfJge ||| bpfK then jump (decide (a ≥ ins.k))
  else if ins.code = bpfJmp ||| bpfJset ||| bpfK then jump (a &&& ins.k != 0)
  else if ins.code = bpfRet ||| bpfK then .ret ins.k
  else if ins.code = bpfRet ||| bpfA then .ret a
  else .ret 0

/-- The machine on the rest of a program, from the accumulator `a`. Jumps go
    forward, skipping instructions, so each step consumes at least one and
    the program's length bounds the steps (`fuel`); running off the end,
    which the kernel's checker forbids, drops the packet. -/
def exec (pkt : List UInt8) : Nat → List SockFilter → Nat → Nat
  | 0, _, _ => 0
  | _ + 1, [], _ => 0
  | fuel + 1, ins :: rest, a =>
    match execInsn pkt a ins with
    | .next a' skip => exec pkt fuel (rest.drop skip) a'
    | .ret v => v

/-- The number of bytes of `pkt` the filter `prog` keeps, `0` dropping it. -/
def runFilter (prog : List SockFilter) (pkt : List UInt8) : Nat := exec pkt prog.length prog 0

/-! ## What the programs keep -/

section Insns

variable (pkt : List UInt8) (a k : Nat)

theorem execInsn_ldB : execInsn pkt a (bpfStmt (bpfLd ||| bpfB ||| bpfAbs) k) =
    match loadB pkt k with
    | some v => .next v 0
    | none => .ret 0 := rfl

theorem execInsn_ldH : execInsn pkt a (bpfStmt (bpfLd ||| bpfH ||| bpfAbs) k) =
    match loadH pkt k with
    | some v => .next v 0
    | none => .ret 0 := rfl

theorem execInsn_jeq (jt jf : Nat) :
    execInsn pkt a (bpfJump (bpfJmp ||| bpfJeq ||| bpfK) k jt jf) =
      .next a (if a == k then jt else jf) := rfl

theorem execInsn_retK : execInsn pkt a (bpfStmt (bpfRet ||| bpfK) k) = .ret k := rfl

end Insns

/-- The end of both programs: drop on a match, keep everything otherwise. -/
theorem exec_jeq_ret (pkt : List UInt8) (v k : Nat) :
    exec pkt 3 [bpfJump (bpfJmp ||| bpfJeq ||| bpfK) k 0 1, bpfStmt (bpfRet ||| bpfK) 0,
      bpfStmt (bpfRet ||| bpfK) 0xFFFFFFFF] v = if v = k then 0 else 0xFFFFFFFF := by
  by_cases h : v = k
  · subst h; simp [exec, execInsn_jeq, execInsn_retK]
  · simp [exec, execInsn_jeq, execInsn_retK, h]

/-- `drop_icmp_prog` drops a packet with no byte `9` or whose byte `9` is
    `1`, and keeps every other whole. -/
theorem dropIcmpProg_spec (pkt : List UInt8) :
    runFilter dropIcmpProg pkt =
      match loadB pkt 9 with
      | some v => if v = 1 then 0 else 0xFFFFFFFF
      | none => 0 := by
  rw [runFilter, dropIcmpProg, List.length, exec, execInsn_ldB]
  cases loadB pkt 9 with
  | none => rfl
  | some v => exact exec_jeq_ret pkt v 1

/-- `drop_arp_prog` drops a packet with no bytes `12` and `13` or whose
    half-word there is `0x0806`, and keeps every other whole. -/
theorem dropArpProg_spec (pkt : List UInt8) :
    runFilter dropArpProg pkt =
      match loadH pkt 12 with
      | some v => if v = 0x0806 then 0 else 0xFFFFFFFF
      | none => 0 := by
  rw [runFilter, dropArpProg, List.length, exec, execInsn_ldH]
  cases loadH pkt 12 with
  | none => rfl
  | some v => exact exec_jeq_ret pkt v 0x0806

theorem loadB_of_getElem? {pkt : List UInt8} {k : Nat} {b : UInt8} (h : pkt[k]? = some b) :
    loadB pkt k = some b.toNat := by
  rw [loadB, h, Option.map_some']

theorem loadH_of_getElem? {pkt : List UInt8} {k : Nat} {b₀ b₁ : UInt8} (h₀ : pkt[k]? = some b₀)
    (h₁ : pkt[k + 1]? = some b₁) : loadH pkt k = some (b₀.toNat * 256 + b₁.toNat) := by
  simp only [loadH, loadB_of_getElem? h₀, loadB_of_getElem? h₁]
  rfl

/-! ## Two framings -/

/-- An IPv4 header, `struct iphdr`, its fields in network order. -/
structure Ipv4Header where
  versionIhl : UInt8
  tos : UInt8
  totLen : Fin 2 → UInt8
  id : Fin 2 → UInt8
  fragOff : Fin 2 → UInt8
  ttl : UInt8
  protocol : UInt8
  check : Fin 2 → UInt8
  saddr : Fin 4 → UInt8
  daddr : Fin 4 → UInt8

/-- The bytes of an IPv4 header. -/
def Ipv4Header.bytes (h : Ipv4Header) : List UInt8 :=
  [h.versionIhl, h.tos] ++ List.ofFn h.totLen ++ List.ofFn h.id ++ List.ofFn h.fragOff ++
    [h.ttl, h.protocol] ++ List.ofFn h.check ++ List.ofFn h.saddr ++ List.ofFn h.daddr

/-- An Ethernet header, `struct ethhdr`. -/
structure EthHeader where
  dest : Fin 6 → UInt8
  source : Fin 6 → UInt8
  proto : Fin 2 → UInt8

/-- The bytes of an Ethernet header. -/
def EthHeader.bytes (e : EthHeader) : List UInt8 :=
  List.ofFn e.dest ++ List.ofFn e.source ++ List.ofFn e.proto

theorem Ipv4Header.getElem?_bytes (h : Ipv4Header) (payload : List UInt8) :
    (h.bytes ++ payload)[9]? = some h.protocol ∧ (h.bytes ++ payload)[12]? = some (h.saddr 0) ∧
      (h.bytes ++ payload)[13]? = some (h.saddr 1) := by
  simp [Ipv4Header.bytes, List.ofFn_succ]

theorem EthHeader.getElem?_bytes (e : EthHeader) (payload : List UInt8) :
    (e.bytes ++ payload)[9]? = some (e.source 3) ∧ (e.bytes ++ payload)[12]? = some (e.proto 0) ∧
      (e.bytes ++ payload)[13]? = some (e.proto 1) := by
  simp [EthHeader.bytes, List.ofFn_succ]
  rfl

theorem keep_eq_zero {c : Prop} [Decidable c] : (if c then 0 else 0xFFFFFFFF : Nat) = 0 ↔ c := by
  split_ifs <;> simp [*]

theorem toNat_eq_iff {b c : UInt8} : b.toNat = c.toNat ↔ b = c := ⟨UInt8.toNat.inj, congrArg _⟩

/-- The half-word `0x0806` is the two bytes `8` and `6`. -/
theorem half_eq_0806 (b₀ b₁ : UInt8) :
    b₀.toNat * 256 + b₁.toNat = 0x0806 ↔ b₀ = 8 ∧ b₁ = 6 := by
  have h₀ : b₀.toNat < 256 := b₀.toNat_lt_size
  have h₁ : b₁.toNat < 256 := b₁.toNat_lt_size
  rw [← @toNat_eq_iff b₀ 8, ← @toNat_eq_iff b₁ 6]
  exact ⟨fun h => ⟨by show b₀.toNat = 8; omega, by show b₁.toNat = 6; omega⟩,
    fun ⟨e₀, e₁⟩ => by rw [e₀, e₁]; rfl⟩

/-- The two programs read two framings of a packet. On a packet that starts
    with an IPv4 header, `drop_icmp_prog` drops exactly ICMP, and
    `drop_arp_prog` exactly the packets from a source address in
    `8.6.0.0/16`, whatever their protocol; on a frame that starts with an
    Ethernet header, `drop_arp_prog` drops exactly ARP, and
    `drop_icmp_prog` exactly the frames whose source address has `1` as its
    fourth byte, whatever they carry. -/
theorem filters_read_two_framings :
    (∀ (h : Ipv4Header) (payload : List UInt8),
      (runFilter dropIcmpProg (h.bytes ++ payload) = 0 ↔ h.protocol = 1) ∧
      (runFilter dropArpProg (h.bytes ++ payload) = 0 ↔ h.saddr 0 = 8 ∧ h.saddr 1 = 6)) ∧
    (∀ (e : EthHeader) (payload : List UInt8),
      (runFilter dropArpProg (e.bytes ++ payload) = 0 ↔ e.proto 0 = 8 ∧ e.proto 1 = 6) ∧
      (runFilter dropIcmpProg (e.bytes ++ payload) = 0 ↔ e.source 3 = 1)) := by
  refine ⟨fun h payload => ?_, fun e payload => ?_⟩
  · obtain ⟨h₉, h₁₂, h₁₃⟩ := h.getElem?_bytes payload
    rw [dropIcmpProg_spec, dropArpProg_spec, loadB_of_getElem? h₉, loadH_of_getElem? h₁₂ h₁₃]
    exact ⟨keep_eq_zero.trans (@toNat_eq_iff _ 1), keep_eq_zero.trans (half_eq_0806 _ _)⟩
  · obtain ⟨h₉, h₁₂, h₁₃⟩ := e.getElem?_bytes payload
    rw [dropIcmpProg_spec, dropArpProg_spec, loadB_of_getElem? h₉, loadH_of_getElem? h₁₂ h₁₃]
    exact ⟨keep_eq_zero.trans (half_eq_0806 _ _), keep_eq_zero.trans (@toNat_eq_iff _ 1)⟩

end HevTunnel.EbpfFilter
