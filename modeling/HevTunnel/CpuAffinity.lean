import Mathlib.Data.List.Sort

/-!
# The NUMA topology of `hev-cpu-affinity.c`

`hev_cpu_topology_detect` reads the node of every CPU into `cpu_to_numa`,
then for every node runs two loops over the CPUs with the same test
`cpu_to_numa[cpu] == node`: the first counts them into `numa_cpu_count[node]`,
which sizes the `calloc` of `numa_cpus[node]`; the second stores them there at
`idx++`. The arrays are lists; a store past the end of `numa_cpus[node]` makes
the result `none`.

* `fillLoop_spec`: run on an array with room for what the count loop counted
  past `idx`, the fill loop stores exactly the selected CPUs there, in order,
  and ends with `idx` moved by that count;
* `numa_loops_agree`: for every CPU count, every number of nodes and every
  answer of `numa_node_of_cpu` (`-1` included), the detection never stores
  past an array; `numa_cpus[node]` is the ascending list of the CPUs of
  `node`, as long as `numa_cpu_count[node]` says, and the lists of the nodes
  are pairwise disjoint and cover exactly the CPUs whose node is a valid one.
-/

namespace HevTunnel.CpuAffinity

/-- `HevCpuTopology`; `numa_cpus` and `numa_cpu_count` are indexed by node. -/
structure HevCpuTopology where
  numCpus : Nat
  numNumaNodes : Nat
  cpuToNuma : List Int
  numaCpus : List (List Int)
  numaCpuCount : List Nat

/-- The count loop over `cpu_to_numa[cpu..]`:
    `if (topo->cpu_to_numa[cpu] == node) count++;`. -/
def countLoop (node : Int) : List Int → Nat → Nat
  | [], count => count
  | c :: rest, count => countLoop node rest (if c = node then count + 1 else count)

/-- The fill loop over `cpu_to_numa[cpu..]` into the array `arr`:
    `if (topo->cpu_to_numa[cpu] == node) topo->numa_cpus[node][idx++] = cpu;`.
    `none` on a store past the end of `arr`. -/
def fillLoop (node : Int) : List Int → Nat → List Int → Nat → Option (List Int × Nat)
  | [], _, arr, idx => some (arr, idx)
  | c :: rest, cpu, arr, idx =>
    if c = node then
      if idx < arr.length then fillLoop node rest (cpu + 1) (arr.set idx cpu) (idx + 1) else none
    else fillLoop node rest (cpu + 1) arr idx

/-- The body of the node loop: count, `calloc (count, sizeof (int))`, fill. -/
def nodeCpus (cpuToNuma : List Int) (node : Nat) : Option (Nat × List Int) :=
  let count := countLoop node cpuToNuma 0
  (fillLoop node cpuToNuma 0 (List.replicate count 0) 0).map fun r => (count, r.1)

/-- `hev_cpu_topology_detect` on Linux, with `num_cpus` CPUs, `numa_available`
    saying whether the NUMA library works, `numa_max_node ()` and the answers
    of `numa_node_of_cpu`. -/
def hevCpuTopologyDetect (numCpus : Nat) (numaAvailable : Bool) (numaMaxNode : Nat)
    (numaNodeOfCpu : Nat → Int) : Option HevCpuTopology :=
  if numaAvailable then
    let cpuToNuma := (List.range numCpus).map numaNodeOfCpu
    ((List.range (numaMaxNode + 1)).mapM (nodeCpus cpuToNuma)).map fun nodes =>
      { numCpus, numNumaNodes := numaMaxNode + 1, cpuToNuma,
        numaCpus := nodes.map (·.2), numaCpuCount := nodes.map (·.1) }
  else some { numCpus, numNumaNodes := 1, cpuToNuma := [], numaCpus := [], numaCpuCount := [] }

/-! ## The two loops -/

/-- The CPUs from `cpu` on whose entry of `cpu_to_numa[cpu..]` is `node`, in
    order: what both loops select. -/
def selected (node : Int) : List Int → Nat → List Nat
  | [], _ => []
  | c :: rest, cpu => if c = node then cpu :: selected node rest (cpu + 1) else selected node rest (cpu + 1)

theorem countLoop_eq (node : Int) (l : List Int) (count cpu : Nat) :
    countLoop node l count = count + (selected node l cpu).length := by
  induction l generalizing count cpu with
  | nil => rfl
  | cons c rest ih =>
    by_cases h : c = node
    · simp only [countLoop, selected, if_pos h, ih _ (cpu + 1), List.length_cons]; omega
    · simp only [countLoop, selected, if_neg h, ih _ (cpu + 1)]

/-- The fill loop from `idx`, the array holding `pre` before `idx` and `zs`
    from it, `zs` as long as the CPUs still to store: it stores them, in
    order, and stops at `idx` plus their number. -/
theorem fillLoop_spec (node : Int) (l : List Int) (cpu : Nat) (pre zs : List Int)
    (hzs : zs.length = (selected node l cpu).length) :
    fillLoop node l cpu (pre ++ zs) pre.length =
      some (pre ++ (selected node l cpu).map Int.ofNat, pre.length + zs.length) := by
  induction l generalizing cpu pre zs with
  | nil =>
    obtain rfl : zs = [] := List.eq_nil_of_length_eq_zero hzs
    simp [fillLoop, selected]
  | cons c rest ih =>
    by_cases h : c = node
    · -- a CPU of `node`: stored at `idx`, the rest from `idx + 1`
      simp only [selected, if_pos h, List.length_cons] at hzs
      obtain ⟨z, zs, rfl⟩ := List.exists_cons_of_length_eq_add_one hzs
      have hlt : pre.length < (pre ++ z :: zs).length := by simp
      rw [fillLoop, if_pos h, if_pos hlt, List.set_append_right _ _ le_rfl, Nat.sub_self,
        List.set_cons_zero, ← List.singleton_append, ← List.append_assoc,
        show pre.length + 1 = (pre ++ [(cpu : Int)]).length by simp,
        ih _ _ _ (by simpa using hzs)]
      simp [selected, h, Nat.add_assoc, Nat.add_comm 1]
    · rw [fillLoop, if_neg h, ih _ _ _ (by simpa [selected, h] using hzs)]
      simp [selected, h]

/-- Over `cpu_to_numa[cpu..]` filled in by `numa_node_of_cpu`, the selected
    CPUs are those with that answer. -/
theorem selected_map (f : Nat → Int) (node : Int) (cpu n : Nat) :
    selected node ((List.range' cpu n).map f) cpu = (List.range' cpu n).filter (f · = node) := by
  induction n generalizing cpu with
  | zero => rfl
  | succ n ih =>
    by_cases h : f cpu = node
    · simp [List.range'_succ, selected, h, ih]
    · simp [List.range'_succ, selected, h, ih]

theorem selected_range (f : Nat → Int) (node : Int) (n : Nat) :
    selected node ((List.range n).map f) 0 = (List.range n).filter (f · = node) := by
  rw [List.range_eq_range', selected_map]

/-- The node loop's body for `node` stores the CPUs of `node`, as many as it
    counted. -/
theorem nodeCpus_eq (f : Nat → Int) (n node : Nat) :
    nodeCpus ((List.range n).map f) node =
      some (((List.range n).filter (f · = node)).length,
        ((List.range n).filter (f · = node)).map Int.ofNat) := by
  have hfill := fillLoop_spec node ((List.range n).map f) 0 []
    (List.replicate (countLoop node ((List.range n).map f) 0) 0)
    (by rw [List.length_replicate, countLoop_eq _ _ 0 0, Nat.zero_add])
  rw [List.nil_append, List.length_nil] at hfill
  rw [nodeCpus, hfill, countLoop_eq _ _ 0 0, Nat.zero_add, selected_range]
  rfl

theorem mapM_some {α β : Type} (f : α → Option β) (g : α → β) (hf : ∀ a, f a = some (g a))
    (l : List α) : l.mapM f = some (l.map g) := by
  induction l with
  | nil => rfl
  | cons a l ih => rw [List.mapM_cons, hf, ih]; rfl

/-! ## The topology -/

/-- The count loop and the fill loop agree: for every number `n` of CPUs,
    every `numa_max_node ()` and every answer of `numa_node_of_cpu` (`-1`
    included), `hev_cpu_topology_detect` stores nothing past an array, and
    for every node `numa_cpus[node]` is the strictly ascending list of the
    CPUs of `node`, `numa_cpu_count[node]` entries long; the lists of two
    nodes are disjoint, and together they hold exactly the CPUs whose node
    lies in `[0, numa_max_node ()]`. -/
theorem numa_loops_agree (n numaMaxNode : Nat) (numaNodeOfCpu : Nat → Int) :
    ∃ topo, hevCpuTopologyDetect n true numaMaxNode numaNodeOfCpu = some topo ∧
      topo.numNumaNodes = numaMaxNode + 1 ∧
      topo.numaCpus.length = numaMaxNode + 1 ∧ topo.numaCpuCount.length = numaMaxNode + 1 ∧
      (∀ node < numaMaxNode + 1, ∃ cpus,
        topo.numaCpus[node]? = some cpus ∧ topo.numaCpuCount[node]? = some cpus.length ∧
        fillLoop node topo.cpuToNuma 0 (List.replicate cpus.length 0) 0 = some (cpus, cpus.length) ∧
        cpus = ((List.range n).filter (numaNodeOfCpu · = node)).map Int.ofNat ∧
        cpus.Sorted (· < ·)) ∧
      (∀ (node₁ node₂ : Nat) (cpus₁ cpus₂ : List Int) (c : Int), topo.numaCpus[node₁]? = some cpus₁ →
        topo.numaCpus[node₂]? = some cpus₂ → c ∈ cpus₁ → c ∈ cpus₂ → node₁ = node₂) ∧
      ∀ c : Int, (∃ cpus ∈ topo.numaCpus, c ∈ cpus) ↔
        ∃ cpu < n, c = cpu ∧ 0 ≤ numaNodeOfCpu cpu ∧ numaNodeOfCpu cpu ≤ numaMaxNode := by
  set cpusOf := fun node : Nat => ((List.range n).filter (numaNodeOfCpu · = node)).map Int.ofNat
  have hmem (node : Nat) (c : Int) :
      c ∈ cpusOf node ↔ ∃ cpu < n, c = cpu ∧ numaNodeOfCpu cpu = node := by
    simp only [cpusOf, List.mem_map, List.mem_filter, List.mem_range, decide_eq_true_eq]
    constructor
    · rintro ⟨cpu, ⟨hc, hf⟩, rfl⟩; exact ⟨cpu, hc, rfl, hf⟩
    · rintro ⟨cpu, hc, rfl, hf⟩; exact ⟨cpu, ⟨hc, hf⟩, rfl⟩
  have hget (node : Nat) (cpus : List Int)
      (h : ((List.range (numaMaxNode + 1)).map cpusOf)[node]? = some cpus) : cpus = cpusOf node := by
    rw [List.getElem?_map] at h
    by_cases hn : node < numaMaxNode + 1
    · rw [List.getElem?_range hn] at h; exact (Option.some.inj h).symm
    · rw [List.getElem?_eq_none (by simpa using hn)] at h; cases h
  have hnodes := mapM_some (nodeCpus ((List.range n).map numaNodeOfCpu))
    (fun node => ((cpusOf node).length, cpusOf node))
    (fun node => by rw [nodeCpus_eq]; simp only [cpusOf, List.length_map])
    (List.range (numaMaxNode + 1))
  refine ⟨⟨n, numaMaxNode + 1, (List.range n).map numaNodeOfCpu,
    (List.range (numaMaxNode + 1)).map cpusOf,
    (List.range (numaMaxNode + 1)).map fun node => (cpusOf node).length⟩, ?_, rfl, by simp, by simp,
    fun node hnode => ?_, ?_, fun c => ?_⟩
  · rw [hevCpuTopologyDetect, if_pos rfl]
    dsimp only
    rw [hnodes]
    simp only [List.map_map, Function.comp_def, Option.map_some']
  · -- one node: its CPUs, their count, the fill loop's run, in ascending order
    have hfill := fillLoop_spec node ((List.range n).map numaNodeOfCpu) 0 [] (List.replicate (cpusOf node).length 0)
      (by rw [selected_range]; simp [cpusOf])
    rw [List.nil_append, List.nil_append, List.length_nil, Nat.zero_add, selected_range,
      List.length_replicate] at hfill
    refine ⟨cpusOf node, by simp [List.getElem?_range hnode], by simp [List.getElem?_range hnode],
      hfill, rfl, ?_⟩
    exact ((List.pairwise_lt_range n).sublist (List.filter_sublist _)).map _
      fun _ _ h => Int.ofNat_lt.2 h
  · -- two nodes sharing a CPU are one
    intro node₁ node₂ cpus₁ cpus₂ c h₁ h₂ hc₁ hc₂
    rw [hget _ _ h₁] at hc₁
    rw [hget _ _ h₂] at hc₂
    obtain ⟨cpu₁, -, rfl, hf₁⟩ := (hmem _ _).1 hc₁
    obtain ⟨cpu₂, -, he, hf₂⟩ := (hmem _ _).1 hc₂
    rw [Int.ofNat_inj.1 he] at hf₁
    exact Int.ofNat_inj.1 (hf₁.symm.trans hf₂)
  · -- the union: the CPUs of a valid node
    simp only [List.mem_map, List.mem_range]
    constructor
    · rintro ⟨_, ⟨node, hnode, rfl⟩, hc⟩
      obtain ⟨cpu, hcpu, rfl, hf⟩ := (hmem _ _).1 hc
      exact ⟨cpu, hcpu, rfl, by omega, by omega⟩
    · rintro ⟨cpu, hcpu, rfl, h₀, hk⟩
      refine ⟨_, ⟨(numaNodeOfCpu cpu).toNat, by omega, rfl⟩, (hmem _ _).2 ⟨cpu, hcpu, rfl, ?_⟩⟩
      omega

/-- Four CPUs, two nodes, the last CPU on no node. -/
example : (hevCpuTopologyDetect 4 true 1 fun c => [0, 1, 0, -1].getD c (-1)).map
    (fun t => (t.numaCpus, t.numaCpuCount)) = some ([[0, 2], [1]], [2, 1]) := by
  decide

end HevTunnel.CpuAffinity
