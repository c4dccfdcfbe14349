import HevTunnel.System
import Mathlib.Data.List.Basic
import Mathlib.Data.List.Nodup

/-!
# The session registry

`hev-socks5-tunnel.c` keeps the sessions it has started in a doubly-linked
list (`session_list_head`, `session_list_tail`, `session_count`) under
`session_mutex`: `insert_session` links a `malloc`ed node at the tail,
`remove_session` unlinks the first node holding a session, and
`hev_socks5_tunnel_fini` frees the whole list. Every call runs under the
mutex, so a run is a sequence of these calls.

A heap maps addresses to nodes (`NULL` is `0`). `DSeg h p q prv ps` says that
following `next` from `p` visits the nodes `ps` and reaches `q`, each node's
`prev` being the node before it (`prv` for the first).

The abstract registry is the list of sessions whose `insert_session`
succeeded and which no `remove_session` has removed since, oldest first
(`State.sessions`). Proved of every run (`registry_refines`): the heap holds
a well-formed doubly-linked list whose sessions, in order, are the abstract
list, and `session_count` is its length.
-/

namespace HevTunnel.SessionList

/-- `SessionNode`. -/
structure SessionNode where
  session : Nat
  next : Nat
  prev : Nat
  deriving DecidableEq

/-- The registry: the list's ends, `session_count`, and the heap of nodes. -/
structure Registry where
  head : Nat
  tail : Nat
  count : Int
  nodes : Nat → Option SessionNode

/-- `p->next = a`. -/
def setNext (nodes : Nat → Option SessionNode) (p a : Nat) : Nat → Option SessionNode :=
  Function.update nodes p ((nodes p).map fun n => { n with next := a })

/-- `p->prev = a`. -/
def setPrev (nodes : Nat → Option SessionNode) (p a : Nat) : Nat → Option SessionNode :=
  Function.update nodes p ((nodes p).map fun n => { n with prev := a })

section Links

variable {nodes : Nat → Option SessionNode} {p a x : Nat}

theorem setNext_of_ne (hx : x ≠ p) : setNext nodes p a x = nodes x :=
  Function.update_noteq hx _ _

theorem setNext_self : setNext nodes p a p = (nodes p).map fun n => { n with next := a } :=
  Function.update_same _ _ _

theorem setPrev_of_ne (hx : x ≠ p) : setPrev nodes p a x = nodes x :=
  Function.update_noteq hx _ _

theorem setPrev_self : setPrev nodes p a p = (nodes p).map fun n => { n with prev := a } :=
  Function.update_same _ _ _

theorem setNext_session :
    (setNext nodes p a x).map SessionNode.session = (nodes x).map SessionNode.session := by
  by_cases hx : x = p
  · subst hx; rw [setNext_self, Option.map_map]; cases nodes x <;> rfl
  · rw [setNext_of_ne hx]

theorem setPrev_session :
    (setPrev nodes p a x).map SessionNode.session = (nodes x).map SessionNode.session := by
  by_cases hx : x = p
  · subst hx; rw [setPrev_self, Option.map_map]; cases nodes x <;> rfl
  · rw [setPrev_of_ne hx]

end Links

/-- `insert_session (session)`, `node` being what `malloc` returned (`0` for
    `NULL`): link a node at the tail and count it. -/
def insertSession (r : Registry) (session node : Nat) : Registry :=
  if node = 0 then r
  else
    let nodes := Function.update r.nodes node (some ⟨session, 0, r.tail⟩)
    if r.tail ≠ 0 then
      { r with nodes := setNext nodes r.tail node, tail := node, count := r.count + 1 }
    else { r with nodes := nodes, head := node, tail := node, count := r.count + 1 }

/-- The search loop of `remove_session`: the first node from `node` holding
    `session`, `some none` when the list ends; `fuel` bounds its turns. -/
def findSession (nodes : Nat → Option SessionNode) (session : Nat) :
    (node fuel : Nat) → Option (Option Nat)
  | _, 0 => none
  | node, fuel + 1 =>
    if node = 0 then some none
    else match nodes node with
      | none => none
      | some n => if n.session = session then some (some node)
        else findSession nodes session n.next fuel

/-- The unlinking of `node`, holding `n`, in `remove_session`. -/
def unlinkNode (r : Registry) (node : Nat) (n : SessionNode) : Registry :=
  let r := if n.prev ≠ 0 then { r with nodes := setNext r.nodes n.prev n.next }
    else { r with head := n.next }
  let r := if n.next ≠ 0 then { r with nodes := setPrev r.nodes n.next n.prev }
    else { r with tail := n.prev }
  { r with nodes := Function.update r.nodes node none, count := r.count - 1 }

/-- `remove_session (session)`, its loop run with `fuel` turns. -/
def removeSession (r : Registry) (session fuel : Nat) : Option Registry :=
  match findSession r.nodes session r.head fuel with
  | none => none
  | some none => some r
  | some (some node) => (r.nodes node).map (unlinkNode r node)

/-- The clean-up of `hev_socks5_tunnel_fini`: free every node, then clear
    the tail and the count; `fuel` bounds its turns. -/
def clearSessions (r : Registry) : (fuel : Nat) → Option Registry
  | 0 => none
  | fuel + 1 =>
    if r.head = 0 then some { r with tail := 0, count := 0 }
    else match r.nodes r.head with
      | none => none
      | some n => clearSessions { r with head := n.next,
                                         nodes := Function.update r.nodes r.head none } fuel

/-! ## Doubly-linked segments -/

/-- `DSeg h p q prv ps`: following `next` from `p` visits the nodes `ps` and
    reaches `q`, the `prev` of each node being the node before it, and `prv`
    for the first. -/
inductive DSeg (h : Nat → Option SessionNode) : Nat → Nat → Nat → List Nat → Prop
  | nil (p prv : Nat) : DSeg h p p prv []
  | cons {p q prv : Nat} {n : SessionNode} {ps : List Nat} :
      p ≠ 0 → h p = some n → n.prev = prv → DSeg h n.next q p ps → DSeg h p q prv (p :: ps)

variable {h h' : Nat → Option SessionNode} {p q r prv : Nat} {ps qs : List Nat}

theorem dseg_nil : DSeg h p q prv [] ↔ p = q :=
  ⟨fun | .nil _ _ => rfl, fun e => e ▸ .nil _ _⟩

theorem dseg_singleton :
    DSeg h p q prv [p] ↔ p ≠ 0 ∧ ∃ n, h p = some n ∧ n.prev = prv ∧ n.next = q := by
  constructor
  · rintro (_ | ⟨hp, hn, hprev, (_ | _)⟩)
    exact ⟨hp, _, hn, hprev, rfl⟩
  · rintro ⟨hp, n, hn, hprev, rfl⟩
    exact .cons hp hn hprev (.nil _ _)

/-- The nodes of a segment are allocated, and none is `NULL`. -/
theorem DSeg.mem (hs : DSeg h p q prv ps) : ∀ x ∈ ps, x ≠ 0 ∧ h x ≠ none := by
  induction hs with
  | nil => simp
  | cons hp hn _ _ ih =>
    rintro x (_ | ⟨_, hx⟩)
    · exact ⟨hp, by simp [hn]⟩
    · exact ih x hx

/-- A segment reads only its own nodes. -/
theorem DSeg.frame (hs : DSeg h p q prv ps) (hh : ∀ x ∈ ps, h' x = h x) : DSeg h' p q prv ps := by
  induction hs with
  | nil => exact .nil _ _
  | cons hp hn hprev _ ih =>
    exact .cons hp ((hh _ (.head _)).trans hn) hprev (ih fun x hx => hh x (.tail _ hx))

theorem DSeg.append (h₁ : DSeg h p q prv ps) (h₂ : DSeg h q r (ps.getLastD prv) qs) :
    DSeg h p r prv (ps ++ qs) := by
  induction h₁ with
  | nil => exact h₂
  | cons hp hn hprev _ ih =>
    rw [List.getLastD_cons] at h₂
    exact .cons hp hn hprev (ih h₂)

theorem DSeg.of_append (hs : DSeg h p r prv (ps ++ qs)) :
    ∃ q, DSeg h p q prv ps ∧ DSeg h q r (ps.getLastD prv) qs := by
  induction ps generalizing p prv with
  | nil => exact ⟨p, .nil _ _, hs⟩
  | cons x ps ih =>
    obtain _ | ⟨hp, hn, hprev, hs⟩ := hs
    obtain ⟨q, h₁, h₂⟩ := ih hs
    exact ⟨q, .cons hp hn hprev h₁, by rw [List.getLastD_cons]; exact h₂⟩

/-- A segment to `NULL` is empty exactly when it starts at `NULL`. -/
theorem DSeg.eq_nil_iff (hs : DSeg h p 0 prv ps) : ps = [] ↔ p = 0 := by
  cases hs with
  | nil => simp
  | cons hp => simp [hp]

/-- A segment's first node is where it starts. -/
theorem DSeg.head_eq {x : Nat} (hs : DSeg h p q prv (x :: ps)) : x = p := by
  cases hs; rfl

theorem DSeg.cons_inv {x : Nat} (hs : DSeg h p q prv (x :: ps)) :
    x = p ∧ x ≠ 0 ∧ ∃ n, h x = some n ∧ n.prev = prv ∧ DSeg h n.next q x ps := by
  cases hs with
  | cons hp hn hprev hs => exact ⟨rfl, hp, _, hn, hprev, hs⟩

/-- Changing the `prev` of a segment's first node. -/
theorem DSeg.set_first_prev {prv' : Nat} (hs : DSeg h p q prv (p :: ps))
    (hp : h' p = (h p).map fun n => { n with prev := prv' }) (hh : ∀ x ∈ ps, h' x = h x) :
    DSeg h' p q prv' (p :: ps) := by
  obtain _ | ⟨hp0, hn, -, hs⟩ := hs
  rw [hn] at hp
  exact .cons hp0 hp rfl (hs.frame hh)

/-- Changing the `next` of a segment's last node. -/
theorem DSeg.set_last_next {l q' : Nat} (hs : DSeg h p q prv (ps ++ [l]))
    (hl : h' l = (h l).map fun n => { n with next := q' }) (hh : ∀ x ∈ ps, h' x = h x) :
    DSeg h' p q' prv (ps ++ [l]) := by
  obtain ⟨m, h₁, _ | @⟨_, _, _, n, _, hl0, hn, hprev, (_ | _)⟩⟩ := hs.of_append
  rw [hn] at hl
  exact (h₁.frame hh).append (.cons hl0 hl hprev (.nil _ _))

/-- A doubly-linked list: from `head`, the nodes `ps` up to `NULL`, the first
    one's `prev` being `NULL`, `tail` the last node (`NULL` for an empty
    list), and no node twice. -/
structure IsDList (h : Nat → Option SessionNode) (head tail : Nat) (ps : List Nat) : Prop where
  seg : DSeg h head 0 0 ps
  tail_eq : tail = ps.getLastD 0
  nodup : ps.Nodup

theorem IsDList.head_eq_zero {head tail : Nat} (hd : IsDList h head tail ps) :
    head = 0 ↔ ps = [] := by
  obtain ⟨_ | ⟨hp, _, _, _⟩, _, _⟩ := hd
  · simp
  · simp [hp]

theorem IsDList.tail_eq_zero {head tail : Nat} (hd : IsDList h head tail ps) :
    tail = 0 ↔ ps = [] := by
  rw [hd.tail_eq]
  rcases List.eq_nil_or_concat' ps with rfl | ⟨L, b, rfl⟩
  · simp
  · simp [List.getLastD_concat, (hd.seg.mem b (by simp)).1]

/-- The sessions of the nodes `ps`, in order. -/
def sessionsOf (h : Nat → Option SessionNode) (ps : List Nat) : List Nat :=
  ps.filterMap fun x => (h x).map SessionNode.session

theorem sessionsOf_congr (hh : ∀ x ∈ ps, (h' x).map SessionNode.session =
    (h x).map SessionNode.session) : sessionsOf h' ps = sessionsOf h ps :=
  List.filterMap_congr hh

theorem sessionsOf_append : sessionsOf h (ps ++ qs) = sessionsOf h ps ++ sessionsOf h qs :=
  List.filterMap_append _ _ _

theorem sessionsOf_cons {x : Nat} {n : SessionNode} (hx : h x = some n) :
    sessionsOf h (x :: ps) = n.session :: sessionsOf h ps := by
  simp [sessionsOf, hx]

theorem sessionsOf_singleton {x : Nat} {n : SessionNode} (hx : h x = some n) :
    sessionsOf h [x] = [n.session] :=
  sessionsOf_cons hx

/-! ## The calls on the list -/

section Calls

variable {reg : Registry} {session node : Nat}

/-- `insert_session` links a fresh node at the tail. -/
theorem insertSession_spec (hd : IsDList reg.nodes reg.head reg.tail ps) (ha : node ≠ 0)
    (hfresh : reg.nodes node = none) :
    IsDList (insertSession reg session node).nodes (insertSession reg session node).head
      (insertSession reg session node).tail (ps ++ [node]) ∧
    (insertSession reg session node).count = reg.count + 1 ∧
    sessionsOf (insertSession reg session node).nodes (ps ++ [node]) =
      sessionsOf reg.nodes ps ++ [session] := by
  have hnot : ∀ y ∈ ps, y ≠ node := fun y hy e => (hd.seg.mem y hy).2 (e ▸ hfresh)
  have hnd : (ps ++ [node]).Nodup := List.nodup_append.2
    ⟨hd.nodup, List.nodup_singleton _, List.disjoint_singleton.2 fun h => hnot _ h rfl⟩
  have hsess : ∀ h' : Nat → Option SessionNode,
      (∀ y ∈ ps, h' y = Function.update reg.nodes node (some ⟨session, 0, reg.tail⟩) y ∨
        (h' y).map SessionNode.session = (reg.nodes y).map SessionNode.session) →
      h' node = some ⟨session, 0, reg.tail⟩ →
      sessionsOf h' (ps ++ [node]) = sessionsOf reg.nodes ps ++ [session] := by
    intro h' hh hn
    have hc : sessionsOf h' ps = sessionsOf reg.nodes ps := sessionsOf_congr fun y hy => by
      rcases hh y hy with e | e
      · rw [e, Function.update_noteq (hnot y hy)]
      · exact e
    rw [sessionsOf_append, sessionsOf_singleton hn, hc]
  unfold insertSession
  rw [if_neg ha]
  split_ifs with ht
  · obtain ⟨L, t, rfl⟩ := (List.eq_nil_or_concat' ps).resolve_left (mt hd.tail_eq_zero.2 ht)
    have htl : reg.tail = t := by simpa [List.getLastD_concat] using hd.tail_eq
    subst htl
    have htn : reg.tail ≠ node := hnot _ (by simp)
    have hseg : DSeg (setNext (Function.update reg.nodes node (some ⟨session, 0, reg.tail⟩))
        reg.tail node) reg.head node 0 (L ++ [reg.tail]) :=
      hd.seg.set_last_next (by rw [setNext_self, Function.update_noteq htn])
        fun y hy => by
          rw [setNext_of_ne fun e => (List.nodup_append.1 hd.nodup).2.2 hy (by simp [e]),
            Function.update_noteq (hnot y (by simp [hy]))]
    have hnew : setNext (Function.update reg.nodes node (some ⟨session, 0, reg.tail⟩)) reg.tail
        node node = some ⟨session, 0, reg.tail⟩ := by
      rw [setNext_of_ne htn.symm, Function.update_same]
    refine ⟨⟨hseg.append ?_, by simp [List.getLastD_concat], hnd⟩, rfl, ?_⟩
    · rw [List.getLastD_concat]
      exact dseg_singleton.2 ⟨ha, _, hnew, rfl, rfl⟩
    · exact hsess _ (fun y _ => .inr (by
        rw [setNext_session, Function.update_noteq (hnot y (by assumption))])) hnew
  · rw [not_not] at ht
    obtain rfl := hd.tail_eq_zero.1 ht
    exact ⟨⟨dseg_singleton.2 ⟨ha, _, Function.update_same _ _ _, ht, rfl⟩, rfl, hnd⟩, rfl,
      hsess _ (fun _ _ => .inl rfl) (Function.update_same _ _ _)⟩

/-- The search of `remove_session` finds the first node holding the session,
    or none when no node holds it. -/
theorem findSession_spec {p prv fuel : Nat} {res : Option Nat} (hs : DSeg reg.nodes p 0 prv ps)
    (hf : findSession reg.nodes session p fuel = some res) :
    (res = none ∧ session ∉ sessionsOf reg.nodes ps) ∨
    ∃ x L R, res = some x ∧ ps = L ++ x :: R ∧ session ∉ sessionsOf reg.nodes L ∧
      (reg.nodes x).map SessionNode.session = some session := by
  induction fuel generalizing p prv ps with
  | zero => cases hf
  | succ fuel ih =>
    unfold findSession at hf
    obtain _ | @⟨_, _, _, n, ps, hp, hn, -, hs⟩ := hs
    · simp only [if_true] at hf; cases hf; simp [sessionsOf]
    rw [if_neg hp, hn] at hf
    dsimp only at hf
    split_ifs at hf with he
    · cases hf; exact .inr ⟨p, [], ps, rfl, rfl, by simp [sessionsOf], by simp [hn, he]⟩
    rcases ih hs hf with ⟨rfl, hnot⟩ | ⟨x, L, R, rfl, rfl, hnot, hx⟩
    · refine .inl ⟨rfl, ?_⟩
      simp only [sessionsOf, List.filterMap_cons, hn, Option.map_some'] at hnot ⊢
      exact List.not_mem_cons_of_ne_of_not_mem (Ne.symm he) hnot
    · refine .inr ⟨x, p :: L, R, rfl, rfl, ?_, hx⟩
      simp only [sessionsOf, List.filterMap_cons, hn, Option.map_some'] at hnot ⊢
      exact List.not_mem_cons_of_ne_of_not_mem (Ne.symm he) hnot

/-- The heap after `remove_session` unlinks `x`, holding `n`: its neighbours
    linked to each other, `x` freed. -/
def unlinked (h : Nat → Option SessionNode) (x : Nat) (n : SessionNode) :
    Nat → Option SessionNode :=
  let h := if n.prev ≠ 0 then setNext h n.prev n.next else h
  let h := if n.next ≠ 0 then setPrev h n.next n.prev else h
  Function.update h x none

theorem unlinkNode_eq (x : Nat) (n : SessionNode) :
    unlinkNode reg x n = ⟨if n.prev ≠ 0 then reg.head else n.next,
      if n.next ≠ 0 then reg.tail else n.prev, reg.count - 1, unlinked reg.nodes x n⟩ := by
  unfold unlinkNode unlinked
  split_ifs <;> rfl

section Unlinked

variable {x : Nat} {n : SessionNode}

theorem unlinked_of_ne {y : Nat} (hx : y ≠ x) (ha : y ≠ n.prev) (hb : y ≠ n.next) :
    unlinked h x n y = h y := by
  unfold unlinked
  split_ifs <;> simp [Function.update_noteq hx, setNext_of_ne, setPrev_of_ne, ha, hb]

theorem unlinked_prev (ha : n.prev ≠ 0) (hx : n.prev ≠ x) (hb : n.prev ≠ n.next) :
    unlinked h x n n.prev = (h n.prev).map fun m => { m with next := n.next } := by
  unfold unlinked
  split_ifs <;> simp [Function.update_noteq hx, setNext_self, setPrev_of_ne hb]

theorem unlinked_next (hb : n.next ≠ 0) (hx : n.next ≠ x) (hab : n.next ≠ n.prev) :
    unlinked h x n n.next = (h n.next).map fun m => { m with prev := n.prev } := by
  unfold unlinked
  split_ifs <;> simp [Function.update_noteq hx, setPrev_self, setNext_of_ne hab]

theorem unlinked_session {y : Nat} (hx : y ≠ x) :
    (unlinked h x n y).map SessionNode.session = (h y).map SessionNode.session := by
  unfold unlinked
  split_ifs <;> simp only [Function.update_noteq hx, setNext_session, setPrev_session]

end Unlinked

/-- `remove_session` unlinks a node of the list, wherever it stands. -/
theorem unlinkNode_spec {x : Nat} {n : SessionNode} {L R : List Nat}
    (hd : IsDList reg.nodes reg.head reg.tail (L ++ x :: R)) (hn : reg.nodes x = some n) :
    IsDList (unlinkNode reg x n).nodes (unlinkNode reg x n).head (unlinkNode reg x n).tail
      (L ++ R) ∧
    (unlinkNode reg x n).count = reg.count - 1 ∧
    sessionsOf (unlinkNode reg x n).nodes (L ++ R) = sessionsOf reg.nodes (L ++ R) := by
  obtain ⟨hseg, htail, hnd⟩ := hd
  obtain ⟨m, hL, _ | @⟨_, _, _, n', _, -, hn', hprev, hR⟩⟩ := hseg.of_append
  rw [hn] at hn'
  cases hn'
  rw [unlinkNode_eq]
  have hnd' := List.nodup_append.1 hnd
  have hxL : x ∉ L := fun hx => hnd'.2.2 hx (.head _)
  have hxR : x ∉ R := (List.nodup_cons.1 hnd'.2.1).1
  have hLR : ∀ y ∈ L, y ∉ R := fun y hy hyR => hnd'.2.2 hy (.tail _ hyR)
  -- the neighbours of `x`: the last node of `L` and the first of `R`
  have hprevL : n.prev ≠ 0 → n.prev ∈ L := fun ha => by
    rcases List.eq_nil_or_concat' L with rfl | ⟨L', l, rfl⟩
    · exact absurd hprev ha
    · simp [hprev, List.getLastD_concat]
  have hnextR : n.next ≠ 0 → n.next ∈ R := fun hb => by
    obtain ⟨r, R', rfl⟩ := List.exists_cons_of_ne_nil (mt hR.eq_nil_iff.1 hb)
    exact hR.head_eq ▸ .head _
  have hab : n.prev ≠ 0 → n.prev ≠ n.next := fun ha e => by
    have hb := hnextR (e ▸ ha)
    rw [← e] at hb
    exact hLR _ (hprevL ha) hb
  -- the part before `x`, its last node now pointing past `x`
  have hleft : DSeg (unlinked reg.nodes x n) (if n.prev ≠ 0 then reg.head else n.next)
      n.next 0 L := by
    rcases List.eq_nil_or_concat' L with rfl | ⟨L', l, rfl⟩
    · have h0 : n.prev = 0 := hprev
      rw [if_neg (not_not.2 h0)]; exact .nil _ _
    have hl : n.prev = l := by simpa [List.getLastD_concat] using hprev
    subst hl
    have hl0 : n.prev ≠ 0 := (hL.mem _ (by simp)).1
    rw [if_pos hl0]
    refine hL.set_last_next (unlinked_prev hl0 (fun e => hxL (by simp [e])) (hab hl0))
      fun y hy => unlinked_of_ne (fun e => hxL (by simp [← e, hy])) (fun e => ?_) fun e => ?_
    · exact (List.nodup_append.1 hnd'.1).2.2 hy (by simp [e])
    · exact hLR y (by simp [hy]) (e ▸ hnextR (e ▸ (hL.mem y (by simp [hy])).1))
  -- the part after `x`, its first node now pointing back past `x`
  have hright : DSeg (unlinked reg.nodes x n) n.next 0 (L.getLastD 0) R := by
    rcases R with _ | ⟨r, R'⟩
    · exact dseg_nil.2 (hR.eq_nil_iff.1 rfl)
    obtain rfl := hR.head_eq
    have hb : n.next ≠ 0 := (hR.mem _ (.head _)).1
    rw [← hprev]
    refine hR.set_first_prev (unlinked_next hb (fun e => hxR (by simp [e]))
      fun e => hab (e ▸ hb) e.symm) fun y hy => unlinked_of_ne (fun e => hxR (by simp [← e, hy]))
        (fun e => ?_) fun e => ?_
    · exact hLR _ (hprevL (e ▸ (hR.mem y (.tail _ hy)).1)) (by simp [← e, hy])
    · exact (List.nodup_cons.1 (List.nodup_cons.1 hnd'.2.1).2).1 (e ▸ hy)
  refine ⟨⟨hleft.append hright, ?_, hnd.sublist ((List.sublist_cons_self x R).append_left L)⟩,
    rfl, sessionsOf_congr fun y hy => unlinked_session fun e => ?_⟩
  · show (if n.next ≠ 0 then reg.tail else n.prev) = _
    split_ifs with hb
    · obtain ⟨r, R', rfl⟩ := List.exists_cons_of_ne_nil (mt hR.eq_nil_iff.1 hb)
      simp only [htail, List.getLastD_eq_getLast?, List.getLast?_append, List.getLast?_cons_cons]
    · rw [hR.eq_nil_iff.2 (not_not.1 hb), hprev, List.append_nil]
  · rcases List.mem_append.1 hy with h | h
    · exact hxL (e ▸ h)
    · exact hxR (e ▸ h)

/-- The clean-up of `hev_socks5_tunnel_fini` leaves an empty list. -/
theorem clearSessions_spec {fuel : Nat} {reg' : Registry} (h : clearSessions reg fuel = some reg') :
    reg'.head = 0 ∧ reg'.tail = 0 ∧ reg'.count = 0 := by
  induction fuel generalizing reg with
  | zero => cases h
  | succ fuel ih =>
    unfold clearSessions at h
    split_ifs at h with hh
    · cases h; exact ⟨hh, rfl, rfl⟩
    · split at h
      · cases h
      · exact ih h

/-- With more turns than nodes, the search of `remove_session` ends. -/
theorem findSession_total {p prv fuel : Nat} (hs : DSeg reg.nodes p 0 prv ps)
    (hfuel : ps.length < fuel) : ∃ res, findSession reg.nodes session p fuel = some res := by
  induction fuel generalizing p prv ps with
  | zero => omega
  | succ fuel ih =>
    unfold findSession
    obtain _ | @⟨_, _, _, n, ps, hp, hn, -, hs⟩ := hs
    · exact ⟨none, if_pos rfl⟩
    rw [if_neg hp, hn]
    dsimp only
    split_ifs
    · exact ⟨_, rfl⟩
    · exact ih hs (by simp at hfuel; omega)

/-- With more turns than nodes, the clean-up ends. -/
theorem clearSessions_total {fuel : Nat} (hs : DSeg reg.nodes reg.head 0 prv ps) (hnd : ps.Nodup)
    (hfuel : ps.length < fuel) : ∃ reg', clearSessions reg fuel = some reg' := by
  induction fuel generalizing reg prv ps with
  | zero => omega
  | succ fuel ih =>
    unfold clearSessions
    split_ifs with hh
    · exact ⟨_, rfl⟩
    rcases ps with _ | ⟨x, ps⟩
    · exact absurd (hs.eq_nil_iff.1 rfl) hh
    obtain ⟨rfl, -, n, hn, -, hs⟩ := hs.cons_inv
    rw [hn]
    have hnot := (List.nodup_cons.1 hnd).1
    exact ih (hs.frame fun y hy => Function.update_noteq (fun e => hnot (by rw [← e]; exact hy)) _ _)
      (List.nodup_cons.1 hnd).2 (by simp at hfuel; omega)

end Calls

/-! ## Runs -/

/-- The registry, and as a ghost the abstract registry: the sessions inserted
    and not removed since, oldest first. -/
structure State where
  reg : Registry
  sessions : List Nat

/-- A call under `session_mutex`. -/
inductive Call
  /-- `insert_session (session)`, `malloc` giving `node`. -/
  | insert (session node : Nat)
  | remove (session : Nat)
  | clear

/-- One call, its loop run with `fuel` turns; `malloc` returns `NULL` or an
    address not in use. The abstract registry appends a session whose insert
    succeeded, drops the oldest occurrence of a removed one, and empties on
    the clean-up. -/
def next (s : State) (fuel : Nat) : Call → Option State
  | .insert session node =>
    if node = 0 ∨ s.reg.nodes node = none then
      some ⟨insertSession s.reg session node,
            if node = 0 then s.sessions else s.sessions ++ [session]⟩
    else none
  | .remove session => (removeSession s.reg session fuel).map (⟨·, s.sessions.erase session⟩)
  | .clear => (clearSessions s.reg fuel).map (⟨·, []⟩)

/-- The empty registry. -/
def empty : Registry := ⟨0, 0, 0, fun _ => none⟩

def system : System State where
  init s := s = ⟨empty, []⟩
  step s s' := ∃ fuel c, next s fuel c = some s'

/-- An insert appends the session to the abstract registry when `malloc`
    gave a node. -/
theorem next_insert_sessions {s s' : State} {fuel session node : Nat}
    (h : next s fuel (.insert session node) = some s') :
    s'.sessions = if node = 0 then s.sessions else s.sessions ++ [session] := by
  simp only [next] at h
  split_ifs at h ⊢ <;> cases h <;> rfl

/-- A remove drops the session's oldest entry from the abstract registry. -/
theorem next_remove_sessions {s s' : State} {fuel session : Nat}
    (h : next s fuel (.remove session) = some s') : s'.sessions = s.sessions.erase session := by
  obtain ⟨_, _, rfl⟩ := Option.map_eq_some'.1 h
  rfl

/-! ## Every run -/

/-- The registry is a doubly-linked list of `session_count` nodes holding the
    abstract registry. -/
def Inv (s : State) : Prop :=
  ∃ ps, IsDList s.reg.nodes s.reg.head s.reg.tail ps ∧ s.reg.count = ps.length ∧
    sessionsOf s.reg.nodes ps = s.sessions

theorem inv_empty : Inv ⟨empty, []⟩ := ⟨[], ⟨.nil _ _, rfl, List.nodup_nil⟩, rfl, rfl⟩

variable {s s' : State}

theorem inv_next (hi : Inv s) {fuel : Nat} {c : Call} (h : next s fuel c = some s') : Inv s' := by
  obtain ⟨ps, hd, hc, hs⟩ := hi
  cases c with
  | insert session node =>
    simp only [next] at h
    split_ifs at h with hfree hz
    · cases h
      simp only [insertSession, if_pos hz]
      exact ⟨ps, hd, hc, hs⟩
    · cases h
      obtain ⟨hd', hc', hs'⟩ := insertSession_spec hd hz (hfree.resolve_left hz)
      exact ⟨_, hd', by rw [hc', hc]; simp, by rw [hs', hs]⟩
  | remove session =>
    obtain ⟨reg', hr, rfl⟩ := Option.map_eq_some'.1 h
    unfold removeSession at hr
    split at hr
    · cases hr
    · rename_i hf
      cases hr
      rcases findSession_spec hd.seg hf with ⟨-, hnot⟩ | ⟨x, L, R, hx, -⟩
      · exact ⟨ps, hd, hc, by rw [hs] at hnot ⊢; rw [List.erase_of_not_mem hnot]⟩
      · cases hx
    · rename_i x hf
      obtain ⟨n, hn, rfl⟩ := Option.map_eq_some'.1 hr
      rcases findSession_spec hd.seg hf with ⟨hx, -⟩ | ⟨x, L, R, hx, rfl, hnot, hsx⟩
      · cases hx
      cases hx
      obtain ⟨hd', hc', hs'⟩ := unlinkNode_spec hd hn
      refine ⟨L ++ R, hd', by
        simp only [hc', hc, List.length_append, List.length_cons]; push_cast; omega, ?_⟩
      have hns : n.session = session := by simpa [hn] using hsx
      rw [hs', ← hs, sessionsOf_append, sessionsOf_append, List.erase_append_right _ hnot,
        sessionsOf_cons hn, hns, List.erase_cons_head]
  | clear =>
    obtain ⟨reg', hr, rfl⟩ := Option.map_eq_some'.1 h
    obtain ⟨hh, ht, hc'⟩ := clearSessions_spec hr
    exact ⟨[], ⟨hh ▸ .nil _ _, ht, List.nodup_nil⟩, hc', rfl⟩

theorem reachable_inv (hs : system.Reachable s) : Inv s :=
  System.reachable_induction (fun _ h => h ▸ inv_empty) (fun _ _ _ hi ⟨_, _, h⟩ => inv_next hi h) hs

/-- The session registry, after any sequence of `insert_session`,
    `remove_session` and clean-up calls:

    1. from `session_list_head` the nodes form a doubly-linked list: the
       head's `prev` is `NULL`, each node's `next` has it as `prev`,
       `session_list_tail` is the last node, and the head is `NULL` exactly
       when the tail is;
    2. `session_count` is the list's length;
    3. the list holds, in order, the sessions inserted and not removed since,
       oldest first. -/
theorem registry_refines (hs : system.Reachable s) :
    ∃ ps, IsDList s.reg.nodes s.reg.head s.reg.tail ps ∧
      (s.reg.head = 0 ↔ s.reg.tail = 0) ∧
      s.reg.count = ps.length ∧ sessionsOf s.reg.nodes ps = s.sessions := by
  obtain ⟨ps, hd, hc, hss⟩ := reachable_inv hs
  exact ⟨ps, hd, hd.head_eq_zero.trans hd.tail_eq_zero.symm, hc, hss⟩

theorem reachable_next (hs : system.Reachable s) (fuel : Nat) (c : Call)
    (h : next s fuel c = some s') : system.Reachable s' :=
  hs.step ⟨fuel, c, h⟩

/-- Two sessions inserted, the first one removed: the list holds the second. -/
theorem registry_refines_run :
    ∃ s, system.Reachable s ∧ s.sessions = [8] ∧ (s.reg.head = 0 ↔ s.reg.tail = 0) := by
  have r₁ := reachable_next (.init rfl) 0 (.insert 7 1) rfl
  have r₂ := reachable_next r₁ 0 (.insert 8 2) rfl
  have r₃ := reachable_next r₂ 3 (.remove 7) rfl
  exact ⟨_, r₃, rfl, (registry_refines r₃).choose_spec.2.1⟩

/-- The loops of `remove_session` and of the clean-up end on every reachable
    registry: with more turns than `session_count`, the number of nodes, both
    calls complete. -/
theorem calls_complete (hs : system.Reachable s) (session : Nat) {fuel : Nat}
    (hfuel : s.reg.count < fuel) :
    (∃ s', next s fuel (.remove session) = some s') ∧ ∃ s', next s fuel .clear = some s' := by
  obtain ⟨ps, hd, hc, -⟩ := reachable_inv hs
  have hlt : ps.length < fuel := by omega
  refine ⟨?_, ?_⟩
  · obtain ⟨res, hf⟩ : ∃ res, findSession s.reg.nodes session s.reg.head fuel = some res :=
      findSession_total hd.seg hlt
    simp only [next, removeSession, hf]
    rcases res with _ | x
    · exact ⟨_, rfl⟩
    · rcases findSession_spec hd.seg hf with ⟨h, -⟩ | ⟨y, L, R, hy, rfl, -, -⟩
      · cases h
      cases hy
      obtain ⟨n, hn⟩ := Option.ne_none_iff_exists'.1 (hd.seg.mem x (by simp)).2
      exact ⟨⟨unlinkNode s.reg x n, s.sessions.erase session⟩, by simp [hn]⟩
  · obtain ⟨reg', h⟩ := clearSessions_total hd.seg hd.nodup hlt
    exact ⟨⟨reg', []⟩, by simp [next, h]⟩

/-- The empty registry, one turn. -/
theorem calls_complete_empty :
    system.Reachable ⟨empty, []⟩ ∧ empty.count < (1 : Nat) ∧
      ∃ s', next ⟨empty, []⟩ 1 (.remove 7) = some s' :=
  ⟨.init rfl, by decide, (calls_complete (.init rfl) 7 (by decide)).1⟩

end HevTunnel.SessionList
