import Mathlib.Data.List.Pairwise
import Tunnel.Server.Meta
import Tunnel.State.PeerMap

set_option autoImplicit false

/-! # Who connects to whom (`server/gossip.go`)

Nodes learn of each other by gossip and must agree, each from the metadata of the other, which of
the two dials. `NotifyJoin` decides when a node is first seen, and `peerReconciliation` once a
minute for all members without a session.

`NotifyJoin` decodes into a fresh `Meta`. `peerReconciliation` decodes all members into the same
one, and decoding never clears `RespondOnly`: behind a member that only responds, every member is
taken for one (`mem_reconcile`). A member with a lower ID is then dialled although it dials itself.
The pass decides as `NotifyJoin` would exactly if no such member comes after one that only responds
(`peerReconciliation_decides_on_own_meta`). -/

namespace Tunnel.Server

open Tunnel.Lib Tunnel.Multiplexer Tunnel.State

/-- The part of a `Server` that never changes after `New`: its random ID and the configuration that
    it gossips. A Go `int` has 64 bits. -/
structure Identity where
  id : UInt64
  advertiseAddr : String
  peerPort : Int64
  protocol : Protocol
  respondOnly : Bool

/-- `s.meta` (server.go:70-76) -/
def Identity.meta (s : Identity) : Meta :=
  ⟨s.advertiseAddr, s.peerPort.toUInt64, s.id, s.protocol, s.respondOnly⟩

/-- `s.gossipCfg.Name` (server.go:135) -/
def Identity.name (s : Identity) : String :=
  s.advertiseAddr ++ ":" ++ toString s.peerPort.toInt ++ "/" ++ toString s.id.toNat

/-- `memberlist.NodeStateType` -/
inductive MemberState
  | alive
  | suspect
  | dead
  | left
deriving DecidableEq

/-- A `memberlist.Node`. -/
structure Member where
  name : String
  metaBytes : List UInt8
  state : MemberState
deriving DecidableEq

/-- What `NotifyJoin` does about a member: nothing, log and exit, wait for it to connect, or
    `connectPeer`. -/
inductive Join
  | ignore
  | fatal
  | respond
  | connectPeer (m : Meta)
deriving DecidableEq

namespace Identity

/-- `shouldReachOut` -/
def shouldReachOut (s : Identity) (m : Meta) : Bool :=
  if s.respondOnly then false
  else if ¬ m.respondOnly ∧ m.peerID < s.id then false
  else true

/-- `NotifyJoin` -/
def notifyJoin (s : Identity) (node : Member) : Join :=
  if node.name = s.name then .ignore
  else match Meta.decode node.metaBytes with
    | .error _ => .ignore
    | .ok m =>
        if m.peerID = s.id then .fatal
        else if s.shouldReachOut m then .connectPeer m
        else .respond

/-- One iteration of `peerReconciliation`: the variable `m` after it, and the `Meta` of the
    `connectPeer` it starts, if it starts one. -/
def reconcileNode (s : Identity) (peers : PeerMap) (m : Meta) (node : Member) :
    Meta × Option Meta :=
  if node.state ≠ .alive then (m, none)
  else if node.name = s.name then (m, none)
  else match m.unmarshalBinary node.metaBytes with
    | .error _ => (m, none)
    | .ok m' =>
        if m'.peerID = s.id then (m', none)
        else if peers.get m'.peerID = none ∧ s.shouldReachOut m' then (m', some m')
        else (m', none)

/-- The loop of `peerReconciliation`: the members it starts `connectPeer` for, each with the `Meta`
    passed. -/
def reconcile (s : Identity) (peers : PeerMap) : Meta → List Member → List (Member × Meta)
  | _, [] => []
  | m, node :: rest =>
      let next := s.reconcileNode peers m node
      (next.2.map (node, ·)).toList ++ s.reconcile peers next.1 rest

/-- `peerReconciliation`, with the sessions `peers` and the members `knownNodes`. -/
def peerReconciliation (s : Identity) (peers : PeerMap) (knownNodes : List Member) :
    List (Member × Meta) :=
  s.reconcile peers Meta.zero knownNodes

/-- The members that a pass starts `connectPeer` for. -/
def dialled (s : Identity) (peers : PeerMap) (knownNodes : List Member) : List Member :=
  (s.peerReconciliation peers knownNodes).map Prod.fst

/-! ## The decision for one member -/

/-- A member that is alive, does not have the node's own name and gossips the metadata `d`. -/
def Considers (s : Identity) (node : Member) (d : Meta) : Prop :=
  node.state = .alive ∧ node.name ≠ s.name ∧ Meta.decode node.metaBytes = .ok d

/-- The member should be dialled: it is considered, is not the node itself, has no session, and
    `shouldReachOut` holds of its own metadata. -/
def Eligible (s : Identity) (peers : PeerMap) (node : Member) : Prop :=
  ∃ d, s.Considers node d ∧ d.peerID ≠ s.id ∧ peers.get d.peerID = none ∧
    s.shouldReachOut d = true

/-- The member only responds. -/
def OnlyResponds (s : Identity) (node : Member) : Prop :=
  ∃ d, s.Considers node d ∧ d.respondOnly = true

/-- The member has no session and is the one to dial, by its lower ID. -/
def Awaits (s : Identity) (peers : PeerMap) (node : Member) : Prop :=
  ∃ d, s.Considers node d ∧ d.peerID ≠ s.id ∧ peers.get d.peerID = none ∧
    d.respondOnly = false ∧ d.peerID < s.id

theorem shouldReachOut_iff {s : Identity} {m : Meta} :
    s.shouldReachOut m = true ↔
      s.respondOnly = false ∧ (m.respondOnly = true ∨ ¬ m.peerID < s.id) := by
  unfold shouldReachOut
  by_cases hs : s.respondOnly = true
  · simp [hs]
  · by_cases hm : m.respondOnly = true
    · simp [hs, hm]
    · by_cases hlt : m.peerID < s.id
      · simp [hs, hm, hlt]
      · simp [hs, hm, hlt]

section Loop

variable {s : Identity} {peers : PeerMap} {m d d' : Meta} {node : Member}

theorem Considers.unique (h : s.Considers node d) (h' : s.Considers node d') : d = d' := by
  have heq := h.2.2.symm.trans h'.2.2
  exact Except.ok.inj heq

/-- An iteration over a member that is not considered does nothing. -/
theorem reconcileNode_of_not_considers (h : ∀ d, ¬ s.Considers node d) :
    s.reconcileNode peers m node = (m, none) := by
  unfold reconcileNode
  split
  · rfl
  · next halive =>
      split
      · rfl
      · next hname =>
          cases hdec : Meta.decode node.metaBytes with
          | error e =>
              rw [Meta.unmarshalBinary_eq, hdec]
              rfl
          | ok d => exact absurd ⟨not_not.1 halive, hname, hdec⟩ (h d)

/-- An iteration over a member that is considered: the metadata, with the flag that was left by the
    members before, decides. -/
theorem reconcileNode_of_considers (h : s.Considers node d) :
    s.reconcileNode peers m node =
      let m' := { d with respondOnly := m.respondOnly || d.respondOnly }
      (m', if d.peerID ≠ s.id ∧ peers.get d.peerID = none ∧ s.shouldReachOut m' = true
        then some m' else none) := by
  obtain ⟨halive, hname, hdec⟩ := h
  unfold reconcileNode
  rw [if_neg (not_not.2 halive), if_neg hname, Meta.unmarshalBinary_eq, hdec]
  simp only [Except.map]
  by_cases hid : d.peerID = s.id
  · simp [hid]
  · simp only [hid, if_false, ne_eq, not_false_eq_true, true_and]
    split
    · rfl
    · rfl

/-- The flag after an iteration. -/
theorem respondOnly_reconcileNode :
    (s.reconcileNode peers m node).1.respondOnly = true ↔
      m.respondOnly = true ∨ s.OnlyResponds node := by
  by_cases h : ∃ d, s.Considers node d
  · obtain ⟨d, hd⟩ := h
    have honly : s.OnlyResponds node ↔ d.respondOnly = true := by
      refine ⟨?_, fun hr => ⟨d, hd, hr⟩⟩
      rintro ⟨d', hd', hr⟩
      rwa [hd.unique hd']
    rw [reconcileNode_of_considers hd, honly]
    exact Bool.or_eq_true_iff
  · have hnone : ∀ d, ¬ s.Considers node d := fun d hd => h ⟨d, hd⟩
    have honly : ¬ s.OnlyResponds node := fun ⟨d, hd, _⟩ => hnone d hd
    rw [reconcileNode_of_not_considers hnone]
    exact ⟨Or.inl, fun h => h.resolve_right honly⟩

/-- An iteration dials the members that should be dialled, and once the flag is set also those that
    dial themselves. -/
theorem isSome_reconcileNode :
    (s.reconcileNode peers m node).2.isSome = true ↔
      s.Eligible peers node ∨
        s.respondOnly = false ∧ m.respondOnly = true ∧ s.Awaits peers node := by
  by_cases h : ∃ d, s.Considers node d
  · obtain ⟨d, hd⟩ := h
    have helig : s.Eligible peers node ↔
        d.peerID ≠ s.id ∧ peers.get d.peerID = none ∧ s.shouldReachOut d = true := by
      refine ⟨?_, fun he => ⟨d, hd, he⟩⟩
      rintro ⟨d', hd', he⟩
      rwa [hd.unique hd']
    have hawait : s.Awaits peers node ↔ d.peerID ≠ s.id ∧ peers.get d.peerID = none ∧
        d.respondOnly = false ∧ d.peerID < s.id := by
      refine ⟨?_, fun he => ⟨d, hd, he⟩⟩
      rintro ⟨d', hd', he⟩
      rwa [hd.unique hd']
    rw [reconcileNode_of_considers hd, helig, hawait]
    simp only [Option.isSome_ite, shouldReachOut_iff, Bool.or_eq_true_iff, ← Bool.not_eq_true]
    clear helig hawait
    grind
  · have hnone : ∀ d, ¬ s.Considers node d := fun d hd => h ⟨d, hd⟩
    rw [reconcileNode_of_not_considers hnone]
    simp only [Option.isSome_none, Bool.false_eq_true, false_iff, not_or]
    exact ⟨fun ⟨d, hd, _⟩ => hnone d hd, fun ⟨_, _, d, hd, _⟩ => hnone d hd⟩

/-! ## The pass over all members -/

/-- What a pass dials, from a `Meta` that may have its flag set already. -/
theorem mem_reconcile {nodes : List Member} :
    node ∈ (s.reconcile peers m nodes).map Prod.fst ↔
      node ∈ nodes ∧ s.Eligible peers node ∨
        s.respondOnly = false ∧ s.Awaits peers node ∧
          (m.respondOnly = true ∧ node ∈ nodes ∨
            ∃ a, s.OnlyResponds a ∧ [a, node].Sublist nodes) := by
  induction nodes generalizing m with
  | nil => simp [reconcile]
  | cons head rest ih =>
      have hfirst : node ∈ ((s.reconcileNode peers m head).2.map (head, ·)).toList.map Prod.fst ↔
          node = head ∧ (s.reconcileNode peers m head).2.isSome = true := by
        cases (s.reconcileNode peers m head).2 <;> simp
      -- a member that only responds stands before `node`: further down, or at the head
      have hpair : (∃ a, s.OnlyResponds a ∧ [a, node].Sublist (head :: rest)) ↔
          (∃ a, s.OnlyResponds a ∧ [a, node].Sublist rest) ∨
            s.OnlyResponds head ∧ node ∈ rest := by
        have hcons : ∀ a, [a, node].Sublist (head :: rest) ↔
            [a, node].Sublist rest ∨ a = head ∧ node ∈ rest := by
          intro a
          rw [List.sublist_cons_iff]
          simp [eq_comm]
        simp only [hcons, and_or_left, exists_or]
        refine or_congr Iff.rfl ⟨?_, fun ⟨hr, hmem⟩ => ⟨head, hr, rfl, hmem⟩⟩
        rintro ⟨a, hr, rfl, hmem⟩
        exact ⟨hr, hmem⟩
      rw [reconcile, List.map_append, List.mem_append, hfirst, ih, respondOnly_reconcileNode,
        isSome_reconcileNode, hpair, List.mem_cons]
      clear ih hfirst hpair
      by_cases hhead : node = head
      · subst hhead
        simp only [true_and, true_or, and_true]
        grind
      · simp only [hhead, false_and, false_or]
        grind

theorem mem_dialled {nodes : List Member} :
    node ∈ s.dialled peers nodes ↔
      node ∈ nodes ∧ s.Eligible peers node ∨
        s.respondOnly = false ∧ s.Awaits peers node ∧
          ∃ a, s.OnlyResponds a ∧ [a, node].Sublist nodes := by
  have hzero : ¬ (Meta.zero.respondOnly = true ∧ node ∈ nodes) := by simp [Meta.zero]
  rw [dialled, peerReconciliation, mem_reconcile, or_iff_right hzero]

/-- A member that dials itself should not be dialled. -/
theorem Awaits.not_eligible (h : s.Awaits peers node) : ¬ s.Eligible peers node := by
  rintro ⟨d', hd', _, _, hreach⟩
  obtain ⟨d, hd, _, _, hflag, hlt⟩ := h
  rw [← hd.unique hd', shouldReachOut_iff] at hreach
  rcases hreach.2 with hr | hge
  · rw [hflag] at hr
    exact absurd hr (by simp)
  · exact hge hlt

theorem Awaits.not_onlyResponds (h : s.Awaits peers node) : ¬ s.OnlyResponds node := by
  rintro ⟨d', hd', hr⟩
  obtain ⟨d, hd, _, _, hflag, _⟩ := h
  rw [← hd.unique hd', hflag] at hr
  exact absurd hr (by simp)

/-- `NotifyJoin` connects to the members that should be dialled. -/
theorem Eligible.notifyJoin (h : s.Eligible peers node) :
    ∃ d, s.notifyJoin node = .connectPeer d := by
  obtain ⟨d, ⟨_, hname, hdec⟩, hid, _, hreach⟩ := h
  refine ⟨d, ?_⟩
  rw [Identity.notifyJoin, if_neg hname, hdec]
  simp [hid, hreach]

/-- The pass dials the members that should be dialled, and none that `NotifyJoin` waits for. -/
def DecidesOnOwnMeta (s : Identity) (peers : PeerMap) (nodes : List Member) : Prop :=
  (∀ node, node ∈ s.dialled peers nodes ↔ node ∈ nodes ∧ s.Eligible peers node) ∧
    ∀ node ∈ s.dialled peers nodes, s.notifyJoin node ≠ .respond

/-- The node only responds itself, or no member that dials itself comes after one that only
    responds. -/
def Unmarked (s : Identity) (peers : PeerMap) (nodes : List Member) : Prop :=
  s.respondOnly = true ∨ nodes.Pairwise (fun a b => s.OnlyResponds a → ¬ s.Awaits peers b)

theorem decidesOnOwnMeta_iff {nodes : List Member} :
    s.DecidesOnOwnMeta peers nodes ↔ s.Unmarked peers nodes := by
  unfold Unmarked
  rw [List.pairwise_iff_forall_sublist]
  constructor
  · rintro ⟨hset, _⟩
    refine or_iff_not_imp_left.2 (fun hs => ?_)
    intro a b hab hr hawait
    -- the pass dials `b`, which it should not
    have hb : b ∈ s.dialled peers nodes :=
      mem_dialled.2 (Or.inr ⟨Bool.eq_false_iff.2 hs, hawait, a, hr, hab⟩)
    exact hawait.not_eligible ((hset b).1 hb).2
  · intro h
    have hset : ∀ node, node ∈ s.dialled peers nodes ↔ node ∈ nodes ∧ s.Eligible peers node := by
      intro node
      rw [mem_dialled]
      refine or_iff_left ?_
      rintro ⟨hs, hawait, a, hr, hab⟩
      rcases h with h | h
      · rw [hs] at h
        exact absurd h (by simp)
      · exact h hab hr hawait
    refine ⟨hset, fun node hnode => ?_⟩
    obtain ⟨d, hd⟩ := ((hset node).1 hnode).2.notifyJoin
    simp [hd]

/-- Every order of the members gives the same result. -/
def OrderIrrelevant (s : Identity) (peers : PeerMap) (nodes : List Member) : Prop :=
  ∀ nodes' : List Member, nodes'.Perm nodes →
    ∀ node, node ∈ s.dialled peers nodes' ↔ node ∈ s.dialled peers nodes

theorem orderIrrelevant_iff {nodes : List Member} :
    s.OrderIrrelevant peers nodes ↔ s.respondOnly = true ∨
      (∀ a ∈ nodes, ¬ s.OnlyResponds a) ∨ ∀ b ∈ nodes, ¬ s.Awaits peers b := by
  constructor
  · intro horder
    by_contra hnone
    simp only [not_or, not_forall, not_not] at hnone
    obtain ⟨hs, ⟨a, ha, hr⟩, b, hb, hawait⟩ := hnone
    have hne : b ≠ a := fun hba => hawait.not_onlyResponds (hba ▸ hr)
    -- with `a` in front `b` is dialled
    have hfront : (a :: nodes.erase a).Perm nodes := (List.perm_cons_erase ha).symm
    have hdialled : b ∈ s.dialled peers (a :: nodes.erase a) := by
      refine mem_dialled.2 (Or.inr ⟨Bool.eq_false_iff.2 hs, hawait, a, hr, ?_⟩)
      exact (List.singleton_sublist.2 ((List.mem_erase_of_ne hne).2 hb)).cons_cons a
    -- with all members that dial themselves in front it is not
    classical
    let p : Member → Bool := fun node => s.Awaits peers node
    have hback : (nodes.filter p ++ nodes.filter (fun node => !p node)).Perm nodes :=
      List.filter_append_perm p nodes
    have hown : s.DecidesOnOwnMeta peers
        (nodes.filter p ++ nodes.filter (fun node => !p node)) := by
      have hin : ∀ x ∈ nodes.filter p, s.Awaits peers x := by
        intro x hx
        exact of_decide_eq_true (List.mem_filter.1 hx).2
      have hout : ∀ x ∈ nodes.filter (fun node => !p node), ¬ s.Awaits peers x := by
        intro x hx
        simpa [p] using (List.mem_filter.1 hx).2
      refine decidesOnOwnMeta_iff.2 (Or.inr (List.pairwise_append.2 ⟨?_, ?_, ?_⟩))
      · exact List.pairwise_of_forall_mem_list fun x hx _ _ hrx =>
          absurd hrx (hin x hx).not_onlyResponds
      · exact List.pairwise_of_forall_mem_list fun _ _ y hy _ => hout y hy
      · exact fun _ _ y hy _ => hout y hy
    have hnot : b ∉ s.dialled peers (nodes.filter p ++ nodes.filter (fun node => !p node)) :=
      fun hmem => hawait.not_eligible ((hown.1 b).1 hmem).2
    exact hnot ((horder _ hback b).2 ((horder _ hfront b).1 hdialled))
  · intro h nodes' hperm node
    have hown : ∀ l : List Member, (∀ x ∈ l, x ∈ nodes) → s.DecidesOnOwnMeta peers l := by
      intro l hl
      refine decidesOnOwnMeta_iff.2 (h.imp_right (fun h => ?_))
      rw [List.pairwise_iff_forall_sublist]
      intro a b hab hr hawait
      have ha : a ∈ nodes := hl a (hab.subset (by simp))
      have hb : b ∈ nodes := hl b (hab.subset (by simp))
      rcases h with h | h
      · exact h a ha hr
      · exact h b hb hawait
    rw [(hown nodes' (fun x => hperm.mem_iff.1)).1, (hown nodes (fun _ h => h)).1, hperm.mem_iff]

end Loop

/-- **When reconciliation decides each member on its own metadata.** A pass dials exactly the
    members that should be dialled, and none that `NotifyJoin` waits for, if and only if no member
    that dials itself comes after one that only responds. The order of the members is irrelevant if
    and only if they are not of both kinds. -/
theorem peerReconciliation_decides_on_own_meta (s : Identity) (peers : PeerMap)
    (nodes : List Member) :
    (s.DecidesOnOwnMeta peers nodes ↔ s.Unmarked peers nodes) ∧
      (s.OrderIrrelevant peers nodes ↔ s.respondOnly = true ∨
        (∀ a ∈ nodes, ¬ s.OnlyResponds a) ∨ ∀ b ∈ nodes, ¬ s.Awaits peers b) :=
  ⟨decidesOnOwnMeta_iff, orderIrrelevant_iff⟩

/-- Node 5. -/
def exampleSelf : Identity := ⟨5, "10.0.0.5", 7946, .yamux, false⟩

/-- The members that nodes 3 and 9 are to others; node 9 only responds. -/
def lowerMember : Member :=
  ⟨"10.0.0.3:7946/3", Meta.layout ⟨"10.0.0.3", 7946, 3, .yamux, false⟩ [10, 0, 0, 3], .alive⟩

def responder : Member :=
  ⟨"10.0.0.9:7946/9", Meta.layout ⟨"10.0.0.9", 7946, 9, .yamux, true⟩ [10, 0, 0, 9], .alive⟩

theorem peerReconciliation_decides_on_own_meta_ordered :
    exampleSelf.DecidesOnOwnMeta PeerMap.init [lowerMember, responder] ∧
      exampleSelf.dialled PeerMap.init [lowerMember, responder] = [responder] := by
  have hlower : ¬ exampleSelf.OnlyResponds lowerMember := by
    rintro ⟨d, ⟨_, _, hdec⟩, hr⟩
    rw [lowerMember, Meta.decode_layout _ rfl, Except.ok.injEq] at hdec
    rw [← hdec] at hr
    exact absurd hr (by decide)
  refine ⟨(peerReconciliation_decides_on_own_meta _ _ _).1.2 (Or.inr ?_), by decide⟩
  exact List.pairwise_pair.2 (fun h => absurd h hlower)

theorem peerReconciliation_dials_awaited_member :
    lowerMember ∈ exampleSelf.dialled PeerMap.init [responder, lowerMember] ∧
      lowerMember ∉ exampleSelf.dialled PeerMap.init [lowerMember, responder] ∧
      ¬ exampleSelf.Eligible PeerMap.init lowerMember ∧
      exampleSelf.notifyJoin lowerMember = .respond := by
  have hrespond : exampleSelf.notifyJoin lowerMember = .respond := by decide
  refine ⟨by decide, by decide, fun h => ?_, hrespond⟩
  obtain ⟨d, hd⟩ := h.notifyJoin
  exact absurd (hrespond.symm.trans hd) (by simp)

end Identity

end Tunnel.Server
