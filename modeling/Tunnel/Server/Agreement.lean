import Tunnel.Server.Node

set_option autoImplicit false

/-! # Agreement on the leader

Every change of the peer map is followed, some steps later, by an event on `membershipCh`, and every
event makes `handleMembershipChange` take a new snapshot. Until the event of a change has arrived,
`currentLeader` may be out of date, and `Range` may even have seen a map that never was. The
invariant is a disjunction: either some change still has its event ahead of it (`Pending`), or what
`handleMembershipChange` is working with is up to date (`Fresh`). A step that uses up a pending
event passes it on, and the receive at the end starts a snapshot of the map as it is.

When nothing is pending, `currentLeader` is the lowest ID of the node and its peers
(`leader_agreement`, first part), and the nodes of a complete mesh all hold the same one. -/

namespace Tunnel.Server

open Tunnel.Lib Tunnel.Multiplexer Tunnel.State

/-- `low` is the lowest of the node's own ID and the IDs of its peers. -/
def IsLowest (id : UInt64) (peers : List UInt64) (low : UInt64) : Prop :=
  (low = id ∨ low ∈ peers) ∧ low ≤ id ∧ ∀ x ∈ peers, low ≤ x

instance (id : UInt64) (peers : List UInt64) (low : UInt64) : Decidable (IsLowest id peers low) :=
  inferInstanceAs (Decidable (_ ∧ _ ∧ _))

theorem IsLowest.unique {id : UInt64} {peers : List UInt64} {a b : UInt64}
    (ha : IsLowest id peers a) (hb : IsLowest id peers b) : a = b := by
  have hle : ∀ {a b}, IsLowest id peers a → IsLowest id peers b → a ≤ b := by
    rintro a b ⟨_, haid, hapeers⟩ ⟨rfl | hb, _⟩
    · exact haid
    · exact hapeers b hb
  exact UInt64.le_antisymm (hle ha hb) (hle hb ha)

/-- The fold from a start value finds the lowest of the start value and the list. -/
theorem foldl_lowest (l : List UInt64) (start : UInt64) :
    let low := l.foldl (fun lowest peer => if peer < lowest then peer else lowest) start
    (low = start ∨ low ∈ l) ∧ low ≤ start ∧ ∀ x ∈ l, low ≤ x := by
  induction l generalizing start with
  | nil => simp
  | cons y rest ih =>
      simp only [List.foldl_cons]
      by_cases hy : y < start
      · rw [if_pos hy]
        obtain ⟨hmem, hle, hall⟩ := ih y
        refine ⟨?_, by grind, ?_⟩
        · rcases hmem with h | h
          · exact Or.inr (by rw [h]; exact List.mem_cons_self)
          · exact Or.inr (List.mem_cons_of_mem _ h)
        · intro x hx
          rcases List.mem_cons.1 hx with rfl | hx
          · exact hle
          · exact hall x hx
      · rw [if_neg hy]
        obtain ⟨hmem, hle, hall⟩ := ih start
        refine ⟨?_, hle, ?_⟩
        · rcases hmem with h | h
          · exact Or.inl h
          · exact Or.inr (List.mem_cons_of_mem _ h)
        · intro x hx
          rcases List.mem_cons.1 hx with rfl | hx
          · grind
          · exact hall x hx

/-- The loop of `handleMembershipChange` over a snapshot with the right keys. -/
theorem isLowest_lowest {id : UInt64} {peers seen : List UInt64}
    (h : ∀ x, x ∈ seen ↔ x ∈ peers) : IsLowest id peers (lowest (seen ++ [id])) := by
  obtain ⟨hmem, _, hall⟩ := foldl_lowest (seen ++ [id]) (~~~ 0)
  have hid : lowest (seen ++ [id]) ≤ id := hall id (by simp)
  have hpeers : ∀ x ∈ peers, lowest (seen ++ [id]) ≤ x :=
    fun x hx => hall x (List.mem_append_left _ ((h x).2 hx))
  refine ⟨?_, hid, hpeers⟩
  rcases hmem with hmax | hmem
  · -- every ID is the largest one, the node's own included
    have hle : id ≤ ~~~ 0 := by
      have hmaxNat : (~~~ 0 : UInt64).toNat = 2 ^ 64 - 1 := by decide
      rw [UInt64.le_iff_toNat_le, hmaxNat]
      have := id.toNat_lt
      omega
    have hlow : lowest (seen ++ [id]) = ~~~ 0 := hmax
    exact Or.inl (UInt64.le_antisymm hid (hlow ▸ hle))
  · rcases List.mem_append.1 hmem with hseen | hself
    · exact Or.inr ((h _).1 hseen)
    · exact Or.inl (List.mem_singleton.1 hself)

/-- Between the delete of a session and the send on `membershipCh`. -/
def Remover.pending (r : Remover) : Bool :=
  match r.pc with
  | .remove (.add _) | .remove (.bye _) | .send (some _) => true
  | _ => false

namespace Node

variable {F : Type}

/-- Some change of the peer map has its event on the way: in a `NewPeer` past its `Store`, in
    `notify`, in `handlePeerEvents`, in a `removePeer` that deleted a session, or in
    `membershipCh`. -/
def Pending (s : Node F) : Prop :=
  (∃ c ∈ s.newPeers, c.unsent.isSome = true) ∨ ¬ s.peers.notify.IsEmpty ∨ s.events = .sending ∨
    (∃ r ∈ s.removers, r.pending = true) ∨ ¬ s.leader.membershipCh.IsEmpty

instance (s : Node F) : Decidable s.Pending := inferInstanceAs (Decidable (_ ∨ _ ∨ _ ∨ _ ∨ _))

theorem Pending.of_call {s : Node F} {c : NewPeerCall} (hc : c ∈ s.newPeers)
    (h : c.unsent.isSome = true) : s.Pending :=
  Or.inl ⟨c, hc, h⟩

theorem Pending.of_notify {s : Node F} (h : ¬ s.peers.notify.IsEmpty) : s.Pending :=
  Or.inr (Or.inl h)

theorem Pending.of_events {s : Node F} (h : s.events = .sending) : s.Pending :=
  Or.inr (Or.inr (Or.inl h))

theorem Pending.of_remover {s : Node F} {r : Remover} (hr : r ∈ s.removers)
    (h : r.pending = true) : s.Pending :=
  Or.inr (Or.inr (Or.inr (Or.inl ⟨r, hr, h⟩)))

theorem Pending.of_membership {s : Node F} (h : ¬ s.leader.membershipCh.IsEmpty) : s.Pending :=
  Or.inr (Or.inr (Or.inr (Or.inr h)))

/-- Nothing is pending, and `handleMembershipChange` waits for the next event. -/
def Quiescent (s : Node F) : Prop := ¬ s.Pending ∧ s.leader.change = .waiting

instance (s : Node F) : Decidable s.Quiescent := inferInstanceAs (Decidable (_ ∧ _))

/-- What `handleMembershipChange` works with is up to date. -/
def Fresh (cfg : LeaderConfig) (s : Node F) : Prop :=
  match s.leader.change with
  | .waiting => s.leader.events = 0 ∨ IsLowest cfg.id s.peers.peers.keys s.leader.currentLeader
  | .snapshot view => view.Exact s.peers.peers.keys
  | .compare low | .store low => IsLowest cfg.id s.peers.peers.keys low
  | .branch | .sendStart | .sendStop =>
      IsLowest cfg.id s.peers.peers.keys s.leader.currentLeader
  | .returned => True

/-- The leader goroutines see the keys of the peer map, and are up to date or have an event to
    come. -/
structure Tracking (cfg : LeaderConfig) (s : Node F) : Prop where
  mirror : s.leader.peers = s.peers.peers.keys
  current : s.Pending ∨ s.Fresh cfg

variable {cfg : LeaderConfig} {s s' : Node F} {a : Action F}

theorem withPeers_mirror (h : s.leader.peers = s.peers.peers.keys) (m : PeerMap) :
    (s.withPeers m).leader.peers = m.peers.keys := by
  unfold withPeers
  by_cases hkeys : m.peers.keys = s.peers.peers.keys
  · rw [if_pos hkeys, h, hkeys]
  · rw [if_neg hkeys]
    rfl

/-- A step of the leader goroutines, from a state that is up to date. -/
theorem fresh_leader_step {b : Leader.Action} {l : Leader}
    (hmirror : s.leader.peers = s.peers.peers.keys) (hfresh : s.Fresh cfg)
    (hpeers : ∀ keys, b ≠ .changePeers keys) (hstep : Leader.Step cfg s.leader b l) :
    Fresh cfg { s with leader := l } := by
  unfold Fresh at hfresh ⊢
  cases hstep with
  | changePeers keys => exact absurd rfl (hpeers keys)
  | changeReturn => exact trivial
  | changeRecv hpc hch =>
      show (RangeView.start s.leader.peers).Exact s.peers.peers.keys
      rw [hmirror]
      exact RangeView.start_exact _
  | changeSnapshot hpc hseen =>
      rw [hpc] at hfresh
      exact isLowest_lowest (hfresh.mem_iff hseen)
  | unchanged hpc hlow =>
      rw [hpc] at hfresh
      exact Or.inr (hlow ▸ hfresh)
  | changed hpc hlow =>
      rw [hpc] at hfresh
      exact hfresh
  | changeStore hpc =>
      rw [hpc] at hfresh
      exact hfresh
  | branchStart hpc | branchStop hpc =>
      rw [hpc] at hfresh
      exact hfresh
  | changeSendStart hpc | changeSendStop hpc =>
      rw [hpc] at hfresh
      exact Or.inr hfresh
  | _ => exact hfresh

namespace Tracking

/-- A call or a remover that moves on, without sending what it has pending. -/
theorem keep (hs : s.Tracking cfg) (hpeers : s'.peers.peers = s.peers.peers)
    (hnotify : s'.peers.notify = s.peers.notify) (hleader : s'.leader = s.leader)
    (hevents : s'.events = s.events)
    (hcalls : (∃ c ∈ s.newPeers, c.unsent.isSome = true) →
      ∃ c ∈ s'.newPeers, c.unsent.isSome = true)
    (hremovers : (∃ r ∈ s.removers, r.pending = true) → ∃ r ∈ s'.removers, r.pending = true) :
    s'.Tracking cfg := by
  refine ⟨by rw [hleader, hpeers]; exact hs.mirror, ?_⟩
  rcases hs.current with hpending | hfresh
  · left
    unfold Pending at hpending ⊢
    rw [hnotify, hevents, hleader]
    exact hpending.imp hcalls (Or.imp_right (Or.imp_right (Or.imp_left hremovers)))
  · right
    unfold Fresh at hfresh ⊢
    rw [hleader, hpeers]
    exact hfresh

theorem leader_step (hs : s.Tracking cfg) {b : Leader.Action} {l : Leader}
    (hpeers : ∀ keys, b ≠ .changePeers keys) (hsend : b ≠ .membershipSend)
    (hstep : Leader.Step cfg s.leader b l) : Tracking cfg { s with leader := l } := by
  have hmirror : l.peers = s.leader.peers := by
    cases hstep with
    | changePeers keys => exact absurd rfl (hpeers keys)
    | _ => rfl
  refine ⟨hmirror.trans hs.mirror, ?_⟩
  rcases hs.current with hpending | hfresh
  · -- an event is only used up by the receive, which starts a new snapshot
    have hch : l.membershipCh = s.leader.membershipCh ∨
        l.change = .snapshot (.start s.leader.peers) := by
      cases hstep with
      | membershipSend => exact absurd rfl hsend
      | changeRecv => exact Or.inr rfl
      | _ => exact Or.inl rfl
    rcases hch with hch | hchange
    · left
      unfold Pending at hpending ⊢
      rw [hch]
      exact hpending
    · right
      show Fresh cfg { s with leader := l }
      unfold Fresh
      simp only [hchange]
      rw [hs.mirror]
      exact RangeView.start_exact _
  · exact Or.inr (fresh_leader_step hs.mirror hfresh hpeers hstep)

theorem advance (hs : s.Tracking cfg) {i : ℕ} {c c' : NewPeerCall} {m' : PeerMap}
    (hc : s.newPeers[i]? = some c) (hstep : c.Step s.peers m' c') :
    Tracking cfg { s.withPeers m' with newPeers := s.newPeers.set i c' } := by
  have hmirror := withPeers_mirror hs.mirror m'
  cases hstep with
  | store hpc => exact ⟨hmirror, Or.inl (.of_call (mem_set_self hc _) rfl)⟩
  | add hpc => exact ⟨hmirror, Or.inl (.of_call (mem_set_self hc _) rfl)⟩
  | notify hpc hch => exact ⟨hmirror, Or.inl (.of_notify (Chan.not_isEmpty_of_send hch))⟩
  | _ =>
      refine hs.keep rfl rfl (if_pos rfl) rfl (fun h => exists_mem_set hc h ?_) id
      simp_all [NewPeerCall.unsent]

theorem step (hs : s.Tracking cfg) (h : Step cfg s a s') : s'.Tracking cfg := by
  cases h with
  | newPeer protocol conf =>
      refine hs.keep rfl rfl rfl rfl ?_ id
      rintro ⟨c, hc, hunsent⟩
      exact ⟨c, List.mem_append_left _ hc, hunsent⟩
  | advance hc hstep => exact hs.advance hc hstep
  | recvNotify hpc hch => exact ⟨hs.mirror, Or.inl (.of_events rfl)⟩
  | sendEvent hpc hch | sendListen hpc hch =>
      exact ⟨hs.mirror, Or.inl (.of_membership (Chan.not_isEmpty_of_send hch))⟩
  | leave x =>
      refine hs.keep rfl rfl rfl rfl id ?_
      rintro ⟨r, hr, hpending⟩
      exact ⟨r, List.mem_append_left _ hr, hpending⟩
  | exit hr hpc | fire hr hpc | graph hr hpc | absent hr hpc =>
      refine hs.keep rfl rfl rfl rfl id (fun h => exists_mem_set hr h ?_)
      simp [Remover.pending, hpc]
  | count hr | bye hr => exact ⟨hs.mirror, Or.inl (.of_remover (mem_set_self hr _) rfl)⟩
  | delete hr =>
      -- the keys change, and the remover has the event
      exact ⟨withPeers_mirror hs.mirror _, Or.inl (.of_remover (mem_set_self hr _) rfl)⟩
  | sendRemoved hr hpc hch =>
      exact ⟨hs.mirror, Or.inl (.of_membership (Chan.not_isEmpty_of_send hch))⟩
  | leader hpeers hsend hstep => exact hs.leader_step hpeers hsend hstep
  | _ => exact hs.keep rfl rfl rfl rfl id id

theorem init : Tracking cfg (Node.init : Node F) :=
  ⟨rfl, Or.inr (Or.inl rfl)⟩

end Tracking

theorem tracking_of_reachable (h : (machine F cfg).Reachable s) : s.Tracking cfg := by
  refine h.invariant ?_ (fun _ _ _ hI hst => hI.step (step_rule hst))
  rintro s rfl
  exact Tracking.init

/-- At quiescence a node that has processed an event knows the leader. -/
theorem isLowest_of_quiescent (h : (machine F cfg).Reachable s) (hq : s.Quiescent)
    (hevents : 1 ≤ s.leader.events) :
    IsLowest cfg.id s.peers.peers.keys s.leader.currentLeader := by
  rcases (tracking_of_reachable h).current with hpending | hfresh
  · exact absurd hpending hq.1
  · unfold Fresh at hfresh
    rw [hq.2] at hfresh
    exact hfresh.resolve_left (by omega)

end Node

/-! ## Agreement in a complete mesh -/

/-- Nodes with distinct IDs, each of which has exactly the others as peers. -/
structure Mesh (F : Type) where
  nodes : List (LeaderConfig × Node F)
  nonempty : nodes ≠ []
  distinct : (nodes.map (fun n => n.1.id)).Nodup
  complete : ∀ n ∈ nodes, ∀ x,
    x ∈ n.2.peers.peers.keys ↔ x ∈ nodes.map (fun n => n.1.id) ∧ x ≠ n.1.id

variable {F : Type}

/-- In a mesh, the lowest ID as one node sees it is the lowest ID of all nodes. -/
theorem Mesh.lowest_of_isLowest (mesh : Mesh F) {n : LeaderConfig × Node F} (hn : n ∈ mesh.nodes)
    {low : UInt64} (h : IsLowest n.1.id n.2.peers.peers.keys low) :
    low ∈ mesh.nodes.map (fun n => n.1.id) ∧
      ∀ x ∈ mesh.nodes.map (fun n => n.1.id), low ≤ x := by
  obtain ⟨hmem, hself, hpeers⟩ := h
  have hid : n.1.id ∈ mesh.nodes.map (fun n => n.1.id) := List.mem_map_of_mem hn
  constructor
  · rcases hmem with rfl | hmem
    · exact hid
    · exact ((mesh.complete n hn low).1 hmem).1
  · intro x hx
    by_cases hxn : x = n.1.id
    · exact hxn ▸ hself
    · exact hpeers x ((mesh.complete n hn x).2 ⟨hx, hxn⟩)

/-- **Leader agreement at quiescence.** A node that has processed an event and has none pending
    holds the lowest ID of itself and its peers as its leader; and in a complete mesh of such nodes
    all hold the same leader, which exactly one of them is. -/
theorem leader_agreement :
    (∀ (cfg : LeaderConfig) (s : Node F), (Node.machine F cfg).Reachable s → s.Quiescent →
        1 ≤ s.leader.events → IsLowest cfg.id s.peers.peers.keys s.leader.currentLeader) ∧
      ∀ mesh : Mesh F, (∀ n ∈ mesh.nodes, (Node.machine F n.1).Reachable n.2 ∧ n.2.Quiescent ∧
          1 ≤ n.2.leader.events) →
        ∃ low, (∀ n ∈ mesh.nodes, n.2.leader.currentLeader = low) ∧
          ∃ n ∈ mesh.nodes, n.1.id = low ∧ ∀ m ∈ mesh.nodes, m.1.id = low → m = n := by
  refine ⟨fun cfg s => Node.isLowest_of_quiescent, fun mesh hall => ?_⟩
  have hlowest : ∀ n ∈ mesh.nodes, n.2.leader.currentLeader ∈ mesh.nodes.map (fun n => n.1.id) ∧
      ∀ x ∈ mesh.nodes.map (fun n => n.1.id), n.2.leader.currentLeader ≤ x := by
    intro n hn
    obtain ⟨hreach, hq, hevents⟩ := hall n hn
    exact mesh.lowest_of_isLowest hn (Node.isLowest_of_quiescent hreach hq hevents)
  obtain ⟨n₀, hn₀⟩ := List.exists_mem_of_ne_nil _ mesh.nonempty
  obtain ⟨hmem₀, hle₀⟩ := hlowest n₀ hn₀
  refine ⟨n₀.2.leader.currentLeader, fun n hn => ?_, ?_⟩
  · obtain ⟨hmem, hle⟩ := hlowest n hn
    exact UInt64.le_antisymm (hle _ hmem₀) (hle₀ _ hmem)
  · obtain ⟨n, hn, hid⟩ := List.mem_map.1 hmem₀
    refine ⟨n, hn, hid, fun m hm hmid => ?_⟩
    exact List.inj_on_of_nodup_map mesh.distinct hm hn (hmid.trans hid.symm)

/-- The node connects to `peer`, and its leader goroutines process the event. -/
def electRun (peer : UInt64) : List (Node.Action Unit) :=
  [Node.Action.newPeer .yamux ⟨peer, true⟩] ++ List.replicate 6 (Node.Action.advance 0 true) ++
    [Node.Action.recvNotify, .sendEvent, .leader .changeRecv, .leader (.changeSnapshot [peer]),
      .leader .changeCompare, .leader .changeStore, .leader .changeBranch, .leader .changeSend]

theorem leader_agreement_two_nodes :
    ∃ s t : Node Unit,
      ((Node.machine Unit ⟨3, false⟩).Reachable s ∧ s.Quiescent ∧ 1 ≤ s.leader.events ∧
        s.peers.peers.keys = [5]) ∧
      ((Node.machine Unit ⟨5, false⟩).Reachable t ∧ t.Quiescent ∧ 1 ≤ t.leader.events ∧
        t.peers.peers.keys = [3]) ∧
      (∃ mesh : Mesh Unit, mesh.nodes = [(⟨3, false⟩, s), (⟨5, false⟩, t)]) ∧
      s.leader.currentLeader = t.leader.currentLeader ∧ s.leader.currentLeader = 3 := by
  obtain ⟨s, hs, hsq, hsevents, hskeys⟩ := (Node.machine Unit ⟨3, false⟩).reachable_of_exec_any rfl
    (electRun 5) (P := fun s => s.Quiescent ∧ 1 ≤ s.leader.events ∧ s.peers.peers.keys = [5])
    (by decide)
  obtain ⟨t, ht, htq, htevents, htkeys⟩ := (Node.machine Unit ⟨5, false⟩).reachable_of_exec_any rfl
    (electRun 3) (P := fun s => s.Quiescent ∧ 1 ≤ s.leader.events ∧ s.peers.peers.keys = [3])
    (by decide)
  have hmesh : ∀ n ∈ [(⟨3, false⟩, s), ((⟨5, false⟩ : LeaderConfig), t)], ∀ x,
      x ∈ n.2.peers.peers.keys ↔ x ∈ [(3 : UInt64), 5] ∧ x ≠ n.1.id := by
    intro n hn x
    simp only [List.mem_cons, List.not_mem_nil, or_false] at hn
    rcases hn with rfl | rfl
    · simp only [hskeys, List.mem_cons, List.not_mem_nil, or_false]
      grind
    · simp only [htkeys, List.mem_cons, List.not_mem_nil, or_false]
      grind
  obtain ⟨hnode, hagree⟩ := leader_agreement (F := Unit)
  let mesh : Mesh Unit := ⟨[(⟨3, false⟩, s), (⟨5, false⟩, t)], by simp, by simp, hmesh⟩
  obtain ⟨low, hlow, _⟩ := hagree mesh
    (by simpa [mesh] using ⟨⟨hs, hsq, hsevents⟩, ht, htq, htevents⟩)
  have hs3 := hnode ⟨3, false⟩ s hs hsq hsevents
  refine ⟨s, t, ⟨hs, hsq, hsevents, hskeys⟩, ⟨ht, htq, htevents, htkeys⟩, ⟨mesh, rfl⟩, ?_, ?_⟩
  · rw [hlow (⟨3, false⟩, s) (by simp [mesh]), hlow (⟨5, false⟩, t) (by simp [mesh])]
  · rw [hskeys] at hs3
    exact hs3.unique (by decide)

end Tunnel.Server
