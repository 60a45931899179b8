import Tunnel.Server.Eviction
import Tunnel.Server.Ghost

set_option autoImplicit false

/-! # What a node has at rest (`state/peer_map.go`, `server/peers.go`)

A session that a node has registered is in its peer map, or some `removePeer` has deleted it and
says `Bye` to it (`Accounted`). When all that is under way has come to its end, the peer map
therefore holds exactly the sessions that are open (`AtRest.open_of_get`, `AtRest.get_of_open`).
This takes the condition on registrations of `Eviction`: a session that is overwritten is neither in
the map nor ever closed. -/

namespace Tunnel.State

open Tunnel.Lib Tunnel.Multiplexer

theorem NewPeerCall.Step.protocol {m m' : PeerMap} {c c' : NewPeerCall} (h : c.Step m m' c') :
    c'.protocol = c.protocol := by
  cases h <;> rfl

/-- The call has returned. -/
def NewPeerCall.hasReturned (c : NewPeerCall) : Bool :=
  match c.pc with
  | .returned _ => true
  | .load | .construct | .wait _ | .store _ | .add _ | .notify _ => false

theorem NewPeerCall.hasReturned_iff {c : NewPeerCall} :
    c.hasReturned = true ↔ ∃ r, c.pc = .returned r := by
  unfold hasReturned
  cases c.pc <;> simp

end Tunnel.State

namespace Tunnel.Server

open Tunnel.Lib Tunnel.Multiplexer Tunnel.State

variable {F : Type}

/-- The session that a watcher watches. -/
def Origin.session : Origin → Option Session
  | .watcher p => some p
  | .leave => none

namespace Node

/-! ## The calls of `NewPeer` of one node -/

/-- What the `i`-th call of `NewPeer` was called with. -/
def callInfo (n : Node F) (i : ℕ) : Option (Protocol × Config) :=
  n.newPeers[i]?.map (fun c => (c.protocol, c.conf))

/-- The session that the `i`-th call of `NewPeer` has made, unless it is closed. -/
def openEnd (n : Node F) (i : ℕ) : Option Session :=
  (n.newPeers[i]?.bind NewPeerCall.session).filter (fun p => p ∉ n.closed)

/-- Only `connectPeer` and `peerNegotiation` call `NewPeer`. -/
def Action.isNewPeer : Action F → Bool
  | .newPeer _ _ => true
  | _ => false

variable {cfg : LeaderConfig} {n n' : Node F} {a : Action F}

theorem callInfo_newPeer (n : Node F) (protocol : Protocol) (conf : Config) (i : ℕ) :
    callInfo { n with newPeers := n.newPeers ++ [⟨protocol, conf, .load⟩] } i =
      if i = n.newPeers.length then some (protocol, conf) else n.callInfo i := by
  simp only [callInfo, getElem?_concat]
  split <;> rfl

/-- A call keeps what it was called with. -/
theorem Step.callInfo (h : Step cfg n a n') (ha : a.isNewPeer = false) (i : ℕ) :
    n'.callInfo i = n.callInfo i := by
  cases h with
  | newPeer => cases ha
  | @advance k ok c c' m' hc hstep =>
      simp only [Node.callInfo, getElem?_set_of_some hc]
      by_cases hk : k = i
      · subst hk
        rw [if_pos rfl, hc, Option.map_some, Option.map_some, hstep.protocol, hstep.conf]
      · rw [if_neg hk]
  | _ => rfl

theorem callInfo_eq_none_iff {i : ℕ} : n.callInfo i = none ↔ n.newPeers.length ≤ i := by
  rw [callInfo, Option.map_eq_none_iff, List.getElem?_eq_none_iff]

/-! ## Where a registered session is -/

/-- A session is what its call was called for; a session that was registered is in the peer map or
    was deleted by some `removePeer`, and then `removePeer` says `Bye` to it. -/
structure Accounted (n : Node F) : Prop where
  made : ∀ c ∈ n.newPeers, ∀ p, c.session = some p →
    p.peer = c.conf.peer ∧ p.protocol = c.protocol ∧ p.initiator = c.conf.initiator
  placed : ∀ p ∈ n.registered, n.peers.get p.peer = some p ∨ ∃ r ∈ n.removers, r.deleted = some p
  bye : ∀ r ∈ n.removers, ∀ p, r.pc = .send (some p) ∨ r.pc = .returned (some p) → p ∈ n.closed

namespace Accounted

theorem init : Accounted (Node.init : Node F) where
  made := by simp [Node.init]
  placed := by simp [Node.init, registered]
  bye := by simp [Node.init]

/-- A `NewPeer` that does not store. -/
theorem frame (hn : n.Accounted) (hmade : ∀ c ∈ n'.newPeers, ∀ p, c.session = some p →
      p.peer = c.conf.peer ∧ p.protocol = c.protocol ∧ p.initiator = c.conf.initiator)
    (hreg : n'.registered = n.registered) (hpeers : n'.peers.peers = n.peers.peers)
    (hrem : n'.removers = n.removers) (hclosed : ∀ p ∈ n.closed, p ∈ n'.closed) :
    n'.Accounted where
  made := hmade
  placed := by
    rw [hreg, hrem]
    simp only [PeerMap.get, hpeers]
    exact hn.placed
  bye := by
    rw [hrem]
    exact fun r hr p hp => hclosed p (hn.bye r hr p hp)

/-- A remover takes a step and leaves the peer map as it is. -/
theorem setRemover (hn : n.Accounted) {i : ℕ} {r : Remover} {pc : RemoverPc}
    (hr : n.removers[i]? = some r) (hcalls : n'.newPeers = n.newPeers)
    (hpeers : n'.peers.peers = n.peers.peers)
    (hrem : n'.removers = n.removers.set i { r with pc := pc })
    (hclosed : ∀ p ∈ n.closed, p ∈ n'.closed)
    (hdel : ∀ p, r.deleted = some p → Remover.deleted { r with pc := pc } = some p)
    (hbye : ∀ p, pc = .send (some p) ∨ pc = .returned (some p) → p ∈ n'.closed) :
    n'.Accounted where
  made := by
    rw [hcalls]
    exact hn.made
  placed := by
    intro p hp
    rw [registered, hcalls] at hp
    rw [hrem]
    simp only [PeerMap.get, hpeers]
    exact (hn.placed p hp).imp_right (fun h => exists_mem_set hr h (hdel p))
  bye := by
    rw [hrem]
    exact forall_mem_set (fun q hq p hp => hclosed p (hn.bye q hq p hp)) hbye

/-- A session that a call makes is what the call was called for. -/
theorem made_advance (hn : n.Accounted) {i : ℕ} {c c' : NewPeerCall} {m' : PeerMap}
    (hc : n.newPeers[i]? = some c) (hstep : c.Step n.peers m' c') :
    ∀ d ∈ n.newPeers.set i c', ∀ p, d.session = some p →
      p.peer = d.conf.peer ∧ p.protocol = d.protocol ∧ p.initiator = d.conf.initiator := by
  refine forall_mem_set hn.made ?_
  intro p hp
  rw [hstep.conf, hstep.protocol]
  rcases hstep.session with ⟨_, h | h⟩ | ⟨_, _, _, h⟩
  · rw [h] at hp
    exact hn.made c (List.mem_of_getElem? hc) p hp
  · rw [h] at hp
    cases hp
  · rw [h, Option.some.injEq] at hp
    subst hp
    exact ⟨rfl, rfl, rfl⟩

/-- A `NewPeer` stores its session, where none is. -/
theorem store (hn : n.Accounted) (ho : n.Orderly) {i : ℕ} {c : NewPeerCall} {p : Session}
    (hc : n.newPeers[i]? = some c) (hpc : c.pc = .store p)
    (hok : ∀ q ∈ n.registered, q.peer = c.conf.peer → n.Finished q)
    (hcalls : n'.newPeers = n.newPeers.set i { c with pc := .add p })
    (hpeers : n'.peers.peers = n.peers.peers.store c.conf.peer p)
    (hrem : n'.removers = n.removers) (hclosed : n'.closed = n.closed)
    (hmade : ∀ d ∈ n'.newPeers, ∀ q, d.session = some q →
      q.peer = d.conf.peer ∧ q.protocol = d.protocol ∧ q.initiator = d.conf.initiator) :
    n'.Accounted := by
  refine ⟨hmade, ?_, ?_⟩
  · intro q hq
    have hnone : c.stored = none := by simp [NewPeerCall.stored, hpc]
    rw [registered, hcalls, mem_filterMap_set hc hnone (y := p) rfl] at hq
    rw [hrem]
    simp only [PeerMap.get, hpeers]
    rcases hq with rfl | hq
    · have hpeer := (hn.made c (List.mem_of_getElem? hc) q (by simp [NewPeerCall.session, hpc])).1
      rw [hpeer]
      exact Or.inl (SyncMap.load_store_self _ _ _)
    · refine (hn.placed q hq).imp_left ?_
      intro hload
      have hne : q.peer ≠ c.conf.peer :=
        fun hpeer => (ho.entry _ _ hload).2.2 (hok q hq hpeer)
      rw [SyncMap.load_store_ne _ _ hne]
      exact hload
  · rw [hrem, hclosed]
    exact hn.bye

/-- A `removePeer` deletes a session. -/
theorem delete (hn : n.Accounted) {i : ℕ} {r : Remover} {p : Session}
    (hr : n.removers[i]? = some r) (hpc : r.pc = .remove .loadAndDelete)
    (hload : n.peers.peers.load r.peer = some p) (hcalls : n'.newPeers = n.newPeers)
    (hpeers : n'.peers.peers = n.peers.peers.delete r.peer)
    (hrem : n'.removers = n.removers.set i { r with pc := .remove (.add p) })
    (hclosed : n'.closed = n.closed) : n'.Accounted := by
  refine ⟨?_, ?_, ?_⟩
  · rw [hcalls]
    exact hn.made
  · intro q hq
    rw [registered, hcalls] at hq
    rw [hrem]
    simp only [PeerMap.get, hpeers]
    rcases hn.placed q hq with hq | hq
    · by_cases hpeer : q.peer = r.peer
      · rw [PeerMap.get, hpeer, hload, Option.some.injEq] at hq
        exact Or.inr ⟨_, mem_set_self hr _, by rw [← hq]; rfl⟩
      · rw [SyncMap.load_delete_ne _ hpeer]
        exact Or.inl hq
    · refine Or.inr (exists_mem_set hr hq ?_)
      simp [Remover.deleted, hpc]
  · rw [hrem, hclosed]
    exact forall_mem_set hn.bye (by simp)

/-- **Step lemma.** -/
theorem step (hn : n.Accounted) (ho : n.Orderly) (hok : n.StoreClear a) (h : Step cfg n a n') :
    n'.Accounted := by
  cases h with
  | newPeer protocol conf =>
      refine hn.frame ?_ ?_ rfl rfl (fun _ => id)
      · exact List.forall_mem_append.2 ⟨hn.made, List.forall_mem_singleton.2 (by
          simp [NewPeerCall.session])⟩
      · simp [registered, List.filterMap_append, NewPeerCall.stored]
  | @advance i ok c c' m' hc hstep =>
      have hmade := hn.made_advance hc hstep
      cases hstep with
      | store hpc =>
          refine hn.store ho hc hpc (hok _ ?_).1 rfl rfl rfl rfl hmade
          simp [hc, NewPeerCall.storing, hpc]
      | _ =>
          refine hn.frame hmade ?_ rfl rfl (fun _ => id)
          refine filterMap_set_of_eq hc ?_
          simp_all [NewPeerCall.stored]
  | close => exact hn.frame hn.made rfl rfl rfl (fun _ => List.mem_cons_of_mem _)
  | recvNotify =>
      refine ⟨hn.made, fun p hp => ?_, ?_⟩
      · refine (hn.placed p hp).imp_right ?_
        rintro ⟨r, hr, hdel⟩
        exact ⟨r, List.mem_append_left _ hr, hdel⟩
      · exact List.forall_mem_append.2 ⟨hn.bye, List.forall_mem_singleton.2 (by simp)⟩
  | leave =>
      refine ⟨hn.made, fun p hp => ?_, ?_⟩
      · refine (hn.placed p hp).imp_right ?_
        rintro ⟨r, hr, hdel⟩
        exact ⟨r, List.mem_append_left _ hr, hdel⟩
      · exact List.forall_mem_append.2 ⟨hn.bye, List.forall_mem_singleton.2 (by simp)⟩
  | exit hr hpc | graph hr hpc | absent hr hpc | fire hr hpc =>
      refine hn.setRemover hr rfl rfl rfl (fun _ => id) ?_ ?_
      all_goals simp [Remover.deleted, hpc]
  | delete hr hpc hload => exact hn.delete hr hpc hload rfl rfl rfl rfl
  | count hr hpc =>
      refine hn.setRemover hr rfl rfl rfl (fun _ => id) ?_ ?_
      all_goals simp [Remover.deleted, hpc]
  | @bye i r p hr hpc =>
      refine hn.setRemover hr rfl rfl rfl (fun _ => List.mem_cons_of_mem _) ?_ ?_
      · simp [Remover.deleted, hpc]
      · simp
  | @sendRemoved i r d ch hr hpc hch =>
      refine hn.setRemover hr rfl rfl rfl (fun _ => id) ?_ ?_
      · simp [Remover.deleted, hpc]
      · intro p hp
        refine hn.bye r (List.mem_of_getElem? hr) p (Or.inl ?_)
        rw [hpc]
        simpa using hp
  | _ => exact hn.frame hn.made rfl rfl rfl (fun _ => id)

end Accounted

/-! ## A node at rest -/

/-- Every call has returned, every session has been handed on, and no session that closed has a
    `removePeer` ahead of it. -/
structure AtRest (n : Node F) : Prop where
  calls : ∀ c ∈ n.newPeers, c.hasReturned = true
  notify : n.peers.notify.IsEmpty
  removers : ∀ r ∈ n.removers, r.pc.hasReturned = true ∨
    r.pc = .watching ∧ ∀ p ∈ r.origin.session, p ∉ n.closed

section AtRest

variable (hrest : n.AtRest)
include hrest

/-- What is registered has a watcher. -/
theorem AtRest.watcher (hl : n.Ledger) {p : Session} (hp : p ∈ n.registered) :
    ∃ r ∈ n.removers, r.origin = .watcher p := by
  obtain ⟨c, hc, hstored⟩ := List.mem_filterMap.1 hp
  have hpos : 0 < n.newPeers.countP (fun c => c.stored = some p) :=
    List.countP_pos_iff.2 ⟨c, hc, by simpa using hstored⟩
  have hunsent : n.newPeers.countP (fun c => c.unsent = some p) = 0 := by
    refine List.countP_eq_zero.2 ?_
    intro d hd
    obtain ⟨r, hr⟩ := NewPeerCall.hasReturned_iff.1 (hrest.calls d hd)
    simp [NewPeerCall.unsent, hr]
  have htoken := hl.token p
  rw [hunsent, show n.peers.notify.buf = [] from hrest.notify, List.count_nil] at htoken
  have hwatch : 0 < n.removers.countP (fun r => r.origin = .watcher p) := by omega
  obtain ⟨r, hr, horigin⟩ := List.countP_pos_iff.1 hwatch
  exact ⟨r, hr, by simpa using horigin⟩

/-- What is in the peer map is the open end of some call. -/
theorem AtRest.open_of_get (ho : n.Orderly) {x : UInt64} {p : Session}
    (hp : n.peers.get x = some p) : p.peer = x ∧ ∃ i, n.openEnd i = some p := by
  obtain ⟨hreg, hpeer, hfinished⟩ := ho.entry x p hp
  refine ⟨hpeer, ?_⟩
  obtain ⟨c, hc, hstored⟩ := List.mem_filterMap.1 hreg
  obtain ⟨i, hi⟩ := List.getElem?_of_mem hc
  refine ⟨i, ?_⟩
  have hopen : p ∉ n.closed := by
    obtain ⟨r, hr, horigin⟩ := hrest.watcher ho.ledger hreg
    rcases hrest.removers r hr with hreturned | ⟨_, hopen⟩
    · refine absurd ⟨r, hr, horigin, ?_⟩ hfinished
      unfold RemoverPc.hasReturned at hreturned
      unfold Remover.pastDelete
      split at hreturned
      · next d hpc => rw [hpc]
      all_goals cases hreturned
    · exact hopen p (by rw [horigin]; rfl)
  rw [openEnd, hi, Option.bind_some, NewPeerCall.session_of_stored hstored]
  simp [hopen]

/-- An open end of a call is in the peer map. -/
theorem AtRest.get_of_open (hacc : n.Accounted) {i : ℕ} {p : Session}
    (hp : n.openEnd i = some p) : n.peers.get p.peer = some p := by
  simp only [openEnd, Option.filter_eq_some_iff, decide_eq_true_eq, Option.bind_eq_some_iff] at hp
  obtain ⟨⟨c, hc, hsession⟩, hopen⟩ := hp
  have hmem := List.mem_of_getElem? hc
  have hstored : c.stored = some p := by
    obtain ⟨r, hr⟩ := NewPeerCall.hasReturned_iff.1 (hrest.calls c hmem)
    rw [NewPeerCall.session, hr] at hsession
    rw [NewPeerCall.stored, hr]
    cases r with
    | error e => cases hsession
    | ok q => exact hsession
  refine (hacc.placed p (List.mem_filterMap.2 ⟨c, hmem, hstored⟩)).resolve_right ?_
  rintro ⟨r, hr, hdel⟩
  refine hopen (hacc.bye r hr p ?_)
  rcases hrest.removers r hr with hreturned | ⟨hpc, _⟩
  · unfold RemoverPc.hasReturned at hreturned
    split at hreturned
    · next d hpc =>
        rw [Remover.deleted, hpc] at hdel
        exact Or.inr (by rw [hpc, ← hdel])
    all_goals cases hreturned
  · simp [Remover.deleted, hpc] at hdel

end AtRest

/-- The open end of a call is what the call was called for. -/
theorem Accounted.info (hacc : n.Accounted) {i : ℕ} {p : Session} (hp : n.openEnd i = some p) :
    n.callInfo i = some (p.protocol, ⟨p.peer, p.initiator⟩) := by
  simp only [openEnd, Option.filter_eq_some_iff, decide_eq_true_eq, Option.bind_eq_some_iff] at hp
  obtain ⟨⟨c, hc, hsession⟩, _⟩ := hp
  obtain ⟨hpeer, hprotocol, hinitiator⟩ := hacc.made c (List.mem_of_getElem? hc) p hsession
  rw [callInfo, hc, Option.map_some, hpeer, hprotocol, hinitiator]

/-- Two open ends of calls for one peer are of the same call. -/
theorem AtRest.open_unique (hrest : n.AtRest) (hl : n.Ledger) (hacc : n.Accounted) {i j : ℕ}
    {p q : Session} (hp : n.openEnd i = some p) (hq : n.openEnd j = some q)
    (hpeer : p.peer = q.peer) : i = j := by
  have hsame : some p = some q := by
    rw [← hrest.get_of_open hacc hp, ← hrest.get_of_open hacc hq, hpeer]
  cases hsame
  simp only [openEnd, Option.filter_eq_some_iff, Option.bind_eq_some_iff] at hp hq
  obtain ⟨⟨c, hc, hcp⟩, _⟩ := hp
  obtain ⟨⟨d, hd, hdp⟩, _⟩ := hq
  exact index_eq_of_countP_le_one (hl.once p) hc hd (by simpa using hcp) (by simpa using hdp)

end Node

end Tunnel.Server
