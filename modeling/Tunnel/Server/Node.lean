import Tunnel.Lib.Machine
import Tunnel.Lib.Pool
import Tunnel.Server.Leader
import Tunnel.State.PeerGraph
import Tunnel.State.PeerMap

set_option autoImplicit false

/-! # The sessions of a node (`server/peers.go`, `server/gossip.go`, `server/server.go`)

One node over its whole life: sessions are registered by `NewPeer`, handed to `handlePeerEvents`
through `notify`, and watched by a goroutine that calls `removePeer` when the session closes;
`NotifyLeave` calls `removePeer` as well. All of it ends in events on `membershipCh`, from which the
leader goroutines recompute the leader.

`removePeer` is keyed by the peer's ID alone. A goroutine that runs it, or that may come to run it
because it watches a session, is a `Remover`; its `origin` says on whose behalf, which the code
itself does not know. `closed` are the sessions whose `NotifyClose` has fired, by the network or by
`Bye`, and `left` remembers which sessions were registered when a leave event for their peer
arrived. -/

namespace Tunnel.Server

open Tunnel.Lib Tunnel.Multiplexer Tunnel.State

/-- Why a `removePeer` runs: its session closed, or gossip found the peer dead. -/
inductive Origin
  | watcher (p : Session)
  | leave
deriving DecidableEq

/-- Program point of a `Remover`: in the `select` of a close watcher; that `select` took the end of
    the server; in `removePeer` before the graph is changed, inside `s.peers.Remove`, and at the
    send on `membershipCh`, with the session that was deleted. -/
inductive RemoverPc
  | watching
  | exited
  | graph
  | remove (pc : RemovePc)
  | send (deleted : Option Session)
  | returned (deleted : Option Session)
deriving DecidableEq

/-- A goroutine that runs `removePeer(peer)`, or watches a session to do so. -/
structure Remover where
  origin : Origin
  peer : UInt64
  pc : RemoverPc
deriving DecidableEq

/-- Program point of `handlePeerEvents`: in its `range`, at its send on `membershipCh`. -/
inductive EventsPc
  | ranging
  | sending
deriving DecidableEq

/-- Program point of `ListenForPeers`: at its last statement, the send on `membershipCh`. -/
inductive ListenPc
  | sending
  | returned
deriving DecidableEq

/-- Program point of `handleMerge`: in its `range`, or inside `Replace` before the `LoadOrStore` or
    before the `Store`. -/
inductive MergePc (F : Type)
  | ranging
  | load (c : ConnectedClients F)
  | store (c : ConnectedClients F)

/-- The update that `handleMerge` works on. -/
@[simp] def MergePc.pending {F : Type} : MergePc F → Option (ConnectedClients F)
  | .ranging => none
  | .load c | .store c => some c

instance {F : Type} (pc : MergePc F) : Decidable (pc = .ranging) :=
  match pc with
  | .ranging => isTrue rfl
  | .load _ | .store _ => isFalse (by simp)

/-- The state of a node. The keys of `peers` are mirrored in `leader.peers`. -/
structure Node (F : Type) where
  peers : PeerMap
  peerGraph : PeerGraph F
  leader : Leader
  newPeers : List NewPeerCall
  removers : List Remover
  events : EventsPc
  listen : ListenPc
  merge : MergePc F
  closed : List Session
  left : List Session

namespace Node

variable {F : Type}

/-- The node when `ListenForPeers` has started its goroutines. -/
def init : Node F where
  peers := PeerMap.init
  peerGraph := ∅
  leader := Leader.init []
  newPeers := []
  removers := []
  events := .ranging
  listen := .sending
  merge := .ranging
  closed := []
  left := []

/-- The sessions registered so far. -/
def registered (s : Node F) : List Session := s.newPeers.filterMap NewPeerCall.stored

/-- The peer map becomes `m`; the leader goroutines see its keys. -/
def withPeers (s : Node F) (m : PeerMap) : Node F :=
  { s with
    peers := m
    leader :=
      if m.peers.keys = s.peers.peers.keys then s.leader else s.leader.changePeers m.peers.keys }

theorem withPeers_eq {s : Node F} {m : PeerMap} (h : m.peers.keys = s.peers.peers.keys) :
    s.withPeers m = { s with peers := m } := by
  rw [withPeers, if_pos h]

/-- One step of a node: a `NewPeer` is called by `connectPeer` or `peerNegotiation`; the `i`-th such
    call does its next operation; its session is closed by the network; `handlePeerEvents` receives
    or sends; `ListenForPeers` sends; gossip reports that a peer left; the `i`-th remover exits with
    the server, or does its next operation; `handleMerge` takes an update, or does the `LoadOrStore`
    or the `Store` of `Replace`; the leader goroutines do something. -/
inductive Action (F : Type)
  | newPeer (protocol : Protocol) (conf : Config)
  | advance (i : ℕ) (ok : Bool)
  | close (i : ℕ)
  | recvNotify
  | sendEvent
  | sendListen
  | leave (x : UInt64)
  | exit (i : ℕ)
  | remove (i : ℕ)
  | merge (c : ConnectedClients F)
  | mergeLoad
  | mergeStore
  | leader (a : Leader.Action)

/-- The next operation of a remover (peers.go:171-180 and 190-195). -/
def removeStep (s : Node F) (i : ℕ) (r : Remover) : Option (Node F) :=
  match r.pc with
  | .watching =>
      match r.origin with
      | .watcher p =>
          if p ∈ s.closed then some { s with removers := s.removers.set i { r with pc := .graph } }
          else none
      | .leave => none
  | .graph =>
      some { s with
        peerGraph := s.peerGraph.remove r.peer
        removers := s.removers.set i { r with pc := .remove .loadAndDelete } }
  | .remove pc =>
      (RemoveCall.step s.peers ⟨r.peer, pc⟩).map (fun next =>
        { s.withPeers next.1 with
          removers := s.removers.set i
            { r with pc := match next.2.pc with | .returned d => .send d | pc' => .remove pc' }
          closed := match pc with | .bye p => p :: s.closed | _ => s.closed })
  | .send d =>
      (s.leader.membershipCh.send ()).map (fun ch =>
        { s with
          leader := { s.leader with membershipCh := ch }
          removers := s.removers.set i { r with pc := .returned d } })
  | .exited | .returned _ => none

/-- `handleMerge` takes an update (gossip.go:331-334). -/
def mergeStep (cfg : LeaderConfig) (s : Node F) (c : ConnectedClients F) : Option (Node F) :=
  match s.merge with
  | .ranging => if c.peer = cfg.id then some s else some { s with merge := .load c }
  | .load _ | .store _ => none

/-- The `LoadOrStore` of `Replace` and the comparison of the checksums (peer_graph.go:33-38). -/
def loadOrStore (s : Node F) (c : ConnectedClients F) : Node F :=
  match SyncMap.load s.peerGraph c.peer with
  | none => { s with peerGraph := SyncMap.store s.peerGraph c.peer c, merge := .ranging }
  | some old => { s with merge := if old.crc64 ≠ c.crc64 then .store c else .ranging }

/-- One step of a node. -/
def step (cfg : LeaderConfig) (s : Node F) : Action F → Option (Node F)
  | .newPeer protocol conf =>
      some { s with newPeers := s.newPeers ++ [⟨protocol, conf, .load⟩] }
  | .advance i ok =>
      s.newPeers[i]?.bind (fun c => (c.step s.peers ok).map (fun next =>
        { s.withPeers next.1 with newPeers := s.newPeers.set i next.2 }))
  | .close i =>
      (s.newPeers[i]?.bind NewPeerCall.session).map (fun p => { s with closed := p :: s.closed })
  | .recvNotify =>
      if s.events = .ranging then
        s.peers.notify.recv.map (fun next =>
          { s with
            peers := { s.peers with notify := next.2 }
            removers := s.removers ++ [⟨.watcher next.1, next.1.peer, .watching⟩]
            events := .sending })
      else none
  | .sendEvent =>
      if s.events = .sending then
        (s.leader.membershipCh.send ()).map (fun ch =>
          { s with leader := { s.leader with membershipCh := ch }, events := .ranging })
      else none
  | .sendListen =>
      if s.listen = .sending then
        (s.leader.membershipCh.send ()).map (fun ch =>
          { s with leader := { s.leader with membershipCh := ch }, listen := .returned })
      else none
  | .leave x =>
      some { s with
        removers := s.removers ++ [⟨.leave, x, .graph⟩]
        left := s.registered.filter (fun p => p.peer = x) ++ s.left }
  | .exit i =>
      s.removers[i]?.bind (fun r =>
        if r.pc = .watching ∧ s.leader.done = true then
          some { s with removers := s.removers.set i { r with pc := .exited } }
        else none)
  | .remove i => s.removers[i]?.bind (s.removeStep i)
  | .merge c => s.mergeStep cfg c
  | .mergeLoad =>
      match s.merge with
      | .load c => some (s.loadOrStore c)
      | .ranging | .store _ => none
  | .mergeStore =>
      match s.merge with
      | .store c =>
          some { s with peerGraph := SyncMap.store s.peerGraph c.peer c, merge := .ranging }
      | .ranging | .load _ => none
  | .leader (.changePeers _) | .leader .membershipSend => none
  | .leader a => (s.leader.step cfg a).map (fun l => { s with leader := l })

/-- A node with this ID, over every sequence of connections, closures and gossip. -/
def machine (F : Type) (cfg : LeaderConfig) : Machine (Node F) (Action F) where
  Init s := s = init
  step s a := s.step cfg a

/-! ## The rules -/

/-- What one step of a node can be. -/
inductive Step (cfg : LeaderConfig) (s : Node F) : Action F → Node F → Prop
  | newPeer (protocol : Protocol) (conf : Config) :
      Step cfg s (.newPeer protocol conf)
        { s with newPeers := s.newPeers ++ [⟨protocol, conf, .load⟩] }
  | advance {i : ℕ} {ok : Bool} {c c' : NewPeerCall} {m' : PeerMap}
      (hc : s.newPeers[i]? = some c) (hstep : c.Step s.peers m' c') :
      Step cfg s (.advance i ok) { s.withPeers m' with newPeers := s.newPeers.set i c' }
  | close {i : ℕ} {c : NewPeerCall} {p : Session} (hc : s.newPeers[i]? = some c)
      (hp : c.session = some p) : Step cfg s (.close i) { s with closed := p :: s.closed }
  | recvNotify {p : Session} {ch : Chan Session 16} (hpc : s.events = .ranging)
      (hch : s.peers.notify.recv = some (p, ch)) :
      Step cfg s .recvNotify
        { s with
          peers := { s.peers with notify := ch }
          removers := s.removers ++ [⟨.watcher p, p.peer, .watching⟩]
          events := .sending }
  | sendEvent {ch : Signal} (hpc : s.events = .sending)
      (hch : s.leader.membershipCh.send () = some ch) :
      Step cfg s .sendEvent
        { s with leader := { s.leader with membershipCh := ch }, events := .ranging }
  | sendListen {ch : Signal} (hpc : s.listen = .sending)
      (hch : s.leader.membershipCh.send () = some ch) :
      Step cfg s .sendListen
        { s with leader := { s.leader with membershipCh := ch }, listen := .returned }
  | leave (x : UInt64) :
      Step cfg s (.leave x)
        { s with
          removers := s.removers ++ [⟨.leave, x, .graph⟩]
          left := s.registered.filter (fun p => p.peer = x) ++ s.left }
  | exit {i : ℕ} {r : Remover} (hr : s.removers[i]? = some r) (hpc : r.pc = .watching)
      (hdone : s.leader.done = true) :
      Step cfg s (.exit i) { s with removers := s.removers.set i { r with pc := .exited } }
  | fire {i : ℕ} {r : Remover} {p : Session} (hr : s.removers[i]? = some r)
      (hpc : r.pc = .watching) (horigin : r.origin = .watcher p) (hclosed : p ∈ s.closed) :
      Step cfg s (.remove i) { s with removers := s.removers.set i { r with pc := .graph } }
  | graph {i : ℕ} {r : Remover} (hr : s.removers[i]? = some r) (hpc : r.pc = .graph) :
      Step cfg s (.remove i)
        { s with
          peerGraph := s.peerGraph.remove r.peer
          removers := s.removers.set i { r with pc := .remove .loadAndDelete } }
  | absent {i : ℕ} {r : Remover} (hr : s.removers[i]? = some r)
      (hpc : r.pc = .remove .loadAndDelete) (hload : s.peers.peers.load r.peer = none) :
      Step cfg s (.remove i) { s with removers := s.removers.set i { r with pc := .send none } }
  | delete {i : ℕ} {r : Remover} {p : Session} (hr : s.removers[i]? = some r)
      (hpc : r.pc = .remove .loadAndDelete) (hload : s.peers.peers.load r.peer = some p) :
      Step cfg s (.remove i)
        { s.withPeers { s.peers with peers := s.peers.peers.delete r.peer } with
          removers := s.removers.set i { r with pc := .remove (.add p) } }
  | count {i : ℕ} {r : Remover} {p : Session} {num : UInt64} (hr : s.removers[i]? = some r)
      (hpc : r.pc = .remove (.add p)) (hnum : num = s.peers.num + ~~~ 0) :
      Step cfg s (.remove i)
        { s with
          peers := { s.peers with num := num }
          removers := s.removers.set i { r with pc := .remove (.bye p) } }
  | bye {i : ℕ} {r : Remover} {p : Session} (hr : s.removers[i]? = some r)
      (hpc : r.pc = .remove (.bye p)) :
      Step cfg s (.remove i)
        { s with
          removers := s.removers.set i { r with pc := .send (some p) }
          closed := p :: s.closed }
  | sendRemoved {i : ℕ} {r : Remover} {d : Option Session} {ch : Signal}
      (hr : s.removers[i]? = some r) (hpc : r.pc = .send d)
      (hch : s.leader.membershipCh.send () = some ch) :
      Step cfg s (.remove i)
        { s with
          leader := { s.leader with membershipCh := ch }
          removers := s.removers.set i { r with pc := .returned d } }
  | mergeOwn {c : ConnectedClients F} (hpc : s.merge = .ranging) (hself : c.peer = cfg.id) :
      Step cfg s (.merge c) s
  | mergeTake {c : ConnectedClients F} (hpc : s.merge = .ranging) (hself : c.peer ≠ cfg.id) :
      Step cfg s (.merge c) { s with merge := .load c }
  | mergeNew {c : ConnectedClients F} (hpc : s.merge = .load c)
      (hload : SyncMap.load s.peerGraph c.peer = none) :
      Step cfg s .mergeLoad
        { s with peerGraph := SyncMap.store s.peerGraph c.peer c, merge := .ranging }
  | mergeSame {c old : ConnectedClients F} (hpc : s.merge = .load c)
      (hload : SyncMap.load s.peerGraph c.peer = some old) (hcrc : old.crc64 = c.crc64) :
      Step cfg s .mergeLoad { s with merge := .ranging }
  | mergeDiffer {c old : ConnectedClients F} (hpc : s.merge = .load c)
      (hload : SyncMap.load s.peerGraph c.peer = some old) (hcrc : old.crc64 ≠ c.crc64) :
      Step cfg s .mergeLoad { s with merge := .store c }
  | mergeStore {c : ConnectedClients F} (hpc : s.merge = .store c) :
      Step cfg s .mergeStore
        { s with peerGraph := SyncMap.store s.peerGraph c.peer c, merge := .ranging }
  | leader {a : Leader.Action} {l : Leader} (hpeers : ∀ keys, a ≠ .changePeers keys)
      (hsend : a ≠ .membershipSend) (hstep : Leader.Step cfg s.leader a l) :
      Step cfg s (.leader a) { s with leader := l }

variable {cfg : LeaderConfig} {s s' : Node F} {a : Action F}

theorem removeStep_rule {i : ℕ} {r : Remover} (hr : s.removers[i]? = some r)
    (h : s.removeStep i r = some s') : Step cfg s (.remove i) s' := by
  unfold removeStep at h
  split at h
  · next hpc =>
      split at h
      · next p horigin =>
          simp only [Option.ite_none_right_eq_some, Option.some.injEq] at h
          obtain ⟨hclosed, rfl⟩ := h
          exact .fire hr hpc horigin hclosed
      · exact absurd h (by simp)
  · next hpc =>
      simp only [Option.some.injEq] at h
      subst h
      exact .graph hr hpc
  · next pc hpc =>
      obtain ⟨⟨m', c'⟩, hstep, rfl⟩ := Option.map_eq_some_iff.1 h
      cases RemoveCall.step_rule hstep with
      | absent hpc' hload =>
          simp only at hpc' hload
          subst hpc'
          rw [withPeers_eq rfl]
          exact .absent hr hpc hload
      | delete hpc' hload =>
          simp only at hpc' hload
          subst hpc'
          exact .delete hr hpc hload
      | add hpc' =>
          simp only at hpc'
          subst hpc'
          have hsame : s.withPeers { s.peers with num := s.peers.num + ~~~ 0 }
              = { s with peers := { s.peers with num := s.peers.num + ~~~ 0 } } := withPeers_eq rfl
          simp only [hsame]
          exact .count hr hpc rfl
      | bye hpc' =>
          simp only at hpc'
          subst hpc'
          rw [withPeers_eq rfl]
          exact .bye hr hpc
  · next d hpc =>
      obtain ⟨ch, hch, rfl⟩ := Option.map_eq_some_iff.1 h
      exact .sendRemoved hr hpc hch
  · exact absurd h (by simp)
  · exact absurd h (by simp)

theorem mergeStep_rule {c : ConnectedClients F} (h : s.mergeStep cfg c = some s') :
    Step cfg s (.merge c) s' := by
  unfold mergeStep at h
  split at h
  · next hpc =>
      split at h
      · next hself => exact Option.some.inj h ▸ .mergeOwn hpc hself
      · next hself => exact Option.some.inj h ▸ .mergeTake hpc hself
  · cases h
  · cases h

theorem loadOrStore_rule {c : ConnectedClients F} (hpc : s.merge = .load c) :
    Step cfg s .mergeLoad (s.loadOrStore c) := by
  unfold loadOrStore
  split
  · next hload => exact .mergeNew hpc hload
  · next old hload =>
      split
      · next hcrc => exact .mergeDiffer hpc hload hcrc
      · next hcrc => exact .mergeSame hpc hload (not_ne_iff.1 hcrc)

/-- Every step of a node is one of the rules. -/
theorem step_rule (h : s.step cfg a = some s') : Step cfg s a s' := by
  cases a with
  | newPeer protocol conf =>
      simp only [step, Option.some.injEq] at h
      subst h
      exact .newPeer protocol conf
  | advance i ok =>
      obtain ⟨c, hc, h⟩ := Option.bind_eq_some_iff.1 h
      obtain ⟨⟨m', c'⟩, hstep, rfl⟩ := Option.map_eq_some_iff.1 h
      exact .advance hc (NewPeerCall.step_rule hstep)
  | close i =>
      obtain ⟨p, hp, rfl⟩ := Option.map_eq_some_iff.1 h
      obtain ⟨c, hc, hp⟩ := Option.bind_eq_some_iff.1 hp
      exact .close hc hp
  | recvNotify =>
      simp only [step, Option.ite_none_right_eq_some, Option.map_eq_some_iff] at h
      obtain ⟨hpc, ⟨p, ch⟩, hch, rfl⟩ := h
      exact .recvNotify hpc hch
  | sendEvent =>
      simp only [step, Option.ite_none_right_eq_some, Option.map_eq_some_iff] at h
      obtain ⟨hpc, ch, hch, rfl⟩ := h
      exact .sendEvent hpc hch
  | sendListen =>
      simp only [step, Option.ite_none_right_eq_some, Option.map_eq_some_iff] at h
      obtain ⟨hpc, ch, hch, rfl⟩ := h
      exact .sendListen hpc hch
  | leave x =>
      simp only [step, Option.some.injEq] at h
      subst h
      exact .leave x
  | exit i =>
      obtain ⟨r, hr, h⟩ := Option.bind_eq_some_iff.1 h
      simp only [Option.ite_none_right_eq_some, Option.some.injEq] at h
      obtain ⟨⟨hpc, hdone⟩, rfl⟩ := h
      exact .exit hr hpc hdone
  | remove i =>
      obtain ⟨r, hr, h⟩ := Option.bind_eq_some_iff.1 h
      exact removeStep_rule hr h
  | merge c => exact mergeStep_rule h
  | mergeLoad =>
      simp only [step] at h
      split at h
      · next c hpc => exact Option.some.inj h ▸ loadOrStore_rule hpc
      · cases h
      · cases h
  | mergeStore =>
      simp only [step] at h
      split at h
      · next c hpc => exact Option.some.inj h ▸ .mergeStore hpc
      · cases h
      · cases h
  | leader a =>
      cases a with
      | changePeers keys => exact absurd h (by simp [step])
      | membershipSend => exact absurd h (by simp [step])
      | _ =>
          simp only [step, Option.map_eq_some_iff] at h
          obtain ⟨l, hl, rfl⟩ := h
          exact .leader (by simp) (by simp) (Leader.step_iff.1 hl)

/-! ## The graph of a node and the node itself -/

/-- The graph has no entry for the node itself, and `handleMerge` does not work on one. -/
structure NotSelf (cfg : LeaderConfig) (s : Node F) : Prop where
  graph : SyncMap.load s.peerGraph cfg.id = none
  merging : ∀ c, s.merge.pending = some c → c.peer ≠ cfg.id

theorem notSelf_init : NotSelf cfg (init : Node F) := ⟨by simp [init], by simp [init]⟩

/-- **Step lemma.** -/
theorem NotSelf.step (hs : s.NotSelf cfg) (h : Step cfg s a s') : s'.NotSelf cfg := by
  have hstore : ∀ c, s.merge.pending = some c →
      SyncMap.load (SyncMap.store s.peerGraph c.peer c) cfg.id = none := by
    intro c hc
    rw [SyncMap.load_store_ne _ _ (hs.merging c hc).symm]
    exact hs.graph
  cases h with
  | @graph i r hr hpc =>
      refine ⟨?_, hs.merging⟩
      show SyncMap.load (SyncMap.delete s.peerGraph r.peer) cfg.id = none
      by_cases hid : cfg.id = r.peer
      · rw [hid, SyncMap.load_delete_self]
      · rw [SyncMap.load_delete_ne _ hid]
        exact hs.graph
  | @mergeTake c hpc hself =>
      refine ⟨hs.graph, fun d hd => ?_⟩
      cases hd
      exact hself
  | @mergeNew c hpc hload => exact ⟨hstore c (by simp [hpc]), by simp⟩
  | mergeSame => exact ⟨hs.graph, by simp⟩
  | @mergeDiffer c old hpc hload hcrc =>
      refine ⟨hs.graph, fun d hd => hs.merging d ?_⟩
      rw [hpc]
      exact hd
  | @mergeStore c hpc => exact ⟨hstore c (by simp [hpc]), by simp⟩
  | _ => exact ⟨hs.graph, hs.merging⟩

/-! ## The leader goroutines of a node

What a node does to its leader goroutines is what their own machine allows the environment to do:
the peer map changes, or someone sends on `membershipCh`. -/

theorem Step.leader_step (h : Step cfg s a s') :
    (∃ b, (Leader.machine cfg).step s.leader b = some s'.leader) ∨ s'.leader = s.leader := by
  have hpeers : ∀ m, (∃ b, (Leader.machine cfg).step s.leader b = some (s.withPeers m).leader) ∨
      (s.withPeers m).leader = s.leader := by
    intro m
    by_cases hkeys : m.peers.keys = s.peers.peers.keys
    · exact Or.inr (if_pos hkeys)
    · refine Or.inl ⟨.changePeers m.peers.keys, ?_⟩
      rw [withPeers, if_neg hkeys]
      rfl
  have hsend : ∀ ch, s.leader.membershipCh.send () = some ch →
      ∃ b, (Leader.machine cfg).step s.leader b = some { s.leader with membershipCh := ch } := by
    intro ch hch
    have hstep : Leader.Step cfg s.leader .membershipSend _ := .membershipSend hch
    exact ⟨.membershipSend, Leader.step_iff.2 hstep⟩
  cases h with
  | advance hc hstep => exact hpeers _
  | delete hr hpc hload => exact hpeers _
  | sendEvent hpc hch => exact Or.inl (hsend _ hch)
  | sendListen hpc hch => exact Or.inl (hsend _ hch)
  | sendRemoved hr hpc hch => exact Or.inl (hsend _ hch)
  | leader _ _ hstep => exact Or.inl ⟨_, Leader.step_iff.2 hstep⟩
  | _ => exact Or.inr rfl

/-- **A node runs the leader machine.** What holds of every reachable state of the leader goroutines
    under any membership changes holds of them in a node. -/
theorem leader_reachable (h : (machine F cfg).Reachable s) :
    (Leader.machine cfg).Reachable s.leader := by
  obtain ⟨s₀, tr, rfl, hrun⟩ := h
  obtain ⟨tr', hrun'⟩ := hrun.simulate Node.leader (fun _ _ _ hst => (step_rule hst).leader_step)
  exact ⟨Leader.init [], tr', ⟨[], rfl⟩, hrun'⟩

end Node

end Tunnel.Server
