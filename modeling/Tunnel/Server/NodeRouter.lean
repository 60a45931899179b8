import Tunnel.Server.Node
import Tunnel.Server.Routing

set_option autoImplicit false

/-! # A running node routes

The `Router` that finds the path of a stream carries three facts about a node: every session stands
under the ID of its peer, every filter in the peer graph was built by the peer it stands under, and
the graph has no entry for the node itself. They hold in every state of a running node, through
every interleaving of `NewPeer`, `removePeer` and the two operations of `Replace`, if the updates
that reach `handleMerge` are those that the peers sent (`routes_of_reachableVia`). What was proved
of a `Router` therefore holds of a running node (`Routes.router`). -/

namespace Tunnel.Server.Node

open Tunnel.Lib Tunnel.Multiplexer Tunnel.State

variable {F : Type} {lib : FilterLib F} {cfg : LeaderConfig} {s s' : Node F} {a : Action F}

/-- Updates reach `handleMerge` as the peers built them. -/
def HonestUpdates (lib : FilterLib F) (_ : Node F) : Action F → Prop
  | .merge c => ∃ clients, newConnectedClients lib c.peer clients = .ok c
  | _ => True

/-- What a node needs to route: the invariants of its peer map and of its peer graph, with what the
    calls in progress are about to store in them. -/
structure Routes (lib : FilterLib F) (cfg : LeaderConfig) (s : Node F) : Prop where
  calls : ∀ c ∈ s.newPeers, ∀ p, c.session = some p → p.peer = c.conf.peer ∧ p.peer ≠ 0
  keyed : s.peers.Keyed
  built : s.peerGraph.Built lib
  notSelf : s.NotSelf cfg
  merging : ∀ c, s.merge.pending = some c →
    ∃ clients, newConnectedClients lib c.peer clients = .ok c

namespace Routes

theorem init : Routes lib cfg (Node.init : Node F) where
  calls := by simp [Node.init]
  keyed := PeerMap.keyed_init
  built := PeerGraph.built_empty
  notSelf := notSelf_init
  merging := by simp [Node.init]

/-- A `NewPeer` does its next operation. -/
theorem advance (hs : s.Routes lib cfg) {i : ℕ} {c c' : NewPeerCall} {m' : PeerMap}
    (hc : s.newPeers[i]? = some c) (hstep : c.Step s.peers m' c') :
    Routes lib cfg { s.withPeers m' with newPeers := s.newPeers.set i c' } := by
  have hcall := hs.calls c (List.mem_of_getElem? hc)
  have hcalls : ∀ p, c'.session = some p → p.peer = c'.conf.peer ∧ p.peer ≠ 0 := by
    intro p hp
    rw [hstep.conf]
    rcases hstep.session with ⟨_, hsame | hnone⟩ | ⟨_, _, hzero, hnew⟩
    · exact hcall p (hsame ▸ hp)
    · rw [hnone] at hp
      exact absurd hp (by simp)
    · rw [hnew, Option.some.injEq] at hp
      exact hp ▸ ⟨rfl, hzero⟩
  refine ⟨forall_mem_set hs.calls hcalls, ?_, hs.built, ⟨hs.notSelf.graph, hs.notSelf.merging⟩,
    hs.merging⟩
  cases hstep with
  | @store p hpc =>
      obtain ⟨hpeer, hzero⟩ := hcall p (by simp [NewPeerCall.session, hpc])
      show PeerMap.Keyed { s.peers with peers := s.peers.peers.store c.conf.peer p }
      rw [← hpeer]
      exact hs.keyed.store hzero
  | _ => exact hs.keyed

/-- The graph stores the update that `handleMerge` works on. -/
theorem storeUpdate (hs : s.Routes lib cfg) {c : ConnectedClients F}
    (hc : s.merge.pending = some c) :
    PeerGraph.Built lib (SyncMap.store s.peerGraph c.peer c) := by
  obtain ⟨clients, hc⟩ := hs.merging c hc
  exact hs.built.store hc

theorem step (hs : s.Routes lib cfg) (hok : s.HonestUpdates lib a) (h : Step cfg s a s') :
    s'.Routes lib cfg := by
  have hnotSelf := hs.notSelf.step h
  cases h with
  | newPeer protocol conf =>
      refine ⟨fun c hc p hp => ?_, hs.keyed, hs.built, hnotSelf, hs.merging⟩
      rcases List.mem_append.1 hc with hc | hc
      · exact hs.calls c hc p hp
      · -- a new call has no session yet
        rw [List.mem_singleton] at hc
        rw [hc] at hp
        exact absurd hp (by simp [NewPeerCall.session])
  | advance hc hstep => exact hs.advance hc hstep
  | @graph i r hr hpc =>
      exact ⟨hs.calls, hs.keyed, hs.built.remove r.peer, hnotSelf, hs.merging⟩
  | @delete i r p hr hpc hload =>
      exact ⟨hs.calls, hs.keyed.delete r.peer, hs.built, hnotSelf, hs.merging⟩
  | mergeTake hpc hself =>
      refine ⟨hs.calls, hs.keyed, hs.built, hnotSelf, fun c hc => ?_⟩
      cases hc
      exact hok
  | mergeNew hpc hload =>
      exact ⟨hs.calls, hs.keyed, hs.storeUpdate (by simp [hpc]), hnotSelf, by simp⟩
  | mergeSame => exact ⟨hs.calls, hs.keyed, hs.built, hnotSelf, by simp⟩
  | mergeDiffer hpc hload hcrc =>
      refine ⟨hs.calls, hs.keyed, hs.built, hnotSelf, fun c hc => hs.merging c ?_⟩
      rw [hpc]
      exact hc
  | mergeStore hpc =>
      exact ⟨hs.calls, hs.keyed, hs.storeUpdate (by simp [hpc]), hnotSelf, by simp⟩
  | _ => exact ⟨hs.calls, hs.keyed, hs.built, hnotSelf, hs.merging⟩

/-- The router of a node, with the clients that are connected to it. -/
def router (hs : s.Routes lib cfg) (clients : PeerMap) : Router lib :=
  ⟨cfg.id, clients, s.peers, s.peerGraph, hs.keyed, hs.built, hs.notSelf.graph⟩

end Routes

theorem routes_of_reachableVia (h : (machine F cfg).ReachableVia (HonestUpdates lib) s) :
    s.Routes lib cfg := by
  refine h.invariant ?_ (fun _ _ _ hI hok hst => hI.step hok (step_rule hst))
  rintro s rfl
  exact Routes.init

/-- **A running node relays a stream only to another node**, over the session with it: whatever the
    interleaving that led here, the clients connected and the order of enumeration. -/
theorem findPath_of_reachableVia (h : (machine F cfg).ReachableVia (HonestUpdates lib) s)
    (clients : PeerMap) {order : List (PeerGraph.Entry F)} (hperm : order.Perm s.peerGraph.entries)
    {link : Link} {p : Session}
    (hpath : ((routes_of_reachableVia h).router clients).findPath order link = some (.peer p)) :
    p.peer ≠ cfg.id ∧ s.peers.get p.peer = some p := by
  have hrelay := Router.findPath_peer_iff.1 ⟨order, p, hperm, hpath, rfl⟩
  refine ⟨hrelay.ne_id, ?_⟩
  unfold Router.findPath at hpath
  split at hpath
  · exact absurd hpath (by simp)
  · obtain ⟨q, hq, hqp⟩ := Option.map_eq_some_iff.1 hpath
    cases hqp
    have hkey := ((routes_of_reachableVia h).keyed _ _ hq).1
    rw [hkey]
    exact hq

end Tunnel.Server.Node
