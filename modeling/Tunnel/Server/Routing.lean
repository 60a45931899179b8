import Tunnel.Multiplexer.Link
import Tunnel.State.BinaryFuse
import Tunnel.State.PeerMap

set_option autoImplicit false

/-! # Finding the path of a stream (`server/server.go`)

A node that gets a stream looks for its destination among its own clients first, and then asks its
peer graph which peer has it. The answer of the graph is a guess in two ways: the filters have false
positives, and `Range` decides which of several matching filters is asked first.

`findPath` therefore finds the peer a client is connected to only if that peer's filter is in the
graph and no other filter in the graph answers for the client (`findPath_eq_host_iff`). A single
false positive of a filter that `Range` happens to enumerate earlier is enough to make a connected
client unreachable (`findPath_false_positive`). -/

namespace Tunnel.Server

open Tunnel.Lib Tunnel.Multiplexer Tunnel.State

variable {F : Type} {lib : FilterLib F}

/-- What routing reads of a node. The graph has no entry for the node itself because `handleMerge`
    skips those, and `PeerMap` keeps every session under the ID it is with. -/
structure Router (lib : FilterLib F) where
  id : UInt64
  clients : PeerMap
  peers : PeerMap
  peerGraph : PeerGraph F
  keyed : peers.Keyed
  built : peerGraph.Built lib
  notSelf : SyncMap.load peerGraph id = none

/-- The session `findPath` returns; the map it was found in tells who is at its other end. -/
inductive Path
  | client (p : Session)
  | peer (p : Session)
deriving DecidableEq

/-- The session of a path. -/
def Path.session : Path → Session
  | .client p | .peer p => p

/-- `multiplexer.ErrDestinationNotFound` -/
def errDestinationNotFound : String := "destination not found among peers"

namespace Router

/-- `Server.findPath`, when `Range` enumerates the peer graph in this order. -/
def findPath (r : Router lib) (order : List (PeerGraph.Entry F)) (link : Link) : Option Path :=
  match r.clients.get link.destination with
  | some p => some (.client p)
  | none => (r.peers.get (PeerGraph.who lib order link.destination)).map .peer

/-- `Server.Forward` and `Server.Direct` up to the stream they open on the session. -/
def forward (r : Router lib) (order : List (PeerGraph.Entry F)) (link : Link) :
    Except String Path :=
  match r.findPath order link with
  | some p => .ok p
  | none => .error ("peer " ++ toString link.destination ++ " not found in peer graph: " ++
      errDestinationNotFound)

/-- The node would relay a stream for `client` to the peer `x`: it does not have the client itself,
    the filter of `x` says yes, and there is a session with `x`. -/
def CanRelay (r : Router lib) (client x : UInt64) : Prop :=
  r.clients.get client = none ∧ r.peerGraph.Claims lib client x ∧ (r.peers.get x).isSome = true

variable {r : Router lib} {link : Link}

/-- The peers a stream may be relayed to, over all orders of enumeration. -/
theorem findPath_peer_iff {x : UInt64} :
    (∃ order p, order.Perm r.peerGraph.entries ∧ r.findPath order link = some (.peer p) ∧
      p.peer = x) ↔ r.CanRelay link.destination x := by
  constructor
  · rintro ⟨order, p, hperm, hpath, rfl⟩
    unfold findPath at hpath
    split at hpath
    · exact absurd hpath (by simp)
    · next hclient =>
        obtain ⟨q, hq, hqp⟩ := Option.map_eq_some_iff.1 hpath
        cases hqp
        obtain ⟨hpeer, hzero⟩ := r.keyed _ _ hq
        rw [hpeer]
        refine ⟨hclient, ?_, by rw [hq, Option.isSome_some]⟩
        rcases PeerGraph.mem_who.1 ⟨order, hperm, rfl⟩ with hclaims | ⟨hnone, _⟩
        · exact hclaims
        · exact absurd hnone hzero
  · rintro ⟨hclient, hclaims, hsome⟩
    obtain ⟨p, hp⟩ := Option.isSome_iff_exists.1 hsome
    obtain ⟨order, hperm, hwho⟩ := PeerGraph.mem_who.2 (Or.inl hclaims)
    refine ⟨order, p, hperm, ?_, (r.keyed x p hp).1⟩
    simp [findPath, hclient, hwho, hp]

/-- A node never relays a stream to itself. -/
theorem CanRelay.ne_id {client x : UInt64} (h : r.CanRelay client x) : x ≠ r.id := by
  rintro rfl
  obtain ⟨_, ⟨c, hload, _⟩, _⟩ := h
  rw [r.notSelf] at hload
  exact absurd hload (by simp)

/-- Every entry of the graph is the current `ConnectedClients` of its peer: built of the clients
    `clientsOf` says the peer has now, in the order its own `Snapshot` listed them. -/
def Current (r : Router lib) (clientsOf : UInt64 → List UInt64) : Prop :=
  ∀ x c, SyncMap.load r.peerGraph x = some c →
    ∃ snapshot, snapshot.Perm (clientsOf x) ∧ newConnectedClients lib x snapshot = .ok c

/-- The current filter of a peer says yes for each of its clients. -/
theorem Current.claims {clientsOf : UInt64 → List UInt64} (h : r.Current clientsOf)
    {client x : UInt64} {c : ConnectedClients F} (hload : SyncMap.load r.peerGraph x = some c)
    (hclient : client ∈ clientsOf x) : r.peerGraph.Claims lib client x := by
  obtain ⟨snapshot, hperm, hnew⟩ := h x c hload
  exact ⟨c, hload, (newConnectedClients_ok hnew).2 client (hperm.mem_iff.2 hclient)⟩

/-- **When routing reaches the peer that hosts the client.** The graph entries are current, the
    client is not connected here, and it is connected to the connected peer `host`. Then `findPath`
    returns the session with `host` in every order of enumeration exactly if the graph has an entry
    for `host` and no other filter in the graph answers yes for the client. -/
theorem findPath_eq_host_iff (r : Router lib) (link : Link) {clientsOf : UInt64 → List UInt64}
    {host : UInt64} {p : Session} (hcurrent : r.Current clientsOf)
    (hlocal : r.clients.get link.destination = none) (hhost : r.peers.get host = some p)
    (hclient : link.destination ∈ clientsOf host) :
    (∀ order, order.Perm r.peerGraph.entries → r.findPath order link = some (.peer p)) ↔
      (SyncMap.load r.peerGraph host).isSome = true ∧
        ∀ x, x ≠ host → ¬ r.peerGraph.Claims lib link.destination x := by
  obtain ⟨hpeer, hzero⟩ := r.keyed host p hhost
  have hpath : ∀ order, r.findPath order link
      = (r.peers.get (PeerGraph.who lib order link.destination)).map .peer := by
    intro order
    simp [findPath, hlocal]
  have hback : ∀ x, r.peers.get x = some p → x = host :=
    fun x hx => (r.keyed x p hx).1.symm.trans hpeer
  constructor
  · intro hall
    have hwho : ∀ order, order.Perm r.peerGraph.entries →
        PeerGraph.who lib order link.destination = host := by
      intro order hperm
      have hfound := hall order hperm
      rw [hpath, Option.map_eq_some_iff] at hfound
      obtain ⟨q, hq, hqp⟩ := hfound
      cases hqp
      exact hback _ hq
    constructor
    · rcases PeerGraph.mem_who.1 ⟨_, List.Perm.refl _, hwho _ (List.Perm.refl _)⟩ with
        ⟨c, hload, _⟩ | ⟨hnone, _⟩
      · rw [hload, Option.isSome_some]
      · exact absurd hnone hzero
    · intro x hx hclaims
      obtain ⟨order, hperm, hwhox⟩ := PeerGraph.mem_who.2 (Or.inl hclaims)
      exact hx (hwhox.symm.trans (hwho order hperm))
  · rintro ⟨hentry, hothers⟩ order hperm
    obtain ⟨c, hload⟩ := Option.isSome_iff_exists.1 hentry
    have hyes := hcurrent.claims hload hclient
    have hwho : PeerGraph.who lib order link.destination = host := by
      rcases PeerGraph.mem_who.1 ⟨order, hperm, rfl⟩ with hclaims | ⟨_, hnone⟩
      · by_contra hne
        exact hothers _ hne hclaims
      · exact absurd hyes (hnone host)
    rw [hpath, hwho, hhost, Option.map_some]

end Router

/-! ## A node with two peers

Node 1 has sessions with nodes 2 and 3. Client 80645 is connected to node 2, and client 6 or client
5 to node 3. The filter that the library makes of client 5 answers for client 80645 too, and so does
the one below: the two IDs have the same lowest byte. -/

/-- A filter that keeps the lowest byte of each key: like a `BinaryFuse8`, whose fingerprints have
    eight bits, it has no false negatives and some false positives. -/
def byteFilter : FilterLib (List UInt8) where
  populate keys := .ok (keys.map UInt64.toUInt8)
  contains f k := f.contains k.toUInt8
  complete := by
    rintro keys f hf k hk
    cases hf
    exact List.contains_iff_mem.2 (List.mem_map_of_mem hk)

/-- The `ConnectedClients` of `peer` in the byte filter. -/
def byteClients (peer : UInt64) (clients : List UInt64) : ConnectedClients (List UInt8) :=
  ⟨peer, crc64 (clients.flatMap putUint64), clients.map UInt64.toUInt8⟩

theorem newConnectedClients_byteFilter (peer : UInt64) (clients : List UInt64) :
    newConnectedClients byteFilter peer clients = .ok (byteClients peer clients) := rfl

/-- A session of the examples with `peer`. -/
def sessionWith (peer : UInt64) : Session := ⟨peer.toNat, peer, .yamux, true⟩

/-- A peer map with sessions with these peers. -/
def connectedTo (peers : List UInt64) : PeerMap :=
  peers.foldr (fun x m => { m with peers := m.peers.store x (sessionWith x) }) PeerMap.init

theorem keyed_connectedTo {peers : List UInt64} (h : 0 ∉ peers) : (connectedTo peers).Keyed := by
  induction peers with
  | nil => exact PeerMap.keyed_init
  | cons x rest ih =>
      rw [List.mem_cons, not_or] at h
      exact (ih h.2).store (p := sessionWith x) (Ne.symm h.1)

/-- A graph that has merged the filters of these peers, in turn. -/
def merged (updates : List (UInt64 × List UInt64)) : PeerGraph (List UInt8) :=
  updates.foldr (fun u g => (PeerGraph.replace g (byteClients u.1 u.2)).2) ∅

theorem built_merged (updates : List (UInt64 × List UInt64)) :
    (merged updates).Built byteFilter := by
  induction updates with
  | nil => exact PeerGraph.built_empty
  | cons u rest ih => exact ih.replace (newConnectedClients_byteFilter u.1 u.2)

/-- What is in the graph was merged. -/
theorem mem_of_load_merged {updates : List (UInt64 × List UInt64)} {x : UInt64}
    {c : ConnectedClients (List UInt8)} (h : SyncMap.load (merged updates) x = some c) :
    ∃ clients, (x, clients) ∈ updates ∧ c = byteClients x clients := by
  induction updates with
  | nil => exact absurd h (by simp [merged])
  | cons u rest ih =>
      have hrest : SyncMap.load (merged rest) x = some c →
          ∃ clients, (x, clients) ∈ u :: rest ∧ c = byteClients x clients := by
        intro hload
        obtain ⟨clients, hmem, hc⟩ := ih hload
        exact ⟨clients, List.mem_cons_of_mem _ hmem, hc⟩
      by_cases hx : x = u.1
      · subst hx
        rcases PeerGraph.load_replace_self (c := byteClients u.1 u.2) h with hc | hold
        · exact ⟨u.2, List.mem_cons_self, hc⟩
        · exact hrest hold
      · refine hrest ?_
        rwa [merged, List.foldr_cons, PeerGraph.load_replace_ne (c := byteClients u.1 u.2) hx] at h

/-- A node of the examples, with the clients and peers connected to it. -/
def exampleNode (id : UInt64) (clients peers : List UInt64)
    (updates : List (UInt64 × List UInt64)) (hzero : 0 ∉ peers)
    (hself : SyncMap.load (merged updates) id = none) : Router byteFilter where
  id := id
  clients := connectedTo clients
  peers := connectedTo peers
  peerGraph := merged updates
  keyed := keyed_connectedTo hzero
  built := built_merged updates
  notSelf := hself

/-- The clients each peer has, when every update is current. -/
def clientsIn (updates : List (UInt64 × List UInt64)) (x : UInt64) : List UInt64 :=
  (updates.lookup x).getD []

theorem exampleNode_current {id : UInt64} {clients peers : List UInt64}
    {updates : List (UInt64 × List UInt64)} {hzero : 0 ∉ peers}
    {hself : SyncMap.load (merged updates) id = none}
    (h : ∀ u ∈ updates, u.2 = clientsIn updates u.1) :
    (exampleNode id clients peers updates hzero hself).Current (clientsIn updates) := by
  intro x c hload
  obtain ⟨clients, hmem, rfl⟩ := mem_of_load_merged hload
  refine ⟨clients, ?_, rfl⟩
  rw [← h _ hmem]

/-- Node 1 when the clients of its peers do not collide. -/
def distinctNode : Router byteFilter :=
  exampleNode 1 [] [2, 3] [(2, [80645]), (3, [6])] (by decide) (by decide)

theorem findPath_eq_host_iff_distinct :
    distinctNode.Current (clientsIn [(2, [80645]), (3, [6])]) ∧
      distinctNode.clients.get 80645 = none ∧
      distinctNode.peers.get 2 = some (sessionWith 2) ∧
      80645 ∈ clientsIn [(2, [80645]), (3, [6])] 2 ∧
      ∀ order, order.Perm distinctNode.peerGraph.entries →
        distinctNode.findPath order ⟨1, 80645, .unknown, .raw⟩ = some (.peer (sessionWith 2)) := by
  have hcurrent : distinctNode.Current (clientsIn [(2, [80645]), (3, [6])]) :=
    exampleNode_current (by decide)
  have hhost : distinctNode.peers.get 2 = some (sessionWith 2) := by decide
  refine ⟨hcurrent, by decide, hhost, by decide, ?_⟩
  refine (distinctNode.findPath_eq_host_iff ⟨1, 80645, .unknown, .raw⟩ hcurrent (by decide) hhost
    (by decide)).2 ⟨by decide, ?_⟩
  rintro x hx ⟨c, hload, hhas⟩
  obtain ⟨clients, hmem, rfl⟩ := mem_of_load_merged hload
  simp only [List.mem_cons, Prod.mk.injEq, List.not_mem_nil, or_false] at hmem
  rcases hmem with ⟨rfl, rfl⟩ | ⟨rfl, rfl⟩
  · exact hx rfl
  · exact absurd hhas (by decide)

/-- Node 1 when client 5 of node 3 collides with client 80645 of node 2. -/
def collidingNode : Router byteFilter :=
  exampleNode 1 [] [2, 3] [(2, [80645]), (3, [5])] (by decide) (by decide)

theorem findPath_false_positive :
    collidingNode.Current (clientsIn [(2, [80645]), (3, [5])]) ∧
      collidingNode.clients.get 80645 = none ∧
      collidingNode.peers.get 2 = some (sessionWith 2) ∧
      (∀ x ∈ collidingNode.peers.peers.keys, 80645 ∈ clientsIn [(2, [80645]), (3, [5])] x ↔ x = 2) ∧
      ∃ order, order.Perm collidingNode.peerGraph.entries ∧
        collidingNode.findPath order ⟨1, 80645, .unknown, .raw⟩ = some (.peer (sessionWith 3)) ∧
      (BinaryFuse8.ofKey 5).contains 80645 = .ok true := by
  refine ⟨exampleNode_current (by decide), by decide, by decide, by decide,
    collidingNode.peerGraph.entries.reverse, List.reverse_perm _, by decide, by decide +kernel⟩

end Tunnel.Server
