import Tunnel.Server.Ghost
import Tunnel.Server.Handshake
import Tunnel.Server.Routing
import Tunnel.State.PeerMapCount

set_option autoImplicit false

/-! # A node never peers with itself (`server/gossip.go`, `server/peers.go`, `server/server.go`)

Sessions with peers come in through five doors: `NotifyJoin` and `peerReconciliation` start
`connectPeer`, `peerNegotiation` answers an inbound handshake, both end in `NewPeer`, whose
constructors validate the configuration; and `handleMerge` puts filters into the peer graph. What a
node hears there is under the control of others: the names and metadata of members, the bytes of a
handshake, the `Peer` field of a filter.

Each door keeps the node's own ID out by a check of its own, and the constructors keep 0 out. So no
run leads to a session under either, nor to an entry of the graph for the node itself, and
`findPath` cannot return one, also when `Who` finds nobody and answers 0. The ID of a client is the
hash of a random hostname, which nobody compares with the node's own ID; as long as none is that ID,
`findPath` does not return a client's session under it either (`never_peers_with_itself`). -/

namespace Tunnel.State

open Tunnel.Lib Tunnel.Multiplexer

variable {ok : UInt64 → Prop}

/-- Every session stands under the ID of its peer, which is not 0 and for which `ok` holds. -/
def PeerMap.Only (ok : UInt64 → Prop) (m : PeerMap) : Prop :=
  ∀ x p, m.peers.load x = some p → p.peer = x ∧ x ≠ 0 ∧ ok x

/-- The call is for a peer for which `ok` holds, and its session is with that peer, which is
    not 0. -/
def NewPeerCall.Only (ok : UInt64 → Prop) (c : NewPeerCall) : Prop :=
  ok c.conf.peer ∧ ∀ p, c.session = some p → p.peer = c.conf.peer ∧ p.peer ≠ 0

theorem PeerMap.only_init : PeerMap.init.Only ok := by
  intro x p h
  exact absurd h (by simp [PeerMap.init])

theorem PeerMap.Only.delete {m : PeerMap} (hm : m.Only ok) (y : UInt64) :
    PeerMap.Only ok { m with peers := m.peers.delete y } :=
  fun x p h => hm x p (SyncMap.load_of_load_delete h)

theorem PeerMap.Only.withNum {m : PeerMap} (hm : m.Only ok) (n : UInt64) :
    PeerMap.Only ok { m with num := n } :=
  hm

theorem NewPeerCall.only_new {p : Protocol} {conf : Config} (h : ok conf.peer) :
    NewPeerCall.Only ok ⟨p, conf, .load⟩ :=
  ⟨h, fun p hp => absurd hp (by simp [NewPeerCall.session])⟩

/-- An operation of `NewPeer` stores nothing but a session with the peer of the call. -/
theorem NewPeerCall.Step.only {m m' : PeerMap} {c c' : NewPeerCall} (h : c.Step m m' c')
    (hm : m.Only ok) (hc : c.Only ok) : m'.Only ok ∧ c'.Only ok := by
  have hcall : c'.Only ok := by
    refine ⟨h.conf ▸ hc.1, fun p hp => ?_⟩
    rw [h.conf]
    rcases h.session with ⟨_, hsame | hnone⟩ | ⟨_, _, hzero, hnew⟩
    · exact hc.2 p (hsame ▸ hp)
    · rw [hnone] at hp
      cases hp
    · rw [hnew, Option.some.injEq] at hp
      exact hp ▸ ⟨rfl, hzero⟩
  refine ⟨?_, hcall⟩
  cases h with
  | @store p hpc =>
      obtain ⟨hpeer, hzero⟩ := hc.2 p (by simp [NewPeerCall.session, hpc])
      intro x q hq
      by_cases hx : x = c.conf.peer
      · subst hx
        simp only [SyncMap.load_store_self, Option.some.injEq] at hq
        exact ⟨hq ▸ hpeer, hpeer ▸ hzero, hc.1⟩
      · exact hm x q (by simpa [SyncMap.load_store_ne _ _ hx] using hq)
  | add => exact hm.withNum _
  | _ => exact hm

namespace Calls

variable {s s' : Calls} {a : Action}

/-- What holds of the calls on a map and of the map itself. -/
def Only (ok : UInt64 → Prop) (s : Calls) : Prop :=
  s.map.Only ok ∧ ∀ c ∈ s.calls, ∀ n, c = .newPeer n → n.Only ok

theorem only_init : Only ok ⟨PeerMap.init, []⟩ :=
  ⟨PeerMap.only_init, fun c hc => absurd hc (by simp)⟩

/-- **Step lemma.** If all calls are for peers for which `ok` holds, so are all sessions. -/
theorem Only.step (hs : s.Only ok)
    (hnew : ∀ protocol conf, a = .newPeer protocol conf → ok conf.peer)
    (h : s.step a = some s') : s'.Only ok := by
  obtain ⟨hmap, hcalls⟩ := hs
  cases a with
  | newPeer protocol conf =>
      cases h
      refine ⟨hmap, List.forall_mem_append.2 ⟨hcalls, List.forall_mem_singleton.2 fun n hn => ?_⟩⟩
      rw [← Call.newPeer.inj hn]
      exact NewPeerCall.only_new (hnew protocol conf rfl)
  | remove peer =>
      cases h
      refine ⟨hmap, List.forall_mem_append.2 ⟨hcalls, List.forall_mem_singleton.2 fun n hn => ?_⟩⟩
      cases hn
  | advance i go =>
      obtain ⟨c, hc, h⟩ := Option.bind_eq_some_iff.1 h
      obtain ⟨⟨m', c'⟩, hstep, rfl⟩ := Option.map_eq_some_iff.1 h
      cases c with
      | newPeer n =>
          obtain ⟨⟨m₁, n'⟩, hn, heq⟩ := Option.map_eq_some_iff.1 hstep
          cases heq
          obtain ⟨hmap', hn'⟩ := (NewPeerCall.step_rule hn).only hmap
            (hcalls _ (List.mem_of_getElem? hc) n rfl)
          refine ⟨hmap', forall_mem_set hcalls (fun q hq => ?_)⟩
          rw [← Call.newPeer.inj hq]
          exact hn'
      | remove r =>
          obtain ⟨⟨m₁, r'⟩, hr, heq⟩ := Option.map_eq_some_iff.1 hstep
          cases heq
          refine ⟨?_, forall_mem_set hcalls (fun q hq => by cases hq)⟩
          cases RemoveCall.step_rule hr with
          | delete => exact hmap.delete r.peer
          | add => exact hmap.withNum _
          | _ => exact hmap
  | recvNotify =>
      obtain ⟨r, _, rfl⟩ := Option.map_eq_some_iff.1 h
      exact ⟨hmap, hcalls⟩

end Calls

end Tunnel.State

namespace Tunnel.Server

open Tunnel.Lib Tunnel.Multiplexer Tunnel.State

variable {F : Type}

/-- **Step lemma for a node.** If every `NewPeer` is for a peer for which `ok` holds, so is every
    session. -/
theorem Node.Step.only {ok : UInt64 → Prop} {cfg : LeaderConfig} {n n' : Node F}
    {a : Node.Action F} (h : Node.Step cfg n a n')
    (hnew : ∀ protocol conf, a = .newPeer protocol conf → ok conf.peer)
    (hpeers : n.peers.Only ok) (hcalls : ∀ c ∈ n.newPeers, c.Only ok) :
    n'.peers.Only ok ∧ ∀ c ∈ n'.newPeers, c.Only ok := by
  cases h with
  | newPeer protocol conf =>
      have hc := NewPeerCall.only_new (p := protocol) (hnew protocol conf rfl)
      exact ⟨hpeers, List.forall_mem_append.2 ⟨hcalls, List.forall_mem_singleton.2 hc⟩⟩
  | advance hc hstep =>
      obtain ⟨hpeers', hc'⟩ := hstep.only hpeers (hcalls _ (List.mem_of_getElem? hc))
      exact ⟨hpeers', forall_mem_set hcalls hc'⟩
  | @delete i r p hr hpc hload => exact ⟨hpeers.delete r.peer, hcalls⟩
  | _ => exact ⟨hpeers, hcalls⟩

/-! ## A node among others -/

/-- A node with all that may lead to a session. `passes` are the passes of `peerReconciliation` that
    are under way, each with its variable `m` and the members that are left, and `dials` the calls
    of `connectPeer` that have not reached their `NewPeer`. `exited` says that `logger.Fatal` has
    ended the program. -/
structure Peering (F : Type) where
  gossip : GossipNode F
  passes : List (Meta × List Member)
  dials : List Meta
  clients : Calls
  exited : Bool

namespace Peering

def init : Peering F := ⟨GossipNode.init, [], [], ⟨PeerMap.init, []⟩, false⟩

/-- A step: memberlist reports that a member joined or left; `peerReconciliation` starts with these
    members, or goes over the next one; a `connectPeer` fails, or calls `NewPeer`; a connection
    comes in over a transport and its first bytes are `r`; the node does anything else; something
    happens to the sessions with clients. -/
inductive Action (F : Type)
  | notifyJoin (node : Member)
  | notifyLeave (node : Member)
  | reconcile (members : List Member)
  | iterate (i : ℕ)
  | connect (i : ℕ) (ok : Bool)
  | handshake (transport : Transport) (r : List UInt8)
  | gossip (a : GossipNode.Action F)
  | client (a : Calls.Action)

/-- `NewPeer` is called. -/
def call (s : Peering F) (c : NewPeerCall) : Peering F :=
  { s with gossip := { s.gossip with
      node := { s.gossip.node with newPeers := s.gossip.node.newPeers ++ [c] } } }

/-- `NotifyLeave`: the ID for which it calls `removePeer`. -/
def notifyLeave (self : Identity) (node : Member) : Option UInt64 :=
  if node.name = self.name then none
  else match Meta.decode node.metaBytes with
    | .error _ => none
    | .ok m => some m.peerID

/-- One step of the node `self`. -/
def step (self : Identity) (debug : Bool) (s : Peering F) (a : Action F) : Option (Peering F) :=
  if s.exited then none
  else match a with
    | .notifyJoin node => match self.notifyJoin node with
      | .ignore | .respond => some s
      | .fatal => some { s with exited := true }
      | .connectPeer m => some { s with dials := s.dials ++ [m] }
    | .notifyLeave node => match notifyLeave self node with
      | none => some s
      | some x => (s.gossip.step ⟨self.id, debug⟩ (.node (.leave x))).map
          (fun g => { s with gossip := g })
    | .reconcile members => some { s with passes := s.passes ++ [(Meta.zero, members)] }
    | .iterate i => s.passes[i]?.bind (fun pass => match pass with
      | (_, []) => some { s with passes := s.passes.eraseIdx i }
      | (m, node :: rest) =>
          let next := self.reconcileNode s.gossip.node.peers m node
          some { s with
            passes := s.passes.set i (next.1, rest)
            dials := s.dials ++ next.2.toList })
    | .connect i ok => s.dials[i]?.map (fun m =>
        match self.connectPeer m, ok with
        | .ok dial, true => { s with dials := s.dials.eraseIdx i }.call dial.newPeer
        | _, _ => { s with dials := s.dials.eraseIdx i })
    | .handshake transport r =>
        match self.peerNegotiation (acceptableProtocols transport) r with
        | .error _ => some s
        | .ok c => some (s.call c)
    | .gossip (.node (.newPeer _ _)) | .gossip (.node (.leave _)) => none
    | .gossip a => (s.gossip.step ⟨self.id, debug⟩ a).map (fun g => { s with gossip := g })
    | .client a => (s.clients.step a).map (fun c => { s with clients := c })

/-- The node `self`, over every sequence of what others and the network do. -/
def machine (F : Type) (self : Identity) (debug : Bool) : Machine (Peering F) (Action F) where
  Init s := s = init
  step := step self debug

/-- `Server.findPath`, when `Range` enumerates the peer graph in this order. -/
def findPath (lib : FilterLib F) (s : Peering F) (order : List (PeerGraph.Entry F)) (link : Link) :
    Option Path :=
  match s.clients.map.get link.destination with
  | some p => some (.client p)
  | none => (s.gossip.node.peers.get (PeerGraph.who lib order link.destination)).map .peer

/-- The `Router` of `Routing.lean` has the sessions and the graph of such a node. -/
theorem findPath_router {lib : FilterLib F} (r : Router lib) (s : Peering F)
    (hclients : r.clients = s.clients.map) (hpeers : r.peers = s.gossip.node.peers)
    (order : List (PeerGraph.Entry F)) (link : Link) :
    r.findPath order link = s.findPath lib order link := by
  cases hclient : s.clients.map.get link.destination with
  | none => simp only [Router.findPath, findPath, hclients, hpeers, hclient]
  | some p => simp only [Router.findPath, findPath, hclients, hclient]

/-! ## The five doors -/

variable {self : Identity} {debug : Bool} {s s' : Peering F}

/-- `NotifyJoin` and `peerReconciliation` never dial the node itself. -/
theorem ne_of_notifyJoin {node : Member} {m : Meta} (h : self.notifyJoin node = .connectPeer m) :
    m.peerID ≠ self.id := by
  unfold Identity.notifyJoin at h
  split at h
  · cases h
  · split at h
    · cases h
    · split at h
      · cases h
      · next hne =>
          split at h
          · cases h
            exact hne
          · cases h

theorem ne_of_reconcileNode {peers : PeerMap} {m d : Meta} {node : Member}
    (h : d ∈ (self.reconcileNode peers m node).2.toList) : d.peerID ≠ self.id := by
  by_cases hnode : ∃ d', self.Considers node d'
  · obtain ⟨d', hd'⟩ := hnode
    rw [Identity.reconcileNode_of_considers hd'] at h
    simp only [Option.mem_toList, Option.ite_none_right_eq_some, Option.some.injEq] at h
    obtain ⟨⟨hne, _⟩, rfl⟩ := h
    exact hne
  · rw [Identity.reconcileNode_of_not_considers (not_exists.1 hnode)] at h
    cases h

/-- `connectPeer` calls `NewPeer` for the peer of the metadata. -/
theorem only_of_connectPeer {m : Meta} {dial : Dial} (hm : m.peerID ≠ self.id)
    (h : self.connectPeer m = .ok dial) : dial.newPeer.Only (· ≠ self.id) := by
  unfold Identity.connectPeer at h
  split at h
  · cases h
  · cases h
    exact NewPeerCall.only_new hm

/-- `peerNegotiation` refuses a handshake from the node itself. -/
theorem only_of_peerNegotiation {acceptable : List Protocol} {r : List UInt8} {c : NewPeerCall}
    (h : self.peerNegotiation acceptable r = .ok c) : c.Only (· ≠ self.id) := by
  obtain ⟨link, _, _, _, hself, rfl⟩ := Identity.peerNegotiation_ok h
  exact NewPeerCall.only_new hself

/-- The other steps of the node, those of `handleMerge` among them. -/
theorem only_of_gossip {g g' : GossipNode F} {a : GossipNode.Action F}
    (ha : ∀ protocol conf, a ≠ .node (.newPeer protocol conf))
    (h : g.step ⟨self.id, debug⟩ a = some g') (hpeers : g.node.peers.Only (· ≠ self.id))
    (hcalls : ∀ c ∈ g.node.newPeers, c.Only (· ≠ self.id)) :
    g'.node.peers.Only (· ≠ self.id) ∧ ∀ c ∈ g'.node.newPeers, c.Only (· ≠ self.id) := by
  rcases GossipNode.step_node h with ⟨hsame, _⟩ | ⟨b, rfl, hb⟩ | ⟨rfl, c, hc⟩
  · rw [hsame]
    exact ⟨hpeers, hcalls⟩
  · exact hb.only (fun protocol conf hnew => absurd (hnew ▸ rfl) (ha protocol conf)) hpeers hcalls
  · exact hc.only (fun protocol conf hnew => by cases hnew) hpeers hcalls

theorem notSelf_of_gossip {g g' : GossipNode F} {a : GossipNode.Action F}
    (h : g.step ⟨self.id, debug⟩ a = some g') (hg : g.node.NotSelf ⟨self.id, debug⟩) :
    g'.node.NotSelf ⟨self.id, debug⟩ := by
  rcases GossipNode.step_node h with ⟨hsame, _⟩ | ⟨b, rfl, hb⟩ | ⟨rfl, c, hc⟩
  · rwa [hsame]
  · exact hg.step hb
  · exact hg.step hc

/-! ## Whole runs -/

/-- No client is registered under the node's own ID: no random hostname has it for its hash. -/
def ClientsElsewhere (self : Identity) (_ : Peering F) : Action F → Prop
  | .client (.newPeer _ conf) => conf.peer ≠ self.id
  | _ => True

/-- What keeps the node from itself: no dial, no call and no session is for its own ID, and the
    graph neither has an entry for it nor is about to get one. The clients have IDs for which `ok`
    holds. -/
structure NoSelf (node : Identity) (debug : Bool) (ok : UInt64 → Prop) (s : Peering F) :
    Prop where
  dials : ∀ m ∈ s.dials, m.peerID ≠ node.id
  peers : s.gossip.node.peers.Only (· ≠ node.id)
  calls : ∀ c ∈ s.gossip.node.newPeers, c.Only (· ≠ node.id)
  graph : s.gossip.node.NotSelf ⟨node.id, debug⟩
  clients : s.clients.Only ok

variable {ok : UInt64 → Prop}

theorem noSelf_init : NoSelf self debug ok (init : Peering F) where
  dials := by simp [init]
  peers := PeerMap.only_init
  calls := by simp [init, GossipNode.init, Node.init]
  graph := Node.notSelf_init
  clients := Calls.only_init

theorem NoSelf.call (hs : NoSelf self debug ok s) {c : NewPeerCall} (hc : c.Only (· ≠ self.id)) :
    NoSelf self debug ok (s.call c) :=
  ⟨hs.dials, hs.peers, List.forall_mem_append.2 ⟨hs.calls, List.forall_mem_singleton.2 hc⟩,
    ⟨hs.graph.graph, hs.graph.merging⟩, hs.clients⟩

theorem NoSelf.gossipStep (hs : NoSelf self debug ok s) {a : GossipNode.Action F}
    (ha : ∀ protocol conf, a ≠ .node (.newPeer protocol conf)) {g : GossipNode F}
    (h : s.gossip.step ⟨self.id, debug⟩ a = some g) :
    NoSelf self debug ok { s with gossip := g } := by
  obtain ⟨hpeers, hcalls⟩ := only_of_gossip ha h hs.peers hs.calls
  exact ⟨hs.dials, hpeers, hcalls, notSelf_of_gossip h hs.graph, hs.clients⟩

theorem NoSelf.eraseDial (hs : NoSelf self debug ok s) (i : ℕ) :
    NoSelf self debug ok { s with dials := s.dials.eraseIdx i } :=
  ⟨fun m hm => hs.dials m (List.mem_of_mem_eraseIdx hm), hs.peers, hs.calls, hs.graph, hs.clients⟩

theorem NoSelf.addDials (hs : NoSelf self debug ok s) {passes : List (Meta × List Member)}
    {ms : List Meta} (h : ∀ m ∈ ms, m.peerID ≠ self.id) :
    NoSelf self debug ok { s with passes := passes, dials := s.dials ++ ms } :=
  ⟨List.forall_mem_append.2 ⟨hs.dials, h⟩, hs.peers, hs.calls, hs.graph, hs.clients⟩

/-- **Step lemma.** -/
theorem NoSelf.step (hs : NoSelf self debug ok s) {a : Action F}
    (hclient : ∀ protocol conf, a = .client (.newPeer protocol conf) → ok conf.peer)
    (h : s.step self debug a = some s') : NoSelf self debug ok s' := by
  unfold Peering.step at h
  split at h
  · cases h
  · cases a with
    | notifyJoin node =>
        simp only at h
        split at h
        · cases h
          exact hs
        · cases h
          exact hs
        · cases h
          exact ⟨hs.dials, hs.peers, hs.calls, hs.graph, hs.clients⟩
        · next m hm =>
            cases h
            exact hs.addDials (fun d hd => List.mem_singleton.1 hd ▸ ne_of_notifyJoin hm)
    | notifyLeave node =>
        simp only at h
        split at h
        · cases h
          exact hs
        · obtain ⟨g, hg, rfl⟩ := Option.map_eq_some_iff.1 h
          exact hs.gossipStep (by simp) hg
    | reconcile members =>
        cases h
        exact ⟨hs.dials, hs.peers, hs.calls, hs.graph, hs.clients⟩
    | iterate i =>
        obtain ⟨⟨m, members⟩, hpass, h⟩ := Option.bind_eq_some_iff.1 h
        cases members with
        | nil =>
            cases h
            exact ⟨hs.dials, hs.peers, hs.calls, hs.graph, hs.clients⟩
        | cons node rest =>
            cases h
            exact hs.addDials (fun d hd => ne_of_reconcileNode hd)
    | connect i ok =>
        obtain ⟨m, hm, rfl⟩ := Option.map_eq_some_iff.1 h
        split
        · next dial hdial =>
            have hne : m.peerID ≠ self.id := hs.dials m (List.mem_of_getElem? hm)
            exact (hs.eraseDial i).call (only_of_connectPeer hne hdial)
        · exact hs.eraseDial i
    | handshake transport r =>
        simp only at h
        split at h
        · cases h
          exact hs
        · next c hc =>
            cases h
            exact hs.call (only_of_peerNegotiation hc)
    | gossip a =>
        cases a with
        | node b =>
            cases b with
            | newPeer | leave => cases h
            | _ =>
                obtain ⟨g, hg, rfl⟩ := Option.map_eq_some_iff.1 h
                exact hs.gossipStep (by simp) hg
        | _ =>
            obtain ⟨g, hg, rfl⟩ := Option.map_eq_some_iff.1 h
            exact hs.gossipStep (by simp) hg
    | client a =>
        obtain ⟨c, hc, rfl⟩ := Option.map_eq_some_iff.1 h
        exact ⟨hs.dials, hs.peers, hs.calls, hs.graph,
          hs.clients.step (fun protocol conf hnew => hclient protocol conf (hnew ▸ rfl)) hc⟩

variable {tr : List (Peering F × Action F)}

theorem noSelf_of_run (h : (machine F self debug).Run init tr s) :
    NoSelf self debug (fun _ => True) s :=
  h.preserves noSelf_init (fun _ _ _ hs hstep => hs.step (fun _ _ _ => trivial) hstep)

theorem noSelf_of_clientsElsewhere (h : (machine F self debug).Run init tr s)
    (hclients : Machine.Meets (ClientsElsewhere self) tr) :
    NoSelf self debug (· ≠ self.id) s := by
  refine h.invariant hclients noSelf_init (fun _ a _ hs hok hstep => hs.step ?_ hstep)
  rintro protocol conf rfl
  exact hok

/-- A path that is found leads over a session of the map in which it was looked up. -/
theorem findPath_cases {lib : FilterLib F} {order : List (PeerGraph.Entry F)} {link : Link}
    {path : Path} (h : s.findPath lib order link = some path) :
    (∃ p, path = .client p ∧ s.clients.map.get link.destination = some p) ∨
      ∃ p, path = .peer p ∧
        s.gossip.node.peers.get (PeerGraph.who lib order link.destination) = some p := by
  unfold findPath at h
  split at h
  · next p hp => exact Or.inl ⟨p, (Option.some.inj h).symm, hp⟩
  · obtain ⟨p, hp, rfl⟩ := Option.map_eq_some_iff.1 h
    exact Or.inr ⟨p, rfl, hp⟩

/-- **A node never peers with or routes to itself.** Whatever joins, leaves and member lists gossip
    reports, with any metadata, whatever bytes inbound handshakes consist of, whatever filters
    arrive under whatever ID, and in whatever interleaving: neither the node's own ID nor 0 is a key
    of its peer map, and its graph has no entry for itself. Hence `findPath` never returns a peer's
    session under either, and none at all if `Who` answers 0; and no session of any kind under
    either, unless a client has been registered under the node's own ID. -/
theorem never_peers_with_itself (self : Identity) (debug : Bool) {s : Peering F}
    {tr : List (Peering F × Action F)} (h : (machine F self debug).Run init tr s) :
    (∀ x ∈ s.gossip.node.peers.peers.keys, x ≠ self.id ∧ x ≠ 0) ∧
    SyncMap.load s.gossip.node.peerGraph self.id = none ∧
    (∀ (lib : FilterLib F) order link p, s.findPath lib order link = some (.peer p) →
      p.peer ≠ self.id ∧ p.peer ≠ 0 ∧ s.gossip.node.peers.get p.peer = some p ∧
        PeerGraph.who lib order link.destination ≠ 0) ∧
    (∀ (lib : FilterLib F) order link p, s.findPath lib order link = some (.client p) →
      p.peer = link.destination ∧ p.peer ≠ 0 ∧
        s.clients.map.get link.destination = some p) ∧
    (Machine.Meets (ClientsElsewhere self) tr →
      ∀ (lib : FilterLib F) order link path, s.findPath lib order link = some path →
        path.session.peer ≠ self.id ∧ path.session.peer ≠ 0) := by
  have hs := noSelf_of_run h
  have hpeer : ∀ (lib : FilterLib F) order link p, s.findPath lib order link = some (.peer p) →
      p.peer ≠ self.id ∧ p.peer ≠ 0 ∧ s.gossip.node.peers.get p.peer = some p ∧
        PeerGraph.who lib order link.destination ≠ 0 := by
    intro lib order link p hpath
    rcases findPath_cases hpath with ⟨q, hq, _⟩ | ⟨q, hq, hget⟩
    · cases hq
    · cases hq
      obtain ⟨heq, hzero, hself⟩ := hs.peers _ p hget
      exact ⟨heq ▸ hself, heq ▸ hzero, heq ▸ hget, hzero⟩
  refine ⟨fun x hx => ?_, hs.graph.graph, hpeer, fun lib order link p hpath => ?_,
    fun hclients lib order link path hpath => ?_⟩
  · obtain ⟨p, hp⟩ : ∃ p, s.gossip.node.peers.peers.load x = some p := by
      rw [← Option.ne_none_iff_exists']
      exact fun hnone => SyncMap.load_eq_none.1 hnone hx
    exact ⟨(hs.peers x p hp).2.2, (hs.peers x p hp).2.1⟩
  · rcases findPath_cases hpath with ⟨q, hq, hget⟩ | ⟨q, hq, _⟩
    · cases hq
      obtain ⟨heq, hzero, _⟩ := hs.clients.1 _ p hget
      exact ⟨heq, heq ▸ hzero, hget⟩
    · cases hq
  · rcases findPath_cases hpath with ⟨p, rfl, hget⟩ | ⟨p, rfl, _⟩
    · obtain ⟨heq, hzero, hself⟩ := (noSelf_of_clientsElsewhere h hclients).clients.1 _ p hget
      exact ⟨heq ▸ hself, heq ▸ hzero⟩
    · exact ⟨(hpeer lib order link p hpath).1, (hpeer lib order link p hpath).2.1⟩

/-- Node 7 shakes hands with node 5 and then sends it a filter with client 42, and one in the name
    of node 5 itself. -/
def peeringRun : List (Action (List UInt8)) :=
  [.handshake .tls (Link.marshalBinary ⟨7, 5, .yamux, .multiplexer⟩)] ++
    List.replicate 5 (.gossip (.node (.advance 0 true))) ++
    [.gossip (.receive (byteClients 5 [42])), .gossip (.enqueue 0), .gossip .handle,
      .gossip (.receive (byteClients 7 [42])), .gossip (.enqueue 0), .gossip .handle,
      .gossip (.node .mergeLoad)]

/-- After it node 5 routes client 42 to node 7. -/
theorem never_peers_with_itself_seven :
    ∃ tr s p, (machine (List UInt8) Identity.exampleSelf false).Run init tr s ∧
      Machine.Meets (ClientsElsewhere Identity.exampleSelf) tr ∧
      s.findPath byteFilter s.gossip.node.peerGraph.entries ⟨1, 42, .yamux, .raw⟩ =
        some (.peer p) ∧ p.peer = 7 ∧ p.peer ≠ Identity.exampleSelf.id := by
  obtain ⟨s, hrun, hpath⟩ :=
    (machine (List UInt8) Identity.exampleSelf false).run_of_exec_any init peeringRun
    (P := fun s => s.findPath byteFilter s.gossip.node.peerGraph.entries
      ⟨1, 42, .yamux, .raw⟩ = some (.peer ⟨0, 7, .yamux, false⟩)) (by decide)
  have hclients : Machine.Meets (ClientsElsewhere Identity.exampleSelf)
      ((machine (List UInt8) Identity.exampleSelf false).trace init peeringRun) := by
    have hall : ∀ a ∈ peeringRun, ClientsElsewhere Identity.exampleSelf init a := by
      simp [peeringRun, ClientsElsewhere]
    exact fun q hq => hall q.2 (Machine.mem_of_mem_trace hq)
  have hmain := (never_peers_with_itself Identity.exampleSelf false hrun).2.2.2.2 hclients
  exact ⟨_, s, _, hrun, hclients, hpath, rfl, (hmain byteFilter _ _ _ hpath).1⟩

end Peering

end Tunnel.Server
