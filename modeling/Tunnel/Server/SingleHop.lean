import Tunnel.Gateway.Link
import Tunnel.Lib.Machine
import Tunnel.Server.Routing

set_option autoImplicit false

/-! # How far a stream travels between nodes

The design note in `handleMerge` says that a stream takes a single hop between peers. Nothing in the
code enforces it: `handlePeerEvents` hands a stream that a peer opened to the same `Forward` as the
gateway does, and the link it carries does not say where it came from. A node that receives a stream
because of an outdated or false positive filter asks its own graph in turn, and may pass the stream
on, also back to where it came from (`stream_bounces`).

A stream in a network of nodes is a machine whose actions are the orders in which `Range` enumerates
the graph of the node that holds it. `single_hop_iff` says for which networks every stream of a
visitor is settled after at most one hop. -/

namespace Tunnel.Server

open Tunnel.Lib Tunnel.Multiplexer Tunnel.State

variable {F : Type} {lib : FilterLib F}

/-- A finite set of nodes with distinct IDs, whose sessions are with each other. -/
structure Network (lib : FilterLib F) where
  nodes : List (Router lib)
  distinct : (nodes.map Router.id).Nodup
  closed : ∀ n ∈ nodes, ∀ x ∈ n.peers.peers.keys, x ∈ nodes.map Router.id

/-- Where a stream is: held by a node that has yet to find its path; handed to a client of a node;
    refused by a node; taken for a messaging stream by a node. -/
inductive Stream
  | held (node : UInt64)
  | delivered (node : UInt64) (client : Session)
  | refused (node : UInt64) (err : String)
  | messaging (node : UInt64)
deriving DecidableEq

namespace Stream

/-- The stream reached a client or was refused. -/
def Settled : Stream → Prop
  | .delivered _ _ | .refused _ _ => True
  | .held _ | .messaging _ => False

/-- The node that holds the stream. -/
def holder : Stream → Option UInt64
  | .held x => some x
  | _ => none

/-- What `handlePeerEvents` of `node` makes of a stream that a peer opened. -/
def arrive (link : Link) (node : UInt64) : Stream :=
  if link = messagingLink then .messaging node else .held node

theorem Settled.holder {s : Stream} (h : s.Settled) : s.holder = none := by
  cases s with
  | delivered | refused => rfl
  | held | messaging => exact absurd h (by simp [Settled])

end Stream

namespace Network

/-- The node with this ID. -/
def node (net : Network lib) (x : UInt64) : Option (Router lib) :=
  net.nodes.find? (fun r => r.id = x)

theorem node_eq_some {net : Network lib} {x : UInt64} {r : Router lib}
    (h : net.node x = some r) : r ∈ net.nodes ∧ r.id = x := by
  refine ⟨List.mem_of_find?_eq_some h, ?_⟩
  simpa using List.find?_some (p := fun r : Router lib => decide (r.id = x)) h

theorem node_of_mem {net : Network lib} {r : Router lib} (h : r ∈ net.nodes) :
    net.node r.id = some r := by
  obtain ⟨q, hq⟩ : ∃ q, net.node r.id = some q := by
    rw [← Option.isSome_iff_exists]
    exact List.find?_isSome.2 ⟨r, h, by simp⟩
  obtain ⟨hmem, hid⟩ := node_eq_some hq
  rw [hq, List.inj_on_of_nodup_map net.distinct hmem h hid]

variable [DecidableEq F]

/-- The node that holds the stream forwards it. -/
def step (net : Network lib) (link : Link) (s : Stream) (order : List (PeerGraph.Entry F)) :
    Option Stream :=
  match s with
  | .held x => (net.node x).bind (fun r =>
      if order.Perm r.peerGraph.entries then
        match r.forward order link with
        | .error e => some (.refused x e)
        | .ok (.client p) => some (.delivered x p)
        | .ok (.peer p) => some (.arrive link p.peer)
      else none)
  | _ => none

/-- The streams with this link, from any gateway of the network. -/
def machine (net : Network lib) (link : Link) : Machine Stream (List (PeerGraph.Entry F)) where
  Init s := ∃ g ∈ net.nodes, s = .held g.id
  step := net.step link

/-- The nodes that held the stream, in turn. -/
def holders (tr : List (Stream × List (PeerGraph.Entry F))) (t : Stream) : List UInt64 :=
  (Machine.visited tr t).filterMap Stream.holder

variable {net : Network lib} {link : Link} {r : Router lib}

/-- A step settles the stream or relays it. -/
theorem step_held {x : UInt64} {order : List (PeerGraph.Entry F)} {t : Stream}
    (h : net.step link (.held x) order = some t) :
    t.Settled ∨ ∃ r ∈ net.nodes, r.id = x ∧ ∃ y, r.CanRelay link.destination y ∧
      t = .arrive link y := by
  obtain ⟨r, hr, h⟩ := Option.bind_eq_some_iff.1 h
  obtain ⟨hmem, hid⟩ := node_eq_some hr
  split at h
  · next hperm =>
      split at h
      · cases h
        exact Or.inl trivial
      · cases h
        exact Or.inl trivial
      · next p hforward =>
          cases h
          have hpath : r.findPath order link = some (.peer p) := by
            unfold Router.forward at hforward
            split at hforward <;> simp_all
          have hrelay := Router.findPath_peer_iff.1 ⟨order, p, hperm, hpath, rfl⟩
          exact Or.inr ⟨r, hmem, hid, p.peer, hrelay, rfl⟩
  · exact absurd h (by simp)

/-- Where a node can relay a stream to, there is an order in which it does. -/
theorem exists_step_of_canRelay (link : Link) (hr : r ∈ net.nodes) {y : UInt64}
    (h : r.CanRelay link.destination y) :
    ∃ order, net.step link (.held r.id) order = some (.arrive link y) := by
  obtain ⟨order, p, hperm, hpath, rfl⟩ := Router.findPath_peer_iff.2 h
  refine ⟨order, ?_⟩
  simp [step, node_of_mem hr, hperm, Router.forward, hpath]

/-- A node that holds a stream always does something with it. -/
theorem exists_step (hr : r ∈ net.nodes) :
    ∃ order t, net.step link (.held r.id) order = some t := by
  refine ⟨r.peerGraph.entries, ?_⟩
  cases hforward : r.forward r.peerGraph.entries link with
  | error e => exact ⟨.refused r.id e, by simp [step, node_of_mem hr, hforward]⟩
  | ok p =>
      cases p with
      | client p => exact ⟨.delivered r.id p, by simp [step, node_of_mem hr, hforward]⟩
      | peer p => exact ⟨.arrive link p.peer, by simp [step, node_of_mem hr, hforward]⟩

omit [DecidableEq F] in
/-- Streams are relayed to nodes of the network. -/
theorem mem_of_canRelay (hr : r ∈ net.nodes) {client y : UInt64} (h : r.CanRelay client y) :
    ∃ m ∈ net.nodes, m.id = y := by
  obtain ⟨p, hp⟩ := Option.isSome_iff_exists.1 h.2.2
  exact List.mem_map.1 (net.closed r hr y (SyncMap.mem_keys_of_load hp))

/-! ## The bound on hops -/

/-- Every stream with this link that the gateway of `g` accepts is held by at most two nodes, which
    are different ones, and then delivered or refused; and it is never stuck before that. -/
def SingleHop (net : Network lib) (link : Link) (g : UInt64) : Prop :=
  ∀ tr t, (net.machine link).Run (.held g) tr t →
    (holders tr t).length ≤ 2 ∧ (holders tr t).Nodup ∧ (2 ≤ tr.length → t.Settled) ∧
      (t.Settled ∨ ∃ order u, net.step link t order = some u)

/-- No node to which another one would relay a stream for `client` would relay it further. -/
def NoSecondHop (net : Network lib) (client : UInt64) : Prop :=
  ∀ n ∈ net.nodes, ∀ m ∈ net.nodes, n.CanRelay client m.id → ∀ x, ¬ m.CanRelay client x

/-- Where a stream from `g` can be: still there, or at the one node it was relayed to, or settled
    at either. -/
inductive Shape (net : Network lib) (link : Link) (g : Router lib) :
    List (Stream × List (PeerGraph.Entry F)) → Stream → Prop
  | start : Shape net link g [] (.held g.id)
  | settledThere {tr : List (Stream × List (PeerGraph.Entry F))} {t : Stream}
      (hholders : holders tr t = [g.id]) (ht : t.Settled) : Shape net link g tr t
  | relayed {tr : List (Stream × List (PeerGraph.Entry F))} {m : Router lib}
      (hlen : tr.length = 1) (hholders : holders tr (.held m.id) = [g.id, m.id])
      (hm : m ∈ net.nodes) (hrelay : g.CanRelay link.destination m.id) :
      Shape net link g tr (.held m.id)
  | settledNext {tr : List (Stream × List (PeerGraph.Entry F))} {t : Stream} {y : UInt64}
      (hholders : holders tr t = [g.id, y]) (hrelay : g.CanRelay link.destination y)
      (ht : t.Settled) : Shape net link g tr t

omit [DecidableEq F] in
theorem holders_snoc (tr : List (Stream × List (PeerGraph.Entry F))) (t u : Stream)
    (order : List (PeerGraph.Entry F)) :
    holders (tr ++ [(t, order)]) u = holders tr t ++ u.holder.toList := by
  simp only [holders, Machine.visited, List.map_append, List.map_cons, List.map_nil,
    List.filterMap_append]
  cases hu : u.holder <;> simp [List.filterMap_cons, hu]

theorem shape_of_run (hnet : net.NoSecondHop link.destination) (hlink : link ≠ messagingLink)
    {g : Router lib} (hg : g ∈ net.nodes) {tr : List (Stream × List (PeerGraph.Entry F))}
    {t : Stream} (h : (net.machine link).Run (.held g.id) tr t) : Shape net link g tr t := by
  induction h with
  | nil => exact .start
  | @snoc tr t u order _ hstep ih =>
      have harrive : ∀ y, Stream.arrive link y = .held y := fun y => if_neg hlink
      cases ih with
      | start =>
          rcases step_held hstep with hu | ⟨r, hr, hid, y, hrelay, rfl⟩
          · refine .settledThere ?_ hu
            rw [holders_snoc, hu.holder]
            rfl
          · have hrg : r = g := List.inj_on_of_nodup_map net.distinct hr hg hid
            subst hrg
            obtain ⟨m, hm, rfl⟩ := mem_of_canRelay hr hrelay
            rw [harrive]
            exact .relayed rfl rfl hm hrelay
      | relayed hlen hholders hm hrelay =>
          rcases step_held hstep with hu | ⟨r, hr, hid, y, hagain, rfl⟩
          · refine .settledNext ?_ hrelay hu
            rw [holders_snoc, hholders, hu.holder]
            rfl
          · -- the node it was relayed to does not relay it again
            rw [← hid] at hrelay
            exact absurd hagain (hnet g hg r hr hrelay y)
      | settledThere _ ht | settledNext _ _ ht =>
          cases t with
          | held | messaging => exact absurd ht (by simp [Stream.Settled])
          | delivered | refused => exact absurd hstep (by simp [machine, step])

theorem singleHop_of_noSecondHop (hnet : net.NoSecondHop link.destination)
    (hlink : link ≠ messagingLink) {g : Router lib} (hg : g ∈ net.nodes) :
    net.SingleHop link g.id := by
  intro tr t hrun
  cases shape_of_run hnet hlink hg hrun with
  | start =>
      exact ⟨by simp [holders, Machine.visited, Stream.holder],
        by simp [holders, Machine.visited, Stream.holder],
        fun h => absurd h (by simp), Or.inr (exists_step hg)⟩
  | settledThere hholders ht =>
      exact ⟨by simp [hholders], by simp [hholders], fun _ => ht, Or.inl ht⟩
  | relayed hlen hholders hm hrelay =>
      exact ⟨by simp [hholders], by simpa [hholders] using hrelay.ne_id.symm,
        fun h => absurd h (by omega), Or.inr (exists_step hm)⟩
  | settledNext hholders hrelay ht =>
      exact ⟨by simp [hholders], by simpa [hholders] using hrelay.ne_id.symm,
        fun _ => ht, Or.inl ht⟩

/-- **At most one hop between peers.** In a network, for every host name a visitor may send and
    both protocols the gateway tunnels: every stream accepted by any gateway is relayed over at most
    one session between nodes, visits no node twice and ends at a client or refused, exactly if no
    node that another one would relay such a stream to would relay it further. -/
theorem single_hop_iff (net : Network lib) (sni : List UInt8) {proto : String}
    (hproto : proto ∈ Gateway.tunnelProtos) :
    (∀ g ∈ net.nodes, net.SingleHop (Gateway.link g.id sni proto) g.id) ↔
      net.NoSecondHop (Gateway.clientID sni) := by
  constructor
  · intro hall n hn m hm hrelay x hagain
    have hlink := Gateway.link_ne_messagingLink n.id sni hproto
    have harrive : ∀ y, Stream.arrive (Gateway.link n.id sni proto) y = .held y :=
      fun y => if_neg hlink
    obtain ⟨o₁, h₁⟩ := exists_step_of_canRelay (Gateway.link n.id sni proto) hn hrelay
    obtain ⟨o₂, h₂⟩ := exists_step_of_canRelay (Gateway.link n.id sni proto) hm hagain
    rw [harrive] at h₁ h₂
    have hrun : (net.machine (Gateway.link n.id sni proto)).Run (.held n.id)
        [(.held n.id, o₁), (.held m.id, o₂)] (.held x) :=
      Machine.Run.snoc (Machine.Run.snoc .nil h₁) h₂
    exact (hall n hn _ _ hrun).2.2.1 (by simp)
  · intro hnet g hg
    exact singleHop_of_noSecondHop hnet (Gateway.link_ne_messagingLink g.id sni hproto) hg

/-! ## Two nodes -/

/-- The client of the examples, `a` hashed, and its host name `a.t`. -/
def exampleSni : List UInt8 := [97, 46, 116]

/-- Node 1 holds the current filter of node 2, which has the client. -/
def hosted : Network byteFilter where
  nodes :=
    [exampleNode 1 [] [2] [(2, [Gateway.clientID exampleSni])] (by decide) (by decide),
      exampleNode 2 [Gateway.clientID exampleSni] [1] [] (by decide) (by decide)]
  distinct := by decide
  closed := by decide

theorem single_hop_iff_hosted :
    hosted.SingleHop (Gateway.link 1 exampleSni "raw") 1 ∧
      hosted.SingleHop (Gateway.link 2 exampleSni "raw") 2 := by
  have hraw : "raw" ∈ Gateway.tunnelProtos := by decide
  have hnet : hosted.NoSecondHop (Gateway.clientID exampleSni) := by
    intro n hn m hm hrelay x hagain
    obtain ⟨c, hload, _⟩ := hrelay.2.1
    obtain ⟨d, hload', _⟩ := hagain.2.1
    simp only [hosted, List.mem_cons, List.not_mem_nil, or_false] at hn hm
    rcases hm with rfl | rfl
    · rcases hn with rfl | rfl
      · obtain ⟨clients, hmem, _⟩ := mem_of_load_merged hload
        simp [exampleNode] at hmem
      · exact absurd hload (by simp [exampleNode, merged])
    · exact absurd hload' (by simp [exampleNode, merged])
  have hall := (single_hop_iff hosted exampleSni hraw).2 hnet
  exact ⟨hall _ (List.mem_cons_self ..), hall _ (List.mem_cons_of_mem _ (List.mem_cons_self ..))⟩

/-- The client has left node 2, which node 1 has not heard yet; and node 1 has a client whose filter
    also answers for it. -/
def bouncing : Network byteFilter where
  nodes :=
    [exampleNode 1 [3724] [2] [(2, [Gateway.clientID exampleSni])] (by decide) (by decide),
      exampleNode 2 [] [1] [(1, [3724])] (by decide) (by decide)]
  distinct := by decide
  closed := by decide

theorem stream_bounces :
    ∃ tr t, (bouncing.machine (Gateway.link 1 exampleSni "raw")).Run (.held 1) tr t ∧
      holders tr t = [1, 2, 1, 2] ∧
      (State.BinaryFuse8.ofKey 3724).contains (Gateway.clientID exampleSni) = .ok true := by
  have hraw : "raw" ∈ Gateway.tunnelProtos := by decide
  have harrive : ∀ y, Stream.arrive (Gateway.link 1 exampleSni "raw") y = .held y :=
    fun y => if_neg (Gateway.link_ne_messagingLink 1 exampleSni hraw)
  have hn : bouncing.nodes[0] ∈ bouncing.nodes := List.getElem_mem _
  have hm : bouncing.nodes[1] ∈ bouncing.nodes := List.getElem_mem _
  have hrelay : bouncing.nodes[0].CanRelay (Gateway.clientID exampleSni) 2 :=
    ⟨by decide, ⟨_, rfl, by decide⟩, by decide⟩
  have hback : bouncing.nodes[1].CanRelay (Gateway.clientID exampleSni) 1 :=
    ⟨by decide, ⟨_, rfl, by decide⟩, by decide⟩
  obtain ⟨o₁, h₁⟩ := exists_step_of_canRelay (Gateway.link 1 exampleSni "raw") hn hrelay
  obtain ⟨o₂, h₂⟩ := exists_step_of_canRelay (Gateway.link 1 exampleSni "raw") hm hback
  rw [harrive] at h₁ h₂
  exact ⟨[(.held 1, o₁), (.held 2, o₂), (.held 1, o₁)], .held 2,
    Machine.Run.snoc (Machine.Run.snoc (Machine.Run.snoc .nil h₁) h₂) h₁, rfl, by decide +kernel⟩

end Network

end Tunnel.Server
