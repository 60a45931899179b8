import Mathlib.Logic.Function.Basic
import Tunnel.Server.Clients
import Tunnel.Server.NodeRouter
import Tunnel.State.FilterCodec

set_option autoImplicit false

/-! # The nodes of a cluster (`server/gossip.go`, `server/clients.go`, `server/peers.go`)

Every node of a cluster has its clients, its sessions with other nodes and its peer graph. From time
to time gossip picks two of them and has each send its `LocalState` to the other, which hands it to
`MergeRemoteState`: the bytes of the cached filter are decoded and sent on `updatesCh`, and
`handleMerge` puts them into the peer graph.

A cluster is the product of the models of its nodes with what is between them: transfers that are on
their way, in no particular order, since two nodes may exchange their states over several
connections at once, and that may be lost.

Whatever a node knows of another one, that one had in its cache at some time, and it is a filter of
clients that were connected to it at some time (`Honest`, `graph_entries_were_cached`). -/

namespace Tunnel.Server

open Tunnel.Lib Tunnel.Multiplexer Tunnel.State

/-- A state of some node on its way to another one. -/
structure Transfer where
  dest : UInt64
  buf : List UInt8

/-- The updates that a node has received and not yet merged. -/
abbrev UpdatesCh := Chan (ConnectedClients BinaryFuse8) 16

/-- The nodes, by ID, each with its clients, its sessions and its `updatesCh`; and what is between
    them. -/
structure Cluster where
  clients : UInt64 → Clients
  node : UInt64 → Node BinaryFuse8
  updatesCh : UInt64 → UpdatesCh
  network : List Transfer

/-- The updates that `handleMerge` takes come from `updatesCh`. -/
def Node.Action.isMerge : Node.Action BinaryFuse8 → Bool
  | .merge _ => true
  | _ => false

namespace Cluster

/-- `LocalState(false)` -/
def localState (c : Clients) : List UInt8 := c.connectedClients.getD []

/-- `MergeRemoteState(buf, false)`; `none` while `updatesCh` is full. A buffer for which the decoder
    panics is not among those that the nodes of a cluster send. -/
def mergeRemoteState (updatesCh : UpdatesCh) (buf : List UInt8) : Option UpdatesCh :=
  if buf = [] then some updatesCh
  else match Decoded.zero.unmarshalBinary buf with
    | (⟨peer, crc, some f⟩, .ok _) => updatesCh.send ⟨peer, crc, f⟩
    | _ => some updatesCh

def init : Cluster where
  clients _ := Clients.init
  node _ := Node.init
  updatesCh _ := Chan.empty
  network := []

/-- A step: something happens to the clients of a node, or to its sessions; gossip sends the state
    of `x` to `j`; a transfer is lost, or arrives; `handleMerge` takes an update from `updatesCh`.
    -/
inductive Action
  | clients (x : UInt64) (a : Clients.Action)
  | node (j : UInt64) (a : Node.Action BinaryFuse8)
  | exchange (x j : UInt64)
  | lose (k : ℕ)
  | deliver (k : ℕ)
  | merge (j : UInt64)

/-- One step. -/
def step (lib : FilterLib BinaryFuse8) (debug : Bool) (s : Cluster) : Action → Option Cluster
  | .clients x a =>
      ((s.clients x).step lib x a).map (fun c =>
        { s with clients := Function.update s.clients x c })
  | .node j a =>
      if a.isMerge = true then none
      else ((s.node j).step ⟨j, debug⟩ a).map (fun n =>
        { s with node := Function.update s.node j n })
  | .exchange x j => some { s with network := s.network ++ [⟨j, localState (s.clients x)⟩] }
  | .lose k =>
      if k < s.network.length then some { s with network := s.network.eraseIdx k } else none
  | .deliver k =>
      s.network[k]?.bind (fun t => (mergeRemoteState (s.updatesCh t.dest) t.buf).map (fun ch =>
        { s with
          updatesCh := Function.update s.updatesCh t.dest ch
          network := s.network.eraseIdx k }))
  | .merge j =>
      (s.updatesCh j).recv.bind (fun next =>
        ((s.node j).step ⟨j, debug⟩ (.merge next.1)).map (fun n =>
          { s with
            node := Function.update s.node j n
            updatesCh := Function.update s.updatesCh j next.2 }))

/-- A cluster, over every interleaving. -/
def machine (lib : FilterLib BinaryFuse8) (debug : Bool) : Machine Cluster Action where
  Init s := s = init
  step s a := s.step lib debug a

/-! ## What a step can do -/

/-- The steps, one rule each, with what they are made of. -/
inductive Step (lib : FilterLib BinaryFuse8) (debug : Bool) (s : Cluster) :
    Action → Cluster → Prop
  | clients {x : UInt64} {a : Clients.Action} {c : Clients}
      (hc : (s.clients x).step lib x a = some c) :
      Step lib debug s (.clients x a) { s with clients := Function.update s.clients x c }
  | node {j : UInt64} {a : Node.Action BinaryFuse8} {n : Node BinaryFuse8}
      (ha : a.isMerge = false) (hn : Node.Step ⟨j, debug⟩ (s.node j) a n) :
      Step lib debug s (.node j a) { s with node := Function.update s.node j n }
  | exchange (x j : UInt64) :
      Step lib debug s (.exchange x j)
        { s with network := s.network ++ [⟨j, localState (s.clients x)⟩] }
  | lose {k : ℕ} : Step lib debug s (.lose k) { s with network := s.network.eraseIdx k }
  | drop {k : ℕ} : Step lib debug s (.deliver k) { s with network := s.network.eraseIdx k }
  | deliver {k : ℕ} {t : Transfer} {c : ConnectedClients BinaryFuse8} {ch : UpdatesCh}
      (ht : s.network[k]? = some t)
      (hc : Decoded.zero.unmarshalBinary t.buf = (⟨c.peer, c.crc64, some c.f⟩, .ok ()))
      (hch : (s.updatesCh t.dest).send c = some ch) :
      Step lib debug s (.deliver k)
        { s with
          updatesCh := Function.update s.updatesCh t.dest ch
          network := s.network.eraseIdx k }
  | merge {j : UInt64} {c : ConnectedClients BinaryFuse8} {ch : UpdatesCh}
      {n : Node BinaryFuse8} (hch : (s.updatesCh j).recv = some (c, ch))
      (hn : Node.Step ⟨j, debug⟩ (s.node j) (.merge c) n) :
      Step lib debug s (.merge j)
        { s with
          node := Function.update s.node j n
          updatesCh := Function.update s.updatesCh j ch }

variable {lib : FilterLib BinaryFuse8} {debug : Bool} {s s' : Cluster} {a : Action}

/-- `MergeRemoteState` drops what it gets, or sends what it decodes on `updatesCh`. -/
theorem mergeRemoteState_cases {updatesCh ch : UpdatesCh} {buf : List UInt8}
    (h : mergeRemoteState updatesCh buf = some ch) :
    ch = updatesCh ∨ ∃ c : ConnectedClients BinaryFuse8,
      Decoded.zero.unmarshalBinary buf = (⟨c.peer, c.crc64, some c.f⟩, .ok ()) ∧
        updatesCh.send c = some ch := by
  unfold mergeRemoteState at h
  split at h
  · exact Or.inl (Option.some.inj h).symm
  · split at h
    · next peer crc f _ hdecode => exact Or.inr ⟨⟨peer, crc, f⟩, hdecode, h⟩
    · exact Or.inl (Option.some.inj h).symm

theorem step_rule (h : s.step lib debug a = some s') : Step lib debug s a s' := by
  cases a with
  | clients x a =>
      obtain ⟨c, hc, rfl⟩ := Option.map_eq_some_iff.1 h
      exact .clients hc
  | node j a =>
      simp only [step] at h
      split at h
      · cases h
      · next ha =>
          obtain ⟨n, hn, rfl⟩ := Option.map_eq_some_iff.1 h
          exact .node (by simpa using ha) (Node.step_rule hn)
  | exchange x j =>
      cases h
      exact .exchange x j
  | lose k =>
      simp only [step] at h
      split at h
      · cases h
        exact .lose
      · cases h
  | deliver k =>
      obtain ⟨t, ht, h⟩ := Option.bind_eq_some_iff.1 h
      obtain ⟨ch, hch, rfl⟩ := Option.map_eq_some_iff.1 h
      rcases mergeRemoteState_cases hch with rfl | ⟨c, hc, hsend⟩
      · rw [Function.update_eq_self]
        exact .drop
      · exact .deliver ht hc hsend
  | merge j =>
      obtain ⟨⟨c, ch⟩, hch, h⟩ := Option.bind_eq_some_iff.1 h
      obtain ⟨n, hn, rfl⟩ := Option.map_eq_some_iff.1 h
      exact .merge hch (Node.step_rule hn)

/-- What holds of the nodes that stay, and of the one that changed, holds of all. -/
theorem forall_update {β : Type} {f : UInt64 → β} {P : UInt64 → β → Prop} (h : ∀ x, P x (f x))
    {j : UInt64} {b : β} (hb : P j b) : ∀ x, P x (Function.update f j b x) :=
  (Function.forall_update_iff f P).2 ⟨hb, fun x _ => h x⟩

/-! ## What the parts of a node do -/

/-- What a step of the clients does to the dispatcher and the cache: a `Snapshot` may report what it
    could before, and what is in the map now; what is stored was built of what one reported; and
    what is cached was stored. -/
structure ClientsStep (lib : FilterLib BinaryFuse8) (x : UInt64) (c c' : Clients) : Prop where
  view : ∀ v', c'.dispatcher = .snapshot v' → ∀ k ∈ v'.may,
    (∃ v, c.dispatcher = .snapshot v ∧ k ∈ v.may) ∨ k ∈ c'.keys
  store : ∀ b, c'.dispatcher = .store b → c.dispatcher = .store b ∨
    ∃ v seen built, c.dispatcher = .snapshot v ∧ (∀ k ∈ seen, k ∈ v.may) ∧
      newConnectedClients lib x seen = .ok built ∧ b = built.marshalBinary
  cache : ∀ b, c'.connectedClients = some b →
    c.connectedClients = some b ∨ c.dispatcher = .store b

/-- A step that touches neither the dispatcher nor the cache. -/
theorem ClientsStep.of_same {x : UInt64} {c c' : Clients} (hpc : c'.dispatcher = c.dispatcher)
    (hcache : c'.connectedClients = c.connectedClients) : ClientsStep lib x c c' where
  view v' hv' _ hk := Or.inl ⟨v', hpc ▸ hv', hk⟩
  store _ hb := Or.inl (hpc ▸ hb)
  cache _ hb := Or.inl (hcache ▸ hb)

/-- A change of the map, during a `Snapshot` or not. -/
theorem ClientsStep.of_withClients {x : UInt64} {c c' : Clients} {m : PeerMap}
    (hclients : c'.clients = m) (hpc : c'.dispatcher = (c.withClients m).dispatcher)
    (hcache : c'.connectedClients = c.connectedClients) : ClientsStep lib x c c' := by
  refine ⟨fun v' hv' k hk => ?_, fun b hb => ?_, fun b hb => Or.inl (hcache ▸ hb)⟩
  · rw [hpc] at hv'
    unfold Clients.withClients at hv'
    simp only at hv'
    split at hv'
    · next v hv =>
        split at hv'
        · cases hv'
          exact Or.inl ⟨_, hv, hk⟩
        · cases hv'
          rcases List.mem_append.1 hk with hk | hk
          · exact Or.inl ⟨v, hv, hk⟩
          · refine Or.inr ?_
            rw [Clients.keys, hclients]
            exact hk
    · exact Or.inl ⟨v', hv', hk⟩
  · rw [hpc] at hb
    unfold Clients.withClients at hb
    simp only at hb
    split at hb
    · split at hb <;> cases hb
    · exact Or.inl hb

theorem clients_step {x : UInt64} {c c' : Clients} {a : Clients.Action}
    (h : c.step lib x a = some c') : ClientsStep lib x c c' := by
  cases a with
  | newPeer protocol conf =>
      cases h
      exact .of_same rfl rfl
  | advance i ok =>
      obtain ⟨call, _, hcall⟩ := Option.bind_eq_some_iff.1 h
      obtain ⟨next, _, rfl⟩ := Option.map_eq_some_iff.1 hcall
      exact .of_withClients rfl rfl rfl
  | close i =>
      obtain ⟨p, _, rfl⟩ := Option.map_eq_some_iff.1 h
      exact .of_same rfl rfl
  | cancel =>
      cases h
      exact .of_same rfl rfl
  | recvNotify =>
      obtain ⟨next, _, rfl⟩ := Option.map_eq_some_iff.1 h
      exact .of_same rfl rfl
  | exit i =>
      obtain ⟨w, _, hw⟩ := Option.bind_eq_some_iff.1 h
      split at hw
      · cases hw
        exact .of_same rfl rfl
      · cases hw
  | watch i =>
      obtain ⟨w, _, hw⟩ := Option.bind_eq_some_iff.1 h
      unfold Clients.watchStep at hw
      split at hw
      · obtain ⟨ch, _, rfl⟩ := Option.map_eq_some_iff.1 hw
        exact .of_same rfl rfl
      · split at hw
        · cases hw
          exact .of_same rfl rfl
        · cases hw
      · obtain ⟨next, _, rfl⟩ := Option.map_eq_some_iff.1 hw
        exact .of_withClients rfl rfl rfl
      · obtain ⟨ch, _, rfl⟩ := Option.map_eq_some_iff.1 hw
        exact .of_same rfl rfl
      · cases hw
      · cases hw
  | dispatchDone =>
      simp only [Clients.step] at h
      split at h
      · cases h
        exact ⟨by simp, by simp, fun b hb => Or.inl hb⟩
      · cases h
  | dispatch =>
      simp only [Clients.step] at h
      split at h
      · obtain ⟨next, _, rfl⟩ := Option.map_eq_some_iff.1 h
        refine ⟨fun v' hv' k hk => ?_, by simp, fun b hb => Or.inl hb⟩
        cases hv'
        exact Or.inr hk
      · cases h
  | snapshot seen =>
      simp only [Clients.step] at h
      split at h
      · next v hv =>
          split at h
          · next hseen =>
              split at h
              · cases h
                exact ⟨by simp, by simp, fun b hb => Or.inl hb⟩
              · next built hbuilt =>
                  cases h
                  refine ⟨by simp, fun b hb => ?_, fun b hb => Or.inl hb⟩
                  cases hb
                  exact Or.inr ⟨v, seen, built, hv, hseen.2.2, hbuilt, rfl⟩
          · cases h
      · cases h
  | store =>
      simp only [Clients.step] at h
      split at h
      · next b hb =>
          cases h
          refine ⟨by simp, by simp, fun b' hb' => ?_⟩
          cases hb'
          exact Or.inr hb
      · cases h

/-- A step of a node that takes no update stores in the graph what `handleMerge` works on. -/
theorem node_step {j : UInt64} {n n' : Node BinaryFuse8} {a : Node.Action BinaryFuse8}
    (ha : a.isMerge = false) (h : Node.Step ⟨j, debug⟩ n a n') :
    (∀ x c, SyncMap.load n'.peerGraph x = some c →
      SyncMap.load n.peerGraph x = some c ∨ c.peer = x ∧ n.merge.pending = some c) ∧
    ∀ c, n'.merge.pending = some c → n.merge.pending = some c := by
  have hstore : ∀ stored, n.merge.pending = some stored → ∀ x c,
      SyncMap.load (SyncMap.store n.peerGraph stored.peer stored) x = some c →
      SyncMap.load n.peerGraph x = some c ∨ c.peer = x ∧ n.merge.pending = some c := by
    intro stored hpc x c hc
    by_cases hx : x = stored.peer
    · subst hx
      rw [SyncMap.load_store_self, Option.some.injEq] at hc
      exact Or.inr ⟨by rw [hc], hc ▸ hpc⟩
    · rw [SyncMap.load_store_ne _ _ hx] at hc
      exact Or.inl hc
  cases h with
  | graph =>
      exact ⟨fun x c hc => Or.inl (SyncMap.load_of_load_delete hc), fun c hc => hc⟩
  | mergeOwn => cases ha
  | mergeTake => cases ha
  | mergeNew hpc => exact ⟨hstore _ (by simp [hpc]), by simp⟩
  | mergeSame => exact ⟨fun x c hc => Or.inl hc, by simp⟩
  | mergeDiffer hpc => exact ⟨fun x c hc => Or.inl hc, by simp [hpc]⟩
  | mergeStore hpc => exact ⟨hstore _ (by simp [hpc]), by simp⟩
  | _ => exact ⟨fun x c hc => Or.inl hc, fun c hc => hc⟩

/-! ## Where the knowledge of a node comes from

`vs` are the states that the cluster has passed through. -/

/-- The client `k` was connected to `x`. -/
def Hosted (vs : List Cluster) (x k : UInt64) : Prop := ∃ u ∈ vs, k ∈ (u.clients x).keys

/-- `b` was in the cache of `x`. -/
def Published (vs : List Cluster) (x : UInt64) (b : List UInt8) : Prop :=
  ∃ u ∈ vs, (u.clients x).connectedClients = some b

/-- `b` is the encoding of a filter of clients that were connected to `x`. -/
def BuiltBy (lib : FilterLib BinaryFuse8) (vs : List Cluster) (x : UInt64) (b : List UInt8) :
    Prop :=
  ∃ clients c, newConnectedClients lib x clients = .ok c ∧ b = c.marshalBinary ∧
    ∀ k ∈ clients, Hosted vs x k

/-- What the dispatcher of `x` works with, and what it has stored. -/
structure OwnKnown (lib : FilterLib BinaryFuse8) (vs : List Cluster) (x : UInt64) (c : Clients) :
    Prop where
  view : ∀ v, c.dispatcher = .snapshot v → ∀ k ∈ v.may, Hosted vs x k
  store : ∀ b, c.dispatcher = .store b → BuiltBy lib vs x b
  cache : ∀ b, c.connectedClients = some b → BuiltBy lib vs x b

/-- What the node `j` has of the others in its peer graph, or is about to have. -/
structure OthersKnown (vs : List Cluster) (j : UInt64) (n : Node BinaryFuse8) : Prop where
  merging : ∀ c, n.merge.pending = some c → c.peer ≠ j ∧ Published vs c.peer c.marshalBinary
  graph : ∀ x c, SyncMap.load n.peerGraph x = some c →
    c.peer = x ∧ x ≠ j ∧ Published vs x c.marshalBinary

/-- What has been received. -/
def Received (vs : List Cluster) (ch : UpdatesCh) : Prop :=
  ∀ c ∈ ch.buf, Published vs c.peer c.marshalBinary

/-- All that is known in the cluster comes from the node it is about. -/
structure Honest (lib : FilterLib BinaryFuse8) (vs : List Cluster) (s : Cluster) : Prop where
  last : s ∈ vs
  own : ∀ x, OwnKnown lib vs x (s.clients x)
  others : ∀ j, OthersKnown vs j (s.node j)
  received : ∀ j, Received vs (s.updatesCh j)
  network : ∀ t ∈ s.network, t.buf = [] ∨ ∃ x, Published vs x t.buf
  built : ∀ x b, Published vs x b → BuiltBy lib vs x b

theorem honest_init : Honest lib [init] init where
  last := List.mem_singleton_self init
  own x :=
    { view := by simp [init, Clients.init]
      store := by simp [init, Clients.init]
      cache := by simp [init, Clients.init] }
  others j :=
    { merging := by simp [init, Node.init]
      graph := by simp [init, Node.init] }
  received j := by simp [Received, init]
  network := by simp [init]
  built := by simp [Published, init, Clients.init]

section Mono

variable {vs vs' : List Cluster} (hsub : vs ⊆ vs')
include hsub

theorem Hosted.mono {x k : UInt64} (h : Hosted vs x k) : Hosted vs' x k := by
  obtain ⟨u, hu, hk⟩ := h
  exact ⟨u, hsub hu, hk⟩

theorem Published.mono {x : UInt64} {b : List UInt8} (h : Published vs x b) :
    Published vs' x b := by
  obtain ⟨u, hu, hb⟩ := h
  exact ⟨u, hsub hu, hb⟩

theorem BuiltBy.mono {x : UInt64} {b : List UInt8} (h : BuiltBy lib vs x b) :
    BuiltBy lib vs' x b := by
  obtain ⟨clients, c, hc, hb, hall⟩ := h
  exact ⟨clients, c, hc, hb, fun k hk => (hall k hk).mono hsub⟩

theorem OwnKnown.mono {x : UInt64} {c : Clients} (h : OwnKnown lib vs x c) :
    OwnKnown lib vs' x c where
  view v hv k hk := (h.view v hv k hk).mono hsub
  store b hb := (h.store b hb).mono hsub
  cache b hb := (h.cache b hb).mono hsub

theorem OthersKnown.mono {j : UInt64} {n : Node BinaryFuse8} (h : OthersKnown vs j n) :
    OthersKnown vs' j n where
  merging c hc := ⟨(h.merging c hc).1, (h.merging c hc).2.mono hsub⟩
  graph x c hc := ⟨(h.graph x c hc).1, (h.graph x c hc).2.1, (h.graph x c hc).2.2.mono hsub⟩

theorem Received.mono {ch : UpdatesCh} (h : Received vs ch) : Received vs' ch :=
  fun c hc => (h c hc).mono hsub

end Mono

/-! ## Every step is honest -/

/-- Filters fit into memory. -/
def Small (lib : FilterLib BinaryFuse8) : Prop :=
  ∀ keys f, lib.populate keys = .ok f → f.fingerprints.length < 2 ^ 63

variable {vs : List Cluster}

/-- What a node builds fits. -/
theorem Small.of_built (hsmall : Small lib) {x : UInt64} {clients : List UInt64}
    {c : ConnectedClients BinaryFuse8} (hc : newConnectedClients lib x clients = .ok c) :
    c.f.fingerprints.length < 2 ^ 63 := by
  refine hsmall clients c.f ?_
  unfold newConnectedClients at hc
  cases hpop : lib.populate clients with
  | error e =>
      rw [hpop] at hc
      cases hc
  | ok f =>
      rw [hpop] at hc
      cases hc
      rfl

/-- The encoding of what a node builds is that of nothing else. -/
theorem eq_of_marshalBinary_eq {c d : ConnectedClients BinaryFuse8}
    (hd : d.f.fingerprints.length < 2 ^ 63) (h : c.marshalBinary = d.marshalBinary) : c = d := by
  have hlen := congrArg List.length h
  rw [length_marshalBinary, length_marshalBinary] at hlen
  have hc : c.f.fingerprints.length < 2 ^ 63 := by omega
  have hdecode := unmarshalBinary_marshalBinary Decoded.zero c hc
  rw [h, unmarshalBinary_marshalBinary Decoded.zero d hd] at hdecode
  simp only [Prod.mk.injEq, ConnectedClients.mk.injEq, Option.some.injEq, and_true] at hdecode
  obtain ⟨p, r, f⟩ := c
  obtain ⟨p', r', f'⟩ := d
  obtain ⟨rfl, rfl, rfl⟩ := hdecode
  rfl

/-- What a node builds is decoded to the same. -/
theorem BuiltBy.decode (hsmall : Small lib) {x : UInt64} {b : List UInt8}
    (h : BuiltBy lib vs x b) {c : ConnectedClients BinaryFuse8}
    (hc : Decoded.zero.unmarshalBinary b = (⟨c.peer, c.crc64, some c.f⟩, .ok ())) :
    c.peer = x ∧ b = c.marshalBinary := by
  obtain ⟨clients, d, hd, rfl, _⟩ := h
  have hpeer : d.peer = x := (newConnectedClients_ok hd).1
  rw [unmarshalBinary_marshalBinary _ d (hsmall.of_built hd)] at hc
  simp only [Prod.mk.injEq, ConnectedClients.mk.injEq, Option.some.injEq, and_true] at hc
  obtain ⟨p, r, f⟩ := c
  obtain ⟨p', r', f'⟩ := d
  obtain ⟨rfl, rfl, rfl⟩ := hc
  exact ⟨hpeer, rfl⟩

theorem OwnKnown.step {x : UInt64} {c c' : Clients} {a : Clients.Action}
    (h : OwnKnown lib vs x c) (hc : c.step lib x a = some c')
    (hkeys : ∀ k ∈ c'.keys, Hosted vs x k) : OwnKnown lib vs x c' := by
  have hstep := clients_step hc
  refine ⟨fun v' hv' k hk => ?_, fun b hb => ?_, fun b hb => ?_⟩
  · rcases hstep.view v' hv' k hk with ⟨v, hv, hold⟩ | hnew
    · exact h.view v hv k hold
    · exact hkeys k hnew
  · rcases hstep.store b hb with hold | ⟨v, seen, built, hv, hseen, hbuilt, rfl⟩
    · exact h.store b hold
    · exact ⟨seen, built, hbuilt, rfl, fun k hk => h.view v hv k (hseen k hk)⟩
  · exact (hstep.cache b hb).elim (h.cache b) (h.store b)

theorem OthersKnown.step {j : UInt64} {n n' : Node BinaryFuse8} {a : Node.Action BinaryFuse8}
    (h : OthersKnown vs j n) (ha : a.isMerge = false) (hn : Node.Step ⟨j, debug⟩ n a n') :
    OthersKnown vs j n' := by
  obtain ⟨hgraph, hmerge⟩ := node_step ha hn
  refine ⟨fun c hc => h.merging c (hmerge c hc), fun x c hc => ?_⟩
  rcases hgraph x c hc with hold | ⟨rfl, hstore⟩
  · exact h.graph x c hold
  · exact ⟨rfl, h.merging c hstore⟩

theorem OthersKnown.merge {j : UInt64} {n n' : Node BinaryFuse8}
    {c : ConnectedClients BinaryFuse8} (h : OthersKnown vs j n)
    (hc : Published vs c.peer c.marshalBinary) (hn : Node.Step ⟨j, debug⟩ n (.merge c) n') :
    OthersKnown vs j n' := by
  cases hn with
  | mergeOwn => exact h
  | mergeTake hpc hself =>
      refine { h with merging := fun d hd => ?_ }
      cases hd
      exact ⟨hself, hc⟩

theorem Received.send {ch ch' : UpdatesCh} {c : ConnectedClients BinaryFuse8}
    (h : Received vs ch) (hc : Published vs c.peer c.marshalBinary) (hch : ch.send c = some ch') :
    Received vs ch' := by
  rw [Received, (Chan.send_eq_some.1 hch).2]
  exact List.forall_mem_append.2 ⟨h, List.forall_mem_singleton.2 hc⟩

theorem Received.recv {ch ch' : UpdatesCh} {c : ConnectedClients BinaryFuse8}
    (h : Received vs ch) (hch : ch.recv = some (c, ch')) :
    Published vs c.peer c.marshalBinary ∧ Received vs ch' := by
  rw [Received, Chan.recv_eq_some.1 hch] at h
  exact List.forall_mem_cons.1 h

/-- **Step lemma.** -/
theorem Step.honest (hsmall : Small lib) (h : Step lib debug s a s') (hs : Honest lib vs s) :
    Honest lib (vs ++ [s']) s' := by
  have hsub : vs ⊆ vs ++ [s'] := List.subset_append_left vs [s']
  have hlast : s' ∈ vs ++ [s'] := List.mem_append_right _ (List.mem_singleton_self s')
  have hown := fun x => (hs.own x).mono hsub
  have hothers := fun j => (hs.others j).mono hsub
  have hreceived := fun j => (hs.received j).mono hsub
  have hnetwork : ∀ t ∈ s.network, t.buf = [] ∨ ∃ x, Published (vs ++ [s']) x t.buf := by
    intro t ht
    refine (hs.network t ht).imp id ?_
    intro hbuf
    obtain ⟨x, hx⟩ := hbuf
    exact ⟨x, hx.mono hsub⟩
  have herase : ∀ k, ∀ t ∈ s.network.eraseIdx k, t.buf = [] ∨
      ∃ x, Published (vs ++ [s']) x t.buf :=
    fun k t ht => hnetwork t (List.mem_of_mem_eraseIdx ht)
  -- who is in a map now is hosted, and what is published now is in a cache now
  have hhosted : ∀ x, ∀ k ∈ (s'.clients x).keys, Hosted (vs ++ [s']) x k :=
    fun x k hk => ⟨s', hlast, hk⟩
  have hlocal : ∀ x, localState (s.clients x) = [] ∨
      ∃ y, Published (vs ++ [s']) y (localState (s.clients x)) := by
    intro x
    cases hcache : (s.clients x).connectedClients with
    | none => exact Or.inl (by rw [localState, hcache, Option.getD_none])
    | some b =>
        refine Or.inr ⟨x, s, hsub hs.last, ?_⟩
        rw [localState, hcache, Option.getD_some]
  have hbuilt : (∀ x, OwnKnown lib (vs ++ [s']) x (s'.clients x)) →
      ∀ x b, Published (vs ++ [s']) x b → BuiltBy lib (vs ++ [s']) x b := by
    intro hnow x b hb
    obtain ⟨u, hu, hcache⟩ := hb
    rcases List.mem_append.1 hu with hu | hu
    · exact (hs.built x b ⟨u, hu, hcache⟩).mono hsub
    · rw [List.mem_singleton.1 hu] at hcache
      exact (hnow x).cache b hcache
  cases h with
  | @clients x a c hc =>
      have hkeys := hhosted x
      simp only [Function.update_self] at hkeys
      have hnow := forall_update hown ((hown x).step hc hkeys)
      exact ⟨hlast, hnow, hothers, hreceived, hnetwork, hbuilt hnow⟩
  | @node j a n ha hn =>
      exact ⟨hlast, hown, forall_update hothers ((hothers j).step ha hn), hreceived, hnetwork,
        hbuilt hown⟩
  | exchange x j =>
      refine ⟨hlast, hown, hothers, hreceived, ?_, hbuilt hown⟩
      exact List.forall_mem_append.2 ⟨hnetwork, List.forall_mem_singleton.2 (hlocal x)⟩
  | lose => exact ⟨hlast, hown, hothers, hreceived, herase _, hbuilt hown⟩
  | drop => exact ⟨hlast, hown, hothers, hreceived, herase _, hbuilt hown⟩
  | @deliver k t c ch ht hc hch =>
      have hpublished : Published vs c.peer c.marshalBinary := by
        rcases hs.network t (List.mem_of_getElem? ht) with hnil | ⟨x, hx⟩
        · simp [hnil, Decoded.unmarshalBinary] at hc
        · obtain ⟨rfl, hbuf⟩ := (hs.built x _ hx).decode hsmall hc
          rwa [hbuf] at hx
      have hmore := (hreceived t.dest).send (hpublished.mono hsub) hch
      exact ⟨hlast, hown, hothers, forall_update (P := fun _ => Received _) hreceived hmore,
        herase _, hbuilt hown⟩
  | @merge j c ch n hch hn =>
      obtain ⟨hc, hrest⟩ := (hreceived j).recv hch
      exact ⟨hlast, hown, forall_update hothers ((hothers j).merge hc hn),
        forall_update (P := fun _ => Received _) hreceived hrest, hnetwork, hbuilt hown⟩

/-- An update that a node has received is one that its sender built. -/
theorem Honest.built_of_received (hs : Honest lib vs s) (hsmall : Small lib) {j : UInt64}
    {c : ConnectedClients BinaryFuse8} (hc : c ∈ (s.updatesCh j).buf) :
    ∃ clients, newConnectedClients lib c.peer clients = .ok c := by
  obtain ⟨clients, d, hd, hsame, _⟩ := hs.built _ _ (hs.received j c hc)
  refine ⟨clients, ?_⟩
  rw [← eq_of_marshalBinary_eq (hsmall.of_built hd) hsame] at hd
  exact hd

/-- **Run lemma.** -/
theorem honest_of_run (hsmall : Small lib) {tr : List (Cluster × Action)}
    (h : (machine lib debug).Run init tr s) : Honest lib (Machine.visited tr s) s := by
  refine Machine.Run.invariant_history h honest_init ?_
  intro vs s a s' hs hstep
  exact (step_rule hstep).honest hsmall hs

/-- **What a node knows of another one came from there.** Over every run of a cluster, whatever is
    exchanged, delayed, reordered or lost: a filter that stands in the peer graph of `j` under `x`
    is one that `x`, another node, had in its cache at some time of the run, and it was built of
    clients each of which was connected to `x` at some time of the run. -/
theorem graph_entries_were_cached (hsmall : Small lib) {tr : List (Cluster × Action)}
    (hrun : (machine lib debug).Run init tr s) {j x : UInt64} {c : ConnectedClients BinaryFuse8}
    (hload : SyncMap.load (s.node j).peerGraph x = some c) :
    x ≠ j ∧ c.peer = x ∧ Published (Machine.visited tr s) x c.marshalBinary ∧
      ∃ clients, newConnectedClients lib x clients = .ok c ∧
        ∀ k ∈ clients, Hosted (Machine.visited tr s) x k := by
  have hs := honest_of_run hsmall hrun
  obtain ⟨hpeer, hne, hpublished⟩ := (hs.others j).graph x c hload
  refine ⟨hne, hpeer, hpublished, ?_⟩
  obtain ⟨clients, d, hd, hsame, hall⟩ := hs.built x _ hpublished
  refine ⟨clients, ?_, hall⟩
  rw [eq_of_marshalBinary_eq (hsmall.of_built hd) hsame]
  exact hd

/-- A filter that says yes to everything, of a fixed size. -/
def fixedFilter : FilterLib BinaryFuse8 where
  populate _ := .ok ⟨0, 4, 3, 1, 4, [0]⟩
  contains _ _ := true
  complete _ _ _ := rfl

theorem small_fixedFilter : Small fixedFilter := by
  intro keys f hf
  cases hf
  decide

/-- The `i`-th client of node 1 connects, and the dispatcher rebuilds the filter. -/
def connects (i : ℕ) (k : UInt64) (seen : List UInt64) : List Action :=
  ([Clients.Action.newPeer .yamux ⟨k, false⟩] ++ List.replicate 6 (Clients.Action.advance i true) ++
    [Clients.Action.recvNotify, .watch i, .dispatch, .snapshot seen, .store]).map (.clients 1)

theorem graph_entries_were_cached_two_nodes :
    ∃ tr s c, (machine fixedFilter false).Run init tr s ∧
      SyncMap.load (s.node 2).peerGraph 1 = some c ∧
      Published (Machine.visited tr s) 1 c.marshalBinary ∧
      ∃ clients, newConnectedClients fixedFilter 1 clients = .ok c ∧
        ∀ k ∈ clients, Hosted (Machine.visited tr s) 1 k := by
  obtain ⟨s, hrun, hsome⟩ := (machine fixedFilter false).run_of_exec_any init
    (connects 0 7 [7] ++ [.exchange 1 2, .deliver 0, .merge 2, .node 2 .mergeLoad])
    (P := fun s => (SyncMap.load (s.node 2).peerGraph 1).isSome = true) (by decide +kernel)
  obtain ⟨c, hload⟩ := Option.isSome_iff_exists.1 hsome
  obtain ⟨_, _, hpublished, hbuilt⟩ := graph_entries_were_cached small_fixedFilter hrun hload
  exact ⟨_, s, c, hrun, hload, hpublished, hbuilt⟩

end Cluster

end Tunnel.Server
