import Mathlib.Logic.Function.Basic
import Tunnel.Server.Accounts
import Tunnel.Server.Handshake

set_option autoImplicit false

/-! # Both ends of a session (`server/gossip.go`, `server/peers.go`, `state/peer_map.go`)

A session has two ends, and nobody decides for both. The node that dials writes the link and calls
`NewPeer`; the other reads the link and calls its own; each waits, stores its end in its own peer
map, and from then on either of them may remove it: because it closed, because gossip reports the
peer dead, or because the other side did so. A node that already has a session refuses the next one
by closing the connection, and its peer, which may have stored it by then, removes it again.

All they share is that a connection that is closed at one end is closed at the other some time
later. That is enough: whatever has happened, when two nodes have come to rest they hold the two
ends of one and the same connection, or neither holds a session with the other
(`sessions_agree_at_rest`). It takes the condition on registrations of `Eviction`: two calls of
`NewPeer` for one peer that are past their `Load` at the same time overwrite each other's session,
and two nodes may then keep different ones. -/

namespace Tunnel.Server

open Tunnel.Lib Tunnel.Multiplexer Tunnel.State

variable {F : Type}

/-! ## The nodes and the connections between them -/

/-- What became of a connection at the node that was dialled: its handshake has not been read; the
    connection was closed without a call of `NewPeer`; or the node `y` made its `i`-th call. -/
inductive Answer
  | waiting
  | refused
  | accepted (y : UInt64) (i : ℕ)
deriving DecidableEq

/-- A connection that `connectPeer` of `dialler` has written its link to, before its `call`-th call
    of `NewPeer`. -/
structure DialledConn where
  dialler : UInt64
  call : ℕ
  transport : Transport
  buf : List UInt8
  answer : Answer

/-- The nodes that take part, by ID. -/
structure Cast where
  identity : UInt64 → Identity
  id : ∀ x, (identity x).id = x

/-- The nodes, and all connections made so far. -/
structure SessionNet (F : Type) where
  node : UInt64 → Node F
  connections : List DialledConn

namespace SessionNet

def init : SessionNet F := ⟨fun _ => Node.init, []⟩

/-- A step: something happens at a node other than a call of `NewPeer`; `x` runs `connectPeer` with
    some metadata up to its call of `NewPeer`; the node `y` reads the handshake of the `k`-th
    connection and runs `peerNegotiation` up to its call of `NewPeer`; or nobody reads it in time.
    -/
inductive Action (F : Type)
  | node (x : UInt64) (a : Node.Action F)
  | connectPeer (x : UInt64) (m : Meta)
  | negotiate (k : ℕ) (y : UInt64)
  | refuse (k : ℕ)

/-- The node `x` calls `NewPeer`. -/
def call (s : SessionNet F) (x : UInt64) (c : NewPeerCall) : UInt64 → Node F :=
  Function.update s.node x { s.node x with newPeers := (s.node x).newPeers ++ [c] }

/-- The other end of the `k`-th connection has given an answer. -/
def answered (s : SessionNet F) (k : ℕ) (c : DialledConn) (answer : Answer) : List DialledConn :=
  s.connections.set k { c with answer := answer }

/-- One step. -/
def step (cast : Cast) (debug : Bool) (s : SessionNet F) : Action F → Option (SessionNet F)
  | .node x a =>
      if a.isNewPeer = true then none
      else ((s.node x).step ⟨x, debug⟩ a).map (fun n =>
        { s with node := Function.update s.node x n })
  | .connectPeer x m =>
      match (cast.identity x).connectPeer m with
      | .error _ => some s
      | .ok d => some
          { node := s.call x d.newPeer
            connections := s.connections ++
              [⟨x, (s.node x).newPeers.length, d.transport, d.buf, .waiting⟩] }
  | .negotiate k y =>
      s.connections[k]?.bind (fun c =>
        if c.answer = .waiting then
          match (cast.identity y).peerNegotiation (acceptableProtocols c.transport) c.buf with
          | .error _ => some { s with connections := s.answered k c .refused }
          | .ok newPeer => some
              { node := s.call y newPeer
                connections := s.answered k c (.accepted y (s.node y).newPeers.length) }
        else none)
  | .refuse k =>
      s.connections[k]?.bind (fun c =>
        if c.answer = .waiting then some { s with connections := s.answered k c .refused }
        else none)

/-- The nodes of a mesh, over every interleaving. -/
def machine (F : Type) (cast : Cast) (debug : Bool) : Machine (SessionNet F) (Action F) where
  Init s := s = init
  step s a := s.step cast debug a

/-- The condition on registrations, at every node. -/
def StoreClear (s : SessionNet F) : Action F → Prop
  | .node x a => (s.node x).StoreClear a
  | _ => True

instance (s : SessionNet F) : DecidablePred s.StoreClear
  | .node x a => inferInstanceAs (Decidable ((s.node x).StoreClear a))
  | .connectPeer _ _ | .negotiate _ _ | .refuse _ => isTrue trivial

/-- The end at the node that dialled, while it is open. -/
def diallerEnd (s : SessionNet F) (c : DialledConn) : Option Session :=
  (s.node c.dialler).openEnd c.call

/-- The end at the node that was dialled, while it is open. -/
def targetEnd (s : SessionNet F) (c : DialledConn) : Option Session :=
  match c.answer with
  | .accepted y i => (s.node y).openEnd i
  | .waiting | .refused => none

/-- The `k`-th connection is open, with the end `p` at `x` and the end `q` at `y`. -/
def Joins (s : SessionNet F) (k : ℕ) (x : UInt64) (p : Session) (y : UInt64) (q : Session) :
    Prop :=
  ∃ c i, s.connections[k]? = some c ∧
    (c.dialler = x ∧ c.answer = .accepted y i ∧ s.diallerEnd c = some p ∧ s.targetEnd c = some q ∨
      c.dialler = y ∧ c.answer = .accepted x i ∧ s.diallerEnd c = some q ∧ s.targetEnd c = some p)

/-! ## What a step can do -/

/-- The steps, one rule each. -/
inductive Step (cast : Cast) (debug : Bool) (s : SessionNet F) : Action F → SessionNet F → Prop
  | node {x : UInt64} {a : Node.Action F} {n : Node F} (ha : a.isNewPeer = false)
      (hn : Node.Step ⟨x, debug⟩ (s.node x) a n) :
      Step cast debug s (.node x a) { s with node := Function.update s.node x n }
  | failed {x : UInt64} {m : Meta} : Step cast debug s (.connectPeer x m) s
  | connectPeer {x y : UInt64} {protocol : Protocol} {m : Meta} {transport : Transport} :
      Step cast debug s (.connectPeer x m)
        { node := s.call x ⟨protocol, ⟨y, true⟩, .load⟩
          connections := s.connections ++ [⟨x, (s.node x).newPeers.length, transport,
            (⟨x, y, protocol, .multiplexer⟩ : Link).marshalBinary, .waiting⟩] }
  | refused {k : ℕ} {a : Action F} {c : DialledConn} (hc : s.connections[k]? = some c)
      (hwaiting : c.answer = .waiting) :
      Step cast debug s a { s with connections := s.answered k c .refused }
  | accepted {k : ℕ} {y : UInt64} {c : DialledConn} {link : Link}
      (hc : s.connections[k]? = some c) (hwaiting : c.answer = .waiting)
      (hlink : Link.unmarshalBinary c.buf = .ok link) (hdest : link.destination = y)
      (hself : link.source ≠ y) :
      Step cast debug s (.negotiate k y)
        { node := s.call y ⟨link.protocol, ⟨link.source, false⟩, .load⟩
          connections := s.answered k c (.accepted y (s.node y).newPeers.length) }

variable {cast : Cast} {debug : Bool} {s s' : SessionNet F} {a : Action F}

theorem step_rule (h : s.step cast debug a = some s') : Step cast debug s a s' := by
  cases a with
  | node x a =>
      simp only [step] at h
      split at h
      · cases h
      · next ha =>
          obtain ⟨n, hn, rfl⟩ := Option.map_eq_some_iff.1 h
          exact .node (by simpa using ha) (Node.step_rule hn)
  | connectPeer x m =>
      simp only [step] at h
      split at h
      · cases h
        exact .failed
      · next d hd =>
          cases h
          unfold Identity.connectPeer at hd
          simp only [cast.id] at hd
          split at hd
          · cases hd
          · cases hd
            exact .connectPeer
  | negotiate k y =>
      obtain ⟨c, hc, h⟩ := Option.bind_eq_some_iff.1 h
      split at h
      · next hwaiting =>
          split at h
          · cases h
            exact .refused hc hwaiting
          · next newPeer hcall =>
              cases h
              obtain ⟨link, hlink, _, hdest, hself, rfl⟩ := Identity.peerNegotiation_ok hcall
              rw [cast.id] at hdest hself
              exact .accepted hc hwaiting hlink hdest hself
      · cases h
  | refuse k =>
      obtain ⟨c, hc, h⟩ := Option.bind_eq_some_iff.1 h
      split at h
      · next hwaiting =>
          cases h
          exact .refused hc hwaiting
      · cases h

/-! ## Both ends are ends of one connection -/

/-- The `i`-th call of `x` is for this connection. -/
def HasEnd (c : DialledConn) (x : UInt64) (i : ℕ) : Prop :=
  c.dialler = x ∧ c.call = i ∨ c.answer = .accepted x i

/-- The connection was dialled by one node and answered by no other than the one that was meant,
    and both called `NewPeer` for each other. -/
def Matched (node : UInt64 → Node F) (c : DialledConn) : Prop :=
  ∃ y protocol, c.buf = (⟨c.dialler, y, protocol, .multiplexer⟩ : Link).marshalBinary ∧
    (node c.dialler).callInfo c.call = some (protocol, ⟨y, true⟩) ∧
    ∀ z i, c.answer = .accepted z i → z = y ∧ z ≠ c.dialler ∧
      (node z).callInfo i = some (protocol, ⟨c.dialler, false⟩)

/-- Every connection is matched, and every call of `NewPeer` is for exactly one of them. -/
structure Linked (s : SessionNet F) : Prop where
  matched : ∀ (k : ℕ) (c : DialledConn), s.connections[k]? = some c → Matched s.node c
  covered : ∀ x i, (s.node x).callInfo i ≠ none →
    ∃ (k : ℕ) (c : DialledConn), s.connections[k]? = some c ∧ HasEnd c x i
  single : ∀ (k : ℕ) (c : DialledConn) (k' : ℕ) (c' : DialledConn), s.connections[k]? = some c →
    s.connections[k']? = some c' → ∀ x i, HasEnd c x i → HasEnd c' x i → k = k'

theorem linked_init : Linked (init : SessionNet F) where
  matched := by simp [init]
  covered := by simp [init, Node.init, Node.callInfo]
  single := by simp [init]

/-- What the calls were called with is all that matters of the nodes. -/
theorem Matched.of_info {node node' : UInt64 → Node F} {c : DialledConn} (h : Matched node c)
    (hinfo : ∀ x i, (node x).callInfo i ≠ none → (node' x).callInfo i = (node x).callInfo i) :
    Matched node' c := by
  obtain ⟨y, protocol, hbuf, hdialler, htarget⟩ := h
  refine ⟨y, protocol, hbuf, ?_, ?_⟩
  · rw [hinfo _ _ (by simp [hdialler]), hdialler]
  · intro z i hz
    obtain ⟨hy, hne, hcall⟩ := htarget z i hz
    exact ⟨hy, hne, by rw [hinfo _ _ (by simp [hcall]), hcall]⟩

/-- An end of a matched connection is a call that was made. -/
theorem Matched.info_ne_none {node : UInt64 → Node F} {c : DialledConn} (h : Matched node c)
    {x : UInt64} {i : ℕ} (hend : HasEnd c x i) : (node x).callInfo i ≠ none := by
  obtain ⟨y, protocol, _, hdialler, htarget⟩ := h
  rcases hend with ⟨rfl, rfl⟩ | hanswer
  · simp [hdialler]
  · simp [(htarget x i hanswer).2.2]

/-- A call of `NewPeer` leaves the earlier calls of all nodes as they are. -/
theorem callInfo_call (s : SessionNet F) (x : UInt64) (protocol : Protocol) (conf : Config)
    (z : UInt64) (i : ℕ) : (s.call x ⟨protocol, conf, .load⟩ z).callInfo i =
      if z = x ∧ i = (s.node x).newPeers.length then some (protocol, conf)
      else (s.node z).callInfo i := by
  unfold call
  by_cases hz : z = x
  · subst hz
    simp only [Function.update_self, true_and]
    exact Node.callInfo_newPeer _ _ _ _
  · simp only [Function.update_of_ne hz, hz, false_and, if_false]

theorem callInfo_call_of_ne_none {x : UInt64} {protocol : Protocol} {conf : Config} {z : UInt64}
    {i : ℕ} (h : (s.node z).callInfo i ≠ none) :
    (s.call x ⟨protocol, conf, .load⟩ z).callInfo i = (s.node z).callInfo i := by
  rw [callInfo_call, if_neg]
  rintro ⟨rfl, rfl⟩
  exact h (Node.callInfo_eq_none_iff.2 (Nat.le_refl _))

/-- A list of connections in which at most one of them has an end more, and that one is new. -/
theorem Linked.single_of (hs : Linked s) {conns : List DialledConn} {m : ℕ}
    {N : UInt64 → ℕ → Prop} (hfresh : ∀ x i, N x i → (s.node x).callInfo i = none)
    (hends : ∀ (k : ℕ) (c : DialledConn), conns[k]? = some c → ∀ x i, HasEnd c x i →
      (∃ c₀, s.connections[k]? = some c₀ ∧ HasEnd c₀ x i) ∨ k = m ∧ N x i) :
    ∀ (k : ℕ) (c : DialledConn) (k' : ℕ) (c' : DialledConn), conns[k]? = some c →
      conns[k']? = some c' → ∀ x i, HasEnd c x i → HasEnd c' x i → k = k' := by
  intro k c k' c' hk hk' x i hend hend'
  have hold : ∀ (k : ℕ) (c₀ : DialledConn), s.connections[k]? = some c₀ → HasEnd c₀ x i →
      ¬ N x i :=
    fun k c₀ hk hend hnew => (hs.matched k c₀ hk).info_ne_none hend (hfresh x i hnew)
  rcases hends k c hk x i hend with ⟨c₀, hc₀, hend₀⟩ | ⟨rfl, hnew⟩
  · rcases hends k' c' hk' x i hend' with ⟨c₁, hc₁, hend₁⟩ | ⟨_, hnew⟩
    · exact hs.single k c₀ k' c₁ hc₀ hc₁ x i hend₀ hend₁
    · exact absurd hnew (hold k c₀ hc₀ hend₀)
  · rcases hends k' c' hk' x i hend' with ⟨c₁, hc₁, hend₁⟩ | ⟨rfl, _⟩
    · exact absurd hnew (hold k' c₁ hc₁ hend₁)
    · rfl

/-- What is in the list of connections after an answer. -/
theorem getElem?_answered {k : ℕ} {c : DialledConn} (hc : s.connections[k]? = some c)
    (answer : Answer) (k' : ℕ) : (s.answered k c answer)[k']? =
      if k = k' then some { c with answer := answer } else s.connections[k']? :=
  getElem?_set_of_some hc _ k'

/-- The ends after an answer are those from before, and the one of the answer. -/
theorem hasEnd_answered {k : ℕ} {c : DialledConn} (hc : s.connections[k]? = some c)
    {answer : Answer} {k' : ℕ} {c' : DialledConn} (hk' : (s.answered k c answer)[k']? = some c')
    {x : UInt64} {i : ℕ} (hend : HasEnd c' x i) :
    (∃ c₀, s.connections[k']? = some c₀ ∧ HasEnd c₀ x i) ∨ k' = k ∧ answer = .accepted x i := by
  rw [getElem?_answered hc] at hk'
  split at hk'
  · next hk =>
      cases hk'
      rcases hend with hdialler | hanswer
      · exact Or.inl ⟨c, hk ▸ hc, Or.inl hdialler⟩
      · exact Or.inr ⟨hk.symm, hanswer⟩
  · exact Or.inl ⟨c', hk', hend⟩

/-- No end is lost by an answer. -/
theorem exists_hasEnd_answered {k : ℕ} {c : DialledConn} (hc : s.connections[k]? = some c)
    (hwaiting : c.answer = .waiting) (answer : Answer) {x : UInt64} {i : ℕ}
    (h : ∃ (k : ℕ) (c : DialledConn), s.connections[k]? = some c ∧ HasEnd c x i) :
    ∃ (k' : ℕ) (c' : DialledConn), (s.answered k c answer)[k']? = some c' ∧ HasEnd c' x i := by
  obtain ⟨k', c', hk', hend⟩ := h
  by_cases hk : k = k'
  · subst hk
    rw [hc, Option.some.injEq] at hk'
    subst hk'
    refine ⟨k, { c with answer := answer }, by rw [getElem?_answered hc, if_pos rfl], ?_⟩
    refine Or.inl (hend.resolve_right ?_)
    rw [hwaiting]
    simp
  · exact ⟨k', c', by rw [getElem?_answered hc, if_neg hk]; exact hk', hend⟩

theorem callInfo_length (n : Node F) : n.callInfo n.newPeers.length = none :=
  Node.callInfo_eq_none_iff.2 (Nat.le_refl _)

/-- `x` dials. -/
theorem Linked.connectPeer (hs : Linked s) (x y : UInt64) (protocol : Protocol)
    (transport : Transport) :
    Linked
      { node := s.call x ⟨protocol, ⟨y, true⟩, .load⟩
        connections := s.connections ++ [⟨x, (s.node x).newPeers.length, transport,
          (⟨x, y, protocol, .multiplexer⟩ : Link).marshalBinary, .waiting⟩] } := by
  refine ⟨?_, ?_, ?_⟩
  · refine forall_getElem?_concat ?_ ?_
    · intro k c hc
      exact (hs.matched k c hc).of_info (fun z i hz => callInfo_call_of_ne_none hz)
    · refine ⟨y, protocol, rfl, ?_, by simp⟩
      rw [callInfo_call, if_pos ⟨rfl, rfl⟩]
  · intro z i hz
    rw [callInfo_call] at hz
    split at hz
    · next hnew =>
        obtain ⟨rfl, rfl⟩ := hnew
        exact ⟨_, _, List.getElem?_concat_length, Or.inl ⟨rfl, rfl⟩⟩
    · obtain ⟨k, c, hc, hend⟩ := hs.covered z i hz
      exact ⟨k, c, getElem?_append_of_some hc _, hend⟩
  · refine hs.single_of (m := s.connections.length)
      (N := fun z i => z = x ∧ i = (s.node x).newPeers.length) ?_ ?_
    · rintro z i ⟨rfl, rfl⟩
      exact callInfo_length _
    · intro k c hk z i hend
      rw [getElem?_concat] at hk
      split at hk
      · next hlen =>
          cases hk
          rcases hend with ⟨hx, hi⟩ | hanswer
          · exact Or.inr ⟨hlen, hx.symm, hi.symm⟩
          · cases hanswer
      · exact Or.inl ⟨c, hk, hend⟩

/-- A connection is closed without a call of `NewPeer`. -/
theorem Linked.refused (hs : Linked s) {k : ℕ} {c : DialledConn}
    (hc : s.connections[k]? = some c) (hwaiting : c.answer = .waiting) :
    Linked { s with connections := s.answered k c .refused } := by
  refine ⟨?_, ?_, ?_⟩
  · refine forall_getElem?_set (fun k' c' _ hk' => hs.matched k' c' hk') ?_
    obtain ⟨y, protocol, hbuf, hdialler, _⟩ := hs.matched k c hc
    exact ⟨y, protocol, hbuf, hdialler, by simp⟩
  · intro z i hz
    exact exists_hasEnd_answered hc hwaiting _ (hs.covered z i hz)
  · refine hs.single_of (m := k) (N := fun _ _ => False) (by simp) ?_
    intro k' c' hk' z i hend
    exact (hasEnd_answered hc hk' hend).imp_right (by simp)

/-- `y` accepts the handshake. -/
theorem Linked.accepted (hs : Linked s) {k : ℕ} {y : UInt64} {c : DialledConn} {link : Link}
    (hc : s.connections[k]? = some c) (hwaiting : c.answer = .waiting)
    (hlink : Link.unmarshalBinary c.buf = .ok link) (hdest : link.destination = y)
    (hself : link.source ≠ y) :
    Linked
      { node := s.call y ⟨link.protocol, ⟨link.source, false⟩, .load⟩
        connections := s.answered k c (.accepted y (s.node y).newPeers.length) } := by
  refine ⟨?_, ?_, ?_⟩
  · refine forall_getElem?_set ?_ ?_
    · intro k' c' _ hk'
      exact (hs.matched k' c' hk').of_info (fun z i hz => callInfo_call_of_ne_none hz)
    · -- the link that was read is the one that was written
      obtain ⟨z, protocol, hbuf, hdialler, _⟩ := hs.matched k c hc
      rw [hbuf, Link.unmarshalBinary_marshalBinary] at hlink
      cases hlink
      refine ⟨z, protocol, hbuf, ?_, ?_⟩
      · rw [callInfo_call_of_ne_none (by simp [hdialler]), hdialler]
      · intro z' i hz'
        cases hz'
        refine ⟨hdest.symm, hself.symm, ?_⟩
        rw [callInfo_call, if_pos ⟨rfl, rfl⟩]
  · intro z i hz
    rw [callInfo_call] at hz
    split at hz
    · next hnew =>
        obtain ⟨rfl, rfl⟩ := hnew
        exact ⟨k, _, by rw [getElem?_answered hc, if_pos rfl], Or.inr rfl⟩
    · exact exists_hasEnd_answered hc hwaiting _ (hs.covered z i hz)
  · refine hs.single_of (m := k)
      (N := fun z i => z = y ∧ i = (s.node y).newPeers.length) ?_ ?_
    · rintro z i ⟨rfl, rfl⟩
      exact callInfo_length _
    · intro k' c' hk' z i hend
      refine (hasEnd_answered hc hk' hend).imp_right ?_
      rintro ⟨hk, hanswer⟩
      cases hanswer
      exact ⟨hk, rfl, rfl⟩

/-- **Step lemma.** -/
theorem Step.linked (h : Step cast debug s a s') (hs : Linked s) : Linked s' := by
  cases h with
  | @node x a n ha hn =>
      have hinfo : ∀ z i, (Function.update s.node x n z).callInfo i = (s.node z).callInfo i := by
        intro z i
        by_cases hz : z = x
        · subst hz
          simp only [Function.update_self]
          exact hn.callInfo ha i
        · simp only [Function.update_of_ne hz]
      refine ⟨fun k c hc => (hs.matched k c hc).of_info (fun z i _ => hinfo z i), ?_, hs.single⟩
      intro z i hz
      rw [hinfo] at hz
      exact hs.covered z i hz
  | failed => exact hs
  | connectPeer => exact hs.connectPeer _ _ _ _
  | refused hc hwaiting => exact hs.refused hc hwaiting
  | accepted hc hwaiting hlink hdest hself => exact hs.accepted hc hwaiting hlink hdest hself

/-- What holds along every run that meets the condition on registrations. -/
structure Sound (s : SessionNet F) : Prop where
  linked : Linked s
  orderly : ∀ x, (s.node x).Orderly
  accounted : ∀ x, (s.node x).Accounted

/-- The nodes go on as nodes do. -/
theorem Step.node_step (h : Step cast debug s a s') (hok : s.StoreClear a) (x : UInt64) :
    s'.node x = s.node x ∨
      ∃ b, Node.Step ⟨x, debug⟩ (s.node x) b (s'.node x) ∧ (s.node x).StoreClear b := by
  have hcall : ∀ (y : UInt64) (protocol : Protocol) (conf : Config),
      s.call y ⟨protocol, conf, .load⟩ x = s.node x ∨
        ∃ b, Node.Step ⟨x, debug⟩ (s.node x) b (s.call y ⟨protocol, conf, .load⟩ x) ∧
          (s.node x).StoreClear b := by
    intro y protocol conf
    by_cases hx : x = y
    · subst hx
      simp only [call, Function.update_self]
      exact Or.inr ⟨_, .newPeer protocol conf, trivial⟩
    · exact Or.inl (Function.update_of_ne hx _ _)
  cases h with
  | @node y b n ha hn =>
      by_cases hx : x = y
      · subst hx
        simp only [Function.update_self]
        exact Or.inr ⟨b, hn, hok⟩
      · exact Or.inl (Function.update_of_ne hx _ _)
  | connectPeer => exact hcall _ _ _
  | accepted => exact hcall _ _ _
  | failed | refused => exact Or.inl rfl

/-- **Run lemma.** -/
theorem sound_of_run {tr : List (SessionNet F × Action F)}
    (h : (machine F cast debug).Run init tr s) (hok : Machine.Meets StoreClear tr) : Sound s := by
  refine h.invariant hok ⟨linked_init, fun _ => Node.Orderly.init, fun _ => Node.Accounted.init⟩ ?_
  intro s a s' hs hok hstep
  have hrule := step_rule hstep
  refine ⟨hrule.linked hs.linked, fun x => ?_, fun x => ?_⟩
  · rcases hrule.node_step hok x with hsame | ⟨b, hn, hclear⟩
    · rw [hsame]
      exact hs.orderly x
    · exact (hs.orderly x).step hclear hn
  · rcases hrule.node_step hok x with hsame | ⟨b, hn, hclear⟩
    · rw [hsame]
      exact hs.accounted x
    · exact (hs.accounted x).step (hs.orderly x) hclear hn

/-! ## Agreement -/

/-- An open end of a call is an end of some connection; if that connection is as open at the other
    end, the other end is with the peer of the call. -/
theorem Sound.joins (hs : Sound s)
    (hconns : ∀ c ∈ s.connections, (s.diallerEnd c).isSome = (s.targetEnd c).isSome)
    {x : UInt64} {i : ℕ} {p : Session} (hp : (s.node x).openEnd i = some p) :
    ∃ k q, s.Joins k x p p.peer q ∧ q.peer = x ∧ q.protocol = p.protocol ∧
      q.initiator = !p.initiator := by
  have hinfo := (hs.accounted x).info hp
  obtain ⟨k, c, hc, hend⟩ := hs.linked.covered x i (by simp [hinfo])
  obtain ⟨y, protocol, _, hdialler, htarget⟩ := hs.linked.matched k c hc
  have hboth := hconns c (List.mem_of_getElem? hc)
  rcases hend with ⟨rfl, rfl⟩ | hanswer
  · -- the call of the node that dialled
    rw [hinfo, Option.some.injEq, Prod.mk.injEq, Config.mk.injEq] at hdialler
    obtain ⟨rfl, rfl, hinitiator⟩ := hdialler
    have hopen : (s.targetEnd c).isSome = true := by
      rw [← hboth, diallerEnd, hp, Option.isSome_some]
    obtain ⟨q, hq⟩ := Option.isSome_iff_exists.1 hopen
    cases hc' : c.answer with
    | accepted z j =>
        obtain ⟨rfl, _, hcall⟩ := htarget z j hc'
        have hqend : (s.node p.peer).openEnd j = some q := by
          rw [targetEnd, hc'] at hq
          exact hq
        have hqinfo := (hs.accounted _).info hqend
        rw [hcall, Option.some.injEq, Prod.mk.injEq, Config.mk.injEq] at hqinfo
        obtain ⟨hprotocol, hpeer, hinit⟩ := hqinfo
        refine ⟨k, q, ⟨c, j, hc, Or.inl ⟨rfl, hc', hp, hq⟩⟩, hpeer.symm, hprotocol.symm, ?_⟩
        rw [← hinit, hinitiator, Bool.not_true]
    | waiting => simp [targetEnd, hc'] at hq
    | refused => simp [targetEnd, hc'] at hq
  · -- the call of the node that was dialled
    obtain ⟨rfl, _, hcall⟩ := htarget x i hanswer
    rw [hinfo, Option.some.injEq, Prod.mk.injEq, Config.mk.injEq] at hcall
    obtain ⟨rfl, hpeer, hinitiator⟩ := hcall
    have htarget : s.targetEnd c = some p := by
      rw [targetEnd, hanswer]
      exact hp
    have hopen : (s.diallerEnd c).isSome = true := by
      rw [hboth, htarget, Option.isSome_some]
    obtain ⟨q, hq⟩ := Option.isSome_iff_exists.1 hopen
    have hqinfo := (hs.accounted _).info hq
    rw [hdialler, Option.some.injEq, Prod.mk.injEq, Config.mk.injEq] at hqinfo
    obtain ⟨hprotocol, hqpeer, hinit⟩ := hqinfo
    refine ⟨k, q, ⟨c, i, hc, Or.inr ⟨hpeer.symm, hanswer, hq, htarget⟩⟩, hqpeer.symm,
      hprotocol.symm, ?_⟩
    rw [← hinit, hinitiator, Bool.not_false]

/-- The ends of an open connection are open ends of calls, each for the other node. -/
theorem Sound.ends (hs : Sound s) {k : ℕ} {x y : UInt64} {p q : Session}
    (h : s.Joins k x p y q) :
    p.peer = y ∧ (∃ i, (s.node x).openEnd i = some p ∧
        ∃ c, s.connections[k]? = some c ∧ HasEnd c x i) ∧
      ∃ j, (s.node y).openEnd j = some q := by
  obtain ⟨c, i, hc, h⟩ := h
  obtain ⟨z, protocol, _, hdialler, htarget⟩ := hs.linked.matched k c hc
  rcases h with ⟨rfl, hanswer, hp, hq⟩ | ⟨rfl, hanswer, hq, hp⟩
  · rw [targetEnd, hanswer] at hq
    obtain ⟨rfl, _⟩ := htarget y i hanswer
    have hinfo := (hs.accounted _).info hp
    rw [hdialler, Option.some.injEq, Prod.mk.injEq, Config.mk.injEq] at hinfo
    exact ⟨hinfo.2.1.symm, ⟨_, hp, c, hc, Or.inl ⟨rfl, rfl⟩⟩, i, hq⟩
  · rw [targetEnd, hanswer] at hp
    have hcall := (htarget x i hanswer).2.2
    have hinfo := (hs.accounted _).info hp
    rw [hcall, Option.some.injEq, Prod.mk.injEq, Config.mk.injEq] at hinfo
    exact ⟨hinfo.2.1.symm, ⟨i, hp, c, hc, Or.inr hanswer⟩, _, hq⟩

/-- **Two nodes at rest agree on their session.** Over every run in which sessions are only stored
    when the earlier ones of the peer are done with, whoever dials whom, whatever is refused, closed
    or reported dead: if `x` and `y` have come to rest and connections that are closed at one end
    are closed at the other, then `x` has a session with `y` only if `y` has one with `x`; these two
    are the ends of one connection, with the same protocol and opposite roles; and it is the only
    connection between the two nodes that is open. -/
theorem sessions_agree_at_rest {tr : List (SessionNet F × Action F)}
    (hrun : (machine F cast debug).Run init tr s) (hok : Machine.Meets StoreClear tr)
    {x y : UInt64} (hx : (s.node x).AtRest) (hy : (s.node y).AtRest)
    (hconns : ∀ c ∈ s.connections, (s.diallerEnd c).isSome = (s.targetEnd c).isSome)
    {p : Session} (hp : (s.node x).peers.get y = some p) :
    ∃ q k, (s.node y).peers.get x = some q ∧ q.protocol = p.protocol ∧
      q.initiator = !p.initiator ∧ s.Joins k x p y q ∧
      ∀ k' p' q', s.Joins k' x p' y q' → k' = k := by
  have hs := sound_of_run hrun hok
  obtain ⟨rfl, i, hi⟩ := hx.open_of_get (hs.orderly x) hp
  obtain ⟨k, q, hjoins, hpeer, hprotocol, hinitiator⟩ := hs.joins hconns hi
  obtain ⟨_, ⟨i₀, hi₀, c₀, hc₀, hend₀⟩, j, hj⟩ := hs.ends hjoins
  refine ⟨q, k, ?_, hprotocol, hinitiator, hjoins, ?_⟩
  · rw [← hpeer]
    exact hy.get_of_open (hs.accounted _) hj
  · intro k' p' q' hjoins'
    obtain ⟨hpeer', ⟨i₁, hi₁, c₁, hc₁, hend₁⟩, _⟩ := hs.ends hjoins'
    have hsame : i₁ = i₀ :=
      hx.open_unique (hs.orderly x).ledger (hs.accounted x) hi₁ hi₀ hpeer'
    subst hsame
    exact hs.linked.single k' c₁ k c₀ hc₁ hc₀ x i₁ hend₁ hend₀

/-! ## A second dial

Node 5 dials node 9, and once more when the session stands. -/

def exampleCast : Cast := ⟨fun x => ⟨x, "10.0.0.1", 7946, .yamux, false⟩, fun _ => rfl⟩

def secondDial : List (Action Unit) :=
  [Action.connectPeer 5 (exampleCast.identity 9).meta, .negotiate 0 9] ++
    List.replicate 6 (Action.node 5 (.advance 0 true)) ++
    List.replicate 6 (Action.node 9 (.advance 0 true)) ++
    [Action.node 5 .recvNotify, .node 9 .recvNotify,
      .connectPeer 5 (exampleCast.identity 9).meta, .node 5 (.advance 1 true), .negotiate 1 9,
      .node 9 (.advance 1 true)]

theorem sessions_agree_at_rest_second_dial :
    ∃ (s : SessionNet Unit) (p q : Session) (k : ℕ), (machine Unit exampleCast false).Reachable s ∧
      (s.node 5).peers.get 9 = some p ∧ (s.node 9).peers.get 5 = some q ∧
      q.initiator = !p.initiator ∧ s.Joins k 5 p 9 q ∧
      ∀ k' p' q', s.Joins k' 5 p' 9 q' → k' = k := by
  obtain ⟨s, hrun, ⟨hcalls, hnotify, hrem⟩, ⟨hcalls', hnotify', hrem'⟩, hconns, hsome⟩ :=
    (machine Unit exampleCast false).run_of_exec_any init secondDial
      (P := fun s => ((∀ c ∈ (s.node 5).newPeers, c.hasReturned = true) ∧
          (s.node 5).peers.notify.IsEmpty ∧ ∀ r ∈ (s.node 5).removers,
            r.pc.hasReturned = true ∨ r.pc = .watching ∧ ∀ p ∈ r.origin.session,
              p ∉ (s.node 5).closed) ∧
        ((∀ c ∈ (s.node 9).newPeers, c.hasReturned = true) ∧
          (s.node 9).peers.notify.IsEmpty ∧ ∀ r ∈ (s.node 9).removers,
            r.pc.hasReturned = true ∨ r.pc = .watching ∧ ∀ p ∈ r.origin.session,
              p ∉ (s.node 9).closed) ∧
        (∀ c ∈ s.connections, (s.diallerEnd c).isSome = (s.targetEnd c).isSome) ∧
        ((s.node 5).peers.get 9).isSome = true) (by decide +kernel)
  have hok : Machine.Meets StoreClear
      ((machine Unit exampleCast false).trace init secondDial) := by
    unfold Machine.Meets
    decide +kernel
  obtain ⟨p, hp⟩ := Option.isSome_iff_exists.1 hsome
  obtain ⟨q, k, hq, _, hinitiator, hjoins, hunique⟩ := sessions_agree_at_rest hrun hok
    ⟨hcalls, hnotify, hrem⟩ ⟨hcalls', hnotify', hrem'⟩ hconns hp
  exact ⟨s, p, q, k, ⟨_, _, rfl, hrun⟩, hp, hq, hinitiator, hjoins, hunique⟩

end SessionNet

end Tunnel.Server
