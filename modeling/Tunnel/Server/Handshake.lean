import Tunnel.Server.Gossip

set_option autoImplicit false

/-! # The handshake between two nodes (`server/gossip.go`, `server/peers.go`)

The node that reaches out dials the other with the dialer of the protocol that the other gossips,
and sends a `Link` with both IDs. The other checks it, and both call `NewPeer`. Six pieces of code
on two nodes have to fit for this to give one session: both codecs, `shouldReachOut`, the dialer
registry, the protocols accepted per transport, and the checks of `peerNegotiation`. They do:
`peering_roles_and_handshake`. -/

namespace Tunnel.Server

open Tunnel.Lib Tunnel.Multiplexer Tunnel.State

/-- What `connectPeer` does when nothing fails on the network: the address it dials, the transport
    of the dialer, the bytes it writes, and the `NewPeer` it calls. -/
structure Dial where
  address : String
  transport : Transport
  buf : List UInt8
  newPeer : NewPeerCall

/-- Why `peerNegotiation` refuses a handshake before it calls `NewPeer`. -/
inductive NegotiationError
  | unmarshal (text : String)
  | invalidALPN
  | unacceptableProtocol (p : Protocol)
  | negotiating (text : String)
  | invalidHandshake (link : Link)

/-- The texts of the errors. -/
def NegotiationError.text : NegotiationError → String
  | .unmarshal text => "unmarshal link: " ++ text
  | .invalidALPN => "invalid ALPN received from peer"
  | .unacceptableProtocol p => "unacceptable protocol: " ++ toString p.byte.toNat
  | .negotiating text => "negotiating protocol with peer: " ++ text
  | .invalidHandshake link => "invalid peer handshake " ++ link.text

/-- What `peerTLSHandshake` and `peerQUICHandshake` pass to `peerNegotiation`. -/
def acceptableProtocols : Transport → List Protocol
  | .tls => Protocol.tlsProtos
  | .quic => Protocol.quicProtos

/-- Whether `handlePeerEvents` opens the messaging stream of a new session (peers.go:158-169). -/
def opensMessaging (p : Session) : Bool :=
  if p.initiator then false else true

namespace Identity

/-- `connectPeer` -/
def connectPeer (s : Identity) (m : Meta) : Except String Dial :=
  let link : Link := ⟨s.id, m.peerID, m.protocol, .multiplexer⟩
  match dialer m.protocol with
  | .error e => .error ("getting dialer: " ++ e)
  | .ok transport => .ok
      { address := m.connectIP ++ ":" ++ toString m.connectPort.toNat
        transport := transport
        buf := link.marshalBinary
        newPeer := ⟨m.protocol, ⟨m.peerID, true⟩, .load⟩ }

/-- `peerNegotiation`, up to its call of `NewPeer`, when it has read the bytes `r`. -/
def peerNegotiation (s : Identity) (acceptable : List Protocol) (r : List UInt8) :
    Except NegotiationError NewPeerCall :=
  match Link.unmarshalBinary r with
  | .error e => .error (.unmarshal e)
  | .ok link =>
      if link.alpn ≠ .multiplexer then .error .invalidALPN
      else if link.protocol ∉ acceptable then .error (.unacceptableProtocol link.protocol)
      else match new link.protocol with
        | .error e => .error (.negotiating e)
        | .ok _ =>
            if (link.source = 0 ∨ link.destination = 0) ∨ link.source = link.destination ∨
                link.destination ≠ s.id ∨ link.source = s.id then
              .error (.invalidHandshake link)
            else .ok ⟨link.protocol, ⟨link.source, false⟩, .load⟩

/-- A handshake that is accepted is for the node and not from it, and the call of `NewPeer` says
    which protocol and which peer stood in the link. -/
theorem peerNegotiation_ok {s : Identity} {acceptable : List Protocol} {r : List UInt8}
    {call : NewPeerCall} (h : s.peerNegotiation acceptable r = .ok call) :
    ∃ link, Link.unmarshalBinary r = .ok link ∧ link.alpn = .multiplexer ∧
      link.destination = s.id ∧ link.source ≠ s.id ∧
      call = ⟨link.protocol, ⟨link.source, false⟩, .load⟩ := by
  unfold peerNegotiation at h
  split at h
  · cases h
  · next link hlink =>
      split at h
      · cases h
      · next halpn =>
          split at h
          · cases h
          · split at h
            · cases h
            · split at h
              · cases h
              · next hids =>
                  cases h
                  simp only [not_or] at hids
                  obtain ⟨_, _, hdest, hself⟩ := hids
                  exact ⟨link, hlink, not_not.1 halpn, not_not.1 hdest, hself, rfl⟩

/-- The node as the others see it: its name and its `NodeMeta`. -/
def member (s : Identity) : Option Member :=
  s.meta.marshalBinary.map (fun b => ⟨s.name, b, .alive⟩)

/-- What it takes for a node to be dialled: an ID, a registered protocol and an IPv4 address. -/
structure Dialable (s : Identity) : Prop where
  id : s.id ≠ 0
  protocol : s.protocol ∈ protocolRegistry
  ipv4 : (parseIPv4 s.advertiseAddr.toList).isSome = true

/-! ## Roles -/

variable {s t : Identity}

/-- What stands behind the last `c` of a list is determined by the list. -/
theorem eq_of_append_cons_eq {α : Type} {c : α} {xs ys ds es : List α} (hds : c ∉ ds)
    (hes : c ∉ es) (h : xs ++ c :: ds = ys ++ c :: es) : ds = es := by
  rcases List.append_eq_append_iff.1 h with ⟨zs, _, htail⟩ | ⟨zs, _, htail⟩
  · cases zs with
    | nil => exact (List.cons.inj htail).2
    | cons z zs =>
        rw [(List.cons.inj htail).2] at hds
        exact absurd (by simp) hds
  · cases zs with
    | nil => exact (List.cons.inj htail).2.symm
    | cons z zs =>
        rw [(List.cons.inj htail).2] at hes
        exact absurd (by simp) hes

/-- The name of a node ends in its ID. -/
theorem id_eq_of_name_eq (h : s.name = t.name) : s.id = t.id := by
  have hname : ∀ s : Identity, s.name.toList =
      (s.advertiseAddr ++ ":" ++ toString s.peerPort.toInt).toList ++
        '/' :: Nat.toDigits 10 s.id.toNat := by
    intro s
    rw [name, String.toList_append, String.toList_append, Nat.toString_eq_repr, Nat.toList_repr,
      List.append_assoc]
    rfl
  have hslash : ∀ n : ℕ, '/' ∉ Nat.toDigits 10 n := by
    intro n hmem
    have hdigit := Nat.isDigit_of_mem_toDigits (by decide) (by decide) hmem
    exact absurd hdigit (by decide)
  have hlist := congrArg String.toList h
  rw [hname, hname] at hlist
  have hdigits := eq_of_append_cons_eq (hslash _) (hslash _) hlist
  apply UInt64.toNat_inj.1
  calc s.id.toNat
      = Nat.ofDigitChars 10 (Nat.toDigits 10 s.id.toNat) 0 :=
        (Nat.ofDigitChars_toDigits (by decide) (by decide)).symm
    _ = Nat.ofDigitChars 10 (Nat.toDigits 10 t.id.toNat) 0 := by rw [hdigits]
    _ = t.id.toNat := Nat.ofDigitChars_toDigits (by decide) (by decide)

/-- What `NotifyJoin` does about another node that can be dialled. -/
theorem notifyJoin_member (ht : t.Dialable) (hst : s.id ≠ t.id) :
    ∃ node, t.member = some node ∧
      s.notifyJoin node = if s.shouldReachOut t.meta then .connectPeer t.meta else .respond := by
  obtain ⟨b, hb, hdec⟩ := Meta.decode_marshalBinary (m := t.meta) ht.ipv4
  have hname : t.name ≠ s.name := fun h => hst (id_eq_of_name_eq h.symm)
  have hid : t.meta.peerID ≠ s.id := hst.symm
  refine ⟨⟨t.name, b, .alive⟩, by rw [member, hb]; rfl, ?_⟩
  rw [notifyJoin, if_neg hname, hdec]
  exact if_neg hid

/-- Unless both only respond, a node reaches out exactly if the other one does not. -/
theorem shouldReachOut_iff_not (hst : s.id ≠ t.id)
    (hone : s.respondOnly = false ∨ t.respondOnly = false) :
    s.shouldReachOut t.meta = true ↔ ¬ t.shouldReachOut s.meta = true := by
  have hlt : ¬ t.id < s.id ↔ s.id < t.id := by
    rw [UInt64.not_lt, UInt64.le_iff_lt_or_eq]
    exact ⟨fun h => h.resolve_right hst, Or.inl⟩
  rw [shouldReachOut_iff, shouldReachOut_iff]
  show s.respondOnly = false ∧ (t.respondOnly = true ∨ ¬ t.id < s.id) ↔
    ¬ (t.respondOnly = false ∧ (s.respondOnly = true ∨ ¬ s.id < t.id))
  rw [hlt]
  cases hs : s.respondOnly with
  | false => cases ht : t.respondOnly <;> simp
  | true =>
      have ht : t.respondOnly = false := hone.resolve_left (by simp [hs])
      simp [ht]

/-! ## The handshake -/

/-- The sessions `p` of `s` and `q` of `t` are the two ends of one session that `s` has dialled. -/
structure Peered (s t : Identity) (ms mt : PeerMap) (p q : Session) : Prop where
  dialler : ms.get t.id = some p ∧ p.peer = t.id
  target : mt.get s.id = some q ∧ q.peer = s.id
  protocol : p.protocol = q.protocol
  initiator : p.initiator = true ∧ q.initiator = false
  messaging : opensMessaging p = false ∧ opensMessaging q = true

/-- `connectPeer` of `s` with the metadata `m` leads to a session with `t`: it dials the address of
    `t`, `t` accepts what it sends over the transport of the dialer, and from any two peer maps that
    do not have the other node and room in `notify`, the two calls of `NewPeer` return `nil` with
    the two ends of one session registered. -/
def Connects (s t : Identity) (m : Meta) : Prop :=
  ∃ dial call, s.connectPeer m = .ok dial ∧
    dial.address = t.advertiseAddr ++ ":" ++ toString t.peerPort.toUInt64.toNat ∧
    t.peerNegotiation (acceptableProtocols dial.transport) dial.buf = .ok call ∧
    ∀ ms mt : PeerMap, ms.get t.id = none → mt.get s.id = none → ¬ ms.notify.IsFull →
      ¬ mt.notify.IsFull → ∃ ms' mt' p q,
        dial.newPeer.run ms 6 = some (ms', { dial.newPeer with pc := .returned (.ok p) }) ∧
        call.run mt 6 = some (mt', { call with pc := .returned (.ok q) }) ∧
        Peered s t ms' mt' p q

/-- The transport of a dialer accepts the protocol it was registered for. -/
theorem dialer_of_mem_registry {p : Protocol} (hp : p ∈ protocolRegistry) :
    new p = .ok () ∧ ∃ transport, dialer p = .ok transport ∧ p ∈ acceptableProtocols transport := by
  simp only [protocolRegistry, List.mem_cons, List.not_mem_nil, or_false] at hp
  rcases hp with rfl | rfl | rfl
  · exact ⟨rfl, .tls, rfl, by decide⟩
  · exact ⟨rfl, .tls, rfl, by decide⟩
  · exact ⟨rfl, .quic, rfl, by decide⟩

theorem connects (hs : s.id ≠ 0) (ht : t.Dialable) (hst : s.id ≠ t.id) : s.Connects t t.meta := by
  obtain ⟨hnew, transport, hdialer, haccept⟩ := dialer_of_mem_registry ht.protocol
  have hdial : dialer t.meta.protocol = .ok transport := hdialer
  refine ⟨_, ⟨t.protocol, ⟨s.id, false⟩, .load⟩, by rw [connectPeer, hdial], rfl, ?_, ?_⟩
  · -- the link that was sent passes all checks
    have hlink := Link.unmarshalBinary_marshalBinary ⟨s.id, t.id, t.protocol, .multiplexer⟩
    have hids : ¬ ((s.id = 0 ∨ t.id = 0) ∨ s.id = t.id ∨ t.id ≠ t.id ∨ s.id = t.id) := by
      simp [hs, ht.id, hst]
    show t.peerNegotiation (acceptableProtocols transport)
      (Link.marshalBinary ⟨s.id, t.id, t.protocol, .multiplexer⟩) = _
    rw [peerNegotiation, hlink]
    simp only [hnew]
    rw [if_neg (not_not.2 rfl), if_neg (not_not.2 haccept), if_neg hids]
  · intro ms mt hms hmt hroom hroom'
    obtain ⟨ms', hrun, hget, _⟩ := NewPeerCall.run_ok ⟨t.id, true⟩ ht.protocol ht.id hms hroom rfl
    obtain ⟨mt', hrun', hget', _⟩ := NewPeerCall.run_ok ⟨s.id, false⟩ ht.protocol hs hmt hroom' rfl
    exact ⟨ms', mt', _, _, hrun, hrun', ⟨hget, rfl⟩, ⟨hget', rfl⟩, rfl, ⟨rfl, rfl⟩, rfl, rfl⟩

/-- **Peering roles are complementary and the handshake is accepted.** Of two nodes with different
    IDs that both can be dialled, each deciding on what the other gossips, exactly one reaches out
    and the other responds, unless both only respond, and then both do; and whichever of them dials
    gets a session with the other. -/
theorem peering_roles_and_handshake {a b : Identity} (ha : a.Dialable) (hb : b.Dialable)
    (hab : a.id ≠ b.id) :
    ∃ na nb, a.member = some na ∧ b.member = some nb ∧
      (a.respondOnly = false ∨ b.respondOnly = false →
        a.notifyJoin nb = .connectPeer b.meta ∧ b.notifyJoin na = .respond ∨
          a.notifyJoin nb = .respond ∧ b.notifyJoin na = .connectPeer a.meta) ∧
      (a.respondOnly = true ∧ b.respondOnly = true →
        a.notifyJoin nb = .respond ∧ b.notifyJoin na = .respond) ∧
      a.Connects b b.meta ∧ b.Connects a a.meta := by
  obtain ⟨nb, hnb, hajoin⟩ := notifyJoin_member (s := a) hb hab
  obtain ⟨na, hna, hbjoin⟩ := notifyJoin_member (s := b) ha hab.symm
  refine ⟨na, nb, hna, hnb, fun hone => ?_, fun hboth => ?_, connects ha.id hb hab,
    connects hb.id ha hab.symm⟩
  · have hiff := shouldReachOut_iff_not hab hone
    by_cases hreach : b.shouldReachOut a.meta = true
    · have hwait : ¬ a.shouldReachOut b.meta = true := fun h => hiff.1 h hreach
      exact Or.inr ⟨by rw [hajoin, if_neg hwait], by rw [hbjoin, if_pos hreach]⟩
    · exact Or.inl ⟨by rw [hajoin, if_pos (hiff.2 hreach)], by rw [hbjoin, if_neg hreach]⟩
  · have hwait : ∀ {s t : Identity}, s.respondOnly = true → ¬ s.shouldReachOut t.meta = true := by
      intro s t hs hreach
      have := (shouldReachOut_iff.1 hreach).1
      rw [hs] at this
      exact absurd this (by simp)
    exact ⟨by rw [hajoin, if_neg (hwait hboth.1)], by rw [hbjoin, if_neg (hwait hboth.2)]⟩

/-- Node 9 only responds; node 5 prefers QUIC. -/
def exampleResponder : Identity := ⟨9, "10.0.0.9", 7946, .mplex, true⟩

def exampleDialler : Identity := ⟨5, "10.0.0.5", 7946, .quic, false⟩

theorem peering_roles_and_handshake_responder :
    ∃ nb, exampleResponder.member = some nb ∧
      exampleDialler.notifyJoin nb = .connectPeer exampleResponder.meta ∧
      exampleDialler.Connects exampleResponder exampleResponder.meta := by
  have ha : exampleDialler.Dialable := ⟨by decide, by decide, by decide⟩
  have hb : exampleResponder.Dialable := ⟨by decide, by decide, by decide⟩
  obtain ⟨na, nb, hna, hnb, hroles, _, hconnects, _⟩ :=
    peering_roles_and_handshake ha hb (by decide)
  refine ⟨nb, hnb, ?_, hconnects⟩
  rcases hroles (by decide) with h | ⟨h, _⟩
  · exact h.1
  · -- node 5 does not wait
    have hmember : exampleResponder.member =
        some ⟨"10.0.0.9:7946/9", exampleResponder.meta.layout [10, 0, 0, 9], .alive⟩ := by decide
    rw [hmember, Option.some.injEq] at hnb
    rw [← hnb] at h
    exact absurd h (by decide)

end Identity

end Tunnel.Server
