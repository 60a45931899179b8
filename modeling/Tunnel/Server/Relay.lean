import Tunnel.Mux.Handshake
import Tunnel.Server.SingleHop

set_option autoImplicit false

/-! # The link of a stream along its way

`SingleHop` follows a stream from node to node and takes for granted that its link comes along. Here
the link is on the wire: on every hop the node that holds the stream writes the link to a new stream
of some session, and the other end reads it back, with the `streamHandshake` of the session's
multiplexer. What arrives decides what happens next. The zero link makes a node register the stream
as a messaging stream of the peer that opened it.

A stream is a machine whose actions have everything that is not determined by the code: the node's
routing state at the time, the order of enumeration, what opening and writing return, and the
pieces in which the other end receives the stream. As long as the reads are full, the link of a
visitor is the same everywhere and never the messaging link (`link_survives_relay`), and the machine
of `SingleHop` is this one with the links left out (`project_run`). -/

namespace Tunnel.Server

open Tunnel.Lib Tunnel.Multiplexer Tunnel.State Tunnel.Mux

variable {F : Type} {lib : FilterLib F}

/-- Where a stream has arrived, with the link it came with: at a node that is about to forward it;
    at the client at the other end of a session of the node; at a node that takes it for a messaging
    stream. Or it was given up: by a node that could not forward it, or by the other end of a
    session, which could not read the handshake. -/
inductive Relayed
  | held (node : UInt64) (link : Link)
  | client (node : UInt64) (p : Session) (link : Link)
  | messaging (node : UInt64) (link : Link)
  | refused (node : UInt64) (err : String)
  | dropped (p : Session)
deriving DecidableEq

/-- `Direct`, which `Bidirectional` calls too, once the session is found: the bytes that get into
    the new stream, and the result. -/
def direct (openErr : Option String) (link : Link) (w : Written) :
    List UInt8 × Except String Unit :=
  match openErr with
  | some e => ([], .error ("opening new stream: " ++ e))
  | none => directHandshake link w

/-- What is open about one hop. -/
structure Hop (lib : FilterLib F) where
  router : Router lib
  order : List (PeerGraph.Entry F)
  openErr : Option String
  written : Written
  stream : Source UInt8

namespace Relayed

/-- The link that arrived on `Handle()`. -/
def link : Relayed → Option Link
  | .held _ l | .client _ _ l | .messaging _ l => some l
  | .refused _ _ | .dropped _ => none

/-- What the other end of the path makes of its stream: a client takes it as it is, and a node looks
    at the link in `handlePeerEvents`. -/
def arrive (node : UInt64) (path : Path) : Except HandshakeError LinkConnection → Relayed
  | .error _ => .dropped path.session
  | .ok c => match path with
    | .client p => .client node p c.link
    | .peer p => if c.link = messagingLink then .messaging p.peer c.link else .held p.peer c.link

variable [DecidableEq F]

/-- The node that holds the stream forwards it. The other end receives what was written, and
    whatever follows it. -/
def step (s : Relayed) (a : Hop lib) : Option Relayed :=
  match s with
  | .held node link =>
      if a.router.id = node ∧ a.order.Perm a.router.peerGraph.entries then
        match a.router.forward a.order link with
        | .error e => some (.refused node e)
        | .ok path => match direct a.openErr link a.written with
          | (_, .error e) => some (.refused node e)
          | (sent, .ok _) =>
              if sent <+: a.stream.contents then
                (handshakes.lookup path.session.protocol).map
                  (fun handshake => arrive node path (handshake a.stream))
              else none
      else none
  | _ => none

/-- Streams with any link, from the gateway of any node. -/
def machine (lib : FilterLib F) : Machine Relayed (Hop lib) where
  Init s := ∃ node link, s = .held node link
  step := step

end Relayed

/-- The first `Read` returns a whole link. -/
def ReadInFull (conn : Source UInt8) : Prop := (conn.read linkSize).got.length = linkSize

/-- The first `Read` does not report the end of the stream, not even along with a link. -/
def EndsLater (conn : Source UInt8) : Prop := (conn.read linkSize).eof = false

/-! ## One hop -/

variable {link : Link} {conn : Source UInt8}

/-- A link that is read in full is the link that was sent, unless it is dropped because the end of
    the stream came along with it. -/
theorem streamHandshake_of_readInFull (hsent : link.marshalBinary <+: conn.contents)
    (hfull : ReadInFull conn) :
    (∃ rest, streamHandshake conn = .ok ⟨link, rest⟩) ∨
      (¬ EndsLater conn ∧ streamHandshake conn = .error .reading) := by
  have hb : (conn.read linkSize).got = link.marshalBinary := by
    have hprefix : (conn.read linkSize).got <+: conn.contents := by
      rw [(conn.read_spec linkSize).1]
      exact List.prefix_append _ _
    refine (List.prefix_of_prefix_length_le hprefix hsent ?_).eq_of_length ?_
    · rw [hfull, Link.length_marshalBinary]
    · rw [hfull, Link.length_marshalBinary]
  have hbuf : filled (List.replicate linkSize 0) link.marshalBinary = link.marshalBinary := by
    rw [filled, Link.length_marshalBinary, List.drop_replicate]
    simp
  by_cases heof : (conn.read linkSize).eof = true
  · refine Or.inr ⟨by simp [EndsLater, heof], ?_⟩
    simp [streamHandshake, readLink, Source.readOk, heof]
  · refine Or.inl ⟨(conn.read linkSize).rest, ?_⟩
    simp [streamHandshake, readLink, Source.readOk, heof, hb, hbuf,
      Link.unmarshalBinary_marshalBinary]

/-- What `Direct` wrote without an error is the link. -/
theorem direct_ok {openErr : Option String} {w : Written} {sent : List UInt8}
    (h : direct openErr link w = (sent, .ok ())) : sent = link.marshalBinary := by
  unfold direct at h
  split at h
  · cases h
  · exact directHandshake_ok h

/-- A session of any protocol reads the handshake in the same way. -/
theorem lookup_handshakes {p : Protocol}
    {handshake : Source UInt8 → Except HandshakeError LinkConnection}
    (h : handshakes.lookup p = some handshake) : handshake = streamHandshake := by
  simp only [handshakes, List.lookup_cons, List.lookup_nil] at h
  split at h
  · exact (Option.some.inj h).symm
  · split at h
    · exact (Option.some.inj h).symm
    · split at h
      · exact (Option.some.inj h).symm
      · cases h

namespace Relayed

/-- A node holds every stream whose link is not the messaging link. -/
theorem arrive_peer (hlink : link ≠ messagingLink) {node : UInt64} {p : Session}
    {rest : Source UInt8} : arrive node (.peer p) (.ok ⟨link, rest⟩) = .held p.peer link :=
  if_neg hlink

variable [DecidableEq F] {s s' : Relayed} {a : Hop lib}

/-- **One hop.** A node that holds a stream finds no path and refuses it, or fails to open a stream
    on the path, or the stream arrives at the other end of the path with the link it had, or it is
    dropped there because its end came along with the link. -/
theorem step_held {node : UInt64} (h : (Relayed.held node link).step a = some s')
    (hfull : ReadInFull a.stream) :
    (a.router.id = node ∧ a.order.Perm a.router.peerGraph.entries) ∧
      ((∃ e, a.router.forward a.order link = .error e ∧ s' = .refused node e) ∨
        ∃ path, a.router.forward a.order link = .ok path ∧
          ((∃ e, (direct a.openErr link a.written).2 = .error e ∧ s' = .refused node e) ∨
            (∃ rest, s' = arrive node path (.ok ⟨link, rest⟩)) ∨
            (¬ EndsLater a.stream ∧ s' = .dropped path.session))) := by
  simp only [step] at h
  split at h
  · next hnode =>
      refine ⟨hnode, ?_⟩
      split at h
      · next e he => exact Or.inl ⟨e, he, (Option.some.inj h).symm⟩
      · next path hpath =>
          refine Or.inr ⟨path, hpath, ?_⟩
          split at h
          · next e hdirect =>
              exact Or.inl ⟨e, congrArg Prod.snd hdirect, (Option.some.inj h).symm⟩
          · next sent _ hsent =>
              split at h
              · next hprefix =>
                  obtain ⟨handshake, hlookup, hs'⟩ := Option.map_eq_some_iff.1 h
                  rw [direct_ok hsent] at hprefix
                  refine Or.inr ?_
                  rcases streamHandshake_of_readInFull hprefix hfull with ⟨rest, hshake⟩ |
                    ⟨hend, hshake⟩
                  · rw [lookup_handshakes hlookup, hshake] at hs'
                    exact Or.inl ⟨rest, hs'.symm⟩
                  · rw [lookup_handshakes hlookup, hshake] at hs'
                    exact Or.inr ⟨hend, hs'.symm⟩
              · cases h
  · cases h

/-- A stream whose link is written and read in full arrives at the other end of its path. -/
theorem exists_step {path : Path} (hperm : a.order.Perm a.router.peerGraph.entries)
    (hpath : a.router.forward a.order link = .ok path)
    (hproto : path.session.protocol ∈ protocolRegistry)
    (hdirect : direct a.openErr link a.written = (link.marshalBinary, .ok ()))
    (hsent : link.marshalBinary <+: a.stream.contents) (hfull : ReadInFull a.stream)
    (hend : EndsLater a.stream) :
    ∃ rest, (Relayed.held a.router.id link).step a
      = some (arrive a.router.id path (.ok ⟨link, rest⟩)) := by
  obtain ⟨rest, hshake⟩ := (streamHandshake_of_readInFull hsent hfull).resolve_right
    (fun h => h.1 hend)
  have hlookup : handshakes.lookup path.session.protocol = some streamHandshake := by
    simp only [protocolRegistry, List.mem_cons, List.not_mem_nil, or_false] at hproto
    rcases hproto with h | h | h <;> rw [h] <;> rfl
  exact ⟨rest, by simp [step, hperm, hpath, hdirect, hsent, hlookup, hshake]⟩

/-- The stream has this link, if it has one, and is not taken for a messaging stream. -/
def Carries (link : Link) : Relayed → Prop
  | .held _ l | .client _ _ l => l = link
  | .refused _ _ | .dropped _ => True
  | .messaging _ _ => False

theorem Carries.link_eq (h : s.Carries link) {l : Link} (hl : s.link = some l) : l = link := by
  cases s with
  | held | client =>
      cases hl
      exact h
  | messaging => exact absurd h (by simp [Carries])
  | refused | dropped => cases hl

/-- **Step lemma.** A stream with a link that is not the messaging link keeps it. -/
theorem Carries.step (hlink : link ≠ messagingLink) (hs : s.Carries link)
    (hfull : ReadInFull a.stream) (h : s.step a = some s') : s'.Carries link := by
  cases s with
  | client | messaging | refused | dropped => exact absurd h (by simp [Relayed.step])
  | held node l =>
      obtain rfl : l = link := hs
      rcases (step_held h hfull).2 with
        ⟨e, _, rfl⟩ | ⟨path, _, ⟨e, _, rfl⟩ | ⟨rest, rfl⟩ | ⟨_, rfl⟩⟩
      · trivial
      · trivial
      · cases path with
        | client p => rfl
        | peer p =>
            rw [arrive_peer hlink]
            rfl
      · trivial

/-- A stream is dropped only if its end came along with its link. -/
theorem ne_dropped_step (hfull : ReadInFull a.stream) (hend : EndsLater a.stream)
    (h : s.step a = some s') (p : Session) : s' ≠ .dropped p := by
  cases s with
  | client | messaging | refused | dropped => exact absurd h (by simp [Relayed.step])
  | held node l =>
      rcases (step_held h hfull).2 with
        ⟨e, _, rfl⟩ | ⟨path, _, ⟨e, _, rfl⟩ | ⟨rest, rfl⟩ | ⟨hnot, _⟩⟩
      · simp
      · simp
      · cases path with
        | client q => simp [arrive]
        | peer q =>
            simp only [arrive]
            split <;> simp
      · exact absurd hend hnot

/-- **The link survives every hop and is never taken for control traffic.** Links and 18-byte
    strings correspond to each other. For every host name and both protocols of the gateway: a
    stream with the link that the gateway built, relayed over any nodes and any multiplexers with
    its handshakes read in full, has that link wherever it arrives, is never taken for a messaging
    stream, and never dropped for its handshake unless its end comes along with it. -/
theorem link_survives_relay (gateway : UInt64) (sni : List UInt8) {proto : String}
    (hproto : proto ∈ Gateway.tunnelProtos) {tr : List (Relayed × Hop lib)} {t : Relayed}
    (hrun : (machine lib).Run (.held gateway (Gateway.link gateway sni proto)) tr t)
    (hfull : Machine.Meets (fun _ a => ReadInFull a.stream) tr) :
    ((∀ l : Link, Link.unmarshalBinary l.marshalBinary = .ok l) ∧
      ∀ b : List UInt8, b.length = linkSize →
        ∃ l, Link.unmarshalBinary b = .ok l ∧ l.marshalBinary = b) ∧
    ∀ u ∈ Machine.visited tr t,
      (∀ l, u.link = some l → l = Gateway.link gateway sni proto ∧ l ≠ messagingLink) ∧
        (∀ node l, u ≠ .messaging node l) ∧
        (Machine.Meets (fun _ a => EndsLater a.stream) tr → ∀ p, u ≠ .dropped p) := by
  have hlink := Gateway.link_ne_messagingLink gateway sni hproto
  constructor
  · refine ⟨Link.unmarshalBinary_marshalBinary, fun b hb => ?_⟩
    obtain ⟨l, hl⟩ := unmarshalBinary_of_length hb
    exact ⟨l, hl, Link.marshalBinary_unmarshalBinary b l hl⟩
  · have hstart : (Relayed.held gateway (Gateway.link gateway sni proto)).Carries
        (Gateway.link gateway sni proto) := rfl
    intro u hu
    have hcarries := hrun.invariant_visited hfull hstart
      (fun s a s' hs hread h => hs.step hlink hread h) u hu
    refine ⟨fun l hl => ?_, ?_, ?_⟩
    · have hl := hcarries.link_eq hl
      exact ⟨hl, hl ▸ hlink⟩
    · rintro node l rfl
      exact hcarries
    · intro hend
      have hboth : Machine.Meets (fun _ a => ReadInFull a.stream ∧ EndsLater a.stream) tr :=
        fun q hq => ⟨hfull q hq, hend q hq⟩
      exact hrun.invariant_visited (I := fun u => ∀ p, u ≠ .dropped p) hboth (by simp)
        (fun s a s' _ hread h => ne_dropped_step hread.1 hread.2 h) u hu

/-! ## The machine of `SingleHop` -/

/-- Where the stream is, without its link. -/
def project : Relayed → Stream
  | .held node _ => .held node
  | .client node p _ => .delivered node p
  | .messaging node _ => .messaging node
  | .refused node e => .refused node e
  | .dropped p => .refused p.peer ""

/-- A hop in a network whose nodes do not change, with nothing going wrong on the wire. -/
structure Clean (net : Network lib) (a : Hop lib) : Prop where
  router : net.node a.router.id = some a.router
  opened : a.openErr = none
  written : a.written = ⟨linkSize, none⟩
  full : ReadInFull a.stream
  endsLater : EndsLater a.stream

theorem project_step {net : Network lib} (hs : s.Carries link) (hclean : Clean net a)
    (h : s.step a = some s') : net.step link s.project a.order = some s'.project := by
  cases s with
  | client | messaging | refused | dropped => exact absurd h (by simp [step])
  | held node l =>
      obtain rfl : l = link := hs
      have hdirect : (direct a.openErr l a.written).2 = .ok () := by
        simp [direct, hclean.opened, hclean.written, directHandshake]
      obtain ⟨⟨rfl, hperm⟩, hcases⟩ := step_held h hclean.full
      rcases hcases with
        ⟨e, hforward, rfl⟩ | ⟨path, hforward, ⟨e, herr, _⟩ | ⟨rest, rfl⟩ | ⟨hnot, _⟩⟩
      · simp [project, Network.step, hclean.router, hperm, hforward]
      · rw [hdirect] at herr
        cases herr
      · cases path with
        | client p => simp [project, arrive, Network.step, hclean.router, hperm, hforward]
        | peer p =>
            by_cases hmsg : l = messagingLink
            · simp [project, arrive, hmsg, Network.step, hclean.router, hperm, hmsg ▸ hforward,
                Stream.arrive]
            · simp [project, arrive, hmsg, Network.step, hclean.router, hperm, hforward,
                Stream.arrive]
      · exact absurd hclean.endsLater hnot

/-- **Without their links, streams are those of `SingleHop`.** -/
theorem project_run {net : Network lib} (hlink : link ≠ messagingLink) {gateway : UInt64}
    {tr : List (Relayed × Hop lib)} {t : Relayed}
    (hrun : (machine lib).Run (.held gateway link) tr t)
    (hclean : Machine.Meets (fun _ a => Clean net a) tr) :
    (net.machine link).Run (.held gateway) (tr.map (fun p => (p.1.project, p.2.order)))
      t.project := by
  have hcarries : ∀ u ∈ Machine.visited tr t, u.Carries link :=
    hrun.invariant_visited hclean (show (Relayed.held gateway link).Carries link from rfl)
      (fun s a s' hs hc h => hs.step hlink hc.full h)
  induction hrun with
  | nil => exact .nil
  | @snoc tr t u a _ hstep ih =>
      rw [Machine.meets_append, Machine.meets_singleton] at hclean
      have hprev : ∀ v ∈ Machine.visited tr t, v.Carries link := by
        intro v hv
        refine hcarries v ?_
        simp only [Machine.visited, List.map_append, List.map_cons, List.map_nil, List.mem_append,
          List.mem_singleton] at hv ⊢
        exact Or.inl hv
      have ht : t.Carries link := hprev t (by simp [Machine.visited])
      rw [List.map_append]
      exact (ih hclean.1 hprev).snoc (project_step ht hclean.2 hstep)

/-! ## A visitor of a client of node 2, at the gateway of node 1 -/

/-- A hop at which the link arrives with the first bytes of the visitor in one piece. -/
def wholeHop (router : Router byteFilter) (link : Link) : Hop byteFilter where
  router := router
  order := router.peerGraph.entries
  openErr := none
  written := ⟨18, none⟩
  stream := ⟨[link.marshalBinary ++ [104, 105]], by simp, .late⟩

theorem exists_hop {router : Router byteFilter} {path : Path}
    (hpath : router.forward router.peerGraph.entries link = .ok path)
    (hproto : path.session.protocol ∈ protocolRegistry) :
    ∃ a : Hop byteFilter, ReadInFull a.stream ∧ EndsLater a.stream ∧ ∃ rest,
      (Relayed.held router.id link).step a = some (arrive router.id path (.ok ⟨link, rest⟩)) := by
  have hfull : ReadInFull (wholeHop router link).stream := by
    show ((link.marshalBinary ++ [104, 105]).take linkSize).length = linkSize
    rw [List.length_take, List.length_append, Link.length_marshalBinary]
    decide
  have hend : EndsLater (wholeHop router link).stream := rfl
  refine ⟨wholeHop router link, hfull, hend, ?_⟩
  refine exists_step (a := wholeHop router link) (List.Perm.refl _) hpath hproto ?_ ?_ hfull hend
  · have hall : link.marshalBinary.take 18 = link.marshalBinary :=
      List.take_of_length_le (Link.length_marshalBinary link).le
    simp [wholeHop, direct, directHandshake, hall, linkSize]
  · simp [wholeHop, Source.contents]

/-- Node 1 relays the stream to node 2, over Yamux, and node 2 hands it to the client. -/
theorem link_survives_relay_hosted :
    "raw" ∈ Gateway.tunnelProtos ∧ ∃ tr t,
      (machine byteFilter).Run (.held 1 (Gateway.link 1 Network.exampleSni "raw")) tr t ∧
        Machine.Meets (fun _ a => ReadInFull a.stream) tr ∧ tr.length = 2 ∧
        t = .client 2 (sessionWith (Gateway.clientID Network.exampleSni))
          (Gateway.link 1 Network.exampleSni "raw") ∧
        ∀ u ∈ Machine.visited tr t, ∀ l, u.link = some l → l ≠ messagingLink := by
  have hraw : "raw" ∈ Gateway.tunnelProtos := by decide
  have hlink := Gateway.link_ne_messagingLink 1 Network.exampleSni hraw
  generalize hl : Gateway.link 1 Network.exampleSni "raw" = link at hlink ⊢
  have hfirst : Network.hosted.nodes[0].forward Network.hosted.nodes[0].peerGraph.entries link
      = .ok (.peer (sessionWith 2)) := by rw [← hl]; rfl
  have hsecond : Network.hosted.nodes[1].forward Network.hosted.nodes[1].peerGraph.entries link
      = .ok (.client (sessionWith (Gateway.clientID Network.exampleSni))) := by rw [← hl]; rfl
  obtain ⟨a₁, hfull₁, _, _, h₁⟩ := exists_hop hfirst (by decide)
  obtain ⟨a₂, hfull₂, _, _, h₂⟩ := exists_hop hsecond (by decide)
  rw [arrive_peer hlink] at h₁
  have hrun : (machine byteFilter).Run (.held 1 link) [(.held 1 link, a₁), (.held 2 link, a₂)]
      (.client 2 (sessionWith (Gateway.clientID Network.exampleSni)) link) :=
    Machine.Run.snoc (Machine.Run.snoc .nil h₁) h₂
  have hfull : Machine.Meets (fun _ a => ReadInFull a.stream)
      [(Relayed.held 1 link, a₁), (.held 2 link, a₂)] := by
    intro p hp
    simp only [List.mem_cons, List.not_mem_nil, or_false] at hp
    rcases hp with rfl | rfl
    · exact hfull₁
    · exact hfull₂
  refine ⟨hraw, _, _, hrun, hfull, rfl, rfl, fun u hu l hul => ?_⟩
  subst hl
  exact (((link_survives_relay 1 Network.exampleSni hraw hrun hfull).2 u hu).1 l hul).2

end Relayed

end Tunnel.Server
