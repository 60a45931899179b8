import Tunnel.Acme.CertManager
import Tunnel.Gateway.Link
import Tunnel.Lib.Json
import Tunnel.Mux.Handshake
import Tunnel.Server.Handshake

set_option autoImplicit false

/-! # A client gets its name (`client/tunnel.go`, `server/clients.go`)

A client opens a connection and proposes a multiplexer protocol with a link whose IDs are zero. The
server makes up a name and answers with two messages: the link, now with the hash of the name and
its own ID, and the host name as JSON. Behind them both sides start the multiplexer on the same
connection.

Nothing in this exchange says where the JSON ends. The client reads it with a decoder that takes
whatever has arrived, up to the room in its buffer, and drops the decoder with what is left in it;
and the decoder stops at the closing bracket, while the server writes a newline behind it. So the
client's multiplexer starts on a clean stream only if a `Read` of the decoder ends right behind the
newline, and none right before it (`client_agrees_iff`). Otherwise it begins with a newline, or
misses the first frames of the server (`client_loses_frames`). The IDs and the protocol are agreed
upon in any case, as long as the link arrives in one piece. -/

namespace Tunnel.Server

open Tunnel.Acme (ascii)
open Tunnel.Gateway (peerHash)
open Tunnel.Lib Tunnel.Multiplexer Tunnel.Mux Tunnel.State

/-- Why `clientNegotiation` refuses a client before it calls `NewPeer`. -/
inductive ClientNegotiationError
  | reading
  | unmarshal (text : String)
  | invalidALPN
  | unacceptableProtocol (p : Protocol)
  | negotiating (text : String)
  | invalidHandshake (link : Link)
  | replying (text : String)
  | invalidLength (n : ℕ)
  | writingHostname (text : String)

/-- The texts of the errors; all that `Read` reports here is the end of the stream. -/
def ClientNegotiationError.text : ClientNegotiationError → String
  | .reading => "reading handshake: EOF"
  | .unmarshal text => "unmarshal link: " ++ text
  | .invalidALPN => "invalid ALPN received from client"
  | .unacceptableProtocol p => "unacceptable protocol: " ++ toString p.byte.toNat
  | .negotiating text => "negotiating protocol with client: " ++ text
  | .invalidHandshake link => "invalid client handshake " ++ link.text
  | .replying text => "replying handshake: " ++ text
  | .invalidLength n => "invalid handshake length sent to client: " ++ toString n
  | .writingHostname text => "writing generated hostname to client: " ++ text

/-- The host name of a client (clients.go:128). -/
def hostname (name domain : List UInt8) : List UInt8 := ascii "https://" ++ name ++ 46 :: domain

/-- The JSON text of a `shared.GeneratedName`. -/
def generatedName (hostname : List UInt8) : List UInt8 := Json.object (ascii "Hostname") hostname

/-- `clientNegotiation` up to its call of `NewPeer`, with the name that `RandomHostname` makes up
    and what the two calls of `Write` return: the bytes that the client is sent, and the call with
    the connection that the new session gets. A `Write` without an error has written everything. -/
def Identity.clientNegotiation (s : Identity) (domain name : List UInt8)
    (acceptable : List Protocol) (conn : Source UInt8) (wLink wName : Written) :
    List UInt8 × Except ClientNegotiationError (NewPeerCall × Source UInt8) :=
  match readLink conn with
  | none => ([], .error .reading)
  | some (r, rest) => match Link.unmarshalBinary r with
    | .error e => ([], .error (.unmarshal e))
    | .ok link =>
        if link.alpn ≠ .multiplexer then ([], .error .invalidALPN)
        else if link.protocol ∉ acceptable then
          ([], .error (.unacceptableProtocol link.protocol))
        else match new link.protocol with
          | .error e => ([], .error (.negotiating e))
          | .ok _ =>
              if link.source ≠ 0 ∨ link.destination ≠ 0 then ([], .error (.invalidHandshake link))
              else
                let reply : Link := { link with source := peerHash name, destination := s.id }
                let w := reply.marshalBinary
                match wLink.err with
                | some e => (w.take wLink.n, .error (.replying e))
                | none =>
                    if wLink.n ≠ linkSize then (w.take wLink.n, .error (.invalidLength wLink.n))
                    else
                      let json := Json.encode (ascii "Hostname") (hostname name domain)
                      match wName.err with
                      | some e => (w ++ json.take wName.n, .error (.writingHostname e))
                      | none =>
                          (w ++ json, .ok (⟨link.protocol, ⟨reply.source, false⟩, .load⟩, rest))

end Tunnel.Server

namespace Tunnel.Client

open Tunnel.Acme (ascii)
open Tunnel.Gateway (peerHash)
open Tunnel.Lib Tunnel.Multiplexer Tunnel.Mux Tunnel.Server Tunnel.State

/-- `shared.GeneratedName` -/
structure GeneratedName where
  hostname : List UInt8

/-- Where `logger.Fatal` ends the client. -/
inductive Fatal
  | selectingDialer (text : String)
  | writing (text : String)
  | invalidLength (n : ℕ)
  | reading
  | unmarshal (text : String)
  | generatedName

/-- The texts that are logged. -/
def Fatal.text : Fatal → String
  | .selectingDialer _ => "selecting peer dialer"
  | .writing _ => "writing handshake to peer"
  | .invalidLength _ => "invalid handshake length sent"
  | .reading => "reading handshake from peer"
  | .unmarshal _ => "unmarshal link"
  | .generatedName => "unmarshaling generated name response"

/-- The link with which a client proposes a protocol. -/
def proposal (proto : Protocol) : Link := ⟨0, 0, proto, .multiplexer⟩

/-- `peerNegotiation`: the bytes that are sent, and the link and the name that the client gets, with
    what is left of the connection. The answer is read into the buffer of the proposal. -/
def peerNegotiation (unmarshal : List UInt8 → Except String GeneratedName) (proto : Protocol)
    (w : Written) (conn : Source UInt8) :
    List UInt8 × Except Fatal (Link × GeneratedName × Source UInt8) :=
  let buf := (proposal proto).marshalBinary
  (buf.take w.n,
    match w.err with
    | some e => .error (.writing e)
    | none =>
        if w.n ≠ linkSize then .error (.invalidLength w.n)
        else match conn.readOk buf.length with
          | none => .error .reading
          | some (b, rest) => match Link.unmarshalBinary (filled buf b) with
            | .error e => .error (.unmarshal e)
            | .ok link => match Json.decode unmarshal rest with
              | .error _ => .error .generatedName
              | .ok (g, rest) => .ok (link, g, rest))

/-- A client that is about to start its multiplexer: the link, the name, its call of `NewPeer`, and
    the connection that the multiplexer reads. -/
structure Connected where
  link : Link
  generated : GeneratedName
  newPeer : NewPeerCall
  conn : Source UInt8

/-- `Tunnel` from the choice of a dialer to its call of `NewPeer` (tunnel.go:80-107), for the
    protocols over TLS, where the connection is also the connector. -/
def tunnel (unmarshal : List UInt8 → Except String GeneratedName) (proto : Protocol) (w : Written)
    (conn : Source UInt8) : Except Fatal Connected :=
  match dialer proto with
  | .error e => .error (.selectingDialer e)
  | .ok _ => match (peerNegotiation unmarshal proto w conn).2 with
    | .error e => .error e
    | .ok (link, g, rest) => .ok ⟨link, g, ⟨link.protocol, ⟨link.destination, true⟩, .load⟩, rest⟩

variable {s : Identity} {domain name later frames sent : List UInt8} {proto : Protocol}
  {conn connS rest restS : Source UInt8} {wLink wName : Written} {call : NewPeerCall}
  {unmarshal : List UInt8 → Except String GeneratedName}

/-- The link that the server answers with. -/
def answer (s : Identity) (name : List UInt8) (proto : Protocol) : Link :=
  ⟨peerHash name, s.id, proto, .multiplexer⟩

/-- **What the server does with a proposal.** -/
theorem clientNegotiation_ok {acceptable : List Protocol}
    (hclient : connS.contents = (proposal proto).marshalBinary ++ later)
    (hserver : s.clientNegotiation domain name acceptable connS wLink wName
      = (sent, .ok (call, restS))) :
    sent = (answer s name proto).marshalBinary ++ (generatedName (hostname name domain) ++ [0x0a]) ∧
      call = ⟨proto, ⟨peerHash name, false⟩, .load⟩ := by
  unfold Identity.clientNegotiation at hserver
  split at hserver
  · cases hserver
  · next r rest hread =>
      split at hserver
      · cases hserver
      · next link hlink =>
          split at hserver
          · cases hserver
          · next halpn =>
              split at hserver
              · cases hserver
              · split at hserver
                · cases hserver
                · split at hserver
                  · cases hserver
                  · have hcontents := contents_of_alpn hread hlink
                      (by rw [not_not.1 halpn]; decide)
                    have hr : r = (proposal proto).marshalBinary := by
                      rw [hclient] at hcontents
                      refine (List.append_inj hcontents ?_).1.symm
                      rw [length_of_readLink hread, Link.length_marshalBinary]
                    rw [hr, Link.unmarshalBinary_marshalBinary, Except.ok.injEq] at hlink
                    subst hlink
                    simp only at hserver
                    split at hserver
                    · cases hserver
                    · split at hserver
                      · cases hserver
                      · split at hserver
                        · cases hserver
                        · cases hserver
                          exact ⟨rfl, rfl⟩

/-- **The server accepts every proposal** of a protocol over TLS that it reads at once. -/
theorem clientNegotiation_accepts (hproto : proto ∈ Protocol.tlsProtos)
    (hread : readLink connS = some ((proposal proto).marshalBinary, restS)) (n : ℕ) :
    s.clientNegotiation domain name Protocol.tlsProtos connS ⟨linkSize, none⟩ ⟨n, none⟩ =
      ((answer s name proto).marshalBinary ++ (generatedName (hostname name domain) ++ [0x0a]),
        .ok (⟨proto, ⟨peerHash name, false⟩, .load⟩, restS)) := by
  simp only [Identity.clientNegotiation, hread, Link.unmarshalBinary_marshalBinary]
  rcases List.mem_pair.1 hproto with rfl | rfl <;> rfl

/-! ## What the client makes of the answer -/

/-- No JSON value begins with a byte of a proposal. -/
theorem feed_proposal (hproto : proto ∈ Protocol.tlsProtos) :
    ∀ c ∈ (proposal proto).marshalBinary, Json.Scanner.init.feed c = .error := by
  rcases List.mem_pair.1 hproto with rfl | rfl <;> decide

theorem dialer_of_tls (hproto : proto ∈ Protocol.tlsProtos) : dialer proto = .ok .tls := by
  rcases List.mem_pair.1 hproto with rfl | rfl <;> decide

/-- A client that has sent its proposal depends on one `Read` and the decoder. -/
theorem tunnel_eq (hproto : proto ∈ Protocol.tlsProtos) :
    tunnel unmarshal proto ⟨linkSize, none⟩ conn = match conn.readOk linkSize with
      | none => .error .reading
      | some (b, rest) =>
          match Link.unmarshalBinary (filled (proposal proto).marshalBinary b) with
          | .error e => .error (.unmarshal e)
          | .ok link => match Json.decode unmarshal rest with
            | .error _ => .error .generatedName
            | .ok (g, rest) =>
                .ok ⟨link, g, ⟨link.protocol, ⟨link.destination, true⟩, .load⟩, rest⟩ := by
  simp only [tunnel, dialer_of_tls hproto, peerNegotiation, Link.length_marshalBinary, ne_eq,
    not_true_eq_false, if_false]
  cases conn.readOk linkSize with
  | none => rfl
  | some r =>
      obtain ⟨b, rest⟩ := r
      simp only
      cases Link.unmarshalBinary (filled (proposal proto).marshalBinary b) with
      | error e => rfl
      | ok link =>
          simp only
          cases Json.decode unmarshal rest with
          | error e => rfl
          | ok r => rfl

/-- **The decoder and the stream behind the link.** -/
theorem decode_generatedName {host : List UInt8}
    (hdecode : ∃ g, unmarshal (generatedName host) = .ok g)
    (hrest : rest.contents = generatedName host ++ 0x0a :: frames) :
    ∃ g rest' unread, Json.decode unmarshal rest = .ok (g, rest') ∧
      0x0a :: frames = unread ++ rest'.contents ∧
      ∀ n, unread.length = n ↔ Json.Buffer.empty.Overshoots rest (generatedName host).length n := by
  obtain ⟨g, hg⟩ := hdecode
  have hne : generatedName host ≠ [] := List.cons_ne_nil _ _
  obtain ⟨unread, rest', hread, hbehind, hover⟩ := Json.readValue_of_ends
    (b := Json.Buffer.empty) (Json.ends_object (ascii "Hostname") host) hne hrest
  refine ⟨g, rest', unread, ?_, hbehind, hover⟩
  have hvalue : Json.Buffer.empty.data ++ Json.object (ascii "Hostname") host
      = generatedName host := rfl
  simp only [Json.decode, hread, hvalue, hg]

/-- If the answer arrives in one piece, all depends on the decoder. -/
theorem tunnel_of_read (hproto : proto ∈ Protocol.tlsProtos)
    (hread : conn.readOk linkSize = some ((answer s name proto).marshalBinary, rest)) :
    tunnel unmarshal proto ⟨linkSize, none⟩ conn = match Json.decode unmarshal rest with
      | .error _ => .error .generatedName
      | .ok (g, rest) => .ok ⟨answer s name proto, g, ⟨proto, ⟨s.id, true⟩, .load⟩, rest⟩ := by
  have hfilled : filled (proposal proto).marshalBinary (answer s name proto).marshalBinary
      = (answer s name proto).marshalBinary := by
    rw [filled, Link.length_marshalBinary, List.drop_eq_nil_iff.2, List.append_nil]
    rw [Link.length_marshalBinary]
  rw [tunnel_eq hproto, hread]
  simp only [hfilled, Link.unmarshalBinary_marshalBinary]
  rfl

/-- If the answer is cut and the client takes the link for what it is nevertheless, it has missed
    bytes that are the same in its proposal; and no JSON begins with those. -/
theorem read_of_tunnel (hproto : proto ∈ Protocol.tlsProtos) {c : Connected}
    (hconn : conn.contents = (answer s name proto).marshalBinary ++ later)
    (htunnel : tunnel unmarshal proto ⟨linkSize, none⟩ conn = .ok c)
    (hlink : c.link = answer s name proto) :
    ∃ rest, conn.readOk linkSize = some ((answer s name proto).marshalBinary, rest) := by
  rw [tunnel_eq hproto] at htunnel
  split at htunnel
  · cases htunnel
  · next b rest hread =>
      split at htunnel
      · cases htunnel
      · next link hbuf =>
          split at htunnel
          · cases htunnel
          · next g rest' hdecode =>
              cases htunnel
              have hfilled : b ++ (proposal proto).marshalBinary.drop b.length
                  = (answer s name proto).marshalBinary := by
                rw [← hlink]
                exact (Link.marshalBinary_unmarshalBinary _ _ hbuf).symm
              have hrest : rest.contents
                  = (proposal proto).marshalBinary.drop b.length ++ later := by
                have hcontents := (Source.readOk_spec hread).1
                rw [hconn, ← hfilled, List.append_assoc] at hcontents
                exact (List.append_cancel_left hcontents).symm
              cases hdrop : (proposal proto).marshalBinary.drop b.length with
              | nil =>
                  rw [hdrop, List.append_nil] at hfilled
                  exact ⟨rest, hfilled ▸ hread⟩
              | cons d more =>
                  have hmem : d ∈ (proposal proto).marshalBinary :=
                    List.mem_of_mem_drop (hdrop ▸ List.mem_cons_self)
                  rw [hdrop, List.cons_append] at hrest
                  have hfeed := feed_proposal hproto d hmem
                  simp only [Json.decode, Json.readValue_of_head hrest hfeed] at hdecode
                  cases hdecode

/-! ## The whole exchange -/

/-- The client has the link that the server has answered with, proposes the same session as the
    server, and its multiplexer reads the frames of the server's. -/
def Agrees (s : Identity) (call : NewPeerCall) (frames : List UInt8) (c : Connected) : Prop :=
  c.link = ⟨call.conf.peer, s.id, call.protocol, .multiplexer⟩ ∧
    c.newPeer = ⟨call.protocol, ⟨s.id, true⟩, .load⟩ ∧ c.conn.contents = frames

/-- If the link is read at once, the client has it, and what its multiplexer reads is what the
    decoder has left. -/
theorem tunnel_of_answer (hproto : proto ∈ Protocol.tlsProtos) {host : List UInt8}
    (hdecode : ∃ g, unmarshal (generatedName host) = .ok g)
    (hread : conn.readOk linkSize = some ((answer s name proto).marshalBinary, rest))
    (hrest : rest.contents = generatedName host ++ 0x0a :: frames) :
    ∃ c unread, tunnel unmarshal proto ⟨linkSize, none⟩ conn = .ok c ∧
      Agrees s ⟨proto, ⟨peerHash name, false⟩, .load⟩ c.conn.contents c ∧
      0x0a :: frames = unread ++ c.conn.contents ∧
      ∀ n, unread.length = n ↔ Json.Buffer.empty.Overshoots rest (generatedName host).length n := by
  obtain ⟨g, rest', unread, hg, hbehind, hover⟩ := decode_generatedName hdecode hrest
  refine ⟨⟨answer s name proto, g, ⟨proto, ⟨s.id, true⟩, .load⟩, rest'⟩, unread, ?_,
    ⟨rfl, rfl, rfl⟩, hbehind, hover⟩
  rw [tunnel_of_read hproto hread, hg]

theorem intact_iff_read (hconn : conn.contents = (answer s name proto).marshalBinary ++ later)
    (hlater : later ≠ []) :
    conn.Intact [(answer s name proto).marshalBinary] ↔
      ∃ rest, conn.readOk linkSize = some ((answer s name proto).marshalBinary, rest) := by
  rw [← Link.length_marshalBinary (answer s name proto),
    ← Source.intact_singleton (marshalBinary_ne_nil _) hconn]
  exact (and_iff_left (fun hnil => absurd hnil hlater)).symm

theorem agrees_iff_overshoots (hproto : proto ∈ Protocol.tlsProtos) {host : List UInt8}
    (hdecode : ∃ g, unmarshal (generatedName host) = .ok g)
    (hconn : conn.contents
      = (answer s name proto).marshalBinary ++ (generatedName host ++ 0x0a :: frames)) :
    (∃ c, tunnel unmarshal proto ⟨linkSize, none⟩ conn = .ok c ∧
        Agrees s ⟨proto, ⟨peerHash name, false⟩, .load⟩ frames c) ↔
      ∃ rest, conn.readOk linkSize = some ((answer s name proto).marshalBinary, rest) ∧
        Json.Buffer.empty.Overshoots rest (generatedName host).length 1 := by
  constructor
  · rintro ⟨c, htunnel, hlink, _, hframes⟩
    obtain ⟨rest, hread⟩ := read_of_tunnel hproto hconn htunnel hlink
    obtain ⟨c', unread, htunnel', _, hbehind, hover⟩ :=
      tunnel_of_answer hproto hdecode hread (Source.contents_of_readOk hconn hread)
    rw [htunnel, Except.ok.injEq] at htunnel'
    have hlen := congrArg List.length hbehind
    rw [List.length_append, ← htunnel', hframes, List.length_cons] at hlen
    exact ⟨rest, hread, (hover 1).1 (by omega)⟩
  · rintro ⟨rest, hread, hone⟩
    obtain ⟨c, unread, htunnel, ⟨hlink, hnew, _⟩, hbehind, hover⟩ :=
      tunnel_of_answer hproto hdecode hread (Source.contents_of_readOk hconn hread)
    have hlen : [(0x0a : UInt8)].length = unread.length := ((hover 1).2 hone).symm
    exact ⟨c, htunnel, hlink, hnew, (List.append_inj hbehind hlen).2.symm⟩

/-- What the decoder has read too much is missing. -/
theorem tunnel_of_overshoots (hproto : proto ∈ Protocol.tlsProtos) {host : List UInt8}
    (hdecode : ∃ g, unmarshal (generatedName host) = .ok g)
    (hread : conn.readOk linkSize = some ((answer s name proto).marshalBinary, rest))
    (hrest : rest.contents = generatedName host ++ 0x0a :: frames) {n : ℕ}
    (hover : Json.Buffer.empty.Overshoots rest (generatedName host).length n) :
    ∃ c, tunnel unmarshal proto ⟨linkSize, none⟩ conn = .ok c ∧
      c.conn.contents = (0x0a :: frames).drop n := by
  obtain ⟨c, unread, htunnel, _, hbehind, hlen⟩ := tunnel_of_answer hproto hdecode hread hrest
  refine ⟨c, htunnel, ?_⟩
  rw [hbehind, ← (hlen n).2 hover, List.drop_left]

/-- What is read of a short text is read where the pieces of the stream end. -/
theorem overshoots_iff_cut_behind {m n : ℕ} (hm : 0 < m) (hlt : m + n < Json.minRead)
    (hread : conn.readOk linkSize = some ((answer s name proto).marshalBinary, rest)) :
    Json.Buffer.empty.Overshoots rest m n ↔
      conn.Cut (linkSize + (m + n)) ∧ ∀ i < n, ¬ conn.Cut (linkSize + (m + i)) := by
  have hcut : ∀ i, rest.Cut (m + i) ↔ conn.Cut (linkSize + (m + i)) := fun i =>
    Source.cut_of_readOk hread (Link.length_marshalBinary _) (by omega)
  have hlt' : Json.Buffer.empty.data.length + m + n < Json.minRead := by
    rwa [show Json.Buffer.empty.data.length = 0 from rfl, Nat.zero_add]
  simp only [Json.Buffer.overshoots_iff_cut hm hlt', hcut]

/-- **When client and server agree.** A client proposes Yamux or Mplex over TLS, the server accepts
    and sends its answer, and then the frames of its multiplexer. However the bytes of the server
    are cut, the client agrees with the server exactly if it reads the link with its first `Read`
    and the decoder stops right behind the newline. If the text has less than 511 bytes, this says
    that a piece ends behind the newline and none inside the link or before the newline. As long as
    the link is not cut, the client has the right link and misses or sees too much of the frames
    only. -/
theorem client_agrees_iff (hproto : proto ∈ Protocol.tlsProtos)
    (hclient : connS.contents = (proposal proto).marshalBinary ++ later)
    (hserver : s.clientNegotiation domain name Protocol.tlsProtos connS wLink wName
      = (sent, .ok (call, restS)))
    (hconn : conn.contents = sent ++ frames)
    (hdecode : ∃ g, unmarshal (generatedName (hostname name domain)) = .ok g) :
    call = ⟨proto, ⟨peerHash name, false⟩, .load⟩ ∧
    ((∃ c, tunnel unmarshal proto ⟨linkSize, none⟩ conn = .ok c ∧ Agrees s call frames c) ↔
      ∃ rest, conn.readOk linkSize = some (sent.take linkSize, rest) ∧
        Json.Buffer.empty.Overshoots rest (generatedName (hostname name domain)).length 1) ∧
    (sent.length < linkSize + Json.minRead →
      ((∃ c, tunnel unmarshal proto ⟨linkSize, none⟩ conn = .ok c ∧ Agrees s call frames c) ↔
        conn.Intact [sent.take linkSize] ∧ conn.Cut sent.length ∧ ¬ conn.Cut (sent.length - 1))) ∧
    (conn.Intact [sent.take linkSize] →
      ∃ c, tunnel unmarshal proto ⟨linkSize, none⟩ conn = .ok c ∧
        Agrees s call c.conn.contents c ∧ c.conn.contents <:+ 0x0a :: frames) := by
  obtain ⟨rfl, rfl⟩ := clientNegotiation_ok hclient hserver
  have htake : ((answer s name proto).marshalBinary
      ++ (generatedName (hostname name domain) ++ [0x0a])).take linkSize
      = (answer s name proto).marshalBinary := by
    rw [← Link.length_marshalBinary (answer s name proto), List.take_left]
  have hlen : ((answer s name proto).marshalBinary
      ++ (generatedName (hostname name domain) ++ [0x0a])).length
      = linkSize + (generatedName (hostname name domain)).length + 1 := by
    simp only [List.length_append, Link.length_marshalBinary, List.length_singleton, Nat.add_assoc]
  rw [List.append_assoc, List.append_assoc, List.singleton_append] at hconn
  have hpos : 0 < (generatedName (hostname name domain)).length := Nat.succ_pos _
  rw [htake, hlen, agrees_iff_overshoots hproto hdecode hconn, intact_iff_read hconn (by simp)]
  refine ⟨rfl, Iff.rfl, fun hshort => ?_, fun hwhole => ?_⟩
  · have hcut : ∀ {rest}, conn.readOk linkSize = some ((answer s name proto).marshalBinary, rest) →
        (Json.Buffer.empty.Overshoots rest (generatedName (hostname name domain)).length 1 ↔ _) :=
      overshoots_iff_cut_behind hpos (by omega)
    simp only [Nat.lt_one_iff, forall_eq, Nat.add_zero] at hcut
    constructor
    · rintro ⟨rest, hread, hone⟩
      exact ⟨⟨rest, hread⟩, (hcut hread).1 hone⟩
    · rintro ⟨⟨rest, hread⟩, hends⟩
      exact ⟨rest, hread, (hcut hread).2 hends⟩
  · obtain ⟨rest, hread⟩ := hwhole
    obtain ⟨c, unread, htunnel, hagrees, hbehind, _⟩ :=
      tunnel_of_answer hproto hdecode hread (Source.contents_of_readOk hconn hread)
    exact ⟨c, htunnel, hagrees, unread, hbehind.symm⟩

/-! ## A client of node 5 -/

/-- The proposal of a client, as node 5 reads it. -/
def proposed : Source UInt8 := ⟨[(proposal .yamux).marshalBinary], by decide, .late⟩

/-- The link that the client gets. -/
def exampleAnswer : List UInt8 := (answer Identity.exampleSelf (ascii "a-b") .yamux).marshalBinary

/-- The text of the name that the client gets. -/
def exampleText : List UInt8 := generatedName (hostname (ascii "a-b") (ascii "t.e"))

/-- A ping of the server's Yamux. -/
def ping : List UInt8 := [0, 2, 0, 1, 0, 0, 0, 0, 0, 0, 0, 1]

theorem negotiation_example :
    Identity.exampleSelf.clientNegotiation (ascii "t.e") (ascii "a-b") Protocol.tlsProtos proposed
        ⟨linkSize, none⟩ ⟨31, none⟩ =
      (exampleAnswer ++ (exampleText ++ [0x0a]),
        .ok (⟨.yamux, ⟨peerHash (ascii "a-b"), false⟩, .load⟩, ⟨[], by simp, .late⟩)) :=
  clientNegotiation_accepts (by decide) (by rfl) 31

/-- The value of a name, taken as it stands. -/
def rawName (b : List UInt8) : Except String GeneratedName := .ok ⟨b⟩

/-- The link, the name with its newline and a ping arrive in a piece each. -/
theorem client_agrees_iff_records :
    ∃ conn : Source UInt8, conn.contents = exampleAnswer ++ (exampleText ++ [0x0a]) ++ ping ∧
      ∃ c, tunnel rawName .yamux ⟨linkSize, none⟩ conn = .ok c ∧
        Agrees Identity.exampleSelf ⟨.yamux, ⟨peerHash (ascii "a-b"), false⟩, .load⟩ ping c := by
  let conn : Source UInt8 := ⟨[exampleAnswer, exampleText ++ [0x0a], ping], by decide, .late⟩
  have hconn : conn.contents = exampleAnswer ++ (exampleText ++ [0x0a]) ++ ping := by decide
  have hclient : proposed.contents = (proposal .yamux).marshalBinary ++ [] := by decide
  have hdecode : ∃ g, rawName exampleText = .ok g := ⟨_, rfl⟩
  have hiff := (client_agrees_iff (by decide) hclient negotiation_example hconn hdecode).2.2.1
    (by decide)
  have hintact : conn.Intact [exampleAnswer] :=
    (intact_iff_read hconn (by decide)).2 ⟨_, Source.readOk_piece⟩
  exact ⟨conn, hconn, hiff.2 ⟨hintact, by decide, by decide⟩⟩

/-- The same bytes in other pieces. If the ping arrives together with the name, the client never
    sees it; and if the newline does not, the client's multiplexer begins with it. -/
theorem client_loses_frames :
    (Identity.exampleSelf.clientNegotiation (ascii "t.e") (ascii "a-b") Protocol.tlsProtos proposed
      ⟨linkSize, none⟩ ⟨31, none⟩).1 = exampleAnswer ++ (exampleText ++ [0x0a]) ∧
    ∃ together apart : Source UInt8,
      together.contents = exampleAnswer ++ (exampleText ++ [0x0a]) ++ ping ∧
      together.Intact [exampleAnswer] ∧
      (∃ c, tunnel rawName .yamux ⟨linkSize, none⟩ together = .ok c ∧ c.conn.contents = []) ∧
      apart.contents = exampleAnswer ++ (exampleText ++ [0x0a]) ++ ping ∧
      apart.Intact [exampleAnswer] ∧
      ∃ c, tunnel rawName .yamux ⟨linkSize, none⟩ apart = .ok c ∧
        c.conn.contents = 0x0a :: ping := by
  have hyamux : Protocol.yamux ∈ Protocol.tlsProtos := by decide
  have hdecode : ∃ g, rawName exampleText = .ok g := ⟨_, rfl⟩
  let together : Source UInt8 :=
    ⟨[exampleAnswer, exampleText ++ 0x0a :: ping], by decide, .late⟩
  let apart : Source UInt8 := ⟨[exampleAnswer, exampleText, 0x0a :: ping], by decide, .late⟩
  have hread : ∃ rest : Source UInt8, together.readOk linkSize = some (exampleAnswer, rest) ∧
      rest = ⟨[exampleText ++ 0x0a :: ping], by decide, .late⟩ := ⟨_, Source.readOk_piece, rfl⟩
  have hread' : ∃ rest : Source UInt8, apart.readOk linkSize = some (exampleAnswer, rest) ∧
      rest = ⟨[exampleText, 0x0a :: ping], by decide, .late⟩ := ⟨_, Source.readOk_piece, rfl⟩
  obtain ⟨rest, hread, hrest⟩ := hread
  obtain ⟨rest', hread', hrest'⟩ := hread'
  have hbehind : rest.contents = exampleText ++ 0x0a :: ping := by
    rw [hrest]
    decide
  have hbehind' : rest'.contents = exampleText ++ 0x0a :: ping := by
    rw [hrest']
    decide
  -- the only refill of the buffer, and the first of two
  have hover : Json.Buffer.empty.Overshoots rest exampleText.length 13 := by
    rw [hrest, Json.Buffer.overshoots_iff_cut (by decide) (by decide)]
    decide
  have hover' : Json.Buffer.empty.Overshoots rest' exampleText.length 0 := by
    rw [hrest', Json.Buffer.overshoots_iff_cut (by decide) (by decide)]
    decide
  exact ⟨by rw [negotiation_example], together, apart, by decide,
    (intact_iff_read rfl (by decide)).2 ⟨rest, hread⟩,
    tunnel_of_overshoots hyamux hdecode hread hbehind hover, by decide,
    (intact_iff_read rfl (by decide)).2 ⟨rest', hread'⟩,
    tunnel_of_overshoots hyamux hdecode hread' hbehind' hover'⟩

end Tunnel.Client
