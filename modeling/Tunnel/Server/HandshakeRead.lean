import Tunnel.Mux.Handshake
import Tunnel.Server.Handshake

set_option autoImplicit false

/-! # Handshakes that arrive in pieces (`mux/`, `server/peers.go`)

Links are read off a connection in two places of a server: `streamHandshake`, for every stream that
a peer or a client opens, and `peerNegotiation`, for every connection of another node. Both read
with a single `Read` and take the buffer for the link.

So neither is independent of how the transport cuts the stream: the link that was sent is decoded,
and the payload is left, exactly if no piece ends inside the link and the end of the stream does not
come along with it (`handshake_segmentation`). Where the stream ends inside the link,
`peerNegotiation` refuses, since the ALPN is the last byte and a zero there is not accepted.
`streamHandshake` does not, unless the end comes along with the first bytes: it yields a link filled
up with zeros, which may be the messaging link (`handshake_cut_accepted`). -/

namespace Tunnel.Server

open Tunnel.Lib Tunnel.Multiplexer Tunnel.Mux Tunnel.State

/-- The errors of `peerNegotiation` before its call of `NewPeer`. -/
inductive PeerNegotiationError
  | reading
  | refused (err : NegotiationError)

/-- The texts of the errors; all that `Read` reports here is the end of the stream. -/
def PeerNegotiationError.text : PeerNegotiationError → String
  | .reading => "reading handshake: EOF"
  | .refused err => err.text

namespace Identity

/-- `peerNegotiation` on a connection, up to its call of `NewPeer`: the call, and the connection
    that the new session gets. -/
def readPeerNegotiation (s : Identity) (acceptable : List Protocol) (conn : Source UInt8) :
    Except PeerNegotiationError (NewPeerCall × Source UInt8) :=
  match readLink conn with
  | none => .error .reading
  | some (r, rest) => match s.peerNegotiation acceptable r with
    | .error e => .error (.refused e)
    | .ok call => .ok (call, rest)

variable {s : Identity} {acceptable : List Protocol} {conn : Source UInt8} {link : Link}
  {payload : List UInt8} {call : NewPeerCall}

/-- A link that was not cut is answered as the bytes that were sent, whatever they are. -/
theorem readPeerNegotiation_of_intact (hconn : conn.contents = link.marshalBinary ++ payload)
    (hintact : conn.Intact [link.marshalBinary])
    (hend : payload = [] → conn.ending.withLast = false) :
    ∃ rest, rest.contents = payload ∧ s.readPeerNegotiation acceptable conn =
      match s.peerNegotiation acceptable link.marshalBinary with
      | .error e => .error (.refused e)
      | .ok call => .ok (call, rest) := by
  obtain ⟨rest, hread, hrest⟩ := (readLink_iff_intact hconn).2 ⟨hintact, hend⟩
  refine ⟨rest, hrest, ?_⟩
  simp only [readPeerNegotiation, hread]

/-- **What the negotiation makes of a link that is accepted.** -/
theorem readPeerNegotiation_iff_intact (hconn : conn.contents = link.marshalBinary ++ payload)
    (haccept : s.peerNegotiation acceptable link.marshalBinary = .ok call) :
    (∃ rest, s.readPeerNegotiation acceptable conn = .ok (call, rest) ∧ rest.contents = payload) ↔
      conn.Intact [link.marshalBinary] ∧ (payload = [] → conn.ending.withLast = false) := by
  constructor
  · rintro ⟨rest, hneg, hrest⟩
    rw [← readLink_iff_intact hconn]
    unfold readPeerNegotiation at hneg
    split at hneg
    · cases hneg
    · next r rest' hread =>
        split at hneg
        · cases hneg
        · cases hneg
          -- as much was read as was sent, so it is the same
          obtain ⟨b, hcontents, _, _, hbuf⟩ := readLink_spec hread
          have hb : b = link.marshalBinary := by
            rw [hconn, hrest] at hcontents
            exact (List.append_cancel_right hcontents).symm
          refine ⟨rest, ?_, hrest⟩
          rw [hread, hbuf, hb, Link.length_marshalBinary]
          simp
  · rintro ⟨hintact, hend⟩
    obtain ⟨rest, hrest, hneg⟩ := readPeerNegotiation_of_intact hconn hintact hend
    rw [haccept] at hneg
    exact ⟨rest, hneg, hrest⟩

/-- A link that the end of the stream cuts has a zero for its ALPN. -/
theorem readPeerNegotiation_cut_short (hshort : conn.contents.length < linkSize) :
    ∃ e, s.readPeerNegotiation acceptable conn = .error e := by
  cases hread : readLink conn with
  | none => exact ⟨.reading, by rw [readPeerNegotiation, hread]⟩
  | some res =>
      obtain ⟨r, rest⟩ := res
      cases hneg : s.peerNegotiation acceptable r with
      | error e => exact ⟨.refused e, by simp only [readPeerNegotiation, hread, hneg]⟩
      | ok call =>
          obtain ⟨link, hlink, halpn, _⟩ := peerNegotiation_ok hneg
          have hcontents := contents_of_alpn hread hlink (by rw [halpn]; decide)
          rw [hcontents, List.length_append, length_of_readLink hread] at hshort
          omega

/-- **Handshakes and the cuts of the transport.** A link that was written followed by any payload is
    decoded by the `streamHandshake` of each multiplexer, with the payload left to be read, exactly
    if the transport does not cut the link and, where there is no payload, does not report the end
    of the stream along with it; and the same holds for `peerNegotiation` and the links it accepts,
    while what it refuses then it refuses for what was sent. Of the handshakes that the end of the
    stream cuts short, `peerNegotiation` rejects all, and `streamHandshake` only the one without a
    single byte, and those that arrive in one piece together with the end. -/
theorem handshake_segmentation (s : Identity) (acceptable : List Protocol) :
    (∀ p handshake, (p, handshake) ∈ handshakes → ∀ link w sent payload conn,
      directHandshake link w = (sent, .ok ()) → conn.contents = sent ++ payload →
        ((∃ rest, handshake conn = .ok ⟨link, rest⟩ ∧ rest.contents = payload) ↔
          conn.Intact [sent] ∧ (payload = [] → conn.ending.withLast = false))) ∧
    (∀ p handshake, (p, handshake) ∈ handshakes → ∀ conn, conn.contents.length < linkSize →
      ((∃ e, handshake conn = .error e) ↔
        conn.contents = [] ∨ (conn.Intact [conn.contents] ∧ conn.ending.withLast = true))) ∧
    (∀ (link : Link) payload (conn : Source UInt8), conn.contents = link.marshalBinary ++ payload →
      (∀ call, s.peerNegotiation acceptable link.marshalBinary = .ok call →
        ((∃ rest, s.readPeerNegotiation acceptable conn = .ok (call, rest) ∧
          rest.contents = payload) ↔
            conn.Intact [link.marshalBinary] ∧ (payload = [] → conn.ending.withLast = false))) ∧
      (∀ e, s.peerNegotiation acceptable link.marshalBinary = .error e →
        conn.Intact [link.marshalBinary] → (payload = [] → conn.ending.withLast = false) →
          s.readPeerNegotiation acceptable conn = .error (.refused e))) ∧
    ∀ conn : Source UInt8, conn.contents.length < linkSize →
      ∃ e, s.readPeerNegotiation acceptable conn = .error e := by
  refine ⟨?_, ?_, ?_, fun conn hshort => readPeerNegotiation_cut_short hshort⟩
  · intro p handshake hmem link w sent payload conn hsent hconn
    rw [eq_streamHandshake hmem]
    rw [directHandshake_ok hsent] at hconn ⊢
    exact streamHandshake_iff_intact hconn
  · intro p handshake hmem conn hshort
    rw [eq_streamHandshake hmem, streamHandshake_eq_error]
    exact Source.eof_read_of_short (Nat.le_of_lt hshort) (by decide)
  · intro link payload conn hconn
    refine ⟨fun call haccept => readPeerNegotiation_iff_intact hconn haccept, ?_⟩
    intro e he hintact hend
    obtain ⟨rest, _, hneg⟩ := readPeerNegotiation_of_intact hconn hintact hend
    rw [hneg, he]

end Identity

/-- A stream of a visitor for the client with ID 9 at node 5. -/
def exampleLink : Link := ⟨5, 9, .unknown, .raw⟩

/-- The same stream in one piece. -/
def wholeStream : Source UInt8 := ⟨[exampleLink.marshalBinary ++ [104, 105]], by decide, .late⟩

/-- In one piece the link arrives, over each multiplexer. -/
theorem handshake_segmentation_whole :
    directHandshake exampleLink ⟨18, none⟩ = (exampleLink.marshalBinary, .ok ()) ∧
      wholeStream.contents = exampleLink.marshalBinary ++ [104, 105] ∧
      ∀ p handshake, (p, handshake) ∈ handshakes → ∃ rest,
        handshake wholeStream = .ok ⟨exampleLink, rest⟩ ∧ rest.contents = [104, 105] := by
  have hsent : directHandshake exampleLink ⟨18, none⟩ = (exampleLink.marshalBinary, .ok ()) := rfl
  have hwhole : wholeStream.contents = exampleLink.marshalBinary ++ [104, 105] := by decide
  refine ⟨hsent, hwhole, fun p handshake hmem => ?_⟩
  exact ((Identity.handshake_segmentation ⟨5, "10.0.0.5", 7946, .quic, false⟩ []).1 p handshake hmem
    exampleLink _ _ _ wholeStream hsent hwhole).2 ⟨Source.intact_of_piece (by decide), by simp⟩

/-- A stream whose first piece is the first byte of the link, and one that ends there. -/
def cutStream : Source UInt8 :=
  ⟨[exampleLink.marshalBinary.take 1, exampleLink.marshalBinary.drop 1 ++ [104, 105]],
    by decide, .late⟩

def endedStream : Source UInt8 := ⟨[exampleLink.marshalBinary.take 1], by decide, .late⟩

/-- The link alone, in one piece, and the end of the stream along with it. -/
def finishedStream : Source UInt8 := ⟨[exampleLink.marshalBinary], by decide, ⟨true, false⟩⟩

/-- Cut after its first byte, the link arrives as the messaging link, and 17 bytes of it are left in
    the stream before the payload. The same link comes out of a stream that ends there. And a link
    that is not cut, with no payload, is dropped if the end of the stream comes along with it. -/
theorem handshake_cut_accepted :
    directHandshake exampleLink ⟨18, none⟩ = (exampleLink.marshalBinary, .ok ()) ∧
    cutStream.contents = exampleLink.marshalBinary ++ [104, 105] ∧
    (∀ p handshake, (p, handshake) ∈ handshakes → ∃ rest,
      handshake cutStream = .ok ⟨messagingLink, rest⟩ ∧
        rest.contents = exampleLink.marshalBinary.drop 1 ++ [104, 105]) ∧
    endedStream.contents.length < linkSize ∧
    (∀ p handshake, (p, handshake) ∈ handshakes → ∃ rest,
      handshake endedStream = .ok ⟨messagingLink, rest⟩) ∧
    finishedStream.contents = exampleLink.marshalBinary ++ [] ∧
    ∀ p handshake, (p, handshake) ∈ handshakes → handshake finishedStream = .error .reading := by
  refine ⟨rfl, by decide, ?_, by decide, ?_, by decide, ?_⟩
  · intro p handshake hmem
    rw [eq_streamHandshake hmem]
    exact ⟨_, rfl, by decide⟩
  · intro p handshake hmem
    rw [eq_streamHandshake hmem]
    exact ⟨_, rfl⟩
  · intro p handshake hmem
    rw [eq_streamHandshake hmem]
    rfl

end Tunnel.Server
