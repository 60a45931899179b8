import Tunnel.Lib.Source
import Tunnel.Multiplexer.Peer

set_option autoImplicit false

/-! # The first bytes of a stream (`mux/common.go`, `mux/yamux.go`, `mux/mplex.go`, `mux/quic.go`)

Whoever opens a stream writes the 18 bytes of its `Link` first (`directHandshake`). The other side
takes them off with `streamHandshake`, which each of the three multiplexers has in a version of its
own, and hands the stream on with the link. All three make a buffer of 18 zero bytes, call `Read`
once, drop the stream on any error, and do not look at how much was read.

Hence the link arrives exactly if the first `Read` returns all of it, and not the end of the stream
along with it (`streamHandshake_iff_intact`). If it returns less, the rest of the buffer is still
zero, and the rest of the link is left in the stream. -/

namespace Tunnel.Mux

open Tunnel.Lib Tunnel.Multiplexer

/-! ## Sending -/

/-- `directHandshake`: the bytes that get into the stream, and the result. -/
def directHandshake (link : Link) (w : Written) : List UInt8 × Except String Unit :=
  (link.marshalBinary.take w.n,
    match w.err with
    | some e => .error ("writing stream handshake: " ++ e)
    | none => if w.n ≠ linkSize then .error ("invalid handshake length: " ++ toString w.n)
        else .ok ())

/-- `messagingHandshake` -/
def messagingHandshake (w : Written) : List UInt8 × Except String Unit :=
  directHandshake messagingLink w

/-- A handshake without an error is in the stream as a whole. -/
theorem directHandshake_ok {link : Link} {w : Written} {sent : List UInt8}
    (h : directHandshake link w = (sent, .ok ())) : sent = link.marshalBinary := by
  obtain ⟨hsent, hresult⟩ := Prod.mk.inj h
  split at hresult
  · cases hresult
  · split at hresult
    · cases hresult
    · next hn =>
        rw [← hsent, not_not.1 hn, ← Link.length_marshalBinary link, List.take_length]

/-! ## Receiving -/

/-- `multiplexer.LinkConnection`; the connection is the stream behind the handshake. The types
    `mplexConn` and `quicConn` embed the stream and add only its addresses. -/
structure LinkConnection where
  link : Link
  conn : Source UInt8

/-- What `streamHandshake` logs when it drops a stream. -/
inductive HandshakeError
  | reading
  | unmarshal (err : String)

/-- `conn.Read` into a new buffer of `LinkSize` bytes: the buffer afterwards, and the stream. -/
def readLink (conn : Source UInt8) : Option (List UInt8 × Source UInt8) :=
  (conn.readOk linkSize).map (fun r => (filled (List.replicate linkSize 0) r.1, r.2))

/-- The body that the three versions of `streamHandshake` share. -/
def streamHandshake (conn : Source UInt8) : Except HandshakeError LinkConnection :=
  match readLink conn with
  | none => .error .reading
  | some (buf, rest) => match Link.unmarshalBinary buf with
    | .error e => .error (.unmarshal e)
    | .ok link => .ok ⟨link, rest⟩

/-- `Yamux.streamHandshake` -/
def Yamux.streamHandshake : Source UInt8 → Except HandshakeError LinkConnection :=
  Mux.streamHandshake

/-- `Mplex.streamHandshake` -/
def Mplex.streamHandshake : Source UInt8 → Except HandshakeError LinkConnection :=
  Mux.streamHandshake

/-- `QUIC.streamHandshake` -/
def QUIC.streamHandshake : Source UInt8 → Except HandshakeError LinkConnection :=
  Mux.streamHandshake

/-- The `streamHandshake` of a session, by the protocol it was made for. -/
def handshakes : List (Protocol × (Source UInt8 → Except HandshakeError LinkConnection)) :=
  [(.yamux, Yamux.streamHandshake), (.mplex, Mplex.streamHandshake), (.quic, QUIC.streamHandshake)]

theorem eq_streamHandshake {p : Protocol} {h : Source UInt8 → Except HandshakeError LinkConnection}
    (hmem : (p, h) ∈ handshakes) : h = streamHandshake := by
  simp only [handshakes, List.mem_cons, List.not_mem_nil, or_false, Prod.mk.injEq] at hmem
  rcases hmem with ⟨_, rfl⟩ | ⟨_, rfl⟩ | ⟨_, rfl⟩ <;> rfl

/-! ## What is read -/

variable {conn rest : Source UInt8} {buf payload : List UInt8} {link : Link}

/-- The buffer after the `Read`: what was read, and zeros. -/
theorem readLink_spec (h : readLink conn = some (buf, rest)) :
    ∃ b, conn.contents = b ++ rest.contents ∧ b ≠ [] ∧ b.length ≤ linkSize ∧
      buf = b ++ List.replicate (linkSize - b.length) 0 := by
  simp only [readLink, Option.map_eq_some_iff, Prod.mk.injEq] at h
  obtain ⟨⟨b, s'⟩, hread, hbuf, rfl⟩ := h
  obtain ⟨hcontents, hlen, hne, _⟩ := Source.readOk_spec hread
  exact ⟨b, hcontents, hne (by decide), hlen, by rw [← hbuf, filled, List.drop_replicate]⟩

theorem readLink_eq_none : readLink conn = none ↔ (conn.read linkSize).eof = true := by
  simp [readLink, Source.readOk]

theorem length_of_readLink (h : readLink conn = some (buf, rest)) : buf.length = linkSize := by
  obtain ⟨b, _, _, hlen, rfl⟩ := readLink_spec h
  rw [List.length_append, List.length_replicate]
  omega

theorem marshalBinary_ne_nil (link : Link) : link.marshalBinary ≠ [] := by
  intro h
  have hlen := Link.length_marshalBinary link
  rw [h] at hlen
  exact absurd hlen (by decide)

/-- **The link is read exactly if it is not cut** and its end does not come along with it. -/
theorem readLink_iff_intact (hconn : conn.contents = link.marshalBinary ++ payload) :
    (∃ rest, readLink conn = some (link.marshalBinary, rest) ∧ rest.contents = payload) ↔
      conn.Intact [link.marshalBinary] ∧ (payload = [] → conn.ending.withLast = false) := by
  rw [Source.intact_singleton (marshalBinary_ne_nil link) hconn, Link.length_marshalBinary]
  constructor
  · rintro ⟨rest, hread, hrest⟩
    simp only [readLink, Option.map_eq_some_iff, Prod.mk.injEq] at hread
    obtain ⟨⟨b, s'⟩, hread, hbuf, rfl⟩ := hread
    -- what was read is as long as the link, since the rest is the payload
    have hb : b = link.marshalBinary := by
      have hcontents := (Source.readOk_spec hread).1
      have hrest' : s'.contents = payload := hrest
      rw [hconn, hrest'] at hcontents
      exact (List.append_cancel_right hcontents).symm
    exact ⟨s', hb ▸ hread⟩
  · rintro ⟨s', hread⟩
    refine ⟨s', ?_, Source.contents_of_readOk hconn hread⟩
    have hfilled : filled (List.replicate linkSize 0) link.marshalBinary = link.marshalBinary := by
      rw [filled, Link.length_marshalBinary, List.drop_replicate]
      simp
    rw [readLink, hread, Option.map_some, hfilled]

/-- Any 18 bytes are a link. -/
theorem unmarshalBinary_of_length (h : buf.length = linkSize) :
    ∃ link, Link.unmarshalBinary buf = .ok link :=
  ⟨_, if_neg (not_not.2 h)⟩

/-- A link that was not read in full has a zero for its ALPN. -/
theorem contents_of_alpn (hread : readLink conn = some (buf, rest))
    (hlink : Link.unmarshalBinary buf = .ok link) (halpn : link.alpn ≠ .unknown) :
    conn.contents = buf ++ rest.contents := by
  obtain ⟨b, hcontents, _, hlen, rfl⟩ := readLink_spec hread
  rcases Nat.lt_or_ge b.length linkSize with hlt | hge
  · have hzero : (b ++ List.replicate (linkSize - b.length) 0).getD 17 0 = 0 := by
      have hle : b.length ≤ 17 := by unfold linkSize at hlt; omega
      rw [List.getD_eq_getElem?_getD, List.getElem?_append_right hle, List.getElem?_replicate]
      split <;> rfl
    have hbyte : link.alpn = ⟨(b ++ List.replicate (linkSize - b.length) 0).getD 17 0⟩ := by
      unfold Link.unmarshalBinary at hlink
      split at hlink
      · cases hlink
      · cases hlink
        rfl
    rw [hbyte, hzero] at halpn
    exact absurd rfl halpn
  · rw [show linkSize - b.length = 0 by omega, List.replicate_zero, List.append_nil]
    exact hcontents

/-- A stream is dropped only if its end is reported by the first `Read`. -/
theorem streamHandshake_eq_error :
    (∃ e, streamHandshake conn = .error e) ↔ (conn.read linkSize).eof = true := by
  rw [← readLink_eq_none]
  cases hread : readLink conn with
  | none => exact iff_of_true ⟨.reading, by rw [streamHandshake, hread]⟩ rfl
  | some r =>
      obtain ⟨buf, rest⟩ := r
      obtain ⟨link, hlink⟩ := unmarshalBinary_of_length (length_of_readLink hread)
      refine iff_of_false ?_ (by simp)
      rintro ⟨e, he⟩
      simp only [streamHandshake, hread, hlink] at he
      cases he

/-- **What a stream handshake yields.** The stream comes out with the link that was sent, and with
    the payload still in it, exactly if the link is not cut and its end does not come along with
    it. -/
theorem streamHandshake_iff_intact (hconn : conn.contents = link.marshalBinary ++ payload) :
    (∃ rest, streamHandshake conn = .ok ⟨link, rest⟩ ∧ rest.contents = payload) ↔
      conn.Intact [link.marshalBinary] ∧ (payload = [] → conn.ending.withLast = false) := by
  rw [← readLink_iff_intact hconn]
  constructor
  · rintro ⟨rest, hshake, hrest⟩
    unfold streamHandshake at hshake
    split at hshake
    · cases hshake
    · next buf rest' hread =>
        split at hshake
        · cases hshake
        · next link' hlink =>
            cases hshake
            exact ⟨rest, (Link.marshalBinary_unmarshalBinary buf link hlink).symm ▸ hread, hrest⟩
  · rintro ⟨rest, hread, hrest⟩
    refine ⟨rest, ?_, hrest⟩
    simp only [streamHandshake, hread, Link.unmarshalBinary_marshalBinary]

end Tunnel.Mux
