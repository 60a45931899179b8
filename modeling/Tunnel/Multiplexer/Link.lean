import Tunnel.Lib.BigEndian

set_option autoImplicit false

/-! # Links and their wire format (`multiplexer/link.go`)

A `Link` is the 18-byte header exchanged when a session or a stream is opened: who it is for, and
which multiplexer protocol and application protocol it speaks. Protocols are single bytes on the
wire and any byte may arrive, so both are modelled as bytes with named constants.

Encoding and decoding are mutually inverse between all links and all 18-byte strings
(`Link.unmarshalBinary_marshalBinary`, `Link.marshalBinary_unmarshalBinary`). -/

namespace Tunnel.Multiplexer

open Tunnel.Lib

/-! ## Protocol and ALPN bytes -/

/-- `protocol.Protocol` -/
structure Protocol where
  byte : UInt8
deriving DecidableEq

namespace Protocol

def unknown : Protocol := ⟨0⟩
def yamux : Protocol := ⟨1⟩
def mplex : Protocol := ⟨2⟩
def quic : Protocol := ⟨3⟩

/-- `protocol.TLSProtos` -/
def tlsProtos : List Protocol := [yamux, mplex]

/-- `protocol.QUICProtos` -/
def quicProtos : List Protocol := [quic]

/-- `Protocol.String` -/
def string (p : Protocol) : String :=
  ["unknown", "yamux", "mplex", "quic"].getD p.byte.toNat
    ("Protocol(" ++ toString p.byte.toNat ++ ")")

end Protocol

/-- `alpn.ALPN` -/
structure ALPN where
  byte : UInt8
deriving DecidableEq

namespace ALPN

def unknown : ALPN := ⟨0⟩
def multiplexer : ALPN := ⟨1⟩
def http : ALPN := ⟨2⟩
def raw : ALPN := ⟨3⟩

/-- `ALPN.String` -/
def string (a : ALPN) : String :=
  ["", "multiplexer", "http/1.1", "raw"].getD a.byte.toNat
    ("ALPN(" ++ toString a.byte.toNat ++ ")")

end ALPN

/-! ## Links -/

/-- `multiplexer.Link` -/
structure Link where
  source : UInt64
  destination : UInt64
  protocol : Protocol
  alpn : ALPN
deriving DecidableEq

/-- `multiplexer.LinkSize` -/
def linkSize : ℕ := 18

/-- `multiplexer.MessagingLink`: the zero link announces a messaging stream. -/
def messagingLink : Link := ⟨0, 0, .unknown, .unknown⟩

namespace Link

/-- A link printed with `%+v`. -/
def text (l : Link) : String :=
  "\x7bSource:" ++ toString l.source.toNat ++ " Destination:" ++ toString l.destination.toNat ++
    " Protocol:" ++ l.protocol.string ++ " ALPN:" ++ l.alpn.string ++ "\x7d"

/-- `Link.MarshalBinary` -/
def marshalBinary (l : Link) : List UInt8 :=
  putUint64 l.source ++ putUint64 l.destination ++ [l.protocol.byte, l.alpn.byte]

/-- `Link.UnmarshalBinary`: every field of the receiver is overwritten. -/
def unmarshalBinary (b : List UInt8) : Except String Link :=
  if b.length ≠ linkSize then .error ("invalid buffer length: " ++ toString b.length)
  else .ok
    { source := getUint64 (b.take 8)
      destination := getUint64 ((b.drop 8).take 8)
      protocol := ⟨b.getD 16 0⟩
      alpn := ⟨b.getD 17 0⟩ }

@[simp] theorem length_marshalBinary (l : Link) : l.marshalBinary.length = linkSize := by
  simp [marshalBinary, linkSize]

/-- **Decoding an encoded link gives the link back.** -/
theorem unmarshalBinary_marshalBinary (l : Link) :
    unmarshalBinary l.marshalBinary = .ok l := by
  have hlen : ¬ l.marshalBinary.length ≠ linkSize := not_not.2 (length_marshalBinary l)
  have hsrc : l.marshalBinary.take 8 = putUint64 l.source := by
    simp [marshalBinary]
  have hdst : (l.marshalBinary.drop 8).take 8 = putUint64 l.destination := by
    simp [marshalBinary]
  have hproto : l.marshalBinary.getD 16 0 = l.protocol.byte := by
    simp [marshalBinary, List.getD_eq_getElem?_getD]
  have halpn : l.marshalBinary.getD 17 0 = l.alpn.byte := by
    simp [marshalBinary, List.getD_eq_getElem?_getD]
  rw [unmarshalBinary, if_neg hlen, hsrc, hdst, hproto, halpn]
  simp

/-- **A link decoded from 18 bytes encodes to those bytes.** -/
theorem marshalBinary_unmarshalBinary (b : List UInt8) (l : Link)
    (h : unmarshalBinary b = .ok l) : l.marshalBinary = b := by
  unfold unmarshalBinary at h
  split at h
  · exact absurd h (by simp)
  · next hlen =>
      have hlen' : b.length = 18 := not_not.1 hlen
      simp only [Except.ok.injEq] at h
      subst h
      have hfst : (b.take 8).length = 8 := by simp [hlen']
      have hsnd : ((b.drop 8).take 8).length = 8 := by simp [hlen']
      have htail : [b.getD 16 0, b.getD 17 0] = (b.drop 8).drop 8 := by
        apply List.ext_getElem
        · simp [hlen']
        · intro i h1 h2
          match i with
          | 0 => simp [List.getD_eq_getElem?_getD, hlen']
          | 1 => simp [List.getD_eq_getElem?_getD, hlen']
          | i + 2 => exact absurd h1 (by simp)
      show putUint64 (getUint64 (b.take 8)) ++ putUint64 (getUint64 ((b.drop 8).take 8))
        ++ [b.getD 16 0, b.getD 17 0] = b
      rw [putUint64_getUint64 _ hfst, putUint64_getUint64 _ hsnd, htail, List.append_assoc,
        List.take_append_drop, List.take_append_drop]

end Link

end Tunnel.Multiplexer
