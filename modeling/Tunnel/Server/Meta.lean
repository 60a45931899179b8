import Tunnel.Lib.NetIP
import Tunnel.Multiplexer.Link

set_option autoImplicit false

/-! # The metadata a node gossips (`server/meta.go`)

26 bytes tell other nodes how to connect to a node: four bytes of address, four bytes unused, the
port, the peer ID, the protocol and the `RespondOnly` flag. Decoding writes into a `Meta` that is
already there, and never clears its `RespondOnly` (`unmarshalBinary_eq`), so the result is that of
the bytes alone only if the `Meta` is a fresh one.

A node with an IPv4 address is decoded as it was encoded (`decode_marshalBinary`). -/

namespace Tunnel.Server

open Tunnel.Lib Tunnel.Multiplexer

/-- `server.Meta` -/
structure Meta where
  connectIP : String
  connectPort : UInt64
  peerID : UInt64
  protocol : Protocol
  respondOnly : Bool
deriving DecidableEq

/-- `server.MetaSize` -/
def metaSize : ℕ := 26

namespace Meta

/-- `var m Meta` -/
def zero : Meta := ⟨"", 0, 0, .unknown, false⟩

/-- The buffer that `MarshalBinary` fills, with the address bytes `q`. -/
def layout (m : Meta) (q : List UInt8) : List UInt8 :=
  q ++ [0, 0, 0, 0] ++ putUint64 m.connectPort ++ putUint64 m.peerID ++
    [m.protocol.byte, if m.respondOnly then 1 else 0]

/-- `Meta.MarshalBinary`. Slicing the `nil` that stands for a text that is no address panics:
    `none`. -/
def marshalBinary (m : Meta) : Option (List UInt8) :=
  (parseIP m.connectIP).map (fun ip => m.layout ((ip.drop 12).take 4))

/-- `m.UnmarshalBinary(b)`: what `m` is afterwards. With an error `m` stays as it is. -/
def unmarshalBinary (m : Meta) (b : List UInt8) : Except String Meta :=
  if b.length ≠ metaSize then .error ("invalid buffer length: " ++ toString b.length)
  else .ok
    { connectIP := ipv4String (b.take 4)
      connectPort := getUint64 ((b.drop 8).take 8)
      peerID := getUint64 ((b.drop 16).take 8)
      protocol := ⟨b.getD 24 0⟩
      respondOnly := if b.getD 25 0 = 1 then true else m.respondOnly }

/-- What the bytes say: `UnmarshalBinary` into a fresh `Meta`. -/
def decode (b : List UInt8) : Except String Meta := zero.unmarshalBinary b

/-- The only field of the old value that survives is a set `RespondOnly`. -/
theorem unmarshalBinary_eq (m : Meta) (b : List UInt8) :
    m.unmarshalBinary b =
      (decode b).map (fun d => { d with respondOnly := m.respondOnly || d.respondOnly }) := by
  unfold decode unmarshalBinary
  by_cases hlen : b.length ≠ metaSize
  · rw [if_pos hlen, if_pos hlen]
    rfl
  · rw [if_neg hlen, if_neg hlen]
    by_cases hbyte : b.getD 25 0 = 1
    · simp only [if_pos hbyte, Except.map, Bool.or_true]
    · simp only [if_neg hbyte, Except.map, zero, Bool.or_false]

theorem decode_layout (m : Meta) {q : List UInt8} (hq : q.length = 4) :
    decode (m.layout q) = .ok { m with connectIP := ipv4String q } := by
  have hlen : ¬ (m.layout q).length ≠ metaSize := by simp [layout, metaSize, hq]
  have hip : (m.layout q).take 4 = q := by
    simp [layout, ← hq]
  have hpast : ∀ k, 4 ≤ k → q.drop k = [] := fun k hk => List.drop_eq_nil_of_le (hq.trans_le hk)
  have hport : ((m.layout q).drop 8).take 8 = putUint64 m.connectPort := by
    simp [layout, List.drop_append, hq, hpast 8 (by decide)]
  have hid : ((m.layout q).drop 16).take 8 = putUint64 m.peerID := by
    simp [layout, List.drop_append, hq, hpast 16 (by decide)]
  have hproto : (m.layout q).getD 24 0 = m.protocol.byte := by
    simp [layout, List.getD_eq_getElem?_getD, hq]
  have hflag : (m.layout q).getD 25 0 = if m.respondOnly then 1 else 0 := by
    simp [layout, List.getD_eq_getElem?_getD, hq]
  rw [decode, unmarshalBinary, if_neg hlen, hip, hport, hid, hproto, hflag]
  cases m.respondOnly <;> simp [zero]

/-- **A node with an IPv4 address is decoded as it was encoded.** -/
theorem decode_marshalBinary {m : Meta} (hip : (parseIPv4 m.connectIP.toList).isSome = true) :
    ∃ b, m.marshalBinary = some b ∧ decode b = .ok m := by
  obtain ⟨ip, hip⟩ := Option.isSome_iff_exists.1 hip
  obtain ⟨q, hq, rfl, hdotted⟩ := parseIPv4_eq_some hip
  have hbytes : (v4InV6Prefix ++ q).drop 12 = q := List.drop_left' rfl
  have hencode : m.marshalBinary = some (m.layout q) := by
    rw [marshalBinary, parseIP_of_parseIPv4 hip, Option.map_some, hbytes,
      List.take_of_length_le hq.le]
  have htext : ipv4String q = m.connectIP := by
    rw [ipv4String, ← hdotted, String.ofList_toList]
  refine ⟨m.layout q, hencode, ?_⟩
  rw [decode_layout m hq, htext]

end Meta

end Tunnel.Server
