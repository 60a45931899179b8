import Tunnel.Multiplexer.Link

set_option autoImplicit false

/-! # The link of a visitor (`gateway/gateway.go`, `shared/hash.go`)

A visitor names the tunnel it wants by the first label of the host name it sends. The gateway hashes
that label and asks its own node for a stream to the hash. Host names are Go strings, that is
arbitrary bytes: whatever a visitor sends is hashed. -/

namespace Tunnel.Gateway

open Tunnel.Multiplexer

/-- `shared.PeerHash`: 64-bit FNV-1a. -/
def peerHash (name : List UInt8) : UInt64 :=
  name.foldl (fun h b => (h ^^^ b.toUInt64) * 1099511628211) 14695981039346656037

/-- `ALPN.String` of the four named values, and so the keys of `alpn.ReverseMap`. -/
def alpnNames : List (String × ALPN) :=
  [("", .unknown), ("multiplexer", .multiplexer), ("http/1.1", .http), ("raw", .raw)]

/-- `alpn.ReverseMap[proto]`, the zero value for a string that is not a key. -/
def reverseMap (proto : String) : ALPN := (alpnNames.lookup proto).getD .unknown

/-- The `clientID` of a host name: the hash of what stands before its first dot. -/
def clientID (sni : List UInt8) : UInt64 := peerHash (sni.takeWhile (fun b => b ≠ 46))

/-- `Gateway.link` -/
def link (peerID : UInt64) (sni : List UInt8) (proto : String) : Link where
  source := peerID
  destination := clientID sni
  protocol := .unknown
  alpn := reverseMap proto

/-- The protocols with which `handleConnection` and the transport of `httpHandler` ask for a
    link. -/
def tunnelProtos : List String := ["raw", "http/1.1"]

/-- A visitor's stream is never taken for a messaging stream. -/
theorem link_ne_messagingLink (peerID : UInt64) (sni : List UInt8) {proto : String}
    (h : proto ∈ tunnelProtos) : link peerID sni proto ≠ messagingLink := by
  have halpn : reverseMap proto ≠ .unknown := by
    simp only [tunnelProtos, List.mem_cons, List.not_mem_nil, or_false] at h
    rcases h with rfl | rfl <;> decide
  intro heq
  exact halpn (congrArg Link.alpn heq)

end Tunnel.Gateway
