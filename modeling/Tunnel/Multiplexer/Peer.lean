import Tunnel.Multiplexer.Link

set_option autoImplicit false

/-! # Sessions, constructors and dialers (`multiplexer/`, `mux/`)

A session with a peer runs over one of three multiplexer protocols. Package `mux` registers a
constructor and a dialer for each of them when it is loaded; the registries never change after
that. The dialers of Yamux and Mplex are the same function, over TLS. -/

namespace Tunnel.Multiplexer

/-- `multiplexer.Config`. The logger and the connection are left out: every caller passes both, and
    `Wait` only says how long the `select` in `NewPeer` waits. -/
structure Config where
  peer : UInt64
  initiator : Bool
deriving DecidableEq

/-- A `multiplexer.Peer`, a session with `peer`. Two sessions are the same Go value exactly if they
    have the same `id`. -/
structure Session where
  id : ℕ
  peer : UInt64
  protocol : Protocol
  initiator : Bool
deriving DecidableEq

/-- What a dialer opens: a TLS connection or a QUIC session. -/
inductive Transport
  | tls
  | quic
deriving DecidableEq

/-- `protocol.ErrUnknownProtocol` -/
def errUnknownProtocol : String := "unknown protocol"

/-- The keys of `protocolRegistry`, after the `init` functions of package `mux`. -/
def protocolRegistry : List Protocol := [.yamux, .mplex, .quic]

/-- `multiplexer.New`: whether there is a constructor for the protocol. -/
def new (p : Protocol) : Except String Unit :=
  if p ∉ protocolRegistry ∨ p = .unknown then .error errUnknownProtocol else .ok ()

/-- `dReg`, after the `init` functions of package `mux`. -/
def dReg : List (Protocol × Transport) := [(.yamux, .tls), (.mplex, .tls), (.quic, .quic)]

/-- `multiplexer.Dialer` -/
def dialer (p : Protocol) : Except String Transport :=
  match dReg.lookup p with
  | some d => if p = .unknown then .error errUnknownProtocol else .ok d
  | none => .error errUnknownProtocol

/-- `Config.Validate` -/
def Config.validate (c : Config) : Except String Unit :=
  if c.peer = 0 then .error "peer cannot be 0" else .ok ()

end Tunnel.Multiplexer
