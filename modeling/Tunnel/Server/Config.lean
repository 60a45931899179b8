import Tunnel.Server.Gossip

set_option autoImplicit false

/-! # Configuring a node (`server/config.go`, `server/server.go`, `server/meta.go`)

`New` checks that everything it needs is there, reads the keys of the gossip, and encodes the
metadata that the node will gossip. No check looks at the address that is to be advertised, and the
encoder cuts it to four bytes. So an address that is no IPv4 address is not refused: if it is not an
address at all, the encoder panics, and if it is one of IPv6, the other nodes are told another
address (`meta_faithful_iff`, `meta_loses_address`). -/

namespace Tunnel.Server

open Tunnel.Lib Tunnel.Multiplexer

/-- `server.Config`, as far as `New` looks at it: of a context, a logger, a listener, a TLS
    configuration and a certificate manager, whether it is there. -/
structure ServerConfig where
  context : Bool
  logger : Bool
  peerTLSListener : Bool
  peerQUICListener : Bool
  peerTLSConfig : Bool
  clientTLSListener : Bool
  clientQUICListener : Bool
  certManager : Bool
  domain : String
  advertiseAddr : String
  peerPort : Int64
  protocol : Protocol
  respondOnly : Bool
  keyring : List String

/-- `encoding/base64` and `memberlist.NewKeyring`. -/
structure KeyringLib where
  decodeString : String → Except String (List UInt8)
  newKeyring : List (List UInt8) → List UInt8 → Except String Unit

/-- How `New` ends when it does not succeed. -/
inductive NewFault
  | error (text : String)
  | panic
deriving DecidableEq

namespace ServerConfig

/-- What `validate` asks for, in its order, and the error where it is missing. -/
def required (c : ServerConfig) : List (Bool × String) :=
  [(c.context, "nil context is invalid"),
    (c.logger, "nil logger is invalid"),
    (c.peerTLSListener, "nil peer tls listener is invalid"),
    (c.peerQUICListener, "nil peer quic listener is invalid"),
    (c.peerTLSConfig, "nil peer tls config is invalid"),
    (c.clientTLSListener, "nil client tls listener is invalid"),
    (c.clientQUICListener, "nil client quic listener is invalid"),
    (c.certManager, "nil cert manager is invalid"),
    (decide (c.domain ≠ ""), "empty domain is invalid")]

/-- `Config.validate` -/
def validate (c : ServerConfig) : Except String Unit :=
  match c.required.find? (fun p => !p.1) with
  | some p => .error p.2
  | none => .ok ()

/-- The keys of the gossip (server.go:105-121); `i` is the random number that picks the primary
    one. -/
def gossipKeys (lib : KeyringLib) (c : ServerConfig) (i : ℕ) : Except String Unit :=
  match c.keyring.mapM lib.decodeString with
  | .error e => .error ("decoding base64 keyring: " ++ e)
  | .ok keys =>
      if keys = [] then .error "no gossip keyring was found"
      else match lib.newKeyring keys (keys.getD (i % keys.length) []) with
        | .error e => .error ("creating gossip keyring: " ++ e)
        | .ok _ => .ok ()

/-- The node that `New` makes, with its random ID. -/
def identity (c : ServerConfig) (self : UInt64) : Identity :=
  ⟨self, c.advertiseAddr, c.peerPort, c.protocol, c.respondOnly⟩

end ServerConfig

/-- `New`: the node and its `metaBytes`. -/
def ServerConfig.new (lib : KeyringLib) (c : ServerConfig) (self : UInt64) (i : ℕ) :
    Except NewFault (Identity × List UInt8) :=
  match c.validate with
  | .error e => .error (.error e)
  | .ok _ => match c.gossipKeys lib i with
    | .error e => .error (.error e)
    | .ok _ => match (c.identity self).meta.marshalBinary with
      | none => .error .panic
      | some b => .ok (c.identity self, b)

/-! ## Addresses -/

namespace Meta

/-- `MarshalBinary` returns 26 bytes that decode into a fresh `Meta` with the same port, ID,
    protocol and flag, and a text of the same address. It never returns an error. -/
def Faithful (m : Meta) : Prop :=
  ∃ b d, m.marshalBinary = some b ∧ b.length = metaSize ∧ decode b = .ok d ∧
    d.connectPort = m.connectPort ∧ d.peerID = m.peerID ∧ d.protocol = m.protocol ∧
    d.respondOnly = m.respondOnly ∧
    ∃ ip, parseIP m.connectIP = some ip ∧ parseIP d.connectIP = some ip

/-- The text is that of an IPv4 address, dotted or mapped into IPv6. -/
def IsIPv4 (text : String) : Prop :=
  ∃ q, q.length = 4 ∧ parseIP text = some (v4InV6Prefix ++ q)

/-- What the encoder makes of an address: its last four bytes, and these as an IPv4 address. -/
theorem decode_of_parseIP {m : Meta} {ip : List UInt8} (hip : parseIP m.connectIP = some ip) :
    ∃ b, m.marshalBinary = some b ∧ b.length = metaSize ∧
      decode b = .ok { m with connectIP := ipv4String (ip.drop 12) } ∧
      parseIP (ipv4String (ip.drop 12)) = some (v4InV6Prefix ++ ip.drop 12) := by
  have hfour : (ip.drop 12).length = 4 := by rw [List.length_drop, length_parseIP hip]
  have hencode : m.marshalBinary = some (m.layout (ip.drop 12)) := by
    rw [marshalBinary, hip, Option.map_some, List.take_of_length_le hfour.le]
  have hlen : (m.layout (ip.drop 12)).length = metaSize := by
    simp only [layout, List.length_append, hfour, List.length_cons, List.length_nil,
      length_putUint64, metaSize]
  exact ⟨_, hencode, hlen, decode_layout m hfour, parseIP_ipv4String hfour⟩

/-- An address is that of the text which the others decode exactly if it is one of IPv4. -/
theorem isIPv4_iff {text : String} {ip : List UInt8} (hip : parseIP text = some ip) :
    IsIPv4 text ↔ ip = v4InV6Prefix ++ ip.drop 12 := by
  constructor
  · intro h
    obtain ⟨q, _, hq⟩ := h
    rw [hip, Option.some.injEq] at hq
    rw [hq]
    rfl
  · intro h
    refine ⟨ip.drop 12, by rw [List.length_drop, length_parseIP hip], ?_⟩
    rw [← h]
    exact hip

theorem faithful_iff {m : Meta} : m.Faithful ↔ IsIPv4 m.connectIP := by
  constructor
  · intro h
    obtain ⟨b, d, hencode, _, hdecode, _, _, _, _, ip, hip, hsame⟩ := h
    obtain ⟨b', hencode', _, hdecode', hparse⟩ := decode_of_parseIP hip
    obtain rfl : b' = b := Option.some.inj (hencode'.symm.trans hencode)
    rw [hdecode', Except.ok.injEq] at hdecode
    rw [← hdecode] at hsame
    rw [hparse, Option.some.injEq] at hsame
    exact (isIPv4_iff hip).2 hsame.symm
  · intro h
    obtain ⟨q, hq, hip⟩ := h
    obtain ⟨b, hencode, hlen, hdecode, hparse⟩ := decode_of_parseIP hip
    exact ⟨b, _, hencode, hlen, hdecode, rfl, rfl, rfl, rfl, _, hip, hparse⟩

end Meta

/-- **Which metadata is encoded faithfully.** What a node gossips decodes to the same metadata
    exactly if the text of its address is that of an IPv4 address. If it is no address, the encoder
    panics. If it is any other address, the encoder returns, and what the other nodes decode is an
    IPv4 address that consists of its last four bytes. And `New` refuses no address: an error that
    it returns for one it returns for every one, and where it returns none it encodes. -/
theorem meta_faithful_iff (m : Meta) :
    (m.Faithful ↔ Meta.IsIPv4 m.connectIP) ∧
    (parseIP m.connectIP = none → m.marshalBinary = none) ∧
    (∀ ip, parseIP m.connectIP = some ip → ¬ Meta.IsIPv4 m.connectIP →
      ∃ b d, m.marshalBinary = some b ∧ Meta.decode b = .ok d ∧
        parseIP d.connectIP = some (v4InV6Prefix ++ ip.drop 12) ∧
        parseIP d.connectIP ≠ parseIP m.connectIP) ∧
    ∀ (lib : KeyringLib) (c : ServerConfig) (self : UInt64) (i : ℕ),
      (∃ e, ∀ addr,
        ServerConfig.new lib { c with advertiseAddr := addr } self i = .error (.error e)) ∨
      ∀ addr, ServerConfig.new lib { c with advertiseAddr := addr } self i =
        match Meta.marshalBinary ⟨addr, c.peerPort.toUInt64, self, c.protocol, c.respondOnly⟩ with
        | none => .error .panic
        | some b => .ok (ServerConfig.identity { c with advertiseAddr := addr } self, b) := by
  refine ⟨Meta.faithful_iff, ?_, ?_, ?_⟩
  · intro hip
    rw [Meta.marshalBinary, hip, Option.map_none]
  · intro ip hip hnot
    obtain ⟨b, hencode, _, hdecode, hparse⟩ := Meta.decode_of_parseIP hip
    refine ⟨b, _, hencode, hdecode, hparse, ?_⟩
    rw [hparse, hip]
    intro heq
    exact hnot ((Meta.isIPv4_iff hip).2 (Option.some.inj heq).symm)
  · intro lib c self i
    -- neither check reads the address
    have hvalidate : ∀ addr, ServerConfig.validate { c with advertiseAddr := addr } = c.validate :=
      fun _ => rfl
    have hkeys : ∀ addr, ServerConfig.gossipKeys lib { c with advertiseAddr := addr } i
        = c.gossipKeys lib i := fun _ => rfl
    cases hv : c.validate with
    | error e =>
        left
        refine ⟨e, fun addr => ?_⟩
        rw [ServerConfig.new, hvalidate, hv]
    | ok u =>
        cases hk : c.gossipKeys lib i with
        | error e =>
            left
            refine ⟨e, fun addr => ?_⟩
            rw [ServerConfig.new, hvalidate, hv, hkeys, hk]
        | ok u =>
            right
            intro addr
            rw [ServerConfig.new, hvalidate, hv, hkeys, hk]
            rfl

/-- A configuration with everything in place, that advertises this address. -/
def ServerConfig.advertising (addr : String) : ServerConfig :=
  ⟨true, true, true, true, true, true, true, true, "t.e", addr, 11111, .yamux, false, ["k"]⟩

/-- A library that takes every key. -/
def KeyringLib.lenient : KeyringLib := ⟨fun _ => .ok [], fun _ _ => .ok ()⟩

/-- Two nodes that `New` does not refuse. The first advertises an address of IPv6, and is decoded as
    if it had advertised `0.0.0.1`. The second advertises a host name, and `New` panics. -/
theorem meta_loses_address :
    (∃ s b d, (ServerConfig.advertising "2001:db8::1").new .lenient 5 0 = .ok (s, b) ∧
      Meta.decode b = .ok d ∧ d.connectIP = "0.0.0.1" ∧
      parseIP d.connectIP ≠ parseIP "2001:db8::1" ∧ ¬ s.meta.Faithful) ∧
    (ServerConfig.advertising "t.example").new .lenient 5 0 = .error .panic := by
  have hip : parseIP "2001:db8::1"
      = some [0x20, 0x01, 0x0d, 0xb8, 0, 0, 0, 0, 0, 0, 0, 0, 0, 0, 0, 1] := by decide
  refine ⟨⟨_, _, _, rfl, rfl, by decide, by decide, ?_⟩, rfl⟩
  rw [Meta.faithful_iff]
  show ¬ Meta.IsIPv4 "2001:db8::1"
  rw [Meta.isIPv4_iff hip]
  decide

end Tunnel.Server
