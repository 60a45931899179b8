import Tunnel.Client.Negotiation
import Tunnel.Gateway.Sni

set_option autoImplicit false

/-! # The advertised host name (`cmd/server/main.go`, `server/clients.go`, `gateway/gateway.go`)

Three places derive the ID of a client from a text. `clientNegotiation` hashes the name it made up;
for a visitor that speaks the raw protocol, the gateway hashes the server name up to its first dot;
for HTTP it does the same to the address that the reverse proxy dials. The client is told a URL, and
in the URL stands a port if the gateway does not listen on 443.

A visitor of the URL asks for the server name without the port. So all three hash the same bytes, as
long as the name has no dot of its own (`advertised_name_leads_back`). -/

namespace Tunnel.Server

open Tunnel.Acme (ascii)
open Tunnel.Gateway Tunnel.Lib Tunnel.Multiplexer Tunnel.Mux Tunnel.State

/-- The `Domain` that `main` configures a server with (main.go:253-256). -/
def serverDomain (domain : List UInt8) (gatewayPort : ℕ) : List UInt8 :=
  if gatewayPort ≠ 443 then domain ++ ascii ":" ++ ascii (toString gatewayPort) else domain

variable {s : Identity} {domain name n sent : List UInt8} {acceptable : List Protocol}
  {conn rest : Source UInt8} {wLink wName : Written} {call : NewPeerCall}

/-! ## What the client is told -/

/-- A client that is accepted is registered under the hash of its name, and is sent the URL. -/
theorem clientNegotiation_registers
    (h : s.clientNegotiation domain name acceptable conn wLink wName = (sent, .ok (call, rest))) :
    call.conf.peer = peerHash name ∧
      ∃ reply : Link, reply.source = peerHash name ∧
        sent = reply.marshalBinary ++ Json.encode (ascii "Hostname") (hostname name domain) := by
  unfold Identity.clientNegotiation at h
  split at h
  · cases h
  · split at h
    · cases h
    · next link hlink =>
        split at h
        · cases h
        · split at h
          · cases h
          · split at h
            · cases h
            · split at h
              · cases h
              · simp only at h
                split at h
                · cases h
                · split at h
                  · cases h
                  · split at h
                    · cases h
                    · cases h
                      exact ⟨rfl, { link with source := peerHash name, destination := s.id }, rfl,
                        rfl⟩

/-! ## What a visitor asks for -/

/-- The digits of a number are a port. -/
theorem validPort_digits (port : ℕ) : validPort (ascii (toString port)) = true := by
  refine List.all_eq_true.2 ?_
  intro b hb
  obtain ⟨c, hc, rfl⟩ := List.mem_map.1 hb
  have hdigit : c.isDigit = true := by
    refine Nat.isDigit_of_mem_toDigits (b := 10) (n := port) (by decide) (by decide) ?_
    rw [← Nat.toList_repr]
    exact hc
  have hrange : 48 ≤ c.toNat ∧ c.toNat ≤ 57 := by
    simpa [Char.isDigit, UInt32.le_iff_toNat_le] using hdigit
  simp only [Bool.and_eq_true, decide_eq_true_eq, UInt8.le_iff_toNat_le, UInt8.toNat_ofNat']
  rw [Nat.mod_eq_of_lt (by omega)]
  exact hrange

theorem colon_not_mem_of_validPort {port : List UInt8} (h : validPort port = true) :
    58 ∉ port := by
  intro hmem
  have := List.all_eq_true.1 h 58 hmem
  exact absurd this (by decide)

theorem afterColon_append (host : List UInt8) {port : List UInt8} (hport : 58 ∉ port) :
    afterColon (host ++ 58 :: port) = port := by
  have hrev : (host ++ 58 :: port).reverse = port.reverse ++ 58 :: host.reverse := by simp
  have hport' : 58 ∉ port.reverse := by simpa using hport
  rw [afterColon, hrev, takeWhile_ne_append hport', List.reverse_reverse]

/-- `URL.Hostname` and `URL.Port` of a plain host with a port. -/
theorem splitHostPort_append {host port : List UInt8} (hhost : Plain host)
    (hport : validPort port = true) : splitHostPort (host ++ 58 :: port) = (host, port) := by
  have hafter := afterColon_append host (colon_not_mem_of_validPort hport)
  have htake : (host ++ 58 :: port).take ((host ++ 58 :: port).length - port.length - 1) =
      host := by
    have hlen : (host ++ 58 :: port).length - port.length - 1 = host.length := by
      simp only [List.length_append, List.length_cons]
      omega
    rw [hlen, List.take_left]
  have hcut : (decide (58 ∈ host ++ 58 :: port) && validPort port) = true := by simp [hport]
  simp only [splitHostPort, hafter, hcut, if_true, htake, if_neg hhost.2.2]

/-- The host of the advertised URL, without the port. -/
theorem splitHostPort_serverDomain (hplain : Plain (n ++ 46 :: domain)) (gatewayPort : ℕ) :
    (splitHostPort (n ++ 46 :: serverDomain domain gatewayPort)).1 = n ++ 46 :: domain := by
  by_cases hport : gatewayPort = 443
  · simp [serverDomain, hport, splitHostPort, hplain.2.1, hplain.2.2]
  · have htext : n ++ 46 :: serverDomain domain gatewayPort
        = (n ++ 46 :: domain) ++ 58 :: ascii (toString gatewayPort) := by
      rw [serverDomain, if_pos hport]
      show n ++ 46 :: (domain ++ [58] ++ ascii (toString gatewayPort)) = _
      simp
    rw [htext, splitHostPort_append hplain (validPort_digits gatewayPort)]

/-! ## Back to the client -/

/-- The label and the domain are what `link` sees at the front, whatever follows. -/
theorem destination_link (hn : 46 ∉ n) (peerID : UInt64) (more : List UInt8) (proto : String) :
    (link peerID (n ++ 46 :: more) proto).destination = peerHash n :=
  clientID_below ⟨hn, rfl⟩

/-- **The advertised name leads back.** Let a server with the domain `domain` and a gateway at
    `gatewayPort` accept a client under the name `n`, which has no dot. The client is sent the URL
    with this name. The ID under which it is registered is the destination of the link that every
    gateway makes of the server name `n.domain`, and of the one it makes of the address
    `n.domain:80`. If `n.domain` is a host name, then it is the host of the URL, the address is what
    the proxy dials, and under each protocol the gateway routes a visitor to the client. -/
theorem advertised_name_leads_back (toASCII : List UInt8 → Option (List UInt8)) (hn : 46 ∉ n)
    (gatewayPort : ℕ)
    (h : s.clientNegotiation (serverDomain domain gatewayPort) n acceptable conn wLink wName
      = (sent, .ok (call, rest))) (peerID : UInt64) :
    (∃ reply : Link, reply.source = call.conf.peer ∧ sent = reply.marshalBinary ++
      Json.encode (ascii "Hostname")
        (ascii "https://" ++ n ++ 46 :: serverDomain domain gatewayPort)) ∧
    (link peerID (n ++ 46 :: domain) "raw").destination = call.conf.peer ∧
    (link peerID (n ++ 46 :: domain ++ ascii ":80") "http/1.1").destination = call.conf.peer ∧
    (Plain (n ++ 46 :: domain) →
      (splitHostPort (n ++ 46 :: serverDomain domain gatewayPort)).1 = n ++ 46 :: domain ∧
      canonicalAddr toASCII (n ++ 46 :: domain) = n ++ 46 :: domain ++ ascii ":80" ∧
      ∀ negotiated ∈ gatewayProtos, ∃ l,
        routed toASCII peerID domain (n ++ 46 :: domain) negotiated = some l ∧
          l.destination = call.conf.peer) := by
  obtain ⟨hpeer, reply, hsource, hsent⟩ := clientNegotiation_registers h
  have hraw := destination_link hn peerID domain "raw"
  have hhttp : (link peerID (n ++ 46 :: domain ++ ascii ":80") "http/1.1").destination
      = peerHash n := by
    rw [List.append_assoc, List.cons_append]
    exact destination_link hn peerID _ "http/1.1"
  rw [hpeer]
  refine ⟨⟨reply, hsource, hsent⟩, hraw, hhttp, ?_⟩
  intro hplain
  have haddr : canonicalAddr toASCII (n ++ 46 :: domain) = n ++ 46 :: domain ++ ascii ":80" :=
    canonicalAddr_plain hplain
  refine ⟨splitHostPort_serverDomain hplain gatewayPort, haddr, ?_⟩
  intro negotiated hproto
  have hne : n ++ 46 :: domain ≠ domain := by
    intro heq
    have hlen := congrArg List.length heq
    simp only [List.length_append, List.length_cons] at hlen
    omega
  simp only [gatewayProtos, List.mem_cons, List.not_mem_nil, or_false] at hproto
  rcases hproto with rfl | hproto
  · exact ⟨_, routed_raw hne, hraw⟩
  · refine ⟨_, routed_http hne (by simp) hproto.symm, ?_⟩
    rw [haddr]
    exact hhttp

/-- The name `a-b` at a gateway for `t.e` that listens on port 8443. -/
theorem advertised_name_leads_back_port :
    ∃ (sent : List UInt8) (call : NewPeerCall) (rest : Source UInt8),
      Identity.exampleSelf.clientNegotiation (serverDomain (ascii "t.e") 8443) (ascii "a-b")
        Protocol.tlsProtos Client.proposed ⟨linkSize, none⟩ ⟨31, none⟩ = (sent, .ok (call, rest)) ∧
      (link 7 (ascii "a-b.t.e") "raw").destination = call.conf.peer ∧
      (link 7 (ascii "a-b.t.e:80") "http/1.1").destination = call.conf.peer := by
  have hread : readLink Client.proposed
      = some ((Client.proposal .yamux).marshalBinary, ⟨[], by simp, .late⟩) := rfl
  have haccepts : Identity.exampleSelf.clientNegotiation (serverDomain (ascii "t.e") 8443)
      (ascii "a-b") Protocol.tlsProtos Client.proposed ⟨linkSize, none⟩ ⟨31, none⟩ = _ :=
    Client.clientNegotiation_accepts (by decide) hread 31
  obtain ⟨_, hraw, hhttp, _⟩ := advertised_name_leads_back (fun _ => none)
    (show 46 ∉ ascii "a-b" by decide) 8443 haccepts 7
  exact ⟨_, _, _, haccepts, hraw, hhttp⟩

end Tunnel.Server
