import Tunnel.Gateway.Link
import Tunnel.Acme.Names

set_option autoImplicit false

/-! # Which tunnel a host name leads to (`cmd/server/authz.go`, `gateway/gateway.go`,
`gateway/tunnel_http.go`)

A visitor's connection passes `checkClientSNI` if the host name it asks for ends in the characters
of the domain of the site. `handleConnection` serves the site for the domain itself, and for every
other name makes a link out of what stands before the first dot: at once if the visitor speaks the
raw protocol, and for HTTP when the reverse proxy dials, with the address that `net/http` makes of
the host name.

The two packages share no notion of a label. A name of the form `n.domain` is the one whose tunnel
is reached under `n`; every other name that is accepted is routed as well, to the tunnel of whatever
it begins with (`sni_own_tunnel_iff`, `sni_foreign_names_routed`). -/

namespace Tunnel.Gateway

open Tunnel.Multiplexer
open Tunnel.Acme (ascii hasSuffix)

/-! ## Admission -/

/-- The error of `checkClientSNI` -/
structure Unauthorized where
  serverName : List UInt8
deriving DecidableEq

/-- `Error()` -/
def Unauthorized.text (e : Unauthorized) : List UInt8 :=
  ascii "unauthorized domain name: " ++ e.serverName

/-- `checkClientSNI` -/
def checkClientSNI (domain serverName : List UInt8) : Except Unauthorized Unit :=
  if hasSuffix serverName domain = false then .error ⟨serverName⟩ else .ok ()

theorem checkClientSNI_ok {domain serverName : List UInt8} :
    checkClientSNI domain serverName = .ok () ↔ domain <:+ serverName := by
  simp [checkClientSNI, hasSuffix]

/-! ## The address that the reverse proxy dials -/

/-- `validOptionalPort` of `net/url`, for what stands behind the colon. -/
def validPort (port : List UInt8) : Bool := port.all (fun b => 48 ≤ b && b ≤ 57)

/-- What stands behind the last colon. -/
def afterColon (hostPort : List UInt8) : List UInt8 :=
  (hostPort.reverse.takeWhile (fun b => b ≠ 58)).reverse

/-- A host in square brackets. -/
def Bracketed (host : List UInt8) : Prop := host.head? = some 91 ∧ host.getLast? = some 93

instance (host : List UInt8) : Decidable (Bracketed host) := inferInstanceAs (Decidable (_ ∧ _))

/-- `splitHostPort` of `net/url`, behind `URL.Hostname` and `URL.Port`. -/
def splitHostPort (hostPort : List UInt8) : List UInt8 × List UInt8 :=
  let port := afterColon hostPort
  let cut := decide (58 ∈ hostPort) && validPort port
  let host := if cut then hostPort.take (hostPort.length - port.length - 1) else hostPort
  (if Bracketed host then host.tail.dropLast else host, if cut then port else [])

/-- `net.JoinHostPort` -/
def joinHostPort (host port : List UInt8) : List UInt8 :=
  if 58 ∈ host then ascii "[" ++ host ++ ascii "]:" ++ port else host ++ ascii ":" ++ port

/-- All bytes are ASCII. -/
def isASCII (host : List UInt8) : Bool := host.all (fun b => b < 128)

section Proxy

-- `idna.Lookup.ToASCII`; `none` is an error
variable (toASCII : List UInt8 → Option (List UInt8))

/-- `canonicalAddr` of `net/http` for a URL of scheme `http`. -/
def canonicalAddr (host : List UInt8) : List UInt8 :=
  let (hostname, port) := splitHostPort host
  let addr := if isASCII hostname then hostname else (toASCII hostname).getD hostname
  joinHostPort addr (if port = [] then ascii "80" else port)

/-- The link for which the transport of `httpHandler` asks when a request arrives. The director sets
    the host of the request to the server name, and a request without a host is not sent. -/
def httpHandler (peerID : UInt64) (serverName : List UInt8) : Option Link :=
  if serverName = [] then none else some (link peerID (canonicalAddr toASCII serverName) "http/1.1")

/-! ## Routing -/

/-- Where `handleConnection` hands a connection to. -/
inductive Served where
  | apex
  | httpTunnel
  | forward (l : Link)
  | closed
deriving DecidableEq

/-- `Gateway.handleConnection` -/
def handleConnection (peerID : UInt64) (rootDomain serverName : List UInt8) (negotiated : String) :
    Served :=
  if serverName = rootDomain then .apex
  else if negotiated = "" ∨ negotiated = "http/1.1" then .httpTunnel
  else if negotiated = "raw" then .forward (link peerID serverName negotiated)
  else .closed

/-- The link under which a connection, or the requests on it, are routed to a client. -/
def routed (peerID : UInt64) (rootDomain serverName : List UInt8) (negotiated : String) :
    Option Link :=
  match handleConnection peerID rootDomain serverName negotiated with
  | .apex | .closed => none
  | .httpTunnel => httpHandler toASCII peerID serverName
  | .forward l => some l

/-- The protocols that `alpnMux` leaves to the gateway. -/
def gatewayProtos : List String := ["raw", "http/1.1", ""]

/-- `serverName` is the label `n` in front of the domain. -/
def Below (domain n serverName : List UInt8) : Prop := 46 ∉ n ∧ serverName = n ++ 46 :: domain

/-- The site is served for the domain, and every other name that is routed is that of the tunnel it
    is routed to. -/
def OwnTunnel (peerID : UInt64) (domain serverName : List UInt8) (negotiated : String) : Prop :=
  (handleConnection peerID domain serverName negotiated = .apex ↔ serverName = domain) ∧
    ∀ l, routed toASCII peerID domain serverName negotiated = some l →
      ∃ n, Below domain n serverName ∧ l.destination = peerHash n

/-- What stands before the first dot. -/
def firstLabel (host : List UInt8) : List UInt8 := host.takeWhile (fun b => b ≠ 46)

/-- A host name as DNS has them: ASCII, without a port and without brackets. -/
def Plain (host : List UInt8) : Prop := isASCII host = true ∧ 58 ∉ host ∧ ¬ Bracketed host

instance (host : List UInt8) : Decidable (Plain host) := inferInstanceAs (Decidable (_ ∧ _ ∧ _))

variable {toASCII} {peerID : UInt64} {domain serverName n : List UInt8} {negotiated : String}

theorem takeWhile_ne_append {a : UInt8} {u : List UInt8} (h : a ∉ u) (v : List UInt8) :
    (u ++ a :: v).takeWhile (fun b => b ≠ a) = u := by
  have hu : ∀ b ∈ u, decide (b ≠ a) = true := by
    intro b hb
    exact decide_eq_true (fun heq => h (heq ▸ hb))
  rw [List.takeWhile_append_of_pos hu, List.takeWhile_cons_of_neg (by simp), List.append_nil]

/-- `link` hashes the first label. -/
theorem clientID_eq (host : List UInt8) : clientID host = peerHash (firstLabel host) := rfl

theorem firstLabel_below (h : Below domain n serverName) : firstLabel serverName = n := by
  rw [firstLabel, h.2, takeWhile_ne_append h.1]

/-- The label in front of the domain is what `link` hashes. -/
theorem clientID_below (h : Below domain n serverName) : clientID serverName = peerHash n := by
  rw [clientID_eq, firstLabel_below h]

/-- The proxy dials a plain host at port 80. -/
theorem canonicalAddr_plain (h : Plain serverName) :
    canonicalAddr toASCII serverName = serverName ++ ascii ":80" := by
  obtain ⟨hascii, hcolon, hbracket⟩ := h
  have hsplit : splitHostPort serverName = (serverName, []) := by
    simp [splitHostPort, hcolon, hbracket]
  have hport : ascii ":80" = ascii ":" ++ ascii "80" := rfl
  simp only [canonicalAddr, hsplit, hascii, if_true, joinHostPort, if_neg hcolon, hport,
    List.append_assoc]

theorem firstLabel_canonicalAddr_plain (h : Plain serverName) (hn : Below domain n serverName) :
    firstLabel (canonicalAddr toASCII serverName) = n := by
  rw [canonicalAddr_plain h, firstLabel, hn.2, List.append_assoc, List.cons_append,
    takeWhile_ne_append hn.1]

theorem handleConnection_eq_apex :
    handleConnection peerID domain serverName negotiated = .apex ↔ serverName = domain := by
  unfold handleConnection
  split
  · next h => simp [h]
  · next h =>
      refine iff_of_false ?_ h
      split
      · simp
      · split <;> simp

theorem routed_domain : routed toASCII peerID domain domain negotiated = none := by
  simp [routed, handleConnection]

theorem routed_raw (h : serverName ≠ domain) :
    routed toASCII peerID domain serverName "raw" = some (link peerID serverName "raw") := by
  simp [routed, handleConnection, h]

theorem routed_http (h : serverName ≠ domain) (hne : serverName ≠ [])
    (hproto : negotiated = "" ∨ negotiated = "http/1.1") :
    routed toASCII peerID domain serverName negotiated
      = some (link peerID (canonicalAddr toASCII serverName) "http/1.1") := by
  simp [routed, handleConnection, h, hproto, httpHandler, hne]

/-- A link that is built has the server name hashed, or the address made of it. -/
theorem destination_of_routed {l : Link}
    (h : routed toASCII peerID domain serverName negotiated = some l) :
    l.destination = clientID serverName ∨
      l.destination = clientID (canonicalAddr toASCII serverName) := by
  unfold routed at h
  split at h
  · cases h
  · cases h
  · simp only [httpHandler, Option.ite_none_left_eq_some, Option.some.injEq] at h
    exact Or.inr (h.2 ▸ rfl)
  · next hserved =>
      cases h
      unfold handleConnection at hserved
      split at hserved
      · cases hserved
      · split at hserved
        · cases hserved
        · split at hserved
          · exact Or.inl (Served.forward.inj hserved ▸ rfl)
          · cases hserved

/-- Only an empty domain accepts an empty name. -/
theorem ne_nil_of_accepted (haccept : checkClientSNI domain serverName = .ok ())
    (hne : serverName ≠ domain) : serverName ≠ [] := by
  rintro rfl
  exact hne (List.suffix_nil.1 (checkClientSNI_ok.1 haccept)).symm

/-- Whatever is accepted and not the domain is routed, under each protocol of the gateway. -/
theorem routed_isSome (haccept : checkClientSNI domain serverName = .ok ())
    (hne : serverName ≠ domain) (hproto : negotiated ∈ gatewayProtos) :
    (routed toASCII peerID domain serverName negotiated).isSome = true := by
  simp only [gatewayProtos, List.mem_cons, List.not_mem_nil, or_false] at hproto
  rcases hproto with rfl | hproto
  · rw [routed_raw hne]
    rfl
  · rw [routed_http hne (ne_nil_of_accepted haccept hne) hproto.symm]
    rfl

variable (toASCII peerID)

/-- Whether an accepted name leads to its own tunnel is decided by the address that the proxy
    dials. -/
theorem ownTunnel_iff (haccept : checkClientSNI domain serverName = .ok ()) :
    (∀ negotiated, OwnTunnel toASCII peerID domain serverName negotiated) ↔
      serverName = domain ∨ ∃ n, Below domain n serverName ∧
        clientID (canonicalAddr toASCII serverName) = peerHash n := by
  constructor
  · intro hown
    by_cases hdomain : serverName = domain
    · exact Or.inl hdomain
    · -- what the proxy dials decides: the raw protocol hashes the name as it is
      have hdial : routed toASCII peerID domain serverName "http/1.1"
          = some (link peerID (canonicalAddr toASCII serverName) "http/1.1") :=
        routed_http hdomain (ne_nil_of_accepted haccept hdomain) (Or.inr rfl)
      obtain ⟨n, hbelow, hdest⟩ := (hown "http/1.1").2 _ hdial
      exact Or.inr ⟨n, hbelow, hdest⟩
  · rintro hname negotiated
    refine ⟨handleConnection_eq_apex, fun l hl => ?_⟩
    rcases hname with rfl | ⟨n, hbelow, haddr⟩
    · rw [routed_domain] at hl
      cases hl
    · refine ⟨n, hbelow, ?_⟩
      rcases destination_of_routed hl with hdest | hdest
      · rw [hdest, clientID_below hbelow]
      · rw [hdest, haddr]

/-- **Which names lead to their own tunnel.** A name that `checkClientSNI` accepts leads nowhere but
    to the site or to the tunnel of its own label, whatever protocol is negotiated, exactly if it is
    the domain, or one label in front of the domain which hashes like the first label of the address
    that the proxy dials. It does if that is the same label, and only then unless `PeerHash`
    confuses the two; for names without port, brackets and non-ASCII bytes it always is. All other
    names that are accepted are routed too. -/
theorem sni_own_tunnel_iff (haccept : checkClientSNI domain serverName = .ok ()) :
    ((∀ negotiated, OwnTunnel toASCII peerID domain serverName negotiated) ↔
      serverName = domain ∨ ∃ n, Below domain n serverName ∧
        clientID (canonicalAddr toASCII serverName) = peerHash n) ∧
    (Below domain (firstLabel (canonicalAddr toASCII serverName)) serverName →
      ∀ negotiated, OwnTunnel toASCII peerID domain serverName negotiated) ∧
    ((∀ n, Below domain n serverName →
        peerHash (firstLabel (canonicalAddr toASCII serverName)) = peerHash n →
          firstLabel (canonicalAddr toASCII serverName) = n) →
      ((∀ negotiated, OwnTunnel toASCII peerID domain serverName negotiated) ↔
        serverName = domain ∨
          Below domain (firstLabel (canonicalAddr toASCII serverName)) serverName)) ∧
    (Plain serverName →
      ((∀ negotiated, OwnTunnel toASCII peerID domain serverName negotiated) ↔
        serverName = domain ∨ ∃ n, Below domain n serverName)) ∧
    (serverName ≠ domain → ∀ negotiated ∈ gatewayProtos,
      (routed toASCII peerID domain serverName negotiated).isSome = true) := by
  have hiff := ownTunnel_iff toASCII peerID haccept
  refine ⟨hiff, fun hlabel => hiff.2 (Or.inr ⟨_, hlabel, rfl⟩), fun hhash => ?_, fun hplain => ?_,
    fun hne negotiated hproto => routed_isSome haccept hne hproto⟩
  · rw [hiff]
    refine or_congr_right ⟨?_, fun hlabel => ⟨_, hlabel, rfl⟩⟩
    rintro ⟨n, hbelow, haddr⟩
    rwa [hhash n hbelow haddr]
  · rw [hiff]
    refine or_congr_right ⟨fun ⟨n, hbelow, _⟩ => ⟨n, hbelow⟩, ?_⟩
    rintro ⟨n, hbelow⟩
    exact ⟨n, hbelow, by rw [clientID_eq, firstLabel_canonicalAddr_plain hplain hbelow]⟩

end Proxy

/-- The tunnel `a` of the domain `t.e`. -/
theorem sni_own_tunnel_iff_label :
    checkClientSNI (ascii "t.e") (ascii "a.t.e") = .ok () ∧ Plain (ascii "a.t.e") ∧
      ∀ negotiated, OwnTunnel (fun _ => none) 7 (ascii "t.e") (ascii "a.t.e") negotiated := by
  have haccept : checkClientSNI (ascii "t.e") (ascii "a.t.e") = .ok () := by decide
  have hplain : Plain (ascii "a.t.e") := by decide
  have hbelow : Below (ascii "t.e") (ascii "a") (ascii "a.t.e") := by
    exact ⟨by decide, by decide⟩
  exact ⟨haccept, hplain,
    ((sni_own_tunnel_iff (fun _ => none) 7 haccept).2.2.2.1 hplain).2 (Or.inr ⟨_, hbelow⟩)⟩

/-- `xt.e` only ends in the characters of `t.e`, and `a.b.t.e` has a label in between. Both are
    accepted, neither is a label in front of the domain, and visitors of both reach a client: that
    of `xt` and that of `a`. -/
theorem sni_foreign_names_routed :
    (checkClientSNI (ascii "t.e") (ascii "xt.e") = .ok () ∧
      (∀ n, ¬ Below (ascii "t.e") n (ascii "xt.e")) ∧
      ∀ negotiated ∈ gatewayProtos, ∃ l,
        routed (fun _ => none) 7 (ascii "t.e") (ascii "xt.e") negotiated = some l ∧
          l.destination = peerHash (ascii "xt")) ∧
    checkClientSNI (ascii "t.e") (ascii "a.b.t.e") = .ok () ∧
      (∀ n, ¬ Below (ascii "t.e") n (ascii "a.b.t.e")) ∧
      ∀ negotiated ∈ gatewayProtos, ∃ l,
        routed (fun _ => none) 7 (ascii "t.e") (ascii "a.b.t.e") negotiated = some l ∧
          l.destination = peerHash (ascii "a") := by
  have hdrop : ∀ {n serverName : List UInt8}, Below (ascii "t.e") n serverName →
      n = serverName.take (serverName.length - 4) := by
    rintro n serverName ⟨_, rfl⟩
    have hlen : (n ++ 46 :: ascii "t.e").length - 4 = n.length := by
      simp [show (ascii "t.e").length = 3 from rfl]
    rw [hlen, List.take_left]
  refine ⟨⟨by decide, fun n hn => ?_, ?_⟩, by decide, fun n hn => ?_, ?_⟩
  · have hnil : n = [] := hdrop hn
    exact absurd hn.2 (by rw [hnil]; decide)
  · intro negotiated hproto
    simp only [gatewayProtos, List.mem_cons, List.not_mem_nil, or_false] at hproto
    rcases hproto with rfl | rfl | rfl <;> exact ⟨_, rfl, rfl⟩
  · have hlabels : n = ascii "a.b" := hdrop hn
    exact absurd hn.1 (by rw [hlabels]; decide)
  · intro negotiated hproto
    simp only [gatewayProtos, List.mem_cons, List.not_mem_nil, or_false] at hproto
    rcases hproto with rfl | rfl | rfl <;> exact ⟨_, rfl, rfl⟩

end Tunnel.Gateway
