import Tunnel.Acme.CertManager
import Tunnel.Lib.Machine

set_option autoImplicit false

/-! # The ACME checks of the leader (`server/leader.go`)

Every 15 seconds the leader runs `checkACMEAccountKeys` and `checkACMECerts`. The first creates an
account if there is none, the second requests a certificate if there is none or if it expires within
30 days; what is new is announced to the other nodes.

Both checks are functions of the leader's state and of what they meet outside: the files, the
authority, the DNS provider and the clock. Of what they log, the errors of the second are kept,
along with the requests that it makes (`CertsEvent`). Beside the certificate manager and the
announcements, the state says of the account and of the bundle whether the leader made it itself and
owes its announcement (`Standing`); no check reads that. -/

namespace Tunnel.Server

open Tunnel.Lib Tunnel.Acme

/-- The parts of an `x509.Certificate` that the check reads; times are in nanoseconds. -/
structure Leaf where
  dnsNames : List (List UInt8)
  notAfter : ℤ
deriving DecidableEq

/-- `tls.Certificate.Certificate` and `x509.ParseCertificate`. -/
structure Certificates (C : Type) where
  chain : C → List (List UInt8)
  parseCertificate : List UInt8 → Except String Leaf

/-- What a leader is configured with: the cryptography, the names of its certificates, and
    `s.config.Domain`. -/
structure AcmeConfig (K C : Type) where
  crypto : Crypto K C
  x509 : Certificates C
  names : NameConfig
  domain : List UInt8

/-- What is known of an account or a bundle that the leader holds: it did not make it; it made it
    and owes its announcement; or it has announced it. -/
inductive Standing
  | notOwn
  | owed
  | announced
deriving DecidableEq

/-- The state of a leader between two checks: its certificate manager, what it passed to `Announce`,
    and the standing of what it holds. -/
structure AcmeLeader (K C : Type) where
  certs : CertManager K C
  accounts : List AccountFile
  bundles : List Bundle
  account : Standing
  bundle : Standing
  crashed : Bool

/-- What `checkACMEAccountKeys` meets outside. -/
structure AccountCheck (K : Type) where
  file : CertManager.FileRead AccountFile
  update : AccountUpdate K
  create : AccountCreation K

/-- What `checkACMECerts` meets outside: the request for a missing certificate, the time, and the
    request for a renewal. -/
structure CertsCheck (K : Type) where
  first : CertificateRequest K
  now : ℤ
  second : CertificateRequest K

/-- What a run of `checkACMECerts` logs as an error, the certificates it requests, and a panic that
    ends it. -/
inductive CertsEvent
  | error (msg : String)
  | request
  | panic
deriving DecidableEq

namespace AcmeLeader

variable {K C : Type}

/-! ## `checkACMEAccountKeys` -/

/-- Export the account and announce it (leader.go:92-105). Its JSON encoding cannot fail. -/
def announceAccount (cfg : AcmeConfig K C) (s : AcmeLeader K C) : AcmeLeader K C :=
  match s.certs.exportAccount cfg.crypto with
  | .error f => { s with crashed := f.isPanic }
  | .ok af => { s with accounts := s.accounts ++ [af], account := .announced }

/-- `CreateAccount`; an account that is there only afterwards is owed. -/
def create (cfg : AcmeConfig K C) (s : AcmeLeader K C) (w : AccountCreation K) :
    AcmeLeader K C × Except Fault Unit :=
  let next := s.certs.createAccount cfg.crypto w
  ({ s with
      certs := next.1
      account := if s.certs.hasAcc = false ∧ next.1.hasAcc = true then .owed else s.account
      crashed := isPanic next.2 }, next.2)

/-- `checkACMEAccountKeys` (leader.go:78-107). Only `ErrNoAccount` from the file leads to a new
    account; after any other result of the file the account is exported. -/
def checkACMEAccountKeys (cfg : AcmeConfig K C) (s : AcmeLeader K C) (w : AccountCheck K) :
    AcmeLeader K C :=
  match s.certs.exportAccount cfg.crypto with
  | .ok _ => s
  | .error (.panic _) => { s with crashed := true }
  | .error (.error err) =>
      if err.is .noAccount = true then
        match s.certs.loadAccountFromFile cfg.crypto w.file w.update with
        | (c, .error (.panic _)) => { s with certs := c, crashed := true }
        | (c, .ok _) => announceAccount cfg { s with certs := c }
        | (c, .error (.error err')) =>
            if err'.is .noAccount = true then
              match create cfg { s with certs := c } w.create with
              | (s', .error _) => s'
              | (s', .ok _) => announceAccount cfg s'
            else announceAccount cfg { s with certs := c }
      else s

/-! ## `checkACMECerts` -/

/-- The loop over the chain (leader.go:134-148): the last certificate with a name that the domain
    contains. -/
def findLeaf (x509 : Certificates C) (domain : List UInt8) :
    List (List UInt8) → Option Leaf → Except String (Option Leaf)
  | [], leaf => .ok leaf
  | raw :: rest, leaf =>
      match x509.parseCertificate raw with
      | .error e => .error e
      | .ok x =>
          findLeaf x509 domain rest
            (if x.dnsNames.any (fun name => decide (name <:+: domain)) = true then some x else leaf)

/-- `time.Hour*24*30` -/
def thirtyDays : ℤ := 30 * 24 * 3600 * 1000000000

/-- Whether a chain is due for renewal (leader.go:134-155), or the error that ends the check: one of
    its certificates cannot be parsed, or none is for the domain. -/
def chainDue (cfg : AcmeConfig K C) (cert : Option C) (now : ℤ) : Except String Bool :=
  match findLeaf cfg.x509 cfg.domain ((cert.map cfg.x509.chain).getD []) none with
  | .error _ => .error "leader: parsing certificate"
  | .ok none => .error "leader: no cert containing our domain was found"
  | .ok (some leaf) => .ok (decide (leaf.notAfter - now < thirtyDays))

/-- Whether the chain that the leader holds is (leader.go:129-155). -/
def due (cfg : AcmeConfig K C) (s : AcmeLeader K C) (now : ℤ) : Except String Bool :=
  match s.certs.getCertificatesFunc with
  | .error _ => .error "leader: getCertficates returned error when exporting was successful"
  | .ok cert => chainDue cfg cert now

/-- What a request hands to `installBundle`: the pair made of its key and the chain that the
    authority issued. -/
def issued (cfg : AcmeConfig K C) (s : AcmeLeader K C) (w : CertificateRequest K) : Option C :=
  match (s.certs.issue cfg.crypto cfg.names w).2 with
  | .error _ => none
  | .ok bundle =>
      match CertManager.parseBundle cfg.crypto bundle with
      | .error _ => none
      | .ok (_, cert) => some cert

/-- A request gets as far as `installBundle`. -/
def installs (cfg : AcmeConfig K C) (s : AcmeLeader K C) (w : CertificateRequest K) : Bool :=
  (issued cfg s w).isSome

/-- `RequestCertificate`; a bundle that it installs is owed. -/
def request (cfg : AcmeConfig K C) (s : AcmeLeader K C) (w : CertificateRequest K) :
    AcmeLeader K C × Except Fault Unit :=
  let next := s.certs.requestCertificate cfg.crypto cfg.names w
  ({ s with
      certs := next.1
      bundle := if installs cfg s w = true then .owed else s.bundle
      crashed := isPanic next.2 }, next.2)

def announceBundle (s : AcmeLeader K C) (b : Bundle) : AcmeLeader K C :=
  { s with bundles := s.bundles ++ [b], bundle := .announced }

/-- How a failed request shows. -/
def requestFailed (msg : String) : Fault → List CertsEvent
  | .error _ => [.error msg]
  | .panic _ => [.panic]

/-- The check from `GetCertificatesFunc` on (leader.go:129-179): the state that it leaves, and what
    it does to be seen. -/
def renew (cfg : AcmeConfig K C) (s : AcmeLeader K C) (b : Bundle) (renewed : Bool)
    (w : CertsCheck K) : AcmeLeader K C × List CertsEvent :=
  match due cfg s w.now with
  | .error msg => (s, [.error msg])
  | .ok false => (if renewed = true then s.announceBundle b else s, [])
  | .ok true =>
      match request cfg s w.second with
      | (s', .error f) => (s', .request :: requestFailed "leader: unable to renew certificate" f)
      | (s', .ok _) =>
          match s'.certs.exportBundle with
          | .error _ =>
              (s', [.request, .error "leader: exporting bundle failed when renewal was successful"])
          | .ok b' => (s'.announceBundle b', [.request])

/-- A run of `checkACMECerts` (leader.go:109-180). -/
def runCertsCheck (cfg : AcmeConfig K C) (s : AcmeLeader K C) (w : CertsCheck K) :
    AcmeLeader K C × List CertsEvent :=
  match s.certs.exportBundle with
  | .ok b => renew cfg s b false w
  | .error (.panic _) => ({ s with crashed := true }, [.panic])
  | .error (.error err) =>
      if err.is .noCert = true then
        match request cfg s w.first with
        | (s', .error f) => (s', .request :: requestFailed "leader: requesting acme cert" f)
        | (s', .ok _) =>
            match s'.certs.exportBundle with
            | .error _ => (s', [.request, .error "leader: exporting acme cert"])
            | .ok b => ((renew cfg s' b true w).1, .request :: (renew cfg s' b true w).2)
      else (s, [.error "leader: exporting acme cert"])

/-- `checkACMECerts` -/
def checkACMECerts (cfg : AcmeConfig K C) (s : AcmeLeader K C) (w : CertsCheck K) :
    AcmeLeader K C := (runCertsCheck cfg s w).1

/-- What `checkACMECerts` does to be seen. -/
def certsEvents (cfg : AcmeConfig K C) (s : AcmeLeader K C) (w : CertsCheck K) : List CertsEvent :=
  (runCertsCheck cfg s w).2

/-! ## Runs of checks -/

/-- One run of a check, with what it meets outside. -/
inductive Action (K : Type)
  | accountKeys (w : AccountCheck K)
  | certs (w : CertsCheck K)

def step (cfg : AcmeConfig K C) (s : AcmeLeader K C) (a : Action K) : Option (AcmeLeader K C) :=
  if s.crashed = true then none
  else match a with
    | .accountKeys w => some (checkACMEAccountKeys cfg s w)
    | .certs w => some (checkACMECerts cfg s w)

/-- A leader that begins with whatever it got from others, and has made nothing itself. -/
def machine (cfg : AcmeConfig K C) : Machine (AcmeLeader K C) (Action K) where
  Init s := s.account = .notOwn ∧ s.bundle = .notOwn ∧ s.accounts = [] ∧ s.bundles = [] ∧
    s.crashed = false
  step := step cfg

end AcmeLeader

end Tunnel.Server
