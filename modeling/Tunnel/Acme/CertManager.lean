import Mathlib.Data.List.Infix

set_option autoImplicit false

/-! # The certificate manager (`acme/acme.go`, `acme/errors.go`)

`CertManager` holds the ACME account of a node, the private key of its certificate and the
certificate itself, each under a lock of its own. This module has its operations as the code
computes them. An operation returns the manager it leaves behind together with its result, since
many of them fail after they have changed something.

The cryptography and the encodings of the standard library are parameters with their documented
laws (`Crypto`). What the certificate authority, the DNS provider, the random source and the file
system answer is data of the call (`AccountCreation`, `AccountUpdate`, `CertificateRequest`,
`FileWrite`), so that every pattern of failures is covered. Domain names are byte strings, since
`RequestCertificate` indexes their bytes. -/

namespace Tunnel.Acme

/-! ## Errors -/

/-- The errors of the package: its five variables, one made from a text, and one wrapped by
    `fmt.Errorf("context: %w", err)`. -/
inductive AcmeError
  | noAccount
  | accountExists
  | noPKey
  | pKeyExists
  | noCert
  | other (text : String)
  | wrap (context : String) (err : AcmeError)
deriving DecidableEq

namespace AcmeError

/-- `Error()` -/
def text : AcmeError → String
  | .noAccount => "no account found associated with CertManager"
  | .accountExists => "already have account associated with CertManager"
  | .noPKey => "no private key associated with CertManager"
  | .pKeyExists => "already have private key associated with CertManager"
  | .noCert => "no cert was generated"
  | .other t => t
  | .wrap context err => context ++ ": " ++ err.text

/-- `errors.Is(err, target)`, for a target that is one of the five variables. -/
def is : AcmeError → AcmeError → Bool
  | .wrap _ err, target => err.is target
  | err, target => decide (err = target)

end AcmeError

/-- The runtime panics of the package. -/
inductive AcmePanic
  | nilDereference
  | sliceOutOfRange
deriving DecidableEq

/-- How a call ends when it does not succeed. -/
inductive Fault
  | error (err : AcmeError)
  | panic (p : AcmePanic)
deriving DecidableEq

/-- `fmt.Errorf("context: %w", err)`; a panic is not an error. -/
def Fault.wrap (context : String) : Fault → Fault
  | .error err => .error (.wrap context err)
  | .panic p => .panic p

def Fault.isPanic : Fault → Bool
  | .error _ => false
  | .panic _ => true

/-- A result is a panic. -/
def isPanic {α : Type} : Except Fault α → Bool
  | .error f => f.isPanic
  | .ok _ => false

/-- The error of a library call, wrapped. -/
def failed {α : Type} (context cause : String) : Except Fault α :=
  .error (.error (.wrap context (.other cause)))

/-! ## Keys and certificates -/

/-- `encoding/pem`, `crypto/x509` and `crypto/tls` as far as they are used: private keys `K` and
    `tls.Certificate`s `C`. `certificatePem` is the trimmed PEM text of a certificate. -/
structure Crypto (K C : Type) where
  pemDecode : String → Option (List UInt8)
  pemEncode : List UInt8 → String
  parseECPrivateKey : List UInt8 → Except String K
  marshalECPrivateKey : K → Except String (List UInt8)
  x509KeyPair : String → String → Except String C
  certificatePem : List UInt8 → String
  marshal_ok (k : K) : ∃ der, marshalECPrivateKey k = .ok der
  parse_marshal {k : K} {der : List UInt8} : marshalECPrivateKey k = .ok der →
    pemDecode (pemEncode der) = some der ∧ parseECPrivateKey der = .ok k

variable {K C : Type}

/-- `keyToPEM`; a nil key is dereferenced. -/
def keyToPEM (cr : Crypto K C) : Option K → Except Fault String
  | none => .error (.panic .nilDereference)
  | some k =>
      match cr.marshalECPrivateKey k with
      | .error e => failed "marshalling private key to pem" e
      | .ok der => .ok (cr.pemEncode der)

/-- `pemToKey`; the block is used without a check that there is one. -/
def pemToKey (cr : Crypto K C) (text : String) : Except Fault K :=
  match cr.pemDecode text with
  | none => .error (.panic .nilDereference)
  | some der =>
      match cr.parseECPrivateKey der with
      | .error e => failed "parsing private key from pem" e
      | .ok k => .ok k

/-- Every key has a text, and the text has the key. -/
theorem keyToPEM_some (cr : Crypto K C) (k : K) :
    ∃ text, keyToPEM cr (some k) = .ok text ∧ pemToKey cr text = .ok k := by
  obtain ⟨der, hder⟩ := cr.marshal_ok k
  obtain ⟨hdecode, hparse⟩ := cr.parse_marshal hder
  refine ⟨cr.pemEncode der, ?_, ?_⟩
  · simp [keyToPEM, hder]
  · simp [pemToKey, hdecode, hparse]

/-! ## The manager -/

/-- An `acme.Account`: its key and its URL. -/
structure Account (K : Type) where
  privateKey : Option K
  url : String
deriving DecidableEq

/-- `AccountFile` -/
structure AccountFile where
  privateKey : String
  url : String
deriving DecidableEq

/-- `Bundle` -/
structure Bundle where
  privateKey : String
  chain : List String
deriving DecidableEq

/-- `CertManager`, without its locks, its client and its configuration. -/
structure CertManager (K C : Type) where
  accKey : Option K
  account : Account K
  hasAcc : Bool
  certPKey : Option K
  hasCertPKey : Bool
  hasCert : Bool
  storedCert : Option C
  storedPem : Bundle
deriving DecidableEq

/-- The parts of `Config` that names are computed from. -/
structure NameConfig where
  rootZone : List UInt8
  domain : List UInt8
deriving DecidableEq

namespace CertManager

/-- The manager that `New` returns. -/
def init : CertManager K C where
  accKey := none
  account := ⟨none, ""⟩
  hasAcc := false
  certPKey := none
  hasCertPKey := false
  hasCert := false
  storedCert := none
  storedPem := ⟨"", []⟩

end CertManager

/-! ## Files -/

/-- How `os.Create` and the encoding into the file end. -/
inductive FileWrite
  | done
  | notOpened (cause : String)
  | notWritten (cause : String)
deriving DecidableEq

/-- Write a value as JSON into a file of the data directory. -/
def persist (file : String) : FileWrite → Except Fault Unit
  | .done => .ok ()
  | .notOpened cause => failed ("opening " ++ file ++ " for writing") cause
  | .notWritten cause => failed ("writing to " ++ file) cause

/-- `persistAccount` -/
def persistAccount : FileWrite → Except Fault Unit := persist "accounts.json"

/-- `persisCerts` -/
def persisCerts : FileWrite → Except Fault Unit := persist "bundle.json"

/-! ## Accounts -/

/-- What `CreateAccount` meets: the generated key, the answer of the authority (the URL of the new
    account, or an error together with whatever account the client returns), and the write. -/
structure AccountCreation (K : Type) where
  key : Except String K
  register : Except (String × Account K) String
  persist : FileWrite

/-- `UpdateAccount` of the client: the account with what the authority says about it, or an error
    together with whatever account the client returns. An authority that confirms an account says
    nothing about its private key and its URL (`keeps`). -/
structure UpdateAccount (K : Type) where
  answer : Account K → Except (String × Account K) (Account K)
  keeps {a a' : Account K} : answer a = .ok a' → a' = a

namespace UpdateAccount

/-- The authority knows every account. -/
def known : UpdateAccount K where
  answer := .ok
  keeps h := (Except.ok.inj h).symm

def unknown (cause : String) (account : Account K) : UpdateAccount K where
  answer _ := .error (cause, account)
  keeps h := by cases h

theorem cases (u : UpdateAccount K) (a : Account K) :
    (∃ cause account, u.answer a = .error (cause, account)) ∨ u.answer a = .ok a := by
  cases h : u.answer a with
  | error r => exact Or.inl ⟨r.1, r.2, rfl⟩
  | ok a' => exact Or.inr (by rw [u.keeps h])

end UpdateAccount

/-- What `ImportAccount` meets: the answer of the authority and the write. -/
structure AccountUpdate (K : Type) where
  update : UpdateAccount K
  persist : FileWrite

namespace CertManager

variable (cr : Crypto K C) (c : CertManager K C)

/-- The manager with the account that the authority has under this key and URL. -/
def withAccount (k : K) (url : String) : CertManager K C :=
  { c with accKey := some k, account := ⟨some k, url⟩, hasAcc := true }

/-- `CreateAccount` -/
def createAccount (w : AccountCreation K) : CertManager K C × Except Fault Unit :=
  if c.hasAcc = true then (c, .error (.error .accountExists))
  else match w.key with
    | .error e => ({ c with accKey := none }, failed "generating new account private key" e)
    | .ok k =>
        match w.register with
        | .error (e, account) =>
            ({ c with accKey := some k, account := account }, failed "creating account with CA" e)
        | .ok url =>
            match keyToPEM cr (some k) with
            | .error f => (c.withAccount k url, .error (f.wrap "converting pkey to pem"))
            | .ok _ => (c.withAccount k url, persistAccount w.persist)

/-- `ExportAccount` -/
def exportAccount : Except Fault AccountFile :=
  if c.hasAcc = false then .error (.error .noAccount)
  else match keyToPEM cr c.accKey with
    | .error f => .error (f.wrap "converting pkey to pem")
    | .ok text => .ok ⟨text, c.account.url⟩

/-- `ImportAccount` -/
def importAccount (af : AccountFile) (toFile : Bool) (w : AccountUpdate K) :
    CertManager K C × Except Fault Unit :=
  if c.hasAcc = true then (c, .error (.error .accountExists))
  else match pemToKey cr af.privateKey with
    | .error f => (c, .error (f.wrap "converting pem to pkey"))
    | .ok k =>
        match w.update.answer ⟨some k, af.url⟩ with
        | .error (e, account) => ({ c with account := account }, failed "reloading accounts" e)
        | .ok account =>
            ({ c with account := account, hasAcc := true, accKey := some k },
              if toFile = true then persistAccount w.persist else .ok ())

/-- How the reading of a file ends. -/
inductive FileRead (α : Type)
  | notExist
  | notOpened (cause : String)
  | notDecoded (cause : String)
  | value (a : α)

/-- `LoadAccountFromFile` -/
def loadAccountFromFile (file : FileRead AccountFile) (w : AccountUpdate K) :
    CertManager K C × Except Fault Unit :=
  match file with
  | .notExist => (c, .error (.error .noAccount))
  | .notOpened e => (c, failed "loading accounts.json" e)
  | .notDecoded e => (c, failed "decoding accounts.json" e)
  | .value af => c.importAccount cr af false w

/-! ## Private keys and bundles -/

/-- `ImportPrivateKey`; the result of `pemToKey` is assigned before its error is looked at. -/
def importPrivateKey (text : String) : CertManager K C × Except Fault Unit :=
  if c.hasCertPKey = true then (c, .error (.error .pKeyExists))
  else match pemToKey cr text with
    | .error (.panic p) => (c, .error (.panic p))
    | .error (.error e) =>
        ({ c with certPKey := none }, .error (.error (.wrap "decoding private key from pem" e)))
    | .ok k => ({ c with certPKey := some k }, .ok ())

/-- `ExportPrivateKey` -/
def exportPrivateKey : Except Fault String :=
  if c.hasCertPKey = false then .error (.error .noPKey)
  else match keyToPEM cr c.certPKey with
    | .error f => .error (f.wrap "encoding private key to pem")
    | .ok text => .ok text

/-- What `ImportBundle` does before it takes the locks. -/
def parseBundle (bundle : Bundle) : Except Fault (K × C) :=
  match pemToKey cr bundle.privateKey with
  | .error f => .error (f.wrap "decoding private key")
  | .ok k =>
      match cr.x509KeyPair ("\n".intercalate bundle.chain) bundle.privateKey with
      | .error e => failed "generating x509 key pair" e
      | .ok cert => .ok (k, cert)

/-- What `ImportBundle` assigns under the locks. -/
def installBundle (bundle : Bundle) (k : K) (cert : C) : CertManager K C :=
  { c with
    certPKey := some k
    storedCert := some cert
    storedPem := bundle
    hasCert := true
    hasCertPKey := true }

/-- `ImportBundle` -/
def importBundle (bundle : Bundle) (toFile : Bool) (w : FileWrite) :
    CertManager K C × Except Fault Unit :=
  match parseBundle cr bundle with
  | .error f => (c, .error f)
  | .ok (k, cert) =>
      (c.installBundle bundle k cert, if toFile = true then persisCerts w else .ok ())

/-- `LoadBundleFromFile` -/
def loadBundleFromFile (file : FileRead Bundle) (w : FileWrite) :
    CertManager K C × Except Fault Unit :=
  match file with
  | .notExist => (c, .error (.error .noCert))
  | .notOpened e => (c, failed "loading bundle.json" e)
  | .notDecoded e => (c, failed "decoding bundle.json" e)
  | .value bundle => c.importBundle cr bundle false w

/-- `ExportBundle` -/
def exportBundle : Except Fault Bundle :=
  if c.hasCert = false then .error (.error .noCert) else .ok c.storedPem

/-- `GetCertificatesFunc`; `storedCert` is the zero value until a bundle is installed. -/
def getCertificatesFunc : Except Fault (Option C) :=
  if c.hasCert = false then .error (.error (.other "certificate not yet available"))
  else .ok c.storedCert

end CertManager

/-! ## Requesting a certificate -/

/-- The bytes of an ASCII text. -/
def ascii (s : String) : List UInt8 := s.toList.map (fun c => UInt8.ofNat c.toNat)

/-- `strings.TrimSuffix` -/
def trimSuffix (s suffix : List UInt8) : List UInt8 :=
  if suffix <:+ s then s.take (s.length - suffix.length) else s

/-- The names of a certificate request, and the host of its challenge record. -/
structure RequestNames where
  host : List UInt8
  common : List UInt8
  names : List (List UInt8)
deriving DecidableEq

/-- The computation of the names (acme.go:299-319). A domain whose part before the zone is `*`
    alone makes `apex[2:]` panic. -/
def requestNames (config : NameConfig) : Except Fault RequestNames :=
  match trimSuffix (trimSuffix config.domain config.rootZone) (ascii ".") with
  | [] => .ok ⟨ascii "_acme-challenge", config.rootZone, [config.rootZone]⟩
  | first :: rest =>
      if first = 0x2a then
        match rest with
        | [] => .error (.panic .sliceOutOfRange)
        | _ :: rest' =>
            let common := rest' ++ ascii "." ++ config.rootZone
            .ok ⟨ascii "_acme-challenge" ++ rest, common, [common, config.domain]⟩
      else
        let common := first :: rest ++ ascii "." ++ config.rootZone
        .ok ⟨ascii "_acme-challenge" ++ ascii "." ++ (first :: rest), common, [common]⟩

/-- What one authorization of an order meets: whether it can be fetched and offers a DNS challenge,
    the answer of the DNS provider, and the answer to the challenge. -/
structure Authorization where
  fetch : Except String Bool
  update : Except String Bool
  challenge : Except String Unit

/-- One round of the loop over the authorizations (acme.go:363-399). -/
def Authorization.run (a : Authorization) : Except Fault Unit :=
  match a.fetch with
  | .error e => failed "fetching authoriztion" e
  | .ok false => .error (.error (.other "missing dns challenge"))
  | .ok true =>
      match a.update with
      | .error e => failed "updating dns record" e
      | .ok false => .error (.error (.other "dns update failed"))
      | .ok true =>
          match a.challenge with
          | .error e => failed "updating challenge" e
          | .ok _ => .ok ()

/-- What an order meets: its authorizations, its end, and the certificates in it. -/
structure Order where
  authorizations : Except String (List Authorization)
  finalize : Except String Unit
  certificates : Except String (List (List UInt8))

/-- The order (acme.go:357-409): the certificates that were issued. -/
def Order.run (o : Order) : Except Fault (List (List UInt8)) :=
  match o.authorizations with
  | .error e => failed "creating order" e
  | .ok auths =>
      match auths.forM Authorization.run with
      | .error f => .error f
      | .ok _ =>
          match o.finalize with
          | .error e => failed "finalizing order" e
          | .ok _ =>
              match o.certificates with
              | .error e => failed "fetching certificates" e
              | .ok certs => .ok certs

/-- What `RequestCertificate` meets: the key, should it generate one; its signing request and the
    parsing of that; the order; and the write of the bundle. -/
structure CertificateRequest (K : Type) where
  key : Except String K
  csr : Except String Unit
  parse : Except String Unit
  order : Order
  persist : FileWrite

/-- The signing request made with the key `k`, and its parsing. -/
def CertificateRequest.sign (w : CertificateRequest K) (k : K) : Except Fault K :=
  match w.csr with
  | .error e => failed "generating csr" e
  | .ok _ =>
      match w.parse with
      | .error e => failed "parsing csr" e
      | .ok _ => .ok k

namespace CertManager

variable (cr : Crypto K C) (c : CertManager K C)

/-- The section under `certPKeyMu` (acme.go:321-341), and the checks of the signing request after
    it; the result is the key that signed the request. -/
def prepareKey (w : CertificateRequest K) : CertManager K C × Except Fault K :=
  match c.certPKey with
  | some k => (c, w.sign k)
  | none =>
      match w.key with
      | .error e => ({ c with certPKey := none }, failed "generating certificate private key" e)
      | .ok k => ({ c with certPKey := some k, hasCertPKey := true }, w.sign k)

/-- The export of the key inside `RequestCertificate`. -/
def exportForRequest : Except Fault String :=
  match c.exportPrivateKey cr with
  | .error f => .error (f.wrap "encoding private key to pem")
  | .ok text => .ok text

/-- The bundle of an exported key and the certificates of an order. -/
def bundleOf (pKey : String) (certs : List (List UInt8)) : Bundle :=
  ⟨pKey, certs.map cr.certificatePem⟩

/-- `RequestCertificate` up to its call of `ImportBundle`: the bundle to import. -/
def issue (config : NameConfig) (w : CertificateRequest K) :
    CertManager K C × Except Fault Bundle :=
  if c.hasAcc = false then (c, .error (.error .noAccount))
  else match requestNames config with
    | .error f => (c, .error f)
    | .ok _ =>
        match c.prepareKey w with
        | (c', .error f) => (c', .error f)
        | (c', .ok _) =>
            match c'.exportForRequest cr with
            | .error f => (c', .error f)
            | .ok pKey =>
                match w.order.run with
                | .error f => (c', .error f)
                | .ok certs => (c', .ok (bundleOf cr pKey certs))

/-- `RequestCertificate`, with no other call in between. -/
def requestCertificate (config : NameConfig) (w : CertificateRequest K) :
    CertManager K C × Except Fault Unit :=
  match c.issue cr config w with
  | (c', .error f) => (c', .error f)
  | (c', .ok bundle) =>
      match c'.importBundle cr bundle true w.persist with
      | (c'', .error f) => (c'', .error (f.wrap "re-importing exported certificate"))
      | (c'', .ok _) => (c'', .ok ())

end CertManager

/-! ## An instance -/

/-- Two keys, whose texts are "A" and "B"; their certificates are "CA" and "CB". -/
def twoKeys : Crypto Bool (String × String) where
  pemDecode text := if text = "A" then some [0] else if text = "B" then some [1] else none
  pemEncode der := if der = [0] then "A" else "B"
  parseECPrivateKey der := .ok (decide (der = [1]))
  marshalECPrivateKey k := .ok [if k = true then 1 else 0]
  x509KeyPair chain key :=
    if chain = "CA" ∧ key = "A" ∨ chain = "CB" ∧ key = "B" then .ok (chain, key)
    else .error "private key does not match public key"
  certificatePem raw := if raw = [0] then "CA" else "CB"
  marshal_ok k := ⟨_, rfl⟩
  parse_marshal {k der} h := by
    cases h
    cases k <;> decide

/-- The key `k` is generated if there is none, the authority issues its certificate, and every write
    succeeds. -/
def smoothRequest (k : Bool) : CertificateRequest Bool where
  key := .ok k
  csr := .ok ()
  parse := .ok ()
  order := ⟨.ok [⟨.ok true, .ok true, .ok ()⟩], .ok (), .ok [[if k = true then 1 else 0]]⟩
  persist := .done

/-- The zone `z` and the domain `*.a.z`. -/
def exampleNames : NameConfig := ⟨ascii "z", ascii "*.a.z"⟩

end Tunnel.Acme
