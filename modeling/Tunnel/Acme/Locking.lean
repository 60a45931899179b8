import Mathlib.Algebra.Group.Action.Defs
import Mathlib.Algebra.Order.BigOperators.Group.List
import Mathlib.Algebra.Order.Group.Nat
import Tunnel.Acme.CertManager
import Tunnel.Lib.RWMutex

set_option autoImplicit false

/-! # The locks of the certificate manager (`acme/acme.go`)

`CertManager` has three read-write locks, and its operations are called from the leader's checks,
from the messages of other nodes, from the gossip layer and from every TLS handshake. Here every
assignment, every file operation and every lock operation of the source is a step of its own, in any
interleaving of any number of calls.

The locks are always taken in the order `accMu`, `certPKeyMu`, `certMu`, and never twice by one
call: `RequestCertificate` holds `accMu` for reading from its first to its last line, but gives
`certPKeyMu` back before it calls `ExportPrivateKey` and `ImportBundle`, which take it themselves
(`discipline`). So no set of calls can block one another, although a reader that comes behind a
waiting writer waits as well (`calls_return`). -/

namespace Tunnel.Acme

open Tunnel.Lib

/-! ## Program points -/

inductive Mutex
  | accMu
  | certPKeyMu
  | certMu
deriving DecidableEq

/-- Who called `ExportPrivateKey` or `ImportBundle`: another part of the program, or
    `RequestCertificate`, with the key that signed its request. -/
inductive Caller (K : Type)
  | outside
  | request (signer : K)

/-- What `ImportBundle` has in its hands once it has parsed the bundle. -/
structure Install (K C : Type) where
  bundle : Bundle
  toFile : Bool
  pKey : K
  cert : C

/-- What a call returned. A handshake that was given a certificate reads its chain and, later, its
    key, both through the pointer that it was given. -/
inductive Outcome (C : Type)
  | done (r : Except AcmeError Unit)
  | account (r : Except AcmeError AccountFile)
  | pKey (r : Except AcmeError String)
  | bundle (r : Except AcmeError Bundle)
  | certificate (r : Except AcmeError (Option C × Option C))

/-- The program points, each named after what comes next. -/
inductive Point (K C : Type)
  -- `CreateAccount`
  | createAccount
  | createKey
  | createRegister
  | createFlag
  | createPem
  -- `LoadAccountFromFile` and `ImportAccount`
  | loadAccountFromFile
  | importAccount (af : AccountFile) (toFile : Bool)
  | importAccountUpdate (af : AccountFile) (toFile : Bool)
  | importAccountFlag (af : AccountFile) (toFile : Bool) (k : K)
  | importAccountKey (af : AccountFile) (toFile : Bool) (k : K)
  -- `persistAccount`, and the end of both
  | createAccountFile (af : AccountFile)
  | writeAccountFile (af : AccountFile)
  | accountDone (r : Except AcmeError Unit)
  -- `ExportAccount`
  | exportAccount
  | exportAccountKey
  | exportAccountURL (text : String)
  | exportAccountDone (r : Except AcmeError AccountFile)
  -- `ImportPrivateKey`
  | importPrivateKey (text : String)
  | importPrivateKeySet (text : String)
  | importPrivateKeyDone (r : Except AcmeError Unit)
  -- `ExportPrivateKey`
  | exportPrivateKey (caller : Caller K)
  | exportPrivateKeyPem (caller : Caller K)
  | exportPrivateKeyDone (caller : Caller K) (r : Except AcmeError String)
  -- `ImportBundle`
  | importBundle (caller : Caller K) (bundle : Bundle) (toFile : Bool)
  | lockCertPKey (caller : Caller K) (j : Install K C)
  | lockCert (caller : Caller K) (j : Install K C)
  | setCertPKey (caller : Caller K) (j : Install K C)
  | setStoredCert (caller : Caller K) (j : Install K C)
  | setStoredPem (caller : Caller K) (j : Install K C)
  | setHasCert (caller : Caller K) (j : Install K C)
  | setHasCertPKey (caller : Caller K) (j : Install K C)
  -- `persisCerts`, and the end of `ImportBundle`
  | createBundleFile (caller : Caller K) (bundle : Bundle)
  | writeBundleFile (caller : Caller K) (bundle : Bundle)
  | unlockCert (caller : Caller K) (r : Except AcmeError Unit)
  | unlockCertPKey (caller : Caller K) (r : Except AcmeError Unit)
  -- `ExportBundle`
  | exportBundle
  | exportBundleKey
  | exportBundleChain (privateKey : String)
  | exportBundleDone (r : Except AcmeError Bundle)
  -- `GetCertificatesFunc`, and the handshake it is called from
  | getCertificatesFunc
  | getCertificatesCheck
  | getCertificatesDone (r : Except AcmeError Unit)
  | handshakeChain
  | handshakeKey (chain : Option C)
  -- `RequestCertificate`
  | requestCertificate
  | requestCheck
  | requestLock
  | requestKey
  | requestFlag
  | requestSign
  | requestUnlock (r : Except AcmeError K)
  | requestParse (signer : K)
  | requestOrder (signer : K) (pKey : String)
  | requestDone (r : Except AcmeError Unit)
  | returned (r : Outcome C)

/-! ## The surroundings -/

/-- A JSON file: not there; its text ends too early; a whole value. -/
inductive JsonFile (α : Type)
  | missing
  | torn
  | whole (a : α)
deriving DecidableEq

/-- `os.Open` and the decoding of a file. -/
def JsonFile.read {α : Type} (file : JsonFile α) (opened : Except String Unit) :
    CertManager.FileRead α :=
  match file, opened with
  | .missing, _ => .notExist
  | .torn, .error cause | .whole _, .error cause => .notOpened cause
  | .torn, .ok _ => .notDecoded "unexpected EOF"
  | .whole a, .ok _ => .value a

/-- The manager and its data directory. -/
structure Store (K C : Type) where
  certs : CertManager K C
  accounts : JsonFile AccountFile
  bundle : JsonFile Bundle

/-- How the encoding into a file ends; a write that failed may have left out no more than the line
    break at the end. -/
inductive Encoded
  | done
  | failed (cause : String) (decodable : Bool)

def Encoded.file {α : Type} (a : α) : Encoded → JsonFile α
  | .done | .failed _ true => .whole a
  | .failed _ false => .torn

/-- What an instruction meets outside: the random source, the authority, the file system. -/
structure Outside (K : Type) where
  key : Except String K
  register : Except (String × Account K) String
  update : UpdateAccount K
  csr : Except String Unit
  parse : Except String Unit
  order : Order
  opened : Except String Unit
  encoded : Encoded

/-! ## The instructions -/

variable {K C : Type}

/-- `fmt.Errorf("context: %w", err)` around the error of a library call. -/
def wrapped {α : Type} (context cause : String) : Except AcmeError α :=
  .error (.wrap context (.other cause))

/-- An error leads to `next`; a panic leads nowhere. -/
def Fault.recover {α : Type} (f : Fault) (next : AcmeError → α) : Option α :=
  match f with
  | .error err => some (next err)
  | .panic _ => none

theorem forall_mem_some {α : Type} {P : α → Prop} {a : α} (h : P a) : ∀ x ∈ some a, P x := by
  simpa using h

theorem forall_mem_recover {α : Type} {P : α → Prop} {f : Fault} {next : AcmeError → α}
    (h : ∀ err, P (next err)) : ∀ x ∈ f.recover next, P x := by
  cases f with
  | error err => simpa [Fault.recover] using h err
  | panic p => simp [Fault.recover]

namespace Caller

/-- Where `ExportPrivateKey` returns to. -/
def exported : Caller K → Except AcmeError String → Point K C
  | .outside, r => .returned (.pKey r)
  | .request _, .error err => .requestDone (.error (.wrap "encoding private key to pem" err))
  | .request signer, .ok text => .requestOrder signer text

/-- Where `ImportBundle` returns to. -/
def imported : Caller K → Except AcmeError Unit → Point K C
  | .outside, r => .returned (.done r)
  | .request _, r => .requestDone (r.mapError (.wrap "re-importing exported certificate"))

end Caller

namespace Point

/-- The lock operations, and everything else. -/
def instr : Point K C → Instr Mutex (Point K C)
  | createAccount => .acquire .accMu .write createKey
  | importAccount af toFile => .acquire .accMu .write (importAccountUpdate af toFile)
  | accountDone r => .release .accMu .write (returned (.done r))
  | exportAccount => .acquire .accMu .read exportAccountKey
  | exportAccountDone r => .release .accMu .read (returned (.account r))
  | importPrivateKey text => .acquire .certPKeyMu .write (importPrivateKeySet text)
  | importPrivateKeyDone r => .release .certPKeyMu .write (returned (.done r))
  | exportPrivateKey caller => .acquire .certPKeyMu .read (exportPrivateKeyPem caller)
  | exportPrivateKeyDone caller r => .release .certPKeyMu .read (caller.exported r)
  | lockCertPKey caller j => .acquire .certPKeyMu .write (lockCert caller j)
  | lockCert caller j => .acquire .certMu .write (setCertPKey caller j)
  | unlockCert caller r => .release .certMu .write (unlockCertPKey caller r)
  | unlockCertPKey caller r => .release .certPKeyMu .write (caller.imported r)
  | exportBundle => .acquire .certMu .read exportBundleKey
  | exportBundleDone r => .release .certMu .read (returned (.bundle r))
  | getCertificatesFunc => .acquire .certMu .read getCertificatesCheck
  | getCertificatesDone (.error err) =>
      .release .certMu .read (returned (.certificate (.error err)))
  | getCertificatesDone (.ok _) => .release .certMu .read handshakeChain
  | requestCertificate => .acquire .accMu .read requestCheck
  | requestLock => .acquire .certPKeyMu .write requestKey
  | requestUnlock (.error err) => .release .certPKeyMu .write (requestDone (.error err))
  | requestUnlock (.ok signer) => .release .certPKeyMu .write (requestParse signer)
  | requestDone r => .release .accMu .read (returned (.done r))
  | returned _ => .stop
  | createKey | createRegister | createFlag | createPem | loadAccountFromFile
  | importAccountUpdate _ _ | importAccountFlag _ _ _ | importAccountKey _ _ _
  | createAccountFile _ | writeAccountFile _ | exportAccountKey | exportAccountURL _
  | importPrivateKeySet _ | exportPrivateKeyPem _ | importBundle _ _ _ | setCertPKey _ _
  | setStoredCert _ _ | setStoredPem _ _ | setHasCert _ _ | setHasCertPKey _ _
  | createBundleFile _ _ | writeBundleFile _ _ | exportBundleKey | exportBundleChain _
  | getCertificatesCheck | handshakeChain | handshakeKey _ | requestCheck | requestKey
  | requestFlag | requestSign | requestParse _ | requestOrder _ _ => .body

end Point

namespace Store

variable (cr : Crypto K C) (config : NameConfig) (e : Outside K) (d : Store K C)

/-- An assignment to fields of the manager. -/
def assign (c : CertManager K C) (next : Point K C) : Option (Store K C × Point K C) :=
  some ({ d with certs := c }, next)

/-- The computation at a point; a panic gives nothing. -/
def body : Point K C → Option (Store K C × Point K C)
  -- `CreateAccount` (acme.go:77-105)
  | .createKey =>
      if d.certs.hasAcc = true then some (d, .accountDone (.error .accountExists))
      else match e.key with
        | .error cause =>
            d.assign { d.certs with accKey := none }
              (.accountDone (wrapped "generating new account private key" cause))
        | .ok k => d.assign { d.certs with accKey := some k } .createRegister
  | .createRegister =>
      match e.register with
      | .error (cause, account) =>
          d.assign { d.certs with account := account }
            (.accountDone (wrapped "creating account with CA" cause))
      | .ok url => d.assign { d.certs with account := ⟨d.certs.accKey, url⟩ } .createFlag
  | .createFlag => d.assign { d.certs with hasAcc := true } .createPem
  | .createPem =>
      match keyToPEM cr d.certs.accKey with
      | .error f => f.recover
          (fun err => (d, .accountDone (.error (.wrap "converting pkey to pem" err))))
      | .ok text => some (d, .createAccountFile ⟨text, d.certs.account.url⟩)
  -- `LoadAccountFromFile` (acme.go:151-168)
  | .loadAccountFromFile =>
      match d.accounts.read e.opened with
      | .notExist => some (d, .returned (.done (.error .noAccount)))
      | .notOpened cause =>
          some (d, .returned (.done (wrapped "loading accounts.json" cause)))
      | .notDecoded cause =>
          some (d, .returned (.done (wrapped "decoding accounts.json" cause)))
      | .value af => some (d, .importAccount af false)
  -- `ImportAccount` (acme.go:189-217)
  | .importAccountUpdate af toFile =>
      if d.certs.hasAcc = true then some (d, .accountDone (.error .accountExists))
      else match pemToKey cr af.privateKey with
        | .error f => f.recover
            (fun err => (d, .accountDone (.error (.wrap "converting pem to pkey" err))))
        | .ok k =>
            match e.update.answer ⟨some k, af.url⟩ with
            | .error (cause, account) =>
                d.assign { d.certs with account := account }
                  (.accountDone (wrapped "reloading accounts" cause))
            | .ok account =>
                d.assign { d.certs with account := account } (.importAccountFlag af toFile k)
  | .importAccountFlag af toFile k =>
      d.assign { d.certs with hasAcc := true } (.importAccountKey af toFile k)
  | .importAccountKey af toFile k =>
      d.assign { d.certs with accKey := some k }
        (if toFile = true then .createAccountFile af else .accountDone (.ok ()))
  -- `persistAccount` (acme.go:107-118)
  | .createAccountFile af =>
      match e.opened with
      | .error cause =>
          some (d, .accountDone (wrapped "opening accounts.json for writing" cause))
      | .ok _ => some ({ d with accounts := .torn }, .writeAccountFile af)
  | .writeAccountFile af =>
      some ({ d with accounts := e.encoded.file af }, .accountDone
        (match e.encoded with
          | .done => .ok ()
          | .failed cause _ => wrapped "writing to accounts.json" cause))
  -- `ExportAccount` (acme.go:133-149)
  | .exportAccountKey =>
      if d.certs.hasAcc = false then some (d, .exportAccountDone (.error .noAccount))
      else match keyToPEM cr d.certs.accKey with
        | .error f => f.recover
            (fun err => (d, .exportAccountDone (.error (.wrap "converting pkey to pem" err))))
        | .ok text => some (d, .exportAccountURL text)
  | .exportAccountURL text => some (d, .exportAccountDone (.ok ⟨text, d.certs.account.url⟩))
  -- `ImportPrivateKey` (acme.go:219-233)
  | .importPrivateKeySet text =>
      if d.certs.hasCertPKey = true then some (d, .importPrivateKeyDone (.error .pKeyExists))
      else match pemToKey cr text with
        | .error f => f.recover
            (fun err => ({ d with certs := { d.certs with certPKey := none } },
              .importPrivateKeyDone (.error (.wrap "decoding private key from pem" err))))
        | .ok k => d.assign { d.certs with certPKey := some k } (.importPrivateKeyDone (.ok ()))
  -- `ExportPrivateKey` (acme.go:235-248)
  | .exportPrivateKeyPem caller =>
      if d.certs.hasCertPKey = false then some (d, .exportPrivateKeyDone caller (.error .noPKey))
      else match keyToPEM cr d.certs.certPKey with
        | .error f => f.recover (fun err =>
            (d, .exportPrivateKeyDone caller (.error (.wrap "encoding private key to pem" err))))
        | .ok text => some (d, .exportPrivateKeyDone caller (.ok text))
  -- `ImportBundle` (acme.go:250-278)
  | .importBundle caller bundle toFile =>
      match CertManager.parseBundle cr bundle with
      | .error f => f.recover (fun err => (d, caller.imported (.error err)))
      | .ok (k, cert) => some (d, .lockCertPKey caller ⟨bundle, toFile, k, cert⟩)
  | .setCertPKey caller j =>
      d.assign { d.certs with certPKey := some j.pKey } (.setStoredCert caller j)
  | .setStoredCert caller j =>
      d.assign { d.certs with storedCert := some j.cert } (.setStoredPem caller j)
  | .setStoredPem caller j =>
      d.assign { d.certs with storedPem := j.bundle } (.setHasCert caller j)
  | .setHasCert caller j => d.assign { d.certs with hasCert := true } (.setHasCertPKey caller j)
  | .setHasCertPKey caller j =>
      d.assign { d.certs with hasCertPKey := true }
        (if j.toFile = true then .createBundleFile caller j.bundle else .unlockCert caller (.ok ()))
  -- `persisCerts` (acme.go:120-131)
  | .createBundleFile caller bundle =>
      match e.opened with
      | .error cause =>
          some (d, .unlockCert caller (wrapped "opening bundle.json for writing" cause))
      | .ok _ => some ({ d with bundle := .torn }, .writeBundleFile caller bundle)
  | .writeBundleFile caller bundle =>
      some ({ d with bundle := e.encoded.file bundle }, .unlockCert caller
        (match e.encoded with
          | .done => .ok ()
          | .failed cause _ => wrapped "writing to bundle.json" cause))
  -- `ExportBundle` (acme.go:280-289)
  | .exportBundleKey =>
      if d.certs.hasCert = false then some (d, .exportBundleDone (.error .noCert))
      else some (d, .exportBundleChain d.certs.storedPem.privateKey)
  | .exportBundleChain privateKey =>
      some (d, .exportBundleDone (.ok ⟨privateKey, d.certs.storedPem.chain⟩))
  -- `GetCertificatesFunc` (acme.go:431-438)
  | .getCertificatesCheck =>
      if d.certs.hasCert = false then
        some (d, .getCertificatesDone (.error (.other "certificate not yet available")))
      else some (d, .getCertificatesDone (.ok ()))
  | .handshakeChain => some (d, .handshakeKey d.certs.storedCert)
  | .handshakeKey chain => some (d, .returned (.certificate (.ok (chain, d.certs.storedCert))))
  -- `RequestCertificate` (acme.go:291-429)
  | .requestCheck =>
      if d.certs.hasAcc = false then some (d, .requestDone (.error .noAccount))
      else match requestNames config with
        | .error f => f.recover (fun err => (d, .requestDone (.error err)))
        | .ok _ => some (d, .requestLock)
  | .requestKey =>
      match d.certs.certPKey with
      | some _ => some (d, .requestSign)
      | none =>
          match e.key with
          | .error cause =>
              d.assign { d.certs with certPKey := none }
                (.requestUnlock (wrapped "generating certificate private key" cause))
          | .ok k => d.assign { d.certs with certPKey := some k } .requestFlag
  | .requestFlag => d.assign { d.certs with hasCertPKey := true } .requestSign
  | .requestSign =>
      match d.certs.certPKey with
      | none => none
      | some k => some (d, .requestUnlock
          (match e.csr with
            | .error cause => wrapped "generating csr" cause
            | .ok _ => .ok k))
  | .requestParse signer => some (d,
      match e.parse with
      | .error cause => .requestDone (wrapped "parsing csr" cause)
      | .ok _ => .exportPrivateKey (.request signer))
  | .requestOrder signer pKey =>
      match e.order.run with
      | .error f => f.recover (fun err => (d, .requestDone (.error err)))
      | .ok certs =>
          some (d, .importBundle (.request signer) (CertManager.bundleOf cr pKey certs) true)
  | _ => none

end Store

/-- The operations of `CertManager` as a program. -/
def program (cr : Crypto K C) (config : NameConfig) :
    Program Mutex (Point K C) (Store K C) (Outside K) where
  instr := Point.instr
  body p e d := d.body cr config e p

/-! ## The order of the locks -/

def Mutex.rank : Mutex → ℕ
  | .accMu => 0
  | .certPKeyMu => 1
  | .certMu => 2

/-- What is held of the three locks. -/
structure Held where
  accMu : Option Access
  certPKeyMu : Option Access
  certMu : Option Access

namespace Held

def of (h : Held) : Mutex → Option Access
  | .accMu => h.accMu
  | .certPKeyMu => h.certPKeyMu
  | .certMu => h.certMu

def set (h : Held) (l : Mutex) (a : Option Access) : Held :=
  match l with
  | .accMu => { h with accMu := a }
  | .certPKeyMu => { h with certPKeyMu := a }
  | .certMu => { h with certMu := a }

theorem of_set (h : Held) (l : Mutex) (a : Option Access) :
    (h.set l a).of = Function.update h.of l a := by
  funext l'
  cases l <;> cases l' <;> rfl

end Held

/-- What a caller holds of `accMu`. -/
def Caller.accMu : Caller K → Option Access
  | .outside => none
  | .request _ => some .read

namespace Point

/-- The locks that are held at a point. -/
def held : Point K C → Held
  | createAccount | loadAccountFromFile | importAccount _ _ | exportAccount | importPrivateKey _
  | exportBundle | getCertificatesFunc | handshakeChain | handshakeKey _ | requestCertificate
  | returned _ => ⟨none, none, none⟩
  | createKey | createRegister | createFlag | createPem | importAccountUpdate _ _
  | importAccountFlag _ _ _ | importAccountKey _ _ _ | createAccountFile _ | writeAccountFile _
  | accountDone _ => ⟨some .write, none, none⟩
  | exportAccountKey | exportAccountURL _ | exportAccountDone _ | requestCheck | requestLock
  | requestParse _ | requestOrder _ _ | requestDone _ => ⟨some .read, none, none⟩
  | importPrivateKeySet _ | importPrivateKeyDone _ => ⟨none, some .write, none⟩
  | requestKey | requestFlag | requestSign | requestUnlock _ => ⟨some .read, some .write, none⟩
  | exportPrivateKey caller | importBundle caller _ _ | lockCertPKey caller _ =>
      ⟨caller.accMu, none, none⟩
  | exportPrivateKeyPem caller | exportPrivateKeyDone caller _ =>
      ⟨caller.accMu, some .read, none⟩
  | lockCert caller _ | unlockCertPKey caller _ => ⟨caller.accMu, some .write, none⟩
  | setCertPKey caller _ | setStoredCert caller _ | setStoredPem caller _ | setHasCert caller _
  | setHasCertPKey caller _ | createBundleFile caller _ | writeBundleFile caller _
  | unlockCert caller _ => ⟨caller.accMu, some .write, some .write⟩
  | exportBundleKey | exportBundleChain _ | exportBundleDone _ | getCertificatesCheck
  | getCertificatesDone _ => ⟨none, none, some .read⟩

/-- The instructions that are left on the longest way from a point to its end. -/
def work : Point K C → ℕ
  | returned _ => 0
  | accountDone _ | exportAccountDone _ | importPrivateKeyDone _ | exportBundleDone _
  | requestDone _ | handshakeKey _ => 1
  | writeAccountFile _ | exportAccountURL _ | importPrivateKeySet _ | exportBundleChain _
  | handshakeChain | unlockCertPKey _ _ => 2
  | createAccountFile _ | exportAccountKey | importPrivateKey _ | exportBundleKey
  | getCertificatesDone _ | unlockCert _ _ => 3
  | createPem | importAccountKey _ _ _ | exportAccount | exportBundle | getCertificatesCheck
  | writeBundleFile _ _ => 4
  | createFlag | importAccountFlag _ _ _ | getCertificatesFunc | createBundleFile _ _ => 5
  | createRegister | importAccountUpdate _ _ | setHasCertPKey _ _ => 6
  | createKey | importAccount _ _ | setHasCert _ _ => 7
  | createAccount | loadAccountFromFile | setStoredPem _ _ => 8
  | setStoredCert _ _ => 9
  | setCertPKey _ _ => 10
  | lockCert _ _ => 11
  | lockCertPKey _ _ => 12
  | importBundle _ _ _ => 13
  | requestOrder _ _ => 14
  | exportPrivateKeyDone _ _ => 15
  | exportPrivateKeyPem _ => 16
  | exportPrivateKey _ => 17
  | requestParse _ => 18
  | requestUnlock _ => 19
  | requestSign => 20
  | requestFlag => 21
  | requestKey => 22
  | requestLock => 23
  | requestCheck => 24
  | requestCertificate => 25

variable {p q : Point K C} {l : Mutex} {a : Access}

theorem held_acquire (h : p.instr = .acquire l a q) :
    (∀ l', p.held.of l' ≠ none → l'.rank < l.rank) ∧ q.held = p.held.set l (some a) ∧
      q.work < p.work := by
  unfold instr at h
  split at h <;> cases h
  all_goals
    refine ⟨?_, rfl, by simp [work]⟩
    intro l' hl'
    cases l' <;> simp_all [held, Held.of, Mutex.rank]

theorem held_exported (caller : Caller K) (r : Except AcmeError String) :
    (caller.exported r : Point K C).held = ⟨caller.accMu, none, none⟩ := by
  cases caller with
  | outside => rfl
  | request signer => cases r <;> rfl

theorem work_exported (caller : Caller K) (r : Except AcmeError String) :
    (caller.exported r : Point K C).work < 15 := by
  cases caller with
  | outside => simp [Caller.exported, work]
  | request signer => cases r <;> simp [Caller.exported, work]

theorem held_imported (caller : Caller K) (r : Except AcmeError Unit) :
    (caller.imported r : Point K C).held = ⟨caller.accMu, none, none⟩ := by
  cases caller <;> rfl

theorem work_imported (caller : Caller K) (r : Except AcmeError Unit) :
    (caller.imported r : Point K C).work < 2 := by
  cases caller <;> simp [Caller.imported, work]

theorem held_release (h : p.instr = .release l a q) :
    p.held.of l = some a ∧ q.held = p.held.set l none ∧ q.work < p.work := by
  unfold instr at h
  split at h <;> cases h
  all_goals
    first
    | exact ⟨rfl, rfl, by simp [work]⟩
    | exact ⟨rfl, held_exported _ _, work_exported _ _⟩
    | exact ⟨rfl, held_imported _ _, work_imported _ _⟩

theorem returned_of_stop (h : p.instr = .stop) : ∃ r, p = returned r := by
  unfold instr at h
  split at h <;> cases h
  exact ⟨_, rfl⟩

theorem work_pos (h : p.instr = .body) : 0 < p.work := by
  cases p with
  | returned r => cases h
  | _ => simp [work]

theorem work_le (p : Point K C) : p.work ≤ 25 := by
  cases p <;> simp [work]

end Point

namespace Store

/-- A computation leads to where the same locks are held, and less is left to do. -/
def Leads (p : Point K C) (x : Store K C × Point K C) : Prop :=
  x.2.held = p.held ∧ x.2.work < p.work

theorem body_leads (cr : Crypto K C) (config : NameConfig) (e : Outside K) (d : Store K C)
    (p : Point K C) : ∀ x ∈ d.body cr config e p, Leads p x := by
  have himported : ∀ (caller : Caller K) (bundle : Bundle) (toFile : Bool) (err : AcmeError),
      Leads (.importBundle caller bundle toFile) (d, caller.imported (.error err)) := by
    intro caller bundle toFile err
    refine ⟨Point.held_imported caller _, Nat.lt_trans (Point.work_imported caller _) ?_⟩
    simp [Point.work]
  unfold body
  split
  all_goals
    repeat' split
    all_goals
      first
      | exact forall_mem_some ⟨rfl, by simp [Point.work]⟩
      | exact forall_mem_recover (fun err => ⟨rfl, by simp [Point.work]⟩)
      | exact forall_mem_recover (himported _ _ _)
      | simp

end Store

/-- The locks are taken in the order `accMu`, `certPKeyMu`, `certMu`. -/
def discipline (cr : Crypto K C) (config : NameConfig) : Discipline (program cr config) where
  holds p := p.held.of
  rank := Mutex.rank
  work := Point.work
  acquire {p q l a} h := by
    obtain ⟨hup, hheld, hwork⟩ := Point.held_acquire h
    exact ⟨hup, by rw [hheld, Held.of_set], hwork⟩
  release {p q l a} h := by
    obtain ⟨hheld, hnext, hwork⟩ := Point.held_release h
    exact ⟨hheld, by rw [hnext, Held.of_set], hwork⟩
  body {p q e d d'} _ h := by
    obtain ⟨hheld, hwork⟩ := Store.body_leads cr config e d p _ h
    exact ⟨by rw [hheld], hwork⟩
  body_pos {p} h := Point.work_pos h
  stop {p} h l := by
    obtain ⟨r, rfl⟩ := Point.returned_of_stop h
    cases l <;> rfl

/-! ## Calls, crashes and restarts -/

/-- The operations that other packages call. `LoadBundleFromFile` is called before there are others
    (`boot`). -/
inductive Call
  | createAccount
  | loadAccountFromFile
  | importAccount (af : AccountFile) (toFile : Bool)
  | exportAccount
  | importPrivateKey (text : String)
  | exportPrivateKey
  | importBundle (bundle : Bundle) (toFile : Bool)
  | exportBundle
  | getCertificatesFunc
  | requestCertificate

def Call.entry : Call → Point K C
  | .createAccount => .createAccount
  | .loadAccountFromFile => .loadAccountFromFile
  | .importAccount af toFile => .importAccount af toFile
  | .exportAccount => .exportAccount
  | .importPrivateKey text => .importPrivateKey text
  | .exportPrivateKey => .exportPrivateKey .outside
  | .importBundle bundle toFile => .importBundle .outside bundle toFile
  | .exportBundle => .exportBundle
  | .getCertificatesFunc => .getCertificatesFunc
  | .requestCertificate => .requestCertificate

/-- What the start of the server meets: whether its files can be opened, and the answer of the
    authority. -/
structure Boot (K : Type) where
  accountsOpened : Except String Unit
  bundleOpened : Except String Unit
  update : AccountUpdate K

/-- A server process with its data directory. -/
abbrev Host (K C : Type) := Process Mutex (Point K C) (Store K C)

/-- The start of the server (cmd/server/main.go:119-127); the errors of both calls are dropped. -/
def Store.boot (cr : Crypto K C) (d : Store K C) (b : Boot K) : Host K C :=
  let account := CertManager.init.loadAccountFromFile cr (d.accounts.read b.accountsOpened) b.update
  let bundle := account.1.loadBundleFromFile cr (d.bundle.read b.bundleOpened) .done
  { Process.start { d with certs := bundle.1 } with
    crashed := isPanic account.2 || isPanic bundle.2 }

namespace Host

/-- A call begins; a call goes on; the process ends, at any moment and for whatever reason, and is
    started again. -/
inductive Action (K : Type)
  | call (c : Call)
  | run (i : ℕ) (e : Outside K)
  | restart (b : Boot K)

def step (cr : Crypto K C) (config : NameConfig) (s : Host K C) : Action K → Option (Host K C)
  | .call c => if s.crashed = true then none else some (s.spawn c.entry)
  | .run i e => Process.step (program cr config) s i e
  | .restart b => some (s.data.boot cr b)

/-- A server from its first start, with an empty data directory. -/
def machine (cr : Crypto K C) (config : NameConfig) : Machine (Host K C) (Action K) where
  Init s := s = Process.start ⟨CertManager.init, .missing, .missing⟩
  step := step cr config

variable {cr : Crypto K C} {config : NameConfig} {s s' : Host K C} {a : Action K}

theorem ledger_step (h : (discipline cr config).Ledger s)
    (hstep : s.step cr config a = some s') : (discipline cr config).Ledger s' := by
  cases a with
  | call c =>
      simp only [step, Option.ite_none_left_eq_some, Option.some.injEq] at hstep
      obtain ⟨_, rfl⟩ := hstep
      refine h.spawn ?_
      intro l
      cases c <;> cases l <;> rfl
  | run i e =>
      obtain ⟨_, g, hg, hadv⟩ := Discipline.step_eq_some.1 hstep
      exact h.advance hg hadv
  | restart b =>
      cases hstep
      intro l c
      cases c <;> rfl

theorem ledger_of_reachable (h : (machine cr config).Reachable s) :
    (discipline cr config).Ledger s := by
  refine h.invariant ?_ (fun s a s' => ledger_step)
  rintro s rfl
  exact .start _

end Host

/-- Everything fails. -/
instance : Inhabited (Outside K) where
  default :=
    { key := .error "", register := .error ("", ⟨none, ""⟩), update := .unknown "" ⟨none, ""⟩,
      csr := .error "", parse := .error "", order := ⟨.error "", .error "", .error ""⟩,
      opened := .error "", encoded := .failed "" false }

/-- A call has at most 51 steps before it. -/
theorem effort_le (cr : Crypto K C) (config : NameConfig) (g : Goroutine (Point K C)) :
    (discipline cr config).effort g ≤ 51 := by
  have hwork : (discipline cr config).work g.point ≤ 25 := g.point.work_le
  have hbit := Bool.toNat_le (!g.announced)
  simp only [Discipline.effort]
  omega

theorem load_le (cr : Crypto K C) (config : NameConfig) (s : Host K C) :
    (discipline cr config).load s ≤ 51 * s.threads.length := by
  have hsum := List.sum_le_card_nsmul (s.threads.map (discipline cr config).effort) 51
    (List.forall_mem_map.2 (fun g _ => effort_le cr config g))
  simp only [List.length_map, smul_eq_mul] at hsum
  simp only [Discipline.load]
  split <;> omega

theorem loadOf_le (cr : Crypto K C) (config : NameConfig) (i : ℕ) (s : Host K C) :
    (discipline cr config).loadOf i s ≤ 51 := by
  simp only [Discipline.loadOf]
  split
  · omega
  · cases hg : s.threads[i]? with
    | none => simp
    | some g => exact effort_le cr config g

/-- **Calls do not block one another.** Whatever calls are in progress on the manager, however they
    got where they are and in whichever order they go on, none of them takes more than 51 further
    steps; and when none of them can go on, all of them have returned, or a panic has ended the
    process. -/
theorem calls_return (cr : Crypto K C) (config : NameConfig) {s t : Host K C}
    (hs : (Host.machine cr config).Reachable s) {tr : List (Host K C × (ℕ × Outside K))}
    (hrun : (Discipline.machine (program cr config)).Run s tr t) :
    (∀ i, tr.countP (fun q => decide (q.2.1 = i)) ≤ 51) ∧
      tr.length ≤ 51 * s.threads.length ∧
      ((∀ i e, Process.step (program cr config) t i e = none) →
        t.crashed = true ∨ ∀ g ∈ t.threads, ∃ r, g.point = .returned r) := by
  have hledger := Host.ledger_of_reachable hs
  refine ⟨fun i => ?_, ?_, fun hstuck => ?_⟩
  · have hcount := (discipline cr config).countP_le hrun i
    exact (Nat.le_of_add_right_le hcount).trans (loadOf_le cr config i s)
  · have hlength := (discipline cr config).length_le hrun
    have hload := load_le cr config s
    omega
  · by_contra hlive
    simp only [not_or, Bool.not_eq_true, not_forall] at hlive
    obtain ⟨hcrashed, g, hg, hnot⟩ := hlive
    obtain ⟨i, hi⟩ := (hledger.run hrun).progress hcrashed
      ⟨g, hg, fun hstop => hnot (Point.returned_of_stop hstop)⟩ default
    simp [hstuck i default] at hi

/-- Keys are generated, the authority agrees to everything and issues the certificate of the key
    `k`, and files can be written. -/
def smooth (k : Bool) : Outside Bool where
  key := .ok k
  register := .ok "u"
  update := .known
  csr := .ok ()
  parse := .ok ()
  order := (smoothRequest k).order
  opened := .ok ()
  encoded := .done

/-- An account is created; then a certificate is requested, and while the request holds `accMu` for
    reading, an account arrives from another node and has to wait. A later `ExportAccount` waits
    behind it. -/
def waitingCalls : List (Host.Action Bool) :=
  .call .createAccount :: List.replicate 9 (.run 0 (smooth true)) ++
    [.call .requestCertificate, .run 1 (smooth true), .run 1 (smooth true),
      .call (.importAccount ⟨"A", "v"⟩ true), .run 2 (smooth true), .call .exportAccount]

/-- The request goes on to its end; only then do the two that wait go on, one after the other. -/
def waitingOrder : List (ℕ × Outside Bool) :=
  (List.replicate 26 1 ++ List.replicate 3 2 ++ List.replicate 4 3).map (fun i => (i, smooth true))

theorem calls_return_waiting : ∃ (s t : Host Bool (String × String))
    (tr : List (Host Bool (String × String) × (ℕ × Outside Bool))),
    ((Host.machine twoKeys exampleNames).Reachable s ∧ s.mutex .accMu = .shared 1 true ∧
      s.threads.map (fun g => g.point.work) = [0, 23, 7, 4]) ∧
    ((Discipline.machine (program twoKeys exampleNames)).Run s tr t ∧
      t.threads.map (fun g => g.point.work) = [0, 0, 0, 0]) ∧
    (∀ i, tr.countP (fun q => decide (q.2.1 = i)) ≤ 51) ∧
      tr.length ≤ 51 * s.threads.length ∧
      ((∀ i e, Process.step (program twoKeys exampleNames) t i e = none) →
        t.crashed = true ∨ ∀ g ∈ t.threads, ∃ r, g.point = .returned r) := by
  obtain ⟨s, hs, ⟨hmutex, hwork⟩, hexec⟩ := Machine.reachable_of_exec_any
    (Host.machine twoKeys exampleNames) rfl waitingCalls
    (P := fun s => (s.mutex .accMu = .shared 1 true ∧
      s.threads.map (fun g => g.point.work) = [0, 23, 7, 4]) ∧
      ((Discipline.machine (program twoKeys exampleNames)).exec s waitingOrder).any
        (fun t => decide (t.threads.map (fun g => g.point.work) = [0, 0, 0, 0])) = true)
    (by decide)
  obtain ⟨t, hrun, hdone⟩ := Machine.run_of_exec_any _ s waitingOrder hexec
  exact ⟨s, t, _, ⟨hs, hmutex, hwork⟩, ⟨hrun, hdone⟩,
    calls_return twoKeys exampleNames hs hrun⟩

end Tunnel.Acme
