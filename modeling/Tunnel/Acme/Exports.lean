import Tunnel.Acme.KeySafety
import Tunnel.Acme.Locking
import Tunnel.Lib.Guarded

set_option autoImplicit false

/-! # What leaves the certificate manager is whole (`acme/acme.go`)

`ExportAccount` reads the key and the URL of the account one after the other, `ExportBundle` the
private key and the chain, and meanwhile an account or a bundle may arrive from another node. The
outline below attaches to each program point what its call knows there, and to each lock what holds
while no writer is inside. The certificate, its text and its flag are assigned under `certPKeyMu`
and `certMu` together, so that either lock is enough to read them. -/

namespace Tunnel.Acme

open Tunnel.Lib

variable {K C : Type}

namespace CertManager

/-- The account was registered, or updated, with the key that is exported with it. -/
def AccountKey (c : CertManager K C) : Prop :=
  ∃ k, c.accKey = some k ∧ c.account.privateKey = some k

/-- There is an account, and nothing about it will change. -/
def Settled (c : CertManager K C) : Prop := c.hasAcc = true ∧ c.AccountKey

def AccountMatches (c : CertManager K C) : Prop := c.hasAcc = true → c.AccountKey

/-- Certificate and text come from one bundle. -/
def StoredMatches (cr : Crypto K C) (c : CertManager K C) : Prop :=
  c.hasCert = true → ∃ k cert, parseBundle cr c.storedPem = .ok (k, cert) ∧ c.storedCert = some cert

/-- Certificate, text and private key come from one bundle. -/
def KeyMatches (cr : Crypto K C) (c : CertManager K C) : Prop :=
  c.hasCert = true → c.hasCertPKey = true ∧
    ∃ k cert, parseBundle cr c.storedPem = .ok (k, cert) ∧ c.certPKey = some k ∧
      c.storedCert = some cert

end CertManager

open CertManager

/-- The bundle was parsed. -/
def Install.Parsed (cr : Crypto K C) (j : Install K C) : Prop :=
  parseBundle cr j.bundle = .ok (j.pKey, j.cert)

/-- A certificate that some bundle was parsed to. -/
def Genuine (cr : Crypto K C) (c : Option C) : Prop :=
  ∃ b k cert, parseBundle cr b = .ok (k, cert) ∧ c = some cert

namespace Store

/-- The parts of the data that the locks guard. -/
def Same : Mutex → Store K C → Store K C → Prop
  | .accMu, d, d' =>
      d'.certs.accKey = d.certs.accKey ∧ d'.certs.account = d.certs.account ∧
        d'.certs.hasAcc = d.certs.hasAcc ∧ d'.accounts = d.accounts
  | .certPKeyMu, d, d' =>
      d'.certs.certPKey = d.certs.certPKey ∧ d'.certs.hasCertPKey = d.certs.hasCertPKey ∧
        d'.certs.hasCert = d.certs.hasCert ∧ d'.certs.storedCert = d.certs.storedCert ∧
        d'.certs.storedPem = d.certs.storedPem ∧ d'.bundle = d.bundle
  | .certMu, d, d' =>
      d'.certs.hasCert = d.certs.hasCert ∧ d'.certs.storedCert = d.certs.storedCert ∧
        d'.certs.storedPem = d.certs.storedPem ∧ d'.bundle = d.bundle

theorem same_refl (l : Mutex) (d : Store K C) : Same l d d := by
  cases l <;> simp [Same]

theorem body_same (cr : Crypto K C) (config : NameConfig) (e : Outside K) (d : Store K C)
    (p : Point K C) :
    ∀ x ∈ d.body cr config e p, ∀ l, p.held.of l ≠ some .write → Same l d x.1 := by
  unfold body
  split
  all_goals
    repeat' split
    all_goals
      first
      | exact forall_mem_some (fun l _ => same_refl l d)
      | exact forall_mem_recover (fun err l _ => same_refl l d)
      | exact forall_mem_some (fun l hl => by
          cases l <;> first | exact absurd rfl hl | simp [Same])
      | exact forall_mem_recover (fun err l hl => by
          cases l <;> first | exact absurd rfl hl | simp [Same])
      | simp

/-- What holds while no writer is inside. -/
def Inv (cr : Crypto K C) : Mutex → Store K C → Prop
  | .accMu, d => d.certs.AccountMatches
  | .certPKeyMu, d => d.certs.KeyMatches cr
  | .certMu, d => d.certs.StoredMatches cr

/-- What no computation undoes. -/
structure Evolves (d d' : Store K C) : Prop where
  account : d.certs.Settled → d'.certs.hasAcc = true ∧ d'.certs.accKey = d.certs.accKey ∧
    d'.certs.account = d.certs.account
  cert : d.certs.hasCert = true → d'.certs.hasCert = true

/-- What holds at every moment: the files can be loaded, and a certificate comes from a bundle. -/
structure Always (cr : Crypto K C) (d : Store K C) : Prop where
  accounts : ∀ af, d.accounts = .whole af → ∃ k, pemToKey cr af.privateKey = .ok k
  bundle : ∀ b, d.bundle = .whole b → ∃ x, parseBundle cr b = .ok x
  stored : ∀ cert, d.certs.storedCert = some cert → Genuine cr (some cert)
  served : d.certs.hasCert = true → d.certs.storedCert ≠ none

/-- What a call delivers, if it succeeds. -/
def Delivers (cr : Crypto K C) (d : Store K C) : Outcome C → Prop
  | .done _ => True
  | .account r => ∀ af, r = .ok af → d.certs.Settled ∧ d.certs.exportAccount cr = .ok af
  | .pKey r => ∀ text, r = .ok text → ∃ k, pemToKey cr text = .ok k
  | .bundle r => ∀ b, r = .ok b → ∃ x, parseBundle cr b = .ok x
  | .certificate r => ∀ chain key, r = .ok (chain, key) → Genuine cr chain ∧ Genuine cr key

/-- What a call knows at a point. -/
def At (cr : Crypto K C) : Point K C → Store K C → Prop
  | .createKey, d | .importAccountUpdate _ _, d | .accountDone _, d => d.certs.AccountMatches
  | .createRegister, d => d.certs.hasAcc = false ∧ ∃ k, d.certs.accKey = some k
  | .createFlag, d => d.certs.hasAcc = false ∧ d.certs.AccountKey
  | .createPem, d => d.certs.Settled
  | .importAccountFlag af _ k, d =>
      d.certs.hasAcc = false ∧ d.certs.account = ⟨some k, af.url⟩ ∧
        pemToKey cr af.privateKey = .ok k
  | .importAccountKey af _ k, d =>
      d.certs.hasAcc = true ∧ d.certs.account = ⟨some k, af.url⟩ ∧
        pemToKey cr af.privateKey = .ok k
  | .createAccountFile af, d => d.certs.Settled ∧ ∃ k, pemToKey cr af.privateKey = .ok k
  | .writeAccountFile af, d =>
      d.certs.Settled ∧ (∃ k, pemToKey cr af.privateKey = .ok k) ∧ d.accounts = .torn
  | .exportAccountURL text, d => d.certs.Settled ∧ keyToPEM cr d.certs.accKey = .ok text
  | .exportAccountDone r, d => d.Delivers cr (.account r)
  | .importPrivateKeySet _, d | .importPrivateKeyDone _, d | .requestKey, d | .requestUnlock _, d
  | .unlockCert _ _, d | .unlockCertPKey _ _, d => d.certs.KeyMatches cr
  | .exportPrivateKeyDone _ r, d => d.Delivers cr (.pKey r)
  | .lockCertPKey _ j, _ | .lockCert _ j, _ | .setCertPKey _ j, _ => j.Parsed cr
  | .setStoredCert _ j, d => j.Parsed cr ∧ d.certs.certPKey = some j.pKey
  | .setStoredPem _ j, d =>
      j.Parsed cr ∧ d.certs.certPKey = some j.pKey ∧ d.certs.storedCert = some j.cert
  | .setHasCert _ j, d =>
      j.Parsed cr ∧ d.certs.certPKey = some j.pKey ∧ d.certs.storedCert = some j.cert ∧
        d.certs.storedPem = j.bundle
  | .setHasCertPKey _ j, d =>
      j.Parsed cr ∧ d.certs.certPKey = some j.pKey ∧ d.certs.storedCert = some j.cert ∧
        d.certs.storedPem = j.bundle
  | .createBundleFile _ b, d => d.certs.KeyMatches cr ∧ ∃ x, parseBundle cr b = .ok x
  | .writeBundleFile _ b, d =>
      d.certs.KeyMatches cr ∧ (∃ x, parseBundle cr b = .ok x) ∧ d.bundle = .torn
  | .exportBundleChain text, d => d.certs.hasCert = true ∧ d.certs.storedPem.privateKey = text
  | .exportBundleDone r, d => d.Delivers cr (.bundle r)
  | .getCertificatesDone r, d => r = .ok () → d.certs.hasCert = true
  | .handshakeChain, d => d.certs.hasCert = true
  | .handshakeKey chain, d => d.certs.hasCert = true ∧ Genuine cr chain
  | .returned r, d => d.Delivers cr r
  | .requestFlag, d => d.certs.hasCert = false ∧ d.certs.certPKey ≠ none
  | .requestSign, d => d.certs.KeyMatches cr ∧ d.certs.certPKey ≠ none
  | _, _ => True

variable {cr : Crypto K C} {config : NameConfig} {e : Outside K} {d d' : Store K C}
  {p q : Point K C} {l : Mutex} {a : Access}

theorem inv_same (hsame : Same l d d') (h : Inv cr l d) : Inv cr l d' := by
  cases l with
  | accMu =>
      obtain ⟨hkey, haccount, hhas, _⟩ := hsame
      simpa [Inv, AccountMatches, AccountKey, hkey, haccount, hhas] using h
  | certPKeyMu =>
      obtain ⟨hkey, hflag, hhas, hcert, hpem, _⟩ := hsame
      simpa [Inv, KeyMatches, hkey, hflag, hhas, hcert, hpem] using h
  | certMu =>
      obtain ⟨hhas, hcert, hpem, _⟩ := hsame
      simpa [Inv, StoredMatches, hhas, hcert, hpem] using h

/-- What a call has delivered stays true. -/
theorem delivers_evolves {r : Outcome C} (hev : Evolves d d') (h : d.Delivers cr r) :
    d'.Delivers cr r := by
  cases r with
  | account r =>
      intro af hr
      obtain ⟨hsettled, hexport⟩ := h af hr
      obtain ⟨hhas, hkey, haccount⟩ := hev.account hsettled
      refine ⟨⟨hhas, ?_⟩, ?_⟩
      · simpa [AccountKey, hkey, haccount] using hsettled.2
      · simpa [exportAccount, hkey, haccount, hhas, hsettled.1] using hexport
  | _ => exact h

theorem at_same (hsame : ∀ l, p.held.of l ≠ none → Same l d d') (hev : Evolves d d')
    (h : At cr p d) : At cr p d' := by
  cases p with
  | createKey | createRegister | createFlag | createPem | importAccountUpdate _ _
  | importAccountFlag _ _ _ | importAccountKey _ _ _ | createAccountFile _ | writeAccountFile _
  | accountDone _ | exportAccountURL _ =>
      obtain ⟨hkey, haccount, hhas, hfile⟩ := hsame .accMu (by simp [Point.held, Held.of])
      simpa [At, AccountMatches, Settled, AccountKey, hkey, haccount, hhas, hfile] using h
  | exportAccountDone r => exact delivers_evolves (r := .account r) hev h
  | importPrivateKeySet _ | importPrivateKeyDone _ | requestKey | requestUnlock _ | requestFlag
  | requestSign | unlockCert _ _ | unlockCertPKey _ _ | setStoredCert _ _ | setStoredPem _ _
  | setHasCert _ _ | setHasCertPKey _ _ | createBundleFile _ _ | writeBundleFile _ _ =>
      obtain ⟨hkey, hflag, hhas, hcert, hpem, hfile⟩ :=
        hsame .certPKeyMu (by simp [Point.held, Held.of])
      simpa [At, KeyMatches, hkey, hflag, hhas, hcert, hpem, hfile] using h
  | exportBundleChain _ =>
      obtain ⟨hhas, _, hpem, _⟩ := hsame .certMu (by simp [Point.held, Held.of])
      simpa [At, hhas, hpem] using h
  | getCertificatesDone r => exact fun hr => hev.cert (h hr)
  | handshakeChain => exact hev.cert h
  | handshakeKey chain => exact ⟨hev.cert h.1, h.2⟩
  | returned r => exact delivers_evolves hev h
  | _ => exact h

theorem at_acquire (hinstr : p.instr = .acquire l a q) (h : At cr p d) (hinv : Inv cr l d) :
    At cr q d := by
  unfold Point.instr at hinstr
  split at hinstr <;> cases hinstr
  all_goals first | exact h | exact hinv

theorem at_exported {caller : Caller K} {r : Except AcmeError String}
    (h : d.Delivers cr (.pKey r)) : At cr (caller.exported r) d := by
  cases caller with
  | outside => exact h
  | request signer => cases r <;> exact trivial

theorem at_imported (caller : Caller K) (r : Except AcmeError Unit) :
    At cr (caller.imported r) d := by
  cases caller <;> exact trivial

theorem storedMatches_of_keyMatches {c : CertManager K C} (h : c.KeyMatches cr) :
    c.StoredMatches cr := by
  intro hhas
  obtain ⟨_, k, cert, hparsed, _, hcert⟩ := h hhas
  exact ⟨k, cert, hparsed, hcert⟩

theorem at_release (hinstr : p.instr = .release l a q) (h : At cr p d)
    (hinv : a = .read → Inv cr l d) : At cr q d ∧ Inv cr l d := by
  unfold Point.instr at hinstr
  split at hinstr <;> cases hinstr
  all_goals
    first
    | exact ⟨trivial, h⟩
    | exact ⟨h, hinv rfl⟩
    | exact ⟨trivial, hinv rfl⟩
    | exact ⟨at_exported h, hinv rfl⟩
    | exact ⟨at_imported _ _, h⟩
    | exact ⟨h, storedMatches_of_keyMatches h⟩
    | exact ⟨h rfl, hinv rfl⟩
    | exact ⟨by simp [At, Delivers], hinv rfl⟩

/-! ## Computations -/

/-- What is asked of a computation. -/
def Keeps (cr : Crypto K C) (d : Store K C) (x : Store K C × Point K C) : Prop :=
  At cr x.2 x.1 ∧ Always cr x.1 ∧ Evolves d x.1

theorem keeps_mk (hat : At cr q d) (halways : Always cr d) : Keeps cr d (d, q) :=
  ⟨hat, halways, ⟨fun h => ⟨h.1, rfl, rfl⟩, fun h => h⟩⟩

theorem pemToKey_of_keyToPEM {k : Option K} {text : String} (h : keyToPEM cr k = .ok text) :
    ∃ k', k = some k' ∧ pemToKey cr text = .ok k' := by
  cases k with
  | none => cases h
  | some k' =>
      obtain ⟨text', htext, hparsed⟩ := keyToPEM_some cr k'
      rw [htext] at h
      cases h
      exact ⟨k', rfl, hparsed⟩

theorem eq_of_file {α : Type} {a b : α} {w : Encoded} (h : w.file a = .whole b) : b = a := by
  unfold Encoded.file at h
  split at h <;> cases h <;> rfl

/-- Assignments to the account, while there is none. -/
theorem keeps_account (hno : d.certs.hasAcc = false) (halways : Always cr d) (accKey : Option K)
    (account : Account K) (hasAcc : Bool)
    (hat : At cr q { d with certs :=
      { d.certs with accKey := accKey, account := account, hasAcc := hasAcc } }) :
    Keeps cr d ({ d with certs :=
      { d.certs with accKey := accKey, account := account, hasAcc := hasAcc } }, q) := by
  refine ⟨hat, ⟨halways.accounts, halways.bundle, halways.stored, halways.served⟩, ?_, fun h => h⟩
  intro hsettled
  exact absurd hsettled.1 (by simp [hno])

theorem matches_of_no_account {c : CertManager K C} (hno : c.hasAcc = false) :
    c.AccountMatches := fun hhas => absurd hhas (by simp [hno])

section accounts

variable (halways : Always cr d)

include halways

theorem createKey_keeps (h : At cr .createKey d) :
    ∀ x ∈ d.body cr config e .createKey, Keeps cr d x := by
  unfold body
  dsimp only
  split
  · exact forall_mem_some (keeps_mk h halways)
  · next hacc =>
      have hno : d.certs.hasAcc = false := by simpa using hacc
      split
      · exact forall_mem_some (keeps_account hno halways none d.certs.account _
          (matches_of_no_account hno))
      · next k _ =>
          exact forall_mem_some (keeps_account hno halways (some k) d.certs.account _
            ⟨hno, k, rfl⟩)

theorem createRegister_keeps (h : At cr .createRegister d) :
    ∀ x ∈ d.body cr config e .createRegister, Keeps cr d x := by
  obtain ⟨hno, k, hk⟩ := h
  unfold body
  dsimp only
  split
  · next account _ =>
      exact forall_mem_some (keeps_account hno halways d.certs.accKey account _
        (matches_of_no_account hno))
  · next url _ =>
      exact forall_mem_some (keeps_account hno halways d.certs.accKey ⟨d.certs.accKey, url⟩ _
        ⟨hno, k, hk, hk⟩)

theorem createFlag_keeps (h : At cr .createFlag d) :
    ∀ x ∈ d.body cr config e .createFlag, Keeps cr d x := by
  obtain ⟨hno, hkey⟩ := h
  exact forall_mem_some (keeps_account hno halways d.certs.accKey d.certs.account true
    ⟨rfl, hkey⟩)

theorem createPem_keeps (h : At cr .createPem d) :
    ∀ x ∈ d.body cr config e .createPem, Keeps cr d x := by
  have hsettled : d.certs.Settled := h
  unfold body
  dsimp only
  split
  · exact forall_mem_recover (fun err => keeps_mk (fun _ => hsettled.2) halways)
  · next text htext =>
      obtain ⟨k, _, hparsed⟩ := pemToKey_of_keyToPEM htext
      exact forall_mem_some (keeps_mk ⟨hsettled, k, hparsed⟩ halways)

theorem importAccountUpdate_keeps {af : AccountFile} {toFile : Bool}
    (h : At cr (.importAccountUpdate af toFile) d) :
    ∀ x ∈ d.body cr config e (.importAccountUpdate af toFile), Keeps cr d x := by
  unfold body
  dsimp only
  split
  · exact forall_mem_some (keeps_mk h halways)
  · next hacc =>
      have hno : d.certs.hasAcc = false := by simpa using hacc
      split
      · exact forall_mem_recover (fun err => keeps_mk h halways)
      · next k hparsed =>
          split
          · next account _ =>
              exact forall_mem_some (keeps_account hno halways d.certs.accKey account _
                (matches_of_no_account hno))
          · next account hanswer =>
              obtain rfl := e.update.keeps hanswer
              exact forall_mem_some (keeps_account hno halways d.certs.accKey ⟨some k, af.url⟩ _
                ⟨hno, rfl, hparsed⟩)

theorem importAccountFlag_keeps {af : AccountFile} {toFile : Bool} {k : K}
    (h : At cr (.importAccountFlag af toFile k) d) :
    ∀ x ∈ d.body cr config e (.importAccountFlag af toFile k), Keeps cr d x := by
  obtain ⟨hno, haccount, hparsed⟩ := h
  exact forall_mem_some (keeps_account hno halways d.certs.accKey d.certs.account true
    ⟨rfl, haccount, hparsed⟩)

/-- The flag is already set here, but if key and account belong together, the key is not changed. -/
theorem importAccountKey_keeps {af : AccountFile} {toFile : Bool} {k : K}
    (h : At cr (.importAccountKey af toFile k) d) :
    ∀ x ∈ d.body cr config e (.importAccountKey af toFile k), Keeps cr d x := by
  obtain ⟨hhas, haccount, hparsed⟩ := h
  have hkey : ({ d.certs with accKey := some k } : CertManager K C).Settled :=
    ⟨hhas, k, rfl, by simp [haccount]⟩
  refine forall_mem_some ⟨?_, ⟨halways.accounts, halways.bundle, halways.stored, halways.served⟩,
    ?_, fun h => h⟩
  · cases toFile with
    | true => exact ⟨hkey, k, hparsed⟩
    | false => exact fun _ => hkey.2
  · rintro ⟨_, k', hk', hsame⟩
    simp only [haccount, Option.some.injEq] at hsame
    subst hsame
    exact ⟨hhas, hk'.symm, rfl⟩

/-- The files are written when the fields have been set. -/
theorem keeps_file {accounts : JsonFile AccountFile} {bundle : JsonFile Bundle}
    (hat : At cr q { d with accounts := accounts, bundle := bundle })
    (haccounts : ∀ af, accounts = .whole af → ∃ k, pemToKey cr af.privateKey = .ok k)
    (hbundle : ∀ b, bundle = .whole b → ∃ x, parseBundle cr b = .ok x) :
    Keeps cr d ({ d with accounts := accounts, bundle := bundle }, q) :=
  ⟨hat, ⟨haccounts, hbundle, halways.stored, halways.served⟩,
    ⟨fun h => ⟨h.1, rfl, rfl⟩, fun h => h⟩⟩

theorem createAccountFile_keeps {af : AccountFile} (h : At cr (.createAccountFile af) d) :
    ∀ x ∈ d.body cr config e (.createAccountFile af), Keeps cr d x := by
  obtain ⟨hsettled, hparsed⟩ := h
  unfold body
  dsimp only
  split
  · exact forall_mem_some (keeps_mk (fun _ => hsettled.2) halways)
  · exact forall_mem_some (keeps_file halways ⟨hsettled, hparsed, rfl⟩ (by simp) halways.bundle)

theorem writeAccountFile_keeps {af : AccountFile} (h : At cr (.writeAccountFile af) d) :
    ∀ x ∈ d.body cr config e (.writeAccountFile af), Keeps cr d x := by
  obtain ⟨hsettled, hparsed, _⟩ := h
  refine forall_mem_some (keeps_file halways (fun _ => hsettled.2) ?_ halways.bundle)
  intro af' hfile
  rw [eq_of_file hfile]
  exact hparsed

theorem exportAccountKey_keeps (hinv : d.certs.AccountMatches) :
    ∀ x ∈ d.body cr config e .exportAccountKey, Keeps cr d x := by
  unfold body
  dsimp only
  split
  · exact forall_mem_some (keeps_mk (by simp [At, Delivers]) halways)
  · next hacc =>
      split
      · exact forall_mem_recover (fun err => keeps_mk (by simp [At, Delivers]) halways)
      · next text htext =>
          have hhas : d.certs.hasAcc = true := by simpa using hacc
          exact forall_mem_some (keeps_mk ⟨⟨hhas, hinv hhas⟩, htext⟩ halways)

theorem exportAccountURL_keeps {text : String} (h : At cr (.exportAccountURL text) d) :
    ∀ x ∈ d.body cr config e (.exportAccountURL text), Keeps cr d x := by
  obtain ⟨hsettled, htext⟩ := h
  refine forall_mem_some (keeps_mk ?_ halways)
  rintro af hr
  cases hr
  exact ⟨hsettled, by simp [exportAccount, hsettled.1, htext]⟩

end accounts

/-- Assignments to the private key leave the rest alone. -/
theorem keeps_certPKey (halways : Always cr d) (certPKey : Option K) (hasCertPKey : Bool)
    (hat : At cr q { d with certs :=
      { d.certs with certPKey := certPKey, hasCertPKey := hasCertPKey } }) :
    Keeps cr d ({ d with certs :=
      { d.certs with certPKey := certPKey, hasCertPKey := hasCertPKey } }, q) :=
  ⟨hat, ⟨halways.accounts, halways.bundle, halways.stored, halways.served⟩,
    ⟨fun h => ⟨h.1, rfl, rfl⟩, fun h => h⟩⟩

theorem matches_of_no_cert {c : CertManager K C} (hno : c.hasCert = false) : c.KeyMatches cr :=
  fun hhas => absurd hhas (by simp [hno])

section certificates

variable (halways : Always cr d)

include halways

theorem importPrivateKeySet_keeps {text : String} (h : At cr (.importPrivateKeySet text) d) :
    ∀ x ∈ d.body cr config e (.importPrivateKeySet text), Keeps cr d x := by
  have hmatches : d.certs.KeyMatches cr := h
  unfold body
  dsimp only
  split
  · exact forall_mem_some (keeps_mk h halways)
  · next hflag =>
      -- a certificate would have come with the flag
      have hno : d.certs.hasCert = false := by
        by_contra hhas
        exact hflag (hmatches (by simpa using hhas)).1
      split
      · exact forall_mem_recover (fun err =>
          keeps_certPKey halways none _ (matches_of_no_cert hno))
      · next k _ =>
          exact forall_mem_some (keeps_certPKey halways (some k) _ (matches_of_no_cert hno))

theorem exportPrivateKeyPem_keeps {caller : Caller K} :
    ∀ x ∈ d.body cr config e (.exportPrivateKeyPem caller), Keeps cr d x := by
  unfold body
  dsimp only
  split
  · exact forall_mem_some (keeps_mk (by simp [At, Delivers]) halways)
  · split
    · exact forall_mem_recover (fun err => keeps_mk (by simp [At, Delivers]) halways)
    · next text htext =>
        refine forall_mem_some (keeps_mk ?_ halways)
        rintro text' hr
        cases hr
        obtain ⟨k, _, hparsed⟩ := pemToKey_of_keyToPEM htext
        exact ⟨k, hparsed⟩

theorem importBundle_keeps {caller : Caller K} {bundle : Bundle} {toFile : Bool} :
    ∀ x ∈ d.body cr config e (.importBundle caller bundle toFile), Keeps cr d x := by
  unfold body
  dsimp only
  split
  · exact forall_mem_recover (fun err => keeps_mk (at_imported caller _) halways)
  · next k cert hparsed => exact forall_mem_some (keeps_mk hparsed halways)

theorem setCertPKey_keeps {caller : Caller K} {j : Install K C}
    (h : At cr (.setCertPKey caller j) d) :
    ∀ x ∈ d.body cr config e (.setCertPKey caller j), Keeps cr d x :=
  forall_mem_some (keeps_certPKey halways (some j.pKey) _ ⟨h, rfl⟩)

theorem setStoredCert_keeps {caller : Caller K} {j : Install K C}
    (h : At cr (.setStoredCert caller j) d) :
    ∀ x ∈ d.body cr config e (.setStoredCert caller j), Keeps cr d x := by
  obtain ⟨hparsed, hkey⟩ := h
  refine forall_mem_some ⟨⟨hparsed, hkey, rfl⟩, ⟨halways.accounts, halways.bundle, ?_, by simp⟩,
    ⟨fun h => ⟨h.1, rfl, rfl⟩, fun h => h⟩⟩
  rintro cert hcert
  cases hcert
  exact ⟨j.bundle, j.pKey, j.cert, hparsed, rfl⟩

theorem setStoredPem_keeps {caller : Caller K} {j : Install K C}
    (h : At cr (.setStoredPem caller j) d) :
    ∀ x ∈ d.body cr config e (.setStoredPem caller j), Keeps cr d x := by
  obtain ⟨hparsed, hkey, hcert⟩ := h
  exact forall_mem_some ⟨⟨hparsed, hkey, hcert, rfl⟩,
    ⟨halways.accounts, halways.bundle, halways.stored, halways.served⟩,
    ⟨fun h => ⟨h.1, rfl, rfl⟩, fun h => h⟩⟩

theorem setHasCert_keeps {caller : Caller K} {j : Install K C}
    (h : At cr (.setHasCert caller j) d) :
    ∀ x ∈ d.body cr config e (.setHasCert caller j), Keeps cr d x := by
  have hcert : d.certs.storedCert = some j.cert := h.2.2.1
  exact forall_mem_some ⟨h, ⟨halways.accounts, halways.bundle, halways.stored, by simp [hcert]⟩,
    ⟨fun h => ⟨h.1, rfl, rfl⟩, fun _ => rfl⟩⟩

theorem setHasCertPKey_keeps {caller : Caller K} {j : Install K C}
    (h : At cr (.setHasCertPKey caller j) d) :
    ∀ x ∈ d.body cr config e (.setHasCertPKey caller j), Keeps cr d x := by
  obtain ⟨hparsed, hkey, hcert, hpem⟩ := h
  have hmatches : ({ d.certs with hasCertPKey := true } : CertManager K C).KeyMatches cr :=
    fun _ => ⟨rfl, j.pKey, j.cert, by rw [hpem]; exact hparsed, hkey, hcert⟩
  refine forall_mem_some (keeps_certPKey halways d.certs.certPKey true ?_)
  cases j.toFile with
  | true => exact ⟨hmatches, _, hparsed⟩
  | false => exact hmatches

theorem createBundleFile_keeps {caller : Caller K} {bundle : Bundle}
    (h : At cr (.createBundleFile caller bundle) d) :
    ∀ x ∈ d.body cr config e (.createBundleFile caller bundle), Keeps cr d x := by
  obtain ⟨hmatches, hparsed⟩ := h
  unfold body
  dsimp only
  split
  · exact forall_mem_some (keeps_mk hmatches halways)
  · exact forall_mem_some
      (keeps_file halways ⟨hmatches, hparsed, rfl⟩ halways.accounts (by simp))

theorem writeBundleFile_keeps {caller : Caller K} {bundle : Bundle}
    (h : At cr (.writeBundleFile caller bundle) d) :
    ∀ x ∈ d.body cr config e (.writeBundleFile caller bundle), Keeps cr d x := by
  obtain ⟨hmatches, hparsed, _⟩ := h
  refine forall_mem_some (keeps_file halways hmatches halways.accounts ?_)
  intro b hfile
  rw [eq_of_file hfile]
  exact hparsed

theorem exportBundleKey_keeps : ∀ x ∈ d.body cr config e .exportBundleKey, Keeps cr d x := by
  unfold body
  dsimp only
  split
  · exact forall_mem_some (keeps_mk (by simp [At, Delivers]) halways)
  · next hhas => exact forall_mem_some (keeps_mk ⟨by simpa using hhas, rfl⟩ halways)

theorem exportBundleChain_keeps {text : String} (h : At cr (.exportBundleChain text) d)
    (hinv : d.certs.StoredMatches cr) :
    ∀ x ∈ d.body cr config e (.exportBundleChain text), Keeps cr d x := by
  obtain ⟨hhas, rfl⟩ := h
  refine forall_mem_some (keeps_mk ?_ halways)
  rintro b hr
  cases hr
  obtain ⟨k, cert, hparsed, _⟩ := hinv hhas
  exact ⟨_, hparsed⟩

theorem getCertificatesCheck_keeps :
    ∀ x ∈ d.body cr config e .getCertificatesCheck, Keeps cr d x := by
  unfold body
  dsimp only
  split
  · exact forall_mem_some (keeps_mk (by simp [At]) halways)
  · next hhas => exact forall_mem_some (keeps_mk (fun _ => by simpa using hhas) halways)

/-- Once there is a certificate, there always is one. -/
theorem genuine_storedCert (hhas : d.certs.hasCert = true) : Genuine cr d.certs.storedCert := by
  obtain ⟨cert, hcert⟩ := Option.ne_none_iff_exists'.1 (halways.served hhas)
  rw [hcert]
  exact halways.stored cert hcert

theorem handshakeChain_keeps (h : At cr .handshakeChain d) :
    ∀ x ∈ d.body cr config e .handshakeChain, Keeps cr d x :=
  forall_mem_some (keeps_mk ⟨h, genuine_storedCert halways h⟩ halways)

theorem handshakeKey_keeps {chain : Option C} (h : At cr (.handshakeKey chain) d) :
    ∀ x ∈ d.body cr config e (.handshakeKey chain), Keeps cr d x := by
  refine forall_mem_some (keeps_mk ?_ halways)
  rintro chain' key hr
  cases hr
  exact ⟨h.2, genuine_storedCert halways h.1⟩

theorem requestKey_keeps (h : At cr .requestKey d) :
    ∀ x ∈ d.body cr config e .requestKey, Keeps cr d x := by
  have hmatches : d.certs.KeyMatches cr := h
  unfold body
  dsimp only
  split
  · next k hkey => exact forall_mem_some (keeps_mk ⟨hmatches, by simp [hkey]⟩ halways)
  · next hkey =>
      -- a certificate would have come with the key
      have hno : d.certs.hasCert = false := by
        by_contra hhas
        obtain ⟨_, k, _, _, hk, _⟩ := hmatches (by simpa using hhas)
        simp [hk] at hkey
      split
      · exact forall_mem_some (keeps_certPKey halways none _ (matches_of_no_cert hno))
      · next k _ => exact forall_mem_some (keeps_certPKey halways (some k) _ ⟨hno, by simp⟩)

theorem requestFlag_keeps (h : At cr .requestFlag d) :
    ∀ x ∈ d.body cr config e .requestFlag, Keeps cr d x := by
  obtain ⟨hno, hkey⟩ := h
  exact forall_mem_some (keeps_certPKey halways d.certs.certPKey true
    ⟨matches_of_no_cert hno, hkey⟩)

theorem requestSign_keeps (h : At cr .requestSign d) :
    ∀ x ∈ d.body cr config e .requestSign, Keeps cr d x := by
  obtain ⟨hmatches, _⟩ := h
  unfold body
  dsimp only
  split
  · simp
  · exact forall_mem_some (keeps_mk hmatches halways)

end certificates

/-- **One computation** of any call. -/
theorem body_keeps (h : At cr p d) (hread : ∀ l, p.held.of l = some .read → Inv cr l d)
    (halways : Always cr d) : ∀ x ∈ d.body cr config e p, Keeps cr d x := by
  cases p with
  | createKey => exact createKey_keeps halways h
  | createRegister => exact createRegister_keeps halways h
  | createFlag => exact createFlag_keeps halways h
  | createPem => exact createPem_keeps halways h
  | importAccountUpdate => exact importAccountUpdate_keeps halways h
  | importAccountFlag => exact importAccountFlag_keeps halways h
  | importAccountKey => exact importAccountKey_keeps halways h
  | createAccountFile => exact createAccountFile_keeps halways h
  | writeAccountFile => exact writeAccountFile_keeps halways h
  | exportAccountKey => exact exportAccountKey_keeps halways (hread .accMu rfl)
  | exportAccountURL => exact exportAccountURL_keeps halways h
  | importPrivateKeySet => exact importPrivateKeySet_keeps halways h
  | exportPrivateKeyPem => exact exportPrivateKeyPem_keeps halways
  | importBundle => exact importBundle_keeps halways
  | setCertPKey => exact setCertPKey_keeps halways h
  | setStoredCert => exact setStoredCert_keeps halways h
  | setStoredPem => exact setStoredPem_keeps halways h
  | setHasCert => exact setHasCert_keeps halways h
  | setHasCertPKey => exact setHasCertPKey_keeps halways h
  | createBundleFile => exact createBundleFile_keeps halways h
  | writeBundleFile => exact writeBundleFile_keeps halways h
  | exportBundleKey => exact exportBundleKey_keeps halways
  | exportBundleChain => exact exportBundleChain_keeps halways h (hread .certMu rfl)
  | getCertificatesCheck => exact getCertificatesCheck_keeps halways
  | handshakeChain => exact handshakeChain_keeps halways h
  | handshakeKey => exact handshakeKey_keeps halways h
  | requestKey => exact requestKey_keeps halways h
  | requestFlag => exact requestFlag_keeps halways h
  | requestSign => exact requestSign_keeps halways h
  | loadAccountFromFile | requestCheck | requestParse _ | requestOrder _ _ =>
      -- neither changes anything, and what follows relies on nothing
      unfold body
      dsimp only
      repeat' split
      all_goals
        first
        | exact forall_mem_some (keeps_mk trivial halways)
        | exact forall_mem_recover (fun err => keeps_mk trivial halways)
  | _ => simp [body]

end Store

/-- What the locks of the manager guard. -/
def regions (cr : Crypto K C) (config : NameConfig) : Regions (discipline cr config) where
  Same := Store.Same
  same_body _ hbody hl := Store.body_same _ _ _ _ _ _ hbody _ hl

/-- The outline of the manager's operations. -/
def outline (cr : Crypto K C) (config : NameConfig) : Outline (regions cr config) where
  Ok _ := True
  Evolves := Store.Evolves
  Always := Store.Always cr
  Inv := Store.Inv cr
  At := Store.At cr
  inv_same := Store.inv_same
  at_same := Store.at_same
  at_acquire := Store.at_acquire
  at_release := Store.at_release
  at_body _ hbody _ h hread halways := Store.body_keeps h hread halways _ hbody

/-! ## The start of the server -/

namespace CertManager

variable {cr : Crypto K C} {c : CertManager K C}

/-- `LoadAccountFromFile` brings the account of the file, or none. -/
theorem loadAccount_cases (cr : Crypto K C) (file : FileRead AccountFile) (w : AccountUpdate K) :
    (∃ account, (init.loadAccountFromFile cr file w).1 = { init with account := account }) ∨
      ∃ af k, file = .value af ∧ pemToKey cr af.privateKey = .ok k ∧
        (init.loadAccountFromFile cr file w).1 = (init : CertManager K C).withAccount k af.url := by
  cases file with
  | value af =>
      cases hk : pemToKey cr af.privateKey with
      | error f => exact Or.inl ⟨_, by simp [loadAccountFromFile, importAccount, init, hk]; rfl⟩
      | ok k =>
          rcases w.update.cases ⟨some k, af.url⟩ with ⟨cause, account, hw⟩ | hw
          · exact Or.inl ⟨account, by simp [loadAccountFromFile, importAccount, init, hk, hw]⟩
          · refine Or.inr ⟨af, k, rfl, hk, ?_⟩
            simp [loadAccountFromFile, importAccount, init, hk, hw, withAccount]
  | _ => exact Or.inl ⟨_, rfl⟩

/-- `LoadBundleFromFile` installs the bundle of the file, or does nothing. -/
theorem loadBundle_cases (cr : Crypto K C) (c : CertManager K C) (file : FileRead Bundle)
    (w : FileWrite) : (c.loadBundleFromFile cr file w).1 = c ∨
      ∃ b k cert, file = .value b ∧ parseBundle cr b = .ok (k, cert) ∧
        (c.loadBundleFromFile cr file w).1 = c.installBundle b k cert := by
  cases file with
  | value b =>
      cases hparsed : parseBundle cr b with
      | error f => exact Or.inl (by simp [loadBundleFromFile, importBundle, hparsed])
      | ok x =>
          exact Or.inr ⟨b, x.1, x.2, rfl, hparsed,
            by simp [loadBundleFromFile, importBundle, hparsed]⟩
  | _ => exact Or.inl rfl

/-- Key material that can be parsed does not make the start panic. -/
theorem loadAccount_no_panic {file : FileRead AccountFile}
    (hfile : ∀ af, file = .value af → ∃ k, pemToKey cr af.privateKey = .ok k)
    (w : AccountUpdate K) :
    isPanic ((init : CertManager K C).loadAccountFromFile cr file w).2 = false := by
  cases file with
  | value af =>
      obtain ⟨k, hk⟩ := hfile af rfl
      rcases w.update.cases ⟨some k, af.url⟩ with ⟨cause, account, hw⟩ | hw <;>
        simp [loadAccountFromFile, importAccount, init, hk, hw, failed, isPanic, Fault.isPanic]
  | _ => simp [loadAccountFromFile, failed, isPanic, Fault.isPanic]

theorem loadBundle_no_panic {file : FileRead Bundle}
    (hfile : ∀ b, file = .value b → ∃ x, parseBundle cr b = .ok x) :
    isPanic (c.loadBundleFromFile cr file .done).2 = false := by
  cases file with
  | value b =>
      obtain ⟨x, hx⟩ := hfile b rfl
      simp [loadBundleFromFile, importBundle, hx, isPanic]
  | _ => simp [loadBundleFromFile, failed, isPanic, Fault.isPanic]

end CertManager

namespace Store

variable {cr : Crypto K C} {config : NameConfig} {d : Store K C}

theorem read_value {α : Type} {file : JsonFile α} {a : α} (opened : Except String Unit)
    (h : file.read opened = .value a) : file = .whole a := by
  unfold JsonFile.read at h
  split at h <;> cases h
  rfl

/-- What a started server has: the account of the file or none, and the bundle of the file or
    none. -/
theorem boot_cases (cr : Crypto K C) (d : Store K C) (b : Boot K) :
    ∃ c : CertManager K C,
      ((∃ account, c = { init with account := account }) ∨
        ∃ af k, d.accounts = .whole af ∧ pemToKey cr af.privateKey = .ok k ∧
          c = init.withAccount k af.url) ∧
      ((d.boot cr b).data = { d with certs := c } ∨
        ∃ x k cert, d.bundle = .whole x ∧ parseBundle cr x = .ok (k, cert) ∧
          (d.boot cr b).data = { d with certs := c.installBundle x k cert }) := by
  refine ⟨(init.loadAccountFromFile cr (d.accounts.read b.accountsOpened) b.update).1, ?_, ?_⟩
  · rcases loadAccount_cases (C := C) cr (d.accounts.read b.accountsOpened) b.update with
      h | ⟨af, k, hfile, hk, hc⟩
    · exact Or.inl h
    · exact Or.inr ⟨af, k, read_value _ hfile, hk, hc⟩
  · rcases loadBundle_cases cr
      (init.loadAccountFromFile cr (d.accounts.read b.accountsOpened) b.update).1
      (d.bundle.read b.bundleOpened) .done with h | ⟨x, k, cert, hfile, hparsed, hc⟩
    · exact Or.inl (by simp only [boot, Process.start, h])
    · exact Or.inr ⟨x, k, cert, read_value _ hfile, hparsed, by simp only [boot, Process.start, hc]⟩

/-- The files of the manager do not make the start panic. -/
theorem boot_crashed (h : Always cr d) (b : Boot K) : (d.boot cr b).crashed = false := by
  have haccount := loadAccount_no_panic (C := C)
    (fun af haf => h.accounts af (read_value b.accountsOpened haf)) b.update
  have hbundle := loadBundle_no_panic
    (c := (init.loadAccountFromFile cr (d.accounts.read b.accountsOpened) b.update).1)
    (fun x hx => h.bundle x (read_value b.bundleOpened hx))
  simp [boot, haccount, hbundle]

/-- A started server has no calls yet, so an outline holds if its invariants do. -/
theorem valid_boot {o : Outline (regions cr config)} {b : Boot K}
    (hinv : ∀ l, o.Inv l (d.boot cr b).data) (halways : o.Always (d.boot cr b).data) :
    o.Valid (d.boot cr b) where
  ledger l c := by cases c <;> rfl
  points := by simp [boot, Process.start]
  locks l _ := hinv l
  always := halways

theorem boot_valid (h : Always cr d) (b : Boot K) : (outline cr config).Valid (d.boot cr b) := by
  obtain ⟨c, hc, hd⟩ := boot_cases cr d b
  have haccount : c.AccountMatches := by
    rcases hc with ⟨account, rfl⟩ | ⟨af, k, _, _, rfl⟩
    · exact matches_of_no_account rfl
    · exact fun _ => ⟨k, rfl, rfl⟩
  have hno : c.hasCert = false ∧ c.storedCert = none := by
    rcases hc with ⟨account, rfl⟩ | ⟨af, k, _, _, rfl⟩ <;> exact ⟨rfl, rfl⟩
  rcases hd with hd | ⟨x, k, cert, _, hparsed, hd⟩
  · refine valid_boot ?_ ?_ <;> rw [hd]
    · intro l
      cases l with
      | accMu => exact haccount
      | certPKeyMu => exact matches_of_no_cert hno.1
      | certMu => exact storedMatches_of_keyMatches (matches_of_no_cert hno.1)
    · exact ⟨h.accounts, h.bundle, by simp [hno.2], by simp [hno.1]⟩
  · have hmatches : (c.installBundle x k cert).KeyMatches cr :=
      fun _ => ⟨rfl, k, cert, hparsed, rfl, rfl⟩
    refine valid_boot ?_ ?_ <;> rw [hd]
    · intro l
      cases l with
      | accMu => exact haccount
      | certPKeyMu => exact hmatches
      | certMu => exact storedMatches_of_keyMatches hmatches
    · refine ⟨h.accounts, h.bundle, ?_, by simp [installBundle]⟩
      rintro cert' hcert
      cases hcert
      exact ⟨x, k, cert, hparsed, rfl⟩

end Store

namespace Host

variable {cr : Crypto K C} {config : NameConfig} {s s' : Host K C} {a : Action K}

theorem valid_step (h : (outline cr config).Valid s) (hstep : s.step cr config a = some s') :
    (outline cr config).Valid s' := by
  cases a with
  | call c =>
      simp only [step, Option.ite_none_left_eq_some, Option.some.injEq] at hstep
      obtain ⟨_, rfl⟩ := hstep
      refine h.spawn ?_ ?_
      · intro l
        cases c <;> cases l <;> rfl
      · cases c <;> exact trivial
  | run i e => exact h.step trivial hstep
  | restart b =>
      cases hstep
      exact Store.boot_valid h.always b

theorem valid_of_reachable (h : (machine cr config).Reachable s) : (outline cr config).Valid s := by
  refine h.invariant ?_ (fun s a s' => valid_step)
  rintro s rfl
  refine Outline.valid_start ?_ ⟨by simp, by simp, by simp [init], by simp [init]⟩
  intro l
  cases l <;> exact fun habs => by simp [init] at habs

/-- A call of this process has returned `r`. -/
def Returned (s : Host K C) (r : Outcome C) : Prop := ∃ g ∈ s.threads, g.point = .returned r

/-- Nobody is inside a lock for writing. -/
def Quiet (s : Host K C) : Prop := ∀ g ∈ s.threads, ∀ l, g.point.held.of l ≠ some .write

instance (s : Host K C) : Decidable s.Quiet :=
  decidable_of_iff (∀ g ∈ s.threads, g.point.held.accMu ≠ some .write ∧
      g.point.held.certPKeyMu ≠ some .write ∧ g.point.held.certMu ≠ some .write)
    ⟨fun h g hg l => by
      obtain ⟨hacc, hkey, hcert⟩ := h g hg
      cases l <;> assumption, fun h g hg => ⟨h g hg .accMu, h g hg .certPKeyMu, h g hg .certMu⟩⟩

/-- **What is exported is whole.** In every interleaving of the assignments of any number of
    calls: all accounts that a process has exported are the one it has now, key and URL; an exported
    bundle has the key of its chain, and an exported private key can be parsed; and whenever no
    writer is inside a lock, account, key, certificate and text belong together. -/
theorem exports_whole (hs : (machine cr config).Reachable s) :
    (∀ af, s.Returned (.account (.ok af)) → s.data.certs.exportAccount cr = .ok af) ∧
      (∀ b, s.Returned (.bundle (.ok b)) → ∃ x, parseBundle cr b = .ok x) ∧
      (∀ text, s.Returned (.pKey (.ok text)) → ∃ k, pemToKey cr text = .ok k) ∧
      (s.Quiet → KeysMatch cr s.data.certs) := by
  have hvalid := valid_of_reachable hs
  have hdelivers : ∀ r, s.Returned r → s.data.Delivers cr r := by
    rintro r ⟨g, hg, hpoint⟩
    have hat := hvalid.points g hg
    rw [hpoint] at hat
    exact hat
  refine ⟨?_, ?_, ?_, ?_⟩
  · exact fun af hr => (hdelivers _ hr af rfl).2
  · exact fun b hr => hdelivers _ hr b rfl
  · exact fun text hr => hdelivers _ hr text rfl
  · intro hquiet
    exact ⟨hvalid.locks .accMu (fun g hg => hquiet g hg .accMu),
      hvalid.locks .certPKeyMu (fun g hg => hquiet g hg .certPKeyMu)⟩

/-- An account is created and a certificate requested; then both are exported, in turns. -/
def exportingCalls : List (Action Bool) :=
  .call .createAccount :: List.replicate 9 (.run 0 (smooth true)) ++
    .call .requestCertificate :: List.replicate 28 (.run 1 (smooth true)) ++
    [.call .exportAccount, .call .exportBundle] ++
    (List.replicate 4 [Action.run 2 (smooth true), .run 3 (smooth true)]).flatten

theorem exports_whole_four : ∃ s : Host Bool (String × String),
    ((machine twoKeys exampleNames).Reachable s ∧
      (s.threads.map (fun g => g.point.work) = [0, 0, 0, 0] ∧
        s.data.certs.account = ⟨some true, "u"⟩ ∧ s.data.certs.storedPem = ⟨"B", ["CB"]⟩)) ∧
    (∀ af, s.Returned (.account (.ok af)) → s.data.certs.exportAccount twoKeys = .ok af) ∧
      (∀ b, s.Returned (.bundle (.ok b)) → ∃ x, parseBundle twoKeys b = .ok x) ∧
      (∀ text, s.Returned (.pKey (.ok text)) → ∃ k, pemToKey twoKeys text = .ok k) ∧
      (s.Quiet → KeysMatch twoKeys s.data.certs) := by
  obtain ⟨s, hs, hP⟩ := Machine.reachable_of_exec_any (machine twoKeys exampleNames) rfl
    exportingCalls
    (P := fun s => s.threads.map (fun g => g.point.work) = [0, 0, 0, 0] ∧
      s.data.certs.account = ⟨some true, "u"⟩ ∧ s.data.certs.storedPem = ⟨"B", ["CB"]⟩)
    (by decide)
  exact ⟨s, ⟨hs, hP⟩, exports_whole hs⟩

end Host

end Tunnel.Acme
