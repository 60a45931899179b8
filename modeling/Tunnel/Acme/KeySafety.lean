import Tunnel.Acme.CertManager
import Tunnel.Lib.Machine
import Tunnel.Lib.Pool

set_option autoImplicit false

/-! # The certificate manager never mixes keys (`acme/acme.go`)

Three locks guard the fields of `CertManager`, and its operations run concurrently: bundles arrive
from other nodes while the leader requests a certificate. Every step of the machine below is one
section of an operation between taking and releasing a lock, or what lies between two sections.

`CreateAccount`, `ImportAccount` and `ImportPrivateKey` are one section each. `ImportBundle` parses
before it takes its locks. `RequestCertificate` holds `accMu` for reading all the time, so no
account is created or imported meanwhile; it takes `certPKeyMu` to find or generate the key and once
more to export it, and ends as `ImportBundle` does. What keeps the fields together is that only
`installBundle` sets `hasCert`, that it sets all of them, and that no other section touches a key
once its flag is set (`KeysMatch`). -/

namespace Tunnel.Acme

open Tunnel.Lib

/-- Program point of `ImportBundle`: before it parses; before its section, with what it parsed;
    returned. -/
inductive ImportPc (K C : Type)
  | parse
  | install (k : K) (cert : C)
  | returned (r : Except Fault Unit)

/-- A call `ImportBundle(bundle, persist)`. -/
structure ImportCall (K C : Type) where
  bundle : Bundle
  toFile : Bool
  pc : ImportPc K C

/-- Program point of `RequestCertificate`: before it takes `accMu`; before the section that finds or
    generates the key; before the export, with the key that signed the request; before the order,
    with the exported key; in `ImportBundle`, before it parses and before its section; returned. -/
inductive RequestPc (K C : Type)
  | start
  | prepare
  | exportKey (signer : K)
  | order (signer : K) (pKey : String)
  | parse (signer : K) (bundle : Bundle)
  | install (signer : K) (bundle : Bundle) (k : K) (cert : C)
  | returned (r : Except Fault Unit)

/-- The call holds `accMu` for reading. -/
def RequestPc.holdsAccount {K C : Type} : RequestPc K C → Bool
  | .start | .returned _ => false
  | .prepare | .exportKey _ | .order _ _ | .parse _ _ | .install _ _ _ _ => true

/-- A manager and the calls in progress on it. After a panic the process is gone. -/
structure Manager (K C : Type) where
  certs : CertManager K C
  imports : List (ImportCall K C)
  requests : List (RequestPc K C)
  crashed : Bool

namespace Manager

variable {K C : Type}

def init : Manager K C := ⟨CertManager.init, [], [], false⟩

/-- The operations that only read. -/
inductive Read
  | exportAccount
  | exportPrivateKey
  | exportBundle
  | getCertificatesFunc

/-- A step: an operation of one section runs, with what it meets outside; `ImportBundle` or
    `RequestCertificate` is called; the `i`-th such call goes on. -/
inductive Action (K : Type)
  | createAccount (w : AccountCreation K)
  | importAccount (af : AccountFile) (toFile : Bool) (w : AccountUpdate K)
  | importPrivateKey (text : String)
  | read (r : Read)
  | importBundle (bundle : Bundle) (toFile : Bool)
  | importStep (i : ℕ) (w : FileWrite)
  | requestCertificate
  | requestStep (i : ℕ) (w : CertificateRequest K)

/-- No `RequestCertificate` holds `accMu`. -/
def AccountFree (s : Manager K C) : Prop := ∀ pc ∈ s.requests, pc.holdsAccount = false

instance (s : Manager K C) : Decidable s.AccountFree :=
  inferInstanceAs (Decidable (∀ pc ∈ s.requests, pc.holdsAccount = false))

/-- The state after an operation of one section. -/
def after (s : Manager K C) (next : CertManager K C × Except Fault Unit) : Manager K C :=
  { s with certs := next.1, crashed := isPanic next.2 }

def Read.panics (cr : Crypto K C) (c : CertManager K C) : Read → Bool
  | .exportAccount => isPanic (c.exportAccount cr)
  | .exportPrivateKey => isPanic (c.exportPrivateKey cr)
  | .exportBundle => isPanic c.exportBundle
  | .getCertificatesFunc => isPanic c.getCertificatesFunc

/-- The next section of an `ImportBundle` (acme.go:250-278). -/
def importStep (cr : Crypto K C) (s : Manager K C) (i : ℕ) (call : ImportCall K C)
    (w : FileWrite) : Option (Manager K C) :=
  match call.pc with
  | .parse =>
      match CertManager.parseBundle cr call.bundle with
      | .error f =>
          some { s with
            imports := s.imports.set i { call with pc := .returned (.error f) }
            crashed := f.isPanic }
      | .ok (k, cert) =>
          some { s with imports := s.imports.set i { call with pc := .install k cert } }
  | .install k cert =>
      some { s with
        certs := s.certs.installBundle call.bundle k cert
        imports := s.imports.set i
          { call with
            pc := .returned (if call.toFile = true then persisCerts w else .ok ()) } }
  | .returned _ => none

/-- The `i`-th `RequestCertificate` ends. -/
def endRequest (s : Manager K C) (i : ℕ) (r : Except Fault Unit) : Manager K C :=
  { s with requests := s.requests.set i (.returned r), crashed := isPanic r }

/-- The `i`-th `RequestCertificate` goes on. -/
def moveRequest (s : Manager K C) (i : ℕ) (pc : RequestPc K C) : Manager K C :=
  { s with requests := s.requests.set i pc }

/-- The next section of a `RequestCertificate` (acme.go:291-429). -/
def requestStep (cr : Crypto K C) (config : NameConfig) (s : Manager K C) (i : ℕ)
    (pc : RequestPc K C) (w : CertificateRequest K) : Option (Manager K C) :=
  match pc with
  | .start =>
      if s.certs.hasAcc = false then some (s.endRequest i (.error (.error .noAccount)))
      else match requestNames config with
        | .error f => some (s.endRequest i (.error f))
        | .ok _ => some (s.moveRequest i .prepare)
  | .prepare =>
      match s.certs.prepareKey w with
      | (c, .error f) => some ({ s with certs := c }.endRequest i (.error f))
      | (c, .ok k) => some ({ s with certs := c }.moveRequest i (.exportKey k))
  | .exportKey k =>
      match s.certs.exportForRequest cr with
      | .error f => some (s.endRequest i (.error f))
      | .ok pKey => some (s.moveRequest i (.order k pKey))
  | .order k pKey =>
      match w.order.run with
      | .error f => some (s.endRequest i (.error f))
      | .ok certs => some (s.moveRequest i (.parse k (CertManager.bundleOf cr pKey certs)))
  | .parse k bundle =>
      match CertManager.parseBundle cr bundle with
      | .error f => some (s.endRequest i (.error (f.wrap "re-importing exported certificate")))
      | .ok (k', cert) => some (s.moveRequest i (.install k bundle k' cert))
  | .install _ bundle k' cert =>
      some ({ s with certs := s.certs.installBundle bundle k' cert }.endRequest i
        ((persisCerts w.persist).mapError (Fault.wrap "re-importing exported certificate")))
  | .returned _ => none

/-- One step; none after a panic. -/
def step (cr : Crypto K C) (config : NameConfig) (s : Manager K C) (a : Action K) :
    Option (Manager K C) :=
  if s.crashed = true then none
  else match a with
    | .createAccount w =>
        if s.AccountFree then some (s.after (s.certs.createAccount cr w)) else none
    | .importAccount af toFile w =>
        if s.AccountFree then some (s.after (s.certs.importAccount cr af toFile w)) else none
    | .importPrivateKey text => some (s.after (s.certs.importPrivateKey cr text))
    | .read r => some { s with crashed := r.panics cr s.certs }
    | .importBundle bundle toFile =>
        some { s with imports := s.imports ++ [⟨bundle, toFile, .parse⟩] }
    | .importStep i w => s.imports[i]?.bind (fun call => s.importStep cr i call w)
    | .requestCertificate => some { s with requests := s.requests ++ [.start] }
    | .requestStep i w => s.requests[i]?.bind (fun pc => s.requestStep cr config i pc w)

/-- A certificate manager under every interleaving of its operations. -/
def machine (cr : Crypto K C) (config : NameConfig) : Machine (Manager K C) (Action K) where
  Init s := s = init
  step s a := s.step cr config a

end Manager

/-! ## What the sections keep -/

namespace CertManager

variable {K C : Type} {cr : Crypto K C} {c c' : CertManager K C}

/-- The account is the one its key was registered or updated with; and served certificate, exported
    bundle and private key come from one bundle. -/
structure KeysMatch (cr : Crypto K C) (c : CertManager K C) : Prop where
  account : c.hasAcc = true → ∃ k, c.accKey = some k ∧ c.account.privateKey = some k
  cert : c.hasCert = true → c.hasCertPKey = true ∧
    ∃ k cert, parseBundle cr c.storedPem = .ok (k, cert) ∧ c.certPKey = some k ∧
      c.storedCert = some cert

/-- An account that is there stays there, with its key. -/
def AccountKept (c c' : CertManager K C) : Prop :=
  c.hasAcc = true → c'.hasAcc = true ∧ c'.accKey = c.accKey ∧ c'.account = c.account

/-- A section keeps both. -/
structure Safe (cr : Crypto K C) (c c' : CertManager K C) : Prop where
  keys : KeysMatch cr c → KeysMatch cr c'
  kept : AccountKept c c'

theorem safe_refl : Safe cr c c := ⟨fun h => h, fun h => ⟨h, rfl, rfl⟩⟩

theorem keysMatch_init : KeysMatch cr (init : CertManager K C) where
  account h := by cases h
  cert h := by cases h

/-- While there is no account, anything may be assigned to its key and to itself. -/
theorem safe_assign (hno : c.hasAcc = false) (accKey : Option K) (account : Account K) :
    Safe cr c { c with accKey := accKey, account := account } where
  keys h := ⟨fun habs => absurd habs (by simp [hno]), h.cert⟩
  kept h := absurd h (by simp [hno])

theorem safe_withAccount (hno : c.hasAcc = false) (k : K) (url : String) :
    Safe cr c (c.withAccount k url) where
  keys h := ⟨fun _ => ⟨k, rfl, rfl⟩, h.cert⟩
  kept h := absurd h (by simp [hno])

theorem createAccount_safe (w : AccountCreation K) : Safe cr c (c.createAccount cr w).1 := by
  unfold createAccount
  split
  · exact safe_refl
  · next hacc =>
      have hno : c.hasAcc = false := by simpa using hacc
      split
      · exact safe_assign hno none c.account
      · split
        · exact safe_assign hno _ _
        · split <;> exact safe_withAccount hno _ _

theorem importAccount_safe (af : AccountFile) (toFile : Bool) (w : AccountUpdate K) :
    Safe cr c (c.importAccount cr af toFile w).1 := by
  unfold importAccount
  split
  · exact safe_refl
  · next hacc =>
      have hno : c.hasAcc = false := by simpa using hacc
      split
      · exact safe_refl
      · next k _ =>
          split
          · exact safe_assign hno c.accKey _
          · next account hanswer =>
              obtain rfl := w.update.keeps hanswer
              exact safe_withAccount hno k af.url

/-- While there is no certificate, the private key and its flag may change. -/
theorem safe_assignPKey (hno : c.hasCert = false) (certPKey : Option K) (hasCertPKey : Bool) :
    Safe cr c { c with certPKey := certPKey, hasCertPKey := hasCertPKey } where
  keys h := ⟨h.account, fun habs => absurd habs (by simp [hno])⟩
  kept h := ⟨h, rfl, rfl⟩

/-- A certificate comes with the flag of its key. -/
theorem KeysMatch.no_cert_of_no_flag (h : KeysMatch cr c) (hflag : c.hasCertPKey = false) :
    c.hasCert = false := by
  by_contra hcert
  rw [Bool.not_eq_false] at hcert
  simp [(h.cert hcert).1] at hflag

/-- A certificate comes with its key. -/
theorem KeysMatch.no_cert_of_no_key (h : KeysMatch cr c) (hkey : c.certPKey = none) :
    c.hasCert = false := by
  by_contra hcert
  rw [Bool.not_eq_false] at hcert
  obtain ⟨_, k, cert, _, hk, _⟩ := h.cert hcert
  simp [hk] at hkey

theorem importPrivateKey_safe (text : String) : Safe cr c (c.importPrivateKey cr text).1 := by
  unfold importPrivateKey
  split
  · exact safe_refl
  · next hflag =>
      have hflag' : c.hasCertPKey = false := by simpa using hflag
      -- whatever becomes of the key, there was no certificate
      have hassign : ∀ certPKey, Safe cr c { c with certPKey := certPKey } := fun certPKey =>
        { keys := fun h => (safe_assignPKey (h.no_cert_of_no_flag hflag') certPKey _).keys h
          kept := fun h => ⟨h, rfl, rfl⟩ }
      split
      · exact safe_refl
      · exact hassign none
      · exact hassign _

theorem prepareKey_safe (cr : Crypto K C) (c : CertManager K C) (w : CertificateRequest K) :
    Safe cr c (c.prepareKey w).1 := by
  unfold prepareKey
  split
  · exact safe_refl
  · next hkey =>
      have hassign : ∀ certPKey flag,
          Safe cr c { c with certPKey := certPKey, hasCertPKey := flag } := fun certPKey flag =>
        { keys := fun h => (safe_assignPKey (h.no_cert_of_no_key hkey) certPKey flag).keys h
          kept := fun h => ⟨h, rfl, rfl⟩ }
      split
      · exact hassign none c.hasCertPKey
      · exact hassign _ true

theorem parseBundle_ok {bundle : Bundle} {k : K} {cert : C}
    (h : parseBundle cr bundle = .ok (k, cert)) :
    pemToKey cr bundle.privateKey = .ok k ∧
      cr.x509KeyPair ("\n".intercalate bundle.chain) bundle.privateKey = .ok cert := by
  unfold parseBundle at h
  split at h
  · cases h
  · next k' hk =>
      split at h
      · cases h
      · next cert' hcert =>
          cases h
          exact ⟨hk, hcert⟩

theorem installBundle_safe {bundle : Bundle} {k : K} {cert : C}
    (hparsed : parseBundle cr bundle = .ok (k, cert)) :
    Safe cr c (c.installBundle bundle k cert) where
  keys h := ⟨h.account, fun _ => ⟨rfl, k, cert, hparsed, rfl, rfl⟩⟩
  kept h := ⟨h, rfl, rfl⟩

theorem AccountKept.trans {c₁ c₂ c₃ : CertManager K C} (h₁ : AccountKept c₁ c₂)
    (h₂ : AccountKept c₂ c₃) : AccountKept c₁ c₃ := by
  intro hacc
  obtain ⟨hacc₂, hkey, haccount⟩ := h₁ hacc
  obtain ⟨hacc₃, hkey', haccount'⟩ := h₂ hacc₂
  exact ⟨hacc₃, hkey'.trans hkey, haccount'.trans haccount⟩

theorem Safe.trans {c₁ c₂ c₃ : CertManager K C} (h₁ : Safe cr c₁ c₂) (h₂ : Safe cr c₂ c₃) :
    Safe cr c₁ c₃ :=
  ⟨fun h => h₂.keys (h₁.keys h), h₁.kept.trans h₂.kept⟩

theorem issue_fst (cr : Crypto K C) (c : CertManager K C) (config : NameConfig)
    (w : CertificateRequest K) :
    (c.issue cr config w).1 = c ∨ (c.issue cr config w).1 = (c.prepareKey w).1 := by
  unfold issue
  split
  · exact Or.inl rfl
  · split
    · exact Or.inl rfl
    · split
      · next c' f hprep => exact Or.inr (by rw [hprep])
      · next c' k hprep =>
          refine Or.inr ?_
          rw [hprep]
          split
          · rfl
          · split <;> rfl

theorem issue_safe (cr : Crypto K C) (c : CertManager K C) (config : NameConfig)
    (w : CertificateRequest K) : Safe cr c (c.issue cr config w).1 := by
  rcases issue_fst cr c config w with h | h
  · rw [h]
    exact safe_refl
  · rw [h]
    exact prepareKey_safe cr c w

theorem importBundle_safe (cr : Crypto K C) (c : CertManager K C) (bundle : Bundle) (toFile : Bool)
    (w : FileWrite) : Safe cr c (c.importBundle cr bundle toFile w).1 := by
  unfold importBundle
  split
  · exact safe_refl
  · next k cert hparse => exact installBundle_safe hparse

theorem requestCertificate_safe (cr : Crypto K C) (c : CertManager K C) (config : NameConfig)
    (w : CertificateRequest K) : Safe cr c (c.requestCertificate cr config w).1 := by
  have hissue := issue_safe cr c config w
  unfold requestCertificate
  split
  · next c' f hi =>
      rw [hi] at hissue
      exact hissue
  · next c' bundle hi =>
      rw [hi] at hissue
      have himport := importBundle_safe cr c' bundle true w.persist
      split
      · next c'' f hb =>
          rw [hb] at himport
          exact hissue.trans himport
      · next c'' u hb =>
          rw [hb] at himport
          exact hissue.trans himport

end CertManager

namespace Manager

open CertManager

variable {K C : Type} {cr : Crypto K C} {config : NameConfig} {s s' t : Manager K C} {a : Action K}

/-- The calls that are about to install a bundle have parsed it. -/
structure Parsed (cr : Crypto K C) (s : Manager K C) : Prop where
  imports : ∀ call ∈ s.imports, ∀ k cert, call.pc = .install k cert →
    parseBundle cr call.bundle = .ok (k, cert)
  requests : ∀ pc ∈ s.requests, ∀ signer bundle k cert, pc = .install signer bundle k cert →
    parseBundle cr bundle = .ok (k, cert)

/-- A step leaves the fields together and the calls consistent. -/
structure Kept (cr : Crypto K C) (s s' : Manager K C) : Prop where
  safe : Safe cr s.certs s'.certs
  parsed : Parsed cr s'

theorem importStep_kept (hp : Parsed cr s) {i : ℕ} {call : ImportCall K C} {w : FileWrite}
    (hi : s.imports[i]? = some call) (h : s.importStep cr i call w = some s') : Kept cr s s' := by
  -- the call moves on to a point other than `install`, or to `install` with what it parsed
  have hset : ∀ call' : ImportCall K C,
      (∀ k cert, call'.pc = .install k cert → parseBundle cr call'.bundle = .ok (k, cert)) →
      ∀ c ∈ s.imports.set i call', ∀ k cert, c.pc = .install k cert →
        parseBundle cr c.bundle = .ok (k, cert) := by
    intro call' hcall'
    exact forall_mem_set hp.imports hcall'
  unfold importStep at h
  split at h
  · split at h
    · cases h
      exact ⟨safe_refl, hset _ (by simp), hp.requests⟩
    · next k cert hparsed =>
        cases h
        refine ⟨safe_refl, hset _ ?_, hp.requests⟩
        rintro k' cert' heq
        cases heq
        exact hparsed
  · next k cert hpc =>
      cases h
      have hparsed := hp.imports call (List.mem_of_getElem? hi) k cert hpc
      exact ⟨installBundle_safe hparsed, hset _ (by simp), hp.requests⟩
  · cases h

theorem requestStep_kept (hp : Parsed cr s) {i : ℕ} {pc : RequestPc K C}
    {w : CertificateRequest K} (hi : s.requests[i]? = some pc)
    (h : s.requestStep cr config i pc w = some s') : Kept cr s s' := by
  have hset : ∀ pc' : RequestPc K C,
      (∀ signer bundle k cert, pc' = .install signer bundle k cert →
        parseBundle cr bundle = .ok (k, cert)) →
      ∀ q ∈ s.requests.set i pc', ∀ signer bundle k cert, q = .install signer bundle k cert →
        parseBundle cr bundle = .ok (k, cert) := by
    intro pc' hpc'
    exact forall_mem_set hp.requests hpc'
  unfold requestStep at h
  split at h
  · split at h
    · cases h
      exact ⟨safe_refl, hp.imports, hset _ (by simp)⟩
    · split at h <;> cases h <;> exact ⟨safe_refl, hp.imports, hset _ (by simp)⟩
  · have hsafe := prepareKey_safe cr s.certs w
    split at h
    · next c f hprep =>
        cases h
        rw [hprep] at hsafe
        exact ⟨hsafe, hp.imports, hset _ (by simp)⟩
    · next c k hprep =>
        cases h
        rw [hprep] at hsafe
        exact ⟨hsafe, hp.imports, hset _ (by simp)⟩
  · split at h <;> cases h <;> exact ⟨safe_refl, hp.imports, hset _ (by simp)⟩
  · split at h <;> cases h <;> exact ⟨safe_refl, hp.imports, hset _ (by simp)⟩
  · split at h
    · cases h
      exact ⟨safe_refl, hp.imports, hset _ (by simp)⟩
    · next k' cert hparsed =>
        cases h
        refine ⟨safe_refl, hp.imports, hset _ ?_⟩
        rintro signer bundle k cert heq
        cases heq
        exact hparsed
  · next signer bundle k' cert =>
      cases h
      have hparsed := hp.requests _ (List.mem_of_getElem? hi) signer bundle k' cert rfl
      exact ⟨installBundle_safe hparsed, hp.imports, hset _ (by simp)⟩
  · cases h

/-- **One step.** -/
theorem step_kept (hp : Parsed cr s) (h : s.step cr config a = some s') : Kept cr s s' := by
  unfold step at h
  split at h
  · cases h
  cases a with
  | createAccount w =>
      simp only [Option.ite_none_right_eq_some, Option.some.injEq] at h
      obtain ⟨_, rfl⟩ := h
      exact ⟨createAccount_safe w, hp.imports, hp.requests⟩
  | importAccount af toFile w =>
      simp only [Option.ite_none_right_eq_some, Option.some.injEq] at h
      obtain ⟨_, rfl⟩ := h
      exact ⟨importAccount_safe af toFile w, hp.imports, hp.requests⟩
  | importPrivateKey text =>
      cases h
      exact ⟨importPrivateKey_safe text, hp.imports, hp.requests⟩
  | read r =>
      cases h
      exact ⟨safe_refl, hp.imports, hp.requests⟩
  | importBundle bundle toFile =>
      cases h
      refine ⟨safe_refl, ?_, hp.requests⟩
      intro call hcall
      rcases List.mem_append.1 hcall with hcall | hcall
      · exact hp.imports call hcall
      · rw [List.mem_singleton] at hcall
        simp [hcall]
  | importStep i w =>
      obtain ⟨call, hi, hstep⟩ := Option.bind_eq_some_iff.1 h
      exact importStep_kept hp hi hstep
  | requestCertificate =>
      cases h
      refine ⟨safe_refl, hp.imports, ?_⟩
      intro pc hpc
      rcases List.mem_append.1 hpc with hpc | hpc
      · exact hp.requests pc hpc
      · rw [List.mem_singleton] at hpc
        simp [hpc]
  | requestStep i w =>
      obtain ⟨pc, hi, hstep⟩ := Option.bind_eq_some_iff.1 h
      exact requestStep_kept hp hi hstep

/-! ## A request on its own

`requestCertificate` is the request with no other call in between. It is what the sections do when
they follow one another. -/

/-- The sections of the `i`-th request, on their own, take `s` to a state in which the manager is
    `next.1` and the request has returned `next.2`. -/
def EndsWith (cr : Crypto K C) (config : NameConfig) (i : ℕ) (w : CertificateRequest K)
    (s : Manager K C) (next : CertManager K C × Except Fault Unit) : Prop :=
  ∃ tr t, (machine cr config).Run s tr t ∧ Machine.Meets (fun _ a => a = .requestStep i w) tr ∧
    t.certs = next.1 ∧ t.requests[i]? = some (.returned next.2)

section Alone

variable {i : ℕ} {w : CertificateRequest K} {pc : RequestPc K C}
  {next : CertManager K C × Except Fault Unit}

theorem endsWith_step (hi : s.requests[i]? = some pc) (hlive : s.crashed = false)
    (hstep : s.requestStep cr config i pc w = some s') (h : EndsWith cr config i w s' next) :
    EndsWith cr config i w s next := by
  obtain ⟨tr, t, hrun, hmeets, hend⟩ := h
  have hfirst : (machine cr config).step s (.requestStep i w) = some s' := by
    simp only [machine, step, hlive, Bool.false_eq_true, if_false, hi, Option.bind_some, hstep]
  refine ⟨(s, .requestStep i w) :: tr, t, (Machine.Run.snoc .nil hfirst).append hrun, ?_, hend⟩
  intro p hp
  rcases List.mem_cons.1 hp with rfl | hp
  · rfl
  · exact hmeets p hp

theorem endsWith_endRequest (hi : s.requests[i]? = some pc) (c : CertManager K C)
    (r : Except Fault Unit) :
    EndsWith cr config i w ({ s with certs := c }.endRequest i r) (c, r) := by
  refine ⟨[], _, .nil, ?_, rfl, List.getElem?_set_self (List.getElem?_eq_some_iff.1 hi).1⟩
  intro p hp
  cases hp

theorem getElem?_moveRequest (hi : s.requests[i]? = some pc) (c : CertManager K C)
    (pc' : RequestPc K C) : ({ s with certs := c }.moveRequest i pc').requests[i]? = some pc' :=
  List.getElem?_set_self (List.getElem?_eq_some_iff.1 hi).1

/-- The end of a request is an `ImportBundle`. -/
theorem endsWith_parse {k : K} {bundle : Bundle} (hi : s.requests[i]? = some (.parse k bundle))
    (hlive : s.crashed = false) :
    EndsWith cr config i w s
      (match s.certs.importBundle cr bundle true w.persist with
        | (c, .error f) => (c, .error (f.wrap "re-importing exported certificate"))
        | (c, .ok _) => (c, .ok ())) := by
  cases hparse : parseBundle cr bundle with
  | error f =>
      have hstep : s.requestStep cr config i (.parse k bundle) w
          = some (s.endRequest i (.error (f.wrap "re-importing exported certificate"))) := by
        simp only [requestStep, hparse]
      simp only [importBundle, hparse]
      exact endsWith_step hi hlive hstep (endsWith_endRequest hi s.certs _)
  | ok kc =>
      obtain ⟨k', cert⟩ := kc
      have hstep : s.requestStep cr config i (.parse k bundle) w
          = some (s.moveRequest i (.install k bundle k' cert)) := by
        simp only [requestStep, hparse]
      have hi' := getElem?_moveRequest hi s.certs (.install k bundle k' cert)
      refine endsWith_step hi hlive hstep (endsWith_step hi' hlive rfl ?_)
      have hend : EndsWith cr config i w _ (s.certs.installBundle bundle k' cert, _) :=
        endsWith_endRequest hi' _
          ((persisCerts w.persist).mapError (Fault.wrap "re-importing exported certificate"))
      simp only [importBundle, hparse, if_true]
      cases hpersist : persisCerts w.persist with
      | error f =>
          rw [hpersist] at hend
          exact hend
      | ok u =>
          rw [hpersist] at hend
          exact hend

/-- A request that has its key exports it, places the order and imports the bundle. -/
theorem endsWith_exportKey {k : K} (hi : s.requests[i]? = some (.exportKey k))
    (hlive : s.crashed = false) :
    EndsWith cr config i w s
      (match
          match s.certs.exportForRequest cr with
          | .error f => (s.certs, Except.error f)
          | .ok pKey =>
              match w.order.run with
              | .error f => (s.certs, Except.error f)
              | .ok certs => (s.certs, Except.ok (bundleOf cr pKey certs)) with
        | (c', .error f) => (c', .error f)
        | (c', .ok bundle) =>
            match c'.importBundle cr bundle true w.persist with
            | (c'', .error f) => (c'', .error (f.wrap "re-importing exported certificate"))
            | (c'', .ok _) => (c'', .ok ())) := by
  cases hexport : s.certs.exportForRequest cr with
  | error f =>
      have hstep : s.requestStep cr config i (.exportKey k) w
          = some (s.endRequest i (.error f)) := by
        simp only [requestStep, hexport]
      exact endsWith_step hi hlive hstep (endsWith_endRequest hi s.certs _)
  | ok pKey =>
      have hstep : s.requestStep cr config i (.exportKey k) w
          = some (s.moveRequest i (.order k pKey)) := by
        simp only [requestStep, hexport]
      have hi' := getElem?_moveRequest hi s.certs (.order k pKey)
      refine endsWith_step hi hlive hstep ?_
      cases horder : w.order.run with
      | error f =>
          refine endsWith_step hi' hlive (by simp only [requestStep, horder]; rfl) ?_
          exact endsWith_endRequest hi' s.certs _
      | ok certs =>
          refine endsWith_step hi' hlive (by simp only [requestStep, horder]; rfl) ?_
          exact endsWith_parse (getElem?_moveRequest hi' s.certs _) hlive

/-- **The sections add up.** A request that runs on its own does what `requestCertificate` does. -/
theorem endsWith_requestCertificate (hi : s.requests[i]? = some .start)
    (hlive : s.crashed = false) :
    EndsWith cr config i w s (s.certs.requestCertificate cr config w) := by
  unfold requestCertificate issue
  by_cases hacc : s.certs.hasAcc = false
  · have hstep : s.requestStep cr config i .start w
        = some (s.endRequest i (.error (.error .noAccount))) := if_pos hacc
    rw [if_pos hacc]
    exact endsWith_step hi hlive hstep (endsWith_endRequest hi s.certs _)
  rw [if_neg hacc]
  cases hnames : requestNames config with
  | error f =>
      have hstep : s.requestStep cr config i .start w = some (s.endRequest i (.error f)) := by
        simp only [requestStep, if_neg hacc, hnames]
      exact endsWith_step hi hlive hstep (endsWith_endRequest hi s.certs _)
  | ok names =>
      have hstep : s.requestStep cr config i .start w = some (s.moveRequest i .prepare) := by
        simp only [requestStep, if_neg hacc, hnames]
      have hi' := getElem?_moveRequest hi s.certs .prepare
      refine endsWith_step hi hlive hstep ?_
      cases hprepare : s.certs.prepareKey w with
      | mk c r =>
          cases r with
          | error f =>
              refine endsWith_step hi' hlive
                (by simp only [requestStep, moveRequest, hprepare]; rfl) ?_
              exact endsWith_endRequest hi' c _
          | ok k =>
              refine endsWith_step hi' hlive
                (by simp only [requestStep, moveRequest, hprepare]; rfl) ?_
              exact endsWith_exportKey (getElem?_moveRequest hi' c (.exportKey k)) hlive

end Alone

/-! ## Whole runs -/

theorem parsed_init : Parsed cr (init : Manager K C) where
  imports := by simp [init]
  requests := by simp [init]

theorem keysMatch_of_reachable (h : (machine cr config).Reachable s) :
    KeysMatch cr s.certs ∧ Parsed cr s := by
  refine Machine.Reachable.invariant (I := fun s => KeysMatch cr s.certs ∧ Parsed cr s) h ?_ ?_
  · rintro s rfl
    exact ⟨keysMatch_init, parsed_init⟩
  · intro s a s' hI (hstep : s.step cr config a = some s')
    have hkept := step_kept hI.2 hstep
    exact ⟨hkept.safe.keys hI.1, hkept.parsed⟩

/-- An account that is there stays there along every run. -/
theorem accountKept_of_run {tr : List (Manager K C × Action K)} (hs : Parsed cr s)
    (h : (machine cr config).Run s tr t) : AccountKept s.certs t.certs := by
  have hboth : AccountKept s.certs t.certs ∧ Parsed cr t := by
    refine Machine.Run.preserves (I := fun t => AccountKept s.certs t.certs ∧ Parsed cr t) h
      ⟨fun hacc => ⟨hacc, rfl, rfl⟩, hs⟩ ?_
    intro u a u' hI (hstep : u.step cr config a = some u')
    have hkept := step_kept hI.2 hstep
    exact ⟨hI.1.trans hkept.safe.kept, hkept.parsed⟩
  exact hboth.1

/-- **Keys are never mixed.** In every reachable state: an account that is there has the key
    `accKey`, and neither it nor the key changes along any further run; and if there is a
    certificate, the flag of the private key is set, the private key is the one in the stored
    bundle, and the served certificate is the `X509KeyPair` of that bundle. -/
theorem certManager_keys_match (h : (machine cr config).Reachable s) :
    (s.certs.hasAcc = true →
      (∃ k, s.certs.accKey = some k ∧ s.certs.account.privateKey = some k) ∧
      ∀ tr t, (machine cr config).Run s tr t →
        t.certs.hasAcc = true ∧ t.certs.accKey = s.certs.accKey ∧
          t.certs.account = s.certs.account) ∧
    (s.certs.hasCert = true → s.certs.hasCertPKey = true ∧
      ∃ k cert, pemToKey cr s.certs.storedPem.privateKey = .ok k ∧ s.certs.certPKey = some k ∧
        cr.x509KeyPair ("\n".intercalate s.certs.storedPem.chain) s.certs.storedPem.privateKey
          = .ok cert ∧ s.certs.storedCert = some cert) := by
  obtain ⟨hkeys, hparsed⟩ := keysMatch_of_reachable h
  refine ⟨fun hacc => ⟨hkeys.account hacc, fun tr t hrun => accountKept_of_run hparsed hrun hacc⟩,
    fun hcert => ?_⟩
  obtain ⟨hflag, k, cert, hbundle, hk, hstored⟩ := hkeys.cert hcert
  obtain ⟨hpem, hpair⟩ := parseBundle_ok hbundle
  exact ⟨hflag, k, cert, hpem, hk, hpair, hstored⟩

/-- An account is created and a certificate requested; while the order runs, a bundle of another
    node is imported, with another key. -/
def crossingRun : List (Action Bool) :=
  [Action.createAccount ⟨.ok false, .ok "u", .done⟩, .requestCertificate] ++
    List.replicate 3 (Action.requestStep 0 (smoothRequest false)) ++
    [Action.importBundle ⟨"B", ["CB"]⟩ true, .importStep 0 .done] ++
    List.replicate 3 (Action.requestStep 0 (smoothRequest false)) ++ [Action.importStep 0 .done]

theorem certManager_keys_match_crossing :
    ∃ s, (machine twoKeys exampleNames).Reachable s ∧ s.certs.hasAcc = true ∧
      s.certs.hasCert = true ∧ s.certs.certPKey = some true ∧
      ∃ k, pemToKey twoKeys s.certs.storedPem.privateKey = .ok k ∧ s.certs.certPKey = some k := by
  obtain ⟨s, hreach, hacc, hcert, hkey⟩ := (machine twoKeys exampleNames).reachable_of_exec_any rfl
    crossingRun (P := fun s => s.certs.hasAcc = true ∧ s.certs.hasCert = true ∧
      s.certs.certPKey = some true) (by decide)
  obtain ⟨_, k, cert, hpem, hk, _⟩ := (certManager_keys_match hreach).2 hcert
  exact ⟨s, hreach, hacc, hcert, hkey, k, hpem, hk⟩

end Manager

end Tunnel.Acme
