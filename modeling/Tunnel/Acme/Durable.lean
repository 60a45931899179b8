import Tunnel.Acme.Exports

set_option autoImplicit false

/-! # What survives a restart (`acme/acme.go`, `cmd/server/main.go`)

Accounts and bundles are written to their files inside the section that installs them, so files and
memory change in the same order, and `LoadAccountFromFile` cannot bring back an account that another
call has replaced: whoever writes `accounts.json` has set `hasAcc` before.

If no write fails, a restart restores what the manager had whenever no call is inside a section
(`restart_restores`). `os.Create` empties a file before it is written anew, though, so a crash
inside the write loses what was there before. -/

namespace Tunnel.Acme

open Tunnel.Lib CertManager

variable {K C : Type}

namespace Store

/-- The account of the manager is the one in `af`. -/
def HasAccount (cr : Crypto K C) (d : Store K C) (af : AccountFile) : Prop :=
  ∃ k, pemToKey cr af.privateKey = .ok k ∧ d.certs.accKey = some k ∧
    d.certs.account = ⟨some k, af.url⟩

def AccountSaved (cr : Crypto K C) (d : Store K C) : Prop :=
  d.certs.hasAcc = true → ∃ af, d.accounts = .whole af ∧ d.HasAccount cr af

def BundleSaved (d : Store K C) : Prop :=
  d.certs.hasCert = true → d.bundle = .whole d.certs.storedPem

end Store

namespace Saved

open Store

/-- An account that is installed without being written has been read from the file. -/
def Source (d : Store K C) (af : AccountFile) (toFile : Bool) : Prop :=
  toFile = true ∨ d.certs.hasAcc = true ∨ d.accounts = .whole af

/-- What holds while no writer is inside. -/
def Inv (cr : Crypto K C) : Mutex → Store K C → Prop
  | .accMu, d => d.AccountSaved cr
  | .certPKeyMu, _ => True
  | .certMu, d => d.BundleSaved

/-- What a call knows at a point. -/
def At (cr : Crypto K C) : Point K C → Store K C → Prop
  | .createKey, d | .accountDone _, d => d.AccountSaved cr
  | .createRegister, d => d.certs.hasAcc = false ∧ ∃ k, d.certs.accKey = some k
  | .createFlag, d => d.certs.AccountKey
  | .createPem, d => d.certs.Settled
  | .importAccount af toFile, d => Source d af toFile
  | .importAccountUpdate af toFile, d => d.AccountSaved cr ∧ Source d af toFile
  | .importAccountFlag af toFile k, d =>
      pemToKey cr af.privateKey = .ok k ∧ d.certs.account = ⟨some k, af.url⟩ ∧
        (toFile = true ∨ d.accounts = .whole af)
  | .importAccountKey af toFile k, d =>
      pemToKey cr af.privateKey = .ok k ∧ d.certs.account = ⟨some k, af.url⟩ ∧
        (toFile = true ∨ d.accounts = .whole af) ∧ d.certs.hasAcc = true
  | .createAccountFile af, d | .writeAccountFile af, d =>
      d.HasAccount cr af ∧ d.certs.hasAcc = true
  | .importBundle _ _ toFile, _ => toFile = true
  | .lockCertPKey _ j, _ | .lockCert _ j, _ | .setCertPKey _ j, _ | .setStoredCert _ j, _
  | .setStoredPem _ j, _ => j.toFile = true
  | .setHasCert _ j, d | .setHasCertPKey _ j, d => j.toFile = true ∧ d.certs.storedPem = j.bundle
  | .createBundleFile _ b, d | .writeBundleFile _ b, d => d.certs.storedPem = b
  | .unlockCert _ _, d => d.BundleSaved
  | _, _ => True

/-- The file is written by those who have set the flag. -/
def Evolves (d d' : Store K C) : Prop :=
  d'.certs.hasAcc = false → d.certs.hasAcc = false ∧ d'.accounts = d.accounts

/-- Files can be opened and written. -/
def Ok (e : Outside K) : Prop := e.opened = .ok () ∧ e.encoded = .done

variable {cr : Crypto K C} {config : NameConfig} {e : Outside K} {d d' : Store K C}
  {p q : Point K C} {l : Mutex} {a : Access}

theorem inv_same (hsame : Same l d d') (h : Inv cr l d) : Inv cr l d' := by
  cases l with
  | accMu =>
      obtain ⟨hkey, haccount, hhas, hfile⟩ := hsame
      simpa [Inv, AccountSaved, HasAccount, hkey, haccount, hhas, hfile] using h
  | certPKeyMu => trivial
  | certMu =>
      obtain ⟨hhas, _, hpem, hfile⟩ := hsame
      simpa [Inv, BundleSaved, hhas, hpem, hfile] using h

/-- An account read from the file stays good: the file changes only when there is an account. -/
theorem Source.evolves {af : AccountFile} {toFile : Bool} (hev : Evolves d d')
    (h : Source d af toFile) : Source d' af toFile := by
  cases hacc : d'.certs.hasAcc with
  | true => exact Or.inr (Or.inl hacc)
  | false =>
      obtain ⟨hno, hfile⟩ := hev hacc
      simpa [Source, hno, hacc, hfile] using h

theorem at_same (hsame : ∀ l, p.held.of l ≠ none → Same l d d') (hev : Evolves d d')
    (h : At cr p d) : At cr p d' := by
  cases p with
  | createKey | createRegister | createFlag | createPem | importAccountFlag _ _ _
  | importAccountKey _ _ _ | createAccountFile _ | writeAccountFile _ | accountDone _ =>
      obtain ⟨hkey, haccount, hhas, hfile⟩ := hsame .accMu (by simp [Point.held, Held.of])
      simpa [At, AccountSaved, HasAccount, Settled, AccountKey, hkey, haccount, hhas, hfile] using h
  | importAccount af toFile => exact Source.evolves hev h
  | importAccountUpdate af toFile =>
      exact ⟨inv_same (l := .accMu) (hsame .accMu (by simp [Point.held, Held.of])) h.1,
        h.2.evolves hev⟩
  | setHasCert _ _ | setHasCertPKey _ _ | createBundleFile _ _ | writeBundleFile _ _
  | unlockCert _ _ =>
      obtain ⟨hhas, _, hpem, hfile⟩ := hsame .certMu (by simp [Point.held, Held.of])
      simpa [At, BundleSaved, hhas, hpem, hfile] using h
  | _ => exact h

theorem at_acquire (hinstr : p.instr = .acquire l a q) (h : At cr p d) (hinv : Inv cr l d) :
    At cr q d := by
  unfold Point.instr at hinstr
  split at hinstr <;> cases hinstr
  all_goals first | exact h | exact hinv | exact ⟨hinv, h⟩

theorem at_exported (caller : Caller K) (r : Except AcmeError String) :
    At cr (caller.exported r) d := by
  cases caller with
  | outside => trivial
  | request signer => cases r <;> exact trivial

theorem at_imported (caller : Caller K) (r : Except AcmeError Unit) :
    At cr (caller.imported r) d := by
  cases caller <;> exact trivial

theorem at_release (hinstr : p.instr = .release l a q) (h : At cr p d)
    (hinv : a = .read → Inv cr l d) : At cr q d ∧ Inv cr l d := by
  unfold Point.instr at hinstr
  split at hinstr <;> cases hinstr
  all_goals
    first
    | exact ⟨trivial, h⟩
    | exact ⟨trivial, hinv rfl⟩
    | exact ⟨trivial, trivial⟩
    | exact ⟨at_exported _ _, trivial⟩
    | exact ⟨at_imported _ _, trivial⟩

/-! ## Computations -/

/-- What is asked of a computation. -/
def Keeps (cr : Crypto K C) (d : Store K C) (x : Store K C × Point K C) : Prop :=
  At cr x.2 x.1 ∧ Evolves d x.1

theorem keeps_mk (hat : At cr q d) : Keeps cr d (d, q) := ⟨hat, fun h => ⟨h, rfl⟩⟩

theorem saved_of_no_account (hno : d.certs.hasAcc = false) : d.AccountSaved cr :=
  fun hhas => absurd hhas (by simp [hno])

theorem createKey_keeps (h : At cr .createKey d) :
    ∀ x ∈ d.body cr config e .createKey, Keeps cr d x := by
  unfold body
  dsimp only
  split
  · exact forall_mem_some (keeps_mk h)
  · next hacc =>
      have hno : d.certs.hasAcc = false := by simpa using hacc
      split
      · exact forall_mem_some ⟨saved_of_no_account hno, fun h => ⟨h, rfl⟩⟩
      · next k _ => exact forall_mem_some ⟨⟨hno, k, rfl⟩, fun h => ⟨h, rfl⟩⟩

theorem createRegister_keeps (h : At cr .createRegister d) :
    ∀ x ∈ d.body cr config e .createRegister, Keeps cr d x := by
  obtain ⟨hno, k, hk⟩ := h
  unfold body
  dsimp only
  split
  · exact forall_mem_some ⟨saved_of_no_account hno, fun h => ⟨h, rfl⟩⟩
  · exact forall_mem_some ⟨⟨k, hk, hk⟩, fun h => ⟨h, rfl⟩⟩

theorem createFlag_keeps (h : At cr .createFlag d) :
    ∀ x ∈ d.body cr config e .createFlag, Keeps cr d x :=
  forall_mem_some ⟨⟨rfl, h⟩, fun habs => by cases habs⟩

/-- What is written is the account that was made. -/
theorem createPem_keeps (h : At cr .createPem d) :
    ∀ x ∈ d.body cr config e .createPem, Keeps cr d x := by
  obtain ⟨hhas, k, hkey, haccount⟩ := h
  obtain ⟨text, htext, hparsed⟩ := keyToPEM_some cr k
  simp only [body, hkey, htext]
  refine forall_mem_some (keeps_mk ⟨⟨k, hparsed, hkey, ?_⟩, hhas⟩)
  rw [← haccount]

theorem loadAccountFromFile_keeps :
    ∀ x ∈ d.body cr config e .loadAccountFromFile, Keeps cr d x := by
  unfold body
  dsimp only
  split
  · exact forall_mem_some (keeps_mk trivial)
  · exact forall_mem_some (keeps_mk trivial)
  · exact forall_mem_some (keeps_mk trivial)
  · next af hread => exact forall_mem_some (keeps_mk (Or.inr (Or.inr (read_value _ hread))))

theorem importAccountUpdate_keeps {af : AccountFile} {toFile : Bool}
    (h : At cr (.importAccountUpdate af toFile) d) :
    ∀ x ∈ d.body cr config e (.importAccountUpdate af toFile), Keeps cr d x := by
  obtain ⟨hsaved, hsource⟩ := h
  unfold body
  dsimp only
  split
  · exact forall_mem_some (keeps_mk hsaved)
  · next hacc =>
      have hno : d.certs.hasAcc = false := by simpa using hacc
      split
      · exact forall_mem_recover (fun err => keeps_mk hsaved)
      · next k hparsed =>
          split
          · exact forall_mem_some ⟨saved_of_no_account hno, fun h => ⟨h, rfl⟩⟩
          · next account hanswer =>
              obtain rfl := e.update.keeps hanswer
              refine forall_mem_some ⟨⟨hparsed, rfl, ?_⟩, fun h => ⟨h, rfl⟩⟩
              simpa [Source, hno] using hsource

theorem importAccountFlag_keeps {af : AccountFile} {toFile : Bool} {k : K}
    (h : At cr (.importAccountFlag af toFile k) d) :
    ∀ x ∈ d.body cr config e (.importAccountFlag af toFile k), Keeps cr d x := by
  obtain ⟨hparsed, haccount, hsource⟩ := h
  exact forall_mem_some ⟨⟨hparsed, haccount, hsource, rfl⟩, fun habs => by cases habs⟩

theorem importAccountKey_keeps {af : AccountFile} {toFile : Bool} {k : K}
    (h : At cr (.importAccountKey af toFile k) d) :
    ∀ x ∈ d.body cr config e (.importAccountKey af toFile k), Keeps cr d x := by
  obtain ⟨hparsed, haccount, hsource, hhas⟩ := h
  refine forall_mem_some ⟨?_, fun h => ⟨h, rfl⟩⟩
  cases toFile with
  | true => exact ⟨⟨k, hparsed, rfl, haccount⟩, hhas⟩
  | false => exact fun _ => ⟨af, by simpa using hsource, k, hparsed, rfl, haccount⟩

theorem createAccountFile_keeps {af : AccountFile} (hok : Ok e)
    (h : At cr (.createAccountFile af) d) :
    ∀ x ∈ d.body cr config e (.createAccountFile af), Keeps cr d x := by
  simp only [body, hok.1]
  exact forall_mem_some ⟨h, fun hno => absurd h.2 (by simpa using hno)⟩

theorem writeAccountFile_keeps {af : AccountFile} (hok : Ok e)
    (h : At cr (.writeAccountFile af) d) :
    ∀ x ∈ d.body cr config e (.writeAccountFile af), Keeps cr d x := by
  simp only [body, hok.2]
  exact forall_mem_some ⟨fun _ => ⟨af, rfl, h.1⟩, fun hno => absurd h.2 (by simpa using hno)⟩

theorem importBundle_keeps {caller : Caller K} {bundle : Bundle} {toFile : Bool}
    (h : At cr (.importBundle caller bundle toFile) d) :
    ∀ x ∈ d.body cr config e (.importBundle caller bundle toFile), Keeps cr d x := by
  unfold body
  dsimp only
  split
  · exact forall_mem_recover (fun err => keeps_mk (at_imported caller _))
  · exact forall_mem_some (keeps_mk h)

theorem setHasCertPKey_keeps {caller : Caller K} {j : Install K C}
    (h : At cr (.setHasCertPKey caller j) d) :
    ∀ x ∈ d.body cr config e (.setHasCertPKey caller j), Keeps cr d x := by
  obtain ⟨hfile, hpem⟩ := h
  simp only [body, hfile]
  exact forall_mem_some ⟨hpem, fun h => ⟨h, rfl⟩⟩

theorem createBundleFile_keeps {caller : Caller K} {bundle : Bundle} (hok : Ok e)
    (h : At cr (.createBundleFile caller bundle) d) :
    ∀ x ∈ d.body cr config e (.createBundleFile caller bundle), Keeps cr d x := by
  simp only [body, hok.1]
  exact forall_mem_some ⟨h, fun h => ⟨h, rfl⟩⟩

theorem writeBundleFile_keeps {caller : Caller K} {bundle : Bundle} (hok : Ok e)
    (h : At cr (.writeBundleFile caller bundle) d) :
    ∀ x ∈ d.body cr config e (.writeBundleFile caller bundle), Keeps cr d x := by
  have hpem : d.certs.storedPem = bundle := h
  subst hpem
  simp only [body, hok.2]
  exact forall_mem_some ⟨fun _ => rfl, fun h => ⟨h, rfl⟩⟩

/-- **One computation** of any call. -/
theorem body_keeps (hok : Ok e) (h : At cr p d) : ∀ x ∈ d.body cr config e p, Keeps cr d x := by
  cases p with
  | createKey => exact createKey_keeps h
  | createRegister => exact createRegister_keeps h
  | createFlag => exact createFlag_keeps h
  | createPem => exact createPem_keeps h
  | loadAccountFromFile => exact loadAccountFromFile_keeps
  | importAccountUpdate => exact importAccountUpdate_keeps h
  | importAccountFlag => exact importAccountFlag_keeps h
  | importAccountKey => exact importAccountKey_keeps h
  | createAccountFile => exact createAccountFile_keeps hok h
  | writeAccountFile => exact writeAccountFile_keeps hok h
  | importBundle => exact importBundle_keeps h
  | setCertPKey => exact forall_mem_some ⟨h, fun h => ⟨h, rfl⟩⟩
  | setStoredCert => exact forall_mem_some ⟨h, fun h => ⟨h, rfl⟩⟩
  | setStoredPem => exact forall_mem_some ⟨⟨h, rfl⟩, fun h => ⟨h, rfl⟩⟩
  | setHasCert => exact forall_mem_some ⟨h, fun h => ⟨h, rfl⟩⟩
  | setHasCertPKey => exact setHasCertPKey_keeps h
  | createBundleFile => exact createBundleFile_keeps hok h
  | writeBundleFile => exact writeBundleFile_keeps hok h
  | _ =>
      -- the others touch neither the account nor a file, and what follows relies on nothing
      unfold body
      dsimp only
      repeat' split
      all_goals
        first
        | exact forall_mem_some ⟨trivial, fun h => ⟨h, rfl⟩⟩
        | exact forall_mem_some ⟨rfl, fun h => ⟨h, rfl⟩⟩
        | exact forall_mem_recover (fun err => ⟨trivial, fun h => ⟨h, rfl⟩⟩)
        | simp

/-- The outline for runs in which no write fails. -/
def outline (cr : Crypto K C) (config : NameConfig) : Outline (regions cr config) where
  Ok := Ok
  Evolves := Evolves
  Always _ := True
  Inv := Inv cr
  At := At cr
  inv_same := inv_same
  at_same := at_same
  at_acquire := at_acquire
  at_release := at_release
  at_body _ hbody hok h _ _ :=
    ⟨(body_keeps hok h _ hbody).1, trivial, (body_keeps hok h _ hbody).2⟩

end Saved

/-! ## The start of the server -/

namespace Store

variable {cr : Crypto K C} {config : NameConfig} {d : Store K C}

/-- What a started server has it has from its files. -/
theorem boot_saved (d : Store K C) (b : Boot K) :
    (Saved.outline cr config).Valid (d.boot cr b) := by
  obtain ⟨c, hc, hd⟩ := boot_cases cr d b
  have haccount : AccountSaved cr { d with certs := c } := by
    rcases hc with ⟨account, rfl⟩ | ⟨af, k, hfile, hk, rfl⟩
    · exact Saved.saved_of_no_account rfl
    · exact fun _ => ⟨af, hfile, k, hk, rfl, rfl⟩
  have hno : c.hasCert = false := by
    rcases hc with ⟨account, rfl⟩ | ⟨af, k, _, _, rfl⟩ <;> rfl
  refine valid_boot ?_ trivial
  intro l
  rcases hd with hd | ⟨x, k, cert, hfile, _, hd⟩ <;> rw [hd]
  · cases l with
    | accMu => exact haccount
    | certPKeyMu => trivial
    | certMu => exact fun hhas => absurd hhas (by simp [hno])
  · cases l with
    | accMu => exact haccount
    | certPKeyMu => trivial
    | certMu => exact fun _ => hfile

theorem boot_certs (cr : Crypto K C) (d : Store K C) (b : Boot K) : (d.boot cr b).data.certs =
    (loadBundleFromFile cr
      (init.loadAccountFromFile cr (d.accounts.read b.accountsOpened) b.update).1
      (d.bundle.read b.bundleOpened) .done).1 := rfl

end Store

namespace CertManager

/-- Two managers have the same account. -/
structure SameAccount (c c' : CertManager K C) : Prop where
  hasAcc : c'.hasAcc = c.hasAcc
  accKey : c'.accKey = c.accKey
  account : c'.account = c.account

/-- Two managers have the same certificate, with its text and its key. -/
structure SameCert (c c' : CertManager K C) : Prop where
  hasCert : c'.hasCert = c.hasCert
  storedCert : c'.storedCert = c.storedCert
  storedPem : c'.storedPem = c.storedPem
  certPKey : c'.certPKey = c.certPKey
  hasCertPKey : c'.hasCertPKey = c.hasCertPKey

theorem sameAccount_loadBundle (cr : Crypto K C) (c : CertManager K C) (file : FileRead Bundle)
    (w : FileWrite) : SameAccount c (c.loadBundleFromFile cr file w).1 := by
  rcases loadBundle_cases cr c file w with h | ⟨x, k, cert, _, _, h⟩ <;> rw [h] <;>
    exact ⟨rfl, rfl, rfl⟩

end CertManager

namespace Store

variable {cr : Crypto K C} {d : Store K C} {b : Boot K}

/-- A saved bundle is restored. -/
theorem boot_sameCert (hopened : b.bundleOpened = .ok ()) (hmatches : d.certs.KeyMatches cr)
    (hsaved : d.BundleSaved) (hhas : d.certs.hasCert = true) :
    SameCert d.certs (d.boot cr b).data.certs := by
  obtain ⟨hflag, k, cert, hparsed, hkey, hcert⟩ := hmatches hhas
  rw [boot_certs, hsaved hhas, hopened]
  simp only [JsonFile.read, loadBundleFromFile, importBundle, hparsed]
  exact ⟨hhas.symm, hcert.symm, rfl, hkey.symm, hflag.symm⟩

/-- A saved account is restored, if the authority knows it. -/
theorem boot_sameAccount (hopened : b.accountsOpened = .ok ())
    (hupdate : ∃ a, b.update.update.answer d.certs.account = .ok a)
    (hsaved : d.AccountSaved cr) (hhas : d.certs.hasAcc = true) :
    SameAccount d.certs (d.boot cr b).data.certs := by
  obtain ⟨af, hfile, k, hk, hkey, haccount⟩ := hsaved hhas
  obtain ⟨a, hanswer⟩ := hupdate
  rw [haccount] at hanswer
  obtain rfl := b.update.update.keeps hanswer
  have hload : (init.loadAccountFromFile cr (d.accounts.read b.accountsOpened) b.update).1 =
      (init : CertManager K C).withAccount k af.url := by
    simp [hfile, hopened, JsonFile.read, loadAccountFromFile, importAccount, init, hk, hanswer,
      withAccount]
  have hsame := sameAccount_loadBundle cr (init.withAccount k af.url)
    (d.bundle.read b.bundleOpened) .done
  rw [boot_certs, hload]
  exact ⟨hsame.hasAcc.trans hhas.symm, hsame.accKey.trans hkey.symm,
    hsame.account.trans haccount.symm⟩

end Store

namespace Host

variable {cr : Crypto K C} {config : NameConfig} {s s' : Host K C}

/-- A step after which a restart loses nothing: what is imported is to be written, and the file
    system does it. -/
def Durable (_ : Host K C) : Action K → Prop
  | .call (.importAccount _ toFile) => toFile = true
  | .call (.importBundle _ toFile) => toFile = true
  | .call _ => True
  | .run _ e => Saved.Ok e
  | .restart _ => True

theorem saved_step {a : Action K} (h : (Saved.outline cr config).Valid s) (hok : Durable s a)
    (hstep : s.step cr config a = some s') : (Saved.outline cr config).Valid s' := by
  cases a with
  | call c =>
      simp only [step, Option.ite_none_left_eq_some, Option.some.injEq] at hstep
      obtain ⟨_, rfl⟩ := hstep
      refine h.spawn ?_ ?_
      · intro l
        cases c <;> cases l <;> rfl
      · cases c with
        | importAccount af toFile => exact Or.inl hok
        | importBundle bundle toFile => exact hok
        | _ => trivial
  | run i e => exact h.step hok hstep
  | restart b =>
      cases hstep
      exact Store.boot_saved _ b

theorem saved_of_reachable (h : (machine cr config).ReachableVia Durable s) :
    (Saved.outline cr config).Valid s := by
  refine h.invariant ?_ (fun s a s' => saved_step)
  rintro s rfl
  refine Outline.valid_start ?_ trivial
  intro l
  cases l with
  | certPKeyMu => trivial
  | _ => exact fun habs => by simp [init] at habs

/-- **A restart restores what the manager had**, account and certificate with their keys, provided
    that no call was inside a section, that all writes have succeeded so far, and that the files can
    be opened again; the account has to be confirmed by the authority. -/
theorem restart_restores (hs : (machine cr config).ReachableVia Durable s) (hquiet : s.Quiet)
    {b : Boot K} (haccounts : b.accountsOpened = .ok ()) (hbundle : b.bundleOpened = .ok ()) :
    (s.data.boot cr b).crashed = false ∧
      (s.data.certs.hasCert = true → SameCert s.data.certs (s.data.boot cr b).data.certs) ∧
      (s.data.certs.hasAcc = true →
        (∃ a, b.update.update.answer s.data.certs.account = .ok a) →
        SameAccount s.data.certs (s.data.boot cr b).data.certs) := by
  have hsaved := saved_of_reachable hs
  obtain ⟨s₀, tr, hinit, hrun, _⟩ := hs
  have hvalid := valid_of_reachable (s := s) ⟨s₀, tr, hinit, hrun⟩
  refine ⟨Store.boot_crashed hvalid.always b, fun hhas => ?_, fun hhas hupdate => ?_⟩
  · exact Store.boot_sameCert hbundle
      (hvalid.locks .certPKeyMu (fun g hg => hquiet g hg .certPKeyMu))
      (hsaved.locks .certMu (fun g hg => hquiet g hg .certMu)) hhas
  · exact Store.boot_sameAccount haccounts hupdate
      (hsaved.locks .accMu (fun g hg => hquiet g hg .accMu)) hhas

/-- Files can be opened, and the authority knows the account. -/
def smoothBoot : Boot Bool := ⟨.ok (), .ok (), ⟨.known, .done⟩⟩

/-- An account is created and a certificate requested. -/
def savingCalls : List (Action Bool) :=
  .call .createAccount :: List.replicate 9 (.run 0 (smooth true)) ++
    .call .requestCertificate :: List.replicate 28 (.run 1 (smooth true))

theorem savingCalls_durable (s : Host Bool (String × String)) {a : Action Bool}
    (h : a ∈ savingCalls) : Durable s a := by
  simp only [savingCalls, List.mem_append, List.mem_cons, List.mem_replicate] at h
  rcases h with (rfl | ⟨_, rfl⟩) | rfl | ⟨_, rfl⟩
  all_goals first | exact trivial | exact ⟨rfl, rfl⟩

theorem restart_restores_both : ∃ s : Host Bool (String × String),
    ((machine twoKeys exampleNames).ReachableVia Durable s ∧ s.Quiet ∧
      s.data.certs.hasAcc = true ∧ s.data.certs.hasCert = true) ∧
    (s.data.boot twoKeys smoothBoot).crashed = false ∧
      (s.data.certs.hasCert = true →
        SameCert s.data.certs (s.data.boot twoKeys smoothBoot).data.certs) ∧
      (s.data.certs.hasAcc = true →
        (∃ a, smoothBoot.update.update.answer s.data.certs.account = .ok a) →
        SameAccount s.data.certs (s.data.boot twoKeys smoothBoot).data.certs) := by
  obtain ⟨s, hrun, hP⟩ := Machine.run_of_exec_any (machine twoKeys exampleNames)
    (Process.start ⟨CertManager.init, .missing, .missing⟩) savingCalls
    (P := fun s => s.Quiet ∧ s.data.certs.hasAcc = true ∧ s.data.certs.hasCert = true)
    (by decide)
  have hs : (machine twoKeys exampleNames).ReachableVia Durable s :=
    ⟨_, _, rfl, hrun, fun p hp => savingCalls_durable p.1 (Machine.mem_of_mem_trace hp)⟩
  exact ⟨s, ⟨hs, hP⟩, restart_restores hs hP.1 rfl rfl⟩

end Host

end Tunnel.Acme
