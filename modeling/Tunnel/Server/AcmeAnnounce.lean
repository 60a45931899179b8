import Tunnel.Acme.KeySafety
import Tunnel.Server.AcmeCheck

set_option autoImplicit false

/-! # What the leader makes is announced, or not (`server/leader.go`, `acme/acme.go`)

The checks of the leader take any error for "nothing happened". But `CreateAccount` and
`RequestCertificate` install what they made before they write it to its file, and fail if the write
does. The check then returns before its announcement, and the next one finds an account, or a
certificate, that is already there and has no reason to announce it (`owed_account_never_announced`,
`owed_bundle_step`). The same happens to a new certificate in which no name of the domain is found,
or that has to be renewed at once and cannot be. All that is made is announced exactly if none of
this happens (`leader_announces_iff`). -/

namespace Tunnel.Server

open Tunnel.Lib Tunnel.Acme

namespace AcmeLeader

variable {K C : Type}

/-- The leader holds an account or a bundle that it made and has not announced. -/
def Unannounced (s : AcmeLeader K C) : Prop := s.account = .owed ∨ s.bundle = .owed

instance (s : AcmeLeader K C) : Decidable s.Unannounced := inferInstanceAs (Decidable (_ ∨ _))

/-- `checkACMEAccountKeys` announces the account that it creates: there is none, nor a file; and if
    a key can be generated and registered, the account can also be written. -/
def ReportsAccount (s : AcmeLeader K C) (w : AccountCheck K) : Prop :=
  s.certs.hasAcc = false → w.file = .notExist → (∃ k, w.create.key = .ok k) →
    (∃ url, w.create.register = .ok url) → w.create.persist = .done

/-- A request that installs its bundle can also write it. -/
def Installed (cfg : AcmeConfig K C) (s : AcmeLeader K C) (w : CertificateRequest K) : Prop :=
  installs cfg s w = true ∧ w.persist = .done

/-- `checkACMECerts` announces the bundle that it gets: the first one is written, and the chain that
    the authority issued is for the domain and not due for renewal, or is renewed; and so is a
    renewed one written. -/
def ReportsCerts (cfg : AcmeConfig K C) (s : AcmeLeader K C) (w : CertsCheck K) : Prop :=
  if s.certs.hasCert = true then
    due cfg s w.now = .ok true → installs cfg s w.second = true → w.second.persist = .done
  else
    ∀ cert, issued cfg s w.first = some cert → w.first.persist = .done ∧
      (chainDue cfg (some cert) w.now = .ok false ∨
        chainDue cfg (some cert) w.now = .ok true ∧
          Installed cfg (request cfg s w.first).1 w.second)

def Reports (cfg : AcmeConfig K C) (s : AcmeLeader K C) : Action K → Prop
  | .accountKeys w => ReportsAccount s w
  | .certs w => ReportsCerts cfg s w

/-! ## One request -/

variable {cfg : AcmeConfig K C} {s s' t : AcmeLeader K C} {a : Action K}

theorem persist_ok_iff {file : String} {w : FileWrite} :
    persist file w = .ok () ↔ w = .done := by
  cases w <;> simp [persist, failed]

/-- A request succeeds exactly if it installs its bundle and can write it; and a bundle that is
    installed can be exported, whether or not it was written. -/
theorem request_spec (cfg : AcmeConfig K C) (s : AcmeLeader K C) (w : CertificateRequest K) :
    ((request cfg s w).2 = .ok () ↔ Installed cfg s w) ∧
      ∀ cert, issued cfg s w = some cert → (request cfg s w).1.certs.hasCert = true ∧
        (request cfg s w).1.certs.storedCert = some cert := by
  unfold Installed request installs issued CertManager.requestCertificate
  cases hissue : s.certs.issue cfg.crypto cfg.names w with
  | mk c r =>
      cases r with
      | error f => simp
      | ok bundle =>
          cases hparse : CertManager.parseBundle cfg.crypto bundle with
          | error f => simp [CertManager.importBundle, hparse]
          | ok kc =>
              obtain ⟨k, cert⟩ := kc
              cases hpersist : persisCerts w.persist with
              | error f =>
                  have hnot : w.persist ≠ .done := by
                    intro hdone
                    rw [persisCerts, hdone] at hpersist
                    cases hpersist
                  simp [CertManager.importBundle, hparse, hpersist, hnot, CertManager.installBundle]
              | ok u =>
                  have hdone : w.persist = .done := persist_ok_iff.1 hpersist
                  simp [CertManager.importBundle, hparse, hdone, CertManager.installBundle,
                    persisCerts, persist]

theorem hasCert_of_installs {w : CertificateRequest K} (h : installs cfg s w = true) :
    (request cfg s w).1.certs.hasCert = true := by
  obtain ⟨cert, hcert⟩ := Option.isSome_iff_exists.1 h
  exact ((request_spec cfg s w).2 cert hcert).1

/-- What the check finds after a request is what the authority issued. -/
theorem due_request {w : CertificateRequest K} {cert : C} (h : issued cfg s w = some cert)
    (now : ℤ) : due cfg (request cfg s w).1 now = chainDue cfg (some cert) now := by
  obtain ⟨hhas, hstored⟩ := (request_spec cfg s w).2 cert h
  simp [due, CertManager.getCertificatesFunc, hhas, hstored]

theorem request_bundle (cfg : AcmeConfig K C) (s : AcmeLeader K C) (w : CertificateRequest K) :
    (request cfg s w).1.bundle = if installs cfg s w = true then .owed else s.bundle := rfl

theorem exportBundle_of_hasCert {c : CertManager K C} (h : c.hasCert = true) :
    c.exportBundle = .ok c.storedPem := by
  simp [CertManager.exportBundle, h]

theorem exportBundle_eq_ok {c : CertManager K C} {b : Bundle} (h : c.exportBundle = .ok b) :
    c.hasCert = true ∧ b = c.storedPem := by
  unfold CertManager.exportBundle at h
  split at h
  · cases h
  · next hcert =>
      cases h
      exact ⟨by simpa using hcert, rfl⟩

/-- The check from `GetCertificatesFunc` on, by what it finds. -/
theorem renew_bundle (b : Bundle) (renewed : Bool) (w : CertsCheck K) :
    (renew cfg s b renewed w).1.bundle =
      match due cfg s w.now with
      | .error _ => s.bundle
      | .ok false => if renewed = true then .announced else s.bundle
      | .ok true =>
          if installs cfg s w.second = true then
            if w.second.persist = .done then .announced else .owed
          else s.bundle := by
  unfold renew
  cases hdue : due cfg s w.now with
  | error msg => rfl
  | ok isDue =>
      cases isDue with
      | false => cases renewed <;> rfl
      | true =>
          have hok := (request_spec cfg s w.second).1
          have hcert : installs cfg s w.second = true →
              (request cfg s w.second).1.certs.hasCert = true := hasCert_of_installs
          have hbundle := request_bundle cfg s w.second
          cases hreq : request cfg s w.second with
          | mk s₂ r =>
              rw [hreq] at hok hcert hbundle
              cases r with
              | error f =>
                  have hnot : ¬ Installed cfg s w.second := fun hin => by
                    cases hok.2 hin
                  simp only
                  rw [hbundle]
                  by_cases hin : installs cfg s w.second = true
                  · have hundone : w.second.persist ≠ .done := fun hd => hnot ⟨hin, hd⟩
                    simp [hin, hundone]
                  · simp [hin]
              | ok u =>
                  obtain ⟨hin, hdone⟩ := hok.1 rfl
                  simp [exportBundle_of_hasCert (hcert hin), announceBundle, hin, hdone]

/-- With nothing owed before, the rest of the check owes what it installs and cannot write. -/
theorem renew_owes_iff_of_paid (b : Bundle) (renewed : Bool) (w : CertsCheck K)
    (hs : s.bundle ≠ .owed) :
    (renew cfg s b renewed w).1.bundle ≠ .owed ↔
      (due cfg s w.now = .ok true → installs cfg s w.second = true →
        w.second.persist = .done) := by
  rw [renew_bundle]
  cases due cfg s w.now with
  | error msg => simp [hs]
  | ok isDue =>
      cases isDue with
      | false => cases renewed <;> simp [hs]
      | true =>
          by_cases hin : installs cfg s w.second = true
          · by_cases hdone : w.second.persist = .done <;> simp [hin, hdone]
          · simp [hin, hs]

/-- With a new bundle owed, the rest of the check has to announce it or one that replaces it. -/
theorem renew_owes_iff_of_owed (b : Bundle) (w : CertsCheck K) (hs : s.bundle = .owed) :
    (renew cfg s b true w).1.bundle ≠ .owed ↔
      due cfg s w.now = .ok false ∨
        due cfg s w.now = .ok true ∧ Installed cfg s w.second := by
  rw [renew_bundle]
  unfold Installed
  cases due cfg s w.now with
  | error msg => simp [hs]
  | ok isDue =>
      cases isDue with
      | false => simp
      | true =>
          by_cases hin : installs cfg s w.second = true
          · by_cases hdone : w.second.persist = .done <;> simp [hin, hdone]
          · simp [hin, hs]

/-! ## One check -/

/-- **`checkACMECerts` owes nothing exactly if it reports.** -/
theorem checkACMECerts_owes_iff (w : CertsCheck K) (hs : s.bundle ≠ .owed) :
    (checkACMECerts cfg s w).bundle ≠ .owed ↔ ReportsCerts cfg s w := by
  unfold checkACMECerts runCertsCheck ReportsCerts
  by_cases hcert : s.certs.hasCert = true
  · rw [exportBundle_of_hasCert hcert, if_pos hcert]
    exact renew_owes_iff_of_paid _ _ w hs
  · have hexport : s.certs.exportBundle = .error (.error .noCert) := by
      simp [CertManager.exportBundle, hcert]
    have hok := (request_spec cfg s w.first).1
    have hbundle := request_bundle cfg s w.first
    rw [hexport, if_neg hcert]
    simp only [AcmeError.is, decide_true, if_true]
    cases hissued : issued cfg s w.first with
    | none =>
        -- the request failed and installed nothing
        have hin : ¬ installs cfg s w.first = true := by simp [installs, hissued]
        rw [if_neg hin] at hbundle
        cases hreq : request cfg s w.first with
        | mk s₁ r =>
            rw [hreq] at hok hbundle
            have hsame : s₁.bundle = s.bundle := hbundle
            cases r with
            | error f => simpa [hsame] using hs
            | ok u => exact absurd (hok.1 rfl).1 hin
    | some cert =>
        have hin : installs cfg s w.first = true := by simp [installs, hissued]
        have hdue := due_request hissued w.now
        have hhas := hasCert_of_installs hin
        rw [if_pos hin] at hbundle
        simp only [Option.some.injEq, forall_eq', ← hdue]
        cases hreq : request cfg s w.first with
        | mk s₁ r =>
            rw [hreq] at hok hbundle hhas
            have howed : s₁.bundle = .owed := hbundle
            cases r with
            | error f =>
                -- what is installed was not written
                have hundone : w.first.persist ≠ .done := fun hd => by cases hok.2 ⟨hin, hd⟩
                simp [howed, hundone]
            | ok u =>
                simp only [exportBundle_of_hasCert hhas, (hok.1 rfl).2, true_and]
                exact renew_owes_iff_of_owed _ w howed

theorem announceAccount_ne_owed (hs : s.account ≠ .owed) :
    (announceAccount cfg s).account ≠ .owed := by
  unfold announceAccount
  split
  · exact hs
  · simp

/-- An account with a key is exported. -/
theorem exportAccount_withAccount (cfg : AcmeConfig K C) (c : CertManager K C) (k : K)
    (url : String) :
    ∃ af, (c.withAccount k url).exportAccount cfg.crypto = .ok af := by
  obtain ⟨text, htext, _⟩ := keyToPEM_some cfg.crypto k
  exact ⟨⟨text, url⟩, by simp [CertManager.exportAccount, CertManager.withAccount, htext]⟩

/-- What the creation of an account does to the standing, when there is none. -/
theorem create_spec (cfg : AcmeConfig K C) (w : AccountCreation K)
    (hacc : s.certs.hasAcc = false) :
    (∃ k url, w.key = .ok k ∧ w.register = .ok url ∧
      (create cfg s w).1.certs = s.certs.withAccount k url ∧ (create cfg s w).1.account = .owed ∧
      ((create cfg s w).2 = .ok () ↔ w.persist = .done)) ∨
    (¬ ((∃ k, w.key = .ok k) ∧ ∃ url, w.register = .ok url) ∧
      (create cfg s w).1.account = s.account ∧ ∃ f, (create cfg s w).2 = .error f) := by
  unfold create CertManager.createAccount
  cases hkey : w.key with
  | error e => exact Or.inr (by simp [hacc, failed])
  | ok k =>
      cases hreg : w.register with
      | error e => exact Or.inr (by simp [hacc, failed])
      | ok url =>
          obtain ⟨text, htext, _⟩ := keyToPEM_some cfg.crypto k
          refine Or.inl ⟨k, url, rfl, rfl, ?_⟩
          simp [hacc, htext, CertManager.withAccount, persistAccount, persist_ok_iff]

/-- An error other than `ErrNoAccount` is not taken for it, and neither is a wrapped one. -/
theorem not_is_noAccount_of_import {c c' : CertManager K C} {af : AccountFile}
    {w : AccountUpdate K} {err : AcmeError}
    (h : c.importAccount cfg.crypto af false w = (c', .error (.error err))) :
    err.is .noAccount = false := by
  unfold CertManager.importAccount pemToKey at h
  split at h
  · cases h; rfl
  · split at h
    · next f hf =>
        cases f with
        | panic p => cases h
        | error e =>
            cases h
            split at hf
            · cases hf
            · split at hf <;> cases hf
              rfl
    · split at h
      · cases h; rfl
      · cases h

/-- **`checkACMEAccountKeys` owes nothing exactly if it reports.** -/
theorem checkACMEAccountKeys_owes_iff (w : AccountCheck K) (hs : s.account ≠ .owed) :
    (checkACMEAccountKeys cfg s w).account ≠ .owed ↔ ReportsAccount s w := by
  by_cases hacc : s.certs.hasAcc = true
  · -- there is an account, so nothing is created
    have hkeep : (checkACMEAccountKeys cfg s w).account = s.account := by
      unfold checkACMEAccountKeys CertManager.exportAccount
      rw [if_neg (by simp [hacc])]
      cases hkey : s.certs.accKey with
      | none => rfl
      | some k =>
          obtain ⟨text, htext, _⟩ := keyToPEM_some cfg.crypto k
          simp only [htext]
    rw [hkeep]
    exact iff_of_true hs (fun habs => absurd hacc (by simp [habs]))
  have hno : s.certs.hasAcc = false := by simpa using hacc
  have hexport : s.certs.exportAccount cfg.crypto = .error (.error .noAccount) := by
    simp [CertManager.exportAccount, hno]
  unfold checkACMEAccountKeys
  simp only [hexport, AcmeError.is, decide_true, if_true]
  -- whatever the file holds, an account that comes from it is not owed
  have hnotOwed : ∀ c, (announceAccount cfg { s with certs := c }).account ≠ .owed :=
    fun c => announceAccount_ne_owed hs
  cases hfile : w.file with
  | notExist =>
      simp only [CertManager.loadAccountFromFile, AcmeError.is, decide_true, if_true]
      have hcreate := create_spec cfg w.create hno
      cases hc : create cfg s w.create with
      | mk s₁ r =>
          rw [hc] at hcreate
          rcases hcreate with ⟨k, url, hkey, hreg, hcerts, howed, hok⟩ | ⟨hnot, hsame, f, hf⟩
          · simp only at hcerts howed hok
            cases r with
            | error f =>
                refine iff_of_false (fun hne => hne howed) (fun hrep => ?_)
                cases hok.2 (hrep hno hfile ⟨k, hkey⟩ ⟨url, hreg⟩)
            | ok u =>
                refine iff_of_true ?_ (fun _ _ _ _ => hok.1 rfl)
                obtain ⟨af, haf⟩ := exportAccount_withAccount cfg s.certs k url
                simp [announceAccount, hcerts, haf]
          · simp only at hsame hf
            subst hf
            refine iff_of_true (hsame ▸ hs) (fun _ _ hkey hreg => absurd ⟨hkey, hreg⟩ hnot)
  | notOpened e | notDecoded e =>
      refine iff_of_true ?_ (fun _ habs => by cases hfile.symm.trans habs)
      simpa [CertManager.loadAccountFromFile, failed, AcmeError.is] using hnotOwed s.certs
  | value af =>
      refine iff_of_true ?_ (fun _ habs => by cases hfile.symm.trans habs)
      simp only [CertManager.loadAccountFromFile]
      split
      · exact hs
      · exact hnotOwed _
      · next c err himport =>
          rw [not_is_noAccount_of_import himport]
          exact hnotOwed _

/-! ## What the standings mean -/

/-- An account that is owed is held; one that is announced is held and was passed to `Announce`. -/
structure AccountSound (cfg : AcmeConfig K C) (s : AcmeLeader K C) : Prop where
  owed : s.account = .owed → ∃ af, s.certs.exportAccount cfg.crypto = .ok af
  announced : s.account = .announced →
    ∃ af, s.certs.exportAccount cfg.crypto = .ok af ∧ af ∈ s.accounts

/-- The same for the bundle. -/
structure BundleSound (s : AcmeLeader K C) : Prop where
  owed : s.bundle = .owed → s.certs.hasCert = true
  announced : s.bundle = .announced → s.certs.hasCert = true ∧ s.certs.storedPem ∈ s.bundles

theorem accountSound_of_notOwn (h : s.account = .notOwn) : AccountSound cfg s :=
  ⟨fun habs => absurd (h.symm.trans habs) (by simp),
    fun habs => absurd (h.symm.trans habs) (by simp)⟩

/-- Without an account there is no standing. -/
theorem AccountSound.notOwn (h : AccountSound cfg s) (hno : s.certs.hasAcc = false) :
    s.account = .notOwn := by
  have hexport : s.certs.exportAccount cfg.crypto = .error (.error .noAccount) := by
    simp [CertManager.exportAccount, hno]
  cases haccount : s.account with
  | notOwn => rfl
  | owed =>
      obtain ⟨af, haf⟩ := h.owed haccount
      cases hexport.symm.trans haf
  | announced =>
      obtain ⟨af, haf, _⟩ := h.announced haccount
      cases hexport.symm.trans haf

theorem announceAccount_sound (h : AccountSound cfg s) :
    AccountSound cfg (announceAccount cfg s) := by
  unfold announceAccount
  cases hexport : s.certs.exportAccount cfg.crypto with
  | error f => exact ⟨h.owed, h.announced⟩
  | ok af => exact ⟨fun habs => absurd habs (by simp), fun _ => ⟨af, hexport, by simp⟩⟩

/-- The account that was exported once is exported for ever. -/
theorem exportAccount_kept {c c' : CertManager K C} {af : AccountFile}
    (hkept : CertManager.AccountKept c c') (h : c.exportAccount cfg.crypto = .ok af) :
    c'.exportAccount cfg.crypto = .ok af := by
  have hacc : c.hasAcc = true := by
    by_contra hno
    rw [Bool.not_eq_true] at hno
    simp [CertManager.exportAccount, hno] at h
  obtain ⟨hacc', hkey, haccount⟩ := hkept hacc
  simpa [CertManager.exportAccount, hacc, hacc', hkey, haccount] using h

/-- A request that does not install leaves the certificate as it is. -/
theorem request_unchanged (cfg : AcmeConfig K C) (s : AcmeLeader K C) (w : CertificateRequest K)
    (h : installs cfg s w = false) :
    (request cfg s w).1.certs.hasCert = s.certs.hasCert ∧
      (request cfg s w).1.certs.storedPem = s.certs.storedPem := by
  have hprepare : (s.certs.prepareKey w).1.hasCert = s.certs.hasCert ∧
      (s.certs.prepareKey w).1.storedPem = s.certs.storedPem := by
    unfold CertManager.prepareKey
    split
    · exact ⟨rfl, rfl⟩
    · split <;> exact ⟨rfl, rfl⟩
  have hissue : (s.certs.issue cfg.crypto cfg.names w).1.hasCert = s.certs.hasCert ∧
      (s.certs.issue cfg.crypto cfg.names w).1.storedPem = s.certs.storedPem := by
    rcases CertManager.issue_fst cfg.crypto s.certs cfg.names w with heq | heq
    · rw [heq]
      exact ⟨rfl, rfl⟩
    · rw [heq]
      exact hprepare
  unfold installs issued at h
  unfold request CertManager.requestCertificate
  cases hi : s.certs.issue cfg.crypto cfg.names w with
  | mk c r =>
      rw [hi] at h hissue
      cases r with
      | error f => exact hissue
      | ok bundle =>
          cases hparse : CertManager.parseBundle cfg.crypto bundle with
          | error f =>
              simp only [CertManager.importBundle, hparse]
              exact hissue
          | ok kc => simp [hparse] at h

theorem renew_induct {P : AcmeLeader K C → Prop} {b : Bundle} (renewed : Bool) (w : CertsCheck K)
    (hs : P s) (hb : s.certs.exportBundle = .ok b)
    (hrequest : ∀ u v, P u → P (request cfg u v).1)
    (hannounce : ∀ u, P u → u.certs.hasCert = true → P (u.announceBundle u.certs.storedPem)) :
    P (renew cfg s b renewed w).1 := by
  obtain ⟨hcert, rfl⟩ := exportBundle_eq_ok hb
  unfold renew
  split
  · exact hs
  · dsimp only
    split
    · exact hannounce s hs hcert
    · exact hs
  · have hr := hrequest s w.second hs
    split
    · next u f hreq =>
        rw [hreq] at hr
        exact hr
    · next u x hreq =>
        rw [hreq] at hr
        split
        · exact hr
        · next b' hb' =>
            obtain ⟨hcert', rfl⟩ := exportBundle_eq_ok hb'
            exact hannounce u hr hcert'

/-- **What `checkACMECerts` is made of.** A property that requests and announcements of the held
    bundle keep is kept by the check. -/
theorem checkACMECerts_induct {P : AcmeLeader K C → Prop} (w : CertsCheck K) (hs : P s)
    (hrequest : ∀ u v, P u → P (request cfg u v).1)
    (hannounce : ∀ u, P u → u.certs.hasCert = true → P (u.announceBundle u.certs.storedPem)) :
    P (checkACMECerts cfg s w) := by
  unfold checkACMECerts runCertsCheck
  split
  · next b hb => exact renew_induct false w hs hb hrequest hannounce
  · next p hp =>
      unfold CertManager.exportBundle at hp
      split at hp <;> cases hp
  · split
    · have hr := hrequest s w.first hs
      split
      · next u f hreq =>
          rw [hreq] at hr
          exact hr
      · next u x hreq =>
          rw [hreq] at hr
          split
          · exact hr
          · next b hb => exact renew_induct true w hr hb hrequest hannounce
    · exact hs

theorem checkACMECerts_account (cfg : AcmeConfig K C) (s : AcmeLeader K C) (w : CertsCheck K) :
    (checkACMECerts cfg s w).account = s.account ∧ (checkACMECerts cfg s w).accounts = s.accounts ∧
      CertManager.AccountKept s.certs (checkACMECerts cfg s w).certs := by
  refine checkACMECerts_induct (P := fun u => u.account = s.account ∧ u.accounts = s.accounts ∧
    CertManager.AccountKept s.certs u.certs) w ⟨rfl, rfl, fun h => ⟨h, rfl, rfl⟩⟩ ?_ ?_
  · rintro u v ⟨haccount, haccounts, hkept⟩
    have hsafe := CertManager.requestCertificate_safe cfg.crypto u.certs cfg.names v
    exact ⟨haccount, haccounts, hkept.trans hsafe.kept⟩
  · rintro u hu _
    exact hu

theorem checkACMECerts_sound (w : CertsCheck K) (hs : BundleSound s) :
    BundleSound (checkACMECerts cfg s w) := by
  refine checkACMECerts_induct w hs ?_ ?_
  · intro u v hu
    have hbundle := request_bundle cfg u v
    by_cases hin : installs cfg u v = true
    · rw [if_pos hin] at hbundle
      exact ⟨fun _ => hasCert_of_installs hin,
        fun habs => absurd (hbundle.symm.trans habs) (by simp)⟩
    · have hsame := request_unchanged cfg u v (by simpa using hin)
      rw [if_neg hin] at hbundle
      refine ⟨fun howed => ?_, fun hann => ?_⟩
      · rw [hsame.1]
        exact hu.owed (hbundle.symm.trans howed)
      · obtain ⟨hcert, hmem⟩ := hu.announced (hbundle.symm.trans hann)
        rw [hsame.1, hsame.2]
        exact ⟨hcert, hmem⟩
  · intro u hu hcert
    exact ⟨fun habs => absurd habs (by simp [announceBundle]),
      fun _ => ⟨hcert, by simp [announceBundle]⟩⟩

/-- **What `checkACMEAccountKeys` is made of.** -/
theorem checkACMEAccountKeys_induct {P : AcmeLeader K C → Prop} (w : AccountCheck K) (hs : P s)
    (hcrash : ∀ u, P u → P { u with crashed := true })
    (hload : P { s with certs := (s.certs.loadAccountFromFile cfg.crypto w.file w.update).1 })
    (hcreate : ∀ u, P u → P (create cfg u w.create).1)
    (hannounce : ∀ u, P u → P (announceAccount cfg u)) : P (checkACMEAccountKeys cfg s w) := by
  unfold checkACMEAccountKeys
  split
  · exact hs
  · exact hcrash s hs
  · split
    · cases hl : s.certs.loadAccountFromFile cfg.crypto w.file w.update with
      | mk c r =>
          rw [hl] at hload
          cases r with
          | ok u => exact hannounce _ hload
          | error f =>
              cases f with
              | panic p => exact hcrash _ hload
              | error err =>
                  simp only
                  split
                  · have hmade := hcreate _ hload
                    split
                    · next s' f hc =>
                        rw [hc] at hmade
                        exact hmade
                    · next s' x hc =>
                        rw [hc] at hmade
                        exact hannounce s' hmade
                  · exact hannounce _ hload
    · exact hs

theorem loadAccountFromFile_safe (cr : Crypto K C) (c : CertManager K C)
    (file : CertManager.FileRead AccountFile) (w : AccountUpdate K) :
    CertManager.Safe cr c (c.loadAccountFromFile cr file w).1 := by
  cases file with
  | value af => exact CertManager.importAccount_safe af false w
  | _ => exact CertManager.safe_refl

/-- Operations on the account leave the certificate alone. -/
theorem loadAccountFromFile_cert (cr : Crypto K C) (c : CertManager K C)
    (file : CertManager.FileRead AccountFile) (w : AccountUpdate K) :
    (c.loadAccountFromFile cr file w).1.hasCert = c.hasCert ∧
      (c.loadAccountFromFile cr file w).1.storedPem = c.storedPem := by
  cases file with
  | value af =>
      simp only [CertManager.loadAccountFromFile, CertManager.importAccount]
      split
      · exact ⟨rfl, rfl⟩
      · split
        · exact ⟨rfl, rfl⟩
        · split <;> exact ⟨rfl, rfl⟩
  | _ => exact ⟨rfl, rfl⟩

theorem createAccount_cert (cr : Crypto K C) (c : CertManager K C) (w : AccountCreation K) :
    (c.createAccount cr w).1.hasCert = c.hasCert ∧
      (c.createAccount cr w).1.storedPem = c.storedPem := by
  unfold CertManager.createAccount
  split
  · exact ⟨rfl, rfl⟩
  · split
    · exact ⟨rfl, rfl⟩
    · split
      · exact ⟨rfl, rfl⟩
      · split <;> exact ⟨rfl, rfl⟩

/-- `u` has the bundle of `s`, its certificate and its announcements of bundles. -/
def SameBundle (s u : AcmeLeader K C) : Prop :=
  u.bundle = s.bundle ∧ u.bundles = s.bundles ∧ u.certs.hasCert = s.certs.hasCert ∧
    u.certs.storedPem = s.certs.storedPem

theorem checkACMEAccountKeys_bundle (cfg : AcmeConfig K C) (s : AcmeLeader K C)
    (w : AccountCheck K) :
    SameBundle s (checkACMEAccountKeys cfg s w) := by
  refine checkACMEAccountKeys_induct (P := SameBundle s) w ⟨rfl, rfl, rfl, rfl⟩ ?_ ?_ ?_ ?_
  · intro u hu
    exact hu
  · have hcert := loadAccountFromFile_cert cfg.crypto s.certs w.file w.update
    exact ⟨rfl, rfl, hcert.1, hcert.2⟩
  · rintro u ⟨hb, hbs, hhas, hpem⟩
    have hcert := createAccount_cert cfg.crypto u.certs w.create
    exact ⟨hb, hbs, hcert.1.trans hhas, hcert.2.trans hpem⟩
  · intro u hu
    unfold announceAccount
    split <;> exact hu

theorem AccountSound.of_kept (h : AccountSound cfg s) {c : CertManager K C}
    (hkept : CertManager.AccountKept s.certs c) : AccountSound cfg { s with certs := c } where
  owed howed := by
    obtain ⟨af, haf⟩ := h.owed howed
    exact ⟨af, exportAccount_kept hkept haf⟩
  announced hann := by
    obtain ⟨af, haf, hmem⟩ := h.announced hann
    exact ⟨af, exportAccount_kept hkept haf, hmem⟩

theorem create_sound (w : AccountCreation K) (h : AccountSound cfg s) :
    AccountSound cfg (create cfg s w).1 := by
  by_cases hacc : s.certs.hasAcc = true
  · have hcreate : create cfg s w
        = ({ s with crashed := false }, .error (.error .accountExists)) := by
      simp [create, CertManager.createAccount, hacc, isPanic, Fault.isPanic]
    rw [hcreate]
    exact ⟨h.owed, h.announced⟩
  · have hno : s.certs.hasAcc = false := by simpa using hacc
    rcases create_spec cfg w hno with ⟨k, url, _, _, hcerts, howed, _⟩ | ⟨_, hsame, _⟩
    · obtain ⟨af, haf⟩ := exportAccount_withAccount cfg s.certs k url
      exact ⟨fun _ => ⟨af, hcerts ▸ haf⟩, fun hann => absurd (howed.symm.trans hann) (by simp)⟩
    · exact accountSound_of_notOwn (hsame.trans (h.notOwn hno))

theorem checkACMEAccountKeys_sound (w : AccountCheck K) (hs : AccountSound cfg s) :
    AccountSound cfg (checkACMEAccountKeys cfg s w) := by
  refine checkACMEAccountKeys_induct w hs ?_ ?_ ?_ ?_
  · intro u hu
    exact ⟨hu.owed, hu.announced⟩
  · exact hs.of_kept (loadAccountFromFile_safe cfg.crypto s.certs w.file w.update).kept
  · intro u hu
    exact create_sound w.create hu
  · intro u hu
    exact announceAccount_sound hu

/-! ## Whole runs -/

/-- One step, whichever check it is. -/
theorem step_cases (h : step cfg s a = some s') :
    (∃ w, a = .accountKeys w ∧ s' = checkACMEAccountKeys cfg s w) ∨
      ∃ w, a = .certs w ∧ s' = checkACMECerts cfg s w := by
  unfold step at h
  split at h
  · cases h
  · cases a with
    | accountKeys w => exact Or.inl ⟨w, rfl, (Option.some.inj h).symm⟩
    | certs w => exact Or.inr ⟨w, rfl, (Option.some.inj h).symm⟩

theorem step_sound (h : step cfg s a = some s') (hs : AccountSound cfg s ∧ BundleSound s) :
    AccountSound cfg s' ∧ BundleSound s' := by
  rcases step_cases h with ⟨w, rfl, rfl⟩ | ⟨w, rfl, rfl⟩
  · obtain ⟨hb, hbs, hcert, hpem⟩ := checkACMEAccountKeys_bundle cfg s w
    refine ⟨checkACMEAccountKeys_sound w hs.1, ?_, ?_⟩
    · rw [hb, hcert]
      exact hs.2.owed
    · rw [hb, hcert, hbs, hpem]
      exact hs.2.announced
  · obtain ⟨haccount, haccounts, hkept⟩ := checkACMECerts_account cfg s w
    have hacc := hs.1.of_kept hkept
    refine ⟨⟨?_, ?_⟩, checkACMECerts_sound w hs.2⟩
    · rw [haccount]
      exact hacc.owed
    · rw [haccount, haccounts]
      exact hacc.announced

/-- A step leaves nothing unannounced exactly if it reports. -/
theorem step_unannounced_iff (h : step cfg s a = some s') (hs : ¬ Unannounced s) :
    ¬ Unannounced s' ↔ Reports cfg s a := by
  simp only [Unannounced, not_or] at hs ⊢
  rcases step_cases h with ⟨w, rfl, rfl⟩ | ⟨w, rfl, rfl⟩
  · rw [(checkACMEAccountKeys_bundle cfg s w).1, and_iff_left hs.2]
    exact checkACMEAccountKeys_owes_iff w hs.1
  · rw [(checkACMECerts_account cfg s w).1, and_iff_right hs.1]
    exact checkACMECerts_owes_iff w hs.2

/-- The check renews the certificate that is there. -/
def Replaces (cfg : AcmeConfig K C) (s : AcmeLeader K C) (a : Action K) : Prop :=
  ∃ w, a = .certs w ∧ due cfg s w.now = .ok true ∧ installs cfg s w.second = true

/-- An account that is owed is held for ever and never announced. -/
theorem owed_account_never_announced {tr : List (AcmeLeader K C × Action K)} {af : AccountFile}
    (haf : s.certs.exportAccount cfg.crypto = .ok af) (howed : s.account = .owed)
    (h : (machine cfg).Run s tr t) :
    t.certs.exportAccount cfg.crypto = .ok af ∧ t.account = .owed ∧ t.accounts = s.accounts := by
  refine Machine.Run.preserves (I := fun t => t.certs.exportAccount cfg.crypto = .ok af ∧
    t.account = .owed ∧ t.accounts = s.accounts) h ⟨haf, howed, rfl⟩ ?_
  intro u a u' hI (hstep : step cfg u a = some u')
  obtain ⟨hu, hu', haccounts⟩ := hI
  rcases step_cases hstep with ⟨w, rfl, rfl⟩ | ⟨w, rfl, rfl⟩
  · -- the account is there, so the check does nothing
    have hsame : checkACMEAccountKeys cfg u w = u := by simp [checkACMEAccountKeys, hu]
    rw [hsame]
    exact ⟨hu, hu', haccounts⟩
  · obtain ⟨haccount, haccounts', hkept⟩ := checkACMECerts_account cfg u w
    exact ⟨exportAccount_kept hkept hu, haccount.trans hu', haccounts'.trans haccounts⟩

/-- A bundle that is owed stays so, and is not announced, until it is replaced. -/
theorem owed_bundle_step (hs : BundleSound s) (howed : s.bundle = .owed)
    (h : step cfg s a = some s') (hkeep : ¬ Replaces cfg s a) :
    s'.bundle = .owed ∧ s'.bundles = s.bundles := by
  rcases step_cases h with ⟨w, rfl, rfl⟩ | ⟨w, rfl, rfl⟩
  · obtain ⟨hb, hbs, _⟩ := checkACMEAccountKeys_bundle cfg s w
    exact ⟨hb.trans howed, hbs⟩
  · have hexport := exportBundle_of_hasCert (hs.owed howed)
    simp only [checkACMECerts, runCertsCheck, hexport, renew]
    cases hdue : due cfg s w.now with
    | error msg => exact ⟨howed, rfl⟩
    | ok isDue =>
        cases isDue with
        | false => exact ⟨howed, rfl⟩
        | true =>
            have hin : ¬ installs cfg s w.second = true := fun hin => hkeep ⟨w, rfl, hdue, hin⟩
            have hbundle : (request cfg s w.second).1.bundle = s.bundle := if_neg hin
            have hbundles : (request cfg s w.second).1.bundles = s.bundles := rfl
            have hok := (request_spec cfg s w.second).1
            cases hreq : request cfg s w.second with
            | mk s₂ r =>
                rw [hreq] at hok hbundle hbundles
                cases r with
                | error f => exact ⟨hbundle.trans howed, hbundles⟩
                | ok u => exact absurd (hok.1 rfl).1 hin

/-- **What is made is announced, exactly if every check reports.** Along a run of checks: the leader
    is never left with an account or a bundle that it made and did not announce, exactly if no check
    fails behind its installation (`Reports`). What counts as announced was passed to `Announce` and
    is what the leader holds. And what is owed once is never announced: the account not at all, the
    bundle not before it is replaced. -/
theorem leader_announces_iff {tr : List (AcmeLeader K C × Action K)} (hs : (machine cfg).Init s)
    (h : (machine cfg).Run s tr t) :
    ((∀ u ∈ Machine.visited tr t, ¬ Unannounced u) ↔ Machine.Meets (Reports cfg) tr) ∧
      (t.account = .announced →
        ∃ af, t.certs.exportAccount cfg.crypto = .ok af ∧ af ∈ t.accounts) ∧
      (t.bundle = .announced → ∃ b, t.certs.exportBundle = .ok b ∧ b ∈ t.bundles) ∧
      (t.account = .owed → ∃ af, t.certs.exportAccount cfg.crypto = .ok af ∧
        ∀ tr' v, (machine cfg).Run t tr' v → v.certs.exportAccount cfg.crypto = .ok af ∧
          v.account = .owed ∧ v.accounts = t.accounts) ∧
      (t.bundle = .owed → ∀ a v, (machine cfg).step t a = some v → ¬ Replaces cfg t a →
        v.bundle = .owed ∧ v.bundles = t.bundles) := by
  obtain ⟨haccount, hbundle, _⟩ := hs
  have hsound : AccountSound cfg t ∧ BundleSound t := by
    refine Machine.Run.preserves (I := fun t => AccountSound cfg t ∧ BundleSound t) h
      ⟨accountSound_of_notOwn haccount, ?_, ?_⟩ ?_
    · intro habs
      exact absurd (hbundle.symm.trans habs) (by simp)
    · intro habs
      exact absurd (hbundle.symm.trans habs) (by simp)
    · intro u a u' hu hstep
      exact step_sound hstep hu
  refine ⟨?_, hsound.1.announced, ?_, ?_, ?_⟩
  · exact h.avoids_iff (by simp [Unannounced, haccount, hbundle])
      (fun _ _ _ hu hstep => step_unannounced_iff hstep hu)
  · intro hann
    obtain ⟨hcert, hmem⟩ := hsound.2.announced hann
    exact ⟨_, exportBundle_of_hasCert hcert, hmem⟩
  · intro howed
    obtain ⟨af, haf⟩ := hsound.1.owed howed
    exact ⟨af, haf, fun tr' v hrun => owed_account_never_announced haf howed hrun⟩
  · intro howed a v hstep hkeep
    exact owed_bundle_step hsound.2 howed hstep hkeep

/-- Certificates for `a.z` that expire far in the future. -/
def exampleConfig : AcmeConfig Bool (String × String) where
  crypto := twoKeys
  x509 := ⟨fun _ => [[1]], fun _ => .ok ⟨[ascii "a.z"], 10 * thirtyDays⟩⟩
  names := exampleNames
  domain := ascii "a.z:443"

/-- A leader that has nothing. -/
def bare : AcmeLeader Bool (String × String) :=
  ⟨CertManager.init, [], [], .notOwn, .notOwn, false⟩

/-- There is no file, and the authority registers the key; the write ends as given. -/
def newAccount (w : FileWrite) : AccountCheck Bool :=
  ⟨.notExist, ⟨.known, w⟩, ⟨.ok false, .ok "u", w⟩⟩

/-- An account and a certificate are made, and everything can be written. -/
def smoothRun : List (Action Bool) :=
  [.accountKeys (newAccount .done),
    .certs ⟨smoothRequest true, 0, smoothRequest true⟩]

theorem leader_announces_iff_smooth :
    ∃ tr t, (machine exampleConfig).Run bare tr t ∧ Machine.Meets (Reports exampleConfig) tr ∧
      t.accounts.length = 1 ∧ t.bundles.length = 1 := by
  obtain ⟨t, hrun, hclear, haccounts, hbundles⟩ := (machine exampleConfig).run_of_exec_any bare
    smoothRun (P := fun t =>
      (∀ u ∈ Machine.visited ((machine exampleConfig).trace bare smoothRun) t, ¬ Unannounced u) ∧
        t.accounts.length = 1 ∧ t.bundles.length = 1) (by decide)
  have hinit : (machine exampleConfig).Init bare := ⟨rfl, rfl, rfl, rfl, rfl⟩
  exact ⟨_, t, hrun, (leader_announces_iff hinit hrun).1.1 hclear, haccounts, hbundles⟩

/-- The account is registered and cannot be written. The leader holds it, and none of its further
    checks announces it. -/
theorem leader_account_never_announced :
    ∃ s af, (machine exampleConfig).Reachable s ∧
      s.certs.exportAccount exampleConfig.crypto = .ok af ∧
      ∀ tr t, (machine exampleConfig).Run s tr t →
        t.certs.exportAccount exampleConfig.crypto = .ok af ∧ t.accounts = [] := by
  have hinit : (machine exampleConfig).Init bare := ⟨rfl, rfl, rfl, rfl, rfl⟩
  obtain ⟨s, hreach, howed, haccounts, haf⟩ := (machine exampleConfig).reachable_of_exec_any hinit
    [.accountKeys (newAccount (.notOpened "permission denied"))]
    (P := fun s => s.account = .owed ∧ s.accounts = [] ∧
      s.certs.exportAccount exampleConfig.crypto = .ok ⟨"A", "u"⟩) (by decide)
  refine ⟨s, _, hreach, haf, fun tr t hrun => ?_⟩
  obtain ⟨hexport, _, hsame⟩ := owed_account_never_announced haf howed hrun
  exact ⟨hexport, hsame.trans haccounts⟩

end AcmeLeader

end Tunnel.Server
