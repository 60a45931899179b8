import Tunnel.Acme.KeySafety

set_option autoImplicit false

/-! # The private key of the certificate and its flag (`acme/acme.go`)

`certPKey` is the private key, and `hasCertPKey` is to say whether there is one. `ImportBundle` and
`RequestCertificate` set both. `ImportPrivateKey` sets the key only; so after it the export of the
key and the request of a certificate fail for want of a key, and another key can be imported over
it. `private_key_flag_iff` says which runs leave flag and key apart: those in which nothing assigned
the key behind the last `ImportPrivateKey` that succeeded.

`RequestCertificate` reads the key twice, in two sections: the signing request is made with what it
finds in the first, the bundle with what it finds in the second. A bundle that arrives in between
replaces the key. `request_one_key_iff` says that this is the only way to end up with two keys, and
that the certificate is then lost: the authority has issued it, and it does not fit the bundle.

Both follow from what a step does to the key and its flag (`step_keyAfter`). -/

namespace Tunnel.Acme

open Tunnel.Lib

variable {K C : Type}

/-- The key that the call is about to install. -/
def ImportPc.installs : ImportPc K C → Option K
  | .install k _ => some k
  | .parse | .returned _ => none

namespace CertManager

variable {cr : Crypto K C} {c c' : CertManager K C}

/-- The key and its flag. -/
def keyAndFlag (c : CertManager K C) : Option K × Bool := (c.certPKey, c.hasCertPKey)

/-- The flag is set exactly if there is a key. -/
def Tracked (c : CertManager K C) : Prop := c.hasCertPKey = true ↔ c.certPKey.isSome = true

instance (c : CertManager K C) : Decidable c.Tracked := inferInstanceAs (Decidable (_ ↔ _))

@[simp] theorem keyAndFlag_createAccount (cr : Crypto K C) (c : CertManager K C)
    (w : AccountCreation K) : (c.createAccount cr w).1.keyAndFlag = c.keyAndFlag := by
  unfold createAccount
  split
  · rfl
  · split
    · rfl
    · split
      · rfl
      · split <;> rfl

@[simp] theorem keyAndFlag_importAccount (cr : Crypto K C) (c : CertManager K C) (af : AccountFile)
    (toFile : Bool) (w : AccountUpdate K) :
    (c.importAccount cr af toFile w).1.keyAndFlag = c.keyAndFlag := by
  unfold importAccount
  split
  · rfl
  · split
    · rfl
    · split <;> rfl

/-- An import that succeeds leaves the flag as it was. -/
theorem importPrivateKey_ok {text : String} (h : c.importPrivateKey cr text = (c', .ok ())) :
    c.hasCertPKey = false ∧ ∃ k, c' = { c with certPKey := some k } := by
  unfold importPrivateKey at h
  split at h
  · cases h
  · next hflag =>
      refine ⟨by simpa using hflag, ?_⟩
      split at h
      · cases h
      · cases h
      · next k _ =>
          cases h
          exact ⟨k, rfl⟩

end CertManager

namespace Manager

open CertManager

variable {cr : Crypto K C} {config : NameConfig} {s s' t u : Manager K C} {a : Action K}
  {tr : List (Manager K C × Action K)}

/-- The key and the flag that the next section of a request leaves behind. -/
def requestKeyAfter (c : CertManager K C) (w : CertificateRequest K) :
    RequestPc K C → Option K × Bool
  | .prepare => (c.prepareKey w).1.keyAndFlag
  | .install _ _ k _ => (some k, true)
  | .start | .exportKey _ | .order _ _ | .parse _ _ | .returned _ => c.keyAndFlag

/-- The key and the flag that a step leaves behind. -/
def keyAfter (cr : Crypto K C) (s : Manager K C) : Action K → Option K × Bool
  | .importPrivateKey text => (s.certs.importPrivateKey cr text).1.keyAndFlag
  | .importStep i _ =>
      ((s.imports[i]?.bind (fun call => call.pc.installs)).map (fun k => (some k, true))).getD
        s.certs.keyAndFlag
  | .requestStep i w => (s.requests[i]?.map (requestKeyAfter s.certs w)).getD s.certs.keyAndFlag
  | .createAccount _ | .importAccount _ _ _ | .read _ | .importBundle _ _ | .requestCertificate =>
      s.certs.keyAndFlag

theorem importStep_keyAndFlag {i : ℕ} {call : ImportCall K C} {w : FileWrite}
    (h : s.importStep cr i call w = some s') :
    s'.certs.keyAndFlag
      = (call.pc.installs.map (fun k => (some k, true))).getD s.certs.keyAndFlag := by
  unfold importStep at h
  split at h
  · next hpc =>
      rw [hpc]
      split at h <;> cases h <;> rfl
  · next hpc =>
      rw [hpc]
      cases h
      rfl
  · cases h

theorem requestStep_keyAndFlag {i : ℕ} {pc : RequestPc K C} {w : CertificateRequest K}
    (h : s.requestStep cr config i pc w = some s') :
    s'.certs.keyAndFlag = requestKeyAfter s.certs w pc := by
  unfold requestStep at h
  split at h
  · split at h
    · cases h
      rfl
    · split at h <;> cases h <;> rfl
  · rw [requestKeyAfter]
    split at h
    · next hprepare =>
        cases h
        rw [hprepare]
        rfl
    · next hprepare =>
        cases h
        rw [hprepare]
        rfl
  · split at h <;> cases h <;> rfl
  · split at h <;> cases h <;> rfl
  · split at h <;> cases h <;> rfl
  · cases h
    rfl
  · cases h

/-- **What a step does to the key and its flag.** -/
theorem step_keyAfter (h : s.step cr config a = some s') :
    s'.certs.keyAndFlag = keyAfter cr s a := by
  unfold step at h
  split at h
  · cases h
  cases a with
  | createAccount w =>
      simp only [Option.ite_none_right_eq_some, Option.some.injEq] at h
      obtain ⟨_, rfl⟩ := h
      exact keyAndFlag_createAccount cr s.certs w
  | importAccount af toFile w =>
      simp only [Option.ite_none_right_eq_some, Option.some.injEq] at h
      obtain ⟨_, rfl⟩ := h
      exact keyAndFlag_importAccount cr s.certs af toFile w
  | importPrivateKey text =>
      cases h
      rfl
  | read r =>
      cases h
      rfl
  | importBundle bundle toFile =>
      cases h
      rfl
  | importStep i w =>
      obtain ⟨call, hi, hstep⟩ := Option.bind_eq_some_iff.1 h
      rw [importStep_keyAndFlag hstep, keyAfter, hi]
      rfl
  | requestCertificate =>
      cases h
      rfl
  | requestStep i w =>
      obtain ⟨pc, hi, hstep⟩ := Option.bind_eq_some_iff.1 h
      rw [requestStep_keyAndFlag hstep, keyAfter, hi]
      rfl

/-! ## The flag -/

/-- There is a key that the flag does not tell of. -/
def Untold (s : Manager K C) : Prop := s.certs.hasCertPKey = false ∧ s.certs.certPKey.isSome = true

/-- `ImportPrivateKey` succeeds. -/
def Accepts (cr : Crypto K C) (s : Manager K C) : Action K → Prop
  | .importPrivateKey text => s.certs.hasCertPKey = false ∧ ∃ k, pemToKey cr text = .ok k
  | _ => False

/-- A bundle is installed, together with the flag; or `ImportPrivateKey` fails to parse its text,
    and takes away the key. -/
def Resets (cr : Crypto K C) (s : Manager K C) : Action K → Prop
  | .importPrivateKey text =>
      s.certs.hasCertPKey = false ∧ ∃ e, pemToKey cr text = .error (.error e)
  | .importStep i _ => ∃ call k cert, s.imports[i]? = some call ∧ call.pc = .install k cert
  | .requestStep i _ => ∃ signer bundle k cert,
      s.requests[i]? = some (.install signer bundle k cert)
  | _ => False

theorem untold_iff : Untold s ↔ s.certs.keyAndFlag.2 = false ∧ s.certs.keyAndFlag.1.isSome = true :=
  Iff.rfl

/-- **Step lemma.** An untold key comes from `ImportPrivateKey`, and stays until both are
    assigned. -/
theorem step_untold_iff (h : s.step cr config a = some s') :
    Untold s' ↔ Accepts cr s a ∨ Untold s ∧ ¬ Resets cr s a := by
  rw [untold_iff, step_keyAfter h]
  cases a with
  | importPrivateKey text =>
      simp only [keyAfter, importPrivateKey, Accepts, Resets]
      by_cases hflag : s.certs.hasCertPKey = true
      · simp [hflag, Untold, keyAndFlag]
      · rw [Bool.not_eq_true] at hflag
        cases hkey : pemToKey cr text with
        | ok k => simp [hflag, keyAndFlag]
        | error f => cases f <;> simp [hflag, Untold, keyAndFlag]
  | importStep i w =>
      simp only [keyAfter, Accepts, Resets, false_or]
      cases hi : s.imports[i]? with
      | none => simp [untold_iff]
      | some call => cases hpc : call.pc <;> simp [hpc, ImportPc.installs, untold_iff]
  | requestStep i w =>
      simp only [keyAfter, Accepts, Resets, false_or]
      cases hi : s.requests[i]? with
      | none => simp [untold_iff]
      | some pc =>
          cases pc with
          | prepare =>
              simp only [Option.map_some, Option.getD_some, requestKeyAfter, prepareKey]
              cases hkey : s.certs.certPKey with
              | some k => simp [untold_iff]
              | none => cases hgen : w.key <;> simp [Untold, keyAndFlag, hkey]
          | start | exportKey | order | parse | install | returned =>
              simp [untold_iff, requestKeyAfter]
  | createAccount | importAccount | read | importBundle | requestCertificate =>
      simp [keyAfter, Accepts, Resets, untold_iff]

/-- The flag never tells of a key that is not there. -/
theorem key_of_flag_step (h : s.step cr config a = some s')
    (hs : s.certs.hasCertPKey = true → s.certs.certPKey.isSome = true) :
    s'.certs.hasCertPKey = true → s'.certs.certPKey.isSome = true := by
  show s'.certs.keyAndFlag.2 = true → s'.certs.keyAndFlag.1.isSome = true
  rw [step_keyAfter h]
  cases a with
  | importPrivateKey text =>
      simp only [keyAfter, importPrivateKey]
      by_cases hflag : s.certs.hasCertPKey = true
      · simpa [hflag, keyAndFlag] using hs hflag
      · cases pemToKey cr text with
        | ok k => simp [hflag, keyAndFlag]
        | error f => cases f <;> simp [hflag, keyAndFlag]
  | importStep i w =>
      simp only [keyAfter]
      cases s.imports[i]?.bind (fun call => call.pc.installs) with
      | none => exact hs
      | some k => simp
  | requestStep i w =>
      simp only [keyAfter]
      cases s.requests[i]? with
      | none => exact hs
      | some pc =>
          cases pc with
          | prepare =>
              simp only [Option.map_some, Option.getD_some, requestKeyAfter, prepareKey]
              cases hkey : s.certs.certPKey with
              | some k => simp [keyAndFlag, hkey]
              | none =>
                  cases w.key with
                  | ok k => simp [keyAndFlag]
                  | error e => simpa [keyAndFlag, hkey] using hs
          | install => simp [requestKeyAfter]
          | start | exportKey | order | parse | returned => exact hs
  | createAccount | importAccount | read | importBundle | requestCertificate => exact hs

/-- With the flag right there is a key to be exported exactly if there is a key, it is exactly then
    that `ImportPrivateKey` refuses another one, and the key with which a signing request was made
    can be exported. -/
structure FlagServes (cr : Crypto K C) (c : CertManager K C) : Prop where
  exports (k : K) : c.certPKey = some k → ∃ text, c.exportPrivateKey cr = .ok text ∧
    pemToKey cr text = .ok k
  refuses (k : K) : c.certPKey = some k → ∀ text,
    (c.importPrivateKey cr text).2 = .error (.error .pKeyExists)
  requests (w : CertificateRequest K) (k : K) : (c.prepareKey w).2 = .ok k →
    ∃ text, (c.prepareKey w).1.exportForRequest cr = .ok text

theorem exportPrivateKey_of_key (cr : Crypto K C) {c : CertManager K C} {k : K}
    (hflag : c.hasCertPKey = true) (hkey : c.certPKey = some k) :
    ∃ text, c.exportPrivateKey cr = .ok text ∧ pemToKey cr text = .ok k := by
  obtain ⟨text, htext, hback⟩ := keyToPEM_some cr k
  exact ⟨text, by simp [exportPrivateKey, hflag, hkey, htext], hback⟩

theorem exportForRequest_of_key (cr : Crypto K C) {c : CertManager K C} {k : K}
    (hflag : c.hasCertPKey = true) (hkey : c.certPKey = some k) :
    ∃ text, c.exportForRequest cr = .ok text ∧ pemToKey cr text = .ok k := by
  obtain ⟨text, htext, hback⟩ := exportPrivateKey_of_key cr hflag hkey
  exact ⟨text, by simp [exportForRequest, htext], hback⟩

theorem flagServes_of_tracked {c : CertManager K C} (h : c.Tracked) : FlagServes cr c where
  exports k hkey := exportPrivateKey_of_key cr (h.2 (by simp [hkey])) hkey
  refuses k hkey text := by
    have hflag : c.hasCertPKey = true := h.2 (by simp [hkey])
    simp [importPrivateKey, hflag]
  requests w k hprepare := by
    cases hkey : c.certPKey with
    | some k' =>
        have hflag : c.hasCertPKey = true := h.2 (by simp [hkey])
        have hsame : (c.prepareKey w).1 = c := by simp [prepareKey, hkey]
        rw [hsame]
        obtain ⟨text, htext, _⟩ := exportForRequest_of_key cr hflag hkey
        exact ⟨text, htext⟩
    | none =>
        cases hgen : w.key with
        | error e => simp [prepareKey, hkey, hgen, failed] at hprepare
        | ok k' =>
            have hnext :
                (c.prepareKey w).1 = { c with certPKey := some k', hasCertPKey := true } := by
              simp [prepareKey, hkey, hgen]
            rw [hnext]
            obtain ⟨text, htext, _⟩ := exportForRequest_of_key cr
              (c := { c with certPKey := some k', hasCertPKey := true }) rfl rfl
            exact ⟨text, htext⟩

/-- **When the flag tracks the key.** At the end of a run the flag is set exactly if there is a key,
    unless a private key was imported and since then neither a bundle was installed nor the import
    of a private key failed on its text. Where the flag is right it serves its purpose. But it never
    is behind an import that succeeds: the key cannot be exported, another import is not refused,
    and a request that made its signing request with the key fails. -/
theorem private_key_flag_iff (hrun : (machine cr config).Run init tr t) :
    (t.certs.Tracked ↔ ¬ Machine.LastSet (Accepts cr) (Resets cr) tr) ∧
    (t.certs.Tracked → FlagServes cr t.certs) ∧
    ∀ text c, t.certs.importPrivateKey cr text = (c, .ok ()) →
      ¬ c.Tracked ∧ c.exportPrivateKey cr = .error (.error .noPKey) ∧
      (∀ text', (c.importPrivateKey cr text').2 ≠ .error (.error .pKeyExists)) ∧
      ∀ w, (c.prepareKey w).1.exportForRequest cr
        = .error (.error (.wrap "encoding private key to pem" .noPKey)) := by
  have hflag : t.certs.hasCertPKey = true → t.certs.certPKey.isSome = true :=
    Machine.Run.preserves
      (I := fun s : Manager K C => s.certs.hasCertPKey = true → s.certs.certPKey.isSome = true)
      hrun (by simp [init, CertManager.init]) (fun s a s' hs h => key_of_flag_step h hs)
  have huntold : Untold t ↔ Machine.LastSet (Accepts cr) (Resets cr) tr :=
    Machine.Run.holds_iff_lastSet hrun (by simp [Untold, init, CertManager.init])
      (fun s a s' h => step_untold_iff h)
  refine ⟨?_, flagServes_of_tracked, ?_⟩
  · rw [← huntold, Untold, Tracked]
    cases hf : t.certs.hasCertPKey with
    | false => simp
    | true => simp [hflag hf]
  · intro text c hok
    obtain ⟨hnot, k, rfl⟩ := importPrivateKey_ok hok
    refine ⟨by simp [Tracked, hnot], by simp [exportPrivateKey, hnot], ?_, ?_⟩
    · intro text'
      simp only [importPrivateKey, hnot, Bool.false_eq_true, if_false]
      split <;> simp
    · intro w
      simp [prepareKey, exportForRequest, exportPrivateKey, hnot, Fault.wrap]

/-- A private key is imported, and then a bundle with another one. -/
theorem private_key_flag_iff_bundle :
    ∃ tr t, (machine twoKeys exampleNames).Run init tr t ∧ t.certs.certPKey = some true ∧
      FlagServes twoKeys t.certs := by
  obtain ⟨t, hrun, htracked, hkey⟩ := (machine twoKeys exampleNames).run_of_exec_any init
    [.importPrivateKey "A", .importBundle ⟨"B", ["CB"]⟩ false, .importStep 0 .done,
      .importStep 0 .done]
    (P := fun t => t.certs.Tracked ∧ t.certs.certPKey = some true) (by decide)
  exact ⟨_, t, hrun, hkey, (private_key_flag_iff hrun).2.1 htracked⟩

/-- The `i`-th request ended for want of a private key. -/
def endedWithoutKey (s : Manager K C) (i : ℕ) : Bool :=
  match s.requests[i]? with
  | some (.returned (.error (.error e))) => e.is .noPKey
  | _ => false

/-- The `i`-th request has made its signing request. -/
def hasSigned (s : Manager K C) (i : ℕ) : Bool :=
  match s.requests[i]? with
  | some (.exportKey _) => true
  | _ => false

/-- A private key is imported: it cannot be exported, and another one is imported over it. And a
    request that made its signing request with the key ends for want of a key. -/
theorem private_key_flag_lost :
    (∃ tr t, (machine twoKeys exampleNames).Run init tr t ∧ ¬ t.certs.Tracked ∧
      t.certs.exportPrivateKey twoKeys = .error (.error .noPKey) ∧
      (t.certs.importPrivateKey twoKeys "B").1.certPKey = some true ∧
      (t.certs.importPrivateKey twoKeys "B").2 = .ok ()) ∧
    ∃ tr t u, (machine twoKeys exampleNames).Run init tr t ∧ t.hasSigned 0 = true ∧
      t.step twoKeys exampleNames (.requestStep 0 (smoothRequest false)) = some u ∧
      u.endedWithoutKey 0 = true := by
  constructor
  · obtain ⟨t, hrun, hP⟩ := (machine twoKeys exampleNames).run_of_exec_any init
      [.importPrivateKey "A"]
      (P := fun t => ¬ t.certs.Tracked ∧
        t.certs.exportPrivateKey twoKeys = .error (.error .noPKey) ∧
        (t.certs.importPrivateKey twoKeys "B").1.certPKey = some true ∧
        (t.certs.importPrivateKey twoKeys "B").2 = .ok ()) (by decide)
    exact ⟨_, t, hrun, hP⟩
  · obtain ⟨t, hrun, hsigned, hnext⟩ := (machine twoKeys exampleNames).run_of_exec_any init
      [.createAccount ⟨.ok false, .ok "u", .done⟩, .importPrivateKey "A", .requestCertificate,
        .requestStep 0 (smoothRequest false), .requestStep 0 (smoothRequest false)]
      (P := fun t => t.hasSigned 0 = true ∧
        (t.step twoKeys exampleNames (.requestStep 0 (smoothRequest false))).any
          (fun u => u.endedWithoutKey 0) = true) (by decide)
    obtain ⟨u, hu, hended⟩ := (Option.any_eq_true _ _).1 hnext
    exact ⟨_, t, u, hrun, hsigned, hu, hended⟩

/-! ## The two sections of a request -/

/-- A step of the `i`-th request, or of an `ImportBundle`. -/
def Concurrent (i : ℕ) : Action K → Prop
  | .requestStep j _ => j = i
  | .importBundle _ _ | .importStep _ _ => True
  | .createAccount _ | .importAccount _ _ _ | .importPrivateKey _ | .read _
    | .requestCertificate => False

/-- The key that an `ImportBundle` installs in this step, while the `i`-th request stands between
    its two sections. -/
def replacement (i : ℕ) (p : Manager K C × Action K) : Option K :=
  match p.2 with
  | .importStep j _ =>
      if p.1.hasSigned i = true then p.1.imports[j]?.bind (fun call => call.pc.installs) else none
  | _ => none

/-- The key that was installed last while the `i`-th request stood between its two sections. -/
def lastReplacement (i : ℕ) (tr : List (Manager K C × Action K)) : Option K :=
  (tr.filterMap (replacement i)).getLast?

/-- What is known of the keys of a request at a program point, if `last` is what its key was
    replaced by, and `key` the manager's key: the one that it exports, or has exported, is the one
    it signed with or `last`. -/
def KeyOf (cr : Crypto K C) (last key : Option K) : RequestPc K C → Prop
  | .start | .prepare => last = none
  | .exportKey k => key = some (last.getD k)
  | .order k pKey => pemToKey cr pKey = .ok (last.getD k)
  | .parse k bundle | .install k bundle _ _ => pemToKey cr bundle.privateKey = .ok (last.getD k)
  | .returned _ => True

theorem lastReplacement_snoc (i : ℕ) (tr : List (Manager K C × Action K))
    (p : Manager K C × Action K) :
    lastReplacement i (tr ++ [p]) = (replacement i p).or (lastReplacement i tr) := by
  rw [lastReplacement, lastReplacement, List.filterMap_append]
  cases hp : replacement i p with
  | none => simp [hp]
  | some k => simp [hp]

theorem importStep_requests {i : ℕ} {call : ImportCall K C} {w : FileWrite}
    (h : s.importStep cr i call w = some s') : s'.requests = s.requests := by
  unfold importStep at h
  split at h
  · split at h <;> cases h <;> rfl
  · cases h
    rfl
  · cases h

theorem prepareKey_ok {c c' : CertManager K C} {w : CertificateRequest K} {k : K}
    (h : c.prepareKey w = (c', .ok k)) : c'.certPKey = some k := by
  have hsign : ∀ {k' : K}, w.sign k' = .ok k → k' = k := by
    intro k' hk'
    unfold CertificateRequest.sign at hk'
    split at hk'
    · cases hk'
    · split at hk'
      · cases hk'
      · exact Except.ok.inj hk'
  unfold prepareKey at h
  split at h
  · next k' hkey =>
      rw [Prod.mk.injEq] at h
      obtain ⟨rfl, hk⟩ := h
      rw [hkey, hsign hk]
  · split at h
    · cases h
    · rw [Prod.mk.injEq] at h
      obtain ⟨rfl, hk⟩ := h
      rw [hsign hk]

theorem exportForRequest_ok {c : CertManager K C} {text : String}
    (h : c.exportForRequest cr = .ok text) :
    ∃ k, c.certPKey = some k ∧ pemToKey cr text = .ok k := by
  unfold exportForRequest exportPrivateKey at h
  split at h
  · cases h
  · next text' hexport =>
      cases h
      split at hexport
      · cases hexport
      · split at hexport
        · cases hexport
        · next text' hpem =>
            cases hexport
            cases hkey : c.certPKey with
            | none => simp [hkey, keyToPEM] at hpem
            | some k =>
                obtain ⟨t, ht, hback⟩ := keyToPEM_some cr k
                rw [hkey, ht, Except.ok.injEq] at hpem
                exact ⟨k, rfl, hpem ▸ hback⟩

/-- A section of the request: what it exports is the manager's key, and no section changes that. -/
theorem requestStep_keyOf {i : ℕ} {pc : RequestPc K C} {w : CertificateRequest K} {last : Option K}
    (hi : s.requests[i]? = some pc) (hk : KeyOf cr last s.certs.certPKey pc)
    (h : s.requestStep cr config i pc w = some s') :
    ∃ pc', s'.requests[i]? = some pc' ∧ KeyOf cr last s'.certs.certPKey pc' := by
  have hlen : i < s.requests.length := (List.getElem?_eq_some_iff.1 hi).1
  have hset : ∀ pc' : RequestPc K C, (s.requests.set i pc')[i]? = some pc' :=
    fun pc' => List.getElem?_set_self hlen
  cases pc with
  | start =>
      simp only [requestStep] at h
      split at h
      · cases h
        exact ⟨_, hset _, trivial⟩
      · split at h
        · cases h
          exact ⟨_, hset _, trivial⟩
        · cases h
          exact ⟨_, hset _, hk⟩
  | prepare =>
      have hnone : last = none := hk
      simp only [requestStep] at h
      split at h
      · cases h
        exact ⟨_, hset _, trivial⟩
      · next c k hprepare =>
          cases h
          refine ⟨_, hset _, ?_⟩
          show c.certPKey = some (last.getD k)
          rw [prepareKey_ok hprepare, hnone]
          rfl
  | exportKey k =>
      have hkey : s.certs.certPKey = some (last.getD k) := hk
      simp only [requestStep] at h
      split at h
      · cases h
        exact ⟨_, hset _, trivial⟩
      · next pKey hexport =>
          cases h
          refine ⟨_, hset _, ?_⟩
          obtain ⟨k', hk', hpem⟩ := exportForRequest_ok hexport
          rw [hkey, Option.some.injEq] at hk'
          show pemToKey cr pKey = .ok (last.getD k)
          rw [hk', hpem]
  | order k _ | parse k _ =>
      simp only [requestStep] at h
      split at h
      · cases h
        exact ⟨_, hset _, trivial⟩
      · cases h
        exact ⟨_, hset _, hk⟩
  | install k bundle k' cert =>
      cases h
      exact ⟨_, hset _, trivial⟩
  | returned r => cases h

/-- **Step lemma.** -/
theorem step_keyOf {i : ℕ} (ha : Concurrent i a) (h : s.step cr config a = some s')
    (hs : ∃ pc, s.requests[i]? = some pc ∧ KeyOf cr (lastReplacement i tr) s.certs.certPKey pc) :
    ∃ pc, s'.requests[i]? = some pc ∧
      KeyOf cr (lastReplacement i (tr ++ [(s, a)])) s'.certs.certPKey pc := by
  obtain ⟨pc, hi, hk⟩ := hs
  rw [lastReplacement_snoc]
  unfold step at h
  split at h
  · cases h
  cases a with
  | importBundle bundle toFile =>
      cases h
      exact ⟨pc, hi, hk⟩
  | importStep j w =>
      obtain ⟨call, hj, hstep⟩ := Option.bind_eq_some_iff.1 h
      refine ⟨pc, importStep_requests hstep ▸ hi, ?_⟩
      cases pc with
      | exportKey k =>
          have hkey : s'.certs.certPKey
              = ((call.pc.installs.map (fun k => (some k, true))).getD s.certs.keyAndFlag).1 :=
            congrArg Prod.fst (importStep_keyAndFlag hstep)
          have hsigned : s.hasSigned i = true := by simp [hasSigned, hi]
          have hreplaced : replacement i (s, .importStep j w) = call.pc.installs := by
            simp [replacement, hsigned, hj]
          rw [hreplaced]
          show s'.certs.certPKey = some ((call.pc.installs.or (lastReplacement i tr)).getD k)
          rw [hkey]
          cases call.pc.installs with
          | none => exact hk
          | some k' => rfl
      | start | prepare | order | parse | install | returned =>
          -- the manager's key no longer matters, or does not matter yet
          have hsigned : s.hasSigned i = false := by simp [hasSigned, hi]
          have hreplaced : replacement i (s, .importStep j w) = none := by
            simp [replacement, hsigned]
          rw [hreplaced]
          exact hk
  | requestStep j w =>
      obtain rfl : j = i := ha
      obtain ⟨pc', hi', hstep⟩ := Option.bind_eq_some_iff.1 h
      rw [hi, Option.some.injEq] at hi'
      subst hi'
      exact requestStep_keyOf hi hk hstep
  | createAccount | importAccount | importPrivateKey | read | requestCertificate => exact ha.elim

/-- **Run lemma.** -/
theorem run_keyOf {i : ℕ} (hs : s.requests[i]? = some .start)
    (hrun : (machine cr config).Run s tr t)
    (honly : Machine.Meets (fun _ a => Concurrent i a) tr) :
    ∃ pc, t.requests[i]? = some pc ∧ KeyOf cr (lastReplacement i tr) t.certs.certPKey pc := by
  induction hrun with
  | nil => exact ⟨.start, hs, rfl⟩
  | snoc _ hstep ih =>
      rw [Machine.meets_append, Machine.meets_singleton] at honly
      exact step_keyOf honly.2 hstep (ih honly.1)

/-- The authority issued the chain for the key `k`: `X509KeyPair` takes it together with the text of
    a private key exactly if that is the text of `k`. -/
def IssuedFor (cr : Crypto K C) (k : K) (chain : List String) : Prop :=
  ∀ text k', pemToKey cr text = .ok k' →
    ((∃ cert, cr.x509KeyPair ("\n".intercalate chain) text = .ok cert) ↔ k' = k)

/-- **When a request uses one key.** A request runs together with any number of `ImportBundle`, and
    has come to its own `ImportBundle`, with a certificate for a signing request made with `k`. The
    bundle has the private key `k` exactly if the last key that was installed between the two
    sections of the request, if any, is `k`; and if the certificate was issued for `k`, then it is
    exactly in this case that the bundle can be imported. Otherwise the request fails. -/
theorem request_one_key_iff {i : ℕ} {k : K} {bundle : Bundle} (hs : s.requests[i]? = some .start)
    (hrun : (machine cr config).Run s tr t)
    (honly : Machine.Meets (fun _ a => Concurrent i a) tr)
    (hpc : t.requests[i]? = some (.parse k bundle)) :
    (pemToKey cr bundle.privateKey = .ok k ↔ ∀ k', lastReplacement i tr = some k' → k' = k) ∧
    (IssuedFor cr k bundle.chain →
      ((∃ k' cert, parseBundle cr bundle = .ok (k', cert)) ↔
        ∀ k', lastReplacement i tr = some k' → k' = k) ∧
      ((∃ k', lastReplacement i tr = some k' ∧ k' ≠ k) → ∃ e, ∀ w u,
        t.requestStep cr config i (.parse k bundle) w = some u →
          u.requests[i]? =
            some (.returned (.error (.error (.wrap "re-importing exported certificate"
              (.wrap "generating x509 key pair" (.other e)))))))) := by
  obtain ⟨pc, hpc', hk⟩ := run_keyOf hs hrun honly
  rw [hpc, Option.some.injEq] at hpc'
  subst hpc'
  have hpem : pemToKey cr bundle.privateKey = .ok ((lastReplacement i tr).getD k) := hk
  have hsame : (lastReplacement i tr).getD k = k ↔
      ∀ k', lastReplacement i tr = some k' → k' = k := by
    cases lastReplacement i tr <;> simp
  refine ⟨?_, fun hissued => ⟨?_, ?_⟩⟩
  · rw [hpem, Except.ok.injEq, hsame]
  · rw [← hsame, ← hissued _ _ hpem]
    constructor
    · intro hparsed
      obtain ⟨k', cert, hparsed⟩ := hparsed
      exact ⟨cert, (parseBundle_ok hparsed).2⟩
    · intro hpair
      obtain ⟨cert, hcert⟩ := hpair
      exact ⟨(lastReplacement i tr).getD k, cert, by simp only [parseBundle, hpem, hcert]⟩
  · intro hother
    obtain ⟨k', hlast, hne⟩ := hother
    have hmismatch : ¬ ∃ cert, cr.x509KeyPair ("\n".intercalate bundle.chain) bundle.privateKey
        = .ok cert := by
      rw [hissued _ _ hpem, hlast]
      exact hne
    cases hpair : cr.x509KeyPair ("\n".intercalate bundle.chain) bundle.privateKey with
    | ok cert => exact absurd ⟨cert, hpair⟩ hmismatch
    | error e =>
        refine ⟨e, fun w u hstep => ?_⟩
        have hparse : parseBundle cr bundle = failed "generating x509 key pair" e := by
          simp only [parseBundle, hpem, hpair]
        simp only [requestStep, hparse, failed, Option.some.injEq] at hstep
        subst hstep
        exact List.getElem?_set_self (List.getElem?_eq_some_iff.1 hpc).1

/-- The state of a node with an account that has just called `RequestCertificate`. -/
def requested : Manager Bool (String × String) :=
  ⟨(CertManager.init.createAccount twoKeys ⟨.ok false, .ok "u", .done⟩).1, [], [.start], false⟩

/-- A request signs with the key `A`, and the authority issues `CA`. When it has signed, the bundle
    of another node arrives, and takes so many steps before the request exports its key. -/
def arrivingBundle (steps : ℕ) : List (Action Bool) :=
  List.replicate 2 (Action.requestStep 0 (smoothRequest false)) ++
    [Action.importBundle ⟨"B", ["CB"]⟩ true] ++ List.replicate steps (Action.importStep 0 .done) ++
    List.replicate 2 (Action.requestStep 0 (smoothRequest false))

theorem arrivingBundle_concurrent (steps : ℕ) {p : Manager Bool (String × String) × Action Bool}
    (h : p ∈ (machine twoKeys exampleNames).trace requested (arrivingBundle steps)) :
    Concurrent 0 p.2 := by
  have hmem := Machine.mem_of_mem_trace h
  simp only [arrivingBundle, List.mem_append, List.mem_replicate, List.mem_singleton] at hmem
  rcases hmem with ((⟨_, heq⟩ | heq) | ⟨_, heq⟩) | ⟨_, heq⟩ <;> rw [heq] <;> trivial

theorem issuedFor_twoKeys : IssuedFor twoKeys false ["CA"] := by
  intro text k' htext
  have hcases : text = "A" ∧ k' = false ∨ text = "B" ∧ k' = true := by
    by_cases hA : text = "A"
    · subst hA
      exact Or.inl ⟨rfl, (Except.ok.inj htext).symm⟩
    · by_cases hB : text = "B"
      · subst hB
        exact Or.inr ⟨rfl, (Except.ok.inj htext).symm⟩
      · simp [pemToKey, twoKeys, hA, hB] at htext
  rcases hcases with ⟨rfl, rfl⟩ | ⟨rfl, rfl⟩
  · exact iff_of_true ⟨_, rfl⟩ rfl
  · refine iff_of_false ?_ (by decide)
    intro hpair
    obtain ⟨cert, hcert⟩ := hpair
    cases hcert

/-- The `i`-th request is about to import a bundle with this key, for a request signed with `k`. -/
def bundleKeys (s : Manager K C) (i : ℕ) : Option (K × Bundle) :=
  match s.requests[i]? with
  | some (.parse k bundle) => some (k, bundle)
  | _ => none

theorem bundleKeys_eq_some {i : ℕ} {k : K} {bundle : Bundle}
    (h : s.bundleKeys i = some (k, bundle)) : s.requests[i]? = some (.parse k bundle) := by
  unfold bundleKeys at h
  split at h
  · next k' bundle' hpc =>
      cases h
      exact hpc
  · cases h

/-- The bundle of the other node is parsed only: the request places its own key in its bundle. -/
theorem request_one_key_iff_parsed :
    IssuedFor twoKeys false ["CA"] ∧ requested.requests[0]? = some .start ∧
    ∃ tr t, (machine twoKeys exampleNames).Run requested tr t ∧
      Machine.Meets (fun _ a => Concurrent 0 a) tr ∧
      t.requests[0]? = some (.parse false ⟨"A", ["CA"]⟩) ∧ lastReplacement 0 tr = none ∧
      pemToKey twoKeys "A" = .ok false ∧
      ∃ k cert, parseBundle twoKeys ⟨"A", ["CA"]⟩ = .ok (k, cert) := by
  obtain ⟨t, hrun, hkeys, hlast⟩ := (machine twoKeys exampleNames).run_of_exec_any requested
    (arrivingBundle 1)
    (P := fun t => t.bundleKeys 0 = some (false, ⟨"A", ["CA"]⟩) ∧
      lastReplacement 0 ((machine twoKeys exampleNames).trace requested (arrivingBundle 1)) = none)
    (by decide)
  have honly : Machine.Meets (fun _ a => Concurrent 0 a)
      ((machine twoKeys exampleNames).trace requested (arrivingBundle 1)) :=
    fun p hp => arrivingBundle_concurrent 1 hp
  have hpc := bundleKeys_eq_some hkeys
  obtain ⟨hkey, hissued⟩ := request_one_key_iff rfl hrun honly hpc
  exact ⟨issuedFor_twoKeys, rfl, _, t, hrun, honly, hpc, hlast, hkey.2 (by simp [hlast]),
    (hissued issuedFor_twoKeys).1.2 (by simp [hlast])⟩

/-- The bundle of the other node is installed before the request exports its key: the request has
    signed with `A` and got a certificate for it, and places `B` in its bundle. The import fails. -/
theorem request_mixes_keys :
    IssuedFor twoKeys false ["CA"] ∧
    ∃ tr t, (machine twoKeys exampleNames).Run requested tr t ∧
      Machine.Meets (fun _ a => Concurrent 0 a) tr ∧
      t.requests[0]? = some (.parse false ⟨"B", ["CA"]⟩) ∧
      pemToKey twoKeys "B" = .ok true ∧
      parseBundle twoKeys ⟨"B", ["CA"]⟩
        = failed "generating x509 key pair" "private key does not match public key" := by
  obtain ⟨t, hrun, hkeys⟩ := (machine twoKeys exampleNames).run_of_exec_any requested
    (arrivingBundle 2) (P := fun t => t.bundleKeys 0 = some (false, ⟨"B", ["CA"]⟩)) (by decide)
  exact ⟨issuedFor_twoKeys, _, t, hrun, fun p hp => arrivingBundle_concurrent 2 hp,
    bundleKeys_eq_some hkeys, by rfl, by rfl⟩

end Manager

end Tunnel.Acme
