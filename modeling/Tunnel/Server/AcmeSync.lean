import Tunnel.Acme.KeySafety

set_option autoImplicit false

/-! # The ACME exchange of a join (`server/gossip.go`)

When a node joins, it and the member it joins at send each other their `LocalState(true)` and then
merge what they got. A node without an account or without a bundle sends nothing. The receiver keeps
an account that it has, and overwrites its bundle.

A node that lacks something is completed by the other side. But when both have everything, each
keeps its own account, and the bundles change places (`join_swaps_bundles`). The two sides hold the
same afterwards exactly if accounts that both had were equal, and bundles were equal if both sent
theirs (`join_synchronizes_iff`).

The JSON of an exchange decodes to what was encoded, so a buffer is the value in it, or nothing. -/

namespace Tunnel.Server

open Tunnel.Acme

/-- `ACMESynchronization` -/
structure ACMESynchronization where
  fromPeer : UInt64
  accountFile : Option AccountFile
  bundle : Option Bundle
deriving DecidableEq

variable {K C : Type}

/-- `LocalState(true)` (gossip.go:162-185): empty after any error. -/
def localState (cr : Crypto K C) (id : UInt64) (c : CertManager K C) :
    Option ACMESynchronization :=
  match c.exportAccount cr with
  | .error _ => none
  | .ok af =>
      match c.exportBundle with
      | .error _ => none
      | .ok bundle => some ⟨id, some af, some bundle⟩

/-- What `MergeRemoteState` meets: the update of the account, and the write of the bundle. -/
structure Synchronization (K : Type) where
  account : AccountUpdate K
  bundle : FileWrite

/-- `MergeRemoteState(buf, true)` (gossip.go:195-228), and whether it logged an error. `toFile` is
    `!s.config.Debug`. -/
def mergeRemoteState (cr : Crypto K C) (id : UInt64) (toFile : Bool) (c : CertManager K C)
    (w : Synchronization K) : Option ACMESynchronization → CertManager K C × Except Fault Unit
  | some ⟨peer, some af, some bundle⟩ =>
      if peer = id then (c, .ok ())
      else match c.importAccount cr af toFile w.account with
        | (c', .ok _) => c'.importBundle cr bundle toFile w.bundle
        | (c', .error (.panic p)) => (c', .error (.panic p))
        | (c', .error (.error err)) =>
            if err.is .accountExists = true then c'.importBundle cr bundle toFile w.bundle
            else (c', .error (.error err))
  | _ => (c, .ok ())

namespace AcmeSync

variable {cr : Crypto K C} {c d c' : CertManager K C} {id peer : UInt64}

/-- The manager has an account and a bundle. -/
def Full (c : CertManager K C) : Prop := c.hasAcc = true ∧ c.hasCert = true

/-- Two managers hold the same account and the same bundle. -/
def Same (c d : CertManager K C) : Prop :=
  (c.hasAcc = true ∧ d.hasAcc = true ∧ c.accKey = d.accKey ∧ c.account = d.account) ∧
    (c.hasCert = true ∧ d.hasCert = true ∧ c.storedPem = d.storedPem ∧ c.certPKey = d.certPKey ∧
      c.storedCert = d.storedCert)

/-- Accounts that both had were equal, and bundles were equal if both sides sent theirs. -/
def Agree (c d : CertManager K C) : Prop :=
  (c.hasAcc = true → d.hasAcc = true → c.account = d.account) ∧
    (Full c → Full d → c.storedPem = d.storedPem)

/-! ## One side -/

/-- A node that is not full sends nothing. -/
theorem localState_eq_none (id : UInt64) (h : ¬ Full c) : localState cr id c = none := by
  unfold localState CertManager.exportAccount CertManager.exportBundle
  by_cases hacc : c.hasAcc = true
  · have hcert : c.hasCert = false := by
      by_contra hcert
      exact h ⟨hacc, by simpa using hcert⟩
    split
    · rfl
    · simp [hcert]
  · simp [hacc]

/-- A full node sends its account, in a text that has its key, and its bundle. -/
theorem localState_full (id : UInt64) (hc : CertManager.KeysMatch cr c) (h : Full c) :
    ∃ k text, localState cr id c = some ⟨id, some ⟨text, c.account.url⟩, some c.storedPem⟩ ∧
      pemToKey cr text = .ok k ∧ c.accKey = some k ∧ c.account = ⟨some k, c.account.url⟩ := by
  obtain ⟨k, hkey, haccount⟩ := hc.account h.1
  obtain ⟨text, htext, hback⟩ := keyToPEM_some cr k
  refine ⟨k, text, ?_, hback, hkey, ?_⟩
  · simp [localState, CertManager.exportAccount, CertManager.exportBundle, h.1, h.2, hkey, htext]
  · rw [← haccount]

theorem importBundle_ok {bundle : Bundle} {toFile : Bool} {w : FileWrite}
    (h : c.importBundle cr bundle toFile w = (c', .ok ())) :
    ∃ k cert, CertManager.parseBundle cr bundle = .ok (k, cert) ∧
      c' = c.installBundle bundle k cert := by
  unfold CertManager.importBundle at h
  split at h
  · cases h
  · next k cert hparse => exact ⟨k, cert, hparse, (congrArg Prod.fst h).symm⟩

/-- Importing the bundle of a node gives its certificate and leaves the account alone. -/
theorem importBundle_storedPem (hd : CertManager.KeysMatch cr d) (hcert : d.hasCert = true)
    {toFile : Bool} {w : FileWrite}
    (h : c.importBundle cr d.storedPem toFile w = (c', .ok ())) :
    (c'.hasCert = true ∧ c'.storedPem = d.storedPem ∧ c'.certPKey = d.certPKey ∧
      c'.storedCert = d.storedCert) ∧
      c'.hasAcc = c.hasAcc ∧ c'.accKey = c.accKey ∧ c'.account = c.account := by
  obtain ⟨_, k, cert, hparse, hdpkey, hdcert⟩ := hd.cert hcert
  obtain ⟨k', cert', hparse', rfl⟩ := importBundle_ok h
  rw [hparse, Except.ok.injEq, Prod.mk.injEq] at hparse'
  obtain ⟨rfl, rfl⟩ := hparse'
  exact ⟨⟨rfl, rfl, hdpkey.symm, hdcert.symm⟩, rfl, rfl, rfl⟩

/-- A merge without an error comes down to the import of the bundle: an account that is there is
    kept, and that is no error; if there is none, the one that was sent takes its place. -/
theorem mergeRemoteState_ok (hne : peer ≠ id) {toFile : Bool} {w : Synchronization K}
    {text url : String} {bundle : Bundle} {k : K} (hkey : pemToKey cr text = .ok k)
    (h : mergeRemoteState cr id toFile c w (some ⟨peer, some ⟨text, url⟩, some bundle⟩)
      = (c', .ok ())) :
    (if c.hasAcc = true then c else c.withAccount k url).importBundle cr bundle toFile w.bundle
      = (c', .ok ()) := by
  simp only [mergeRemoteState, if_neg hne] at h
  by_cases hacc : c.hasAcc = true
  · simpa only [CertManager.importAccount, hacc, if_true, AcmeError.is, decide_true] using h
  · rw [if_neg hacc]
    simp only [CertManager.importAccount, if_neg hacc, hkey] at h
    rcases w.account.update.cases ⟨some k, url⟩ with ⟨cause, account, hupdate⟩ | hupdate
    · simp [hupdate, failed, AcmeError.is] at h
    · rw [hupdate] at h
      cases toFile with
      | false => exact h
      | true =>
          -- a write that fails is an error of its own
          cases hpersist : w.account.persist with
          | done => simpa [persistAccount, persist, hpersist, CertManager.withAccount] using h
          | notOpened e | notWritten e =>
              simp [persistAccount, persist, hpersist, failed, AcmeError.is] at h

/-- **What a merge does.** A node that merges the state of a full one without an error has that
    one's bundle; it has its own account, or that one's if it had none. -/
theorem mergeRemoteState_full (hd : CertManager.KeysMatch cr d) (hfull : Full d)
    (hne : peer ≠ id) {toFile : Bool} {w : Synchronization K}
    (h : mergeRemoteState cr id toFile c w (localState cr peer d) = (c', .ok ())) :
    (c'.hasCert = true ∧ c'.storedPem = d.storedPem ∧ c'.certPKey = d.certPKey ∧
      c'.storedCert = d.storedCert) ∧ c'.hasAcc = true ∧
      (c.hasAcc = true → c'.accKey = c.accKey ∧ c'.account = c.account) ∧
      (c.hasAcc = false → c'.accKey = d.accKey ∧ c'.account = d.account) := by
  obtain ⟨k, text, hsent, hkey, hdkey, hdaccount⟩ := localState_full peer hd hfull
  rw [hsent] at h
  obtain ⟨hbundle, hacc', hkey', haccount'⟩ :=
    importBundle_storedPem hd hfull.2 (mergeRemoteState_ok hne hkey h)
  refine ⟨hbundle, ?_⟩
  by_cases hacc : c.hasAcc = true
  · rw [if_pos hacc] at hacc' hkey' haccount'
    refine ⟨hacc'.trans hacc, fun _ => ⟨hkey', haccount'⟩, fun hno => ?_⟩
    rw [hacc] at hno
    cases hno
  · rw [if_neg hacc] at hacc' hkey' haccount'
    refine ⟨hacc', fun habs => absurd habs hacc, fun _ => ⟨?_, ?_⟩⟩
    · exact hkey'.trans hdkey.symm
    · exact haccount'.trans hdaccount.symm

theorem mergeRemoteState_none {toFile : Bool} {w : Synchronization K}
    (h : mergeRemoteState cr id toFile c w none = (c', .ok ())) : c' = c :=
  (congrArg Prod.fst h).symm

/-! ## Both sides -/

/-- Equal bundles have equal keys and certificates. -/
theorem same_cert_of_storedPem (hc : CertManager.KeysMatch cr c) (hd : CertManager.KeysMatch cr d)
    (hcc : c.hasCert = true) (hdc : d.hasCert = true) (h : c.storedPem = d.storedPem) :
    c.certPKey = d.certPKey ∧ c.storedCert = d.storedCert := by
  obtain ⟨_, k, cert, hparse, hk, hcert⟩ := hc.cert hcc
  obtain ⟨_, k', cert', hparse', hk', hcert'⟩ := hd.cert hdc
  rw [h, hparse', Except.ok.injEq, Prod.mk.injEq] at hparse
  obtain ⟨rfl, rfl⟩ := hparse
  exact ⟨hk.trans hk'.symm, hcert.trans hcert'.symm⟩

/-- Equal accounts have equal keys. -/
theorem same_accKey_of_account (hc : CertManager.KeysMatch cr c) (hd : CertManager.KeysMatch cr d)
    (hca : c.hasAcc = true) (hda : d.hasAcc = true) (h : c.account = d.account) :
    c.accKey = d.accKey := by
  obtain ⟨k, hk, haccount⟩ := hc.account hca
  obtain ⟨k', hk', haccount'⟩ := hd.account hda
  rw [hk, hk', ← haccount, ← haccount', h]

theorem Same.symm (h : Same c d) : Same d c := by
  obtain ⟨⟨hc, hd, hkey, haccount⟩, hcc, hdc, hpem, hpkey, hcert⟩ := h
  exact ⟨⟨hd, hc, hkey.symm, haccount.symm⟩, hdc, hcc, hpem.symm, hpkey.symm, hcert.symm⟩

theorem Agree.symm (h : Agree c d) : Agree d c :=
  ⟨fun hd hc => (h.1 hc hd).symm, fun hd hc => (h.2 hc hd).symm⟩

/-- The exchange when only one side is full. -/
theorem same_iff_of_one_full (hc : CertManager.KeysMatch cr c) (hd : CertManager.KeysMatch cr d)
    (hfull : Full c) (hnot : ¬ Full d) (hne : peer ≠ id) {toFile : Bool} {w : Synchronization K}
    {d' : CertManager K C}
    (h : mergeRemoteState cr id toFile d w (localState cr peer c) = (d', .ok ())) :
    Same c d' ↔ Agree c d := by
  obtain ⟨⟨hcert, hpem, hpkey, hstored⟩, hacc, hown, hgot⟩ := mergeRemoteState_full hc hfull hne h
  have hbundle : c.hasCert = true ∧ d'.hasCert = true ∧ c.storedPem = d'.storedPem ∧
      c.certPKey = d'.certPKey ∧ c.storedCert = d'.storedCert :=
    ⟨hfull.2, hcert, hpem.symm, hpkey.symm, hstored.symm⟩
  have hagree : Agree c d ↔ (d.hasAcc = true → c.account = d.account) :=
    ⟨fun h hda => h.1 hfull.1 hda, fun h => ⟨fun _ hda => h hda, fun _ hfd => absurd hfd hnot⟩⟩
  rw [hagree, Same, and_iff_left hbundle]
  by_cases hda : d.hasAcc = true
  · obtain ⟨hkey, haccount⟩ := hown hda
    constructor
    · intro hsame _
      exact hsame.2.2.2.trans haccount
    · intro heq
      have hkeys := same_accKey_of_account hc hd hfull.1 hda (heq hda)
      exact ⟨hfull.1, hacc, hkeys.trans hkey.symm, (heq hda).trans haccount.symm⟩
  · obtain ⟨hkey, haccount⟩ := hgot (by simpa using hda)
    exact iff_of_true ⟨hfull.1, hacc, hkey.symm, haccount.symm⟩ (fun habs => absurd habs hda)

/-- **When a join synchronizes.** Two nodes with different IDs exchange their states, each computed
    before the other's is merged; both merges succeed, and one side had an account and a bundle.
    They hold the same account and the same bundle afterwards exactly if they agreed before. -/
theorem join_synchronizes_iff {id₁ id₂ : UInt64} (hne : id₁ ≠ id₂) {toFile₁ toFile₂ : Bool}
    {w₁ w₂ : Synchronization K} {c₁ c₂ c₁' c₂' : CertManager K C}
    (h₁ : CertManager.KeysMatch cr c₁) (h₂ : CertManager.KeysMatch cr c₂)
    (hm₁ : mergeRemoteState cr id₁ toFile₁ c₁ w₁ (localState cr id₂ c₂) = (c₁', .ok ()))
    (hm₂ : mergeRemoteState cr id₂ toFile₂ c₂ w₂ (localState cr id₁ c₁) = (c₂', .ok ()))
    (hfull : Full c₁ ∨ Full c₂) : Same c₁' c₂' ↔ Agree c₁ c₂ := by
  by_cases hf₁ : Full c₁
  · by_cases hf₂ : Full c₂
    · -- both send: each keeps its account and takes the other's bundle
      obtain ⟨⟨hc₁, hp₁, hk₁, hs₁⟩, ha₁, hown₁, _⟩ := mergeRemoteState_full h₂ hf₂ hne.symm hm₁
      obtain ⟨⟨hc₂, hp₂, hk₂, hs₂⟩, ha₂, hown₂, _⟩ := mergeRemoteState_full h₁ hf₁ hne hm₂
      obtain ⟨hkey₁, hacc₁⟩ := hown₁ hf₁.1
      obtain ⟨hkey₂, hacc₂⟩ := hown₂ hf₂.1
      constructor
      · rintro ⟨⟨_, _, _, haccount⟩, _, _, hpem, _⟩
        refine ⟨fun _ _ => hacc₁.symm.trans (haccount.trans hacc₂), fun _ _ => ?_⟩
        exact hp₂.symm.trans (hpem.symm.trans hp₁)
      · rintro ⟨haccount, hpem⟩
        have heq := haccount hf₁.1 hf₂.1
        have hkeys := same_accKey_of_account h₁ h₂ hf₁.1 hf₂.1 heq
        have hpem' := hpem hf₁ hf₂
        obtain ⟨hpkey, hcert⟩ := same_cert_of_storedPem h₁ h₂ hf₁.2 hf₂.2 hpem'
        refine ⟨⟨ha₁, ha₂, ?_, ?_⟩, hc₁, hc₂, ?_, ?_, ?_⟩
        · rw [hkey₁, hkey₂, hkeys]
        · rw [hacc₁, hacc₂, heq]
        · rw [hp₁, hp₂, hpem']
        · rw [hk₁, hk₂, hpkey]
        · rw [hs₁, hs₂, hcert]
    · rw [localState_eq_none id₂ hf₂] at hm₁
      rw [mergeRemoteState_none hm₁]
      exact same_iff_of_one_full h₁ h₂ hf₁ hf₂ hne hm₂
  · have hf₂ : Full c₂ := hfull.resolve_left hf₁
    rw [localState_eq_none id₁ hf₁] at hm₂
    rw [mergeRemoteState_none hm₂]
    have hiff := same_iff_of_one_full h₂ h₁ hf₂ hf₁ hne.symm hm₁
    exact ⟨fun h => (hiff.1 h.symm).symm, fun h => (hiff.2 h.symm).symm⟩

/-- A node that has registered the key `k`, whose text is `text`, and uses it for its bundle too. -/
def fullNode (k : Bool) (text : String) : CertManager Bool (String × String) :=
  let registered := (CertManager.init.createAccount twoKeys ⟨.ok k, .ok text, .done⟩).1
  (registered.importBundle twoKeys ⟨text, ["C" ++ text]⟩ false .done).1

theorem fullNode_keysMatch (k : Bool) (text : String) :
    CertManager.KeysMatch twoKeys (fullNode k text) :=
  (CertManager.importBundle_safe twoKeys _ _ _ _).keys
    ((CertManager.createAccount_safe _).keys CertManager.keysMatch_init)

/-- The authority answers and every write succeeds. -/
def smooth : Synchronization Bool := ⟨⟨.known, .done⟩, .done⟩

/-- A full node and one that has nothing. -/
theorem join_synchronizes_iff_empty : ∃ c₁' c₂' : CertManager Bool (String × String),
    mergeRemoteState twoKeys 1 true (fullNode false "A") smooth
      (localState twoKeys 2 CertManager.init) = (c₁', .ok ()) ∧
    mergeRemoteState twoKeys 2 true CertManager.init smooth
      (localState twoKeys 1 (fullNode false "A")) = (c₂', .ok ()) ∧ Same c₁' c₂' := by
  have hm₁ : mergeRemoteState twoKeys 1 true (fullNode false "A") smooth
      (localState twoKeys 2 CertManager.init) = (fullNode false "A", .ok ()) := by decide
  have hm₂ : mergeRemoteState twoKeys 2 true CertManager.init smooth
      (localState twoKeys 1 (fullNode false "A")) = (fullNode false "A", .ok ()) := by decide
  have hfull : Full (fullNode false "A") := ⟨by decide, by decide⟩
  have hagree : Agree (fullNode false "A") CertManager.init :=
    ⟨fun _ habs => absurd habs (by decide), fun _ habs => absurd habs.1 (by decide)⟩
  exact ⟨_, _, hm₁, hm₂, (join_synchronizes_iff (by decide) (fullNode_keysMatch false "A")
    CertManager.keysMatch_init hm₁ hm₂ (Or.inl hfull)).2 hagree⟩

/-- Two full nodes: both merges succeed, the accounts stay apart and the bundles change places. -/
theorem join_swaps_bundles : ∃ c₁ c₂ c₁' c₂' : CertManager Bool (String × String),
    CertManager.KeysMatch twoKeys c₁ ∧ CertManager.KeysMatch twoKeys c₂ ∧ Full c₁ ∧ Full c₂ ∧
    mergeRemoteState twoKeys 1 true c₁ smooth (localState twoKeys 2 c₂) = (c₁', .ok ()) ∧
    mergeRemoteState twoKeys 2 true c₂ smooth (localState twoKeys 1 c₁) = (c₂', .ok ()) ∧
    c₁'.exportAccount twoKeys = c₁.exportAccount twoKeys ∧
    c₂'.exportAccount twoKeys = c₂.exportAccount twoKeys ∧
    c₁'.exportAccount twoKeys ≠ c₂'.exportAccount twoKeys ∧
    c₁'.exportBundle = c₂.exportBundle ∧ c₂'.exportBundle = c₁.exportBundle ∧
    c₁'.exportBundle ≠ c₂'.exportBundle := by
  refine ⟨fullNode false "A", fullNode true "B", _, _, fullNode_keysMatch _ _,
    fullNode_keysMatch _ _, ⟨by decide, by decide⟩, ⟨by decide, by decide⟩,
    Prod.ext rfl (by decide), Prod.ext rfl (by decide), ?_⟩
  decide

end AcmeSync

end Tunnel.Server
