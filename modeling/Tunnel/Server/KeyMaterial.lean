import Tunnel.Server.AcmeSync

set_option autoImplicit false

/-! # Malformed key material (`acme/acme.go`, `server/messaging.go`, `server/gossip.go`)

Accounts and bundles come from files and from other nodes, as JSON in which the private key is any
string. `ImportAccount`, `ImportPrivateKey` and `ImportBundle` all turn it into a key with
`pemToKey`, which uses the block that `pem.Decode` returns without a look at whether there is one.

A string with a PEM block that is not an EC key is rejected, and what the manager exports stays as
it was. A string without a PEM block, such as the empty one, is a nil dereference: it is rejected
only by the calls that do not get as far (`malformed_key_rejected_iff`). One announcement of another
node is enough to end the process (`malformed_announcement_panics`). -/

namespace Tunnel.Server

open Tunnel.Acme

variable {K C : Type}

/-- A message of a peer, with its data decoded: the JSON of an account or of a bundle may be
    broken. -/
inductive Announcement
  | accountKey (af : Except String AccountFile)
  | clientCerts (bundle : Except String Bundle)
  | test
  | unknown

/-- What `handlePeerMessaging` does with a message (messaging.go:22-47): the manager afterwards, and
    the error that it logs. `toFile` is `!s.config.Debug`. -/
def handlePeerMessaging (cr : Crypto K C) (toFile : Bool) (c : CertManager K C)
    (w : Synchronization K) : Announcement → CertManager K C × Except Fault Unit
  | .accountKey (.error e) => (c, .error (.error (.other e)))
  | .accountKey (.ok af) => c.importAccount cr af toFile w.account
  | .clientCerts (.error e) => (c, .error (.error (.other e)))
  | .clientCerts (.ok bundle) => c.importBundle cr bundle toFile w.bundle
  | .test | .unknown => (c, .ok ())

namespace KeyMaterial

/-- The string has no PEM block, or its block is not an EC key. -/
def NoKey (cr : Crypto K C) (text : String) : Prop :=
  cr.pemDecode text = none ∨
    ∃ der e, cr.pemDecode text = some der ∧ cr.parseECPrivateKey der = .error e

/-- What the manager answers to `ExportAccount`, `ExportBundle`, `ExportPrivateKey` and
    `GetCertificatesFunc`. -/
def answers (cr : Crypto K C) (c : CertManager K C) :
    Except Fault AccountFile × Except Fault Bundle × Except Fault String ×
      Except Fault (Option C) :=
  (c.exportAccount cr, c.exportBundle, c.exportPrivateKey cr, c.getCertificatesFunc)

/-- The call returned an error, and the manager answers as before. -/
def Rejected (cr : Crypto K C) (c : CertManager K C) (next : CertManager K C × Except Fault Unit) :
    Prop :=
  (∃ e, next.2 = .error (.error e)) ∧ answers cr next.1 = answers cr c

variable {cr : Crypto K C} {c : CertManager K C} {text : String}

theorem pemToKey_of_no_block (h : cr.pemDecode text = none) :
    pemToKey cr text = .error (.panic .nilDereference) := by
  simp only [pemToKey, h]

/-- A block that is not a key is an error, not a panic. -/
theorem pemToKey_of_block (h : NoKey cr text) (hblock : cr.pemDecode text ≠ none) :
    ∃ e, pemToKey cr text = .error (.error e) := by
  rcases h with hnone | ⟨der, e, hder, hparse⟩
  · exact absurd hnone hblock
  · refine ⟨.wrap "parsing private key from pem" (.other e), ?_⟩
    simp only [pemToKey, hder, hparse]
    rfl

theorem not_rejected_of_panic {c' : CertManager K C} {p : AcmePanic} :
    ¬ Rejected cr c (c', .error (.panic p)) := by
  rintro ⟨⟨e, he⟩, _⟩
  cases he

theorem importAccount_rejected_iff (h : NoKey cr text) (url : String) (toFile : Bool)
    (w : AccountUpdate K) :
    Rejected cr c (c.importAccount cr ⟨text, url⟩ toFile w) ↔
      c.hasAcc = true ∨ cr.pemDecode text ≠ none := by
  unfold CertManager.importAccount
  by_cases hacc : c.hasAcc = true
  · rw [if_pos hacc]
    exact iff_of_true ⟨⟨_, rfl⟩, rfl⟩ (Or.inl hacc)
  rw [if_neg hacc]
  by_cases hblock : cr.pemDecode text = none
  · refine iff_of_false ?_ (fun hor => hor.elim hacc (fun hne => hne hblock))
    simp only [pemToKey_of_no_block hblock]
    exact not_rejected_of_panic
  · obtain ⟨e, he⟩ := pemToKey_of_block h hblock
    simp only [he]
    exact iff_of_true ⟨⟨_, rfl⟩, rfl⟩ (Or.inr hblock)

/-- `ImportPrivateKey` forgets a key that it was given before, but no key is exported while
    `hasCertPKey` is not set. -/
theorem importPrivateKey_rejected_iff (h : NoKey cr text) :
    Rejected cr c (c.importPrivateKey cr text) ↔
      c.hasCertPKey = true ∨ cr.pemDecode text ≠ none := by
  unfold CertManager.importPrivateKey
  by_cases hkey : c.hasCertPKey = true
  · rw [if_pos hkey]
    exact iff_of_true ⟨⟨_, rfl⟩, rfl⟩ (Or.inl hkey)
  rw [if_neg hkey]
  by_cases hblock : cr.pemDecode text = none
  · refine iff_of_false ?_ (fun hor => hor.elim hkey (fun hne => hne hblock))
    simp only [pemToKey_of_no_block hblock]
    exact not_rejected_of_panic
  · obtain ⟨e, he⟩ := pemToKey_of_block h hblock
    simp only [he]
    have hflag : c.hasCertPKey = false := by simpa using hkey
    have hexport : { c with certPKey := none }.exportPrivateKey cr = c.exportPrivateKey cr := by
      simp only [CertManager.exportPrivateKey, hflag, if_true]
    refine iff_of_true ⟨⟨_, rfl⟩, ?_⟩ (Or.inr hblock)
    simp only [answers, hexport]
    rfl

theorem importBundle_rejected_iff (h : NoKey cr text) (chain : List String) (toFile : Bool)
    (w : FileWrite) :
    Rejected cr c (c.importBundle cr ⟨text, chain⟩ toFile w) ↔ cr.pemDecode text ≠ none := by
  unfold CertManager.importBundle CertManager.parseBundle
  by_cases hblock : cr.pemDecode text = none
  · refine iff_of_false ?_ (fun hne => hne hblock)
    simp only [pemToKey_of_no_block hblock]
    exact not_rejected_of_panic
  · obtain ⟨e, he⟩ := pemToKey_of_block h hblock
    simp only [he]
    exact iff_of_true ⟨⟨_, rfl⟩, rfl⟩ hblock

/-- **When malformed key material is rejected.** A string that holds no EC key makes
    `ImportAccount`, `ImportPrivateKey` and `ImportBundle` return an error and leaves all answers of
    the manager as they were, whatever its state, exactly if the string has a PEM block, or an
    account or a key is there already and the string is not looked at. -/
theorem malformed_key_rejected_iff (cr : Crypto K C) (c : CertManager K C) {text : String}
    (h : NoKey cr text) :
    (∀ url toFile w, Rejected cr c (c.importAccount cr ⟨text, url⟩ toFile w) ↔
        c.hasAcc = true ∨ cr.pemDecode text ≠ none) ∧
      (Rejected cr c (c.importPrivateKey cr text) ↔
        c.hasCertPKey = true ∨ cr.pemDecode text ≠ none) ∧
      ∀ chain toFile w, Rejected cr c (c.importBundle cr ⟨text, chain⟩ toFile w) ↔
        cr.pemDecode text ≠ none :=
  ⟨importAccount_rejected_iff h, importPrivateKey_rejected_iff h, importBundle_rejected_iff h⟩

/-- `twoKeys` with a third block, `C`, that holds no EC key. -/
def withCertificateBlock : Crypto Bool (String × String) :=
  { twoKeys with
    pemDecode := fun text => if text = "C" then some [2] else twoKeys.pemDecode text
    parseECPrivateKey := fun der =>
      if der = [2] then .error "failed to parse EC private key" else twoKeys.parseECPrivateKey der
    parse_marshal := by
      rintro k der h
      cases h
      cases k <;> decide }

/-- A bundle whose key is a certificate is rejected, and the manager answers as before. -/
theorem malformed_key_rejected_iff_certificate :
    NoKey withCertificateBlock "C" ∧
      Rejected withCertificateBlock CertManager.init
        (CertManager.init.importBundle withCertificateBlock ⟨"C", ["CA"]⟩ true .done) := by
  have hnone : NoKey withCertificateBlock "C" :=
    Or.inr ⟨[2], "failed to parse EC private key", by decide, by decide⟩
  exact ⟨hnone, ((malformed_key_rejected_iff withCertificateBlock CertManager.init hnone).2.2
    ["CA"] true .done).2 (by decide)⟩

/-- The empty object, announced as an account or as a bundle, sent for a join or found in one of the
    two files, and an empty string as a key: each is a nil dereference. -/
theorem malformed_announcement_panics :
    NoKey twoKeys "" ∧ ∀ w : Synchronization Bool,
      (handlePeerMessaging twoKeys true CertManager.init w (.accountKey (.ok ⟨"", ""⟩))).2
        = .error (.panic .nilDereference) ∧
      (handlePeerMessaging twoKeys true CertManager.init w (.clientCerts (.ok ⟨"", []⟩))).2
        = .error (.panic .nilDereference) ∧
      (mergeRemoteState twoKeys 5 true CertManager.init w
          (some ⟨7, some ⟨"", ""⟩, some ⟨"", []⟩⟩)).2
        = .error (.panic .nilDereference) ∧
      (CertManager.init.loadAccountFromFile twoKeys (.value ⟨"", ""⟩) w.account).2
        = .error (.panic .nilDereference) ∧
      (CertManager.init.loadBundleFromFile twoKeys (.value ⟨"", []⟩) w.bundle).2
        = .error (.panic .nilDereference) ∧
      (CertManager.init.importPrivateKey twoKeys "").2 = .error (.panic .nilDereference) :=
  ⟨Or.inl rfl, fun _ => ⟨rfl, rfl, rfl, rfl, rfl, rfl⟩⟩

end KeyMaterial

end Tunnel.Server
