import Tunnel.Acme.CertManager

set_option autoImplicit false

/-! # The names of a certificate (`acme/acme.go`, `cmd/server/config.go`, `provider/rfc2136.go`)

The configuration of a server gives the domain of its web site and the zone in which the DNS
provider writes. `getConfig` asks for a certificate of the wildcard below the domain, `New` checks
that this name ends in the characters of the zone, and `RequestCertificate` takes the zone off
again to find the names and the host of the challenge record.

This fits together exactly if the domain is the zone with something and a dot in front
(`certificate_names_iff`). A domain that is the zone itself is accepted, and the request panics: all
that is left of the name is the `*`, and the code slices behind it. A domain that ends in the
characters of the zone, but not behind a dot, is accepted too, and the request is for another domain
(`certificate_names_accepted_wrong`). -/

namespace Tunnel.Acme

/-- `strings.HasSuffix` -/
def hasSuffix (s suffix : List UInt8) : Bool := decide (suffix <:+ s)

/-- `acme.New`; `client` is how the ACME client starts. -/
def new {K C : Type} (config : NameConfig) (client : Except String Unit) :
    Except Fault (CertManager K C) :=
  if hasSuffix config.domain config.rootZone = false then
    .error (.error (.other "domain must be under root zone"))
  else match client with
    | .error e => failed "initializing acme client" e
    | .ok _ => .ok CertManager.init

/-- What `getConfig` makes of the domain of the web site and the zone of the provider. -/
def getConfig (web zone : List UInt8) : NameConfig := ⟨zone, ascii "*." ++ web⟩

/-- `dns.Fqdn`: a dot is added unless there is one already that no backslash escapes. -/
def fqdn (s : List UInt8) : List UInt8 :=
  match s.reverse with
  | 46 :: rest => if (rest.takeWhile (· = 92)).length % 2 = 0 then s else s ++ ascii "."
  | _ => s ++ ascii "."

/-- The owner of the record that `buildMsg` writes for a host. -/
def recordName (zone host : List UInt8) : List UInt8 := host ++ ascii "." ++ fqdn zone

/-- A name that is not empty and neither begins nor ends with a dot. -/
def Bare (name : List UInt8) : Prop :=
  name ≠ [] ∧ name.head? ≠ some 46 ∧ name.getLast? ≠ some 46

instance (name : List UInt8) : Decidable (Bare name) :=
  inferInstanceAs (Decidable (_ ∧ _ ∧ _))

/-- The domain is the zone or lies below it, and a request for its certificate has the names of the
    domain and of the wildcard, and writes the challenge record of the domain. -/
def NamesRight (web zone : List UInt8) : Prop :=
  (web = zone ∨ ∃ sub, web = sub ++ ascii "." ++ zone) ∧
    ∃ n, requestNames (getConfig web zone) = .ok n ∧ n.names = [web, ascii "*." ++ web] ∧
      n.host ++ ascii "." ++ zone = ascii "_acme-challenge." ++ web ∧
      recordName zone n.host = ascii "_acme-challenge." ++ web ++ ascii "."

theorem trimSuffix_append (a b : List UInt8) : trimSuffix (a ++ b) b = a := by
  rw [trimSuffix, if_pos (List.suffix_append a b)]
  simp

theorem fqdn_of_bare {zone : List UInt8} (h : Bare zone) : fqdn zone = zone ++ ascii "." := by
  unfold fqdn
  split
  · next rest hrev =>
      have hlast : zone.getLast? = some 46 := by rw [← List.head?_reverse, hrev]; rfl
      exact absurd hlast h.2.2
  · rfl

/-- The names of a domain that lies below the zone. -/
theorem requestNames_below (sub zone : List UInt8) :
    requestNames (getConfig (sub ++ ascii "." ++ zone) zone) = .ok
      ⟨ascii "_acme-challenge" ++ ascii "." ++ sub, sub ++ ascii "." ++ zone,
        [sub ++ ascii "." ++ zone, ascii "*." ++ (sub ++ ascii "." ++ zone)]⟩ := by
  have hzone : trimSuffix (ascii "*." ++ (sub ++ ascii "." ++ zone)) zone
      = ascii "*." ++ sub ++ ascii "." := by
    rw [show ascii "*." ++ (sub ++ ascii "." ++ zone) = (ascii "*." ++ sub ++ ascii ".") ++ zone by
      simp only [List.append_assoc]]
    exact trimSuffix_append _ zone
  have hstar : ascii "*." ++ sub = 0x2a :: (46 :: sub) := rfl
  simp only [requestNames, getConfig, hzone, trimSuffix_append, hstar]
  rfl

/-- The zone itself leaves only the `*` of the wildcard. -/
theorem requestNames_zone (zone : List UInt8) :
    requestNames (getConfig zone zone) = .error (.panic .sliceOutOfRange) := by
  have hdot : trimSuffix (ascii "*.") (ascii ".") = [0x2a] := by decide
  simp only [requestNames, getConfig, trimSuffix_append, hdot]
  rfl

/-- A domain below the zone is accepted. -/
theorem new_below {K C : Type} (sub zone : List UInt8) :
    new (getConfig (sub ++ ascii "." ++ zone) zone) (.ok ())
      = .ok (CertManager.init : CertManager K C) := by
  have hsuffix : zone <:+ ascii "*." ++ (sub ++ ascii "." ++ zone) := by
    rw [← List.append_assoc]
    exact List.suffix_append _ zone
  have haccept : hasSuffix (getConfig (sub ++ ascii "." ++ zone) zone).domain zone = true :=
    decide_eq_true hsuffix
  simp only [new, getConfig] at haccept ⊢
  simp only [haccept, Bool.true_eq_false, if_false]

/-- **When the names of a certificate are right.** Whatever domain and zone are configured, the
    certificate names and the challenge record are right exactly for a domain below the zone; and
    every such domain is accepted. -/
theorem certificate_names_iff (K C : Type) (web : List UInt8) {zone : List UInt8}
    (hzone : Bare zone) :
    (NamesRight web zone ↔ ∃ sub, web = sub ++ ascii "." ++ zone) ∧
      (NamesRight web zone →
        new (getConfig web zone) (.ok ()) = .ok (CertManager.init : CertManager K C)) := by
  have hiff : NamesRight web zone ↔ ∃ sub, web = sub ++ ascii "." ++ zone := by
    constructor
    · rintro ⟨rfl | hsub, n, hn, _⟩
      · rw [requestNames_zone] at hn
        cases hn
      · exact hsub
    · rintro ⟨sub, rfl⟩
      have hhost : ascii "_acme-challenge." = ascii "_acme-challenge" ++ ascii "." := rfl
      refine ⟨Or.inr ⟨sub, rfl⟩, _, requestNames_below sub zone, rfl, ?_, ?_⟩
      · simp only [hhost, List.append_assoc]
      · simp only [recordName, fqdn_of_bare hzone, hhost, List.append_assoc]
  refine ⟨hiff, fun h => ?_⟩
  obtain ⟨sub, rfl⟩ := hiff.1 h
  exact new_below sub zone

/-- The domain `t.z` in the zone `z`. -/
theorem certificate_names_iff_below :
    Bare (ascii "z") ∧ NamesRight (ascii "t.z") (ascii "z") ∧
      requestNames (getConfig (ascii "t.z") (ascii "z")) = .ok
        ⟨ascii "_acme-challenge.t", ascii "t.z", [ascii "t.z", ascii "*.t.z"]⟩ := by
  have hright := (certificate_names_iff Bool (String × String) (ascii "t.z")
    (show Bare (ascii "z") by decide)).1.2 ⟨ascii "t", by decide⟩
  exact ⟨by decide, hright, by decide⟩

/-- The zone `z` itself, and the domain `xz`, which ends in its characters: both are accepted, the
    first makes the request panic, and the request of the second is for `x.z`. -/
theorem certificate_names_accepted_wrong :
    (Bare (ascii "z") ∧ Bare (ascii "xz")) ∧
      (new (getConfig (ascii "z") (ascii "z")) (.ok ()) : Except Fault
        (CertManager Bool (String × String))) = .ok CertManager.init ∧
      requestNames (getConfig (ascii "z") (ascii "z")) = .error (.panic .sliceOutOfRange) ∧
      (new (getConfig (ascii "xz") (ascii "z")) (.ok ()) : Except Fault
        (CertManager Bool (String × String))) = .ok CertManager.init ∧
      requestNames (getConfig (ascii "xz") (ascii "z")) = .ok
        ⟨ascii "_acme-challenge.x", ascii "x.z", [ascii "x.z", ascii "*.xz"]⟩ := by
  decide

end Tunnel.Acme
