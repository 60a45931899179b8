import Tunnel.Server.AcmeCheck

set_option autoImplicit false

/-! # Which certificate the leader keeps (`server/leader.go`)

`checkACMECerts` looks at the expiry of one certificate of the stored chain. It goes through all of
them and takes each one that has a name which occurs anywhere in `s.config.Domain`; the `break`
leaves the loop over the names, so the last such certificate is the one that is looked at
(`findLeaf_eq`). `Domain` may end in a port, and the test does not take it off. So what decides
whether a certificate is renewed may be one for a shorter domain, or for a number that occurs in the
port.

The leader is right to keep what it has, whatever the time, exactly if a certificate for the host
part of `Domain` expires no earlier than the one that is looked at (`certs_kept_for_domain_iff`);
`certs_kept_for_other_name` has chains for which it is wrong. -/

namespace Tunnel.Server

open Tunnel.Lib Tunnel.Acme

/-- The host part of a domain with an optional port. -/
def hostPart (domain : List UInt8) : List UInt8 := domain.takeWhile (fun b => b ≠ 58)

/-- The certificate has a name that occurs in the domain. -/
def Leaf.Within (domain : List UInt8) (x : Leaf) : Bool :=
  x.dnsNames.any (fun name => decide (name <:+: domain))

namespace AcmeLeader

variable {K C : Type}

/-- The certificates of the stored chain. -/
def certificates (cfg : AcmeConfig K C) (s : AcmeLeader K C) : Except String (List Leaf) :=
  ((s.certs.storedCert.map cfg.x509.chain).getD []).mapM cfg.x509.parseCertificate

/-- The certificate that the check looks at. -/
def lookedAt (domain : List UInt8) (xs : List Leaf) : Option Leaf :=
  (xs.filter (Leaf.Within domain)).getLast?

variable {cfg : AcmeConfig K C} {s : AcmeLeader K C} {w : CertsCheck K}

/-! ## The loop over the chain -/

/-- **The loop takes the last certificate with a name in the domain.** -/
theorem findLeaf_eq (x509 : Certificates C) (domain : List UInt8) (raws : List (List UInt8)) :
    ∀ leaf, findLeaf x509 domain raws leaf
      = (raws.mapM x509.parseCertificate).map (fun xs => (lookedAt domain xs).or leaf) := by
  induction raws with
  | nil =>
      intro leaf
      rfl
  | cons raw rest ih =>
      intro leaf
      rw [List.mapM_cons, findLeaf]
      cases hx : x509.parseCertificate raw with
      | error e => rfl
      | ok x =>
          show findLeaf x509 domain rest _ = _
          rw [ih]
          cases hxs : rest.mapM x509.parseCertificate with
          | error e => rfl
          | ok xs =>
              show Except.ok ((lookedAt domain xs).or _) =
                Except.ok ((lookedAt domain (x :: xs)).or _)
              -- `x` counts only if nothing behind it does
              by_cases hwithin : x.Within domain = true
              · have hany : x.dnsNames.any (fun name => decide (name <:+: domain)) = true := hwithin
                rw [if_pos hany, lookedAt, lookedAt, List.filter_cons_of_pos hwithin]
                cases hlast : (xs.filter (Leaf.Within domain)).getLast? with
                | none => simp [List.getLast?_eq_none_iff.1 hlast]
                | some y => simp [List.getLast?_cons, hlast]
              · have hany : ¬ x.dnsNames.any (fun name => decide (name <:+: domain)) = true :=
                  hwithin
                rw [if_neg hany, lookedAt, lookedAt, List.filter_cons_of_neg hwithin]

/-! ## A check that keeps what it has -/

/-- What the loop of the check finds in the stored chain. -/
theorem findLeaf_stored :
    findLeaf cfg.x509 cfg.domain ((s.certs.storedCert.map cfg.x509.chain).getD []) none
      = (certificates cfg s).map (lookedAt cfg.domain) := by
  rw [findLeaf_eq, certificates]
  simp only [Option.or_none]

/-- What a check that neither logs an error nor requests a certificate has found. -/
theorem certsEvents_eq_nil :
    certsEvents cfg s w = [] ↔ s.certs.hasCert = true ∧ ∃ xs leaf, certificates cfg s = .ok xs ∧
      lookedAt cfg.domain xs = some leaf ∧ thirtyDays ≤ leaf.notAfter - w.now := by
  by_cases hcert : s.certs.hasCert = false
  · refine iff_of_false ?_ (by simp [hcert])
    simp only [certsEvents, runCertsCheck, CertManager.exportBundle, hcert, if_true, AcmeError.is,
      decide_true]
    split
    · simp
    · split <;> simp
  have hexport : s.certs.exportBundle = .ok s.certs.storedPem := if_neg hcert
  have hget : s.certs.getCertificatesFunc = .ok s.certs.storedCert := if_neg hcert
  simp only [certsEvents, runCertsCheck, hexport, renew, due, chainDue, hget, findLeaf_stored]
  rw [Bool.not_eq_false] at hcert
  cases hxs : certificates cfg s with
  | error e => simp [Except.map]
  | ok xs =>
      cases hleaf : lookedAt cfg.domain xs with
      | none => simp [Except.map, hleaf]
      | some leaf =>
          simp only [Except.map, hleaf]
          by_cases hdue : leaf.notAfter - w.now < thirtyDays
          · refine iff_of_false ?_ (by simp [hleaf, hdue])
            simp only [hdue, decide_true]
            split
            · simp
            · split <;> simp
          · simp [hleaf, hdue, hcert, Int.not_lt.1 hdue]

/-- Such a check changes nothing and announces nothing. -/
theorem checkACMECerts_of_no_event (h : certsEvents cfg s w = []) : checkACMECerts cfg s w = s := by
  obtain ⟨hcert, xs, leaf, hxs, hleaf, hlater⟩ := certsEvents_eq_nil.1 h
  have hdue : due cfg s w.now = .ok false := by
    simp [due, chainDue, CertManager.getCertificatesFunc, hcert, findLeaf_stored, hxs, Except.map,
      hleaf, hlater]
  simp [checkACMECerts, runCertsCheck, CertManager.exportBundle, hcert, renew, hdue]

/-- A certificate of the chain is for the host part of the domain and expires at least 30 days after
    `now`. -/
def Good (domain : List UInt8) (now : ℤ) (xs : List Leaf) : Prop :=
  ∃ x ∈ xs, hostPart domain ∈ x.dnsNames ∧ thirtyDays ≤ x.notAfter - now

instance (domain : List UInt8) (now : ℤ) (xs : List Leaf) : Decidable (Good domain now xs) :=
  inferInstanceAs (Decidable (∃ x ∈ xs, _ ∧ _))

/-- **When the leader is right to keep its certificate.** Whatever the time, a check that neither
    logs an error nor requests a certificate leaves a chain with a certificate for the host part of
    the domain and at least 30 days left, exactly if some certificate for the host part expires no
    earlier than the last one of the chain with a name that occurs in the domain. It does so if the
    host part is the only name of the chain that occurs in the domain. -/
theorem certs_kept_for_domain_iff (cfg : AcmeConfig K C) (s : AcmeLeader K C) (w : CertsCheck K) :
    ((∀ now, certsEvents cfg s { w with now := now } = [] →
        ∃ xs, certificates cfg s = .ok xs ∧ Good cfg.domain now xs) ↔
      (s.certs.hasCert = true → ∀ xs leaf, certificates cfg s = .ok xs →
        lookedAt cfg.domain xs = some leaf →
        ∃ x ∈ xs, hostPart cfg.domain ∈ x.dnsNames ∧ leaf.notAfter ≤ x.notAfter)) ∧
    ((∀ xs, certificates cfg s = .ok xs → ∀ x ∈ xs, ∀ name ∈ x.dnsNames, name <:+: cfg.domain →
        name = hostPart cfg.domain) →
      ∀ now, certsEvents cfg s { w with now := now } = [] →
        checkACMECerts cfg s { w with now := now } = s ∧
          ∃ xs, certificates cfg s = .ok xs ∧ Good cfg.domain now xs) := by
  refine ⟨⟨?_, ?_⟩, ?_⟩
  · intro hkept hcert xs leaf hxs hleaf
    -- the last moment at which the check passes
    have hquiet : certsEvents cfg s { w with now := leaf.notAfter - thirtyDays } = [] :=
      certsEvents_eq_nil.2 ⟨hcert, xs, leaf, hxs, hleaf, by simp only; omega⟩
    obtain ⟨xs', hxs', x, hx, hhost, hlater⟩ := hkept _ hquiet
    rw [hxs, Except.ok.injEq] at hxs'
    subst hxs'
    exact ⟨x, hx, hhost, by omega⟩
  · intro hcover now hquiet
    obtain ⟨hcert, xs, leaf, hxs, hleaf, hlater⟩ := certsEvents_eq_nil.1 hquiet
    obtain ⟨x, hx, hhost, hle⟩ := hcover hcert xs leaf hxs hleaf
    have hlater' : thirtyDays ≤ leaf.notAfter - now := hlater
    exact ⟨xs, hxs, x, hx, hhost, by omega⟩
  · intro honly now hquiet
    refine ⟨checkACMECerts_of_no_event hquiet, ?_⟩
    obtain ⟨hcert, xs, leaf, hxs, hleaf, hlater⟩ := certsEvents_eq_nil.1 hquiet
    have hmem := List.mem_filter.1 (List.mem_of_getLast? hleaf)
    obtain ⟨name, hname, hwithin⟩ := List.any_eq_true.1 hmem.2
    have hhost := honly xs hxs leaf hmem.1 name hname (of_decide_eq_true hwithin)
    exact ⟨xs, hxs, leaf, hmem.1, hhost ▸ hname, hlater⟩

/-- A leader for `a.z` at port 8443, with a chain of two certificates. -/
def chainConfig (x y : Leaf) : AcmeConfig Bool (String × String) where
  crypto := twoKeys
  x509 := ⟨fun _ => [[0], [1]], fun raw => .ok (if raw = [0] then x else y)⟩
  names := exampleNames
  domain := ascii "a.z:8443"

/-- The state after the bundle was loaded. -/
def holding : AcmeLeader Bool (String × String) :=
  ⟨(CertManager.init.importBundle twoKeys ⟨"A", ["CA"]⟩ false .done).1, [], [], .notOwn, .notOwn,
    false⟩

/-- The check of this chain ends without an error and without a request, and no certificate of it is
    a good one. -/
def KeptWithoutCause (x y : Leaf) : Prop :=
  certificates (chainConfig x y) holding = .ok [x, y] ∧
    certsEvents (chainConfig x y) holding ⟨smoothRequest true, 0, smoothRequest true⟩ = [] ∧
    ¬ Good (chainConfig x y).domain 0 [x, y]

/-- Three chains that are kept. In the first the certificate for `a.z` expires in a day, but one for
    `z` stands behind it. The second has only certificates for `z`, the third only certificates for
    `44`, which occurs in the port. In none is there a certificate for `a.z` that lasts 30 days. -/
theorem certs_kept_for_other_name :
    KeptWithoutCause ⟨[ascii "a.z"], thirtyDays / 30⟩ ⟨[ascii "z"], 10 * thirtyDays⟩ ∧
    KeptWithoutCause ⟨[ascii "z"], 10 * thirtyDays⟩ ⟨[ascii "z"], 10 * thirtyDays⟩ ∧
    KeptWithoutCause ⟨[ascii "44"], 10 * thirtyDays⟩ ⟨[ascii "44"], 10 * thirtyDays⟩ := by
  refine ⟨⟨?_, ?_, ?_⟩, ⟨?_, ?_, ?_⟩, ⟨?_, ?_, ?_⟩⟩ <;> decide

end AcmeLeader

end Tunnel.Server
