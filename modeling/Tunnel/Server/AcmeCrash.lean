import Tunnel.Acme.Durable
import Tunnel.Server.AcmeCheck

set_option autoImplicit false

/-! # A crash while the account is written (`acme/acme.go`, `server/leader.go`)

`persistAccount` empties `accounts.json` before it writes the account. If the server ends in
between, it starts without an account, and its file cannot be decoded. The check of the leader
creates an account only after `ErrNoAccount`, which is what a missing file gives; the error of a
file that ends too early is another one. So the leader loads nothing and creates nothing, and since
requests need an account, no certificate is requested or renewed either: no check ever changes
anything (`torn_account_frozen`), until an account arrives from another node. -/

namespace Tunnel.Server

open Tunnel.Lib Tunnel.Acme

namespace AcmeLeader

variable {K C : Type} {cfg : AcmeConfig K C} {s t : AcmeLeader K C}

/-- The leader of a server that has just been started. -/
def start (c : CertManager K C) : AcmeLeader K C := ⟨c, [], [], .notOwn, .notOwn, false⟩

/-- The check meets `accounts.json` as it is. -/
def Reads (file : JsonFile AccountFile) : Action K → Prop
  | .accountKeys w => ∃ opened, w.file = file.read opened
  | .certs _ => True

theorem exportAccount_none (hno : s.certs.hasAcc = false) :
    s.certs.exportAccount cfg.crypto = .error (.error .noAccount) := by
  simp [CertManager.exportAccount, hno]

theorem announceAccount_none (cfg : AcmeConfig K C) (hrun : s.crashed = false)
    (hno : s.certs.hasAcc = false) : announceAccount cfg s = s := by
  simp only [announceAccount, exportAccount_none hno, Fault.isPanic]
  rw [← hrun]

/-- A file that cannot be decoded is not a file that is missing. -/
theorem checkACMEAccountKeys_torn (hrun : s.crashed = false) (hno : s.certs.hasAcc = false)
    {w : AccountCheck K} {opened : Except String Unit}
    (hfile : w.file = (JsonFile.torn : JsonFile AccountFile).read opened) :
    checkACMEAccountKeys cfg s w = s := by
  have hnone := announceAccount_none cfg hrun hno
  cases opened <;>
    simpa [checkACMEAccountKeys, exportAccount_none hno, AcmeError.is, hfile, JsonFile.read,
      CertManager.loadAccountFromFile, failed] using hnone

/-- A request without an account does nothing. -/
theorem request_none (cfg : AcmeConfig K C) (hrun : s.crashed = false)
    (hno : s.certs.hasAcc = false) (w : CertificateRequest K) :
    request cfg s w = (s, .error (.error .noAccount)) := by
  obtain ⟨c, accounts, bundles, account, bundle, crashed⟩ := s
  cases hrun
  have hissue : c.issue cfg.crypto cfg.names w = (c, .error (.error .noAccount)) := by
    simp only [CertManager.issue]
    rw [if_pos hno]
  simp [request, installs, issued, CertManager.requestCertificate, hissue, isPanic, Fault.isPanic]

theorem checkACMECerts_none (cfg : AcmeConfig K C) (hrun : s.crashed = false)
    (hno : s.certs.hasAcc = false) (w : CertsCheck K) : checkACMECerts cfg s w = s := by
  have hrequest := request_none cfg hrun hno
  have hrenew : ∀ b, (renew cfg s b false w).1 = s := by
    intro b
    unfold renew
    split
    · rfl
    · simp
    · simp [hrequest]
  unfold checkACMECerts runCertsCheck CertManager.exportBundle
  split
  · next b _ => exact hrenew b
  · next p hp => split at hp <;> cases hp
  · next err hp =>
      split at hp <;> cases hp
      simp [AcmeError.is, hrequest]

/-- **No check changes anything** while there is no account and the file is torn. -/
theorem step_torn (hno : s.certs.hasAcc = false) {a : Action K} (hreads : Reads .torn a)
    (hstep : step cfg s a = some t) : t = s := by
  simp only [step, Option.ite_none_left_eq_some] at hstep
  obtain ⟨hrun, hstep⟩ := hstep
  rw [Bool.not_eq_true] at hrun
  cases a with
  | accountKeys w =>
      obtain ⟨opened, hfile⟩ := hreads
      cases hstep
      exact checkACMEAccountKeys_torn hrun hno hfile
  | certs w =>
      cases hstep
      exact checkACMECerts_none cfg hrun hno w

theorem run_torn (hno : s.certs.hasAcc = false) {tr : List (AcmeLeader K C × Action K)}
    (hrun : (machine cfg).Run s tr t) (hreads : Machine.Meets (fun _ a => Reads .torn a) tr) :
    t = s := by
  refine hrun.invariant (I := fun u => u = s) hreads rfl ?_
  rintro u a u' rfl hread hstep
  exact step_torn hno hread hstep

/-- **No check repairs a crash inside the write of the account.** Whatever the server did before, if
    it ends between `os.Create` and the encoding of `accounts.json`, then it starts again without an
    account and its file is still torn; and however often the leader runs its checks on that file,
    the state of the leader stays what it was at the start: no account is created, no certificate
    requested or renewed, and nothing announced. An account that arrives from another node and that
    the authority knows is taken up at any time. -/
theorem torn_account_frozen (cfg : AcmeConfig K C) {s : Host K C}
    (hs : (Host.machine cfg.crypto cfg.names).Reachable s) {g : Goroutine (Point K C)}
    (hg : g ∈ s.threads) {af : AccountFile} (hpoint : g.point = .writeAccountFile af) (b : Boot K)
    {tr : List (AcmeLeader K C × Action K)} {t : AcmeLeader K C}
    (hrun : (machine cfg).Run (start (s.data.boot cfg.crypto b).data.certs) tr t)
    (hreads : Machine.Meets (fun _ a => Reads (s.data.boot cfg.crypto b).data.accounts a) tr) :
    (s.data.boot cfg.crypto b).crashed = false ∧ t.certs.hasAcc = false ∧
      t = start (s.data.boot cfg.crypto b).data.certs ∧
      ∀ (af' : AccountFile) (w : AccountUpdate K) k a, pemToKey cfg.crypto af'.privateKey = .ok k →
        w.update.answer ⟨some k, af'.url⟩ = .ok a → w.persist = .done →
          t.certs.importAccount cfg.crypto af' true w
            = (t.certs.withAccount k af'.url, .ok ()) := by
  have hvalid := Host.valid_of_reachable hs
  have hat := hvalid.points g hg
  rw [hpoint] at hat
  have htorn : s.data.accounts = .torn := hat.2.2
  have hno : (s.data.boot cfg.crypto b).data.certs.hasAcc = false := by
    obtain ⟨c, hc, hd⟩ := Store.boot_cases cfg.crypto s.data b
    have hc' : c.hasAcc = false := by
      rcases hc with ⟨account, rfl⟩ | ⟨af', k, hfile, _, _⟩
      · rfl
      · rw [htorn] at hfile
        cases hfile
    rcases hd with hd | ⟨x, k, cert, _, _, hd⟩ <;> rw [hd] <;> exact hc'
  have hfile : (s.data.boot cfg.crypto b).data.accounts = .torn := htorn
  rw [hfile] at hreads
  have ht := run_torn (s := start (s.data.boot cfg.crypto b).data.certs) hno hrun hreads
  have hacc : t.certs.hasAcc = false := by
    rw [ht]
    exact hno
  refine ⟨Store.boot_crashed hvalid.always b, hacc, ht, ?_⟩
  intro af' w k a hkey hanswer hdone
  obtain rfl := w.update.keeps hanswer
  simp [CertManager.importAccount, hacc, hkey, hanswer, hdone, persistAccount, persist,
    CertManager.withAccount]

/-- The leader of `twoKeys`, whose certificates are not looked at. -/
def crashConfig : AcmeConfig Bool (String × String) where
  crypto := twoKeys
  x509 := ⟨fun _ => [], fun _ => .error "asn1: structure error"⟩
  names := exampleNames
  domain := ascii "a.z"

/-- `CreateAccount` up to the write of the file. -/
def createdFile : List (Host.Action Bool) :=
  .call .createAccount :: List.replicate 7 (.run 0 (smooth true))

/-- A check that would create an account. -/
def eagerCheck : AccountCheck Bool where
  file := (JsonFile.torn : JsonFile AccountFile).read (.ok ())
  update := ⟨.known, .done⟩
  create := ⟨.ok true, .ok "u", .done⟩

theorem torn_account_frozen_first : ∃ (s : Host Bool (String × String)) (t : AcmeLeader Bool _),
    ((Host.machine twoKeys exampleNames).Reachable s ∧
      (⟨.writeAccountFile ⟨"B", "u"⟩, false⟩ :
        Goroutine (Point Bool (String × String))) ∈ s.threads ∧
      (machine crashConfig).Run (start (s.data.boot twoKeys Host.smoothBoot).data.certs)
        ((machine crashConfig).trace (start (s.data.boot twoKeys Host.smoothBoot).data.certs)
          [.accountKeys eagerCheck]) t) ∧
    (s.data.boot twoKeys Host.smoothBoot).crashed = false ∧ t.certs.hasAcc = false ∧
      t = start (s.data.boot twoKeys Host.smoothBoot).data.certs ∧
      t.certs.importAccount twoKeys ⟨"A", "v"⟩ true ⟨.known, .done⟩
        = (t.certs.withAccount false "v", .ok ()) := by
  have hexec : ((Host.machine twoKeys exampleNames).exec
      (Process.start ⟨CertManager.init, .missing, .missing⟩) createdFile).map
        (fun s => (s.threads, s.data.accounts)) =
      some ([⟨.writeAccountFile ⟨"B", "u"⟩, false⟩], .torn) := rfl
  obtain ⟨s, hs, hpair⟩ := Option.map_eq_some_iff.1 hexec
  obtain ⟨hthreads, htorn⟩ := Prod.mk.inj hpair
  have hreach : (Host.machine twoKeys exampleNames).Reachable s :=
    ⟨_, _, rfl, Machine.run_of_exec hs⟩
  have hmem : (⟨.writeAccountFile ⟨"B", "u"⟩, false⟩ :
      Goroutine (Point Bool (String × String))) ∈ s.threads := by simp [hthreads]
  have hrun : (machine crashConfig).Run (start (s.data.boot twoKeys Host.smoothBoot).data.certs)
      ((machine crashConfig).trace (start (s.data.boot twoKeys Host.smoothBoot).data.certs)
        [.accountKeys eagerCheck])
      (checkACMEAccountKeys crashConfig (start (s.data.boot twoKeys Host.smoothBoot).data.certs)
        eagerCheck) := Machine.run_of_exec rfl
  have hreads : Machine.Meets
      (fun _ a => Reads (s.data.boot twoKeys Host.smoothBoot).data.accounts a)
      ((machine crashConfig).trace (start (s.data.boot twoKeys Host.smoothBoot).data.certs)
        [.accountKeys eagerCheck]) := by
    intro p hp
    have hp' := Machine.mem_of_mem_trace hp
    rw [List.mem_singleton] at hp'
    rw [hp']
    exact ⟨.ok (), by simp [eagerCheck, Store.boot, Process.start, htorn]⟩
  obtain ⟨hcrashed, hacc, ht, himport⟩ :=
    torn_account_frozen crashConfig hreach hmem rfl Host.smoothBoot hrun hreads
  exact ⟨s, _, ⟨hreach, hmem, hrun⟩, hcrashed, hacc, ht,
    himport ⟨"A", "v"⟩ ⟨.known, .done⟩ false _ rfl rfl rfl⟩

end AcmeLeader

end Tunnel.Server
