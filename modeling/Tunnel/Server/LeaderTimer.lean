import Tunnel.Lib.Pool
import Tunnel.Server.Leader

set_option autoImplicit false

/-! # Start and stop commands of the leader (`server/leader.go`)

`handleMembershipChange` turns each change of the leader into a command, and `leaderTimer` obeys the
commands in the order in which its `select` picks them. Two things can go wrong with that.

The commands travel on two channels, so a stop command can be picked after the start command that
was sent later. The node then leads with its timer off, and nothing will turn it on again: it is
*asleep*. The step that puts it there is a `recvStop` that comes late (`LateStop`), only the next
change of the leader wakes it, and both together decide (`leader_never_dormant_iff`).

A start command arms the timer whether or not a check is still running. A node that loses and
regains the leadership during a check therefore starts a second one (`checks_overlap`); it does not
exactly if no timer fires during a check (`acme_checks_never_overlap_iff`). -/

namespace Tunnel.Server

open Tunnel.Lib

/-- The check goroutine has not returned. -/
def CheckPc.running : CheckPc → Bool
  | .checking | .checked | .sendStart => true
  | .returned => false

namespace Leader

/-! ## The dormant leader -/

/-- The timer is running, or its tick waits to be received. -/
def TimerArmed (s : Leader) : Prop := s.timer = .armed ∨ s.timer = .expired

instance (s : Leader) : Decidable s.TimerArmed := inferInstanceAs (Decidable (_ ∨ _))

/-- Some ACME-check goroutine has not returned. -/
def CheckRunning (s : Leader) : Prop := ∃ c ∈ s.checks, c ≠ .returned

instance (s : Leader) : Decidable s.CheckRunning :=
  inferInstanceAs (Decidable (∃ c ∈ s.checks, c ≠ .returned))

/-- No event or command is on its way, `handleMembershipChange` and `leaderTimer` wait in their
    `select`, and a membership event was processed. -/
def AtRest (s : Leader) : Prop :=
  s.membershipCh.IsEmpty ∧ s.startLeader.IsEmpty ∧ s.stopLeader.IsEmpty ∧ s.change = .waiting ∧
    s.leaderTimer = .waiting ∧ 0 < s.events

instance (s : Leader) : Decidable s.AtRest :=
  inferInstanceAs (Decidable (_ ∧ _ ∧ _ ∧ _ ∧ _ ∧ _))

/-- A start command is in the buffer, or `handleMembershipChange` is about to send one, or a check
    is running, which will send one if the node still leads. -/
def StartComing (s : Leader) : Prop :=
  ¬ s.startLeader.IsEmpty ∨ s.change = .branch ∨ s.change = .sendStart ∨ s.CheckRunning

/-- The node leads, its timer is off and did not just fire, and nothing will start it. -/
def Asleep (cfg : LeaderConfig) (s : Leader) : Prop :=
  s.currentLeader = cfg.id ∧ ¬ s.TimerArmed ∧ s.leaderTimer ≠ .fired ∧ ¬ s.StartComing

/-- `leaderTimer` takes a stop command although the node leads and no start command is to come. -/
def LateStop (cfg : LeaderConfig) (s : Leader) (a : Action) : Prop :=
  a = .recvStop ∧ s.currentLeader = cfg.id ∧ ¬ s.StartComing

variable {cfg : LeaderConfig} {s s' : Leader} {a : Action}

/-- While a start command is to come before and after a step, nothing about sleep changes. -/
theorem asleep_iff_of_startComing (hs : s.StartComing) (hs' : s'.StartComing) :
    Asleep cfg s' ↔ LateStop cfg s a ∨ Asleep cfg s ∧ ¬ a = .changeStore := by
  refine iff_of_false (fun hasleep => hasleep.2.2.2 hs') ?_
  rintro (hlate | ⟨hasleep, _⟩)
  · exact hlate.2.2 hs
  · exact hasleep.2.2.2 hs

theorem startComing_of_check {i : ℕ} {c : CheckPc} (hc : s.checks[i]? = some c)
    (hrunning : c ≠ .returned) : s.StartComing :=
  Or.inr (Or.inr (Or.inr ⟨c, List.mem_of_getElem? hc, hrunning⟩))

/-- A check that goes on keeps a start command coming. -/
theorem startComing_of_set {i : ℕ} {c c' : CheckPc} (hc : s.checks[i]? = some c)
    (hrunning : c' ≠ .returned) : StartComing { s with checks := s.checks.set i c' } :=
  Or.inr (Or.inr (Or.inr ⟨c', mem_set_self hc c', hrunning⟩))

/-- A change of the peer map does not move `handleMembershipChange`. -/
theorem changePeers_change (s : Leader) (keys : List UInt64) {pc : ChangePc}
    (hpc : ∀ view, pc ≠ .snapshot view) :
    (s.changePeers keys).change = pc ↔ s.change = pc := by
  unfold changePeers
  cases hch : s.change with
  | snapshot view => exact iff_of_false (hpc _).symm (hpc _).symm
  | _ => simp

/-- **What puts a leader to sleep and what wakes it.** After a step the node is asleep exactly if
    the step was a late stop command, or it was asleep before and the step did not store a
    leader. -/
theorem asleep_step_iff (h : s.step cfg a = some s') :
    Asleep cfg s' ↔ LateStop cfg s a ∨ Asleep cfg s ∧ ¬ a = .changeStore := by
  cases step_iff.1 h with
  | changePeers keys =>
      have hcoming : (s.changePeers keys).StartComing ↔ s.StartComing := by
        unfold StartComing
        rw [changePeers_change s keys (by simp), changePeers_change s keys (by simp)]
        exact Iff.rfl
      simp only [Asleep, LateStop, hcoming]
      simp [changePeers, TimerArmed]
  | changeStore hpc => simp [Asleep, LateStop, StartComing]
  | recvStart hpc hch =>
      have hne : ¬ s.startLeader.IsEmpty := by
        simp [Chan.IsEmpty, Chan.recv_eq_some.1 hch]
      simp [Asleep, LateStop, StartComing, TimerArmed, hne]
  | recvStop hpc hch =>
      constructor
      · rintro ⟨hlead, _, _, hcoming⟩
        exact Or.inl ⟨rfl, hlead, hcoming⟩
      · rintro (⟨_, hlead, hcoming⟩ | ⟨⟨hlead, _, _, hcoming⟩, _⟩)
        · exact ⟨hlead, by simp [TimerArmed], by simp [hpc], hcoming⟩
        · exact ⟨hlead, by simp [TimerArmed], by simp [hpc], hcoming⟩
  | timerCheck hpc hlead =>
      refine iff_of_false (fun hasleep => hasleep.2.2.2 ?_) (by simp [Asleep, LateStop, hpc])
      refine Or.inr (Or.inr (Or.inr ⟨_, List.mem_append_right _ (List.mem_singleton_self _), ?_⟩))
      cases cfg.debug <;> simp
  | checkDone hpc =>
      exact asleep_iff_of_startComing (startComing_of_check hpc (by simp))
        (startComing_of_set hpc (by simp))
  | checkAgain hpc hlead =>
      exact asleep_iff_of_startComing (startComing_of_check hpc (by simp))
        (startComing_of_set hpc (by simp))
  | checkSend hpc hch =>
      exact asleep_iff_of_startComing (startComing_of_check hpc (by simp))
        (Or.inl (Chan.not_isEmpty_of_send hch))
  | branchStart hpc hlead =>
      exact asleep_iff_of_startComing (Or.inr (Or.inl hpc)) (Or.inr (Or.inr (Or.inl rfl)))
  | changeSendStart hpc hch =>
      exact asleep_iff_of_startComing (Or.inr (Or.inr (Or.inl hpc)))
        (Or.inl (Chan.not_isEmpty_of_send hch))
  | timerStale hpc hlead | checkEnd hpc hlead | branchStop hpc hlead =>
      have hne : s.currentLeader ≠ cfg.id := Ne.symm hlead
      simp [Asleep, LateStop, hne]
  | _ => simp_all [Asleep, LateStop, StartComing, TimerArmed, CheckRunning]

/-- 0 is the lowest ID there is. -/
theorem lowest_append_zero (peers : List UInt64) : lowest (peers ++ [0]) = 0 := by
  rw [lowest, List.foldl_append]
  set x := peers.foldl (fun lowest peer => if peer < lowest then peer else lowest) (~~~0)
  simp only [List.foldl_cons, List.foldl_nil]
  split
  · rfl
  · next hx => exact UInt64.le_antisymm (UInt64.not_lt.1 hx) (UInt64.zero_le)

/-- A node with the ID 0 finds itself the leader before the first event, so it never stores one and
    never starts its timer. -/
theorem asleep_of_zero {s₀ t : Leader} {tr : List (Leader × Action)} (hid : cfg.id = 0)
    (h₀ : (machine cfg).Init s₀) (h : (machine cfg).Run s₀ tr t) : Asleep cfg t := by
  let I (s : Leader) : Prop :=
    Asleep cfg s ∧ (∀ low, s.change = .compare low → low = 0) ∧ ∀ low, s.change ≠ .store low
  have hinit : I s₀ := by
    obtain ⟨peers, rfl⟩ := h₀
    simp [I, Asleep, init, hid, TimerArmed, StartComing, CheckRunning]
  refine (h.preserves hinit ?_ : I t).1
  rintro s a s' ⟨hasleep, hcompare, hstore⟩ (hst : s.step cfg a = some s')
  have hasleep' : Asleep cfg s' := by
    refine (asleep_step_iff hst).2 (Or.inr ⟨hasleep, ?_⟩)
    rintro rfl
    cases step_iff.1 hst with
    | changeStore hpc => exact hstore _ hpc
  refine ⟨hasleep', ?_⟩
  cases step_iff.1 hst with
  | changePeers keys =>
      refine ⟨fun low hlow => hcompare low ?_, fun low hlow => hstore low ?_⟩
      · exact (changePeers_change s keys (by simp)).1 hlow
      · exact (changePeers_change s keys (by simp)).1 hlow
  | changeSnapshot hpc hseen => simp [hid, lowest_append_zero]
  | @changed low hpc hlow => exact absurd (hasleep.1.trans hid) (hcompare low hpc ▸ hlow)
  | _ => simp_all

/-- **A leader at rest serves unless a late stop command was the last word.** In every run, in every
    state with no event or command on its way in which the node leads: the timer is armed or a check
    is running if and only if the node's ID is not 0 and no stop command was received late, that is
    while the node led and no start command was to come, since the leader was last stored. -/
theorem leader_never_dormant_iff {s₀ t : Leader} {tr : List (Leader × Action)}
    (h₀ : (machine cfg).Init s₀) (h : (machine cfg).Run s₀ tr t) (hrest : t.AtRest)
    (hlead : t.currentLeader = cfg.id) :
    t.TimerArmed ∨ t.CheckRunning ↔
      cfg.id ≠ 0 ∧ ¬ Machine.LastSet (LateStop cfg) (fun _ a => a = .changeStore) tr := by
  obtain ⟨_, hstart, _, hchange, htimer, _⟩ := hrest
  have hawake : t.TimerArmed ∨ t.CheckRunning ↔ ¬ Asleep cfg t := by
    simp [Asleep, StartComing, hlead, hstart, hchange, htimer]
    tauto
  rw [hawake]
  by_cases hid : cfg.id = 0
  · simp [hid, asleep_of_zero hid h₀ h]
  · have hinit : ¬ Asleep cfg s₀ := by
      obtain ⟨peers, rfl⟩ := h₀
      rintro ⟨hzero, _⟩
      exact hid hzero.symm
    rw [h.holds_iff_lastSet hinit (fun _ _ _ hst => asleep_step_iff hst)]
    simp [hid]

/-- Node 5 leads alone, node 3 joins and leaves again; each command is received before the next one
    is sent. -/
def orderlyRun : List Action :=
  [.membershipSend, .changeRecv, .changeSnapshot [], .changeCompare, .changeStore, .changeBranch,
    .changeSend, .recvStart, .changePeers [3], .membershipSend, .changeRecv, .changeSnapshot [3],
    .changeCompare, .changeStore, .changeBranch, .changeSend, .recvStop, .changePeers [],
    .membershipSend, .changeRecv, .changeSnapshot [], .changeCompare, .changeStore, .changeBranch,
    .changeSend, .recvStart]

theorem leader_never_dormant_iff_orderly :
    ∃ t, (machine ⟨5, false⟩).Run (init []) ((machine ⟨5, false⟩).trace (init []) orderlyRun) t ∧
      t.AtRest ∧ t.currentLeader = 5 ∧ t.TimerArmed ∧
      ¬ Machine.LastSet (LateStop ⟨5, false⟩) (fun _ a => a = .changeStore)
        ((machine ⟨5, false⟩).trace (init []) orderlyRun) := by
  obtain ⟨t, hrun, hrest, hlead, harmed⟩ :=
    (machine ⟨5, false⟩).run_of_exec_any (init []) orderlyRun
      (P := fun t => t.AtRest ∧ t.currentLeader = 5 ∧ t.TimerArmed) (by decide)
  have hiff := leader_never_dormant_iff ⟨[], rfl⟩ hrun hrest hlead
  exact ⟨t, hrun, hrest, hlead, harmed, (hiff.1 (Or.inl harmed)).2⟩

/-- The same, but the stop command is still in its buffer when the next start command is sent, and
    `leaderTimer` picks the start command first. -/
def crossedRun : List Action :=
  [.membershipSend, .changeRecv, .changeSnapshot [], .changeCompare, .changeStore, .changeBranch,
    .changeSend, .recvStart, .changePeers [3], .membershipSend, .changeRecv, .changeSnapshot [3],
    .changeCompare, .changeStore, .changeBranch, .changeSend, .changePeers [], .membershipSend,
    .changeRecv, .changeSnapshot [], .changeCompare, .changeStore, .changeBranch, .changeSend,
    .recvStart, .recvStop]

theorem leader_dormant :
    ∃ t, (machine ⟨5, false⟩).Reachable t ∧ t.AtRest ∧ t.currentLeader = 5 ∧ ¬ t.TimerArmed ∧
      ¬ t.CheckRunning :=
  (machine ⟨5, false⟩).reachable_of_exec_any ⟨[], rfl⟩ crossedRun
    (P := fun t => t.AtRest ∧ t.currentLeader = 5 ∧ ¬ t.TimerArmed ∧ ¬ t.CheckRunning) (by decide)

/-! ## Overlapping checks -/

/-- Two check goroutines are inside `checkACMEAccountKeys` or `checkACMECerts`. -/
def Overlapping (s : Leader) : Prop := 2 ≤ s.checks.countP (· = .checking)

instance (s : Leader) : Decidable s.Overlapping := inferInstanceAs (Decidable (_ ≤ _))

/-- The timer of the leader fires only while no check is running its ACME part. -/
def FiresClear (cfg : LeaderConfig) (s : Leader) : Action → Prop
  | .timerLoad => cfg.id = s.currentLeader → cfg.debug = false → .checking ∉ s.checks
  | _ => True

/-- The leadership is taken up only when nothing of an earlier term is left: no start command in the
    buffer, the timer off and not just fired, no check running. -/
def TermClear (cfg : LeaderConfig) (s : Leader) : Action → Prop
  | .changeBranch => cfg.id = s.currentLeader →
      s.startLeader.IsEmpty ∧ ¬ s.TimerArmed ∧ s.leaderTimer ≠ .fired ∧ ¬ s.CheckRunning
  | _ => True

instance (cfg : LeaderConfig) (s : Leader) : DecidablePred (FiresClear cfg s)
  | .timerLoad =>
      inferInstanceAs (Decidable
        (cfg.id = s.currentLeader → cfg.debug = false → .checking ∉ s.checks))
  | .changePeers _ | .membershipSend | .cancel | .changeReturn | .changeRecv | .changeSnapshot _
  | .changeCompare | .changeStore | .changeBranch | .changeSend | .timerReturn | .recvStart
  | .recvStop | .expire | .recvTimer | .timerSend | .checkDone _ | .checkLoad _ | .checkSend _ =>
      isTrue trivial

/-- A step lets checks overlap exactly if the timer fires for the leader during a check. -/
theorem not_overlapping_step_iff (hs : ¬ s.Overlapping) (h : s.step cfg a = some s') :
    ¬ s'.Overlapping ↔ FiresClear cfg s a := by
  have hmove : ∀ {i c c'}, s.checks[i]? = some c → c' ≠ .checking →
      ¬ Overlapping { s with checks := s.checks.set i c' } := by
    intro i c c' hc hc'
    have hcount := countP_set_add (· = .checking) hc c'
    simp only [Overlapping, hc', decide_false, Bool.toNat_false, not_le] at hs hcount ⊢
    omega
  cases step_iff.1 h with
  | timerCheck hpc hlead =>
      have hpos : .checking ∈ s.checks ↔ 0 < s.checks.countP (· = .checking) := by
        simp [List.countP_pos_iff]
      simp only [Overlapping, FiresClear, List.countP_append, hlead, hpos] at hs ⊢
      cases cfg.debug
      · simp
      · simpa using hs
  | timerStale hpc hlead => exact iff_of_true hs (fun heq => absurd heq hlead)
  | checkDone hpc => exact iff_of_true (hmove hpc (by simp)) trivial
  | checkAgain hpc | checkEnd hpc => exact iff_of_true (hmove hpc (by simp)) trivial
  | checkSend hpc hch => exact iff_of_true (hmove hpc (by simp)) trivial
  | _ => exact iff_of_true hs trivial

/-- What can lead to a check: the start command that `handleMembershipChange` is about to send, the
    one in the buffer, the armed timer, the fired one, and the checks that have not returned. -/
def tokens (s : Leader) : ℕ :=
  (match s.change with | .sendStart => 1 | _ => 0) + s.startLeader.buf.length +
    (match s.timer with | .armed | .expired => 1 | .unset | .spent => 0) +
    (match s.leaderTimer with | .fired => 1 | _ => 0) + s.checks.countP CheckPc.running

/-- A check that moves keeps its token, or gives it up when it returns. -/
theorem countP_running_set {i : ℕ} {c : CheckPc} (hc : s.checks[i]? = some c)
    (hrunning : c.running = true) (c' : CheckPc) :
    (s.checks.set i c').countP CheckPc.running + 1 =
      s.checks.countP CheckPc.running + c'.running.toNat := by
  have hcount := countP_set_add CheckPc.running hc c'
  rwa [hrunning, Bool.toNat_true] at hcount

/-- Taking up the leadership is the only step that adds a token. -/
theorem tokens_step (h : s.step cfg a = some s') (hok : TermClear cfg s a) (hs : s.tokens ≤ 1) :
    s'.tokens ≤ 1 := by
  unfold tokens at hs ⊢
  cases step_iff.1 h with
  | changePeers keys =>
      have hpc : (match (s.changePeers keys).change with | .sendStart => 1 | _ => 0)
          = (match s.change with | .sendStart => 1 | _ => 0) := by
        unfold changePeers
        cases s.change <;> rfl
      rw [hpc]
      exact hs
  | branchStart hpc hlead =>
      obtain ⟨hstart, htimer, hfired, hchecks⟩ := hok hlead
      have hnone : s.checks.countP CheckPc.running = 0 := by
        refine List.countP_eq_zero.2 fun c hc hrunning => hchecks ⟨c, hc, ?_⟩
        rintro rfl
        exact absurd hrunning (by simp [CheckPc.running])
      have hbuf : s.startLeader.buf.length = 0 := by rw [hstart]; rfl
      have hoff : (match s.timer with | .armed | .expired => 1 | .unset | .spent => 0) = 0 := by
        cases ht : s.timer <;> simp_all [TimerArmed]
      have hidle : (match s.leaderTimer with | .fired => 1 | _ => 0) = 0 := by
        cases ht : s.leaderTimer <;> simp_all
      dsimp only
      omega
  | changeSendStart hpc hch =>
      rw [(Chan.send_eq_some.1 hch).2, List.length_append]
      simp only [hpc] at hs
      simp only [List.length_singleton]
      omega
  | recvStart hpc hch =>
      rw [Chan.recv_eq_some.1 hch, List.length_cons] at hs
      dsimp only
      omega
  | recvStop hpc hch =>
      dsimp only
      omega
  | expire htimer => simpa [htimer] using hs
  | recvTimer hpc htimer => simpa [hpc, htimer] using hs
  | timerStale hpc hlead =>
      simp only [hpc] at hs
      dsimp only
      omega
  | timerCheck hpc hlead =>
      have hnew : (if cfg.debug then CheckPc.checked else CheckPc.checking).running = true := by
        cases cfg.debug <;> rfl
      simp only [hpc] at hs
      simp only [List.countP_append, List.countP_singleton, hnew, if_true]
      omega
  | checkDone hpc =>
      have hcount := countP_running_set hpc rfl .checked
      rw [CheckPc.running, Bool.toNat_true] at hcount
      dsimp only
      omega
  | checkAgain hpc hlead =>
      have hcount := countP_running_set hpc rfl .sendStart
      rw [CheckPc.running, Bool.toNat_true] at hcount
      dsimp only
      omega
  | checkEnd hpc hlead =>
      have hcount := countP_running_set hpc rfl .returned
      rw [CheckPc.running, Bool.toNat_false] at hcount
      dsimp only
      omega
  | checkSend hpc hch =>
      have hcount := countP_running_set hpc rfl .returned
      rw [CheckPc.running, Bool.toNat_false] at hcount
      rw [(Chan.send_eq_some.1 hch).2, List.length_append]
      simp only [List.length_singleton]
      omega
  | _ => simp_all

/-- **ACME checks overlap exactly when the timer fires during a check.** In every run, no state has
    two goroutines inside `checkACMEAccountKeys` or `checkACMECerts` if and only if the timer never
    fires for the leader while a check is there. It never does when the leadership is only taken up
    after everything of the earlier terms has ended. -/
theorem acme_checks_never_overlap_iff {s₀ t : Leader} {tr : List (Leader × Action)}
    (h₀ : (machine cfg).Init s₀) (h : (machine cfg).Run s₀ tr t) :
    ((∀ u ∈ Machine.visited tr t, ¬ u.Overlapping) ↔ Machine.Meets (FiresClear cfg) tr) ∧
      (Machine.Meets (TermClear cfg) tr → ¬ t.Overlapping) := by
  obtain ⟨peers, rfl⟩ := h₀
  constructor
  · have hinit : ¬ (init peers).Overlapping := by simp [Overlapping, init]
    exact h.avoids_iff hinit (fun _ _ _ hs hst => not_overlapping_step_iff hs hst)
  · intro hok
    have hinit : (init peers).tokens ≤ 1 := by simp [tokens, init]
    have htokens := h.invariant hok hinit (fun _ _ _ hs hclear hst => tokens_step hst hclear hs)
    have hle : t.checks.countP (· = .checking) ≤ t.checks.countP CheckPc.running :=
      List.countP_mono_left fun c _ hc => by
        rw [of_decide_eq_true hc]
        rfl
    unfold tokens at htokens
    unfold Overlapping
    omega

/-- Node 5 leads, a check runs to its end and the timer starts the next one. -/
def roundsRun : List Action :=
  [.membershipSend, .changeRecv, .changeSnapshot [], .changeCompare, .changeStore, .changeBranch,
    .changeSend, .recvStart, .expire, .recvTimer, .timerLoad, .checkDone 0, .checkLoad 0,
    .checkSend 0, .recvStart, .expire, .recvTimer, .timerLoad]

theorem acme_checks_never_overlap_iff_rounds :
    ∃ t, (machine ⟨5, false⟩).Run (init []) ((machine ⟨5, false⟩).trace (init []) roundsRun) t ∧
      .checking ∈ t.checks ∧
      (∀ u ∈ Machine.visited ((machine ⟨5, false⟩).trace (init []) roundsRun) t,
        ¬ u.Overlapping) := by
  obtain ⟨t, hrun, hchecking⟩ := (machine ⟨5, false⟩).run_of_exec_any (init []) roundsRun
    (P := fun t => .checking ∈ t.checks) (by decide)
  have hok : Machine.Meets (FiresClear ⟨5, false⟩)
      ((machine ⟨5, false⟩).trace (init []) roundsRun) := by
    unfold Machine.Meets
    decide
  exact ⟨t, hrun, hchecking, (acme_checks_never_overlap_iff ⟨[], rfl⟩ hrun).1.2 hok⟩

/-- Node 5 loses the leadership to node 3 during a check and regains it before the check ends. -/
def flappingRun : List Action :=
  [.membershipSend, .changeRecv, .changeSnapshot [], .changeCompare, .changeStore, .changeBranch,
    .changeSend, .recvStart, .expire, .recvTimer, .timerLoad, .changePeers [3], .membershipSend,
    .changeRecv, .changeSnapshot [3], .changeCompare, .changeStore, .changeBranch, .changeSend,
    .recvStop, .changePeers [], .membershipSend, .changeRecv, .changeSnapshot [], .changeCompare,
    .changeStore, .changeBranch, .changeSend, .recvStart, .expire, .recvTimer, .timerLoad]

theorem checks_overlap : ∃ t, (machine ⟨5, false⟩).Reachable t ∧ t.Overlapping :=
  (machine ⟨5, false⟩).reachable_of_exec_any ⟨[], rfl⟩ flappingRun (P := Overlapping) (by decide)

end Leader

end Tunnel.Server
