import Tunnel.Server.Leader

set_option autoImplicit false

/-! # The send of `leaderTimer` to its own channel

`leaderTimer` is the only receiver of `stopLeader`, and at leader.go:61 it also sends on it. If the
buffer is full when it gets there, nobody is left to empty it: the goroutine, and with it everything
behind `handleMembershipChange`, hangs for good (`selfBlocked_step`).

Such a state is reachable. `handleMembershipChange` first stores the new leader and then sends the
stop command; a timer that expires around that moment makes `leaderTimer` find the new leader and
send a stop command of its own while the other one is still in the buffer. The two steps that close
the trap are named by `StopClear`, and a run is free of the hang exactly if it takes neither of them
(`leaderTimer_never_selfBlocked_iff`). -/

namespace Tunnel.Server.Leader

open Tunnel.Lib

/-- `leaderTimer` stands at its own send to `stopLeader`, and the buffer is full. -/
def SelfBlocked (s : Leader) : Prop :=
  s.leaderTimer = .sendStop ∧ s.stopLeader.IsFull

instance (s : Leader) : Decidable s.SelfBlocked := inferInstanceAs (Decidable (_ ∧ _))

/-- The condition on the steps around the self-send. When the fired timer finds that another node
    leads, no stop command is in the buffer; and `handleMembershipChange` does not put one there
    while `leaderTimer` is about to send its own. -/
def StopClear (cfg : LeaderConfig) (s : Leader) : Action → Prop
  | .timerLoad => cfg.id ≠ s.currentLeader → s.stopLeader.IsEmpty
  | .changeSend => s.change = .sendStop → s.leaderTimer ≠ .sendStop
  | _ => True

variable {cfg : LeaderConfig} {s s' : Leader} {a : Action}

/-! ## The hang is permanent -/

/-- Only `leaderTimer` receives from `stopLeader`, so no step of anyone leaves a self-blocked
    state. -/
theorem selfBlocked_step (hs : s.SelfBlocked) (h : s.step cfg a = some s') : s'.SelfBlocked := by
  obtain ⟨hpc, hfull⟩ := hs
  have hsend : ∀ ch, s.stopLeader.send () ≠ some ch :=
    fun ch hch => (Chan.send_eq_some.1 hch).1 hfull
  cases step_iff.1 h with
  | changeSendStop _ hch => exact absurd hch (hsend _)
  | timerSend _ hch => exact absurd hch (hsend _)
  | timerReturn hw | recvStart hw | recvStop hw | recvTimer hw | timerStale hw | timerCheck hw =>
      rw [hpc] at hw
      exact absurd hw (by simp)
  | _ => exact ⟨hpc, hfull⟩

theorem selfBlocked_forever {t : Leader} {tr : List (Leader × Action)} (hs : s.SelfBlocked)
    (h : (machine cfg).Run s tr t) : t.SelfBlocked := by
  exact h.preserves hs (fun _ _ _ hI hst => selfBlocked_step hI hst)

/-! ## The two steps that lead into it -/

/-- Outside a self-blocked state, a step leads into one exactly if it breaks `StopClear`. -/
theorem not_selfBlocked_step_iff (hs : ¬ s.SelfBlocked) (h : s.step cfg a = some s') :
    ¬ s'.SelfBlocked ↔ StopClear cfg s a := by
  cases step_iff.1 h with
  | timerStale hpc hlead =>
      have hfull : (¬ s.stopLeader.IsFull) ↔ s.stopLeader.IsEmpty := Signal.not_isFull_iff_isEmpty
      simp [SelfBlocked, StopClear, hlead, hfull]
  | timerCheck hpc hlead => simp [SelfBlocked, StopClear, hlead]
  | changeSendStop hpc hch =>
      have hfull := Signal.isFull_of_send hch
      simp [SelfBlocked, StopClear, hpc, hfull]
  | changeSendStart hpc hch =>
      have hne : ¬ s.change = .sendStop := by rw [hpc]; simp
      simpa [SelfBlocked, StopClear, hne] using hs
  | timerSend hpc hch => simp [SelfBlocked, StopClear]
  | recvStop hpc hch => simp [SelfBlocked, StopClear, hpc]
  | timerReturn | recvTimer => simp [SelfBlocked, StopClear]
  | _ => simpa [SelfBlocked, StopClear] using hs

/-- **`leaderTimer` hangs on its own send exactly in the runs that break `StopClear`.** For every
    sequence of membership changes and every interleaving, no state of the run has `leaderTimer`
    blocked on leader.go:61 with `stopLeader` full if and only if, at every step, the fired timer
    finds another leader only with an empty `stopLeader`, and `handleMembershipChange` sends a stop
    command only while `leaderTimer` is not about to send its own. -/
theorem leaderTimer_never_selfBlocked_iff {s₀ t : Leader} {tr : List (Leader × Action)}
    (h₀ : (machine cfg).Init s₀) (h : (machine cfg).Run s₀ tr t) :
    (∀ u ∈ Machine.visited tr t, ¬ u.SelfBlocked) ↔ Machine.Meets (StopClear cfg) tr := by
  obtain ⟨peers, rfl⟩ := h₀
  have hinit : ¬ (init peers).SelfBlocked := by simp [SelfBlocked, init]
  exact h.avoids_iff hinit (fun _ _ _ hs hst => not_selfBlocked_step_iff hs hst)

/-- Node 5 leads alone, then hears of node 3; its timer is let run out only after the stop command
    was received, so the run is free of the hang. -/
def handoverRun : List Action :=
  [.membershipSend, .changeRecv, .changeSnapshot [], .changeCompare, .changeStore, .changeBranch,
    .changeSend, .recvStart, .changePeers [3], .membershipSend, .changeRecv, .changeSnapshot [3],
    .changeCompare, .changeStore, .changeBranch, .changeSend, .recvStop]

theorem leaderTimer_never_selfBlocked_iff_handover :
    ∃ t, (machine ⟨5, false⟩).Run (init []) ((machine ⟨5, false⟩).trace (init []) handoverRun) t ∧
      t.currentLeader = 3 ∧
      ((∀ u ∈ Machine.visited ((machine ⟨5, false⟩).trace (init []) handoverRun) t,
          ¬ u.SelfBlocked) ↔
        Machine.Meets (StopClear ⟨5, false⟩)
          ((machine ⟨5, false⟩).trace (init []) handoverRun)) := by
  obtain ⟨t, hrun, hlead⟩ := (machine ⟨5, false⟩).run_of_exec_any (init []) handoverRun
    (P := fun t => t.currentLeader = 3) (by decide)
  exact ⟨t, hrun, hlead, leaderTimer_never_selfBlocked_iff ⟨[], rfl⟩ hrun⟩

/-- The run into the hang: node 5 leads with its timer running, node 3 joins, the new leader is
    stored and the stop command sent, and only then the timer runs out and is picked before the
    stop command. -/
def staleTimerRun : List Action :=
  [.membershipSend, .changeRecv, .changeSnapshot [], .changeCompare, .changeStore, .changeBranch,
    .changeSend, .recvStart, .changePeers [3], .membershipSend, .changeRecv, .changeSnapshot [3],
    .changeCompare, .changeStore, .changeBranch, .changeSend, .expire, .recvTimer, .timerLoad]

theorem leaderTimer_selfBlocked_reachable :
    ¬ ∀ s, (machine ⟨5, false⟩).Reachable s → ¬ s.SelfBlocked := by
  intro hall
  obtain ⟨t, ht, hblocked⟩ := (machine ⟨5, false⟩).reachable_of_exec_any ⟨[], rfl⟩
    staleTimerRun (P := SelfBlocked) (by decide)
  exact hall t ht hblocked

end Tunnel.Server.Leader
