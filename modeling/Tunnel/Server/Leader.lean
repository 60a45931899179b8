import Mathlib.Data.UInt
import Tunnel.Lib.Machine
import Tunnel.Lib.Chan
import Tunnel.Lib.SyncMap

set_option autoImplicit false

/-! # Leader election and the leader's timer (`server/leader.go`)

Every node computes the leader for itself: the lowest ID among its own and those of its connected
peers. `handleMembershipChange` recomputes it for each event on `membershipCh` and tells
`leaderTimer` over two signal channels; `leaderTimer` runs an ACME check fifteen seconds after it
was told to start, in a goroutine of its own that asks for the next round when it is done.

The goroutines share `currentLeader` and the three channels. Each is modelled by its program point,
one step for each operation on shared state: in particular the store to `currentLeader` and the send
that follows it are separate steps, and a `select` may take any ready case. The keys of `s.peers`
are part of the state and may change at any time (`changePeers`), also while `Snapshot` ranges over
them. -/

namespace Tunnel.Server

open Tunnel.Lib

/-- What the leader code reads of its server: `s.PeerID()` and `s.config.Debug` (no ACME checks). -/
structure LeaderConfig where
  id : UInt64
  debug : Bool
deriving DecidableEq

/-- The loop over `append(s.peers.Snapshot(), s.PeerID())`, from `lowest := ^uint64(0)`. -/
def lowest (peers : List UInt64) : UInt64 :=
  peers.foldl (fun lowest peer => if peer < lowest then peer else lowest) (~~~0)

/-- Program point of `handleMembershipChange`: in its `select`; while `s.peers.Snapshot()` ranges
    over the peer map; before the `CompareAndSwapUint64`; before the `StoreUint64` of a new leader;
    before the test `s.PeerID() == atomic.LoadUint64(&s.currentLeader)`; at either send. -/
inductive ChangePc
  | waiting
  | snapshot (view : RangeView UInt64)
  | compare (lowest : UInt64)
  | store (lowest : UInt64)
  | branch
  | sendStart
  | sendStop
  | returned
deriving DecidableEq

/-- Program point of `leaderTimer`: in its `select`; in `case <-timer`, before it loads
    `currentLeader`; at its own send to `stopLeader`. -/
inductive TimerPc
  | waiting
  | fired
  | sendStop
  | returned
deriving DecidableEq

/-- The `timer` variable of `leaderTimer`: `nil`, running, with its tick in the channel, and with
    the tick received (the channel then stays, and stays empty). -/
inductive Timer
  | unset
  | armed
  | expired
  | spent
deriving DecidableEq

/-- Program point of an ACME-check goroutine: inside `checkACMEAccountKeys` or `checkACMECerts`;
    before it loads `currentLeader`; at its send to `startLeader`. -/
inductive CheckPc
  | checking
  | checked
  | sendStart
  | returned
deriving DecidableEq

/-- The state shared by the leader goroutines and where each of them is. `peers` are the keys of
    `s.peers`, `done` says that `s.parentCtx` is cancelled, and `events` counts the membership
    events `handleMembershipChange` has received. -/
structure Leader where
  peers : List UInt64
  currentLeader : UInt64
  membershipCh : Signal
  startLeader : Signal
  stopLeader : Signal
  timer : Timer
  change : ChangePc
  leaderTimer : TimerPc
  checks : List CheckPc
  done : Bool
  events : ℕ
deriving DecidableEq

namespace Leader

/-- The state in which `ListenForPeers` starts the goroutines. -/
def init (peers : List UInt64) : Leader where
  peers := peers
  currentLeader := 0
  membershipCh := Chan.empty
  startLeader := Chan.empty
  stopLeader := Chan.empty
  timer := .unset
  change := .waiting
  leaderTimer := .waiting
  checks := []
  done := false
  events := 0

/-- The keys of `s.peers` become `keys`; a `Snapshot` in progress may see either state of a key. -/
def changePeers (s : Leader) (keys : List UInt64) : Leader :=
  { s with
    peers := keys
    change := match s.change with
      | .snapshot view => .snapshot (view.observe keys)
      | pc => pc }

@[simp] theorem changePeers_leaderTimer (s : Leader) (keys : List UInt64) :
    (s.changePeers keys).leaderTimer = s.leaderTimer := rfl

@[simp] theorem changePeers_stopLeader (s : Leader) (keys : List UInt64) :
    (s.changePeers keys).stopLeader = s.stopLeader := rfl

/-- One step of one goroutine or of its environment: the peer map changes, someone sends on
    `membershipCh`, the parent context is cancelled; the steps of `handleMembershipChange` and of
    `leaderTimer` in program order (`expire` is the passing of fifteen seconds); and the steps of
    the `i`-th check goroutine. -/
inductive Action
  | changePeers (keys : List UInt64)
  | membershipSend
  | cancel
  | changeReturn | changeRecv | changeSnapshot (seen : List UInt64) | changeCompare | changeStore
  | changeBranch | changeSend
  | timerReturn | recvStart | recvStop | expire | recvTimer | timerLoad | timerSend
  | checkDone (i : ℕ) | checkLoad (i : ℕ) | checkSend (i : ℕ)
deriving DecidableEq

/-- The steps of `handleMembershipChange` (leader.go:17-47). -/
def changeStep (cfg : LeaderConfig) (s : Leader) : Action → Option Leader
  | .changeReturn =>
      if s.change = .waiting ∧ s.done = true then some { s with change := .returned } else none
  | .changeRecv =>
      if s.change = .waiting then
        s.membershipCh.recv.map (fun r =>
          { s with
            membershipCh := r.2
            change := .snapshot (.start s.peers)
            events := s.events + 1 })
      else none
  | .changeSnapshot seen =>
      match s.change with
      | .snapshot view =>
          if view.Admits seen then
            some { s with change := .compare (lowest (seen ++ [cfg.id])) }
          else none
      | _ => none
  | .changeCompare =>
      match s.change with
      | .compare low =>
          some { s with change := if s.currentLeader = low then .waiting else .store low }
      | _ => none
  | .changeStore =>
      match s.change with
      | .store low => some { s with currentLeader := low, change := .branch }
      | _ => none
  | .changeBranch =>
      if s.change = .branch then
        some { s with change := if cfg.id = s.currentLeader then .sendStart else .sendStop }
      else none
  | .changeSend =>
      match s.change with
      | .sendStart =>
          (s.startLeader.send ()).map (fun ch => { s with startLeader := ch, change := .waiting })
      | .sendStop =>
          (s.stopLeader.send ()).map (fun ch => { s with stopLeader := ch, change := .waiting })
      | _ => none
  | _ => none

/-- The steps of `leaderTimer` (leader.go:49-76). -/
def timerStep (cfg : LeaderConfig) (s : Leader) : Action → Option Leader
  | .timerReturn =>
      if s.leaderTimer = .waiting ∧ s.done = true then some { s with leaderTimer := .returned }
      else none
  | .recvStart =>
      if s.leaderTimer = .waiting then
        s.startLeader.recv.map (fun r => { s with startLeader := r.2, timer := .armed })
      else none
  | .recvStop =>
      if s.leaderTimer = .waiting then
        s.stopLeader.recv.map (fun r => { s with stopLeader := r.2, timer := .unset })
      else none
  | .expire => if s.timer = .armed then some { s with timer := .expired } else none
  | .recvTimer =>
      if s.leaderTimer = .waiting ∧ s.timer = .expired then
        some { s with leaderTimer := .fired, timer := .spent }
      else none
  | .timerLoad =>
      if s.leaderTimer = .fired then
        if cfg.id ≠ s.currentLeader then some { s with leaderTimer := .sendStop }
        else
          some { s with
            leaderTimer := .waiting
            checks := s.checks ++ [if cfg.debug then .checked else .checking] }
      else none
  | .timerSend =>
      if s.leaderTimer = .sendStop then
        (s.stopLeader.send ()).map (fun ch => { s with stopLeader := ch, leaderTimer := .waiting })
      else none
  | _ => none

/-- The steps of the check goroutines (leader.go:64-73). -/
def checkStep (cfg : LeaderConfig) (s : Leader) : Action → Option Leader
  | .checkDone i =>
      if s.checks[i]? = some .checking then some { s with checks := s.checks.set i .checked }
      else none
  | .checkLoad i =>
      if s.checks[i]? = some .checked then
        some { s with
          checks := s.checks.set i (if cfg.id = s.currentLeader then .sendStart else .returned) }
      else none
  | .checkSend i =>
      if s.checks[i]? = some .sendStart then
        (s.startLeader.send ()).map (fun ch =>
          { s with startLeader := ch, checks := s.checks.set i .returned })
      else none
  | _ => none

/-- One step of the leader goroutines and of what surrounds them. -/
def step (cfg : LeaderConfig) (s : Leader) (a : Action) : Option Leader :=
  match a with
  | .changePeers keys => some (s.changePeers keys)
  | .membershipSend => (s.membershipCh.send ()).map (fun ch => { s with membershipCh := ch })
  | .cancel => some { s with done := true }
  | .changeReturn | .changeRecv | .changeSnapshot _ | .changeCompare | .changeStore
  | .changeBranch | .changeSend => s.changeStep cfg a
  | .timerReturn | .recvStart | .recvStop | .expire | .recvTimer | .timerLoad
  | .timerSend => s.timerStep cfg a
  | .checkDone _ | .checkLoad _ | .checkSend _ => s.checkStep cfg a

/-! ## The steps as a relation

`step` computes; `Step` lists what a step can be, one rule a branch of the source, with everything
the branch requires. The two agree (`step_iff`), so proofs argue by cases on the rules and never
unfold `step`. -/

/-- The rules of the leader goroutines. -/
inductive Step (cfg : LeaderConfig) (s : Leader) : Action → Leader → Prop
  | changePeers (keys : List UInt64) : Step cfg s (.changePeers keys) (s.changePeers keys)
  | membershipSend {ch : Signal} (hch : s.membershipCh.send () = some ch) :
      Step cfg s .membershipSend { s with membershipCh := ch }
  | cancel : Step cfg s .cancel { s with done := true }
  | changeReturn (hpc : s.change = .waiting) (hdone : s.done = true) :
      Step cfg s .changeReturn { s with change := .returned }
  | changeRecv {u : Unit} {ch : Signal} (hpc : s.change = .waiting)
      (hch : s.membershipCh.recv = some (u, ch)) :
      Step cfg s .changeRecv
        { s with
          membershipCh := ch
          change := .snapshot (.start s.peers)
          events := s.events + 1 }
  | changeSnapshot {view : RangeView UInt64} {seen : List UInt64}
      (hpc : s.change = .snapshot view) (hseen : view.Admits seen) :
      Step cfg s (.changeSnapshot seen)
        { s with change := .compare (lowest (seen ++ [cfg.id])) }
  | unchanged {low : UInt64} (hpc : s.change = .compare low) (hlow : s.currentLeader = low) :
      Step cfg s .changeCompare { s with change := .waiting }
  | changed {low : UInt64} (hpc : s.change = .compare low) (hlow : s.currentLeader ≠ low) :
      Step cfg s .changeCompare { s with change := .store low }
  | changeStore {low : UInt64} (hpc : s.change = .store low) :
      Step cfg s .changeStore { s with currentLeader := low, change := .branch }
  | branchStart (hpc : s.change = .branch) (hlead : cfg.id = s.currentLeader) :
      Step cfg s .changeBranch { s with change := .sendStart }
  | branchStop (hpc : s.change = .branch) (hlead : cfg.id ≠ s.currentLeader) :
      Step cfg s .changeBranch { s with change := .sendStop }
  | changeSendStart {ch : Signal} (hpc : s.change = .sendStart)
      (hch : s.startLeader.send () = some ch) :
      Step cfg s .changeSend { s with startLeader := ch, change := .waiting }
  | changeSendStop {ch : Signal} (hpc : s.change = .sendStop)
      (hch : s.stopLeader.send () = some ch) :
      Step cfg s .changeSend { s with stopLeader := ch, change := .waiting }
  | timerReturn (hpc : s.leaderTimer = .waiting) (hdone : s.done = true) :
      Step cfg s .timerReturn { s with leaderTimer := .returned }
  | recvStart {u : Unit} {ch : Signal} (hpc : s.leaderTimer = .waiting)
      (hch : s.startLeader.recv = some (u, ch)) :
      Step cfg s .recvStart { s with startLeader := ch, timer := .armed }
  | recvStop {u : Unit} {ch : Signal} (hpc : s.leaderTimer = .waiting)
      (hch : s.stopLeader.recv = some (u, ch)) :
      Step cfg s .recvStop { s with stopLeader := ch, timer := .unset }
  | expire (htimer : s.timer = .armed) : Step cfg s .expire { s with timer := .expired }
  | recvTimer (hpc : s.leaderTimer = .waiting) (htimer : s.timer = .expired) :
      Step cfg s .recvTimer { s with leaderTimer := .fired, timer := .spent }
  | timerStale (hpc : s.leaderTimer = .fired) (hlead : cfg.id ≠ s.currentLeader) :
      Step cfg s .timerLoad { s with leaderTimer := .sendStop }
  | timerCheck (hpc : s.leaderTimer = .fired) (hlead : cfg.id = s.currentLeader) :
      Step cfg s .timerLoad
        { s with
          leaderTimer := .waiting
          checks := s.checks ++ [if cfg.debug then .checked else .checking] }
  | timerSend {ch : Signal} (hpc : s.leaderTimer = .sendStop)
      (hch : s.stopLeader.send () = some ch) :
      Step cfg s .timerSend { s with stopLeader := ch, leaderTimer := .waiting }
  | checkDone {i : ℕ} (hpc : s.checks[i]? = some .checking) :
      Step cfg s (.checkDone i) { s with checks := s.checks.set i .checked }
  | checkAgain {i : ℕ} (hpc : s.checks[i]? = some .checked) (hlead : cfg.id = s.currentLeader) :
      Step cfg s (.checkLoad i) { s with checks := s.checks.set i .sendStart }
  | checkEnd {i : ℕ} (hpc : s.checks[i]? = some .checked) (hlead : cfg.id ≠ s.currentLeader) :
      Step cfg s (.checkLoad i) { s with checks := s.checks.set i .returned }
  | checkSend {i : ℕ} {ch : Signal} (hpc : s.checks[i]? = some .sendStart)
      (hch : s.startLeader.send () = some ch) :
      Step cfg s (.checkSend i)
        { s with startLeader := ch, checks := s.checks.set i .returned }

variable {cfg : LeaderConfig} {s s' : Leader} {a : Action}

theorem step_of_Step (h : Step cfg s a s') : s.step cfg a = some s' := by
  cases h <;> simp_all [step, changeStep, timerStep, checkStep]

theorem Step_of_changeStep (h : s.changeStep cfg a = some s') : Step cfg s a s' := by
  cases a with
  | changeReturn =>
      simp only [changeStep, Option.ite_none_right_eq_some, Option.some.injEq] at h
      obtain ⟨⟨hpc, hdone⟩, rfl⟩ := h
      exact .changeReturn hpc hdone
  | changeRecv =>
      simp only [changeStep, Option.ite_none_right_eq_some, Option.map_eq_some_iff] at h
      obtain ⟨hpc, ⟨u, ch⟩, hch, rfl⟩ := h
      exact .changeRecv hpc hch
  | changeSnapshot seen =>
      simp only [changeStep] at h
      split at h
      · next view hpc =>
          simp only [Option.ite_none_right_eq_some, Option.some.injEq] at h
          obtain ⟨hseen, rfl⟩ := h
          exact .changeSnapshot hpc hseen
      · exact absurd h (by simp)
  | changeCompare =>
      simp only [changeStep] at h
      split at h
      · next low hpc =>
          simp only [Option.some.injEq] at h
          subst h
          by_cases hlow : s.currentLeader = low
          · rw [if_pos hlow]
            exact .unchanged hpc hlow
          · rw [if_neg hlow]
            exact .changed hpc hlow
      · exact absurd h (by simp)
  | changeStore =>
      simp only [changeStep] at h
      split at h
      · next low hpc =>
          simp only [Option.some.injEq] at h
          subst h
          exact .changeStore hpc
      · exact absurd h (by simp)
  | changeBranch =>
      simp only [changeStep, Option.ite_none_right_eq_some, Option.some.injEq] at h
      obtain ⟨hpc, rfl⟩ := h
      by_cases hlead : cfg.id = s.currentLeader
      · rw [if_pos hlead]
        exact .branchStart hpc hlead
      · rw [if_neg hlead]
        exact .branchStop hpc hlead
  | changeSend =>
      simp only [changeStep] at h
      split at h
      · next hpc =>
          obtain ⟨ch, hch, rfl⟩ := Option.map_eq_some_iff.1 h
          exact .changeSendStart hpc hch
      · next hpc =>
          obtain ⟨ch, hch, rfl⟩ := Option.map_eq_some_iff.1 h
          exact .changeSendStop hpc hch
      · exact absurd h (by simp)
  | _ => exact absurd h (by simp [changeStep])

theorem Step_of_timerStep (h : s.timerStep cfg a = some s') : Step cfg s a s' := by
  cases a with
  | timerReturn =>
      simp only [timerStep, Option.ite_none_right_eq_some, Option.some.injEq] at h
      obtain ⟨⟨hpc, hdone⟩, rfl⟩ := h
      exact .timerReturn hpc hdone
  | recvStart =>
      simp only [timerStep, Option.ite_none_right_eq_some, Option.map_eq_some_iff] at h
      obtain ⟨hpc, ⟨u, ch⟩, hch, rfl⟩ := h
      exact .recvStart hpc hch
  | recvStop =>
      simp only [timerStep, Option.ite_none_right_eq_some, Option.map_eq_some_iff] at h
      obtain ⟨hpc, ⟨u, ch⟩, hch, rfl⟩ := h
      exact .recvStop hpc hch
  | expire =>
      simp only [timerStep, Option.ite_none_right_eq_some, Option.some.injEq] at h
      obtain ⟨htimer, rfl⟩ := h
      exact .expire htimer
  | recvTimer =>
      simp only [timerStep, Option.ite_none_right_eq_some, Option.some.injEq] at h
      obtain ⟨⟨hpc, htimer⟩, rfl⟩ := h
      exact .recvTimer hpc htimer
  | timerLoad =>
      simp only [timerStep, Option.ite_none_right_eq_some] at h
      obtain ⟨hpc, h⟩ := h
      split at h
      · next hlead =>
          simp only [Option.some.injEq] at h
          subst h
          exact .timerStale hpc hlead
      · next hlead =>
          simp only [Option.some.injEq] at h
          subst h
          exact .timerCheck hpc (not_not.1 hlead)
  | timerSend =>
      simp only [timerStep, Option.ite_none_right_eq_some, Option.map_eq_some_iff] at h
      obtain ⟨hpc, ch, hch, rfl⟩ := h
      exact .timerSend hpc hch
  | _ => exact absurd h (by simp [timerStep])

theorem Step_of_checkStep (h : s.checkStep cfg a = some s') : Step cfg s a s' := by
  cases a with
  | checkDone i =>
      simp only [checkStep, Option.ite_none_right_eq_some, Option.some.injEq] at h
      obtain ⟨hpc, rfl⟩ := h
      exact .checkDone hpc
  | checkLoad i =>
      simp only [checkStep, Option.ite_none_right_eq_some, Option.some.injEq] at h
      obtain ⟨hpc, rfl⟩ := h
      by_cases hlead : cfg.id = s.currentLeader
      · rw [if_pos hlead]
        exact .checkAgain hpc hlead
      · rw [if_neg hlead]
        exact .checkEnd hpc hlead
  | checkSend i =>
      simp only [checkStep, Option.ite_none_right_eq_some, Option.map_eq_some_iff] at h
      obtain ⟨hpc, ch, hch, rfl⟩ := h
      exact .checkSend hpc hch
  | _ => exact absurd h (by simp [checkStep])

/-- `step` takes exactly the steps the rules allow. -/
theorem step_iff : s.step cfg a = some s' ↔ Step cfg s a s' := by
  refine ⟨fun h => ?_, step_of_Step⟩
  cases a with
  | changePeers keys =>
      simp only [step, Option.some.injEq] at h
      subst h
      exact .changePeers keys
  | membershipSend =>
      simp only [step, Option.map_eq_some_iff] at h
      obtain ⟨ch, hch, rfl⟩ := h
      exact .membershipSend hch
  | cancel =>
      simp only [step, Option.some.injEq] at h
      subst h
      exact .cancel
  | changeReturn | changeRecv | changeSnapshot | changeCompare | changeStore | changeBranch
  | changeSend => exact Step_of_changeStep h
  | timerReturn | recvStart | recvStop | expire | recvTimer | timerLoad | timerSend =>
      exact Step_of_timerStep h
  | checkDone | checkLoad | checkSend => exact Step_of_checkStep h

/-- The leader goroutines of one node under every sequence of membership changes. -/
def machine (cfg : LeaderConfig) : Machine Leader Action where
  Init s := ∃ peers, s = init peers
  step s a := s.step cfg a

end Leader

end Tunnel.Server
