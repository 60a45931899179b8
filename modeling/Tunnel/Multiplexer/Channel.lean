import Tunnel.Lib.Chan
import Tunnel.Lib.Machine
import Tunnel.Lib.Pool

set_option autoImplicit false

/-! # Closing a shared channel (`multiplexer/channel.go`)

`Channel` lets many goroutines hand streams to one consumer and lets any of them close it. `Put`
sends on `incoming`, which nobody closes; the one `Run` loop moves the values to `outgoing`, and is
the only one to close that; `Close` closes `closer`, which tells `Run` to stop. Three flags, each
set by a compare-and-swap, decide who may start the loop and who may close what.

Any number of calls of `Put`, `Close` and `Run` are in progress at once. Each is a value that says
where it is; the numbers of those at the decisive places, together with the flags, are the whole
argument (`Ledger`). `incoming` has no buffer, so a send on it and the receive are one step
(`handover`). A second close of a channel and a send on a closed one panic; no run gets there.

`handed` records the calls of `Put` whose value was taken, in that order, with the values, and
`received` the values the consumer got. -/

namespace Tunnel.Multiplexer

open Tunnel.Lib

/-- A call `Put(l)`: in its send on `incoming`, or returned. -/
structure PutCall (α : Type) where
  value : α
  returned : Bool

/-- Program point of `Close`: before the compare-and-swap of `closed`; before `close(c.closer)`;
    returned, with its result. -/
inductive ClosePc
  | compare
  | close
  | returned (won : Bool)
deriving DecidableEq

/-- The call is about to close `closer`. -/
def ClosePc.closing : ClosePc → Bool
  | .close => true
  | .compare | .returned _ => false

/-- The call returned `true`. -/
def ClosePc.won : ClosePc → Bool
  | .returned b => b
  | .compare | .close => false

/-- Program point of `Run`: before the compare-and-swap of `started`; in the `select`; at the send
    on `outgoing`; in `closeChannel`, before the compare-and-swap of `chClosed` and before
    `close(c.outgoing)`; returned; returned at once because another `Run` had started. -/
inductive RunPc (α : Type)
  | start
  | select
  | send (x : α)
  | compare
  | close
  | returned
  | refused

/-- A call `Run(ctx)`, and whether its context is cancelled. -/
structure RunCall (α : Type) where
  cancelled : Bool
  pc : RunPc α

namespace RunCall

variable {α : Type}

/-- The call has entered its loop, at whatever point it is now. -/
def entered (r : RunCall α) : Bool :=
  match r.pc with
  | .start | .refused => false
  | .select | .send _ | .compare | .close | .returned => true

/-- The call may still send on `outgoing` or decide to close it. -/
def running (r : RunCall α) : Bool :=
  match r.pc with
  | .select | .send _ | .compare => true
  | .start | .close | .returned | .refused => false

/-- The call is about to close `outgoing`. -/
def closing (r : RunCall α) : Bool :=
  match r.pc with
  | .close => true
  | _ => false

/-- The value that the call received and has not sent on. -/
def inHand (r : RunCall α) : Option α :=
  match r.pc with
  | .send x => some x
  | _ => none

theorem inHand_of_not_running (r : RunCall α) (h : r.running = false) : r.inHand = none := by
  unfold running at h
  unfold inHand
  split at h <;> simp_all

end RunCall

/-- The runtime panics that closing a channel can lead to. -/
inductive ChannelPanic
  | closeOfClosedChannel
  | sendOnClosedChannel
deriving DecidableEq

/-- The state of a `multiplexer.Channel` and of the calls on it. The flags are the `int32` values,
    which are 0 or 1. -/
structure Channel (α : Type) where
  outgoing : Chan α 32
  outgoingClosed : Bool
  closerClosed : Bool
  closed : Bool
  chClosed : Bool
  started : Bool
  puts : List (PutCall α)
  closes : List ClosePc
  runs : List (RunCall α)
  handed : List (ℕ × α)
  received : List α
  panic : Option ChannelPanic

namespace Channel

variable {α : Type}

/-- `NewChannel` -/
def init : Channel α where
  outgoing := Chan.empty
  outgoingClosed := false
  closerClosed := false
  closed := false
  chClosed := false
  started := false
  puts := []
  closes := []
  runs := []
  handed := []
  received := []
  panic := none

/-- A step: a call begins; the context of a `Run` is cancelled; the `i`-th `Close` or the `j`-th
    `Run` does its next operation; the `select` of the `j`-th `Run` takes `ctx.Done()`, or `closer`,
    or the value of the `i`-th `Put`; the consumer receives from `Incoming()`. -/
inductive Action (α : Type)
  | put (x : α)
  | close
  | run
  | cancel (j : ℕ)
  | closeStep (i : ℕ)
  | runStep (j : ℕ)
  | takeDone (j : ℕ)
  | takeCloser (j : ℕ)
  | handover (i j : ℕ)
  | receive

/-- The next operation of the `i`-th `Close` (channel.go:39-45). -/
def closeStep (c : Channel α) (i : ℕ) : ClosePc → Option (Channel α)
  | .compare =>
      if c.closed = false then some { c with closed := true, closes := c.closes.set i .close }
      else some { c with closes := c.closes.set i (.returned false) }
  | .close =>
      if c.closerClosed = true then some { c with panic := some .closeOfClosedChannel }
      else some { c with closerClosed := true, closes := c.closes.set i (.returned true) }
  | .returned _ => none

/-- The next operation of the `j`-th `Run` outside its `select` (channel.go:47-51 and 57-74). -/
def runStep (c : Channel α) (j : ℕ) (r : RunCall α) : Option (Channel α) :=
  match r.pc with
  | .start =>
      if c.started = false then
        some { c with started := true, runs := c.runs.set j { r with pc := .select } }
      else some { c with runs := c.runs.set j { r with pc := .refused } }
  | .send x =>
      if c.outgoingClosed = true then some { c with panic := some .sendOnClosedChannel }
      else (c.outgoing.send x).map (fun ch =>
        { c with outgoing := ch, runs := c.runs.set j { r with pc := .select } })
  | .compare =>
      if c.chClosed = false then
        some { c with chClosed := true, runs := c.runs.set j { r with pc := .close } }
      else some { c with runs := c.runs.set j { r with pc := .returned } }
  | .close =>
      if c.outgoingClosed = true then some { c with panic := some .closeOfClosedChannel }
      else some { c with outgoingClosed := true, runs := c.runs.set j { r with pc := .returned } }
  | .select | .returned | .refused => none

/-- What the `select` of a `Run` at its select does with the cases other than `incoming`. -/
def stopRun (c : Channel α) (j : ℕ) (r : RunCall α) (ready : Bool) : Option (Channel α) :=
  match r.pc with
  | .select =>
      if ready = true then some { c with runs := c.runs.set j { r with pc := .compare } } else none
  | _ => none

/-- One step; none after a panic. -/
def step (c : Channel α) (a : Action α) : Option (Channel α) :=
  if c.panic.isSome = true then none
  else match a with
    | .put x => some { c with puts := c.puts ++ [⟨x, false⟩] }
    | .close => some { c with closes := c.closes ++ [.compare] }
    | .run => some { c with runs := c.runs ++ [⟨false, .start⟩] }
    | .cancel j =>
        c.runs[j]?.map (fun r => { c with runs := c.runs.set j { r with cancelled := true } })
    | .closeStep i => c.closes[i]?.bind (c.closeStep i)
    | .runStep j => c.runs[j]?.bind (c.runStep j)
    | .takeDone j => c.runs[j]?.bind (fun r => c.stopRun j r r.cancelled)
    | .takeCloser j => c.runs[j]?.bind (fun r => c.stopRun j r c.closerClosed)
    | .handover i j =>
        match c.puts[i]?, c.runs[j]? with
        | some ⟨x, false⟩, some ⟨cancelled, .select⟩ =>
            some { c with
              puts := c.puts.set i ⟨x, true⟩
              runs := c.runs.set j ⟨cancelled, .send x⟩
              handed := c.handed ++ [(i, x)] }
        | _, _ => none
    | .receive =>
        c.outgoing.recv.map (fun next =>
          { c with outgoing := next.2, received := c.received ++ [next.1] })

/-- A `multiplexer.Channel` under every number of concurrent calls. -/
def machine (α : Type) : Machine (Channel α) (Action α) where
  Init c := c = init
  step := step

/-! ## What a step can do -/

/-- The steps, one rule each. `moveRun` covers what a `Run` does to itself only: cancellation, a
    refused start, a `select` that ends the loop, and a `closeChannel` that finds the channel
    closed. -/
inductive Step (c : Channel α) : Channel α → Prop
  | put (x : α) : Step c { c with puts := c.puts ++ [⟨x, false⟩] }
  | close : Step c { c with closes := c.closes ++ [.compare] }
  | run : Step c { c with runs := c.runs ++ [⟨false, .start⟩] }
  | closeWon {i : ℕ} (hi : c.closes[i]? = some .compare) (hclosed : c.closed = false) :
      Step c { c with closed := true, closes := c.closes.set i .close }
  | closeLost {i : ℕ} (hi : c.closes[i]? = some .compare) (hclosed : c.closed = true) :
      Step c { c with closes := c.closes.set i (.returned false) }
  | closeCloser {i : ℕ} (hi : c.closes[i]? = some .close) (hopen : c.closerClosed = false) :
      Step c { c with closerClosed := true, closes := c.closes.set i (.returned true) }
  | closerTwice {i : ℕ} (hi : c.closes[i]? = some .close) (hclosed : c.closerClosed = true) :
      Step c { c with panic := some .closeOfClosedChannel }
  | enter {j : ℕ} {r : RunCall α} (hj : c.runs[j]? = some r) (hr : r.pc = .start)
      (hstarted : c.started = false) :
      Step c { c with started := true, runs := c.runs.set j { r with pc := .select } }
  | moveRun {j : ℕ} {r r' : RunCall α} (hj : c.runs[j]? = some r)
      (hentered : r'.entered = r.entered)
      (hrunning : r'.running = true → r.running = true) (hclosing : r'.closing = r.closing)
      (hhand : r'.inHand = r.inHand) : Step c { c with runs := c.runs.set j r' }
  | handover {i j : ℕ} {x : α} {b : Bool} (hi : c.puts[i]? = some ⟨x, false⟩)
      (hj : c.runs[j]? = some ⟨b, .select⟩) :
      Step c { c with
        puts := c.puts.set i ⟨x, true⟩
        runs := c.runs.set j ⟨b, .send x⟩
        handed := c.handed ++ [(i, x)] }
  | sendOn {j : ℕ} {r : RunCall α} {x : α} {ch : Chan α 32} (hj : c.runs[j]? = some r)
      (hr : r.pc = .send x) (hopen : c.outgoingClosed = false)
      (hsend : c.outgoing.send x = some ch) :
      Step c { c with outgoing := ch, runs := c.runs.set j { r with pc := .select } }
  | sendPanics {j : ℕ} {r : RunCall α} {x : α} (hj : c.runs[j]? = some r) (hr : r.pc = .send x)
      (hclosed : c.outgoingClosed = true) : Step c { c with panic := some .sendOnClosedChannel }
  | closeChannel {j : ℕ} {r : RunCall α} (hj : c.runs[j]? = some r) (hr : r.pc = .compare)
      (hopen : c.chClosed = false) :
      Step c { c with chClosed := true, runs := c.runs.set j { r with pc := .close } }
  | closeOutgoing {j : ℕ} {r : RunCall α} (hj : c.runs[j]? = some r) (hr : r.pc = .close)
      (hopen : c.outgoingClosed = false) :
      Step c { c with outgoingClosed := true, runs := c.runs.set j { r with pc := .returned } }
  | outgoingTwice {j : ℕ} {r : RunCall α} (hj : c.runs[j]? = some r) (hr : r.pc = .close)
      (hclosed : c.outgoingClosed = true) : Step c { c with panic := some .closeOfClosedChannel }
  | receive {x : α} {ch : Chan α 32} (hrecv : c.outgoing.recv = some (x, ch)) :
      Step c { c with outgoing := ch, received := c.received ++ [x] }

variable {c c' : Channel α} {a : Action α}

theorem closeStep_rule {i : ℕ} {pc : ClosePc} (hi : c.closes[i]? = some pc)
    (h : c.closeStep i pc = some c') : Step c c' := by
  cases pc with
  | compare =>
      simp only [closeStep] at h
      split at h
      · next hclosed => cases h; exact .closeWon hi hclosed
      · next hclosed => cases h; exact .closeLost hi (by simpa using hclosed)
  | close =>
      simp only [closeStep] at h
      split at h
      · next hclosed => cases h; exact .closerTwice hi hclosed
      · next hclosed => cases h; exact .closeCloser hi (by simpa using hclosed)
  | returned won => cases h

theorem runStep_rule {j : ℕ} {r : RunCall α} (hj : c.runs[j]? = some r)
    (h : c.runStep j r = some c') : Step c c' := by
  unfold runStep at h
  split at h
  · next hr =>
      split at h
      · next hstarted => cases h; exact .enter hj hr hstarted
      · cases h
        refine .moveRun hj ?_ ?_ ?_ ?_ <;>
          simp [RunCall.entered, RunCall.running, RunCall.closing, RunCall.inHand, hr]
  · next x hr =>
      split at h
      · next hclosed => cases h; exact .sendPanics hj hr hclosed
      · next hopen =>
          obtain ⟨ch, hsend, rfl⟩ := Option.map_eq_some_iff.1 h
          exact .sendOn hj hr (by simpa using hopen) hsend
  · next hr =>
      split at h
      · next hopen => cases h; exact .closeChannel hj hr hopen
      · cases h
        refine .moveRun hj ?_ ?_ ?_ ?_ <;>
          simp [RunCall.entered, RunCall.running, RunCall.closing, RunCall.inHand, hr]
  · next hr =>
      split at h
      · next hclosed => cases h; exact .outgoingTwice hj hr hclosed
      · next hopen => cases h; exact .closeOutgoing hj hr (by simpa using hopen)
  all_goals cases h

theorem stopRun_rule {j : ℕ} {r : RunCall α} {ready : Bool} (hj : c.runs[j]? = some r)
    (h : c.stopRun j r ready = some c') : Step c c' := by
  unfold stopRun at h
  split at h
  · next hr =>
      split at h
      · cases h
        refine .moveRun hj ?_ ?_ ?_ ?_ <;>
          simp [RunCall.entered, RunCall.running, RunCall.closing, RunCall.inHand, hr]
      · cases h
  · cases h

theorem step_rule (h : c.step a = some c') : Step c c' := by
  unfold step at h
  split at h
  · cases h
  cases a with
  | put x => cases h; exact .put x
  | close => cases h; exact .close
  | run => cases h; exact .run
  | cancel j =>
      obtain ⟨r, hj, rfl⟩ := Option.map_eq_some_iff.1 h
      exact .moveRun hj rfl id rfl rfl
  | closeStep i =>
      obtain ⟨pc, hi, hpc⟩ := Option.bind_eq_some_iff.1 h
      exact closeStep_rule hi hpc
  | runStep j =>
      obtain ⟨r, hj, hr⟩ := Option.bind_eq_some_iff.1 h
      exact runStep_rule hj hr
  | takeDone j =>
      obtain ⟨r, hj, hr⟩ := Option.bind_eq_some_iff.1 h
      exact stopRun_rule hj hr
  | takeCloser j =>
      obtain ⟨r, hj, hr⟩ := Option.bind_eq_some_iff.1 h
      exact stopRun_rule hj hr
  | handover i j =>
      simp only at h
      split at h
      · next x b hi hj => cases h; exact .handover hi hj
      · cases h
  | receive =>
      obtain ⟨⟨x, ch⟩, hrecv, rfl⟩ := Option.map_eq_some_iff.1 h
      exact .receive hrecv

/-! ## Who may close what -/

/-- What the flags say about the calls. Each `closed` flag that is set has its close still to come
    or behind it; at most one `Run` entered, and it runs only while it has not set `chClosed`. -/
structure Ledger (c : Channel α) : Prop where
  calm : c.panic = none
  closers : c.closes.countP ClosePc.closing + c.closerClosed.toNat = c.closed.toNat
  winners : c.closes.countP ClosePc.won = c.closerClosed.toNat
  losers : .returned false ∈ c.closes → c.closed = true
  entered : c.runs.countP RunCall.entered = c.started.toNat
  running : c.runs.countP RunCall.running + c.chClosed.toNat ≤ c.started.toNat
  closing : c.runs.countP RunCall.closing + c.outgoingClosed.toNat = c.chClosed.toNat

theorem ledger_init : Ledger (init : Channel α) where
  calm := rfl
  closers := rfl
  winners := rfl
  losers := by simp [init]
  entered := rfl
  running := Nat.le_refl 0
  closing := rfl

/-- The `Close` that is about to close `closer` is the first to do so. -/
theorem Ledger.closer_open (hc : Ledger c) {i : ℕ} (hi : c.closes[i]? = some .close) :
    c.closerClosed = false := by
  have hpos : 0 < c.closes.countP ClosePc.closing :=
    List.countP_pos_iff.2 ⟨.close, List.mem_of_getElem? hi, rfl⟩
  have hle := Bool.toNat_le c.closed
  have hsum := hc.closers
  exact Bool.toNat_eq_zero.1 (by omega)

/-- While a `Run` may still send, or is about to close `outgoing`, that channel is open. -/
theorem Ledger.outgoing_open (hc : Ledger c) {j : ℕ} {r : RunCall α} (hj : c.runs[j]? = some r)
    (hr : r.running = true ∨ r.closing = true) : c.outgoingClosed = false := by
  have hrun := hc.running
  have hclose := hc.closing
  have hstarted := Bool.toNat_le c.started
  have hch := Bool.toNat_le c.chClosed
  rcases hr with hr | hr
  · have hpos : 0 < c.runs.countP RunCall.running :=
      List.countP_pos_iff.2 ⟨r, List.mem_of_getElem? hj, hr⟩
    exact Bool.toNat_eq_zero.1 (by omega)
  · have hpos : 0 < c.runs.countP RunCall.closing :=
      List.countP_pos_iff.2 ⟨r, List.mem_of_getElem? hj, hr⟩
    exact Bool.toNat_eq_zero.1 (by omega)

/-- At most one `Run` is in its loop. -/
theorem Ledger.running_le_one (hc : Ledger c) : c.runs.countP RunCall.running ≤ 1 := by
  have hrun := hc.running
  have hstarted := Bool.toNat_le c.started
  omega

/-- The move of one `Close` keeps the ledger if the flags change with what it is about to do and
    what it returns. -/
theorem Ledger.setClose (hc : Ledger c) {i : ℕ} {pc pc' : ClosePc} (hi : c.closes[i]? = some pc)
    {closed closerClosed : Bool}
    (hclosers : pc'.closing.toNat + closerClosed.toNat + c.closed.toNat
      = pc.closing.toNat + c.closerClosed.toNat + closed.toNat)
    (hwinners : pc'.won.toNat + c.closerClosed.toNat = pc.won.toNat + closerClosed.toNat)
    (hlosers : .returned false ∈ c.closes.set i pc' → closed = true) :
    Ledger { c with
      closed := closed, closerClosed := closerClosed, closes := c.closes.set i pc' } := by
  have hclosing := countP_set_add ClosePc.closing hi pc'
  have hwon := countP_set_add ClosePc.won hi pc'
  have hsum := hc.closers
  have hwins := hc.winners
  refine { hc with closers := ?_, winners := ?_, losers := hlosers }
  · simp only; omega
  · simp only; omega

/-- The move of one `Run` keeps the ledger if the flags change with where it goes. -/
theorem Ledger.setRun (hc : Ledger c) {j : ℕ} {r r' : RunCall α} (hj : c.runs[j]? = some r)
    {started chClosed outgoingClosed : Bool}
    (hentered : r'.entered.toNat + c.started.toNat = r.entered.toNat + started.toNat)
    (hrunning : r'.running.toNat + chClosed.toNat + c.started.toNat
      ≤ r.running.toNat + c.chClosed.toNat + started.toNat)
    (hclosing : r'.closing.toNat + outgoingClosed.toNat + c.chClosed.toNat
      = r.closing.toNat + c.outgoingClosed.toNat + chClosed.toNat) :
    Ledger { c with
      started := started, chClosed := chClosed, outgoingClosed := outgoingClosed
      runs := c.runs.set j r' } := by
  have hent := countP_set_add RunCall.entered hj r'
  have hrun := countP_set_add RunCall.running hj r'
  have hcls := countP_set_add RunCall.closing hj r'
  have hentc := hc.entered
  have hrunc := hc.running
  have hclsc := hc.closing
  refine { hc with entered := ?_, running := ?_, closing := ?_ }
  · simp only; omega
  · simp only; omega
  · simp only; omega

/-- A `Run` that stays on the same side of every flag keeps the ledger. -/
theorem Ledger.moveRun (hc : Ledger c) {j : ℕ} {r r' : RunCall α} (hj : c.runs[j]? = some r)
    (hentered : r'.entered = r.entered) (hrunning : r'.running = true → r.running = true)
    (hclosing : r'.closing = r.closing) : Ledger { c with runs := c.runs.set j r' } := by
  have hmono : r'.running.toNat ≤ r.running.toNat := by
    cases hr' : r'.running with
    | false => exact Nat.zero_le _
    | true => simp [hrunning hr']
  refine hc.setRun hj ?_ ?_ ?_
  · rw [hentered]
  · omega
  · rw [hclosing]

theorem Step.ledger (h : Step c c') (hc : Ledger c) : Ledger c' := by
  cases h with
  | put x => exact { hc with }
  | close =>
      refine { hc with closers := ?_, winners := ?_, losers := ?_ }
      · simpa [ClosePc.closing] using hc.closers
      · simpa [ClosePc.won] using hc.winners
      · simpa using hc.losers
  | run =>
      refine { hc with entered := ?_, running := ?_, closing := ?_ }
      · simpa [RunCall.entered] using hc.entered
      · simpa [RunCall.running] using hc.running
      · simpa [RunCall.closing] using hc.closing
  | closeWon hi hclosed =>
      refine hc.setClose hi ?_ ?_ (fun _ => rfl)
      · simp [ClosePc.closing, hclosed, Nat.add_comm]
      · simp [ClosePc.won]
  | closeLost hi hclosed =>
      exact hc.setClose hi rfl rfl (fun _ => hclosed)
  | closeCloser hi hopen =>
      refine hc.setClose hi ?_ ?_ ?_
      · simp [ClosePc.closing, hopen]
      · simp [ClosePc.won, hopen]
      · intro hmem
        rcases List.mem_or_eq_of_mem_set hmem with hmem | heq
        · exact hc.losers hmem
        · cases heq
  | closerTwice hi hclosed => exact absurd hclosed (by simp [hc.closer_open hi])
  | enter hj hr hstarted =>
      refine hc.setRun hj ?_ ?_ ?_
      · simp [RunCall.entered, hr, hstarted]
      · simp [RunCall.running, hr, hstarted, Nat.add_comm]
      · simp [RunCall.closing, hr]
  | moveRun hj hentered hrunning hclosing hhand => exact hc.moveRun hj hentered hrunning hclosing
  | @handover i j x b hi hj =>
      have hmove : Ledger { c with runs := c.runs.set j ⟨b, .send x⟩ } :=
        hc.moveRun hj rfl (fun _ => rfl) rfl
      exact { hmove with }
  | @sendOn j r x ch hj hr hopen hsend =>
      have hmove : Ledger { c with runs := c.runs.set j { r with pc := .select } } := by
        refine hc.moveRun hj ?_ ?_ ?_
        · simp [RunCall.entered, hr]
        · simp [RunCall.running, hr]
        · simp [RunCall.closing, hr]
      exact { hmove with }
  | sendPanics hj hr hclosed =>
      exact absurd hclosed (by simp [hc.outgoing_open hj (Or.inl (by simp [RunCall.running, hr]))])
  | closeChannel hj hr hopen =>
      refine hc.setRun hj ?_ ?_ ?_
      · simp [RunCall.entered, hr]
      · simp [RunCall.running, hr, hopen]
      · simp [RunCall.closing, hr, hopen, Nat.add_comm]
  | closeOutgoing hj hr hopen =>
      refine hc.setRun hj ?_ ?_ ?_
      · simp [RunCall.entered, hr]
      · simp [RunCall.running, hr]
      · simp [RunCall.closing, hr, hopen]
  | outgoingTwice hj hr hclosed =>
      exact absurd hclosed (by simp [hc.outgoing_open hj (Or.inr (by simp [RunCall.closing, hr]))])
  | receive hrecv => exact { hc with }

/-! ## What the consumer gets -/

/-- Every value taken from a `Put` was received, is in the buffer, or is in the hand of the `Run`,
    in the order in which they were taken; and each returned `Put` is recorded once. -/
structure Delivery (c : Channel α) : Prop where
  order : c.received ++ c.outgoing.buf ++ c.runs.filterMap RunCall.inHand = c.handed.map Prod.snd
  once : (c.handed.map Prod.fst).Nodup
  completed : ∀ i x, (i, x) ∈ c.handed ↔ c.puts[i]? = some ⟨x, true⟩

theorem delivery_init : Delivery (init : Channel α) where
  order := rfl
  once := List.nodup_nil
  completed := by simp [init]

/-- The hand of the running `Run` is all that is in hand. -/
theorem Ledger.inHand_eq (hc : Ledger c) {j : ℕ} {r : RunCall α} (hj : c.runs[j]? = some r)
    (hr : r.running = true) : c.runs.filterMap RunCall.inHand = r.inHand.toList :=
  filterMap_eq_of_countP_le_one RunCall.inHand_of_not_running hc.running_le_one hj hr

/-- The `Put` whose value is taken was not recorded before. -/
theorem Delivery.fresh (hd : Delivery c) {i : ℕ} {x : α} (hi : c.puts[i]? = some ⟨x, false⟩) :
    i ∉ c.handed.map Prod.fst := by
  intro hmem
  obtain ⟨⟨k, y⟩, hky, rfl⟩ := List.mem_map.1 hmem
  have hreturned := (hd.completed k y).1 hky
  rw [hi] at hreturned
  simp at hreturned

theorem Step.delivery (h : Step c c') (hc : Ledger c) (hd : Delivery c) : Delivery c' := by
  have hc' : Ledger c' := h.ledger hc
  cases h with
  | put x =>
      refine { hd with completed := fun i y => ?_ }
      rw [hd.completed, List.getElem?_append]
      split
      · rfl
      · next hi =>
          rw [List.getElem?_eq_none (by omega)]
          cases i - c.puts.length <;> simp
  | run =>
      have hnone : (⟨false, .start⟩ : RunCall α).inHand = none := rfl
      refine { hd with order := ?_ }
      simpa [List.filterMap_cons, hnone] using hd.order
  | enter hj hr hstarted =>
      refine { hd with order := ?_ }
      rw [filterMap_set_of_eq hj (by simp [RunCall.inHand, hr])]
      exact hd.order
  | moveRun hj hentered hrunning hclosing hhand =>
      refine { hd with order := ?_ }
      rw [filterMap_set_of_eq hj hhand]
      exact hd.order
  | @handover i j x b hi hj =>
      -- the loop had nothing in hand before, and has `x` now
      have hbefore := hc.inHand_eq hj rfl
      have hafter : (c.runs.set j ⟨b, .send x⟩).filterMap RunCall.inHand = [x] :=
        hc'.inHand_eq (List.getElem?_set_self (List.getElem?_eq_some_iff.1 hj).1) rfl
      have horder := hd.order
      rw [hbefore] at horder
      refine ⟨?_, ?_, fun k y => ?_⟩
      · simp only [hafter, List.map_append, List.map_cons, List.map_nil, ← horder]
        simp [RunCall.inHand]
      · simp only [List.map_append, List.map_cons, List.map_nil]
        refine List.nodup_append.2 ⟨hd.once, by simp, ?_⟩
        rintro k hk _ hk' rfl
        rw [List.mem_singleton] at hk'
        exact hd.fresh hi (hk' ▸ hk)
      · have hlt := (List.getElem?_eq_some_iff.1 hi).1
        by_cases hik : i = k
        · subst hik
          have hnot : (i, y) ∉ c.handed := fun hmem =>
            hd.fresh hi (List.mem_map.2 ⟨(i, y), hmem, rfl⟩)
          simp [hnot, List.getElem?_set_self hlt, eq_comm]
        · simp [List.getElem?_set_ne hik, hd.completed, Ne.symm hik]
  | @sendOn j r x ch hj hr hopen hsend =>
      -- what was in hand is now last in the buffer
      have hbefore := hc.inHand_eq hj (by simp [RunCall.running, hr])
      have hafter : (c.runs.set j { r with pc := .select }).filterMap RunCall.inHand = [] :=
        hc'.inHand_eq (List.getElem?_set_self (List.getElem?_eq_some_iff.1 hj).1) rfl
      have horder := hd.order
      rw [hbefore] at horder
      refine { hd with order := ?_ }
      simp only [hafter, (Chan.send_eq_some.1 hsend).2, ← horder]
      simp [RunCall.inHand, hr]
  | closeChannel hj hr hopen =>
      refine { hd with order := ?_ }
      rw [filterMap_set_of_eq hj (by simp [RunCall.inHand, hr])]
      exact hd.order
  | closeOutgoing hj hr hopen =>
      refine { hd with order := ?_ }
      rw [filterMap_set_of_eq hj (by simp [RunCall.inHand, hr])]
      exact hd.order
  | receive hrecv =>
      refine { hd with order := ?_ }
      simpa [Chan.recv_eq_some.1 hrecv] using hd.order
  | close => exact { hd with }
  | closeWon hi hclosed => exact { hd with }
  | closeLost hi hclosed => exact { hd with }
  | closeCloser hi hopen => exact { hd with }
  | closerTwice hi hclosed => exact { hd with }
  | sendPanics hj hr hclosed => exact { hd with }
  | outgoingTwice hj hr hclosed => exact { hd with }

theorem ledger_delivery (h : (machine α).Reachable c) : Ledger c ∧ Delivery c := by
  refine Machine.Reachable.invariant (I := fun c => Ledger c ∧ Delivery c) h ?_ ?_
  · rintro c rfl
    exact ⟨ledger_init, delivery_init⟩
  · intro c a c' hI (hstep : c.step a = some c')
    have hrule := step_rule hstep
    exact ⟨hrule.ledger hI.1, hrule.delivery hI.1 hI.2⟩

/-- Once every `Close` has returned, and there was one, exactly one returned `true`. -/
theorem Ledger.one_winner (hc : Ledger c) (hne : c.closes ≠ [])
    (hall : ∀ pc ∈ c.closes, ∃ won, pc = .returned won) :
    c.closes.countP ClosePc.won = 1 := by
  have hclosing : c.closes.countP ClosePc.closing = 0 := by
    refine List.countP_eq_zero.2 fun pc hpc => ?_
    obtain ⟨won, rfl⟩ := hall pc hpc
    simp [ClosePc.closing]
  have hclosed : c.closed = true := by
    obtain ⟨pc, hpc⟩ := List.exists_mem_of_ne_nil _ hne
    obtain ⟨won, rfl⟩ := hall pc hpc
    cases won with
    | false => exact hc.losers hpc
    | true =>
        have hpos : 0 < c.closes.countP ClosePc.won := List.countP_pos_iff.2 ⟨_, hpc, rfl⟩
        have hsum := hc.closers
        have hwinners := hc.winners
        have hle := Bool.toNat_le c.closed
        exact Bool.toNat_eq_one.1 (by omega)
  have hsum := hc.closers
  rw [hclosing, hclosed, Bool.toNat_true, Nat.zero_add] at hsum
  rw [hc.winners, hsum]

/-- **Closing is safe and delivery is in order.** Whatever calls run concurrently: no channel is
    closed twice and nothing is sent on `outgoing` after its close (these are the panics of the
    model); at most one `Run` ever enters its loop; no two calls of `Close` return `true`, and once
    all have returned exactly one did; and the consumer received a prefix of the values handed over,
    each by one `Put` that returned and every such `Put` once. -/
theorem channel_safe_and_ordered (h : (machine α).Reachable c) :
    c.panic = none ∧ c.runs.countP RunCall.entered ≤ 1 ∧ c.closes.countP ClosePc.won ≤ 1 ∧
      (c.closes ≠ [] → (∀ pc ∈ c.closes, ∃ won, pc = .returned won) →
        c.closes.countP ClosePc.won = 1) ∧
      c.received <+: c.handed.map Prod.snd ∧ (c.handed.map Prod.fst).Nodup ∧
      ∀ i x, (i, x) ∈ c.handed ↔ c.puts[i]? = some ⟨x, true⟩ := by
  obtain ⟨hc, hd⟩ := ledger_delivery h
  refine ⟨hc.calm, ?_, ?_, hc.one_winner, ?_, hd.once, hd.completed⟩
  · rw [hc.entered]
    exact Bool.toNat_le c.started
  · rw [hc.winners]
    exact Bool.toNat_le c.closerClosed
  · rw [← hd.order, List.append_assoc]
    exact List.prefix_append _ _

/-- Two calls of `Run` and of `Close` and two of `Put`; the consumer takes one value. -/
def exampleRun : List (Action ℕ) :=
  [.run, .run, .put 7, .put 8, .close, .close, .runStep 1, .runStep 0, .handover 1 1, .runStep 1,
    .handover 0 1, .closeStep 1, .closeStep 0, .runStep 1, .closeStep 1, .receive, .takeCloser 1,
    .runStep 1, .runStep 1]

theorem channel_safe_and_ordered_example : ∃ c : Channel ℕ, (machine ℕ).Reachable c ∧
    c.closes.countP ClosePc.won = 1 ∧ c.outgoingClosed = true ∧ c.received = [8] ∧
    c.received <+: c.handed.map Prod.snd := by
  obtain ⟨c, hreach, hclosed, hrecv, hne, hall⟩ := (machine ℕ).reachable_of_exec_any rfl exampleRun
    (P := fun c => c.outgoingClosed = true ∧ c.received = [8] ∧ c.closes ≠ [] ∧
      c.closes = [.returned false, .returned true]) (by decide)
  have hsafe := channel_safe_and_ordered hreach
  refine ⟨c, hreach, hsafe.2.2.2.1 hne ?_, hclosed, hrecv, hsafe.2.2.2.2.1⟩
  rw [hall]
  simp

end Channel

end Tunnel.Multiplexer
