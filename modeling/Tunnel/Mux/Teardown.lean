import Tunnel.Mux.Sound

set_option autoImplicit false

/-! # How a session ends (`mux/yamux.go`, `mux/mplex.go`, `mux/quic.go`)

The end of a session can come from `Bye`, called by the server or by a `Start` or `Null` of its own,
or from the other side. `channel.Close` picks one `Bye` among those that run at once, and that one
closes the session. When there is nothing left to do (`AtRest`), each call is at its end, and the
results read off what its place means. -/

namespace Tunnel.Mux.MuxPeer

open Tunnel.Lib Tunnel.Multiplexer

variable {s : MuxPeer}

/-! ## At rest -/

/-- What the code may do by itself: the operations of the calls, of the loop, of the consumer and of
    the library that announces the end of the session. The rest is up to others: calls, the context,
    the streams and the end of the session, and the first bytes of a stream. A handshake on a
    session that is over fails. -/
def moves (s : MuxPeer) : List Action :=
  (List.range s.accepts.length).flatMap (fun i => [.accept i, .acceptErr i]) ++
  (List.range s.byes.length).map Action.byeStep ++
  (if s.ended = true then (List.range s.greetings.length).map (Action.greet · false) else []) ++
  (List.range s.channel.runs.length).flatMap (fun j =>
    .channel (.runStep j) :: .channel (.takeDone j) :: .channel (.takeCloser j) ::
      (List.range s.channel.puts.length).map (fun i => .channel (.handover i j))) ++
  [.channel .receive, .announce]

/-- Nothing is left to do. -/
def AtRest (s : MuxPeer) : Prop := ∀ a ∈ s.moves, (s.step a).isNone = true

instance (s : MuxPeer) : Decidable s.AtRest := inferInstanceAs (Decidable (∀ a ∈ s.moves, _))

variable {i k : ℕ}

theorem accept_mem_moves {a : Acceptor} (hi : s.accepts[i]? = some a) :
    .accept i ∈ s.moves ∧ .acceptErr i ∈ s.moves := by
  have hlt := (List.getElem?_eq_some_iff.1 hi).1
  simp [moves, hlt]

theorem byeStep_mem_moves {pc : ByePc} (hk : s.byes[k]? = some pc) : .byeStep k ∈ s.moves := by
  have hlt := (List.getElem?_eq_some_iff.1 hk).1
  simp [moves, hlt]

theorem greet_mem_moves {g : Greeting} (hi : s.greetings[i]? = some g) (hended : s.ended = true) :
    .greet i false ∈ s.moves := by
  have hlt := (List.getElem?_eq_some_iff.1 hi).1
  simp [moves, hlt, hended]

theorem run_mem_moves {r : RunCall ℕ} (hi : s.channel.runs[i]? = some r) :
    .channel (.runStep i) ∈ s.moves ∧ .channel (.takeDone i) ∈ s.moves ∧
      .channel (.takeCloser i) ∈ s.moves := by
  have hlt := (List.getElem?_eq_some_iff.1 hi).1
  simp [moves, hlt]

theorem receive_mem_moves : .channel .receive ∈ s.moves := by
  simp [moves]

theorem handover_mem_moves {p : PutCall ℕ} {r : RunCall ℕ} (hk : s.channel.puts[k]? = some p)
    (hi : s.channel.runs[i]? = some r) : .channel (.handover k i) ∈ s.moves := by
  have hlt := (List.getElem?_eq_some_iff.1 hi).1
  have hlt' := (List.getElem?_eq_some_iff.1 hk).1
  simp [moves, hlt, hlt']

/-- An operation that is enabled is not a move of a session at rest. -/
theorem AtRest.not_mem_moves (hrest : s.AtRest) {a : Action} (h : (s.step a).isSome = true) :
    a ∉ s.moves := by
  intro hmem
  have hnone := hrest a hmem
  rw [Option.isNone_iff_eq_none] at hnone
  rw [hnone] at h
  cases h

section Rest

variable (hs : Sound s) (hrest : s.AtRest)
include hs hrest

theorem bye_returned {pc : ByePc} (hk : s.byes[k]? = some pc) : pc = .returned := by
  by_contra hpc
  refine hrest.not_mem_moves ?_ (byeStep_mem_moves hk)
  have hstep : s.step (.byeStep k) = s.byeStep k pc := by
    simp [step, hs.timeouts.calm, hk]
  rw [hstep]
  cases pc with
  | close =>
      have hlt := (List.getElem?_eq_some_iff.1 hk).1
      rw [hs.paired] at hlt
      obtain ⟨pc, hpc⟩ : ∃ pc, s.channel.closes[k]? = some pc := ⟨_, List.getElem?_eq_getElem hlt⟩
      cases pc with
      | compare =>
          simp only [byeStep, hpc, Channel.step, hs.ledger.calm, Option.isSome_none,
            Bool.false_eq_true, if_false, Option.bind_some, Channel.closeStep]
          split <;> rfl
      | close =>
          simp only [byeStep, hpc, Channel.step, hs.ledger.calm, Option.isSome_none,
            Bool.false_eq_true, if_false, Option.bind_some, Channel.closeStep]
          split <;> rfl
      | returned won => cases won <;> simp [byeStep, hpc]
  | session => rfl
  | conn => rfl
  | compare =>
      simp only [byeStep]
      split <;> rfl
  | timeout =>
      simp only [byeStep]
      split <;> rfl
  | returned => exact absurd rfl hpc

/-- A `Start` or `Null` that has not returned waits for a stream. -/
theorem accept_waits {a : Acceptor} (hi : s.accepts[i]? = some a) :
    a.pc = .returned ∨ a.pc = .accept ∧ s.acceptFails = false ∧ s.backlog = [] := by
  obtain ⟨haccept, herr⟩ := accept_mem_moves hi
  have hclose : (s.channel.step .close).isSome = true := by
    simp [Channel.step, hs.ledger.calm]
  have hstep : s.step (.accept i) = s.acceptStep i a := by
    simp [step, hs.timeouts.calm, hi]
  have hsteps : (s.acceptStep i a).isSome = true → False := by
    intro h
    exact hrest.not_mem_moves (hstep ▸ h) haccept
  cases hpc : a.pc with
  | select => exact (hsteps (by simp [acceptStep, hpc])).elim
  | compare =>
      refine (hsteps ?_).elim
      simp only [acceptStep, hpc]
      split <;> rfl
  | timeout =>
      refine (hsteps ?_).elim
      simp only [acceptStep, hpc]
      split <;> rfl
  | bye k =>
      have hlt : k < s.byes.length := by
        have hfits := hs.accepts a (List.mem_of_getElem? hi)
        rwa [AcceptFits, hpc] at hfits
      have hreturned := bye_returned hs hrest (List.getElem?_eq_getElem hlt)
      refine (hsteps ?_).elim
      simp [acceptStep, hpc, List.getElem?_eq_getElem hlt, hreturned]
  | returned => exact Or.inl rfl
  | accept =>
      refine Or.inr ⟨rfl, ?_, ?_⟩
      · by_contra hfails
        rw [Bool.not_eq_false] at hfails
        refine hrest.not_mem_moves ?_ herr
        cases hnull : a.null <;>
          simp [step, hs.timeouts.calm, hi, acceptErr, hpc, hfails, hnull, beginBye, hclose]
      · cases hback : s.backlog with
        | nil => rfl
        | cons x rest =>
            refine (hsteps ?_).elim
            cases hnull : a.null <;> simp [acceptStep, hpc, hback, hnull, beginBye, hclose]

/-- The consumer has received what there is. -/
theorem buffer_empty : s.channel.outgoing.buf = [] := by
  cases hbuf : s.channel.outgoing.buf with
  | nil => rfl
  | cons x rest =>
      have hbound : rest.length ≤ 32 := by
        have hle := s.channel.outgoing.bounded
        rw [hbuf, List.length_cons] at hle
        omega
      have hrecv : s.channel.outgoing.recv = some (x, ⟨rest, hbound⟩) :=
        Chan.recv_eq_some.2 hbuf
      refine (hrest.not_mem_moves ?_ receive_mem_moves).elim
      simp [step, hs.timeouts.calm, ownChannel, Channel.step, hs.ledger.calm, hrecv]

/-- A `Run` that has not returned is in its `select`, and neither cancelled nor closed. -/
theorem run_waits {r : RunCall ℕ} (hi : s.channel.runs[i]? = some r) :
    r.pc = .returned ∨ r.pc = .refused ∨
      r.pc = .select ∧ r.cancelled = false ∧ s.channel.closerClosed = false := by
  obtain ⟨hrun, hdone, hcloser⟩ := run_mem_moves hi
  have hsteps : (s.channel.runStep i r).isSome = true → False := by
    intro h
    refine hrest.not_mem_moves ?_ hrun
    simpa [step, hs.timeouts.calm, ownChannel, Channel.step, hs.ledger.calm, hi] using h
  cases hpc : r.pc with
  | returned => exact Or.inl rfl
  | refused => exact Or.inr (Or.inl rfl)
  | start =>
      refine (hsteps ?_).elim
      simp only [Channel.runStep, hpc]
      split <;> rfl
  | compare =>
      refine (hsteps ?_).elim
      simp only [Channel.runStep, hpc]
      split <;> rfl
  | close =>
      refine (hsteps ?_).elim
      simp only [Channel.runStep, hpc]
      split <;> rfl
  | send x =>
      -- there is room in the buffer, since the consumer has emptied it
      exfalso
      have hempty := buffer_empty hs hrest
      refine hsteps ?_
      simp only [Channel.runStep, hpc]
      split
      · rfl
      · simp [Chan.send, hempty]
  | select =>
      refine Or.inr (Or.inr ⟨rfl, ?_, ?_⟩)
      · by_contra hcancelled
        rw [Bool.not_eq_false] at hcancelled
        refine hrest.not_mem_moves ?_ hdone
        simp [step, hs.timeouts.calm, ownChannel, Channel.step, hs.ledger.calm, hi,
          Channel.stopRun, hpc, hcancelled]
      · by_contra hclosed
        rw [Bool.not_eq_false] at hclosed
        refine hrest.not_mem_moves ?_ hcloser
        simp [step, hs.timeouts.calm, ownChannel, Channel.step, hs.ledger.calm, hi,
          Channel.stopRun, hpc, hclosed]

/-- Every `Close` has returned. -/
theorem close_returned {pc : ClosePc} (hpc : pc ∈ s.channel.closes) :
    ∃ won, pc = .returned won := by
  obtain ⟨k, hk⟩ := List.getElem?_of_mem hpc
  have hlt := (List.getElem?_eq_some_iff.1 hk).1
  rw [← hs.paired] at hlt
  have hbye := List.getElem?_eq_getElem hlt
  have hfits := hs.byes k _ hbye
  rw [bye_returned hs hrest hbye] at hfits
  rcases hfits with hlost | ⟨hwon, _⟩
  · exact ⟨false, Option.some.inj (hk.symm.trans hlost)⟩
  · exact ⟨true, Option.some.inj (hk.symm.trans hwon)⟩

/-- Whoever set the flag has closed `timeoutCh`. -/
theorem timeoutCh_closed (hflag : s.timeoutChClosed = true) : s.timeoutCh = true := by
  have hbyes : s.byes.countP ByePc.closing = 0 := by
    refine List.countP_eq_zero.2 fun pc hpc => ?_
    obtain ⟨k, hk⟩ := List.getElem?_of_mem hpc
    rw [bye_returned hs hrest hk]
    decide
  have haccepts : s.accepts.countP Acceptor.closing = 0 := by
    refine List.countP_eq_zero.2 fun a ha => ?_
    obtain ⟨i, hi⟩ := List.getElem?_of_mem ha
    rcases accept_waits hs hrest hi with hpc | ⟨hpc, _⟩
    · simp [Acceptor.closing, hpc]
    · simp [Acceptor.closing, hpc]
  have hsum := hs.timeouts.closing
  rw [hflag, Bool.toNat_true] at hsum
  exact Bool.toNat_eq_one.1 (by omega)

/-- The end of the session is announced: by the library, or by whoever set the flag. -/
theorem notify_closed (hended : s.ended = true)
    (hflag : s.impl = .quic → s.timeoutChClosed = true) : s.notifyClosed = true := by
  have hclose : s.impl ≠ .quic → s.closeChan = true := by
    intro himpl
    by_contra hopen
    rw [Bool.not_eq_true] at hopen
    refine hrest.not_mem_moves (a := .announce) ?_ (by simp [moves])
    simp [step, hs.timeouts.calm, himpl, hended, hopen]
  unfold notifyClosed
  split
  · next himpl => exact hclose (by simp [himpl])
  · next himpl => exact hclose (by simp [himpl])
  · next himpl => exact timeoutCh_closed hs hrest (hflag himpl)

/-- After a `Bye` the channel and the session are closed, and this is announced. -/
theorem bye_closes (hbyes : s.byes ≠ []) :
    s.channel.closerClosed = true ∧ s.ended = true ∧ s.notifyClosed = true := by
  have hne : s.channel.closes ≠ [] := by
    intro hnil
    have hlength := hs.paired
    rw [hnil, List.length_nil, List.length_eq_zero_iff] at hlength
    exact hbyes hlength
  -- the one that won has come to its end
  have hone := hs.ledger.one_winner hne (fun pc hpc => close_returned hs hrest hpc)
  have hpos : 0 < s.channel.closes.countP ClosePc.won := by omega
  obtain ⟨pc, hpc, hwon⟩ := List.countP_pos_iff.1 hpos
  obtain ⟨won, rfl⟩ := close_returned hs hrest hpc
  obtain rfl : won = true := hwon
  obtain ⟨k, hk⟩ := List.getElem?_of_mem hpc
  have hlt := (List.getElem?_eq_some_iff.1 hk).1
  rw [← hs.paired] at hlt
  have hbye := List.getElem?_eq_getElem hlt
  have hfits := hs.byes k _ hbye
  rw [bye_returned hs hrest hbye] at hfits
  have hcloser : s.channel.closerClosed = true := by
    have hwinners := hs.ledger.winners
    rw [hone] at hwinners
    exact Bool.toNat_eq_one.1 hwinners.symm
  rcases hfits with hlost | ⟨_, hended, hflag⟩
  · rw [hk] at hlost
    cases hlost
  · exact ⟨hcloser, hended, notify_closed hs hrest hended hflag⟩

/-- When the session is over, no `Start` and no `Null` goes on. -/
theorem accept_returned (hended : s.ended = true) {a : Acceptor} (ha : a ∈ s.accepts) :
    a.pc = .returned := by
  obtain ⟨i, hi⟩ := List.getElem?_of_mem ha
  rcases accept_waits hs hrest hi with hpc | ⟨_, hfails, _⟩
  · exact hpc
  · simp [acceptFails, hended] at hfails

/-- The end of the session is announced, unless the context was cancelled. -/
theorem notify_of_ended (hdone : s.done = false) (haccepts : s.accepts ≠ [])
    (hended : s.ended = true) : s.notifyClosed = true := by
  obtain ⟨a, ha⟩ := List.exists_mem_of_ne_nil _ haccepts
  have hfits := hs.accepts a ha
  rw [AcceptFits, accept_returned hs hrest hended ha] at hfits
  rcases hfits with hd | hbyes | ⟨_, _, hflag⟩
  · rw [hdone] at hd
    cases hd
  · exact (bye_closes hs hrest (List.ne_nil_of_length_pos hbyes)).2.2
  · exact notify_closed hs hrest hended hflag

/-- When the channel is closed, no `Run` goes on. -/
theorem run_returned (hcloser : s.channel.closerClosed = true) {r : RunCall ℕ}
    (hr : r ∈ s.channel.runs) : r.pc = .returned ∨ r.pc = .refused := by
  obtain ⟨i, hi⟩ := List.getElem?_of_mem hr
  rcases run_waits hs hrest hi with hpc | hpc | ⟨_, _, hopen⟩
  · exact Or.inl hpc
  · exact Or.inr hpc
  · rw [hcloser] at hopen
    cases hopen

end Rest

/-- When no `Run` goes on, and there was one, `outgoing` is closed. -/
theorem Sound.outgoing_closed (hs : Sound s)
    (hruns : ∀ r ∈ s.channel.runs, r.pc = .returned ∨ r.pc = .refused)
    (hne : s.channel.runs ≠ []) : s.channel.outgoingClosed = true := by
  have hreturned : ∃ r ∈ s.channel.runs, r.pc = .returned := by
    by_contra hnone
    -- then all were refused, but one entered before them
    have hrefused : ∀ r ∈ s.channel.runs, r.pc = .refused := by
      intro r hr
      exact (hruns r hr).resolve_left (fun hpc => hnone ⟨r, hr, hpc⟩)
    obtain ⟨r, hr⟩ := List.exists_mem_of_ne_nil _ hne
    have hstarted := (hs.runs r hr).refused (hrefused r hr)
    have hentered : s.channel.runs.countP RunCall.entered = 0 := by
      refine List.countP_eq_zero.2 fun r hr => ?_
      simp [RunCall.entered, hrefused r hr]
    have hsum := hs.ledger.entered
    rw [hentered, hstarted] at hsum
    cases hsum
  obtain ⟨r, hr, hpc⟩ := hreturned
  have hch := (hs.runs r hr).returned hpc
  have hclosing : s.channel.runs.countP RunCall.closing = 0 := by
    refine List.countP_eq_zero.2 fun r hr => ?_
    rcases hruns r hr with hpc | hpc
    · simp [RunCall.closing, hpc]
    · simp [RunCall.closing, hpc]
  have hsum := hs.ledger.closing
  rw [hclosing, hch, Nat.zero_add] at hsum
  exact Bool.toNat_eq_one.1 hsum

/-! ## The end of a session -/

/-- **`Bye` ends everything once.** Whatever calls run concurrently, `timeoutCh` is never closed
    twice, the channel does not panic, and at most one `Bye` closes the session. When all has come
    to rest, every `Bye` has returned. If there was one, the session is over and `NotifyClose` says
    so, no handshake is waiting for a link, no `Start`, `Null` or `Run` goes on, and the consumer
    of `Handle` has received all that was sent there and finds the channel closed. Only a handshake
    that has read its link may be left over, in a `Put` that nobody takes from. -/
theorem bye_ends_session {impl : Impl} (hreach : (machine impl).Reachable s) :
    s.panicked = false ∧ s.channel.panic = none ∧ s.channel.closes.countP ClosePc.won ≤ 1 ∧
    (s.AtRest →
      (∀ pc ∈ s.byes, pc = .returned) ∧
      (s.byes ≠ [] → s.ended = true ∧ s.notifyClosed = true ∧
        (∀ g ∈ s.greetings, g.reading = false) ∧
        (∀ a ∈ s.accepts, a.pc = .returned) ∧
        (∀ r ∈ s.channel.runs, r.pc = .returned ∨ r.pc = .refused) ∧
        s.channel.outgoing.buf = [] ∧
        (s.accepts ≠ [] → s.channel.outgoingClosed = true))) := by
  have hs := sound_of_reachable hreach
  refine ⟨hs.timeouts.calm, hs.ledger.calm, ?_, ?_⟩
  · rw [hs.ledger.winners]
    exact Bool.toNat_le _
  intro hrest
  refine ⟨?_, ?_⟩
  · intro pc hpc
    obtain ⟨k, hk⟩ := List.getElem?_of_mem hpc
    exact bye_returned hs hrest hk
  intro hbyes
  obtain ⟨hcloser, hended, hnotify⟩ := bye_closes hs hrest hbyes
  have hruns : ∀ r ∈ s.channel.runs, r.pc = .returned ∨ r.pc = .refused :=
    fun r hr => run_returned hs hrest hcloser hr
  refine ⟨hended, hnotify, ?_, fun a ha => accept_returned hs hrest hended ha, hruns,
    buffer_empty hs hrest, ?_⟩
  · intro g hg
    obtain ⟨i, hi⟩ := List.getElem?_of_mem hg
    by_contra hreading
    rw [Bool.not_eq_false] at hreading
    refine hrest.not_mem_moves ?_ (greet_mem_moves hi hended)
    simp [step, hs.timeouts.calm, hi, greetStep, hreading]
  · intro hne
    refine hs.outgoing_closed hruns ?_
    intro hnil
    have hloops := hs.loops
    rw [hnil, List.length_nil, List.length_eq_zero_iff] at hloops
    exact hne hloops

/-- Over QUIC a stream is delivered, and two others say `Bye` while `Start` waits for the next
    one. -/
def byeRun : List Action :=
  [.start, .accept 0, .channel (.runStep 0), .stream, .accept 0, .greet 0 true,
    .channel (.handover 0 0), .channel (.runStep 0), .channel .receive, .bye, .bye, .accept 0,
    .byeStep 1, .byeStep 0, .byeStep 0, .byeStep 1, .byeStep 1, .byeStep 1, .byeStep 1, .byeStep 1,
    .acceptErr 0, .byeStep 2, .byeStep 2, .accept 0, .channel (.takeCloser 0),
    .channel (.runStep 0), .channel (.runStep 0)]

theorem bye_ends_session_quic : ∃ s : MuxPeer, (machine .quic).Reachable s ∧ s.AtRest ∧
    s.byes.length = 3 ∧ s.channel.received = [0] ∧ s.notifyClosed = true ∧
    s.channel.outgoingClosed = true := by
  obtain ⟨s, hreach, hrest, hbyes, haccepts, hreceived⟩ :=
    (machine .quic).reachable_of_exec_any rfl byeRun
      (P := fun s => s.AtRest ∧ s.byes.length = 3 ∧ s.accepts.length = 1 ∧
        s.channel.received = [0]) (by decide)
  have hends := (bye_ends_session hreach).2.2.2 hrest
  obtain ⟨_, hnotify, _, _, _, _, hclosed⟩ := hends.2 (by
    intro hnil
    rw [hnil] at hbyes
    cases hbyes)
  refine ⟨s, hreach, hrest, hbyes, hreceived, hnotify, hclosed ?_⟩
  intro hnil
  rw [hnil] at haccepts
  cases haccepts

/-- **The server learns that a session is over.** While the context is not cancelled, a session that
    somebody accepts from has come to rest with `NotifyClose` closed exactly if it is over,
    whichever side ended it. For QUIC this is what the code does about `timeoutCh`; for the other
    two it rests on what is assumed of their `CloseChan`. -/
theorem notifyClose_iff_ended {impl : Impl} (hreach : (machine impl).Reachable s)
    (hrest : s.AtRest) (hdone : s.done = false) (haccepts : s.accepts ≠ []) :
    s.notifyClosed = true ↔ s.ended = true := by
  have hs := sound_of_reachable hreach
  constructor
  · intro hnotify
    unfold notifyClosed at hnotify
    split at hnotify
    · exact hs.announced hnotify
    · exact hs.announced hnotify
    · -- the flag is set by who found the session over or by who closed it
      have hflag : s.timeoutChClosed = true := by
        have hsum := hs.timeouts.closing
        have hle := Bool.toNat_le s.timeoutChClosed
        rw [hnotify, Bool.toNat_true] at hsum
        exact Bool.toNat_eq_one.1 (by omega)
      rcases hs.flag hflag with hended | hd
      · exact hended
      · rw [hdone] at hd
        cases hd
  · exact notify_of_ended hs hrest hdone haccepts

/-- A QUIC session with a client breaks down while `Null` waits. -/
theorem notifyClose_iff_ended_client : ∃ s : MuxPeer, (machine .quic).Reachable s ∧ s.AtRest ∧
    s.byes = [] ∧ s.done = false ∧ s.accepts ≠ [] ∧ s.ended = true ∧ s.notifyClosed = true := by
  obtain ⟨s, hreach, hrest, hbyes, hdone, haccepts, hended⟩ :=
    (machine .quic).reachable_of_exec_any rfl
      [.null, .accept 0, .channel (.runStep 0), .fail, .acceptErr 0, .accept 0, .accept 0]
      (P := fun s => s.AtRest ∧ s.byes = [] ∧ s.done = false ∧ s.accepts.length = 1 ∧
        s.ended = true) (by decide)
  have hsome : s.accepts ≠ [] := by
    intro hnil
    rw [hnil] at haccepts
    cases haccepts
  exact ⟨s, hreach, hrest, hbyes, hdone, hsome, hended,
    (notifyClose_iff_ended hreach hrest hdone hsome).2 hended⟩

end Tunnel.Mux.MuxPeer
