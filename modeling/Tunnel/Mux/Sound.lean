import Tunnel.Mux.Session

set_option autoImplicit false

/-! # The invariant of a session (`mux/yamux.go`, `mux/mplex.go`, `mux/quic.go`)

For each call on a session the invariant (`Sound`) says what follows from where it is: a `Bye` that
won the channel and is past the line that closes the session finds it over, a `Start` has returned
only because the context is cancelled or there was a `Bye`, and a `Null` also because the session is
over. Most of it is kept because what it speaks of only grows (`Grows`); what remains are the few
calls that a step moves. That `timeoutCh` is not closed twice is counted (`Timeouts`), and the rest
is the ledger of the channel, which the session keeps because all it does to the channel are steps
of it. -/

namespace Tunnel.Multiplexer.Channel

open Tunnel.Lib

variable {α : Type} {c c' : Channel α}

/-- A `Close` that has returned stays so. -/
theorem Step.closes_returned (h : Step c c') {k : ℕ} {won : Bool}
    (hk : c.closes[k]? = some (.returned won)) : c'.closes[k]? = some (.returned won) := by
  -- the call that moves is another one, since it has not returned
  have hset : ∀ (i : ℕ) (pc pc' : ClosePc), c.closes[i]? = some pc → pc ≠ .returned won →
      (c.closes.set i pc')[k]? = some (.returned won) := by
    intro i pc pc' hi hpc
    have hik : i ≠ k := by
      intro heq
      rw [heq, hk] at hi
      exact hpc (Option.some.inj hi).symm
    rw [List.getElem?_set_ne hik, hk]
  cases h with
  | close => exact getElem?_append_of_some hk _
  | closeWon hi _ => exact hset _ _ _ hi (by simp)
  | closeLost hi _ => exact hset _ _ _ hi (by simp)
  | closeCloser hi _ => exact hset _ _ _ hi (by simp)
  | put | run | closerTwice | enter | moveRun | handover | sendOn | sendPanics | closeChannel
    | closeOutgoing | outgoingTwice | receive => exact hk

/-! What the calls of `Put`, `Close` and `Run` do when they begin, and what `Close` leaves alone. -/

theorem step_put {x : α} (h : c.step (.put x) = some c') :
    c' = { c with puts := c.puts ++ [⟨x, false⟩] } := by
  unfold step at h
  split at h
  · cases h
  · exact (Option.some.inj h).symm

theorem step_close (h : c.step .close = some c') :
    c' = { c with closes := c.closes ++ [.compare] } := by
  unfold step at h
  split at h
  · cases h
  · exact (Option.some.inj h).symm

theorem step_run (h : c.step .run = some c') :
    c' = { c with runs := c.runs ++ [⟨false, .start⟩] } := by
  unfold step at h
  split at h
  · cases h
  · exact (Option.some.inj h).symm

theorem step_closeStep {k : ℕ} (h : c.step (.closeStep k) = some c') :
    c'.runs = c.runs ∧ c'.puts = c.puts ∧ c'.closes.length = c.closes.length := by
  unfold step at h
  split at h
  · cases h
  obtain ⟨pc, _, hpc⟩ := Option.bind_eq_some_iff.1 h
  cases pc with
  | compare =>
      simp only [closeStep] at hpc
      split at hpc <;> cases hpc <;> simp
  | close =>
      simp only [closeStep] at hpc
      split at hpc <;> cases hpc <;> simp
  | returned won => cases hpc

theorem Step.closerClosed_mono (h : Step c c') (hc : c.closerClosed = true) :
    c'.closerClosed = true := by
  cases h with
  | closeCloser => rfl
  | put | close | run | closeWon | closeLost | closerTwice | enter | moveRun | handover | sendOn
    | sendPanics | closeChannel | closeOutgoing | outgoingTwice | receive => exact hc

theorem Step.started_mono (h : Step c c') (hc : c.started = true) : c'.started = true := by
  cases h with
  | enter => rfl
  | put | close | run | closeWon | closeLost | closeCloser | closerTwice | moveRun | handover
    | sendOn | sendPanics | closeChannel | closeOutgoing | outgoingTwice | receive => exact hc

theorem Step.chClosed_mono (h : Step c c') (hc : c.chClosed = true) : c'.chClosed = true := by
  cases h with
  | closeChannel => rfl
  | put | close | run | closeWon | closeLost | closeCloser | closerTwice | enter | moveRun
    | handover | sendOn | sendPanics | closeOutgoing | outgoingTwice | receive => exact hc

/-- Whoever is about to close `outgoing` has set the flag. -/
theorem Ledger.chClosed_of_closing (hc : Ledger c) {j : ℕ} {r : RunCall α}
    (hj : c.runs[j]? = some r) (hr : r.closing = true) : c.chClosed = true := by
  have hpos : 0 < c.runs.countP RunCall.closing :=
    List.countP_pos_iff.2 ⟨r, List.mem_of_getElem? hj, hr⟩
  have hsum := hc.closing
  have hle := Bool.toNat_le c.chClosed
  exact Bool.toNat_eq_one.1 (by omega)

end Tunnel.Multiplexer.Channel

namespace Tunnel.Multiplexer

/-- The loop of the call is over, or about to be. -/
def RunCall.stopped {α : Type} (r : RunCall α) : Bool :=
  match r.pc with
  | .compare | .close | .returned => true
  | .start | .select | .send _ | .refused => false

end Tunnel.Multiplexer

namespace Tunnel.Mux.MuxPeer

open Tunnel.Lib Tunnel.Multiplexer

variable {s s' : MuxPeer}

/-! ## What a step of the channel leaves alone -/

/-- What the move of a `Run` from `r` to `r'` can be for the channel `c` that it leads to. -/
structure RunMove (s : MuxPeer) (c : Channel ℕ) (r r' : RunCall ℕ) : Prop where
  cancelled : r'.cancelled = true → r.cancelled = true ∨ s.done = true
  keeps : r.cancelled = true → r'.cancelled = true
  stopped : r'.stopped = true →
    r.stopped = true ∨ r'.cancelled = true ∨ s.channel.closerClosed = true
  refused : r'.pc = .refused → r.pc = .refused ∨ c.started = true
  returned : r'.pc = .returned → r.pc = .returned ∨ c.chClosed = true

/-- What the loop and the consumer do not touch. -/
structure OwnStep (s : MuxPeer) (c : Channel ℕ) : Prop where
  closes : c.closes = s.channel.closes
  values : c.puts.map PutCall.value = s.channel.puts.map PutCall.value
  runs : c.runs = s.channel.runs ∨ ∃ j r r', s.channel.runs[j]? = some r ∧
    c.runs = s.channel.runs.set j r' ∧ RunMove s c r r'

theorem runStep_own {c : Channel ℕ} {j : ℕ} {r : RunCall ℕ} (hl : Channel.Ledger s.channel)
    (hj : s.channel.runs[j]? = some r) (h : s.channel.runStep j r = some c) : OwnStep s c := by
  -- one `Run` moves and nothing else that is looked at here
  have hset : ∀ pc : RunPc ℕ, c.closes = s.channel.closes → c.puts = s.channel.puts →
      c.runs = s.channel.runs.set j { r with pc := pc } →
      (({ r with pc := pc } : RunCall ℕ).stopped = true → r.stopped = true) →
      (pc = .refused → c.started = true) → (pc = .returned → c.chClosed = true) →
      OwnStep s c := by
    intro pc hcloses hputs hruns hstopped hrefused hreturned
    refine ⟨hcloses, by rw [hputs], Or.inr ⟨j, r, _, hj, hruns, ?_⟩⟩
    exact ⟨Or.inl, id, fun hr => Or.inl (hstopped hr), fun hr => Or.inr (hrefused hr),
      fun hr => Or.inr (hreturned hr)⟩
  unfold Channel.runStep at h
  split at h
  · split at h
    · cases h
      exact hset .select rfl rfl rfl nofun nofun nofun
    · next hstarted =>
        cases h
        exact hset .refused rfl rfl rfl nofun (fun _ => by simpa using hstarted) nofun
  · split at h
    · cases h
      exact ⟨rfl, rfl, Or.inl rfl⟩
    · obtain ⟨ch, _, rfl⟩ := Option.map_eq_some_iff.1 h
      exact hset .select rfl rfl rfl nofun nofun nofun
  · next hpc =>
      have hstopped : r.stopped = true := by simp [RunCall.stopped, hpc]
      split at h
      · cases h
        exact hset .close rfl rfl rfl (fun _ => hstopped) nofun nofun
      · next hclosed =>
          cases h
          exact hset .returned rfl rfl rfl (fun _ => hstopped) nofun
            (fun _ => by simpa using hclosed)
  · next hpc =>
      have hstopped : r.stopped = true := by simp [RunCall.stopped, hpc]
      split at h
      · cases h
        exact ⟨rfl, rfl, Or.inl rfl⟩
      · cases h
        exact hset .returned rfl rfl rfl (fun _ => hstopped) nofun
          (fun _ => hl.chClosed_of_closing hj (by simp [RunCall.closing, hpc]))
  all_goals cases h

theorem stopRun_own {c : Channel ℕ} {j : ℕ} {r : RunCall ℕ} {ready : Bool}
    (hj : s.channel.runs[j]? = some r)
    (hready : ready = true → r.cancelled = true ∨ s.channel.closerClosed = true)
    (h : s.channel.stopRun j r ready = some c) : OwnStep s c := by
  unfold Channel.stopRun at h
  split at h
  · split at h
    · next hr =>
        cases h
        refine ⟨rfl, rfl, Or.inr ⟨j, r, _, hj, rfl, ?_⟩⟩
        exact ⟨Or.inl, id, fun _ => Or.inr (hready hr), nofun, nofun⟩
    · cases h
  · cases h

theorem channel_own {a : Channel.Action ℕ} {c : Channel ℕ} (hl : Channel.Ledger s.channel)
    (ha : s.ownChannel a = true) (h : s.channel.step a = some c) : OwnStep s c := by
  unfold Channel.step at h
  split at h
  · cases h
  cases a with
  | put x => cases ha
  | close => cases ha
  | run => cases ha
  | closeStep k => cases ha
  | cancel j =>
      obtain ⟨r, hj, rfl⟩ := Option.map_eq_some_iff.1 h
      refine ⟨rfl, rfl, Or.inr ⟨j, r, _, hj, rfl, ?_⟩⟩
      exact ⟨fun _ => Or.inr ha, fun _ => rfl, fun _ => Or.inr (Or.inl rfl), Or.inl, Or.inl⟩
  | runStep j =>
      obtain ⟨r, hj, hr⟩ := Option.bind_eq_some_iff.1 h
      exact runStep_own hl hj hr
  | takeDone j =>
      obtain ⟨r, hj, hr⟩ := Option.bind_eq_some_iff.1 h
      exact stopRun_own hj Or.inl hr
  | takeCloser j =>
      obtain ⟨r, hj, hr⟩ := Option.bind_eq_some_iff.1 h
      exact stopRun_own hj Or.inr hr
  | handover i j =>
      simp only at h
      split at h
      · next x b hi hj =>
          cases h
          refine ⟨rfl, ?_, Or.inr ⟨j, _, _, hj, rfl, Or.inl, id, nofun, nofun, nofun⟩⟩
          · have hi' : (s.channel.puts.map PutCall.value)[i]? = some x := by
              rw [List.getElem?_map, hi]
              rfl
            refine List.ext_getElem? (fun k => ?_)
            rw [List.map_set, getElem?_set_of_some hi']
            split
            · next hik => rw [← hik, hi']
            · rfl
      · cases h
  | receive =>
      obtain ⟨next, _, rfl⟩ := Option.map_eq_some_iff.1 h
      exact ⟨rfl, rfl, Or.inl rfl⟩

/-! ## Who closes `timeoutCh` -/

/-- `timeoutCh` is closed by the one who set the flag: the close is still to come or behind. -/
structure Timeouts (s : MuxPeer) : Prop where
  calm : s.panicked = false
  closing : s.byes.countP ByePc.closing + s.accepts.countP Acceptor.closing + s.timeoutCh.toNat
    = s.timeoutChClosed.toNat

theorem AcceptMove.closing {a : Acceptor} {pc : AcceptPc} (h : AcceptMove s a pc) :
    ({ a with pc := pc } : Acceptor).closing = a.closing := by
  cases h <;> simp_all [Acceptor.closing]

theorem ByeMove.closing {k : ℕ} {pc pc' : ByePc} (h : ByeMove s k pc pc') :
    pc'.closing = pc.closing := by
  cases h <;> rfl

/-- Whoever is about to close `timeoutCh` finds it open. -/
theorem Timeouts.timeoutCh_open (hs : Timeouts s)
    (h : 0 < s.byes.countP ByePc.closing ∨ 0 < s.accepts.countP Acceptor.closing) :
    s.timeoutCh = false := by
  have hsum := hs.closing
  have hle := Bool.toNat_le s.timeoutChClosed
  exact Bool.toNat_eq_zero.1 (by omega)

theorem Step.timeouts (h : Step s s') (hs : Timeouts s) : Timeouts s' := by
  have hsum := hs.closing
  cases h with
  | begin null hc => exact ⟨hs.calm, by simpa [Acceptor.closing] using hsum⟩
  | bye hc => exact ⟨hs.calm, by simpa [ByePc.closing] using hsum⟩
  | @accept i a pc hi hmove =>
      have hcount := countP_set_add Acceptor.closing hi { a with pc := pc }
      rw [hmove.closing] at hcount
      exact ⟨hs.calm, by simp only [setAccept]; omega⟩
  | @take i x a rest hi ha hnull hx =>
      have hcount := countP_set_add Acceptor.closing hi { a with pc := .select }
      simp only [Acceptor.closing, ha] at hcount
      exact ⟨hs.calm, by simp only [setAccept]; omega⟩
  | @refuse i x a rest c hi ha hnull hx hc =>
      have hcount := countP_set_add Acceptor.closing hi { a with pc := .bye s.byes.length }
      simp only [Acceptor.closing, ha] at hcount
      refine ⟨hs.calm, ?_⟩
      simp only [setAccept, List.countP_append, List.countP_singleton, ByePc.closing]
      simp only [Bool.false_eq_true, if_false]
      omega
  | @hangUp i a c hi ha hnull hfails hc =>
      have hcount := countP_set_add Acceptor.closing hi { a with pc := .bye s.byes.length }
      simp only [Acceptor.closing, ha] at hcount
      refine ⟨hs.calm, ?_⟩
      simp only [setAccept, List.countP_append, List.countP_singleton, ByePc.closing]
      simp only [Bool.false_eq_true, if_false]
      omega
  | @acceptSwap i a hi ha hflag =>
      have hcount := countP_set_add Acceptor.closing hi { a with pc := .timeout }
      simp only [Acceptor.closing, ha, hflag, Bool.toNat_true, Bool.toNat_false] at hcount hsum
      exact ⟨hs.calm, by simp only [setAccept, Bool.toNat_true]; omega⟩
  | @acceptClose i a hi ha hopen =>
      have hcount := countP_set_add Acceptor.closing hi { a with pc := .returned }
      simp only [Acceptor.closing, ha, hopen, Bool.toNat_true, Bool.toNat_false] at hcount hsum
      exact ⟨hs.calm, by simp only [setAccept, Bool.toNat_true]; omega⟩
  | @acceptTwice i a hi ha hclosed =>
      have hpos : 0 < s.accepts.countP Acceptor.closing :=
        List.countP_pos_iff.2 ⟨a, List.mem_of_getElem? hi, by simp [Acceptor.closing, ha]⟩
      rw [hs.timeoutCh_open (Or.inr hpos)] at hclosed
      cases hclosed
  | @byeMove k pc pc' hk hmove =>
      have hcount := countP_set_add ByePc.closing hk pc'
      rw [hmove.closing] at hcount
      exact ⟨hs.calm, by simp only; omega⟩
  | @closeSession k hk =>
      have hcount := countP_set_add ByePc.closing hk (if s.impl = .quic then .compare else .conn)
      have hnot : (if s.impl = .quic then ByePc.compare else .conn).closing = false := by
        split <;> rfl
      have hsession : ByePc.session.closing = false := rfl
      rw [hnot, hsession] at hcount
      exact ⟨hs.calm, by simp only; omega⟩
  | @byeSwap k hk hflag =>
      have hcount := countP_set_add ByePc.closing hk .timeout
      simp only [ByePc.closing, hflag, Bool.toNat_true, Bool.toNat_false] at hcount hsum
      exact ⟨hs.calm, by simp only [Bool.toNat_true]; omega⟩
  | @byeClose k hk hopen =>
      have hcount := countP_set_add ByePc.closing hk .returned
      simp only [ByePc.closing, hopen, Bool.toNat_true, Bool.toNat_false] at hcount hsum
      exact ⟨hs.calm, by simp only [Bool.toNat_true]; omega⟩
  | @byeTwice k hk hclosed =>
      have hpos : 0 < s.byes.countP ByePc.closing :=
        List.countP_pos_iff.2 ⟨.timeout, List.mem_of_getElem? hk, rfl⟩
      rw [hs.timeoutCh_open (Or.inl hpos)] at hclosed
      cases hclosed
  | cancel | stream | fail | announce | greet | drop | closeStep | channel =>
      exact ⟨hs.calm, hsum⟩

/-! ## Where the calls can be -/

/-- What only grows along a run. -/
structure Grows (s s' : MuxPeer) : Prop where
  impl : s'.impl = s.impl
  ended : s.ended = true → s'.ended = true
  done : s.done = true → s'.done = true
  flag : s.timeoutChClosed = true → s'.timeoutChClosed = true
  byes : s.byes.length ≤ s'.byes.length
  closer : s.channel.closerClosed = true → s'.channel.closerClosed = true
  started : s.channel.started = true → s'.channel.started = true
  chClosed : s.channel.chClosed = true → s'.channel.chClosed = true
  returned : ∀ (k : ℕ) (won : Bool), s.channel.closes[k]? = some (.returned won) →
    s'.channel.closes[k]? = some (.returned won)

theorem Grows.refl (s : MuxPeer) : Grows s s :=
  { impl := rfl, ended := id, done := id, flag := id, byes := Nat.le_refl _, closer := id
    started := id, chClosed := id, returned := fun _ _ hk => hk }

/-- A step of the channel, and whatever else happens with it. -/
theorem Grows.channel {a : Channel.Action ℕ} (hc : s.channel.step a = some s'.channel)
    (himpl : s'.impl = s.impl) (hended : s'.ended = s.ended) (hdone : s'.done = s.done)
    (hflag : s'.timeoutChClosed = s.timeoutChClosed) (hbyes : s.byes.length ≤ s'.byes.length) :
    Grows s s' := by
  have hrule := Channel.step_rule hc
  exact
    { impl := himpl, ended := fun h => hended.trans h, done := fun h => hdone.trans h
      flag := fun h => hflag.trans h, byes := hbyes, closer := hrule.closerClosed_mono
      started := hrule.started_mono, chClosed := hrule.chClosed_mono
      returned := fun k won hk => hrule.closes_returned hk }

theorem Step.grows (h : Step s s') : Grows s s' := by
  have hsame := Grows.refl s
  cases h with
  | begin null hc => exact .channel hc rfl rfl rfl rfl (Nat.le_refl _)
  | bye hc => exact .channel hc rfl rfl rfl rfl (by simp)
  | refuse hi ha hnull hx hc => exact .channel hc rfl rfl rfl rfl (by simp)
  | hangUp hi ha hnull hfails hc => exact .channel hc rfl rfl rfl rfl (by simp)
  | greet hi hg hc => exact .channel hc rfl rfl rfl rfl (Nat.le_refl _)
  | closeStep hk hc => exact .channel hc rfl rfl rfl rfl (Nat.le_refl _)
  | channel ha hc => exact .channel hc rfl rfl rfl rfl (Nat.le_refl _)
  | cancel => exact { hsame with done := fun _ => rfl }
  | fail => exact { hsame with ended := fun _ => rfl }
  | acceptSwap hi ha hflag => exact { hsame with flag := fun _ => rfl }
  | byeSwap hk hflag => exact { hsame with flag := fun _ => rfl, byes := by simp }
  | closeSession hk => exact { hsame with ended := fun _ => rfl, byes := by simp }
  | byeMove hk hmove => exact { hsame with byes := by simp }
  | byeClose hk hopen => exact { hsame with byes := by simp }
  | stream | announce | accept | take | acceptClose | acceptTwice | drop | byeTwice =>
      exact { hsame with }

/-- What the place of the `k`-th `Bye` says. One that won has closed the session when it is past
    that line, and has seen to `timeoutCh` when it returned. -/
def ByeFits (s : MuxPeer) (k : ℕ) : ByePc → Prop
  | .close => True
  | .session => s.channel.closes[k]? = some (.returned true)
  | .conn => s.channel.closes[k]? = some (.returned true) ∧ s.ended = true ∧ s.impl ≠ .quic
  | .compare => s.channel.closes[k]? = some (.returned true) ∧ s.ended = true
  | .timeout => s.channel.closes[k]? = some (.returned true) ∧ s.ended = true ∧
      s.timeoutChClosed = true
  | .returned => s.channel.closes[k]? = some (.returned false) ∨
      s.channel.closes[k]? = some (.returned true) ∧ s.ended = true ∧
        (s.impl = .quic → s.timeoutChClosed = true)

/-- What the place of a `Start` or `Null` says, in particular why it has returned. -/
def AcceptFits (s : MuxPeer) (a : Acceptor) : Prop :=
  match a.pc with
  | .select | .accept => True
  | .compare => a.null = true ∧ (s.ended = true ∨ s.done = true)
  | .timeout => a.null = true ∧ (s.ended = true ∨ s.done = true) ∧ s.timeoutChClosed = true
  | .bye k => k < s.byes.length
  | .returned => s.done = true ∨ 0 < s.byes.length ∨
      a.null = true ∧ s.ended = true ∧ (s.impl = .quic → s.timeoutChClosed = true)

/-- What the place of a `Run` says: it is cancelled with the context, stops for that or because the
    channel was closed, was refused only if there is another one, and closed `outgoing` or found it
    closed. -/
structure RunFits (s : MuxPeer) (r : RunCall ℕ) : Prop where
  cancelled : r.cancelled = true → s.done = true
  stopped : r.stopped = true → r.cancelled = true ∨ s.channel.closerClosed = true
  refused : r.pc = .refused → s.channel.started = true
  returned : r.pc = .returned → s.channel.chClosed = true

theorem ByeFits.grow {k : ℕ} {pc : ByePc} (h : s.ByeFits k pc) (hg : Grows s s') :
    s'.ByeFits k pc := by
  cases pc with
  | close => trivial
  | session => exact hg.returned _ _ h
  | conn =>
      obtain ⟨hwon, hended, himpl⟩ := h
      exact ⟨hg.returned _ _ hwon, hg.ended hended, hg.impl ▸ himpl⟩
  | compare => exact ⟨hg.returned _ _ h.1, hg.ended h.2⟩
  | timeout => exact ⟨hg.returned _ _ h.1, hg.ended h.2.1, hg.flag h.2.2⟩
  | returned =>
      rcases h with hlost | ⟨hwon, hended, hflag⟩
      · exact Or.inl (hg.returned _ _ hlost)
      · exact Or.inr ⟨hg.returned _ _ hwon, hg.ended hended,
          fun himpl => hg.flag (hflag (hg.impl ▸ himpl))⟩

theorem AcceptFits.grow {a : Acceptor} (h : s.AcceptFits a) (hg : Grows s s') :
    s'.AcceptFits a := by
  unfold AcceptFits at h ⊢
  cases hpc : a.pc with
  | select | accept => trivial
  | compare =>
      rw [hpc] at h
      exact ⟨h.1, h.2.imp hg.ended hg.done⟩
  | timeout =>
      rw [hpc] at h
      exact ⟨h.1, h.2.1.imp hg.ended hg.done, hg.flag h.2.2⟩
  | bye k =>
      rw [hpc] at h
      exact Nat.lt_of_lt_of_le h hg.byes
  | returned =>
      rw [hpc] at h
      rcases h with hdone | hbyes | ⟨hnull, hended, hflag⟩
      · exact Or.inl (hg.done hdone)
      · exact Or.inr (Or.inl (Nat.lt_of_lt_of_le hbyes hg.byes))
      · exact Or.inr (Or.inr ⟨hnull, hg.ended hended,
          fun himpl => hg.flag (hflag (hg.impl ▸ himpl))⟩)

theorem RunFits.grow {r : RunCall ℕ} (h : s.RunFits r) (hg : Grows s s') : s'.RunFits r where
  cancelled hr := hg.done (h.cancelled hr)
  stopped hr := (h.stopped hr).imp id hg.closer
  refused hr := hg.started (h.refused hr)
  returned hr := hg.chClosed (h.returned hr)

/-- The invariant of a session. -/
structure Sound (s : MuxPeer) : Prop where
  timeouts : Timeouts s
  ledger : Channel.Ledger s.channel
  delivery : Channel.Delivery s.channel
  /-- The calls of `Close` are those of `Bye`. -/
  paired : s.byes.length = s.channel.closes.length
  byes : ∀ k pc, s.byes[k]? = some pc → s.ByeFits k pc
  accepts : ∀ a ∈ s.accepts, s.AcceptFits a
  runs : ∀ r ∈ s.channel.runs, s.RunFits r
  /-- Every `Start` and every `Null` started a `Run`. -/
  loops : s.accepts.length = s.channel.runs.length
  flag : s.timeoutChClosed = true → s.ended = true ∨ s.done = true
  announced : s.closeChan = true → s.ended = true

theorem sound_init (impl : Impl) : Sound (init impl) where
  timeouts := ⟨rfl, rfl⟩
  ledger := Channel.ledger_init
  delivery := Channel.delivery_init
  paired := rfl
  byes := by simp [init]
  accepts := by simp [init]
  runs := by simp [init, Channel.init]
  loops := rfl
  flag := by simp [init]
  announced := by simp [init]

/-- A session whose `AcceptStream` fails is over, or its context is cancelled. -/
theorem ended_or_done_of_acceptFails (h : s.acceptFails = true) :
    s.ended = true ∨ s.done = true := by
  unfold acceptFails at h
  rw [Bool.or_eq_true, Bool.and_eq_true] at h
  exact h.imp id And.right

theorem ended_of_acceptFails (h : s.acceptFails = true) (himpl : s.impl ≠ .quic) :
    s.ended = true := by
  simpa [acceptFails, himpl] using h

theorem AcceptMove.fits {a : Acceptor} {pc : AcceptPc} (h : AcceptMove s a pc)
    (ha : s.AcceptFits a) : s.AcceptFits { a with pc := pc } := by
  cases h with
  | go => trivial
  | quit _ hdone => exact Or.inl hdone
  | nullQuic _ hnull hfails _ => exact ⟨hnull, ended_or_done_of_acceptFails hfails⟩
  | nullReturns _ hnull hfails himpl =>
      exact Or.inr (Or.inr ⟨hnull, ended_of_acceptFails hfails himpl, fun hq => absurd hq himpl⟩)
  | lost hpc hflag =>
      rw [AcceptFits, hpc] at ha
      rcases ha.2 with hended | hdone
      · exact Or.inr (Or.inr ⟨ha.1, hended, fun _ => hflag⟩)
      · exact Or.inl hdone
  | @waited k hpc hk =>
      refine Or.inr (Or.inl ?_)
      exact Nat.lt_of_le_of_lt (Nat.zero_le k) (List.getElem?_eq_some_iff.1 hk).1

theorem ByeMove.fits {k : ℕ} {pc pc' : ByePc} (h : ByeMove s k pc pc') (hpc : s.ByeFits k pc) :
    s.ByeFits k pc' := by
  cases h with
  | won hwon => exact hwon
  | lost hlost => exact Or.inl hlost
  | conn => exact Or.inr ⟨hpc.1, hpc.2.1, fun hq => absurd hq hpc.2.2⟩
  | timeout hflag => exact Or.inr ⟨hpc.1, hpc.2, fun _ => hflag⟩

/-- A step that moves one `Bye` at most keeps what their places say. -/
theorem Sound.byes_set (hs : Sound s) (hg : Grows s s') {k : ℕ} {pc : ByePc}
    (hbyes : s'.byes = s.byes.set k pc) (hpc : s'.ByeFits k pc) :
    ∀ j pc', s'.byes[j]? = some pc' → s'.ByeFits j pc' := by
  rw [hbyes]
  exact forall_getElem?_set (fun j c _ hj => (hs.byes j c hj).grow hg) hpc

theorem Sound.byes_concat (hs : Sound s) (hg : Grows s s') (hbyes : s'.byes = s.byes ++ [.close]) :
    ∀ j pc', s'.byes[j]? = some pc' → s'.ByeFits j pc' := by
  rw [hbyes]
  exact forall_getElem?_concat (fun j c hj => (hs.byes j c hj).grow hg) trivial

theorem Sound.accepts_set (hs : Sound s) (hg : Grows s s') {i : ℕ} {a : Acceptor} {pc : AcceptPc}
    (haccepts : s'.accepts = s.setAccept i a pc) (hpc : s'.AcceptFits { a with pc := pc }) :
    ∀ b ∈ s'.accepts, s'.AcceptFits b := by
  rw [haccepts]
  exact forall_mem_set (fun b hb => (hs.accepts b hb).grow hg) hpc

theorem Sound.runs_own (hs : Sound s) {c : Channel ℕ} (hown : OwnStep s c)
    (hg : Grows s { s with channel := c }) :
    ∀ r ∈ c.runs, RunFits { s with channel := c } r := by
  rcases hown.runs with hsame | ⟨j, r, r', hj, hruns, hmove⟩
  · rw [hsame]
    exact fun r hr => (hs.runs r hr).grow hg
  · rw [hruns]
    refine forall_mem_set (fun r hr => (hs.runs r hr).grow hg) ?_
    have hr := hs.runs r (List.mem_of_getElem? hj)
    refine ⟨fun h => (hmove.cancelled h).elim hr.cancelled id, fun h => ?_,
      fun h => (hmove.refused h).elim (fun h => hg.started (hr.refused h)) id,
      fun h => (hmove.returned h).elim (fun h => hg.chClosed (hr.returned h)) id⟩
    rcases hmove.stopped h with h | h | h
    · exact (hr.stopped h).imp hmove.keeps hg.closer
    · exact Or.inl h
    · exact Or.inr (hg.closer h)

/-- **Step lemma.** -/
theorem Step.sound (h : Step s s') (hs : Sound s) : Sound s' := by
  have hg := h.grows
  have ht := h.timeouts hs.timeouts
  -- what a step of the channel keeps of it
  have hchannel : ∀ {a : Channel.Action ℕ} {c : Channel ℕ}, s.channel.step a = some c →
      Channel.Ledger c ∧ Channel.Delivery c := by
    intro a c hc
    have hrule := Channel.step_rule hc
    exact ⟨hrule.ledger hs.ledger, hrule.delivery hs.ledger hs.delivery⟩
  have hbyes := fun k pc hk => (hs.byes k pc hk).grow hg
  have haccepts := fun a ha => (hs.accepts a ha).grow hg
  have hruns := fun r hr => (hs.runs r hr).grow hg
  cases h with
  | begin null hc =>
      obtain ⟨hledger, hdelivery⟩ := hchannel hc
      obtain rfl := Channel.step_run hc
      refine { hs with
        timeouts := ht, ledger := hledger, delivery := hdelivery, byes := hbyes
        accepts := ?_, runs := ?_, loops := ?_ }
      · exact List.forall_mem_append.2 ⟨haccepts, List.forall_mem_singleton.2 trivial⟩
      · refine List.forall_mem_append.2 ⟨hruns, List.forall_mem_singleton.2 ?_⟩
        exact ⟨nofun, nofun, nofun, nofun⟩
      · simp [hs.loops]
  | bye hc =>
      obtain ⟨hledger, hdelivery⟩ := hchannel hc
      obtain rfl := Channel.step_close hc
      exact { hs with
        timeouts := ht, ledger := hledger, delivery := hdelivery, byes := hs.byes_concat hg rfl
        accepts := haccepts, runs := hruns, paired := by simp [hs.paired] }
  | cancel =>
      exact { hs with
        timeouts := ht, byes := hbyes, accepts := haccepts, runs := hruns
        flag := fun _ => Or.inr rfl }
  | stream hended =>
      exact { hs with timeouts := ht, byes := hbyes, accepts := haccepts, runs := hruns }
  | fail =>
      exact { hs with
        timeouts := ht, byes := hbyes, accepts := haccepts, runs := hruns
        flag := fun _ => Or.inl rfl, announced := fun _ => rfl }
  | announce hended =>
      exact { hs with
        timeouts := ht, byes := hbyes, accepts := haccepts, runs := hruns
        announced := fun _ => hended }
  | @accept i a pc hi hmove =>
      have hfits := hmove.fits (hs.accepts a (List.mem_of_getElem? hi))
      exact { hs with
        timeouts := ht, byes := hbyes, accepts := hs.accepts_set hg rfl (hfits.grow hg)
        runs := hruns, loops := by simp [setAccept, hs.loops] }
  | @take i x a rest hi ha hnull hx =>
      exact { hs with
        timeouts := ht, byes := hbyes, accepts := hs.accepts_set hg rfl trivial
        runs := hruns, loops := by simp [setAccept, hs.loops] }
  | @refuse i x a rest c hi ha hnull hx hc =>
      obtain ⟨hledger, hdelivery⟩ := hchannel hc
      obtain rfl := Channel.step_close hc
      refine { hs with
        timeouts := ht, ledger := hledger, delivery := hdelivery, byes := hs.byes_concat hg rfl
        accepts := hs.accepts_set hg rfl ?_, runs := hruns, paired := by simp [hs.paired]
        loops := by simp [setAccept, hs.loops] }
      simp [AcceptFits]
  | @hangUp i a c hi ha hnull hfails hc =>
      obtain ⟨hledger, hdelivery⟩ := hchannel hc
      obtain rfl := Channel.step_close hc
      refine { hs with
        timeouts := ht, ledger := hledger, delivery := hdelivery, byes := hs.byes_concat hg rfl
        accepts := hs.accepts_set hg rfl ?_, runs := hruns, paired := by simp [hs.paired]
        loops := by simp [setAccept, hs.loops] }
      simp [AcceptFits]
  | @acceptSwap i a hi ha hflag =>
      have hfits := hs.accepts a (List.mem_of_getElem? hi)
      rw [AcceptFits, ha] at hfits
      exact { hs with
        timeouts := ht, byes := hbyes, accepts := hs.accepts_set hg rfl ⟨hfits.1, hfits.2, rfl⟩
        runs := hruns, loops := by simp [setAccept, hs.loops], flag := fun _ => hfits.2 }
  | @acceptClose i a hi ha hopen =>
      have hfits := hs.accepts a (List.mem_of_getElem? hi)
      rw [AcceptFits, ha] at hfits
      refine { hs with
        timeouts := ht, byes := hbyes, accepts := hs.accepts_set hg rfl ?_
        runs := hruns, loops := by simp [setAccept, hs.loops] }
      rcases hfits.2.1 with hended | hdone
      · exact Or.inr (Or.inr ⟨hfits.1, hended, fun _ => hfits.2.2⟩)
      · exact Or.inl hdone
  | greet hi hg' hc =>
      obtain ⟨hledger, hdelivery⟩ := hchannel hc
      obtain rfl := Channel.step_put hc
      exact { hs with
        timeouts := ht, ledger := hledger, delivery := hdelivery, byes := hbyes
        accepts := haccepts, runs := hruns }
  | closeStep hk hc =>
      obtain ⟨hledger, hdelivery⟩ := hchannel hc
      obtain ⟨hsame, _, hlength⟩ := Channel.step_closeStep hc
      refine { hs with
        timeouts := ht, ledger := hledger, delivery := hdelivery, byes := hbyes
        accepts := haccepts, runs := ?_, paired := hs.paired.trans hlength.symm, loops := ?_ }
      · rw [hsame]
        exact hruns
      · rw [hsame]
        exact hs.loops
  | @byeMove k pc pc' hk hmove =>
      have hfits := hmove.fits (hs.byes k pc hk)
      exact { hs with
        timeouts := ht, byes := hs.byes_set hg rfl (hfits.grow hg), accepts := haccepts
        runs := hruns, paired := by simp [hs.paired] }
  | @closeSession k hk =>
      have hfits : s.channel.closes[k]? = some (.returned true) := hs.byes k _ hk
      refine { hs with
        timeouts := ht, byes := hs.byes_set hg rfl ?_, accepts := haccepts
        runs := hruns, paired := by simp [hs.paired], flag := fun _ => Or.inl rfl
        announced := fun _ => rfl }
      by_cases himpl : s.impl = .quic
      · rw [if_pos himpl]
        exact ⟨hfits, rfl⟩
      · rw [if_neg himpl]
        exact ⟨hfits, rfl, himpl⟩
  | @byeSwap k hk hflag =>
      obtain ⟨hwon, hended⟩ : s.channel.closes[k]? = some (.returned true) ∧ s.ended = true :=
        hs.byes k _ hk
      exact { hs with
        timeouts := ht, byes := hs.byes_set hg rfl ⟨hwon, hended, rfl⟩, accepts := haccepts
        runs := hruns, paired := by simp [hs.paired], flag := fun _ => Or.inl hended }
  | @byeClose k hk hopen =>
      obtain ⟨hwon, hended, hflag⟩ : s.channel.closes[k]? = some (.returned true) ∧
        s.ended = true ∧ s.timeoutChClosed = true := hs.byes k _ hk
      exact { hs with
        timeouts := ht, byes := hs.byes_set hg rfl (Or.inr ⟨hwon, hended, fun _ => hflag⟩)
        accepts := haccepts, runs := hruns, paired := by simp [hs.paired] }
  | channel ha hc =>
      obtain ⟨hledger, hdelivery⟩ := hchannel hc
      have hown := channel_own hs.ledger ha hc
      refine { hs with
        timeouts := ht, ledger := hledger, delivery := hdelivery, byes := hbyes
        accepts := haccepts, runs := hs.runs_own hown hg, paired := ?_, loops := ?_ }
      · rw [hown.closes]
        exact hs.paired
      · rcases hown.runs with hsame | ⟨j, r, r', _, hset, _⟩
        · rw [hsame]
          exact hs.loops
        · rw [hset, List.length_set]
          exact hs.loops
  | drop | acceptTwice | byeTwice =>
      exact { hs with timeouts := ht, byes := hbyes, accepts := haccepts, runs := hruns }

theorem sound_of_reachable {impl : Impl} (h : (machine impl).Reachable s) : Sound s := by
  refine Machine.Reachable.invariant h ?_ ?_
  · rintro s rfl
    exact sound_init impl
  · intro s a s' hs hstep
    exact (step_rule hstep).sound hs

end Tunnel.Mux.MuxPeer
