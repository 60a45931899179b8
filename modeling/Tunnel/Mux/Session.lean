import Tunnel.Multiplexer.Channel

set_option autoImplicit false

/-! # The life of a session (`mux/yamux.go`, `mux/mplex.go`, `mux/quic.go`)

`Start` accepts the streams that the other side opens, and has each greeted by a `streamHandshake`
goroutine, which reads the link and calls `Put`. `Null`, which the server uses for its clients,
accepts one stream only, and hangs up when there is one. Both start the loop of the channel. `Bye`
closes the channel, and whoever was the first to do so closes the session; `NotifyClose` is how the
server learns that the session is over.

The three types differ in two ways. `Accept` of QUIC gives up when the context is cancelled, and the
others look at the context before the call only. And QUIC has no channel of its own to announce the
end of a session, so `QUIC` keeps one, `timeoutCh`, which `Bye` and `Null` close through
`closeTimeoutCh`. The sessions of the two other libraries have a `CloseChan`; what is assumed of it
is that the library closes it some time after the session is over, and not before (`announce`).

Any number of calls of `Start`, `Null` and `Bye` are in progress at once, over the model of
`multiplexer.Channel`, whose calls of `Close` are those made by `Bye`, under the same numbers. The
session of the library has ended when either side closed it or the network did (`fail`). Streams
have the numbers in which the other side opened them. -/

namespace Tunnel.Mux

open Tunnel.Lib Tunnel.Multiplexer

/-- The types that implement `multiplexer.Peer`. -/
inductive Impl
  | yamux
  | mplex
  | quic
deriving DecidableEq

/-- Program point of `Bye`: in `channel.Close()`; before the session is closed; before the
    connection under it is (not QUIC); in `closeTimeoutCh` (QUIC), before the compare-and-swap and
    before the close; returned. -/
inductive ByePc
  | close
  | session
  | conn
  | compare
  | timeout
  | returned
deriving DecidableEq

/-- Program point of `Start` and of `Null`: before the `select`; in `AcceptStream`; in
    `closeTimeoutCh`; in the `k`-th `Bye`; returned. -/
inductive AcceptPc
  | select
  | accept
  | compare
  | timeout
  | bye (k : ℕ)
  | returned
deriving DecidableEq

/-- A call of `Null`, or else of `Start`. -/
structure Acceptor where
  null : Bool
  pc : AcceptPc
deriving DecidableEq

/-- A `streamHandshake` goroutine, and whether it is still waiting for the link. What it does
    afterwards is its call of `Put`. -/
structure Greeting where
  stream : ℕ
  reading : Bool
deriving DecidableEq

/-- The call is about to close `timeoutCh`. -/
def ByePc.closing : ByePc → Bool
  | .timeout => true
  | .close | .session | .conn | .compare | .returned => false

/-- The call is about to close `timeoutCh`. -/
def Acceptor.closing (a : Acceptor) : Bool :=
  match a.pc with
  | .timeout => true
  | .select | .accept | .compare | .bye _ | .returned => false

/-- A `Yamux`, `Mplex` or `QUIC` with the calls on it. -/
structure MuxPeer where
  impl : Impl
  channel : Channel ℕ
  /-- The session is over. -/
  ended : Bool
  /-- The context of `Start` and `Null` is cancelled. -/
  done : Bool
  timeoutChClosed : Bool
  /-- `timeoutCh` is closed. -/
  timeoutCh : Bool
  /-- `CloseChan()` of the session is closed (not QUIC). -/
  closeChan : Bool
  /-- The number of streams that the other side has opened, and those not yet accepted. -/
  opened : ℕ
  backlog : List ℕ
  accepts : List Acceptor
  greetings : List Greeting
  /-- The streams whose handshake failed, and those that `Null` accepted; nobody keeps them. -/
  dropped : List ℕ
  refused : List ℕ
  byes : List ByePc
  /-- `timeoutCh` was closed twice. -/
  panicked : Bool

namespace MuxPeer

/-- `NewYamuxPeer`, `NewMplexPeer`, `NewQuicPeer` -/
def init (impl : Impl) : MuxPeer where
  impl := impl
  channel := Channel.init
  ended := false
  done := false
  timeoutChClosed := false
  timeoutCh := false
  closeChan := false
  opened := 0
  backlog := []
  accepts := []
  greetings := []
  dropped := []
  refused := []
  byes := []
  panicked := false

/-- A step: a call begins; the context is cancelled; the other side opens a stream; the session ends
    from outside; the library announces its end; the `i`-th `Start` or `Null` does its next
    operation, or has an error from `AcceptStream`; the `i`-th handshake reads a link, or fails; the
    `k`-th `Bye` does its next operation; a `Run` moves, or the consumer receives. -/
inductive Action
  | start
  | null
  | bye
  | cancel
  | stream
  | fail
  | announce
  | accept (i : ℕ)
  | acceptErr (i : ℕ)
  | greet (i : ℕ) (ok : Bool)
  | byeStep (k : ℕ)
  | channel (a : Channel.Action ℕ)

/-- The steps of the channel that are not those of `Put`, `Close` and the beginning of `Run`, which
    the goroutines of this file make. A `Run` is cancelled with the context. -/
def ownChannel (s : MuxPeer) : Channel.Action ℕ → Bool
  | .cancel _ => s.done
  | .runStep _ | .takeDone _ | .takeCloser _ | .handover _ _ | .receive => true
  | .put _ | .close | .run | .closeStep _ => false

/-- `go p.channel.Run(ctx)` and what follows it. -/
def beginAccept (s : MuxPeer) (null : Bool) : Option MuxPeer :=
  (s.channel.step .run).map (fun c =>
    { s with channel := c, accepts := s.accepts ++ [⟨null, .select⟩] })

/-- The call of `Bye`. -/
def beginBye (s : MuxPeer) : Option MuxPeer :=
  (s.channel.step .close).map (fun c => { s with channel := c, byes := s.byes ++ [.close] })

/-- The `i`-th `Start` or `Null` is at `pc` now. -/
def setAccept (s : MuxPeer) (i : ℕ) (a : Acceptor) (pc : AcceptPc) : List Acceptor :=
  s.accepts.set i { a with pc := pc }

/-- `AcceptStream` returns an error: of a session that is over, and with QUIC also when the context
    is cancelled. -/
def acceptFails (s : MuxPeer) : Bool := s.ended || (decide (s.impl = .quic) && s.done)

/-- The next operation of `Start` and `Null` (yamux.go:101-116 and 123-133), where `AcceptStream`
    returns a stream. -/
def acceptStep (s : MuxPeer) (i : ℕ) (a : Acceptor) : Option MuxPeer :=
  match a.pc with
  | .select =>
      some { s with accepts := s.setAccept i a (if s.done = true then .returned else .accept) }
  | .accept =>
      match s.backlog with
      | [] => none
      | x :: rest =>
          if a.null = true then
            beginBye { s with
              backlog := rest
              refused := s.refused ++ [x]
              accepts := s.setAccept i a (.bye s.byes.length) }
          else some { s with
            backlog := rest
            greetings := s.greetings ++ [⟨x, true⟩]
            accepts := s.setAccept i a .select }
  | .compare =>
      if s.timeoutChClosed = false then
        some { s with timeoutChClosed := true, accepts := s.setAccept i a .timeout }
      else some { s with accepts := s.setAccept i a .returned }
  | .timeout =>
      if s.timeoutCh = true then some { s with panicked := true }
      else some { s with timeoutCh := true, accepts := s.setAccept i a .returned }
  | .bye k =>
      if s.byes[k]? = some .returned then some { s with accepts := s.setAccept i a .returned }
      else none
  | .returned => none

/-- `AcceptStream` returns an error: `Start` calls `Bye`, `Null` does not. -/
def acceptErr (s : MuxPeer) (i : ℕ) (a : Acceptor) : Option MuxPeer :=
  if a.pc = .accept ∧ s.acceptFails = true then
    if a.null = true then
      some { s with accepts := s.setAccept i a (if s.impl = .quic then .compare else .returned) }
    else beginBye { s with accepts := s.setAccept i a (.bye s.byes.length) }
  else none

/-- `streamHandshake` reads the link and calls `Put`, or drops the stream. -/
def greetStep (s : MuxPeer) (i : ℕ) (g : Greeting) (ok : Bool) : Option MuxPeer :=
  if g.reading = true then
    if ok = true then
      (s.channel.step (.put g.stream)).map (fun c =>
        { s with channel := c, greetings := s.greetings.set i { g with reading := false } })
    else some { s with
      greetings := s.greetings.set i { g with reading := false }
      dropped := s.dropped ++ [g.stream] }
  else none

/-- The next operation of the `k`-th `Bye` (yamux.go:214-220, quic.go:213-217 and 223-229). -/
def byeStep (s : MuxPeer) (k : ℕ) : ByePc → Option MuxPeer
  | .close =>
      match s.channel.closes[k]? with
      | some (.returned true) => some { s with byes := s.byes.set k .session }
      | some (.returned false) => some { s with byes := s.byes.set k .returned }
      | _ => (s.channel.step (.closeStep k)).map (fun c => { s with channel := c })
  | .session =>
      some { s with
        ended := true
        byes := s.byes.set k (if s.impl = .quic then .compare else .conn) }
  | .conn => some { s with byes := s.byes.set k .returned }
  | .compare =>
      if s.timeoutChClosed = false then
        some { s with timeoutChClosed := true, byes := s.byes.set k .timeout }
      else some { s with byes := s.byes.set k .returned }
  | .timeout =>
      if s.timeoutCh = true then some { s with panicked := true }
      else some { s with timeoutCh := true, byes := s.byes.set k .returned }
  | .returned => none

/-- One step; none after a panic. -/
def step (s : MuxPeer) (a : Action) : Option MuxPeer :=
  if s.panicked = true then none
  else match a with
    | .start => s.beginAccept false
    | .null => s.beginAccept true
    | .bye => s.beginBye
    | .cancel => some { s with done := true }
    | .stream =>
        if s.ended = true then none
        else some { s with opened := s.opened + 1, backlog := s.backlog ++ [s.opened] }
    | .fail => some { s with ended := true }
    | .announce =>
        if s.impl ≠ .quic ∧ s.ended = true ∧ s.closeChan = false then
          some { s with closeChan := true }
        else none
    | .accept i => s.accepts[i]?.bind (s.acceptStep i)
    | .acceptErr i => s.accepts[i]?.bind (s.acceptErr i)
    | .greet i ok => s.greetings[i]?.bind (fun g => s.greetStep i g ok)
    | .byeStep k => s.byes[k]?.bind (s.byeStep k)
    | .channel a =>
        if s.ownChannel a = true then (s.channel.step a).map (fun c => { s with channel := c })
        else none

/-- A session under every number of concurrent calls. -/
def machine (impl : Impl) : Machine MuxPeer Action where
  Init s := s = init impl
  step := step

/-- `NotifyClose()` is closed: `CloseChan()` of the session, or `timeoutCh`. -/
def notifyClosed (s : MuxPeer) : Bool :=
  match s.impl with
  | .yamux | .mplex => s.closeChan
  | .quic => s.timeoutCh

/-! ## What a step can do -/

/-- What a `Start` or `Null` does that changes only where it is. -/
inductive AcceptMove (s : MuxPeer) (a : Acceptor) : AcceptPc → Prop
  | go (h : a.pc = .select) (hdone : s.done = false) : AcceptMove s a .accept
  | quit (h : a.pc = .select) (hdone : s.done = true) : AcceptMove s a .returned
  | nullQuic (h : a.pc = .accept) (hnull : a.null = true) (hfails : s.acceptFails = true)
      (himpl : s.impl = .quic) : AcceptMove s a .compare
  | nullReturns (h : a.pc = .accept) (hnull : a.null = true) (hfails : s.acceptFails = true)
      (himpl : s.impl ≠ .quic) : AcceptMove s a .returned
  | lost (h : a.pc = .compare) (hflag : s.timeoutChClosed = true) : AcceptMove s a .returned
  | waited {k : ℕ} (h : a.pc = .bye k) (hk : s.byes[k]? = some .returned) :
      AcceptMove s a .returned

/-- What a `Bye` does that changes only where it is. -/
inductive ByeMove (s : MuxPeer) (k : ℕ) : ByePc → ByePc → Prop
  | won (h : s.channel.closes[k]? = some (.returned true)) : ByeMove s k .close .session
  | lost (h : s.channel.closes[k]? = some (.returned false)) : ByeMove s k .close .returned
  | conn : ByeMove s k .conn .returned
  | timeout (hflag : s.timeoutChClosed = true) : ByeMove s k .compare .returned

/-- The steps, one rule each. -/
inductive Step (s : MuxPeer) : MuxPeer → Prop
  | begin (null : Bool) {c : Channel ℕ} (hc : s.channel.step .run = some c) :
      Step s { s with channel := c, accepts := s.accepts ++ [⟨null, .select⟩] }
  | bye {c : Channel ℕ} (hc : s.channel.step .close = some c) :
      Step s { s with channel := c, byes := s.byes ++ [.close] }
  | cancel : Step s { s with done := true }
  | stream (hended : s.ended = false) :
      Step s { s with opened := s.opened + 1, backlog := s.backlog ++ [s.opened] }
  | fail : Step s { s with ended := true }
  | announce (hended : s.ended = true) : Step s { s with closeChan := true }
  | accept {i : ℕ} {a : Acceptor} {pc : AcceptPc} (hi : s.accepts[i]? = some a)
      (hmove : AcceptMove s a pc) : Step s { s with accepts := s.setAccept i a pc }
  | take {i x : ℕ} {a : Acceptor} {rest : List ℕ} (hi : s.accepts[i]? = some a)
      (ha : a.pc = .accept) (hnull : a.null = false) (hx : s.backlog = x :: rest) :
      Step s { s with
        backlog := rest
        greetings := s.greetings ++ [⟨x, true⟩]
        accepts := s.setAccept i a .select }
  | refuse {i x : ℕ} {a : Acceptor} {rest : List ℕ} {c : Channel ℕ} (hi : s.accepts[i]? = some a)
      (ha : a.pc = .accept) (hnull : a.null = true) (hx : s.backlog = x :: rest)
      (hc : s.channel.step .close = some c) :
      Step s { s with
        channel := c
        byes := s.byes ++ [.close]
        backlog := rest
        refused := s.refused ++ [x]
        accepts := s.setAccept i a (.bye s.byes.length) }
  | hangUp {i : ℕ} {a : Acceptor} {c : Channel ℕ} (hi : s.accepts[i]? = some a)
      (ha : a.pc = .accept) (hnull : a.null = false) (hfails : s.acceptFails = true)
      (hc : s.channel.step .close = some c) :
      Step s { s with
        channel := c
        byes := s.byes ++ [.close]
        accepts := s.setAccept i a (.bye s.byes.length) }
  | acceptSwap {i : ℕ} {a : Acceptor} (hi : s.accepts[i]? = some a) (ha : a.pc = .compare)
      (hflag : s.timeoutChClosed = false) :
      Step s { s with timeoutChClosed := true, accepts := s.setAccept i a .timeout }
  | acceptClose {i : ℕ} {a : Acceptor} (hi : s.accepts[i]? = some a) (ha : a.pc = .timeout)
      (hopen : s.timeoutCh = false) :
      Step s { s with timeoutCh := true, accepts := s.setAccept i a .returned }
  | acceptTwice {i : ℕ} {a : Acceptor} (hi : s.accepts[i]? = some a) (ha : a.pc = .timeout)
      (hclosed : s.timeoutCh = true) : Step s { s with panicked := true }
  | greet {i : ℕ} {g : Greeting} {c : Channel ℕ} (hi : s.greetings[i]? = some g)
      (hg : g.reading = true) (hc : s.channel.step (.put g.stream) = some c) :
      Step s { s with
        channel := c, greetings := s.greetings.set i { g with reading := false } }
  | drop {i : ℕ} {g : Greeting} (hi : s.greetings[i]? = some g) (hg : g.reading = true) :
      Step s { s with
        greetings := s.greetings.set i { g with reading := false }
        dropped := s.dropped ++ [g.stream] }
  | closeStep {k : ℕ} {c : Channel ℕ} (hk : s.byes[k]? = some .close)
      (hc : s.channel.step (.closeStep k) = some c) : Step s { s with channel := c }
  | byeMove {k : ℕ} {pc pc' : ByePc} (hk : s.byes[k]? = some pc) (hmove : ByeMove s k pc pc') :
      Step s { s with byes := s.byes.set k pc' }
  | closeSession {k : ℕ} (hk : s.byes[k]? = some .session) :
      Step s { s with
        ended := true
        byes := s.byes.set k (if s.impl = .quic then .compare else .conn) }
  | byeSwap {k : ℕ} (hk : s.byes[k]? = some .compare) (hflag : s.timeoutChClosed = false) :
      Step s { s with timeoutChClosed := true, byes := s.byes.set k .timeout }
  | byeClose {k : ℕ} (hk : s.byes[k]? = some .timeout) (hopen : s.timeoutCh = false) :
      Step s { s with timeoutCh := true, byes := s.byes.set k .returned }
  | byeTwice {k : ℕ} (hk : s.byes[k]? = some .timeout) (hclosed : s.timeoutCh = true) :
      Step s { s with panicked := true }
  | channel {a : Channel.Action ℕ} {c : Channel ℕ} (ha : s.ownChannel a = true)
      (hc : s.channel.step a = some c) : Step s { s with channel := c }

variable {s s' : MuxPeer}

theorem acceptStep_rule {i : ℕ} {a : Acceptor} (hi : s.accepts[i]? = some a)
    (h : s.acceptStep i a = some s') : Step s s' := by
  unfold acceptStep at h
  split at h
  · next ha =>
      cases h
      by_cases hdone : s.done = true
      · rw [if_pos hdone]
        exact .accept hi (.quit ha hdone)
      · rw [if_neg hdone]
        exact .accept hi (.go ha (by simpa using hdone))
  · next ha =>
      split at h
      · cases h
      · next x rest hx =>
          split at h
          · next hnull =>
              obtain ⟨c, hc, rfl⟩ := Option.map_eq_some_iff.1 h
              exact .refuse hi ha hnull hx hc
          · next hnull =>
              cases h
              exact .take hi ha (by simpa using hnull) hx
  · next ha =>
      split at h
      · next hflag => cases h; exact .acceptSwap hi ha hflag
      · next hflag => cases h; exact .accept hi (.lost ha (by simpa using hflag))
  · next ha =>
      split at h
      · next hclosed => cases h; exact .acceptTwice hi ha hclosed
      · next hopen => cases h; exact .acceptClose hi ha (by simpa using hopen)
  · next k ha =>
      split at h
      · next hk => cases h; exact .accept hi (.waited ha hk)
      · cases h
  · cases h

theorem acceptErr_rule {i : ℕ} {a : Acceptor} (hi : s.accepts[i]? = some a)
    (h : s.acceptErr i a = some s') : Step s s' := by
  unfold acceptErr at h
  split at h
  · next hcond =>
      split at h
      · next hnull =>
          cases h
          by_cases himpl : s.impl = .quic
          · rw [if_pos himpl]
            exact .accept hi (.nullQuic hcond.1 hnull hcond.2 himpl)
          · rw [if_neg himpl]
            exact .accept hi (.nullReturns hcond.1 hnull hcond.2 himpl)
      · next hnull =>
          obtain ⟨c, hc, rfl⟩ := Option.map_eq_some_iff.1 h
          exact .hangUp hi hcond.1 (by simpa using hnull) hcond.2 hc
  · cases h

theorem greetStep_rule {i : ℕ} {g : Greeting} {ok : Bool} (hi : s.greetings[i]? = some g)
    (h : s.greetStep i g ok = some s') : Step s s' := by
  unfold greetStep at h
  split at h
  · next hg =>
      split at h
      · obtain ⟨c, hc, rfl⟩ := Option.map_eq_some_iff.1 h
        exact .greet hi hg hc
      · cases h
        exact .drop hi hg
  · cases h

theorem byeStep_rule {k : ℕ} {pc : ByePc} (hk : s.byes[k]? = some pc)
    (h : s.byeStep k pc = some s') : Step s s' := by
  cases pc with
  | close =>
      simp only [byeStep] at h
      split at h
      · next hc => cases h; exact .byeMove hk (.won hc)
      · next hc => cases h; exact .byeMove hk (.lost hc)
      · obtain ⟨c, hc, rfl⟩ := Option.map_eq_some_iff.1 h
        exact .closeStep hk hc
  | session => cases h; exact .closeSession hk
  | conn => cases h; exact .byeMove hk .conn
  | compare =>
      simp only [byeStep] at h
      split at h
      · next hflag => cases h; exact .byeSwap hk hflag
      · next hflag => cases h; exact .byeMove hk (.timeout (by simpa using hflag))
  | timeout =>
      simp only [byeStep] at h
      split at h
      · next hclosed => cases h; exact .byeTwice hk hclosed
      · next hopen => cases h; exact .byeClose hk (by simpa using hopen)
  | returned => cases h

theorem step_rule {a : Action} (h : s.step a = some s') : Step s s' := by
  unfold step at h
  split at h
  · cases h
  cases a with
  | start =>
      obtain ⟨c, hc, rfl⟩ := Option.map_eq_some_iff.1 h
      exact .begin false hc
  | null =>
      obtain ⟨c, hc, rfl⟩ := Option.map_eq_some_iff.1 h
      exact .begin true hc
  | bye =>
      obtain ⟨c, hc, rfl⟩ := Option.map_eq_some_iff.1 h
      exact .bye hc
  | cancel => cases h; exact .cancel
  | stream =>
      simp only at h
      split at h
      · cases h
      · next hended => cases h; exact .stream (by simpa using hended)
  | fail => cases h; exact .fail
  | announce =>
      simp only at h
      split at h
      · next hcond => cases h; exact .announce hcond.2.1
      · cases h
  | accept i =>
      obtain ⟨a, hi, ha⟩ := Option.bind_eq_some_iff.1 h
      exact acceptStep_rule hi ha
  | acceptErr i =>
      obtain ⟨a, hi, ha⟩ := Option.bind_eq_some_iff.1 h
      exact acceptErr_rule hi ha
  | greet i ok =>
      obtain ⟨g, hi, hg⟩ := Option.bind_eq_some_iff.1 h
      exact greetStep_rule hi hg
  | byeStep k =>
      obtain ⟨pc, hk, hpc⟩ := Option.bind_eq_some_iff.1 h
      exact byeStep_rule hk hpc
  | channel a =>
      simp only at h
      split at h
      · next ha =>
          obtain ⟨c, hc, rfl⟩ := Option.map_eq_some_iff.1 h
          exact .channel ha hc
      · cases h

end MuxPeer

end Tunnel.Mux
