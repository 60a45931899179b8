import Tunnel.Lib.Pool
import Tunnel.Messaging.Channel

set_option autoImplicit false

/-! # The messaging stream of a session across reconnects (`server/peers.go`)

Two nodes connect, lose the connection and connect again. Each session gets one messaging stream:
the node that answered opens it, the node that dialled receives it, and both `Register` it with
their `messaging.Channel` under the other's ID. The end of a session in `s.peers` and the end of its
stream in the `Channel` are not connected: the session is removed by `removePeer`, the stream by its
own reader when it fails to read. If the next session gets as far as its own stream first,
`Register` finds the old one and panics (`register_panics_on_reconnect`).

It does not panic if a node only registers a session when the streams of the earlier sessions have
come and gone (`StreamsOver`, `register_never_duplicated`). -/

namespace Tunnel.Server

open Tunnel.Lib Tunnel.Messaging

/-- The two nodes. -/
inductive Side
  | left
  | right
deriving DecidableEq

/-- The other node. -/
def Side.other : Side → Side
  | .left => .right
  | .right => .left

/-- How far a node is with the messaging stream of a session: it has not registered the session in
    `s.peers`; it has, and the stream is still to be opened or received; `openMessaging` has
    started, before `Register`; `Register` has run; or no stream came before the session ended. -/
inductive StreamPc
  | unregistered
  | idle
  | opening
  | registered
  | ended
deriving DecidableEq

/-- A connection between the two nodes, and the session that each makes of it. -/
structure Connection where
  initiator : Side
  closed : Bool
  opened : Bool
  received : Bool
  pc : Side → StreamPc

/-- Node `d` gets to `pc` with the stream. -/
def Connection.setPc (e : Connection) (d : Side) (pc : StreamPc) : Connection :=
  { e with pc := Function.update e.pc d pc }

/-- The two nodes: what each has in `s.peers` under the other's ID, the `messaging.Channel` of each,
    and all connections so far. -/
structure Reconnect where
  peers : Side → Option ℕ
  messaging : Side → Channel
  connections : List Connection

namespace Reconnect

/-- No connection yet. -/
def init : Reconnect := ⟨fun _ => none, fun _ => Channel.init, []⟩

/-- A step: one node connects to the other; a node registers the session in `s.peers`; it opens the
    stream, or receives it from `Handle`, or learns that there will be none; `openMessaging` calls
    `Register`; the goroutines of its streams do something; `removePeer` takes the session out of
    `s.peers` and says `Bye`; the network closes a connection. -/
inductive Action
  | connect (initiator : Side)
  | register (d : Side) (k : ℕ)
  | openStream (d : Side) (k : ℕ)
  | receiveStream (d : Side) (k : ℕ)
  | noStream (d : Side) (k : ℕ)
  | openMessaging (d : Side) (k : ℕ)
  | messaging (d : Side) (a : Channel.Action)
  | removePeer (d : Side)
  | close (k : ℕ)

/-- Connection `k` is now `e`. -/
def setConnection (s : Reconnect) (k : ℕ) (e : Connection) : Reconnect :=
  { s with connections := s.connections.set k e }

/-- The messaging goroutines of node `d` have taken a step. -/
def setMessaging (s : Reconnect) (d : Side) (c : Channel) : Reconnect :=
  { s with messaging := Function.update s.messaging d c }

theorem setMessaging_self (s : Reconnect) (d : Side) (c : Channel) :
    (s.setMessaging d c).messaging d = c := by
  simp [setMessaging]

theorem setMessaging_other (s : Reconnect) {d d' : Side} (c : Channel) (h : d ≠ d') :
    (s.setMessaging d' c).messaging d = s.messaging d := by
  simp [setMessaging, h]

/-- Node `d` has this in `s.peers` under the other's ID. -/
def setPeer (s : Reconnect) (d : Side) (p : Option ℕ) : Reconnect :=
  { s with peers := Function.update s.peers d p }

/-- One step of the two nodes with these IDs (peers.go:135-188). `NewPeer` may store over a session
    that is still there, as its check and its store are two operations. -/
def step (ids : Side → UInt64) (s : Reconnect) : Action → Option Reconnect
  | .connect initiator =>
      some { s with
        connections := s.connections ++ [⟨initiator, false, false, false, fun _ => .unregistered⟩] }
  | .register d k =>
      s.connections[k]?.bind (fun e =>
        if e.pc d = .unregistered then
          some ((s.setConnection k (e.setPc d .idle)).setPeer d (some k))
        else none)
  | .openStream d k =>
      s.connections[k]?.bind (fun e =>
        if e.pc d = .idle ∧ e.initiator ≠ d ∧ e.closed = false then
          some (s.setConnection k { e.setPc d .opening with opened := true })
        else none)
  | .receiveStream d k =>
      s.connections[k]?.bind (fun e =>
        if e.pc d = .idle ∧ e.initiator = d ∧ e.opened = true ∧ e.received = false then
          some (s.setConnection k { e.setPc d .opening with received := true })
        else none)
  | .noStream d k =>
      s.connections[k]?.bind (fun e =>
        if e.pc d = .idle ∧ e.closed = true then some (s.setConnection k (e.setPc d .ended))
        else none)
  | .openMessaging d k =>
      s.connections[k]?.bind (fun e =>
        if e.pc d = .opening then
          ((s.messaging d).step (.register (ids d.other))).map
            ((s.setConnection k (e.setPc d .registered)).setMessaging d)
        else none)
  | .messaging _ (.register _) => none
  | .messaging d a => ((s.messaging d).step a).map (s.setMessaging d)
  | .removePeer d =>
      (s.peers d).bind (fun k => s.connections[k]?.map (fun e =>
        (s.setConnection k { e with closed := true }).setPeer d none))
  | .close k => s.connections[k]?.map (fun e => s.setConnection k { e with closed := true })

/-- Two nodes over every sequence of connects and losses. -/
def machine (ids : Side → UInt64) : Machine Reconnect Action where
  Init s := s = init
  step s a := s.step ids a

/-- A node registers a session only when its messaging is over: every other session it registered
    has had its `Register` or ended without a stream, and no stream of the peer is in the
    `Channel`. -/
def StreamsOver (ids : Side → UInt64) (s : Reconnect) : Action → Prop
  | .register d _ =>
      (∀ e ∈ s.connections, e.pc d ≠ .idle ∧ e.pc d ≠ .opening) ∧
        (s.messaging d).peers.load (ids d.other) = none
  | _ => True

instance (ids : Side → UInt64) (s : Reconnect) : DecidablePred (s.StreamsOver ids)
  | .register _ _ => inferInstanceAs (Decidable (_ ∧ _))
  | .connect _ | .openStream _ _ | .receiveStream _ _ | .noStream _ _ | .openMessaging _ _
  | .messaging _ _ | .removePeer _ | .close _ => isTrue trivial

/-! ## The rules -/

/-- What one step can be. -/
inductive Step (ids : Side → UInt64) (s : Reconnect) : Action → Reconnect → Prop
  | connect {initiator : Side} :
      Step ids s (.connect initiator) { s with
        connections := s.connections ++ [⟨initiator, false, false, false, fun _ => .unregistered⟩] }
  | register {d : Side} {k : ℕ} {e : Connection} (he : s.connections[k]? = some e) :
      Step ids s (.register d k) ((s.setConnection k (e.setPc d .idle)).setPeer d (some k))
  | openStream {d : Side} {k : ℕ} {e : Connection} (he : s.connections[k]? = some e)
      (hpc : e.pc d = .idle) :
      Step ids s (.openStream d k) (s.setConnection k { e.setPc d .opening with opened := true })
  | receiveStream {d : Side} {k : ℕ} {e : Connection} (he : s.connections[k]? = some e)
      (hpc : e.pc d = .idle) :
      Step ids s (.receiveStream d k)
        (s.setConnection k { e.setPc d .opening with received := true })
  | noStream {d : Side} {k : ℕ} {e : Connection} (he : s.connections[k]? = some e) :
      Step ids s (.noStream d k) (s.setConnection k (e.setPc d .ended))
  | openMessaging {d : Side} {k : ℕ} {e : Connection} {c : Channel}
      (he : s.connections[k]? = some e) (hpc : e.pc d = .opening)
      (hc : (s.messaging d).step (.register (ids d.other)) = some c) :
      Step ids s (.openMessaging d k)
        ((s.setConnection k (e.setPc d .registered)).setMessaging d c)
  | messaging {d : Side} {a : Channel.Action} {c : Channel} (ha : ∀ x, a ≠ .register x)
      (hc : (s.messaging d).step a = some c) : Step ids s (.messaging d a) (s.setMessaging d c)
  | removePeer {d : Side} {k : ℕ} {e : Connection} (he : s.connections[k]? = some e) :
      Step ids s (.removePeer d) ((s.setConnection k { e with closed := true }).setPeer d none)
  | close {k : ℕ} {e : Connection} (he : s.connections[k]? = some e) :
      Step ids s (.close k) (s.setConnection k { e with closed := true })

variable {ids : Side → UInt64} {s s' : Reconnect} {a : Action}

theorem step_rule (h : s.step ids a = some s') : Step ids s a s' := by
  cases a with
  | connect initiator =>
      simp only [step, Option.some.injEq] at h
      exact h ▸ .connect
  | register d k =>
      obtain ⟨e, he, h⟩ := Option.bind_eq_some_iff.1 h
      simp only [Option.ite_none_right_eq_some, Option.some.injEq] at h
      exact h.2 ▸ .register he
  | openStream d k =>
      obtain ⟨e, he, h⟩ := Option.bind_eq_some_iff.1 h
      simp only [Option.ite_none_right_eq_some, Option.some.injEq] at h
      exact h.2 ▸ .openStream he h.1.1
  | receiveStream d k =>
      obtain ⟨e, he, h⟩ := Option.bind_eq_some_iff.1 h
      simp only [Option.ite_none_right_eq_some, Option.some.injEq] at h
      exact h.2 ▸ .receiveStream he h.1.1
  | noStream d k =>
      obtain ⟨e, he, h⟩ := Option.bind_eq_some_iff.1 h
      simp only [Option.ite_none_right_eq_some, Option.some.injEq] at h
      exact h.2 ▸ .noStream he
  | openMessaging d k =>
      obtain ⟨e, he, h⟩ := Option.bind_eq_some_iff.1 h
      simp only [Option.ite_none_right_eq_some] at h
      obtain ⟨c, hc, rfl⟩ := Option.map_eq_some_iff.1 h.2
      exact .openMessaging he h.1 hc
  | messaging d a =>
      cases a with
      | register x => exact absurd h (by simp [step])
      | _ =>
          obtain ⟨c, hc, rfl⟩ := Option.map_eq_some_iff.1 h
          exact .messaging (by simp) hc
  | removePeer d =>
      obtain ⟨k, _, h⟩ := Option.bind_eq_some_iff.1 h
      obtain ⟨e, he, rfl⟩ := Option.map_eq_some_iff.1 h
      exact .removePeer he
  | close k =>
      obtain ⟨e, he, rfl⟩ := Option.map_eq_some_iff.1 h
      exact .close he

/-! ## One stream at a time -/

/-- The stream of this connection may still reach `Register` at node `d`. -/
def awaiting (d : Side) (e : Connection) : Bool :=
  e.pc d = .idle ∨ e.pc d = .opening

/-- Node `d` awaits the stream of at most one session, and only while its `Channel` has none. -/
structure Settled (ids : Side → UInt64) (d : Side) (s : Reconnect) : Prop where
  one : s.connections.countP (awaiting d) ≤ 1
  absent : 0 < s.connections.countP (awaiting d) →
    (s.messaging d).peers.load (ids d.other) = none
  calm : ∀ x, (s.messaging d).panic ≠ some (.duplicated x)

@[simp] theorem awaiting_setPc_other {d d' : Side} (e : Connection) (pc : StreamPc) (h : d ≠ d') :
    awaiting d (e.setPc d' pc) = awaiting d e := by
  simp [awaiting, Connection.setPc, h]

namespace Settled

variable {d : Side}

/-- A step after which no more streams are awaited, and that leaves the `Channel` alone. -/
theorem frame (h : s.Settled ids d) {k : ℕ} {e e' : Connection}
    (he : s.connections[k]? = some e) (hawait : awaiting d e' = true → awaiting d e = true)
    (hconn : s'.connections = s.connections.set k e')
    (hmsg : s'.messaging d = s.messaging d) : s'.Settled ids d := by
  have hcount := countP_set_add (awaiting d) he e'
  rw [← hconn] at hcount
  have hle : s'.connections.countP (awaiting d) ≤ s.connections.countP (awaiting d) := by
    have hbool : (awaiting d e').toNat ≤ (awaiting d e).toNat := Bool.toNat_le_toNat hawait
    omega
  refine ⟨hle.trans h.one, fun hpos => ?_, ?_⟩
  · rw [hmsg]
    exact h.absent (hpos.trans_le hle)
  · rw [hmsg]
    exact h.calm

/-- A session is registered when no stream is awaited and none is there. -/
theorem register (h : s.Settled ids d) {k : ℕ} {e : Connection}
    (he : s.connections[k]? = some e) (hok : s.StreamsOver ids (.register d k)) :
    ((s.setConnection k (e.setPc d .idle)).setPeer d (some k)).Settled ids d := by
  have hzero : s.connections.countP (awaiting d) = 0 := by
    rw [List.countP_eq_zero]
    intro e' he'
    simp only [awaiting, decide_eq_true_eq, not_or]
    exact hok.1 e' he'
  have hcount := countP_set_add (awaiting d) he (e.setPc d .idle)
  rw [hzero] at hcount
  have hle := Bool.toNat_le (awaiting d (e.setPc d .idle))
  refine ⟨?_, fun _ => hok.2, h.calm⟩
  show (s.connections.set k (e.setPc d .idle)).countP (awaiting d) ≤ 1
  omega

/-- The stream that was awaited is registered; there was no other. -/
theorem openMessaging (h : s.Settled ids d) {k : ℕ} {e : Connection} {c : Channel}
    (he : s.connections[k]? = some e) (hpc : e.pc d = .opening)
    (hc : (s.messaging d).step (.register (ids d.other)) = some c) :
    ((s.setConnection k (e.setPc d .registered)).setMessaging d c).Settled ids d := by
  have hcount := countP_set_add (awaiting d) he (e.setPc d .registered)
  have hbefore : awaiting d e = true := by simp [awaiting, hpc]
  have hafter : awaiting d (e.setPc d .registered) = false := by
    simp [awaiting, Connection.setPc]
  rw [hbefore, hafter, Bool.toNat_true, Bool.toNat_false] at hcount
  -- it was the only one, so none is awaited now
  have hone := h.one
  have hzero : (s.connections.set k (e.setPc d .registered)).countP (awaiting d) = 0 := by omega
  have habsent : (s.messaging d).peers.load (ids d.other) = none := h.absent (by omega)
  refine ⟨hzero.trans_le zero_le_one, fun hpos => absurd hzero hpos.ne', fun x => ?_⟩
  rw [setMessaging_self]
  obtain ⟨hpanic, hrule⟩ := Channel.step_rule hc
  cases hrule with
  | duplicated hload => exact absurd (habsent.symm.trans hload) (by simp)
  | register _ => simp [hpanic]

/-- The goroutines of the streams of node `d` do something. -/
theorem messaging (h : s.Settled ids d) {a : Channel.Action} {c : Channel}
    (ha : ∀ x, a ≠ .register x) (hc : (s.messaging d).step a = some c) :
    (s.setMessaging d c).Settled ids d := by
  obtain ⟨hpanic, hrule⟩ := Channel.step_rule hc
  refine ⟨h.one, fun hpos => ?_, fun x => ?_⟩
  · rw [setMessaging_self]
    exact hrule.load_of_none ha (h.absent hpos)
  · rw [setMessaging_self]
    exact hrule.panic_ne_duplicated ha hpanic

theorem step (h : s.Settled ids d) (hok : s.StreamsOver ids a) (hs : Step ids s a s') :
    s'.Settled ids d := by
  cases hs with
  | connect =>
      -- a connection is not awaited before the node registers it
      refine ⟨?_, fun hpos => h.absent ?_, h.calm⟩
      · simpa [awaiting] using h.one
      · simpa [awaiting] using hpos
  | @register d' k e he =>
      by_cases hd : d = d'
      · subst hd
        exact h.register he hok
      · exact h.frame he (by simp [hd]) rfl rfl
  | @openStream d' k e he hpc | @receiveStream d' k e he hpc =>
      refine h.frame he (fun hawait => ?_) rfl rfl
      by_cases hd : d = d'
      · simp [awaiting, hd, hpc]
      · exact (awaiting_setPc_other e .opening hd).symm.trans hawait
  | @noStream d' k e he =>
      refine h.frame he (fun hawait => ?_) rfl rfl
      by_cases hd : d = d'
      · exact absurd hawait (by simp [awaiting, Connection.setPc, hd])
      · exact (awaiting_setPc_other e .ended hd).symm.trans hawait
  | @openMessaging d' k e c he hpc hc =>
      by_cases hd : d = d'
      · subst hd
        exact h.openMessaging he hpc hc
      · exact h.frame he (by simp [hd]) rfl (setMessaging_other _ c hd)
  | @messaging d' a c ha hc =>
      by_cases hd : d = d'
      · subst hd
        exact h.messaging ha hc
      · refine ⟨h.one, ?_, ?_⟩
        · rw [setMessaging_other _ _ hd]
          exact h.absent
        · rw [setMessaging_other _ _ hd]
          exact h.calm
  | removePeer he | close he =>
      refine h.frame he ?_ rfl rfl
      exact id

end Settled

/-- **No duplicated stream.** As long as no node registers a session before the streams of the
    earlier ones are over, no `Register` is called, or about to be called, while the `Channel` has a
    stream of the peer. -/
theorem register_never_duplicated {s : Reconnect}
    (h : (machine ids).ReachableVia (fun s a => s.StreamsOver ids a) s) (d : Side) :
    (∀ e ∈ s.connections, e.pc d = .opening →
      (s.messaging d).peers.load (ids d.other) = none) ∧
    ∀ x, (s.messaging d).panic ≠ some (.duplicated x) := by
  have hs : s.Settled ids d := by
    refine h.invariant ?_ (fun _ _ _ hI hok hst => hI.step hok (step_rule hst))
    rintro s rfl
    exact ⟨by simp [init], by simp [init], by simp [init, Channel.init]⟩
  refine ⟨fun e he hpc => hs.absent ?_, hs.calm⟩
  exact List.countP_pos_iff.2 ⟨e, he, by simp [awaiting, hpc]⟩

/-- Node 1 is on the left, node 2 on the right. -/
def exampleIds : Side → UInt64
  | .left => 1
  | .right => 2

/-- Connection `k`, dialled by the left node, is registered on both sides and gets its stream. -/
def established (k : ℕ) : List Action :=
  [.connect .left, .register .left k, .register .right k, .openStream .right k,
    .openMessaging .right k, .receiveStream .left k, .openMessaging .left k]

/-- The network closes connection `k` and both nodes take the session out of `s.peers`. -/
def lost (k : ℕ) : List Action :=
  [.close k, .removePeer .left, .removePeer .right]

/-- The reader of the `k`-th stream of node `d` sees its closed connection and forgets it. -/
def forgotten (d : Side) (k : ℕ) : List Action :=
  [.readError k, .readerForget k, .readerForget k, .readerForget k, .readerForget k].map
    (.messaging d)

/-- The nodes connect again after their readers have forgotten the old stream. -/
def patientRun : List Action :=
  established 0 ++ lost 0 ++ forgotten .left 0 ++ forgotten .right 0 ++ established 1

theorem register_never_duplicated_reconnect :
    ∃ s, (machine exampleIds).ReachableVia (fun s a => s.StreamsOver exampleIds a) s ∧
      (s.messaging .left).streams.length = 2 ∧
      ∀ x, (s.messaging .left).panic ≠ some (.duplicated x) := by
  obtain ⟨s, hrun, hlen⟩ := (machine exampleIds).run_of_exec_any init patientRun
    (P := fun s => (s.messaging .left).streams.length = 2) (by decide)
  have hok : Machine.Meets (fun s a => s.StreamsOver exampleIds a)
      ((machine exampleIds).trace init patientRun) := by
    unfold Machine.Meets
    decide
  have hvia : (machine exampleIds).ReachableVia (fun s a => s.StreamsOver exampleIds a) s :=
    ⟨init, _, rfl, hrun, hok⟩
  exact ⟨s, hvia, hlen, (register_never_duplicated hvia .left).2⟩

/-- The nodes connect again while the readers of the old stream have not seen that it is closed. -/
def hastyRun : List Action :=
  established 0 ++ lost 0 ++
    [.connect .left, .register .left 1, .register .right 1, .openStream .right 1,
      .openMessaging .right 1]

theorem register_panics_on_reconnect :
    ∃ s, (machine exampleIds).Reachable s ∧
      (s.messaging .right).panic = some (.duplicated 1) :=
  (machine exampleIds).reachable_of_exec_any rfl hastyRun (by decide)

end Reconnect

end Tunnel.Server
