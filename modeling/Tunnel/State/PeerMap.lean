import Mathlib.Algebra.BigOperators.Group.List.Basic
import Tunnel.Lib.Chan
import Tunnel.Lib.SyncMap
import Tunnel.Multiplexer.Peer

set_option autoImplicit false

/-! # The peer map (`state/peer_map.go`)

`PeerMap` maps the IDs of connected peers to their sessions, counts them, and hands every new
session to the goroutine that reads `Notify()`. Its operations are not atomic: each operation of
`NewPeer` and `Remove` on the `sync.Map`, on the counter and on the channel is a step of its own,
and any number of calls may be in progress at once. A call in progress is a value that says where it
is (`NewPeerCall`, `RemoveCall`); `step` moves it by one operation, `none` when it is blocked or has
returned.

What lies outside the source resolves itself by the flag `ok` of a step: whether the multiplexing
library starts the session, and which case of the `select` over `NotifyClose` and the wait is
taken. -/

namespace Tunnel.State

open Tunnel.Lib Tunnel.Multiplexer

/-- The shared state of a `PeerMap`. `next` numbers the sessions made so far, so that each one made
    is a different value. -/
structure PeerMap where
  peers : SyncMap UInt64 Session
  num : UInt64
  notify : Chan Session 16
  next : ℕ

namespace PeerMap

/-- `NewPeerMap` -/
def init : PeerMap := ⟨∅, 0, Chan.empty, 0⟩

/-- `PeerMap.Len`. An `int` has 64 bits, so the conversion keeps every count a map can reach. -/
def len (m : PeerMap) : ℕ := m.num.toNat

/-- `PeerMap.Get` -/
def get (m : PeerMap) (peer : UInt64) : Option Session := m.peers.load peer

/-- Every session stands under the ID of its peer, which is not 0. -/
def Keyed (m : PeerMap) : Prop := ∀ x p, m.peers.load x = some p → p.peer = x ∧ x ≠ 0

theorem keyed_init : init.Keyed := by
  intro x p h
  exact absurd h (by simp [init])

theorem Keyed.store {m : PeerMap} (hm : m.Keyed) {p : Session} (hp : p.peer ≠ 0) :
    Keyed { m with peers := m.peers.store p.peer p } := by
  intro x q hq
  by_cases hx : x = p.peer
  · subst hx
    simp only [SyncMap.load_store_self, Option.some.injEq] at hq
    exact ⟨hq ▸ rfl, hp⟩
  · exact hm x q (by simpa [SyncMap.load_store_ne _ _ hx] using hq)

theorem Keyed.delete {m : PeerMap} (hm : m.Keyed) (y : UInt64) :
    Keyed { m with peers := m.peers.delete y } := by
  intro x q hq
  by_cases hx : x = y
  · subst hx
    exact absurd hq (by simp)
  · exact hm x q (by simpa [SyncMap.load_delete_ne _ hx] using hq)

end PeerMap

/-! ## `NewPeer` -/

/-- The errors `NewPeer` returns. -/
inductive NewPeerError
  | sessionAlreadyEstablished
  | unknownProtocol
  | invalidPeer
  | notStarted
  | closed
deriving DecidableEq

/-- The texts of the errors; the one of a session that does not start begins with this. -/
def NewPeerError.text : NewPeerError → String
  | .sessionAlreadyEstablished => "already have a session with this peer"
  | .unknownProtocol => errUnknownProtocol
  | .invalidPeer => "peer cannot be 0"
  | .notStarted => "starting a peer connection: "
  | .closed => "peer closed after negotiation"

/-- Program point of `NewPeer`: before the `Load`; before the constructor; in the `select`; before
    the `Store`; before the `AddUint64`; at the send on `notify`. -/
inductive NewPeerPc
  | load
  | construct
  | wait (p : Session)
  | store (p : Session)
  | add (p : Session)
  | notify (p : Session)
  | returned (r : Except NewPeerError Session)

/-- A call `NewPeer(ctx, protocol, conf)` in progress. -/
structure NewPeerCall where
  protocol : Protocol
  conf : Config
  pc : NewPeerPc

namespace NewPeerCall

/-- The session the call has made, unless it gave it up again. -/
def session (c : NewPeerCall) : Option Session :=
  match c.pc with
  | .wait p | .store p | .add p | .notify p | .returned (.ok p) => some p
  | .load | .construct | .returned (.error _) => none

/-- The session the call has registered. A call past its `Store` has no error left to return: it
    returns `nil`, and no other call does. -/
def stored (c : NewPeerCall) : Option Session :=
  match c.pc with
  | .add p | .notify p | .returned (.ok p) => some p
  | .load | .construct | .wait _ | .store _ | .returned (.error _) => none

/-- The session the call has registered and not sent on `notify` yet. -/
def unsent (c : NewPeerCall) : Option Session :=
  match c.pc with
  | .add p | .notify p => some p
  | .load | .construct | .wait _ | .store _ | .returned _ => none

/-- The ID under which the next operation of the call stores a session, if it is a `Store`. -/
def storing (c : NewPeerCall) : Option UInt64 :=
  match c.pc with
  | .store _ => some c.conf.peer
  | _ => none

end NewPeerCall

/-- `multiplexer.New(proto)` followed by the constructor it returns: `Validate`, then the library's
    own start of the session. -/
def construct (protocol : Protocol) (conf : Config) (id : ℕ) (started : Bool) :
    Except NewPeerError Session :=
  match new protocol, conf.validate, started with
  | .error _, _, _ => .error .unknownProtocol
  | .ok _, .error _, _ => .error .invalidPeer
  | .ok _, .ok _, false => .error .notStarted
  | .ok _, .ok _, true =>
      .ok { id := id, peer := conf.peer, protocol := protocol, initiator := conf.initiator }

theorem construct_ok {protocol : Protocol} {conf : Config} {id : ℕ} {started : Bool} {p : Session}
    (h : construct protocol conf id started = .ok p) :
    conf.peer ≠ 0 ∧
      p = { id := id, peer := conf.peer, protocol := protocol, initiator := conf.initiator } := by
  unfold construct at h
  split at h
  · exact absurd h (by simp)
  · exact absurd h (by simp)
  · exact absurd h (by simp)
  · next hval =>
      simp only [Except.ok.injEq] at h
      refine ⟨fun hzero => ?_, h.symm⟩
      simp [Config.validate, hzero] at hval

/-- One operation of `NewPeer` (peer_map.go:47-75). -/
def NewPeerCall.step (m : PeerMap) (c : NewPeerCall) (ok : Bool) :
    Option (PeerMap × NewPeerCall) :=
  match c.pc with
  | .load =>
      if (m.peers.load c.conf.peer).isSome then
        some (m, { c with pc := .returned (.error .sessionAlreadyEstablished) })
      else some (m, { c with pc := .construct })
  | .construct =>
      match construct c.protocol c.conf m.next ok with
      | .error e => some (m, { c with pc := .returned (.error e) })
      | .ok p => some ({ m with next := m.next + 1 }, { c with pc := .wait p })
  | .wait p =>
      some (m, { c with pc := if ok then .store p else .returned (.error .closed) })
  | .store p =>
      some ({ m with peers := m.peers.store c.conf.peer p }, { c with pc := .add p })
  | .add p => some ({ m with num := m.num + 1 }, { c with pc := .notify p })
  | .notify p =>
      (m.notify.send p).map (fun ch =>
        ({ m with notify := ch }, { c with pc := .returned (.ok p) }))
  | .returned _ => none

/-- The rules of `NewPeer`: what one operation requires and what it does. -/
inductive NewPeerCall.Step (m : PeerMap) (c : NewPeerCall) : PeerMap → NewPeerCall → Prop
  | established {p : Session} (hpc : c.pc = .load) (hload : m.peers.load c.conf.peer = some p) :
      Step m c m { c with pc := .returned (.error .sessionAlreadyEstablished) }
  | absent (hpc : c.pc = .load) (hload : m.peers.load c.conf.peer = none) :
      Step m c m { c with pc := .construct }
  | refused {e : NewPeerError} (hpc : c.pc = .construct) :
      Step m c m { c with pc := .returned (.error e) }
  | constructed {p : Session} (hpc : c.pc = .construct) (hpeer : c.conf.peer ≠ 0)
      (hp : p = ⟨m.next, c.conf.peer, c.protocol, c.conf.initiator⟩) :
      Step m c { m with next := m.next + 1 } { c with pc := .wait p }
  | waited {p : Session} (hpc : c.pc = .wait p) : Step m c m { c with pc := .store p }
  | closed {p : Session} (hpc : c.pc = .wait p) :
      Step m c m { c with pc := .returned (.error .closed) }
  | store {p : Session} (hpc : c.pc = .store p) :
      Step m c { m with peers := m.peers.store c.conf.peer p } { c with pc := .add p }
  | add {p : Session} (hpc : c.pc = .add p) :
      Step m c { m with num := m.num + 1 } { c with pc := .notify p }
  | notify {p : Session} {ch : Chan Session 16} (hpc : c.pc = .notify p)
      (hch : m.notify.send p = some ch) :
      Step m c { m with notify := ch } { c with pc := .returned (.ok p) }

theorem NewPeerCall.step_rule {m m' : PeerMap} {c c' : NewPeerCall} {ok : Bool}
    (h : c.step m ok = some (m', c')) : c.Step m m' c' := by
  unfold NewPeerCall.step at h
  split at h
  · next hpc =>
      split at h
      · next hsome =>
          obtain ⟨p, hp⟩ := Option.isSome_iff_exists.1 hsome
          simp only [Option.some.injEq, Prod.mk.injEq] at h
          obtain ⟨rfl, rfl⟩ := h
          exact .established hpc hp
      · next hnone =>
          simp only [Option.some.injEq, Prod.mk.injEq] at h
          obtain ⟨rfl, rfl⟩ := h
          exact .absent hpc (Option.not_isSome_iff_eq_none.1 hnone)
  · next hpc =>
      split at h
      · simp only [Option.some.injEq, Prod.mk.injEq] at h
        obtain ⟨rfl, rfl⟩ := h
        exact .refused hpc
      · next p hp =>
          simp only [Option.some.injEq, Prod.mk.injEq] at h
          obtain ⟨rfl, rfl⟩ := h
          obtain ⟨hpeer, hsession⟩ := construct_ok hp
          exact .constructed hpc hpeer hsession
  · next p hpc =>
      simp only [Option.some.injEq, Prod.mk.injEq] at h
      obtain ⟨rfl, rfl⟩ := h
      cases ok with
      | true => exact .waited hpc
      | false => exact .closed hpc
  · next p hpc =>
      simp only [Option.some.injEq, Prod.mk.injEq] at h
      obtain ⟨rfl, rfl⟩ := h
      exact .store hpc
  · next p hpc =>
      simp only [Option.some.injEq, Prod.mk.injEq] at h
      obtain ⟨rfl, rfl⟩ := h
      exact .add hpc
  · next p hpc =>
      simp only [Option.map_eq_some_iff, Prod.mk.injEq] at h
      obtain ⟨ch, hch, rfl, rfl⟩ := h
      exact .notify hpc hch
  · exact absurd h (by simp)

/-- An operation makes a session only where there was none, and the session is a new one. -/
theorem NewPeerCall.Step.session {m m' : PeerMap} {c c' : NewPeerCall} (h : c.Step m m' c') :
    m'.next = m.next ∧ (c'.session = c.session ∨ c'.session = none) ∨
      m'.next = m.next + 1 ∧ c.session = none ∧ c.conf.peer ≠ 0 ∧
        c'.session = some ⟨m.next, c.conf.peer, c.protocol, c.conf.initiator⟩ := by
  cases h with
  | constructed hpc hpeer hp =>
      subst hp
      exact Or.inr ⟨rfl, by simp [NewPeerCall.session, hpc], hpeer, rfl⟩
  | _ => exact Or.inl ⟨rfl, by simp_all [NewPeerCall.session]⟩

/-- The session a call registers stays with it until it is sent on `notify`. -/
theorem NewPeerCall.Step.token {m m' : PeerMap} {c c' : NewPeerCall} (h : c.Step m m' c')
    (p : Session) :
    (decide (c'.unsent = some p)).toNat + m'.notify.buf.count p + (decide (c.stored = some p)).toNat
      = (decide (c.unsent = some p)).toNat + m.notify.buf.count p
        + (decide (c'.stored = some p)).toNat := by
  cases h with
  | @notify q ch hpc hch =>
      rw [(Chan.send_eq_some.1 hch).2, List.count_append]
      by_cases hqp : q = p
      · simp [NewPeerCall.unsent, NewPeerCall.stored, hpc, hqp]
        omega
      · simp [NewPeerCall.unsent, NewPeerCall.stored, hpc, hqp]
  | @store q hpc =>
      by_cases hqp : q = p
      · simp [NewPeerCall.unsent, NewPeerCall.stored, hpc, hqp]
        omega
      · simp [NewPeerCall.unsent, NewPeerCall.stored, hpc, hqp]
  | _ => simp_all [NewPeerCall.unsent, NewPeerCall.stored]

theorem NewPeerCall.Step.conf {m m' : PeerMap} {c c' : NewPeerCall} (h : c.Step m m' c') :
    c'.conf = c.conf := by
  cases h <;> rfl

theorem NewPeerCall.session_of_stored {c : NewPeerCall} {p : Session} (h : c.stored = some p) :
    c.session = some p := by
  unfold NewPeerCall.stored at h
  unfold NewPeerCall.session
  split at h <;> simp_all

/-- `n` operations of a call with no other call in between, when the session starts and stays
    open. -/
def NewPeerCall.run (m : PeerMap) (c : NewPeerCall) : ℕ → Option (PeerMap × NewPeerCall)
  | 0 => some (m, c)
  | n + 1 => (c.step m true).bind (fun next => NewPeerCall.run next.1 next.2 n)

/-- A call for a peer without a session registers one and hands it to the reader of `notify`. -/
theorem NewPeerCall.run_ok {m : PeerMap} {protocol : Protocol} (conf : Config) {p : Session}
    (hproto : protocol ∈ protocolRegistry) (hpeer : conf.peer ≠ 0)
    (habsent : m.get conf.peer = none) (hroom : ¬ m.notify.IsFull)
    (hp : p = ⟨m.next, conf.peer, protocol, conf.initiator⟩) :
    ∃ m', NewPeerCall.run m ⟨protocol, conf, .load⟩ 6 =
        some (m', ⟨protocol, conf, .returned (.ok p)⟩) ∧
      m'.get conf.peer = some p ∧ p ∈ m'.notify.buf := by
  have hload : m.peers.load conf.peer = none := habsent
  have hnew : new protocol = .ok () := by
    simp only [protocolRegistry, List.mem_cons, List.not_mem_nil, or_false] at hproto
    rcases hproto with rfl | rfl | rfl <;> rfl
  have hmade : construct protocol conf m.next true = .ok p := by
    unfold construct
    rw [hnew, Config.validate, if_neg hpeer, hp]
  obtain ⟨ch, hch⟩ : ∃ ch, m.notify.send p = some ch :=
    ⟨⟨m.notify.buf ++ [p], by
      rw [List.length_append]
      exact Chan.not_isFull_iff.1 hroom⟩, Chan.send_eq_some.2 ⟨hroom, rfl⟩⟩
  refine ⟨⟨m.peers.store conf.peer p, m.num + 1, ch, m.next + 1⟩, ?_, ?_, ?_⟩
  · simp [NewPeerCall.run, NewPeerCall.step, hload, hmade, hch]
  · exact SyncMap.load_store_self _ _ _
  · rw [(Chan.send_eq_some.1 hch).2]
    simp

/-! ## `Remove` -/

/-- Program point of `Remove`: before the `LoadAndDelete`; before the `AddUint64`; before `Bye`;
    returned, with the session that was deleted. -/
inductive RemovePc
  | loadAndDelete
  | add (p : Session)
  | bye (p : Session)
  | returned (removed : Option Session)
deriving DecidableEq

/-- A call `Remove(peer)` in progress. -/
structure RemoveCall where
  peer : UInt64
  pc : RemovePc
deriving DecidableEq

/-- One operation of `Remove` (peer_map.go:126-134). -/
def RemoveCall.step (m : PeerMap) (c : RemoveCall) : Option (PeerMap × RemoveCall) :=
  match c.pc with
  | .loadAndDelete =>
      match m.peers.load c.peer with
      | none => some (m, { c with pc := .returned none })
      | some p => some ({ m with peers := m.peers.delete c.peer }, { c with pc := .add p })
  | .add p => some ({ m with num := m.num + ~~~0 }, { c with pc := .bye p })
  | .bye p => some (m, { c with pc := .returned (some p) })
  | .returned _ => none

/-- The rules of `Remove`. -/
inductive RemoveCall.Step (m : PeerMap) (c : RemoveCall) : PeerMap → RemoveCall → Prop
  | absent (hpc : c.pc = .loadAndDelete) (hload : m.peers.load c.peer = none) :
      Step m c m { c with pc := .returned none }
  | delete {p : Session} (hpc : c.pc = .loadAndDelete) (hload : m.peers.load c.peer = some p) :
      Step m c { m with peers := m.peers.delete c.peer } { c with pc := .add p }
  | add {p : Session} (hpc : c.pc = .add p) :
      Step m c { m with num := m.num + ~~~0 } { c with pc := .bye p }
  | bye {p : Session} (hpc : c.pc = .bye p) : Step m c m { c with pc := .returned (some p) }

theorem RemoveCall.step_rule {m m' : PeerMap} {c c' : RemoveCall} (h : c.step m = some (m', c')) :
    c.Step m m' c' := by
  unfold RemoveCall.step at h
  split at h
  · next hpc =>
      split at h
      · next hload =>
          simp only [Option.some.injEq, Prod.mk.injEq] at h
          obtain ⟨rfl, rfl⟩ := h
          exact .absent hpc hload
      · next p hload =>
          simp only [Option.some.injEq, Prod.mk.injEq] at h
          obtain ⟨rfl, rfl⟩ := h
          exact .delete hpc hload
  · next p hpc =>
      simp only [Option.some.injEq, Prod.mk.injEq] at h
      obtain ⟨rfl, rfl⟩ := h
      exact .add hpc
  · next p hpc =>
      simp only [Option.some.injEq, Prod.mk.injEq] at h
      obtain ⟨rfl, rfl⟩ := h
      exact .bye hpc
  · exact absurd h (by simp)

end Tunnel.State
