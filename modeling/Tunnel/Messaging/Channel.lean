import Mathlib.Data.UInt
import Tunnel.Lib.Chan
import Tunnel.Lib.Machine
import Tunnel.Lib.SyncMap

set_option autoImplicit false

/-! # Messaging streams and their goroutines (`messaging/channel.go`)

A messaging stream has two buffered channels and three goroutines: a writer that drains `out`, a
reader that fills `in`, and a waiter that runs `forget` once both have ended. The reader runs
`forget` as well, when it fails to read. `forget` finds the stream to tear down by the peer's ID, so
what it tears down is whatever stream stands under that ID at the time.

Streams are numbered in the order in which they were registered. Each operation on the map, on a
connection and on a channel is a step of its own. `touches` records on behalf of which stream (the
first number) `forget` deleted, closed the connection of, or closed a channel of which stream (the
second number). A panic stops the program; only `write` recovers from one. The goroutines that the
reader starts for a request or a reply are left to `Rpc.lean`. -/

namespace Tunnel.Messaging

open Tunnel.Lib

/-- `messaging.MessageType`, a 64-bit `int`. -/
abbrev MessageType := Int64

/-- `messageRequestReply` -/
def messageRequestReply : MessageType := 4

/-- `messaging.Message` -/
structure Message where
  type : MessageType
  sender : UInt64
  data : List UInt8
deriving DecidableEq

/-- Program point of `forget`: before the `LoadAndDelete`, and before each close of what it
    found. -/
inductive ForgetPc
  | lookup
  | closeConn (j : ℕ)
  | closeIn (j : ℕ)
  | closeOut (j : ℕ)
deriving DecidableEq

/-- Program point of `writer`: in its `range`, in the `Write` of a message. -/
inductive WriterPc
  | ranging
  | writing
  | done
deriving DecidableEq

/-- Program point of `reader`: in `ReadFrom`, at its send on `in`, in its call of `forget`. -/
inductive ReaderPc
  | reading
  | sending (m : Message)
  | forgetting (pc : ForgetPc)
  | done
deriving DecidableEq

/-- Program point of the goroutine that `Register` starts last: in `wg.Wait`, in `forget`. -/
inductive WaiterPc
  | waiting
  | forgetting (pc : ForgetPc)
  | done
deriving DecidableEq

/-- A `messageChannel`, with the peer it was registered for and its goroutines. -/
structure MessageChannel where
  peer : UInt64
  connClosed : Bool
  inCh : Chan Message 16
  inClosed : Bool
  outCh : Chan Message 16
  outClosed : Bool
  writer : WriterPc
  reader : ReaderPc
  waiter : WaiterPc
deriving DecidableEq

/-- The panics of the package: a second stream for a peer, a second close of a channel, a send on a
    closed one. -/
inductive Panic
  | duplicated (peer : UInt64)
  | closeOfClosedChannel (j : ℕ)
  | sendOnClosedChannel (i : ℕ)
deriving DecidableEq

/-- Program point of `write(peer, m)` after its `Load`: at the send on `out` of the stream it found,
    or returned, with `nil` or with `ErrPeerGone`. -/
inductive WriteCall
  | send (j : ℕ) (m : Message)
  | returned (ok : Bool)
deriving DecidableEq

/-- The state of a `messaging.Channel`. -/
structure Channel where
  peers : SyncMap UInt64 ℕ
  streams : List MessageChannel
  writes : List WriteCall
  touches : List (ℕ × ℕ)
  panic : Option Panic

namespace Channel

/-- `messaging.New` -/
def init : Channel := ⟨∅, [], [], [], none⟩

/-- A stream as `Register` makes it. -/
def newStream (peer : UInt64) : MessageChannel :=
  ⟨peer, false, Chan.empty, false, Chan.empty, false, .ranging, .reading, .waiting⟩

/-- The `i`-th stream changes. -/
def modify (c : Channel) (i : ℕ) (f : MessageChannel → MessageChannel) : Channel :=
  { c with streams := c.streams.modify i f }

/-- `Register` up to its return. -/
def register (c : Channel) (peer : UInt64) : Channel :=
  match c.peers.loadOrStore peer c.streams.length with
  | ((_, true), _) => { c with panic := some (.duplicated peer) }
  | ((_, false), peers) => { c with peers := peers, streams := c.streams ++ [newStream peer] }

/-- One operation of a `forget(peer)` that runs on behalf of stream `i`, and where it is then;
    `none` when it has returned. -/
def forget (c : Channel) (i : ℕ) (peer : UInt64) : ForgetPc → Channel × Option ForgetPc
  | .lookup =>
      match c.peers.load peer with
      | none => (c, none)
      | some j =>
          ({ c with peers := c.peers.delete peer, touches := (i, j) :: c.touches },
            some (.closeConn j))
  | .closeConn j =>
      ({ c.modify j (fun st => { st with connClosed := true }) with
          touches := (i, j) :: c.touches }, some (.closeIn j))
  | .closeIn j =>
      if (c.streams[j]?.elim false MessageChannel.inClosed) = true then
        ({ c with panic := some (.closeOfClosedChannel j) }, none)
      else
        ({ c.modify j (fun st => { st with inClosed := true }) with
            touches := (i, j) :: c.touches }, some (.closeOut j))
  | .closeOut j =>
      if (c.streams[j]?.elim false MessageChannel.outClosed) = true then
        ({ c with panic := some (.closeOfClosedChannel j) }, none)
      else
        ({ c.modify j (fun st => { st with outClosed := true }) with
            touches := (i, j) :: c.touches }, none)

/-- A step: `Register`; the reader of a stream gets a message, fails to read, sends on `in`, or does
    the next operation of its `forget`; the writer receives, or ends a `Write` with or without
    error; the waiter starts or goes on with its `forget`; the receiver of `in` takes a message;
    `write` looks its peer up, or sends. -/
inductive Action
  | register (peer : UInt64)
  | readMessage (i : ℕ) (m : Message)
  | readError (i : ℕ)
  | sendIn (i : ℕ)
  | readerForget (i : ℕ)
  | writerRecv (i : ℕ)
  | wrote (i : ℕ) (ok : Bool)
  | waited (i : ℕ)
  | waiterForget (i : ℕ)
  | consume (i : ℕ)
  | write (peer : UInt64) (m : Message)
  | writeSend (k : ℕ)
deriving DecidableEq

/-- The steps of the reader of stream `i` (channel.go:74-95). -/
def readerStep (c : Channel) (i : ℕ) (st : MessageChannel) : Action → Option Channel
  | .readMessage _ m =>
      if st.reader = .reading then
        if m.type = messageRequestReply then some c
        else some (c.modify i (fun st => { st with reader := .sending m }))
      else none
  | .readError _ =>
      if st.reader = .reading then
        some (c.modify i (fun st => { st with reader := .forgetting .lookup }))
      else none
  | .sendIn _ =>
      match st.reader with
      | .sending m =>
          if st.inClosed = true then some { c with panic := some (.sendOnClosedChannel i) }
          else (st.inCh.send m).map (fun ch =>
            c.modify i (fun st => { st with inCh := ch, reader := .reading }))
      | _ => none
  | .readerForget _ =>
      match st.reader with
      | .forgetting pc =>
          let next := c.forget i st.peer pc
          some (next.1.modify i (fun st =>
            { st with reader := next.2.elim .done ReaderPc.forgetting }))
      | _ => none
  | _ => none

/-- The steps of the writer and of the waiter of stream `i` (channel.go:45-49 and 54-72). -/
def writerStep (c : Channel) (i : ℕ) (st : MessageChannel) : Action → Option Channel
  | .writerRecv _ =>
      if st.writer = .ranging then
        match st.outCh.recv with
        | some (_, ch) => some (c.modify i (fun st => { st with outCh := ch, writer := .writing }))
        | none =>
            if st.outClosed = true then some (c.modify i (fun st => { st with writer := .done }))
            else none
      else none
  | .wrote _ ok =>
      if st.writer = .writing then
        some (c.modify i (fun st => { st with writer := if ok then .ranging else .done }))
      else none
  | .waited _ =>
      if st.waiter = .waiting ∧ st.writer = .done ∧ st.reader = .done then
        some (c.modify i (fun st => { st with waiter := .forgetting .lookup }))
      else none
  | .waiterForget _ =>
      match st.waiter with
      | .forgetting pc =>
          let next := c.forget i st.peer pc
          some (next.1.modify i (fun st =>
            { st with waiter := next.2.elim .done WaiterPc.forgetting }))
      | _ => none
  | _ => none

/-- One step; none once the program has panicked. -/
def step (c : Channel) (a : Action) : Option Channel :=
  if c.panic.isSome = true then none
  else match a with
    | .register peer => some (c.register peer)
    | .readMessage i _ | .readError i | .sendIn i | .readerForget i =>
        c.streams[i]?.bind (fun st => c.readerStep i st a)
    | .writerRecv i | .wrote i _ | .waited i | .waiterForget i =>
        c.streams[i]?.bind (fun st => c.writerStep i st a)
    | .consume i =>
        c.streams[i]?.bind (fun st => st.inCh.recv.map (fun next =>
          c.modify i (fun st => { st with inCh := next.2 })))
    | .write peer m =>
        some { c with
          writes := c.writes ++ [(c.peers.load peer).elim (.returned false) (.send · m)] }
    | .writeSend k =>
        match c.writes[k]? with
        | some (.send j m) =>
            c.streams[j]?.bind (fun st =>
              if st.outClosed = true then some { c with writes := c.writes.set k (.returned false) }
              else (st.outCh.send m).map (fun ch =>
                { c.modify j (fun st => { st with outCh := ch }) with
                  writes := c.writes.set k (.returned true) }))
        | _ => none

/-- A `messaging.Channel` under every sequence of registrations, failures and writes. -/
def machine : Machine Channel Action where
  Init c := c = init
  step := step

/-! ## The rules -/

/-- What one step can be. -/
inductive Step (c : Channel) : Action → Channel → Prop
  | duplicated {peer : UInt64} {j : ℕ} (hload : c.peers.load peer = some j) :
      Step c (.register peer) { c with panic := some (.duplicated peer) }
  | register {peer : UInt64} (hload : c.peers.load peer = none) :
      Step c (.register peer)
        { c with
          peers := c.peers.store peer c.streams.length
          streams := c.streams ++ [newStream peer] }
  | readRequestReply {i : ℕ} {m : Message} : Step c (.readMessage i m) c
  | readMessage {i : ℕ} {m : Message} {st : MessageChannel} (hst : c.streams[i]? = some st)
      (hpc : st.reader = .reading) :
      Step c (.readMessage i m) (c.modify i (fun st => { st with reader := .sending m }))
  | readError {i : ℕ} {st : MessageChannel} (hst : c.streams[i]? = some st)
      (hpc : st.reader = .reading) :
      Step c (.readError i) (c.modify i (fun st => { st with reader := .forgetting .lookup }))
  | sendPanic {i : ℕ} {m : Message} {st : MessageChannel} (hst : c.streams[i]? = some st)
      (hpc : st.reader = .sending m) (hclosed : st.inClosed = true) :
      Step c (.sendIn i) { c with panic := some (.sendOnClosedChannel i) }
  | sendIn {i : ℕ} {m : Message} {st : MessageChannel} {ch : Chan Message 16}
      (hst : c.streams[i]? = some st) (hpc : st.reader = .sending m) :
      Step c (.sendIn i) (c.modify i (fun st => { st with inCh := ch, reader := .reading }))
  | readerForget {i : ℕ} {pc : ForgetPc} {st : MessageChannel} (hst : c.streams[i]? = some st)
      (hpc : st.reader = .forgetting pc) :
      Step c (.readerForget i) ((c.forget i st.peer pc).1.modify i (fun st' =>
        { st' with reader := (c.forget i st.peer pc).2.elim .done ReaderPc.forgetting }))
  | writerRecv {i : ℕ} {st : MessageChannel} {ch : Chan Message 16}
      (hst : c.streams[i]? = some st) :
      Step c (.writerRecv i) (c.modify i (fun st => { st with outCh := ch, writer := .writing }))
  | writerEnd {i : ℕ} {st : MessageChannel} (hst : c.streams[i]? = some st) :
      Step c (.writerRecv i) (c.modify i (fun st => { st with writer := .done }))
  | wrote {i : ℕ} {ok : Bool} {st : MessageChannel} (hst : c.streams[i]? = some st) :
      Step c (.wrote i ok)
        (c.modify i (fun st => { st with writer := if ok then .ranging else .done }))
  | waited {i : ℕ} {st : MessageChannel} (hst : c.streams[i]? = some st)
      (hpc : st.waiter = .waiting) (hwriter : st.writer = .done) (hreader : st.reader = .done) :
      Step c (.waited i) (c.modify i (fun st => { st with waiter := .forgetting .lookup }))
  | waiterForget {i : ℕ} {pc : ForgetPc} {st : MessageChannel} (hst : c.streams[i]? = some st)
      (hpc : st.waiter = .forgetting pc) :
      Step c (.waiterForget i) ((c.forget i st.peer pc).1.modify i (fun st' =>
        { st' with waiter := (c.forget i st.peer pc).2.elim .done WaiterPc.forgetting }))
  | consume {i : ℕ} {st : MessageChannel} {ch : Chan Message 16} (hst : c.streams[i]? = some st) :
      Step c (.consume i) (c.modify i (fun st => { st with inCh := ch }))
  | write {peer : UInt64} {m : Message} {call : WriteCall} :
      Step c (.write peer m) { c with writes := c.writes ++ [call] }
  | writeGone {k : ℕ} {call : WriteCall} :
      Step c (.writeSend k) { c with writes := c.writes.set k call }
  | writeSend {k j : ℕ} {call : WriteCall} {st : MessageChannel} {ch : Chan Message 16}
      (hst : c.streams[j]? = some st) :
      Step c (.writeSend k)
        { c.modify j (fun st => { st with outCh := ch }) with writes := c.writes.set k call }

variable {c c' : Channel} {a : Action}

theorem readerStep_rule {i : ℕ} {st : MessageChannel} (hst : c.streams[i]? = some st)
    (ha : (∃ m, a = .readMessage i m) ∨ a = .readError i ∨ a = .sendIn i ∨ a = .readerForget i)
    (h : c.readerStep i st a = some c') : Step c a c' := by
  rcases ha with ⟨m, rfl⟩ | rfl | rfl | rfl
  · simp only [readerStep, Option.ite_none_right_eq_some] at h
    obtain ⟨hpc, h⟩ := h
    by_cases hm : m.type = messageRequestReply
    · rw [if_pos hm, Option.some.injEq] at h
      exact h ▸ .readRequestReply
    · rw [if_neg hm, Option.some.injEq] at h
      exact h ▸ .readMessage hst hpc
  · simp only [readerStep, Option.ite_none_right_eq_some, Option.some.injEq] at h
    obtain ⟨hpc, rfl⟩ := h
    exact .readError hst hpc
  · simp only [readerStep] at h
    split at h
    · next m hpc =>
        by_cases hclosed : st.inClosed = true
        · rw [if_pos hclosed, Option.some.injEq] at h
          exact h ▸ .sendPanic hst hpc hclosed
        · rw [if_neg hclosed] at h
          obtain ⟨ch, _, rfl⟩ := Option.map_eq_some_iff.1 h
          exact .sendIn hst hpc
    · exact absurd h (by simp)
  · simp only [readerStep] at h
    split at h
    · next pc hpc =>
        simp only [Option.some.injEq] at h
        subst h
        exact .readerForget hst hpc
    · exact absurd h (by simp)

theorem writerStep_rule {i : ℕ} {st : MessageChannel} (hst : c.streams[i]? = some st)
    (ha : a = .writerRecv i ∨ (∃ ok, a = .wrote i ok) ∨ a = .waited i ∨ a = .waiterForget i)
    (h : c.writerStep i st a = some c') : Step c a c' := by
  rcases ha with rfl | ⟨ok, rfl⟩ | rfl | rfl
  · simp only [writerStep, Option.ite_none_right_eq_some] at h
    obtain ⟨_, h⟩ := h
    split at h
    · simp only [Option.some.injEq] at h
      subst h
      exact .writerRecv hst
    · simp only [Option.ite_none_right_eq_some, Option.some.injEq] at h
      obtain ⟨_, rfl⟩ := h
      exact .writerEnd hst
  · simp only [writerStep, Option.ite_none_right_eq_some, Option.some.injEq] at h
    obtain ⟨_, rfl⟩ := h
    exact .wrote hst
  · simp only [writerStep, Option.ite_none_right_eq_some, Option.some.injEq] at h
    obtain ⟨⟨hpc, hwriter, hreader⟩, rfl⟩ := h
    exact .waited hst hpc hwriter hreader
  · simp only [writerStep] at h
    split at h
    · next pc hpc =>
        simp only [Option.some.injEq] at h
        subst h
        exact .waiterForget hst hpc
    · exact absurd h (by simp)

/-- Every step is one of the rules, and is taken before any panic. -/
theorem step_rule (h : c.step a = some c') : c.panic = none ∧ Step c a c' := by
  unfold step at h
  split at h
  · exact absurd h (by simp)
  · next hpanic =>
      refine ⟨Option.not_isSome_iff_eq_none.1 hpanic, ?_⟩
      cases a with
      | register peer =>
          simp only [register, SyncMap.loadOrStore, Option.some.injEq] at h
          cases hload : c.peers.load peer with
          | some j =>
              rw [hload] at h
              subst h
              exact .duplicated hload
          | none =>
              rw [hload] at h
              subst h
              exact .register hload
      | readMessage i m =>
          obtain ⟨st, hst, h⟩ := Option.bind_eq_some_iff.1 h
          exact readerStep_rule hst (by simp) h
      | readError i | sendIn i | readerForget i =>
          obtain ⟨st, hst, h⟩ := Option.bind_eq_some_iff.1 h
          exact readerStep_rule hst (by simp) h
      | writerRecv i | wrote i | waited i | waiterForget i =>
          obtain ⟨st, hst, h⟩ := Option.bind_eq_some_iff.1 h
          exact writerStep_rule hst (by simp) h
      | consume i =>
          obtain ⟨st, hst, h⟩ := Option.bind_eq_some_iff.1 h
          obtain ⟨next, _, rfl⟩ := Option.map_eq_some_iff.1 h
          exact .consume hst
      | write peer m =>
          simp only [Option.some.injEq] at h
          subst h
          exact .write
      | writeSend k =>
          simp only at h
          split at h
          · obtain ⟨st, hst, h⟩ := Option.bind_eq_some_iff.1 h
            split at h
            · simp only [Option.some.injEq] at h
              subst h
              exact .writeGone
            · obtain ⟨ch, _, rfl⟩ := Option.map_eq_some_iff.1 h
              exact .writeSend hst
          · exact absurd h (by simp)

/-! ## What `forget` and the goroutines leave alone -/

/-- `forget` only deletes from the map. -/
theorem load_forget_of_none {i : ℕ} {peer x : UInt64} (pc : ForgetPc)
    (hx : c.peers.load x = none) : (c.forget i peer pc).1.peers.load x = none := by
  cases pc with
  | lookup =>
      unfold forget
      cases hload : c.peers.load peer with
      | none => exact hx
      | some j =>
          show (c.peers.delete peer).load x = none
          by_cases hxp : x = peer
          · rw [hxp, SyncMap.load_delete_self]
          · rw [SyncMap.load_delete_ne _ hxp, hx]
  | closeConn j => exact hx
  | closeIn j | closeOut j =>
      simp only [forget]
      split
      · exact hx
      · exact hx

/-- The panic of `forget` is not that of `Register`. -/
theorem panic_forget_ne_duplicated {i : ℕ} {peer x : UInt64} (pc : ForgetPc)
    (hc : c.panic = none) : (c.forget i peer pc).1.panic ≠ some (.duplicated x) := by
  have hne : c.panic ≠ some (.duplicated x) := by simp [hc]
  cases pc with
  | lookup =>
      unfold forget
      cases hload : c.peers.load peer with
      | none => exact hne
      | some j => exact hne
  | closeConn j => exact hne
  | closeIn j | closeOut j =>
      simp only [forget]
      split
      · simp
      · exact hne

/-- Only `Register` brings a peer into the map. -/
theorem Step.load_of_none {x : UInt64} (h : Step c a c') (ha : ∀ peer, a ≠ .register peer)
    (hx : c.peers.load x = none) : c'.peers.load x = none := by
  cases h with
  | duplicated _ => exact absurd rfl (ha _)
  | register _ => exact absurd rfl (ha _)
  | readerForget _ _ => exact load_forget_of_none _ hx
  | waiterForget _ _ => exact load_forget_of_none _ hx
  | _ => exact hx

/-- Only `Register` panics over a stream that is there already. -/
theorem Step.panic_ne_duplicated {x : UInt64} (h : Step c a c') (ha : ∀ peer, a ≠ .register peer)
    (hc : c.panic = none) : c'.panic ≠ some (.duplicated x) := by
  have hne : c.panic ≠ some (.duplicated x) := by simp [hc]
  cases h with
  | duplicated _ => exact absurd rfl (ha _)
  | register _ => exact absurd rfl (ha _)
  | sendPanic _ _ _ => simp
  | readerForget _ _ => exact panic_forget_ne_duplicated _ hc
  | waiterForget _ _ => exact panic_forget_ne_duplicated _ hc
  | _ => exact hne

end Channel

end Tunnel.Messaging
