import Tunnel.Lib.Machine
import Tunnel.Lib.Pool
import Tunnel.State.PeerGraph
import Tunnel.State.PeerMap

set_option autoImplicit false

/-! # The gossiped client state (`server/clients.go`, `server/backgroud.go`)

A node gossips the filter of its connected clients from a cache. `NewPeer` puts a client into the
map and hands its session to `handleClientEvents`, which starts a goroutine for it; that goroutine
sends an event when the client is there and another one when it was removed; and
`backgroundDispatcher` rebuilds the filter for each event it receives. `clientEvtCh` has room for
one event, so events of several clients may be answered by one rebuild.

The argument is that no change of the map is forgotten: after it, something is still on its way to
`clientEvtCh` (`Pending`), or the dispatcher has seen it (`Fresh`). A rebuild that began before a
change does not count, and does not have to: the event of that change comes after it. -/

namespace Tunnel.Server

open Tunnel.Lib Tunnel.Multiplexer Tunnel.State

/-- Program point of the goroutine that `handleClientEvents` starts for a session: at its first
    send; in its `select`; inside `s.clients.Remove`; at its second send; the `select` took the end
    of the server; returned. -/
inductive WatcherPc
  | sendRegistered
  | watching
  | remove (pc : RemovePc)
  | sendRemoved
  | exited
  | returned
deriving DecidableEq

/-- The goroutine will send an event. While it watches, it may or may not. -/
def WatcherPc.sends : WatcherPc → Bool
  | .sendRegistered | .remove _ | .sendRemoved => true
  | .watching | .exited | .returned => false

/-- The goroutine of one client session. -/
structure Watcher where
  session : Session
  pc : WatcherPc
deriving DecidableEq

/-- Program point of `backgroundDispatcher`: in its `select`; in the `Range` of `Snapshot`; before
    the `Store` of the bytes; returned. -/
inductive DispatcherPc
  | waiting
  | snapshot (view : RangeView UInt64)
  | store (b : List UInt8)
  | returned
deriving DecidableEq

/-- The clients of a node and its cache. `done` says that the context of the server is cancelled,
    and `closed` are the sessions whose `NotifyClose` has fired. -/
structure Clients where
  clients : PeerMap
  newPeers : List NewPeerCall
  watchers : List Watcher
  clientEvtCh : Signal
  dispatcher : DispatcherPc
  connectedClients : Option (List UInt8)
  closed : List Session
  done : Bool

namespace Clients

def init : Clients where
  clients := PeerMap.init
  newPeers := []
  watchers := []
  clientEvtCh := Chan.empty
  dispatcher := .waiting
  connectedClients := none
  closed := []
  done := false

/-- The clients registered so far. -/
def registered (s : Clients) : List Session := s.newPeers.filterMap NewPeerCall.stored

/-- The keys of the map, as `Range` sees them. -/
def keys (s : Clients) : List UInt64 := s.clients.peers.keys

/-- The map becomes `m`, which a `Snapshot` in progress may or may not see. -/
def withClients (s : Clients) (m : PeerMap) : Clients :=
  { s with
    clients := m
    dispatcher := match s.dispatcher with
      | .snapshot v =>
          if m.peers.keys = s.clients.peers.keys then .snapshot v
          else .snapshot (v.observe m.peers.keys)
      | pc => pc }

/-- A step: `NewPeer` is called, or the `i`-th call does its next operation; its session is closed
    by the network; the context is cancelled; `handleClientEvents` receives a session and starts its
    goroutine; the `i`-th such goroutine exits with the server, or does its next operation; the
    dispatcher returns, receives an event, ends its `Snapshot`, or stores the bytes. -/
inductive Action
  | newPeer (protocol : Protocol) (conf : Config)
  | advance (i : ℕ) (ok : Bool)
  | close (i : ℕ)
  | cancel
  | recvNotify
  | exit (i : ℕ)
  | watch (i : ℕ)
  | dispatchDone
  | dispatch
  | snapshot (seen : List UInt64)
  | store

/-- The next operation of the goroutine of a session (clients.go:162-171). -/
def watchStep (s : Clients) (i : ℕ) (w : Watcher) : Option Clients :=
  match w.pc with
  | .sendRegistered =>
      (s.clientEvtCh.send ()).map (fun ch =>
        { s with clientEvtCh := ch, watchers := s.watchers.set i { w with pc := .watching } })
  | .watching =>
      if w.session ∈ s.closed then
        some { s with watchers := s.watchers.set i { w with pc := .remove .loadAndDelete } }
      else none
  | .remove pc =>
      (RemoveCall.step s.clients ⟨w.session.peer, pc⟩).map (fun next =>
        { s.withClients next.1 with
          watchers := s.watchers.set i
            { w with pc := match next.2.pc with | .returned _ => .sendRemoved | pc' => .remove pc' }
          closed := match pc with | .bye p => p :: s.closed | _ => s.closed })
  | .sendRemoved =>
      (s.clientEvtCh.send ()).map (fun ch =>
        { s with clientEvtCh := ch, watchers := s.watchers.set i { w with pc := .returned } })
  | .exited | .returned => none

/-- One step. `generateConnectedClients` (backgroud.go:27-39) logs an error of
    `NewConnectedClients` and returns. -/
def step (lib : FilterLib BinaryFuse8) (id : UInt64) (s : Clients) : Action → Option Clients
  | .newPeer protocol conf =>
      some { s with newPeers := s.newPeers ++ [⟨protocol, conf, .load⟩] }
  | .advance i ok =>
      s.newPeers[i]?.bind (fun c => (c.step s.clients ok).map (fun next =>
        { s.withClients next.1 with newPeers := s.newPeers.set i next.2 }))
  | .close i =>
      (s.newPeers[i]?.bind NewPeerCall.session).map (fun p => { s with closed := p :: s.closed })
  | .cancel => some { s with done := true }
  | .recvNotify =>
      s.clients.notify.recv.map (fun next =>
        { s with
          clients := { s.clients with notify := next.2 }
          watchers := s.watchers ++ [⟨next.1, .sendRegistered⟩] })
  | .exit i =>
      s.watchers[i]?.bind (fun w =>
        if w.pc = .watching ∧ s.done = true then
          some { s with watchers := s.watchers.set i { w with pc := .exited } }
        else none)
  | .watch i => s.watchers[i]?.bind (s.watchStep i)
  | .dispatchDone =>
      if s.dispatcher = .waiting ∧ s.done = true then some { s with dispatcher := .returned }
      else none
  | .dispatch =>
      if s.dispatcher = .waiting then
        s.clientEvtCh.recv.map (fun next =>
          { s with clientEvtCh := next.2, dispatcher := .snapshot (RangeView.start s.keys) })
      else none
  | .snapshot seen =>
      match s.dispatcher with
      | .snapshot v =>
          if v.Admits seen then
            match newConnectedClients lib id seen with
            | .error _ => some { s with dispatcher := .waiting }
            | .ok c => some { s with dispatcher := .store c.marshalBinary }
          else none
      | _ => none
  | .store =>
      match s.dispatcher with
      | .store b => some { s with connectedClients := some b, dispatcher := .waiting }
      | _ => none

/-- The clients of the node `id`, over every interleaving. -/
def machine (lib : FilterLib BinaryFuse8) (id : UInt64) : Machine Clients Action where
  Init s := s = init
  step s a := s.step lib id a

/-! ## Nothing is forgotten -/

/-- Something is on its way to the dispatcher: a registered session that is not sent on `notify`, or
    waits there; a goroutine that will send an event; or an event in the buffer. -/
def Pending (s : Clients) : Prop :=
  (∃ c ∈ s.newPeers, c.unsent.isSome = true) ∨ s.clients.notify.buf ≠ [] ∨
    (∃ w ∈ s.watchers, w.pc.sends = true) ∨ ¬ s.clientEvtCh.IsEmpty

/-- `b` are the bytes of a filter of exactly the clients in the map. -/
def Current (lib : FilterLib BinaryFuse8) (id : UInt64) (s : Clients) (b : List UInt8) : Prop :=
  ∃ clients c, clients.Perm s.keys ∧ newConnectedClients lib id clients = .ok c ∧
    b = c.marshalBinary

/-- Wherever the dispatcher is, what it has or is about to have is current. -/
def Fresh (lib : FilterLib BinaryFuse8) (id : UInt64) (s : Clients) : Prop :=
  match s.dispatcher with
  | .waiting => s.registered ≠ [] → ∃ b, s.connectedClients = some b ∧ Current lib id s b
  | .snapshot v => v.Exact s.keys
  | .store b => Current lib id s b
  | .returned => True

variable {lib : FilterLib BinaryFuse8} {id : UInt64} {s s' : Clients} {a : Action}

theorem withClients_eq {m : PeerMap} (h : m.peers.keys = s.keys) :
    s.withClients m = { s with clients := m } := by
  have hkeys : m.peers.keys = s.clients.peers.keys := h
  have hpc : (match s.dispatcher with
      | .snapshot v =>
          if m.peers.keys = s.clients.peers.keys then .snapshot v
          else .snapshot (v.observe m.peers.keys)
      | pc => pc) = s.dispatcher := by
    cases s.dispatcher with
    | snapshot v => exact if_pos hkeys
    | _ => rfl
  rw [withClients, hpc]

/-- Being fresh depends on the dispatcher, the keys of the map, the cache and what was registered
    only. -/
theorem Fresh.congr (h : Fresh lib id s) (hpc : s'.dispatcher = s.dispatcher)
    (hkeys : s'.keys = s.keys) (hreg : s'.registered = s.registered)
    (hcached : s'.connectedClients = s.connectedClients) : Fresh lib id s' := by
  unfold Fresh Current at h ⊢
  rw [hpc, hkeys, hreg, hcached]
  exact h

/-- An operation of `NewPeer` leaves something on its way, or neither registers nor changes the
    map. -/
theorem newPeer_step_quiet {m m' : PeerMap} {c c' : NewPeerCall} (h : c.Step m m' c') :
    c'.unsent.isSome = true ∨ m'.notify.buf ≠ [] ∨
      c.unsent = none ∧ c'.stored = c.stored ∧ m'.peers = m.peers ∧ m'.notify = m.notify := by
  cases h with
  | store hpc => exact Or.inl rfl
  | add hpc => exact Or.inl rfl
  | notify hpc hch => exact Or.inr (Or.inl (Chan.not_isEmpty_of_send hch))
  | _ =>
      refine Or.inr (Or.inr ?_)
      simp_all [NewPeerCall.unsent, NewPeerCall.stored]

/-- An operation of the `i`-th `NewPeer`. -/
theorem advance_pending_or_fresh {i : ℕ} {c c' : NewPeerCall} {m' : PeerMap}
    (hc : s.newPeers[i]? = some c) (h : c.Step s.clients m' c') (hs : Pending s ∨ Fresh lib id s) :
    Pending { s.withClients m' with newPeers := s.newPeers.set i c' } ∨
      Fresh lib id { s.withClients m' with newPeers := s.newPeers.set i c' } := by
  rcases newPeer_step_quiet h with hun | hbuf | ⟨hun, hst, hm, hn⟩
  · exact Or.inl (Or.inl ⟨c', mem_set_self hc c', hun⟩)
  · exact Or.inl (Or.inr (Or.inl hbuf))
  · have hkeys : m'.peers.keys = s.keys := by rw [hm]; rfl
    rw [withClients_eq hkeys]
    refine hs.imp ?_ (fun hf => hf.congr rfl hkeys (filterMap_set_of_eq hc hst) rfl)
    rintro (hcall | hrest)
    · exact Or.inl (exists_mem_set hc hcall (fun habs => absurd habs (by simp [hun])))
    · refine Or.inr (hrest.imp_left ?_)
      intro hbuf
      simpa only [hn] using hbuf

/-- A goroutine that sends an event, or will, leaves something on its way. -/
theorem watchStep_pending {i : ℕ} {w : Watcher} (hw : s.watchers[i]? = some w)
    (h : s.watchStep i w = some s') : Pending s' := by
  -- the goroutine itself is what is on its way
  have hsends : ∀ w' : Watcher, w'.pc.sends = true → s'.watchers = s.watchers.set i w' →
      Pending s' := by
    intro w' hw' hset
    exact Or.inr (Or.inr (Or.inl ⟨w', hset ▸ mem_set_self hw w', hw'⟩))
  unfold watchStep at h
  split at h
  · obtain ⟨ch, hch, rfl⟩ := Option.map_eq_some_iff.1 h
    exact Or.inr (Or.inr (Or.inr (Chan.not_isEmpty_of_send hch)))
  · split at h
    · cases h
      exact hsends _ rfl rfl
    · cases h
  · obtain ⟨next, _, rfl⟩ := Option.map_eq_some_iff.1 h
    refine hsends _ ?_ rfl
    split <;> rfl
  · obtain ⟨ch, hch, rfl⟩ := Option.map_eq_some_iff.1 h
    exact Or.inr (Or.inr (Or.inr (Chan.not_isEmpty_of_send hch)))
  · cases h
  · cases h

/-- A `Snapshot` with an exact view, and a filter that can be built of it, give the bytes of a
    current filter. -/
theorem current_of_snapshot (id : UInt64)
    (hpop : ∀ keys : List UInt64, keys.Nodup → ∃ f, lib.populate keys = .ok f)
    {v : RangeView UInt64} {seen : List UInt64} (hv : v.Exact s.keys) (hseen : v.Admits seen) :
    ∃ c, newConnectedClients lib id seen = .ok c ∧ Current lib id s c.marshalBinary := by
  have hperm : seen.Perm s.keys :=
    (List.perm_ext_iff_of_nodup hseen.1 s.clients.peers.keys_nodup).2 (hv.mem_iff hseen)
  obtain ⟨f, hf⟩ := hpop seen hseen.1
  have hok : newConnectedClients lib id seen
      = .ok { peer := id, crc64 := crc64 (seen.flatMap putUint64), f := f } := by
    simp [newConnectedClients, hf, bind, Except.bind, pure, Except.pure]
  exact ⟨_, hok, seen, _, hperm, hok, rfl⟩

/-- **One step.** Whatever step is taken, something is on its way or the dispatcher is up to
    date. -/
theorem step_pending_or_fresh
    (hpop : ∀ keys : List UInt64, keys.Nodup → ∃ f, lib.populate keys = .ok f)
    (h : s.step lib id a = some s') (hs : Pending s ∨ Fresh lib id s) :
    Pending s' ∨ Fresh lib id s' := by
  cases a with
  | newPeer protocol conf =>
      cases h
      refine hs.imp ?_ (fun hf => hf.congr rfl rfl ?_ rfl)
      · refine Or.imp_left ?_
        rintro ⟨c, hc, hunsent⟩
        exact ⟨c, List.mem_append_left _ hc, hunsent⟩
      · have hnone : (⟨protocol, conf, .load⟩ : NewPeerCall).stored = none := rfl
        simp [registered, hnone]
  | advance i ok =>
      obtain ⟨c, hc, hstep⟩ := Option.bind_eq_some_iff.1 h
      obtain ⟨⟨m', c'⟩, hc', rfl⟩ := Option.map_eq_some_iff.1 hstep
      exact advance_pending_or_fresh hc (NewPeerCall.step_rule hc') hs
  | close i =>
      obtain ⟨p, _, rfl⟩ := Option.map_eq_some_iff.1 h
      exact hs.imp (fun hp => hp) (fun hf => hf.congr rfl rfl rfl rfl)
  | cancel =>
      cases h
      exact hs.imp (fun hp => hp) (fun hf => hf.congr rfl rfl rfl rfl)
  | recvNotify =>
      obtain ⟨⟨p, ch⟩, _, rfl⟩ := Option.map_eq_some_iff.1 h
      exact Or.inl (Or.inr (Or.inr (Or.inl ⟨⟨p, .sendRegistered⟩, by simp, rfl⟩)))
  | exit i =>
      obtain ⟨w, hw, hexit⟩ := Option.bind_eq_some_iff.1 h
      split at hexit
      · next hpc =>
          cases hexit
          refine hs.imp ?_ (fun hf => hf.congr rfl rfl rfl rfl)
          refine Or.imp_right (Or.imp_right (Or.imp_left ?_))
          intro hsend
          exact exists_mem_set hw hsend (fun habs => absurd habs (by simp [hpc.1, WatcherPc.sends]))
      · cases hexit
  | watch i =>
      obtain ⟨w, hw, hwatch⟩ := Option.bind_eq_some_iff.1 h
      exact Or.inl (watchStep_pending hw hwatch)
  | dispatchDone =>
      simp only [step, Option.ite_none_right_eq_some, Option.some.injEq] at h
      obtain ⟨_, rfl⟩ := h
      exact Or.inr trivial
  | dispatch =>
      simp only [step, Option.ite_none_right_eq_some, Option.map_eq_some_iff] at h
      obtain ⟨_, next, _, rfl⟩ := h
      exact Or.inr (RangeView.start_exact _)
  | snapshot seen =>
      simp only [step] at h
      split at h
      · next v hpc =>
          split at h
          · next hseen =>
              rcases hs with hpend | hfresh
              · left
                split at h <;> cases h <;> exact hpend
              · right
                have hv : v.Exact s.keys := by simpa only [Fresh, hpc] using hfresh
                obtain ⟨c, hok, hcur⟩ := current_of_snapshot id hpop hv hseen
                rw [hok] at h
                cases h
                exact hcur
          · cases h
      · cases h
  | store =>
      simp only [step] at h
      split at h
      · next b hpc =>
          cases h
          refine hs.imp (fun hp => hp) (fun hf _ => ⟨b, rfl, ?_⟩)
          have hcur : Current lib id s b := by simpa only [Fresh, hpc] using hf
          exact hcur
      · cases h

/-! ## Quiescence -/

/-- Every registration and every disconnect that was observed has had its events sent and consumed,
    and the dispatcher waits for the next one. -/
structure Quiescent (s : Clients) : Prop where
  sent : ∀ c ∈ s.newPeers, c.unsent = none
  notify : s.clients.notify.IsEmpty
  watchers : ∀ w ∈ s.watchers, w.pc.sends = false
  consumed : s.clientEvtCh.IsEmpty
  waiting : s.dispatcher = .waiting

theorem Quiescent.not_pending (hq : Quiescent s) : ¬ Pending s := by
  rintro (⟨c, hc, hunsent⟩ | hbuf | ⟨w, hw, hsends⟩ | hevt)
  · simp [hq.sent c hc] at hunsent
  · exact hbuf hq.notify
  · simp [hq.watchers w hw] at hsends
  · exact hevt hq.consumed

/-- **The cache is up to date at quiescence.** If a filter can be built of every list of keys, then
    whenever all events have been sent and consumed and some client was ever registered, the cache
    holds the bytes of a filter of exactly the clients in the map. -/
theorem connectedClients_current_at_quiescence
    (hpop : ∀ keys : List UInt64, keys.Nodup → ∃ f, lib.populate keys = .ok f)
    (h : (machine lib id).Reachable s) (hq : Quiescent s) (hreg : s.registered ≠ []) :
    ∃ clients c, clients.Perm s.keys ∧ newConnectedClients lib id clients = .ok c ∧
      s.connectedClients = some c.marshalBinary := by
  have hinv : Pending s ∨ Fresh lib id s := by
    refine Machine.Reachable.invariant (I := fun s => Pending s ∨ Fresh lib id s) h ?_ ?_
    · rintro s rfl
      exact Or.inr (fun habs => absurd rfl habs)
    · intro s a s' hs hstep
      exact step_pending_or_fresh hpop hstep hs
  have hfresh : Fresh lib id s := hinv.resolve_left hq.not_pending
  simp only [Fresh, hq.waiting] at hfresh
  obtain ⟨b, hcached, clients, c, hperm, hok, rfl⟩ := hfresh hreg
  exact ⟨clients, c, hperm, hok, hcached⟩

/-- A filter that was built of anything and answers yes to everything. -/
def yesFilter : FilterLib BinaryFuse8 where
  populate keys := .ok ⟨0, 4, 3, 1, 4, keys.map UInt64.toUInt8⟩
  contains _ _ := true
  complete _ _ _ := rfl

/-- Clients 7 and 8 connect, the rebuild for client 7 sees both or one of them, and client 7
    disconnects. -/
def exampleRun : List Action :=
  [Action.newPeer .yamux ⟨7, false⟩, .newPeer .yamux ⟨8, false⟩] ++
    List.replicate 6 (Action.advance 0 true) ++ [Action.recvNotify, .watch 0, .dispatch] ++
    List.replicate 6 (Action.advance 1 true) ++
    [Action.snapshot [7], .recvNotify, .watch 1, .store, .dispatch, .snapshot [8, 7], .store,
      .close 0] ++
    List.replicate 5 (Action.watch 0) ++ [Action.dispatch, .snapshot [8], .store]

theorem connectedClients_current_at_quiescence_example :
    ∃ s, (machine yesFilter 1).Reachable s ∧ s.keys = [8] ∧
      ∃ clients c, clients.Perm s.keys ∧ newConnectedClients yesFilter 1 clients = .ok c ∧
        s.connectedClients = some c.marshalBinary := by
  obtain ⟨s, hreach, hkeys, hreg, hsent, hnotify, hwatch, hevt, hwait⟩ :=
    (machine yesFilter 1).reachable_of_exec_any rfl exampleRun
      (P := fun s => s.keys = [8] ∧ s.registered ≠ [] ∧ (∀ c ∈ s.newPeers, c.unsent = none) ∧
        s.clients.notify.IsEmpty ∧ (∀ w ∈ s.watchers, w.pc.sends = false) ∧
        s.clientEvtCh.IsEmpty ∧ s.dispatcher = .waiting) (by decide)
  have hpop : ∀ keys : List UInt64, keys.Nodup → ∃ f, yesFilter.populate keys = .ok f :=
    fun keys _ => ⟨_, rfl⟩
  exact ⟨s, hreach, hkeys, connectedClients_current_at_quiescence hpop hreach
    ⟨hsent, hnotify, hwatch, hevt, hwait⟩ hreg⟩

end Clients

end Tunnel.Server
