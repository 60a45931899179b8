import Tunnel.Server.Node

set_option autoImplicit false

/-! # Which session a disconnect evicts

`removePeer` deletes whatever session stands under the peer's ID at that moment. Between the close
of a session and the `removePeer` of its watcher the peer may have connected again: a leave event
removes session A and says `Bye` to it, the peer registers session B, and the watcher of A, woken by
that `Bye`, removes B (`removePeer_evicts_successor`).

This cannot happen as long as no session is stored while an earlier session of the same peer still
has its removal ahead of it (`StoreClear`). Then a watcher deletes its own session or nothing, and a
session stays in the peer map, and what the graph has on its peer stays in the graph, until the
session closes or a leave event arrives (`removePeer_evicts_only_own`). -/

namespace Tunnel.Server

open Tunnel.Lib Tunnel.Multiplexer Tunnel.State

namespace Remover

/-- Inside `removePeer`, with the delete in the peer map still to come. -/
def beforeDelete (r : Remover) : Bool :=
  match r.pc with
  | .graph | .remove .loadAndDelete => true
  | _ => false

/-- Inside or after `removePeer`, past the delete in the peer map. -/
def pastDelete (r : Remover) : Bool :=
  match r.pc with
  | .watching | .exited | .graph | .remove .loadAndDelete => false
  | .remove _ | .send _ | .returned _ => true

/-- The session that the `removePeer` deleted from the peer map, and says `Bye` to. -/
def deleted (r : Remover) : Option Session :=
  match r.pc with
  | .remove (.add p) | .remove (.bye p) => some p
  | .send d | .returned d => d
  | _ => none

end Remover

namespace Node

variable {F : Type}

/-- The watcher of `p` is done with the peer map. -/
def Finished (s : Node F) (p : Session) : Prop :=
  ∃ r ∈ s.removers, r.origin = .watcher p ∧ r.pastDelete = true

instance (s : Node F) (p : Session) : Decidable (s.Finished p) :=
  inferInstanceAs (Decidable (∃ r ∈ s.removers, _))

/-- `p` is registered, has not closed, and no leave event for its peer arrived since. -/
def Live (s : Node F) (p : Session) : Prop := p ∈ s.registered ∧ p ∉ s.closed ∧ p ∉ s.left

instance (s : Node F) (p : Session) : Decidable (s.Live p) :=
  inferInstanceAs (Decidable (_ ∧ _ ∧ _))

/-- The condition on registrations. A session is only stored under an ID when the watchers of all
    sessions registered under it before are done with the peer map, and no other `removePeer` of the
    ID has its delete ahead of it. -/
def StoreClear (s : Node F) : Action F → Prop
  | .advance i _ => ∀ x ∈ s.newPeers[i]?.bind NewPeerCall.storing,
      (∀ p ∈ s.registered, p.peer = x → s.Finished p) ∧
        ∀ r ∈ s.removers, r.peer = x → r.beforeDelete = false
  | _ => True

instance (s : Node F) : DecidablePred s.StoreClear
  | .advance i _ => inferInstanceAs (Decidable (∀ x ∈ s.newPeers[i]?.bind NewPeerCall.storing, _))
  | .newPeer _ _ | .close _ | .recvNotify | .sendEvent | .sendListen | .leave _ | .exit _
  | .remove _ | .merge _ | .mergeLoad | .mergeStore | .leader _ => isTrue trivial

/-! ## Every session has one watcher -/

/-- The bookkeeping of sessions: each is made by one call and carries that call's ID; and each
    registered session is either still with its call, or in `notify`, or has its one watcher. -/
structure Ledger (s : Node F) : Prop where
  named : ∀ c ∈ s.newPeers, ∀ p, c.session = some p → p.peer = c.conf.peer ∧ p.id < s.peers.next
  once : ∀ p, s.newPeers.countP (fun c => c.session = some p) ≤ 1
  token : ∀ p, s.newPeers.countP (fun c => c.unsent = some p) + s.peers.notify.buf.count p
      + s.removers.countP (fun r => r.origin = .watcher p)
    = s.newPeers.countP (fun c => c.stored = some p)

namespace Ledger

variable {cfg : LeaderConfig} {s s' : Node F} {a : Action F}

theorem init : Ledger (Node.init : Node F) where
  named := by simp [Node.init]
  once := by simp [Node.init]
  token := by simp [Node.init, PeerMap.init]

/-- The call that is about to store `p` is the one that made it: nobody has registered it yet. -/
theorem not_mem_registered (hs : s.Ledger) {c : NewPeerCall} (hc : c ∈ s.newPeers) {p : Session}
    (hpc : c.pc = .store p) : p ∉ s.registered := by
  intro hmem
  obtain ⟨d, hd, hstored⟩ := List.mem_filterMap.1 hmem
  have hsession : c.session = some p := by simp [NewPeerCall.session, hpc]
  have heq : c = d := eq_of_countP_le_one (hs.once p) hc hd (by simp [hsession])
    (by simp [NewPeerCall.session_of_stored hstored])
  subst heq
  simp [NewPeerCall.stored, hpc] at hstored

theorem countP_stored_le (hs : s.Ledger) (p : Session) :
    s.newPeers.countP (fun c => c.stored = some p) ≤ 1 := by
  refine le_trans (List.countP_mono_left ?_) (hs.once p)
  intro c _ hc
  simpa using NewPeerCall.session_of_stored (of_decide_eq_true hc)

/-- A session has at most one watcher. -/
theorem watcher_unique (hs : s.Ledger) {p : Session} {r q : Remover} (hr : r ∈ s.removers)
    (hq : q ∈ s.removers) (hrp : r.origin = .watcher p) (hqp : q.origin = .watcher p) : r = q := by
  have htoken := hs.token p
  have hstored := hs.countP_stored_le p
  have hcount : s.removers.countP (fun r => r.origin = .watcher p) ≤ 1 := by omega
  exact eq_of_countP_le_one hcount hr hq (by simpa using hrp) (by simpa using hqp)

/-- Only registered sessions are watched. -/
theorem registered_of_watcher (hs : s.Ledger) {p : Session} {r : Remover} (hr : r ∈ s.removers)
    (hrp : r.origin = .watcher p) : p ∈ s.registered := by
  have hpos : 0 < s.removers.countP (fun r => r.origin = .watcher p) :=
    List.countP_pos_iff.2 ⟨r, hr, by simpa using hrp⟩
  have htoken := hs.token p
  have hstored : 0 < s.newPeers.countP (fun c => c.stored = some p) := by omega
  obtain ⟨c, hc, hcp⟩ := List.countP_pos_iff.1 hstored
  exact List.mem_filterMap.2 ⟨c, hc, by simpa using hcp⟩

theorem advance (hs : s.Ledger) {i : ℕ} {c c' : NewPeerCall} {m' : PeerMap}
    (hc : s.newPeers[i]? = some c) (hstep : c.Step s.peers m' c') :
    Ledger { s.withPeers m' with newPeers := s.newPeers.set i c' } := by
  have hmem : c ∈ s.newPeers := List.mem_of_getElem? hc
  refine ⟨?_, ?_, ?_⟩
  · -- the IDs of sessions stay below the next one
    have hle : s.peers.next ≤ m'.next := by rcases hstep.session with ⟨h, _⟩ | ⟨h, _⟩ <;> omega
    refine forall_mem_set (fun d hd p hp => ?_) (fun p hp => ?_)
    · exact ⟨(hs.named d hd p hp).1, lt_of_lt_of_le (hs.named d hd p hp).2 hle⟩
    · rcases hstep.session with ⟨_, h | h⟩ | ⟨hnext, _, _, h⟩
      · rw [h] at hp
        exact ⟨hstep.conf ▸ (hs.named c hmem p hp).1, lt_of_lt_of_le (hs.named c hmem p hp).2 hle⟩
      · rw [h] at hp
        exact absurd hp (by simp)
      · rw [h, Option.some.injEq] at hp
        subst hp
        exact ⟨by rw [hstep.conf], by show s.peers.next < m'.next; omega⟩
  · -- a session that is made now has an ID that none has had
    intro p
    have hcount := countP_set_add (fun c => decide (c.session = some p)) hc c'
    have honce := hs.once p
    show (s.newPeers.set i c').countP (fun c => decide (c.session = some p)) ≤ 1
    rcases hstep.session with ⟨_, h | h⟩ | ⟨_, hnone, _, h⟩
    · rw [h] at hcount
      omega
    · rw [h] at hcount
      simp only [reduceCtorEq, decide_false, Bool.toNat_false] at hcount
      omega
    · by_cases hp : p.id = s.peers.next
      · have hzero : s.newPeers.countP (fun c => decide (c.session = some p)) = 0 := by
          refine List.countP_eq_zero.2 ?_
          intro d hd hdp
          have := (hs.named d hd p (of_decide_eq_true hdp)).2
          omega
        have := Bool.toNat_le (decide (c'.session = some p))
        omega
      · have hne : c'.session ≠ some p := by
          rw [h, ne_eq, Option.some.injEq]
          exact fun heq => hp (heq ▸ rfl)
        simp only [hne, decide_false, Bool.toNat_false] at hcount
        omega
  · -- the three places a registered session can be in are counted as one
    intro p
    have hunsent := countP_set_add (fun c => decide (c.unsent = some p)) hc c'
    have hstored := countP_set_add (fun c => decide (c.stored = some p)) hc c'
    have htoken := hs.token p
    show (s.newPeers.set i c').countP (fun c => decide (c.unsent = some p))
        + m'.notify.buf.count p + s.removers.countP (fun r => decide (r.origin = .watcher p))
      = (s.newPeers.set i c').countP (fun c => decide (c.stored = some p))
    have hone := hstep.token p
    omega

/-- A remover that moves on keeps its origin, and so the number of watchers. -/
theorem setRemover (hs : s.Ledger) {i : ℕ} {r : Remover} {pc : RemoverPc}
    (hr : s.removers[i]? = some r) (hcalls : s'.newPeers = s.newPeers)
    (hnext : s'.peers.next = s.peers.next) (hnotify : s'.peers.notify = s.peers.notify)
    (hrem : s'.removers = s.removers.set i { r with pc := pc }) : s'.Ledger where
  named := by rw [hcalls, hnext]; exact hs.named
  once := by rw [hcalls]; exact hs.once
  token := by
    intro p
    have hcount := countP_set_add (fun r => decide (r.origin = .watcher p)) hr { r with pc := pc }
    have htoken := hs.token p
    simp only at hcount
    rw [hcalls, hnotify, hrem]
    omega

theorem step (hs : s.Ledger) (h : Step cfg s a s') : s'.Ledger := by
  cases h with
  | newPeer protocol conf =>
      refine ⟨?_, ?_, ?_⟩
      · refine List.forall_mem_append.2 ⟨hs.named, List.forall_mem_singleton.2 fun p hp => ?_⟩
        exact absurd hp (by simp [NewPeerCall.session])
      · intro p
        simpa [List.countP_append, NewPeerCall.session] using hs.once p
      · intro p
        simpa [List.countP_append, NewPeerCall.unsent, NewPeerCall.stored] using hs.token p
  | advance hc hstep => exact hs.advance hc hstep
  | @recvNotify q ch hpc hch =>
      -- the session leaves `notify` and gets its watcher
      refine ⟨hs.named, hs.once, ?_⟩
      intro p
      have htoken := hs.token p
      rw [Chan.recv_eq_some.1 hch, List.count_cons] at htoken
      by_cases hqp : q = p
      · subst hqp
        simp only [beq_self_eq_true, if_true] at htoken
        simp only [List.countP_append, List.countP_singleton, decide_true, if_true]
        omega
      · have hne : Origin.watcher q ≠ Origin.watcher p := fun heq => hqp (Origin.watcher.inj heq)
        simp only [beq_iff_eq, hqp, if_false] at htoken
        simp only [List.countP_append, List.countP_singleton, hne, decide_false]
        simpa using htoken
  | leave x =>
      refine ⟨hs.named, hs.once, ?_⟩
      intro p
      simpa [List.countP_append] using hs.token p
  | exit hr | fire hr | graph hr | absent hr | count hr | bye hr | sendRemoved hr =>
      exact hs.setRemover hr rfl rfl rfl rfl
  | delete hr => exact hs.setRemover hr rfl rfl rfl rfl
  | _ => exact ⟨hs.named, hs.once, hs.token⟩

end Ledger

/-! ## One unfinished session per peer -/

/-- What the condition on registrations keeps: of the sessions of a peer at most one has its removal
    ahead of it, and only that one can be in the peer map; a `removePeer` that has its delete ahead
    of it either comes from the watcher of that session, or from a leave event that it has seen. -/
structure Orderly (s : Node F) : Prop where
  ledger : s.Ledger
  entry : ∀ x p, s.peers.peers.load x = some p → p ∈ s.registered ∧ p.peer = x ∧ ¬ s.Finished p
  single : ∀ p ∈ s.registered, ∀ q ∈ s.registered, p.peer = q.peer →
    ¬ s.Finished p → ¬ s.Finished q → p = q
  fired : ∀ r ∈ s.removers, ∀ p, r.origin = .watcher p →
    r.peer = p.peer ∧ (r.beforeDelete = true ∨ r.pastDelete = true → p ∈ s.closed)
  leaving : ∀ r ∈ s.removers, r.origin = .leave → r.beforeDelete = true →
    ∀ p ∈ s.registered, p.peer = r.peer → ¬ s.Finished p → p ∈ s.left
  own : ∀ r ∈ s.removers, ∀ p q, r.origin = .watcher p → r.deleted = some q → q = p
  kept : ∀ p, s.Live p → s.peers.peers.load p.peer = some p

variable {cfg : LeaderConfig} {s s' : Node F} {a : Action F}

/-- A remover that moves past its delete finishes the session it watches, and no other. -/
theorem finished_set {i : ℕ} {r : Remover} {pc : RemoverPc} (hr : s.removers[i]? = some r)
    (hrem : s'.removers = s.removers.set i { r with pc := pc })
    (hpast : r.pastDelete = true → Remover.pastDelete { r with pc := pc } = true) (p : Session) :
    s'.Finished p ↔ s.Finished p ∨
      r.origin = .watcher p ∧ Remover.pastDelete { r with pc := pc } = true := by
  unfold Finished
  rw [hrem]
  constructor
  · rintro ⟨q, hq, hqp⟩
    rcases List.mem_or_eq_of_mem_set hq with hq | rfl
    · exact Or.inl ⟨q, hq, hqp⟩
    · exact Or.inr hqp
  · rintro (hfin | hnew)
    · exact exists_mem_set hr hfin (fun h => ⟨h.1, hpast h.2⟩)
    · exact ⟨_, mem_set_self hr _, hnew⟩

namespace Orderly

/-- A live session has its removal ahead of it. -/
theorem not_finished_of_live (hs : s.Orderly) {p : Session} (hp : s.Live p) : ¬ s.Finished p := by
  rintro ⟨r, hr, horigin, hpast⟩
  exact hp.2.1 ((hs.fired r hr p horigin).2 (Or.inr hpast))

/-- A session whose watcher has its delete ahead of it is not finished: it has no other watcher. -/
theorem not_finished_of_watcher (hs : s.Orderly) {r : Remover} (hr : r ∈ s.removers) {p : Session}
    (horigin : r.origin = .watcher p) (hbefore : r.beforeDelete = true) : ¬ s.Finished p := by
  rintro ⟨q, hq, hqp, hpast⟩
  have heq := hs.ledger.watcher_unique hr hq horigin hqp
  subst heq
  unfold Remover.beforeDelete at hbefore
  unfold Remover.pastDelete at hpast
  split at hbefore <;> simp_all

/-- **What a `removePeer` can hit.** When it has its delete ahead of it, the unfinished session of
    the peer has closed or has seen a leave event. -/
theorem not_live_of_beforeDelete (hs : s.Orderly) {r : Remover} (hr : r ∈ s.removers)
    (hbefore : r.beforeDelete = true) {p : Session} (hpeer : p.peer = r.peer) : ¬ s.Live p := by
  intro hp
  have hfin := hs.not_finished_of_live hp
  cases horigin : r.origin with
  | watcher q =>
      have hq := hs.not_finished_of_watcher hr horigin hbefore
      have hfired := hs.fired r hr q horigin
      have heq := hs.single p hp.1 q (hs.ledger.registered_of_watcher hr horigin)
        (hpeer.trans hfired.1) hfin hq
      subst heq
      exact hp.2.1 (hfired.2 (Or.inl hbefore))
  | leave => exact hp.2.2 (hs.leaving r hr horigin hbefore p hp.1 hpeer hfin)

/-- The session that the delete of a watcher finds is the one it watches. -/
theorem eq_of_delete (hs : s.Orderly) {r : Remover} (hr : r ∈ s.removers)
    (hbefore : r.beforeDelete = true) {p q : Session} (horigin : r.origin = .watcher p)
    (hload : s.peers.peers.load r.peer = some q) : q = p := by
  obtain ⟨hreg, hpeer, hfin⟩ := hs.entry r.peer q hload
  exact hs.single q hreg p (hs.ledger.registered_of_watcher hr horigin)
    (hpeer.trans (hs.fired r hr p horigin).1) hfin (hs.not_finished_of_watcher hr horigin hbefore)

/-- One operation of a remover, by what it does to the peer map and where it leads. -/
theorem setRemover (hs : s.Orderly) (hledger : s'.Ledger) {i : ℕ} {r : Remover} {pc : RemoverPc}
    (hr : s.removers[i]? = some r) (hcalls : s'.newPeers = s.newPeers)
    (hrem : s'.removers = s.removers.set i { r with pc := pc })
    (hclosed : ∀ p ∈ s.closed, p ∈ s'.closed) (hleft : s'.left = s.left)
    (hpast : r.pastDelete = true → Remover.pastDelete { r with pc := pc } = true)
    (hfired : ∀ p, r.origin = .watcher p →
      Remover.beforeDelete { r with pc := pc } = true ∨
        Remover.pastDelete { r with pc := pc } = true → p ∈ s'.closed)
    (hbefore : r.origin = .leave → Remover.beforeDelete { r with pc := pc } = true →
      r.beforeDelete = true)
    (hown : ∀ p q, r.origin = .watcher p → Remover.deleted { r with pc := pc } = some q → q = p)
    (hload : ∀ x p, s'.peers.peers.load x = some p → s.peers.peers.load x = some p ∧
      (Remover.pastDelete { r with pc := pc } = true → r.pastDelete = true ∨ x ≠ r.peer))
    (hkept : ∀ p, s.Live p → s'.peers.peers.load p.peer = some p) : s'.Orderly := by
  have hmem : r ∈ s.removers := List.mem_of_getElem? hr
  have hreg : s'.registered = s.registered := by rw [registered, hcalls]; rfl
  have hfin : ∀ p, s.Finished p → s'.Finished p :=
    fun p hp => (finished_set hr hrem hpast p).2 (Or.inl hp)
  refine ⟨hledger, ?_, ?_, ?_, ?_, ?_, ?_⟩
  · -- an entry is finished by its own watcher only, and that has taken it out of the map
    intro x p hp
    obtain ⟨hp, hx⟩ := hload x p hp
    obtain ⟨hpreg, hpeer, hunfin⟩ := hs.entry x p hp
    refine ⟨hreg ▸ hpreg, hpeer, fun hfin' => ?_⟩
    rcases (finished_set hr hrem hpast p).1 hfin' with h | ⟨horigin, hpast'⟩
    · exact hunfin h
    · rcases hx hpast' with hold | hne
      · exact hunfin ⟨r, hmem, horigin, hold⟩
      · exact hne (hpeer.symm.trans (hs.fired r hmem p horigin).1.symm)
  · intro p hp q hq hpeer hpfin hqfin
    rw [hreg] at hp hq
    exact hs.single p hp q hq hpeer (fun h => hpfin (hfin p h)) (fun h => hqfin (hfin q h))
  · rw [hrem]
    refine forall_mem_set (fun q hq p hqp => ?_) (fun p hp => ?_)
    · obtain ⟨hpeer, hin⟩ := hs.fired q hq p hqp
      exact ⟨hpeer, fun h => hclosed p (hin h)⟩
    · exact ⟨(hs.fired r hmem p hp).1, hfired p hp⟩
  · rw [hrem, hreg, hleft]
    refine forall_mem_set (fun q hq hleave hb p hp hpeer hpfin => ?_)
      (fun hleave hb p hp hpeer hpfin => ?_)
    · exact hs.leaving q hq hleave hb p hp hpeer (fun h => hpfin (hfin p h))
    · exact hs.leaving r hmem hleave (hbefore hleave hb) p hp hpeer (fun h => hpfin (hfin p h))
  · rw [hrem]
    exact forall_mem_set hs.own hown
  · rintro p ⟨hp, hpclosed, hpleft⟩
    rw [hreg] at hp
    rw [hleft] at hpleft
    exact hkept p ⟨hp, fun h => hpclosed (hclosed p h), hpleft⟩

/-- A step that registers nothing, moves no remover and leaves the peer map alone. -/
theorem frame (hs : s.Orderly) (hledger : s'.Ledger) (hreg : s'.registered = s.registered)
    (hrem : s'.removers = s.removers) (hpeers : s'.peers.peers = s.peers.peers)
    (hclosed : ∀ p ∈ s.closed, p ∈ s'.closed) (hleft : s'.left = s.left) : s'.Orderly := by
  have hfin : ∀ p, s'.Finished p ↔ s.Finished p := by
    intro p
    rw [Finished, Finished, hrem]
  refine ⟨hledger, ?_, ?_, ?_, ?_, ?_, ?_⟩
  · intro x p hp
    rw [hpeers] at hp
    rw [hreg, hfin]
    exact hs.entry x p hp
  · simp only [hreg, hfin]
    exact hs.single
  · rw [hrem]
    intro r hr p hp
    exact ⟨(hs.fired r hr p hp).1, fun h => hclosed p ((hs.fired r hr p hp).2 h)⟩
  · simp only [hrem, hreg, hleft, hfin]
    exact hs.leaving
  · rw [hrem]
    exact hs.own
  · rintro p ⟨hp, hpclosed, hpleft⟩
    rw [hpeers]
    exact hs.kept p ⟨hreg ▸ hp, fun h => hpclosed (hclosed p h), hleft ▸ hpleft⟩

/-- A new remover: a watcher, or the `removePeer` of a leave event that the sessions have seen. -/
theorem addRemover (hs : s.Orderly) (hledger : s'.Ledger) {r : Remover}
    (hcalls : s'.newPeers = s.newPeers) (hrem : s'.removers = s.removers ++ [r])
    (hpeers : s'.peers.peers = s.peers.peers) (hclosed : s'.closed = s.closed)
    (hleft : ∀ p ∈ s.left, p ∈ s'.left) (hpast : r.pastDelete = false) (hdel : r.deleted = none)
    (hwatcher : ∀ p, r.origin = .watcher p → r.peer = p.peer ∧ r.beforeDelete = false)
    (hleave : r.origin = .leave → ∀ p ∈ s.registered, p.peer = r.peer → p ∈ s'.left) :
    s'.Orderly := by
  have hreg : s'.registered = s.registered := by rw [registered, hcalls]; rfl
  have hfin : ∀ p, s'.Finished p ↔ s.Finished p := by
    intro p
    rw [Finished, Finished, hrem]
    simp [hpast]
  have hmem : ∀ q ∈ s'.removers, q ∈ s.removers ∨ q = r := by
    intro q hq
    rw [hrem] at hq
    simpa using hq
  refine ⟨hledger, ?_, ?_, ?_, ?_, ?_, ?_⟩
  · intro x p hp
    rw [hpeers] at hp
    rw [hreg, hfin]
    exact hs.entry x p hp
  · simp only [hreg, hfin]
    exact hs.single
  · intro q hq p hp
    rcases hmem q hq with hq | rfl
    · exact hclosed ▸ hs.fired q hq p hp
    · refine ⟨(hwatcher p hp).1, fun h => ?_⟩
      simp [(hwatcher p hp).2, hpast] at h
  · intro q hq hql hb p hp hpeer hpfin
    rw [hreg] at hp
    rw [hfin] at hpfin
    rcases hmem q hq with hq | rfl
    · exact hleft p (hs.leaving q hq hql hb p hp hpeer hpfin)
    · exact hleave hql p hp hpeer
  · intro q hq p d hp hd
    rcases hmem q hq with hq | rfl
    · exact hs.own q hq p d hp hd
    · rw [hdel] at hd
      exact absurd hd (by simp)
  · rintro p ⟨hp, hpclosed, hpleft⟩
    rw [hpeers]
    exact hs.kept p ⟨hreg ▸ hp, hclosed ▸ hpclosed, fun h => hpleft (hleft p h)⟩

/-- The `Store` of a session whose predecessors under the same ID are all finished. -/
theorem store (hs : s.Orderly) (hledger : s'.Ledger) {i : ℕ} {c : NewPeerCall} {p : Session}
    (hc : s.newPeers[i]? = some c) (hpc : c.pc = .store p)
    (hok : (∀ q ∈ s.registered, q.peer = c.conf.peer → s.Finished q) ∧
      ∀ r ∈ s.removers, r.peer = c.conf.peer → r.beforeDelete = false)
    (hcalls : s'.newPeers = s.newPeers.set i { c with pc := .add p })
    (hrem : s'.removers = s.removers) (hpeers : s'.peers.peers = s.peers.peers.store c.conf.peer p)
    (hclosed : s'.closed = s.closed) (hleft : s'.left = s.left) : s'.Orderly := by
  have hcmem : c ∈ s.newPeers := List.mem_of_getElem? hc
  have hpeer : p.peer = c.conf.peer :=
    (hs.ledger.named c hcmem p (by simp [NewPeerCall.session, hpc])).1
  have hfresh : p ∉ s.registered := hs.ledger.not_mem_registered hcmem hpc
  have hreg : ∀ q, q ∈ s'.registered ↔ q = p ∨ q ∈ s.registered := by
    intro q
    rw [registered, hcalls]
    exact mem_filterMap_set (f := NewPeerCall.stored) hc (by simp [NewPeerCall.stored, hpc]) rfl q
  have hfin : ∀ q, s'.Finished q ↔ s.Finished q := by
    intro q
    rw [Finished, Finished, hrem]
  have hpfin : ¬ s.Finished p := by
    rintro ⟨r, hr, horigin, _⟩
    exact hfresh (hs.ledger.registered_of_watcher hr horigin)
  refine ⟨hledger, ?_, ?_, ?_, ?_, ?_, ?_⟩
  · intro x q hq
    rw [hpeers] at hq
    by_cases hx : x = c.conf.peer
    · subst hx
      rw [SyncMap.load_store_self, Option.some.injEq] at hq
      subst hq
      exact ⟨(hreg p).2 (Or.inl rfl), hpeer, fun h => hpfin ((hfin p).1 h)⟩
    · rw [SyncMap.load_store_ne _ _ hx] at hq
      obtain ⟨hqreg, hqx, hqfin⟩ := hs.entry x q hq
      exact ⟨(hreg q).2 (Or.inr hqreg), hqx, fun h => hqfin ((hfin q).1 h)⟩
  · -- under the new session's ID all others are finished
    intro q₁ h₁ q₂ h₂ hsame hfin₁ hfin₂
    rw [hfin] at hfin₁ hfin₂
    rcases (hreg q₁).1 h₁ with rfl | h₁
    · rcases (hreg q₂).1 h₂ with rfl | h₂
      · rfl
      · exact absurd (hok.1 q₂ h₂ (hsame.symm.trans hpeer)) hfin₂
    · rcases (hreg q₂).1 h₂ with rfl | h₂
      · exact absurd (hok.1 q₁ h₁ (hsame.trans hpeer)) hfin₁
      · exact hs.single q₁ h₁ q₂ h₂ hsame hfin₁ hfin₂
  · rw [hrem, hclosed]
    exact hs.fired
  · intro r hr hleave hb q hq hqr hqfin
    rw [hrem] at hr
    rw [hfin] at hqfin
    rw [hleft]
    rcases (hreg q).1 hq with rfl | hq
    · -- no `removePeer` of its ID has its delete ahead
      have := hok.2 r hr (hqr.symm.trans hpeer)
      rw [hb] at this
      exact absurd this (by simp)
    · exact hs.leaving r hr hleave hb q hq hqr hqfin
  · rw [hrem]
    exact hs.own
  · -- a live session is unfinished, so the new one does not overwrite it
    rintro q ⟨hq, hqclosed, hqleft⟩
    rw [hpeers]
    rcases (hreg q).1 hq with rfl | hq
    · rw [hpeer, SyncMap.load_store_self]
    · have hlive : s.Live q := ⟨hq, hclosed ▸ hqclosed, hleft ▸ hqleft⟩
      have hne : q.peer ≠ c.conf.peer :=
        fun heq => hs.not_finished_of_live hlive (hok.1 q hq heq)
      rw [SyncMap.load_store_ne _ _ hne]
      exact hs.kept q hlive

/-- The delete in the peer map. -/
theorem delete (hs : s.Orderly) (hledger : s'.Ledger) {i : ℕ} {r : Remover} {p : Session}
    (hr : s.removers[i]? = some r) (hpc : r.pc = .remove .loadAndDelete)
    (hload : s.peers.peers.load r.peer = some p) (hcalls : s'.newPeers = s.newPeers)
    (hrem : s'.removers = s.removers.set i { r with pc := .remove (.add p) })
    (hpeers : s'.peers.peers = s.peers.peers.delete r.peer) (hclosed : s'.closed = s.closed)
    (hleft : s'.left = s.left) : s'.Orderly := by
  have hmem : r ∈ s.removers := List.mem_of_getElem? hr
  have hbefore : r.beforeDelete = true := by simp [Remover.beforeDelete, hpc]
  refine hs.setRemover hledger hr hcalls hrem (fun q hq => hclosed ▸ hq) hleft (fun _ => rfl) ?_ ?_
    ?_ ?_ ?_
  · intro q hq _
    rw [hclosed]
    exact (hs.fired r hmem q hq).2 (Or.inl hbefore)
  · intro _ _
    exact hbefore
  · intro q d hq hd
    simp only [Remover.deleted, Option.some.injEq] at hd
    subst hd
    exact hs.eq_of_delete hmem hbefore hq hload
  · intro x q hq
    rw [hpeers] at hq
    have hx : x ≠ r.peer := by
      rintro rfl
      exact absurd hq (by simp)
    rw [SyncMap.load_delete_ne _ hx] at hq
    exact ⟨hq, fun _ => Or.inr hx⟩
  · intro q hq
    have hne : q.peer ≠ r.peer := fun heq => hs.not_live_of_beforeDelete hmem hbefore heq hq
    rw [hpeers, SyncMap.load_delete_ne _ hne]
    exact hs.kept q hq

/-- What is left of a `removePeer` after its delete. -/
theorem moveOn (hs : s.Orderly) (hledger : s'.Ledger) {i : ℕ} {r : Remover} {pc : RemoverPc}
    (hr : s.removers[i]? = some r) (hcalls : s'.newPeers = s.newPeers)
    (hrem : s'.removers = s.removers.set i { r with pc := pc })
    (hpeers : s'.peers.peers = s.peers.peers) (hclosed : ∀ p ∈ s.closed, p ∈ s'.closed)
    (hleft : s'.left = s.left) (hpast : r.pastDelete = true)
    (hpast' : Remover.pastDelete { r with pc := pc } = true)
    (hbefore : Remover.beforeDelete { r with pc := pc } = false)
    (hdeleted : Remover.deleted { r with pc := pc } = r.deleted) : s'.Orderly := by
  have hmem : r ∈ s.removers := List.mem_of_getElem? hr
  refine hs.setRemover hledger hr hcalls hrem hclosed hleft (fun _ => hpast') ?_ ?_ ?_ ?_ ?_
  · intro p hp _
    exact hclosed p ((hs.fired r hmem p hp).2 (Or.inr hpast))
  · intro _ hb
    rw [hbefore] at hb
    exact absurd hb (by simp)
  · intro p q hp hq
    rw [hdeleted] at hq
    exact hs.own r hmem p q hp hq
  · intro x p hp
    rw [hpeers] at hp
    exact ⟨hp, fun _ => Or.inl hpast⟩
  · rw [hpeers]
    exact hs.kept

theorem init : Orderly (Node.init : Node F) where
  ledger := Ledger.init
  entry := by simp [Node.init, PeerMap.init]
  single := by simp [Node.init, registered]
  fired := by simp [Node.init]
  leaving := by simp [Node.init]
  own := by simp [Node.init]
  kept := by simp [Live, Node.init, registered]

theorem step (hs : s.Orderly) (hok : s.StoreClear a) (h : Step cfg s a s') : s'.Orderly := by
  have hledger := hs.ledger.step h
  cases h with
  | newPeer protocol conf =>
      refine hs.frame hledger ?_ rfl rfl (fun _ => id) rfl
      simp [registered, List.filterMap_append, NewPeerCall.stored]
  | advance hc hstep =>
      cases hstep with
      | store hpc =>
          refine hs.store hledger hc hpc (hok _ ?_) rfl rfl rfl rfl rfl
          simp [hc, NewPeerCall.storing, hpc]
      | _ =>
          refine hs.frame hledger ?_ rfl rfl (fun _ => id) rfl
          refine filterMap_set_of_eq hc ?_
          simp_all [NewPeerCall.stored]
  | close hc hp => exact hs.frame hledger rfl rfl rfl (fun _ => List.mem_cons_of_mem _) rfl
  | recvNotify hpc hch =>
      refine hs.addRemover hledger rfl rfl rfl rfl (fun _ => id) rfl rfl ?_ ?_
      · intro q hq
        cases hq
        exact ⟨rfl, rfl⟩
      · intro hq
        exact absurd hq (by simp)
  | leave x =>
      -- the sessions that are registered now are those that the leave event is about
      refine hs.addRemover hledger rfl rfl rfl rfl (fun _ => List.mem_append_right _) rfl rfl ?_ ?_
      · intro q hq
        exact absurd hq (by simp)
      · intro _ p hp hpeer
        exact List.mem_append_left _ (List.mem_filter.2 ⟨hp, by simpa using hpeer⟩)
  | exit hr hpc hdone =>
      refine hs.setRemover hledger hr rfl rfl (fun _ => id) rfl ?_ ?_ ?_ ?_ ?_ hs.kept
      all_goals simp [Remover.pastDelete, Remover.beforeDelete, Remover.deleted, hpc]
  | fire hr hpc horigin hclosed =>
      refine hs.setRemover hledger hr rfl rfl (fun _ => id) rfl ?_ ?_ ?_ ?_ ?_ hs.kept
      · simp [Remover.pastDelete, hpc]
      · intro q hq _
        rw [horigin, Origin.watcher.injEq] at hq
        exact hq ▸ hclosed
      · simp [horigin]
      · simp [Remover.deleted]
      · simp [Remover.pastDelete]
  | graph hr hpc =>
      have hmem := List.mem_of_getElem? hr
      refine hs.setRemover hledger hr rfl rfl (fun _ => id) rfl ?_ ?_ ?_ ?_ ?_ hs.kept
      · simp [Remover.pastDelete, hpc]
      · intro q hq _
        exact (hs.fired _ hmem q hq).2 (Or.inl (by simp [Remover.beforeDelete, hpc]))
      · simp [Remover.beforeDelete, hpc]
      · simp [Remover.deleted]
      · simp [Remover.pastDelete]
  | absent hr hpc hload =>
      have hmem := List.mem_of_getElem? hr
      refine hs.setRemover hledger hr rfl rfl (fun _ => id) rfl ?_ ?_ ?_ ?_ ?_ hs.kept
      · simp [Remover.pastDelete]
      · intro q hq _
        exact (hs.fired _ hmem q hq).2 (Or.inl (by simp [Remover.beforeDelete, hpc]))
      · simp [Remover.beforeDelete]
      · simp [Remover.deleted]
      · intro x q hq
        refine ⟨hq, fun _ => Or.inr ?_⟩
        rintro rfl
        exact absurd (hload.symm.trans hq) (by simp)
  | delete hr hpc hload => exact hs.delete hledger hr hpc hload rfl rfl rfl rfl rfl
  | count hr hpc hnum =>
      refine hs.moveOn hledger hr rfl rfl rfl (fun _ => id) rfl ?_ rfl rfl ?_
      all_goals simp [Remover.pastDelete, Remover.deleted, hpc]
  | bye hr hpc =>
      refine hs.moveOn hledger hr rfl rfl rfl (fun _ => List.mem_cons_of_mem _) rfl ?_ rfl rfl ?_
      all_goals simp [Remover.pastDelete, Remover.deleted, hpc]
  | sendRemoved hr hpc hch =>
      refine hs.moveOn hledger hr rfl rfl rfl (fun _ => id) rfl ?_ rfl rfl ?_
      all_goals simp [Remover.pastDelete, Remover.deleted, hpc]
  | _ => exact hs.frame hledger rfl rfl rfl (fun _ => id) rfl

end Orderly

theorem orderly_of_reachableVia (h : (machine F cfg).ReachableVia StoreClear s) : s.Orderly := by
  refine h.invariant ?_ (fun _ _ _ hI hok hst => hI.step hok (step_rule hst))
  rintro s rfl
  exact Orderly.init

/-! ## The peer graph -/

/-- Registrations, closures and leave events are never taken back. -/
theorem Step.mono (h : Step cfg s a s') (p : Session) :
    (p ∈ s.registered → p ∈ s'.registered) ∧ (p ∈ s.closed → p ∈ s'.closed) ∧
      (p ∈ s.left → p ∈ s'.left) := by
  cases h with
  | newPeer =>
      refine ⟨fun hp => ?_, id, id⟩
      simp only [registered, List.filterMap_append, List.mem_append]
      exact Or.inl hp
  | advance hc hstep =>
      refine ⟨fun hp => ?_, id, id⟩
      cases hstep with
      | store hpc =>
          refine (mem_filterMap_set (f := NewPeerCall.stored) hc ?_ rfl p).2 (Or.inr hp)
          simp [NewPeerCall.stored, hpc]
      | _ =>
          rw [registered, filterMap_set_of_eq hc (by simp_all [NewPeerCall.stored])]
          exact hp
  | close => exact ⟨id, List.mem_cons_of_mem _, id⟩
  | leave => exact ⟨id, id, List.mem_append_right _⟩
  | bye => exact ⟨id, List.mem_cons_of_mem _, id⟩
  | _ => exact ⟨id, id, id⟩

/-- While a session is live, a step keeps the entry of its peer in the graph. -/
theorem Orderly.graph_step (hs : s.Orderly) (h : Step cfg s a s') {p : Session} (hp : s.Live p)
    (hentry : (SyncMap.load s.peerGraph p.peer).isSome = true) :
    (SyncMap.load s'.peerGraph p.peer).isSome = true := by
  have hstore : ∀ c : ConnectedClients F,
      (SyncMap.load (SyncMap.store s.peerGraph c.peer c) p.peer).isSome = true := by
    intro c
    by_cases hx : p.peer = c.peer
    · rw [hx, SyncMap.load_store_self, Option.isSome_some]
    · rw [SyncMap.load_store_ne _ _ hx]
      exact hentry
  cases h with
  | graph hr hpc =>
      -- a `removePeer` of the peer of a live session does not exist before its delete
      have hne : p.peer ≠ _ := fun heq => hs.not_live_of_beforeDelete (List.mem_of_getElem? hr)
        (by simp [Remover.beforeDelete, hpc]) heq hp
      show (SyncMap.load (SyncMap.delete s.peerGraph _) p.peer).isSome = true
      rw [SyncMap.load_delete_ne _ hne]
      exact hentry
  | mergeNew => exact hstore _
  | mergeStore => exact hstore _
  | _ => exact hentry

/-- **A disconnect evicts no other session.** In every run in which sessions are only stored under
    an ID whose earlier sessions are all removed (`StoreClear`): a `removePeer` that runs because
    session `A` closed deletes `A` or nothing; a registered session is in the peer map until it
    closes or a leave event arrives; and so long, what the graph has on its peer stays there. -/
theorem removePeer_evicts_only_own {s₀ t : Node F} {tr tr' : List (Node F × Action F)}
    (h₀ : (machine F cfg).Init s₀) (h : (machine F cfg).Run s₀ tr s)
    (h' : (machine F cfg).Run s tr' t) (hok : Machine.Meets StoreClear (tr ++ tr')) :
    (∀ r ∈ t.removers, ∀ A q, r.origin = .watcher A → r.deleted = some q → q = A) ∧
      (∀ B, t.Live B → t.peers.get B.peer = some B) ∧
      ∀ B ∈ s.registered, t.Live B → (SyncMap.load s.peerGraph B.peer).isSome = true →
        (SyncMap.load t.peerGraph B.peer).isSome = true := by
  obtain ⟨hoktr, hoktr'⟩ := Machine.meets_append.1 hok
  have hs : s.Orderly := orderly_of_reachableVia ⟨s₀, tr, h₀, h, hoktr⟩
  have ht : t.Orderly := orderly_of_reachableVia ⟨s₀, tr ++ tr', h₀, h.append h', hok⟩
  refine ⟨ht.own, ht.kept, fun B hB => ?_⟩
  -- the graph along the second part of the run
  have hrun : t.Orderly ∧ B ∈ t.registered ∧ (t.Live B →
      (SyncMap.load s.peerGraph B.peer).isSome = true →
        (SyncMap.load t.peerGraph B.peer).isSome = true) := by
    refine h'.invariant (I := fun t => t.Orderly ∧ B ∈ t.registered ∧ (t.Live B →
      (SyncMap.load s.peerGraph B.peer).isSome = true →
        (SyncMap.load t.peerGraph B.peer).isSome = true)) hoktr' ⟨hs, hB, fun _ => id⟩ ?_
    rintro u a u' ⟨hu, hBu, hgraph⟩ hoka hst
    have hrule := step_rule hst
    obtain ⟨hreg, hclosed, hleft⟩ := hrule.mono B
    refine ⟨hu.step hoka hrule, hreg hBu, fun hlive hentry => ?_⟩
    have hliveu : u.Live B := ⟨hBu, fun h => hlive.2.1 (hclosed h), fun h => hlive.2.2 (hleft h)⟩
    exact hu.graph_step hrule hliveu (hgraph hliveu hentry)
  exact hrun.2.2

/-- The first and the second session that a node makes with peer 7. -/
def firstSession : Session := ⟨0, 7, .yamux, true⟩

def secondSession : Session := ⟨1, 7, .yamux, true⟩

/-- Peer 7 connects, its session breaks and is removed, and it connects again. -/
def brokenRun : List (Action Unit) :=
  [Action.newPeer .yamux ⟨7, true⟩] ++ List.replicate 6 (Action.advance 0 true) ++
    [Action.recvNotify, .close 0] ++ List.replicate 5 (Action.remove 0) ++
    [Action.newPeer .yamux ⟨7, true⟩] ++ List.replicate 6 (Action.advance 1 true)

theorem removePeer_evicts_only_own_reconnect :
    ∃ t, (machine Unit ⟨1, false⟩).Run init ((machine Unit ⟨1, false⟩).trace init brokenRun) t ∧
      t.Live secondSession ∧ t.peers.get 7 = some secondSession := by
  obtain ⟨t, hrun, hlive⟩ := (machine Unit ⟨1, false⟩).run_of_exec_any init brokenRun
    (P := fun t => t.Live secondSession) (by decide)
  have hok : Machine.Meets StoreClear ((machine Unit ⟨1, false⟩).trace init brokenRun) := by
    unfold Machine.Meets
    decide
  have hmain := removePeer_evicts_only_own rfl hrun .nil (by simpa using hok)
  exact ⟨t, hrun, hlive, hmain.2.1 secondSession hlive⟩

/-- Peer 7 connects; gossip reports it dead, so its session is removed and told `Bye`; it connects
    again; and only then the watcher of the first session runs. -/
def leaveRun : List (Action Unit) :=
  [Action.newPeer .yamux ⟨7, true⟩] ++ List.replicate 6 (Action.advance 0 true) ++
    [Action.recvNotify, .leave 7] ++ List.replicate 4 (Action.remove 1) ++
    [Action.newPeer .yamux ⟨7, true⟩] ++ List.replicate 6 (Action.advance 1 true) ++
    [Action.merge ⟨7, 0, ()⟩, .mergeLoad] ++ List.replicate 3 (Action.remove 0)

theorem removePeer_evicts_successor :
    ∃ t, (machine Unit ⟨1, false⟩).Reachable t ∧
      (∃ r ∈ t.removers, r.origin = .watcher firstSession ∧ r.deleted = some secondSession) ∧
      t.Live secondSession ∧ t.peers.get 7 = none ∧ SyncMap.load t.peerGraph 7 = none :=
  (machine Unit ⟨1, false⟩).reachable_of_exec_any rfl leaveRun (by decide)

end Node

end Tunnel.Server
