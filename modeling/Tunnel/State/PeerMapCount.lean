import Mathlib.Tactic.LinearCombination
import Tunnel.Lib.Machine
import Tunnel.Lib.Pool
import Tunnel.State.PeerMap

set_option autoImplicit false

/-! # Concurrent `NewPeer` and `Remove`

Any number of `NewPeer` and `Remove` calls on one `PeerMap`, interleaved operation by operation.
`NewPeer` looks the ID up first and stores the session a second later, so two calls on one ID can
both find it absent: the second `Store` then overwrites the session of the first, both calls return
`nil` and both count, while the map has one entry (`newPeer_race`). From that moment on `Len` is one
too high, and it stays so.

The overwriting `Store` is the only way in. In every run in which each `Store` finds its ID absent
(`StoreFree`), at most one call for an ID registers a session between two removals of it, and
`Len` is the number of keys whenever no call is in progress (`one_session_per_id_and_exact_len`).

The count is kept by one equation that holds between any two operations: the counter is the number
of keys, plus what the calls in progress still owe it (`Call.owed`). The counter is a `uint64`, and
a `Remove` may subtract before the `NewPeer` of the same session has added, so the equation lives in
the ring of 64-bit words. -/

namespace Tunnel.State

open Tunnel.Lib Tunnel.Multiplexer

/-- A call in progress on a `PeerMap`. -/
inductive Call
  | newPeer (c : NewPeerCall)
  | remove (c : RemoveCall)

namespace Call

/-- One operation of a call. -/
def step (m : PeerMap) (ok : Bool) : Call → Option (PeerMap × Call)
  | .newPeer c => (c.step m ok).map (fun r => (r.1, .newPeer r.2))
  | .remove c => (c.step m).map (fun r => (r.1, .remove r.2))

/-- The call has returned. -/
def returned : Call → Bool
  | .newPeer c => match c.pc with | .returned _ => true | _ => false
  | .remove c => match c.pc with | .returned _ => true | _ => false

/-- A `NewPeer` for `x` that registered a session. -/
def registered (x : UInt64) : Call → Bool
  | .newPeer c => c.conf.peer = x && c.stored.isSome
  | .remove _ => false

/-- A `Remove` of `x` whose `LoadAndDelete` took an entry. -/
def removed (x : UInt64) : Call → Bool
  | .newPeer _ => false
  | .remove c => c.peer = x &&
      match c.pc with
      | .add _ | .bye _ | .returned (some _) => true
      | _ => false

/-- The ID under which the next operation of the call stores a session, if it is a `Store`. -/
def stores : Call → Option UInt64
  | .newPeer c => c.storing
  | .remove _ => none

/-- What the counter is ahead of the map because of this call: a `NewPeer` between its `Store` and
    its `AddUint64` has not added yet, a `Remove` in the same place has not subtracted yet. -/
def owed : Call → UInt64
  | .newPeer c => match c.pc with | .add _ => -1 | _ => 0
  | .remove c => match c.pc with | .add _ => 1 | _ => 0

end Call

/-- A `PeerMap` and the calls on it. -/
structure Calls where
  map : PeerMap
  calls : List Call

namespace Calls

/-- A new call, the next operation of the `i`-th call, or a receive from `Notify()`. -/
inductive Action
  | newPeer (protocol : Protocol) (conf : Config)
  | remove (peer : UInt64)
  | advance (i : ℕ) (ok : Bool)
  | recvNotify

def step (s : Calls) : Action → Option Calls
  | .newPeer protocol conf =>
      some { s with calls := s.calls ++ [.newPeer ⟨protocol, conf, .load⟩] }
  | .remove peer => some { s with calls := s.calls ++ [.remove ⟨peer, .loadAndDelete⟩] }
  | .advance i ok =>
      s.calls[i]?.bind (fun c =>
        (c.step s.map ok).map (fun r => { map := r.1, calls := s.calls.set i r.2 }))
  | .recvNotify =>
      s.map.notify.recv.map (fun r => { s with map := { s.map with notify := r.2 } })

/-- Every interleaving of every finite set of calls, on a new map. -/
def machine : Machine Calls Action where
  Init s := s = ⟨PeerMap.init, []⟩
  step := step

/-- No call is in progress. -/
def Quiescent (s : Calls) : Prop := ∀ c ∈ s.calls, c.returned = true

instance (s : Calls) : Decidable s.Quiescent := List.decidableBAll _ _

/-- How many `NewPeer` calls for `x` registered a session. -/
def registrations (s : Calls) (x : UInt64) : ℕ := s.calls.countP (Call.registered x)

/-- How many `Remove` calls deleted the entry of `x`. -/
def removals (s : Calls) (x : UInt64) : ℕ := s.calls.countP (Call.removed x)

/-- A `Store` is only taken while the map has no entry for its ID. -/
def StoreFree (s : Calls) : Action → Prop
  | .advance i _ => ∀ x ∈ s.calls[i]?.bind Call.stores, s.map.peers.load x = none
  | _ => True

instance (s : Calls) : DecidablePred s.StoreFree
  | .advance i _ =>
      inferInstanceAs (Decidable (∀ x ∈ s.calls[i]?.bind Call.stores, s.map.peers.load x = none))
  | .newPeer _ _ | .remove _ | .recvNotify => isTrue trivial

end Calls

/-! ## One operation of a call -/

open scoped UInt64.CommRing

namespace Call

variable {m m' : PeerMap} {c c' : Call} {ok : Bool}

/-- The rules of both calls. -/
theorem step_cases (h : c.step m ok = some (m', c')) :
    (∃ n n', c = .newPeer n ∧ c' = .newPeer n' ∧ n.Step m m' n') ∨
      ∃ r r', c = .remove r ∧ c' = .remove r' ∧ r.Step m m' r' := by
  cases c with
  | newPeer n =>
      simp only [step, Option.map_eq_some_iff, Prod.mk.injEq] at h
      obtain ⟨⟨m₁, n'⟩, hn, rfl, rfl⟩ := h
      exact Or.inl ⟨n, n', rfl, rfl, NewPeerCall.step_rule hn⟩
  | remove r =>
      simp only [step, Option.map_eq_some_iff, Prod.mk.injEq] at h
      obtain ⟨⟨m₁, r'⟩, hr, rfl, rfl⟩ := h
      exact Or.inr ⟨r, r', rfl, rfl, RemoveCall.step_rule hr⟩

/-- If the call is at its `Store`, the map has no entry for its ID. -/
def Free (m : PeerMap) (c : Call) : Prop := ∀ x ∈ c.stores, m.peers.load x = none

/-- Adding `^uint64(0)` subtracts one. -/
theorem complement_zero : (~~~0 : UInt64) = -1 := by decide

/-- What an operation changes in the counter, in the map and in what the call owes cancels out. -/
theorem step_owed (h : c.step m ok = some (m', c')) (hfree : c.Free m) :
    m'.num + (m.peers.keys.length + c.owed) = m.num + (m'.peers.keys.length + c'.owed) := by
  rcases step_cases h with ⟨n, n', rfl, rfl, hn⟩ | ⟨r, r', rfl, rfl, hr⟩
  · cases hn with
    | store hpc =>
        -- the map has one key more, which the call owes the counter
        have hnone := hfree n.conf.peer (by simp [stores, NewPeerCall.storing, hpc])
        rw [SyncMap.length_keys_store_of_none _ hnone]
        simp only [owed, hpc]
        push_cast
        ring
    | add hpc => simp only [owed, hpc]; ring
    | _ => simp_all [owed]
  · cases hr with
    | delete hpc hload =>
        -- the map has one key less, and the call owes `-1`
        rw [← SyncMap.length_keys_delete_of_some hload]
        simp only [owed, hpc]
        push_cast
        ring
    | add hpc => simp only [owed, hpc, complement_zero]; ring
    | _ => simp_all [owed]

/-- An operation registers `x` exactly when it brings its entry, and removes it exactly when it
    takes it away. -/
theorem step_balance (h : c.step m ok = some (m', c')) (hfree : c.Free m) (x : UInt64) :
    (c'.registered x).toNat + (c.removed x).toNat + (m.peers.load x).isSome.toNat
      = (c.registered x).toNat + (c'.removed x).toNat + (m'.peers.load x).isSome.toNat := by
  rcases step_cases h with ⟨n, n', rfl, rfl, hn⟩ | ⟨r, r', rfl, rfl, hr⟩
  · cases hn with
    | store hpc =>
        have hnone := hfree n.conf.peer (by simp [stores, NewPeerCall.storing, hpc])
        by_cases hx : n.conf.peer = x
        · subst hx
          simp [registered, removed, NewPeerCall.stored, hpc, hnone]
        · simp [registered, removed, hx, SyncMap.load_store_ne _ _ (Ne.symm hx)]
    | _ => simp_all [registered, removed, NewPeerCall.stored]
  · cases hr with
    | delete hpc hload =>
        by_cases hx : r.peer = x
        · subst hx
          simp [registered, removed, hpc, hload]
        · simp [registered, removed, hx, SyncMap.load_delete_ne _ (Ne.symm hx)]
    | _ => simp_all [registered, removed]

/-- The ID of a session past its constructor is not 0. -/
def Valid : Call → Prop
  | .newPeer n => ∀ p, n.pc = .wait p ∨ n.pc = .store p → n.conf.peer ≠ 0
  | .remove _ => True

theorem step_valid (h : c.step m ok = some (m', c')) (hc : c.Valid) :
    c'.Valid ∧ (m.peers.load 0 = none → m'.peers.load 0 = none) := by
  rcases step_cases h with ⟨n, n', rfl, rfl, hn⟩ | ⟨r, r', rfl, rfl, hr⟩
  · cases hn with
    | constructed hpc hpeer hp => exact ⟨fun _ _ => hpeer, id⟩
    | waited hpc => exact ⟨fun _ _ => hc _ (Or.inl hpc), id⟩
    | store hpc =>
        refine ⟨fun _ hpc' => ?_, fun hzero => ?_⟩
        · simp at hpc'
        · have hpeer : n.conf.peer ≠ 0 := hc _ (Or.inr hpc)
          simpa [SyncMap.load_store_ne _ _ (Ne.symm hpeer)] using hzero
    | _ => exact ⟨fun _ hpc' => by simp at hpc', id⟩
  · cases hr with
    | delete hpc hload =>
        refine ⟨trivial, fun hzero => ?_⟩
        by_cases hx : r.peer = 0
        · simp [hx]
        · simpa [SyncMap.load_delete_ne _ (Ne.symm hx)] using hzero
    | _ => exact ⟨trivial, id⟩

/-- The entry of `x` changes only by a `Store` that finds none or by a `LoadAndDelete`. -/
theorem step_load (h : c.step m ok = some (m', c')) (hfree : c.Free m) (x : UInt64) :
    m'.peers.load x = m.peers.load x ∨ m.peers.load x = none ∨
      c.removed x = false ∧ c'.removed x = true := by
  rcases step_cases h with ⟨n, n', rfl, rfl, hn⟩ | ⟨r, r', rfl, rfl, hr⟩
  · cases hn with
    | store hpc =>
        by_cases hx : n.conf.peer = x
        · subst hx
          exact Or.inr (Or.inl (hfree n.conf.peer (by simp [stores, NewPeerCall.storing, hpc])))
        · exact Or.inl (SyncMap.load_store_ne _ _ (Ne.symm hx))
    | _ => exact Or.inl rfl
  · cases hr with
    | delete hpc hload =>
        by_cases hx : r.peer = x
        · exact Or.inr (Or.inr (by simp [removed, hpc, hx]))
        · exact Or.inl (SyncMap.load_delete_ne _ (Ne.symm hx))
    | _ => exact Or.inl rfl

theorem removed_step (h : c.step m ok = some (m', c')) (x : UInt64) (hc : c.removed x = true) :
    c'.removed x = true := by
  rcases step_cases h with ⟨n, n', rfl, rfl, hn⟩ | ⟨r, r', rfl, rfl, hr⟩
  · simp [removed] at hc
  · cases hr <;> simp_all [removed]

theorem owed_of_returned (h : c.returned = true) : c.owed = 0 := by
  cases c with
  | newPeer n =>
      unfold returned at h
      cases hpc : n.pc <;> simp_all [owed]
  | remove r =>
      unfold returned at h
      cases hpc : r.pc <;> simp_all [owed]

end Call

/-! ## The invariant of a run -/

namespace Calls

variable {s s' : Calls} {a : Action}

/-- What holds between any two operations: the counter is right but for what the calls owe it, the
    registrations of an ID are its removals and its entry, and no session is under ID 0. -/
structure Inv (s : Calls) : Prop where
  counted : s.map.num = s.map.peers.keys.length + (s.calls.map Call.owed).sum
  balance : ∀ x, s.registrations x = s.removals x + (s.map.peers.load x).isSome.toNat
  nonzero : s.map.peers.load 0 = none
  valid : ∀ c ∈ s.calls, c.Valid

theorem inv_init : Inv ⟨PeerMap.init, []⟩ where
  counted := by simp [PeerMap.init]
  balance := by simp [registrations, removals, PeerMap.init]
  nonzero := by simp [PeerMap.init]
  valid := by simp

/-- A call that starts has done nothing yet. -/
theorem inv_start (hs : s.Inv) {c : Call} (howed : c.owed = 0)
    (hreg : ∀ x, c.registered x = false) (hrem : ∀ x, c.removed x = false) (hvalid : c.Valid) :
    Inv { s with calls := s.calls ++ [c] } where
  counted := by simpa [howed] using hs.counted
  balance := by
    intro x
    simpa [registrations, removals, List.countP_append, hreg, hrem] using hs.balance x
  nonzero := hs.nonzero
  valid := List.forall_mem_append.2 ⟨hs.valid, List.forall_mem_singleton.2 hvalid⟩

/-- The next operation of a call keeps the invariant, if it is not an overwriting `Store`. -/
theorem inv_advance (hs : s.Inv) {i : ℕ} {c c' : Call} {m' : PeerMap} {ok : Bool}
    (hc : s.calls[i]? = some c) (hfree : c.Free s.map) (h : c.step s.map ok = some (m', c')) :
    Inv { map := m', calls := s.calls.set i c' } := by
  have hvalid := Call.step_valid h (hs.valid c (List.mem_of_getElem? hc))
  refine ⟨?_, ?_, hvalid.2 hs.nonzero, forall_mem_set hs.valid hvalid.1⟩
  · have hsum := sum_map_set_add Call.owed hc c'
    have howed := Call.step_owed h hfree
    have hnum := hs.counted
    show m'.num = m'.peers.keys.length + ((s.calls.set i c').map Call.owed).sum
    linear_combination howed - hsum + hnum
  · intro x
    have hreg := countP_set_add (Call.registered x) hc c'
    have hrem := countP_set_add (Call.removed x) hc c'
    have hstep := Call.step_balance h hfree x
    have hbal := hs.balance x
    simp only [registrations, removals] at hbal ⊢
    omega

theorem inv_step (hs : s.Inv) (hok : StoreFree s a) (h : s.step a = some s') : s'.Inv := by
  cases a with
  | newPeer protocol conf =>
      simp only [step, Option.some.injEq] at h
      subst h
      exact inv_start hs rfl (by simp [Call.registered, NewPeerCall.stored])
        (by simp [Call.removed]) (fun p hpc => by simp at hpc)
  | remove peer =>
      simp only [step, Option.some.injEq] at h
      subst h
      exact inv_start hs rfl (by simp [Call.registered]) (by simp [Call.removed]) trivial
  | advance i ok =>
      obtain ⟨c, hc, h⟩ := Option.bind_eq_some_iff.1 h
      obtain ⟨⟨m', c'⟩, hstep, rfl⟩ := Option.map_eq_some_iff.1 h
      have hfree : c.Free s.map := by
        intro x hx
        exact hok x (by simpa [hc] using hx)
      exact inv_advance hs hc hfree hstep
  | recvNotify =>
      obtain ⟨r, _, rfl⟩ := Option.map_eq_some_iff.1 h
      exact ⟨hs.counted, hs.balance, hs.nonzero, hs.valid⟩

theorem inv_of_reachableVia (h : machine.ReachableVia StoreFree s) : s.Inv := by
  refine h.invariant ?_ (fun _ _ _ hI hok hst => inv_step hI hok hst)
  rintro s rfl
  exact inv_init

/-! ## What the invariant gives -/

/-- A map without a session under ID 0 has fewer than `2 ^ 64` keys. -/
theorem length_keys_lt {m : PeerMap} (h : m.peers.load 0 = none) :
    m.peers.keys.length < 2 ^ 64 := by
  have hnodup : ((0 :: m.peers.keys).map UInt64.toNat).Nodup := by
    refine List.Nodup.map (fun _ _ => UInt64.toNat_inj.1) ?_
    exact List.nodup_cons.2 ⟨SyncMap.load_eq_none.1 h, m.peers.keys_nodup⟩
  have hsub : ((0 :: m.peers.keys).map UInt64.toNat).toFinset ⊆ Finset.range (2 ^ 64) := by
    intro n hn
    obtain ⟨x, _, rfl⟩ := List.mem_map.1 (List.mem_toFinset.1 hn)
    exact Finset.mem_range.2 x.toNat_lt
  have hcard := Finset.card_le_card hsub
  rw [List.toFinset_card_of_nodup hnodup, Finset.card_range, List.length_map,
    List.length_cons] at hcard
  omega

/-- With no call in progress the counter is the number of keys. -/
theorem len_of_quiescent (hs : s.Inv) (hq : s.Quiescent) :
    s.map.len = s.map.peers.keys.length := by
  have howed : (s.calls.map Call.owed).sum = 0 := by
    refine List.sum_eq_zero ?_
    intro w hw
    obtain ⟨c, hc, rfl⟩ := List.mem_map.1 hw
    exact Call.owed_of_returned (hq c hc)
  have hnum := hs.counted
  rw [howed, add_zero] at hnum
  rw [PeerMap.len, hnum]
  exact UInt64.toNat_ofNat_of_lt' (length_keys_lt hs.nonzero)

/-- A step either leaves the removals of `x` and its session as they are, or it removes `x`, or
    there was no session to lose. -/
theorem load_step (hok : StoreFree s a) (h : s.step a = some s') (x : UInt64) :
    s'.removals x = s.removals x + 1 ∨ s'.removals x = s.removals x ∧
      (s'.map.peers.load x = s.map.peers.load x ∨ s.map.peers.load x = none) := by
  cases a with
  | newPeer protocol conf =>
      simp only [step, Option.some.injEq] at h
      subst h
      refine Or.inr ⟨?_, Or.inl rfl⟩
      simp [removals, List.countP_append, Call.removed]
  | remove peer =>
      simp only [step, Option.some.injEq] at h
      subst h
      refine Or.inr ⟨?_, Or.inl rfl⟩
      simp [removals, List.countP_append, Call.removed]
  | advance i ok =>
      obtain ⟨c, hc, h⟩ := Option.bind_eq_some_iff.1 h
      obtain ⟨⟨m', c'⟩, hstep, rfl⟩ := Option.map_eq_some_iff.1 h
      have hcount := countP_set_add (Call.removed x) hc c'
      have hfree : c.Free s.map := by
        intro x hx
        exact hok x (by simpa [hc] using hx)
      have hmono := Call.removed_step hstep x
      have hload := Call.step_load hstep hfree x
      show (s.calls.set i c').countP (Call.removed x) = s.calls.countP (Call.removed x) + 1 ∨
        (s.calls.set i c').countP (Call.removed x) = s.calls.countP (Call.removed x) ∧
          (m'.peers.load x = s.map.peers.load x ∨ s.map.peers.load x = none)
      cases hcr : c.removed x with
      | true =>
          have hcr' := hmono hcr
          rw [hcr, hcr'] at hcount
          exact Or.inr ⟨by omega, hload.imp id (fun h => h.resolve_right (by simp [hcr]))⟩
      | false =>
          cases hcr' : c'.removed x with
          | true =>
              rw [hcr, hcr', Bool.toNat_false, Bool.toNat_true] at hcount
              exact Or.inl hcount
          | false =>
              rw [hcr, hcr'] at hcount
              exact Or.inr ⟨by omega, hload.imp id (fun h => h.resolve_right (by simp [hcr']))⟩
  | recvNotify =>
      obtain ⟨r, _, rfl⟩ := Option.map_eq_some_iff.1 h
      exact Or.inr ⟨rfl, Or.inl rfl⟩

/-- Removals are never taken back, and while `x` is not removed its session stays the one it is. -/
theorem load_run {t : Calls} {tr : List (Calls × Action)} (h : machine.Run s tr t)
    (hok : Machine.Meets StoreFree tr) (x : UInt64) :
    s.removals x ≤ t.removals x ∧ (t.removals x = s.removals x →
      t.map.peers.load x = s.map.peers.load x ∨ s.map.peers.load x = none) := by
  refine h.invariant (I := fun t => s.removals x ≤ t.removals x ∧ (t.removals x = s.removals x →
      t.map.peers.load x = s.map.peers.load x ∨ s.map.peers.load x = none)) hok
    ⟨le_rfl, fun _ => Or.inl rfl⟩ ?_
  rintro t a t' ⟨hle, hload⟩ hoka hstep
  rcases load_step hoka hstep x with hrem | ⟨hrem, hsame⟩
  · exact ⟨by omega, fun heq => by omega⟩
  · refine ⟨by omega, fun heq => ?_⟩
    rcases hload (by omega) with ht | hnone
    · rcases hsame with hsame | hnone
      · exact Or.inl (hsame.trans ht)
      · exact Or.inr (ht ▸ hnone)
    · exact Or.inr hnone

/-- **One session per ID and an exact count.** In every run in which each `Store` of a `NewPeer`
    finds no entry under its ID: between two states with no removal of `x` in between, at most one
    `NewPeer` for `x` registers a session, a session that is in the map is still there, and when no
    call is in progress `Len()` is the number of keys. -/
theorem one_session_per_id_and_exact_len {s₀ : Calls} {tr tr' : List (Calls × Action)}
    (h₀ : machine.Init s₀) (h : machine.Run s₀ tr s) (h' : machine.Run s tr' s')
    (hok : Machine.Meets StoreFree (tr ++ tr')) :
    (∀ x, s'.removals x = s.removals x →
        s'.registrations x ≤ s.registrations x + 1 ∧
          ∀ p, s.map.peers.load x = some p → s'.map.peers.load x = some p) ∧
      (s'.Quiescent → s'.map.len = s'.map.peers.keys.length) := by
  obtain ⟨hoktr, hoktr'⟩ := Machine.meets_append.1 hok
  have hs : s.Inv := inv_of_reachableVia ⟨s₀, tr, h₀, h, hoktr⟩
  have hs' : s'.Inv := inv_of_reachableVia ⟨s₀, tr ++ tr', h₀, h.append h', hok⟩
  refine ⟨fun x hrem => ⟨?_, fun p hp => ?_⟩, len_of_quiescent hs'⟩
  · have hb := hs.balance x
    have hb' := hs'.balance x
    have hle : (s'.map.peers.load x).isSome.toNat ≤ 1 := Bool.toNat_le _
    omega
  · rcases (load_run h' hoktr' x).2 hrem with hsame | hnone
    · rw [hsame, hp]
    · exact absurd hp (by simp [hnone])

/-- Peer 7 connects, is removed and connects again; a third `NewPeer` is turned away. -/
def reconnectRun : List Action :=
  [.newPeer .yamux ⟨7, true⟩, .advance 0 true, .advance 0 true, .advance 0 true, .advance 0 true,
    .advance 0 true, .advance 0 true, .remove 7, .advance 1 true, .advance 1 true, .advance 1 true,
    .newPeer .quic ⟨7, false⟩, .advance 2 true, .advance 2 true, .advance 2 true, .advance 2 true,
    .advance 2 true, .advance 2 true, .newPeer .yamux ⟨7, true⟩, .advance 3 true]

theorem one_session_per_id_and_exact_len_reconnect :
    ∃ t, machine.Run ⟨PeerMap.init, []⟩ (machine.trace ⟨PeerMap.init, []⟩ reconnectRun) t ∧
      t.Quiescent ∧ t.registrations 7 = 2 ∧ t.removals 7 = 1 ∧
      t.map.len = t.map.peers.keys.length := by
  obtain ⟨t, hrun, hq, hreg, hrem⟩ := machine.run_of_exec_any ⟨PeerMap.init, []⟩ reconnectRun
    (P := fun t => t.Quiescent ∧ t.registrations 7 = 2 ∧ t.removals 7 = 1) (by decide)
  have hok : Machine.Meets StoreFree (machine.trace ⟨PeerMap.init, []⟩ reconnectRun) := by
    unfold Machine.Meets
    decide
  have := one_session_per_id_and_exact_len rfl hrun .nil (by simpa using hok)
  exact ⟨t, hrun, hq, hreg, hrem, this.2 hq⟩

/-- Two calls for peer 7, one made by `NotifyJoin` and one by `peerReconciliation`, both look it up
    before either has stored its session. -/
def raceRun : List Action :=
  [.newPeer .yamux ⟨7, true⟩, .newPeer .yamux ⟨7, true⟩, .advance 0 true, .advance 1 true,
    .advance 0 true, .advance 1 true, .advance 0 true, .advance 1 true, .advance 0 true,
    .advance 0 true, .advance 0 true, .advance 1 true, .advance 1 true, .advance 1 true]

theorem newPeer_race :
    ∃ t, machine.Reachable t ∧ t.Quiescent ∧ t.removals 7 = 0 ∧ t.registrations 7 = 2 ∧
      t.map.peers.keys = [7] ∧ t.map.len = 2 :=
  machine.reachable_of_exec_any rfl raceRun (by decide)

end Calls

end Tunnel.State
