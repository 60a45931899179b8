import Tunnel.Messaging.Channel

set_option autoImplicit false

/-! # Who tears a messaging stream down

Every stream runs `forget` twice: in its reader when reading fails, and once more in its waiter when
reader and writer have ended. The second call is there for nothing, because the first has already
taken the stream out of the map; unless a new stream of the same peer was registered in between.
Then the waiter of the old stream deletes the new one, closes its connection and its channels, and
the reader of the new stream sends on a closed channel (`forget_tears_down_successor`).

If a stream is only registered for a peer when all earlier streams of the peer have run their last
`forget` to its end (`RegisterClear`), every `forget` touches the stream it runs for and nothing
panics (`forget_touches_only_own`). -/

namespace Tunnel.Messaging.Channel

open Tunnel.Lib

/-- A stream is only registered for a peer when the earlier streams of the peer are all over. -/
def RegisterClear (c : Channel) : Action → Prop
  | .register peer => ∀ st ∈ c.streams, st.peer = peer → st.waiter = .done
  | _ => True

instance (c : Channel) : DecidablePred c.RegisterClear
  | .register peer => inferInstanceAs (Decidable (∀ st ∈ c.streams, st.peer = peer → _))
  | .readMessage _ _ | .readError _ | .sendIn _ | .readerForget _ | .writerRecv _ | .wrote _ _
  | .waited _ | .waiterForget _ | .consume _ | .write _ _ | .writeSend _ => isTrue trivial

/-- How far the `i`-th stream has come. It is in the map until its reader looks it up; what the
    reader finds is the stream itself, which it then closes; and the waiter only ever looks up. -/
def Good (peers : SyncMap UInt64 ℕ) (i : ℕ) (st : MessageChannel) : Prop :=
  match st.reader with
  | .reading | .sending _ | .forgetting .lookup =>
      peers.load st.peer = some i ∧ st.inClosed = false ∧ st.outClosed = false ∧
        st.waiter = .waiting
  | .forgetting (.closeConn j) | .forgetting (.closeIn j) =>
      peers.load st.peer ≠ some i ∧ j = i ∧ st.inClosed = false ∧ st.outClosed = false ∧
        st.waiter = .waiting
  | .forgetting (.closeOut j) =>
      peers.load st.peer ≠ some i ∧ j = i ∧ st.outClosed = false ∧ st.waiter = .waiting
  | .done =>
      peers.load st.peer ≠ some i ∧
        (st.waiter = .waiting ∨ st.waiter = .forgetting .lookup ∨ st.waiter = .done)

/-- `Good` asks of the map only whether the stream is in it. -/
theorem good_congr {peers peers' : SyncMap UInt64 ℕ} {i : ℕ} {st : MessageChannel}
    (h : peers'.load st.peer = some i ↔ peers.load st.peer = some i) :
    Good peers' i st ↔ Good peers i st := by
  unfold Good
  split <;> simp only [ne_eq, h]

/-- What the condition on registrations keeps. -/
structure Orderly (c : Channel) : Prop where
  calm : c.panic = none
  own : ∀ p ∈ c.touches, p.1 = p.2
  good : ∀ (i : ℕ) st, c.streams[i]? = some st → Good c.peers i st
  entry : ∀ x i, c.peers.load x = some i → ∃ st, c.streams[i]? = some st ∧ st.peer = x
  single : ∀ (i j : ℕ) (st st' : MessageChannel), c.streams[i]? = some st →
    c.streams[j]? = some st' → st.peer = st'.peer →
      i = j ∨ st.waiter = .done ∨ st'.waiter = .done

namespace Orderly

variable {c c' : Channel} {a : Action} {i : ℕ} {st : MessageChannel}

theorem init : Orderly Channel.init where
  calm := rfl
  own := by simp [Channel.init]
  good := by simp [Channel.init]
  entry := by simp [Channel.init]
  single := by simp [Channel.init]

/-- A stream that is in the map has its reader's lookup ahead of it, so its waiter waits. -/
theorem waiting_of_load (hc : c.Orderly) (hst : c.streams[i]? = some st)
    (hload : c.peers.load st.peer = some i) : st.waiter = .waiting := by
  have hgood := hc.good i st hst
  unfold Good at hgood
  split at hgood
  · exact hgood.2.2.2
  · exact hgood.2.2.2
  · exact hgood.2.2.2
  · exact absurd hload hgood.1
  · exact absurd hload hgood.1
  · exact absurd hload hgood.1
  · exact absurd hload hgood.1

/-- One stream moves on: nothing but itself is touched, and what the map says of the other streams
    stays. -/
theorem modify (hc : c.Orderly) (hst : c.streams[i]? = some st)
    {f : MessageChannel → MessageChannel} (hstreams : c'.streams = c.streams.modify i f)
    (hload : ∀ x k, c'.peers.load x = some k → c.peers.load x = some k)
    (hothers : ∀ x k, k ≠ i → c.peers.load x = some k → c'.peers.load x = some k)
    (hpanic : c'.panic = none) (htouches : ∀ p ∈ c'.touches, p ∈ c.touches ∨ p = (i, i))
    (hpeer : (f st).peer = st.peer) (hdone : st.waiter = .done → (f st).waiter = .done)
    (hgood : Good c'.peers i (f st)) : c'.Orderly := by
  -- a stream is the one that moved, or as before
  have hget : ∀ (k : ℕ) st', c'.streams[k]? = some st' →
      k = i ∧ st' = f st ∨ k ≠ i ∧ c.streams[k]? = some st' := by
    intro k st' hk
    rw [hstreams, List.getElem?_modify] at hk
    by_cases hki : i = k
    · subst hki
      rw [hst] at hk
      simp only [if_true, Option.map_eq_map, Option.map_some, Option.some.injEq] at hk
      exact Or.inl ⟨rfl, hk.symm⟩
    · simp only [hki, if_false, Option.map_eq_map, Option.map_id'] at hk
      exact Or.inr ⟨fun h => hki h.symm, hk⟩
  refine ⟨hpanic, ?_, ?_, ?_, ?_⟩
  · intro p hp
    rcases htouches p hp with h | rfl
    · exact hc.own p h
    · rfl
  · intro k st' hk
    rcases hget k st' hk with ⟨rfl, rfl⟩ | ⟨hki, hk⟩
    · exact hgood
    · exact (good_congr ⟨hload _ k, hothers _ k hki⟩).2 (hc.good k st' hk)
  · intro x k hx
    obtain ⟨st', hst', hx'⟩ := hc.entry x k (hload x k hx)
    by_cases hki : k = i
    · subst hki
      rw [hst, Option.some.injEq] at hst'
      subst hst'
      exact ⟨f st, by simp [hstreams, hst], hpeer.trans hx'⟩
    · refine ⟨st', ?_, hx'⟩
      rw [hstreams, List.getElem?_modify, hst']
      simp [Ne.symm hki]
  · intro k l sk sl hk hl hsame
    rcases hget k sk hk with ⟨rfl, rfl⟩ | ⟨hki, hk⟩
    · rcases hget l sl hl with ⟨rfl, rfl⟩ | ⟨hli, hl⟩
      · exact Or.inl rfl
      · rcases hc.single k l st sl hst hl (hpeer.symm.trans hsame) with h | h | h
        · exact Or.inl h
        · exact Or.inr (Or.inl (hdone h))
        · exact Or.inr (Or.inr h)
    · rcases hget l sl hl with ⟨rfl, rfl⟩ | ⟨hli, hl⟩
      · rcases hc.single k l sk st hk hst (hsame.trans hpeer) with h | h | h
        · exact Or.inl h
        · exact Or.inr (Or.inl h)
        · exact Or.inr (Or.inr (hdone h))
      · exact hc.single k l sk sl hk hl hsame

/-- A stream moves on without `forget`. -/
theorem advance (hc : c.Orderly) (hst : c.streams[i]? = some st)
    {f : MessageChannel → MessageChannel} (hstreams : c'.streams = c.streams.modify i f)
    (hpeers : c'.peers = c.peers) (hpanic : c'.panic = c.panic)
    (htouches : c'.touches = c.touches) (hpeer : (f st).peer = st.peer)
    (hdone : st.waiter = .done → (f st).waiter = .done) (hgood : Good c.peers i (f st)) :
    c'.Orderly := by
  refine hc.modify hst hstreams ?_ ?_ (hpanic.trans hc.calm) ?_ hpeer hdone (hpeers ▸ hgood)
  · rw [hpeers]
    exact fun _ _ => id
  · rw [hpeers]
    exact fun _ _ _ => id
  · rw [htouches]
    exact fun _ => Or.inl

/-- A goroutine of the stream moves in a way that its `forget`s do not see. -/
theorem keep (hc : c.Orderly) (hst : c.streams[i]? = some st)
    {f : MessageChannel → MessageChannel} (hstreams : c'.streams = c.streams.modify i f)
    (hpeers : c'.peers = c.peers) (hpanic : c'.panic = c.panic)
    (htouches : c'.touches = c.touches) (hpeer : (f st).peer = st.peer)
    (hreader : (f st).reader = st.reader) (hwaiter : (f st).waiter = st.waiter)
    (hin : (f st).inClosed = st.inClosed) (hout : (f st).outClosed = st.outClosed) :
    c'.Orderly := by
  refine hc.advance hst hstreams hpeers hpanic htouches hpeer (fun h => hwaiter.trans h) ?_
  have hgood := hc.good i st hst
  unfold Good at hgood ⊢
  rw [hreader, hpeer, hwaiter, hin, hout]
  exact hgood

/-- `Register` for a peer whose earlier streams are all over finds no entry, and adds a stream that
    is alone. -/
theorem register (hc : c.Orderly) {peer : UInt64}
    (hok : ∀ st ∈ c.streams, st.peer = peer → st.waiter = .done) :
    c.peers.load peer = none ∧
      Orderly { c with
        peers := c.peers.store peer c.streams.length
        streams := c.streams ++ [newStream peer] } := by
  have hnone : c.peers.load peer = none := by
    cases hload : c.peers.load peer with
    | none => rfl
    | some i =>
        obtain ⟨st, hst, rfl⟩ := hc.entry peer i hload
        have hwait := hc.waiting_of_load hst hload
        rw [hok st (List.mem_of_getElem? hst) rfl] at hwait
        exact absurd hwait (by simp)
  have hget : ∀ (k : ℕ) st, (c.streams ++ [newStream peer])[k]? = some st →
      k < c.streams.length ∧ c.streams[k]? = some st ∨
        k = c.streams.length ∧ st = newStream peer := by
    intro k st hk
    by_cases hlt : k < c.streams.length
    · rw [List.getElem?_append_left hlt] at hk
      exact Or.inl ⟨hlt, hk⟩
    · rw [List.getElem?_append_right (by omega), List.getElem?_singleton,
        Option.ite_none_right_eq_some, Option.some.injEq] at hk
      exact Or.inr ⟨by omega, hk.2.symm⟩
  refine ⟨hnone, hc.calm, hc.own, ?_, ?_, ?_⟩
  · intro k st hk
    rcases hget k st hk with ⟨hlt, hk⟩ | ⟨rfl, rfl⟩
    · refine (good_congr ?_).2 (hc.good k st hk)
      by_cases hx : st.peer = peer
      · rw [hx, hnone, SyncMap.load_store_self, Option.some.injEq]
        exact ⟨fun h => absurd h (by omega), fun h => absurd h (by simp)⟩
      · rw [SyncMap.load_store_ne _ _ hx]
    · exact ⟨SyncMap.load_store_self _ _ _, rfl, rfl, rfl⟩
  · intro x k hx
    by_cases hxp : x = peer
    · subst hxp
      rw [SyncMap.load_store_self, Option.some.injEq] at hx
      subst hx
      exact ⟨newStream x, by simp, rfl⟩
    · rw [SyncMap.load_store_ne _ _ hxp] at hx
      obtain ⟨st, hst, hpeer⟩ := hc.entry x k hx
      exact ⟨st, by rw [List.getElem?_append_left (List.getElem?_eq_some_iff.1 hst).1, hst], hpeer⟩
  · intro k l sk sl hk hl hsame
    rcases hget k sk hk with ⟨_, hk⟩ | ⟨rfl, rfl⟩
    · rcases hget l sl hl with ⟨_, hl⟩ | ⟨rfl, rfl⟩
      · exact hc.single k l sk sl hk hl hsame
      · exact Or.inr (Or.inl (hok sk (List.mem_of_getElem? hk) hsame))
    · rcases hget l sl hl with ⟨_, hl⟩ | ⟨rfl, rfl⟩
      · exact Or.inr (Or.inr (hok sl (List.mem_of_getElem? hl) hsame.symm))
      · exact Or.inl rfl

/-- The `forget` of a reader takes its own stream out of the map and closes it. -/
theorem readerForget (hc : c.Orderly) {pc : ForgetPc} (hst : c.streams[i]? = some st)
    (hpc : st.reader = .forgetting pc) :
    Orderly ((c.forget i st.peer pc).1.modify i (fun st' =>
      { st' with reader := (c.forget i st.peer pc).2.elim .done ReaderPc.forgetting })) := by
  have hgood := hc.good i st hst
  simp only [Good, hpc] at hgood
  cases pc with
  | lookup =>
      obtain ⟨hload, hin, hout, hwaiter⟩ := hgood
      have hforget : c.forget i st.peer .lookup =
          ({ c with peers := c.peers.delete st.peer, touches := (i, i) :: c.touches },
            some (.closeConn i)) := by
        simp only [forget, hload]
      rw [hforget]
      have hgone : ∀ x k, SyncMap.load (c.peers.delete st.peer) x = some k →
          x ≠ st.peer ∧ c.peers.load x = some k := by
        intro x k hx
        by_cases hxp : x = st.peer
        · subst hxp
          exact absurd hx (by simp)
        · rw [SyncMap.load_delete_ne _ hxp] at hx
          exact ⟨hxp, hx⟩
      refine hc.modify hst rfl (fun x k hx => (hgone x k hx).2) ?_ hc.calm ?_ rfl id ?_
      · intro x k hki hx
        have hxp : x ≠ st.peer := by
          rintro rfl
          rw [hload, Option.some.injEq] at hx
          exact hki hx.symm
        show SyncMap.load (c.peers.delete st.peer) x = some k
        rw [SyncMap.load_delete_ne _ hxp]
        exact hx
      · intro p hp
        exact (List.mem_cons.1 hp).symm
      · exact ⟨fun h => (hgone _ i h).1 rfl, rfl, hin, hout, hwaiter⟩
  | closeConn j =>
      obtain ⟨hload, rfl, hin, hout, hwaiter⟩ := hgood
      refine hc.modify hst (List.modify_modify_eq _ _ _ _) (fun _ _ => id) (fun _ _ _ => id) hc.calm
        (fun p hp => (List.mem_cons.1 hp).symm) rfl id ?_
      exact ⟨hload, rfl, hin, hout, hwaiter⟩
  | closeIn j =>
      obtain ⟨hload, rfl, hin, hout, hwaiter⟩ := hgood
      have hopen : ¬ (c.streams[j]?.elim false MessageChannel.inClosed) = true := by
        simp [hst, hin]
      simp only [forget, if_neg hopen]
      refine hc.modify hst (List.modify_modify_eq _ _ _ _) (fun _ _ => id) (fun _ _ _ => id) hc.calm
        (fun p hp => (List.mem_cons.1 hp).symm) rfl id ?_
      exact ⟨hload, rfl, hout, hwaiter⟩
  | closeOut j =>
      obtain ⟨hload, rfl, hout, hwaiter⟩ := hgood
      have hopen : ¬ (c.streams[j]?.elim false MessageChannel.outClosed) = true := by
        simp [hst, hout]
      simp only [forget, if_neg hopen]
      refine hc.modify hst (List.modify_modify_eq _ _ _ _) (fun _ _ => id) (fun _ _ _ => id) hc.calm
        (fun p hp => (List.mem_cons.1 hp).symm) rfl id ?_
      exact ⟨hload, Or.inl hwaiter⟩

/-- The `forget` of a waiter finds nothing: its own stream is out of the map, and no other stream of
    the peer can be there while this one is not over. -/
theorem waiterForget (hc : c.Orderly) {pc : ForgetPc} (hst : c.streams[i]? = some st)
    (hpc : st.waiter = .forgetting pc) :
    Orderly ((c.forget i st.peer pc).1.modify i (fun st' =>
      { st' with waiter := (c.forget i st.peer pc).2.elim .done WaiterPc.forgetting })) := by
  have hgood := hc.good i st hst
  have hdone : st.reader = .done ∧ pc = .lookup ∧ c.peers.load st.peer ≠ some i := by
    unfold Good at hgood
    split at hgood <;> simp_all
  obtain ⟨hreader, rfl, hload⟩ := hdone
  have hnone : c.peers.load st.peer = none := by
    -- a stream in the map waits, and of two streams of a peer one is over
    cases hx : c.peers.load st.peer with
    | none => rfl
    | some k =>
        obtain ⟨st', hst', hpeer⟩ := hc.entry st.peer k hx
        have hwait := hc.waiting_of_load hst' (hpeer ▸ hx)
        rcases hc.single i k st st' hst hst' hpeer.symm with rfl | h | h
        · exact absurd hx hload
        · rw [hpc] at h
          exact absurd h (by simp)
        · rw [hwait] at h
          exact absurd h (by simp)
  have hforget : c.forget i st.peer .lookup = (c, none) := by
    simp only [forget, hnone]
  rw [hforget]
  refine hc.advance hst rfl rfl rfl rfl rfl (fun _ => rfl) ?_
  simp only [Good, hreader]
  exact ⟨hload, Or.inr (Or.inr rfl)⟩

theorem step (hc : c.Orderly) (hok : c.RegisterClear a) (h : Step c a c') : c'.Orderly := by
  cases h with
  | duplicated hload =>
      rw [(hc.register hok).1] at hload
      exact absurd hload (by simp)
  | register hload => exact (hc.register hok).2
  | readRequestReply => exact hc
  | readMessage hst hpc =>
      refine hc.advance hst rfl rfl rfl rfl rfl id ?_
      simpa [Good, hpc] using hc.good _ _ hst
  | readError hst hpc =>
      refine hc.advance hst rfl rfl rfl rfl rfl id ?_
      simpa [Good, hpc] using hc.good _ _ hst
  | sendPanic hst hpc hclosed =>
      -- `in` is closed by the reader itself, after its last send
      have hgood := hc.good _ _ hst
      simp [Good, hpc, hclosed] at hgood
  | sendIn hst hpc =>
      refine hc.advance hst rfl rfl rfl rfl rfl id ?_
      simpa [Good, hpc] using hc.good _ _ hst
  | readerForget hst hpc => exact hc.readerForget hst hpc
  | waited hst hpc hwriter hreader =>
      refine hc.advance hst rfl rfl rfl rfl rfl (fun h => by simp [hpc] at h) ?_
      have hgood := hc.good _ _ hst
      simp only [Good, hreader] at hgood
      simpa [Good, hreader] using hgood.1
  | waiterForget hst hpc => exact hc.waiterForget hst hpc
  | writerRecv hst | writerEnd hst | wrote hst | consume hst | writeSend hst =>
      exact hc.keep hst rfl rfl rfl rfl rfl rfl rfl rfl rfl
  | write | writeGone => exact ⟨hc.calm, hc.own, hc.good, hc.entry, hc.single⟩

end Orderly

/-- **A `forget` tears down its own stream only.** In every run in which streams are only registered
    for peers whose earlier streams are all over (`RegisterClear`): whatever a `forget` deletes or
    closes on behalf of a stream is that stream's own, and nothing panics, so no channel is closed
    twice and no reader sends on its closed `in`. -/
theorem forget_touches_only_own {c : Channel} (h : machine.ReachableVia RegisterClear c) :
    (∀ p ∈ c.touches, p.1 = p.2) ∧ c.panic = none := by
  have hc : c.Orderly := by
    refine h.invariant ?_ (fun _ _ _ hI hok hst => hI.step hok (step_rule hst).2)
    rintro c rfl
    exact Orderly.init
  exact ⟨hc.own, hc.calm⟩

/-- The stream with number `i` is torn down by its reader. -/
def readerEnds (i : ℕ) : List Action :=
  [.readError i, .readerForget i, .readerForget i, .readerForget i, .readerForget i, .writerRecv i]

/-- Peer 7 has a stream, loses it, and has the next one when the first is over. -/
def successiveRun : List Action :=
  [Action.register 7] ++ readerEnds 0 ++ [Action.waited 0, .waiterForget 0, .register 7] ++
    readerEnds 1

theorem forget_touches_only_own_successive :
    ∃ c, machine.ReachableVia RegisterClear c ∧ c.streams.length = 2 ∧ (1, 1) ∈ c.touches ∧
      (∀ p ∈ c.touches, p.1 = p.2) ∧ c.panic = none := by
  obtain ⟨c, hrun, hlen, htouch⟩ := machine.run_of_exec_any init successiveRun
    (P := fun c => c.streams.length = 2 ∧ (1, 1) ∈ c.touches) (by decide)
  have hok : Machine.Meets RegisterClear (machine.trace init successiveRun) := by
    unfold Machine.Meets
    decide
  have hvia : machine.ReachableVia RegisterClear c := ⟨init, _, rfl, hrun, hok⟩
  exact ⟨c, hvia, hlen, htouch, forget_touches_only_own hvia⟩

/-- Peer 7 registers its next stream when the reader and the writer of the first have ended, but the
    last `forget` of the first has not run. The new reader is about to hand a message on. -/
def overtakenRun : List Action :=
  [Action.register 7] ++ readerEnds 0 ++ [Action.register 7, .readMessage 1 ⟨3, 7, []⟩, .waited 0,
    .waiterForget 0, .waiterForget 0, .waiterForget 0, .sendIn 1]

theorem forget_tears_down_successor :
    ∃ c, machine.Reachable c ∧ (0, 1) ∈ c.touches ∧ c.panic = some (.sendOnClosedChannel 1) :=
  machine.reachable_of_exec_any rfl overtakenRun (by decide)

end Tunnel.Messaging.Channel
