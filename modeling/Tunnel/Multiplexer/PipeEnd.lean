import Tunnel.Multiplexer.Pipe

set_option autoImplicit false

/-! # How a pipe ends

A call of `Connect` is over when its channel of errors is closed. Nobody reads that channel, so the
goroutines must not wait for it; it has room for both of them. What ends a call is that one of its
goroutines is done copying: it closes both connections, and on closed connections the other one
cannot go on, but for one thing: `Close` does not wake it from a `Read` on a QUIC stream, which then
waits for the other end (`connect_winds_up`). A cancelled context is noticed only between two calls
of `Read` (`cancel_stops_copying`). -/

namespace Tunnel.Multiplexer.Pipes

open Tunnel.Lib

variable {β : Type} {kinds : Kinds} {s s' : Pipes β} {a : Action β} {i : ℕ} {c c' : Connect β}
  {k k' : Conns β}
  {d : Dir}

/-! ## What a call can do next -/

/-- The action is a `Read` that fails, or a `Write` that fails or stops short, on an end that is not
    closed for it: the connection broke. -/
def Breaks (kinds : Kinds) (s : Pipes β) : Action β → Prop
  | .copyRead i d _ err => ∃ c, s.calls[i]? = some c ∧
      s.conns.readClosed kinds.closesRead (c.source d) = false ∧ err = some .failed
  | .copyWrite i d n failed => ∃ c, s.calls[i]? = some c ∧ s.conns.closed (c.target d) = false ∧
      (failed = true ∨ n < (c.pipes d).pc.inHand.length)
  | _ => False

/-- The pipe `d` of the call is in a `Read` that has nothing to return: its source is open for
    reading, the other end of that connection is open, and everything that arrived has been
    read. -/
structure Waits (kinds : Kinds) (k : Conns β) (c : Connect β) (d : Dir) : Prop where
  pc : (c.pipes d).pc = .read
  source : k.readClosed kinds.closesRead (c.source d) = false
  pending : k.pending (c.source d) = []
  peer : k.closed (c.source d).peer = false

/-- Outside `Read` and `Write` nothing holds up a pipe until it has returned. -/
theorem Calm.pipe_isSome (hs : Calm s) (hi : s.calls[i]? = some c)
    (hpc : (c.pipes d).pc = .check ∨
      (c.pipes d).pc.copying = false ∧ (c.pipes d).pc.unfinished = true) :
    (s.step kinds (.pipe i d)).isSome = true := by
  have hc := hs.ledger i c hi
  have hstep : (s.pipeStep i d c).isSome = true := by
    cases hd : (c.pipes d).pc with
    | check | closeSource | closeTarget => simp [pipeStep, hd]
    | report e =>
        have hopen := (hc.errs_open (d := d) (by rw [hd]; rfl)).1
        have hle := c.le_total (fun pc => pc.mayReport.toNat) d
        have hroom := hc.room
        rw [hd] at hle
        change 1 ≤ _ at hle
        have hlt : c.errs.buf.length < 2 := by omega
        simp [pipeStep, hd, hopen, Chan.send, hlt]
    | finish =>
        obtain ⟨n, hn⟩ := Nat.exists_eq_succ_of_ne_zero
          (hc.errs_open (d := d) (by rw [hd]; rfl)).2
        simp [pipeStep, hd, hn]
    | read | write | done => simp [hd, PipePc.copying, PipePc.unfinished] at hpc
  simpa [Pipes.step, hs.panic, hi] using hstep

/-- A pipe has returned, or waits, or can do its next operation without any connection breaking. -/
theorem Calm.pipe_cases (hs : Calm s) (kinds : Kinds) (hi : s.calls[i]? = some c) (d : Dir) :
    (c.pipes d).pc = .done ∨ Waits kinds s.conns c d ∨
      ∃ a, a.call = some i ∧ (s.step kinds a).isSome = true ∧ ¬ s.Breaks kinds a := by
  cases hpc : (c.pipes d).pc with
  | done => exact Or.inl rfl
  | check | closeSource | closeTarget | report | finish =>
      refine Or.inr (Or.inr ⟨.pipe i d, rfl, hs.pipe_isSome hi ?_, id⟩)
      simp [hpc, PipePc.copying, PipePc.unfinished]
  | write chunk err =>
      refine Or.inr (Or.inr ?_)
      cases hclosed : s.conns.closed (c.target d) with
      | true =>
          refine ⟨.copyWrite i d 0 true, rfl, ?_, ?_⟩
          · simp [Pipes.step, hs.panic, hi, copyWrite, hpc, Conns.Writes, hclosed]
          · rintro ⟨c', hc', hopen, _⟩
            rw [hi] at hc'
            obtain rfl := Option.some.inj hc'
            rw [hclosed] at hopen
            cases hopen
      | false =>
          refine ⟨.copyWrite i d chunk.length false, rfl, ?_, ?_⟩
          · simp [Pipes.step, hs.panic, hi, copyWrite, hpc, Conns.Writes, hclosed]
          · rintro ⟨c', hc', _, hfail⟩
            rw [hi] at hc'
            obtain rfl := Option.some.inj hc'
            rw [hpc] at hfail
            simp [PipePc.inHand] at hfail
  | read =>
      cases hclosed : s.conns.readClosed kinds.closesRead (c.source d) with
      | true =>
          refine Or.inr (Or.inr ⟨.copyRead i d 0 (some .failed), rfl, ?_, ?_⟩)
          · simp [Pipes.step, hs.panic, hi, copyRead, hpc, Conns.Reads, hclosed]
          · rintro ⟨c', hc', hopen, _⟩
            rw [hi] at hc'
            obtain rfl := Option.some.inj hc'
            rw [hclosed] at hopen
            cases hopen
      | false =>
          by_cases hnil : s.conns.pending (c.source d) = []
          · cases hpeer : s.conns.closed (c.source d).peer with
            | false => exact Or.inr (Or.inl ⟨hpc, hclosed, hnil, hpeer⟩)
            | true =>
                refine Or.inr (Or.inr ⟨.copyRead i d 0 (some .eof), rfl, ?_, ?_⟩)
                · simp [Pipes.step, hs.panic, hi, copyRead, hpc, Conns.Reads, hclosed, hnil, hpeer]
                · rintro ⟨_, _, _, herr⟩
                  cases herr
          · refine Or.inr (Or.inr ⟨.copyRead i d 1 none, rfl, ?_, ?_⟩)
            · have hpos : 1 ≤ (s.conns.pending (c.source d)).length :=
                List.length_pos_of_ne_nil hnil
              have hreads : s.conns.Reads kinds.closesRead (c.source d) (kinds.room (c.target d)) 1
                  none := by
                rw [Conns.Reads, if_neg (by simp [hclosed])]
                exact ⟨kinds.room_pos _, hpos, fun _ => Nat.one_pos, fun h => by cases h⟩
              simp [Pipes.step, hs.panic, hi, copyRead, hpc, hreads]
            · rintro ⟨_, _, _, herr⟩
              cases herr

/-- What a step is for the call `c` under the number `i`: nothing, the cancellation of its context,
    or one of its operations. -/
inductive Move (kinds : Kinds) (s s' : Pipes β) (a : Action β) (i : ℕ) (c : Connect β) :
    Connect β → Prop
  | rest (hcall : a.call ≠ some i) : Move kinds s s' a i c c
  | cancel (hcall : a.call ≠ some i) : Move kinds s s' a i c { c with cancelled := true }
  | op {c' : Connect β} (hcall : a.call = some i) (hop : Op kinds s.conns c s'.conns c') :
      Move kinds s s' a i c c'

theorem Op.source_eq (h : Op kinds k c k' c') : c'.source = c.source := by
  cases h <;> rfl

theorem Move.source_eq (h : Move kinds s s' a i c c') : c'.source = c.source := by
  cases h with
  | rest | cancel => rfl
  | op _ hop => exact hop.source_eq

theorem Calm.call_step (hs : Calm s) (h : Step kinds s a s') (hi : s.calls[i]? = some c) :
    ∃ c', s'.calls[i]? = some c' ∧ Move kinds s s' a i c c' := by
  have hcalm := (hs.step h).panic
  cases h with
  | write | read | close => exact ⟨c, hi, .rest (by simp [Action.call])⟩
  | connect => exact ⟨c, getElem?_append_of_some hi _, .rest (by simp [Action.call])⟩
  | @cancel j c₀ hj =>
      rw [getElem?_set_of_some hj]
      by_cases hij : j = i
      · subst hij
        rw [hi] at hj
        obtain rfl := Option.some.inj hj
        exact ⟨_, if_pos rfl, .cancel (by simp [Action.call])⟩
      · exact ⟨c, by rw [if_neg hij, hi], .rest (by simp [Action.call])⟩
  | @op _ j c₀ c₁ k' ha hj hop =>
      rw [getElem?_set_of_some hj]
      by_cases hij : j = i
      · subst hij
        rw [hi] at hj
        obtain rfl := Option.some.inj hj
        exact ⟨_, if_pos rfl, .op ha hop⟩
      · exact ⟨c, by rw [if_neg hij, hi], .rest (by simpa [ha] using hij)⟩
  | reportPanics | finishPanics => cases hcalm

/-! ## Winding up -/

/-- Both connections of the call are closed at its ends. -/
def Shut (k : Conns β) (c : Connect β) : Prop := ∀ d, k.closed (c.source d) = true

theorem shut_iff (d : Dir) :
    Shut k c ↔ k.closed (c.source d) = true ∧ k.closed (c.target d) = true := by
  cases d
  · exact ⟨fun h => ⟨h .toDst, h .toSrc⟩, fun h d => by cases d; exacts [h.1, h.2]⟩
  · exact ⟨fun h => ⟨h .toSrc, h .toDst⟩, fun h d => by cases d; exacts [h.2, h.1]⟩

/-- A call that has closed its connections and not the channel of errors can go on, or is in a
    `Read` on a connection that was closed for writing only. -/
theorem Calm.shut_cases (hs : Calm s) (hi : s.calls[i]? = some c) (hshut : Shut s.conns c)
    (hopen : c.errsClosed = false) :
    (∃ a, a.call = some i ∧ (s.step kinds a).isSome = true) ∨
      ∃ d, Waits kinds s.conns c d ∧ kinds.closesRead (c.source d) = false := by
  have hpipe : ∀ d, (c.pipes d).pc = .done ∨
      ((∃ a, a.call = some i ∧ (s.step kinds a).isSome = true) ∨
        ∃ d, Waits kinds s.conns c d ∧ kinds.closesRead (c.source d) = false) := by
    intro d
    rcases hs.pipe_cases kinds hi d with hdone | hwaits | ⟨a, ha, hsome, _⟩
    · exact Or.inl hdone
    · have hclosed := hwaits.source
      rw [Conns.readClosed, hshut d, Bool.true_and] at hclosed
      exact Or.inr (Or.inr ⟨d, hwaits, hclosed⟩)
    · exact Or.inr (Or.inl ⟨a, ha, hsome⟩)
  rcases hpipe .toDst with hdst | hstep
  · rcases hpipe .toSrc with hsrc | hstep
    · have hwg : c.wg = 0 := by
        rw [(hs.ledger i c hi).wg]
        simp [Connect.total, hdst, hsrc, PipePc.unfinished]
      exact Or.inl ⟨.closeErr i, rfl, by simp [Pipes.step, hs.panic, hi, closeErr, hwg, hopen]⟩
    · exact hstep
  · exact hstep

/-- Once its connections are closed, each operation of a call leaves it less to do. -/
theorem Op.rank_lt (h : Op kinds k c k' c') (hshut : Shut k c) : c'.rank < c.rank := by
  cases h with
  | @read d n err hpc hreads =>
      -- also a `Read` that brings something leads to the end: it cannot be written any more
      refine Connect.rank_setPipe_lt ?_
      simp only [hpc]
      split
      · simp [PipePc.rank]
      · next hzero =>
          cases err with
          | none => exact absurd rfl (hreads.pos_or_err.resolve_left hzero)
          | some e => cases e <;> simp [PipePc.rank, PipePc.afterRead]
  | @write d n failed chunk err hpc hwrites =>
      refine Connect.rank_setPipe_lt ?_
      rw [Conns.Writes, if_pos ((shut_iff d).1 hshut).2] at hwrites
      obtain ⟨rfl, rfl⟩ := hwrites
      simp [hpc, PipePc.rank, PipePc.afterWrite]
  | check hpc =>
      refine Connect.rank_setPipe_lt ?_
      simp only [hpc]
      split <;> simp [PipePc.rank]
  | @closeSource d _ hpc | @report d _ _ hpc | @finish d _ hpc =>
      refine Connect.rank_setPipe_lt (d := d) ?_
      simp [hpc, PipePc.rank]
  | @closeTarget d err hpc =>
      refine Connect.rank_setPipe_lt ?_
      cases err <;> simp [hpc, PipePc.rank]
  | closeErr hwg hopen =>
      have hrank : c.rank = c.total PipePc.rank + 1 := by simp [Connect.rank, hopen]
      rw [hrank]
      exact Nat.lt_succ_self _

/-- The call under the number `i` has closed its connections. -/
def Closing (i : ℕ) (s : Pipes β) : Prop :=
  Calm s ∧ ∃ c, s.calls[i]? = some c ∧ Shut s.conns c

/-- The rank of the call under the number `i`. -/
def rankOf (i : ℕ) (s : Pipes β) : ℕ := (s.calls[i]?).elim 0 Connect.rank

theorem Closing.step (hs : Closing i s) (h : Step kinds s a s') :
    Closing i s' ∧ rankOf i s' + (decide (a.call = some i)).toNat ≤ rankOf i s := by
  obtain ⟨hcalm, c, hi, hshut⟩ := hs
  obtain ⟨c', hi', hmove⟩ := hcalm.call_step h hi
  refine ⟨⟨hcalm.step h, c', hi', ?_⟩, ?_⟩
  · intro d
    rw [hmove.source_eq]
    exact h.closed_mono _ (hshut d)
  · simp only [rankOf, hi, hi', Option.elim_some]
    cases hmove with
    | rest hcall | cancel hcall =>
        rw [decide_eq_false hcall]
        exact Nat.le_refl _
    | op hcall hop =>
        rw [decide_eq_true hcall]
        exact hop.rank_lt hshut

/-- Behind `dst.Close()` of one of its pipes a call has closed both connections. -/
theorem Ledger.shut (hc : Ledger k c) (hd : (c.pipes d).pc.closedTarget = true) : Shut k c :=
  (shut_iff d).2 ⟨hc.source d (PipePc.closedSource_of_closedTarget hd), hc.target d hd⟩

/-- When the channel of errors is closed, all is over. -/
theorem Ledger.over (hc : Ledger k c) (herrs : c.errsClosed = true) :
    Shut k c ∧ ∀ d, (c.pipes d).pc = .done := by
  have hdone : ∀ d, (c.pipes d).pc = .done := by
    intro d
    by_contra hd
    rw [(hc.errs_open (PipePc.unfinished_of_ne_done hd)).1] at herrs
    cases herrs
  exact ⟨hc.shut (d := .toDst) (by rw [hdone]; rfl), hdone⟩

/-- Each pipe of a call has in hand at most what its `Read` has room for. -/
def Fits (kinds : Kinds) (c : Connect β) : Prop :=
  ∀ d, (c.pipes d).pc.inHand.length ≤ kinds.room (c.target d)

theorem Fits.op (hc : Fits kinds c) (h : Op kinds k c k' c') : Fits kinds c' := by
  have hset : ∀ {d : Dir} {p : Pipe β}, p.pc.inHand.length ≤ kinds.room (c.target d) →
      Fits kinds (c.setPipe d p) :=
    Connect.forall_pipes_setPipe
      (P := fun d p => p.pc.inHand.length ≤ kinds.room (c.target d)) hc
  cases h with
  | @read d n err hpc hreads =>
      refine hset ?_
      simp only
      split
      · rw [PipePc.inHand, List.length_take]
        exact Nat.le_trans (Nat.min_le_left _ _) hreads.le_limit
      · rw [PipePc.inHand_afterRead]
        exact Nat.zero_le _
  | write => exact hset (by rw [PipePc.inHand_afterWrite]; exact Nat.zero_le _)
  | check =>
      refine hset ?_
      simp only
      split <;> exact Nat.zero_le _
  | closeSource => exact hset (Nat.zero_le _)
  | @closeTarget d err => exact hset (by cases err <;> exact Nat.zero_le _)
  | report => exact hset (Nat.zero_le _)
  | finish => exact hset (Nat.zero_le _)
  | closeErr => exact hc

theorem fits_step (hs : ∀ (i : ℕ) c, s.calls[i]? = some c → Fits kinds c)
    (h : Step kinds s a s') : ∀ (i : ℕ) c, s'.calls[i]? = some c → Fits kinds c := by
  cases h with
  | write | read | close | reportPanics | finishPanics => exact hs
  | connect =>
      refine forall_getElem?_concat hs (fun d => ?_)
      cases d <;> exact Nat.zero_le _
  | @cancel i c hi => exact forall_getElem?_set (fun j c' _ hj => hs j c' hj) (hs i c hi)
  | @op _ i c c' k' ha hi hop =>
      exact forall_getElem?_set (fun j c' _ hj => hs j c' hj) ((hs i c hi).op hop)

theorem fits_of_reachable (hs : (machine kinds β).Reachable s) (i : ℕ) (c : Connect β)
    (hi : s.calls[i]? = some c) : Fits kinds c := by
  refine hs.invariant (I := fun s => ∀ (i : ℕ) c, s.calls[i]? = some c → Fits kinds c) ?_
    (fun _ _ _ hs h => fits_step hs (step_rule h).2) i c hi
  rintro _ rfl i c hi
  simp [init] at hi

/-- What the pipe `d` has written and may still write without another look at the context. -/
def reach (kinds : Kinds) (c : Connect β) (d : Dir) : ℕ :=
  (c.pipes d).written + (c.pipes d).pc.allowance (kinds.room (c.target d))

/-- Under a cancelled context it does not grow. -/
theorem Op.reach_le (h : Op kinds k c k' c') (hcancel : c.cancelled = true) :
    ∀ d, reach kinds c' d ≤ reach kinds c d := by
  have hset : ∀ {d : Dir} {p : Pipe β},
      p.written + p.pc.allowance (kinds.room (c.target d)) ≤ reach kinds c d →
      ∀ d', reach kinds (c.setPipe d p) d' ≤ reach kinds c d' :=
    Connect.forall_pipes_setPipe
      (P := fun d p => p.written + p.pc.allowance (kinds.room (c.target d)) ≤ reach kinds c d)
      (fun _ => Nat.le_refl _)
  cases h with
  | @read d n err hpc hreads =>
      refine hset (Nat.add_le_add_left ?_ _)
      rw [hpc]
      simp only
      split
      · change ((k.pending (c.source d)).take n).length ≤ kinds.room (c.target d)
        rw [List.length_take]
        exact Nat.le_trans (Nat.min_le_left _ _) hreads.le_limit
      · rw [PipePc.allowance_afterRead]
        exact Nat.zero_le _
  | @write d n failed chunk err hpc hwrites =>
      refine hset ?_
      have hle := hwrites.le
      rw [reach, PipePc.allowance_afterWrite, hpc]
      change (c.pipes d).written + n + 0 ≤ (c.pipes d).written + chunk.length
      omega
  | check hpc => exact hset (by simp [reach, hcancel, PipePc.allowance])
  | closeSource => exact hset (Nat.add_le_add_left (Nat.zero_le _) _)
  | @closeTarget d err =>
      refine hset (Nat.add_le_add_left ?_ _)
      cases err <;> exact Nat.zero_le _
  | report => exact hset (Nat.add_le_add_left (Nat.zero_le _) _)
  | finish => exact hset (Nat.add_le_add_left (Nat.zero_le _) _)
  | closeErr => exact fun _ => Nat.le_refl _

theorem Op.cancelled_eq (h : Op kinds k c k' c') : c'.cancelled = c.cancelled := by
  cases h <;> rfl

/-- The pipe that an action is an operation of. -/
def Action.pipeOf : Action β → Option (ℕ × Dir)
  | .copyRead i d _ _ | .copyWrite i d _ _ | .pipe i d => some (i, d)
  | _ => none

/-- A pipe that waits can only be moved by a connection that breaks. -/
theorem breaks_of_waits (hs : Calm s) (hi : s.calls[i]? = some c) (hwaits : Waits kinds s.conns c d)
    (ha : a.pipeOf = some (i, d)) (h : s.step kinds a = some s') : s.Breaks kinds a := by
  simp only [step, hs.panic, Option.isSome_none, Bool.false_eq_true, if_false] at h
  cases a with
  | copyRead j d' n err =>
      cases ha
      simp only [hi, Option.bind_some, copyRead, hwaits.pc] at h
      split at h
      · next hreads =>
          refine ⟨c, hi, hwaits.source, ?_⟩
          rw [Conns.Reads, if_neg (by simp [hwaits.source])] at hreads
          obtain ⟨_, hn, hpos, heof⟩ := hreads
          rw [hwaits.pending, List.length_nil, Nat.le_zero] at hn
          cases err with
          | none => exact absurd (hpos rfl) (by omega)
          | some e =>
              cases e with
              | failed => rfl
              | eof =>
                  have hclosed := (heof rfl).2
                  rw [hwaits.peer] at hclosed
                  cases hclosed
      · cases h
  | copyWrite j d' n failed =>
      cases ha
      simp [hi, copyWrite, hwaits.pc] at h
  | pipe j d' =>
      cases ha
      simp [hi, pipeStep, hwaits.pc] at h
  | _ => cases ha

/-- **What a cancelled context stops.** Once the context of a call is cancelled, each of its pipes
    writes no more than what it has in hand or its pending `Read` returns, whatever happens: 8 KiB
    at most, or 32 KiB if it writes to a TCP connection. But nothing wakes a pipe from its `Read`:
    one that waits does nothing unless its connection breaks. -/
theorem cancel_stops_copying {tr : List (Pipes β × Action β)} {t : Pipes β}
    (hs : (machine kinds β).Reachable s) (hi : s.calls[i]? = some c) (hcancel : c.cancelled = true)
    (hrun : (machine kinds β).Run s tr t) :
    (∃ c', t.calls[i]? = some c' ∧ ∀ d, (c'.pipes d).written ≤ reach kinds c d) ∧
    (∀ d, reach kinds c d ≤ (c.pipes d).written + kinds.room (c.target d)) ∧
    ∀ d, Waits kinds s.conns c d →
      ∀ a s', a.pipeOf = some (i, d) → s.step kinds a = some s' → s.Breaks kinds a := by
  have hcalm := calm_of_reachable hs
  refine ⟨?_, ?_, fun d hwaits a s' ha h => breaks_of_waits hcalm hi hwaits ha h⟩
  · have hkeep : ∃ c', t.calls[i]? = some c' ∧ c'.cancelled = true ∧
        ∀ d, reach kinds c' d ≤ reach kinds c d := by
      refine (hrun.preserves (I := fun t => Calm t ∧ ∃ c', t.calls[i]? = some c' ∧
        c'.cancelled = true ∧ ∀ d, reach kinds c' d ≤ reach kinds c d)
        ⟨hcalm, c, hi, hcancel, fun _ => Nat.le_refl _⟩ ?_).2
      intro u a u' hu hstep
      obtain ⟨hcu, c₁, hi₁, hcancel₁, hle⟩ := hu
      obtain ⟨c₂, hi₂, hmove⟩ := hcu.call_step (step_rule hstep).2 hi₁
      refine ⟨hcu.step (step_rule hstep).2, c₂, hi₂, ?_⟩
      cases hmove with
      | rest => exact ⟨hcancel₁, hle⟩
      | cancel => exact ⟨rfl, hle⟩
      | op _ hop =>
          exact ⟨hop.cancelled_eq.trans hcancel₁,
            fun d => Nat.le_trans (hop.reach_le hcancel₁ d) (hle d)⟩
    obtain ⟨c', hi', _, hle⟩ := hkeep
    exact ⟨c', hi', fun d => Nat.le_trans (Nat.le_add_right _ _) (hle d)⟩
  · intro d
    refine Nat.add_le_add_left ?_ _
    have hfits := fits_of_reachable hs i c hi d
    cases hpc : (c.pipes d).pc with
    | write chunk err => simpa [hpc, PipePc.inHand, PipePc.allowance] using hfits
    | read => exact Nat.le_refl _
    | _ => exact Nat.zero_le _

/-- The context is cancelled while a pipe is in its `Read`: three more bytes get through. The other
    pipe waits. -/
theorem cancel_stops_copying_read :
    ∃ (s t : Pipes ℕ) (tr : List (Pipes ℕ × Action ℕ)) (c c' : Connect ℕ),
    ((machine (fun _ => .tcp) ℕ).Reachable s ∧ s.calls[0]? = some c ∧ c.cancelled = true ∧
      (machine (fun _ => .tcp) ℕ).Run s tr t) ∧
    t.calls[0]? = some c' ∧ (c'.pipes .toDst).written = 3 ∧
    (c'.pipes .toDst).written ≤ (c.pipes .toDst).written + 32 * 1024 := by
  obtain ⟨s, hs, hcheck⟩ := (machine (fun _ => .tcp) ℕ).reachable_of_exec_any (s := init) rfl
    [.connect ⟨1, false⟩ ⟨0, true⟩, .pipe 0 .toDst, .pipe 0 .toSrc, .cancel 0]
    (P := fun s => s.calls[0]?.any (fun c => c.cancelled) = true ∧
      ((machine (fun _ => .tcp) ℕ).exec s [.write ⟨0, false⟩ [5, 6, 7], .copyRead 0 .toDst 3 none,
        .copyWrite 0 .toDst 3 false, .pipe 0 .toDst]).any (fun t =>
          t.calls[0]?.any (fun c => (c.pipes .toDst).written = 3)) = true) (by decide)
  obtain ⟨c, hi, hcancel⟩ := (Option.any_eq_true _ _).1 hcheck.1
  obtain ⟨t, ht, hwritten⟩ := (Option.any_eq_true _ _).1 hcheck.2
  obtain ⟨c', hi', hthree⟩ := (Option.any_eq_true _ _).1 hwritten
  have hrun := Machine.run_of_exec ht
  obtain ⟨⟨c₁, hi₁, hle⟩, hsize, _⟩ := cancel_stops_copying hs hi hcancel hrun
  rw [hi'] at hi₁
  obtain rfl := Option.some.inj hi₁
  exact ⟨s, t, _, c, c', ⟨hs, hi, hcancel, hrun⟩, hi', of_decide_eq_true hthree,
    Nat.le_trans (hle .toDst) (hsize .toDst)⟩

end Tunnel.Multiplexer.Pipes
