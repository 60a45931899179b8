import Tunnel.Multiplexer.Channel

set_option autoImplicit false

/-! # Streams left behind at shutdown (`multiplexer/channel.go`, `mux/yamux.go`, `mux/mplex.go`)

Every accepted stream has a `streamHandshake` goroutine, which reads the link and calls `Put`. `Put`
sends on `incoming` and waits for nothing else, and the only receiver is the loop of `Run`. When
`Bye` closes the channel, or the context is cancelled, the loop ends whether or not somebody is
waiting to send.

So a `Put` that has not been served when `Run` returns, and one that is called afterwards, never
returns, and its stream is neither delivered nor closed. A run has no such `Put` exactly if nobody
is in `Put` when `Run` returns and nobody calls it later (`no_put_stranded_iff`), and nothing in the
code sees to that (`put_stranded`). -/

namespace Tunnel.Multiplexer

open Tunnel.Lib

/-- The call has returned from its loop. -/
def RunCall.hasReturned {α : Type} (r : RunCall α) : Bool :=
  match r.pc with
  | .returned => true
  | .start | .select | .send _ | .compare | .close | .refused => false

/-- The call has left its loop. -/
def RunCall.leaving {α : Type} (r : RunCall α) : Bool :=
  match r.pc with
  | .compare | .close | .returned => true
  | .start | .select | .send _ | .refused => false

theorem RunCall.leaving_of_hasReturned {α : Type} {r : RunCall α} (h : r.hasReturned = true) :
    r.leaving = true := by
  obtain ⟨cancelled, pc⟩ := r
  cases pc with
  | returned => rfl
  | start | select | send | compare | close | refused => cases h

namespace Channel

variable {α : Type} {c c' : Channel α} {a : Action α}

/-- The loop is over. -/
def HasReturned (c : Channel α) : Prop := ∃ r ∈ c.runs, r.hasReturned = true

/-- Somebody is in `Put`. -/
def Pending (c : Channel α) : Prop := ∃ p ∈ c.puts, p.returned = false

/-- Somebody is in `Put` although the loop is over. -/
def Stranded (c : Channel α) : Prop := c.HasReturned ∧ c.Pending

instance (c : Channel α) : Decidable c.HasReturned :=
  inferInstanceAs (Decidable (∃ r ∈ c.runs, r.hasReturned = true))

instance (c : Channel α) : Decidable c.Pending :=
  inferInstanceAs (Decidable (∃ p ∈ c.puts, p.returned = false))

instance (c : Channel α) : Decidable c.Stranded := inferInstanceAs (Decidable (_ ∧ _))

/-- The `j`-th `Run` returns with its next operation. -/
def returns (c : Channel α) (j : ℕ) : Bool :=
  match c.runs[j]? with
  | some ⟨_, .compare⟩ => c.chClosed
  | some ⟨_, .close⟩ => !c.outgoingClosed
  | _ => false

/-- Nobody calls `Put` when the loop is over, and nobody is in `Put` when it ends. -/
def Orderly (c : Channel α) : Action α → Prop
  | .put _ => ¬ c.HasReturned
  | .runStep j => c.returns j = true → ¬ c.Pending
  | .close | .run | .cancel _ | .closeStep _ | .takeDone _ | .takeCloser _ | .handover _ _
    | .receive => True

instance (c : Channel α) : DecidablePred c.Orderly
  | .put _ => inferInstanceAs (Decidable (¬ c.HasReturned))
  | .runStep j => inferInstanceAs (Decidable (c.returns j = true → ¬ c.Pending))
  | .close | .run | .cancel _ | .closeStep _ | .takeDone _ | .takeCloser _ | .handover _ _
    | .receive => inferInstanceAs (Decidable True)

/-! ## How a `Put` is stranded -/

theorem not_stranded_mono (hs : ¬ c.Stranded) (hreturned : c'.HasReturned → c.HasReturned)
    (hpending : c'.Pending → c.Pending) : ¬ c'.Stranded := by
  intro h
  exact hs ⟨hreturned h.1, hpending h.2⟩

/-- The loop is over only if it was before, or if it is the one that moved. -/
theorem hasReturned_set {j : ℕ} {r r' : RunCall α} (hj : c.runs[j]? = some r)
    (hr : r'.hasReturned = true → r.hasReturned = true)
    (h : ∃ x ∈ c.runs.set j r', x.hasReturned = true) : c.HasReturned := by
  obtain ⟨x, hx, hret⟩ := h
  rcases List.mem_or_eq_of_mem_set hx with hx | rfl
  · exact ⟨x, hx, hret⟩
  · exact ⟨r, List.mem_of_getElem? hj, hr hret⟩

/-- The move of a `Run` that does not return strands nobody. -/
theorem not_stranded_setRun (hs : ¬ c.Stranded) {j : ℕ} {r r' : RunCall α}
    (hj : c.runs[j]? = some r) (hr : r'.hasReturned = true → r.hasReturned = true)
    (hruns : c'.runs = c.runs.set j r') (hputs : c'.puts = c.puts) : ¬ c'.Stranded := by
  refine not_stranded_mono hs (fun h => ?_) (fun h => ?_)
  · rw [HasReturned, hruns] at h
    exact hasReturned_set hj hr h
  · rw [Pending, hputs] at h
    exact h

/-- The return of a `Run` strands those who are in `Put`. -/
theorem stranded_setRun_iff {j : ℕ} {r r' : RunCall α} (hj : c.runs[j]? = some r)
    (hr : r'.hasReturned = true) (hruns : c'.runs = c.runs.set j r') (hputs : c'.puts = c.puts) :
    c'.Stranded ↔ c.Pending := by
  have hreturned : c'.HasReturned := by
    rw [HasReturned, hruns]
    exact ⟨r', mem_set_self hj r', hr⟩
  rw [Stranded, Pending, hputs]
  exact and_iff_right hreturned

theorem stopRun_not_stranded (hs : ¬ c.Stranded) {j : ℕ} {r : RunCall α} {ready : Bool}
    (hj : c.runs[j]? = some r) (h : c.stopRun j r ready = some c') : ¬ c'.Stranded := by
  unfold stopRun at h
  split at h
  · split at h
    · cases h
      refine not_stranded_setRun hs hj ?_ rfl rfl
      intro hret
      cases hret
    · cases h
  · cases h

theorem runStep_stranded_iff (hs : ¬ c.Stranded) {j : ℕ} {r : RunCall α}
    (hj : c.runs[j]? = some r) (h : c.runStep j r = some c') :
    ¬ c'.Stranded ↔ (c.returns j = true → ¬ c.Pending) := by
  -- a move to any other place than the end
  have hstay : ∀ r' : RunCall α, r'.hasReturned = false → c.returns j = false →
      c'.runs = c.runs.set j r' → c'.puts = c.puts →
      (¬ c'.Stranded ↔ (c.returns j = true → ¬ c.Pending)) := by
    intro r' hr' hnot hruns hputs
    refine iff_of_true (not_stranded_setRun hs hj ?_ hruns hputs) ?_
    · intro hret
      rw [hr'] at hret
      cases hret
    · intro hret
      rw [hnot] at hret
      cases hret
  -- the end
  have hend : ∀ r' : RunCall α, r'.hasReturned = true → c.returns j = true →
      c'.runs = c.runs.set j r' → c'.puts = c.puts →
      (¬ c'.Stranded ↔ (c.returns j = true → ¬ c.Pending)) := by
    intro r' hr' hret hruns hputs
    rw [stranded_setRun_iff hj hr' hruns hputs]
    exact ⟨fun hp _ => hp, fun hp => hp hret⟩
  obtain ⟨cancelled, pc⟩ := r
  cases pc with
  | start =>
      simp only [runStep] at h
      split at h
      · cases h
        exact hstay _ rfl (by simp [returns, hj]) rfl rfl
      · cases h
        exact hstay _ rfl (by simp [returns, hj]) rfl rfl
  | send x =>
      simp only [runStep] at h
      split at h
      · cases h
        exact iff_of_true hs (by simp [returns, hj])
      · obtain ⟨ch, _, rfl⟩ := Option.map_eq_some_iff.1 h
        exact hstay _ rfl (by simp [returns, hj]) rfl rfl
  | compare =>
      simp only [runStep] at h
      split at h
      · next hopen =>
          cases h
          exact hstay _ rfl (by simp [returns, hj, hopen]) rfl rfl
      · next hclosed =>
          cases h
          exact hend _ rfl (by simpa [returns, hj] using hclosed) rfl rfl
  | close =>
      simp only [runStep] at h
      split at h
      · next hclosed =>
          cases h
          exact iff_of_true hs (by simp [returns, hj, hclosed])
      · next hopen =>
          cases h
          exact hend _ rfl (by simpa [returns, hj] using hopen) rfl rfl
  | select | returned | refused => cases h

/-- **Step lemma.** -/
theorem step_stranded_iff (hs : ¬ c.Stranded) (h : c.step a = some c') :
    ¬ c'.Stranded ↔ c.Orderly a := by
  unfold step at h
  split at h
  · cases h
  cases a with
  | put x =>
      cases h
      have hpending : ∃ p ∈ c.puts ++ [(⟨x, false⟩ : PutCall α)], p.returned = false :=
        ⟨⟨x, false⟩, by simp, rfl⟩
      show ¬ (c.HasReturned ∧ _) ↔ ¬ c.HasReturned
      exact not_congr (and_iff_left hpending)
  | close =>
      cases h
      exact iff_of_true hs trivial
  | run =>
      cases h
      refine iff_of_true (not_stranded_mono hs ?_ (fun hp => hp)) trivial
      intro hret
      obtain ⟨r, hr, hreturned⟩ := hret
      rcases List.mem_append.1 hr with hr | hr
      · exact ⟨r, hr, hreturned⟩
      · rw [List.mem_singleton.1 hr] at hreturned
        cases hreturned
  | cancel j =>
      obtain ⟨r, hj, rfl⟩ := Option.map_eq_some_iff.1 h
      have hsame : ({ r with cancelled := true } : RunCall α).hasReturned = true →
          r.hasReturned = true := fun hret => hret
      exact iff_of_true (not_stranded_setRun hs hj hsame rfl rfl) trivial
  | closeStep i =>
      obtain ⟨pc, _, hpc⟩ := Option.bind_eq_some_iff.1 h
      -- `Close` touches neither
      have hsame : c'.runs = c.runs ∧ c'.puts = c.puts := by
        cases pc with
        | compare =>
            simp only [closeStep] at hpc
            split at hpc <;> cases hpc <;> exact ⟨rfl, rfl⟩
        | close =>
            simp only [closeStep] at hpc
            split at hpc <;> cases hpc <;> exact ⟨rfl, rfl⟩
        | returned won => cases hpc
      refine iff_of_true ?_ trivial
      rw [Stranded, HasReturned, Pending, hsame.1, hsame.2]
      exact hs
  | runStep j =>
      obtain ⟨r, hj, hr⟩ := Option.bind_eq_some_iff.1 h
      exact runStep_stranded_iff hs hj hr
  | takeDone j =>
      obtain ⟨r, hj, hr⟩ := Option.bind_eq_some_iff.1 h
      exact iff_of_true (stopRun_not_stranded hs hj hr) trivial
  | takeCloser j =>
      obtain ⟨r, hj, hr⟩ := Option.bind_eq_some_iff.1 h
      exact iff_of_true (stopRun_not_stranded hs hj hr) trivial
  | handover i j =>
      simp only at h
      split at h
      · next x b hi hj =>
          cases h
          refine iff_of_true (not_stranded_mono hs ?_ ?_) trivial
          · intro hret
            refine hasReturned_set hj ?_ hret
            intro hreturned
            cases hreturned
          · intro hpending
            obtain ⟨p, hp, hwaits⟩ := hpending
            rcases List.mem_or_eq_of_mem_set hp with hp | rfl
            · exact ⟨p, hp, hwaits⟩
            · cases hwaits
      · cases h
  | receive =>
      obtain ⟨next, _, rfl⟩ := Option.map_eq_some_iff.1 h
      exact iff_of_true hs trivial

/-! ## Who is stranded stays stranded -/

/-- A call that has returned is one that entered, and is neither in its loop nor closing. -/
theorem hasReturned_iff (r : RunCall α) :
    r.hasReturned = true ↔ r.entered = true ∧ r.running = false ∧ r.closing = false := by
  obtain ⟨cancelled, pc⟩ := r
  cases pc <;> simp [RunCall.hasReturned, RunCall.entered, RunCall.running, RunCall.closing]

/-- When the loop is over, no other one receives. -/
theorem Ledger.no_select (hc : Ledger c) (hret : c.HasReturned) {j : ℕ} {r : RunCall α}
    (hj : c.runs[j]? = some r) : r.pc ≠ .select := by
  intro hpc
  obtain ⟨r₀, hr₀, hreturned⟩ := hret
  have hone : c.runs.countP RunCall.entered ≤ 1 := by
    rw [hc.entered]
    exact Bool.toNat_le c.started
  have hsame : r₀ = r :=
    eq_of_countP_le_one hone hr₀ (List.mem_of_getElem? hj) ((hasReturned_iff r₀).1 hreturned).1
      (by simp [RunCall.entered, hpc])
  rw [hsame] at hreturned
  simp [RunCall.hasReturned, hpc] at hreturned

theorem Step.hasReturned (h : Step c c') (hret : c.HasReturned) : c'.HasReturned := by
  cases h with
  | run =>
      obtain ⟨r, hr, hreturned⟩ := hret
      exact ⟨r, List.mem_append_left _ hr, hreturned⟩
  | moveRun hj hentered hrunning hclosing hhand =>
      refine exists_mem_set hj hret ?_
      intro hr
      rw [hasReturned_iff] at hr ⊢
      refine ⟨hentered.trans hr.1, ?_, hclosing.trans hr.2.2⟩
      by_contra hrun
      rw [Bool.not_eq_false] at hrun
      rw [hrunning hrun] at hr
      cases hr.2.1
  | enter hj hr _ => exact exists_mem_set hj hret (by simp [RunCall.hasReturned, hr])
  | handover hi hj => exact exists_mem_set hj hret (by simp [RunCall.hasReturned])
  | sendOn hj hr _ _ => exact exists_mem_set hj hret (by simp [RunCall.hasReturned, hr])
  | closeChannel hj hr _ => exact exists_mem_set hj hret (by simp [RunCall.hasReturned, hr])
  | closeOutgoing hj hr _ => exact exists_mem_set hj hret (by simp [RunCall.hasReturned, hr])
  | put | close | closeWon | closeLost | closeCloser | closerTwice | sendPanics | outgoingTwice
    | receive => exact hret

/-- When the loop is over, a `Put` makes no progress. -/
theorem Step.put_waits (h : Step c c') (hc : Ledger c) (hret : c.HasReturned) {i : ℕ} {x : α}
    (hi : c.puts[i]? = some ⟨x, false⟩) : c'.puts[i]? = some ⟨x, false⟩ := by
  cases h with
  | put y => exact getElem?_append_of_some hi _
  | handover _ hj => exact absurd rfl (hc.no_select hret hj)
  | close | run | closeWon | closeLost | closeCloser | closerTwice | enter | moveRun | sendOn
    | sendPanics | closeChannel | closeOutgoing | outgoingTwice | receive => exact hi

/-! ## What the callers can see to -/

/-- `Close` has been called, or the context of a `Run` is cancelled. -/
def Ending (c : Channel α) : Prop := c.closes ≠ [] ∨ ∃ r ∈ c.runs, r.cancelled = true

instance (c : Channel α) : Decidable c.Ending := inferInstanceAs (Decidable (_ ∨ _))

/-- Nobody calls `Close` or cancels while somebody is in `Put`, and nobody calls `Put` after
    that. -/
def Settled (c : Channel α) : Action α → Prop
  | .put _ => ¬ c.Ending
  | .close | .cancel _ => ¬ c.Pending
  | .run | .closeStep _ | .runStep _ | .takeDone _ | .takeCloser _ | .handover _ _ | .receive =>
      True

instance (c : Channel α) : DecidablePred c.Settled
  | .put _ => inferInstanceAs (Decidable (¬ c.Ending))
  | .close | .cancel _ => inferInstanceAs (Decidable (¬ c.Pending))
  | .run | .closeStep _ | .runStep _ | .takeDone _ | .takeCloser _ | .handover _ _ | .receive =>
      inferInstanceAs (Decidable True)

/-- A `Run` leaves its loop only when the channel is being ended, and then nobody is in `Put`. -/
structure Announced (c : Channel α) : Prop where
  closer : c.closerClosed = true → c.closes ≠ []
  leaving : ∀ r ∈ c.runs, r.leaving = true → c.Ending
  quiet : c.Ending → ¬ c.Pending

namespace Announced

theorem not_stranded (h : c.Announced) : ¬ c.Stranded := by
  rintro ⟨⟨r, hr, hret⟩, hpending⟩
  exact h.quiet (h.leaving r hr (RunCall.leaving_of_hasReturned hret)) hpending

/-- A step of a `Run`. -/
theorem setRun (h : c.Announced) {j : ℕ} {r r' : RunCall α} (hj : c.runs[j]? = some r)
    (hruns : c'.runs = c.runs.set j r') (hcancelled : r'.cancelled = r.cancelled)
    (hleaving : r'.leaving = true → c.Ending) (hcloses : c'.closes = c.closes)
    (hcloser : c'.closerClosed = c.closerClosed) (hpending : c'.Pending → c.Pending) :
    c'.Announced := by
  have hending : c'.Ending ↔ c.Ending := by
    rw [Ending, Ending, hcloses, hruns]
    refine or_congr_right ⟨?_, fun hex => exists_mem_set hj hex (fun hr => hcancelled.trans hr)⟩
    rintro ⟨x, hx, hc⟩
    rcases List.mem_or_eq_of_mem_set hx with hx | rfl
    · exact ⟨x, hx, hc⟩
    · exact ⟨r, List.mem_of_getElem? hj, hcancelled.symm.trans hc⟩
  refine ⟨?_, ?_, ?_⟩
  · rw [hcloser, hcloses]
    exact h.closer
  · intro x hx hl
    rw [hruns] at hx
    rw [hending]
    rcases List.mem_or_eq_of_mem_set hx with hx | rfl
    · exact h.leaving x hx hl
    · exact hleaving hl
  · intro hend hp
    exact h.quiet (hending.1 hend) (hpending hp)

theorem runStep (h : c.Announced) {j : ℕ} {r : RunCall α} (hj : c.runs[j]? = some r)
    (hstep : c.runStep j r = some c') : c'.Announced := by
  have hstay := h.leaving r (List.mem_of_getElem? hj)
  unfold Channel.runStep at hstep
  split at hstep
  · split at hstep <;> cases hstep <;>
      exact h.setRun hj rfl rfl (by simp [RunCall.leaving]) rfl rfl id
  · split at hstep
    · cases hstep
      exact ⟨h.closer, h.leaving, h.quiet⟩
    · obtain ⟨ch, _, rfl⟩ := Option.map_eq_some_iff.1 hstep
      exact h.setRun hj rfl rfl (by simp [RunCall.leaving]) rfl rfl id
  · next hr =>
      have hend := hstay (by simp [RunCall.leaving, hr])
      split at hstep <;> cases hstep <;> exact h.setRun hj rfl rfl (fun _ => hend) rfl rfl id
  · next hr =>
      have hend := hstay (by simp [RunCall.leaving, hr])
      split at hstep
      · cases hstep
        exact ⟨h.closer, h.leaving, h.quiet⟩
      · cases hstep
        exact h.setRun hj rfl rfl (fun _ => hend) rfl rfl id
  all_goals cases hstep

theorem stopRun (h : c.Announced) {j : ℕ} {r : RunCall α} {ready : Bool}
    (hj : c.runs[j]? = some r) (hready : ready = true → c.Ending)
    (hstep : c.stopRun j r ready = some c') : c'.Announced := by
  unfold Channel.stopRun at hstep
  split at hstep
  · split at hstep
    · next hr =>
        cases hstep
        exact h.setRun hj rfl rfl (fun _ => hready hr) rfl rfl id
    · cases hstep
  · cases hstep

/-- Another call of `Run` begins. -/
theorem beginRun (h : c.Announced) :
    ({ c with runs := c.runs ++ [⟨false, .start⟩] } : Channel α).Announced := by
  have hold : ∀ {r : RunCall α}, r ∈ c.runs ++ [⟨false, .start⟩] →
      r ∈ c.runs ∨ r = ⟨false, .start⟩ := by simp
  refine ⟨h.closer, fun r hr hl => ?_, fun hend => h.quiet ?_⟩
  · rcases hold hr with hr | rfl
    · exact (h.leaving r hr hl).imp id (fun ⟨x, hx, hc⟩ => ⟨x, List.mem_append_left _ hx, hc⟩)
    · cases hl
  · refine hend.imp id ?_
    rintro ⟨r, hr, hc⟩
    rcases hold hr with hr | rfl
    · exact ⟨r, hr, hc⟩
    · cases hc

/-- A step of a `Close`: the channel was being ended before. -/
theorem closeStep (h : c.Announced) {i : ℕ} {pc : ClosePc} (hi : c.closes[i]? = some pc)
    (hstep : c.closeStep i pc = some c') : c'.Announced := by
  have hsome : c.closes ≠ [] := List.ne_nil_of_mem (List.mem_of_getElem? hi)
  have hset : ∀ pc', c.closes.set i pc' ≠ [] :=
    fun pc' => List.ne_nil_of_mem (mem_set_self hi pc')
  cases pc with
  | compare =>
      simp only [Channel.closeStep] at hstep
      split at hstep <;> cases hstep <;>
        exact ⟨fun _ => hset _, fun _ _ _ => Or.inl (hset _), fun _ => h.quiet (Or.inl hsome)⟩
  | close =>
      simp only [Channel.closeStep] at hstep
      split at hstep <;> cases hstep
      · exact ⟨h.closer, h.leaving, h.quiet⟩
      · exact ⟨fun _ => hset _, fun _ _ _ => Or.inl (hset _), fun _ => h.quiet (Or.inl hsome)⟩
  | returned won => cases hstep

theorem step (h : c.Announced) (hok : c.Settled a) (hstep : c.step a = some c') :
    c'.Announced := by
  unfold Channel.step at hstep
  split at hstep
  · cases hstep
  cases a with
  | put x =>
      cases hstep
      exact ⟨h.closer, h.leaving, fun hend => absurd hend hok⟩
  | close =>
      cases hstep
      have hcloses : c.closes ++ [ClosePc.compare] ≠ [] := by simp
      exact ⟨fun _ => hcloses, fun _ _ _ => Or.inl hcloses, fun _ => hok⟩
  | run =>
      cases hstep
      exact h.beginRun
  | cancel j =>
      obtain ⟨r, hj, rfl⟩ := Option.map_eq_some_iff.1 hstep
      exact ⟨h.closer, fun _ _ _ => Or.inr ⟨_, mem_set_self hj _, rfl⟩, fun _ => hok⟩
  | closeStep i =>
      obtain ⟨pc, hi, hpc⟩ := Option.bind_eq_some_iff.1 hstep
      exact h.closeStep hi hpc
  | runStep j =>
      obtain ⟨r, hj, hr⟩ := Option.bind_eq_some_iff.1 hstep
      exact h.runStep hj hr
  | takeDone j =>
      obtain ⟨r, hj, hr⟩ := Option.bind_eq_some_iff.1 hstep
      exact h.stopRun hj (fun hc => Or.inr ⟨r, List.mem_of_getElem? hj, hc⟩) hr
  | takeCloser j =>
      obtain ⟨r, hj, hr⟩ := Option.bind_eq_some_iff.1 hstep
      exact h.stopRun hj (fun hc => Or.inl (h.closer hc)) hr
  | handover i j =>
      simp only at hstep
      split at hstep
      · next x b hi hj =>
          cases hstep
          refine h.setRun hj rfl rfl (by simp [RunCall.leaving]) rfl rfl ?_
          rintro ⟨p, hp, hwaits⟩
          rcases List.mem_or_eq_of_mem_set hp with hp | rfl
          · exact ⟨p, hp, hwaits⟩
          · cases hwaits
      · cases hstep
  | receive =>
      obtain ⟨next, _, rfl⟩ := Option.map_eq_some_iff.1 hstep
      exact ⟨h.closer, h.leaving, h.quiet⟩

end Announced

/-- **When no `Put` is stranded.** No state of a run has somebody in `Put` after `Run` has returned,
    exactly if in the run nobody calls `Put` after that, and nobody is in `Put` when it happens. It
    is enough that `Close` is called, and the context cancelled, only while nobody is in `Put`, and
    that nobody calls `Put` afterwards. And whoever is stranded remains so, whatever happens next:
    the call does not return, and its stream is not handed over. -/
theorem no_put_stranded_iff {tr : List (Channel α × Action α)} {t : Channel α}
    (hrun : (machine α).Run init tr t) :
    ((∀ u ∈ Machine.visited tr t, ¬ u.Stranded) ↔ Machine.Meets Orderly tr) ∧
    (Machine.Meets Settled tr → ∀ u ∈ Machine.visited tr t, ¬ u.Stranded) ∧
    (t.HasReturned → ∀ i x, t.puts[i]? = some ⟨x, false⟩ →
      ∀ tr' u, (machine α).Run t tr' u →
        u.puts[i]? = some ⟨x, false⟩ ∧ ∀ y, (i, y) ∉ u.handed) := by
  have hinit : ¬ (init : Channel α).Stranded := by simp [Stranded, HasReturned, init]
  refine ⟨hrun.avoids_iff hinit (fun s a s' hs h => step_stranded_iff hs h), ?_, ?_⟩
  · intro hok u hu
    have hstart : (init : Channel α).Announced := by
      constructor <;> simp [init, Ending]
    exact (hrun.invariant_visited hok hstart (fun s a s' hs => hs.step) u hu).not_stranded
  intro hret i x hi tr' u hrun'
  have hledger := (ledger_delivery ⟨_, _, rfl, hrun⟩).1
  have hstays : Ledger u ∧ u.HasReturned ∧ u.puts[i]? = some ⟨x, false⟩ := by
    refine Machine.Run.preserves
      (I := fun u => Ledger u ∧ u.HasReturned ∧ u.puts[i]? = some ⟨x, false⟩) hrun'
      ⟨hledger, hret, hi⟩ ?_
    intro s a s' hs hstep
    obtain ⟨hc, hr, hp⟩ := hs
    have hrule := step_rule hstep
    exact ⟨hrule.ledger hc, hrule.hasReturned hr, hrule.put_waits hc hr hp⟩
  refine ⟨hstays.2.2, fun y hmem => ?_⟩
  have hdelivery := (ledger_delivery ⟨_, _, rfl, hrun.append hrun'⟩).2
  have hreturned := (hdelivery.completed i y).1 hmem
  rw [hstays.2.2] at hreturned
  cases hreturned

/-- A stream is handed over, and then the channel is closed. -/
def servedRun : List (Action ℕ) :=
  [.run, .put 7, .runStep 0, .handover 0 0, .runStep 0, .close, .closeStep 0, .closeStep 0,
    .takeCloser 0, .runStep 0, .runStep 0, .receive]

theorem no_put_stranded_iff_served :
    ∃ (tr : List (Channel ℕ × Action ℕ)) (t : Channel ℕ), (machine ℕ).Run init tr t ∧
      (t.HasReturned ∧ t.received = [7] ∧ Machine.Meets Settled tr) ∧
      ∀ u ∈ Machine.visited tr t, ¬ u.Stranded := by
  obtain ⟨t, hrun, hret, hrecv⟩ := (machine ℕ).run_of_exec_any init servedRun
    (P := fun t => t.HasReturned ∧ t.received = [7]) (by decide)
  have hmeets : ∀ p ∈ (machine ℕ).trace init servedRun, p.1.Settled p.2 := by decide
  exact ⟨_, t, hrun, ⟨hret, hrecv, hmeets⟩, (no_put_stranded_iff hrun).2.1 hmeets⟩

/-- A stream is left behind when the channel is closed, when the context is cancelled, and when its
    handshake ends after the loop did. -/
theorem put_stranded :
    (∃ c : Channel ℕ, (machine ℕ).Reachable c ∧ c.Stranded ∧ c.closerClosed = true) ∧
    (∃ c : Channel ℕ, (machine ℕ).Reachable c ∧ c.Stranded ∧ c.closerClosed = false) ∧
    ∃ c c' : Channel ℕ, (machine ℕ).Reachable c ∧ c.puts = [] ∧ c.step (.put 7) = some c' ∧
      c'.Stranded := by
  refine ⟨?_, ?_, ?_⟩
  · exact (machine ℕ).reachable_of_exec_any rfl
      [.run, .put 7, .runStep 0, .close, .closeStep 0, .closeStep 0, .takeCloser 0, .runStep 0,
        .runStep 0] (by decide)
  · exact (machine ℕ).reachable_of_exec_any rfl
      [.run, .put 7, .runStep 0, .cancel 0, .takeDone 0, .runStep 0, .runStep 0] (by decide)
  · obtain ⟨c, hreach, hputs, hnext⟩ := (machine ℕ).reachable_of_exec_any rfl
      [.run, .runStep 0, .close, .closeStep 0, .closeStep 0, .takeCloser 0, .runStep 0, .runStep 0]
      (P := fun c : Channel ℕ => c.puts.length = 0 ∧
        (c.step (.put 7)).any (fun c' => decide c'.Stranded) = true) (by decide)
    obtain ⟨c', hc', hstranded⟩ := (Option.any_eq_true _ _).1 hnext
    exact ⟨c, c', hreach, List.length_eq_zero_iff.1 hputs, hc', of_decide_eq_true hstranded⟩

end Channel

end Tunnel.Multiplexer
