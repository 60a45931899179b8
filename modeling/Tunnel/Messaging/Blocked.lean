import Tunnel.Messaging.Replies

set_option autoImplicit false

/-! # Goroutines that a timeout leaves blocked (`messaging/rpc.go`)

Both reply channels of a call have no buffer, and on each the receiver gives up after ten seconds
while the sender waits for nothing else. A `handleRPC` with a reply takes the channel of the `Call`
out of `rr` and then sends on it; if the `Call` returns in between, nobody receives any more. An
application sends on the `Reply` of a request; if the `handleRPC` that made the channel has
returned, nobody receives either.

`no_rpc_blocked_iff` says which runs leave nobody blocked, and that whoever is blocked stays so;
`rpc_blocked` has a run for each of the two.

Five functions of the state are all that matters: which calls have returned, which `handleRPC` sends
to which call, which of them have returned, on which request an application is answering, and who
made the channel of a request. `Effect` says once what a step does to them, in terms of what the
step completes. -/

namespace Tunnel.Messaging

open Tunnel.Lib

/-- The call has returned. -/
def CallPc.isReturned : CallPc → Bool
  | .returned _ _ => true
  | .draw | .write _ | .waiting _ | .deferred _ _ => false

/-- The call has stored its channel, and not left its `select`. -/
def CallPc.isOpen : CallPc → Bool
  | .write _ | .waiting _ => true
  | .draw | .deferred _ _ | .returned _ _ => false

/-- The call on whose channel the `handleRPC` is sending. -/
def HandlerPc.target : HandlerPc → Option ℕ
  | .handing i => some i
  | .request | .awaiting | .replying _ _ | .load | .done => none

/-- The `handleRPC` has received an answer, or has returned. -/
def HandlerPc.hasAnswer : HandlerPc → Bool
  | .replying _ _ | .done => true
  | .request | .awaiting | .load | .handing _ => false

/-- The `handleRPC` has returned. -/
def HandlerPc.isDone : HandlerPc → Bool
  | .done => true
  | .request | .awaiting | .replying _ _ | .load | .handing _ => false

/-- The request on whose channel the application is sending. -/
def Answer.target (w : Answer) : Option ℕ := if w.taken = true then none else some w.request

namespace Network

/-- The `i`-th call has returned. -/
def callReturned (s : Network) (i : ℕ) : Bool := (s.calls[i]?).any (fun c => c.pc.isReturned)

/-- The call to which the `h`-th `handleRPC` is sending its reply. -/
def handingTo (s : Network) (h : ℕ) : Option ℕ := (s.handlers[h]?).bind (fun x => x.pc.target)

/-- The `h`-th `handleRPC` has returned. -/
def isOver (s : Network) (h : ℕ) : Bool := (s.handlers[h]?).any (fun x => x.pc.isDone)

/-- The request on whose `Reply` the `k`-th answer is being sent. -/
def waitsOn (s : Network) (k : ℕ) : Option ℕ := (s.answers[k]?).bind Answer.target

/-- The `handleRPC` that made the `Reply` of the `r`-th request. -/
def channelOf (s : Network) (r : ℕ) : Option ℕ :=
  (s.received[r]?).bind (fun got => some got.request.reply)

/-- The `h`-th `handleRPC` is blocked: it sends to a call that has returned. -/
def Orphan (s : Network) (h : ℕ) : Prop :=
  ∃ i, s.handingTo h = some i ∧ s.callReturned i = true

/-- The application is blocked in its `k`-th answer: the `handleRPC` that it sends to has
    returned. -/
def Unheard (s : Network) (k : ℕ) : Prop :=
  ∃ r h, s.waitsOn k = some r ∧ s.channelOf r = some h ∧ s.isOver h = true

/-- Somebody is blocked. -/
def Stuck (s : Network) : Prop := (∃ h, s.Orphan h) ∨ ∃ k, s.Unheard k

/-! ## When nobody gets blocked -/

/-- What a step completes: the call that returns; the `handleRPC` that takes the channel of a call
    out of `rr`, and the call; the `handleRPC` whose send goes through; the one that returns; the
    request to which an answer begins; the answer that goes through. -/
structure Outcome where
  finishes : Option ℕ := none
  takesOut : Option (ℕ × ℕ) := none
  handsOver : Option ℕ := none
  returns : Option ℕ := none
  repliesTo : Option ℕ := none
  takes : Option ℕ := none

/-- The call whose channel the `h`-th `handleRPC` finds in `rr`. -/
def loads (s : Network) (h : ℕ) : Option ℕ :=
  (s.handlers[h]?).bind (fun x => (s.nodes x.job.node).rr.load x.job.r.key)

/-- What the step `a` completes. A `handleRPC` returns after its timeout, its `write`, a failed
    `LoadAndDelete`, or its send. -/
def outcome (s : Network) : Action → Outcome
  | .finish i => { finishes := some i }
  | .expire h | .respond h _ => { returns := some h }
  | .load h =>
      { takesOut := (s.loads h).map (fun i => (h, i))
        returns := if s.loads h = none then some h else none }
  | .handover h => { handsOver := some h, returns := some h }
  | .reply r _ => { repliesTo := some r }
  | .take k => { takes := some k }
  | .call .. | .draw .. | .write .. | .timeout _ | .announce .. | .deliver _ | .lose _ | .request _
    | .receive _ => {}

/-- Some `handleRPC` is sending to the `i`-th call. -/
def replied (s : Network) (i : ℕ) : Bool := s.handlers.any (fun x => x.pc.target == some i)

/-- An application is sending to the `h`-th `handleRPC`. -/
def answered (s : Network) (h : ℕ) : Bool :=
  s.answers.any (fun w => (w.target.bind s.channelOf) == some h)

/-- No call returns while a reply is being sent to it, no `handleRPC` returns while an answer is
    being sent to it, and no answer is sent to one that has returned. -/
def InTime (s : Network) (a : Action) : Prop :=
  (∀ i ∈ (s.outcome a).finishes, s.replied i = false) ∧
    (∀ h ∈ (s.outcome a).returns, s.answered h = false) ∧
    ∀ r ∈ (s.outcome a).repliesTo, ∀ h ∈ s.channelOf r, s.isOver h = false

instance (s : Network) : DecidablePred s.InTime :=
  fun _ => inferInstanceAs (Decidable (_ ∧ _ ∧ _))

/-- A call that returns completes nothing else. -/
theorem outcome_of_finishes {s : Network} {a : Action} {i : ℕ}
    (h : (s.outcome a).finishes = some i) : s.outcome a = { finishes := some i } := by
  cases a with
  | finish j =>
      obtain rfl : j = i := Option.some.inj h
      rfl
  | _ => cases h

theorem outcome_of_repliesTo {s : Network} {a : Action} {r : ℕ}
    (h : (s.outcome a).repliesTo = some r) : s.outcome a = { repliesTo := some r } := by
  cases a with
  | reply q value =>
      obtain rfl : q = r := Option.some.inj h
      rfl
  | _ => cases h

/-- A `handleRPC` that returns receives nothing any more. -/
theorem takes_of_returns {s : Network} {a : Action} {g : ℕ} (h : (s.outcome a).returns = some g) :
    (s.outcome a).takes = none := by
  cases a with
  | take k => cases h
  | _ => rfl

theorem replied_iff {s : Network} {i : ℕ} :
    s.replied i = true ↔ ∃ h, s.handingTo h = some i := by
  simp only [replied, List.any_eq_true, List.mem_iff_getElem?, handingTo, Option.bind_eq_some_iff,
    beq_iff_eq]
  exact ⟨fun ⟨x, ⟨h, hh⟩, hx⟩ => ⟨h, x, hh, hx⟩, fun ⟨h, x, hh, hx⟩ => ⟨x, ⟨h, hh⟩, hx⟩⟩

theorem answered_iff {s : Network} {h : ℕ} :
    s.answered h = true ↔ ∃ k r, s.waitsOn k = some r ∧ s.channelOf r = some h := by
  simp only [answered, List.any_eq_true, List.mem_iff_getElem?, waitsOn, Option.bind_eq_some_iff,
    beq_iff_eq]
  constructor
  · intro ⟨w, ⟨k, hk⟩, r, hw, hr⟩
    exact ⟨k, r, ⟨w, hk, hw⟩, hr⟩
  · intro ⟨k, r, ⟨w, hk, hw⟩, hr⟩
    exact ⟨w, ⟨k, hk⟩, r, hw, hr⟩

/-! ## What a step does to the five -/

variable {mem : UInt64 → Heap} {s s' : Network} {a : Action}

/-- What a step changes. -/
structure Effect (s : Network) (a : Action) (s' : Network) : Prop where
  calls : ∀ i, s'.callReturned i = true ↔
    s.callReturned i = true ∨ (s.outcome a).finishes = some i
  handing : ∀ h i, s'.handingTo h = some i ↔
    (s.handingTo h = some i ∧ (s.outcome a).handsOver ≠ some h) ∨
      (s.outcome a).takesOut = some (h, i)
  ended : ∀ h, s'.isOver h = true ↔ s.isOver h = true ∨ (s.outcome a).returns = some h
  answers : ∀ k r, s'.waitsOn k = some r ↔
    (s.waitsOn k = some r ∧ (s.outcome a).takes ≠ some k) ∨
      (k = s.answers.length ∧ (s.outcome a).repliesTo = some r)
  received : s.received <+: s'.received

/-- A step that completes nothing and moves nobody. -/
theorem Effect.of_quiet (hcalls : s'.calls = s.calls) (hhandlers : s'.handlers = s.handlers)
    (hanswers : s'.answers = s.answers) (hreceived : s.received <+: s'.received)
    (ha : s.outcome a = {}) : Effect s a s' where
  calls i := by simp [callReturned, hcalls, ha]
  handing h i := by simp [handingTo, hhandlers, ha]
  ended h := by simp [isOver, hhandlers, ha]
  answers k r := by simp [waitsOn, hanswers, ha]
  received := hreceived

/-- A call that has not returned moves on, or returns. -/
theorem Effect.of_call {i : ℕ} {c : Call} (hi : s.calls[i]? = some c)
    (hc : c.pc.isReturned = false) {pc : CallPc}
    (hcalls : s'.calls = s.calls.set i { c with pc := pc }) (hhandlers : s'.handlers = s.handlers)
    (hanswers : s'.answers = s.answers) (hreceived : s'.received = s.received)
    (ha : s.outcome a = { finishes := if pc.isReturned = true then some i else none }) :
    Effect s a s' where
  calls j := by
    rw [callReturned, hcalls, getElem?_set_of_some hi, ha]
    by_cases hij : i = j
    · subst hij
      simp [callReturned, hi, hc]
    · simp [hij, callReturned]
  handing h j := by simp [handingTo, hhandlers, ha]
  ended h := by simp [isOver, hhandlers, ha]
  answers k r := by simp [waitsOn, hanswers, ha]
  received := by rw [hreceived]

theorem waitsOn_same (hanswers : s'.answers = s.answers) (k r : ℕ) :
    s'.waitsOn k = some r ↔ s.waitsOn k = some r ∧ none ≠ some k := by
  simp [waitsOn, hanswers]

/-- A `handleRPC` that has not returned moves on, or returns. It may have sent its reply to a call,
    and it may have received the answer `t`. -/
theorem Effect.of_handler {h : ℕ} {x : Handler} (hh : s.handlers[h]? = some x)
    (hx : x.pc.isDone = false) {pc : HandlerPc}
    (hhandlers : s'.handlers = s.handlers.set h { x with pc := pc })
    (hcalls : ∀ i, s'.callReturned i = s.callReturned i) {t : Option ℕ}
    (hanswers : ∀ k r, s'.waitsOn k = some r ↔ s.waitsOn k = some r ∧ t ≠ some k)
    (hreceived : s'.received = s.received)
    (ha : s.outcome a =
      { takesOut := pc.target.map (fun i => (h, i))
        handsOver := x.pc.target.map (fun _ => h)
        returns := if pc.isDone = true then some h else none
        takes := t }) : Effect s a s' where
  calls j := by simp [hcalls, ha]
  handing g i := by
    rw [handingTo, hhandlers, getElem?_set_of_some hh, ha]
    by_cases hgh : h = g
    · subst hgh
      cases htarget : x.pc.target <;> simp [handingTo, hh, htarget]
    · cases x.pc.target <;> simp [hgh, handingTo]
  ended g := by
    rw [isOver, hhandlers, getElem?_set_of_some hh, ha]
    by_cases hgh : h = g
    · subst hgh
      simp [isOver, hh, hx]
    · simp [hgh, isOver]
  answers k r := by simp [hanswers, ha]
  received := by rw [hreceived]

/-- `write` touches the packets only. -/
theorem post_frame (s : Network) (ok : Bool) (pk : Packet) :
    (s.post ok pk).calls = s.calls ∧ (s.post ok pk).handlers = s.handlers ∧
      (s.post ok pk).answers = s.answers ∧ (s.post ok pk).received = s.received := by
  unfold post
  split <;> exact ⟨rfl, rfl, rfl, rfl⟩

theorem callStep_effect {i : ℕ} {c : Call} (hi : s.calls[i]? = some c)
    (h : s.callStep mem i c a = some s') (hfinish : ∀ j, a = .finish j → j = i) :
    Effect s a s' := by
  cases a with
  | draw j key =>
      simp only [callStep] at h
      split at h
      · next hpc =>
          have hc : c.pc.isReturned = false := by rw [hpc]; rfl
          split at h
          · cases h
            exact .of_quiet rfl rfl rfl List.prefix_rfl rfl
          · cases h
            exact .of_call hi hc rfl rfl rfl rfl rfl
      · cases h
  | write j ok =>
      simp only [callStep] at h
      split at h
      · next key hpc =>
          have hc : c.pc.isReturned = false := by rw [hpc]; rfl
          split at h
          · cases h
          · next m hm =>
              cases h
              obtain ⟨hcalls, hhandlers, hanswers, hreceived⟩ :=
                post_frame s ok ⟨c.peer, m, .call i⟩
              refine .of_call hi hc (congrArg (List.set · i _) hcalls) hhandlers hanswers
                hreceived ?_
              cases ok <;> rfl
      · cases h
  | timeout j =>
      simp only [callStep] at h
      split at h
      · next key hpc =>
          cases h
          exact .of_call hi (by rw [hpc]; rfl) rfl rfl rfl rfl rfl
      · cases h
  | finish j =>
      obtain rfl := hfinish j rfl
      simp only [callStep] at h
      split at h
      · next key res hpc =>
          cases h
          exact .of_call hi (by rw [hpc]; rfl) rfl rfl rfl rfl rfl
      · cases h
  | _ => cases h

theorem deliver_effect {p : ℕ} {pk : Packet} (h : s.deliver mem p pk = some s') :
    Effect s (.deliver p) s' := by
  unfold deliver at h
  split at h
  · split at h
    · cases h
    · next r hr =>
        cases h
        -- the new goroutine is at its beginning, whatever it was started with
        have hstart : ∀ job, (Handler.start job).pc.target = none ∧
            (Handler.start job).pc.isDone = false := by
          intro job
          unfold Handler.start
          split <;> exact ⟨rfl, rfl⟩
        refine ⟨fun i => ?_, fun g i => ?_, fun g => ?_, fun k q => ?_, List.prefix_rfl⟩
        · simp [callReturned, outcome]
        · rw [handingTo, getElem?_concat]
          by_cases hg : g = s.handlers.length
          · simp [hg, handingTo, outcome, (hstart _).1]
          · simp [hg, handingTo, outcome]
        · rw [isOver, getElem?_concat]
          by_cases hg : g = s.handlers.length
          · simp [hg, isOver, outcome, (hstart _).2]
          · simp [hg, isOver, outcome]
        · simp [waitsOn, outcome]
  · cases h
    exact .of_quiet rfl rfl rfl List.prefix_rfl rfl

theorem handlerStep_effect {h : ℕ} {x : Handler} (hh : s.handlers[h]? = some x)
    (hstep : s.handlerStep mem h x a = some s')
    (ha : a = .request h ∨ a = .expire h ∨ (∃ ok, a = .respond h ok) ∨ a = .load h ∨
      a = .handover h) : Effect s a s' := by
  rcases ha with rfl | rfl | ⟨ok, rfl⟩ | rfl | rfl
  · simp only [handlerStep] at hstep
    split at hstep
    · next hpc =>
        obtain ⟨req, _, rfl⟩ := Option.map_eq_some_iff.1 hstep
        exact .of_handler hh (by rw [hpc]; rfl) rfl (fun _ => rfl) (waitsOn_same rfl) rfl
          (by rw [hpc]; rfl)
    · cases hstep
  · simp only [handlerStep] at hstep
    split at hstep
    · next hpc =>
        cases hstep
        exact .of_handler hh (by rw [hpc]; rfl) rfl (fun _ => rfl) (waitsOn_same rfl) rfl
          (by rw [hpc]; rfl)
    · cases hstep
  · simp only [handlerStep] at hstep
    split at hstep
    · next w data hpc =>
        split at hstep
        · cases hstep
        · next m hm =>
            cases hstep
            obtain ⟨hcalls, hhandlers, hanswers, hreceived⟩ :=
              post_frame s ok ⟨x.job.sender, m, .answer w⟩
            refine .of_handler hh (by rw [hpc]; rfl) (congrArg (List.set · h _) hhandlers) ?_
              (waitsOn_same hanswers) hreceived (by rw [hpc]; rfl)
            intro i
            exact congrArg (fun calls => (calls[i]?).any _) hcalls
    · cases hstep
  · have hloads : s.loads h = (s.nodes x.job.node).rr.load x.job.r.key := by
      rw [loads, hh, Option.bind_some]
    simp only [handlerStep] at hstep
    split at hstep
    · next hpc =>
        split at hstep
        · next hload =>
            cases hstep
            rw [hload] at hloads
            exact .of_handler hh (by rw [hpc]; rfl) rfl (fun _ => rfl) (waitsOn_same rfl) rfl
              (by rw [outcome, hloads, hpc]; rfl)
        · next i hload =>
            cases hstep
            rw [hload] at hloads
            exact .of_handler hh (by rw [hpc]; rfl) rfl (fun _ => rfl) (waitsOn_same rfl) rfl
              (by rw [outcome, hloads, hpc]; rfl)
    · cases hstep
  · simp only [handlerStep] at hstep
    split at hstep
    · next i hx =>
        obtain ⟨c, hi, hc⟩ := Option.bind_eq_some_iff.1 hstep
        split at hc
        · next key hpc =>
            cases hc
            refine .of_handler hh (by rw [hx]; rfl) rfl ?_ (waitsOn_same rfl) rfl (by rw [hx]; rfl)
            -- the call leaves its `select`, and does not return yet
            intro j
            show ((s.calls.set i _)[j]?).any _ = _
            rw [getElem?_set_of_some hi]
            by_cases hij : i = j
            · subst hij
              simp [callReturned, hi, hpc, CallPc.isReturned]
            · simp [hij, callReturned]
        · cases hc
    · cases hstep

theorem take_effect {k : ℕ} {w : Answer} (hk : s.answers[k]? = some w)
    (h : s.take k w = some s') : Effect s (.take k) s' := by
  unfold take at h
  split at h
  · cases h
  · next htaken =>
      obtain ⟨got, _, h⟩ := Option.bind_eq_some_iff.1 h
      obtain ⟨x, hh, h⟩ := Option.bind_eq_some_iff.1 h
      split at h
      · next hpc =>
          cases h
          refine .of_handler hh (by rw [hpc]; rfl) rfl (fun _ => rfl) ?_ rfl (by rw [hpc]; rfl)
          intro j r
          rw [waitsOn, getElem?_set_of_some hk]
          by_cases hj : k = j
          · simp [hj, Answer.target]
          · simp [hj, waitsOn]
      · cases h

theorem step_effect (h : s.step mem a = some s') : Effect s a s' := by
  cases a with
  | call node peer b =>
      cases h
      refine ⟨fun j => ?_, fun g i => ?_, fun g => ?_, fun k r => ?_, List.prefix_rfl⟩
      · rw [callReturned, getElem?_concat]
        by_cases hj : j = s.calls.length
        · simp [hj, callReturned, CallPc.isReturned, outcome]
        · simp [hj, callReturned, outcome]
      · simp [handingTo, outcome]
      · simp [isOver, outcome]
      · simp [waitsOn, outcome]
  | draw i _ | write i _ | timeout i | finish i =>
      obtain ⟨c, hi, hc⟩ := Option.bind_eq_some_iff.1 h
      exact callStep_effect hi hc (fun j hj => by cases hj <;> rfl)
  | announce node peer t b =>
      simp only [step] at h
      split at h <;> cases h
      exact .of_quiet rfl rfl rfl List.prefix_rfl rfl
  | deliver p =>
      obtain ⟨pk, _, hpk⟩ := Option.bind_eq_some_iff.1 h
      exact deliver_effect hpk
  | lose p =>
      obtain ⟨pk, _, rfl⟩ := Option.map_eq_some_iff.1 h
      exact .of_quiet rfl rfl rfl List.prefix_rfl rfl
  | request g | expire g | respond g _ | load g | handover g =>
      obtain ⟨x, hh, hx⟩ := Option.bind_eq_some_iff.1 h
      exact handlerStep_effect hh hx (by simp)
  | receive node =>
      obtain ⟨next, _, rfl⟩ := Option.map_eq_some_iff.1 h
      exact .of_quiet rfl rfl rfl (List.prefix_append _ _) rfl
  | reply r value =>
      obtain ⟨got, _, rfl⟩ := Option.map_eq_some_iff.1 h
      refine ⟨fun i => ?_, fun g i => ?_, fun g => ?_, fun k q => ?_, List.prefix_rfl⟩
      · simp [callReturned, outcome]
      · simp [handingTo, outcome]
      · simp [isOver, outcome]
      · rw [waitsOn, getElem?_concat]
        by_cases hk : k = s.answers.length
        · simp [hk, waitsOn, Answer.target, outcome]
        · simp [hk, waitsOn, outcome]
  | take k =>
      obtain ⟨w, hk, hw⟩ := Option.bind_eq_some_iff.1 h
      exact take_effect hk hw

/-! ## What `rr` and the answers refer to -/

/-- The channel of the call is in the map of its node, or may be. -/
def Registered (c : Call) (n key : UInt64) : Prop :=
  c.node = n ∧ c.key = some key ∧ c.pc.isReturned = false

/-- A channel in `rr` is that of a call which has not returned, and an answer is one to a request
    that was received. -/
structure Sound (s : Network) : Prop where
  pending : ∀ n key i, (s.nodes n).rr.load key = some i →
    ∃ c, s.calls[i]? = some c ∧ Registered c n key
  asked : ∀ k r, s.waitsOn k = some r → r < s.received.length

theorem sound_init : Sound init where
  pending n key i h := by simp [init] at h
  asked k r h := by simp [init, waitsOn] at h

/-- A call that moves on, and does not lose what is registered. -/
theorem registered_set {calls : List Call} {i : ℕ} {c c' : Call} (hi : calls[i]? = some c)
    {j : ℕ} {n key : UInt64} (hkeep : i = j → Registered c n key → Registered c' n key)
    (h : ∃ d, calls[j]? = some d ∧ Registered d n key) :
    ∃ d, (calls.set i c')[j]? = some d ∧ Registered d n key := by
  obtain ⟨d, hd, hreg⟩ := h
  rw [getElem?_set_of_some hi]
  by_cases hij : i = j
  · subst hij
    obtain rfl : c = d := Option.some.inj (hi.symm.trans hd)
    exact ⟨c', if_pos rfl, hkeep rfl hreg⟩
  · exact ⟨d, by rw [if_neg hij, hd], hreg⟩

/-- A call that keeps its key and does not return stays registered. -/
theorem Registered.moves {c : Call} {n key : UInt64} (h : Registered c n key) {pc : CallPc}
    (hkey : ({ c with pc := pc } : Call).key = c.key) (hpc : pc.isReturned = false) :
    Registered { c with pc := pc } n key :=
  ⟨h.1, hkey.trans h.2.1, hpc⟩

theorem Step.pending (hs : Sound s) (h : Step s a s') (n key : UInt64) (j : ℕ)
    (hload : (s'.nodes n).rr.load key = some j) :
    ∃ c, s'.calls[j]? = some c ∧ Registered c n key := by
  cases h with
  | call node peer b =>
      obtain ⟨c, hc, hreg⟩ := hs.pending n key j hload
      exact ⟨c, getElem?_append_of_some hc _, hreg⟩
  | @draw i c k hi hpc hfree =>
      rcases load_setRr_store hload with ⟨rfl, rfl, rfl⟩ | hold
      · refine ⟨{ c with pc := .write key }, ?_, rfl, rfl, rfl⟩
        show (s.calls.set j _)[j]? = _
        rw [getElem?_set_of_some hi, if_pos rfl]
      · refine registered_set hi (fun _ hreg => ?_) (hs.pending n key j hold)
        -- a call that draws has no key yet
        have hkey := hreg.2.1
        rw [Call.key, hpc] at hkey
        cases hkey
  | @write _ i c k m _ hi hpc hm =>
      refine registered_set hi (fun _ hreg => hreg.moves ?_ rfl) (hs.pending n key j hload)
      rw [Call.key, Call.key, hpc]
  | @fail _ i c k e hi hpc =>
      refine registered_set hi (fun _ hreg => hreg.moves ?_ rfl) (hs.pending n key j hload)
      rcases hpc with hpc | hpc <;> rw [Call.key, Call.key, hpc]
  | @finish _ i c k res hi hpc =>
      refine registered_set hi (fun _ hreg => ?_) (hs.pending n key j (load_setRr_delete hload))
      -- the entry of the call itself is the one that was deleted
      obtain ⟨rfl, hkey, _⟩ := hreg
      rw [Call.key, hpc] at hkey
      obtain rfl := Option.some.inj hkey
      simp at hload
  | load hh hpc hfound => exact hs.pending n key j (load_setRr_delete hload)
  | @handover _ h i x c k hh hx hi hpc =>
      refine registered_set hi (fun _ hreg => hreg.moves ?_ rfl) (hs.pending n key j hload)
      rw [Call.key, Call.key, hpc]
  | request hh hpc hsend => exact hs.pending n key j (by simpa using hload)
  | receive hrecv => exact hs.pending n key j (by simpa using hload)
  | redraw | announce | spawn | drop | quit | respond | reply | take =>
      exact hs.pending n key j hload

/-- Only a request that was received is answered. -/
theorem lt_of_repliesTo (h : s.step mem a = some s') {r : ℕ}
    (ha : (s.outcome a).repliesTo = some r) : r < s.received.length := by
  cases a with
  | reply q value =>
      cases ha
      obtain ⟨got, hgot, _⟩ := Option.map_eq_some_iff.1 h
      exact (List.getElem?_eq_some_iff.1 hgot).1
  | _ => cases ha

theorem Sound.step (hs : Sound s) (h : s.step mem a = some s') : Sound s' where
  pending := (step_rule h).pending hs
  asked k r hk := by
    have heffect := step_effect h
    have hr : r < s.received.length := by
      rcases (heffect.answers k r).1 hk with ⟨hold, _⟩ | ⟨_, hnew⟩
      · exact hs.asked k r hold
      · exact lt_of_repliesTo h hnew
    exact hr.trans_le heffect.received.length_le

theorem Effect.channelOf_eq (h : Effect s a s') {r : ℕ} (hr : r < s.received.length) :
    s'.channelOf r = s.channelOf r := by
  have hprefix : s'.received[r]? = s.received[r]? := by
    obtain ⟨more, hmore⟩ := h.received
    rw [← hmore, List.getElem?_append_left hr]
  rw [channelOf, hprefix, channelOf]

/-! ## How somebody gets blocked, and stays so -/

/-- What is taken out of `rr` belongs to a call that has not returned. -/
theorem Sound.takesOut (hs : Sound s) {h i : ℕ} (hout : (s.outcome a).takesOut = some (h, i)) :
    s.callReturned i = false := by
  cases a with
  | load g =>
      obtain ⟨j, hloads, hj⟩ := Option.map_eq_some_iff.1 hout
      cases hj
      obtain ⟨x, hx, hload⟩ := Option.bind_eq_some_iff.1 hloads
      obtain ⟨c, hc, _, _, hreturned⟩ := hs.pending _ _ _ hload
      rw [callReturned, hc, Option.any_some, hreturned]
  | _ => cases hout

theorem orphan_iff (hs : Sound s) (hstuck : ¬ s.Stuck) (h : s.step mem a = some s') :
    (∃ g, s'.Orphan g) ↔ ∃ i ∈ (s.outcome a).finishes, s.replied i = true := by
  have heffect := step_effect h
  constructor
  · intro ⟨g, i, hto, hreturned⟩
    rcases (heffect.handing g i).1 hto with ⟨hold, _⟩ | hnew
    · rcases (heffect.calls i).1 hreturned with hbefore | hnow
      · exact absurd (Or.inl ⟨g, i, hold, hbefore⟩) hstuck
      · exact ⟨i, hnow, replied_iff.2 ⟨g, hold⟩⟩
    · rcases (heffect.calls i).1 hreturned with hbefore | hnow
      · rw [hs.takesOut hnew] at hbefore
        cases hbefore
      · rw [outcome_of_finishes hnow] at hnew
        cases hnew
  · intro ⟨i, hi, hreplied⟩
    obtain ⟨g, hg⟩ := replied_iff.1 hreplied
    refine ⟨g, i, (heffect.handing g i).2 (Or.inl ⟨hg, ?_⟩), (heffect.calls i).2 (Or.inr hi)⟩
    rw [outcome_of_finishes hi]
    exact (Option.some_ne_none g).symm

theorem unheard_iff (hs : Sound s) (hstuck : ¬ s.Stuck) (h : s.step mem a = some s') :
    (∃ k, s'.Unheard k) ↔ (∃ g ∈ (s.outcome a).returns, s.answered g = true) ∨
      ∃ r ∈ (s.outcome a).repliesTo, ∃ g ∈ s.channelOf r, s.isOver g = true := by
  have heffect := step_effect h
  constructor
  · intro ⟨k, r, g, hwaits, hchannel, hover⟩
    rcases (heffect.answers k r).1 hwaits with ⟨hold, _⟩ | ⟨_, hnew⟩
    · rw [heffect.channelOf_eq (hs.asked k r hold)] at hchannel
      rcases (heffect.ended g).1 hover with hbefore | hnow
      · exact absurd (Or.inr ⟨k, r, g, hold, hchannel, hbefore⟩) hstuck
      · exact Or.inl ⟨g, hnow, answered_iff.2 ⟨k, r, hold, hchannel⟩⟩
    · rw [heffect.channelOf_eq (lt_of_repliesTo h hnew)] at hchannel
      refine Or.inr ⟨r, hnew, g, hchannel, ?_⟩
      rcases (heffect.ended g).1 hover with hbefore | hnow
      · exact hbefore
      · rw [outcome_of_repliesTo hnew] at hnow
        cases hnow
  · intro hcases
    rcases hcases with ⟨g, hg, hanswered⟩ | ⟨r, hr, g, hg, hover⟩
    · obtain ⟨k, r, hwaits, hchannel⟩ := answered_iff.1 hanswered
      refine ⟨k, r, g, (heffect.answers k r).2 (Or.inl ⟨hwaits, ?_⟩), ?_,
        (heffect.ended g).2 (Or.inr hg)⟩
      · rw [takes_of_returns hg]
        exact (Option.some_ne_none k).symm
      · rw [heffect.channelOf_eq (hs.asked k r hwaits)]
        exact hchannel
    · refine ⟨s.answers.length, r, g, (heffect.answers _ r).2 (Or.inr ⟨rfl, hr⟩), ?_,
        (heffect.ended g).2 (Or.inl hover)⟩
      rw [heffect.channelOf_eq (lt_of_repliesTo h hr)]
      exact hg

/-- **Step lemma.** -/
theorem step_stuck_iff (hs : Sound s) (hstuck : ¬ s.Stuck) (h : s.step mem a = some s') :
    ¬ s'.Stuck ↔ s.InTime a := by
  rw [Stuck, orphan_iff hs hstuck h, unheard_iff hs hstuck h]
  simp only [InTime, not_or, not_exists, not_and, Bool.not_eq_true]

/-- A send to a call goes through only while the call is in its `select`. -/
theorem callReturned_of_handover (h : s.step mem a = some s') {g i : ℕ}
    (ha : (s.outcome a).handsOver = some g) (hto : s.handingTo g = some i) :
    s.callReturned i = false := by
  cases a with
  | handover j =>
      cases ha
      obtain ⟨x, hx, hstep⟩ := Option.bind_eq_some_iff.1 h
      simp only [handlerStep] at hstep
      split at hstep
      · next j hpc =>
          obtain ⟨c, hc, hmove⟩ := Option.bind_eq_some_iff.1 hstep
          obtain rfl : j = i := by
            rw [handingTo, hx, Option.bind_some, hpc] at hto
            exact Option.some.inj hto
          split at hmove
          · next key hwaiting =>
              rw [callReturned, hc, Option.any_some, hwaiting]
              rfl
          · cases hmove
      · cases hstep
  | _ => cases ha

/-- An answer goes through only while the `handleRPC` is in its `select`. -/
theorem isOver_of_take (h : s.step mem a = some s') {k r g : ℕ} (ha : (s.outcome a).takes = some k)
    (hwaits : s.waitsOn k = some r) (hchannel : s.channelOf r = some g) : s.isOver g = false := by
  cases a with
  | take j =>
      cases ha
      obtain ⟨w, hw, htake⟩ := Option.bind_eq_some_iff.1 h
      unfold take at htake
      split at htake
      · cases htake
      · next htaken =>
          obtain ⟨got, hgot, htake⟩ := Option.bind_eq_some_iff.1 htake
          obtain ⟨x, hx, htake⟩ := Option.bind_eq_some_iff.1 htake
          obtain rfl : w.request = r := by
            rw [waitsOn, hw, Option.bind_some, Answer.target, if_neg htaken] at hwaits
            exact Option.some.inj hwaits
          obtain rfl : got.request.reply = g := by
            rw [channelOf, hgot, Option.bind_some] at hchannel
            exact Option.some.inj hchannel
          split at htake
          · next hpc =>
              rw [isOver, hx, Option.any_some, hpc]
              rfl
          · cases htake
  | _ => cases ha

theorem Orphan.step {g : ℕ} (ho : s.Orphan g) (h : s.step mem a = some s') : s'.Orphan g := by
  obtain ⟨i, hto, hreturned⟩ := ho
  have heffect := step_effect h
  refine ⟨i, (heffect.handing g i).2 (Or.inl ⟨hto, ?_⟩),
    (heffect.calls i).2 (Or.inl hreturned)⟩
  intro ha
  rw [callReturned_of_handover h ha hto] at hreturned
  cases hreturned

theorem Unheard.step {k : ℕ} (hu : s.Unheard k) (hs : Sound s) (h : s.step mem a = some s') :
    s'.Unheard k := by
  obtain ⟨r, g, hwaits, hchannel, hover⟩ := hu
  have heffect := step_effect h
  refine ⟨r, g, (heffect.answers k r).2 (Or.inl ⟨hwaits, ?_⟩), ?_,
    (heffect.ended g).2 (Or.inl hover)⟩
  · intro ha
    rw [isOver_of_take h ha hwaits hchannel] at hover
    cases hover
  · rw [heffect.channelOf_eq (hs.asked k r hwaits)]
    exact hchannel

/-! ## What the callers can see to -/

/-- No timer runs out and no `write` fails, and an application sends one answer at most on the
    `Reply` of a request. -/
def Prompt (s : Network) : Action → Prop
  | .timeout _ | .expire _ => False
  | .write _ ok => ok = true
  | .reply r _ => ∀ w ∈ s.answers, s.channelOf w.request ≠ s.channelOf r
  | .call .. | .draw .. | .finish _ | .announce .. | .deliver _ | .lose _ | .request _
    | .respond .. | .load _ | .handover _ | .receive _ | .take _ => True

instance (s : Network) : DecidablePred s.Prompt
  | .timeout _ | .expire _ => inferInstanceAs (Decidable False)
  | .write _ ok => inferInstanceAs (Decidable (ok = true))
  | .reply r _ => inferInstanceAs (Decidable (∀ w ∈ s.answers, _ ≠ s.channelOf r))
  | .call .. | .draw .. | .finish _ | .announce .. | .deliver _ | .lose _ | .request _
    | .respond .. | .load _ | .handover _ | .receive _ | .take _ => inferInstanceAs (Decidable True)

/-- The `i`-th call has stored its channel, and not left its `select`. -/
def Open (s : Network) (i : ℕ) : Prop := ∃ c, s.calls[i]? = some c ∧ c.pc.isOpen = true

/-- A channel is that of a call which still listens, and while one `handleRPC` sends on it, it is
    not in `rr`, and no other sends on it. -/
structure Awaited (s : Network) : Prop where
  pending : ∀ n key i, (s.nodes n).rr.load key = some i → s.Open i
  handed : ∀ h i, s.handingTo h = some i → s.Open i
  removed : ∀ h i, s.handingTo h = some i → ∀ n key, (s.nodes n).rr.load key ≠ some i
  single : ∀ h g i, s.handingTo h = some i → s.handingTo g = some i → g = h

theorem handingTo_setHandler {h : ℕ} {x : Handler} (hh : s.handlers[h]? = some x) (pc : HandlerPc)
    (g : ℕ) : (s.setHandler h x pc).handingTo g = if h = g then pc.target else s.handingTo g := by
  rw [handingTo, setHandler, getElem?_set_of_some hh]
  by_cases hg : h = g
  · rw [if_pos hg, if_pos hg, Option.bind_some]
  · rw [if_neg hg, if_neg hg, handingTo]

/-- A `handleRPC` that moves on, and does not begin to send to a call, sends to none. -/
theorem handingTo_of_setHandler {h : ℕ} {x : Handler} (hh : s.handlers[h]? = some x)
    {pc : HandlerPc} (hpc : pc.target = none) {g i : ℕ}
    (hg : (s.setHandler h x pc).handingTo g = some i) : h ≠ g ∧ s.handingTo g = some i := by
  rw [handingTo_setHandler hh] at hg
  split at hg
  · rw [hpc] at hg
    cases hg
  · next hne => exact ⟨hne, hg⟩

theorem not_open {i : ℕ} {c : Call} (hi : s.calls[i]? = some c) (hc : c.pc.isOpen = false) :
    ¬ s.Open i := by
  rintro ⟨d, hd, hopen⟩
  obtain rfl : c = d := Option.some.inj (hi.symm.trans hd)
  rw [hc] at hopen
  cases hopen

/-- A call that moves on. -/
theorem Open.setCall {i j : ℕ} {c : Call} {pc : CallPc} (hi : s.calls[i]? = some c)
    (hpc : i = j → pc.isOpen = true) (h : s.Open j) : (s.setCall i c pc).Open j := by
  obtain ⟨d, hd, hopen⟩ := h
  by_cases hij : i = j
  · exact ⟨{ c with pc := pc }, (getElem?_set_of_some hi _ j).trans (if_pos hij), hpc hij⟩
  · exact ⟨d, ((getElem?_set_of_some hi _ j).trans (if_neg hij)).trans hd, hopen⟩

/-- A call that returns has left its `select` before. -/
theorem not_open_of_finish {i : ℕ} (h : s.step mem (.finish i) = some s') : ¬ s.Open i := by
  obtain ⟨c, hc, hfinish⟩ := Option.bind_eq_some_iff.1 h
  refine not_open hc ?_
  cases hpc : c.pc with
  | deferred key res => rfl
  | _ => simp [callStep, hpc] at hfinish

theorem awaited_init : init.Awaited := by
  constructor <;> simp [init, handingTo]

namespace Awaited

/-- A step that opens no channel and closes none. -/
theorem mono (h : s.Awaited) (hopen : ∀ i, s.Open i → s'.Open i)
    (hrr : ∀ n key i, (s'.nodes n).rr.load key = some i → (s.nodes n).rr.load key = some i)
    (hto : ∀ g i, s'.handingTo g = some i → s.handingTo g = some i) : s'.Awaited where
  pending n key i hload := hopen i (h.pending n key i (hrr n key i hload))
  handed g i hg := hopen i (h.handed g i (hto g i hg))
  removed g i hg n key hload := h.removed g i (hto g i hg) n key (hrr n key i hload)
  single g g' i hg hg' := h.single g g' i (hto g i hg) (hto g' i hg')

/-- A `handleRPC` that moves on without a channel of a call. -/
theorem setHandler (h : s.Awaited) {g : ℕ} {x : Handler} (hh : s.handlers[g]? = some x)
    {pc : HandlerPc} (hpc : pc.target = none) : (s.setHandler g x pc).Awaited :=
  h.mono (fun _ hi => hi) (fun _ _ _ hload => hload)
    (fun _ _ hto => (handingTo_of_setHandler hh hpc hto).2)

/-- A `handleRPC` takes the channel of a call out of `rr`. -/
theorem load (h : s.Awaited) (hs : Sound s) {g i : ℕ} {x : Handler}
    (hh : s.handlers[g]? = some x)
    (hload : (s.nodes x.job.node).rr.load x.job.r.key = some i) :
    ((s.setRr x.job.node ((s.nodes x.job.node).rr.delete x.job.r.key)).setHandler g x
      (.handing i)).Awaited := by
  let s₁ := s.setRr x.job.node ((s.nodes x.job.node).rr.delete x.job.r.key)
  have hto : ∀ g' i', (s₁.setHandler g x (.handing i)).handingTo g' = some i' →
      g = g' ∧ i = i' ∨ s.handingTo g' = some i' ∧ i ≠ i' := by
    intro g' i' hg'
    rw [handingTo_setHandler (s := s₁) hh] at hg'
    split at hg'
    · next hgg => exact Or.inl ⟨hgg, Option.some.inj hg'⟩
    · refine Or.inr ⟨hg', ?_⟩
      rintro rfl
      exact h.removed g' i hg' _ _ hload
  -- one call has one entry in the maps
  have hgone : ∀ n key, (s₁.nodes n).rr.load key ≠ some i := by
    intro n key hold
    obtain ⟨c, hc, hnode, hkey, _⟩ := hs.pending _ _ _ hload
    obtain ⟨d, hd, hnode', hkey', _⟩ := hs.pending _ _ _ (load_setRr_delete hold)
    obtain rfl : c = d := Option.some.inj (hc.symm.trans hd)
    obtain rfl : x.job.r.key = key := Option.some.inj (hkey.symm.trans hkey')
    obtain rfl : n = x.job.node := hnode'.symm.trans hnode
    simp [s₁] at hold
  refine ⟨fun n key j hj => h.pending n key j (load_setRr_delete hj), ?_, ?_, ?_⟩
  · intro g' i' hg'
    rcases hto g' i' hg' with ⟨_, rfl⟩ | ⟨hold, _⟩
    · exact h.pending _ _ i hload
    · exact h.handed g' i' hold
  · intro g' i' hg' n key hold
    rcases hto g' i' hg' with ⟨_, rfl⟩ | ⟨hbefore, _⟩
    · exact hgone n key hold
    · exact h.removed g' i' hbefore n key (load_setRr_delete hold)
  · intro g₁ g₂ i' h₁ h₂
    rcases hto g₁ i' h₁ with ⟨rfl, rfl⟩ | ⟨hold₁, hne₁⟩
    · rcases hto g₂ i h₂ with ⟨rfl, _⟩ | ⟨_, hne⟩
      · rfl
      · exact absurd rfl hne
    · rcases hto g₂ i' h₂ with ⟨_, rfl⟩ | ⟨hold₂, _⟩
      · exact absurd rfl hne₁
      · exact h.single g₁ g₂ i' hold₁ hold₂

/-- The send goes through: the call has been listening to this `handleRPC` alone. -/
theorem handover (h : s.Awaited) {g i : ℕ} {x : Handler} {c : Call} {pc : CallPc}
    (hh : s.handlers[g]? = some x) (hx : x.pc = .handing i) (hi : s.calls[i]? = some c) :
    ((s.setCall i c pc).setHandler g x .done).Awaited := by
  have hmine : s.handingTo g = some i := by rw [handingTo, hh, Option.bind_some, hx]; rfl
  have hto : ∀ g' i', ((s.setCall i c pc).setHandler g x .done).handingTo g' = some i' →
      g ≠ g' ∧ s.handingTo g' = some i' :=
    fun g' i' => handingTo_of_setHandler (s := s.setCall i c pc) hh rfl
  refine ⟨fun n key j hj => ?_, fun g' j hg' => ?_, fun g' j hg' => ?_, fun g₁ g₂ j h₁ h₂ => ?_⟩
  · refine (h.pending n key j hj).setCall hi (fun hij => ?_)
    exact absurd (hij ▸ hj) (h.removed g i hmine n key)
  · obtain ⟨hne, hold⟩ := hto g' j hg'
    refine (h.handed g' j hold).setCall hi (fun hij => ?_)
    exact absurd (h.single g' g j hold (hij ▸ hmine)) hne
  · exact h.removed g' j (hto g' j hg').2
  · exact h.single g₁ g₂ j (hto g₁ j h₁).2 (hto g₂ j h₂).2

/-- A call stores its channel. -/
theorem draw (h : s.Awaited) {i : ℕ} {c : Call} {key : UInt64} (hi : s.calls[i]? = some c)
    (hpc : c.pc = .draw) :
    ((s.setRr c.node ((s.nodes c.node).rr.store key i)).setCall i c (.write key)).Awaited := by
  have hclosed : ¬ s.Open i := not_open hi (by rw [hpc]; rfl)
  have hopen : ∀ j, s.Open j →
      ((s.setRr c.node ((s.nodes c.node).rr.store key i)).setCall i c (.write key)).Open j :=
    fun j hj => Open.setCall (s := s.setRr _ _) hi (fun _ => rfl) hj
  refine ⟨fun n k j hj => ?_, fun g j hg => hopen j (h.handed g j hg), fun g j hg n k hj => ?_,
    h.single⟩
  · rcases load_setRr_store hj with ⟨_, _, rfl⟩ | hold
    · exact ⟨{ c with pc := .write key },
        (getElem?_set_of_some hi _ j).trans (if_pos rfl), rfl⟩
    · exact hopen j (h.pending n k j hold)
  · rcases load_setRr_store hj with ⟨_, _, rfl⟩ | hold
    · exact hclosed (h.handed g j hg)
    · exact h.removed g j hg n k hold

theorem step (h : s.Awaited) (hs : Sound s) (hok : s.Prompt a) (hstep : Step s a s') :
    s'.Awaited := by
  cases hstep with
  | call node peer b =>
      refine h.mono ?_ (fun _ _ _ hload => hload) (fun _ _ hto => hto)
      rintro i ⟨c, hc, hopen⟩
      exact ⟨c, getElem?_append_of_some hc _, hopen⟩
  | draw hi hpc _ => exact h.draw hi hpc
  | write hi hpc hm =>
      exact h.mono (fun j hj => Open.setCall (s := s.post true _) hi (fun _ => rfl) hj)
        (fun _ _ _ hload => hload) (fun _ _ hto => hto)
  | fail hi hpc ha =>
      rcases ha with rfl | rfl
      · cases hok
      · exact hok.elim
  | @finish _ i c key res hi hpc =>
      have hclosed : ¬ s.Open i := not_open hi (by rw [hpc]; rfl)
      refine h.mono (fun j hj => Open.setCall (s := s.setRr _ _) hi (fun hij => ?_) hj)
        (fun _ _ _ hload => load_setRr_delete hload) (fun _ _ hto => hto)
      exact absurd (hij ▸ hj) hclosed
  | spawn hp ht hr =>
      refine h.mono (fun _ hi => hi) (fun _ _ _ hload => hload) (fun g i hg => ?_)
      rw [handingTo, getElem?_concat] at hg
      split at hg
      · rw [Option.bind_some, Handler.start] at hg
        split at hg <;> cases hg
      · exact hg
  | request hh hpc hsend =>
      exact Awaited.setHandler (s := s.setReq _ _)
        (h.mono (fun _ hi => hi) (fun _ _ _ hload => by simpa using hload) (fun _ _ hto => hto))
        hh rfl
  | quit hh _ => exact h.setHandler hh rfl
  | @respond _ g x w data m mem hh hpc hm =>
      exact Awaited.setHandler (s := s.post true _)
        (h.mono (fun _ hi => hi) (fun _ _ _ hload => hload) (fun _ _ hto => hto)) hh rfl
  | load hh hpc hload => exact h.load hs hh hload
  | handover hh hx hi hc => exact h.handover hh hx hi
  | receive hrecv =>
      exact h.mono (fun _ hi => hi) (fun _ _ _ hload => by simpa using hload) (fun _ _ hto => hto)
  | @take _ w r value got x hw hr hh hpc =>
      have hset := h.setHandler hh (rfl : (HandlerPc.replying w value).target = none)
      exact hset.mono (fun _ hi => hi) (fun _ _ _ hload => hload) (fun _ _ hto => hto)
  | redraw | announce | drop | reply =>
      exact h.mono (fun _ hi => hi) (fun _ _ _ hload => hload) (fun _ _ hto => hto)

end Awaited

/-- The request of the `h`-th `handleRPC` is in the hands of an application, or on its way there. -/
def Asks (s : Network) (h : ℕ) : Prop :=
  (∃ n, ∃ q ∈ (s.nodes n).req.buf, q.reply = h) ∨ ∃ r, s.channelOf r = some h

/-- An answer went through to the `h`-th `handleRPC`. -/
def Heard (s : Network) (h : ℕ) : Prop :=
  ∃ (k : ℕ) (w : Answer), s.answers[k]? = some w ∧ w.taken = true ∧ s.channelOf w.request = some h

/-- A `handleRPC` whose request is out waits for an answer or has got one, and nobody has got two
    answers. -/
structure Answered (s : Network) : Prop where
  asked : ∀ h, s.Asks h → ∃ x, s.handlers[h]? = some x ∧
    (x.pc = .awaiting ∨ x.pc.hasAnswer = true ∧ s.Heard h)
  known : ∀ (k : ℕ) w, s.answers[k]? = some w → w.request < s.received.length
  once : ∀ (k k' : ℕ) w w', s.answers[k]? = some w → s.answers[k']? = some w' →
    s.channelOf w.request = s.channelOf w'.request → k = k'

theorem answered_init : init.Answered := by
  constructor <;> simp [init, Asks, channelOf, Chan.empty]

namespace Answered

/-- What a step does not touch. -/
theorem mono (h : s.Answered) (hasks : ∀ g, s'.Asks g → s.Asks g)
    (hhandlers : ∀ (g : ℕ) x, s.Asks g → s.handlers[g]? = some x →
      x.pc = .awaiting ∨ x.pc.hasAnswer = true →
      ∃ x', s'.handlers[g]? = some x' ∧
        (x'.pc = x.pc ∨ x.pc.hasAnswer = true ∧ x'.pc.hasAnswer = true))
    (hreceived : s'.received = s.received) (hanswers : s'.answers = s.answers) :
    s'.Answered := by
  have hchannel : s'.channelOf = s.channelOf := by
    funext r
    rw [channelOf, hreceived, channelOf]
  refine ⟨fun g hg => ?_, ?_, ?_⟩
  · obtain ⟨x, hx, hpc⟩ := h.asked g (hasks g hg)
    obtain ⟨x', hx', hpc'⟩ := hhandlers g x (hasks g hg) hx (hpc.imp_right And.left)
    have hheard : s.Heard g → s'.Heard g := by
      rw [Heard, Heard, hanswers, hchannel]
      exact id
    refine ⟨x', hx', ?_⟩
    rcases hpc' with hsame | ⟨hold, hnew⟩
    · rw [hsame]
      exact hpc.imp_right (fun hp => ⟨hp.1, hheard hp.2⟩)
    · rcases hpc with hwait | hp
      · rw [hwait] at hold
        cases hold
      · exact Or.inr ⟨hnew, hheard hp.2⟩
  · rw [hanswers, hreceived]
    exact h.known
  · rw [hanswers, hchannel]
    exact h.once

/-- A `handleRPC` that is not in its `select` moves on. -/
theorem setHandler (h : s.Answered) {g : ℕ} {x : Handler} (hh : s.handlers[g]? = some x)
    {pc : HandlerPc} (hwait : x.pc ≠ .awaiting)
    (hpc : x.pc.hasAnswer = true → pc.hasAnswer = true) : (s.setHandler g x pc).Answered := by
  refine h.mono (fun _ hg => hg) (fun g' x' _ hx' hx => ?_) rfl rfl
  by_cases hgg : g = g'
  · subst hgg
    obtain rfl : x = x' := Option.some.inj (hh.symm.trans hx')
    have hold : x.pc.hasAnswer = true := hx.resolve_left hwait
    exact ⟨_, (getElem?_set_of_some hh _ g).trans (if_pos rfl), Or.inr ⟨hold, hpc hold⟩⟩
  · exact ⟨x', ((getElem?_set_of_some hh _ g').trans (if_neg hgg)).trans hx', Or.inl rfl⟩

/-- A `handleRPC` hands its request to the application. -/
theorem request (h : s.Answered) {g : ℕ} {x : Handler} {req : Chan Request 16}
    (hh : s.handlers[g]? = some x)
    (hsend : (s.nodes x.job.node).req.send ⟨x.job.r.data, g⟩ = some req) :
    ((s.setReq x.job.node req).setHandler g x .awaiting).Answered := by
  refine ⟨fun g' hg' => ?_, h.known, h.once⟩
  by_cases hgg : g = g'
  · exact ⟨{ x with pc := .awaiting }, (getElem?_set_of_some hh _ g').trans (if_pos hgg),
      Or.inl rfl⟩
  · have hasks : s.Asks g' := by
      refine hg'.imp_left ?_
      rintro ⟨n, q, hq, hreply⟩
      rcases mem_setReq_send hsend hq with hold | ⟨_, rfl⟩
      · exact ⟨n, q, hold, hreply⟩
      · exact absurd hreply hgg
    obtain ⟨x', hx', hpc⟩ := h.asked g' hasks
    exact ⟨x', ((getElem?_set_of_some hh _ g').trans (if_neg hgg)).trans hx', hpc⟩

/-- The application receives a request. -/
theorem receive (h : s.Answered) {node : UInt64} {q : Request} {req : Chan Request 16}
    (hrecv : (s.nodes node).req.recv = some (q, req)) :
    ({ s.setReq node req with received := s.received ++ [⟨node, q⟩] } : Network).Answered := by
  let s' : Network := { s.setReq node req with received := s.received ++ [⟨node, q⟩] }
  have hchannel : ∀ r, s'.channelOf r =
      if r = s.received.length then some q.reply else s.channelOf r := by
    intro r
    rw [channelOf, getElem?_concat]
    split <;> rfl
  have hold : ∀ {k : ℕ} {w : Answer}, s.answers[k]? = some w →
      s'.channelOf w.request = s.channelOf w.request := by
    intro k w hw
    rw [hchannel, if_neg (h.known k w hw).ne]
  refine ⟨fun g hg => ?_, fun k w hw => ?_, fun k k' w w' hw hw' heq => ?_⟩
  · have hasks : s.Asks g := by
      rcases hg with ⟨n, q', hq', hreply⟩ | ⟨r, hr⟩
      · exact Or.inl ⟨n, q', mem_setReq_recv hrecv hq', hreply⟩
      · rw [hchannel] at hr
        split at hr
        · refine Or.inl ⟨node, q, ?_, Option.some.inj hr⟩
          rw [Chan.recv_eq_some.1 hrecv]
          exact List.mem_cons_self
        · exact Or.inr ⟨r, hr⟩
    obtain ⟨x, hx, hpc⟩ := h.asked g hasks
    refine ⟨x, hx, hpc.imp_right (And.imp_right ?_)⟩
    rintro ⟨k, w, hw, htaken, hch⟩
    exact ⟨k, w, hw, htaken, (hold hw).trans hch⟩
  · exact (h.known k w hw).trans_le (by simp)
  · exact h.once k k' w w' hw hw' ((hold hw).symm.trans (heq.trans (hold hw')))

/-- The application begins to answer, on a channel on which it has not. -/
theorem reply (h : s.Answered) {r : ℕ} {value : List UInt8} {got : Received}
    (hr : s.received[r]? = some got)
    (hok : ∀ w ∈ s.answers, s.channelOf w.request ≠ s.channelOf r) :
    ({ s with answers := s.answers ++ [⟨r, value, false⟩] } : Network).Answered := by
  refine ⟨fun g hg => ?_, ?_, fun k k' w w' hw hw' heq => ?_⟩
  · obtain ⟨x, hx, hpc⟩ := h.asked g hg
    refine ⟨x, hx, hpc.imp_right (And.imp_right ?_)⟩
    rintro ⟨k, w, hw, htaken, hch⟩
    exact ⟨k, w, getElem?_append_of_some hw _, htaken, hch⟩
  · exact forall_getElem?_concat h.known (List.getElem?_eq_some_iff.1 hr).1
  · rw [getElem?_concat] at hw hw'
    split at hw <;> split at hw'
    · next hk hk' => exact hk.trans hk'.symm
    · cases hw
      exact absurd heq.symm (hok w' (List.mem_of_getElem? hw'))
    · cases hw'
      exact absurd heq (hok w (List.mem_of_getElem? hw))
    · exact h.once k k' w w' hw hw' heq

/-- The answer goes through. -/
theorem take (h : s.Answered) {k r : ℕ} {value : List UInt8} {got : Received} {x : Handler}
    (hk : s.answers[k]? = some ⟨r, value, false⟩) (hr : s.received[r]? = some got)
    (hh : s.handlers[got.request.reply]? = some x) :
    ({ s.setHandler got.request.reply x (.replying k value) with
      answers := s.answers.set k ⟨r, value, true⟩ } : Network).Answered := by
  have hchannel : s.channelOf r = some got.request.reply := by rw [channelOf, hr, Option.bind_some]
  have hrequest : ∀ (j : ℕ) w, (s.answers.set k ⟨r, value, true⟩)[j]? = some w →
      ∃ w₀, s.answers[j]? = some w₀ ∧ w₀.request = w.request :=
    forall_getElem?_set (fun j w _ hw => ⟨w, hw, rfl⟩) ⟨_, hk, rfl⟩
  refine ⟨fun g hg => ?_, fun j w hw => ?_, fun j j' w w' hw hw' heq => ?_⟩
  · by_cases hgg : got.request.reply = g
    · refine ⟨{ x with pc := .replying k value },
        (getElem?_set_of_some hh _ g).trans (if_pos hgg), Or.inr ⟨rfl, k, ⟨r, value, true⟩, ?_⟩⟩
      exact ⟨(getElem?_set_of_some hk _ k).trans (if_pos rfl), rfl, hgg ▸ hchannel⟩
    · obtain ⟨x', hx', hpc⟩ := h.asked g hg
      refine ⟨x', ((getElem?_set_of_some hh _ g).trans (if_neg hgg)).trans hx',
        hpc.imp_right (And.imp_right ?_)⟩
      rintro ⟨j, w, hw, htaken, hch⟩
      have hne : k ≠ j := by
        rintro rfl
        obtain rfl := Option.some.inj (hk.symm.trans hw)
        cases htaken
      exact ⟨j, w, ((getElem?_set_of_some hk _ j).trans (if_neg hne)).trans hw, htaken, hch⟩
  · obtain ⟨w₀, hw₀, hsame⟩ := hrequest j w hw
    exact hsame ▸ h.known j w₀ hw₀
  · obtain ⟨w₀, hw₀, hsame⟩ := hrequest j w hw
    obtain ⟨w₀', hw₀', hsame'⟩ := hrequest j' w' hw'
    refine h.once j j' w₀ w₀' hw₀ hw₀' ?_
    rw [hsame, hsame']
    exact heq

theorem step (h : s.Answered) (hok : s.Prompt a) (hstep : Step s a s') : s'.Answered := by
  -- a step that has nothing to do with requests
  have hframe : ∀ {t : Network}, (∀ n, (t.nodes n).req = (s.nodes n).req) →
      t.handlers = s.handlers → t.received = s.received → t.answers = s.answers →
      t.Answered := by
    intro t hreq hhandlers hreceived hanswers
    refine h.mono (fun g hg => ?_) (fun g x _ hx _ => ⟨x, hhandlers ▸ hx, Or.inl rfl⟩) hreceived
      hanswers
    simpa only [Asks, hreq, channelOf, hreceived] using hg
  cases hstep with
  | draw | finish => exact hframe (fun n => by simp) rfl rfl rfl
  | fail hi hpc ha =>
      rcases ha with rfl | rfl
      · cases hok
      · exact hok.elim
  | spawn hp ht hr =>
      exact h.mono (fun _ hg => hg)
        (fun g x _ hx _ => ⟨x, getElem?_append_of_some hx _, Or.inl rfl⟩) rfl rfl
  | request hh hpc hsend => exact h.request hh hsend
  | quit hh hpc =>
      rcases hpc with ⟨_, rfl⟩ | ⟨w, data, hpc⟩ | hpc
      · exact hok.elim
      · exact h.setHandler hh (by simp [hpc]) (fun _ => rfl)
      · exact h.setHandler hh (by simp [hpc]) (fun _ => rfl)
  | respond hh hpc hm =>
      exact Answered.setHandler (s := s.post true _) (hframe (fun _ => rfl) rfl rfl rfl) hh
        (by simp [hpc]) (fun _ => rfl)
  | load hh hpc hload =>
      exact Answered.setHandler (s := s.setRr _ _) (hframe (fun n => by simp) rfl rfl rfl) hh
        (by simp [hpc]) (by simp [hpc, HandlerPc.hasAnswer])
  | handover hh hx hi hc =>
      exact Answered.setHandler (s := s.setCall _ _ _) (hframe (fun _ => rfl) rfl rfl rfl) hh
        (by simp [hx]) (fun _ => rfl)
  | receive hrecv => exact h.receive hrecv
  | reply hr => exact h.reply hr hok
  | take hw hr hh hpc => exact h.take hw hr hh
  | call | redraw | write | announce | drop => exact hframe (fun _ => rfl) rfl rfl rfl

/-- Whoever is being answered waits for it: there is no other answer. -/
theorem awaiting (h : s.Answered) {g : ℕ} (hg : s.answered g = true) :
    ∃ x, s.handlers[g]? = some x ∧ x.pc = .awaiting := by
  obtain ⟨k, r, hwaits, hchannel⟩ := answered_iff.1 hg
  obtain ⟨x, hx, hpc⟩ := h.asked g (Or.inr ⟨r, hchannel⟩)
  refine ⟨x, hx, hpc.resolve_right ?_⟩
  rintro ⟨_, k', w', hw', htaken, hch'⟩
  obtain ⟨w, hw, htarget⟩ := Option.bind_eq_some_iff.1 hwaits
  unfold Answer.target at htarget
  split at htarget
  · cases htarget
  · next hfree =>
      cases htarget
      obtain rfl := h.once k k' w w' hw hw' (hchannel.trans hch'.symm)
      obtain rfl := Option.some.inj (hw.symm.trans hw')
      exact hfree htaken

end Answered

/-- Whoever returns does so after its timeout, or is not in its `select`. -/
theorem not_awaiting_of_returns (h : s.step mem a = some s') {g : ℕ}
    (hg : (s.outcome a).returns = some g) (hok : s.Prompt a) {x : Handler}
    (hx : s.handlers[g]? = some x) : x.pc ≠ .awaiting := by
  intro hpc
  cases a with
  | expire => exact hok
  | respond j | handover j =>
      obtain rfl : j = g := Option.some.inj hg
      simp [Network.step, hx, handlerStep, hpc] at h
  | load j =>
      simp only [outcome, Option.ite_none_right_eq_some, Option.some.injEq] at hg
      obtain rfl := hg.2
      simp [Network.step, hx, handlerStep, hpc] at h
  | _ => cases hg

theorem Prompt.inTime (hok : s.Prompt a) (hawaited : s.Awaited) (hanswered : s.Answered)
    (h : s.step mem a = some s') : s.InTime a := by
  refine ⟨fun i hi => ?_, fun g hg => ?_, fun r hr g hg => ?_⟩
  · rw [← Bool.not_eq_true]
    intro hreplied
    obtain ⟨g, hto⟩ := replied_iff.1 hreplied
    have hopen := hawaited.handed g i hto
    cases a with
    | finish j =>
        obtain rfl : j = i := Option.some.inj hi
        exact not_open_of_finish h hopen
    | _ => cases hi
  · rw [← Bool.not_eq_true]
    intro hans
    obtain ⟨x, hx, hpc⟩ := hanswered.awaiting hans
    exact not_awaiting_of_returns h hg hok hx hpc
  · rw [← Bool.not_eq_true]
    intro hover
    cases a with
    | reply q value =>
        obtain rfl : q = r := Option.some.inj hr
        obtain ⟨x, hx, hpc⟩ := hanswered.asked g (Or.inr ⟨q, hg⟩)
        rw [isOver, hx, Option.any_some] at hover
        rcases hpc with hpc | ⟨_, k, w, hw, _, hch⟩
        · rw [hpc] at hover
          cases hover
        · exact hok w (List.mem_of_getElem? hw) (hch.trans hg.symm)
    | _ => cases hr

theorem not_stuck_init : ¬ init.Stuck := by
  simp [Stuck, Orphan, Unheard, init, handingTo, waitsOn]

/-- Nobody is ever blocked while the callers see to it. -/
theorem not_stuck_of_prompt {tr : List (Network × Action)} {t : Network}
    (hrun : (machine mem).Run init tr t) (hok : Machine.Meets Prompt tr) :
    ∀ u ∈ Machine.visited tr t, ¬ u.Stuck := by
  intro u hu
  have hall := hrun.invariant_visited (I := fun s => Sound s ∧ s.Awaited ∧ s.Answered ∧ ¬ s.Stuck)
    hok ⟨sound_init, awaited_init, answered_init, not_stuck_init⟩ ?_ u hu
  · exact hall.2.2.2
  · rintro s a s' ⟨hs, hawaited, hanswered, hstuck⟩ hprompt h
    have hrule := step_rule h
    exact ⟨hs.step h, hawaited.step hs hprompt hrule, hanswered.step hprompt hrule,
      (step_stuck_iff hs hstuck h).2 (hprompt.inTime hawaited hanswered h)⟩

/-- **When RPC timeouts leave nobody blocked.** In no state of a run is a `handleRPC` sending to a
    call that has returned, or an application to a `handleRPC` that has, exactly if in the run no
    call and no `handleRPC` returns while something is being sent to it, and no answer is begun to a
    `handleRPC` that has returned. It is enough that no timer runs out, no `write` fails, and
    applications send one answer at most on each `Reply`. Whoever is blocked remains so, whatever
    happens next. -/
theorem no_rpc_blocked_iff {tr : List (Network × Action)} {t : Network}
    (hrun : (machine mem).Run init tr t) :
    ((∀ u ∈ Machine.visited tr t, ¬ u.Stuck) ↔ Machine.Meets InTime tr) ∧
    (Machine.Meets Prompt tr → ∀ u ∈ Machine.visited tr t, ¬ u.Stuck) ∧
    ∀ tr' u, (machine mem).Run t tr' u →
      (∀ h, t.Orphan h → u.Orphan h) ∧ ∀ k, t.Unheard k → u.Unheard k := by
  have hsound : Sound t := hrun.preserves sound_init (fun s a s' hs h => hs.step h)
  refine ⟨?_, not_stuck_of_prompt hrun, ?_⟩
  · exact hrun.avoids_iff_of_invariant sound_init (fun s a s' hs h => hs.step h) not_stuck_init
      (fun s a s' hs hstuck h => step_stuck_iff hs hstuck h)
  · intro tr' u hrun'
    constructor
    · intro g ho
      exact hrun'.preserves (I := fun u => u.Orphan g) ho (fun s a s' hs h => hs.step h)
    · intro k hk
      have hstays := hrun'.preserves (I := fun u => Sound u ∧ u.Unheard k) ⟨hsound, hk⟩
        (fun s a s' hs h => ⟨hs.1.step h, hs.2.step hs.1 h⟩)
      exact hstays.2

/-- A call that is answered in time. -/
def answeredCall : List Action :=
  [.call 1 2 [10], .draw 0 7, .write 0 true, .deliver 0, .request 0, .receive 2, .reply 0 [11],
    .take 0, .respond 0 true, .deliver 0, .load 1, .handover 1, .finish 0]

theorem no_rpc_blocked_iff_answered :
    ∃ t, (machine heaps).Run init ((machine heaps).trace init answeredCall) t ∧
      (t.callReturned 0 = true ∧ Machine.Meets Prompt ((machine heaps).trace init answeredCall)) ∧
      ∀ u ∈ Machine.visited ((machine heaps).trace init answeredCall) t, ¬ u.Stuck := by
  obtain ⟨t, hrun, hreturned⟩ := (machine heaps).run_of_exec_any init answeredCall
    (P := fun t => t.callReturned 0 = true) (by decide +kernel)
  have hprompt : Machine.Meets Prompt ((machine heaps).trace init answeredCall) := by
    unfold Machine.Meets
    decide +kernel
  exact ⟨t, hrun, ⟨hreturned, hprompt⟩, (no_rpc_blocked_iff hrun).2.1 hprompt⟩

/-- The call times out while the reply to it is between the `LoadAndDelete` and the send: the
    `handleRPC` of the reply is blocked. -/
def lateTimeout : List Action :=
  [.call 1 2 [10], .draw 0 7, .write 0 true, .deliver 0, .request 0, .receive 2, .reply 0 [11],
    .take 0, .respond 0 true, .deliver 0, .load 1, .timeout 0, .finish 0]

/-- The application answers after the timeout of the `handleRPC`, and is blocked. -/
def lateAnswer : List Action :=
  [.call 1 2 [10], .draw 0 7, .write 0 true, .deliver 0, .request 0, .receive 2, .expire 0,
    .reply 0 [11]]

theorem rpc_blocked :
    (∃ s, (machine heaps).Reachable s ∧ s.Orphan 1) ∧
      ∃ s, (machine heaps).Reachable s ∧ s.Unheard 0 := by
  constructor
  · obtain ⟨s, hs, hto⟩ := (machine heaps).reachable_of_exec_any rfl lateTimeout
      (P := fun s => s.handingTo 1 = some 0 ∧ s.callReturned 0 = true) (by decide +kernel)
    exact ⟨s, hs, 0, hto⟩
  · obtain ⟨s, hs, hover⟩ := (machine heaps).reachable_of_exec_any rfl lateAnswer
      (P := fun s => s.waitsOn 0 = some 0 ∧ s.channelOf 0 = some 0 ∧ s.isOver 0 = true)
      (by decide +kernel)
    exact ⟨s, hs, 0, 0, hover⟩

end Network

end Tunnel.Messaging
