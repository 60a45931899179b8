import Mathlib.Data.List.Nodup
import Tunnel.Mux.Teardown

set_option autoImplicit false

/-! # What becomes of a stream (`mux/yamux.go`, `mux/mplex.go`, `mux/quic.go`)

A stream that the other side opened waits to be accepted, is being greeted, was dropped by its
handshake, was refused by `Null`, or was handed to `Put`: it is at exactly one of these places
(`places_eq`). With what is known of the channel, the consumer of `Handle` gets no stream twice and
none that was not opened, and while nobody hangs up it gets every one whose link arrives.

Over a session that is only ever given to `Null`, as those of the clients are, nothing reaches
`Handle`, and a client that opens a stream loses its session. -/

namespace Tunnel.Mux.MuxPeer

open Tunnel.Lib Tunnel.Multiplexer

variable {s s' : MuxPeer}

/-- In how many places the stream `x` is. -/
def places (s : MuxPeer) (x : ℕ) : ℕ :=
  s.backlog.count x + s.greetings.countP (fun g => g.reading && decide (g.stream = x)) +
    s.dropped.count x + s.refused.count x + s.channel.puts.countP (fun p => decide (p.value = x))

/-- What the step of a channel does to the places. -/
theorem OwnStep.countP_puts {c : Channel ℕ} (h : OwnStep s c) (x : ℕ) :
    c.puts.countP (fun p => decide (p.value = x))
      = s.channel.puts.countP (fun p => decide (p.value = x)) := by
  have hvalues : ∀ l : List (PutCall ℕ), l.countP (fun p => decide (p.value = x))
      = (l.map PutCall.value).countP (fun y => decide (y = x)) := by
    intro l
    rw [List.countP_map]
    rfl
  rw [hvalues, hvalues, h.values]

/-- The handshake of the stream `g.stream` ends. -/
theorem countP_greetings_set {i : ℕ} {g : Greeting} (hi : s.greetings[i]? = some g)
    (hg : g.reading = true) (x : ℕ) :
    (s.greetings.set i { g with reading := false }).countP
        (fun g => g.reading && decide (g.stream = x)) + [g.stream].count x
      = s.greetings.countP (fun g => g.reading && decide (g.stream = x)) := by
  have hcount := countP_set_add (fun g : Greeting => g.reading && decide (g.stream = x)) hi
    { g with reading := false }
  simp only [hg, Bool.true_and, Bool.false_and, Bool.toNat_false, Nat.add_zero] at hcount
  rw [← hcount, List.count_singleton]
  by_cases hx : g.stream = x
  · simp [hx]
  · simp [hx]

theorem Step.places_eq (h : Step s s') (hl : Channel.Ledger s.channel) {x : ℕ}
    (hs : s.places x = if x < s.opened then 1 else 0) :
    s'.places x = if x < s'.opened then 1 else 0 := by
  cases h with
  | begin null hc =>
      obtain rfl := Channel.step_run hc
      exact hs
  | bye hc =>
      obtain rfl := Channel.step_close hc
      exact hs
  | stream hended =>
      simp only [places, List.count_append, List.count_singleton] at hs ⊢
      by_cases hx : s.opened = x
      · subst hx
        simp only [Nat.lt_irrefl, if_false] at hs
        simp only [beq_self_eq_true, if_true, Nat.lt_succ_self]
        omega
      · have hlt : x < s.opened + 1 ↔ x < s.opened := by omega
        simp only [hlt, beq_iff_eq, hx, if_false]
        omega
  | take hi ha hnull hx =>
      simp only [places, hx, List.count_cons, List.countP_append, List.countP_singleton] at hs ⊢
      simp only [Bool.true_and, decide_eq_true_eq, beq_iff_eq] at hs ⊢
      omega
  | refuse hi ha hnull hx hc =>
      obtain rfl := Channel.step_close hc
      simp only [places, hx, List.count_cons, List.count_append, List.count_nil] at hs ⊢
      rw [← hs]
      omega
  | hangUp hi ha hnull hfails hc =>
      obtain rfl := Channel.step_close hc
      exact hs
  | @greet i g c hi hg hc =>
      obtain rfl := Channel.step_put hc
      have hcount := countP_greetings_set hi hg x
      simp only [places, List.countP_append, List.countP_singleton] at hs ⊢
      rw [List.count_singleton] at hcount
      simp only [decide_eq_true_eq, beq_iff_eq] at hcount ⊢
      omega
  | drop hi hg =>
      have hcount := countP_greetings_set hi hg x
      simp only [places, List.count_append] at hs ⊢
      omega
  | closeStep hk hc =>
      simpa only [places, (Channel.step_closeStep hc).2.1] using hs
  | channel ha hc =>
      have hown := channel_own hl ha hc
      simpa only [places, hown.countP_puts] using hs
  | cancel | fail | announce | accept | acceptSwap | acceptClose | acceptTwice | byeMove
    | closeSession | byeSwap | byeClose | byeTwice => exact hs

/-- Each refused stream led to a `Bye`. -/
theorem Step.refused_le (h : Step s s') (hs : s.refused.length ≤ s.byes.length) :
    s'.refused.length ≤ s'.byes.length := by
  cases h with
  | bye | hangUp => exact Nat.le_trans hs (by simp)
  | refuse => simpa using hs
  | byeMove | closeSession | byeSwap | byeClose => simpa using hs
  | begin | cancel | stream | fail | announce | accept | take | acceptSwap | acceptClose
    | acceptTwice | greet | drop | closeStep | byeTwice | channel => exact hs

/-- The streams are each at one place. -/
structure Streams (s : MuxPeer) : Prop where
  sound : Sound s
  places_eq : ∀ x, s.places x = if x < s.opened then 1 else 0
  refused_le : s.refused.length ≤ s.byes.length

theorem streams_init (impl : Impl) : Streams (init impl) where
  sound := sound_init impl
  places_eq x := by simp [places, init, Channel.init]
  refused_le := Nat.le_refl 0

theorem Step.streams (h : Step s s') (hs : Streams s) : Streams s' where
  sound := h.sound hs.sound
  places_eq x := h.places_eq hs.sound.ledger (hs.places_eq x)
  refused_le := h.refused_le hs.refused_le

theorem streams_of_reachable {impl : Impl} (h : (machine impl).Reachable s) : Streams s := by
  refine Machine.Reachable.invariant h ?_ ?_
  · rintro s rfl
    exact streams_init impl
  · intro s a s' hs hstep
    exact (step_rule hstep).streams hs

namespace Streams

variable {x : ℕ}

theorem places_le_one (hs : Streams s) (x : ℕ) : s.places x ≤ 1 := by
  rw [hs.places_eq x]
  split <;> omega

/-- A stream that was handed to `Put` was opened, and is nowhere else. -/
theorem of_put (hs : Streams s) (hx : 0 < s.channel.puts.countP (fun p => decide (p.value = x))) :
    x < s.opened ∧ x ∉ s.backlog ∧ x ∉ s.dropped ∧ x ∉ s.refused ∧
      (⟨x, true⟩ : Greeting) ∉ s.greetings := by
  have hle := hs.places_le_one x
  unfold places at hle
  refine ⟨?_, ?_, ?_, ?_, ?_⟩
  · by_contra hlt
    have hzero := hs.places_eq x
    rw [if_neg hlt, places] at hzero
    omega
  · intro hmem
    have hpos := List.count_pos_iff.2 hmem
    omega
  · intro hmem
    have hpos := List.count_pos_iff.2 hmem
    omega
  · intro hmem
    have hpos := List.count_pos_iff.2 hmem
    omega
  · intro hmem
    have hpos : 0 < s.greetings.countP (fun g => g.reading && decide (g.stream = x)) :=
      List.countP_pos_iff.2 ⟨_, hmem, by simp⟩
    omega

/-- No stream is handed to `Put` twice. -/
theorem put_unique (hs : Streams s) {i j : ℕ} {p q : PutCall ℕ} (hi : s.channel.puts[i]? = some p)
    (hj : s.channel.puts[j]? = some q) (hvalue : p.value = q.value) : i = j := by
  have hone : (s.channel.puts.map PutCall.value).count p.value ≤ 1 := by
    have hle := hs.places_le_one p.value
    unfold places at hle
    rw [List.count_eq_countP, List.countP_map]
    have heq : ((fun y => y == p.value) ∘ PutCall.value : PutCall ℕ → Bool)
        = fun p' => decide (p'.value = p.value) := by
      funext p'
      exact Bool.beq_eq_decide_eq _ _
    rw [heq]
    omega
  refine eq_of_count_le_one hone ?_ ?_
  · rw [List.getElem?_map, hi]
    rfl
  · rw [List.getElem?_map, hj, hvalue]
    rfl

/-- The values taken from `Put` are different streams. -/
theorem handed_nodup (hs : Streams s) : (s.channel.handed.map Prod.snd).Nodup := by
  refine List.Nodup.map_on ?_ (List.Nodup.of_map _ hs.sound.delivery.once)
  intro p hp q hq hpq
  obtain ⟨i, x⟩ := p
  obtain ⟨j, y⟩ := q
  obtain rfl : x = y := hpq
  have hi := (hs.sound.delivery.completed i x).1 hp
  have hj := (hs.sound.delivery.completed j x).1 hq
  rw [hs.put_unique hi hj rfl]

theorem received_begins_handed (hs : Streams s) :
    s.channel.received <+: s.channel.handed.map Prod.snd := by
  rw [← hs.sound.delivery.order, List.append_assoc]
  exact List.prefix_append _ _

theorem refused_eq_nil (hs : Streams s) (hbyes : s.byes = []) : s.refused = [] := by
  have hle := hs.refused_le
  rw [hbyes, List.length_nil, Nat.le_zero] at hle
  exact List.length_eq_zero_iff.1 hle

/-- A stream that was taken from a `Put` is that of a call. -/
theorem put_of_handed (hs : Streams s) (hx : x ∈ s.channel.handed.map Prod.snd) :
    0 < s.channel.puts.countP (fun p => decide (p.value = x)) := by
  obtain ⟨⟨i, y⟩, hmem, rfl⟩ := List.mem_map.1 hx
  have hi := (hs.sound.delivery.completed i y).1 hmem
  exact List.countP_pos_iff.2 ⟨_, List.mem_of_getElem? hi, by simp⟩

/-- While nobody hung up, the channel is open. -/
theorem closer_open (hs : Streams s) (hbyes : s.byes = []) : s.channel.closerClosed = false := by
  have hcloses : s.channel.closes = [] := by
    have hpaired := hs.sound.paired
    rw [hbyes, List.length_nil] at hpaired
    exact List.length_eq_zero_iff.1 hpaired.symm
  have hwinners := hs.sound.ledger.winners
  rw [hcloses] at hwinners
  exact Bool.toNat_eq_zero.1 hwinners.symm

/-- While nobody hung up and the context is not cancelled, no loop stops. -/
theorem not_stopped (hs : Streams s) (hdone : s.done = false) (hbyes : s.byes = [])
    {r : RunCall ℕ} (hr : r ∈ s.channel.runs) : r.stopped = false := by
  by_contra hstopped
  rw [Bool.not_eq_false] at hstopped
  have hfits := hs.sound.runs r hr
  rcases hfits.stopped hstopped with hcancelled | hcloser
  · have hd := hfits.cancelled hcancelled
    rw [hdone] at hd
    cases hd
  · rw [hs.closer_open hbyes] at hcloser
    cases hcloser

/-- Then at rest one loop is in its `select`. -/
theorem select_of_rest (hs : Streams s) (hrest : s.AtRest) (hdone : s.done = false)
    (hbyes : s.byes = []) (hne : s.channel.runs ≠ []) :
    ∃ (j : ℕ) (b : Bool), s.channel.runs[j]? = some ⟨b, .select⟩ := by
  -- one that waits is in its `select`, and if there is none, all were refused
  have hcases : ∀ (j : ℕ) (r : RunCall ℕ), s.channel.runs[j]? = some r →
      r.pc = .refused ∨ r.pc = .select := by
    intro j r hj
    rcases run_waits hs.sound hrest hj with hpc | hpc | ⟨hpc, _⟩
    · have hstopped := hs.not_stopped hdone hbyes (List.mem_of_getElem? hj)
      simp [RunCall.stopped, hpc] at hstopped
    · exact Or.inl hpc
    · exact Or.inr hpc
  have hstarted : s.channel.started = true := by
    obtain ⟨r, hr⟩ := List.exists_mem_of_ne_nil _ hne
    obtain ⟨j, hj⟩ := List.getElem?_of_mem hr
    rcases hcases j r hj with hpc | hpc
    · exact (hs.sound.runs r hr).refused hpc
    · have hpos : 0 < s.channel.runs.countP RunCall.entered :=
        List.countP_pos_iff.2 ⟨r, hr, by simp [RunCall.entered, hpc]⟩
      rw [hs.sound.ledger.entered] at hpos
      exact Bool.toNat_eq_one.1 (by have := Bool.toNat_le s.channel.started; omega)
  have hpos : 0 < s.channel.runs.countP RunCall.entered := by
    rw [hs.sound.ledger.entered, hstarted]
    decide
  obtain ⟨r, hr, hentered⟩ := List.countP_pos_iff.1 hpos
  obtain ⟨j, hj⟩ := List.getElem?_of_mem hr
  rcases hcases j r hj with hpc | hpc
  · simp [RunCall.entered, hpc] at hentered
  · obtain ⟨b, pc⟩ := r
    obtain rfl : pc = .select := hpc
    exact ⟨j, b, hj⟩

/-- Then at rest every `Put` has been served, and its stream received. -/
theorem received_of_rest (hs : Streams s) (hrest : s.AtRest) (hdone : s.done = false)
    (hbyes : s.byes = []) (hne : s.channel.runs ≠ [])
    (hx : 0 < s.channel.puts.countP (fun p => decide (p.value = x))) :
    x ∈ s.channel.received := by
  obtain ⟨p, hp, hvalue⟩ := List.countP_pos_iff.1 hx
  obtain ⟨i, hi⟩ := List.getElem?_of_mem hp
  obtain ⟨y, returned⟩ := p
  obtain rfl : y = x := of_decide_eq_true hvalue
  obtain ⟨j, b, hj⟩ := hs.select_of_rest hrest hdone hbyes hne
  have hreturned : returned = true := by
    by_contra hwaits
    rw [Bool.not_eq_true] at hwaits
    subst hwaits
    refine hrest.not_mem_moves ?_ (handover_mem_moves hi hj)
    simp [step, hs.sound.timeouts.calm, ownChannel, Channel.step, hs.sound.ledger.calm, hi, hj]
  subst hreturned
  have hhanded := (hs.sound.delivery.completed i y).2 hi
  have horder := hs.sound.delivery.order
  have hhand : s.channel.runs.filterMap RunCall.inHand = [] :=
    hs.sound.ledger.inHand_eq hj rfl
  rw [buffer_empty hs.sound hrest, hhand, List.append_nil, List.append_nil] at horder
  rw [horder]
  exact List.mem_map.2 ⟨_, hhanded, rfl⟩

/-- While nobody hung up and the context is not cancelled, a `Start` accepts all there is. -/
theorem backlog_of_rest (hs : Streams s) (hrest : s.AtRest) (hdone : s.done = false)
    (hbyes : s.byes = []) {a : Acceptor} (ha : a ∈ s.accepts) (hnull : a.null = false) :
    s.backlog = [] := by
  obtain ⟨i, hi⟩ := List.getElem?_of_mem ha
  rcases accept_waits hs.sound hrest hi with hpc | ⟨_, _, hback⟩
  · have hfits := hs.sound.accepts a ha
    rw [AcceptFits, hpc, hdone, hbyes, hnull] at hfits
    simp at hfits
  · exact hback

end Streams

/-- **`Handle` gives each stream once.** Whatever happens, the streams that the consumer got are
    different ones, each was opened by the other side, and none of them was dropped or refused or is
    still on its way. When all has come to rest, nobody has said `Bye`, the context is not cancelled
    and there is a `Start`, every stream that was opened has been received, except those whose
    handshake failed or still waits for the link. -/
theorem handle_delivers_once {impl : Impl} (hreach : (machine impl).Reachable s) :
    s.channel.received.Nodup ∧
    (∀ x ∈ s.channel.received, x < s.opened ∧ x ∉ s.backlog ∧ x ∉ s.dropped ∧ x ∉ s.refused ∧
      (⟨x, true⟩ : Greeting) ∉ s.greetings) ∧
    (s.AtRest → s.byes = [] → s.done = false → (∃ a ∈ s.accepts, a.null = false) →
      ∀ x < s.opened, x ∈ s.channel.received ∨ x ∈ s.dropped ∨
        (⟨x, true⟩ : Greeting) ∈ s.greetings) := by
  have hs := streams_of_reachable hreach
  have hbegins := hs.received_begins_handed
  refine ⟨hs.handed_nodup.sublist hbegins.sublist, ?_, ?_⟩
  · intro x hx
    exact hs.of_put (hs.put_of_handed (hbegins.subset hx))
  · intro hrest hbyes hdone hstart x hx
    obtain ⟨a, ha, hnull⟩ := hstart
    have hback := hs.backlog_of_rest hrest hdone hbyes ha hnull
    have hrefused := hs.refused_eq_nil hbyes
    have hne : s.channel.runs ≠ [] := by
      intro hnil
      have hloops := hs.sound.loops
      rw [hnil, List.length_nil, List.length_eq_zero_iff] at hloops
      rw [hloops] at ha
      cases ha
    have hone := hs.places_eq x
    rw [if_pos hx, places, hback, hrefused, List.count_nil] at hone
    by_cases hput : 0 < s.channel.puts.countP (fun p => decide (p.value = x))
    · exact Or.inl (hs.received_of_rest hrest hdone hbyes hne hput)
    by_cases hdropped : 0 < s.dropped.count x
    · exact Or.inr (Or.inl (List.count_pos_iff.1 hdropped))
    · have hreading : 0 < s.greetings.countP (fun g => g.reading && decide (g.stream = x)) := by
        omega
      obtain ⟨g, hg, hgx⟩ := List.countP_pos_iff.1 hreading
      rw [Bool.and_eq_true, decide_eq_true_eq] at hgx
      obtain ⟨y, reading⟩ := g
      obtain ⟨hreads, hy⟩ := hgx
      simp only at hreads hy
      subst hreads hy
      exact Or.inr (Or.inr hg)

/-- Two streams are opened, and only the link of the second has arrived. -/
theorem handle_delivers_once_two : ∃ s : MuxPeer, (machine .mplex).Reachable s ∧ s.AtRest ∧
    s.opened = 2 ∧ s.channel.received.Nodup ∧
    ∀ x < 2, x ∈ s.channel.received ∨ x ∈ s.dropped ∨
      (⟨x, true⟩ : Greeting) ∈ s.greetings := by
  obtain ⟨s, hreach, hrest, hopened, hbyes, hdone, hstart⟩ :=
    (machine .mplex).reachable_of_exec_any rfl
      [.start, .accept 0, .stream, .stream, .accept 0, .accept 0, .accept 0, .accept 0,
        .channel (.runStep 0), .greet 1 true, .channel (.handover 0 0), .channel (.runStep 0),
        .channel .receive]
      (P := fun s => s.AtRest ∧ s.opened = 2 ∧ s.byes = [] ∧ s.done = false ∧
        ∃ a ∈ s.accepts, a.null = false) (by decide)
  obtain ⟨hnodup, _, hall⟩ := handle_delivers_once hreach
  have hplaces := hall hrest hbyes hdone hstart
  rw [hopened] at hplaces
  exact ⟨s, hreach, hrest, hopened, hnodup, hplaces⟩

/-! ## Clients -/

/-- Streams are greeted only where there is a `Start`. -/
def Greeted (s : MuxPeer) : Prop :=
  (∃ a ∈ s.accepts, a.null = false) ∨
    s.greetings = [] ∧ s.dropped = [] ∧ s.channel.puts = []

theorem Step.greeted (h : Step s s') (hl : Channel.Ledger s.channel) (hs : s.Greeted) :
    s'.Greeted := by
  -- a call that moves stays what it is
  have hset : ∀ {i : ℕ} {a : Acceptor} {pc : AcceptPc}, s.accepts[i]? = some a →
      s'.accepts = s.setAccept i a pc → s'.greetings = s.greetings → s'.dropped = s.dropped →
      s'.channel.puts = s.channel.puts → s'.Greeted := by
    intro i a pc hi haccepts hgreetings hdropped hputs
    rw [Greeted, haccepts, hgreetings, hdropped, hputs]
    exact hs.imp (fun hstart => exists_mem_set hi hstart id) id
  -- a handshake that ends has been begun
  have hgreets : ∀ {i : ℕ} {g : Greeting}, s.greetings[i]? = some g →
      s'.accepts = s.accepts → s'.Greeted := by
    intro i g hi haccepts
    rw [Greeted, haccepts]
    refine Or.inl (hs.resolve_right ?_)
    intro hnone
    rw [hnone.1] at hi
    cases hi
  cases h with
  | begin null hc =>
      obtain rfl := Channel.step_run hc
      refine hs.imp ?_ id
      intro hstart
      obtain ⟨a, ha, hnull⟩ := hstart
      exact ⟨a, List.mem_append_left _ ha, hnull⟩
  | bye hc =>
      obtain rfl := Channel.step_close hc
      exact hs
  | accept hi hmove => exact hset hi rfl rfl rfl rfl
  | @take i x a rest hi ha hnull hx =>
      exact Or.inl ⟨_, mem_set_self hi _, hnull⟩
  | refuse hi ha hnull hx hc =>
      obtain rfl := Channel.step_close hc
      exact hset hi rfl rfl rfl rfl
  | hangUp hi ha hnull hfails hc =>
      obtain rfl := Channel.step_close hc
      exact hset hi rfl rfl rfl rfl
  | acceptSwap hi ha hflag => exact hset hi rfl rfl rfl rfl
  | acceptClose hi ha hopen => exact hset hi rfl rfl rfl rfl
  | greet hi hg hc => exact hgreets hi rfl
  | drop hi hg => exact hgreets hi rfl
  | closeStep hk hc =>
      rw [Greeted, (Channel.step_closeStep hc).2.1]
      exact hs
  | channel ha hc =>
      have hvalues := (channel_own hl ha hc).values
      refine hs.imp id (fun hnone => ⟨hnone.1, hnone.2.1, ?_⟩)
      rw [hnone.2.2, List.map_nil] at hvalues
      exact List.map_eq_nil_iff.1 hvalues
  | cancel | stream | fail | announce | acceptTwice | byeMove | closeSession | byeSwap | byeClose
    | byeTwice => exact hs

theorem greeted_of_reachable {impl : Impl} (h : (machine impl).Reachable s) : s.Greeted := by
  have hboth : Sound s ∧ s.Greeted := by
    refine Machine.Reachable.invariant (I := fun s => Sound s ∧ s.Greeted) h ?_ ?_
    · rintro s rfl
      exact ⟨sound_init impl, Or.inr ⟨rfl, rfl, rfl⟩⟩
    · intro s a s' hs hstep
      have hrule := step_rule hstep
      exact ⟨hrule.sound hs.1, hrule.greeted hs.1.ledger hs.2⟩
  exact hboth.2

/-- **`Null` hangs up on whoever opens a stream.** Over a session on which `Null` is called and
    never `Start`, as on that of a client, nothing is handed to `Put` and nothing comes out of
    `Handle`. If the other side has opened a stream, then, unless the context is cancelled, the
    session is over and `NotifyClose` says so when all has come to rest. -/
theorem null_hangs_up {impl : Impl} (hreach : (machine impl).Reachable s)
    (hnull : ∀ a ∈ s.accepts, a.null = true) :
    s.channel.puts = [] ∧ s.channel.received = [] ∧
    (s.AtRest → s.done = false → s.accepts ≠ [] → 0 < s.opened →
      s.ended = true ∧ s.notifyClosed = true) := by
  have hs := streams_of_reachable hreach
  obtain ⟨hgreetings, hdropped, hputs⟩ :
      s.greetings = [] ∧ s.dropped = [] ∧ s.channel.puts = [] := by
    refine (greeted_of_reachable hreach).resolve_left ?_
    intro hstart
    obtain ⟨a, ha, hfalse⟩ := hstart
    rw [hnull a ha] at hfalse
    cases hfalse
  refine ⟨hputs, ?_, ?_⟩
  · refine List.eq_nil_iff_forall_not_mem.2 fun x hx => ?_
    have hput := hs.put_of_handed (hs.received_begins_handed.subset hx)
    rw [hputs] at hput
    cases hput
  intro hrest hdone hne hopened
  -- the first stream was refused, or nobody is there to accept it
  have hone := hs.places_eq 0
  rw [if_pos hopened, places, hgreetings, hdropped, hputs] at hone
  have hended : s.ended = true := by
    by_cases hbyes : s.byes = []
    · have hrefused : s.refused = [] := hs.refused_eq_nil hbyes
      have hback : s.backlog ≠ [] := by
        intro hnil
        rw [hnil, hrefused] at hone
        cases hone
      obtain ⟨a, ha⟩ := List.exists_mem_of_ne_nil _ hne
      obtain ⟨i, hi⟩ := List.getElem?_of_mem ha
      rcases accept_waits hs.sound hrest hi with hpc | ⟨_, _, hempty⟩
      · have hfits := hs.sound.accepts a ha
        rw [AcceptFits, hpc, hdone, hbyes] at hfits
        rcases hfits with hd | hlt | ⟨_, hended, _⟩
        · cases hd
        · cases hlt
        · exact hended
      · exact absurd hempty hback
    · exact (bye_closes hs.sound hrest hbyes).2.1
  exact ⟨hended, notify_of_ended hs.sound hrest hdone hne hended⟩

/-- A client opens a stream. -/
theorem null_hangs_up_stream : ∃ s : MuxPeer, (machine .yamux).Reachable s ∧ s.AtRest ∧
    s.opened = 1 ∧ s.channel.received = [] ∧ s.ended = true := by
  obtain ⟨s, hreach, hrest, hopened, hdone, haccepts, hnull⟩ :=
    (machine .yamux).reachable_of_exec_any rfl
      [.null, .accept 0, .channel (.runStep 0), .stream, .accept 0, .byeStep 0, .byeStep 0,
        .byeStep 0, .byeStep 0, .byeStep 0, .accept 0, .channel (.takeCloser 0),
        .channel (.runStep 0), .channel (.runStep 0), .announce]
      (P := fun s => s.AtRest ∧ s.opened = 1 ∧ s.done = false ∧ s.accepts.length = 1 ∧
        ∀ a ∈ s.accepts, a.null = true) (by decide)
  obtain ⟨_, hreceived, hends⟩ := null_hangs_up hreach hnull
  refine ⟨s, hreach, hrest, hopened, hreceived, (hends hrest hdone ?_ (by omega)).1⟩
  intro hnil
  rw [hnil] at haccepts
  cases haccepts

end Tunnel.Mux.MuxPeer
