import Tunnel.Multiplexer.PipeEnd

set_option autoImplicit false

/-! # What comes out at the other end

A stream from a visitor to a client goes through a pipe on each node on its way, and each pipe joins
two connections. Whatever the pieces in which the bytes travel, a pipe writes a beginning of what
arrives at it (`Flows`), and pipes one behind another write a beginning of what arrived at the
first. When nothing on the way has anything left to do, either everything has come out at the other
end, or every pipe on the way is over and its connections are closed: a tunnel is never left half
standing. On the QUIC streams between two pipes it is the other pipe that sees to that; at the outer
ends of the row, where anybody may be, the connections must not be QUIC streams.

An end of a connection is read and written by one pipe each, because `Connect` takes ends that
nobody else holds (`Owned`). A pipe begins behind what was read and written at its ends before, the
handshakes; two pipes are joined (`Joined`) if they meet on a connection and the second begins to
read where the first begins to write. -/

namespace Tunnel.Multiplexer.Pipes

open Tunnel.Lib

variable {β : Type} {kinds : Kinds} {s s' : Pipes β} {a : Action β} {i : ℕ} {c c' : Connect β}
  {k k' : Conns β}
  {d : Dir}

/-! ## Who reads and writes where -/

/-- No end of a connection is the source of two pipes (or, the target of one being the source of the
    other of the same call, the target of two). -/
def Owned (s : Pipes β) : Prop :=
  ∀ (i j : ℕ) c c' d d', s.calls[i]? = some c → s.calls[j]? = some c' →
    c.source d = c'.source d' → i = j ∧ d = d'

theorem source_ne_of_held {e : Endpoint} (h : s.held e = false) (hi : s.calls[i]? = some c)
    (d : Dir) : c.source d ≠ e := by
  intro he
  have hmem := List.mem_of_getElem? hi
  simp only [held, List.any_eq_false, Bool.or_eq_true, decide_eq_true_eq, not_or] at h
  cases d with
  | toDst => exact (h c hmem).2 he
  | toSrc => exact (h c hmem).1 he

/-- The move of a call that stays on its ends. -/
theorem Owned.set (hs : Owned s) (hi : s.calls[i]? = some c) (hsource : c'.source = c.source)
    {k' : Conns β} : Owned { s with conns := k', calls := s.calls.set i c' } := by
  -- whatever call is found under a number now had the same ends before
  have hback : ∀ (j : ℕ) c₁, (s.calls.set i c')[j]? = some c₁ →
      ∃ c₀, s.calls[j]? = some c₀ ∧ c₀.source = c₁.source := by
    intro j c₁ hj
    rw [getElem?_set_of_some hi] at hj
    split at hj
    · next hij =>
        obtain rfl := Option.some.inj hj
        exact ⟨c, hij ▸ hi, hsource.symm⟩
    · exact ⟨c₁, hj, rfl⟩
  intro j₁ j₂ c₁ c₂ d₁ d₂ h₁ h₂ heq
  obtain ⟨b₁, hb₁, hs₁⟩ := hback j₁ c₁ h₁
  obtain ⟨b₂, hb₂, hs₂⟩ := hback j₂ c₂ h₂
  exact hs j₁ j₂ b₁ b₂ d₁ d₂ hb₁ hb₂ (by rw [hs₁, hs₂, heq])

theorem Owned.step (hs : Owned s) (h : Step kinds s a s') : Owned s' := by
  cases h with
  | write | read | close | reportPanics | finishPanics => exact hs
  | @cancel i c hi =>
      have hsource : Connect.source { c with cancelled := true } = c.source := rfl
      exact hs.set hi hsource
  | op ha hi hop => exact hs.set hi hop.source_eq
  | @connect dst src hne hdst hsrc =>
      -- the new call holds none of the ends that are held, and not the same one twice
      have hnew : ∀ (j : ℕ) c₀ d d', s.calls[j]? = some c₀ →
          c₀.source d ≠ (Connect.start s.conns dst src).source d' := by
        intro j c₀ d d' hj
        cases d' with
        | toDst => exact source_ne_of_held hsrc hj d
        | toSrc => exact source_ne_of_held hdst hj d
      intro j₁ j₂ c₁ c₂ d₁ d₂ h₁ h₂ heq
      rw [getElem?_concat] at h₁ h₂
      split at h₁
      · next hj₁ =>
          obtain rfl := Option.some.inj h₁
          split at h₂
          · next hj₂ =>
              obtain rfl := Option.some.inj h₂
              refine ⟨hj₁.trans hj₂.symm, ?_⟩
              cases d₁ <;> cases d₂
              · rfl
              · exact absurd heq.symm hne
              · exact absurd heq hne
              · rfl
          · exact absurd heq.symm (hnew j₂ c₂ d₂ d₁ h₂)
      · split at h₂
        · obtain rfl := Option.some.inj h₂
          exact absurd heq (hnew j₁ c₁ d₁ d₂ h₁)
        · exact hs j₁ j₂ c₁ c₂ d₁ d₂ h₁ h₂ heq

theorem owned_init : Owned (init : Pipes β) := by
  intro i j c c' d d' hi
  simp [init] at hi

theorem Owned.source_ne_target (hs : Owned s) (hi : s.calls[i]? = some c) (d : Dir) :
    c.source d ≠ c.target d := by
  intro heq
  rw [← c.source_other d] at heq
  have hd := (hs i i c c d d.other hi hi heq).2
  cases d <;> cases hd

/-! ## What one pipe does -/

/-- A pipe between an end at which `arrived` has arrived, `got` bytes of it read, and an end at
    which `out` was written: what it wrote is what arrived behind `base`, as far as it has come, and
    what it has in hand comes next. While it copies, it has nothing read that it does not have. -/
structure Flows (arrived out : List β) (got : ℕ) (p : Pipe β) : Prop where
  wrote : out = p.pre ++ (arrived.drop p.base).take p.written
  hand : p.pc.inHand = ((arrived.drop p.base).drop p.written).take p.pc.inHand.length
  taken : p.base + p.written + p.pc.inHand.length ≤ got
  copying : p.pc.copying = true → got = p.base + p.written + p.pc.inHand.length

variable {arrived arrived' out : List β} {got : ℕ} {p : Pipe β}

theorem flows_start (arrived out : List β) (got : ℕ) :
    Flows arrived out got ⟨.check, 0, got, out⟩ where
  wrote := by simp
  hand := rfl
  taken := Nat.le_refl _
  copying _ := rfl

/-- More may arrive behind what was read. -/
theorem Flows.grow (h : Flows arrived out got p) (hgot : got ≤ arrived.length)
    (hpre : arrived <+: arrived') : Flows arrived' out got p := by
  obtain ⟨more, rfl⟩ := hpre
  have htaken := h.taken
  have hdrop : (arrived ++ more).drop p.base = arrived.drop p.base ++ more :=
    List.drop_append_of_le_length (by omega)
  have hdrop' : (arrived.drop p.base ++ more).drop p.written
      = (arrived.drop p.base).drop p.written ++ more :=
    List.drop_append_of_le_length (by rw [List.length_drop]; omega)
  refine ⟨?_, ?_, h.taken, h.copying⟩
  · rw [hdrop, List.take_append_of_le_length (by rw [List.length_drop]; omega)]
    exact h.wrote
  · rw [hdrop, hdrop', List.take_append_of_le_length (by simp only [List.length_drop]; omega)]
    exact h.hand

/-- A pipe that moves on without anything in hand has neither read nor written. -/
theorem Flows.move (h : Flows arrived out got p) {pc : PipePc β} (hnew : pc.inHand = [])
    (hcopying : pc.copying = true → p.pc.copying = true ∧ p.pc.inHand = []) :
    Flows arrived out got { p with pc := pc } where
  wrote := h.wrote
  hand := by
    change pc.inHand = _
    rw [hnew]
    rfl
  taken := by
    have htaken := h.taken
    change p.base + p.written + pc.inHand.length ≤ got
    rw [hnew, List.length_nil]
    omega
  copying hc := by
    obtain ⟨hcop, hnil⟩ := hcopying hc
    change got = p.base + p.written + pc.inHand.length
    rw [hnew, h.copying hcop, hnil]

theorem Flows.read (h : Flows arrived out got p) (hpc : p.pc = .read) {n : ℕ}
    (hn : n ≤ (arrived.drop got).length) {err : Option ReadErr} :
    Flows arrived out (got + n) { p with
      pc := if 0 < n then .write ((arrived.drop got).take n) err else .afterRead err } := by
  have hgot : got = p.base + p.written := by
    have hcop := h.copying (by rw [hpc]; rfl)
    rwa [hpc] at hcop
  by_cases hpos : 0 < n
  · have hlen : ((arrived.drop got).take n).length = n := by
      rw [List.length_take]
      omega
    simp only [if_pos hpos]
    refine ⟨h.wrote, ?_, ?_, ?_⟩
    · change (arrived.drop got).take n = _
      rw [List.drop_drop, ← hgot]
      change _ = (arrived.drop got).take ((arrived.drop got).take n).length
      rw [hlen]
    · change p.base + p.written + ((arrived.drop got).take n).length ≤ got + n
      omega
    · intro _
      change got + n = p.base + p.written + ((arrived.drop got).take n).length
      omega
  · obtain rfl : n = 0 := by omega
    simp only [if_neg hpos]
    refine h.move (PipePc.inHand_afterRead err) (fun _ => ?_)
    rw [hpc]
    exact ⟨rfl, rfl⟩

theorem Flows.write (h : Flows arrived out got p) {chunk : List β} {err : Option ReadErr}
    (hpc : p.pc = .write chunk err) {n : ℕ} (hn : n ≤ chunk.length) {failed : Bool} :
    Flows arrived (out ++ chunk.take n) got { p with
      pc := .afterWrite chunk err n failed, written := p.written + n } := by
  have hhand := h.hand
  have htaken := h.taken
  have hcop := h.copying (by rw [hpc]; rfl)
  rw [hpc] at hhand htaken hcop
  change chunk = ((arrived.drop p.base).drop p.written).take chunk.length at hhand
  change p.base + p.written + chunk.length ≤ got at htaken
  change got = p.base + p.written + chunk.length at hcop
  refine ⟨?_, ?_, ?_, ?_⟩
  · change _ = p.pre ++ (arrived.drop p.base).take (p.written + n)
    rw [h.wrote, List.append_assoc, List.take_add]
    congr 2
    rw [hhand, List.take_take, Nat.min_eq_left hn]
  · rw [PipePc.inHand_afterWrite]
    rfl
  · rw [PipePc.inHand_afterWrite]
    change p.base + (p.written + n) + 0 ≤ got
    omega
  · intro hcopying
    rw [PipePc.inHand_afterWrite]
    change got = p.base + (p.written + n) + 0
    -- the loop goes on only if all was written
    have hall : n = chunk.length := by
      by_contra hne
      have hlt : n < chunk.length := by omega
      simp only [PipePc.afterWrite, if_pos hlt] at hcopying
      split at hcopying <;> simp [PipePc.copying] at hcopying
    omega

/-! ## All pipes together -/

/-- The pipe `d` of the call between its two ends. -/
def FlowsAt (k : Conns β) (c : Connect β) (d : Dir) : Prop :=
  Flows (k.incoming (c.source d)) (k.out (c.target d)) (k.got (c.source d)) (c.pipes d)

/-- An operation of a call only adds to what arrives anywhere. -/
theorem Op.incoming_prefix (h : Op kinds k c k' c') (e : Endpoint) :
    k.incoming e <+: k'.incoming e := by
  cases h with
  | write => exact Conns.incoming_write_prefix _ _ _ e
  | _ => exact List.prefix_rfl

theorem Op.sound (h : Op kinds k c k' c') (hk : k.Sound) : k'.Sound := by
  cases h with
  | read _ hreads => exact hk.read hreads.le_pending
  | write => exact hk.write _ _
  | closeSource | closeTarget => exact hk.close _
  | _ => exact hk

/-- An operation of a call reads and writes at no other end than its own. -/
theorem Op.frame (h : Op kinds k c k' c') {e : Endpoint} (he : ∀ d, c.source d ≠ e) :
    k'.out e = k.out e ∧ k'.got e = k.got e := by
  cases h with
  | @read d n err _ _ => exact ⟨rfl, Conns.got_read_ne k n (he d).symm⟩
  | @write d n failed chunk err _ _ =>
      have htarget : c.target d ≠ e := by
        rw [← c.source_other d]
        exact he d.other
      exact ⟨Conns.out_write_ne k _ htarget.symm, rfl⟩
  | _ => exact ⟨rfl, rfl⟩

/-- The pipe that moves on, while the other one stays. -/
theorem FlowsAt.set (hc : ∀ d, FlowsAt k c d) (hk : k.Sound)
    (hpre : ∀ e, k.incoming e <+: k'.incoming e)
    (hout : k'.out (c.source d) = k.out (c.source d))
    (hgot : k'.got (c.target d) = k.got (c.target d)) {p : Pipe β}
    (hp : Flows (k'.incoming (c.source d)) (k'.out (c.target d)) (k'.got (c.source d)) p) :
    ∀ d', FlowsAt k' (c.setPipe d p) d' := by
  intro d'
  by_cases hdd : d' = d
  · subst hdd
    rw [FlowsAt, Connect.pipes_setPipe_self]
    exact hp
  · obtain rfl : d' = d.other := by cases d <;> cases d' <;> simp_all [Dir.other]
    have hother := (hc d.other).grow (hk _) (hpre _)
    rw [FlowsAt, c.pipes_setPipe_ne p hdd]
    rw [c.source_other, c.target_other] at hother
    change Flows (k'.incoming (c.source d.other)) (k'.out (c.target d.other))
      (k'.got (c.source d.other)) _
    rw [c.source_other, c.target_other, hout, hgot]
    exact hother

theorem Op.flows (h : Op kinds k c k' c') (hk : k.Sound) (hne : ∀ d, c.source d ≠ c.target d)
    (hc : ∀ d, FlowsAt k c d) : ∀ d, FlowsAt k' c' d := by
  have hpre := h.incoming_prefix
  cases h with
  | @read d n err hpc hreads =>
      refine FlowsAt.set hc hk hpre rfl (Conns.got_read_ne k n (hne d).symm) ?_
      rw [Conns.got_read_self]
      exact (hc d).read hpc hreads.le_pending
  | @write d n failed chunk err hpc hwrites =>
      refine FlowsAt.set hc hk hpre (Conns.out_write_ne k _ (hne d)) rfl ?_
      rw [Conns.out_write_self]
      exact ((hc d).write hpc hwrites.le).grow (hk _) (hpre _)
  | @check d hpc =>
      refine FlowsAt.set hc hk hpre rfl rfl ((hc d).move ?_ ?_)
      · split <;> rfl
      · intro _
        rw [hpc]
        exact ⟨rfl, rfl⟩
  | @closeSource d err hpc =>
      exact FlowsAt.set hc hk hpre rfl rfl ((hc d).move rfl (fun h => by cases h))
  | @closeTarget d err hpc =>
      refine FlowsAt.set hc hk hpre rfl rfl ((hc d).move ?_ ?_)
      · cases err <;> rfl
      · cases err <;> intro h <;> cases h
  | @report d e ch hpc hsend =>
      exact FlowsAt.set hc hk hpre rfl rfl ((hc d).move rfl (fun h => by cases h))
  | @finish d n hpc hwg =>
      exact FlowsAt.set hc hk hpre rfl rfl ((hc d).move rfl (fun h => by cases h))
  | closeErr => exact hc

/-- Every pipe of every call has written a beginning of what arrived at it. -/
structure Flowing (s : Pipes β) : Prop where
  sound : s.conns.Sound
  owned : Owned s
  flows : ∀ (i : ℕ) c, s.calls[i]? = some c → ∀ d, FlowsAt s.conns c d

theorem flowing_init : Flowing (init : Pipes β) where
  sound := Conns.sound_fresh
  owned := owned_init
  flows i c hi := by simp [init] at hi

/-- What happens at other ends does not touch the pipes of a call. -/
theorem FlowsAt.frame (h : FlowsAt k c d) (hk : k.Sound)
    (hpre : ∀ e, k.incoming e <+: k'.incoming e)
    (hframe : ∀ d, k'.out (c.source d) = k.out (c.source d) ∧
      k'.got (c.source d) = k.got (c.source d)) : FlowsAt k' c d := by
  have hout : k'.out (c.target d) = k.out (c.target d) := by
    rw [← c.source_other d]
    exact (hframe d.other).1
  rw [FlowsAt, hout, (hframe d).2]
  exact Flows.grow h (hk _) (hpre _)

theorem Flowing.step (hs : Flowing s) (h : Step kinds s a s') : Flowing s' := by
  have howned := hs.owned.step h
  cases h with
  | @write e bytes hfree =>
      refine ⟨hs.sound.write e bytes, howned, fun i c hi d => ?_⟩
      refine (hs.flows i c hi d).frame hs.sound (Conns.incoming_write_prefix _ e bytes) fun d => ?_
      exact ⟨Conns.out_write_ne _ bytes (source_ne_of_held hfree hi d), rfl⟩
  | @read e n hfree hn =>
      refine ⟨hs.sound.read hn, howned, fun i c hi d => ?_⟩
      refine (hs.flows i c hi d).frame hs.sound (fun _ => List.prefix_rfl) fun d => ?_
      exact ⟨rfl, Conns.got_read_ne _ n (source_ne_of_held hfree hi d)⟩
  | @close e hfree => exact ⟨hs.sound.close e, howned, hs.flows⟩
  | @connect dst src hne hdst hsrc =>
      refine ⟨hs.sound, howned, forall_getElem?_concat hs.flows fun d => ?_⟩
      cases d with
      | toDst => exact flows_start _ _ _
      | toSrc => exact flows_start _ _ _
  | @cancel i c hi =>
      exact ⟨hs.sound, howned, forall_getElem?_set (fun j c' _ hj => hs.flows j c' hj)
        (hs.flows i c hi)⟩
  | @op _ i c c' k' ha hi hop =>
      refine ⟨hop.sound hs.sound, howned, forall_getElem?_set (fun j c₁ hij hj d => ?_) ?_⟩
      · -- the ends of another call are other ends
        refine (hs.flows j c₁ hj d).frame hs.sound hop.incoming_prefix fun d => ?_
        refine hop.frame fun d' heq => ?_
        exact hij (hs.owned i j c c₁ d' d hi hj heq).1
      · exact hop.flows hs.sound (hs.owned.source_ne_target hi) (hs.flows i c hi)
  | reportPanics | finishPanics => exact ⟨hs.sound, howned, hs.flows⟩

theorem flowing_of_reachable (hs : (machine kinds β).Reachable s) : Flowing s :=
  hs.invariant (fun _ h => h ▸ flowing_init) (fun _ _ _ hs h => hs.step (step_rule h).2)

/-! ## Pipes one behind another -/

/-- A pipe that a stream goes through. -/
structure Hop (β : Type) where
  call : Connect β
  dir : Dir

namespace Hop

/-- Where the pipe reads. -/
def entry (h : Hop β) : Endpoint := h.call.source h.dir

/-- Where the pipe writes. -/
def exit (h : Hop β) : Endpoint := h.call.target h.dir

/-- The last pipe of a row. -/
def last (h : Hop β) (hops : List (Hop β)) : Hop β := (h :: hops).getLast (by simp)

@[simp] theorem last_nil (h : Hop β) : last h [] = h := rfl

@[simp] theorem last_cons (h h' : Hop β) (hops : List (Hop β)) :
    last h (h' :: hops) = last h' hops := List.getLast_cons (by simp)

/-- What arrives at the pipe. -/
def offered (k : Conns β) (h : Hop β) : List β :=
  (k.incoming (h.call.source h.dir)).drop (h.call.pipes h.dir).base

/-- What the pipe has written. -/
def delivered (k : Conns β) (h : Hop β) : List β :=
  (k.out (h.call.target h.dir)).drop (h.call.pipes h.dir).pre.length

/-- The two pipes meet on a connection, and the second begins to read where the first begins to
    write. -/
structure Joined (h h' : Hop β) : Prop where
  meet : h'.call.source h'.dir = (h.call.target h.dir).peer
  aligned : (h'.call.pipes h'.dir).base = (h.call.pipes h.dir).pre.length

variable {h h' : Hop β}

theorem delivered_eq (hk : FlowsAt k h.call h.dir) :
    h.delivered k = (h.offered k).take (h.call.pipes h.dir).written := by
  rw [delivered, hk.wrote, List.drop_left]
  rfl

/-- What one pipe delivers is what the next one is offered. -/
theorem Joined.offered_eq (hj : Joined h h') : h'.offered k = h.delivered k := by
  rw [offered, delivered, Conns.incoming, hj.meet, hj.aligned, Endpoint.peer_peer]

/-- A pipe that waits has delivered all. -/
theorem delivered_of_waits (hs : k.Sound) (hk : FlowsAt k h.call h.dir)
    (hw : Waits kinds k h.call h.dir) : h.delivered k = h.offered k := by
  have hgot := hs.got_of_pending_nil hw.pending
  have hcop := hk.copying (by rw [hw.pc]; rfl)
  rw [hw.pc] at hcop
  change _ = (h.call.pipes h.dir).base + (h.call.pipes h.dir).written + 0 at hcop
  rw [delivered_eq hk, List.take_of_length_le]
  rw [offered, List.length_drop]
  omega

end Hop

/-- No call of `Connect` has anything left to do, unless a connection breaks. -/
def AtRest (kinds : Kinds) (s : Pipes β) : Prop :=
  ∀ a, a.call.isSome = true → (s.step kinds a).isSome = true → s.Breaks kinds a

/-- Calls whose pipes all wait are at rest. -/
theorem Calm.atRest (hs : Calm s) (hwaits : ∀ c ∈ s.calls, ∀ d, Waits kinds s.conns c d) :
    AtRest kinds s := by
  intro a hcall hsome
  obtain ⟨i, ha⟩ := Option.isSome_iff_exists.1 hcall
  obtain ⟨s', h⟩ := Option.isSome_iff_exists.1 hsome
  cases hi : s.calls[i]? with
  | some c =>
      have hc := hwaits c (List.mem_of_getElem? hi)
      cases a with
      | copyRead j d | copyWrite j d | pipe j d =>
          obtain rfl := Option.some.inj ha
          exact breaks_of_waits hs hi (hc d) rfl h
      | closeErr j =>
          -- the third goroutine waits for both pipes
          obtain rfl := Option.some.inj ha
          have hwg := ((hs.ledger _ c hi).errs_open (d := .toDst) (by rw [(hc _).pc]; rfl)).2
          simp [Pipes.step, hs.panic, hi, closeErr, hwg] at h
      | _ => cases ha
  | none =>
      -- there is no such call
      cases a with
      | copyRead | copyWrite | pipe | closeErr =>
          obtain rfl := Option.some.inj ha
          simp [Pipes.step, hs.panic, hi] at h
      | _ => cases ha

section Rest

variable (hs : Calm s) (hrest : AtRest kinds s)
include hs hrest

/-- At rest a pipe has returned or waits. -/
theorem Calm.rest_pipe (hi : s.calls[i]? = some c) (d : Dir) :
    (c.pipes d).pc = .done ∨ Waits kinds s.conns c d := by
  rcases hs.pipe_cases kinds hi d with hdone | hwaits | ⟨a, ha, hsome, hbreaks⟩
  · exact Or.inl hdone
  · exact Or.inr hwaits
  · exact absurd (hrest a (by rw [ha]; rfl) hsome) hbreaks

/-- A pipe does not wait for an end that is closed. -/
theorem Calm.done_of_peer_closed (hi : s.calls[i]? = some c)
    (hclosed : s.conns.closed (c.source d).peer = true) : (c.pipes d).pc = .done := by
  refine (hs.rest_pipe hrest hi d).resolve_right fun hwaits => ?_
  rw [hwaits.peer] at hclosed
  cases hclosed

/-- A pipe does not wait at an end that is closed, unless that is one of a QUIC stream. -/
theorem Calm.done_of_shut (hi : s.calls[i]? = some c) (hshut : Shut s.conns c)
    (hkind : kinds (c.source d) ≠ .quic) : (c.pipes d).pc = .done := by
  refine (hs.rest_pipe hrest hi d).resolve_right fun hwaits => ?_
  have hopen := hwaits.source
  simp [Conns.readClosed, hshut d, Kinds.closesRead, hkind] at hopen

/-- At rest a call whose pipes have returned is over. -/
theorem Calm.over_of_done (hi : s.calls[i]? = some c) (hdone : ∀ d, (c.pipes d).pc = .done) :
    c.errsClosed = true := by
  by_contra hopen
  have hwg : c.wg = 0 := by
    rw [(hs.ledger i c hi).wg]
    simp [Connect.total, hdone, PipePc.unfinished]
  have hsome : (s.step kinds (.closeErr i)).isSome = true := by
    simp [Pipes.step, hs.panic, hi, closeErr, hwg, hopen]
  exact hrest (.closeErr i) rfl hsome

section Joined

variable {h h' : Hop β} {j : ℕ} (hi : s.calls[i]? = some h.call) (hj : s.calls[j]? = some h'.call)
  (hjoin : Hop.Joined h h')
include hjoin

/-- Of two pipes that meet, the second returns when the call of the first closes its ends. -/
theorem Calm.next_done (hj : s.calls[j]? = some h'.call) (hshut : Shut s.conns h.call) :
    (h'.call.pipes h'.dir).pc = .done := by
  refine hs.done_of_peer_closed hrest hj ?_
  rw [hjoin.meet, Endpoint.peer_peer]
  exact ((shut_iff h.dir).1 hshut).2

/-- The pipe the other way returns when the call of the second closes its ends. -/
theorem Calm.back_done (hi : s.calls[i]? = some h.call) (hshut : Shut s.conns h'.call) :
    (h.call.pipes h.dir.other).pc = .done := by
  refine hs.done_of_peer_closed hrest hi ?_
  rw [Connect.source_other, ← hjoin.meet]
  exact hshut h'.dir

include hi hj

theorem Calm.shut_iff_of_joined : Shut s.conns h.call ↔ Shut s.conns h'.call := by
  constructor
  · intro hshut
    refine (hs.ledger j _ hj).shut (d := h'.dir) ?_
    rw [hs.next_done hrest hjoin hj hshut]
    rfl
  · intro hshut
    refine (hs.ledger i _ hi).shut (d := h.dir.other) ?_
    rw [hs.back_done hrest hjoin hi hshut]
    rfl

end Joined

end Rest

section Row

variable {h : Hop β} {hops : List (Hop β)}

theorem delivered_prefix_offered (hflow : Flowing s) (hcalls : ∀ x ∈ h :: hops, x.call ∈ s.calls)
    (hjoin : (h :: hops).IsChain Hop.Joined) :
    (Hop.last h hops).delivered s.conns <+: h.offered s.conns := by
  have hone : ∀ x : Hop β, x.call ∈ s.calls → x.delivered s.conns <+: x.offered s.conns := by
    intro x hx
    obtain ⟨i, hi⟩ := List.getElem?_of_mem hx
    rw [Hop.delivered_eq (hflow.flows i x.call hi x.dir)]
    exact List.take_prefix _ _
  induction hops generalizing h with
  | nil => exact hone h (hcalls h List.mem_cons_self)
  | cons h' hops ih =>
      obtain ⟨hfirst, hrow⟩ := List.isChain_cons_cons.1 hjoin
      rw [Hop.last_cons]
      have hrest := ih (fun x hx => hcalls x (List.mem_cons_of_mem _ hx)) hrow
      rw [hfirst.offered_eq] at hrest
      exact hrest.trans (hone h (hcalls h List.mem_cons_self))

/-- In a row of pipes that all wait nothing is on its way. -/
theorem delivered_eq_offered (hflow : Flowing s) (hcalls : ∀ x ∈ h :: hops, x.call ∈ s.calls)
    (hjoin : (h :: hops).IsChain Hop.Joined)
    (hwaits : ∀ x ∈ h :: hops, ∀ d, Waits kinds s.conns x.call d) :
    (Hop.last h hops).delivered s.conns = h.offered s.conns := by
  have hone : ∀ x ∈ h :: hops, x.delivered s.conns = x.offered s.conns := by
    intro x hx
    obtain ⟨i, hi⟩ := List.getElem?_of_mem (hcalls x hx)
    exact Hop.delivered_of_waits hflow.sound (hflow.flows i x.call hi x.dir) (hwaits x hx x.dir)
  induction hops generalizing h with
  | nil => exact hone h List.mem_cons_self
  | cons h' hops ih =>
      obtain ⟨hfirst, hrow⟩ := List.isChain_cons_cons.1 hjoin
      rw [Hop.last_cons, ih (fun x hx => hcalls x (List.mem_cons_of_mem _ hx)) hrow
        (fun x hx => hwaits x (List.mem_cons_of_mem _ hx))
        (fun x hx => hone x (List.mem_cons_of_mem _ hx)), hfirst.offered_eq]
      exact hone h List.mem_cons_self

/-- At rest the calls of a row have closed their ends all together, or none has. -/
theorem Calm.shut_row (hs : Calm s) (hrest : AtRest kinds s)
    (hcalls : ∀ x ∈ h :: hops, x.call ∈ s.calls) (hjoin : (h :: hops).IsChain Hop.Joined) :
    ∀ x ∈ h :: hops, Shut s.conns x.call ↔ Shut s.conns h.call := by
  induction hops generalizing h with
  | nil => simp
  | cons h' hops ih =>
      obtain ⟨hfirst, hrow⟩ := List.isChain_cons_cons.1 hjoin
      obtain ⟨i, hi⟩ := List.getElem?_of_mem (hcalls h List.mem_cons_self)
      obtain ⟨j, hj⟩ := List.getElem?_of_mem (hcalls h' (List.mem_cons_of_mem _ List.mem_cons_self))
      have hiff := hs.shut_iff_of_joined hrest hi hj hfirst
      have hrest' := ih (fun x hx => hcalls x (List.mem_cons_of_mem _ hx)) hrow
      exact List.forall_mem_cons.2 ⟨Iff.rfl, fun x hx => (hrest' x hx).trans hiff.symm⟩

/-- When they have, and the pipe at the near end has returned, so have all. -/
theorem Calm.done_row (hs : Calm s) (hrest : AtRest kinds s)
    (hcalls : ∀ x ∈ h :: hops, x.call ∈ s.calls) (hjoin : (h :: hops).IsChain Hop.Joined)
    (hlast : kinds (Hop.last h hops).exit ≠ .quic)
    (hshut : ∀ x ∈ h :: hops, Shut s.conns x.call) (hnear : (h.call.pipes h.dir).pc = .done) :
    ∀ x ∈ h :: hops, ∀ d, (x.call.pipes d).pc = .done := by
  have hboth : ∀ x : Hop β, (x.call.pipes x.dir).pc = .done →
      (x.call.pipes x.dir.other).pc = .done → ∀ d, (x.call.pipes d).pc = .done := by
    intro x hdir hother d
    cases hd : x.dir <;> cases d <;> simp_all [Dir.other]
  induction hops generalizing h with
  | nil =>
      obtain ⟨i, hi⟩ := List.getElem?_of_mem (hcalls h List.mem_cons_self)
      refine List.forall_mem_singleton.2 (hboth h hnear ?_)
      refine hs.done_of_shut hrest hi (hshut h List.mem_cons_self) ?_
      rw [Connect.source_other]
      exact hlast
  | cons h' hops ih =>
      obtain ⟨hfirst, hrow⟩ := List.isChain_cons_cons.1 hjoin
      have hmem : h' ∈ h :: h' :: hops := List.mem_cons_of_mem _ List.mem_cons_self
      obtain ⟨i, hi⟩ := List.getElem?_of_mem (hcalls h List.mem_cons_self)
      obtain ⟨j, hj⟩ := List.getElem?_of_mem (hcalls h' hmem)
      refine List.forall_mem_cons.2 ⟨hboth h hnear ?_, ?_⟩
      · exact hs.back_done hrest hfirst hi (hshut h' hmem)
      · exact ih (fun x hx => hcalls x (List.mem_cons_of_mem _ hx)) hrow hlast
          (fun x hx => hshut x (List.mem_cons_of_mem _ hx))
          (hs.next_done hrest hfirst hj (hshut h List.mem_cons_self))

/-- At rest the calls of a row between ends that are not QUIC streams are over all together, or all
    wait. -/
theorem Calm.rest_row (hs : Calm s) (hrest : AtRest kinds s)
    (hcalls : ∀ x ∈ h :: hops, x.call ∈ s.calls) (hjoin : (h :: hops).IsChain Hop.Joined)
    (hfirst : kinds h.entry ≠ .quic) (hlast : kinds (Hop.last h hops).exit ≠ .quic) :
    (∀ x ∈ h :: hops, x.call.errsClosed = true) ∨
      ∀ x ∈ h :: hops, ∀ d, Waits kinds s.conns x.call d := by
  have hall := hs.shut_row hrest hcalls hjoin
  obtain ⟨i, hi⟩ := List.getElem?_of_mem (hcalls h List.mem_cons_self)
  by_cases hshut : Shut s.conns h.call
  · left
    intro x hx
    obtain ⟨j, hj⟩ := List.getElem?_of_mem (hcalls x hx)
    refine hs.over_of_done hrest hj (hs.done_row hrest hcalls hjoin hlast ?_ ?_ x hx)
    · exact fun y hy => (hall y hy).2 hshut
    · exact hs.done_of_shut hrest hi hshut hfirst
  · right
    intro x hx d
    obtain ⟨j, hj⟩ := List.getElem?_of_mem (hcalls x hx)
    refine (hs.rest_pipe hrest hj d).resolve_left fun hdone => ?_
    -- a pipe that has returned has closed both ends of its call
    have hclosed := (hs.ledger j _ hj).shut (d := d) (by rw [hdone]; rfl)
    exact hshut ((hall x hx).1 hclosed)

end Row

/-- Whether a pipe waits, evaluated. -/
def waitsNow (kinds : Kinds) (k : Conns β) (c : Connect β) (d : Dir) : Bool :=
  (match (c.pipes d).pc with
    | .read => true
    | _ => false) &&
  !k.readClosed kinds.closesRead (c.source d) && (k.pending (c.source d)).isEmpty &&
  !k.closed (c.source d).peer

theorem waits_of_waitsNow (h : waitsNow kinds k c d = true) : Waits kinds k c d := by
  simp only [waitsNow, Bool.and_eq_true, Bool.not_eq_true', List.isEmpty_iff] at h
  obtain ⟨⟨⟨hpc, hsource⟩, hpending⟩, hpeer⟩ := h
  refine ⟨?_, hsource, hpending, hpeer⟩
  split at hpc
  · next heq => exact heq
  · cases hpc

/-- The connection between the two nodes is a QUIC stream. -/
def innerQuic : Kinds := fun e => if e.conn = 1 then .quic else .other

/-- There are two calls, joined, that have copied `[1, 2, 3]` and wait for more. -/
def twoNodesWait (s : Pipes ℕ) : Bool :=
  match s.calls with
  | [c, c'] => waitsNow innerQuic s.conns c .toDst && waitsNow innerQuic s.conns c .toSrc &&
      waitsNow innerQuic s.conns c' .toDst && waitsNow innerQuic s.conns c' .toSrc &&
      decide (c'.source .toDst = (c.target .toDst).peer) &&
      decide ((c'.pipes .toDst).base = (c.pipes .toDst).pre.length) &&
      decide (c.source .toDst = ⟨0, true⟩) && decide (c'.target .toDst = ⟨2, false⟩) &&
      decide (Hop.offered s.conns ⟨c, .toDst⟩ = [1, 2, 3]) && !c.errsClosed
  | _ => false

end Tunnel.Multiplexer.Pipes
