import Mathlib.Algebra.Order.BigOperators.Group.List
import Mathlib.Algebra.Order.Group.Nat
import Tunnel.Gateway.Front

set_option autoImplicit false

/-! # Where the gateway takes a connection (`gateway/alpn.go`, `gateway/gateway.go`)

A connection comes out of the gateway where its host name and its protocol say (`front_routes`): the
branches that log a protocol without a listener, the multiplexer protocol on the gateway, and an
unknown protocol are never taken. Each connection takes at most five steps, and while the loops run
none of them gets stuck (`front_settles`). A loop whose `Accept` finds the mux at its end returns,
though, also with connections in its buffer; these are neither handled nor closed
(`front_abandons`). -/

namespace Tunnel.Gateway.Front

open Tunnel.Lib Tunnel.Multiplexer

variable {peerID : UInt64} {rootDomain : List UInt8} {s s' : Front} {a : Action}

/-! ## Every connection comes out where it belongs -/

/-- What may become of a connection. -/
def Right (peerID : UInt64) (rootDomain : List UInt8) : Outcome → Visitor → Prop
  | .failed, _ => True
  | .clients, v => v.negotiated = "multiplexer"
  | .apex, v => v.negotiated ∈ gatewayProtos ∧ v.serverName = rootDomain
  | .http, v => v.serverName ≠ rootDomain ∧ (v.negotiated = "" ∨ v.negotiated = "http/1.1")
  | .forwarded l, v | .notForwarded l, v =>
      v.serverName ≠ rootDomain ∧ v.negotiated = "raw" ∧ l = link peerID v.serverName "raw"
  | .unroutable, _ | .rejected, _ => False

/-- What is on its way is where it has to be. -/
structure Routed (peerID : UInt64) (rootDomain : List UInt8) (s : Front) : Prop where
  senders : ∀ e ∈ s.senders, wiring.load e.2.negotiated = some e.1
  chan : ∀ l, ∀ v ∈ (s.chan l).buf, wiring.load v.negotiated = some l
  handlers : ∀ v ∈ s.handlers, v.negotiated ∈ gatewayProtos
  apexCh : ∀ v ∈ s.apexCh.buf, Right peerID rootDomain .apex v
  httpCh : ∀ v ∈ s.httpCh.buf, Right peerID rootDomain .http v
  out : ∀ e ∈ s.out, Right peerID rootDomain e.1 e.2

theorem routed_init : Routed peerID rootDomain init where
  senders := by simp [init]
  chan := by simp [init]
  handlers := by simp [init]
  apexCh := by simp [init]
  httpCh := by simp [init]
  out := by simp [init]

theorem wiring_gateway {proto : String} (h : wiring.load proto = some .gateway) :
    proto ∈ gatewayProtos := by
  rw [load_wiring] at h
  by_contra hproto
  rw [if_neg hproto] at h
  split at h <;> cases h

theorem wiring_clients {proto : String} (h : wiring.load proto = some .clients) :
    proto = "multiplexer" := by
  rw [load_wiring] at h
  split at h
  · cases h
  · by_contra hproto
    rw [if_neg hproto] at h
    cases h

/-- What holds of the channels of both listeners holds when one of them changes. -/
theorem forall_chan_update {P : Listener → Chan Visitor 32 → Prop}
    {chan : Listener → Chan Visitor 32} (h : ∀ l, P l (chan l)) {l : Listener}
    {ch : Chan Visitor 32} (hch : P l ch) : ∀ k, P k (Function.update chan l ch k) :=
  (Function.forall_update_iff chan P).2 ⟨hch, fun k _ => h k⟩

theorem forall_mem_send {cap : ℕ} {P : Visitor → Prop} {c c' : Chan Visitor cap} {v : Visitor}
    (h : ∀ w ∈ c.buf, P w) (hv : P v) (hch : c.send v = some c') : ∀ w ∈ c'.buf, P w := by
  rw [(Chan.send_eq_some.1 hch).2]
  exact List.forall_mem_append.2 ⟨h, List.forall_mem_singleton.2 hv⟩

theorem forall_mem_recv {cap : ℕ} {P : Visitor → Prop} {c c' : Chan Visitor cap} {v : Visitor}
    (h : ∀ w ∈ c.buf, P w) (hch : c.recv = some (v, c')) : P v ∧ ∀ w ∈ c'.buf, P w := by
  rw [Chan.recv_eq_some.1 hch] at h
  exact List.forall_mem_cons.1 h

/-- Where a connection belongs that `handleConnection` hands on in this way. -/
def Belongs (peerID : UInt64) (rootDomain : List UInt8) (v : Visitor) : Served → Prop
  | .apex => Right peerID rootDomain .apex v
  | .httpTunnel => Right peerID rootDomain .http v
  | .forward l => Right peerID rootDomain (.forwarded l) v
  | .closed => False

/-- With a protocol of the gateway, `handleConnection` closes nothing. -/
theorem belongs_of_mem (peerID : UInt64) (rootDomain : List UInt8) {v : Visitor}
    (hproto : v.negotiated ∈ gatewayProtos) :
    Belongs peerID rootDomain v
      (handleConnection peerID rootDomain v.serverName v.negotiated) := by
  unfold handleConnection
  by_cases hroot : v.serverName = rootDomain
  · rw [if_pos hroot]
    exact ⟨hproto, hroot⟩
  · rw [if_neg hroot]
    by_cases hhttp : v.negotiated = "" ∨ v.negotiated = "http/1.1"
    · rw [if_pos hhttp]
      exact ⟨hroot, hhttp⟩
    · have hraw : v.negotiated = "raw" := by
        simp only [gatewayProtos, List.mem_cons, List.not_mem_nil, or_false] at hproto
        exact hproto.resolve_right (fun h => hhttp h.symm)
      rw [if_neg hhttp, if_pos hraw, hraw]
      exact ⟨hroot, hraw, rfl⟩

/-- **Step lemma.** -/
theorem Step.routed (h : Step peerID rootDomain s a s') (hs : Routed peerID rootDomain s) :
    Routed peerID rootDomain s' := by
  have hout : ∀ {o v}, Right peerID rootDomain o v →
      ∀ e ∈ s.out ++ [(o, v)], Right peerID rootDomain e.1 e.2 :=
    fun hright => List.forall_mem_append.2 ⟨hs.out, List.forall_mem_singleton.2 hright⟩
  have hhandlers : ∀ i, ∀ v ∈ s.handlers.eraseIdx i, v.negotiated ∈ gatewayProtos :=
    fun i v hv => hs.handlers v (List.mem_of_mem_eraseIdx hv)
  -- the branch of `handleConnection` that is taken says where the connection belongs
  have hbelongs : ∀ {i : ℕ} {v : Visitor}, s.handlers[i]? = some v →
      Belongs peerID rootDomain v
        (handleConnection peerID rootDomain v.serverName v.negotiated) :=
    fun hi => belongs_of_mem _ _ (hs.handlers _ (List.mem_of_getElem? hi))
  cases h with
  | accept | stop | done => exact { hs with }
  | fail hi => exact { hs with out := hout trivial }
  | negotiate hi hload =>
      refine { hs with senders := ?_ }
      exact List.forall_mem_append.2 ⟨hs.senders, List.forall_mem_singleton.2 hload⟩
  | @send i l v ch hi hch =>
      refine { hs with
        senders := fun e he => hs.senders e (List.mem_of_mem_eraseIdx he)
        chan := ?_ }
      have hv := hs.senders (l, v) (List.mem_of_getElem? hi)
      exact forall_chan_update (P := fun l ch => ∀ v ∈ ch.buf, wiring.load v.negotiated = some l)
        hs.chan (forall_mem_send (hs.chan l) hv hch)
  | @recvClient v ch haccepting hch =>
      obtain ⟨hv, hrest⟩ := forall_mem_recv (hs.chan .clients) hch
      exact { hs with
        chan := forall_chan_update (P := fun l ch => ∀ v ∈ ch.buf,
          wiring.load v.negotiated = some l) hs.chan hrest
        out := hout (wiring_clients hv) }
  | @recvVisitor v ch haccepting hch =>
      obtain ⟨hv, hrest⟩ := forall_mem_recv (hs.chan .gateway) hch
      exact { hs with
        chan := forall_chan_update (P := fun l ch => ∀ v ∈ ch.buf,
          wiring.load v.negotiated = some l) hs.chan hrest
        handlers := List.forall_mem_append.2
          ⟨hs.handlers, List.forall_mem_singleton.2 (wiring_gateway hv)⟩ }
  | apex hi hserved hch =>
      have hv := hbelongs hi
      rw [hserved] at hv
      exact { hs with handlers := hhandlers _, apexCh := forall_mem_send hs.apexCh hv hch }
  | httpTunnel hi hserved hch =>
      have hv := hbelongs hi
      rw [hserved] at hv
      exact { hs with handlers := hhandlers _, httpCh := forall_mem_send hs.httpCh hv hch }
  | @forward i ok v l hi hserved =>
      have hv := hbelongs hi
      rw [hserved] at hv
      refine { hs with handlers := hhandlers i, out := hout ?_ }
      cases ok <;> exact hv
  | reject hi hserved =>
      have hv := hbelongs hi
      rw [hserved] at hv
      exact hv.elim
  | serveApex hch =>
      obtain ⟨hv, hrest⟩ := forall_mem_recv hs.apexCh hch
      exact { hs with apexCh := hrest, out := hout hv }
  | serveHttp hch =>
      obtain ⟨hv, hrest⟩ := forall_mem_recv hs.httpCh hch
      exact { hs with httpCh := hrest, out := hout hv }

/-- **Run lemma.** -/
theorem routed_of_run {tr : List (Front × Action)}
    (h : (machine peerID rootDomain).Run init tr s) :
    (∀ x, s.places x = if x < s.next then 1 else 0) ∧ Routed peerID rootDomain s := by
  refine h.preserves (I := fun s => (∀ x, s.places x = if x < s.next then 1 else 0) ∧
    Routed peerID rootDomain s) ⟨fun x => rfl, routed_init⟩ ?_
  intro s a s' hs hstep
  exact ⟨fun x => (step_rule hstep).places_eq (hs.1 x), (step_rule hstep).routed hs.2⟩

/-- How often a connection has come out. -/
def outs (s : Front) (x : ℕ) : ℕ := s.out.countP (fun e => e.2.id = x)

theorem sum_map_out (s : Front) (x : ℕ) :
    (s.out.map (fun e => if e.2.id = x then 1 else 0)).sum = s.outs x := by
  unfold outs
  induction s.out with
  | nil => rfl
  | cons e rest ih =>
      rw [List.map_cons, List.sum_cons, List.countP_cons, ih]
      by_cases he : e.2.id = x
      · simp only [he, if_true, decide_true]
        omega
      · simp only [he, if_false, decide_false, Bool.false_eq_true]
        omega

theorem outs_le_places (s : Front) (x : ℕ) : s.outs x ≤ s.places x := by
  rw [← sum_map_out]
  exact Nat.le_add_left _ _

/-- **Every connection is routed once, and rightly.** Over every interleaving: each connection that
    was accepted is at exactly one place; and one that has come out has come out once, where its
    host name and protocol say. So no connection is closed for want of a listener or by the last two
    branches of `handleConnection`. -/
theorem front_routes {tr : List (Front × Action)}
    (h : (machine peerID rootDomain).Run init tr s) :
    (∀ x, s.places x = if x < s.next then 1 else 0) ∧
      ∀ e ∈ s.out, s.outs e.2.id = 1 ∧ Right peerID rootDomain e.1 e.2 := by
  obtain ⟨hplaces, hrouted⟩ := routed_of_run h
  refine ⟨hplaces, fun e he => ⟨?_, hrouted.out e he⟩⟩
  have hpos : 0 < s.outs e.2.id := List.countP_pos_iff.2 ⟨e, he, by simp⟩
  have hle := outs_le_places s e.2.id
  rw [hplaces] at hle
  split at hle <;> omega

/-- A client of a tunnel connects, a visitor of the site and one of a tunnel, and one that gives
    up. -/
def fourConnections : List Action :=
  [Action.accept (Acme.ascii "t.io"), .accept (Acme.ascii "t.io"), .accept (Acme.ascii "a.t.io"),
    .accept (Acme.ascii "b.t.io"), .fail 3, .negotiate 0 "multiplexer", .negotiate 0 "http/1.1",
    .negotiate 0 "raw", .send 2, .send 1, .send 0, .recv .gateway, .recv .gateway, .recv .clients,
    .handle 1 true, .handle 0 true, .serveApex]

theorem front_routes_four :
    ∃ tr s, (machine 1 (Acme.ascii "t.io")).Run init tr s ∧ s.out.length = 4 ∧
      ∀ e ∈ s.out, s.outs e.2.id = 1 ∧ Right 1 (Acme.ascii "t.io") e.1 e.2 := by
  obtain ⟨s, hrun, hlen⟩ := (machine 1 (Acme.ascii "t.io")).run_of_exec_any init fourConnections
    (P := fun s => s.out.length = 4) (by decide +kernel)
  exact ⟨_, s, hrun, hlen, (front_routes hrun).2⟩

/-! ## Every connection comes out -/

/-- The steps that are left. -/
def rank (s : Front) : ℕ := s.total (fun st _ => st.left)

/-- **Step lemma.** -/
theorem Step.rank_le (h : Step peerID rootDomain s a s') :
    s'.rank + a.isWork.toNat + 5 * s.next ≤ s.rank + 5 * s'.next := by
  unfold rank
  cases ha : a.isWork with
  | true =>
      obtain ⟨⟨st, st', v, v', _, _, hlt, hall⟩, hnext⟩ := h.advances ha
      have hmove := hall (fun st _ => st.left)
      rw [hnext, Bool.toNat_true]
      omega
  | false =>
      rw [Bool.toNat_false]
      rcases h.arrives ha with ⟨n, _, hnext, hall⟩ | ⟨_, hnext, hall⟩
      · rw [hall, hnext, Stage.left]
        omega
      · rw [hall, hnext]
        omega

/-- **Run lemma.** The connections take at most five steps each, on average. -/
theorem work_le {t : Front} {tr : List (Front × Action)}
    (h : (machine peerID rootDomain).Run s tr t) :
    tr.countP (fun q => q.2.isWork) + t.rank + 5 * s.next ≤ s.rank + 5 * t.next := by
  induction h with
  | nil => simp
  | @snoc tr t u a hrun hst ih =>
      have hrank := (step_rule hst).rank_le
      rw [List.countP_append, List.countP_singleton]
      cases ha : a.isWork with
      | true =>
          rw [ha, Bool.toNat_true] at hrank
          simp only [if_true]
          omega
      | false =>
          rw [ha, Bool.toNat_false] at hrank
          simp only [Bool.false_eq_true, if_false]
          omega

/-- The steps that are left to the connection `x`. -/
def rankOf (x : ℕ) (s : Front) : ℕ := s.total (fun st v => if v.id = x then st.left else 0)

/-- A step of another connection, or of none, is none of `x`. -/
theorem Step.rankOf_le (h : Step peerID rootDomain s a s') (x : ℕ) :
    s'.rankOf x + (decide (a.conn s = some x)).toNat + (if x < s.next then 5 else 0)
      ≤ s.rankOf x + if x < s'.next then 5 else 0 := by
  unfold rankOf
  cases ha : a.isWork with
  | true =>
      obtain ⟨⟨st, st', v, v', hconn, hid, hlt, hall⟩, hnext⟩ := h.advances ha
      have hmove := hall (fun st v => if v.id = x then st.left else 0)
      rw [hnext, hconn]
      by_cases hx : v.id = x
      · simp only [hid, hx, if_true, decide_true, Bool.toNat_true] at hmove ⊢
        omega
      · simp only [hid, hx, if_false, Option.some.injEq, decide_false, Bool.toNat_false] at hmove ⊢
        omega
  | false =>
      have hconn : a.conn s = none := by
        cases a with
        | accept | stop | done => rfl
        | _ => cases ha
      rw [hconn]
      simp only [reduceCtorEq, decide_false, Bool.toNat_false, Nat.add_zero]
      rcases h.arrives ha with ⟨n, _, hnext, hall⟩ | ⟨_, hnext, hall⟩
      · rw [hall, hnext]
        by_cases hx : s.next = x
        · subst hx
          simp [Stage.left]
        · have hlt : x < s.next + 1 ↔ x < s.next := by omega
          simp only [hx, hlt, if_false, Nat.add_zero, Nat.le_refl]
      · rw [hall, hnext]

/-- **Run lemma.** Each connection takes at most five steps. -/
theorem steps_le {t : Front} {tr : List (Front × Action)}
    (h : (machine peerID rootDomain).Run init tr t) (x : ℕ) :
    tr.countP (fun q => decide (q.2.conn q.1 = some x)) + t.rankOf x
      ≤ if x < t.next then 5 else 0 := by
  induction h with
  | nil => simp [rankOf, total, init]
  | @snoc tr t u a hrun hst ih =>
      have hrank := (step_rule hst).rankOf_le x
      rw [List.countP_append, List.countP_singleton]
      by_cases hx : a.conn t = some x
      · simp only [hx, decide_true, Bool.toNat_true, if_true] at hrank ⊢
        omega
      · simp only [hx, decide_false, Bool.toNat_false, Bool.false_eq_true, if_false] at hrank ⊢
        omega

/-- No goroutine and no loop can take a step. -/
def AtRest (peerID : UInt64) (rootDomain : List UInt8) (s : Front) : Prop :=
  ∀ a, a.isWork = true → s.step peerID rootDomain a = none

section AtRest

variable (hrest : AtRest peerID rootDomain s)
include hrest

theorem AtRest.handshakes : s.handshakes = [] := by
  cases hlist : s.handshakes with
  | nil => rfl
  | cons v rest =>
      have hnone := hrest (.fail 0) rfl
      simp [step, hlist] at hnone

theorem AtRest.apexCh : s.apexCh.buf = [] := by
  have hnone := hrest .serveApex rfl
  rw [step, Option.map_eq_none_iff] at hnone
  exact Chan.recv_eq_none.1 hnone

theorem AtRest.httpCh : s.httpCh.buf = [] := by
  have hnone := hrest .serveHttp rfl
  rw [step, Option.map_eq_none_iff] at hnone
  exact Chan.recv_eq_none.1 hnone

theorem AtRest.handlers : s.handlers = [] := by
  cases hlist : s.handlers with
  | nil => rfl
  | cons v rest =>
      have hnone := hrest (.handle 0 true) rfl
      have happ : s.handleStep peerID rootDomain 0 v true = none := by
        simpa [step, hlist] using hnone
      unfold handleStep at happ
      split at happ
      · rw [Option.map_eq_none_iff, Chan.send_eq_none, Chan.IsFull, hrest.apexCh] at happ
        cases happ
      · rw [Option.map_eq_none_iff, Chan.send_eq_none, Chan.IsFull, hrest.httpCh] at happ
        cases happ
      · cases happ
      · cases happ

variable (haccepting : ∀ l, s.accepting l = true)
include haccepting

theorem AtRest.chan (l : Listener) : (s.chan l).buf = [] := by
  have hnone := hrest (.recv l) rfl
  rw [step, if_pos (haccepting l), Option.map_eq_none_iff] at hnone
  exact Chan.recv_eq_none.1 hnone

theorem AtRest.senders : s.senders = [] := by
  cases hlist : s.senders with
  | nil => rfl
  | cons e rest =>
      have hnone := hrest (.send 0) rfl
      simp only [step, hlist, List.getElem?_cons_zero, Option.bind_some, Option.map_eq_none_iff,
        Chan.send_eq_none, Chan.IsFull, hrest.chan haccepting] at hnone
      cases hnone

/-- At rest all connections are out. -/
theorem AtRest.places_eq (x : ℕ) : s.places x = s.outs x := by
  rw [← sum_map_out]
  simp only [places, total, hrest.handshakes, hrest.senders haccepting, hrest.chan haccepting,
    hrest.handlers, hrest.apexCh, hrest.httpCh, List.map_nil, List.sum_nil, Nat.zero_add]

end AtRest

/-- **Every connection comes out.** Over every interleaving, a connection takes at most five steps,
    so all of them five times their number; and while both loops run, the gateway comes to rest only
    when every connection that was accepted has come out. -/
theorem front_settles {tr : List (Front × Action)}
    (h : (machine peerID rootDomain).Run init tr s) :
    (∀ x, tr.countP (fun q => decide (q.2.conn q.1 = some x)) ≤ 5) ∧
      tr.countP (fun q => q.2.isWork) ≤ 5 * s.next ∧
      ((∀ l, s.accepting l = true) → AtRest peerID rootDomain s →
        ∀ x, x < s.next → s.outs x = 1) := by
  refine ⟨fun x => ?_, ?_, ?_⟩
  · have hsteps := steps_le h x
    split at hsteps <;> omega
  · have hwork := work_le h
    have hrank : (init : Front).rank = 0 := rfl
    have hnext : (init : Front).next = 0 := rfl
    rw [hrank, hnext] at hwork
    omega
  · intro haccepting hrest x hx
    rw [← hrest.places_eq haccepting, (routed_of_run h).1, if_pos hx]

/-- A gateway without a connection on its way is at rest. -/
theorem atRest_of_empty (h : s.handshakes = [] ∧ s.senders = [] ∧
    (∀ l, (s.chan l).buf = []) ∧ s.handlers = [] ∧ s.apexCh.buf = [] ∧ s.httpCh.buf = []) :
    AtRest peerID rootDomain s := by
  obtain ⟨hhandshakes, hsenders, hchan, hhandlers, hapex, hhttp⟩ := h
  intro a ha
  cases a with
  | accept | stop | done => cases ha
  | fail | negotiate => simp [step, hhandshakes]
  | send => simp [step, hsenders]
  | recv l =>
      rw [step, Chan.recv_eq_none.2 (hchan l)]
      split <;> rfl
  | handle => simp [step, hhandlers]
  | serveApex => rw [step, Chan.recv_eq_none.2 hapex, Option.map_none]
  | serveHttp => rw [step, Chan.recv_eq_none.2 hhttp, Option.map_none]

theorem front_settles_four :
    ∃ tr s, (machine 1 (Acme.ascii "t.io")).Run init tr s ∧
      tr.countP (fun q => decide (q.2.conn q.1 = some 1)) ≤ 5 ∧
      tr.countP (fun q => q.2.isWork) ≤ 20 ∧ ∀ x, x < 4 → s.outs x = 1 := by
  obtain ⟨s, hrun, hnext, hclients, hgateway, hempty⟩ :=
    (machine 1 (Acme.ascii "t.io")).run_of_exec_any init fourConnections
      (P := fun s => s.next = 4 ∧ s.accepting .clients = true ∧ s.accepting .gateway = true ∧
        s.handshakes = [] ∧ s.senders = [] ∧ (s.chan .clients).buf = [] ∧
        (s.chan .gateway).buf = [] ∧ s.handlers = [] ∧ s.apexCh.buf = [] ∧ s.httpCh.buf = [])
      (by decide +kernel)
  obtain ⟨hhandshakes, hsenders, hchan, hchan', hrest⟩ := hempty
  have haccepting : ∀ l, s.accepting l = true := by
    intro l
    cases l with
    | clients => exact hclients
    | gateway => exact hgateway
  have hbufs : ∀ l, (s.chan l).buf = [] := by
    intro l
    cases l with
    | clients => exact hchan
    | gateway => exact hchan'
  obtain ⟨hsteps, hwork, hout⟩ := front_settles hrun
  rw [hnext] at hwork hout
  exact ⟨_, s, hrun, hsteps 1, hwork,
    hout haccepting (atRest_of_empty ⟨hhandshakes, hsenders, hbufs, hrest⟩)⟩

/-! ## What the end of a loop leaves behind -/

/-- The connection waits for a loop. -/
def Waits (l : Listener) (v : Visitor) (s : Front) : Prop :=
  v ∈ (s.chan l).buf ∨ (l, v) ∈ s.senders

/-- **Step lemma.** A loop that has returned takes nothing any more. -/
theorem Step.waits (h : Step peerID rootDomain s a s') {l : Listener} {v : Visitor}
    (hloop : s.accepting l = false) (hv : Waits l v s) :
    s'.accepting l = false ∧ Waits l v s' := by
  cases h with
  | negotiate => exact ⟨hloop, hv.imp_right (List.mem_append_left _)⟩
  | @send i l' v' ch hi hch =>
      refine ⟨hloop, ?_⟩
      have hbuf := (Chan.send_eq_some.1 hch).2
      rcases hv with hv | hv
      · left
        by_cases hl : l = l'
        · subst hl
          simp only [Function.update_self, hbuf]
          exact List.mem_append_left _ hv
        · simp only [Function.update_of_ne hl]
          exact hv
      · -- the sender that gets through is another one, or its connection is in the buffer now
        rcases mem_eraseIdx_or_eq hi hv with hv | heq
        · exact Or.inr hv
        · cases heq
          left
          simp only [Function.update_self, hbuf]
          exact List.mem_append_right _ (List.mem_singleton_self v)
  | @recvClient v' ch haccepting hch =>
      have hl : l ≠ .clients := by
        rintro rfl
        rw [hloop] at haccepting
        cases haccepting
      simp only [Waits, Function.update_of_ne hl]
      exact ⟨hloop, hv⟩
  | @recvVisitor v' ch haccepting hch =>
      have hl : l ≠ .gateway := by
        rintro rfl
        rw [hloop] at haccepting
        cases haccepting
      simp only [Waits, Function.update_of_ne hl]
      exact ⟨hloop, hv⟩
  | @done l' =>
      refine ⟨?_, hv⟩
      by_cases hl : l = l'
      · subst hl
        simp only [Function.update_self]
      · simp only [Function.update_of_ne hl]
        exact hloop
  | _ => exact ⟨hloop, hv⟩

/-- A connection that waits has not come out. -/
theorem Waits.outs_eq_zero {l : Listener} {v : Visitor} (hv : Waits l v s)
    (hplaces : ∀ x, s.places x = if x < s.next then 1 else 0) : s.outs v.id = 0 := by
  have hone : s.places v.id ≤ 1 := by
    rw [hplaces]
    split <;> omega
  rw [places, total, sum_map_out] at hone
  rcases hv with hv | hv
  · have hpos := List.le_sum_of_mem (List.mem_map_of_mem hv
      (f := fun w : Visitor => if w.id = v.id then 1 else 0))
    simp only [if_true] at hpos
    cases l <;> omega
  · have hpos := List.le_sum_of_mem (List.mem_map_of_mem hv
      (f := fun e : Listener × Visitor => if e.2.id = v.id then 1 else 0))
    simp only [if_true] at hpos
    omega

/-- **The end of a loop abandons what waits for it.** When the loop behind a listener has returned,
    a connection that is in the buffer of the listener, or whose goroutine is at its send, stays
    there over every further run: it is never handed on, and it is never closed. -/
theorem front_abandons {tr tr' : List (Front × Action)} {t : Front}
    (h : (machine peerID rootDomain).Run init tr s) {l : Listener}
    (hloop : s.accepting l = false) {v : Visitor} (hv : Waits l v s)
    (h' : (machine peerID rootDomain).Run s tr' t) :
    Waits l v t ∧ t.outs v.id = 0 := by
  obtain ⟨_, hwaits⟩ : t.accepting l = false ∧ Waits l v t := by
    refine h'.preserves (I := fun u => u.accepting l = false ∧ Waits l v u) ⟨hloop, hv⟩ ?_
    intro u a u' hu hstep
    exact (step_rule hstep).waits hu.1 hu.2
  exact ⟨hwaits, hwaits.outs_eq_zero (routed_of_run (h.append h')).1⟩

/-- A visitor is in the buffer when the mux ends and the loop of the gateway returns; a second one
    comes out of its handshake after that. -/
def lateVisitors : List Action :=
  [.accept (Acme.ascii "a.t.io"), .accept (Acme.ascii "b.t.io"), .negotiate 0 "raw", .send 0, .stop,
    .done .gateway]

theorem front_abandons_buffered :
    ∃ tr t v, (machine 1 (Acme.ascii "t.io")).Run init tr t ∧ t.handshakes = [] ∧
      Waits .gateway v t ∧ t.outs v.id = 0 := by
  obtain ⟨s, hrun, hloop, hwaits, hexec⟩ :=
    (machine 1 (Acme.ascii "t.io")).run_of_exec_any init lateVisitors
      (P := fun s => s.accepting .gateway = false ∧
        (⟨0, Acme.ascii "a.t.io", "raw"⟩ : Visitor) ∈ (s.chan .gateway).buf ∧
        ((machine 1 (Acme.ascii "t.io")).exec s [.negotiate 0 "http/1.1", .send 0]).any (fun t =>
          decide (t.handshakes = [])) = true) (by decide +kernel)
  obtain ⟨t, hrun', hdone⟩ := Machine.run_of_exec_any _ _ _ hexec
  obtain ⟨hstill, hnone⟩ := front_abandons hrun hloop (Or.inl hwaits) hrun'
  exact ⟨_, t, _, hrun.append hrun', hdone, hstill, hnone⟩

end Tunnel.Gateway.Front
