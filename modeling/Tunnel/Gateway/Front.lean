import Mathlib.Logic.Function.Basic
import Tunnel.Gateway.Sni
import Tunnel.Lib.Chan
import Tunnel.Lib.Machine
import Tunnel.Lib.Pool
import Tunnel.Lib.SyncMap

set_option autoImplicit false

/-! # The way of a connection through the gateway (`gateway/alpn.go`, `gateway/gateway.go`,
`gateway/accepter.go`, `cmd/server/main.go`)

Clients of tunnels and visitors of tunnels connect to the same port. `ALPN.Serve` accepts them all
and gives each connection a goroutine of its own, which does the TLS handshake and sends the
connection to the listener that was registered for the protocol it negotiated. Behind one listener
is the loop of `ListenForClients`; behind the other one that of `Gateway.Start`, which gives each
connection a goroutine again, for `handleConnection`. That one serves the site over an
`httpAccepter` whose `Accept` is called by an HTTP server, the tunnels of HTTP clients over a second
one, and forwards what is neither.

On this way a connection passes through stages, and is at one place at a time (`places_eq`). -/

namespace Tunnel.Gateway

open Tunnel.Lib Tunnel.Multiplexer

/-- A connection, with the name that it asked for and the protocol that was negotiated. -/
structure Visitor where
  id : ℕ
  serverName : List UInt8
  negotiated : String
deriving DecidableEq

/-- The listeners that `main` makes of the mux. -/
inductive Listener
  | clients
  | gateway
deriving DecidableEq

/-- `ALPN.For`, on the map of the mux. -/
def alpnFor (protos : SyncMap String Listener) (l : Listener) (names : List ALPN) :
    SyncMap String Listener :=
  names.foldl (fun m name => m.store name.string l) protos

/-- The listeners of the mux that `main` sets up (main.go:244-245). -/
def wiring : SyncMap String Listener :=
  alpnFor (alpnFor ∅ .clients [.multiplexer]) .gateway [.raw, .http, .unknown]

/-- `alpn.Protos`, which `main` gives to the TLS library; that negotiates one of these, the empty
    one if the other side offers none. -/
def alpnProtos : List String := alpnNames.map Prod.fst

/-- What became of a connection: its handshake failed; no listener was found for its protocol; it
    was handed to `clientTLSHandshake`; to the HTTP server of the site; to that of the tunnels; it
    was forwarded under a link, or closed because that failed; it was closed by one of the last two
    branches of `handleConnection`. -/
inductive Outcome
  | failed
  | unroutable
  | clients
  | apex
  | http
  | forwarded (l : Link)
  | notForwarded (l : Link)
  | rejected
deriving DecidableEq

/-- The gateway: the goroutines of `ALPN.handshake`, those that are at their send and to where; the
    channels of the listeners, and whether their loops run; the goroutines of `handleConnection`;
    the channels of the two `httpAccepter`s; and what has come out. -/
structure Front where
  next : ℕ
  serving : Bool
  handshakes : List Visitor
  senders : List (Listener × Visitor)
  chan : Listener → Chan Visitor 32
  accepting : Listener → Bool
  handlers : List Visitor
  apexCh : Chan Visitor 1024
  httpCh : Chan Visitor 1024
  out : List (Outcome × Visitor)

namespace Front

def init : Front where
  next := 0
  serving := true
  handshakes := []
  senders := []
  chan _ := Chan.empty
  accepting _ := true
  handlers := []
  apexCh := Chan.empty
  httpCh := Chan.empty
  out := []

/-- A step: `Serve` accepts a connection, or returns; the `i`-th handshake fails, or succeeds with a
    protocol; the `i`-th goroutine that is at its send gets through; a loop receives a connection,
    or finds that the mux is done; the `i`-th `handleConnection` does its work; an HTTP server
    accepts a connection. -/
inductive Action
  | accept (serverName : List UInt8)
  | stop
  | fail (i : ℕ)
  | negotiate (i : ℕ) (proto : String)
  | send (i : ℕ)
  | recv (l : Listener)
  | done (l : Listener)
  | handle (i : ℕ) (ok : Bool)
  | serveApex
  | serveHttp
deriving DecidableEq

/-- Steps that need nothing from outside but that the other side of a connection goes on, or does
    not. -/
def Action.isWork : Action → Bool
  | .accept _ | .stop | .done _ => false
  | .fail _ | .negotiate _ _ | .send _ | .recv _ | .handle _ _ | .serveApex | .serveHttp => true

/-- The connection whose step it is. -/
def Action.conn (s : Front) : Action → Option ℕ
  | .accept _ | .stop | .done _ => none
  | .fail i | .negotiate i _ => s.handshakes[i]?.map Visitor.id
  | .send i => s.senders[i]?.map (fun e => e.2.id)
  | .recv l => (s.chan l).recv.map (fun next => next.1.id)
  | .handle i _ => s.handlers[i]?.map Visitor.id
  | .serveApex => s.apexCh.recv.map (fun next => next.1.id)
  | .serveHttp => s.httpCh.recv.map (fun next => next.1.id)

section Step

variable (peerID : UInt64) (rootDomain : List UInt8)

/-- `handleConnection` of the `i`-th goroutine (gateway.go:87-129). -/
def handleStep (s : Front) (i : ℕ) (v : Visitor) (ok : Bool) : Option Front :=
  match handleConnection peerID rootDomain v.serverName v.negotiated with
  | .apex => (s.apexCh.send v).map (fun ch =>
      { s with handlers := s.handlers.eraseIdx i, apexCh := ch })
  | .httpTunnel => (s.httpCh.send v).map (fun ch =>
      { s with handlers := s.handlers.eraseIdx i, httpCh := ch })
  | .forward l => some
      { s with
        handlers := s.handlers.eraseIdx i
        out := s.out ++ [(if ok = true then .forwarded l else .notForwarded l, v)] }
  | .closed => some
      { s with handlers := s.handlers.eraseIdx i, out := s.out ++ [(.rejected, v)] }

/-- One step. The TLS library calls `checkClientSNI` at the end of a handshake. -/
def step (s : Front) : Action → Option Front
  | .accept serverName =>
      if s.serving = true then some
        { s with
          next := s.next + 1
          handshakes := s.handshakes ++ [⟨s.next, serverName, ""⟩] }
      else none
  | .stop => if s.serving = true then some { s with serving := false } else none
  | .fail i => s.handshakes[i]?.map (fun v =>
      { s with handshakes := s.handshakes.eraseIdx i, out := s.out ++ [(.failed, v)] })
  | .negotiate i proto => s.handshakes[i]?.bind (fun v =>
      if proto ∈ alpnProtos ∧ checkClientSNI rootDomain v.serverName = .ok () then
        match wiring.load proto with
        | none => some
            { s with
              handshakes := s.handshakes.eraseIdx i
              out := s.out ++ [(.unroutable, { v with negotiated := proto })] }
        | some l => some
            { s with
              handshakes := s.handshakes.eraseIdx i
              senders := s.senders ++ [(l, { v with negotiated := proto })] }
      else none)
  | .send i => s.senders[i]?.bind (fun e => ((s.chan e.1).send e.2).map (fun ch =>
      { s with senders := s.senders.eraseIdx i, chan := Function.update s.chan e.1 ch }))
  | .recv l =>
      if s.accepting l = true then (s.chan l).recv.map (fun next =>
        match l with
        | .clients =>
            { s with
              chan := Function.update s.chan .clients next.2
              out := s.out ++ [(.clients, next.1)] }
        | .gateway =>
            { s with
              chan := Function.update s.chan .gateway next.2
              handlers := s.handlers ++ [next.1] })
      else none
  | .done l =>
      if s.accepting l = true ∧ s.serving = false then
        some { s with accepting := Function.update s.accepting l false }
      else none
  | .handle i ok => s.handlers[i]?.bind (fun v => s.handleStep peerID rootDomain i v ok)
  | .serveApex => s.apexCh.recv.map (fun next =>
      { s with apexCh := next.2, out := s.out ++ [(.apex, next.1)] })
  | .serveHttp => s.httpCh.recv.map (fun next =>
      { s with httpCh := next.2, out := s.out ++ [(.http, next.1)] })

/-- The gateway, over every interleaving. -/
def machine : Machine Front Action where
  Init s := s = init
  step s a := s.step peerID rootDomain a

end Step

/-! ## The listeners -/

/-- A listener is found under the names that it was registered for last. -/
theorem load_alpnFor (m : SyncMap String Listener) (l : Listener) (names : List ALPN)
    (proto : String) : (alpnFor m l names).load proto =
      if proto ∈ names.map ALPN.string then some l else m.load proto := by
  induction names generalizing m with
  | nil => simp [alpnFor]
  | cons name rest ih =>
      have hcons : alpnFor m l (name :: rest) = alpnFor (m.store name.string l) l rest := rfl
      rw [hcons, ih, List.map_cons]
      by_cases hrest : proto ∈ rest.map ALPN.string
      · rw [if_pos hrest, if_pos (List.mem_cons_of_mem _ hrest)]
      · rw [if_neg hrest]
        by_cases hname : proto = name.string
        · subst hname
          rw [SyncMap.load_store_self, if_pos List.mem_cons_self]
        · rw [SyncMap.load_store_ne _ _ hname, if_neg]
          simp only [List.mem_cons, not_or]
          exact ⟨hname, hrest⟩

/-- Every protocol that can be negotiated has a listener: the gateway has those of visitors, and the
    clients of tunnels have theirs. -/
theorem load_wiring (proto : String) : wiring.load proto =
    if proto ∈ gatewayProtos then some .gateway
    else if proto = "multiplexer" then some .clients else none := by
  have hnames : [ALPN.raw, .http, .unknown].map ALPN.string = gatewayProtos := rfl
  have hname : [ALPN.multiplexer].map ALPN.string = ["multiplexer"] := rfl
  rw [wiring, load_alpnFor, load_alpnFor, hnames, hname]
  simp only [List.mem_singleton, SyncMap.load_empty]

theorem isSome_wiring {proto : String} (h : proto ∈ alpnProtos) :
    (wiring.load proto).isSome = true := by
  have hnames : alpnProtos = ["", "multiplexer", "http/1.1", "raw"] := rfl
  rw [load_wiring]
  simp only [hnames, List.mem_cons, List.not_mem_nil, or_false] at h
  rcases h with rfl | rfl | rfl | rfl <;> decide

/-! ## What a step can do -/

/-- The steps, one rule each. -/
inductive Step (peerID : UInt64) (rootDomain : List UInt8) (s : Front) : Action → Front → Prop
  | accept {serverName : List UInt8} (hserving : s.serving = true) :
      Step peerID rootDomain s (.accept serverName)
        { s with
          next := s.next + 1
          handshakes := s.handshakes ++ [⟨s.next, serverName, ""⟩] }
  | stop : Step peerID rootDomain s .stop { s with serving := false }
  | fail {i : ℕ} {v : Visitor} (hi : s.handshakes[i]? = some v) :
      Step peerID rootDomain s (.fail i)
        { s with handshakes := s.handshakes.eraseIdx i, out := s.out ++ [(.failed, v)] }
  | negotiate {i : ℕ} {v : Visitor} {proto : String} {l : Listener}
      (hi : s.handshakes[i]? = some v) (hload : wiring.load proto = some l) :
      Step peerID rootDomain s (.negotiate i proto)
        { s with
          handshakes := s.handshakes.eraseIdx i
          senders := s.senders ++ [(l, { v with negotiated := proto })] }
  | send {i : ℕ} {l : Listener} {v : Visitor} {ch : Chan Visitor 32}
      (hi : s.senders[i]? = some (l, v)) (hch : (s.chan l).send v = some ch) :
      Step peerID rootDomain s (.send i)
        { s with senders := s.senders.eraseIdx i, chan := Function.update s.chan l ch }
  | recvClient {v : Visitor} {ch : Chan Visitor 32} (haccepting : s.accepting .clients = true)
      (hch : (s.chan .clients).recv = some (v, ch)) :
      Step peerID rootDomain s (.recv .clients)
        { s with
          chan := Function.update s.chan .clients ch
          out := s.out ++ [(.clients, v)] }
  | recvVisitor {v : Visitor} {ch : Chan Visitor 32} (haccepting : s.accepting .gateway = true)
      (hch : (s.chan .gateway).recv = some (v, ch)) :
      Step peerID rootDomain s (.recv .gateway)
        { s with
          chan := Function.update s.chan .gateway ch
          handlers := s.handlers ++ [v] }
  | done {l : Listener} :
      Step peerID rootDomain s (.done l)
        { s with accepting := Function.update s.accepting l false }
  | apex {i : ℕ} {ok : Bool} {v : Visitor} {ch : Chan Visitor 1024}
      (hi : s.handlers[i]? = some v)
      (hserved : handleConnection peerID rootDomain v.serverName v.negotiated = .apex)
      (hch : s.apexCh.send v = some ch) :
      Step peerID rootDomain s (.handle i ok)
        { s with handlers := s.handlers.eraseIdx i, apexCh := ch }
  | httpTunnel {i : ℕ} {ok : Bool} {v : Visitor} {ch : Chan Visitor 1024}
      (hi : s.handlers[i]? = some v)
      (hserved : handleConnection peerID rootDomain v.serverName v.negotiated = .httpTunnel)
      (hch : s.httpCh.send v = some ch) :
      Step peerID rootDomain s (.handle i ok)
        { s with handlers := s.handlers.eraseIdx i, httpCh := ch }
  | forward {i : ℕ} {ok : Bool} {v : Visitor} {l : Link} (hi : s.handlers[i]? = some v)
      (hserved : handleConnection peerID rootDomain v.serverName v.negotiated = .forward l) :
      Step peerID rootDomain s (.handle i ok)
        { s with
          handlers := s.handlers.eraseIdx i
          out := s.out ++ [(if ok = true then .forwarded l else .notForwarded l, v)] }
  | reject {i : ℕ} {ok : Bool} {v : Visitor} (hi : s.handlers[i]? = some v)
      (hserved : handleConnection peerID rootDomain v.serverName v.negotiated = .closed) :
      Step peerID rootDomain s (.handle i ok)
        { s with handlers := s.handlers.eraseIdx i, out := s.out ++ [(.rejected, v)] }
  | serveApex {v : Visitor} {ch : Chan Visitor 1024} (hch : s.apexCh.recv = some (v, ch)) :
      Step peerID rootDomain s .serveApex { s with apexCh := ch, out := s.out ++ [(.apex, v)] }
  | serveHttp {v : Visitor} {ch : Chan Visitor 1024} (hch : s.httpCh.recv = some (v, ch)) :
      Step peerID rootDomain s .serveHttp { s with httpCh := ch, out := s.out ++ [(.http, v)] }

variable {peerID : UInt64} {rootDomain : List UInt8} {s s' : Front} {a : Action}

theorem handleStep_rule {i : ℕ} {v : Visitor} {ok : Bool} (hi : s.handlers[i]? = some v)
    (h : s.handleStep peerID rootDomain i v ok = some s') :
    Step peerID rootDomain s (.handle i ok) s' := by
  unfold handleStep at h
  split at h
  · next hserved =>
      obtain ⟨ch, hch, rfl⟩ := Option.map_eq_some_iff.1 h
      exact .apex hi hserved hch
  · next hserved =>
      obtain ⟨ch, hch, rfl⟩ := Option.map_eq_some_iff.1 h
      exact .httpTunnel hi hserved hch
  · next l hserved =>
      cases h
      exact .forward hi hserved
  · next hserved =>
      cases h
      exact .reject hi hserved

theorem step_rule (h : s.step peerID rootDomain a = some s') :
    Step peerID rootDomain s a s' := by
  cases a with
  | accept serverName =>
      simp only [step, Option.ite_none_right_eq_some, Option.some.injEq] at h
      obtain ⟨hserving, rfl⟩ := h
      exact .accept hserving
  | stop =>
      simp only [step, Option.ite_none_right_eq_some, Option.some.injEq] at h
      obtain ⟨_, rfl⟩ := h
      exact .stop
  | fail i =>
      obtain ⟨v, hi, rfl⟩ := Option.map_eq_some_iff.1 h
      exact .fail hi
  | negotiate i proto =>
      obtain ⟨v, hi, h⟩ := Option.bind_eq_some_iff.1 h
      split at h
      · next hproto =>
          obtain ⟨l, hload⟩ := Option.isSome_iff_exists.1 (isSome_wiring hproto.1)
          rw [hload] at h
          cases h
          exact .negotiate hi hload
      · cases h
  | send i =>
      obtain ⟨⟨l, v⟩, hi, h⟩ := Option.bind_eq_some_iff.1 h
      obtain ⟨ch, hch, rfl⟩ := Option.map_eq_some_iff.1 h
      exact .send hi hch
  | recv l =>
      simp only [step, Option.ite_none_right_eq_some, Option.map_eq_some_iff] at h
      obtain ⟨haccepting, ⟨v, ch⟩, hch, rfl⟩ := h
      cases l with
      | clients => exact .recvClient haccepting hch
      | gateway => exact .recvVisitor haccepting hch
  | done l =>
      simp only [step, Option.ite_none_right_eq_some, Option.some.injEq] at h
      obtain ⟨_, rfl⟩ := h
      exact .done
  | handle i ok =>
      obtain ⟨v, hi, h⟩ := Option.bind_eq_some_iff.1 h
      exact handleStep_rule hi h
  | serveApex =>
      obtain ⟨⟨v, ch⟩, hch, rfl⟩ := Option.map_eq_some_iff.1 h
      exact .serveApex hch
  | serveHttp =>
      obtain ⟨⟨v, ch⟩, hch, rfl⟩ := Option.map_eq_some_iff.1 h
      exact .serveHttp hch

/-! ## Stages -/

/-- The stages of the way. -/
inductive Stage
  | handshake
  | sending
  | listening
  | handling
  | accepter
  | out

/-- What `f` counts, summed up over all connections. -/
def total (f : Stage → Visitor → ℕ) (s : Front) : ℕ :=
  (s.handshakes.map (f .handshake)).sum + (s.senders.map (fun e => f .sending e.2)).sum +
    ((s.chan .clients).buf.map (f .listening)).sum +
    ((s.chan .gateway).buf.map (f .listening)).sum + (s.handlers.map (f .handling)).sum +
    (s.apexCh.buf.map (f .accepter)).sum + (s.httpCh.buf.map (f .accepter)).sum +
    (s.out.map (fun e => f .out e.2)).sum

/-- How many steps are left at a stage. -/
def Stage.left : Stage → ℕ
  | .handshake => 5
  | .sending => 4
  | .listening => 3
  | .handling => 2
  | .accepter => 1
  | .out => 0

/-- The step takes the connection whose step it is from one stage to a later one. -/
def Advances (s : Front) (a : Action) (s' : Front) : Prop :=
  ∃ (st st' : Stage) (v v' : Visitor), a.conn s = some v.id ∧ v'.id = v.id ∧
    st'.left < st.left ∧ ∀ f, s'.total f + f st v = s.total f + f st' v'

/-- A sum over the channels of the listeners, when one of them changes. -/
theorem sum_chan_update (g : List Visitor → ℕ) (chan : Listener → Chan Visitor 32) (l : Listener)
    (ch : Chan Visitor 32) :
    g (Function.update chan l ch .clients).buf + g (Function.update chan l ch .gateway).buf
        + g (chan l).buf
      = g (chan .clients).buf + g (chan .gateway).buf + g ch.buf := by
  cases l with
  | clients =>
      rw [Function.update_self, Function.update_of_ne (by decide)]
      omega
  | gateway =>
      rw [Function.update_self, Function.update_of_ne (by decide)]
      omega

theorem sum_map_concat (f : Visitor → ℕ) (l : List Visitor) (v : Visitor) :
    ((l ++ [v]).map f).sum = (l.map f).sum + f v := by
  rw [List.map_append, List.sum_append, List.map_singleton, List.sum_singleton]

/-- A send adds its summand, and a receive takes one away. -/
theorem sum_map_send {cap : ℕ} (f : Visitor → ℕ) {c c' : Chan Visitor cap} {v : Visitor}
    (h : c.send v = some c') : (c'.buf.map f).sum = (c.buf.map f).sum + f v := by
  rw [(Chan.send_eq_some.1 h).2, sum_map_concat]

theorem sum_map_recv {cap : ℕ} (f : Visitor → ℕ) {c c' : Chan Visitor cap} {v : Visitor}
    (h : c.recv = some (v, c')) : (c.buf.map f).sum = f v + (c'.buf.map f).sum := by
  rw [Chan.recv_eq_some.1 h, List.map_cons, List.sum_cons]

/-- A step that is work takes a connection to a later stage. -/
theorem Step.advances (h : Step peerID rootDomain s a s') (ha : a.isWork = true) :
    Advances s a s' ∧ s'.next = s.next := by
  cases h with
  | accept | stop | done => cases ha
  | @fail i v hi =>
      refine ⟨⟨.handshake, .out, v, v, by simp [Action.conn, hi], rfl, by decide,
        fun f => ?_⟩, rfl⟩
      have hfrom := sum_map_eraseIdx_add (f .handshake) hi
      simp only [total, List.map_append, List.sum_append, List.map_singleton, List.sum_singleton]
      omega
  | @negotiate i v proto l hi hload =>
      refine ⟨⟨.handshake, .sending, v, { v with negotiated := proto },
        by simp [Action.conn, hi], rfl, by decide, fun f => ?_⟩, rfl⟩
      have hfrom := sum_map_eraseIdx_add (f .handshake) hi
      simp only [total, List.map_append, List.sum_append, List.map_singleton, List.sum_singleton]
      omega
  | @send i l v ch hi hch =>
      refine ⟨⟨.sending, .listening, v, v, by simp [Action.conn, hi], rfl, by decide,
        fun f => ?_⟩, rfl⟩
      have hfrom := sum_map_eraseIdx_add (fun e => f .sending e.2) hi
      have hto := sum_map_send (f .listening) hch
      have hchan := sum_chan_update (fun b => (b.map (f .listening)).sum) s.chan l ch
      simp only [total] at hfrom hchan ⊢
      omega
  | @recvClient v ch haccepting hch =>
      refine ⟨⟨.listening, .out, v, v, by simp [Action.conn, hch], rfl, by decide,
        fun f => ?_⟩, rfl⟩
      have hfrom := sum_map_recv (f .listening) hch
      have hchan := sum_chan_update (fun b => (b.map (f .listening)).sum) s.chan .clients ch
      simp only [total, List.map_append, List.sum_append, List.map_singleton,
        List.sum_singleton] at hchan ⊢
      omega
  | @recvVisitor v ch haccepting hch =>
      refine ⟨⟨.listening, .handling, v, v, by simp [Action.conn, hch], rfl, by decide,
        fun f => ?_⟩, rfl⟩
      have hfrom := sum_map_recv (f .listening) hch
      have hchan := sum_chan_update (fun b => (b.map (f .listening)).sum) s.chan .gateway ch
      simp only [total, List.map_append, List.sum_append, List.map_singleton,
        List.sum_singleton] at hchan ⊢
      omega
  | @apex i ok v ch hi hserved hch | @httpTunnel i ok v ch hi hserved hch =>
      refine ⟨⟨.handling, .accepter, v, v, by simp [Action.conn, hi], rfl, by decide,
        fun f => ?_⟩, rfl⟩
      have hfrom := sum_map_eraseIdx_add (f .handling) hi
      have hto := sum_map_send (f .accepter) hch
      simp only [total]
      omega
  | @forward i ok v l hi hserved =>
      refine ⟨⟨.handling, .out, v, v, by simp [Action.conn, hi], rfl, by decide,
        fun f => ?_⟩, rfl⟩
      have hfrom := sum_map_eraseIdx_add (f .handling) hi
      simp only [total, List.map_append, List.sum_append, List.map_singleton, List.sum_singleton]
      omega
  | @reject i ok v hi hserved =>
      refine ⟨⟨.handling, .out, v, v, by simp [Action.conn, hi], rfl, by decide,
        fun f => ?_⟩, rfl⟩
      have hfrom := sum_map_eraseIdx_add (f .handling) hi
      simp only [total, List.map_append, List.sum_append, List.map_singleton, List.sum_singleton]
      omega
  | @serveApex v ch hch | @serveHttp v ch hch =>
      refine ⟨⟨.accepter, .out, v, v, by simp [Action.conn, hch], rfl, by decide,
        fun f => ?_⟩, rfl⟩
      have hfrom := sum_map_recv (f .accepter) hch
      simp only [total, List.map_append, List.sum_append, List.map_singleton, List.sum_singleton]
      omega

/-- A step that is not work brings in a new connection, or leaves them all where they are. -/
theorem Step.arrives (h : Step peerID rootDomain s a s') (ha : a.isWork = false) :
    (∃ n, a = .accept n ∧ s'.next = s.next + 1 ∧
        ∀ f, s'.total f = s.total f + f .handshake ⟨s.next, n, ""⟩) ∨
      (∀ n, a ≠ .accept n) ∧ s'.next = s.next ∧ ∀ f, s'.total f = s.total f := by
  cases h with
  | @accept n hserving =>
      refine Or.inl ⟨n, rfl, rfl, fun f => ?_⟩
      simp only [total, sum_map_concat]
      omega
  | stop | done => exact Or.inr ⟨by simp, rfl, fun f => rfl⟩
  | _ => cases ha

/-! ## Every connection is at one place -/

/-- In how many places the connection `x` is. -/
def places (s : Front) (x : ℕ) : ℕ := s.total (fun _ v => if v.id = x then 1 else 0)

/-- **Step lemma.** -/
theorem Step.places_eq (h : Step peerID rootDomain s a s') {x : ℕ}
    (hs : s.places x = if x < s.next then 1 else 0) :
    s'.places x = if x < s'.next then 1 else 0 := by
  unfold places at hs ⊢
  cases ha : a.isWork with
  | true =>
      obtain ⟨⟨st, st', v, v', _, hid, _, hall⟩, hnext⟩ := h.advances ha
      have hmove := hall (fun _ v => if v.id = x then 1 else 0)
      simp only [hid] at hmove
      rw [hnext, ← hs]
      omega
  | false =>
      rcases h.arrives ha with ⟨n, _, hnext, hall⟩ | ⟨_, hnext, hall⟩
      · rw [hall, hs, hnext]
        by_cases hx : s.next = x
        · subst hx
          simp
        · have hlt : x < s.next + 1 ↔ x < s.next := by omega
          simp only [hx, hlt, if_false, Nat.add_zero]
      · rw [hall, hs, hnext]

end Front

end Tunnel.Gateway
