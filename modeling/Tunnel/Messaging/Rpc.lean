import Mathlib.Logic.Function.Basic
import Tunnel.Lib.Chan
import Tunnel.Lib.Machine
import Tunnel.Lib.Pool
import Tunnel.Lib.SyncMap
import Tunnel.Messaging.Channel
import Tunnel.Messaging.Wire

set_option autoImplicit false

/-! # Calls between nodes (`messaging/rpc.go`)

`Call` sends a request under a random key, stores its reply channel under that key in `rr`, and
waits for ten seconds. The reader of the peer's stream starts a `handleRPC` for the request, which
hands it to the application through `req` and waits for ten seconds for the application to send on
the request's own channel; what it gets goes back under the same key. The reader of the caller
starts a `handleRPC` for that, which takes the reply channel out of `rr` and sends on it. Requests
and replies are messages of the same type and differ in one byte.

The model is all nodes at once. `Call`s, `handleRPC`s and the application's sends on `Reply` are
numbered in the order in which they begin, and a reply channel is named by the `Call` or `handleRPC`
that made it. It has no buffer, so a send on it and the receive are one step.

A message that `write` has accepted is in a buffer, on a connection, or lost with its stream, and
the reader at the other end obtains each message at most once. `packets` are the messages on their
way, to be delivered or lost in any order, which leaves room for any number of streams between two
nodes, one after the other. Each is kept with its `Origin`, which call's request or which
application's answer it was made from. No step reads an origin. -/

namespace Tunnel.Messaging

open Tunnel.Lib

/-- What a message was made from: the request of the `i`-th call, the `a`-th answer of an
    application, the argument of `Announce`. -/
inductive Origin
  | call (i : ℕ)
  | answer (a : ℕ)
  | announce
deriving DecidableEq

/-- A message that is on its way to the node `dest`. -/
structure Packet where
  dest : UInt64
  message : Message
  origin : Origin
deriving DecidableEq

/-- The errors of `Call`: `"sending request to peer: "` around the `ErrPeerGone` of `write`, and
    `ErrRPCTimeout`. -/
inductive CallError
  | sendingRequest
  | rpcTimeout
deriving DecidableEq

/-- Data received on the reply channel of a `Call`, with what the message that brought it was made
    from. -/
structure Reply where
  data : List UInt8
  origin : Origin
deriving DecidableEq

/-- Program point of `Call`: at the `LoadOrStore` of its loop; at its `write`; in its `select`; at
    the deferred `Delete`; returned. -/
inductive CallPc
  | draw
  | write (key : UInt64)
  | waiting (key : UInt64)
  | deferred (key : UInt64) (res : Except CallError Reply)
  | returned (key : UInt64) (res : Except CallError Reply)
deriving DecidableEq

/-- A `Call(peer, b)` of the node `node`. -/
structure Call where
  node : UInt64
  peer : UInt64
  data : List UInt8
  pc : CallPc
deriving DecidableEq

/-- The key that the call has stored its reply channel under. -/
def Call.key (c : Call) : Option UInt64 :=
  match c.pc with
  | .draw => none
  | .write key | .waiting key | .deferred key _ | .returned key _ => some key

/-- The call is past its `write`. -/
def Call.wrote (c : Call) : Bool :=
  match c.pc with
  | .draw | .write _ => false
  | .waiting _ | .deferred _ _ | .returned _ _ => true

/-- What came in on the reply channel of the call. -/
def Call.reply (c : Call) : Option Reply :=
  match c.pc with
  | .deferred _ (.ok rep) | .returned _ (.ok rep) => some rep
  | _ => none

/-- What a `handleRPC(sender, r)` of the node `node` was started with. -/
structure Job where
  node : UInt64
  sender : UInt64
  r : RequestReply
  origin : Origin
deriving DecidableEq

/-- Program point of `handleRPC`. For a request: at the send on `req`; in its `select`; at the
    `write` of the `a`-th answer, `data`. For a reply: at the `LoadAndDelete`; at the send on the
    channel of the `i`-th call. -/
inductive HandlerPc
  | request
  | awaiting
  | replying (a : ℕ) (data : List UInt8)
  | load
  | handing (i : ℕ)
  | done
deriving DecidableEq

/-- A `handleRPC` goroutine. -/
structure Handler where
  job : Job
  pc : HandlerPc
deriving DecidableEq

/-- `go c.handleRPC(m.From, r)` -/
def Handler.start (job : Job) : Handler :=
  ⟨job, if job.r.request then .request else .load⟩

/-- `messaging.Request`; `reply` is the `handleRPC` that made the channel. -/
structure Request where
  data : List UInt8
  reply : ℕ
deriving DecidableEq

/-- A request that the application of `node` has received from `HandleRequest()`. -/
structure Received where
  node : UInt64
  request : Request
deriving DecidableEq

/-- A send of `value`, by an application, on the `Reply` of the `request`-th request received;
    `taken` once it has gone through. -/
structure Answer where
  request : ℕ
  value : List UInt8
  taken : Bool
deriving DecidableEq

/-- The maps and channels of a `messaging.Channel` that the calls of a node share. -/
structure Node where
  rr : SyncMap UInt64 ℕ
  req : Chan Request 16

/-- All nodes, and what goes on between them. -/
structure Network where
  nodes : UInt64 → Node
  calls : List Call
  handlers : List Handler
  packets : List Packet
  received : List Received
  answers : List Answer

namespace Network

/-- Before the first call. -/
def init : Network := ⟨fun _ => ⟨∅, Chan.empty⟩, [], [], [], [], []⟩

/-- A step: a `Call` begins, draws a key, writes its request, times out, runs its deferred `Delete`
    and returns; a node announces something else; a packet is delivered, or lost; a `handleRPC`
    sends its request to the application, times out, writes the reply, looks the reply channel up,
    sends on it; an application receives a request, begins to send on the `Reply` of one, is
    received from. `ok` is whether `write` returns `nil`. -/
inductive Action
  | call (node peer : UInt64) (b : List UInt8)
  | draw (i : ℕ) (key : UInt64)
  | write (i : ℕ) (ok : Bool)
  | timeout (i : ℕ)
  | finish (i : ℕ)
  | announce (node peer : UInt64) (t : MessageType) (b : List UInt8)
  | deliver (p : ℕ)
  | lose (p : ℕ)
  | request (h : ℕ)
  | expire (h : ℕ)
  | respond (h : ℕ) (ok : Bool)
  | load (h : ℕ)
  | handover (h : ℕ)
  | receive (node : UInt64)
  | reply (r : ℕ) (value : List UInt8)
  | take (a : ℕ)
deriving DecidableEq

/-- The call that goes on. -/
def Action.callOf : Action → Option ℕ
  | .draw i _ | .write i _ | .timeout i | .finish i => some i
  | _ => none

/-- The message that carries `r` from the node `self`. -/
def rpcMessage (mem : Heap) (self : UInt64) (r : RequestReply) : Except WirePanic Message :=
  (r.pack mem).map (fun data => ⟨messageRequestReply, self, data⟩)

theorem rpcMessage_eq_ok {mem : Heap} {self : UInt64} {r : RequestReply} {m : Message}
    (h : rpcMessage mem self r = .ok m) :
    mem.Holds (rrHeaderLength + r.data.length) ∧ m = ⟨messageRequestReply, self, r.bytes⟩ := by
  unfold rpcMessage at h
  cases hpack : r.pack mem with
  | error p =>
      rw [hpack] at h
      cases h
  | ok data =>
      rw [hpack] at h
      obtain ⟨hmem, rfl⟩ := RequestReply.pack_eq_ok.1 hpack
      exact ⟨hmem, (Except.ok.inj h).symm⟩

/-- The `rr` of the node `n` changes. -/
def setRr (s : Network) (n : UInt64) (rr : SyncMap UInt64 ℕ) : Network :=
  { s with nodes := Function.update s.nodes n { s.nodes n with rr := rr } }

/-- The `req` of the node `n` changes. -/
def setReq (s : Network) (n : UInt64) (req : Chan Request 16) : Network :=
  { s with nodes := Function.update s.nodes n { s.nodes n with req := req } }

@[simp] theorem rr_setRr (s : Network) (n m : UInt64) (rr : SyncMap UInt64 ℕ) :
    ((s.setRr n rr).nodes m).rr = if m = n then rr else (s.nodes m).rr := by
  unfold setRr
  by_cases h : m = n
  · subst h; simp
  · simp [h]

@[simp] theorem req_setRr (s : Network) (n m : UInt64) (rr : SyncMap UInt64 ℕ) :
    ((s.setRr n rr).nodes m).req = (s.nodes m).req := by
  unfold setRr
  by_cases h : m = n
  · subst h; simp
  · simp [h]

@[simp] theorem rr_setReq (s : Network) (n m : UInt64) (req : Chan Request 16) :
    ((s.setReq n req).nodes m).rr = (s.nodes m).rr := by
  unfold setReq
  by_cases h : m = n
  · subst h; simp
  · simp [h]

@[simp] theorem req_setReq (s : Network) (n m : UInt64) (req : Chan Request 16) :
    ((s.setReq n req).nodes m).req = if m = n then req else (s.nodes m).req := by
  unfold setReq
  by_cases h : m = n
  · subst h; simp
  · simp [h]

/-- The `i`-th call moves on. -/
def setCall (s : Network) (i : ℕ) (c : Call) (pc : CallPc) : Network :=
  { s with calls := s.calls.set i { c with pc := pc } }

/-- The `h`-th `handleRPC` moves on. -/
def setHandler (s : Network) (h : ℕ) (x : Handler) (pc : HandlerPc) : Network :=
  { s with handlers := s.handlers.set h { x with pc := pc } }

@[simp] theorem nodes_setCall (s : Network) (i : ℕ) (c : Call) (pc : CallPc) :
    (s.setCall i c pc).nodes = s.nodes := rfl

@[simp] theorem length_calls_setCall (s : Network) (i : ℕ) (c : Call) (pc : CallPc) :
    (s.setCall i c pc).calls.length = s.calls.length := List.length_set

@[simp] theorem nodes_setHandler (s : Network) (h : ℕ) (x : Handler) (pc : HandlerPc) :
    (s.setHandler h x pc).nodes = s.nodes := rfl

/-- A packet enters the network, if `write` accepted it. -/
def post (s : Network) (ok : Bool) (pk : Packet) : Network :=
  if ok then { s with packets := s.packets ++ [pk] } else s

section Steps

-- the memory of each node
variable (mem : UInt64 → Heap)

/-- The steps of `Call` (rpc.go:48-78) other than its receive on the reply channel. -/
def callStep (s : Network) (i : ℕ) (c : Call) : Action → Option Network
  | .draw _ key =>
      match c.pc with
      | .draw =>
          match (s.nodes c.node).rr.loadOrStore key i with
          | ((_, true), _) => some s
          | ((_, false), rr) => some ((s.setRr c.node rr).setCall i c (.write key))
      | _ => none
  | .write _ ok =>
      match c.pc with
      | .write key =>
          match rpcMessage (mem c.node) c.node ⟨true, key, c.data⟩ with
          | .error _ => none
          | .ok m =>
              some ((s.post ok ⟨c.peer, m, .call i⟩).setCall i c
                (if ok then .waiting key else .deferred key (.error .sendingRequest)))
      | _ => none
  | .timeout _ =>
      match c.pc with
      | .waiting key => some (s.setCall i c (.deferred key (.error .rpcTimeout)))
      | _ => none
  | .finish _ =>
      match c.pc with
      | .deferred key res =>
          some ((s.setRr c.node ((s.nodes c.node).rr.delete key)).setCall i c (.returned key res))
      | _ => none
  | _ => none

/-- The reader of the destination obtains a message (channel.go:86-93). What is neither a request
    nor a reply goes to the channel that `Register` returned. -/
def deliver (s : Network) (p : ℕ) (pk : Packet) : Option Network :=
  if pk.message.type = messageRequestReply then
    match RequestReply.zero.unpack (mem pk.dest) pk.message.data with
    | .error _ => none
    | .ok r =>
        some { s with
          packets := s.packets.eraseIdx p
          handlers := s.handlers ++ [.start ⟨pk.dest, pk.message.sender, r, pk.origin⟩] }
  else some { s with packets := s.packets.eraseIdx p }

/-- The steps of `handleRPC` (rpc.go:81-112) other than its receive on the channel of its
    request. -/
def handlerStep (s : Network) (h : ℕ) (x : Handler) : Action → Option Network
  | .request _ =>
      match x.pc with
      | .request =>
          ((s.nodes x.job.node).req.send ⟨x.job.r.data, h⟩).map (fun req =>
            (s.setReq x.job.node req).setHandler h x .awaiting)
      | _ => none
  | .expire _ =>
      match x.pc with
      | .awaiting => some (s.setHandler h x .done)
      | _ => none
  | .respond _ ok =>
      match x.pc with
      | .replying a data =>
          match rpcMessage (mem x.job.node) x.job.node ⟨false, x.job.r.key, data⟩ with
          | .error _ => none
          | .ok m => some ((s.post ok ⟨x.job.sender, m, .answer a⟩).setHandler h x .done)
      | _ => none
  | .load _ =>
      match x.pc with
      | .load =>
          match (s.nodes x.job.node).rr.load x.job.r.key with
          | none => some (s.setHandler h x .done)
          | some i =>
              some ((s.setRr x.job.node ((s.nodes x.job.node).rr.delete x.job.r.key)).setHandler h x
                (.handing i))
      | _ => none
  | .handover _ =>
      match x.pc with
      | .handing i =>
          (s.calls[i]?).bind (fun c =>
            match c.pc with
            | .waiting key =>
                some ((s.setCall i c (.deferred key (.ok ⟨x.job.r.data, x.job.origin⟩))).setHandler
                  h x .done)
            | _ => none)
      | _ => none
  | _ => none

/-- The `a`-th answer goes to the `handleRPC` that waits for it. -/
def take (s : Network) (a : ℕ) (w : Answer) : Option Network :=
  if w.taken = true then none
  else (s.received[w.request]?).bind (fun got =>
    (s.handlers[got.request.reply]?).bind (fun x =>
      match x.pc with
      | .awaiting =>
          some { s.setHandler got.request.reply x (.replying a w.value) with
            answers := s.answers.set a { w with taken := true } }
      | _ => none))

/-- One step. -/
def step (s : Network) (a : Action) : Option Network :=
  match a with
  | .call node peer b => some { s with calls := s.calls ++ [⟨node, peer, b, .draw⟩] }
  | .draw i _ | .write i _ | .timeout i | .finish i =>
      (s.calls[i]?).bind (fun c => s.callStep mem i c a)
  | .announce node peer t b =>
      if t = messageRequestReply then none
      else some (s.post true ⟨peer, ⟨t, node, b⟩, .announce⟩)
  | .deliver p => (s.packets[p]?).bind (s.deliver mem p)
  | .lose p => (s.packets[p]?).map (fun _ => { s with packets := s.packets.eraseIdx p })
  | .request h | .expire h | .respond h _ | .load h | .handover h =>
      (s.handlers[h]?).bind (fun x => s.handlerStep mem h x a)
  | .receive node =>
      (s.nodes node).req.recv.map (fun next =>
        { s.setReq node next.2 with received := s.received ++ [⟨node, next.1⟩] })
  | .reply r value =>
      (s.received[r]?).map (fun _ => { s with answers := s.answers ++ [⟨r, value, false⟩] })
  | .take a => (s.answers[a]?).bind (s.take a)

/-- The nodes of a cluster and the calls between them. -/
def machine : Machine Network Action := ⟨(· = init), step mem⟩

end Steps

/-! ## What a step does -/

/-- What a step can do. A call that fails and a `handleRPC` that gives up are one rule each,
    whatever the reason; so are a packet that is lost and one that is not for this package. -/
inductive Step (s : Network) : Action → Network → Prop
  | call (node peer : UInt64) (b : List UInt8) :
      Step s (.call node peer b) { s with calls := s.calls ++ [⟨node, peer, b, .draw⟩] }
  | redraw (a : Action) : Step s a s
  | draw {i : ℕ} {c : Call} {key : UInt64} (hi : s.calls[i]? = some c) (hpc : c.pc = .draw)
      (hload : (s.nodes c.node).rr.load key = none) :
      Step s (.draw i key)
        ((s.setRr c.node ((s.nodes c.node).rr.store key i)).setCall i c (.write key))
  | write {a : Action} {i : ℕ} {c : Call} {key : UInt64} {m : Message} {mem : Heap}
      (hi : s.calls[i]? = some c) (hpc : c.pc = .write key)
      (hm : rpcMessage mem c.node ⟨true, key, c.data⟩ = .ok m) :
      Step s a ((s.post true ⟨c.peer, m, .call i⟩).setCall i c (.waiting key))
  | fail {a : Action} {i : ℕ} {c : Call} {key : UInt64} {e : CallError}
      (hi : s.calls[i]? = some c) (hpc : c.pc = .write key ∨ c.pc = .waiting key)
      (ha : a = .write i false ∨ a = .timeout i) :
      Step s a (s.setCall i c (.deferred key (.error e)))
  | finish {a : Action} {i : ℕ} {c : Call} {key : UInt64} {res : Except CallError Reply}
      (hi : s.calls[i]? = some c) (hpc : c.pc = .deferred key res) :
      Step s a
        ((s.setRr c.node ((s.nodes c.node).rr.delete key)).setCall i c (.returned key res))
  | announce {a : Action} {pk : Packet} (ht : pk.message.type ≠ messageRequestReply)
      (ho : pk.origin = .announce) : Step s a (s.post true pk)
  | spawn {a : Action} {p : ℕ} {pk : Packet} {r : RequestReply} {mem : Heap}
      (hp : s.packets[p]? = some pk) (ht : pk.message.type = messageRequestReply)
      (hr : RequestReply.zero.unpack mem pk.message.data = .ok r) :
      Step s a { s with
        packets := s.packets.eraseIdx p
        handlers := s.handlers ++ [.start ⟨pk.dest, pk.message.sender, r, pk.origin⟩] }
  | drop {a : Action} (p : ℕ) : Step s a { s with packets := s.packets.eraseIdx p }
  | request {a : Action} {h : ℕ} {x : Handler} {req : Chan Request 16}
      (hh : s.handlers[h]? = some x) (hpc : x.pc = .request)
      (hsend : (s.nodes x.job.node).req.send ⟨x.job.r.data, h⟩ = some req) :
      Step s a ((s.setReq x.job.node req).setHandler h x .awaiting)
  | quit {a : Action} {h : ℕ} {x : Handler} (hh : s.handlers[h]? = some x)
      (hpc : x.pc = .awaiting ∧ a = .expire h ∨ (∃ w data, x.pc = .replying w data) ∨
        x.pc = .load) :
      Step s a (s.setHandler h x .done)
  | respond {a : Action} {h : ℕ} {x : Handler} {w : ℕ} {data : List UInt8} {m : Message}
      {mem : Heap} (hh : s.handlers[h]? = some x) (hpc : x.pc = .replying w data)
      (hm : rpcMessage mem x.job.node ⟨false, x.job.r.key, data⟩ = .ok m) :
      Step s a ((s.post true ⟨x.job.sender, m, .answer w⟩).setHandler h x .done)
  | load {a : Action} {h i : ℕ} {x : Handler} (hh : s.handlers[h]? = some x) (hpc : x.pc = .load)
      (hload : (s.nodes x.job.node).rr.load x.job.r.key = some i) :
      Step s a ((s.setRr x.job.node ((s.nodes x.job.node).rr.delete x.job.r.key)).setHandler h x
        (.handing i))
  | handover {a : Action} {h i : ℕ} {x : Handler} {c : Call} {key : UInt64}
      (hh : s.handlers[h]? = some x) (hx : x.pc = .handing i) (hi : s.calls[i]? = some c)
      (hc : c.pc = .waiting key) :
      Step s a ((s.setCall i c (.deferred key (.ok ⟨x.job.r.data, x.job.origin⟩))).setHandler
        h x .done)
  | receive {a : Action} {node : UInt64} {q : Request} {req : Chan Request 16}
      (hrecv : (s.nodes node).req.recv = some (q, req)) :
      Step s a { s.setReq node req with received := s.received ++ [⟨node, q⟩] }
  | reply {r : ℕ} {value : List UInt8} {got : Received} (hr : s.received[r]? = some got) :
      Step s (.reply r value) { s with answers := s.answers ++ [⟨r, value, false⟩] }
  | take {a : Action} {w : ℕ} {r : ℕ} {value : List UInt8} {got : Received} {x : Handler}
      (hw : s.answers[w]? = some ⟨r, value, false⟩) (hr : s.received[r]? = some got)
      (hh : s.handlers[got.request.reply]? = some x) (hpc : x.pc = .awaiting) :
      Step s a { s.setHandler got.request.reply x (.replying w value) with
        answers := s.answers.set w ⟨r, value, true⟩ }

variable {mem : UInt64 → Heap} {s s' : Network} {a : Action}

theorem callStep_rule {i : ℕ} {c : Call} (hi : s.calls[i]? = some c) :
    s.callStep mem i c a = some s' → (∀ j, a.callOf = some j → j = i) → Step s a s' := by
  intro h hidx
  cases a with
  | draw j key =>
      obtain rfl := hidx j rfl
      simp only [callStep] at h
      split at h
      · next hpc =>
          simp only [SyncMap.loadOrStore] at h
          cases hload : (s.nodes c.node).rr.load key with
          | none =>
              simp only [hload, Option.some.injEq] at h
              subst h
              exact .draw hi hpc hload
          | some old =>
              simp only [hload, Option.some.injEq] at h
              subst h
              exact .redraw _
      · cases h
  | write j ok =>
      obtain rfl := hidx j rfl
      simp only [callStep] at h
      split at h
      · next key hpc =>
          split at h
          · cases h
          · next m hm =>
              cases h
              cases ok with
              | true => exact .write hi hpc hm
              | false => exact .fail hi (Or.inl hpc) (Or.inl rfl)
      · cases h
  | timeout j =>
      obtain rfl := hidx j rfl
      simp only [callStep] at h
      split at h
      · next key hpc => cases h; exact .fail hi (Or.inr hpc) (Or.inr rfl)
      · cases h
  | finish j =>
      simp only [callStep] at h
      split at h
      · next key res hpc => cases h; exact .finish hi hpc
      · cases h
  | _ => cases h

theorem deliver_rule {p : ℕ} {pk : Packet} (hp : s.packets[p]? = some pk)
    (h : s.deliver mem p pk = some s') : Step s a s' := by
  unfold deliver at h
  split at h
  · next ht =>
      split at h
      · cases h
      · next r hr => cases h; exact .spawn hp ht hr
  · cases h
    exact .drop p

theorem handlerStep_rule {h : ℕ} {x : Handler} (hh : s.handlers[h]? = some x)
    (hstep : s.handlerStep mem h x a = some s') (hidx : ∀ j, a = .expire j → j = h) :
    Step s a s' := by
  cases a with
  | request j =>
      simp only [handlerStep] at hstep
      split at hstep
      · next hpc =>
          obtain ⟨req, hsend, rfl⟩ := Option.map_eq_some_iff.1 hstep
          exact .request hh hpc hsend
      · cases hstep
  | expire j =>
      obtain rfl := hidx j rfl
      simp only [handlerStep] at hstep
      split at hstep
      · next hpc => cases hstep; exact .quit hh (Or.inl ⟨hpc, rfl⟩)
      · cases hstep
  | respond j ok =>
      simp only [handlerStep] at hstep
      split at hstep
      · next w data hpc =>
          split at hstep
          · cases hstep
          · next m hm =>
              cases hstep
              cases ok with
              | true => exact .respond hh hpc hm
              | false => exact .quit hh (Or.inr (Or.inl ⟨w, data, hpc⟩))
      · cases hstep
  | load j =>
      simp only [handlerStep] at hstep
      split at hstep
      · next hpc =>
          split at hstep
          · cases hstep; exact .quit hh (Or.inr (Or.inr hpc))
          · next i hload => cases hstep; exact .load hh hpc hload
      · cases hstep
  | handover j =>
      simp only [handlerStep] at hstep
      split at hstep
      · next i hx =>
          obtain ⟨c, hi, hc⟩ := Option.bind_eq_some_iff.1 hstep
          split at hc
          · next key hpc => cases hc; exact .handover hh hx hi hpc
          · cases hc
      · cases hstep
  | _ => cases hstep

theorem take_rule {w : ℕ} {ans : Answer} (hw : s.answers[w]? = some ans)
    (h : s.take w ans = some s') : Step s a s' := by
  obtain ⟨r, value, taken⟩ := ans
  unfold take at h
  split at h
  · cases h
  · next htaken =>
      obtain rfl : taken = false := by simpa using htaken
      obtain ⟨got, hr, h⟩ := Option.bind_eq_some_iff.1 h
      obtain ⟨x, hh, h⟩ := Option.bind_eq_some_iff.1 h
      split at h
      · next hpc => cases h; exact .take hw hr hh hpc
      · cases h

theorem step_rule (h : s.step mem a = some s') : Step s a s' := by
  cases a with
  | call node peer b => cases h; exact .call node peer b
  | draw i _ | write i _ | timeout i | finish i =>
      obtain ⟨c, hi, hc⟩ := Option.bind_eq_some_iff.1 h
      exact callStep_rule hi hc (fun j hj => (Option.some.inj hj).symm)
  | announce node peer t b =>
      simp only [step] at h
      split at h
      · cases h
      · next ht => cases h; exact .announce ht rfl
  | deliver p =>
      obtain ⟨pk, hp, hpk⟩ := Option.bind_eq_some_iff.1 h
      exact deliver_rule hp hpk
  | lose p =>
      obtain ⟨pk, _, rfl⟩ := Option.map_eq_some_iff.1 h
      exact .drop p
  | request i | expire i | respond i _ | load i | handover i =>
      obtain ⟨x, hh, hx⟩ := Option.bind_eq_some_iff.1 h
      exact handlerStep_rule hh hx (fun j hj => by cases hj <;> rfl)
  | receive node =>
      obtain ⟨⟨q, req⟩, hrecv, rfl⟩ := Option.map_eq_some_iff.1 h
      exact .receive hrecv
  | reply r value =>
      obtain ⟨got, hr, rfl⟩ := Option.map_eq_some_iff.1 h
      exact .reply hr
  | take w =>
      obtain ⟨ans, hw, hans⟩ := Option.bind_eq_some_iff.1 h
      exact take_rule hw hans

end Network

end Tunnel.Messaging
