import Tunnel.Lib.Chan
import Tunnel.Lib.Conns
import Tunnel.Lib.Machine
import Tunnel.Lib.Pool

set_option autoImplicit false

/-! # Piping two connections (`multiplexer/pipe.go`, `util/reader.go`)

`Connect(ctx, dst, src)` joins two connections: one goroutine copies from `src` to `dst`, another
one the other way, and a third waits for both and closes the channel of errors. A goroutine that is
done copying, for whatever reason, closes both connections, which ends the copying in the other
direction as well; so `Connect` has no half-closed state.

The machine has any number of connections and of calls of `Connect` on their ends. Each call goes on
by itself; the ends that no call holds belong to whoever is on the other side of the gateway or of
the client, and anything may happen there. A copying goroutine is modelled at the granularity of its
operations on shared things: the look at the context that `readerCtx` takes before each `Read`, the
`Read`, the `Write`, the two calls of `Close`, the send of the error and `wg.Done`. How many bytes a
`Read` or a `Write` is good for and whether it fails is up to the connection.

`base` and `pre` of a pipe say what had been read and written at its two ends before. -/

namespace Tunnel.Multiplexer

open Tunnel.Lib

/-- The size of the buffer of `pipe`. -/
def bufferSize : ℕ := 8 * 1024

/-- The connections that are given to `Connect`: a `*net.TCPConn`, a stream of a QUIC session in a
    `quicConn`, or another one, over TLS or a stream of `yamux` or `mplex`. -/
inductive ConnKind
  | tcp
  | quic
  | other
deriving DecidableEq

/-- What is at each end. -/
abbrev Kinds := Endpoint → ConnKind

/-- Whether `Close` at an end ends the reading there: `quicConn` takes its `Close` from the stream,
    and that is for writing only. -/
def Kinds.closesRead (kinds : Kinds) (e : Endpoint) : Bool := kinds e ≠ .quic

/-- The room that `io.CopyBuffer` gives to a `Read` when it writes to this end: the buffer, unless
    the connection has a `ReadFrom`; that of a `*net.TCPConn` makes a buffer of its own. -/
def Kinds.room (kinds : Kinds) (e : Endpoint) : ℕ :=
  match kinds e with
  | .tcp => 32 * 1024
  | .quic | .other => bufferSize

theorem Kinds.room_pos (kinds : Kinds) (e : Endpoint) : 0 < kinds.room e := by
  unfold room
  split <;> decide

/-- What `io.CopyBuffer` returns: the error of the context, of a `Read`, of a `Write`, or
    `io.ErrShortWrite`. -/
inductive PipeErr
  | canceled
  | read
  | write
  | shortWrite
deriving DecidableEq

/-- Program point of `pipe`: before the look at the context; in `src.Read`; in `dst.Write`, with
    what the `Read` brought; before `src.Close()` and before `dst.Close()`, with the result of
    `io.CopyBuffer`; at the send on `errChan`; before `wg.Done()`; returned. -/
inductive PipePc (β : Type)
  | check
  | read
  | write (chunk : List β) (err : Option ReadErr)
  | closeSource (err : Option PipeErr)
  | closeTarget (err : Option PipeErr)
  | report (err : PipeErr)
  | finish
  | done

namespace PipePc

variable {β : Type}

/-- Where `io.CopyBuffer` goes on when what a `Read` brought is written: an end of the stream is no
    error. -/
def afterRead : Option ReadErr → PipePc β
  | none => .check
  | some .eof => .closeSource none
  | some .failed => .closeSource (some .read)

/-- Where `io.CopyBuffer` goes on behind a `Write` of `n` bytes of `chunk`. -/
def afterWrite (chunk : List β) (err : Option ReadErr) (n : ℕ) (failed : Bool) : PipePc β :=
  if failed = true then .closeSource (some .write)
  else if n < chunk.length then .closeSource (some .shortWrite)
  else afterRead err

/-- The bytes that were read and not written yet. -/
def inHand : PipePc β → List β
  | .write chunk _ => chunk
  | _ => []

/-- In `io.CopyBuffer`. -/
def copying : PipePc β → Bool
  | .check | .read | .write _ _ => true
  | _ => false

/-- Behind `src.Close()`. -/
def closedSource : PipePc β → Bool
  | .closeTarget _ | .report _ | .finish | .done => true
  | _ => false

/-- Behind `dst.Close()`. -/
def closedTarget : PipePc β → Bool
  | .report _ | .finish | .done => true
  | _ => false

/-- May still send on `errChan`. -/
def mayReport : PipePc β → Bool
  | .finish | .done => false
  | _ => true

/-- Has not called `wg.Done()`. -/
def unfinished : PipePc β → Bool
  | .done => false
  | _ => true

/-- The number of bytes that a pipe may still write without another look at its context, when its
    `Read` has this room. -/
def allowance (room : ℕ) : PipePc β → ℕ
  | .read => room
  | .write chunk _ => chunk.length
  | _ => 0

/-- A bound on the operations that are left to a pipe whose connections are closed. -/
def rank : PipePc β → ℕ
  | .check => 7
  | .read => 6
  | .write _ _ => 5
  | .closeSource _ => 4
  | .closeTarget _ => 3
  | .report _ => 2
  | .finish => 1
  | .done => 0

theorem rank_le (pc : PipePc β) : pc.rank ≤ 7 := by
  cases pc <;> simp [rank]

theorem closedSource_afterRead (err : Option ReadErr) :
    (afterRead err : PipePc β).closedSource = false := by
  unfold afterRead
  split <;> rfl

theorem closedSource_afterWrite (chunk : List β) (err : Option ReadErr) (n : ℕ) (failed : Bool) :
    (afterWrite chunk err n failed).closedSource = false := by
  unfold afterWrite
  split
  · rfl
  split
  · rfl
  · exact closedSource_afterRead err

@[simp] theorem inHand_afterRead (err : Option ReadErr) :
    (afterRead err : PipePc β).inHand = [] := by
  unfold afterRead
  split <;> rfl

@[simp] theorem inHand_afterWrite (chunk : List β) (err : Option ReadErr) (n : ℕ) (failed : Bool) :
    (afterWrite chunk err n failed).inHand = [] := by
  unfold afterWrite
  split
  · rfl
  split
  · rfl
  · exact inHand_afterRead err

@[simp] theorem allowance_afterRead (room : ℕ) (err : Option ReadErr) :
    (afterRead err : PipePc β).allowance room = 0 := by
  unfold afterRead
  split <;> rfl

@[simp] theorem allowance_afterWrite (room : ℕ) (chunk : List β) (err : Option ReadErr) (n : ℕ)
    (failed : Bool) : (afterWrite chunk err n failed).allowance room = 0 := by
  unfold afterWrite
  split
  · rfl
  split
  · rfl
  · exact allowance_afterRead room err

/-- A pipe that has closed nothing has everything before it. -/
theorem flags_of_not_closedSource {pc : PipePc β} (h : pc.closedSource = false) :
    pc.closedTarget = false ∧ pc.mayReport = true ∧ pc.unfinished = true := by
  cases pc <;> simp_all [closedSource, closedTarget, mayReport, unfinished]

theorem closedSource_of_closedTarget {pc : PipePc β} (h : pc.closedTarget = true) :
    pc.closedSource = true := by
  cases pc <;> simp_all [closedSource, closedTarget]

theorem unfinished_of_ne_done {pc : PipePc β} (h : pc ≠ .done) : pc.unfinished = true := by
  cases pc <;> simp_all [unfinished]

end PipePc

/-- A goroutine `pipe`: where it is, the number of bytes `io.CopyBuffer` has written, and what had
    been read at its source and written at its target when it began. -/
structure Pipe (β : Type) where
  pc : PipePc β
  written : ℕ
  base : ℕ
  pre : List β

/-- The two goroutines: `"<"` copies to `dst`, `">"` to `src`. -/
inductive Dir
  | toDst
  | toSrc
deriving DecidableEq

/-- The other of the two. -/
def Dir.other : Dir → Dir
  | .toDst => .toSrc
  | .toSrc => .toDst

/-- A call of `Connect`: the ends it joins, whether its context is cancelled, its two pipes, the
    `WaitGroup` and the channel of errors. -/
structure Connect (β : Type) where
  dst : Endpoint
  src : Endpoint
  cancelled : Bool
  pipes : Dir → Pipe β
  wg : ℕ
  errs : Chan PipeErr 2
  errsClosed : Bool

namespace Connect

variable {β : Type}

/-- Where a pipe reads. -/
def source (c : Connect β) : Dir → Endpoint
  | .toDst => c.src
  | .toSrc => c.dst

/-- Where a pipe writes. -/
def target (c : Connect β) : Dir → Endpoint
  | .toDst => c.dst
  | .toSrc => c.src

/-- `Connect(ctx, dst, src)` -/
def start (k : Conns β) (dst src : Endpoint) : Connect β where
  dst := dst
  src := src
  cancelled := false
  pipes
    | .toDst => ⟨.check, 0, k.got src, k.out dst⟩
    | .toSrc => ⟨.check, 0, k.got dst, k.out src⟩
  wg := 2
  errs := Chan.empty
  errsClosed := false

/-- The pipe `d` moves on. -/
def setPipe (c : Connect β) (d : Dir) (p : Pipe β) : Connect β :=
  { c with pipes := Function.update c.pipes d p }

/-- The pipe `d` moves on and has written nothing. -/
def setPc (c : Connect β) (d : Dir) (pc : PipePc β) : Connect β :=
  c.setPipe d { c.pipes d with pc := pc }

end Connect

namespace Connect

variable {β : Type} {c : Connect β} {d d' : Dir} {p : Pipe β}

@[simp] theorem source_setPipe (c : Connect β) (d : Dir) (p : Pipe β) :
    (c.setPipe d p).source = c.source := rfl

@[simp] theorem target_setPipe (c : Connect β) (d : Dir) (p : Pipe β) :
    (c.setPipe d p).target = c.target := rfl

@[simp] theorem source_setPc (c : Connect β) (d : Dir) (pc : PipePc β) :
    (c.setPc d pc).source = c.source := rfl

@[simp] theorem target_setPc (c : Connect β) (d : Dir) (pc : PipePc β) :
    (c.setPc d pc).target = c.target := rfl

@[simp] theorem pipes_setPipe_self (c : Connect β) (d : Dir) (p : Pipe β) :
    (c.setPipe d p).pipes d = p := Function.update_self ..

theorem pipes_setPipe_ne (c : Connect β) (p : Pipe β) (h : d' ≠ d) :
    (c.setPipe d p).pipes d' = c.pipes d' := Function.update_of_ne h ..

/-- What holds of the pipe that moved and of the other one holds of both. -/
theorem forall_pipes_setPipe {P : Dir → Pipe β → Prop} (h : ∀ d', P d' (c.pipes d'))
    (hp : P d p) : ∀ d', P d' ((c.setPipe d p).pipes d') := by
  intro d'
  by_cases hdd : d' = d
  · rw [hdd, pipes_setPipe_self]
    exact hp
  · rw [c.pipes_setPipe_ne p hdd]
    exact h d'

@[simp] theorem source_other (c : Connect β) (d : Dir) : c.source d.other = c.target d := by
  cases d <;> rfl

@[simp] theorem target_other (c : Connect β) (d : Dir) : c.target d.other = c.source d := by
  cases d <;> rfl

/-- The sum of `w` over the program points of the two pipes. -/
def total (c : Connect β) (w : PipePc β → ℕ) : ℕ :=
  w (c.pipes .toDst).pc + w (c.pipes .toSrc).pc

theorem total_setPipe (w : PipePc β → ℕ) (c : Connect β) (d : Dir) (p : Pipe β) :
    (c.setPipe d p).total w + w (c.pipes d).pc = c.total w + w p.pc := by
  cases d <;> simp [total, setPipe, Function.update] <;> omega

/-- A bound on the operations that are left to the call once its connections are closed. -/
def rank (c : Connect β) : ℕ := c.total PipePc.rank + (!c.errsClosed).toNat

theorem rank_le (c : Connect β) : c.rank ≤ 15 := by
  have hdst := (c.pipes .toDst).pc.rank_le
  have hsrc := (c.pipes .toSrc).pc.rank_le
  have hflag := Bool.toNat_le (!c.errsClosed)
  simp only [rank, total]
  omega

/-- A pipe that comes nearer to its end takes the call nearer to its end. -/
theorem rank_setPipe_lt (h : p.pc.rank < (c.pipes d).pc.rank) : (c.setPipe d p).rank < c.rank := by
  have htotal := c.total_setPipe PipePc.rank d p
  have hflag : (c.setPipe d p).errsClosed = c.errsClosed := rfl
  simp only [rank, hflag]
  omega

theorem le_total (w : PipePc β → ℕ) (c : Connect β) (d : Dir) : w (c.pipes d).pc ≤ c.total w := by
  cases d
  · exact Nat.le_add_right _ _
  · exact Nat.le_add_left _ _

end Connect

/-- The runtime panics that the channel and the `WaitGroup` could lead to. -/
inductive PipePanic
  | sendOnClosedChannel
  | negativeCounter
deriving DecidableEq

/-- The connections and the calls of `Connect` on them. -/
structure Pipes (β : Type) where
  conns : Conns β
  calls : List (Connect β)
  panic : Option PipePanic

namespace Pipes

variable {β : Type}

def init : Pipes β := ⟨Conns.fresh, [], none⟩

/-- Some call of `Connect` has the end `e`. -/
def held (s : Pipes β) (e : Endpoint) : Bool :=
  s.calls.any (fun c => c.dst = e || c.src = e)

/-- A step. At an end that no call holds: bytes are written, read, or the end is closed. `Connect`
    is called on two such ends. The context of the `i`-th call is cancelled. The pipe `d` of the
    `i`-th call reads `n` bytes, with or without an error; writes `n` bytes of what it has in hand;
    does its next operation otherwise. The third goroutine of the `i`-th call closes the channel. -/
inductive Action (β : Type)
  | write (e : Endpoint) (bytes : List β)
  | read (e : Endpoint) (n : ℕ)
  | close (e : Endpoint)
  | connect (dst src : Endpoint)
  | cancel (i : ℕ)
  | copyRead (i : ℕ) (d : Dir) (n : ℕ) (err : Option ReadErr)
  | copyWrite (i : ℕ) (d : Dir) (n : ℕ) (failed : Bool)
  | pipe (i : ℕ) (d : Dir)
  | closeErr (i : ℕ)

/-- `src.Read` in the pipe `d` of the `i`-th call. -/
def copyRead (kinds : Kinds) (s : Pipes β) (i : ℕ) (d : Dir) (n : ℕ) (err : Option ReadErr)
    (c : Connect β) : Option (Pipes β) :=
  match (c.pipes d).pc with
  | .read =>
      if s.conns.Reads kinds.closesRead (c.source d) (kinds.room (c.target d)) n err then
        let chunk := (s.conns.pending (c.source d)).take n
        some { s with
          conns := s.conns.read (c.source d) n
          calls := s.calls.set i
            (c.setPc d (if 0 < n then .write chunk err else .afterRead err)) }
      else none
  | _ => none

/-- `dst.Write` in the pipe `d` of the `i`-th call. -/
def copyWrite (s : Pipes β) (i : ℕ) (d : Dir) (n : ℕ) (failed : Bool) (c : Connect β) :
    Option (Pipes β) :=
  match (c.pipes d).pc with
  | .write chunk err =>
      if s.conns.Writes (c.target d) chunk.length n failed then
        some { s with
          conns := s.conns.write (c.target d) (chunk.take n)
          calls := s.calls.set i (c.setPipe d { c.pipes d with
            pc := .afterWrite chunk err n failed
            written := (c.pipes d).written + n }) }
      else none
  | _ => none

/-- The other operations of the pipe `d` of the `i`-th call (reader.go:13-18, pipe.go:51-77). -/
def pipeStep (s : Pipes β) (i : ℕ) (d : Dir) (c : Connect β) : Option (Pipes β) :=
  match (c.pipes d).pc with
  | .check =>
      let next := if c.cancelled = true then .closeSource (some .canceled) else .read
      some { s with calls := s.calls.set i (c.setPc d next) }
  | .closeSource err =>
      some { s with
        conns := s.conns.close (c.source d)
        calls := s.calls.set i (c.setPc d (.closeTarget err)) }
  | .closeTarget err =>
      some { s with
        conns := s.conns.close (c.target d)
        calls := s.calls.set i (c.setPc d (err.elim .finish .report)) }
  | .report e =>
      if c.errsClosed = true then some { s with panic := some .sendOnClosedChannel }
      else (c.errs.send e).map (fun ch =>
        { s with calls := s.calls.set i { c.setPc d .finish with errs := ch } })
  | .finish =>
      match c.wg with
      | 0 => some { s with panic := some .negativeCounter }
      | n + 1 => some { s with calls := s.calls.set i { c.setPc d .done with wg := n } }
  | .read | .write _ _ | .done => none

/-- The third goroutine of the `i`-th call, once `wg.Wait()` returns and until it has closed the
    channel. -/
def closeErr (s : Pipes β) (i : ℕ) (c : Connect β) : Option (Pipes β) :=
  if c.wg = 0 then
    if c.errsClosed = true then none
    else some { s with calls := s.calls.set i { c with errsClosed := true } }
  else none

/-- One step; none after a panic. -/
def step (kinds : Kinds) (s : Pipes β) (a : Action β) : Option (Pipes β) :=
  if s.panic.isSome = true then none
  else match a with
    | .write e bytes =>
        if s.held e = false ∧ s.conns.closed e = false then
          some { s with conns := s.conns.write e bytes }
        else none
    | .read e n =>
        if s.held e = false ∧ s.conns.readClosed kinds.closesRead e = false ∧
            n ≤ (s.conns.pending e).length then
          some { s with conns := s.conns.read e n }
        else none
    | .close e => if s.held e = false then some { s with conns := s.conns.close e } else none
    | .connect dst src =>
        if dst ≠ src ∧ s.held dst = false ∧ s.held src = false then
          some { s with calls := s.calls ++ [Connect.start s.conns dst src] }
        else none
    | .cancel i =>
        s.calls[i]?.map (fun c => { s with calls := s.calls.set i { c with cancelled := true } })
    | .copyRead i d n err => s.calls[i]?.bind (s.copyRead kinds i d n err)
    | .copyWrite i d n failed => s.calls[i]?.bind (s.copyWrite i d n failed)
    | .pipe i d => s.calls[i]?.bind (s.pipeStep i d)
    | .closeErr i => s.calls[i]?.bind (s.closeErr i)

/-- Any number of connections of these kinds and of calls of `Connect`, in any interleaving. -/
def machine (kinds : Kinds) (β : Type) : Machine (Pipes β) (Action β) where
  Init s := s = init
  step := step kinds

/-! ## What a step can do -/

/-- The operations of a call: what happens to the connections and to the call. -/
inductive Op (kinds : Kinds) (k : Conns β) (c : Connect β) : Conns β → Connect β → Prop
  | read {d : Dir} {n : ℕ} {err : Option ReadErr} (hpc : (c.pipes d).pc = .read)
      (hreads : k.Reads kinds.closesRead (c.source d) (kinds.room (c.target d)) n err) :
      Op kinds k c (k.read (c.source d) n) (c.setPc d
        (if 0 < n then .write ((k.pending (c.source d)).take n) err else .afterRead err))
  | write {d : Dir} {n : ℕ} {failed : Bool} {chunk : List β} {err : Option ReadErr}
      (hpc : (c.pipes d).pc = .write chunk err)
      (hwrites : k.Writes (c.target d) chunk.length n failed) :
      Op kinds k c (k.write (c.target d) (chunk.take n)) (c.setPipe d { c.pipes d with
        pc := .afterWrite chunk err n failed
        written := (c.pipes d).written + n })
  | check {d : Dir} (hpc : (c.pipes d).pc = .check) :
      Op kinds k c k
        (c.setPc d (if c.cancelled = true then .closeSource (some .canceled) else .read))
  | closeSource {d : Dir} {err : Option PipeErr} (hpc : (c.pipes d).pc = .closeSource err) :
      Op kinds k c (k.close (c.source d)) (c.setPc d (.closeTarget err))
  | closeTarget {d : Dir} {err : Option PipeErr} (hpc : (c.pipes d).pc = .closeTarget err) :
      Op kinds k c (k.close (c.target d)) (c.setPc d (err.elim .finish .report))
  | report {d : Dir} {e : PipeErr} {ch : Chan PipeErr 2} (hpc : (c.pipes d).pc = .report e)
      (hsend : c.errs.send e = some ch) : Op kinds k c k { c.setPc d .finish with errs := ch }
  | finish {d : Dir} {n : ℕ} (hpc : (c.pipes d).pc = .finish) (hwg : c.wg = n + 1) :
      Op kinds k c k { c.setPc d .done with wg := n }
  | closeErr (hwg : c.wg = 0) (hopen : c.errsClosed = false) :
      Op kinds k c k { c with errsClosed := true }

/-- The call that an action is an operation of. -/
def Action.call : Action β → Option ℕ
  | .copyRead i _ _ _ | .copyWrite i _ _ _ | .pipe i _ | .closeErr i => some i
  | .write _ _ | .read _ _ | .close _ | .connect _ _ | .cancel _ => none

/-- The steps. -/
inductive Step (kinds : Kinds) (s : Pipes β) : Action β → Pipes β → Prop
  | write {e : Endpoint} {bytes : List β} (hfree : s.held e = false) :
      Step kinds s (.write e bytes) { s with conns := s.conns.write e bytes }
  | read {e : Endpoint} {n : ℕ} (hfree : s.held e = false)
      (hn : n ≤ (s.conns.pending e).length) :
      Step kinds s (.read e n) { s with conns := s.conns.read e n }
  | close {e : Endpoint} (hfree : s.held e = false) :
      Step kinds s (.close e) { s with conns := s.conns.close e }
  | connect {dst src : Endpoint} (hne : dst ≠ src) (hdst : s.held dst = false)
      (hsrc : s.held src = false) :
      Step kinds s (.connect dst src) { s with calls := s.calls ++ [Connect.start s.conns dst src] }
  | cancel {i : ℕ} {c : Connect β} (hi : s.calls[i]? = some c) :
      Step kinds s (.cancel i) { s with calls := s.calls.set i { c with cancelled := true } }
  | op {a : Action β} {i : ℕ} {c c' : Connect β} {k' : Conns β} (ha : a.call = some i)
      (hi : s.calls[i]? = some c) (hop : Op kinds s.conns c k' c') :
      Step kinds s a { s with conns := k', calls := s.calls.set i c' }
  | reportPanics {i : ℕ} {d : Dir} {c : Connect β} {e : PipeErr} (hi : s.calls[i]? = some c)
      (hpc : (c.pipes d).pc = .report e) (hclosed : c.errsClosed = true) :
      Step kinds s (.pipe i d) { s with panic := some .sendOnClosedChannel }
  | finishPanics {i : ℕ} {d : Dir} {c : Connect β} (hi : s.calls[i]? = some c)
      (hpc : (c.pipes d).pc = .finish) (hwg : c.wg = 0) :
      Step kinds s (.pipe i d) { s with panic := some .negativeCounter }

variable {kinds : Kinds} {s s' : Pipes β} {a : Action β} {i : ℕ} {c : Connect β}

theorem pipeStep_rule {d : Dir} (hi : s.calls[i]? = some c) (h : s.pipeStep i d c = some s') :
    Step kinds s (.pipe i d) s' := by
  unfold pipeStep at h
  split at h
  · next hpc =>
      obtain rfl := Option.some.inj h
      exact .op rfl hi (.check hpc)
  · next err hpc =>
      obtain rfl := Option.some.inj h
      exact .op rfl hi (.closeSource hpc)
  · next err hpc =>
      obtain rfl := Option.some.inj h
      exact .op rfl hi (.closeTarget hpc)
  · next e hpc =>
      split at h
      · next hclosed =>
          obtain rfl := Option.some.inj h
          exact .reportPanics hi hpc hclosed
      · obtain ⟨ch, hsend, rfl⟩ := Option.map_eq_some_iff.1 h
        exact .op rfl hi (.report hpc hsend)
  · next hpc =>
      split at h
      · next hwg =>
          obtain rfl := Option.some.inj h
          exact .finishPanics hi hpc hwg
      · next n hwg =>
          obtain rfl := Option.some.inj h
          exact .op rfl hi (.finish hpc hwg)
  all_goals cases h

theorem step_rule (h : s.step kinds a = some s') : s.panic = none ∧ Step kinds s a s' := by
  unfold step at h
  split at h
  · cases h
  next hpanic =>
  refine ⟨by simpa using hpanic, ?_⟩
  cases a with
  | write e bytes =>
      simp only at h
      split at h
      · next hok =>
          obtain rfl := Option.some.inj h
          exact .write hok.1
      · cases h
  | read e n =>
      simp only at h
      split at h
      · next hok =>
          obtain rfl := Option.some.inj h
          exact .read hok.1 hok.2.2
      · cases h
  | close e =>
      simp only at h
      split at h
      · next hok =>
          obtain rfl := Option.some.inj h
          exact .close hok
      · cases h
  | connect dst src =>
      simp only at h
      split at h
      · next hok =>
          obtain rfl := Option.some.inj h
          exact .connect hok.1 hok.2.1 hok.2.2
      · cases h
  | cancel i =>
      obtain ⟨c, hi, rfl⟩ := Option.map_eq_some_iff.1 h
      exact .cancel hi
  | copyRead i d n err =>
      obtain ⟨c, hi, hc⟩ := Option.bind_eq_some_iff.1 h
      unfold copyRead at hc
      split at hc
      · next hpc =>
          split at hc
          · next hreads =>
              obtain rfl := Option.some.inj hc
              exact .op rfl hi (.read hpc hreads)
          · cases hc
      · cases hc
  | copyWrite i d n failed =>
      obtain ⟨c, hi, hc⟩ := Option.bind_eq_some_iff.1 h
      unfold copyWrite at hc
      split at hc
      · next chunk err hpc =>
          split at hc
          · next hwrites =>
              obtain rfl := Option.some.inj hc
              exact .op rfl hi (.write hpc hwrites)
          · cases hc
      · cases hc
  | pipe i d =>
      obtain ⟨c, hi, hc⟩ := Option.bind_eq_some_iff.1 h
      exact pipeStep_rule hi hc
  | closeErr i =>
      obtain ⟨c, hi, hc⟩ := Option.bind_eq_some_iff.1 h
      unfold closeErr at hc
      split at hc
      · next hwg =>
          split at hc
          · cases hc
          · next hopen =>
              obtain rfl := Option.some.inj hc
              exact .op rfl hi (.closeErr hwg (by simpa using hopen))
      · cases hc

/-! ## The channel of errors and the `WaitGroup` -/

/-- What the counter, the channel and the connections say about where the pipes are: the counter is
    the number of pipes that have not finished, and the channel has room for each error that may
    still be sent. -/
structure Ledger (k : Conns β) (c : Connect β) : Prop where
  wg : c.wg = c.total (fun pc => pc.unfinished.toNat)
  room : c.errs.buf.length + c.total (fun pc => pc.mayReport.toNat) ≤ 2
  errsClosed : c.errsClosed = true → c.wg = 0
  source : ∀ d, (c.pipes d).pc.closedSource = true → k.closed (c.source d) = true
  target : ∀ d, (c.pipes d).pc.closedTarget = true → k.closed (c.target d) = true

variable {k k' : Conns β} {d : Dir}

theorem ledger_start (k k' : Conns β) (dst src : Endpoint) :
    Ledger k' (Connect.start k dst src) where
  wg := rfl
  room := Nat.le_refl 2
  errsClosed h := absurd h (by simp [Connect.start])
  source d h := by cases d <;> simp [Connect.start, PipePc.closedSource] at h
  target d h := by cases d <;> simp [Connect.start, PipePc.closedTarget] at h

theorem Ledger.mono (h : Ledger k c) (hk : ∀ e, k.closed e = true → k'.closed e = true) :
    Ledger k' c where
  wg := h.wg
  room := h.room
  errsClosed := h.errsClosed
  source d hd := hk _ (h.source d hd)
  target d hd := hk _ (h.target d hd)

/-- While a pipe has not finished, the channel of errors is open. -/
theorem Ledger.errs_open (h : Ledger k c) (hunf : (c.pipes d).pc.unfinished = true) :
    c.errsClosed = false ∧ c.wg ≠ 0 := by
  have hle := c.le_total (fun pc => pc.unfinished.toNat) d
  simp only [hunf, Bool.toNat_true] at hle
  have hwg : c.wg ≠ 0 := by
    rw [h.wg]
    omega
  refine ⟨?_, hwg⟩
  by_contra hclosed
  exact hwg (h.errsClosed (by simpa using hclosed))

/-- The move of one pipe, with what it does to the counter and to the channel of errors. -/
theorem Ledger.setPipe (h : Ledger k c) (hk : ∀ e, k.closed e = true → k'.closed e = true)
    {p : Pipe β} {wg : ℕ} {errs : Chan PipeErr 2} (hunf : (c.pipes d).pc.unfinished = true)
    (hwg : wg + 1 = c.wg + p.pc.unfinished.toNat)
    (hroom : errs.buf.length + p.pc.mayReport.toNat
      ≤ c.errs.buf.length + (c.pipes d).pc.mayReport.toNat)
    (hsource : p.pc.closedSource = true → k'.closed (c.source d) = true)
    (htarget : p.pc.closedTarget = true → k'.closed (c.target d) = true) :
    Ledger k' { c.setPipe d p with wg := wg, errs := errs } where
  wg := by
    have htotal := c.total_setPipe (fun pc => pc.unfinished.toNat) d p
    have hcount := h.wg
    simp only [hunf, Bool.toNat_true] at htotal
    change wg = (c.setPipe d p).total (fun pc => pc.unfinished.toNat)
    omega
  room := by
    have htotal := c.total_setPipe (fun pc => pc.mayReport.toNat) d p
    have hle := h.room
    change errs.buf.length + (c.setPipe d p).total (fun pc => pc.mayReport.toNat) ≤ 2
    omega
  errsClosed hclosed := by
    have hopen := (h.errs_open hunf).1
    change c.errsClosed = true at hclosed
    rw [hopen] at hclosed
    cases hclosed
  source := Connect.forall_pipes_setPipe (P := fun d p => p.pc.closedSource = true →
    k'.closed (c.source d) = true) (fun d' hd' => hk _ (h.source d' hd')) hsource
  target := Connect.forall_pipes_setPipe (P := fun d p => p.pc.closedTarget = true →
    k'.closed (c.target d) = true) (fun d' hd' => hk _ (h.target d' hd')) htarget

/-- A move within the part of `pipe` before its first `Close`. -/
theorem Ledger.setEarly (h : Ledger k c) (hk : ∀ e, k.closed e = true → k'.closed e = true)
    {p : Pipe β} (hold : (c.pipes d).pc.closedSource = false)
    (hnew : p.pc.closedSource = false) : Ledger k' (c.setPipe d p) := by
  obtain ⟨_, hmay, hunf⟩ := PipePc.flags_of_not_closedSource hold
  obtain ⟨htarget', hmay', hunf'⟩ := PipePc.flags_of_not_closedSource hnew
  refine h.setPipe hk hunf (by rw [hunf']; rfl) (Nat.le_of_eq (by rw [hmay, hmay'])) ?_ ?_
  · intro hclosed
    rw [hnew] at hclosed
    cases hclosed
  · intro hclosed
    rw [htarget'] at hclosed
    cases hclosed

/-- An end that is closed stays closed. -/
theorem Op.closed_mono {c' : Connect β} (h : Op kinds k c k' c') (e : Endpoint)
    (he : k.closed e = true) : k'.closed e = true := by
  cases h with
  | closeSource | closeTarget => exact Conns.closed_close_of_closed he
  | _ => exact he

theorem Step.closed_mono (h : Step kinds s a s') (e : Endpoint) (he : s.conns.closed e = true) :
    s'.conns.closed e = true := by
  cases h with
  | close => exact Conns.closed_close_of_closed he
  | op ha hi hop => exact hop.closed_mono e he
  | _ => exact he

theorem Ledger.op {c' : Connect β} (hc : Ledger k c) (h : Op kinds k c k' c') : Ledger k' c' := by
  have hk := h.closed_mono
  cases h with
  | @read d n err hpc hreads =>
      refine hc.setEarly hk (by rw [hpc]; rfl) ?_
      simp only
      split
      · rfl
      · exact PipePc.closedSource_afterRead err
  | @write d n failed chunk err hpc hwrites =>
      exact hc.setEarly hk (by rw [hpc]; rfl)
        (PipePc.closedSource_afterWrite chunk err n failed)
  | check hpc =>
      refine hc.setEarly hk (by rw [hpc]; rfl) ?_
      simp only
      split <;> rfl
  | closeSource hpc =>
      refine hc.setPipe hk (by rw [hpc]; rfl) rfl (Nat.le_of_eq (by rw [hpc]; rfl))
        (fun _ => Conns.closed_close_self _ _) ?_
      intro hclosed
      simp [PipePc.closedTarget] at hclosed
  | @closeTarget d err hpc =>
      refine hc.setPipe hk (by rw [hpc]; rfl) ?_ ?_
        (fun _ => hk _ (hc.source d (by rw [hpc]; rfl))) (fun _ => Conns.closed_close_self _ _)
      · cases err <;> rfl
      · rw [hpc]
        cases err <;> simp [PipePc.mayReport]
  | @report d e ch hpc hsend =>
      refine hc.setPipe hk (by rw [hpc]; rfl) rfl ?_ (fun _ => hc.source d (by rw [hpc]; rfl))
        (fun _ => hc.target d (by rw [hpc]; rfl))
      -- the error that was sent takes the room that was kept for it
      have hbuf := (Chan.send_eq_some.1 hsend).2
      exact Nat.le_of_eq (by rw [hbuf, hpc, List.length_append]; rfl)
  | @finish d n hpc hwg =>
      exact hc.setPipe hk (by rw [hpc]; rfl) hwg.symm (Nat.le_of_eq (by rw [hpc]; rfl))
        (fun _ => hc.source d (by rw [hpc]; rfl)) (fun _ => hc.target d (by rw [hpc]; rfl))
  | closeErr hwg hopen => exact ⟨hc.wg, hc.room, fun _ => hwg, hc.source, hc.target⟩

/-- No panic has happened, and every call of `Connect` has its ledger. -/
structure Calm (s : Pipes β) : Prop where
  panic : s.panic = none
  ledger : ∀ (i : ℕ) c, s.calls[i]? = some c → Ledger s.conns c

theorem calm_init : Calm (init : Pipes β) where
  panic := rfl
  ledger i c hi := by simp [init] at hi

theorem Calm.step (hs : Calm s) (h : Step kinds s a s') : Calm s' := by
  have hothers : ∀ (j : ℕ) c', s.calls[j]? = some c' → Ledger s'.conns c' :=
    fun j c' hj => (hs.ledger j c' hj).mono h.closed_mono
  cases h with
  | write | read | close => exact ⟨hs.panic, hothers⟩
  | connect hne hdst hsrc =>
      exact ⟨hs.panic, forall_getElem?_concat hothers (ledger_start _ _ _ _)⟩
  | @cancel i c hi =>
      refine ⟨hs.panic, forall_getElem?_set (fun j c' _ hj => hothers j c' hj) ?_⟩
      have hc := hs.ledger i c hi
      exact ⟨hc.wg, hc.room, hc.errsClosed, hc.source, hc.target⟩
  | @op _ i c c' k' ha hi hop =>
      exact ⟨hs.panic, forall_getElem?_set (fun j c' _ hj => hothers j c' hj)
        ((hs.ledger i c hi).op hop)⟩
  | @reportPanics i d c e hi hpc hclosed =>
      have hopen := ((hs.ledger i c hi).errs_open (d := d) (by rw [hpc]; rfl)).1
      rw [hclosed] at hopen
      cases hopen
  | @finishPanics i d c hi hpc hwg =>
      exact absurd hwg ((hs.ledger i c hi).errs_open (d := d) (by rw [hpc]; rfl)).2

theorem calm_of_reachable (hs : (machine kinds β).Reachable s) : Calm s :=
  hs.invariant (fun _ h => h ▸ calm_init) (fun _ _ _ hs h => hs.step (step_rule h).2)

end Pipes

end Tunnel.Multiplexer
