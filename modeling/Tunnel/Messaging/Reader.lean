import Tunnel.Messaging.Message

set_option autoImplicit false

/-! # The loops at the two ends of a messaging stream (`messaging/channel.go`)

`writer` sends the messages of a channel one after the other. `reader` takes them off the stream
until `ReadFrom` fails, unpacks those that carry a request or a reply, and passes on the others.
`Channel.lean` follows how the two end; here it is what they do to the bytes.

The reader never makes up a message: what it obtains is always the beginning of what was sent. But
it obtains all of it only if the transport cuts no header and no data and does not report the end of
the stream along with the last of them (`reader_obtains_all_iff`); at the first cut it gives the
stream up. And its peer can crash it: the lengths in both headers are taken as they come.
`reader_safe_iff` says which streams it survives, with the memory it has; `reader_safe_of_honest`
that those of an honest writer are among them, however they are cut. -/

namespace Tunnel.Messaging

open Tunnel.Lib

/-! ## The writer -/

/-- Why `writer` gives up. -/
inductive WriterError
  | writing (err : String)
  | mismatched (expected actual : ℕ)

/-- `Channel.writer`, with what `Write` returns for each message: the bytes that get into the
    stream, and why it stopped before the channel was closed. -/
def writer (mem : Heap) :
    List (Message × Written) → Except WirePanic (List UInt8 × Option WriterError)
  | [] => .ok ([], none)
  | (m, w) :: rest => do
      let b ← m.marshalBinary mem
      match w.err with
      | some e => .ok (b.take w.n, some (.writing e))
      | none =>
          if w.n ≠ b.length then .ok (b.take w.n, some (.mismatched b.length w.n))
          else
            let (more, e) ← writer mem rest
            .ok (b ++ more, e)

/-- The bytes of messages that follow each other. -/
def encode (msgs : List Message) : List UInt8 := msgs.flatMap Message.bytes

theorem encode_cons (m : Message) (msgs : List Message) :
    encode (m :: msgs) = m.header ++ (m.data ++ encode msgs) := by
  rw [encode, List.flatMap_cons, Message.bytes, List.append_assoc]
  rfl

variable {mem mem' : Heap}

/-- A writer that did not give up has written all messages, and all have an `int` for a length. -/
theorem writer_ok {calls : List (Message × Written)} {stream : List UInt8}
    (h : writer mem calls = .ok (stream, none)) :
    stream = encode (calls.map Prod.fst) ∧
      ∀ m ∈ calls.map Prod.fst, m.data.length < 2 ^ 63 := by
  induction calls generalizing stream with
  | nil =>
      cases h
      exact ⟨rfl, by simp⟩
  | cons call rest ih =>
      obtain ⟨m, w⟩ := call
      simp only [writer, bind, Except.bind] at h
      split at h
      · cases h
      · next b hb =>
          have hlt := Message.lt_of_marshalBinary hb
          obtain ⟨_, rfl⟩ := Message.marshalBinary_eq_ok.1 hb
          split at h
          · cases h
          · split at h
            · cases h
            · split at h
              · cases h
              · next r hr =>
                  obtain ⟨more, e⟩ := r
                  simp only [Except.ok.injEq, Prod.mk.injEq] at h
                  obtain ⟨rfl, rfl⟩ := h
                  obtain ⟨rfl, hall⟩ := ih hr
                  exact ⟨rfl, by simpa using ⟨hlt, by simpa using hall⟩⟩

/-! ## The reader -/

/-- How `reader` ends. -/
inductive ReaderEnd
  | stopped (err : ReadError)
  | crashed (p : WirePanic)
deriving DecidableEq

/-- What `reader` has done when it ends: the messages that `ReadFrom` returned, in turn, and the
    requests and replies it passed to `handleRPC`, with the messages they came in. -/
structure ReaderRun where
  got : List Message
  rpcs : List (Message × RequestReply)
  ended : ReaderEnd
deriving DecidableEq

/-- What the `switch` of `reader` does with a message: the calls of `handleRPC` it starts. -/
def dispatch (mem : Heap) (m : Message) : Except WirePanic (List (Message × RequestReply)) :=
  if m.type = messageRequestReply then
    match RequestReply.zero.unpack mem m.data with
    | .error p => .error p
    | .ok r => .ok [(m, r)]
  else .ok []

/-- `Channel.reader` -/
def reader (mem : Heap) (conn : Source UInt8) : ReaderRun :=
  match _h : Message.readFrom mem conn with
  | .error (.error err) => ⟨[], [], .stopped err⟩
  | .error (.panic p) => ⟨[], [], .crashed p⟩
  | .ok (m, rest) => match dispatch mem m with
    | .error p => ⟨[m], [], .crashed p⟩
    | .ok calls =>
        let r := reader mem rest
        ⟨m :: r.got, calls ++ r.rpcs, r.ended⟩
termination_by conn.contents.length
decreasing_by
  have hlen := congrArg List.length (Message.readFrom_spec _h).1
  simp only [List.length_append, Message.length_header, messageHeaderLength] at hlen
  omega

variable {conn rest : Source UInt8} {m : Message} {msgs : List Message}

theorem reader_of_error {err : ReadError} (h : Message.readFrom mem conn = .error (.error err)) :
    reader mem conn = ⟨[], [], .stopped err⟩ := by
  rw [reader]
  split <;> simp_all

theorem reader_of_panic {p : WirePanic} (h : Message.readFrom mem conn = .error (.panic p)) :
    reader mem conn = ⟨[], [], .crashed p⟩ := by
  rw [reader]
  split <;> simp_all

theorem reader_of_ok (h : Message.readFrom mem conn = .ok (m, rest)) :
    reader mem conn = match dispatch mem m with
      | .error p => ⟨[m], [], .crashed p⟩
      | .ok calls =>
          ⟨m :: (reader mem rest).got, calls ++ (reader mem rest).rpcs,
            (reader mem rest).ended⟩ := by
  rw [reader]
  split
  · simp_all
  · simp_all
  · next m' rest' h' =>
      rw [h, Except.ok.injEq, Prod.mk.injEq] at h'
      obtain ⟨rfl, rfl⟩ := h'
      rfl

/-! ## What the reader obtains -/

/-- The parts of which messages consist on the wire. -/
def parts (msgs : List Message) : List (List UInt8) := msgs.flatMap (fun m => [m.header, m.data])

/-- There is memory for the data of a message; and a request or a reply has a header, and there is
    memory for what the header announces. -/
def Digestible (mem : Heap) (m : Message) : Prop :=
  mem.Holds m.data.length ∧ (m.type = messageRequestReply → RequestReply.HasHeader mem m.data)

/-- The data that a header announces is there. -/
def Fits (m : Message) : Prop := RequestReply.announces m.data ≤ m.data.length

/-- **What becomes of one message.** The reader survives it exactly if it is not a request or reply
    without a header; and what it unpacks is no longer than the message if the header announces no
    more. -/
theorem dispatch_cases (mem : Heap) (m : Message) :
    ((m.type = messageRequestReply → RequestReply.HasHeader mem m.data) ∧ ∃ calls,
        dispatch mem m = .ok calls ∧ ((∀ c ∈ calls, c.2.data.length ≤ c.1.data.length) ↔
          (m.type = messageRequestReply → Fits m))) ∨
      (m.type = messageRequestReply ∧ ¬ RequestReply.HasHeader mem m.data ∧
        ∃ p, dispatch mem m = .error p) := by
  by_cases htype : m.type = messageRequestReply
  · rcases RequestReply.unpack_cases mem .zero m.data with ⟨hheader, r, hr, hlen⟩ | ⟨hheader, p, hp⟩
    · refine Or.inl ⟨fun _ => hheader, [(m, r)], by simp [dispatch, htype, hr], ?_⟩
      simp [htype, hlen, Fits]
    · exact Or.inr ⟨htype, hheader, p, by simp [dispatch, htype, hp]⟩
  · exact Or.inl ⟨fun h => absurd h htype, [], by simp [dispatch, htype], by simp [htype]⟩

/-- What the first `ReadFrom` returns is the first message that was sent. -/
theorem readFrom_encode (hlt : ∀ m' ∈ m :: msgs, m'.data.length < 2 ^ 63)
    (hconn : conn.contents = encode (m :: msgs)) {m' : Message}
    (h : Message.readFrom mem conn = .ok (m', rest)) : m' = m ∧ rest.contents = encode msgs := by
  obtain ⟨hcontents, hmem, _⟩ := Message.readFrom_spec h
  rw [hconn, encode_cons] at hcontents
  exact Message.eq_of_header_append hmem.lt (hlt m List.mem_cons_self) hcontents.symm

/-- The reader never obtains anything but the beginning of what was sent. -/
theorem reader_got_beginning (hlt : ∀ m ∈ msgs, m.data.length < 2 ^ 63)
    (hconn : conn.contents = encode msgs) : (reader mem conn).got <+: msgs := by
  induction msgs generalizing conn with
  | nil =>
      cases hread : Message.readFrom mem conn with
      | error e =>
          cases e with
          | error err => rw [reader_of_error hread]
          | panic p => rw [reader_of_panic hread]
      | ok r =>
          obtain ⟨m, rest⟩ := r
          have hnil := (Message.readFrom_spec hread).1
          rw [hconn] at hnil
          exact absurd hnil.symm (by simp [encode, Message.header_ne_nil])
  | cons m msgs ih =>
      cases hread : Message.readFrom mem conn with
      | error e =>
          cases e with
          | error err =>
              rw [reader_of_error hread]
              exact List.nil_prefix
          | panic p =>
              rw [reader_of_panic hread]
              exact List.nil_prefix
      | ok r =>
          obtain ⟨m', rest⟩ := r
          obtain ⟨rfl, hrest⟩ := readFrom_encode hlt hconn hread
          have ih := ih (fun m hm => hlt m (List.mem_cons_of_mem _ hm)) hrest
          rw [reader_of_ok hread]
          cases dispatch mem m' with
          | error p => exact List.cons_prefix_cons.2 ⟨rfl, List.nil_prefix⟩
          | ok calls => exact List.cons_prefix_cons.2 ⟨rfl, ih⟩

/-- A stream of which nothing is left ends the loop. -/
theorem reader_of_nil (hconn : conn.contents = []) :
    reader mem conn = ⟨[], [], .stopped .header⟩ := by
  refine reader_of_error ?_
  have hread : conn.readOk messageHeaderLength = none :=
    Source.readOk_of_nil hconn (by decide)
  simp only [Message.readFrom, hread]

/-- The end of the stream is not reported with the last message, nor in place of its data. -/
def EndVisible (conn : Source UInt8) (msgs : List Message) : Prop :=
  ∀ m, msgs.getLast? = some m → Message.EndClear conn m

theorem endVisible_cons :
    EndVisible conn (m :: msgs) ↔
      (encode msgs = [] → Message.EndClear conn m) ∧ EndVisible conn msgs := by
  cases msgs with
  | nil => simp [EndVisible, encode]
  | cons m' msgs =>
      have hne : encode (m' :: msgs) ≠ [] := by simp [encode_cons, Message.header_ne_nil]
      simp [EndVisible, hne, List.getLast?_cons_cons]

/-- The first message is read exactly if it is not cut, its end is visible, and there is memory for
    its data. -/
theorem readFrom_first_iff (mem : Heap) (hconn : conn.contents = encode (m :: msgs)) :
    (conn.Intact (parts (m :: msgs)) ∧ EndVisible conn (m :: msgs) ∧ mem.Holds m.data.length) ↔
      ∃ rest, Message.readFrom mem conn = .ok (m, rest) ∧ rest.Intact (parts msgs) ∧
        EndVisible rest msgs := by
  have hparts : parts (m :: msgs) = m.header :: m.data :: parts msgs := rfl
  rw [encode_cons] at hconn
  rw [hparts, endVisible_cons]
  constructor
  · rintro ⟨hintact, ⟨hfirst, hend⟩, hmem⟩
    obtain ⟨rest, hread, _, hending, hrest⟩ :=
      (Message.readFrom_iff hconn).1 ⟨hintact, hfirst, hmem⟩
    exact ⟨rest, hread, hrest, by simpa only [EndVisible, Message.EndClear, hending] using hend⟩
  · rintro ⟨rest, hread, hrest, hend⟩
    obtain ⟨hcontents, _, hending⟩ := Message.readFrom_spec hread
    have hmore : rest.contents = encode msgs :=
      (List.append_cancel_left (List.append_cancel_left (hcontents.symm.trans hconn)))
    obtain ⟨hintact, hfirst, hmem⟩ :=
      (Message.readFrom_iff hconn).2 ⟨rest, hread, hmore, hending, hrest⟩
    exact ⟨hintact, ⟨hfirst, by simpa only [EndVisible, Message.EndClear, hending] using hend⟩,
      hmem⟩

/-- The reader obtains all messages exactly if they are not cut, it can digest them, and their end
    can be told. -/
theorem reader_got_all_iff (hlt : ∀ m ∈ msgs, m.data.length < 2 ^ 63)
    (hconn : conn.contents = encode msgs) :
    ((reader mem conn).got = msgs ∧ (reader mem conn).ended = .stopped .header) ↔
      conn.Intact (parts msgs) ∧ EndVisible conn msgs ∧ ∀ m ∈ msgs, Digestible mem m := by
  induction msgs generalizing conn with
  | nil =>
      have hend : EndVisible conn [] := fun m h => by simp at h
      rw [reader_of_nil hconn]
      exact iff_of_true ⟨rfl, rfl⟩ ⟨Source.intact_nil conn, hend, fun m h => absurd h (by simp)⟩
  | cons m msgs ih =>
      have hfirst := readFrom_first_iff mem hconn
      rw [List.forall_mem_cons]
      cases hread : Message.readFrom mem conn with
      | error e =>
          refine iff_of_false (fun h => ?_) ?_
          · cases e with
            | error err => rw [reader_of_error hread] at h; exact absurd h.1 (by simp)
            | panic p => rw [reader_of_panic hread] at h; exact absurd h.1 (by simp)
          · rintro ⟨hintact, hend, hm, _⟩
            obtain ⟨rest, hrest, _⟩ := hfirst.1 ⟨hintact, hend, hm.1⟩
            rw [hread] at hrest
            cases hrest
      | ok r =>
          obtain ⟨m', rest⟩ := r
          obtain ⟨rfl, hrest⟩ := readFrom_encode hlt hconn hread
          have hmem : mem.Holds m'.data.length := (Message.readFrom_spec hread).2.1
          have ih := ih (fun m hm => hlt m (List.mem_cons_of_mem _ hm)) hrest
          have hnext : (conn.Intact (parts (m' :: msgs)) ∧ EndVisible conn (m' :: msgs)) ↔
              rest.Intact (parts msgs) ∧ EndVisible rest msgs := by
            simp only [hmem, and_true, hread, Except.ok.injEq, Prod.mk.injEq, true_and] at hfirst
            simpa using hfirst
          rw [reader_of_ok hread, ← and_assoc, hnext]
          rcases dispatch_cases mem m' with ⟨hok, calls, hcalls, _⟩ | ⟨htype, hbad, p, hp⟩
          · simp only [hcalls, List.cons.injEq, true_and, ih, Digestible, hmem]
            constructor
            · rintro ⟨hintact, hend, hmsgs⟩
              exact ⟨⟨hintact, hend⟩, hok, hmsgs⟩
            · rintro ⟨⟨hintact, hend⟩, _, hmsgs⟩
              exact ⟨hintact, hend, hmsgs⟩
          · simp only [hp]
            refine iff_of_false (fun h => ?_) (fun h => hbad (h.2.1.2 htype))
            exact absurd h.2 (by simp)

/-- **The message stream and the cuts of the transport.** A sequence of messages was written in
    full. However its bytes are cut, the reader obtains nothing but the beginning of the sequence;
    and it obtains all of it before the end-of-stream error exactly if no piece ends inside a header
    or inside the data of a message, the end of the stream is neither reported with the last message
    nor in place of its data, there is memory for the data of all messages, and every request and
    reply among them has a header and announces no more than there is memory for. -/
theorem reader_obtains_all_iff {calls : List (Message × Written)} {stream : List UInt8}
    (hwriter : writer mem' calls = .ok (stream, none)) (hconn : conn.contents = stream) :
    (reader mem conn).got <+: calls.map Prod.fst ∧
      (((reader mem conn).got = calls.map Prod.fst ∧ (reader mem conn).ended = .stopped .header) ↔
        conn.Intact (parts (calls.map Prod.fst)) ∧ EndVisible conn (calls.map Prod.fst) ∧
          ∀ m ∈ calls.map Prod.fst, Digestible mem m) := by
  obtain ⟨rfl, hlt⟩ := writer_ok hwriter
  exact ⟨reader_got_beginning hlt hconn, reader_got_all_iff hlt hconn⟩

/-- Two messages in one piece, the second without data, are both obtained. -/
theorem reader_obtains_all_iff_whole :
    ∃ (calls : List (Message × Written)) (stream : List UInt8) (conn : Source UInt8),
      writer Heap.amd64 calls = .ok (stream, none) ∧ conn.contents = stream ∧
        calls.map Prod.fst = [⟨1, 5, [7, 8]⟩, ⟨2, 5, []⟩] ∧
        (reader Heap.amd64 conn).got = [⟨1, 5, [7, 8]⟩, ⟨2, 5, []⟩] ∧
        (reader Heap.amd64 conn).ended = .stopped .header := by
  have hwriter : writer Heap.amd64 [(⟨1, 5, [7, 8]⟩, ⟨26, none⟩), (⟨2, 5, []⟩, ⟨24, none⟩)]
      = .ok (encode [⟨1, 5, [7, 8]⟩, ⟨2, 5, []⟩], none) := rfl
  let conn : Source UInt8 := ⟨[encode [⟨1, 5, [7, 8]⟩, ⟨2, 5, []⟩]], by decide, .late⟩
  have hconn : conn.contents = encode [⟨1, 5, [7, 8]⟩, ⟨2, 5, []⟩] := by decide
  refine ⟨_, _, conn, hwriter, hconn, rfl, ?_⟩
  refine (reader_obtains_all_iff hwriter hconn).2.2 ⟨?_, ?_, ?_⟩
  · exact Source.intact_of_piece (by decide)
  · exact fun m _ => ⟨rfl, fun _ => rfl⟩
  · intro m hm
    simp only [List.map_cons, List.map_nil, List.mem_cons, List.not_mem_nil, or_false] at hm
    rcases hm with rfl | rfl <;> exact ⟨by decide, fun h => absurd h (by decide)⟩

/-- A message, with a cut after the first byte of its header, with one inside its data, and in the
    two pieces that `ReadFrom` asks for, but with the end of the stream along with the second: the
    reader obtains nothing, and gives the stream up. -/
theorem reader_stops_at_cut :
    ∃ (conn conn' conn'' : Source UInt8) (stream : List UInt8),
      writer Heap.amd64 [(⟨1, 5, [7, 8]⟩, ⟨26, none⟩)] = .ok (stream, none) ∧
        conn.contents = stream ∧ conn'.contents = stream ∧ conn''.contents = stream ∧
        reader Heap.amd64 conn = ⟨[], [], .stopped (.headerLength 1)⟩ ∧
        reader Heap.amd64 conn' = ⟨[], [], .stopped .incomplete⟩ ∧
        reader Heap.amd64 conn'' = ⟨[], [], .stopped .data⟩ := by
  let stream := encode [⟨1, 5, [7, 8]⟩]
  let conn : Source UInt8 := ⟨[stream.take 1, stream.drop 1], by decide, .late⟩
  let conn' : Source UInt8 := ⟨[stream.take 25, stream.drop 25], by decide, .late⟩
  let conn'' : Source UInt8 := ⟨[stream.take 24, stream.drop 24], by decide, ⟨true, false⟩⟩
  exact ⟨conn, conn', conn'', stream, rfl, by decide, by decide, by decide, reader_of_error rfl,
    reader_of_error rfl, reader_of_error rfl⟩

/-! ## What the reader survives -/

/-- `msgs` are the messages that successive calls of `ReadFrom` return, and `rest` the stream behind
    them. -/
inductive Obtained (mem : Heap) : Source UInt8 → List Message → Source UInt8 → Prop
  | nil {conn : Source UInt8} : Obtained mem conn [] conn
  | cons {conn next rest : Source UInt8} {m : Message} {msgs : List Message} :
      Message.readFrom mem conn = .ok (m, next) → Obtained mem next msgs rest →
        Obtained mem conn (m :: msgs) rest

/-- There is memory for the length in the next header, if it is read. -/
def HeaderOk (mem : Heap) (conn : Source UInt8) : Prop :=
  ∀ head rest, conn.readOk messageHeaderLength = some (head, rest) →
    head.length = messageHeaderLength → mem.Holds (getUint64 (head.take 8)).toNat

/-- A request or reply has a header, and the data that it announces. -/
def PayloadOk (m : Message) : Prop :=
  m.type = messageRequestReply → rrHeaderLength ≤ m.data.length ∧ Fits m

/-- The reader has stopped with an error, and has not unpacked more than there was. -/
def ReaderRun.Safe (r : ReaderRun) : Prop :=
  (∃ err, r.ended = .stopped err) ∧ ∀ c ∈ r.rpcs, c.2.data.length ≤ c.1.data.length

theorem headerOk_iff : HeaderOk mem conn ↔ ∀ p, Message.readFrom mem conn ≠ .error (.panic p) := by
  cases hhead : conn.readOk messageHeaderLength with
  | none => simp [HeaderOk, Message.readFrom, hhead]
  | some r =>
      obtain ⟨head, next⟩ := r
      by_cases hlen : head.length = messageHeaderLength
      · by_cases hmem : mem.Holds (getUint64 (head.take 8)).toNat
        · refine iff_of_true ?_ ?_
          · rintro head' rest' h _
            rw [hhead, Option.some.injEq, Prod.mk.injEq] at h
            rwa [← h.1]
          · intro p h
            simp only [Message.readFrom, hhead, hlen, ne_eq, not_true_eq_false, if_false,
              makeBytes_of_holds hmem] at h
            split at h
            · cases h
            · split at h <;> cases h
        · refine iff_of_false (fun h => hmem (h head next hhead hlen)) (fun h => ?_)
          obtain ⟨p, hp⟩ := makeBytes_of_not_holds hmem
          exact h p (by simp [Message.readFrom, hhead, hlen, hp])
      · refine iff_of_true ?_ (by simp [Message.readFrom, hhead, hlen])
        rintro head' rest' h hlen'
        rw [hhead, Option.some.injEq, Prod.mk.injEq] at h
        exact absurd (h.1 ▸ hlen') hlen

theorem payloadOk_iff (hmem : mem.Holds m.data.length) :
    PayloadOk m ↔ (m.type = messageRequestReply → RequestReply.HasHeader mem m.data) ∧
      (m.type = messageRequestReply → Fits m) := by
  unfold PayloadOk RequestReply.HasHeader Fits
  constructor
  · exact fun h => ⟨fun htype => ⟨(h htype).1, hmem.mono (h htype).2⟩,
      fun htype => (h htype).2⟩
  · exact fun h htype => ⟨(h.1 htype).1, h.2 htype⟩

/-- All that a stream gives is well formed. -/
def WellFormed (mem : Heap) (conn : Source UInt8) : Prop :=
  ∀ msgs rest, Obtained mem conn msgs rest → HeaderOk mem rest ∧ ∀ m ∈ msgs, PayloadOk m

theorem wellFormed_of_readFrom (h : Message.readFrom mem conn = .ok (m, rest)) :
    WellFormed mem conn ↔ PayloadOk m ∧ WellFormed mem rest := by
  constructor
  · intro hconn
    refine ⟨(hconn [m] rest (.cons h .nil)).2 m List.mem_cons_self, fun msgs rest' hget => ?_⟩
    obtain ⟨hheader, hmsgs⟩ := hconn (m :: msgs) rest' (.cons h hget)
    exact ⟨hheader, fun m' hm' => hmsgs m' (List.mem_cons_of_mem m hm')⟩
  · rintro ⟨hm, hrest⟩ msgs rest' hget
    cases hget with
    | nil =>
        refine ⟨headerOk_iff.2 fun p hp => ?_, fun m' hm' => absurd hm' (by simp)⟩
        rw [h] at hp
        cases hp
    | cons h' hget =>
        rw [h, Except.ok.injEq, Prod.mk.injEq] at h'
        obtain ⟨rfl, rfl⟩ := h'
        obtain ⟨hheader, hmsgs⟩ := hrest _ _ hget
        refine ⟨hheader, fun m' hm' => ?_⟩
        rcases List.mem_cons.1 hm' with rfl | hm'
        · exact hm
        · exact hmsgs m' hm'

theorem wellFormed_of_error {e : ReadFault} (h : Message.readFrom mem conn = .error e) :
    WellFormed mem conn ↔ HeaderOk mem conn := by
  constructor
  · exact fun hconn => (hconn [] conn .nil).1
  · rintro hheader msgs rest hget
    cases hget with
    | nil => exact ⟨hheader, fun m hm => absurd hm (by simp)⟩
    | cons h' _ =>
        rw [h] at h'
        cases h'

theorem safe_iff_wellFormed {conn : Source UInt8} :
    (reader mem conn).Safe ↔ WellFormed mem conn := by
  induction conn using reader.induct mem with
  | case1 conn err h =>
      rw [reader_of_error h, wellFormed_of_error h, headerOk_iff]
      exact iff_of_true ⟨⟨err, rfl⟩, fun c hc => absurd hc (by simp)⟩
        (fun p hp => by simp [h] at hp)
  | case2 conn p h =>
      rw [reader_of_panic h, wellFormed_of_error h, headerOk_iff]
      refine iff_of_false ?_ (fun hno => hno p h)
      rintro ⟨⟨err, herr⟩, _⟩
      cases herr
  | case3 conn m rest h p hp =>
      obtain ⟨_, hmem, _⟩ := Message.readFrom_spec h
      rw [reader_of_ok h, wellFormed_of_readFrom h, payloadOk_iff hmem, hp]
      rcases dispatch_cases mem m with ⟨_, calls, hcalls, _⟩ | ⟨htype, hbad, _⟩
      · rw [hp] at hcalls
        cases hcalls
      · refine iff_of_false ?_ (fun hok => hbad (hok.1.1 htype))
        rintro ⟨⟨err, herr⟩, _⟩
        cases herr
  | case4 conn m rest h calls hcalls ih =>
      obtain ⟨_, hmem, _⟩ := Message.readFrom_spec h
      rw [reader_of_ok h, wellFormed_of_readFrom h, payloadOk_iff hmem, ← ih, hcalls]
      rcases dispatch_cases mem m with ⟨hheader, calls', hcalls', hfits⟩ | ⟨_, _, p, hp⟩
      · rw [hcalls] at hcalls'
        cases hcalls'
        rw [← hfits]
        simp only [ReaderRun.Safe, List.mem_append, or_imp, forall_and]
        constructor
        · rintro ⟨hend, hfit, hrest⟩
          exact ⟨⟨hheader, hfit⟩, hend, hrest⟩
        · rintro ⟨⟨_, hfit⟩, hend, hrest⟩
          exact ⟨hend, hfit, hrest⟩
      · rw [hcalls] at hp
        cases hp

/-- **Which bytes crash the reader.** On every stream, however it is cut, and with any memory, the
    reader ends. It ends with an error, and no request or reply it unpacks is longer than the
    message it came in, exactly if every header it reads announces a length for which there is
    memory, and every request or reply it obtains has a header and the data that its header
    announces. -/
theorem reader_safe_iff (mem : Heap) (conn : Source UInt8) :
    (reader mem conn).Safe ↔
      ∀ msgs rest, Obtained mem conn msgs rest → HeaderOk mem rest ∧ ∀ m ∈ msgs, PayloadOk m :=
  safe_iff_wellFormed

/-- A request or reply of a header only, which announces 18 bytes of data. -/
def oversized : Message :=
  ⟨messageRequestReply, 5, putUint64 18 ++ putUint64 3 ++ [0]⟩

/-- The header of a message that announces `dl` bytes. -/
def headerOf (dl : UInt64) : List UInt8 := putUint64 dl ++ putUint64 1 ++ putUint64 5

/-- Streams of a peer: headers with a length that is negative as an `int`, one that is more than the
    runtime considers, and one for which there is no memory; a request without a byte of payload;
    and a request that announces more than there is. All but the last crash the node, and the last
    makes the reader unpack more than it got. -/
theorem reader_crashes :
    (∀ dl ∈ [0x8000000000000000, 0x4000000000000], ∃ conn : Source UInt8,
      conn.contents = headerOf dl ∧
        reader Heap.amd64 conn = ⟨[], [], .crashed .makesliceLenOutOfRange⟩) ∧
    (∃ conn : Source UInt8, conn.contents = headerOf 0x10000000000 ∧
      reader Heap.amd64 conn = ⟨[], [], .crashed .outOfMemory⟩) ∧
    (∃ conn : Source UInt8, conn.contents = encode [⟨messageRequestReply, 5, []⟩] ∧
      reader Heap.amd64 conn
        = ⟨[⟨messageRequestReply, 5, []⟩], [], .crashed .sliceOutOfRange⟩) ∧
    ∃ conn : Source UInt8, conn.contents = encode [oversized] ∧
      (reader Heap.amd64 conn).rpcs = [(oversized, ⟨false, 3, List.replicate 18 0⟩)] ∧
      oversized.data.length = 17 := by
  refine ⟨?_, ⟨⟨[headerOf 0x10000000000], by decide, .late⟩, by decide, reader_of_panic rfl⟩,
    ⟨⟨[encode [⟨messageRequestReply, 5, []⟩]], by decide, .late⟩, by decide, ?_⟩,
    ⟨[encode [oversized]], by decide, .late⟩, by decide, ?_, by decide⟩
  · intro dl hdl
    simp only [List.mem_cons, List.not_mem_nil, or_false] at hdl
    rcases hdl with rfl | rfl
    · exact ⟨⟨[headerOf 0x8000000000000000], by decide, .late⟩, by decide, reader_of_panic rfl⟩
    · exact ⟨⟨[headerOf 0x4000000000000], by decide, .late⟩, by decide, reader_of_panic rfl⟩
  · have hread : Message.readFrom Heap.amd64
        ⟨[encode [⟨messageRequestReply, 5, []⟩]], by decide, .late⟩
        = .ok (⟨messageRequestReply, 5, []⟩, ⟨[], by simp, .late⟩) := rfl
    rw [reader_of_ok hread]
    rfl
  · have hread : Message.readFrom Heap.amd64 ⟨[encode [oversized]], by decide, .late⟩
        = .ok (oversized, ⟨[], by simp, .late⟩) := rfl
    rw [reader_of_ok hread, reader_of_nil rfl]
    rfl

/-- What is obtained of messages that were sent is the first of them, and the others follow. -/
theorem obtained_encode {all : List Message} (hget : Obtained mem conn msgs rest)
    (hlt : ∀ m ∈ all, m.data.length < 2 ^ 63) (hconn : conn.contents = encode all) :
    ∃ later, all = msgs ++ later ∧ rest.contents = encode later := by
  induction hget generalizing all with
  | nil => exact ⟨all, rfl, hconn⟩
  | @cons conn next rest m msgs hread _ ih =>
      cases all with
      | nil =>
          have hnil := (Message.readFrom_spec hread).1
          rw [hconn] at hnil
          exact absurd hnil.symm (by simp [encode, Message.header_ne_nil])
      | cons m' all =>
          obtain ⟨rfl, hnext⟩ := readFrom_encode hlt hconn hread
          obtain ⟨later, rfl, hrest⟩ := ih (fun m hm => hlt m (List.mem_cons_of_mem _ hm)) hnext
          exact ⟨later, rfl, hrest⟩

/-- The next header of messages that were sent is that of a message. -/
theorem headerOk_encode (hroom : ∀ m ∈ msgs, mem.Holds m.data.length)
    (hconn : conn.contents = encode msgs) : HeaderOk mem conn := by
  intro head next hread hlen
  obtain ⟨hcontents, _⟩ := Source.readOk_spec hread
  cases msgs with
  | nil =>
      rw [hconn] at hcontents
      have hnil : head = [] := (List.append_eq_nil_iff.1 hcontents.symm).1
      rw [hnil] at hlen
      exact absurd hlen (by decide)
  | cons m msgs =>
      rw [hconn, encode_cons] at hcontents
      have hheader : m.header = head :=
        (List.append_inj hcontents ((Message.length_header m).trans hlen.symm)).1
      have hm := hroom m List.mem_cons_self
      rw [← hheader, (Message.fields_header hm.lt).1]
      exact hm

/-- What `Pack` wrote is a payload with its data. -/
theorem payloadOk_of_pack {r : RequestReply} (h : r.pack mem = .ok m.data) : PayloadOk m := by
  obtain ⟨hmem, hdata⟩ := RequestReply.pack_eq_ok.1 h
  have hlt := hmem.lt
  have hlen := RequestReply.length_bytes r
  intro _
  rw [Fits, hdata, RequestReply.announces_bytes (by omega)]
  omega

/-- **An honest peer does not crash the reader.** If the messages were written by `writer`, and
    those with a request or a reply packed by `Pack`, the reader survives them however they are cut,
    as long as it has memory for their data. -/
theorem reader_safe_of_honest {calls : List (Message × Written)} {stream : List UInt8}
    (hwriter : writer mem' calls = .ok (stream, none)) (hconn : conn.contents = stream)
    (hpacked : ∀ m ∈ calls.map Prod.fst, m.type = messageRequestReply →
      ∃ r : RequestReply, r.pack mem' = .ok m.data)
    (hroom : ∀ m ∈ calls.map Prod.fst, mem.Holds m.data.length) : (reader mem conn).Safe := by
  obtain ⟨rfl, hlt⟩ := writer_ok hwriter
  refine safe_iff_wellFormed.2 fun msgs rest hget => ?_
  obtain ⟨later, hall, hrest⟩ := obtained_encode hget hlt hconn
  rw [hall] at hroom hpacked
  refine ⟨headerOk_encode (fun m hm => hroom m (List.mem_append_right _ hm)) hrest, ?_⟩
  intro m hm htype
  obtain ⟨r, hr⟩ := hpacked m (List.mem_append_left _ hm) htype
  exact payloadOk_of_pack hr htype

end Tunnel.Messaging
