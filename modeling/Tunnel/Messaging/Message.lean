import Tunnel.Lib.Code
import Tunnel.Lib.Source
import Tunnel.Messaging.Channel
import Tunnel.Messaging.Wire

set_option autoImplicit false

/-! # Messages on the wire (`messaging/message.go`)

A message is a header of 24 bytes, with the length of its data, its type and its sender, and then
the data. `ReadFrom` takes the header with one `Read` and the data with another. It checks that both
returned as much as it asked for, and no error, and fails if they did not; so what it returns is
always a message that stood on the wire (`readFrom_spec`), but it returns it only if the transport
cut the stream neither inside the header nor inside the data, and did not report the end of the
stream along with them (`readFrom_iff`).

`UnmarshalBinary` takes a message off the front of a buffer that holds all of it; what stands behind
it is not looked at. So the encodings are a prefix code, and bytes are the concatenation of those of
at most one sequence of messages (`messages_uniquely_decodable`).

The length is taken from the wire and turned into an `int`, and `make` ends the program if it cannot
make such a slice. The number of bytes that `ReadFrom` returns is not used by its caller and left
out. -/

namespace Tunnel.Messaging

open Tunnel.Lib

/-- `messageHeaderLength` -/
def messageHeaderLength : ℕ := 24

/-- Why `ReadFrom` fails. Of the errors that `Read` may report there is only the end of the
    stream. -/
inductive ReadError
  | header
  | headerLength (l : ℕ)
  | data
  | incomplete
deriving DecidableEq

namespace ReadError

/-- `Error()` -/
def text : ReadError → String
  | .header => "reading message header: EOF"
  | .headerLength l => "invalid buffer length: " ++ toString l
  | .data => "reading message data: EOF"
  | .incomplete => "incomplete data buffer read"

end ReadError

/-- How `ReadFrom` ends when it does not return a message. -/
inductive ReadFault
  | error (err : ReadError)
  | panic (p : WirePanic)
deriving DecidableEq

namespace Message

/-- The header of a message with this type and sender and `dl` bytes of data. -/
def header (m : Message) : List UInt8 :=
  putUint64 (UInt64.ofNat m.data.length) ++ putUint64 m.type.toUInt64 ++ putUint64 m.sender

/-- The bytes of a message. -/
def bytes (m : Message) : List UInt8 := m.header ++ m.data

/-- `(*Message).MarshalBinary`. Every byte of the buffer is written once, so the bytes are given in
    their order. -/
def marshalBinary (mem : Heap) (m : Message) : Except WirePanic (List UInt8) := do
  let _ ← makeBytes mem (messageHeaderLength + m.data.length)
  .ok m.bytes

/-- `(*Message).UnmarshalBinary`. It assigns every field, whatever the receiver held before. -/
def unmarshalBinary (mem : Heap) (b : List UInt8) : Except WirePanic Message := do
  let dl := getUint64 (← sliceBytes b 0 8)
  let type := (getUint64 (← sliceBytes b 8 16)).toInt64
  let sender := getUint64 (← sliceBytes b 16 messageHeaderLength)
  let data ← makeBytes mem dl.toNat
  let rest ← sliceBytes b messageHeaderLength b.length
  .ok ⟨type, sender, copyBytes data rest⟩

/-- `(*Message).ReadFrom`: the message, and the stream behind it. -/
def readFrom (mem : Heap) (f : Source UInt8) : Except ReadFault (Message × Source UInt8) :=
  match f.readOk messageHeaderLength with
  | none => .error (.error .header)
  | some (head, f) =>
      if head.length ≠ messageHeaderLength then .error (.error (.headerLength head.length))
      else
        let type := (getUint64 ((head.drop 8).take 8)).toInt64
        let sender := getUint64 (head.drop 16)
        let dl := (getUint64 (head.take 8)).toNat
        match makeBytes mem dl with
        | .error p => .error (.panic p)
        | .ok buf => match f.readOk dl with
          | none => .error (.error .data)
          | some (b, f) =>
              if b.length ≠ dl then .error (.error .incomplete)
              else .ok (⟨type, sender, filled buf b⟩, f)

/-! ## The header -/

variable {mem mem' : Heap} {m m' : Message}

@[simp] theorem length_header (m : Message) : m.header.length = messageHeaderLength := by
  simp [header, messageHeaderLength]

theorem header_ne_nil (m : Message) : m.header ≠ [] := by
  intro h
  have := length_header m
  rw [h] at this
  exact absurd this (by decide)

/-- What `ReadFrom` takes out of a header. -/
theorem fields_header (hlt : m.data.length < 2 ^ 63) :
    (getUint64 (m.header.take 8)).toNat = m.data.length ∧
      (getUint64 ((m.header.drop 8).take 8)).toInt64 = m.type ∧
      getUint64 (m.header.drop 16) = m.sender := by
  have hdl : (UInt64.ofNat m.data.length).toNat = m.data.length := by
    rw [UInt64.toNat_ofNat', Nat.mod_eq_of_lt (by omega)]
  refine ⟨?_, ?_, ?_⟩
  · rw [header, List.append_assoc, List.take_left' (length_putUint64 _), getUint64_putUint64, hdl]
  · rw [header, List.append_assoc, List.drop_left' (length_putUint64 _),
      List.take_left' (length_putUint64 _), getUint64_putUint64]
    rfl
  · rw [header, List.drop_left' (by simp), getUint64_putUint64]

/-- Every full header is that of a message with as much data as it announces. -/
theorem header_of_length {head : List UInt8} (hlen : head.length = messageHeaderLength)
    {data : List UInt8} (hdata : data.length = (getUint64 (head.take 8)).toNat) :
    header ⟨(getUint64 ((head.drop 8).take 8)).toInt64, getUint64 (head.drop 16), data⟩ = head := by
  have hlen' : head.length = 24 := hlen
  have hdl : UInt64.ofNat data.length = getUint64 (head.take 8) := by
    rw [hdata, UInt64.ofNat_toNat]
  have htype : ((getUint64 ((head.drop 8).take 8)).toInt64).toUInt64
      = getUint64 ((head.drop 8).take 8) := rfl
  have hrest : head.drop 16 = (head.drop 8).drop 8 := by rw [List.drop_drop]
  simp only [header, hdl, htype]
  rw [putUint64_getUint64 _ (by simp [hlen']), putUint64_getUint64 _ (by simp [hlen']),
    putUint64_getUint64 _ (by simp [hlen']), hrest, List.append_assoc, List.take_append_drop,
    List.take_append_drop]

/-- A stream begins with at most one message. -/
theorem eq_of_header_append {more more' : List UInt8} (hlt : m.data.length < 2 ^ 63)
    (hlt' : m'.data.length < 2 ^ 63)
    (h : m.header ++ (m.data ++ more) = m'.header ++ (m'.data ++ more')) :
    m = m' ∧ more = more' := by
  obtain ⟨hheader, hrest⟩ := List.append_inj h (by rw [length_header, length_header])
  obtain ⟨hdl, htype, hsender⟩ := fields_header hlt
  obtain ⟨hdl', htype', hsender'⟩ := fields_header hlt'
  rw [hheader] at hdl htype hsender
  obtain ⟨hdata, hmore⟩ := List.append_inj hrest (hdl.symm.trans hdl')
  obtain ⟨type, sender, data⟩ := m
  obtain ⟨type', sender', data'⟩ := m'
  refine ⟨?_, hmore⟩
  simp only [mk.injEq]
  exact ⟨htype.symm.trans htype', hsender.symm.trans hsender', hdata⟩

/-- `MarshalBinary` returns exactly if header and data find room. -/
theorem marshalBinary_eq_ok {b : List UInt8} :
    m.marshalBinary mem = .ok b ↔
      mem.Holds (messageHeaderLength + m.data.length) ∧ b = m.bytes := by
  by_cases h : mem.Holds (messageHeaderLength + m.data.length)
  · simp only [marshalBinary, makeBytes_of_holds h, bind, Except.bind, Except.ok.injEq,
      and_iff_right h]
    exact eq_comm
  · obtain ⟨p, hp⟩ := makeBytes_of_not_holds h
    simp [marshalBinary, hp, h, bind, Except.bind]

theorem lt_of_marshalBinary {b : List UInt8} (h : m.marshalBinary mem = .ok b) :
    m.data.length < 2 ^ 63 := by
  have hlt := (marshalBinary_eq_ok.1 h).1.lt
  omega

/-! ## Unique decodability -/

/-- **Round trip.** `UnmarshalBinary` takes a message off the front of whatever follows it. -/
theorem unmarshalBinary_append (hmem : mem.Holds m.data.length) (trailing : List UInt8) :
    unmarshalBinary mem (m.bytes ++ trailing) = .ok m := by
  have hlt := hmem.lt
  have hdl : (UInt64.ofNat m.data.length).toNat = m.data.length := by
    rw [UInt64.toNat_ofNat', Nat.mod_eq_of_lt (by omega)]
  have hs₀ : sliceBytes (m.bytes ++ trailing) 0 8
      = .ok (putUint64 (UInt64.ofNat m.data.length)) := by
    simpa [bytes, header] using sliceBytes_append (u := [])
      (w := putUint64 m.type.toUInt64 ++ putUint64 m.sender ++ m.data ++ trailing) rfl
      (by simp)
  have hs₁ : sliceBytes (m.bytes ++ trailing) 8 16 = .ok (putUint64 m.type.toUInt64) := by
    simpa [bytes, header] using sliceBytes_append (w := putUint64 m.sender ++ m.data ++ trailing)
      (length_putUint64 (UInt64.ofNat m.data.length)) (by rw [length_putUint64])
  have hs₂ : sliceBytes (m.bytes ++ trailing) 16 messageHeaderLength
      = .ok (putUint64 m.sender) := by
    simpa [bytes, header] using sliceBytes_append (w := m.data ++ trailing)
      (u := putUint64 (UInt64.ofNat m.data.length) ++ putUint64 m.type.toUInt64)
      (by simp) (by rw [length_putUint64]; rfl)
  have hs₃ : sliceBytes (m.bytes ++ trailing) messageHeaderLength (m.bytes ++ trailing).length
      = .ok (m.data ++ trailing) := by
    simpa [bytes] using sliceBytes_append (v := m.data ++ trailing) (w := []) (length_header m) rfl
  have hcopy : copyBytes (List.replicate m.data.length 0) (m.data ++ trailing) = m.data := by
    simp [copyBytes]
  simp only [unmarshalBinary, hs₀, hs₁, hs₂, hs₃, getUint64_putUint64, hdl,
    makeBytes_of_holds hmem, hcopy, bind, Except.bind]
  rfl

/-- The encodings of messages. -/
def Encodings : Set (List UInt8) := { b | ∃ m : Message, m.data.length < 2 ^ 63 ∧ b = m.bytes }

theorem mem_encodings {b : List UInt8} (h : m.marshalBinary mem = .ok b) : b ∈ Encodings :=
  ⟨m, lt_of_marshalBinary h, (marshalBinary_eq_ok.1 h).2⟩

/-- No two messages have the same encoding. -/
theorem marshalBinary_inj {b : List UInt8} (h : m.marshalBinary mem = .ok b)
    (h' : m'.marshalBinary mem' = .ok b) : m = m' := by
  have heq := (marshalBinary_eq_ok.1 h).2.symm.trans (marshalBinary_eq_ok.1 h').2
  have hmessages : m.header ++ (m.data ++ []) = m'.header ++ (m'.data ++ []) := by
    simpa [bytes] using heq
  exact (eq_of_header_append (lt_of_marshalBinary h) (lt_of_marshalBinary h') hmessages).1

theorem encodings_prefixFree : PrefixFree Encodings := by
  rintro _ ⟨m, hlt, rfl⟩ _ ⟨m', hlt', rfl⟩ ⟨rest, heq⟩
  have hmessages : m.header ++ (m.data ++ rest) = m'.header ++ (m'.data ++ []) := by
    simpa [bytes] using heq
  rw [(eq_of_header_append hlt hlt' hmessages).1]

theorem nil_not_mem_encodings : [] ∉ Encodings := by
  rintro ⟨m, _, hnil⟩
  exact header_ne_nil m (List.append_eq_nil_iff.1 hnil.symm).1

/-- What messages are encoded to, one after the other. -/
def marshalAll (mem : Heap) (ms : List Message) : Except WirePanic (List (List UInt8)) :=
  ms.mapM (marshalBinary mem)

theorem marshalAll_cons {ms : List Message} {bs : List (List UInt8)}
    (h : marshalAll mem (m :: ms) = .ok bs) :
    ∃ b bs', m.marshalBinary mem = .ok b ∧ marshalAll mem ms = .ok bs' ∧ bs = b :: bs' := by
  unfold marshalAll at h ⊢
  rw [List.mapM_cons] at h
  cases hb : m.marshalBinary mem with
  | error p => simp [hb, bind, Except.bind] at h
  | ok b =>
      cases hbs : ms.mapM (marshalBinary mem) with
      | error p => simp [hb, hbs, bind, Except.bind] at h
      | ok bs' =>
          rw [hb, hbs] at h
          exact ⟨b, bs', rfl, rfl, (Except.ok.inj h).symm⟩

theorem mem_encodings_of_marshalAll {ms : List Message} {bs : List (List UInt8)}
    (h : marshalAll mem ms = .ok bs) : ∀ b ∈ bs, b ∈ Encodings := by
  induction ms generalizing bs with
  | nil =>
      cases h
      simp
  | cons m ms ih =>
      obtain ⟨b, bs', hb, hbs, rfl⟩ := marshalAll_cons h
      intro b' hb'
      rcases List.mem_cons.1 hb' with rfl | hb'
      · exact mem_encodings hb
      · exact ih hbs b' hb'

/-- Different sequences of messages have different encodings. -/
theorem marshalAll_inj {ms ms' : List Message} {bs : List (List UInt8)}
    (h : marshalAll mem ms = .ok bs) (h' : marshalAll mem' ms' = .ok bs) : ms = ms' := by
  induction ms generalizing ms' bs with
  | nil =>
      cases h
      cases ms' with
      | nil => rfl
      | cons m' ms' =>
          obtain ⟨_, _, _, _, hnil⟩ := marshalAll_cons h'
          cases hnil
  | cons m ms ih =>
      obtain ⟨b, bs, hb, hbs, rfl⟩ := marshalAll_cons h
      cases ms' with
      | nil => cases h'
      | cons m' ms' =>
          obtain ⟨b', bs', hb', hbs', heq⟩ := marshalAll_cons h'
          rw [List.cons.injEq] at heq
          obtain ⟨rfl, rfl⟩ := heq
          rw [marshalBinary_inj hb hb', ih hbs hbs']

theorem unmarshalBinary_marshalBinary (trailing : List UInt8)
    (hmem : mem.Holds (messageHeaderLength + m.data.length)) (hmem' : mem'.Holds m.data.length) :
    ∃ b, m.marshalBinary mem = .ok b ∧ unmarshalBinary mem' (b ++ trailing) = .ok m :=
  ⟨m.bytes, marshalBinary_eq_ok.2 ⟨hmem, rfl⟩, unmarshalBinary_append hmem' trailing⟩

/-- **Messages and envelopes are uniquely decodable**, whatever memory there is where they are
    encoded (`mem`) and decoded (`mem'`). A message that `MarshalBinary` can hold in a buffer comes
    back from `UnmarshalBinary`, whatever stands behind it; a request or a reply comes back from
    `Unpack`, also when it was the data of a message; no encoding begins the encoding of another
    message; and bytes are the concatenation of the encodings of at most one sequence of messages.
    With memory for every `int`, the first holds of all data shorter than `2 ^ 63 - 24` bytes. -/
theorem messages_uniquely_decodable (mem mem' : Heap) :
    (∀ (m : Message) (trailing : List UInt8), mem.Holds (messageHeaderLength + m.data.length) →
      mem'.Holds m.data.length →
      ∃ b, m.marshalBinary mem = .ok b ∧ unmarshalBinary mem' (b ++ trailing) = .ok m) ∧
    (∀ (m : Message) (trailing : List UInt8), m.data.length < 2 ^ 63 - messageHeaderLength →
      ∃ b, m.marshalBinary Heap.ints = .ok b ∧
        unmarshalBinary Heap.ints (b ++ trailing) = .ok m) ∧
    (∀ r : RequestReply, mem.Holds (rrHeaderLength + r.data.length) → mem'.Holds r.data.length →
      ∃ b, r.pack mem = .ok b ∧ RequestReply.zero.unpack mem' b = .ok r ∧
        ∀ (type : Int64) (sender : UInt64) (trailing : List UInt8),
          mem.Holds (messageHeaderLength + b.length) → mem'.Holds b.length →
          ∃ b' m, (mk type sender b).marshalBinary mem = .ok b' ∧
            unmarshalBinary mem' (b' ++ trailing) = .ok m ∧
            RequestReply.zero.unpack mem' m.data = .ok r) ∧
    (∀ (m m' : Message) (b b' : List UInt8), m.marshalBinary mem = .ok b →
      m'.marshalBinary mem' = .ok b' → b <+: b' → m = m' ∧ b = b') ∧
    ∀ (ms ms' : List Message) (bs bs' : List (List UInt8)), marshalAll mem ms = .ok bs →
      marshalAll mem' ms' = .ok bs' → bs.flatten = bs'.flatten → ms = ms' := by
  refine ⟨fun m trailing => unmarshalBinary_marshalBinary trailing, ?_, ?_, ?_, ?_⟩
  · intro m trailing hlt
    simp only [messageHeaderLength] at hlt
    refine unmarshalBinary_marshalBinary trailing (Heap.holds_ints.2 ?_) (Heap.holds_ints.2 ?_)
    · simp only [messageHeaderLength]
      omega
    · omega
  · intro r hmem hmem'
    have hunpack : RequestReply.zero.unpack mem' r.bytes = .ok r := RequestReply.unpack_bytes hmem'
    refine ⟨r.bytes, RequestReply.pack_eq_ok.2 ⟨hmem, rfl⟩, hunpack, ?_⟩
    intro type sender trailing hb hb'
    obtain ⟨b', hb', hm⟩ := unmarshalBinary_marshalBinary (m := ⟨type, sender, r.bytes⟩) trailing
      hb hb'
    exact ⟨b', ⟨type, sender, r.bytes⟩, hb', hm, hunpack⟩
  · intro m m' b b' hb hb' hprefix
    obtain rfl := encodings_prefixFree b (mem_encodings hb) b' (mem_encodings hb') hprefix
    exact ⟨marshalBinary_inj hb hb', rfl⟩
  · intro ms ms' bs bs' hbs hbs' heq
    -- the words of the two sequences are the same, and so are the messages they encode
    obtain rfl := encodings_prefixFree.uniquelyDecodable nil_not_mem_encodings bs bs'
      (mem_encodings_of_marshalAll hbs) (mem_encodings_of_marshalAll hbs') heq
    exact marshalAll_inj hbs hbs'

/-- A message of a negative type comes back, and a request inside another one. -/
theorem messages_uniquely_decodable_negative :
    (∃ b, (mk (-1) 5 [7, 8]).marshalBinary Heap.amd64 = .ok b ∧
      unmarshalBinary Heap.amd64 (b ++ [9]) = .ok ⟨-1, 5, [7, 8]⟩) ∧
    ∃ b, (RequestReply.mk true 3 [1]).pack Heap.amd64 = .ok b ∧
      RequestReply.zero.unpack Heap.amd64 b = .ok ⟨true, 3, [1]⟩ := by
  obtain ⟨hmessage, _, hrpc, _, _⟩ := messages_uniquely_decodable Heap.amd64 Heap.amd64
  obtain ⟨b, hpack, hunpack, _⟩ := hrpc ⟨true, 3, [1]⟩ (by decide) (by decide)
  exact ⟨hmessage ⟨-1, 5, [7, 8]⟩ [9] (by decide) (by decide), b, hpack, hunpack⟩

/-! ## `ReadFrom` -/

variable {f f' : Source UInt8} {more : List UInt8} {fields : List (List UInt8)}

/-- **What `ReadFrom` returns stood on the wire.** -/
theorem readFrom_spec (h : readFrom mem f = .ok (m, f')) :
    f.contents = m.header ++ (m.data ++ f'.contents) ∧ mem.Holds m.data.length ∧
      f'.ending = f.ending := by
  unfold readFrom at h
  split at h
  · cases h
  · next head f₁ hhead =>
      split at h
      · cases h
      · next hlen =>
          simp only at h
          split at h
          · cases h
          · next buf hmake =>
              obtain ⟨hmem, rfl⟩ := makeBytes_eq_ok.1 hmake
              split at h
              · cases h
              · next b f₂ hdata =>
                  split at h
                  · cases h
                  · next hblen =>
                      cases h
                      obtain ⟨hcontents, _, _, hend⟩ := Source.readOk_spec hhead
                      obtain ⟨hcontents', _, _, hend'⟩ := Source.readOk_spec hdata
                      have hfilled : filled (List.replicate (getUint64 (head.take 8)).toNat 0) b
                          = b := by
                        rw [filled, not_not.1 hblen, List.drop_replicate]
                        simp
                      rw [hfilled, header_of_length (not_not.1 hlen) (not_not.1 hblen),
                        hcontents, hcontents']
                      exact ⟨rfl, by simpa [not_not.1 hblen] using hmem, hend'.trans hend⟩

/-- `ReadFrom` behind a header that was read in full. -/
theorem readFrom_of_header {f₁ : Source UInt8} (hmem : mem.Holds m.data.length)
    (hhead : f.readOk messageHeaderLength = some (m.header, f₁)) :
    readFrom mem f = match f₁.readOk m.data.length with
      | none => .error (.error .data)
      | some (b, f₂) => if b.length ≠ m.data.length then .error (.error .incomplete)
          else .ok (⟨m.type, m.sender, b⟩, f₂) := by
  obtain ⟨hdl, htype, hsender⟩ := fields_header hmem.lt
  simp only [readFrom, hhead, length_header, ne_eq, not_true_eq_false, if_false, hdl, htype,
    hsender, makeBytes_of_holds hmem]
  cases f₁.readOk m.data.length with
  | none => rfl
  | some r =>
      obtain ⟨b, f₂⟩ := r
      by_cases hb : b.length = m.data.length
      · simp [hb, filled]
      · simp [hb]

/-- Behind a message that was read there is a header that was read. -/
theorem read_header_of_readFrom (hf : f.contents = m.header ++ (m.data ++ more))
    (h : readFrom mem f = .ok (m', f')) :
    ∃ f₁, f.readOk messageHeaderLength = some (m.header, f₁) := by
  unfold readFrom at h
  split at h
  · cases h
  · next head f₁ hhead =>
      split at h
      · cases h
      · next hlen =>
          obtain ⟨hcontents, _⟩ := Source.readOk_spec hhead
          rw [hf] at hcontents
          have hheader : m.header = head :=
            (List.append_inj hcontents ((length_header m).trans (not_not.1 hlen).symm)).1
          exact ⟨f₁, hheader ▸ hhead⟩

/-- The end of the stream is not reported with the last bytes of a message, nor, if it has no data,
    in place of them. -/
def EndClear (f : Source UInt8) (m : Message) : Prop :=
  f.ending.withLast = false ∧ (m.data = [] → f.ending.onEmpty = false)

/-- What `EndClear` says of the two fields of a message. -/
theorem endClear_iff {f₁ : Source UInt8} (hending : f₁.ending = f.ending) :
    (more = [] → EndClear f m) ↔
      (m.data ++ more = [] → f.ending.withLast = false) ∧ f₁.EndClear m.data more := by
  by_cases hmore : more = []
  · by_cases hdata : m.data = []
    · simp [EndClear, Source.EndClear, hmore, hdata, hending]
    · simp [EndClear, Source.EndClear, hmore, hdata, hending]
  · simp [Source.EndClear, hmore]

/-- **When a message is read.** A stream that begins with a message gives it to `ReadFrom` exactly
    if it cuts neither the header nor the data, and does not report its end too early, and there is
    memory for the data. -/
theorem readFrom_iff (hf : f.contents = m.header ++ (m.data ++ more)) :
    (f.Intact (m.header :: m.data :: fields) ∧ (more = [] → EndClear f m) ∧
        mem.Holds m.data.length) ↔
      ∃ f', readFrom mem f = .ok (m, f') ∧ f'.contents = more ∧ f'.ending = f.ending ∧
        f'.Intact fields := by
  constructor
  · rintro ⟨hintact, hend, hmem⟩
    obtain ⟨hhead, _⟩ := (endClear_iff rfl).1 hend
    obtain ⟨f₁, hread, hcontents, hending, hintact₁⟩ :=
      (Source.intact_cons (header_ne_nil m) hf).1 ⟨hintact, hhead⟩
    obtain ⟨f₂, hdata, hmore, hending', hintact₂⟩ := (Source.read_field_iff hcontents).1
      ⟨hintact₁, ((endClear_iff hending).1 hend).2⟩
    rw [length_header] at hread
    refine ⟨f₂, ?_, hmore, hending'.trans hending, hintact₂⟩
    simp only [readFrom_of_header hmem hread, hdata, ne_eq, not_true_eq_false, if_false]
  · rintro ⟨f', hread, hmore, hending', hintact⟩
    have hmem : mem.Holds m.data.length := (readFrom_spec hread).2.1
    -- a message comes back only if its header and its data were read in full
    obtain ⟨f₁, hhead⟩ := read_header_of_readFrom hf hread
    obtain ⟨_, _, _, hending⟩ := Source.readOk_spec hhead
    have hcontents : f₁.contents = m.data ++ more := Source.contents_of_readOk hf hhead
    rw [readFrom_of_header hmem hhead] at hread
    split at hread
    · cases hread
    · next b f₂ hdata =>
        split at hread
        · cases hread
        · simp only [Except.ok.injEq, Prod.mk.injEq] at hread
          obtain ⟨hm, rfl⟩ := hread
          have hb : b = m.data := congrArg Message.data hm
          obtain ⟨hintact₁, hclear⟩ := (Source.read_field_iff hcontents).2
            ⟨f₂, hb ▸ hdata, hmore, hending'.trans hending.symm, hintact⟩
          rw [← length_header m] at hhead
          obtain ⟨hintact₀, hlast⟩ := (Source.intact_cons (header_ne_nil m) hf).2
            ⟨f₁, hhead, hcontents, hending, hintact₁⟩
          exact ⟨hintact₀, (endClear_iff hending).2 ⟨hlast, hclear⟩, hmem⟩

end Message

end Tunnel.Messaging
