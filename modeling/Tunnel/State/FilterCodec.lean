import Tunnel.State.BinaryFuse
import Tunnel.State.LatestUpdate

set_option autoImplicit false

/-! # Filters from other nodes (`state/connected_clients.go`, `server/gossip.go`)

`MergeRemoteState` decodes what another node sends, and `handleMerge` puts it into the peer graph,
where `Who` asks it on behalf of every visitor. The decoder checks that there are 48 bytes of header
and nothing else: neither that the number of fingerprints it is told is the number that follows,
nor that the numbers of the geometry fit together.

So a buffer is either rejected or decoded to a value that encodes to it and can be looked up,
exactly if it is too short or consistent (`filter_validated_iff`). Whoever sends one that is not,
can make the decoder panic, or `Who`, on every node and for every client
(`filter_accepted_unchecked`). -/

namespace Tunnel.State

open Tunnel.Lib

/-- A `ConnectedClients` as the decoder leaves it; the filter is a pointer. -/
abbrev Decoded := ConnectedClients (Option BinaryFuse8)

/-- How the decoder ends when it does not succeed. -/
inductive DecodeFault
  | error (text : String)
  | panic (p : FilterPanic)
deriving DecidableEq

/-- The number of fingerprints that a buffer announces. -/
def announced (b : List UInt8) : ℕ := (getUint64 ((b.drop 40).take 8)).toNat

/-- The filter that a buffer describes, with these fingerprints. -/
def describedFilter (b fingerprints : List UInt8) : BinaryFuse8 where
  seed := getUint64 ((b.drop 16).take 8)
  segmentLength := getUint32 ((b.drop 24).take 4)
  segmentLengthMask := getUint32 ((b.drop 28).take 4)
  segmentCount := getUint32 ((b.drop 32).take 4)
  segmentCountLength := getUint32 ((b.drop 36).take 4)
  fingerprints := fingerprints

/-- A buffer decoded, with these fingerprints. -/
def described (b fingerprints : List UInt8) : Decoded :=
  ⟨getUint64 (b.take 8), getUint64 ((b.drop 8).take 8), some (describedFilter b fingerprints)⟩

namespace Decoded

/-- The value of `var c ConnectedClients`. -/
def zero : Decoded := ⟨0, 0, none⟩

/-- `ConnectedClients.UnmarshalBinary`: the receiver afterwards, and the result. The fingerprints
    are copied as far as there are any, and as far as there is room. -/
def unmarshalBinary (c : Decoded) (b : List UInt8) : Decoded × Except DecodeFault Unit :=
  if b.length < 48 then
    (c, .error (.error ("invalid buffer length: " ++ toString b.length)))
  else if announced b < 2 ^ 63 then
    (described b ((b.drop 48).take (announced b) ++
      List.replicate (announced b - (b.length - 48)) 0), .ok ())
  else (described b [], .error (.panic .makesliceLenOutOfRange))

/-- `ConnectedClients.MarshalBinary` -/
def marshalBinary (c : Decoded) : Except FilterPanic (List UInt8) :=
  match c.f with
  | none => .error .nilDereference
  | some f => .ok (ConnectedClients.marshalBinary ⟨c.peer, c.crc64, f⟩)

/-- `ConnectedClients.Has` -/
def has (c : Decoded) (client : UInt64) : Except FilterPanic Bool :=
  match c.f with
  | none => .error .nilDereference
  | some f => f.contains client

/-- A lookup returns, for every client. -/
def Safe (c : Decoded) : Prop := ∀ client, ∃ x, has c client = .ok x

end Decoded

/-! ## The codec -/

/-- The number of fingerprints is right, and an `int`. -/
def CountRight (b : List UInt8) : Prop := b.length = 48 + announced b ∧ announced b < 2 ^ 63

/-- A buffer of which the number of fingerprints is right, and whose numbers keep every lookup among
    them. -/
def Consistent (b : List UInt8) : Prop :=
  CountRight b ∧ ∀ hash, (describedFilter b (b.drop 48)).InRange hash

/-- The buffer is rejected and nothing changes; or it is decoded to a value that encodes to it and
    can be looked up. -/
def Validated (c : Decoded) (b : List UInt8) : Prop :=
  (∃ text, c.unmarshalBinary b = (c, .error (.error text))) ∨
    ∃ c', c.unmarshalBinary b = (c', .ok ()) ∧ c'.marshalBinary = .ok b ∧ c'.Safe

variable {b : List UInt8} {c : Decoded}

theorem length_marshalBinary (c : ConnectedClients BinaryFuse8) :
    c.marshalBinary.length = 48 + c.f.fingerprints.length := by
  simp only [ConnectedClients.marshalBinary, List.length_append, length_putUint64, length_putUint32]

/-- Cutting a list at the beginning of a field of `n` elements, and behind it. -/
theorem take_append_drop_drop {α : Type} (l : List α) (i n : ℕ) :
    (l.drop i).take n ++ l.drop (i + n) = l.drop i := by
  rw [← List.drop_drop, List.take_append_drop]

/-- A buffer with the right number of fingerprints is what its contents encode to. -/
theorem marshalBinary_described (hlen : 48 ≤ b.length)
    (hcount : (UInt64.ofNat (b.drop 48).length).toNat = announced b) :
    Decoded.marshalBinary (described b (b.drop 48)) = .ok b := by
  have h64 : ∀ i, i + 8 ≤ b.length →
      putUint64 (getUint64 ((b.drop i).take 8)) = (b.drop i).take 8 := by
    intro i hi
    refine putUint64_getUint64 _ ?_
    rw [List.length_take, List.length_drop]
    omega
  have h32 : ∀ i, i + 4 ≤ b.length →
      putUint32 (getUint32 ((b.drop i).take 4)) = (b.drop i).take 4 := by
    intro i hi
    refine putUint32_getUint32 _ ?_
    rw [List.length_take, List.length_drop]
    omega
  have hword : UInt64.ofNat (b.drop 48).length = getUint64 ((b.drop 40).take 8) :=
    UInt64.toNat_inj.1 hcount
  have h0 : b.take 8 = (b.drop 0).take 8 := rfl
  simp only [Decoded.marshalBinary, described, describedFilter, ConnectedClients.marshalBinary,
    hword, h0]
  rw [h64 0 (by omega), h64 8 (by omega), h64 16 (by omega), h32 24 (by omega), h32 28 (by omega),
    h32 32 (by omega), h32 36 (by omega), h64 40 (by omega)]
  simp only [List.append_assoc]
  rw [take_append_drop_drop b 40 8, take_append_drop_drop b 36 4, take_append_drop_drop b 32 4,
    take_append_drop_drop b 28 4, take_append_drop_drop b 24 4, take_append_drop_drop b 16 8,
    take_append_drop_drop b 8 8, take_append_drop_drop b 0 8, List.drop_zero]

theorem safe_described {fingerprints : List UInt8} :
    Decoded.Safe (described b fingerprints) ↔
      ∀ hash, (describedFilter b fingerprints).InRange hash :=
  BinaryFuse8.contains_safe_iff

/-- What the decoder makes of a buffer with the right number of fingerprints. -/
theorem unmarshalBinary_of_countRight (h : CountRight b) :
    c.unmarshalBinary b = (described b (b.drop 48), .ok ()) := by
  obtain ⟨hlen, hlt⟩ := h
  have hall : (b.drop 48).take (announced b) = b.drop 48 := by
    rw [List.take_of_length_le]
    rw [List.length_drop]
    omega
  have hnone : announced b - (b.length - 48) = 0 := by omega
  rw [Decoded.unmarshalBinary, if_neg (by omega), if_pos hlt, hall, hnone, List.replicate_zero,
    List.append_nil]

theorem marshalBinary_of_countRight (h : CountRight b) :
    Decoded.marshalBinary (described b (b.drop 48)) = .ok b := by
  obtain ⟨hlen, hlt⟩ := h
  refine marshalBinary_described (by omega) ?_
  rw [UInt64.toNat_ofNat', List.length_drop]
  omega

/-- A buffer that decodes to a value which encodes to it has the right number of fingerprints. -/
theorem countRight_of_roundTrip {c' : Decoded} (h : c.unmarshalBinary b = (c', .ok ()))
    (hback : c'.marshalBinary = .ok b) : CountRight b ∧ c' = described b (b.drop 48) := by
  unfold Decoded.unmarshalBinary at h
  split at h
  · cases h
  · next hlen =>
      split at h
      · next hlt =>
          cases h
          have hlength := congrArg List.length (Except.ok.inj hback)
          rw [length_marshalBinary] at hlength
          simp only [describedFilter, List.length_append, List.length_take, List.length_drop,
            List.length_replicate] at hlength
          have hright : CountRight b := ⟨by omega, hlt⟩
          have hsame := unmarshalBinary_of_countRight (c := c) hright
          rw [Decoded.unmarshalBinary, if_neg hlen, if_pos hlt, Prod.mk.injEq] at hsame
          exact ⟨hright, hsame.1⟩
      · cases h

/-- **Which buffers are validated.** -/
theorem validated_iff : Validated c b ↔ b.length < 48 ∨ Consistent b := by
  constructor
  · rintro (⟨text, h⟩ | ⟨c', h, hback, hsafe⟩)
    · unfold Decoded.unmarshalBinary at h
      split at h
      · next hlen => exact Or.inl hlen
      · split at h <;> cases h
    · obtain ⟨hright, rfl⟩ := countRight_of_roundTrip h hback
      exact Or.inr ⟨hright, safe_described.1 hsafe⟩
  · rintro (hlen | ⟨hright, hrange⟩)
    · exact Or.inl ⟨_, if_pos hlen⟩
    · exact Or.inr ⟨_, unmarshalBinary_of_countRight hright, marshalBinary_of_countRight hright,
        safe_described.2 hrange⟩

/-- What a node encodes of a filter that the library built is decoded to the same value. -/
theorem described_marshalBinary (c : ConnectedClients BinaryFuse8)
    (hlt : c.f.fingerprints.length < 2 ^ 63) :
    CountRight c.marshalBinary ∧
      described c.marshalBinary (c.marshalBinary.drop 48) = ⟨c.peer, c.crc64, some c.f⟩ := by
  have hdrop8 : ∀ x i, 8 ≤ i → (putUint64 x).drop i = [] :=
    fun x i hi => List.drop_of_length_le ((length_putUint64 x).trans_le hi)
  have hdrop4 : ∀ x i, 4 ≤ i → (putUint32 x).drop i = [] :=
    fun x i hi => List.drop_of_length_le ((length_putUint32 x).trans_le hi)
  have hannounced : announced c.marshalBinary = c.f.fingerprints.length := by
    simp [announced, ConnectedClients.marshalBinary, List.drop_append, hdrop8, hdrop4]
    omega
  refine ⟨⟨by rw [length_marshalBinary, hannounced], by omega⟩, ?_⟩
  simp [described, describedFilter, ConnectedClients.marshalBinary, List.drop_append, hdrop8,
    hdrop4]

/-- Whatever the receiver held, it holds what was encoded. -/
theorem unmarshalBinary_marshalBinary (c : Decoded) (sent : ConnectedClients BinaryFuse8)
    (hlt : sent.f.fingerprints.length < 2 ^ 63) :
    c.unmarshalBinary sent.marshalBinary = (⟨sent.peer, sent.crc64, some sent.f⟩, .ok ()) := by
  obtain ⟨hright, hsame⟩ := described_marshalBinary sent hlt
  rw [unmarshalBinary_of_countRight hright, hsame]

/-- **`ConnectedClients` survives the wire.** For every filter whose encoding has an `int` for a
    length, the encoding is decoded to the same peer, CRC and filter, whatever the receiver held;
    `Has` answers as before for every client; and nothing else has this encoding. -/
theorem connectedClients_survives_wire (peer crc : UInt64) (f : BinaryFuse8)
    (hlt : 48 + f.fingerprints.length < 2 ^ 63) :
    ∃ b, Decoded.marshalBinary ⟨peer, crc, some f⟩ = .ok b ∧
      (∀ c : Decoded, c.unmarshalBinary b = (⟨peer, crc, some f⟩, .ok ()) ∧
        ∀ client, Decoded.has (c.unmarshalBinary b).1 client
          = Decoded.has ⟨peer, crc, some f⟩ client) ∧
      ∀ c : Decoded, c.marshalBinary = .ok b → c = ⟨peer, crc, some f⟩ := by
  have hdecode : ∀ c : Decoded, c.unmarshalBinary (ConnectedClients.marshalBinary ⟨peer, crc, f⟩)
      = (⟨peer, crc, some f⟩, .ok ()) := by
    intro c
    have hlt' : f.fingerprints.length < 2 ^ 63 := by omega
    exact unmarshalBinary_marshalBinary c ⟨peer, crc, f⟩ hlt'
  refine ⟨_, rfl, ?_, ?_⟩
  · intro c
    refine ⟨hdecode c, fun client => ?_⟩
    rw [hdecode c]
  · intro c hc
    obtain ⟨peer', crc', f'⟩ := c
    cases f' with
    | none => cases hc
    | some f' =>
        have hsame : ConnectedClients.marshalBinary ⟨peer', crc', f'⟩
            = ConnectedClients.marshalBinary ⟨peer, crc, f⟩ := Except.ok.inj hc
        -- equal encodings have equally many fingerprints, so both can be decoded
        have hlen := congrArg List.length hsame
        rw [length_marshalBinary, length_marshalBinary] at hlen
        have hdecode' := unmarshalBinary_marshalBinary Decoded.zero ⟨peer', crc', f'⟩
          (show f'.fingerprints.length < 2 ^ 63 by simp only at hlen; omega)
        rw [hsame, hdecode Decoded.zero] at hdecode'
        exact (congrArg Prod.fst hdecode').symm

/-- Three fingerprints and a geometry that does not fit them, decoded into a used receiver. -/
theorem connectedClients_survives_wire_three :
    ∃ b, Decoded.marshalBinary ⟨5, 1, some ⟨7, 1, 2, 3, 4, [9, 8, 7]⟩⟩ = .ok b ∧
      (described b []).unmarshalBinary b = (⟨5, 1, some ⟨7, 1, 2, 3, 4, [9, 8, 7]⟩⟩, .ok ()) := by
  obtain ⟨b, hb, hdecode, _⟩ :=
    connectedClients_survives_wire 5 1 ⟨7, 1, 2, 3, 4, [9, 8, 7]⟩ (by decide)
  exact ⟨b, hb, (hdecode _).1⟩

/-- A buffer whose numbers describe a layout of the library's, and the fingerprints behind them. -/
def LaidOut (b : List UInt8) : Prop :=
  b.length = 48 + announced b ∧ (describedFilter b (b.drop 48)).Geometry

theorem LaidOut.consistent (h : LaidOut b) : Consistent b := by
  obtain ⟨hlen, hgeometry⟩ := h
  have hsmall : (b.drop 48).length ≤ 2 ^ 32 := hgeometry.small
  rw [List.length_drop] at hsmall
  exact ⟨⟨hlen, by omega⟩, hgeometry.inRange⟩

/-- A node that runs the code sends such buffers. -/
theorem laidOut_marshalBinary {c : ConnectedClients BinaryFuse8} (h : c.f.Geometry) :
    LaidOut c.marshalBinary := by
  have hlt : c.f.fingerprints.length < 2 ^ 63 := by
    have := h.small
    omega
  obtain ⟨hright, hsame⟩ := described_marshalBinary c hlt
  have hf : describedFilter c.marshalBinary (c.marshalBinary.drop 48) = c.f := by
    simpa [described] using congrArg ConnectedClients.f hsame
  exact ⟨hright.1, hf ▸ h⟩

/-! ## The graph -/

namespace Decoded

/-- `PeerGraph.Who`, when `Range` enumerates the entries in this order. -/
def who : List (PeerGraph.Entry (Option BinaryFuse8)) → UInt64 → Except FilterPanic UInt64
  | [], _ => .ok 0
  | e :: rest, client => match has e.2 client with
    | .error p => .error p
    | .ok true => .ok e.1
    | .ok false => who rest client

variable {g : PeerGraph (Option BinaryFuse8)} {order : List (PeerGraph.Entry (Option BinaryFuse8))}

theorem who_ok (h : ∀ e ∈ order, Safe e.2) (client : UInt64) : ∃ x, who order client = .ok x := by
  induction order with
  | nil => exact ⟨0, rfl⟩
  | cons e rest ih =>
      obtain ⟨found, hfound⟩ := h e List.mem_cons_self client
      cases found with
      | true => exact ⟨e.1, by rw [who, hfound]⟩
      | false =>
          obtain ⟨x, hx⟩ := ih (fun e he => h e (List.mem_cons_of_mem _ he))
          exact ⟨x, by rw [who, hfound]; exact hx⟩

/-- Where lookups return, `Who` is that of a filter library with these answers. -/
theorem who_eq {lib : FilterLib (Option BinaryFuse8)} {client : UInt64}
    (h : ∀ e ∈ order, has e.2 client = .ok (lib.contains e.2.f client)) :
    who order client = .ok (PeerGraph.who lib order client) := by
  induction order with
  | nil => rfl
  | cons e rest ih =>
      have ih := ih (fun e he => h e (List.mem_cons_of_mem _ he))
      have hhas : e.2.has lib client = lib.contains e.2.f client := rfl
      rw [who, h e List.mem_cons_self]
      cases hanswer : lib.contains e.2.f client with
      | true => simp [PeerGraph.who, hhas, hanswer]
      | false =>
          rw [PeerGraph.who, List.find?_cons_of_neg (by simp [hhas, hanswer])]
          exact ih

/-- **`Who` never panics exactly if every entry is safe**: each comes first in some order. -/
theorem who_safe_iff :
    (∀ order, order.Perm g.entries → ∀ client, ∃ x, who order client = .ok x) ↔
      ∀ x c, SyncMap.load g x = some c → Safe c := by
  constructor
  · intro h x c hload client
    obtain ⟨l₁, l₂, hsplit⟩ := List.append_of_mem (SyncMap.mem_entries_iff.2 hload)
    have hperm : (⟨x, c⟩ :: (l₁ ++ l₂)).Perm g.entries := by
      rw [hsplit]
      exact List.perm_middle.symm
    obtain ⟨y, hy⟩ := h _ hperm client
    cases hhas : has c client with
    | error p =>
        rw [who, hhas] at hy
        cases hy
    | ok found => exact ⟨found, rfl⟩
  · intro h order hperm client
    refine who_ok (fun e he => ?_) client
    exact h e.1 e.2 (SyncMap.mem_entries_iff.1 (hperm.mem_iff.1 he))

/-! ## What a node receives -/

/-- What changes the graph of a node: a buffer that arrives outside a join, and a peer that
    leaves. -/
inductive Event
  | received (b : List UInt8)
  | left (peer : UInt64)

/-- `MergeRemoteState` outside a join, with `handleMerge` of what it sends; and `Remove`. -/
def Event.apply (self : UInt64) (g : PeerGraph (Option BinaryFuse8)) :
    Event → Except FilterPanic (PeerGraph (Option BinaryFuse8))
  | .received b => match zero.unmarshalBinary b with
    | (_, .error (.error _)) => .ok g
    | (_, .error (.panic p)) => .error p
    | (c, .ok _) => if c.peer = self then .ok g else .ok (g.replace c).2
  | .left peer => .ok (g.remove peer)

/-- The graph after these events, from an empty one. -/
def after (self : UInt64) (events : List Event) :
    Except FilterPanic (PeerGraph (Option BinaryFuse8)) :=
  events.foldlM (Event.apply self) ∅

/-- Every buffer among the events is too short or consistent. -/
def Sound (events : List Event) : Prop :=
  ∀ b, .received b ∈ events → b.length < 48 ∨ Consistent b

/-- Every entry can be looked up. -/
def AllSafe (g : PeerGraph (Option BinaryFuse8)) : Prop :=
  ∀ x c, SyncMap.load g x = some c → Safe c

/-- **Step lemma.** -/
theorem AllSafe.apply (hg : AllSafe g) {e : Event}
    (he : ∀ b, e = .received b → b.length < 48 ∨ Consistent b) (self : UInt64) :
    ∃ g', e.apply self g = .ok g' ∧ AllSafe g' := by
  cases e with
  | left peer =>
      refine ⟨_, rfl, fun x c hload => ?_⟩
      by_cases hx : x = peer
      · subst hx
        exact absurd hload (by simp [PeerGraph.remove])
      · exact hg x c (by simpa [PeerGraph.remove, SyncMap.load_delete_ne _ hx] using hload)
  | received b =>
      rcases he b rfl with hlen | ⟨hright, hrange⟩
      · exact ⟨g, by simp only [Event.apply, unmarshalBinary, if_pos hlen], hg⟩
      · simp only [Event.apply, unmarshalBinary_of_countRight hright]
        by_cases hself : (described b (b.drop 48)).peer = self
        · exact ⟨g, if_pos hself, hg⟩
        · refine ⟨_, if_neg hself, fun x c hload => ?_⟩
          by_cases hx : x = (described b (b.drop 48)).peer
          · subst hx
            rcases PeerGraph.load_replace_self hload with rfl | hold
            · exact safe_described.2 hrange
            · exact hg _ c hold
          · rw [PeerGraph.load_replace_ne hx] at hload
            exact hg x c hload

/-- **Run lemma.** -/
theorem after_sound (self : UInt64) {events : List Event} (h : Sound events) :
    ∃ g, after self events = .ok g ∧ AllSafe g := by
  have hrun : ∀ {g : PeerGraph (Option BinaryFuse8)}, AllSafe g →
      ∃ g', events.foldlM (Event.apply self) g = .ok g' ∧ AllSafe g' := by
    induction events with
    | nil => exact fun {g} hg => ⟨g, rfl, hg⟩
    | cons e rest ih =>
        intro g hg
        obtain ⟨g₁, hstep, hg₁⟩ :=
          hg.apply (fun b hb => h b (hb ▸ List.mem_cons_self)) self
        rw [List.foldlM_cons, hstep]
        exact ih (fun b hb => h b (List.mem_cons_of_mem e hb)) hg₁
  exact hrun (fun x c hload => absurd hload (by simp))

end Decoded

/-- **When filters are validated before use.** Whatever the receiver holds, a buffer is rejected
    with nothing changed, or decoded to a value that encodes to the buffer and whose lookups stay in
    range, exactly if it has less than 48 bytes, or as many fingerprints as it says and numbers that
    keep the positions of every hash among them; which is so if the numbers are those of a layout
    of the library's. If this holds for all buffers that a node ever receives, `Who` never panics;
    and it never panics on a graph exactly if every entry can be looked up for every client. -/
theorem filter_validated_iff (c : Decoded) (b : List UInt8) :
    (Validated c b ↔ b.length < 48 ∨ Consistent b) ∧
    (LaidOut b → Validated c b) ∧
    (∀ self events, Decoded.Sound events → ∃ g, Decoded.after self events = .ok g ∧
      ∀ order, order.Perm g.entries → ∀ client, ∃ x, Decoded.who order client = .ok x) ∧
    ∀ g : PeerGraph (Option BinaryFuse8),
      (∀ order, order.Perm g.entries → ∀ client, ∃ x, Decoded.who order client = .ok x) ↔
        ∀ x c, SyncMap.load g x = some c → Decoded.Safe c := by
  refine ⟨validated_iff, fun h => validated_iff.2 (Or.inr h.consistent), fun self events h => ?_,
    fun g => Decoded.who_safe_iff⟩
  obtain ⟨g, hg, hsafe⟩ := Decoded.after_sound self h
  exact ⟨g, hg, Decoded.who_safe_iff.2 hsafe⟩

/-- The header of a buffer of node 5, with this geometry and number of fingerprints. -/
def exampleHeader (segmentLength mask count countLength : UInt32) (n : UInt64) : List UInt8 :=
  putUint64 5 ++ putUint64 1 ++ putUint64 0 ++ putUint32 segmentLength ++ putUint32 mask ++
    putUint32 count ++ putUint32 countLength ++ putUint64 n

/-- The filters of no clients and of one client as the library builds them, from node 5, are
    decoded. -/
theorem filter_validated_iff_empty :
    Validated Decoded.zero (exampleHeader 4 3 1 4 12 ++ List.replicate 12 0) ∧
      Validated Decoded.zero
        (ConnectedClients.marshalBinary ⟨5, 1, BinaryFuse8.ofKey 80645⟩) := by
  have hgeometry : BinaryFuse8.Geometry ⟨0, 4, 3, 1, 4, List.replicate 12 0⟩ :=
    ⟨⟨2, by decide⟩, by decide, by decide, by decide, by decide, by decide⟩
  have hempty := laidOut_marshalBinary (c := ⟨5, 1, ⟨0, 4, 3, 1, 4, List.replicate 12 0⟩⟩) hgeometry
  have hone := laidOut_marshalBinary (c := ⟨5, 1, BinaryFuse8.ofKey 80645⟩)
    (BinaryFuse8.geometry_ofKey 80645)
  exact ⟨(filter_validated_iff Decoded.zero _).1.2 (Or.inr hempty.consistent),
    (filter_validated_iff Decoded.zero _).2.1 hone⟩

/-- Three buffers of node 5 that are not rejected. The first announces a fingerprint that is not
    there: the value it decodes to encodes to another buffer. The second has no fingerprints: it
    gets into the graph, and `Who` panics for every client. The third announces `2 ^ 63`: the
    decoder panics. -/
theorem filter_accepted_unchecked :
    (∃ c, Decoded.zero.unmarshalBinary (exampleHeader 4 3 1 4 1) = (c, .ok ()) ∧
      c.marshalBinary ≠ .ok (exampleHeader 4 3 1 4 1)) ∧
    (∃ g, Decoded.after 9 [.received (exampleHeader 4 3 1 4 0)] = .ok g ∧
      ∀ order, order.Perm g.entries → ∀ client,
        Decoded.who order client = .error .indexOutOfRange) ∧
    (Decoded.zero.unmarshalBinary (exampleHeader 4 3 1 4 0x8000000000000000)).2
      = .error (.panic .makesliceLenOutOfRange) := by
  refine ⟨⟨_, rfl, by decide⟩, ⟨_, rfl, fun order hperm client => ?_⟩, by decide⟩
  have horder : order = [⟨5, described (exampleHeader 4 3 1 4 0) []⟩] :=
    List.perm_singleton.1 hperm
  have hcontains : ∀ f : BinaryFuse8, f.fingerprints = [] →
      f.contains client = .error .indexOutOfRange := by
    intro f hf
    simp [BinaryFuse8.contains, BinaryFuse8.index, hf, bind, Except.bind]
  rw [horder]
  simp only [Decoded.who, Decoded.has, described, hcontains (describedFilter _ []) rfl]

end Tunnel.State
