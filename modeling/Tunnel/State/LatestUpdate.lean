import Tunnel.State.PeerGraph

set_option autoImplicit false

/-! # The peer graph as a register of latest updates

What the graph is for: it remembers, for every peer, the latest update the peer sent since it was
last removed. `latest` says that directly, as a function of the operations so far. The graph itself
keeps something else: an update with the CRC of the stored one is skipped, so the stored filter may
be an older one. `represents` connects the two: they have an entry for the same peers, and the
entries answer every query alike as long as updates of one peer with equal CRCs do. Since `Who` only
asks queries, it answers as if it had the latest updates (`who_latest_update`). -/

namespace Tunnel.State

open Tunnel.Lib

variable {F : Type}

/-- An operation on the graph: `Replace(c)` by `handleMerge`, `Remove(peer)` by `removePeer`. -/
inductive GraphOp (F : Type)
  | replace (c : ConnectedClients F)
  | remove (peer : UInt64)

namespace PeerGraph

/-- One operation. -/
def apply (g : PeerGraph F) : GraphOp F → PeerGraph F
  | .replace c => (g.replace c).2
  | .remove peer => g.remove peer

/-- The graph after these operations, from an empty one. -/
def afterOps (ops : List (GraphOp F)) : PeerGraph F := ops.foldl apply ∅

/-- What one operation does to the latest update of `peer`. -/
def noteLatest (peer : UInt64) (old : Option (ConnectedClients F)) :
    GraphOp F → Option (ConnectedClients F)
  | .replace c => if c.peer = peer then some c else old
  | .remove p => if p = peer then none else old

/-- The latest update of `peer` since it was last removed. -/
def latest (ops : List (GraphOp F)) (peer : UInt64) : Option (ConnectedClients F) :=
  ops.foldl (noteLatest peer) none

/-- The latest update of `peer` says yes for `client`. -/
def LatestHas (lib : FilterLib F) (ops : List (GraphOp F)) (client peer : UInt64) : Prop :=
  ∃ c, latest ops peer = some c ∧ c.has lib client = true

/-- Updates of one peer with equal CRCs have the same members. -/
def CrcFaithful (lib : FilterLib F) (ops : List (GraphOp F)) : Prop :=
  ∀ c d, .replace c ∈ ops → .replace d ∈ ops → c.peer = d.peer → c.crc64 = d.crc64 →
    ∀ client, c.has lib client = d.has lib client

/-- The stored entry `c` stands for the update `d`: same CRC, same answers; and `d` is one of the
    updates of `peer`. -/
def StandsFor (lib : FilterLib F) (ops : List (GraphOp F)) (peer : UInt64)
    (c d : ConnectedClients F) : Prop :=
  c.crc64 = d.crc64 ∧ (∀ client, c.has lib client = d.has lib client) ∧ .replace d ∈ ops ∧
    d.peer = peer

variable {lib : FilterLib F} {ops : List (GraphOp F)} {g : PeerGraph F} {peer : UInt64}

/-- **`Replace` modifies the graph exactly if it changes what is stored.** -/
theorem replace_modified_iff (g : PeerGraph F) (c : ConnectedClients F) :
    (g.replace c).1 = true ↔
      SyncMap.load g c.peer = none ∨ ∃ old, SyncMap.load g c.peer = some old ∧
        old.crc64 ≠ c.crc64 := by
  unfold replace SyncMap.loadOrStore
  cases hload : SyncMap.load g c.peer with
  | none => simp
  | some old =>
      by_cases hcrc : old.crc64 = c.crc64
      · simp [hcrc]
      · simp [hcrc]

/-- What `Replace(c)` leaves under the peer of `c`: the old entry if it has the same CRC. -/
theorem load_replace_eq (g : PeerGraph F) (c : ConnectedClients F) :
    SyncMap.load (g.replace c).2 c.peer = some c ∨
      ∃ old, SyncMap.load g c.peer = some old ∧ old.crc64 = c.crc64 ∧
        SyncMap.load (g.replace c).2 c.peer = some old := by
  unfold replace SyncMap.loadOrStore
  cases hload : SyncMap.load g c.peer with
  | none => exact Or.inl (SyncMap.load_store_self g c.peer c)
  | some old =>
      by_cases hcrc : old.crc64 = c.crc64
      · exact Or.inr ⟨old, rfl, hcrc, by simp [hcrc, hload]⟩
      · exact Or.inl (by simp [hcrc])

/-- An operation keeps the entry of `peer` standing for the latest update of `peer`. -/
theorem represents_apply (hcrc : CrcFaithful lib ops) {op : GraphOp F} (hop : op ∈ ops)
    {old : Option (ConnectedClients F)}
    (h : Option.Rel (StandsFor lib ops peer) (SyncMap.load g peer) old) :
    Option.Rel (StandsFor lib ops peer) (SyncMap.load (g.apply op) peer)
      (noteLatest peer old op) := by
  cases op with
  | remove p =>
      by_cases hp : p = peer
      · subst hp
        simp only [apply, noteLatest, if_true, PeerGraph.remove, SyncMap.load_delete_self]
        exact .none
      · simpa only [apply, noteLatest, hp, if_false, PeerGraph.remove,
          SyncMap.load_delete_ne _ (Ne.symm hp)] using h
  | replace c =>
      by_cases hp : c.peer = peer
      · subst hp
        simp only [apply, noteLatest, if_true]
        have hself : StandsFor lib ops c.peer c c := ⟨rfl, fun _ => rfl, hop, rfl⟩
        rcases load_replace_eq g c with hnew | ⟨stored, hstored, hsame, hkept⟩
        · rw [hnew]
          exact .some hself
        · -- the update is skipped: what is stored stands for an update with the same CRC
          rw [hkept]
          rw [hstored] at h
          cases h with
          | @some _ d hd =>
              obtain ⟨hdcrc, hdhas, hdmem, hdpeer⟩ := hd
              refine .some ⟨hsame, fun client => ?_, hop, rfl⟩
              rw [hdhas client]
              exact hcrc d c hdmem hop hdpeer (hdcrc.symm.trans hsame) client
      · simpa only [apply, noteLatest, hp, if_false, load_replace_ne (Ne.symm hp)] using h

/-- **The graph represents the latest updates**, after any sequence of operations. -/
theorem represents (hcrc : CrcFaithful lib ops) (peer : UInt64) :
    Option.Rel (StandsFor lib ops peer) (SyncMap.load (afterOps ops) peer) (latest ops peer) := by
  refine List.foldl_rel (r := fun (g : PeerGraph F) old =>
    Option.Rel (StandsFor lib ops peer) (SyncMap.load g peer) old) ?_ ?_
  · simp only [SyncMap.load_empty]
    exact .none
  · intro op hop g old h
    exact represents_apply hcrc hop h

theorem claims_iff_latestHas (hcrc : CrcFaithful lib ops) (client peer : UInt64) :
    (afterOps ops).Claims lib client peer ↔ LatestHas lib ops client peer := by
  have hrep := represents hcrc peer
  unfold Claims LatestHas
  generalize SyncMap.load (afterOps ops) peer = stored at hrep ⊢
  generalize latest ops peer = last at hrep ⊢
  cases hrep with
  | none => simp
  | some hstands => simp [hstands.2.1]

/-- Only peers that sent an update have a latest one. -/
theorem ne_zero_of_latestHas (hcrc : CrcFaithful lib ops)
    (hpeer : ∀ c, .replace c ∈ ops → c.peer ≠ 0) {client peer : UInt64}
    (h : LatestHas lib ops client peer) : peer ≠ 0 := by
  obtain ⟨d, hd, _⟩ := h
  have hrep := represents hcrc peer
  rw [hd] at hrep
  generalize SyncMap.load (afterOps ops) peer = stored at hrep
  cases hrep with
  | some hstands =>
      obtain ⟨_, _, hmem, rfl⟩ := hstands
      exact hpeer d hmem

/-- **`Who` asks the latest updates.** After any sequence of `Replace` and `Remove`, for every
    client and every order of enumeration: `Who` answers 0 exactly if no peer's latest update since
    its last removal says yes, and otherwise a peer whose latest update does; and the next `Replace`
    reports a modification exactly if there is no entry for its peer or one with another CRC. -/
theorem who_latest_update (lib : FilterLib F) (ops : List (GraphOp F))
    (hpeer : ∀ c, .replace c ∈ ops → c.peer ≠ 0) (hcrc : CrcFaithful lib ops) :
    (∀ client order, order.Perm (afterOps ops).entries →
      (who lib order client = 0 ↔ ∀ peer, ¬ LatestHas lib ops client peer) ∧
      (who lib order client ≠ 0 → LatestHas lib ops client (who lib order client))) ∧
    ∀ c, ((afterOps ops).replace c).1 = true ↔
      SyncMap.load (afterOps ops) c.peer = none ∨
        ∃ old, SyncMap.load (afterOps ops) c.peer = some old ∧ old.crc64 ≠ c.crc64 := by
  refine ⟨fun client order hperm => ?_, replace_modified_iff _⟩
  have hanswer : (afterOps ops).Claims lib client (who lib order client) ∨
      who lib order client = 0 ∧ ∀ x, ¬ (afterOps ops).Claims lib client x :=
    mem_who.1 ⟨order, hperm, rfl⟩
  simp only [claims_iff_latestHas hcrc] at hanswer
  refine ⟨⟨fun hzero => ?_, fun hnone => ?_⟩, fun hne => ?_⟩
  · rcases hanswer with hhas | ⟨_, hnone⟩
    · exact absurd hzero (ne_zero_of_latestHas hcrc hpeer hhas)
    · exact hnone
  · rcases hanswer with hhas | ⟨hzero, _⟩
    · exact absurd hhas (hnone _)
    · exact hzero
  · rcases hanswer with hhas | ⟨hzero, _⟩
    · exact hhas
    · exact absurd hzero hne

/-- A filter that keeps its keys. -/
def exactFilter : FilterLib (List UInt64) where
  populate keys := .ok keys
  contains f k := f.contains k
  complete := by
    rintro keys f hf k hk
    cases hf
    exact List.contains_iff_mem.2 hk

/-- Peers 2 and 3 send their clients, peer 2 is removed, and peer 3 repeats its update. -/
def exampleOps : List (GraphOp (List UInt64)) :=
  [.replace ⟨2, 20, [5]⟩, .replace ⟨3, 30, [5, 6]⟩, .remove 2, .replace ⟨3, 30, [5, 6]⟩]

theorem who_latest_update_example :
    (∀ c, .replace c ∈ exampleOps → c.peer ≠ 0) ∧ CrcFaithful exactFilter exampleOps ∧
      who exactFilter (afterOps exampleOps).entries 5 ≠ 0 ∧
      LatestHas exactFilter exampleOps 5 (who exactFilter (afterOps exampleOps).entries 5) := by
  have hpeer : ∀ c, .replace c ∈ exampleOps → c.peer ≠ 0 := by
    intro c hc
    simp only [exampleOps, List.mem_cons, GraphOp.replace.injEq, reduceCtorEq, List.not_mem_nil,
      or_false, false_or] at hc
    rcases hc with rfl | rfl | rfl <;> decide
  have hcrc : CrcFaithful exactFilter exampleOps := by
    intro c d hc hd hpeers _ client
    simp only [exampleOps, List.mem_cons, GraphOp.replace.injEq, reduceCtorEq, List.not_mem_nil,
      or_false, false_or] at hc hd
    rcases hc with rfl | rfl | rfl <;> rcases hd with rfl | rfl | rfl <;>
      first | rfl | exact absurd hpeers (by decide)
  have hne : who exactFilter (afterOps exampleOps).entries 5 ≠ 0 := by decide
  exact ⟨hpeer, hcrc, hne,
    ((who_latest_update exactFilter exampleOps hpeer hcrc).1 5 _ (List.Perm.refl _)).2 hne⟩

end PeerGraph

end Tunnel.State
