import Tunnel.Lib.BigEndian
import Tunnel.Lib.SyncMap

set_option autoImplicit false

/-! # Connected clients and the peer graph (`state/connected_clients.go`, `state/peer_graph.go`)

Every node gossips an approximate-membership filter of the clients connected to it. The filter is a
parameter of the development: a `FilterLib` builds a filter from a list of keys and answers
membership, and all that is known of it is that it has no false negatives. It may answer yes for
keys it was not built from.

A node keeps the latest filter of each of its peers in its `PeerGraph`. `Who` asks the filters in
the order in which `Range` enumerates them, an arbitrary one, and stops at the first that says yes;
`mem_who` says which peers that can be. -/

namespace Tunnel.State

open Tunnel.Lib

/-- The filter library: `PopulateBinaryFuse8` and `Contains`. -/
structure FilterLib (F : Type) where
  populate : List UInt64 → Except String F
  contains : F → UInt64 → Bool
  complete {keys : List UInt64} {f : F} : populate keys = .ok f → ∀ k ∈ keys, contains f k = true

/-! ## `crc64` with the ECMA table -/

/-- One of the eight shifts that make an entry of `crc64.MakeTable(crc64.ECMA)`. -/
def crcShift (crc : UInt64) : UInt64 :=
  if crc &&& 1 = 1 then (crc >>> 1) ^^^ 0xC96C5795D7870F42 else crc >>> 1

/-- The entry of the table at `i`. -/
def crcTable (i : UInt8) : UInt64 := crcShift^[8] i.toUInt64

/-- `crc64.New`, `Write` of the bytes and `Sum64`. -/
def crc64 (bytes : List UInt8) : UInt64 :=
  ~~~ (bytes.foldl (fun crc b => crcTable (crc.toUInt8 ^^^ b) ^^^ (crc >>> 8)) (~~~ 0))

/-! ## `ConnectedClients` -/

/-- `state.ConnectedClients` -/
structure ConnectedClients (F : Type) where
  peer : UInt64
  crc64 : UInt64
  f : F
deriving DecidableEq

variable {F : Type}

/-- `NewConnectedClients` -/
def newConnectedClients (lib : FilterLib F) (peer : UInt64) (clients : List UInt64) :
    Except String (ConnectedClients F) := do
  let filter ← lib.populate clients
  return { peer := peer, crc64 := crc64 (clients.flatMap putUint64), f := filter }

/-- `ConnectedClients.Has` -/
def ConnectedClients.has (lib : FilterLib F) (c : ConnectedClients F) (client : UInt64) : Bool :=
  lib.contains c.f client

/-- `xorfilter.BinaryFuse8` -/
structure BinaryFuse8 where
  seed : UInt64
  segmentLength : UInt32
  segmentLengthMask : UInt32
  segmentCount : UInt32
  segmentCountLength : UInt32
  fingerprints : List UInt8
deriving DecidableEq

/-- `ConnectedClients.MarshalBinary`; its error is always `nil`. -/
def ConnectedClients.marshalBinary (c : ConnectedClients BinaryFuse8) : List UInt8 :=
  putUint64 c.peer ++ putUint64 c.crc64 ++ putUint64 c.f.seed ++ putUint32 c.f.segmentLength ++
    putUint32 c.f.segmentLengthMask ++ putUint32 c.f.segmentCount ++
    putUint32 c.f.segmentCountLength ++ putUint64 (UInt64.ofNat c.f.fingerprints.length) ++
    c.f.fingerprints

theorem newConnectedClients_ok {lib : FilterLib F} {peer : UInt64} {clients : List UInt64}
    {c : ConnectedClients F} (h : newConnectedClients lib peer clients = .ok c) :
    c.peer = peer ∧ ∀ client ∈ clients, c.has lib client = true := by
  unfold newConnectedClients at h
  cases hf : lib.populate clients with
  | error e =>
      rw [hf] at h
      exact absurd h (by simp [bind, Except.bind])
  | ok f =>
      rw [hf] at h
      simp only [bind, Except.bind, pure, Except.pure, Except.ok.injEq] at h
      subst h
      exact ⟨rfl, lib.complete hf⟩

/-! ## `PeerGraph` -/

/-- `state.PeerGraph` -/
abbrev PeerGraph (F : Type) := SyncMap UInt64 (ConnectedClients F)

namespace PeerGraph

/-- An entry of the graph, as `Range` hands it to its function. -/
abbrev Entry (F : Type) := Sigma (fun _ : UInt64 => ConnectedClients F)

/-- `PeerGraph.Who`, when `Range` enumerates the entries in this order. -/
def who (lib : FilterLib F) (order : List (Entry F)) (client : UInt64) : UInt64 :=
  match order.find? (fun e => e.2.has lib client) with
  | some e => e.1
  | none => 0

/-- `PeerGraph.Remove` -/
def remove (g : PeerGraph F) (peer : UInt64) : PeerGraph F := SyncMap.delete g peer

/-- `PeerGraph.Replace`: whether the graph was modified, and the graph. -/
def replace (g : PeerGraph F) (c : ConnectedClients F) : Bool × PeerGraph F :=
  match SyncMap.loadOrStore g c.peer c with
  | ((_, false), g') => (true, g')
  | ((old, true), g') =>
      if old.crc64 ≠ c.crc64 then (true, SyncMap.store g' c.peer c) else (false, g')

/-- Every entry is a filter that the peer it stands under once built of the clients it then had. -/
def Built (lib : FilterLib F) (g : PeerGraph F) : Prop :=
  ∀ x c, SyncMap.load g x = some c → ∃ clients, newConnectedClients lib x clients = .ok c

/-- The peers `Who` may answer for `client`: those whose filter says yes. -/
def Claims (lib : FilterLib F) (g : PeerGraph F) (client peer : UInt64) : Prop :=
  ∃ c, SyncMap.load g peer = some c ∧ c.has lib client = true

variable {lib : FilterLib F} {g : PeerGraph F}

theorem built_empty : Built lib (∅ : PeerGraph F) := by
  intro x c h
  exact absurd h (by simp)

theorem load_replace_ne {c : ConnectedClients F} {x : UInt64} (hx : x ≠ c.peer) :
    SyncMap.load (g.replace c).2 x = SyncMap.load g x := by
  unfold replace SyncMap.loadOrStore
  cases hold : SyncMap.load g c.peer with
  | none => exact SyncMap.load_store_ne _ _ hx
  | some old =>
      by_cases hcrc : old.crc64 ≠ c.crc64
      · simpa [hcrc] using SyncMap.load_store_ne g c hx
      · simp [hcrc]

theorem load_replace_self {c d : ConnectedClients F}
    (h : SyncMap.load (g.replace c).2 c.peer = some d) :
    d = c ∨ SyncMap.load g c.peer = some d := by
  unfold replace SyncMap.loadOrStore at h
  cases hold : SyncMap.load g c.peer with
  | none =>
      rw [hold] at h
      simp only [SyncMap.load_store_self, Option.some.injEq] at h
      exact Or.inl h.symm
  | some old =>
      rw [hold] at h
      by_cases hcrc : old.crc64 ≠ c.crc64
      · simp only [hcrc, if_true, ne_eq, not_false_eq_true, SyncMap.load_store_self,
          Option.some.injEq] at h
        exact Or.inl h.symm
      · simp only [hcrc, if_false, hold, Option.some.injEq] at h
        exact Or.inr (congrArg some h)

theorem Built.store (hg : Built lib g) {c : ConnectedClients F} {clients : List UInt64}
    (hc : newConnectedClients lib c.peer clients = .ok c) :
    Built lib (SyncMap.store g c.peer c) := by
  intro x d hd
  by_cases hx : x = c.peer
  · subst hx
    rw [SyncMap.load_store_self, Option.some.injEq] at hd
    exact ⟨clients, hd ▸ hc⟩
  · rw [SyncMap.load_store_ne _ _ hx] at hd
    exact hg x d hd

/-- A filter received from the peer that built it keeps the graph built. -/
theorem Built.replace (hg : Built lib g) {c : ConnectedClients F} {clients : List UInt64}
    (hc : newConnectedClients lib c.peer clients = .ok c) : Built lib (g.replace c).2 := by
  intro x d hd
  by_cases hx : x = c.peer
  · subst hx
    rcases load_replace_self hd with rfl | hold
    · exact ⟨clients, hc⟩
    · exact hg _ d hold
  · rw [load_replace_ne hx] at hd
    exact hg x d hd

theorem Built.remove (hg : Built lib g) (peer : UInt64) : Built lib (g.remove peer) := by
  intro x c hc
  by_cases hx : x = peer
  · subst hx
    exact absurd hc (by simp [PeerGraph.remove])
  · exact hg x c (by simpa [PeerGraph.remove, SyncMap.load_delete_ne _ hx] using hc)

/-- **What `Who` answers.** In some order of enumeration it answers `peer`, exactly if the filter of
    `peer` says yes; or 0, if no filter does. -/
theorem mem_who {client peer : UInt64} :
    (∃ order, order.Perm g.entries ∧ who lib order client = peer) ↔
      g.Claims lib client peer ∨ peer = 0 ∧ ∀ x, ¬ g.Claims lib client x := by
  constructor
  · rintro ⟨order, hperm, rfl⟩
    unfold who
    cases hfind : order.find? (fun e => e.2.has lib client) with
    | some e =>
        have hmem : e ∈ g.entries := hperm.mem_iff.1 (List.mem_of_find?_eq_some hfind)
        exact Or.inl ⟨e.2, SyncMap.mem_entries_iff.1 hmem,
          List.find?_some (p := fun e : Entry F => e.2.has lib client) hfind⟩
    | none =>
        refine Or.inr ⟨rfl, ?_⟩
        rintro x ⟨c, hload, hhas⟩
        have hmem := hperm.mem_iff.2 (SyncMap.mem_entries_iff.2 hload)
        have := List.find?_eq_none.1 hfind _ hmem
        exact this hhas
  · rintro (⟨c, hload, hhas⟩ | ⟨rfl, hnone⟩)
    · -- the order that enumerates `peer` first
      have hmem := SyncMap.mem_entries_iff.2 hload
      obtain ⟨rest, hrest⟩ : ∃ rest, g.entries.Perm (⟨peer, c⟩ :: rest) := by
        obtain ⟨l₁, l₂, hsplit⟩ := List.append_of_mem hmem
        exact ⟨l₁ ++ l₂, hsplit ▸ List.perm_middle⟩
      refine ⟨⟨peer, c⟩ :: rest, hrest.symm, ?_⟩
      simp [who, hhas]
    · refine ⟨g.entries, List.Perm.refl _, ?_⟩
      have hfind : g.entries.find? (fun e => e.2.has lib client) = none := by
        refine List.find?_eq_none.2 ?_
        rintro ⟨x, c⟩ hmem hhas
        exact hnone x ⟨c, SyncMap.mem_entries_iff.1 hmem, hhas⟩
      rw [who, hfind]

end PeerGraph

end Tunnel.State
