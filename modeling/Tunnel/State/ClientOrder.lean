import Tunnel.State.Crc
import Tunnel.State.LatestUpdate
import Tunnel.State.PeerMap

set_option autoImplicit false

/-! # The checksum and the order of the clients

A node recognises a new state of a peer by its CRC64. `PeerMap.CRC64` sorts the IDs first, so that
it depends on the set of them only. `NewConnectedClients` takes the IDs as `Snapshot` lists them,
and `sync.Map` promises no order: the same clients, listed another way, are another state.

How bad that is can be said exactly (`client_crc_order_iff`). Exchanging two clients goes unnoticed
only if their IDs differ by one of three particular words, so the checksum does not depend on the
order exactly if all of the IDs differ by those, and there are never more than four such clients
(`length_le_four_of_crc64_perm`). -/

namespace Tunnel.State

open Tunnel.Lib

/-! ## IDs with their bytes in the other order -/

theorem beBytes_xor (n a b : ℕ) :
    beBytes n (a ^^^ b) = List.zipWith (· ^^^ ·) (beBytes n a) (beBytes n b) := by
  induction n with
  | zero => rfl
  | succ n ih =>
      have hpow : 256 ^ n = 2 ^ (8 * n) := by
        rw [pow_mul]
        rfl
      rw [beBytes, beBytes, beBytes, List.zipWith_cons_cons, ← ih, hpow, Nat.xor_div_two_pow,
        UInt8.ofNat_xor]

theorem putUint64_xor (a b : UInt64) :
    putUint64 (a ^^^ b) = List.zipWith (· ^^^ ·) (putUint64 a) (putUint64 b) := by
  rw [putUint64, UInt64.toNat_xor, beBytes_xor]
  rfl

theorem putUint64_reverseBytes (x : UInt64) :
    putUint64 (reverseBytes x) = (putUint64 x).reverse := by
  rw [reverseBytes, putUint64_getUint64]
  rw [List.length_reverse]
  exact length_beBytes 8 _

theorem reverseBytes_involutive : Function.Involutive reverseBytes := by
  intro x
  rw [reverseBytes, putUint64_reverseBytes, List.reverse_reverse, getUint64_putUint64]

theorem reverseBytes_linear : Linear reverseBytes := by
  intro a b
  have hbytes : putUint64 (reverseBytes (a ^^^ b)) =
      putUint64 (reverseBytes a ^^^ reverseBytes b) := by
    rw [putUint64_xor, putUint64_reverseBytes, putUint64_reverseBytes, putUint64_reverseBytes,
      putUint64_xor]
    refine List.reverse_zipWith ?_
    rw [putUint64, putUint64, length_beBytes, length_beBytes]
  rw [← getUint64_putUint64 (reverseBytes (a ^^^ b)), hbytes, getUint64_putUint64]

/-- The differences of clients whose order the checksum does not notice. -/
def crcMasks : List UInt64 := [0, 0x83F505651965488E, 0x0259F9B9114670F4, 0x81ACFCDC0823387A]

theorem mem_crcMasks_iff (x : UInt64) :
    x ∈ crcMasks ↔ crcShift^[64] (reverseBytes x) = reverseBytes x := by
  have hmasks : crcMasks = fixedWords.map reverseBytes := by decide +kernel
  rw [fixed_iff, hmasks, List.mem_map_of_involutive reverseBytes_involutive]

/-- **When the order of the IDs does not matter.** -/
theorem crc64_perm_iff (ids : List UInt64) :
    (∀ order : List UInt64, order.Perm ids →
      crc64 (order.flatMap putUint64) = crc64 (ids.flatMap putUint64)) ↔
      ∀ a ∈ ids, ∀ b ∈ ids, a ^^^ b ∈ crcMasks := by
  have hsum : ∀ order : List UInt64,
      crc64 (order.flatMap putUint64) = crc64 (ids.flatMap putUint64) ↔
      absorbAll crcShift^[64] (~~~ 0) (order.map reverseBytes) =
        absorbAll crcShift^[64] (~~~ 0) (ids.map reverseBytes) := by
    intro order
    rw [crc64_eq, crc64_eq, UInt64.not_inj]
  have hregister := absorbAll_perm_iff xor_cancel (crcShift_linear.iterate 64)
    (crcShift_injective.iterate 64) (~~~ 0) (ids.map reverseBytes)
  constructor
  · intro h a ha b hb
    by_cases hab : a = b
    · rw [hab, UInt64.xor_self]
      exact List.mem_cons_self
    · rw [mem_crcMasks_iff, reverseBytes_linear]
      refine hregister.1 ?_ _ (List.mem_map_of_mem ha) _ (List.mem_map_of_mem hb)
        (reverseBytes_involutive.injective.ne hab)
      intro ws hws
      -- an order of the reversed IDs is an order of the IDs, reversed
      have hback : (ws.map reverseBytes).map reverseBytes = ws := by
        rw [List.map_map, reverseBytes_involutive.comp_self, List.map_id]
      have hperm : (ws.map reverseBytes).Perm ids := by
        have hmap := hws.map reverseBytes
        rwa [List.map_map, reverseBytes_involutive.comp_self, List.map_id] at hmap
      have hsame := (hsum _).1 (h _ hperm)
      rwa [hback] at hsame
  · intro h order hperm
    refine (hsum order).2 (hregister.2 ?_ _ (hperm.map reverseBytes))
    intro a ha b hb _
    obtain ⟨x, hx, rfl⟩ := List.mem_map.1 ha
    obtain ⟨y, hy, rfl⟩ := List.mem_map.1 hb
    rw [← reverseBytes_linear]
    exact (mem_crcMasks_iff _).1 (h x hx y hy)

/-- More than four clients are always told apart by their order. -/
theorem length_le_four_of_crc64_perm {ids : List UInt64} (hids : ids.Nodup)
    (h : ∀ order : List UInt64, order.Perm ids →
      crc64 (order.flatMap putUint64) = crc64 (ids.flatMap putUint64)) : ids.length ≤ 4 := by
  cases ids with
  | nil => exact Nat.zero_le 4
  | cons a rest =>
      have hmasks := (crc64_perm_iff (a :: rest)).1 h
      -- the differences to the first are distinct, and among the four
      have hdistinct : ((a :: rest).map (a ^^^ ·)).Nodup := by
        refine hids.map ?_
        intro x y hxy
        exact (xor_cancel a x).symm.trans ((congrArg (a ^^^ ·) hxy).trans (xor_cancel a y))
      have hsubset : (a :: rest).map (a ^^^ ·) ⊆ crcMasks := by
        intro d hd
        obtain ⟨b, hb, rfl⟩ := List.mem_map.1 hd
        exact hmasks a List.mem_cons_self b hb
      simpa [crcMasks] using (List.subperm_of_subset hdistinct hsubset).length_le

/-! ## Snapshots -/

namespace PeerMap

/-- `Snapshot` may return the IDs in this order, while nobody changes the map. -/
def Lists (m : PeerMap) (order : List UInt64) : Prop :=
  (RangeView.start m.peers.keys).Admits order

theorem lists_iff {m : PeerMap} {order : List UInt64} :
    m.Lists order ↔ order.Perm m.peers.keys := by
  constructor
  · intro h
    exact (List.perm_ext_iff_of_nodup h.1 m.peers.keys_nodup).2
      ((RangeView.start_exact m.peers.keys).mem_iff h)
  · intro h
    exact ⟨h.nodup_iff.2 m.peers.keys_nodup, fun _ hk => h.mem_iff.2 hk, fun _ hk => h.mem_iff.1 hk⟩

/-- `PeerMap.CRC64`, when `Snapshot` returns the IDs in this order. -/
def crc64 (order : List UInt64) : UInt64 :=
  State.crc64 ((order.mergeSort (fun a b => decide (a ≤ b))).flatMap putUint64)

/-- The IDs are sorted, so how they were listed does not matter. -/
theorem crc64_perm {order order' : List UInt64} (h : order.Perm order') :
    crc64 order = crc64 order' := by
  have htrans : ∀ a b c : UInt64, decide (a ≤ b) = true → decide (b ≤ c) = true →
      decide (a ≤ c) = true := by
    intro a b c hab hbc
    exact decide_eq_true (UInt64.le_trans (of_decide_eq_true hab) (of_decide_eq_true hbc))
  have htotal : ∀ a b : UInt64, (decide (a ≤ b) || decide (b ≤ a)) = true := by
    intro a b
    rcases UInt64.le_total a b with hab | hba
    · simp [hab]
    · simp [hba]
  have hsorted : order.mergeSort (fun a b => decide (a ≤ b)) =
      order'.mergeSort (fun a b => decide (a ≤ b)) := by
    refine List.Perm.eq_of_pairwise ?_ (List.pairwise_mergeSort htrans htotal order)
      (List.pairwise_mergeSort htrans htotal order') ?_
    · intro a b _ _ hab hba
      exact UInt64.le_antisymm (of_decide_eq_true hab) (of_decide_eq_true hba)
    · exact (List.mergeSort_perm order _).trans (h.trans (List.mergeSort_perm order' _).symm)
  rw [crc64, crc64, hsorted]

end PeerMap

variable {F : Type}

/-- The states that the node `id` may generate of these clients have one checksum. -/
def OneCrc (lib : FilterLib F) (id : UInt64) (m : PeerMap) : Prop :=
  ∀ order order' c c', m.Lists order → m.Lists order' →
    newConnectedClients lib id order = .ok c → newConnectedClients lib id order' = .ok c' →
    c.crc64 = c'.crc64

/-- Once a node has replaced its entry by a state that `id` generated of these clients, no other one
    of the same clients modifies it. -/
def NeverModifies (lib : FilterLib F) (id : UInt64) (m : PeerMap) : Prop :=
  ∀ order order' c c', m.Lists order → m.Lists order' →
    newConnectedClients lib id order = .ok c → newConnectedClients lib id order' = .ok c' →
    ∀ g : PeerGraph F, ((g.replace c).2.replace c').1 = false

theorem newConnectedClients_eq {lib : FilterLib F} {id : UInt64} {order : List UInt64}
    {c : ConnectedClients F} (h : newConnectedClients lib id order = .ok c) :
    c.peer = id ∧ c.crc64 = crc64 (order.flatMap putUint64) := by
  unfold newConnectedClients at h
  cases hf : lib.populate order with
  | error e =>
      rw [hf] at h
      cases h
  | ok f =>
      rw [hf] at h
      cases h
      exact ⟨rfl, rfl⟩

/-- After `Replace(c)`, an update of the same peer modifies the graph exactly if its checksum is
    another one. -/
theorem replace_replace (g : PeerGraph F) {c c' : ConnectedClients F} (hpeer : c.peer = c'.peer) :
    ((g.replace c).2.replace c').1 = true ↔ c.crc64 ≠ c'.crc64 := by
  obtain ⟨old, hold, hcrc⟩ : ∃ old, SyncMap.load (g.replace c).2 c'.peer = some old ∧
      old.crc64 = c.crc64 := by
    rw [← hpeer]
    rcases PeerGraph.load_replace_eq g c with hnew | ⟨old, _, hcrc, hkept⟩
    · exact ⟨c, hnew, rfl⟩
    · exact ⟨old, hkept, hcrc⟩
  rw [PeerGraph.replace_modified_iff, hold, ← hcrc]
  simp

theorem neverModifies_iff {lib : FilterLib F} {id : UInt64} {m : PeerMap} :
    NeverModifies lib id m ↔ OneCrc lib id m := by
  refine forall₄_congr (fun order order' c c' => forall₄_congr (fun _ _ hc hc' => ?_))
  have hpeer : c.peer = c'.peer := by
    rw [(newConnectedClients_eq hc).1, (newConnectedClients_eq hc').1]
  have hmodified : ∀ g : PeerGraph F,
      ((g.replace c).2.replace c').1 = false ↔ c.crc64 = c'.crc64 := by
    intro g
    rw [← Bool.not_eq_true, replace_replace g hpeer, not_not]
  exact ⟨fun h => (hmodified ∅).1 (h ∅), fun h g => (hmodified g).2 h⟩

/-- **When the change detector depends on the set of clients only.** Suppose a filter can be built
    of every list of distinct IDs. All states that a node may generate of its clients, whatever the
    order in which `Snapshot` lists them, have the same checksum, exactly if any two of the clients
    differ by one of four words; and exactly then a state generated anew of the same clients never
    makes `Replace` report a modification. `PeerMap.CRC64` is the same for every order. -/
theorem client_crc_order_iff (lib : FilterLib F)
    (hpop : ∀ keys : List UInt64, keys.Nodup → ∃ f, lib.populate keys = .ok f) (id : UInt64)
    (m : PeerMap) :
    (OneCrc lib id m ↔ ∀ a ∈ m.peers.keys, ∀ b ∈ m.peers.keys, a ^^^ b ∈ crcMasks) ∧
    (NeverModifies lib id m ↔ ∀ a ∈ m.peers.keys, ∀ b ∈ m.peers.keys, a ^^^ b ∈ crcMasks) ∧
    ∀ order order', m.Lists order → m.Lists order' →
      PeerMap.crc64 order = PeerMap.crc64 order' := by
  have hone : OneCrc lib id m ↔ ∀ a ∈ m.peers.keys, ∀ b ∈ m.peers.keys, a ^^^ b ∈ crcMasks := by
    rw [← crc64_perm_iff]
    constructor
    · intro h order hperm
      have hok : ∀ order : List UInt64, m.Lists order →
          ∃ c, newConnectedClients lib id order = .ok c := by
        intro order hlists
        obtain ⟨f, hf⟩ := hpop order hlists.1
        exact ⟨⟨id, crc64 (order.flatMap putUint64), f⟩, by rw [newConnectedClients, hf]; rfl⟩
      have hlists := PeerMap.lists_iff.2 hperm
      have hkeys := PeerMap.lists_iff.2 (List.Perm.refl m.peers.keys)
      obtain ⟨c, hc⟩ := hok order hlists
      obtain ⟨c', hc'⟩ := hok _ hkeys
      rw [← (newConnectedClients_eq hc).2, ← (newConnectedClients_eq hc').2]
      exact h order _ c c' hlists hkeys hc hc'
    · intro h order order' c c' hlists hlists' hc hc'
      rw [(newConnectedClients_eq hc).2, (newConnectedClients_eq hc').2,
        h order (PeerMap.lists_iff.1 hlists), h order' (PeerMap.lists_iff.1 hlists')]
  refine ⟨hone, neverModifies_iff.trans hone, ?_⟩
  intro order order' hlists hlists'
  exact PeerMap.crc64_perm ((PeerMap.lists_iff.1 hlists).trans (PeerMap.lists_iff.1 hlists').symm)

/-- A filter that keeps the keys themselves. -/
def listFilter : FilterLib (List UInt64) where
  populate keys := .ok keys
  contains keys k := decide (k ∈ keys)
  complete h k hk := by
    cases h
    exact decide_eq_true hk

/-- A map with sessions to these clients. -/
def clientMap (ids : List UInt64) : PeerMap :=
  { PeerMap.init with
    peers := ids.foldr (fun x m => SyncMap.store m x ⟨0, x, .yamux, false⟩) ∅ }

/-- Two clients that differ by one of the words. -/
theorem client_crc_order_iff_masked :
    OneCrc listFilter 9 (clientMap [1, 0x83F505651965488F]) ∧
      NeverModifies listFilter 9 (clientMap [1, 0x83F505651965488F]) := by
  have hpop : ∀ keys : List UInt64, keys.Nodup → ∃ f, listFilter.populate keys = .ok f :=
    fun keys _ => ⟨keys, rfl⟩
  have hmasks : ∀ a ∈ (clientMap [1, 0x83F505651965488F]).peers.keys,
      ∀ b ∈ (clientMap [1, 0x83F505651965488F]).peers.keys, a ^^^ b ∈ crcMasks := by
    decide +kernel
  have h := client_crc_order_iff listFilter hpop 9 (clientMap [1, 0x83F505651965488F])
  exact ⟨h.1.2 hmasks, h.2.1.2 hmasks⟩

/-- Clients 1 and 2, listed both ways: the second state is taken for a change. -/
theorem client_order_modifies :
    ∃ c c' : ConnectedClients (List UInt64),
      (clientMap [1, 2]).Lists [1, 2] ∧ (clientMap [1, 2]).Lists [2, 1] ∧
      newConnectedClients listFilter 9 [1, 2] = .ok c ∧
      newConnectedClients listFilter 9 [2, 1] = .ok c' ∧ c.crc64 ≠ c'.crc64 ∧
      ∀ g : PeerGraph (List UInt64), ((g.replace c).2.replace c').1 = true := by
  have hcrc : crc64 ([1, 2].flatMap putUint64) ≠ crc64 ([2, 1].flatMap putUint64) := by
    decide +kernel
  have hmodified : ∀ x y : UInt64, x ≠ y → ∀ g : PeerGraph (List UInt64),
      ((g.replace ⟨9, x, [1, 2]⟩).2.replace ⟨9, y, [2, 1]⟩).1 = true := by
    intro x y hxy g
    rw [replace_replace g]
    · exact hxy
    · rfl
  refine ⟨⟨9, crc64 ([1, 2].flatMap putUint64), [1, 2]⟩,
    ⟨9, crc64 ([2, 1].flatMap putUint64), [2, 1]⟩, ?_, ?_, rfl, rfl, hcrc,
    hmodified _ _ hcrc⟩
  · exact PeerMap.lists_iff.2 (by decide +kernel)
  · exact PeerMap.lists_iff.2 (by decide +kernel)

end Tunnel.State
