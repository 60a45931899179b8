import Mathlib.Data.List.AList

set_option autoImplicit false

/-! # Concurrent maps and their enumeration

`sync.Map` with keys in `κ` and values in `ν`: a finite map whose single-key operations are atomic.
The map itself is Mathlib's `AList`; this file names the operations after Go's and says what `Range`
may report.

`Range` is not a snapshot. Its documentation promises only that no key is visited twice and that,
for a key stored or deleted during the call, it may reflect any mapping of that key from any point
of the call. `RangeView` keeps exactly that: the keys present since the call began (`must`) and the
keys present at some point of it (`may`). When nothing changes during the call it reports the keys
of the map, in some order. -/

namespace Tunnel.Lib

-- A check over the keys of a map goes through the list. Key types such as `UInt64` are finite, and
-- an instance that runs over the whole type instead must not be chosen where it is in scope.
instance (priority := 2000) decidableForallMemList {α : Type} {p : α → Prop} [DecidablePred p]
    (l : List α) : Decidable (∀ x ∈ l, p x) :=
  List.decidableBAll p l

instance (priority := 2000) decidableForallMemOption {α : Type} {p : α → Prop} [DecidablePred p]
    (o : Option α) : Decidable (∀ x ∈ o, p x) :=
  Option.decidableForallMem o

/-- A `sync.Map` from `κ` to `ν`. -/
abbrev SyncMap (κ ν : Type) := AList (fun _ : κ => ν)

namespace SyncMap

variable {κ ν : Type} [DecidableEq κ]

/-- `m.Load(k)`. -/
def load (m : SyncMap κ ν) (k : κ) : Option ν := m.lookup k

/-- `m.Store(k, v)`. -/
def store (m : SyncMap κ ν) (k : κ) (v : ν) : SyncMap κ ν := m.insert k v

/-- `m.Delete(k)`, which is also what `LoadAndDelete` leaves behind. -/
def delete (m : SyncMap κ ν) (k : κ) : SyncMap κ ν := m.erase k

/-- `m.LoadOrStore(k, v)`: the value now under `k`, whether it was loaded, and the map after. -/
def loadOrStore (m : SyncMap κ ν) (k : κ) (v : ν) : (ν × Bool) × SyncMap κ ν :=
  match m.load k with
  | some old => ((old, true), m)
  | none => ((v, false), m.store k v)

@[simp] theorem load_empty (k : κ) : load (∅ : SyncMap κ ν) k = none := AList.lookup_empty k

@[simp] theorem load_store_self (m : SyncMap κ ν) (k : κ) (v : ν) :
    (m.store k v).load k = some v := AList.lookup_insert m

theorem load_store_ne (m : SyncMap κ ν) {k k' : κ} (v : ν) (h : k' ≠ k) :
    (m.store k v).load k' = m.load k' := AList.lookup_insert_ne h

@[simp] theorem load_delete_self (m : SyncMap κ ν) (k : κ) : (m.delete k).load k = none :=
  AList.lookup_erase k m

theorem load_delete_ne (m : SyncMap κ ν) {k k' : κ} (h : k' ≠ k) :
    (m.delete k).load k' = m.load k' := AList.lookup_erase_ne h

/-- A deletion leaves no entry that was not there. -/
theorem load_of_load_delete {m : SyncMap κ ν} {k k' : κ} {v : ν}
    (h : (m.delete k).load k' = some v) : m.load k' = some v := by
  by_cases hk : k' = k
  · subst hk
    rw [load_delete_self] at h
    cases h
  · rwa [load_delete_ne m hk] at h

theorem load_eq_none {m : SyncMap κ ν} {k : κ} : m.load k = none ↔ k ∉ m.keys := by
  rw [load, AList.lookup_eq_none, AList.mem_keys]

theorem mem_keys_of_load {m : SyncMap κ ν} {k : κ} {v : ν} (h : m.load k = some v) :
    k ∈ m.keys := by
  by_contra hk
  rw [load_eq_none.2 hk] at h
  exact absurd h (by simp)

/-- An entry is found under its own key. -/
theorem mem_entries_iff {m : SyncMap κ ν} {k : κ} {v : ν} :
    (⟨k, v⟩ : Sigma fun _ : κ => ν) ∈ m.entries ↔ m.load k = some v :=
  AList.mem_lookup_iff.symm.trans Option.mem_def

/-! ## The number of keys -/

theorem length_keys_store_of_none {m : SyncMap κ ν} {k : κ} (v : ν) (h : m.load k = none) :
    (m.store k v).keys.length = m.keys.length + 1 := by
  rw [store, AList.keys_insert, List.length_cons, List.erase_of_not_mem (load_eq_none.1 h)]

theorem length_keys_delete_of_some {m : SyncMap κ ν} {k : κ} {w : ν} (h : m.load k = some w) :
    (m.delete k).keys.length + 1 = m.keys.length := by
  have hmem := mem_keys_of_load h
  rw [delete, AList.keys_erase, List.length_erase_of_mem hmem]
  have := List.length_pos_of_mem hmem
  omega

end SyncMap

/-! ## `Range` -/

/-- What a `Range` in progress is committed to: keys it has to visit, keys it may visit. -/
structure RangeView (κ : Type) where
  must : List κ
  may : List κ
deriving DecidableEq

namespace RangeView

variable {κ : Type} [DecidableEq κ]

/-- A `Range` that starts on a map with these keys. -/
def start (keys : List κ) : RangeView κ := ⟨keys, keys⟩

/-- The map's keys became `keys` while the `Range` is in progress. -/
def observe (v : RangeView κ) (keys : List κ) : RangeView κ :=
  ⟨v.must.filter (· ∈ keys), v.may ++ keys⟩

/-- `seen` is a sequence of keys the finished `Range` may have visited. -/
def Admits (v : RangeView κ) (seen : List κ) : Prop :=
  seen.Nodup ∧ (∀ k ∈ v.must, k ∈ seen) ∧ ∀ k ∈ seen, k ∈ v.may

instance (v : RangeView κ) (seen : List κ) : Decidable (v.Admits seen) :=
  inferInstanceAs (Decidable (_ ∧ _ ∧ _))

/-- The view is exact: it commits the `Range` to the keys `keys`, no more and no fewer. -/
def Exact (v : RangeView κ) (keys : List κ) : Prop :=
  ∀ k, (k ∈ v.must ↔ k ∈ keys) ∧ (k ∈ v.may ↔ k ∈ keys)

omit [DecidableEq κ] in
theorem start_exact (keys : List κ) : (start keys).Exact keys := fun _ => ⟨Iff.rfl, Iff.rfl⟩

omit [DecidableEq κ] in
/-- A `Range` with an exact view visits exactly the keys of the map. -/
theorem Exact.mem_iff {v : RangeView κ} {keys seen : List κ} (h : v.Exact keys)
    (hs : v.Admits seen) (k : κ) : k ∈ seen ↔ k ∈ keys := by
  obtain ⟨_, hmust, hmay⟩ := hs
  exact ⟨fun hk => (h k).2.1 (hmay k hk), fun hk => hmust k ((h k).1.2 hk)⟩

end RangeView

end Tunnel.Lib
