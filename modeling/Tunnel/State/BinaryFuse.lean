import Tunnel.State.PeerGraph

set_option autoImplicit false

/-! # Lookups in a binary fuse filter (`xorfilter.BinaryFuse8`)

`Contains` hashes the key and reads three fingerprints, at positions that follow from the hash and
from the four numbers that describe the filter's segments, in 32-bit arithmetic. Nothing keeps the
positions inside the fingerprints but the numbers themselves: in a filter that the library built
they fit together (`Geometry`), and then every lookup is in range (`Geometry.inRange`).

The hash of a key takes every value as the key does (`mixsplit_surjective`), so a filter is safe for
all keys exactly if the positions of every hash are in range (`contains_safe_iff`). -/

namespace Tunnel.State

open Tunnel.Lib

/-- The runtime panics behind a filter. -/
inductive FilterPanic
  | nilDereference
  | indexOutOfRange
  | makesliceLenOutOfRange
deriving DecidableEq

/-! ## Hashing -/

/-- `h ^= h >> 33` -/
def xorShift (h : UInt64) : UInt64 := h ^^^ (h >>> 33)

/-- `murmur64` -/
def murmur64 (h : UInt64) : UInt64 :=
  xorShift (xorShift (xorShift h * 0xff51afd7ed558ccd) * 0xc4ceb9fe1a85ec53)

/-- `mixsplit` -/
def mixsplit (key seed : UInt64) : UInt64 := murmur64 (key + seed)

/-- `fingerprint` -/
def fingerprint (hash : UInt64) : UInt64 := hash ^^^ (hash >>> 32)

/-- Shifting by more than half the width makes it its own inverse. -/
theorem xorShift_xorShift (h : UInt64) : xorShift (xorShift h) = h := by
  have hshift : ((h ^^^ (h >>> 33)) >>> 33) = h >>> 33 := by
    have hgone : h.toNat >>> 33 >>> 33 = 0 := by
      rw [← Nat.shiftRight_add, Nat.shiftRight_eq_div_pow]
      have := h.toNat_lt
      omega
    apply UInt64.toNat_inj.1
    show (h.toNat ^^^ h.toNat >>> 33) >>> 33 = h.toNat >>> 33
    rw [Nat.shiftRight_xor_distrib, hgone, Nat.xor_zero]
  rw [xorShift, xorShift, hshift, UInt64.xor_assoc, UInt64.xor_self, UInt64.xor_zero]

theorem murmur64_surjective : Function.Surjective murmur64 := by
  intro y
  refine ⟨xorShift (xorShift (xorShift y * 0x9cb4b2f8129337db) * 0x4f74430c22a54005), ?_⟩
  have h₁ : (0x9cb4b2f8129337db : UInt64) * 0xc4ceb9fe1a85ec53 = 1 := by decide
  have h₂ : (0x4f74430c22a54005 : UInt64) * 0xff51afd7ed558ccd = 1 := by decide
  rw [murmur64, xorShift_xorShift, UInt64.mul_assoc, h₂, UInt64.mul_one, xorShift_xorShift,
    UInt64.mul_assoc, h₁, UInt64.mul_one, xorShift_xorShift]

/-- The hash of a key takes every value. -/
theorem mixsplit_surjective (seed : UInt64) :
    Function.Surjective (fun key => mixsplit key seed) := by
  intro hash
  obtain ⟨h, rfl⟩ := murmur64_surjective hash
  exact ⟨h - seed, by simp only [mixsplit, UInt64.sub_add_cancel]⟩

/-! ## Lookups -/

namespace BinaryFuse8

/-- `getHashFromHash` -/
def getHashFromHash (f : BinaryFuse8) (hash : UInt64) : UInt32 × UInt32 × UInt32 :=
  let hi := UInt64.ofNat (hash.toNat * f.segmentCountLength.toNat / 2 ^ 64)
  let h0 := hi.toUInt32
  let h1 := h0 + f.segmentLength
  let h2 := h1 + f.segmentLength
  (h0, h1 ^^^ ((hash >>> 18).toUInt32 &&& f.segmentLengthMask),
    h2 ^^^ (hash.toUInt32 &&& f.segmentLengthMask))

/-- `f.Fingerprints[i]` -/
def index (f : BinaryFuse8) (i : UInt32) : Except FilterPanic UInt8 :=
  (f.fingerprints[i.toNat]?).elim (.error .indexOutOfRange) .ok

/-- `(*BinaryFuse8).Contains` -/
def contains (f : BinaryFuse8) (key : UInt64) : Except FilterPanic Bool := do
  let hash := mixsplit key f.seed
  let (h0, h1, h2) := f.getHashFromHash hash
  let a ← f.index h0
  let b ← f.index h1
  let c ← f.index h2
  .ok ((fingerprint hash).toUInt8 ^^^ (a ^^^ b ^^^ c) == 0)

/-- The three positions of a hash are in range. -/
def InRange (f : BinaryFuse8) (hash : UInt64) : Prop :=
  (f.getHashFromHash hash).1.toNat < f.fingerprints.length ∧
    (f.getHashFromHash hash).2.1.toNat < f.fingerprints.length ∧
    (f.getHashFromHash hash).2.2.toNat < f.fingerprints.length

variable {f : BinaryFuse8}

theorem index_cases (f : BinaryFuse8) (i : UInt32) :
    (i.toNat < f.fingerprints.length ∧ ∃ b, f.index i = .ok b) ∨
      (¬ i.toNat < f.fingerprints.length ∧ f.index i = .error .indexOutOfRange) := by
  by_cases hi : i.toNat < f.fingerprints.length
  · exact Or.inl ⟨hi, f.fingerprints[i.toNat], by simp [index, hi]⟩
  · exact Or.inr ⟨hi, by simp [index, List.getElem?_eq_none (Nat.le_of_not_lt hi)]⟩

/-- A lookup panics exactly if a position is out of range. -/
theorem contains_ok_iff (key : UInt64) :
    (∃ x, f.contains key = .ok x) ↔ f.InRange (mixsplit key f.seed) := by
  simp only [contains, InRange, bind, Except.bind]
  generalize f.getHashFromHash (mixsplit key f.seed) = positions
  obtain ⟨h0, h1, h2⟩ := positions
  rcases f.index_cases h0 with ⟨hlt₀, a, ha⟩ | ⟨hge, ha⟩
  · rcases f.index_cases h1 with ⟨hlt₁, b, hb⟩ | ⟨hge, hb⟩
    · rcases f.index_cases h2 with ⟨hlt₂, c, hc⟩ | ⟨hge, hc⟩
      · simp [ha, hb, hc, hlt₀, hlt₁, hlt₂]
      · simp [ha, hb, hc, hge]
    · simp [ha, hb, hge]
  · simp [ha, hge]

/-- **Lookups of all keys.** -/
theorem contains_safe_iff : (∀ key, ∃ x, f.contains key = .ok x) ↔ ∀ hash, f.InRange hash := by
  constructor
  · intro h hash
    obtain ⟨key, rfl⟩ := mixsplit_surjective f.seed hash
    exact (contains_ok_iff key).1 (h key)
  · exact fun h key => (contains_ok_iff key).2 (h _)

/-! ## The geometry of a filter -/

/-- How the library lays out the fingerprints: segments of a power of two, as many as are counted
    and two more, with a mask for the positions inside a segment. -/
structure Geometry (f : BinaryFuse8) : Prop where
  powerOfTwo : ∃ k, f.segmentLength.toNat = 2 ^ k
  mask : f.segmentLengthMask.toNat + 1 = f.segmentLength.toNat
  counted : 0 < f.segmentCount.toNat
  countLength : f.segmentCountLength.toNat = f.segmentCount.toNat * f.segmentLength.toNat
  size : f.fingerprints.length = f.segmentCountLength.toNat + 2 * f.segmentLength.toNat
  small : f.fingerprints.length ≤ 2 ^ 32

/-- Changing the position inside a segment does not leave the segment. -/
theorem xor_lt_of_lt_mul {a s q k : ℕ} (ha : a < q * 2 ^ k) (hs : s < 2 ^ k) :
    a ^^^ s < q * 2 ^ k := by
  have hdiv : (a ^^^ s) / 2 ^ k = a / 2 ^ k := by
    rw [Nat.xor_div_two_pow, Nat.div_eq_of_lt hs, Nat.xor_zero]
  have hpos : 0 < 2 ^ k := Nat.pow_pos (by decide)
  rw [← Nat.div_lt_iff_lt_mul hpos, hdiv, Nat.div_lt_iff_lt_mul hpos]
  exact ha

/-- The first position lies in the segments that are counted. -/
theorem position_lt (hash : UInt64) (h : 0 < f.segmentCountLength.toNat) :
    (f.getHashFromHash hash).1.toNat < f.segmentCountLength.toNat := by
  have hlt : hash.toNat * f.segmentCountLength.toNat / 2 ^ 64 < f.segmentCountLength.toNat := by
    rw [Nat.div_lt_iff_lt_mul (by decide), Nat.mul_comm]
    exact Nat.mul_lt_mul_of_pos_left hash.toNat_lt h
  have hcount := f.segmentCountLength.toNat_lt
  simp only [getHashFromHash, UInt64.toNat_toUInt32, UInt64.toNat_ofNat']
  rw [Nat.mod_eq_of_lt (a := _ / _) (by omega), Nat.mod_eq_of_lt (by omega)]
  exact hlt

/-- **A filter that is laid out so is safe.** -/
theorem Geometry.inRange (h : f.Geometry) (hash : UInt64) : f.InRange hash := by
  obtain ⟨k, hk⟩ := h.powerOfTwo
  have hpos : 0 < 2 ^ k := Nat.pow_pos (by decide)
  have hmask := h.mask
  have hcount := h.countLength
  have hsize := h.size
  have hsmall := h.small
  rw [hk] at hmask hcount hsize
  have hh0 : (f.getHashFromHash hash).1.toNat < f.segmentCount.toNat * 2 ^ k := by
    have := f.position_lt hash (hcount ▸ Nat.mul_pos h.counted hpos)
    rwa [hcount] at this
  have hsub : ∀ x : UInt32, (x &&& f.segmentLengthMask).toNat < 2 ^ k := by
    intro x
    have := Nat.and_le_right (n := x.toNat) (m := f.segmentLengthMask.toNat)
    rw [UInt32.toNat_and]
    omega
  have hsegments : f.fingerprints.length = (f.segmentCount.toNat + 2) * 2 ^ k := by
    rw [hsize, hcount]
    ring
  have hone : f.segmentCount.toNat * 2 ^ k + 2 ^ k = (f.segmentCount.toNat + 1) * 2 ^ k := by ring
  have htwo : (f.segmentCount.toNat + 1) * 2 ^ k + 2 ^ k = (f.segmentCount.toNat + 2) * 2 ^ k := by
    ring
  -- none of the sums wraps around
  have hh1 : ((f.getHashFromHash hash).1 + f.segmentLength).toNat
      = (f.getHashFromHash hash).1.toNat + 2 ^ k := by
    rw [UInt32.toNat_add, hk, Nat.mod_eq_of_lt (by omega)]
  have hh2 : ((f.getHashFromHash hash).1 + f.segmentLength + f.segmentLength).toNat
      = (f.getHashFromHash hash).1.toNat + 2 ^ k + 2 ^ k := by
    rw [UInt32.toNat_add, hh1, hk, Nat.mod_eq_of_lt (by omega)]
  refine ⟨by omega, ?_, ?_⟩
  · show ((f.getHashFromHash hash).1 + f.segmentLength ^^^
      ((hash >>> 18).toUInt32 &&& f.segmentLengthMask)).toNat < _
    have hlt := xor_lt_of_lt_mul (q := f.segmentCount.toNat + 1) (k := k)
      (a := (f.getHashFromHash hash).1.toNat + 2 ^ k) (by omega) (hsub (hash >>> 18).toUInt32)
    rw [UInt32.toNat_xor, hh1]
    omega
  · show ((f.getHashFromHash hash).1 + f.segmentLength + f.segmentLength ^^^
      (hash.toUInt32 &&& f.segmentLengthMask)).toNat < _
    have hlt := xor_lt_of_lt_mul (q := f.segmentCount.toNat + 2) (k := k)
      (a := (f.getHashFromHash hash).1.toNat + 2 ^ k + 2 ^ k) (by omega) (hsub hash.toUInt32)
    rw [UInt32.toNat_xor, hh2]
    omega

/-! ## The filter of one key -/

/-- The empty filter that `PopulateBinaryFuse8` lays out for one key: three segments of four
    fingerprints, with the first seed that its `splitmix64` draws. -/
def forOneKey : BinaryFuse8 := ⟨0x910a2dec89025cc1, 4, 3, 1, 4, List.replicate 12 0⟩

/-- What `PopulateBinaryFuse8` makes of one key: its fingerprint stands at the last of its three
    positions. -/
def ofKey (key : UInt64) : BinaryFuse8 :=
  let hash := mixsplit key forOneKey.seed
  let (_, _, h2) := forOneKey.getHashFromHash hash
  { forOneKey with
    fingerprints := forOneKey.fingerprints.set h2.toNat (fingerprint hash).toUInt8 }

theorem geometry_ofKey (key : UInt64) : (ofKey key).Geometry where
  powerOfTwo := ⟨2, rfl⟩
  mask := rfl
  counted := Nat.one_pos
  countLength := rfl
  size := by simp [ofKey, forOneKey]
  small := by simp [ofKey, forOneKey]

end BinaryFuse8

end Tunnel.State
