import Tunnel.Lib.BigEndian

set_option autoImplicit false

/-! # The bytes of a request or a reply (`messaging/rpc.go`)

A message of type `messageRequestReply` carries a `requestReply`: a header of 17 bytes with the
length of the data, the key of the call and a flag byte, and then the data. `Unpack` slices and
indexes without looking at how much there is, and makes a buffer of whatever length the header
gives; on bytes that `Pack` did not write it may end the program. On those that `Pack` wrote it does
not, as long as there is memory, and gives the value back (`unpack_pack`).

How large a slice `make` returns depends on the machine and on what memory is left, so it is a
parameter (`Heap`). `Pack` writes every byte of the buffer it makes exactly once, so the model gives
the bytes in their order. -/

namespace Tunnel.Messaging

open Tunnel.Lib

/-- `rrHeaderLength` -/
def rrHeaderLength : ℕ := 17

/-- How the codec ends the program: a slice or an index out of range, a `make` of a length that is
    out of range, or one for which there is no memory. -/
inductive WirePanic
  | sliceOutOfRange
  | indexOutOfRange
  | makesliceLenOutOfRange
  | outOfMemory
deriving DecidableEq

/-- What `make` has to work with: the largest slice that the runtime considers, which depends on the
    platform (`2 ^ 48` bytes on amd64), and the largest for which there is memory. -/
structure Heap where
  maxAlloc : ℕ
  free : ℕ
  maxAlloc_lt : maxAlloc < 2 ^ 63

/-- A machine of this kind, with 4 GiB to spare. -/
def Heap.amd64 : Heap := ⟨2 ^ 48, 2 ^ 32, by decide⟩

/-- A machine with memory for every length that an `int` can have. -/
def Heap.ints : Heap := ⟨2 ^ 63 - 1, 2 ^ 63 - 1, by decide⟩

/-- A slice of `n` bytes can be made. -/
def Heap.Holds (mem : Heap) (n : ℕ) : Prop := n ≤ mem.maxAlloc ∧ n ≤ mem.free

instance (mem : Heap) (n : ℕ) : Decidable (mem.Holds n) :=
  inferInstanceAs (Decidable (n ≤ mem.maxAlloc ∧ n ≤ mem.free))

theorem Heap.holds_ints {n : ℕ} : Heap.ints.Holds n ↔ n < 2 ^ 63 := by
  simp only [Heap.Holds, Heap.ints]
  omega

theorem Heap.Holds.lt {mem : Heap} {n : ℕ} (h : mem.Holds n) : n < 2 ^ 63 :=
  Nat.lt_of_le_of_lt h.1 mem.maxAlloc_lt

theorem Heap.Holds.mono {mem : Heap} {n m : ℕ} (h : mem.Holds n) (hle : m ≤ n) : mem.Holds m :=
  ⟨Nat.le_trans hle h.1, Nat.le_trans hle h.2⟩

/-- `make([]byte, n)`, for the unsigned 64-bit value of the length: as an `int`, a length of
    `2 ^ 63` and more is negative, which is refused as one that is too large. -/
def makeBytes (mem : Heap) (n : ℕ) : Except WirePanic (List UInt8) :=
  if mem.maxAlloc < n then .error .makesliceLenOutOfRange
  else if mem.free < n then .error .outOfMemory
  else .ok (List.replicate n 0)

theorem makeBytes_of_holds {mem : Heap} {n : ℕ} (h : mem.Holds n) :
    makeBytes mem n = .ok (List.replicate n 0) := by
  rw [makeBytes, if_neg (Nat.not_lt.2 h.1), if_neg (Nat.not_lt.2 h.2)]

theorem makeBytes_of_not_holds {mem : Heap} {n : ℕ} (h : ¬ mem.Holds n) :
    ∃ p, makeBytes mem n = .error p := by
  by_cases hmax : mem.maxAlloc < n
  · exact ⟨_, if_pos hmax⟩
  · refine ⟨.outOfMemory, ?_⟩
    have hfree : mem.free < n := Nat.lt_of_not_le fun hle => h ⟨Nat.not_lt.1 hmax, hle⟩
    rw [makeBytes, if_neg hmax, if_pos hfree]

theorem makeBytes_eq_ok {mem : Heap} {n : ℕ} {b : List UInt8} :
    makeBytes mem n = .ok b ↔ mem.Holds n ∧ b = List.replicate n 0 := by
  by_cases h : mem.Holds n
  · rw [makeBytes_of_holds h, Except.ok.injEq, and_iff_right h, eq_comm]
  · obtain ⟨p, hp⟩ := makeBytes_of_not_holds h
    simp [hp, h]

/-- `b[i:j]`, for a slice whose capacity is its length. -/
def sliceBytes (b : List UInt8) (i j : ℕ) : Except WirePanic (List UInt8) :=
  if i ≤ j ∧ j ≤ b.length then .ok ((b.drop i).take (j - i)) else .error .sliceOutOfRange

/-- Slicing off the middle of three parts, given by their lengths. -/
theorem sliceBytes_append {u v w : List UInt8} {i j : ℕ} (hi : u.length = i)
    (hj : i + v.length = j) : sliceBytes (u ++ (v ++ w)) i j = .ok v := by
  subst hi hj
  simp [sliceBytes]

/-- `b[i]` -/
def indexBytes (b : List UInt8) (i : ℕ) : Except WirePanic UInt8 :=
  (b[i]?).elim (.error .indexOutOfRange) .ok

/-- What `dst` holds after `copy(dst, src)`. -/
def copyBytes (dst src : List UInt8) : List UInt8 :=
  src.take dst.length ++ dst.drop src.length

/-- `messaging.requestReply` -/
structure RequestReply where
  request : Bool
  key : UInt64
  data : List UInt8
deriving DecidableEq

namespace RequestReply

/-- The value of `var r requestReply`. -/
def zero : RequestReply := ⟨false, 0, []⟩

/-- The bytes that `Pack` writes. -/
def bytes (r : RequestReply) : List UInt8 :=
  putUint64 (UInt64.ofNat r.data.length) ++ putUint64 r.key ++ [if r.request then 1 else 0] ++
    r.data

/-- `(*requestReply).Pack` -/
def pack (mem : Heap) (r : RequestReply) : Except WirePanic (List UInt8) := do
  let _ ← makeBytes mem (rrHeaderLength + r.data.length)
  .ok r.bytes

/-- `(*requestReply).Unpack`. The flag is only ever set, never cleared. -/
def unpack (mem : Heap) (r : RequestReply) (b : List UInt8) : Except WirePanic RequestReply := do
  let dl := getUint64 (← sliceBytes b 0 8)
  let key := getUint64 (← sliceBytes b 8 16)
  let data ← makeBytes mem dl.toNat
  let flag ← indexBytes b 16
  let rest ← sliceBytes b rrHeaderLength b.length
  .ok ⟨if flag = 1 then true else r.request, key, copyBytes data rest⟩

variable {mem : Heap}

/-- `Pack` returns exactly if header and data find room. -/
theorem pack_eq_ok {r : RequestReply} {b : List UInt8} :
    r.pack mem = .ok b ↔ mem.Holds (rrHeaderLength + r.data.length) ∧ b = r.bytes := by
  by_cases h : mem.Holds (rrHeaderLength + r.data.length)
  · simp only [pack, makeBytes_of_holds h, bind, Except.bind, Except.ok.injEq, and_iff_right h]
    exact eq_comm
  · obtain ⟨p, hp⟩ := makeBytes_of_not_holds h
    simp [pack, hp, h, bind, Except.bind]

theorem length_bytes (r : RequestReply) : r.bytes.length = rrHeaderLength + r.data.length := by
  simp [bytes, rrHeaderLength]
  omega

theorem length_copyBytes (dst src : List UInt8) : (copyBytes dst src).length = dst.length := by
  simp only [copyBytes, List.length_append, List.length_take, List.length_drop]
  omega

/-- The length of the data that a header announces. -/
def announces (b : List UInt8) : ℕ := (getUint64 (b.take 8)).toNat

/-- There is a whole header, and memory for what it announces. -/
def HasHeader (mem : Heap) (b : List UInt8) : Prop :=
  rrHeaderLength ≤ b.length ∧ mem.Holds (announces b)

/-- **`Unpack` of any bytes.** It returns exactly if there is a header, and memory for what it
    announces; and then the data has the length that is announced, however many bytes follow. -/
theorem unpack_cases (mem : Heap) (r : RequestReply) (b : List UInt8) :
    (HasHeader mem b ∧ ∃ r', r.unpack mem b = .ok r' ∧ r'.data.length = announces b) ∨
      (¬ HasHeader mem b ∧ ∃ p, r.unpack mem b = .error p) := by
  by_cases hlen : rrHeaderLength ≤ b.length
  · unfold rrHeaderLength at hlen
    have hs₀ : sliceBytes b 0 8 = .ok (b.take 8) := by
      simp [sliceBytes, show 8 ≤ b.length by omega]
    have hs₁ : sliceBytes b 8 16 = .ok ((b.drop 8).take 8) := by
      simp [sliceBytes, show 16 ≤ b.length by omega]
    have hs₂ : sliceBytes b rrHeaderLength b.length = .ok ((b.drop 17).take (b.length - 17)) := by
      simp [sliceBytes, rrHeaderLength, hlen]
    have hflag : indexBytes b 16 = .ok (b[16]) := by
      simp [indexBytes, show 16 < b.length by omega]
    by_cases hmem : mem.Holds (announces b)
    · refine Or.inl ⟨⟨hlen, hmem⟩, ?_⟩
      have hmake := makeBytes_of_holds hmem
      unfold announces at hmake ⊢
      simp only [unpack, hs₀, hs₁, hs₂, hflag, hmake, bind, Except.bind]
      exact ⟨_, rfl, by simp [length_copyBytes]⟩
    · refine Or.inr ⟨fun h => hmem h.2, ?_⟩
      obtain ⟨p, hp⟩ := makeBytes_of_not_holds hmem
      unfold announces at hp
      simp only [unpack, hs₀, hs₁, hp, bind, Except.bind]
      exact ⟨p, rfl⟩
  · refine Or.inr ⟨fun h => hlen h.1, ?_⟩
    unfold rrHeaderLength at hlen
    have hflag : indexBytes b 16 = .error .indexOutOfRange := by
      simp [indexBytes, List.getElem?_eq_none (show b.length ≤ 16 by omega)]
    -- a slice, the length or the flag fails, whichever comes first
    simp only [unpack, bind, Except.bind]
    split
    · exact ⟨_, rfl⟩
    · split
      · exact ⟨_, rfl⟩
      · split
        · exact ⟨_, rfl⟩
        · rw [hflag]
          exact ⟨_, rfl⟩

/-- `Unpack` of a header and as many bytes of data as it announces. -/
theorem unpack_append (r : RequestReply) {dl key data : List UInt8} {flag : UInt8}
    (hdl : dl.length = 8) (hkey : key.length = 8) (hlen : (getUint64 dl).toNat = data.length)
    (hmem : mem.Holds data.length) :
    r.unpack mem (dl ++ key ++ [flag] ++ data)
      = .ok ⟨if flag = 1 then true else r.request, getUint64 key, data⟩ := by
  have hs₀ : sliceBytes (dl ++ key ++ [flag] ++ data) 0 8 = .ok dl := by
    simpa using sliceBytes_append (u := []) (v := dl) (w := key ++ [flag] ++ data) rfl
      (by simpa using hdl)
  have hs₁ : sliceBytes (dl ++ key ++ [flag] ++ data) 8 16 = .ok key := by
    simpa using sliceBytes_append (v := key) (w := [flag] ++ data) hdl
      (by rw [hkey])
  have hs₂ : sliceBytes (dl ++ key ++ [flag] ++ data) rrHeaderLength
      (dl ++ key ++ [flag] ++ data).length = .ok data := by
    simpa using sliceBytes_append (u := dl ++ key ++ [flag]) (v := data) (w := [])
      (i := rrHeaderLength) (by simp [hdl, hkey, rrHeaderLength])
      (by simp [hdl, hkey, rrHeaderLength]; omega)
  have hflag : indexBytes (dl ++ key ++ [flag] ++ data) 16 = .ok flag := by
    simp [indexBytes, List.getElem?_append, hdl, hkey]
  simp only [unpack, hs₀, hs₁, hs₂, hflag, bind, Except.bind, hlen, makeBytes_of_holds hmem]
  simp [copyBytes]

/-- What `Pack` wrote announces its data. -/
theorem announces_bytes {r : RequestReply} (hlt : r.data.length < 2 ^ 63) :
    announces r.bytes = r.data.length := by
  have hdl : (UInt64.ofNat r.data.length).toNat = r.data.length := by
    rw [UInt64.toNat_ofNat', Nat.mod_eq_of_lt (by omega)]
  rw [announces, bytes, List.append_assoc, List.append_assoc, List.take_left' (length_putUint64 _),
    getUint64_putUint64, hdl]

/-- **Round trip.** What `Pack` wrote, `Unpack` reads back into a fresh value, wherever there is
    memory for the data. -/
theorem unpack_bytes {r : RequestReply} (hmem : mem.Holds r.data.length) :
    zero.unpack mem r.bytes = .ok r := by
  have hlt := hmem.lt
  have hlen : (UInt64.ofNat r.data.length).toNat = r.data.length := by
    rw [UInt64.toNat_ofNat', Nat.mod_eq_of_lt (by omega)]
  rw [bytes, unpack_append zero (length_putUint64 _) (length_putUint64 _)
    (by rw [getUint64_putUint64, hlen]) hmem, getUint64_putUint64]
  obtain ⟨request, key, data⟩ := r
  cases request <;> simp [zero]

/-- What `Unpack` returns of what `Pack` wrote is what was packed. -/
theorem eq_of_unpack_bytes {r r' : RequestReply} (hlt : r.data.length < 2 ^ 63)
    (h : zero.unpack mem r.bytes = .ok r') : r' = r := by
  rcases unpack_cases mem zero r.bytes with ⟨⟨_, hmem⟩, _⟩ | ⟨_, p, hp⟩
  · rw [announces_bytes hlt] at hmem
    rw [unpack_bytes hmem, Except.ok.injEq] at h
    exact h.symm
  · rw [hp] at h
    cases h

end RequestReply

end Tunnel.Messaging
