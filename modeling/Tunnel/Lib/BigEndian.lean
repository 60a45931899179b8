import Mathlib.Data.UInt
import Mathlib.Tactic.Ring

set_option autoImplicit false

/-! # Big-endian integers

`binary.BigEndian`: a number as a fixed count of bytes, most significant first. `beBytes n v` writes
the lowest `n` bytes of `v` and `beNat` reads a byte string back as a number; the two are mutually
inverse between the numbers below `256 ^ n` and the byte strings of length `n`. The fixed-width
operations of Go are these at a width of 8. -/

namespace Tunnel.Lib

/-- The lowest `n` bytes of `v`, most significant first. -/
def beBytes : ℕ → ℕ → List UInt8
  | 0, _ => []
  | n + 1, v => UInt8.ofNat (v / 256 ^ n) :: beBytes n v

/-- The number a byte string denotes, most significant byte first. -/
def beNat (bs : List UInt8) : ℕ :=
  bs.foldl (fun acc b => acc * 256 + b.toNat) 0

@[simp] theorem length_beBytes (n v : ℕ) : (beBytes n v).length = n := by
  induction n with
  | zero => rfl
  | succ n ih => simp [beBytes, ih]

theorem beNat_foldl (bs : List UInt8) (acc : ℕ) :
    bs.foldl (fun acc b => acc * 256 + b.toNat) acc = acc * 256 ^ bs.length + beNat bs := by
  induction bs generalizing acc with
  | nil => simp [beNat]
  | cons b rest ih =>
      have hrest : beNat (b :: rest) = b.toNat * 256 ^ rest.length + beNat rest := by
        rw [beNat, List.foldl_cons, ih]
        simp
      rw [List.foldl_cons, ih, hrest, List.length_cons]
      ring

theorem beNat_cons (b : UInt8) (bs : List UInt8) :
    beNat (b :: bs) = b.toNat * 256 ^ bs.length + beNat bs := by
  rw [beNat, List.foldl_cons, beNat_foldl]
  simp

theorem beNat_lt (bs : List UInt8) : beNat bs < 256 ^ bs.length := by
  induction bs with
  | nil => simp [beNat]
  | cons b rest ih =>
      rw [beNat_cons, List.length_cons, pow_succ]
      have hb : b.toNat ≤ 255 := by have := b.toNat_lt; omega
      calc b.toNat * 256 ^ rest.length + beNat rest
          < b.toNat * 256 ^ rest.length + 256 ^ rest.length := by omega
        _ = (b.toNat + 1) * 256 ^ rest.length := by ring
        _ ≤ 256 * 256 ^ rest.length := Nat.mul_le_mul_right _ (by omega)
        _ = 256 ^ rest.length * 256 := by ring

/-- Reading back what was written gives the number, cut to the width. -/
theorem beNat_beBytes (n v : ℕ) : beNat (beBytes n v) = v % 256 ^ n := by
  induction n with
  | zero => simp [beBytes, beNat, Nat.mod_one]
  | succ n ih =>
      rw [beBytes, beNat_cons, length_beBytes, ih, Nat.mod_pow_succ]
      simp only [UInt8.toNat_ofNat']
      ring

/-- What lies above the width is not written. -/
theorem beBytes_add_mul (n k v : ℕ) : beBytes n (k * 256 ^ n + v) = beBytes n v := by
  induction n generalizing k with
  | zero => rfl
  | succ n ih =>
      have hshift : k * 256 ^ (n + 1) + v = (k * 256) * 256 ^ n + v := by ring
      have hdiv : (k * 256 * 256 ^ n + v) / 256 ^ n = k * 256 + v / 256 ^ n := by
        rw [Nat.add_comm, Nat.add_mul_div_right _ _ (Nat.pow_pos (by decide)), Nat.add_comm]
      have hbyte : UInt8.ofNat (k * 256 + v / 256 ^ n) = UInt8.ofNat (v / 256 ^ n) := by
        apply UInt8.toNat_inj.1
        simp only [UInt8.toNat_ofNat']
        omega
      rw [beBytes, beBytes, hshift, hdiv, hbyte, ih]

/-- Writing back what was read gives the bytes. -/
theorem beBytes_beNat (bs : List UInt8) : beBytes bs.length (beNat bs) = bs := by
  induction bs with
  | nil => rfl
  | cons b rest ih =>
      have hhead : (b.toNat * 256 ^ rest.length + beNat rest) / 256 ^ rest.length = b.toNat := by
        rw [Nat.add_comm, Nat.add_mul_div_right _ _ (Nat.pow_pos (by decide)),
          Nat.div_eq_of_lt (beNat_lt rest), Nat.zero_add]
      rw [List.length_cons, beBytes, beNat_cons, hhead, beBytes_add_mul, ih]
      simp

/-! ## 64-bit words -/

/-- `binary.BigEndian.PutUint64`: the eight bytes written. -/
def putUint64 (x : UInt64) : List UInt8 := beBytes 8 x.toNat

/-- `binary.BigEndian.Uint64` of an eight-byte slice. -/
def getUint64 (bs : List UInt8) : UInt64 := UInt64.ofNat (beNat bs)

@[simp] theorem length_putUint64 (x : UInt64) : (putUint64 x).length = 8 := length_beBytes 8 _

@[simp] theorem getUint64_putUint64 (x : UInt64) : getUint64 (putUint64 x) = x := by
  apply UInt64.toNat_inj.1
  rw [getUint64, putUint64, beNat_beBytes, UInt64.toNat_ofNat']
  have := x.toNat_lt
  omega

theorem putUint64_getUint64 (bs : List UInt8) (h : bs.length = 8) :
    putUint64 (getUint64 bs) = bs := by
  have hlt : beNat bs < 2 ^ 64 := by
    have := beNat_lt bs
    rw [h] at this
    omega
  rw [putUint64, getUint64, UInt64.toNat_ofNat', Nat.mod_eq_of_lt hlt, ← h, beBytes_beNat]

/-! ## 32-bit words -/

/-- `binary.BigEndian.PutUint32`: the four bytes written. -/
def putUint32 (x : UInt32) : List UInt8 := beBytes 4 x.toNat

/-- `binary.BigEndian.Uint32` of a four-byte slice. -/
def getUint32 (bs : List UInt8) : UInt32 := UInt32.ofNat (beNat bs)

@[simp] theorem length_putUint32 (x : UInt32) : (putUint32 x).length = 4 := length_beBytes 4 _

@[simp] theorem getUint32_putUint32 (x : UInt32) : getUint32 (putUint32 x) = x := by
  apply UInt32.toNat_inj.1
  rw [getUint32, putUint32, beNat_beBytes, UInt32.toNat_ofNat']
  have := x.toNat_lt
  omega

theorem putUint32_getUint32 (bs : List UInt8) (h : bs.length = 4) :
    putUint32 (getUint32 bs) = bs := by
  have hlt : beNat bs < 2 ^ 32 := by
    have := beNat_lt bs
    rw [h] at this
    omega
  rw [putUint32, getUint32, UInt32.toNat_ofNat', Nat.mod_eq_of_lt hlt, ← h, beBytes_beNat]

end Tunnel.Lib
