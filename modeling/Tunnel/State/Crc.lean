import Mathlib.Data.Nat.Bitwise
import Tunnel.Lib.Register
import Tunnel.State.PeerGraph

set_option autoImplicit false

/-! # The checksum as a linear register (`hash/crc64` with the ECMA table)

The checksum is computed a byte at a time from a table, and the table is made of single shifts. Both
are steps of one linear register over words with exclusive or: a byte is taken in by eight shifts,
and the eight bytes of an ID by sixty-four, all at once if the ID is read with its bytes in the
other order (`foldl_crcByte`).

Sixty-four shifts leave just four words alone (`fixed_iff`). A shift, followed by an exclusive or
with the word itself, is what a Gray code does, up to the polynomial; and a Gray code is undone by
doing it sixty-three times more, so the words that are taken to a given one can be written down. -/

namespace Tunnel.State

open Tunnel.Lib

theorem xor_cancel (a b : UInt64) : a ^^^ (a ^^^ b) = b := by
  rw [← UInt64.xor_assoc, UInt64.xor_self, UInt64.zero_xor]

/-! ## One shift -/

theorem and_one_iff (x : UInt64) : x &&& 1 = 1 ↔ x.toNat % 2 = 1 := by
  rw [← UInt64.toNat_inj, UInt64.toNat_and]
  simp [Nat.and_one_is_mod]

theorem toNat_shiftRight_one (x : UInt64) : (x >>> 1).toNat = x.toNat / 2 := by
  rw [UInt64.toNat_shiftRight]
  exact Nat.shiftRight_eq_div_pow _ 1

theorem crcShift_of_even {x : UInt64} (h : x.toNat % 2 = 0) : crcShift x = x >>> 1 := by
  rw [crcShift, if_neg]
  rw [and_one_iff]
  omega

/-- `crc64.ECMA`, the polynomial. -/
def ecma : UInt64 := 0xC96C5795D7870F42

theorem crcShift_of_odd {x : UInt64} (h : x.toNat % 2 = 1) :
    crcShift x = (x >>> 1) ^^^ ecma := by
  rw [crcShift, if_pos ((and_one_iff x).2 h), ecma]

theorem crcShift_linear : Linear crcShift := by
  intro a b
  have hparity : (a ^^^ b).toNat % 2 = (a.toNat + b.toNat) % 2 := by
    rw [UInt64.toNat_xor, Nat.xor_mod_two_eq]
  rcases Nat.mod_two_eq_zero_or_one a.toNat with ha | ha <;>
    rcases Nat.mod_two_eq_zero_or_one b.toNat with hb | hb
  · rw [crcShift_of_even ha, crcShift_of_even hb, crcShift_of_even (by omega),
      UInt64.shiftRight_xor]
  · rw [crcShift_of_even ha, crcShift_of_odd hb, crcShift_of_odd (by omega),
      UInt64.shiftRight_xor, UInt64.xor_assoc]
  · rw [crcShift_of_odd ha, crcShift_of_even hb, crcShift_of_odd (by omega),
      UInt64.shiftRight_xor]
    ac_rfl
  · rw [crcShift_of_odd ha, crcShift_of_odd hb, crcShift_of_even (by omega),
      UInt64.shiftRight_xor]
    calc a >>> 1 ^^^ b >>> 1
        = ecma ^^^ (ecma ^^^ (a >>> 1 ^^^ b >>> 1)) :=
          (xor_cancel _ _).symm
      _ = (a >>> 1 ^^^ ecma) ^^^ (b >>> 1 ^^^ ecma) := by ac_rfl

/-- The polynomial has its highest bit set and a word that was moved down does not, so words that
    are shifted to the same one agree in the lowest bit, and then in the others. -/
theorem crcShift_injective : Function.Injective crcShift := by
  have hzero : ∀ x, crcShift x = 0 → x = 0 := by
    intro x hx
    apply UInt64.toNat_inj.1
    rcases Nat.mod_two_eq_zero_or_one x.toNat with heven | hodd
    · rw [crcShift_of_even heven] at hx
      have hhalf : (x >>> 1).toNat = 0 := by rw [hx]; rfl
      rw [toNat_shiftRight_one] at hhalf
      show x.toNat = 0
      omega
    · rw [crcShift_of_odd hodd, UInt64.xor_eq_zero_iff] at hx
      have hhalf : (x >>> 1).toNat = 14514072000185962306 := by rw [hx]; rfl
      rw [toNat_shiftRight_one] at hhalf
      have hlt := x.toNat_lt
      omega
  intro x y hxy
  have hdiff : crcShift (x ^^^ y) = 0 := by rw [crcShift_linear, hxy, UInt64.xor_self]
  exact UInt64.xor_eq_zero_iff.1 (hzero _ hdiff)

/-! ## A byte, and an ID -/

/-- A word whose lowest bits are clear only moves down. -/
theorem toNat_crcShift_iterate (k : ℕ) {y : UInt64} (hy : y.toNat % 2 ^ k = 0) :
    (crcShift^[k] y).toNat = y.toNat / 2 ^ k := by
  induction k with
  | zero => simp
  | succ k ih =>
      have hdvd : 2 ^ (k + 1) ∣ y.toNat := Nat.dvd_of_mod_eq_zero hy
      have hlow : (crcShift^[k] y).toNat = y.toNat / 2 ^ k :=
        ih (Nat.mod_eq_zero_of_dvd (dvd_trans (pow_dvd_pow 2 (Nat.le_succ k)) hdvd))
      have heven : (crcShift^[k] y).toNat % 2 = 0 := by
        obtain ⟨q, hq⟩ := hdvd
        rw [hlow, hq, pow_succ, Nat.mul_assoc, Nat.mul_div_cancel_left _ (Nat.two_pow_pos k)]
        exact Nat.mul_mod_right 2 q
      rw [Function.iterate_succ_apply', crcShift_of_even heven, toNat_shiftRight_one, hlow,
        Nat.div_div_eq_div_mul, ← pow_succ]

/-- Eight shifts: the entry of the table for the lowest byte, and the rest moved down. -/
theorem crcShift_eight (x : UInt64) : crcShift^[8] x = crcTable x.toUInt8 ^^^ (x >>> 8) := by
  have hhigh : (x ^^^ x.toUInt8.toUInt64).toNat = x.toNat ^^^ (x.toNat % 2 ^ 8) := by
    rw [UInt64.toNat_xor]
    simp
  have hclear : (x ^^^ x.toUInt8.toUInt64).toNat % 2 ^ 8 = 0 := by
    rw [hhigh, Nat.xor_mod_two_pow, Nat.mod_mod, Nat.xor_self]
  have hmoved : crcShift^[8] (x ^^^ x.toUInt8.toUInt64) = x >>> 8 := by
    apply UInt64.toNat_inj.1
    rw [toNat_crcShift_iterate 8 hclear, hhigh, Nat.xor_div_two_pow, UInt64.toNat_shiftRight,
      Nat.div_eq_of_lt (Nat.mod_lt _ (by decide)), Nat.xor_zero]
    exact (Nat.shiftRight_eq_div_pow _ _).symm
  have hsplit : x = x.toUInt8.toUInt64 ^^^ (x ^^^ x.toUInt8.toUInt64) := by
    rw [UInt64.xor_comm x, ← UInt64.xor_assoc, UInt64.xor_self, UInt64.zero_xor]
  calc crcShift^[8] x
      = crcShift^[8] (x.toUInt8.toUInt64 ^^^ (x ^^^ x.toUInt8.toUInt64)) := by rw [← hsplit]
    _ = crcTable x.toUInt8 ^^^ (x >>> 8) := by rw [crcShift_linear.iterate 8, hmoved]; rfl

/-- A byte is taken in by eight shifts. -/
theorem crcByte_eq (crc : UInt64) (b : UInt8) :
    crcTable (crc.toUInt8 ^^^ b) ^^^ (crc >>> 8) = crcShift^[8] (crc ^^^ b.toUInt64) := by
  have hb : b.toUInt64 >>> 8 = 0 := by
    apply UInt64.toNat_inj.1
    rw [UInt64.toNat_shiftRight, Nat.shiftRight_eq_div_pow]
    exact Nat.div_eq_of_lt (by simpa using b.toNat_lt)
  rw [crcShift_eight, UInt64.toUInt8_xor, UInt8.toUInt8_toUInt64, UInt64.shiftRight_xor, hb,
    UInt64.xor_zero]

/-- The bytes as a number, the first one least significant. -/
theorem toNat_getUint64_reverse_cons (b : UInt8) {bs : List UInt8} (h : bs.length ≤ 7) :
    (getUint64 (b :: bs).reverse).toNat = (getUint64 bs.reverse).toNat * 256 + b.toNat := by
  have hrest : beNat bs.reverse < 256 ^ 7 :=
    (beNat_lt bs.reverse).trans_le (Nat.pow_le_pow_right (by decide) (by simpa using h))
  have hcons : beNat (b :: bs).reverse = beNat bs.reverse * 256 + b.toNat := by
    rw [List.reverse_cons, beNat, List.foldl_append]
    rfl
  have hb := b.toNat_lt
  simp only [getUint64, UInt64.toNat_ofNat', hcons]
  omega

/-- The bytes of at most one word are taken in all at once. -/
theorem foldl_crcByte (bs : List UInt8) (h : bs.length ≤ 8) (crc : UInt64) :
    bs.foldl (fun (crc : UInt64) (b : UInt8) => crcTable (crc.toUInt8 ^^^ b) ^^^ (crc >>> 8)) crc =
      crcShift^[8 * bs.length] (crc ^^^ getUint64 bs.reverse) := by
  induction bs generalizing crc with
  | nil => exact UInt64.xor_zero.symm
  | cons b bs ih =>
      have hlen : bs.length ≤ 7 := Nat.le_of_succ_le_succ h
      have hword := toNat_getUint64_reverse_cons b hlen
      have hlow : (getUint64 (b :: bs).reverse).toUInt8 = b := by
        apply UInt8.toNat_inj.1
        have hb := b.toNat_lt
        rw [UInt64.toNat_toUInt8, hword]
        omega
      have hhigh : getUint64 (b :: bs).reverse >>> 8 = getUint64 bs.reverse := by
        apply UInt64.toNat_inj.1
        have hb := b.toNat_lt
        rw [UInt64.toNat_shiftRight, hword]
        show (_ >>> 8) = _
        rw [Nat.shiftRight_eq_div_pow]
        omega
      have hstep : crcShift^[8] (getUint64 (b :: bs).reverse) =
          crcShift^[8] b.toUInt64 ^^^ getUint64 bs.reverse := by
        rw [crcShift_eight, hlow, hhigh]
        rfl
      rw [List.foldl_cons, ih (by omega), crcByte_eq, List.length_cons, Nat.mul_succ,
        Function.iterate_add_apply, crcShift_linear.iterate 8 crc, crcShift_linear.iterate 8 crc,
        hstep, UInt64.xor_assoc]

/-- An ID with its bytes in the other order. -/
def reverseBytes (x : UInt64) : UInt64 := getUint64 (putUint64 x).reverse

/-- **The checksum of a list of IDs** is what the register has taken in, complemented. -/
theorem crc64_eq (ids : List UInt64) :
    crc64 (ids.flatMap putUint64) =
      ~~~ absorbAll crcShift^[64] (~~~ 0) (ids.map reverseBytes) := by
  have hfold : ∀ crc : UInt64,
      (ids.flatMap putUint64).foldl
        (fun (crc : UInt64) (b : UInt8) => crcTable (crc.toUInt8 ^^^ b) ^^^ (crc >>> 8)) crc =
      absorbAll crcShift^[64] crc (ids.map reverseBytes) := by
    induction ids with
    | nil => intro crc; rfl
    | cons x ids ih =>
        intro crc
        have hlen : (putUint64 x).length = 8 := length_beBytes 8 _
        rw [List.flatMap_cons, List.foldl_append, foldl_crcByte _ hlen.le, hlen, ih]
        rfl
  rw [crc64, hfold]

/-! ## Which words are fixed -/

/-- The Gray code of a word. -/
def gray (x : UInt64) : UInt64 := (x >>> 1) ^^^ x

theorem toNat_shiftRight_iterate (n : ℕ) (x : UInt64) :
    ((fun y : UInt64 => y >>> 1)^[n] x).toNat = x.toNat / 2 ^ n := by
  induction n with
  | zero => simp
  | succ n ih =>
      rw [Function.iterate_succ_apply', toNat_shiftRight_one, ih, Nat.div_div_eq_div_mul,
        ← pow_succ]

/-- Sixty-three more rounds undo a Gray code. -/
theorem gray_iterate_gray (x : UInt64) : gray^[63] (gray x) = x := by
  have hlin : Linear (fun y : UInt64 => y >>> 1) := fun _ _ => UInt64.shiftRight_xor
  have hgone : (fun y : UInt64 => y >>> 1)^[2 ^ 6] x = 0 := by
    apply UInt64.toNat_inj.1
    rw [toNat_shiftRight_iterate]
    exact Nat.div_eq_of_lt x.toNat_lt
  have hround : gray^[2 ^ 6] x = (fun y : UInt64 => y >>> 1)^[2 ^ 6] x ^^^ x :=
    iterate_xor_self xor_cancel hlin 6 x
  rw [hgone, UInt64.zero_xor] at hround
  exact hround

/-- What is taken to `c` by a shift and an exclusive or with itself. -/
theorem eq_of_crcShift_xor {x c : UInt64} (h : crcShift x ^^^ x = c) :
    (x = gray^[63] c ∧ x.toNat % 2 = 0) ∨
      (x = gray^[63] (c ^^^ ecma) ∧ x.toNat % 2 = 1) := by
  rcases Nat.mod_two_eq_zero_or_one x.toNat with heven | hodd
  · rw [crcShift_of_even heven] at h
    have hgray : gray x = c := h
    exact Or.inl ⟨by rw [← hgray, gray_iterate_gray], heven⟩
  · rw [crcShift_of_odd hodd] at h
    have hgray : gray x = c ^^^ ecma := by
      calc gray x = ecma ^^^ (ecma ^^^ gray x) :=
            (xor_cancel _ _).symm
        _ = (x >>> 1 ^^^ ecma ^^^ x) ^^^ ecma := by
            rw [gray]
            ac_rfl
        _ = c ^^^ ecma := by rw [h]
    exact Or.inr ⟨by rw [← hgray, gray_iterate_gray], hodd⟩

/-- The words that sixty-four shifts leave alone. -/
def fixedWords : List UInt64 := [0, 0x8E4865196505F583, 0xF4704611B9F95902, 0x7A382308DCFCAC81]

theorem mem_fixedWords_of_crcShift_xor {x : UInt64} (h : crcShift x ^^^ x ∈ fixedWords) :
    x ∈ fixedWords := by
  have hback : ∀ c ∈ fixedWords,
      ((gray^[63] c).toNat % 2 = 0 → gray^[63] c ∈ fixedWords) ∧
      ((gray^[63] (c ^^^ ecma)).toNat % 2 = 1 →
        gray^[63] (c ^^^ ecma) ∈ fixedWords) := by
    decide +kernel
  rcases eq_of_crcShift_xor (x := x) rfl with ⟨hx, heven⟩ | ⟨hx, hodd⟩
  · rw [hx] at heven ⊢
    exact (hback _ h).1 heven
  · rw [hx] at hodd ⊢
    exact (hback _ h).2 hodd

theorem fixed_iff (x : UInt64) : crcShift^[64] x = x ↔ x ∈ fixedWords := by
  constructor
  · intro h
    have hzero : (fun y => crcShift y ^^^ y)^[2 ^ 6] x = 0 := by
      have hround : (fun y => crcShift y ^^^ y)^[2 ^ 6] x = crcShift^[64] x ^^^ x :=
        iterate_xor_self xor_cancel crcShift_linear 6 x
      rw [hround, h, UInt64.xor_self]
    refine mem_of_iterate_mem (K := { y | y ∈ fixedWords })
      (fun y hy => mem_fixedWords_of_crcShift_xor hy) (2 ^ 6) (x := x) ?_
    rw [hzero]
    exact List.mem_cons_self
  · intro h
    have hall : ∀ y ∈ fixedWords, crcShift^[64] y = y := by decide +kernel
    exact hall x h

end Tunnel.State
