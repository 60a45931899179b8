import Mathlib.Algebra.Ring.Nat
import Mathlib.Data.List.Perm.Basic
import Mathlib.Data.Set.Defs
import Mathlib.Logic.Function.Iterate

set_option autoImplicit false

/-! # Linear registers

A register takes in one word after the other: it adds the word to its state by exclusive or and
applies a map `M` that respects exclusive or. Checksums of the CRC kind are such registers.

`absorbAll_perm_iff` says when the order of the words does not matter: exactly if `M` leaves the
difference of any two of them alone. Which words that are is found, if `M` is a power of two of
steps `f`, from what `x ↦ f x ^^^ x` does alone: `iterate_xor_self` and `mem_of_iterate_mem`.

Words are any type with an associative and commutative exclusive or that is its own inverse. -/

namespace Tunnel.Lib

variable {V : Type}

section Words

variable [XorOp V]

/-- A map that respects exclusive or. -/
def Linear (f : V → V) : Prop := ∀ a b, f (a ^^^ b) = f a ^^^ f b

theorem Linear.iterate {f : V → V} (hf : Linear f) (n : ℕ) : Linear f^[n] := by
  induction n with
  | zero => exact fun _ _ => rfl
  | succ n ih =>
      intro a b
      rw [Function.iterate_succ_apply, hf, ih, Function.iterate_succ_apply,
        Function.iterate_succ_apply]

/-- The register `M` takes in the word `w`. -/
def absorb (M : V → V) (s w : V) : V := M (s ^^^ w)

/-- The register takes in the words in this order. -/
def absorbAll (M : V → V) (s : V) (ws : List V) : V := ws.foldl (absorb M) s

variable [Std.Associative (fun a b : V => a ^^^ b)]
variable (hcancel : ∀ a b : V, a ^^^ (a ^^^ b) = b)

include hcancel

/-- `2 ^ k` times "step and add" is "`2 ^ k` steps, and add". -/
theorem iterate_xor_self {f : V → V} (hf : Linear f) (k : ℕ) (x : V) :
    (fun y => f y ^^^ y)^[2 ^ k] x = f^[2 ^ k] x ^^^ x := by
  induction k generalizing x with
  | zero => rfl
  | succ k ih =>
      have hassoc : ∀ a b c : V, a ^^^ b ^^^ c = a ^^^ (b ^^^ c) := Std.Associative.assoc
      rw [pow_succ, Nat.mul_two, Function.iterate_add_apply, Function.iterate_add_apply, ih, ih,
        hf.iterate, hassoc, hcancel]

variable [Std.Commutative (fun a b : V => a ^^^ b)]

theorem xor_right_inj (t : V) : Function.Injective (fun x : V => x ^^^ t) := by
  intro x y h
  have hx : ∀ z : V, t ^^^ (z ^^^ t) = z := by
    intro z
    calc t ^^^ (z ^^^ t) = t ^^^ (t ^^^ z) := by ac_rfl
      _ = z := hcancel t z
  rw [← hx x, ← hx y]
  exact congrArg (t ^^^ ·) h

/-- Two words in a row can be exchanged exactly if their difference is left alone. -/
theorem absorb_swap_iff {M : V → V} (hlin : Linear M) (hM : Function.Injective M) (s a b : V) :
    absorb M (absorb M s a) b = absorb M (absorb M s b) a ↔ M (a ^^^ b) = a ^^^ b := by
  -- both sides, with the same word added
  have hleft : (M s ^^^ M a ^^^ b) ^^^ (M s ^^^ b ^^^ M b) = M a ^^^ M b := by
    calc (M s ^^^ M a ^^^ b) ^^^ (M s ^^^ b ^^^ M b)
        = M s ^^^ (M s ^^^ (b ^^^ (b ^^^ (M a ^^^ M b)))) := by ac_rfl
      _ = M a ^^^ M b := by rw [hcancel, hcancel]
  have hright : (M s ^^^ M b ^^^ a) ^^^ (M s ^^^ b ^^^ M b) = a ^^^ b := by
    calc (M s ^^^ M b ^^^ a) ^^^ (M s ^^^ b ^^^ M b)
        = M s ^^^ (M s ^^^ (M b ^^^ (M b ^^^ (a ^^^ b)))) := by ac_rfl
      _ = a ^^^ b := by rw [hcancel, hcancel]
  simp only [absorb]
  rw [hM.eq_iff, hlin s a, hlin s b, hlin a b,
    ← (xor_right_inj hcancel (M s ^^^ b ^^^ M b)).eq_iff, hleft, hright]

theorem absorbAll_injective {M : V → V} (hM : Function.Injective M) (ws : List V) :
    Function.Injective (fun s => absorbAll M s ws) := by
  induction ws with
  | nil => exact fun _ _ h => h
  | cons w ws ih =>
      intro s t h
      exact xor_right_inj hcancel w (hM (ih h))

/-- **When the order does not matter.** -/
theorem absorbAll_perm_iff [DecidableEq V] {M : V → V} (hlin : Linear M)
    (hM : Function.Injective M) (s : V) (ws : List V) :
    (∀ ws', ws'.Perm ws → absorbAll M s ws' = absorbAll M s ws) ↔
      ∀ a ∈ ws, ∀ b ∈ ws, a ≠ b → M (a ^^^ b) = a ^^^ b := by
  constructor
  · intro h a ha b hb hab
    -- the two at the front, in both orders
    have hb' : b ∈ ws.erase a := (List.mem_erase_of_ne (Ne.symm hab)).2 hb
    have hperm : (a :: b :: (ws.erase a).erase b).Perm ws :=
      ((List.perm_cons_erase hb').symm.cons a).trans (List.perm_cons_erase ha).symm
    have hswap : absorbAll M s (a :: b :: (ws.erase a).erase b) =
        absorbAll M s (b :: a :: (ws.erase a).erase b) :=
      (h _ hperm).trans (h _ ((List.Perm.swap a b _).trans hperm)).symm
    exact (absorb_swap_iff hcancel hlin hM s a b).1 (absorbAll_injective hcancel hM _ hswap)
  · intro h ws' hperm
    refine hperm.foldl_eq' (fun a ha b hb t => ?_) s
    by_cases hab : a = b
    · rw [hab]
    · have hfixed := h a (hperm.subset ha) b (hperm.subset hb) hab
      exact (absorb_swap_iff hcancel hlin hM t a b).2 hfixed

end Words

/-- A set that contains what is mapped into it contains what is mapped into it by any number of
    steps. -/
theorem mem_of_iterate_mem {g : V → V} {K : Set V} (hK : ∀ x, g x ∈ K → x ∈ K) (n : ℕ) {x : V}
    (h : g^[n] x ∈ K) : x ∈ K := by
  induction n generalizing x with
  | zero => exact h
  | succ n ih => exact hK x (ih h)

end Tunnel.Lib
