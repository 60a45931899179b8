import Mathlib.Data.List.Basic

set_option autoImplicit false

/-! # Bounded channels

A Go channel made with `make(chan α, cap)`: a first-in first-out buffer that never holds more than
`cap` values. The bound is a field of the type, so a state with an overfull channel cannot be
written down. A send on a full channel and a receive on an empty one are not enabled (`none`): the
goroutine that attempts them stays where it is. -/

namespace Tunnel.Lib

/-- A buffered channel of capacity `cap`, oldest value first. -/
structure Chan (α : Type) (cap : ℕ) where
  buf : List α
  bounded : buf.length ≤ cap
deriving DecidableEq

namespace Chan

variable {α : Type} {cap : ℕ}

/-- A freshly made channel. -/
def empty : Chan α cap := ⟨[], Nat.zero_le cap⟩

/-- The buffer is full: a send blocks. -/
def IsFull (c : Chan α cap) : Prop := c.buf.length = cap

instance (c : Chan α cap) : Decidable c.IsFull := inferInstanceAs (Decidable (_ = _))

/-- The buffer is empty: a receive blocks. -/
def IsEmpty (c : Chan α cap) : Prop := c.buf = []

instance (c : Chan α cap) : Decidable c.IsEmpty :=
  decidable_of_iff (c.buf.isEmpty = true) List.isEmpty_iff

/-- `c <- x`; `none` while the buffer is full. -/
def send (c : Chan α cap) (x : α) : Option (Chan α cap) :=
  if h : c.buf.length < cap then
    some ⟨c.buf ++ [x], by rw [List.length_append]; exact h⟩
  else none

/-- `<-c`; `none` while the buffer is empty. -/
def recv (c : Chan α cap) : Option (α × Chan α cap) :=
  match h : c.buf with
  | [] => none
  | x :: rest => some (x, ⟨rest, by
      have := c.bounded
      rw [h, List.length_cons] at this
      omega⟩)

@[simp] theorem empty_buf : (empty : Chan α cap).buf = [] := rfl

@[simp] theorem isEmpty_empty : (empty : Chan α cap).IsEmpty := rfl

theorem not_isFull_iff {c : Chan α cap} : ¬ c.IsFull ↔ c.buf.length < cap := by
  have := c.bounded
  simp only [IsFull]
  omega

/-- A send succeeds exactly when there is room, and then appends. -/
theorem send_eq_some {c c' : Chan α cap} {x : α} :
    c.send x = some c' ↔ ¬ c.IsFull ∧ c'.buf = c.buf ++ [x] := by
  rw [not_isFull_iff, send]
  split
  · next h =>
      cases c'
      simp only [Option.some.injEq, mk.injEq, h, true_and]
      exact eq_comm
  · next h => simp [h]

/-- A receive succeeds exactly when there is a value, and takes the oldest. -/
theorem recv_eq_some {c c' : Chan α cap} {x : α} :
    c.recv = some (x, c') ↔ c.buf = x :: c'.buf := by
  obtain ⟨buf, hb⟩ := c
  obtain ⟨buf', hb'⟩ := c'
  cases buf with
  | nil => simp [recv]
  | cons y rest => simp [recv]

/-- A send blocks exactly when there is no room. -/
theorem send_eq_none {c : Chan α cap} {x : α} : c.send x = none ↔ c.IsFull := by
  rw [← not_not (a := c.IsFull), not_isFull_iff, send]
  split
  · next h => simp [h]
  · next h => simp [h]

/-- A receive blocks exactly when there is no value. -/
theorem recv_eq_none {c : Chan α cap} : c.recv = none ↔ c.buf = [] := by
  obtain ⟨buf, hb⟩ := c
  cases buf with
  | nil => simp [recv]
  | cons y rest => simp [recv]

/-- After a send the buffer is not empty. -/
theorem not_isEmpty_of_send {c c' : Chan α cap} {x : α} (h : c.send x = some c') :
    ¬ c'.IsEmpty := by
  simp [IsEmpty, (send_eq_some.1 h).2]

end Chan

/-! ## Signal channels

`chan struct{}` of capacity one carries no data: it is either empty or full. -/

/-- `make(chan struct{}, 1)`. -/
abbrev Signal := Chan Unit 1

namespace Signal

theorem isEmpty_or_isFull (c : Signal) : c.IsEmpty ∨ c.IsFull := by
  obtain ⟨buf, hb⟩ := c
  cases buf with
  | nil => exact Or.inl rfl
  | cons u rest =>
      refine Or.inr ?_
      simp only [Chan.IsFull, List.length_cons] at hb ⊢
      omega

theorem not_isFull_iff_isEmpty {c : Signal} : ¬ c.IsFull ↔ c.IsEmpty := by
  rw [Chan.not_isFull_iff, Chan.IsEmpty, ← List.length_eq_zero_iff]
  omega

/-- The send of a signal fills its channel. -/
theorem isFull_of_send {c c' : Signal} {u : Unit} (h : c.send u = some c') : c'.IsFull := by
  rcases c'.isEmpty_or_isFull with he | hf
  · exact absurd he (Chan.not_isEmpty_of_send h)
  · exact hf

end Signal

end Tunnel.Lib
