import Mathlib.Algebra.BigOperators.Group.List.Basic
import Mathlib.Data.List.Basic
import Mathlib.Tactic.Tauto

set_option autoImplicit false

/-! # Pools of goroutines

Any number of goroutines running the same code are a list of their local states; the `i`-th one
moves from `a` to `b` by `l.set i b`. These are the rules for what such a move does to a property of
all of them, of some of them, to the number with a property, and to a sum over all of them. The last
two are stated additively, without subtraction, so that they rewrite an invariant directly. -/

namespace Tunnel.Lib

variable {α : Type} {l : List α} {i : ℕ} {a : α}

theorem forall_mem_set {P : α → Prop} (hl : ∀ c ∈ l, P c) {b : α} (hb : P b) :
    ∀ c ∈ l.set i b, P c := by
  intro c hc
  rcases List.mem_or_eq_of_mem_set hc with h | h
  · exact hl c h
  · exact h ▸ hb

theorem exists_mem_set {P : α → Prop} (ha : l[i]? = some a) {b : α} (hl : ∃ c ∈ l, P c)
    (hab : P a → P b) : ∃ c ∈ l.set i b, P c := by
  obtain ⟨c, hc, hP⟩ := hl
  obtain ⟨j, hj⟩ := List.getElem?_of_mem hc
  by_cases hij : i = j
  · subst hij
    have hca : c = a := by rw [hj] at ha; exact Option.some.inj ha
    have hi : i < l.length := (List.getElem?_eq_some_iff.1 ha).1
    exact ⟨b, List.mem_set hi b, hab (hca ▸ hP)⟩
  · have hj' : (l.set i b)[j]? = some c := by rw [List.getElem?_set_ne hij, hj]
    exact ⟨c, List.mem_of_getElem? hj', hP⟩

/-- What holds of the other goroutines under their numbers, and of the one that moved, holds of
    all. -/
theorem forall_getElem?_set {P : ℕ → α → Prop} (hl : ∀ j c, i ≠ j → l[j]? = some c → P j c) {b : α}
    (hb : P i b) : ∀ j c, (l.set i b)[j]? = some c → P j c := by
  intro j c hc
  rw [List.getElem?_set] at hc
  split at hc
  · next hij =>
      split at hc
      · exact Option.some.inj hc ▸ hij ▸ hb
      · cases hc
  · next hij => exact hl j c hij hc

theorem forall_getElem?_concat {P : ℕ → α → Prop} (hl : ∀ j c, l[j]? = some c → P j c) {b : α}
    (hb : P l.length b) : ∀ j c, (l ++ [b])[j]? = some c → P j c := by
  intro j c hc
  rw [List.getElem?_append] at hc
  split at hc
  · exact hl j c hc
  · next hj =>
      obtain ⟨hlt, hget⟩ := List.getElem?_eq_some_iff.1 hc
      simp only [List.length_singleton] at hlt
      obtain rfl : j = l.length := by omega
      simp only [Nat.sub_self, List.getElem_cons_zero] at hget
      exact hget ▸ hb

/-- What is read off the goroutine with a given number stays the same when one moves and keeps
    it. -/
theorem getElem?_bind_set {β : Type} {f : α → Option β} (ha : l[i]? = some a) {b : α}
    (hf : f b = f a) (j : ℕ) : (l.set i b)[j]?.bind f = l[j]?.bind f := by
  by_cases hij : i = j
  · subst hij
    rw [List.getElem?_set_self (List.getElem?_eq_some_iff.1 ha).1, ha]
    exact hf
  · rw [List.getElem?_set_ne hij]

theorem getElem?_set_of_some (ha : l[i]? = some a) (b : α) (j : ℕ) :
    (l.set i b)[j]? = if i = j then some b else l[j]? := by
  rw [List.getElem?_set]
  simp only [(List.getElem?_eq_some_iff.1 ha).1, if_true]

theorem getElem?_concat (l : List α) (b : α) (j : ℕ) :
    (l ++ [b])[j]? = if j = l.length then some b else l[j]? := by
  by_cases hj : j = l.length
  · rw [if_pos hj, hj, List.getElem?_concat_length]
  · rw [if_neg hj]
    by_cases hlt : j < l.length
    · rw [List.getElem?_append_left hlt]
    · rw [List.getElem?_eq_none (by simp; omega), List.getElem?_eq_none (by omega)]

theorem getElem?_append_of_some {j : ℕ} {c : α} (h : l[j]? = some c) (l' : List α) :
    (l ++ l')[j]? = some c := by
  rw [List.getElem?_append_left (List.getElem?_eq_some_iff.1 h).1, h]

theorem getElem?_bind_append {β : Type} {f : α → Option β} {y : β} {j : ℕ}
    (h : l[j]?.bind f = some y) (l' : List α) : (l ++ l')[j]?.bind f = some y := by
  obtain ⟨c, hc, hf⟩ := Option.bind_eq_some_iff.1 h
  rw [getElem?_append_of_some hc]
  exact hf

/-- The state a goroutine moved to is in the pool. -/
theorem mem_set_self (ha : l[i]? = some a) (b : α) : b ∈ l.set i b :=
  List.mem_set (List.getElem?_eq_some_iff.1 ha).1 b

/-- What stands in the pool is still there when one goroutine has ended, or is the one that has. -/
theorem mem_eraseIdx_or_eq (ha : l[i]? = some a) {b : α} (hb : b ∈ l) :
    b ∈ l.eraseIdx i ∨ b = a := by
  obtain ⟨j, hj⟩ := List.getElem?_of_mem hb
  by_cases hij : j = i
  · subst hij
    rw [ha, Option.some.injEq] at hj
    exact Or.inr hj.symm
  · exact Or.inl (List.mem_eraseIdx_iff_getElem?.2 ⟨j, hij, hj⟩)

/-- The move of one goroutine changes a sum over the pool by the difference of its two states. -/
theorem sum_map_set_add {M : Type} [AddCommMonoid M] (w : α → M) (ha : l[i]? = some a) (b : α) :
    ((l.set i b).map w).sum + w a = (l.map w).sum + w b := by
  induction l generalizing i with
  | nil => simp at ha
  | cons c rest ih =>
      cases i with
      | zero =>
          simp only [List.getElem?_cons_zero, Option.some.injEq] at ha
          subst ha
          simp only [List.set_cons_zero, List.map_cons, List.sum_cons]
          rw [add_right_comm, add_comm (w b), add_right_comm]
      | succ i =>
          simp only [List.getElem?_cons_succ] at ha
          simp only [List.set_cons_succ, List.map_cons, List.sum_cons]
          rw [add_assoc, ih ha, add_assoc]

/-- The end of one goroutine takes its summand out of a sum over the pool. -/
theorem sum_map_eraseIdx_add {M : Type} [AddCommMonoid M] (w : α → M) (ha : l[i]? = some a) :
    ((l.eraseIdx i).map w).sum + w a = (l.map w).sum := by
  induction l generalizing i with
  | nil => simp at ha
  | cons c rest ih =>
      cases i with
      | zero =>
          simp only [List.getElem?_cons_zero, Option.some.injEq] at ha
          subst ha
          simp only [List.eraseIdx_cons_zero, List.map_cons, List.sum_cons]
          exact add_comm _ _
      | succ i =>
          simp only [List.getElem?_cons_succ] at ha
          simp only [List.eraseIdx_cons_succ, List.map_cons, List.sum_cons]
          rw [add_assoc, ih ha]

/-- The move of one goroutine changes the number with a property by at most one. -/
theorem countP_set_add (p : α → Bool) (ha : l[i]? = some a) (b : α) :
    (l.set i b).countP p + (p a).toNat = l.countP p + (p b).toNat := by
  induction l generalizing i with
  | nil => simp at ha
  | cons c rest ih =>
      cases i with
      | zero =>
          simp only [List.getElem?_cons_zero, Option.some.injEq] at ha
          subst ha
          simp only [List.set_cons_zero, List.countP_cons]
          cases p b <;> cases p c <;> simp
      | succ i =>
          simp only [List.getElem?_cons_succ] at ha
          simp only [List.set_cons_succ, List.countP_cons]
          have := ih ha
          omega

/-- Where at most one goroutine has a property, two that have it are in the same state. -/
theorem eq_of_countP_le_one {p : α → Bool} (h : l.countP p ≤ 1) {b : α} (ha : a ∈ l) (hb : b ∈ l)
    (hpa : p a = true) (hpb : p b = true) : a = b := by
  rw [List.countP_eq_length_filter] at h
  have hfa : a ∈ l.filter p := List.mem_filter.2 ⟨ha, hpa⟩
  have hfb : b ∈ l.filter p := List.mem_filter.2 ⟨hb, hpb⟩
  match hl : l.filter p with
  | [] => simp [hl] at hfa
  | [c] =>
      rw [hl, List.mem_singleton] at hfa hfb
      rw [hfa, hfb]
  | _ :: _ :: _ => simp [hl] at h

/-- A value that occurs at most once stands at one place. -/
theorem eq_of_count_le_one [DecidableEq α] {j : ℕ} (h : l.count a ≤ 1) (hi : l[i]? = some a)
    (hj : l[j]? = some a) : i = j := by
  induction l generalizing i j with
  | nil => simp at hi
  | cons c rest ih =>
      rw [List.count_cons] at h
      -- a second occurrence further on would be counted besides the head
      have hrest : ∀ k : ℕ, rest[k]? = some a → c = a → False := by
        rintro k hk rfl
        have hpos := List.count_pos_iff.2 (List.mem_of_getElem? hk)
        simp only [beq_self_eq_true, if_true] at h
        omega
      cases i with
      | zero =>
          cases j with
          | zero => rfl
          | succ j => exact (hrest j (by simpa using hj) (by simpa using hi)).elim
      | succ i =>
          cases j with
          | zero => exact (hrest i (by simpa using hi) (by simpa using hj)).elim
          | succ j =>
              have hij : i = j := ih (by omega) (by simpa using hi) (by simpa using hj)
              rw [hij]

/-- Where at most one goroutine has a property, it stands at one place. -/
theorem index_eq_of_countP_le_one {p : α → Bool} {j : ℕ} {b : α} (h : l.countP p ≤ 1)
    (hi : l[i]? = some a) (hj : l[j]? = some b) (hpa : p a = true) (hpb : p b = true) : i = j := by
  have hcount : (l.map p).count true ≤ 1 := by
    rw [List.count_eq_countP, List.countP_map]
    refine Nat.le_trans (Nat.le_of_eq (List.countP_congr ?_)) h
    simp
  refine eq_of_count_le_one hcount ?_ ?_
  · rw [List.getElem?_map, hi, Option.map_some, hpa]
  · rw [List.getElem?_map, hj, Option.map_some, hpb]

/-- A move that does not change what is collected from a goroutine changes no collection. -/
theorem filterMap_set_of_eq {β : Type} {f : α → Option β} (ha : l[i]? = some a) {b : α}
    (hf : f b = f a) : (l.set i b).filterMap f = l.filterMap f := by
  induction l generalizing i with
  | nil => simp at ha
  | cons c rest ih =>
      cases i with
      | zero =>
          simp only [List.getElem?_cons_zero, Option.some.injEq] at ha
          subst ha
          simp only [List.set_cons_zero, List.filterMap_cons, hf]
      | succ i =>
          simp only [List.getElem?_cons_succ] at ha
          simp only [List.set_cons_succ, List.filterMap_cons, ih ha]

/-- A move that brings `y` where there was nothing adds it to the collection. -/
theorem mem_filterMap_set {β : Type} {f : α → Option β} (ha : l[i]? = some a) {b : α} {y : β}
    (hfa : f a = none) (hfb : f b = some y) (x : β) :
    x ∈ (l.set i b).filterMap f ↔ x = y ∨ x ∈ l.filterMap f := by
  induction l generalizing i with
  | nil => simp at ha
  | cons c rest ih =>
      cases i with
      | zero =>
          simp only [List.getElem?_cons_zero, Option.some.injEq] at ha
          subst ha
          simp only [List.set_cons_zero, List.filterMap_cons, hfa, hfb, List.mem_cons]
      | succ i =>
          simp only [List.getElem?_cons_succ] at ha
          simp only [List.set_cons_succ, List.filterMap_cons]
          cases f c with
          | none => exact ih ha
          | some z =>
              simp only [List.mem_cons, ih ha]
              tauto

/-- Where only goroutines with a property hold something, and at most one has it, all that is held
    is what that one holds. -/
theorem filterMap_eq_of_countP_le_one {β : Type} {f : α → Option β} {p : α → Bool}
    (hf : ∀ c, p c = false → f c = none) (hle : l.countP p ≤ 1) (ha : l[i]? = some a)
    (hpa : p a = true) : l.filterMap f = (f a).toList := by
  induction l generalizing i with
  | nil => simp at ha
  | cons c rest ih =>
      rw [List.countP_cons] at hle
      cases i with
      | zero =>
          simp only [List.getElem?_cons_zero, Option.some.injEq] at ha
          subst ha
          rw [if_pos hpa] at hle
          have hrest : rest.filterMap f = [] := by
            refine List.filterMap_eq_nil_iff.2 fun d hd => hf d ?_
            have hzero : rest.countP p = 0 := by omega
            simpa using List.countP_eq_zero.1 hzero d hd
          rw [List.filterMap_cons, hrest]
          cases f c <;> rfl
      | succ i =>
          simp only [List.getElem?_cons_succ] at ha
          have hpos : 0 < rest.countP p :=
            List.countP_pos_iff.2 ⟨a, List.mem_of_getElem? ha, hpa⟩
          have hpc : p c = false := by
            by_contra hc
            rw [Bool.not_eq_false] at hc
            rw [if_pos hc] at hle
            omega
          rw [List.filterMap_cons, hf c hpc]
          exact ih (by omega) ha

end Tunnel.Lib
