import Mathlib.Data.List.Infix
import Mathlib.InformationTheory.Coding.UniquelyDecodable

set_option autoImplicit false

/-! # Prefix codes

A set of words none of which begins another. A text that is a concatenation of such words can be cut
into them in one way only (`PrefixFree.uniquelyDecodable`): where two ways of cutting it differ
first, one of the two words would begin the other. -/

namespace Tunnel.Lib

open InformationTheory

variable {α : Type}

/-- No word of the code begins another one. -/
def PrefixFree (S : Set (List α)) : Prop := ∀ u ∈ S, ∀ v ∈ S, u <+: v → u = v

variable {S : Set (List α)}

/-- Two words at the front of one text are the same. -/
theorem PrefixFree.eq_of_append (h : PrefixFree S) {u v more more' : List α} (hu : u ∈ S)
    (hv : v ∈ S) (heq : u ++ more = v ++ more') : u = v := by
  rcases List.prefix_or_prefix_of_prefix (List.prefix_append u more)
    (heq ▸ List.prefix_append v more') with hprefix | hprefix
  · exact h u hu v hv hprefix
  · exact (h v hv u hu hprefix).symm

/-- **A prefix code is uniquely decodable**, unless the empty word belongs to it. -/
theorem PrefixFree.uniquelyDecodable (h : PrefixFree S) (hnil : [] ∉ S) : UniquelyDecodable S := by
  intro us
  induction us with
  | nil =>
      intro vs _ hvs heq
      rcases vs with _ | ⟨v, vs⟩
      · rfl
      · have hv : v = [] := by
          have : v ++ vs.flatten = [] := heq.symm
          exact (List.append_eq_nil_iff.1 this).1
        exact absurd (hv ▸ hvs v (List.mem_cons_self ..)) hnil
  | cons u us ih =>
      intro vs hus hvs heq
      have hu : u ∈ S := hus u (List.mem_cons_self ..)
      rcases vs with _ | ⟨v, vs⟩
      · have hu' : u = [] := by
          have : u ++ us.flatten = [] := heq
          exact (List.append_eq_nil_iff.1 this).1
        exact absurd (hu' ▸ hu) hnil
      · have hv : v ∈ S := hvs v (List.mem_cons_self ..)
        rw [List.flatten_cons, List.flatten_cons] at heq
        obtain rfl := h.eq_of_append hu hv heq
        have hrest : us = vs := ih vs (fun w hw => hus w (List.mem_cons_of_mem _ hw))
          (fun w hw => hvs w (List.mem_cons_of_mem _ hw)) (List.append_cancel_left heq)
        rw [hrest]

end Tunnel.Lib
