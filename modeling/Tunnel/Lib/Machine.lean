import Mathlib.Logic.Basic
import Mathlib.Data.List.Basic

set_option autoImplicit false

/-! # Machines: partial step functions and their runs

A concurrent program is modelled as a *partial step function*: an action names which goroutine moves
and how its nondeterminism is resolved, and `step s a = none` says that the action is not enabled in
`s` (a blocked send, an empty receive, a goroutine that is somewhere else). An interleaving is then
a list of actions, and a claim about every interleaving is a claim about every run.

Runs record the steps they take (`(state before, action)`), so that a condition on the steps of a
run (`Meets`) can be stated next to a property of the states it passes through. The rules used
throughout are `Run.invariant` (a property kept by every step that meets the condition holds at the
end of every run whose steps meet it; `Run.preserves` where every step keeps it), `Run.avoids_iff`
(a bad state is avoided exactly by the runs whose steps meet the condition) and
`Run.holds_iff_lastSet` (what the last decisive step of a run leaves behind). -/

namespace Tunnel.Lib

/-- A machine: its initial states and its partial step function. -/
structure Machine (σ α : Type) where
  Init : σ → Prop
  step : σ → α → Option σ

namespace Machine

variable {σ α : Type}

/-- `m.Run s tr t`: the steps `tr`, each with the state it was taken in, lead from `s` to `t`. -/
inductive Run (m : Machine σ α) (s : σ) : List (σ × α) → σ → Prop
  | nil : Run m s [] s
  | snoc {tr : List (σ × α)} {t u : σ} {a : α} :
      Run m s tr t → m.step t a = some u → Run m s (tr ++ [(t, a)]) u

/-- Every step of `tr` meets the condition `ok` in the state it is taken in. -/
def Meets (ok : σ → α → Prop) (tr : List (σ × α)) : Prop :=
  ∀ p ∈ tr, ok p.1 p.2

/-- `t` ends some run from an initial state. -/
def Reachable (m : Machine σ α) (t : σ) : Prop :=
  ∃ s tr, m.Init s ∧ m.Run s tr t

/-- `t` ends some run from an initial state all of whose steps meet `ok`. -/
def ReachableVia (m : Machine σ α) (ok : σ → α → Prop) (t : σ) : Prop :=
  ∃ s tr, m.Init s ∧ m.Run s tr t ∧ Meets ok tr

/-- The states a run passes through, its last one included. -/
def visited (tr : List (σ × α)) (t : σ) : List σ :=
  tr.map Prod.fst ++ [t]

variable {m : Machine σ α} {ok : σ → α → Prop}

theorem meets_append {tr tr' : List (σ × α)} :
    Meets ok (tr ++ tr') ↔ Meets ok tr ∧ Meets ok tr' := by
  simp only [Meets, List.mem_append, or_imp, forall_and]

theorem meets_singleton {s : σ} {a : α} : Meets ok [(s, a)] ↔ ok s a := by
  simp [Meets]

/-! ## Composing runs -/

theorem Run.append {s t u : σ} {tr tr' : List (σ × α)} (h : m.Run s tr t) (h' : m.Run t tr' u) :
    m.Run s (tr ++ tr') u := by
  induction h' with
  | nil => simpa using h
  | snoc _ hstep ih =>
      rw [← List.append_assoc]
      exact ih.snoc hstep

/-! ## The invariant rules -/

/-- **Invariant rule.** A property kept by every step that meets `ok` holds at the end of every run
    whose steps meet `ok`. -/
theorem Run.invariant {I : σ → Prop} {s t : σ} {tr : List (σ × α)} (h : m.Run s tr t)
    (hok : Meets ok tr) (hs : I s)
    (hstep : ∀ s a s', I s → ok s a → m.step s a = some s' → I s') : I t := by
  induction h with
  | nil => exact hs
  | snoc _ hst ih =>
      rw [meets_append, meets_singleton] at hok
      exact hstep _ _ _ (ih hok.1) hok.2 hst

/-- The invariant rule for a property that every step keeps. -/
theorem Run.preserves {I : σ → Prop} {s t : σ} {tr : List (σ × α)} (h : m.Run s tr t) (hs : I s)
    (hstep : ∀ s a s', I s → m.step s a = some s' → I s') : I t := by
  have hany : Meets (fun _ _ => True) tr := fun _ _ => trivial
  exact h.invariant hany hs (fun s a s' hI _ => hstep s a s' hI)

/-- The invariant rule for every state that a run passes through. -/
theorem Run.invariant_visited {I : σ → Prop} {s t : σ} {tr : List (σ × α)} (h : m.Run s tr t)
    (hok : Meets ok tr) (hs : I s)
    (hstep : ∀ s a s', I s → ok s a → m.step s a = some s' → I s') :
    ∀ u ∈ visited tr t, I u := by
  induction h with
  | nil => simpa [visited] using hs
  | @snoc tr t u a _ hst ih =>
      rw [meets_append, meets_singleton] at hok
      have hall := ih hok.1
      have hu : I u := hstep t a u (hall t (by simp [visited])) hok.2 hst
      intro v hv
      simp only [visited, List.map_append, List.map_cons, List.map_nil, List.mem_append,
        List.mem_singleton] at hv hall
      rcases hv with hv | rfl
      · exact hall v hv
      · exact hu

theorem ReachableVia.invariant {I : σ → Prop} {t : σ} (h : m.ReachableVia ok t)
    (hinit : ∀ s, m.Init s → I s)
    (hstep : ∀ s a s', I s → ok s a → m.step s a = some s' → I s') : I t := by
  obtain ⟨s, tr, hs, hrun, hok⟩ := h
  exact hrun.invariant hok (hinit s hs) hstep

theorem Reachable.invariant {I : σ → Prop} {t : σ} (h : m.Reachable t)
    (hinit : ∀ s, m.Init s → I s) (hstep : ∀ s a s', I s → m.step s a = some s' → I s') : I t := by
  obtain ⟨s, tr, hs, hrun⟩ := h
  exact hrun.preserves (hinit s hs) hstep

/-- **History rule.** The invariant rule for a property that also speaks of the states passed so
    far. -/
theorem Run.invariant_history {I : List σ → σ → Prop} {s t : σ} {tr : List (σ × α)}
    (h : m.Run s tr t) (hs : I [s] s)
    (hstep : ∀ vs s a s', I vs s → m.step s a = some s' → I (vs ++ [s']) s') :
    I (visited tr t) t := by
  induction h with
  | nil => exact hs
  | @snoc tr t u a _ hst ih =>
      have hvisited : visited (tr ++ [(t, a)]) u = visited tr t ++ [u] := by simp [visited]
      rw [hvisited]
      exact hstep _ t a u ih hst

/-- **Avoidance rule.** When, outside `Bad`, a step stays outside `Bad` exactly if it meets `ok`, a
    run that starts outside `Bad` avoids it exactly if all of its steps meet `ok`. -/
theorem Run.avoids_iff {Bad : σ → Prop} {s t : σ} {tr : List (σ × α)} (h : m.Run s tr t)
    (hs : ¬ Bad s)
    (hstep : ∀ s a s', ¬ Bad s → m.step s a = some s' → (¬ Bad s' ↔ ok s a)) :
    (∀ u ∈ visited tr t, ¬ Bad u) ↔ Meets ok tr := by
  induction h with
  | nil => simp [visited, Meets, hs]
  | @snoc tr t u a _ hst ih =>
      have hsplit : (∀ v ∈ visited (tr ++ [(t, a)]) u, ¬ Bad v)
          ↔ (∀ v ∈ visited tr t, ¬ Bad v) ∧ ¬ Bad u := by
        simp [visited, or_imp, forall_and, and_assoc]
      rw [hsplit, meets_append, meets_singleton, ← ih]
      constructor
      · rintro ⟨hall, hu⟩
        have ht : ¬ Bad t := hall t (by simp [visited])
        exact ⟨hall, (hstep t a u ht hst).1 hu⟩
      · rintro ⟨hall, hoka⟩
        have ht : ¬ Bad t := hall t (by simp [visited])
        exact ⟨hall, (hstep t a u ht hst).2 hoka⟩

/-- The avoidance rule for steps that are taken where an invariant holds. -/
theorem Run.avoids_iff_of_invariant {I Bad : σ → Prop} {s t : σ} {tr : List (σ × α)}
    (h : m.Run s tr t) (hI : I s) (hkeep : ∀ s a s', I s → m.step s a = some s' → I s')
    (hs : ¬ Bad s)
    (hstep : ∀ s a s', I s → ¬ Bad s → m.step s a = some s' → (¬ Bad s' ↔ ok s a)) :
    (∀ u ∈ visited tr t, ¬ Bad u) ↔ Meets ok tr := by
  have hany : Meets (fun _ _ => True) tr := fun _ _ => trivial
  have hall : ∀ u ∈ visited tr t, I u :=
    h.invariant_visited hany hI (fun s a s' hs _ hst => hkeep s a s' hs hst)
  -- what is to be avoided includes that the invariant fails, which it does not
  have hstart : ¬ (¬ I s ∨ Bad s) := by
    rw [not_or, not_not]
    exact ⟨hI, hs⟩
  have hboth : ∀ s a s', ¬ (¬ I s ∨ Bad s) → m.step s a = some s' →
      (¬ (¬ I s' ∨ Bad s') ↔ ok s a) := by
    intro s a s' hs hst
    rw [not_or, not_not] at hs ⊢
    rw [← hstep s a s' hs.1 hs.2 hst]
    exact and_iff_right (hkeep s a s' hs.1 hst)
  have havoid : (∀ u ∈ visited tr t, ¬ (¬ I u ∨ Bad u)) ↔ Meets ok tr := h.avoids_iff hstart hboth
  rw [← havoid]
  refine forall₂_congr (fun u hu => ?_)
  rw [not_or, not_not, and_iff_right (hall u hu)]

/-! ## Counting steps -/

/-- **Ranking rule.** When every step lowers the rank by one at least if it is one of those counted,
    and raises it never, a run has no more of them than the rank it has used up. -/
theorem Run.countP_add_rank_le {I : σ → Prop} {rank : σ → ℕ} {p : α → Bool} {s t : σ}
    {tr : List (σ × α)} (h : m.Run s tr t) (hs : I s)
    (hI : ∀ s a s', I s → m.step s a = some s' → I s')
    (hrank : ∀ s a s', I s → m.step s a = some s' → rank s' + (p a).toNat ≤ rank s) :
    tr.countP (fun q => p q.2) + rank t ≤ rank s := by
  induction h with
  | nil => simp
  | @snoc tr t u a hrun hst ih =>
      have hdrop := hrank t a u (hrun.preserves hs hI) hst
      rw [List.countP_append, List.countP_singleton]
      cases hp : p a <;> simp only [hp, Bool.toNat_true, Bool.toNat_false] at hdrop ⊢ <;>
        simp <;> omega

/-! ## What the last decisive step leaves behind -/

/-- **Establish-and-keep rule.** A property that `set` steps establish and that no step of the run
    ends holds at the end of a run with a `set` step. -/
theorem Run.holds_of_set {I P : σ → Prop} {set : σ → α → Prop} {s t : σ} {tr : List (σ × α)}
    (h : m.Run s tr t) (hok : Meets ok tr) (hs : I s)
    (hI : ∀ s a s', I s → ok s a → m.step s a = some s' → I s')
    (hset : ∀ s a s', I s → set s a → m.step s a = some s' → P s')
    (hkeep : ∀ s a s', I s → P s → ok s a → m.step s a = some s' → P s')
    (hex : ∃ p ∈ tr, set p.1 p.2) : P t := by
  induction h with
  | nil =>
      obtain ⟨p, hp, _⟩ := hex
      cases hp
  | @snoc tr t u a hrun hst ih =>
      rw [meets_append, meets_singleton] at hok
      have ht : I t := hrun.invariant hok.1 hs hI
      obtain ⟨p, hp, hpset⟩ := hex
      rcases List.mem_append.1 hp with hp | hp
      · exact hkeep t a u ht (ih hok.1 ⟨p, hp, hpset⟩) hok.2 hst
      · rw [List.mem_singleton.1 hp] at hpset
        exact hset t a u ht hpset hst

/-- Some step of `tr` is a `set` step, and no step after it is a `clear` step. -/
def LastSet (set clear : σ → α → Prop) (tr : List (σ × α)) : Prop :=
  ∃ tr₁ p tr₂, tr = tr₁ ++ p :: tr₂ ∧ set p.1 p.2 ∧ ∀ q ∈ tr₂, ¬ clear q.1 q.2

theorem lastSet_snoc {set clear : σ → α → Prop} {tr : List (σ × α)} {s : σ} {a : α} :
    LastSet set clear (tr ++ [(s, a)]) ↔ set s a ∨ LastSet set clear tr ∧ ¬ clear s a := by
  constructor
  · rintro ⟨tr₁, p, tr₂, heq, hset, hclear⟩
    rcases List.eq_nil_or_concat tr₂ with rfl | ⟨tr₃, q, rfl⟩
    · obtain ⟨_, hp⟩ := List.append_inj' heq rfl
      simp only [List.cons.injEq, and_true] at hp
      subst hp
      exact Or.inl hset
    · rw [List.concat_eq_append, ← List.cons_append, ← List.append_assoc] at heq
      obtain ⟨htr, hq⟩ := List.append_inj' heq rfl
      simp only [List.cons.injEq, and_true] at hq
      subst hq
      simp only [List.concat_eq_append, List.mem_append, List.mem_singleton] at hclear
      exact Or.inr ⟨⟨tr₁, p, tr₃, htr, hset, fun r hr => hclear r (Or.inl hr)⟩,
        hclear (s, a) (Or.inr rfl)⟩
  · rintro (hset | ⟨⟨tr₁, p, tr₂, rfl, hset, hclear⟩, hlast⟩)
    · exact ⟨tr, (s, a), [], rfl, hset, by simp⟩
    · refine ⟨tr₁, p, tr₂ ++ [(s, a)], by simp, hset, ?_⟩
      intro q hq
      rcases List.mem_append.1 hq with hq | hq
      · exact hclear q hq
      · rw [List.mem_singleton.1 hq]
        exact hlast

/-- **Last-step rule.** A property that `set` steps establish, `clear` steps end and all others
    leave alone holds at the end of a run exactly if the run has a `set` step with no `clear` step
    after it. -/
theorem Run.holds_iff_lastSet {P : σ → Prop} {set clear : σ → α → Prop} {s t : σ}
    {tr : List (σ × α)} (h : m.Run s tr t) (hs : ¬ P s)
    (hstep : ∀ s a s', m.step s a = some s' → (P s' ↔ set s a ∨ P s ∧ ¬ clear s a)) :
    P t ↔ LastSet set clear tr := by
  induction h with
  | nil =>
      refine iff_of_false hs ?_
      rintro ⟨tr₁, p, tr₂, heq, _⟩
      exact absurd heq (by simp)
  | snoc _ hst ih => rw [hstep _ _ _ hst, lastSet_snoc, ih]

/-! ## Simulation -/

/-- A run of `m` is carried to a run of `m'` by a state map under which every step of `m` is either
    a step of `m'` or invisible. -/
theorem Run.simulate {σ' α' : Type} {m' : Machine σ' α'} (f : σ → σ') {s t : σ}
    {tr : List (σ × α)} (h : m.Run s tr t)
    (hstep : ∀ s a s', m.step s a = some s' → (∃ a', m'.step (f s) a' = some (f s')) ∨ f s' = f s) :
    ∃ tr', m'.Run (f s) tr' (f t) := by
  induction h with
  | nil => exact ⟨[], .nil⟩
  | snoc _ hst ih =>
      obtain ⟨tr', hrun'⟩ := ih
      rcases hstep _ _ _ hst with ⟨a', ha'⟩ | heq
      · exact ⟨_, hrun'.snoc ha'⟩
      · exact ⟨tr', heq ▸ hrun'⟩

/-! ## Executing a list of actions -/

/-- Run the actions `as` from `s`, failing at the first one that is not enabled. -/
def exec (m : Machine σ α) (s : σ) : List α → Option σ
  | [] => some s
  | a :: as => (m.step s a).bind (fun t => m.exec t as)

/-- The steps taken by `exec`, each with the state it was taken in. -/
def trace (m : Machine σ α) (s : σ) : List α → List (σ × α)
  | [] => []
  | a :: as => (s, a) :: ((m.step s a).elim [] (fun t => m.trace t as))

/-- The steps that `exec` takes are steps it was told to take. -/
theorem mem_of_mem_trace {s : σ} {as : List α} {p : σ × α} (h : p ∈ m.trace s as) : p.2 ∈ as := by
  induction as generalizing s with
  | nil => simp [trace] at h
  | cons a as ih =>
      rcases List.mem_cons.1 h with rfl | hrest
      · exact List.mem_cons_self
      · refine List.mem_cons_of_mem a ?_
        cases hstep : m.step s a with
        | none => simp [hstep] at hrest
        | some t =>
            rw [hstep] at hrest
            exact ih hrest

theorem run_of_exec {s t : σ} {as : List α} (h : m.exec s as = some t) :
    m.Run s (m.trace s as) t := by
  induction as generalizing s with
  | nil =>
      simp only [exec, Option.some.injEq] at h
      subst h
      exact .nil
  | cons a as ih =>
      obtain ⟨u, hu, hrest⟩ := Option.bind_eq_some_iff.1 h
      have hfirst : m.Run s [(s, a)] u := Run.snoc .nil hu
      simpa [trace, hu] using hfirst.append (ih hrest)

/-- A decidable property of the state that `exec` ends in is evaluated by running it. -/
theorem run_of_exec_any (m : Machine σ α) (s : σ) (as : List α) {P : σ → Prop} [DecidablePred P]
    (h : (m.exec s as).any (fun t => decide (P t)) = true) :
    ∃ t, m.Run s (m.trace s as) t ∧ P t := by
  obtain ⟨t, ht, hP⟩ := (Option.any_eq_true _ _).1 h
  exact ⟨t, run_of_exec ht, of_decide_eq_true hP⟩

theorem reachable_of_exec_any (m : Machine σ α) {s : σ} (hs : m.Init s) (as : List α)
    {P : σ → Prop} [DecidablePred P] (h : (m.exec s as).any (fun t => decide (P t)) = true) :
    ∃ t, m.Reachable t ∧ P t := by
  obtain ⟨t, hrun, hP⟩ := run_of_exec_any m s as h
  exact ⟨t, ⟨s, _, hs, hrun⟩, hP⟩

end Machine

end Tunnel.Lib
