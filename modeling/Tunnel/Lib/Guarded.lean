import Tunnel.Lib.RWMutex

set_option autoImplicit false

/-! # Proof outlines for data under read-write locks

Each lock guards a part of the shared data. An outline attaches an assertion to every program point
and an invariant to every lock, and asks of one goroutine at a time: a lock that is taken brings its
invariant, a write lock that is given back must leave it, and a computation changes only what is
guarded by the write locks that it holds.

`Outline.Valid.step` turns this into a fact about any number of goroutines in any interleaving:
every goroutine's assertion holds where it is, and every invariant holds while no writer is inside.
-/

namespace Tunnel.Lib

variable {L P D E : Type} [DecidableEq L] {prog : Program L P D E}

/-- The parts of the data that the locks guard: `Same l` relates data that agree in the part of `l`,
    and a computation that does not write under `l` leaves that part alone. -/
structure Regions (dis : Discipline prog) where
  Same : L → D → D → Prop
  same_body {p q : P} {e : E} {d d' : D} {l : L} : prog.instr p = .body →
    prog.body p e d = some (d', q) → dis.holds p l ≠ some .write → Same l d d'

/-- An outline, for answers of the surroundings that are `Ok`. `Evolves` is what every computation
    keeps, also for goroutines that hold nothing; `Always` holds at every moment. -/
structure Outline {dis : Discipline prog} (reg : Regions dis) where
  Ok : E → Prop
  Evolves : D → D → Prop
  Always : D → Prop
  Inv : L → D → Prop
  At : P → D → Prop
  inv_same {l : L} {d d' : D} : reg.Same l d d' → Inv l d → Inv l d'
  at_same {p : P} {d d' : D} : (∀ l, dis.holds p l ≠ none → reg.Same l d d') → Evolves d d' →
    At p d → At p d'
  at_acquire {p q : P} {l : L} {a : Access} {d : D} : prog.instr p = .acquire l a q → At p d →
    Inv l d → At q d
  at_release {p q : P} {l : L} {a : Access} {d : D} : prog.instr p = .release l a q → At p d →
    (a = .read → Inv l d) → At q d ∧ Inv l d
  at_body {p q : P} {e : E} {d d' : D} : prog.instr p = .body → prog.body p e d = some (d', q) →
    Ok e → At p d → (∀ l, dis.holds p l = some .read → Inv l d) → Always d →
    At q d' ∧ Always d' ∧ Evolves d d'

namespace Outline

variable {dis : Discipline prog} {reg : Regions dis}

/-- Nobody is inside `l` for writing. -/
def Unwritten (dis : Discipline prog) (s : Process L P D) (l : L) : Prop :=
  ∀ g ∈ s.threads, dis.holds g.point l ≠ some .write

/-- The outline holds in a state. -/
structure Valid (o : Outline reg) (s : Process L P D) : Prop where
  ledger : dis.Ledger s
  points : ∀ g ∈ s.threads, o.At g.point s.data
  locks : ∀ l, Unwritten dis s l → o.Inv l s.data
  always : o.Always s.data

variable {o : Outline reg} {s s' : Process L P D} {i : ℕ} {g : Goroutine P} {p q : P} {l : L}
  {a : Access} {e : E} {m : RWMutex}

theorem valid_start {d : D} (hinv : ∀ l, o.Inv l d) (halways : o.Always d) :
    o.Valid (Process.start d) where
  ledger := .start d
  points := by simp [Process.start]
  locks l _ := hinv l
  always := halways

theorem Valid.spawn (h : o.Valid s) (hp : ∀ l, dis.holds p l = none) (hat : o.At p s.data) :
    o.Valid (s.spawn p) where
  ledger := h.ledger.spawn hp
  points g hg := by
    rcases List.mem_append.1 hg with hg | hg
    · exact h.points g hg
    · rw [List.mem_singleton] at hg
      subst hg
      exact hat
  locks l hl := h.locks l (fun g hg => hl g (List.mem_append_left _ hg))
  always := h.always

/-- A lock with readers, or one that lets somebody in, has no writer inside. -/
theorem unwritten_of_count (h : dis.Ledger s) (hcount : (s.mutex l).count .writes = 0) :
    Unwritten dis s l := by
  intro g hg hheld
  have hzero := h l .writes
  rw [hcount] at hzero
  have hnot := List.countP_eq_zero.1 hzero.symm g hg
  simp [Discipline.standing, hheld, Access.standing] at hnot

theorem unwritten_of_read (h : dis.Ledger s) (hg : g ∈ s.threads)
    (hheld : dis.holds g.point l = some .read) : Unwritten dis s l := by
  refine unwritten_of_count h ?_
  have hpos : 0 < (s.mutex l).count .reads := by
    rw [h l .reads]
    exact List.countP_pos_iff.2 ⟨g, hg, by simp [Discipline.standing, hheld, Access.standing]⟩
  cases hm : s.mutex l with
  | shared n pending => rfl
  | held => simp [hm, RWMutex.count] at hpos

theorem count_of_rLock {m m' : RWMutex} (h : m.rLock = some m') : m.count .writes = 0 := by
  unfold RWMutex.rLock at h
  split at h
  · rfl
  all_goals cases h

theorem count_of_lock {m m' : RWMutex} (h : m.lock = some m') : m.count .writes = 0 := by
  unfold RWMutex.lock at h
  split at h
  · rfl
  all_goals cases h

/-- A goroutine moves to the next point and the data stay: the invariants that are asked for then
    were there before, but for those of the locks it has given back. -/
theorem Valid.pass (h : o.Valid s) (hg : s.threads[i]? = some g) {g' : Goroutine P}
    (hledger : dis.Ledger (s.pass i g' l m)) (hat : o.At g'.point s.data)
    (hlocks : ∀ l', dis.holds g.point l' = some .write → dis.holds g'.point l' ≠ some .write →
      o.Inv l' s.data) : o.Valid (s.pass i g' l m) where
  ledger := hledger
  points := forall_mem_set h.points hat
  locks l' hl' := by
    by_cases hwas : dis.holds g.point l' = some .write
    · exact hlocks l' hwas (hl' g' (mem_set_self hg g'))
    · refine h.locks l' ?_
      intro g₀ hg₀
      obtain ⟨j, hj⟩ := List.getElem?_of_mem hg₀
      by_cases hij : i = j
      · subst hij
        rw [hg] at hj
        cases hj
        exact hwas
      · refine hl' g₀ (List.mem_of_getElem? (i := j) ?_)
        rw [Process.pass, getElem?_set_of_some hg, if_neg hij]
        exact hj
  always := h.always

theorem Valid.acquire (h : o.Valid s) (hg : s.threads[i]? = some g)
    (hinstr : prog.instr g.point = .acquire l a q) (hcount : (s.mutex l).count .writes = 0)
    (hledger : dis.Ledger (s.pass i ⟨q, false⟩ l m)) : o.Valid (s.pass i ⟨q, false⟩ l m) := by
  have hinv := h.locks l (unwritten_of_count h.ledger hcount)
  refine h.pass hg hledger ?_ ?_
  · exact o.at_acquire hinstr (h.points g (List.mem_of_getElem? hg)) hinv
  · intro l' hwas hnot
    obtain ⟨hup, hq, _⟩ := dis.acquire hinstr
    -- what it held it still holds
    have hne : l' ≠ l := by
      rintro rfl
      exact absurd (hup l' (by simp [hwas])) (Nat.lt_irrefl _)
    rw [hq, Function.update_of_ne hne] at hnot
    exact absurd hwas hnot

theorem Valid.release (h : o.Valid s) (hg : s.threads[i]? = some g)
    (hinstr : prog.instr g.point = .release l a q)
    (hledger : dis.Ledger (s.pass i ⟨q, false⟩ l m)) : o.Valid (s.pass i ⟨q, false⟩ l m) := by
  have hmem := List.mem_of_getElem? hg
  obtain ⟨hheld, hq, _⟩ := dis.release hinstr
  obtain ⟨hat, hinv⟩ := o.at_release hinstr (h.points g hmem) (fun ha => by
    subst ha
    exact h.locks l (unwritten_of_read h.ledger hmem hheld))
  refine h.pass hg hledger hat ?_
  intro l' hwas hnot
  by_cases hl : l' = l
  · subst hl
    exact hinv
  · rw [hq, Function.update_of_ne hl] at hnot
    exact absurd hwas hnot

/-- A computation: the others hold nothing of what it changes. -/
theorem Valid.compute (h : o.Valid s) (hok : o.Ok e) (hg : s.threads[i]? = some g)
    (hinstr : prog.instr g.point = .body) :
    o.Valid (s.compute i (prog.body g.point e s.data)) := by
  have hledger := h.ledger.compute (e := e) hg hinstr
  have hmem := List.mem_of_getElem? hg
  cases hres : prog.body g.point e s.data with
  | none => exact ⟨h.ledger, h.points, h.locks, h.always⟩
  | some r =>
      rw [hres] at hledger
      obtain ⟨d', q⟩ := r
      have hholds := (dis.body hinstr hres).1
      obtain ⟨hat, halways, hevolves⟩ := o.at_body hinstr hres hok (h.points g hmem)
        (fun l hl => h.locks l (unwritten_of_read h.ledger hmem hl)) h.always
      refine ⟨hledger, ?_, ?_, halways⟩
      · intro g₀ hg₀
        obtain ⟨j, hj⟩ := List.getElem?_of_mem hg₀
        simp only [Process.compute, getElem?_set_of_some hg] at hj
        split at hj
        · cases hj
          exact hat
        · next hij =>
            refine o.at_same ?_ hevolves (h.points g₀ (List.mem_of_getElem? hj))
            intro l hl
            refine reg.same_body hinstr hres ?_
            intro hwrites
            obtain ⟨a, ha⟩ := Option.ne_none_iff_exists'.1 hl
            have hstands : dis.standing g₀ l = some a.standing := by
              simp [Discipline.standing, ha]
            exact hij (h.ledger.alone hg hj hwrites hstands)
      · intro l hl
        have hunwritten : dis.holds g.point l ≠ some .write := by
          rw [← hholds]
          exact hl _ (mem_set_self hg _)
        refine o.inv_same (reg.same_body hinstr hres hunwritten) (h.locks l ?_)
        intro g₀ hg₀
        obtain ⟨j, hj⟩ := List.getElem?_of_mem hg₀
        by_cases hij : i = j
        · subst hij
          rw [hg] at hj
          cases hj
          exact hunwritten
        · refine hl g₀ (List.mem_of_getElem? (i := j) ?_)
          simp only [Process.compute]
          rw [getElem?_set_of_some hg, if_neg hij]
          exact hj

/-- **One step** of any goroutine keeps the outline. -/
theorem Valid.step (h : o.Valid s) (hok : o.Ok e) (hstep : s.step prog i e = some s') :
    o.Valid s' := by
  obtain ⟨_, g, hg, hadv⟩ := Discipline.step_eq_some.1 hstep
  have hledger := h.ledger.advance hg hadv
  unfold Process.advance at hadv
  split at hadv
  · next l next hinstr =>
      obtain ⟨m, hm, rfl⟩ := Option.map_eq_some_iff.1 hadv
      exact h.acquire hg hinstr (count_of_rLock hm) hledger
  · next l next hinstr =>
      split at hadv
      · obtain ⟨m, hm, rfl⟩ := Option.map_eq_some_iff.1 hadv
        exact h.acquire hg hinstr (count_of_lock hm) hledger
      · obtain ⟨m, hm, rfl⟩ := Option.map_eq_some_iff.1 hadv
        refine h.pass hg hledger (h.points g (List.mem_of_getElem? hg)) ?_
        intro l' hwas hnot
        exact absurd hwas hnot
  · next l next hinstr =>
      obtain ⟨m, hm, rfl⟩ := Option.map_eq_some_iff.1 hadv
      exact h.release hg hinstr hledger
  · next l next hinstr =>
      obtain ⟨m, hm, rfl⟩ := Option.map_eq_some_iff.1 hadv
      exact h.release hg hinstr hledger
  · next hinstr =>
      cases hadv
      exact h.compute hok hg hinstr
  · cases hadv

end Outline

end Tunnel.Lib
