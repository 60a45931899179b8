import Mathlib.Algebra.BigOperators.Group.List.Basic
import Mathlib.Algebra.GroupWithZero.Nat
import Mathlib.Algebra.Order.BigOperators.Group.List
import Mathlib.Algebra.Order.Group.Nat
import Mathlib.Data.Set.Finite.Lemmas
import Mathlib.Data.Set.Finite.List
import Mathlib.Logic.Function.Basic
import Tunnel.Lib.Machine
import Tunnel.Lib.Pool

set_option autoImplicit false

/-! # Goroutines that share data under read-write locks

A `sync.RWMutex` lets in any number of readers or one writer. A writer announces itself first: from
then on no reader is let in, and the writer enters when the last reader has left. The states of the
type are the states of the lock, so a lock with a writer and a reader inside cannot be written down.

A program gives each program point its next instruction: take a lock, give one back, or compute on
the shared data. A `Discipline` says which locks each point holds and orders the locks so that every
goroutine takes them upwards. Then the locks and the program points agree (`Ledger`), a writer is
alone (`Ledger.alone`), some goroutine can always go on (`Ledger.progress`), and every run is
bounded (`Discipline.length_le`). A reader that waits behind an announced writer which itself waits
for readers is what makes the order matter for read locks as well. -/

namespace Tunnel.Lib

/-- A read-write lock: `readers` are inside, and perhaps a writer waits for them to leave; or a
    writer is inside. -/
inductive RWMutex
  | shared (readers : ℕ) (pending : Bool)
  | held
deriving DecidableEq

/-- How a goroutine can stand to a lock: it reads, it writes, it has announced itself. -/
inductive Standing
  | reads
  | writes
  | waits
deriving DecidableEq

namespace RWMutex

/-- The zero value. -/
def free : RWMutex := .shared 0 false

/-- `RLock` -/
def rLock : RWMutex → Option RWMutex
  | .shared n false => some (.shared (n + 1) false)
  | .shared _ true | .held => none

/-- The first half of `Lock`: from here on no reader is let in. -/
def announce : RWMutex → Option RWMutex
  | .shared n false => some (.shared n true)
  | .shared _ true | .held => none

/-- The second half of `Lock`. -/
def lock : RWMutex → Option RWMutex
  | .shared 0 true => some .held
  | .shared 0 false | .shared (_ + 1) _ | .held => none

/-- `RUnlock` -/
def rUnlock : RWMutex → Option RWMutex
  | .shared (n + 1) pending => some (.shared n pending)
  | .shared 0 _ | .held => none

/-- `Unlock` -/
def unlock : RWMutex → Option RWMutex
  | .held => some (.shared 0 false)
  | .shared _ _ => none

/-- How many goroutines stand to the lock in a given way. -/
def count : RWMutex → Standing → ℕ
  | .shared n _, .reads => n
  | .shared _ _, .writes => 0
  | .shared _ pending, .waits => pending.toNat
  | .held, .reads => 0
  | .held, .writes => 1
  | .held, .waits => 0

/-- One goroutine's standing has changed from `a` to `b`, and the counts with it. -/
def Passes (m m' : RWMutex) (a b : Option Standing) : Prop :=
  ∀ c, m'.count c + (decide (a = some c)).toNat = m.count c + (decide (b = some c)).toNat

variable {m m' : RWMutex}

theorem rLock_passes (h : m.rLock = some m') : m.Passes m' none (some .reads) := by
  unfold rLock at h
  split at h <;> cases h
  intro c
  cases c <;> rfl

theorem announce_passes (h : m.announce = some m') : m.Passes m' none (some .waits) := by
  unfold announce at h
  split at h <;> cases h
  intro c
  cases c <;> rfl

theorem lock_passes (h : m.lock = some m') : m.Passes m' (some .waits) (some .writes) := by
  unfold lock at h
  split at h <;> cases h
  intro c
  cases c <;> rfl

theorem rUnlock_passes (h : m.rUnlock = some m') : m.Passes m' (some .reads) none := by
  unfold rUnlock at h
  split at h <;> cases h
  intro c
  cases c <;> rfl

theorem unlock_passes (h : m.unlock = some m') : m.Passes m' (some .writes) none := by
  unfold unlock at h
  split at h <;> cases h
  intro c
  cases c <;> rfl

theorem isSome_rUnlock (h : 0 < m.count .reads) : m.rUnlock.isSome = true := by
  unfold rUnlock
  split
  · rfl
  · simp [count] at h
  · simp [count] at h

theorem isSome_unlock (h : 0 < m.count .writes) : m.unlock.isSome = true := by
  unfold unlock
  split
  · rfl
  · simp [count] at h

/-- Nobody is inside: a goroutine that has announced itself enters, and if none has, anybody may. -/
theorem eq_shared (hreads : m.count .reads = 0) (hwrites : m.count .writes = 0) :
    ∃ pending, m = .shared 0 pending := by
  cases m with
  | shared n pending =>
      obtain rfl : n = 0 := hreads
      exact ⟨pending, rfl⟩
  | held => simp [count] at hwrites

/-- A writer inside is alone. -/
theorem count_of_writes (h : 0 < m.count .writes) (c : Standing) :
    m.count c = (decide (Standing.writes = c)).toNat := by
  cases m with
  | shared n pending => simp [count] at h
  | held => cases c <;> rfl

end RWMutex

/-! ## Programs -/

inductive Access
  | read
  | write
deriving DecidableEq

def Access.standing : Access → Standing
  | .read => .reads
  | .write => .writes

/-- The instruction at a program point: take a lock or give one back and go on at the next point;
    compute on the shared data; the goroutine has returned. -/
inductive Instr (L P : Type)
  | acquire (l : L) (a : Access) (next : P)
  | release (l : L) (a : Access) (next : P)
  | body
  | stop

/-- A program with locks `L`, program points `P`, shared data `D` and answers `E` of its
    surroundings. A computation that returns nothing panics. -/
structure Program (L P D E : Type) where
  instr : P → Instr L P
  body : P → E → D → Option (D × P)

/-- A goroutine; `announced` is set between the halves of a `Lock`. -/
structure Goroutine (P : Type) where
  point : P
  announced : Bool

/-- A running program. A panic in any goroutine ends it. -/
structure Process (L P D : Type) where
  mutex : L → RWMutex
  threads : List (Goroutine P)
  data : D
  crashed : Bool

namespace Process

variable {L P D E : Type} [DecidableEq L]

def start (d : D) : Process L P D := ⟨fun _ => .free, [], d, false⟩

/-- A goroutine is started. -/
def spawn (s : Process L P D) (p : P) : Process L P D :=
  { s with threads := s.threads ++ [⟨p, false⟩] }

/-- The `i`-th goroutine becomes `g`, and the lock `l` becomes `m`. -/
def pass (s : Process L P D) (i : ℕ) (g : Goroutine P) (l : L) (m : RWMutex) : Process L P D :=
  { s with mutex := Function.update s.mutex l m, threads := s.threads.set i g }

/-- A computation of the `i`-th goroutine ends. -/
def compute (s : Process L P D) (i : ℕ) : Option (D × P) → Process L P D
  | none => { s with crashed := true }
  | some (d, p) => { s with threads := s.threads.set i ⟨p, false⟩, data := d }

/-- The `i`-th goroutine `g` goes on; `none` while it is blocked. -/
def advance (prog : Program L P D E) (s : Process L P D) (i : ℕ) (g : Goroutine P) (e : E) :
    Option (Process L P D) :=
  match prog.instr g.point with
  | .acquire l .read next => (s.mutex l).rLock.map (s.pass i ⟨next, false⟩ l)
  | .acquire l .write next =>
      if g.announced = true then (s.mutex l).lock.map (s.pass i ⟨next, false⟩ l)
      else (s.mutex l).announce.map (s.pass i ⟨g.point, true⟩ l)
  | .release l .read next => (s.mutex l).rUnlock.map (s.pass i ⟨next, false⟩ l)
  | .release l .write next => (s.mutex l).unlock.map (s.pass i ⟨next, false⟩ l)
  | .body => some (s.compute i (prog.body g.point e s.data))
  | .stop => none

/-- One step of the `i`-th goroutine. -/
def step (prog : Program L P D E) (s : Process L P D) (i : ℕ) (e : E) : Option (Process L P D) :=
  if s.crashed = true then none
  else s.threads[i]?.bind (fun g => s.advance prog i g e)

end Process

/-! ## Discipline -/

/-- The locks that each point holds. Locks are taken upwards, given back in the mode they were taken
    in, and none is kept at the end; and `work` is left for a bounded number of instructions. -/
structure Discipline {L P D E : Type} [DecidableEq L] (prog : Program L P D E) where
  holds : P → L → Option Access
  rank : L → ℕ
  work : P → ℕ
  acquire {p q : P} {l : L} {a : Access} : prog.instr p = .acquire l a q →
    (∀ l', holds p l' ≠ none → rank l' < rank l) ∧
      holds q = Function.update (holds p) l (some a) ∧ work q < work p
  release {p q : P} {l : L} {a : Access} : prog.instr p = .release l a q →
    holds p l = some a ∧ holds q = Function.update (holds p) l none ∧ work q < work p
  body {p q : P} {e : E} {d d' : D} : prog.instr p = .body → prog.body p e d = some (d', q) →
    holds q = holds p ∧ work q < work p
  body_pos {p : P} : prog.instr p = .body → 0 < work p
  stop {p : P} : prog.instr p = .stop → ∀ l, holds p l = none

namespace Discipline

variable {L P D E : Type} [DecidableEq L] {prog : Program L P D E} (dis : Discipline prog)

/-- How a goroutine stands to a lock. -/
def standing (g : Goroutine P) (l : L) : Option Standing :=
  match dis.holds g.point l with
  | some a => some a.standing
  | none =>
      match prog.instr g.point with
      | .acquire l' .write _ => if g.announced = true ∧ l' = l then some .waits else none
      | .acquire _ .read _ | .release _ _ _ | .body | .stop => none

variable {dis} {p q : P} {l : L} {a : Access} {g : Goroutine P} {c : Standing}

theorem holds_of_acquire (dis : Discipline prog) (h : prog.instr p = .acquire l a q) :
    dis.holds p l = none := by
  by_contra hheld
  exact absurd ((dis.acquire h).1 l hheld) (Nat.lt_irrefl _)

/-- Unless it is about to enter `l` for writing, a goroutine stands to `l` as its point holds it. -/
theorem standing_eq (h : ∀ q, prog.instr g.point ≠ .acquire l .write q) :
    dis.standing g l = (dis.holds g.point l).map Access.standing := by
  unfold standing
  split
  · next a hheld => simp [hheld]
  · next hheld =>
      split
      · next l' q hinstr =>
          have hne : l' ≠ l := by
            rintro rfl
            exact h q hinstr
          simp [hheld, hne]
      all_goals simp [hheld]

theorem standing_mk (p : P) (l : L) :
    dis.standing ⟨p, false⟩ l = (dis.holds p l).map Access.standing := by
  unfold standing
  split
  · next a h => simp [h]
  · next h => split <;> simp [h]

/-- Between the halves of a `Lock`. -/
theorem standing_announced (h : prog.instr g.point = .acquire l .write q)
    (hann : g.announced = true) : dis.standing g l = some .waits := by
  simp [standing, dis.holds_of_acquire h, h, hann]

theorem of_standing_waits (h : dis.standing g l = some .waits) :
    ∃ q, prog.instr g.point = .acquire l .write q ∧ g.announced = true := by
  unfold standing at h
  split at h
  · next a _ => cases a <;> simp [Access.standing] at h
  · split at h
    · next l' q hinstr =>
        split at h
        · next hann =>
            obtain ⟨hann, rfl⟩ := hann
            exact ⟨q, hinstr, hann⟩
        · cases h
    all_goals cases h

theorem standing_acquire (h : prog.instr g.point = .acquire l a q)
    (hann : a = .write → g.announced = false) : dis.standing g l = none := by
  simp only [standing, dis.holds_of_acquire h, h]
  cases a with
  | read => rfl
  | write => simp [hann rfl]

/-- Every lock counts the goroutines that stand to it. -/
def Ledger (dis : Discipline prog) (s : Process L P D) : Prop :=
  ∀ l c, (s.mutex l).count c = s.threads.countP (fun g => decide (dis.standing g l = some c))

namespace Ledger

variable {s s' : Process L P D} {i j : ℕ} {g' : Goroutine P} {e : E}

theorem start (d : D) : dis.Ledger (Process.start d) := by
  intro l c
  cases c <;> rfl

theorem spawn (h : dis.Ledger s) (hp : ∀ l, dis.holds p l = none) : dis.Ledger (s.spawn p) := by
  intro l c
  have hnone : dis.standing ⟨p, false⟩ l = none := by rw [standing_mk, hp]; rfl
  simp [Process.spawn, h l c, hnone]

/-- One goroutine's standing to one lock changes, and the lock with it. -/
theorem pass (h : dis.Ledger s) (hg : s.threads[i]? = some g) {m : RWMutex}
    (hm : (s.mutex l).Passes m (dis.standing g l) (dis.standing g' l))
    (hother : ∀ l', l' ≠ l → dis.standing g' l' = dis.standing g l') :
    dis.Ledger (s.pass i g' l m) := by
  intro l' c
  have hcount := countP_set_add (fun g => decide (dis.standing g l' = some c)) hg g'
  have hold := h l' c
  by_cases hl : l' = l
  · subst hl
    have hm' := hm c
    simp only [Process.pass, Function.update_self]
    omega
  · rw [hother l' hl] at hcount
    simp only [Process.pass, Function.update_of_ne hl]
    omega

/-- An instruction that changes what is held of `l` from `a` to `b`. -/
theorem pass_holds (h : dis.Ledger s) (hg : s.threads[i]? = some g) {m : RWMutex}
    {b : Option Access}
    (hm : (s.mutex l).Passes m (dis.standing g l) (b.map Access.standing))
    (hq : dis.holds q = Function.update (dis.holds g.point) l b)
    (hinstr : ∀ l' q', l' ≠ l → prog.instr g.point ≠ .acquire l' .write q') :
    dis.Ledger (s.pass i ⟨q, false⟩ l m) := by
  refine h.pass hg ?_ ?_
  · rw [standing_mk, hq, Function.update_self]
    exact hm
  · intro l' hl
    rw [standing_mk, hq, Function.update_of_ne hl, standing_eq (fun q' => hinstr l' q' hl)]

theorem compute (h : dis.Ledger s) (hg : s.threads[i]? = some g)
    (hbody : prog.instr g.point = .body) :
    dis.Ledger (s.compute i (prog.body g.point e s.data)) := by
  cases hres : prog.body g.point e s.data with
  | none => exact h
  | some r =>
      obtain ⟨hheld, _⟩ := dis.body hbody hres
      intro l c
      have hsame : dis.standing ⟨r.2, false⟩ l = dis.standing g l := by
        rw [standing_mk, hheld, standing_eq (by simp [hbody])]
      have hcount :=
        countP_set_add (fun g => decide (dis.standing g l = some c)) hg ⟨r.2, false⟩
      rw [hsame] at hcount
      have hold := h l c
      simp only [Process.compute]
      omega

/-- **One step** of a goroutine. -/
theorem advance (h : dis.Ledger s) (hg : s.threads[i]? = some g)
    (hstep : s.advance prog i g e = some s') : dis.Ledger s' := by
  unfold Process.advance at hstep
  split at hstep
  · next l next hinstr =>
      obtain ⟨m, hm, rfl⟩ := Option.map_eq_some_iff.1 hstep
      refine h.pass_holds hg ?_ (dis.acquire hinstr).2.1 (by simp [hinstr])
      rw [standing_acquire hinstr (by simp)]
      exact RWMutex.rLock_passes hm
  · next l next hinstr =>
      split at hstep
      · next hann =>
          obtain ⟨m, hm, rfl⟩ := Option.map_eq_some_iff.1 hstep
          refine h.pass_holds hg ?_ (dis.acquire hinstr).2.1 (by simp [hinstr, eq_comm])
          rw [standing_announced hinstr hann]
          exact RWMutex.lock_passes hm
      · next hann =>
          obtain ⟨m, hm, rfl⟩ := Option.map_eq_some_iff.1 hstep
          refine h.pass hg ?_ ?_
          · have hwaits : dis.standing ⟨g.point, true⟩ l = some .waits :=
              standing_announced (g := ⟨g.point, true⟩) hinstr rfl
            rw [standing_acquire hinstr (by simpa using hann), hwaits]
            exact RWMutex.announce_passes hm
          · intro l' hl
            have hinstr' : ∀ q, prog.instr g.point ≠ .acquire l' .write q := by
              simp [hinstr, hl.symm]
            exact (standing_eq (g := ⟨g.point, true⟩) hinstr').trans (standing_eq hinstr').symm
  · next l next hinstr =>
      obtain ⟨m, hm, rfl⟩ := Option.map_eq_some_iff.1 hstep
      obtain ⟨hheld, hnext, _⟩ := dis.release hinstr
      refine h.pass_holds hg ?_ hnext (by simp [hinstr])
      rw [standing_eq (by simp [hinstr]), hheld]
      exact RWMutex.rUnlock_passes hm
  · next l next hinstr =>
      obtain ⟨m, hm, rfl⟩ := Option.map_eq_some_iff.1 hstep
      obtain ⟨hheld, hnext, _⟩ := dis.release hinstr
      refine h.pass_holds hg ?_ hnext (by simp [hinstr])
      rw [standing_eq (by simp [hinstr]), hheld]
      exact RWMutex.unlock_passes hm
  · next hinstr =>
      cases hstep
      exact h.compute hg hinstr
  · cases hstep

/-- A goroutine that writes under a lock is the only one that stands to it in any way. -/
theorem alone (h : dis.Ledger s) (hi : s.threads[i]? = some g)
    (hj : s.threads[j]? = some g') (hwrites : dis.holds g.point l = some .write)
    (hstands : dis.standing g' l = some c) : i = j := by
  have hgw : dis.standing g l = some .writes := by simp [standing, hwrites, Access.standing]
  have hpos : 0 < (s.mutex l).count .writes := by
    rw [h l .writes]
    exact List.countP_pos_iff.2 ⟨g, List.mem_of_getElem? hi, by simp [hgw]⟩
  have hcounts := RWMutex.count_of_writes hpos
  -- whatever the other's standing is, somebody has it, so it is that of a writer
  have hpos' : 0 < (s.mutex l).count c := by
    rw [h l c]
    exact List.countP_pos_iff.2 ⟨g', List.mem_of_getElem? hj, by simp [hstands]⟩
  rw [hcounts c] at hpos'
  obtain rfl : Standing.writes = c := by
    by_contra hc
    simp [hc] at hpos'
  have hone : s.threads.countP (fun g => decide (dis.standing g l = some .writes)) ≤ 1 := by
    rw [← h l .writes, hcounts]
    simp
  exact index_eq_of_countP_le_one hone hi hj (by simp [hgw]) (by simp [hstands])

/-- A goroutine that holds a lock can give it back. -/
theorem isSome_release (h : dis.Ledger s) (hg : g ∈ s.threads)
    (hinstr : prog.instr g.point = .release l a q) :
    (s.advance prog i g e).isSome = true := by
  have hheld := (dis.release hinstr).1
  have hpos : 0 < (s.mutex l).count a.standing := by
    rw [h l a.standing]
    exact List.countP_pos_iff.2 ⟨g, hg, by simp [standing, hheld]⟩
  cases a with
  | read =>
      simp only [Process.advance, hinstr, Option.isSome_map]
      exact RWMutex.isSome_rUnlock hpos
  | write =>
      simp only [Process.advance, hinstr, Option.isSome_map]
      exact RWMutex.isSome_unlock hpos

end Ledger

/-- The rank of the lock that a goroutine is about to take. -/
def wanted (dis : Discipline prog) (g : Goroutine P) : ℕ :=
  match prog.instr g.point with
  | .acquire l _ _ => dis.rank l
  | .release _ _ _ | .body | .stop => 0

namespace Ledger

variable {s : Process L P D} {e : E}

/-- A lock that nobody holds can be entered by a goroutine that wants it, or by the one that has
    announced itself before. -/
theorem enters (h : dis.Ledger s) (hg : g ∈ s.threads)
    (hinstr : prog.instr g.point = .acquire l a q)
    (hfree : ∀ g' ∈ s.threads, dis.holds g'.point l = none) :
    ∃ g' ∈ s.threads, ∀ i, (s.advance prog i g' e).isSome = true := by
  have hcount : ∀ b : Access, (s.mutex l).count b.standing = 0 := by
    intro b
    rw [h l b.standing, List.countP_eq_zero]
    intro g' hg'
    have hno := hfree g' hg'
    simp only [decide_eq_true_eq, standing, hno]
    cases b <;> (split <;> simp [Access.standing])
  obtain ⟨pending, hm⟩ := RWMutex.eq_shared (hcount .read) (hcount .write)
  have hwaits := h l .waits
  rw [hm] at hwaits
  cases pending with
  | true =>
      have hpos : 0 < s.threads.countP (fun g => decide (dis.standing g l = some .waits)) := by
        rw [← hwaits]
        exact Nat.one_pos
      obtain ⟨g', hg', hstands⟩ := List.countP_pos_iff.1 hpos
      obtain ⟨q', hinstr', hann⟩ := of_standing_waits (of_decide_eq_true hstands)
      refine ⟨g', hg', fun i => ?_⟩
      simp [Process.advance, hinstr', hann, hm, RWMutex.lock]
  | false =>
      refine ⟨g, hg, fun i => ?_⟩
      cases a with
      | read => simp [Process.advance, hinstr, hm, RWMutex.rLock]
      | write =>
          have hann : g.announced = false := by
            by_contra hann
            rw [Bool.not_eq_false] at hann
            have hnone := List.countP_eq_zero.1 hwaits.symm g hg
            simp [standing_announced hinstr hann] at hnone
          simp [Process.advance, hinstr, hann, hm, RWMutex.announce]

/-- **No deadlock.** As long as a goroutine has not returned, some goroutine can go on. -/
theorem progress (h : dis.Ledger s) (hrun : s.crashed = false)
    (hlive : ∃ g ∈ s.threads, prog.instr g.point ≠ .stop) (e : E) :
    ∃ i, (s.step prog i e).isSome = true := by
  have hready : ∀ g ∈ s.threads, (∀ i, (s.advance prog i g e).isSome = true) →
      ∃ i, (s.step prog i e).isSome = true := by
    intro g hg hadvance
    obtain ⟨i, hi⟩ := List.getElem?_of_mem hg
    refine ⟨i, ?_⟩
    simp only [Process.step, hrun, hi]
    exact hadvance i
  -- of the goroutines that have not returned, one that wants a highest lock
  obtain ⟨g, ⟨hg, hnot⟩, hmax⟩ := Set.exists_max_image
    {g | g ∈ s.threads ∧ prog.instr g.point ≠ .stop} dis.wanted
    ((List.finite_toSet s.threads).subset fun _ hg => hg.1) hlive
  cases hinstr : prog.instr g.point with
  | stop => exact absurd hinstr hnot
  | body => exact hready g hg (fun i => by simp [Process.advance, hinstr])
  | release l a q => exact hready g hg (fun i => h.isSome_release hg hinstr)
  | acquire l a q =>
      by_cases hfree : ∀ g' ∈ s.threads, dis.holds g'.point l = none
      · obtain ⟨g', hg', hadvance⟩ := h.enters hg hinstr hfree
        exact hready g' hg' hadvance
      · -- a holder of that lock has not returned, and wants no higher one
        simp only [not_forall] at hfree
        obtain ⟨g', hg', hheld⟩ := hfree
        have hnot' : prog.instr g'.point ≠ .stop := fun hstop => hheld (dis.stop hstop l)
        have hle := hmax g' ⟨hg', hnot'⟩
        cases hinstr' : prog.instr g'.point with
        | stop => exact absurd hinstr' hnot'
        | body => exact hready g' hg' (fun i => by simp [Process.advance, hinstr'])
        | release l' a' q' => exact hready g' hg' (fun i => h.isSome_release hg' hinstr')
        | acquire l' a' q' =>
            have hlt := (dis.acquire hinstr').1 l hheld
            simp only [wanted, hinstr, hinstr'] at hle
            omega

end Ledger

/-! ## Every run ends -/

/-- The instructions a goroutine may still have before it; a `Lock` is two. -/
def effort (dis : Discipline prog) (g : Goroutine P) : ℕ :=
  2 * dis.work g.point + (!g.announced).toNat

/-- The instructions that a process may still have before it. -/
def load (dis : Discipline prog) (s : Process L P D) : ℕ :=
  if s.crashed = true then 0 else (s.threads.map dis.effort).sum

/-- The instructions that the `i`-th goroutine may still have before it. -/
def loadOf (dis : Discipline prog) (i : ℕ) (s : Process L P D) : ℕ :=
  if s.crashed = true then 0 else s.threads[i]?.elim 0 dis.effort

variable {s s' t : Process L P D} {i : ℕ} {e : E}

theorem effort_next (dis : Discipline prog) (hlt : dis.work q < dis.work g.point) :
    dis.effort ⟨q, false⟩ < dis.effort g := by
  simp only [effort, Bool.not_false, Bool.toNat_true]
  omega

/-- A step of a goroutine is a panic, or leaves this goroutine with less before it and the others as
    they are. -/
theorem advance_threads (dis : Discipline prog) (hstep : s.advance prog i g e = some s') :
    s'.crashed = true ∧ 0 < dis.effort g ∨
      s'.crashed = s.crashed ∧
        ∃ g', s'.threads = s.threads.set i g' ∧ dis.effort g' < dis.effort g := by
  unfold Process.advance at hstep
  split at hstep
  · next l next hinstr =>
      obtain ⟨m, _, rfl⟩ := Option.map_eq_some_iff.1 hstep
      exact .inr ⟨rfl, _, rfl, dis.effort_next (dis.acquire hinstr).2.2⟩
  · next l next hinstr =>
      split at hstep
      · obtain ⟨m, _, rfl⟩ := Option.map_eq_some_iff.1 hstep
        exact .inr ⟨rfl, _, rfl, dis.effort_next (dis.acquire hinstr).2.2⟩
      · next hann =>
          obtain ⟨m, _, rfl⟩ := Option.map_eq_some_iff.1 hstep
          exact .inr ⟨rfl, _, rfl, by simp [effort, hann]⟩
  · next l next hinstr =>
      obtain ⟨m, _, rfl⟩ := Option.map_eq_some_iff.1 hstep
      exact .inr ⟨rfl, _, rfl, dis.effort_next (dis.release hinstr).2.2⟩
  · next l next hinstr =>
      obtain ⟨m, _, rfl⟩ := Option.map_eq_some_iff.1 hstep
      exact .inr ⟨rfl, _, rfl, dis.effort_next (dis.release hinstr).2.2⟩
  · next hinstr =>
      cases hstep
      cases hres : prog.body g.point e s.data with
      | none =>
          have hpos := dis.body_pos hinstr
          exact .inl ⟨rfl, by simp only [effort]; omega⟩
      | some r => exact .inr ⟨rfl, _, rfl, dis.effort_next (dis.body hinstr hres).2⟩
  · cases hstep

theorem load_advance (dis : Discipline prog) (hrun : s.crashed = false)
    (hg : s.threads[i]? = some g) (hstep : s.advance prog i g e = some s') :
    dis.load s' < dis.load s := by
  have hle : dis.effort g ≤ (s.threads.map dis.effort).sum :=
    List.single_le_sum (by simp) _ (List.mem_map_of_mem (List.mem_of_getElem? hg))
  rcases dis.advance_threads hstep with ⟨hcrashed, hpos⟩ | ⟨hcrashed, g', hthreads, hlt⟩
  · simp only [load, hcrashed, hrun, if_true, Bool.false_eq_true, if_false]
    omega
  · have hsum := sum_map_set_add dis.effort hg g'
    simp only [load, hcrashed, hrun, hthreads, Bool.false_eq_true, if_false]
    omega

/-- A step is the goroutine's own, or takes nothing from it. -/
theorem loadOf_advance (dis : Discipline prog) (hrun : s.crashed = false)
    (hg : s.threads[i]? = some g) (hstep : s.advance prog i g e = some s') (j : ℕ) :
    dis.loadOf j s' + (decide (i = j)).toNat ≤ dis.loadOf j s := by
  rcases dis.advance_threads hstep with ⟨hcrashed, hpos⟩ | ⟨hcrashed, g', hthreads, hlt⟩
  · simp only [loadOf, hcrashed, hrun, if_true, Bool.false_eq_true, if_false]
    by_cases hij : i = j
    · subst hij
      simp only [hg, Option.elim_some, decide_true, Bool.toNat_true]
      omega
    · simp [hij]
  · simp only [loadOf, hcrashed, hrun, hthreads, Bool.false_eq_true, if_false]
    by_cases hij : i = j
    · subst hij
      have hi : i < s.threads.length := (List.getElem?_eq_some_iff.1 hg).1
      rw [List.getElem?_set_self hi, hg]
      simpa [Nat.succ_le_iff] using hlt
    · rw [List.getElem?_set_ne hij]
      simp [hij]

theorem step_eq_some : s.step prog i e = some s' ↔
    s.crashed = false ∧ ∃ g, s.threads[i]? = some g ∧ s.advance prog i g e = some s' := by
  unfold Process.step
  cases s.crashed <;> simp [Option.bind_eq_some_iff]

/-- The goroutines that are there go on, in any order. -/
def machine (prog : Program L P D E) : Machine (Process L P D) (ℕ × E) where
  Init _ := True
  step s a := s.step prog a.1 a.2

theorem Ledger.run (h : dis.Ledger s) {tr : List (Process L P D × (ℕ × E))}
    (hrun : (machine prog).Run s tr t) : dis.Ledger t := by
  refine hrun.preserves h ?_
  intro s a s' hs hstep
  obtain ⟨_, g, hg, hadv⟩ := step_eq_some.1 hstep
  exact hs.advance hg hadv

/-- **Runs are bounded**, for each goroutine by what it has before it. -/
theorem countP_le {tr : List (Process L P D × (ℕ × E))} (hrun : (machine prog).Run s tr t)
    (j : ℕ) : tr.countP (fun q => decide (q.2.1 = j)) + dis.loadOf j t ≤ dis.loadOf j s := by
  refine hrun.countP_add_rank_le (p := fun a => decide (a.1 = j)) trivial
    (fun _ _ _ _ _ => trivial) ?_
  intro s a s' _ hstep
  obtain ⟨hcrashed, g, hg, hadv⟩ := step_eq_some.1 hstep
  exact dis.loadOf_advance hcrashed hg hadv j

theorem length_le {tr : List (Process L P D × (ℕ × E))} (hrun : (machine prog).Run s tr t) :
    tr.length + dis.load t ≤ dis.load s := by
  have hlt : ∀ s (a : ℕ × E) s', True → (machine prog).step s a = some s' →
      dis.load s' + ((fun _ => true) a : Bool).toNat ≤ dis.load s := by
    intro s a s' _ hstep
    obtain ⟨hcrashed, g, hg, hadv⟩ := step_eq_some.1 hstep
    exact dis.load_advance hcrashed hg hadv
  simpa using hrun.countP_add_rank_le trivial (fun _ _ _ _ _ => trivial) hlt

end Discipline

end Tunnel.Lib
