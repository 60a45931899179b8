import Tunnel.Server.Node

set_option autoImplicit false

/-! # Ghosts in the peer graph (`server/gossip.go`, `server/peers.go`)

An update that another node gossips is decoded by `MergeRemoteState`, waits in `updatesCh`, is taken
by `handleMerge` and put into the graph by `Replace`, in two steps when the graph has another update
of that peer. `removePeer` deletes the entry of a peer in one step and does not look at the updates
on their way.

An update that gets to `Replace` after the deletion therefore brings the entry back, although it was
received before (`peerGraph_ghost`). Peer IDs are not used again, so nobody removes it a second
time. Whether a peer has an entry is decided by the last of two kinds of steps: the `LoadOrStore` of
an update of it, or a deletion in `removePeer` while `Replace` is not about to store one
(`peerGraph_no_ghost_iff`). -/

namespace Tunnel.Server

open Tunnel.Lib Tunnel.State

/-- The call of `removePeer` has returned. -/
def RemoverPc.hasReturned : RemoverPc → Bool
  | .returned _ => true
  | .watching | .exited | .graph | .remove _ | .send _ => false

/-- A node with the updates on their way to its graph: `receiving` are those of the calls of
    `MergeRemoteState` that are at their send on `updatesCh`. -/
structure GossipNode (F : Type) where
  node : Node F
  receiving : List (ConnectedClients F)
  updatesCh : Chan (ConnectedClients F) 16

namespace GossipNode

variable {F : Type}

def init : GossipNode F := ⟨Node.init, [], Chan.empty⟩

/-- A step: the node does something other than taking an update; `MergeRemoteState` is called with
    an update and decodes it; the `i`-th such call sends it; `handleMerge` receives the next one. -/
inductive Action (F : Type)
  | node (a : Node.Action F)
  | receive (c : ConnectedClients F)
  | enqueue (i : ℕ)
  | handle

/-- One step (gossip.go:230-236 and 331-334, and those of the node). -/
def step (cfg : LeaderConfig) (s : GossipNode F) : Action F → Option (GossipNode F)
  | .node (.merge _) => none
  | .node a => (s.node.step cfg a).map (fun n => { s with node := n })
  | .receive c => some { s with receiving := s.receiving ++ [c] }
  | .enqueue i =>
      s.receiving[i]?.bind (fun c => (s.updatesCh.send c).map (fun ch =>
        { s with receiving := s.receiving.eraseIdx i, updatesCh := ch }))
  | .handle =>
      s.updatesCh.recv.bind (fun next => (s.node.mergeStep cfg next.1).map (fun n =>
        { s with node := n, updatesCh := next.2 }))

/-- A node that receives gossip, over every interleaving. -/
def machine (F : Type) (cfg : LeaderConfig) : Machine (GossipNode F) (Action F) where
  Init s := s = init
  step s a := s.step cfg a

/-- Some call `removePeer(p)` has returned. -/
def Removed (p : UInt64) (s : GossipNode F) : Prop :=
  ∃ r ∈ s.node.removers, r.peer = p ∧ r.pc.hasReturned = true

instance (p : UInt64) (s : GossipNode F) : Decidable (Removed p s) :=
  inferInstanceAs (Decidable (∃ r ∈ s.node.removers, _))

/-- `handleMerge` waits for the next update. -/
def Waiting (s : GossipNode F) : Prop := s.node.merge = .ranging

instance (s : GossipNode F) : Decidable s.Waiting :=
  inferInstanceAs (Decidable (s.node.merge = .ranging))

/-- The graph has an entry for `p`. -/
def HasEntry (p : UInt64) (s : GossipNode F) : Prop :=
  (SyncMap.load s.node.peerGraph p).isSome = true

/-- `Replace` is about to store an update of `p`. -/
def Storing (p : UInt64) (s : GossipNode F) : Prop := ∃ c, s.node.merge = .store c ∧ c.peer = p

/-- The step in which `Replace` does the `LoadOrStore` of an update of `p`. -/
def Loads (p : UInt64) (s : GossipNode F) (a : Action F) : Prop :=
  a = .node .mergeLoad ∧ ∃ c, s.node.merge = .load c ∧ c.peer = p

/-- The step in which a `removePeer(p)` deletes the entry, with no store of one to come. -/
def Deletes (p : UInt64) (s : GossipNode F) (a : Action F) : Prop :=
  (∃ i r, a = .node (.remove i) ∧ s.node.removers[i]? = some r ∧ r.pc = .graph ∧ r.peer = p) ∧
    ¬ Storing p s

/-! ## One step -/

variable {cfg : LeaderConfig} {s s' : GossipNode F} {a : Action F} {p : UInt64}

/-- The entry of `p` is there, or is about to be stored. -/
def Lingers (p : UInt64) (s : GossipNode F) : Prop := HasEntry p s ∨ Storing p s

theorem not_storing (h : ∀ c, s.node.merge ≠ .store c) : ¬ Storing p s := by
  rintro ⟨c, hc, _⟩
  exact h c hc

theorem deletes_remove_iff {i : ℕ} {r : Remover} (hr : s.node.removers[i]? = some r) :
    Deletes p s (.node (.remove i)) ↔ (r.pc = .graph ∧ r.peer = p) ∧ ¬ Storing p s := by
  constructor
  · rintro ⟨⟨i', r', ha, hr', hpc, hp⟩, hstoring⟩
    simp only [Action.node.injEq, Node.Action.remove.injEq] at ha
    subst ha
    rw [hr, Option.some.injEq] at hr'
    subst hr'
    exact ⟨⟨hpc, hp⟩, hstoring⟩
  · rintro ⟨⟨hpc, hp⟩, hstoring⟩
    exact ⟨⟨i, r, rfl, hr, hpc, hp⟩, hstoring⟩

/-- A step that is not one of a remover deletes nothing. -/
theorem not_deletes (h : ∀ i, a ≠ .node (.remove i)) : ¬ Deletes p s a := by
  rintro ⟨⟨i, r, ha, _⟩, _⟩
  exact h i ha

theorem not_loads (h : a ≠ .node .mergeLoad) : ¬ Loads p s a := fun hloads => h hloads.1

theorem loads_mergeLoad_iff {c : ConnectedClients F} (hpc : s.node.merge = .load c) :
    Loads p s (.node .mergeLoad) ↔ c.peer = p := by
  constructor
  · rintro ⟨_, d, hd, hp⟩
    rw [hpc, MergePc.load.injEq] at hd
    exact hd ▸ hp
  · exact fun hp => ⟨rfl, c, hpc, hp⟩

/-- An entry that is stored is there, and that of another peer stays. -/
theorem hasEntry_store {n : Node F} {c : ConnectedClients F} :
    (SyncMap.load (SyncMap.store n.peerGraph c.peer c) p).isSome = true ↔
      c.peer = p ∨ (SyncMap.load n.peerGraph p).isSome = true := by
  by_cases hp : c.peer = p
  · simp [← hp]
  · simp [SyncMap.load_store_ne _ _ (Ne.symm hp), hp]

/-- **One step of the node.** The entries are touched in three ways: `Replace` does its
    `LoadOrStore`, or finishes a store, which keeps what lingers, and `removePeer` deletes. -/
theorem node_step_lingers {b : Node.Action F} {n' : Node F} (h : Node.Step cfg s.node b n') :
    Lingers p { s with node := n' } ↔
      Loads p s (.node b) ∨ Lingers p s ∧ ¬ Deletes p s (.node b) := by
  -- every rule but a few leaves the graph and `Replace` as they are, and deletes nothing
  have hkeep : n'.peerGraph = s.node.peerGraph →
      (∀ c, n'.merge = .store c ↔ s.node.merge = .store c) → b ≠ .mergeLoad →
      ¬ Deletes p s (.node b) → (Lingers p { s with node := n' } ↔
        Loads p s (.node b) ∨ Lingers p s ∧ ¬ Deletes p s (.node b)) := by
    intro hgraph hstores hb hnot
    rw [or_iff_right (not_loads (by simpa using hb)), and_iff_left hnot]
    simp only [Lingers, HasEntry, Storing, hgraph, hstores]
  cases h with
  | @graph i r hr hpc =>
      rw [or_iff_right (not_loads (by simp)), deletes_remove_iff hr]
      by_cases hstoring : Storing p s
      · -- the store to come outlives the deletion
        exact iff_of_true (Or.inr hstoring) ⟨Or.inr hstoring, fun hdel => hdel.2 hstoring⟩
      by_cases hp : r.peer = p
      · refine iff_of_false ?_ (fun hlin => hlin.2 ⟨⟨hpc, hp⟩, hstoring⟩)
        rintro (hentry | hst)
        · exact absurd hentry (by simp [HasEntry, PeerGraph.remove, hp])
        · exact hstoring hst
      · have hload : SyncMap.load (s.node.peerGraph.remove r.peer) p
            = SyncMap.load s.node.peerGraph p := SyncMap.load_delete_ne _ (Ne.symm hp)
        simp only [Lingers, HasEntry, Storing, hload, hp, and_false, false_and, not_false_eq_true,
          and_true]
  | @mergeNew c hpc hload =>
      have hbefore : ¬ Storing p s := not_storing (by simp [hpc])
      rw [loads_mergeLoad_iff hpc, and_iff_left (not_deletes (by simp)), Lingers, Lingers,
        or_iff_left hbefore, or_iff_left (not_storing (by simp))]
      exact hasEntry_store
  | @mergeSame c old hpc hload hcrc =>
      have hbefore : ¬ Storing p s := not_storing (by simp [hpc])
      rw [loads_mergeLoad_iff hpc, and_iff_left (not_deletes (by simp)), Lingers, Lingers,
        or_iff_left hbefore, or_iff_left (not_storing (by simp))]
      refine (or_iff_right_of_imp fun hp => ?_).symm
      rw [HasEntry, ← hp, hload, Option.isSome_some]
  | @mergeDiffer c old hpc hload hcrc =>
      have hbefore : ¬ Storing p s := not_storing (by simp [hpc])
      rw [loads_mergeLoad_iff hpc, and_iff_left (not_deletes (by simp)), Lingers, Lingers,
        or_iff_left hbefore, or_comm]
      exact or_congr (by simp [Storing]) Iff.rfl
  | @mergeStore c hpc =>
      have hbefore : Storing p s ↔ c.peer = p := by simp [Storing, hpc]
      rw [or_iff_right (not_loads (by simp)), and_iff_left (not_deletes (by simp)), Lingers,
        Lingers, or_iff_left (not_storing (by simp)), hbefore, or_comm]
      exact hasEntry_store
  | mergeOwn => exact hkeep rfl (fun _ => Iff.rfl) (by simp) (not_deletes (by simp))
  | mergeTake hpc => exact hkeep rfl (by simp [hpc]) (by simp) (not_deletes (by simp))
  | fire hr hpc _ _ =>
      exact hkeep rfl (fun _ => Iff.rfl) (by simp) (by simp [deletes_remove_iff hr, hpc])
  | absent hr hpc _ =>
      exact hkeep rfl (fun _ => Iff.rfl) (by simp) (by simp [deletes_remove_iff hr, hpc])
  | delete hr hpc _ =>
      exact hkeep rfl (fun _ => Iff.rfl) (by simp) (by simp [deletes_remove_iff hr, hpc])
  | count hr hpc _ =>
      exact hkeep rfl (fun _ => Iff.rfl) (by simp) (by simp [deletes_remove_iff hr, hpc])
  | bye hr hpc =>
      exact hkeep rfl (fun _ => Iff.rfl) (by simp) (by simp [deletes_remove_iff hr, hpc])
  | sendRemoved hr hpc _ =>
      exact hkeep rfl (fun _ => Iff.rfl) (by simp) (by simp [deletes_remove_iff hr, hpc])
  | _ => exact hkeep rfl (fun _ => Iff.rfl) (by simp) (not_deletes (by simp))

/-- What a step does to the node: nothing, or one step of the node, which takes an update exactly if
    `handleMerge` does. -/
theorem step_node (h : s.step cfg a = some s') :
    s'.node = s.node ∧ (∀ b, a ≠ .node b) ∨
      (∃ b, a = .node b ∧ Node.Step cfg s.node b s'.node) ∨
      a = .handle ∧ ∃ c, Node.Step cfg s.node (.merge c) s'.node := by
  cases a with
  | node b =>
      refine Or.inr (Or.inl ⟨b, rfl, ?_⟩)
      cases b with
      | merge c => cases h
      | _ =>
          simp only [step, Option.map_eq_some_iff] at h
          obtain ⟨n', hn, rfl⟩ := h
          exact Node.step_rule hn
  | receive c =>
      cases h
      exact Or.inl ⟨rfl, by simp⟩
  | enqueue i =>
      obtain ⟨c, _, hc⟩ := Option.bind_eq_some_iff.1 h
      obtain ⟨ch, _, rfl⟩ := Option.map_eq_some_iff.1 hc
      exact Or.inl ⟨rfl, by simp⟩
  | handle =>
      obtain ⟨next, _, hc⟩ := Option.bind_eq_some_iff.1 h
      obtain ⟨n', hn, rfl⟩ := Option.map_eq_some_iff.1 hc
      exact Or.inr (Or.inr ⟨rfl, next.1, Node.mergeStep_rule hn⟩)

/-- **One step.** What lingers of `p` came with a `LoadOrStore`, and goes only by a deletion. -/
theorem step_lingers (h : s.step cfg a = some s') :
    Lingers p s' ↔ Loads p s a ∨ Lingers p s ∧ ¬ Deletes p s a := by
  have hnode : Lingers p s' ↔ Lingers p { s with node := s'.node } := Iff.rfl
  rw [hnode]
  rcases step_node h with ⟨hsame, hne⟩ | ⟨b, rfl, hb⟩ | ⟨rfl, c, hc⟩
  · rw [hsame, or_iff_right (not_loads (hne _)), and_iff_left (not_deletes fun i => hne _)]
  · exact node_step_lingers hb
  · rw [node_step_lingers hc, or_iff_right (not_loads (by simp)),
      or_iff_right (not_loads (by simp)), and_iff_left (not_deletes (by simp)),
      and_iff_left (not_deletes (by simp))]

/-! ## Whole runs -/

theorem not_lingers_init : ¬ Lingers p (init : GossipNode F) := by
  rintro (hentry | ⟨c, hc, _⟩)
  · simp [HasEntry, init, Node.init] at hentry
  · cases hc

/-- **Which peers have an entry.** While `handleMerge` waits, the graph has no entry for `p` exactly
    if every `LoadOrStore` of an update of `p` was followed by a deletion, and not one between it
    and the `Store` of the same `Replace`. -/
theorem peerGraph_no_ghost_iff {tr : List (GossipNode F × Action F)} {t : GossipNode F}
    (h : (machine F cfg).Run init tr t) (hwait : t.Waiting) :
    SyncMap.load t.node.peerGraph p = none ↔ ¬ Machine.LastSet (Loads p) (Deletes p) tr := by
  have hstoring : ¬ Storing p t := by
    refine not_storing fun c hc => ?_
    rw [hwait] at hc
    cases hc
  have hentry : Lingers p t ↔ ¬ SyncMap.load t.node.peerGraph p = none := by
    rw [Lingers, or_iff_left hstoring, HasEntry, Option.isSome_iff_ne_none]
  rw [← not_iff_not, ← hentry, not_not]
  exact h.holds_iff_lastSet not_lingers_init (fun _ _ _ hstep => step_lingers hstep)

/-- An update of peer 7. -/
def updateOf7 : ConnectedClients Unit := ⟨7, 0, ()⟩

/-- The update is in the graph before gossip reports peer 7 dead and `removePeer(7)` runs. -/
def handledRun : List (Action Unit) :=
  [Action.receive updateOf7, .enqueue 0, .handle, .node .mergeLoad, .node (.leave 7)] ++
    List.replicate 3 (Action.node (.remove 0))

theorem peerGraph_no_ghost_iff_handled :
    ∃ tr t, (machine Unit ⟨1, false⟩).Run init tr t ∧ t.Waiting ∧ Removed 7 t ∧
      ¬ Machine.LastSet (Loads 7) (Deletes 7) tr := by
  obtain ⟨t, hrun, hwait, hremoved, hload⟩ := (machine Unit ⟨1, false⟩).run_of_exec_any init
    handledRun (P := fun t => t.Waiting ∧ Removed 7 t ∧ SyncMap.load t.node.peerGraph 7 = none)
    (by decide)
  exact ⟨_, t, hrun, hwait, hremoved, (peerGraph_no_ghost_iff hrun hwait).1 hload⟩

/-- The update waits in `updatesCh` while `removePeer(7)` runs to its end. -/
def bufferedRun : List (Action Unit) :=
  [Action.receive updateOf7, .enqueue 0, .node (.leave 7)] ++
    List.replicate 3 (Action.node (.remove 0))

/-- `handleMerge` takes the update, and `Replace` looks for an entry of peer 7. -/
def lateRun : List (Action Unit) := [.handle, .node .mergeLoad]

/-- `removePeer(7)` has completed in `u`, no update is received after that, `updatesCh` is drained
    and `handleMerge` waits; and peer 7 has an entry. -/
theorem peerGraph_ghost :
    ∃ u tr t, (machine Unit ⟨1, false⟩).Reachable u ∧ Removed 7 u ∧
      (machine Unit ⟨1, false⟩).Run u tr t ∧ (∀ q ∈ tr, ∀ c, q.2 ≠ .receive c) ∧
      t.receiving = [] ∧ t.updatesCh.IsEmpty ∧ t.Waiting ∧
      SyncMap.load t.node.peerGraph 7 = some updateOf7 := by
  obtain ⟨u, hreach, hremoved, hrest⟩ := (machine Unit ⟨1, false⟩).reachable_of_exec_any rfl
    bufferedRun (P := fun u => Removed 7 u ∧
      ((machine Unit ⟨1, false⟩).exec u lateRun).any (fun t => decide (t.receiving = [] ∧
        t.updatesCh.IsEmpty ∧ t.Waiting ∧ SyncMap.load t.node.peerGraph 7 = some updateOf7)) = true)
    (by decide)
  obtain ⟨t, hrun, hend⟩ := (machine Unit ⟨1, false⟩).run_of_exec_any u lateRun hrest
  refine ⟨u, _, t, hreach, hremoved, hrun, ?_, hend⟩
  intro q hq c hreceive
  have hact := Machine.mem_of_mem_trace hq
  rw [hreceive] at hact
  simp [lateRun] at hact

end GossipNode

end Tunnel.Server
