import Tunnel.Server.Cluster

set_option autoImplicit false

/-! # When a node knows where a client is (`server/gossip.go`)

`Replace` keeps no versions: whichever transfer of a node is merged last decides what is known of
it, and an older one may be merged after a newer one. So a change of the clients of `x` is known at
`j` for good when the transfers from before it are gone, and one from after it has been merged.

That is the theorem of this file, from the clients that connect at one end to the path that is found
at the other: once the events of the clients of `x` have been dealt with and what is on its way from
`x` to `j` is what `x` has in its cache, then, as long as the clients of `x` stay as they are and
`j` does not remove `x`, the first transfer that is merged makes the peer graph of `j` answer for
`x` as a filter of exactly its clients does, and it stays so, whatever else happens in the cluster
(`gossip_converges`). -/

namespace Tunnel.Server

open Tunnel.Lib Tunnel.Multiplexer Tunnel.State

/-- A client that is connected elsewhere and that one filter alone claims is found where that filter
    says, in every order of enumeration. -/
theorem Router.findPath_of_claims {F : Type} {lib : FilterLib F} (r : Router lib) {link : Link}
    {x : UInt64} {p : Session} (hlocal : r.clients.get link.destination = none)
    (hp : r.peers.get x = some p) (hclaims : r.peerGraph.Claims lib link.destination x)
    (hothers : ∀ y, y ≠ x → ¬ r.peerGraph.Claims lib link.destination y)
    {order : List (PeerGraph.Entry F)} (horder : order.Perm r.peerGraph.entries) :
    r.findPath order link = some (.peer p) := by
  have hwho : PeerGraph.who lib order link.destination = x := by
    rcases PeerGraph.mem_who.1 ⟨order, horder, rfl⟩ with hwho | ⟨_, hnone⟩
    · by_contra hne
      exact hothers _ hne hwho
    · exact absurd hclaims (hnone x)
  simp only [Router.findPath, hlocal, hwho, hp, Option.map_some]

namespace Cluster

variable {lib : FilterLib BinaryFuse8} {debug : Bool} {s s' : Cluster} {a : Action}
  {vs : List Cluster} {x j : UInt64}

/-! ## The parts of a cluster -/

/-- The clients of a node of a cluster are those of some node. -/
theorem clients_of_run {tr : List (Cluster × Action)} {t : Cluster}
    (h : (machine lib debug).Run s tr t) (x : UInt64) :
    ∃ tr', (Clients.machine lib x).Run (s.clients x) tr' (t.clients x) := by
  refine Machine.Run.simulate (fun s => s.clients x) h ?_
  intro s a s' hstep
  cases step_rule hstep with
  | @clients y a c hc =>
      by_cases hx : x = y
      · subst hx
        refine Or.inl ⟨a, ?_⟩
        simp only [Function.update_self]
        exact hc
      · exact Or.inr (Function.update_of_ne hx _ _)
  | _ => exact Or.inr rfl

/-- At quiescence a node has a filter of exactly its clients in its cache. -/
theorem cache_of_quiescent
    (hpop : ∀ keys : List UInt64, keys.Nodup → ∃ f, lib.populate keys = .ok f)
    {tr : List (Cluster × Action)} (h : (machine lib debug).Run init tr s)
    (hq : (s.clients x).Quiescent) (hreg : (s.clients x).registered ≠ []) :
    ∃ b, (s.clients x).connectedClients = some b ∧ Clients.Current lib x (s.clients x) b := by
  obtain ⟨tr', hrun⟩ := clients_of_run h x
  have hor : Clients.Pending (s.clients x) ∨ Clients.Fresh lib x (s.clients x) := by
    refine hrun.preserves (I := fun c => Clients.Pending c ∨ Clients.Fresh lib x c)
      (Or.inr (fun habs => absurd rfl habs)) ?_
    intro c a c' hc hstep
    exact Clients.step_pending_or_fresh hpop hstep hc
  have hfresh := hor.resolve_left hq.not_pending
  simp only [Clients.Fresh, hq.waiting] at hfresh
  exact hfresh hreg

/-- The node of a cluster has what it needs to route. -/
theorem routes_of_run {tr : List (Cluster × Action)} (hsmall : Small lib)
    (h : (machine lib debug).Run init tr s) (j : UInt64) :
    (s.node j).Routes lib ⟨j, debug⟩ := by
  have hboth : Honest lib (Machine.visited tr s) s ∧ ∀ j, (s.node j).Routes lib ⟨j, debug⟩ := by
    refine Machine.Run.invariant_history
      (I := fun vs s => Honest lib vs s ∧ ∀ j, (s.node j).Routes lib ⟨j, debug⟩) h
      ⟨honest_init, fun j => Node.Routes.init⟩ ?_
    intro vs s a s' hs hstep
    obtain ⟨hs, hroutes⟩ := hs
    have hrule := step_rule hstep
    refine ⟨hrule.honest hsmall hs, ?_⟩
    cases hrule with
    | @node i a n ha hn =>
        have hok : Node.HonestUpdates lib (s.node i) a := by
          cases a with
          | merge c => cases ha
          | _ => trivial
        exact forall_update (P := fun j n => Node.Routes lib ⟨j, debug⟩ n) hroutes
          ((hroutes i).step hok hn)
    | @merge i c ch n hch hn =>
        have hmem : c ∈ (s.updatesCh i).buf := by
          rw [Chan.recv_eq_some.1 hch]
          exact List.mem_cons_self
        have hok : Node.HonestUpdates lib (s.node i) (.merge c) := hs.built_of_received hsmall hmem
        exact forall_update (P := fun j n => Node.Routes lib ⟨j, debug⟩ n) hroutes
          ((hroutes i).step hok hn)
    | _ => exact hroutes
  exact hboth.2 j

/-! ## What is on its way -/

/-- The update `c` is on its way into the peer graph of `j`: in transfer, in `updatesCh`, or in the
    hands of `handleMerge`. -/
def OnTheWay (s : Cluster) (j : UInt64) (c : ConnectedClients BinaryFuse8) : Prop :=
  (∃ t ∈ s.network, t.dest = j ∧ t.buf = c.marshalBinary) ∨ c ∈ (s.updatesCh j).buf ∨
    (s.node j).merge.pending = some c

/-- What is on its way from `x` to `j` is what `x` has in its cache now. -/
def Drained (s : Cluster) (x j : UInt64) : Prop :=
  ∀ c, c.peer = x → OnTheWay s j c → (s.clients x).connectedClients = some c.marshalBinary

/-- The steps that neither change the clients of `x` nor take `x` out of the peer graph of `j`. -/
def Undisturbed (x j : UInt64) (s : Cluster) : Action → Prop
  | .clients y _ => y ≠ x
  | .node i (.remove k) =>
      i = j → (s.node j).removers[k]?.all (fun r => r.peer ≠ x ∨ r.pc ≠ .graph) = true
  | _ => True

/-- `j` does the `LoadOrStore` of an update of `x`. -/
def Merges (x j : UInt64) (s : Cluster) : Action → Prop
  | .node i .mergeLoad => i = j ∧ (s.node j).merge.pending.any (fun c => c.peer = x) = true
  | _ => False

instance (x j : UInt64) (s : Cluster) (a : Action) : Decidable (Merges x j s a) := by
  unfold Merges
  split <;> infer_instance

theorem marshalBinary_ne_nil (c : ConnectedClients BinaryFuse8) : c.marshalBinary ≠ [] := by
  have hlen := length_marshalBinary c
  intro hnil
  rw [hnil, List.length_nil] at hlen
  omega

/-- A node sends what is in its cache, and that is about itself. -/
theorem Honest.exchanged (hs : Honest lib vs s) (hsmall : Small lib) {y : UInt64}
    {c : ConnectedClients BinaryFuse8} (h : localState (s.clients y) = c.marshalBinary) :
    c.peer = y ∧ (s.clients y).connectedClients = some c.marshalBinary := by
  cases hcache : (s.clients y).connectedClients with
  | none =>
      rw [localState, hcache, Option.getD_none] at h
      exact absurd h.symm (marshalBinary_ne_nil c)
  | some b =>
      rw [localState, hcache, Option.getD_some] at h
      subst h
      obtain ⟨clients, d, hd, hsame, _⟩ := (hs.own y).cache _ hcache
      rw [eq_of_marshalBinary_eq (hsmall.of_built hd) hsame]
      exact ⟨(newConnectedClients_ok hd).1, rfl⟩

/-- What arrives was on its way. -/
theorem Honest.delivered (hs : Honest lib vs s) (hsmall : Small lib) {t : Transfer}
    (ht : t ∈ s.network) {c : ConnectedClients BinaryFuse8}
    (hc : Decoded.zero.unmarshalBinary t.buf = (⟨c.peer, c.crc64, some c.f⟩, .ok ())) :
    OnTheWay s t.dest c := by
  refine Or.inl ⟨t, ht, rfl, ?_⟩
  rcases hs.network t ht with hnil | ⟨y, hy⟩
  · simp [hnil, Decoded.unmarshalBinary] at hc
  · exact ((hs.built y _ hy).decode hsmall hc).2

/-- What is on its way after a step was on its way before it, or was sent by it. -/
theorem Step.onTheWay (h : Step lib debug s a s') (hs : Honest lib vs s) (hsmall : Small lib)
    {c : ConnectedClients BinaryFuse8} (hc : OnTheWay s' j c) :
    OnTheWay s j c ∨ (s.clients c.peer).connectedClients = some c.marshalBinary := by
  have herase : ∀ k, (∃ t ∈ s.network.eraseIdx k, t.dest = j ∧ t.buf = c.marshalBinary) →
      ∃ t ∈ s.network, t.dest = j ∧ t.buf = c.marshalBinary := by
    intro k ht
    obtain ⟨t, ht, hdest⟩ := ht
    exact ⟨t, List.mem_of_mem_eraseIdx ht, hdest⟩
  cases h with
  | clients hc' => exact Or.inl hc
  | @node i a n ha hn =>
      refine Or.inl (hc.imp_right (Or.imp_right ?_))
      intro hstore
      by_cases hi : j = i
      · subst hi
        simp only [Function.update_self] at hstore
        exact (node_step ha hn).2 c hstore
      · simp only [Function.update_of_ne hi] at hstore
        exact hstore
  | exchange y i =>
      rcases hc with ⟨t, ht, hdest, hbuf⟩ | hrest
      · rcases List.mem_append.1 ht with ht | ht
        · exact Or.inl (Or.inl ⟨t, ht, hdest, hbuf⟩)
        · rw [List.mem_singleton.1 ht] at hbuf
          obtain ⟨rfl, hcache⟩ := hs.exchanged hsmall hbuf
          exact Or.inr hcache
      · exact Or.inl (Or.inr hrest)
  | lose => exact Or.inl (hc.imp_left (herase _))
  | drop => exact Or.inl (hc.imp_left (herase _))
  | @deliver k t d ch ht hd hch =>
      refine Or.inl ?_
      rcases hc with hnet | hbuf | hstore
      · exact Or.inl (herase _ hnet)
      · by_cases hj : j = t.dest
        · subst hj
          simp only [Function.update_self, (Chan.send_eq_some.1 hch).2] at hbuf
          rcases List.mem_append.1 hbuf with hold | hnew
          · exact Or.inr (Or.inl hold)
          · rw [List.mem_singleton.1 hnew]
            exact hs.delivered hsmall (List.mem_of_getElem? ht) hd
        · simp only [Function.update_of_ne hj] at hbuf
          exact Or.inr (Or.inl hbuf)
      · exact Or.inr (Or.inr hstore)
  | @merge i d ch n hch hn =>
      refine Or.inl (hc.imp_right ?_)
      intro hrest
      by_cases hi : j = i
      · subst hi
        simp only [Function.update_self] at hrest
        have hbuf := Chan.recv_eq_some.1 hch
        rcases hrest with hold | hstore
        · rw [hbuf]
          exact Or.inl (List.mem_cons_of_mem d hold)
        · cases hn with
          | mergeOwn => exact Or.inr hstore
          | mergeTake =>
              cases hstore
              rw [hbuf]
              exact Or.inl List.mem_cons_self
      · simp only [Function.update_of_ne hi] at hrest
        exact hrest

/-! ## What `j` knows of `x` -/

/-- The cache of `x` stays, what is on its way from `x` to `j` is what `x` has in it, and what `j`
    has in its graph for `x` is that or what it had there at first. -/
structure Settling (lib : FilterLib BinaryFuse8) (x j : UInt64)
    (first : Option (ConnectedClients BinaryFuse8)) (d : ConnectedClients BinaryFuse8)
    (s : Cluster) : Prop where
  honest : ∃ vs, Honest lib vs s
  cache : (s.clients x).connectedClients = some d.marshalBinary
  coming : ∀ c, c.peer = x → OnTheWay s j c → c = d
  entry : ∀ c, SyncMap.load (s.node j).peerGraph x = some c → c = d ∨ first = some c

/-- `j` has what `x` has in its cache, or is about to store it. -/
def Knows (x j : UInt64) (d : ConnectedClients BinaryFuse8) (s : Cluster) : Prop :=
  SyncMap.load (s.node j).peerGraph x = some d ∨ (s.node j).merge = .store d

theorem Knows.load {d : ConnectedClients BinaryFuse8} (h : Knows x j d s)
    (hidle : (s.node j).merge = .ranging) : SyncMap.load (s.node j).peerGraph x = some d :=
  h.resolve_right (by simp [hidle])

/-- **Step lemma.** -/
theorem Settling.step (hsmall : Small lib) {first : Option (ConnectedClients BinaryFuse8)}
    {d : ConnectedClients BinaryFuse8} (hd : d.f.fingerprints.length < 2 ^ 63)
    (hs : Settling lib x j first d s) (hok : Undisturbed x j s a)
    (h : Step lib debug s a s') : Settling lib x j first d s' := by
  obtain ⟨vs, hhonest⟩ := hs.honest
  have hcoming : ∀ c, c.peer = x → OnTheWay s' j c → c = d := by
    intro c hpeer hc
    rcases h.onTheWay hhonest hsmall hc with hold | hsent
    · exact hs.coming c hpeer hold
    · rw [hpeer, hs.cache, Option.some.injEq] at hsent
      exact eq_of_marshalBinary_eq hd hsent.symm
  refine ⟨⟨_, h.honest hsmall hhonest⟩, ?_, hcoming, ?_⟩
  · cases h with
    | @clients y a c hc =>
        simp only [Function.update_of_ne (Ne.symm hok)]
        exact hs.cache
    | _ => exact hs.cache
  · intro c hc
    cases h with
    | @node i a n ha hn =>
        by_cases hi : j = i
        · subst hi
          simp only [Function.update_self] at hc
          rcases (node_step ha hn).1 x c hc with hold | ⟨hpeer, hstore⟩
          · exact hs.entry c hold
          · exact Or.inl (hs.coming c hpeer (Or.inr (Or.inr hstore)))
        · simp only [Function.update_of_ne hi] at hc
          exact hs.entry c hc
    | @merge i e ch n hch hn =>
        by_cases hi : j = i
        · subst hi
          simp only [Function.update_self] at hc
          cases hn <;> exact hs.entry c hc
        · simp only [Function.update_of_ne hi] at hc
          exact hs.entry c hc
    | _ => exact hs.entry c hc

/-- A remover that takes its step does not take `x` out of the graph. -/
theorem Undisturbed.kept {a : Node.Action BinaryFuse8} (h : Undisturbed x j s (.node j a)) (k : ℕ)
    (ha : a = .remove k) (r : Remover) (hr : (s.node j).removers[k]? = some r)
    (hpc : r.pc = .graph) : r.peer ≠ x := by
  subst ha
  have hall := h rfl
  rw [hr, Option.all_some, decide_eq_true_eq] at hall
  exact hall.resolve_right (fun hne => hne hpc)

/-- The `LoadOrStore` of an update of `x` makes `j` know `x`. -/
theorem Settling.knows_of_merges {first : Option (ConnectedClients BinaryFuse8)}
    {d : ConnectedClients BinaryFuse8}
    (hcrc : ∀ old, first = some old → old.crc64 = d.crc64 → old = d)
    (hs : Settling lib x j first d s) (hmerges : Merges x j s a) (h : Step lib debug s a s') :
    Knows x j d s' := by
  unfold Merges at hmerges
  split at hmerges
  · next i =>
      obtain ⟨rfl, hpeer⟩ := hmerges
      have hcd : ∀ c, (s.node i).merge = .load c → c = d ∧ c.peer = x := by
        intro c hpc
        rw [hpc, MergePc.pending, Option.any_some, decide_eq_true_eq] at hpeer
        exact ⟨hs.coming c hpeer (Or.inr (Or.inr (by simp [hpc]))), hpeer⟩
      cases h with
      | node ha hn =>
          simp only [Knows, Function.update_self]
          cases hn with
          | mergeNew hpc =>
              obtain ⟨rfl, rfl⟩ := hcd _ hpc
              exact Or.inl (SyncMap.load_store_self _ _ _)
          | mergeDiffer hpc =>
              obtain ⟨rfl, _⟩ := hcd _ hpc
              exact Or.inr rfl
          | @mergeSame c old hpc hload hsame =>
              -- an update with the checksum of the entry is skipped: the entry is the update
              obtain ⟨rfl, rfl⟩ := hcd _ hpc
              refine Or.inl ?_
              rcases hs.entry old hload with rfl | hfirst
              · exact hload
              · rwa [hcrc old hfirst hsame] at hload
  · exact hmerges.elim

/-- A step of `j` that does not take `x` out of the graph lets it go on knowing `x`. -/
theorem Settling.knows_node_step {first : Option (ConnectedClients BinaryFuse8)}
    {d : ConnectedClients BinaryFuse8} (hpeer : d.peer = x) (hs : Settling lib x j first d s)
    (hknows : Knows x j d s) {a : Node.Action BinaryFuse8} {n : Node BinaryFuse8}
    (hok : Undisturbed x j s (.node j a)) (h : Node.Step ⟨j, debug⟩ (s.node j) a n) :
    SyncMap.load n.peerGraph x = some d ∨ n.merge = .store d := by
  have hload : (∀ c, (s.node j).merge ≠ .store c) →
      SyncMap.load (s.node j).peerGraph x = some d := fun hpc => hknows.resolve_right (hpc d)
  cases h with
  | @graph k r hr hpc =>
      have hne : x ≠ r.peer := (hok.kept k rfl r hr hpc).symm
      exact hknows.imp_left (SyncMap.load_delete_ne _ hne).trans
  | mergeTake hpc => exact Or.inl (hload (by simp [hpc]))
  | @mergeNew c hpc hnone =>
      have hload := hload (by simp [hpc])
      have hx : x ≠ c.peer := by
        rintro rfl
        rw [hnone] at hload
        cases hload
      exact Or.inl ((SyncMap.load_store_ne _ _ hx).trans hload)
  | mergeSame hpc => exact Or.inl (hload (by simp [hpc]))
  | mergeDiffer hpc => exact Or.inl (hload (by simp [hpc]))
  | @mergeStore c hpc =>
      refine Or.inl ?_
      by_cases hx : x = c.peer
      · have hcd : c = d := hs.coming c hx.symm (Or.inr (Or.inr (by simp [hpc])))
        rw [hx, ← hcd]
        exact SyncMap.load_store_self _ _ _
      · rw [SyncMap.load_store_ne _ _ hx]
        refine hknows.resolve_right fun hd => ?_
        rw [hpc, MergePc.store.injEq] at hd
        exact hx (hd ▸ hpeer.symm)
  | _ => exact hknows

/-- `j` goes on knowing `x`. -/
theorem Settling.knows_step {first : Option (ConnectedClients BinaryFuse8)}
    {d : ConnectedClients BinaryFuse8} (hpeer : d.peer = x) (hs : Settling lib x j first d s)
    (hok : Undisturbed x j s a) (hknows : Knows x j d s) (h : Step lib debug s a s') :
    Knows x j d s' := by
  have hother : ∀ {i n}, j ≠ i →
      Knows x j d { s with node := Function.update s.node i n } := by
    intro i n hi
    simp only [Knows, Function.update_of_ne hi]
    exact hknows
  cases h with
  | @node i a n ha hn =>
      by_cases hi : j = i
      · subst hi
        simp only [Knows, Function.update_self]
        exact hs.knows_node_step hpeer hknows hok hn
      · exact hother hi
  | @merge i c ch n hch hn =>
      by_cases hi : j = i
      · subst hi
        have hmerge : Undisturbed x j s (.node j (.merge c)) := trivial
        simp only [Knows, Function.update_self]
        exact hs.knows_node_step hpeer hknows hmerge hn
      · exact hother hi
  | _ => exact hknows

/-- The clients of `x` stay as they are. -/
theorem clients_of_undisturbed {tr : List (Cluster × Action)} {t : Cluster}
    (h : (machine lib debug).Run s tr t) (hok : Machine.Meets (Undisturbed x j) tr) :
    t.clients x = s.clients x := by
  refine h.invariant (I := fun u => u.clients x = s.clients x) hok rfl ?_
  intro u a u' hu hok hstep
  cases step_rule hstep with
  | clients hc =>
      simp only [Function.update_of_ne (Ne.symm hok)]
      exact hu
  | _ => exact hu

/-- **Gossip converges.** The cluster has come to a state `s` in which the clients of the node `x`
    have been quiet for long enough: all their events have been consumed, and of the older states of
    `x` none is on its way to `j` any more. From there on anything may happen, in any order and with
    any losses, as long as the clients of `x` stay as they are and `j` does not take `x` out of its
    graph. If an update of `x` gets to `Replace` at `j` in this time and `handleMerge` waits again,
    then what `j` has for `x` is a filter of exactly the clients of `x`; and a stream for such a
    client takes the session with `x` if there is one, unless the client is connected to `j` itself
    or another filter claims it, too.

    `Replace` compares checksums and nothing else, so it is needed that the entry that `j` had, if
    it has the checksum of what `x` has in its cache, is the same. -/
theorem gossip_converges
    (hpop : ∀ keys : List UInt64, keys.Nodup → ∃ f, lib.populate keys = .ok f)
    (hsmall : Small lib) {tr tr' : List (Cluster × Action)} {t : Cluster}
    (hrun : (machine lib debug).Run init tr s) (hquiet : (s.clients x).Quiescent)
    (hreg : (s.clients x).registered ≠ []) (hdrained : Drained s x j)
    (hcrc : ∀ old d, SyncMap.load (s.node j).peerGraph x = some old →
      (s.clients x).connectedClients = some d.marshalBinary → old.crc64 = d.crc64 → old = d)
    (hrun' : (machine lib debug).Run s tr' t) (hok : Machine.Meets (Undisturbed x j) tr')
    (hmerges : ∃ p ∈ tr', Merges x j p.1 p.2) (hidle : (t.node j).merge = .ranging) :
    (∃ clients d, clients.Perm (t.clients x).keys ∧ newConnectedClients lib x clients = .ok d ∧
      SyncMap.load (t.node j).peerGraph x = some d) ∧
    ∃ hroutes : (t.node j).Routes lib ⟨j, debug⟩, ∀ (link : Link) (p : Session),
      link.destination ∈ (t.clients x).keys →
      (t.clients j).clients.get link.destination = none →
      (t.node j).peers.get x = some p →
      (∀ y, y ≠ x → ¬ (t.node j).peerGraph.Claims lib link.destination y) →
      ∀ order, order.Perm (t.node j).peerGraph.entries →
        (hroutes.router (t.clients j).clients).findPath order link = some (.peer p) := by
  obtain ⟨_, hcache, clients, d, hperm, hd, rfl⟩ := cache_of_quiescent hpop hrun hquiet hreg
  have hpeer : d.peer = x := (newConnectedClients_ok hd).1
  have hstart : Settling lib x j (SyncMap.load (s.node j).peerGraph x) d s := by
    refine ⟨⟨_, honest_of_run hsmall hrun⟩, hcache, ?_, fun c hc => Or.inr hc⟩
    intro c hc hway
    have hsame := hdrained c hc hway
    rw [hcache, Option.some.injEq] at hsame
    exact eq_of_marshalBinary_eq (hsmall.of_built hd) hsame.symm
  have hknows : Knows x j d t := by
    refine hrun'.holds_of_set hok hstart ?_ ?_ ?_ hmerges
    · intro u a u' hu hok hstep
      exact hu.step hsmall (hsmall.of_built hd) hok (step_rule hstep)
    · intro u a u' hu hset hstep
      exact hu.knows_of_merges (fun old hold => hcrc old d hold hcache) hset (step_rule hstep)
    · intro u a u' hu hknows hok hstep
      exact hu.knows_step hpeer hok hknows (step_rule hstep)
  have hload := hknows.load hidle
  rw [clients_of_undisturbed hrun' hok]
  refine ⟨⟨clients, d, hperm, hd, hload⟩, routes_of_run hsmall (hrun.append hrun') j, ?_⟩
  intro link p hclient hlocal hp hothers order horder
  refine Router.findPath_of_claims _ hlocal hp ⟨d, hload, ?_⟩ hothers horder
  exact (newConnectedClients_ok hd).2 _ (hperm.mem_iff.2 hclient)

/-! ## A second client

Node 2 has a session with node 1 and knows of its client 7 when client 8 connects there. -/

def secondClient : List Action :=
  [Action.node 2 (.newPeer .yamux ⟨1, false⟩)] ++
    List.replicate 6 (Action.node 2 (.advance 0 true)) ++ connects 0 7 [7] ++
    [Action.exchange 1 2, .deliver 0, .merge 2, .node 2 .mergeLoad] ++ connects 1 8 [8, 7]

/-- The next exchange. -/
def exchanged : List Action :=
  [.exchange 1 2, .deliver 0, .merge 2, .node 2 .mergeLoad, .node 2 .mergeStore]

/-- The filter of node 1 with these clients. -/
def exampleClients (keys : List UInt64) : ConnectedClients BinaryFuse8 :=
  ⟨1, crc64 (keys.flatMap putUint64), ⟨0, 4, 3, 1, 4, [0]⟩⟩

theorem drained_of_empty (hnetwork : s.network.isEmpty = true) (hbuf : (s.updatesCh j).buf = [])
    (hmerge : (s.node j).merge = .ranging) : Drained s x j := by
  rintro c - (⟨t, ht, -⟩ | hc | hc)
  · rw [List.isEmpty_iff.1 hnetwork] at ht
    cases ht
  · rw [hbuf] at hc
    cases hc
  · rw [hmerge] at hc
    cases hc

theorem gossip_converges_second_client :
    ∃ tr s tr' t p, ((machine fixedFilter false).Run init tr s ∧ (s.clients 1).Quiescent ∧
        Drained s 1 2) ∧
      ((machine fixedFilter false).Run s tr' t ∧ Machine.Meets (Undisturbed 1 2) tr' ∧
        (∃ q ∈ tr', Merges 1 2 q.1 q.2) ∧ (t.node 2).merge = .ranging) ∧
      (t.node 2).peers.get 1 = some p ∧ ∃ hroutes : (t.node 2).Routes fixedFilter ⟨2, false⟩,
        ∀ order, order.Perm (t.node 2).peerGraph.entries →
          (hroutes.router (t.clients 2).clients).findPath order ⟨0, 8, .yamux, .unknown⟩
            = some (.peer p) := by
  obtain ⟨s, hrun, ⟨hsent, hnotify, hwatch, hevt, hwait⟩, hreg, ⟨hnetwork, hbuf, hmerge⟩, hold,
      hcache, hmerges, hexec⟩ := (machine fixedFilter false).run_of_exec_any init secondClient
    (P := fun s => ((∀ c ∈ (s.clients 1).newPeers, c.unsent = none) ∧
        (s.clients 1).clients.notify.IsEmpty ∧
        (∀ w ∈ (s.clients 1).watchers, w.pc.sends = false) ∧ (s.clients 1).clientEvtCh.IsEmpty ∧
        (s.clients 1).dispatcher = .waiting) ∧ (s.clients 1).registered ≠ [] ∧
      (s.network.isEmpty = true ∧ (s.updatesCh 2).buf = [] ∧ (s.node 2).merge = .ranging) ∧
      SyncMap.load (s.node 2).peerGraph 1 = some (exampleClients [7]) ∧
      (s.clients 1).connectedClients = some (exampleClients [8, 7]).marshalBinary ∧
      (∃ p ∈ (machine fixedFilter false).trace s exchanged, Merges 1 2 p.1 p.2) ∧
      ((machine fixedFilter false).exec s exchanged).any (fun t => decide (
        (t.node 2).merge = .ranging ∧ 8 ∈ (t.clients 1).keys ∧
        (t.clients 2).clients.get 8 = none ∧ ((t.node 2).peers.get 1).isSome = true ∧
        (t.node 2).peerGraph.keys = [1])) = true) (by decide +kernel)
  obtain ⟨t, hrun', hidle, hclient, hlocal, hsome, hkeys⟩ := Machine.run_of_exec_any _ _ _ hexec
  obtain ⟨p, hp⟩ := Option.isSome_iff_exists.1 hsome
  have hok : Machine.Meets (Undisturbed 1 2) ((machine fixedFilter false).trace s exchanged) := by
    intro q hq
    have hmem := Machine.mem_of_mem_trace hq
    simp only [exchanged, List.mem_cons, List.not_mem_nil, or_false] at hmem
    rcases hmem with h | h | h | h | h <;> rw [h] <;> trivial
  have hcrc : ∀ old d, SyncMap.load (s.node 2).peerGraph 1 = some old →
      (s.clients 1).connectedClients = some d.marshalBinary → old.crc64 = d.crc64 → old = d := by
    intro old d hload hd hsame
    rw [hold, Option.some.injEq] at hload
    rw [hcache, Option.some.injEq] at hd
    rw [← hload, eq_of_marshalBinary_eq (by decide) hd.symm] at hsame
    exact absurd hsame (by decide +kernel)
  have hquiet : (s.clients 1).Quiescent := ⟨hsent, hnotify, hwatch, hevt, hwait⟩
  have hdrained : Drained s 1 2 := drained_of_empty hnetwork hbuf hmerge
  obtain ⟨_, hroutes, hpath⟩ := gossip_converges (fun _ _ => ⟨_, rfl⟩) small_fixedFilter hrun hquiet
    hreg hdrained hcrc hrun' hok hmerges hidle
  refine ⟨_, s, _, t, p, ⟨hrun, hquiet, hdrained⟩, ⟨hrun', hok, hmerges, hidle⟩, hp, hroutes,
    hpath _ p hclient hlocal hp ?_⟩
  rintro y hy ⟨c, hload, -⟩
  have hmem := SyncMap.mem_keys_of_load hload
  rw [hkeys, List.mem_singleton] at hmem
  exact hy hmem

end Cluster

end Tunnel.Server
