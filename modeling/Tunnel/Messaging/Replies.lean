import Tunnel.Messaging.Rpc

set_option autoImplicit false

/-! # Replies go to their own calls

A key identifies a call only at the node that drew it: two nodes may use the same one at the same
time, for calls of each other. What keeps their replies apart is that a request leaves its key in
the `rr` of the caller and a reply is looked up in the `rr` of the node it arrives at, and that the
flag byte tells the two apart.

The argument follows the data. What a call asked, what a `handleRPC` was started with, what an
application received and which of its answers were taken never change once they are there
(`Extends`), so a statement made of these stays true. `AnswerTo` is such a statement: this answer
was sent on the `Reply` of the request that call made. Every place that data can be in (`rr`, `req`,
the packets, the goroutines) is explained in these terms (`Explained`), and what a call has received
is an answer to it. A reply could only go astray in the lookup by key (`answerTo_of_load`), and
there the keys of a node are distinct as long as it draws each once (`FreshKey`). -/

namespace Tunnel.Messaging.Network

open Tunnel.Lib

/-- What a call asks: who, whom, under which key, and the data. -/
structure Query where
  caller : UInt64
  peer : UInt64
  key : UInt64
  data : List UInt8

/-- The question of the `i`-th call, once it has its key. -/
def query (s : Network) (i : ℕ) : Option Query :=
  (s.calls[i]?).bind (fun c => c.key.map (fun key => ⟨c.node, c.peer, key, c.data⟩))

/-- What the `h`-th `handleRPC` was started with. -/
def job (s : Network) (h : ℕ) : Option Job :=
  (s.handlers[h]?).bind (fun x => some x.job)

/-- The `a`-th answer is `value` and was taken, by a `handleRPC` that the peer of the `i`-th call
    started for the request of that call, from the application of the peer, which had sent it on the
    `Reply` of the request with the data of that call. -/
def AnswerTo (s : Network) (a i : ℕ) (value : List UInt8) : Prop :=
  ∃ q h r, s.query i = some q ∧
    s.job h = some ⟨q.peer, q.caller, ⟨true, q.key, q.data⟩, .call i⟩ ∧
    s.received[r]? = some ⟨q.peer, ⟨q.data, h⟩⟩ ∧
    s.answers[a]? = some ⟨r, value, true⟩

/-! ## What never changes -/

/-- Everything that `AnswerTo` is made of in `s` is so in `s'`. -/
structure Extends (s s' : Network) : Prop where
  query : ∀ i q, s.query i = some q → s'.query i = some q
  job : ∀ h j, s.job h = some j → s'.job h = some j
  received : ∀ (r : ℕ) x, s.received[r]? = some x → s'.received[r]? = some x
  answers : ∀ (a : ℕ) r v, s.answers[a]? = some ⟨r, v, true⟩ → s'.answers[a]? = some ⟨r, v, true⟩

variable {mem : UInt64 → Heap} {s s' : Network} {a : Action}

theorem Extends.refl (s : Network) : Extends s s :=
  ⟨fun _ _ h => h, fun _ _ h => h, fun _ _ h => h, fun _ _ _ h => h⟩

/-- A call that moves on with the key that it has keeps its question. -/
theorem query_setCall {i : ℕ} {c : Call} (hi : s.calls[i]? = some c) {pc : CallPc}
    (hkey : Call.key { c with pc := pc } = c.key) (j : ℕ) :
    (s.setCall i c pc).query j = s.query j := by
  refine getElem?_bind_set hi ?_ j
  rw [hkey]

/-- A call that draws its key has a question from then on; the others keep theirs. -/
theorem query_setCall_write {i : ℕ} {c : Call} (hi : s.calls[i]? = some c) (key : UInt64) (j : ℕ) :
    (s.setCall i c (.write key)).query j
      = if i = j then some ⟨c.node, c.peer, key, c.data⟩ else s.query j := by
  by_cases hij : i = j
  · subst hij
    have hlt : i < s.calls.length := (List.getElem?_eq_some_iff.1 hi).1
    simp only [query, setCall, List.getElem?_set_self hlt, if_pos]
    rfl
  · simp only [query, setCall, List.getElem?_set_ne hij, if_neg hij]

theorem query_of_draw {i : ℕ} {c : Call} (hi : s.calls[i]? = some c) (hpc : c.pc = .draw) :
    s.query i = none := by
  simp [query, hi, Call.key, hpc]

theorem job_setHandler {h : ℕ} {x : Handler} (hh : s.handlers[h]? = some x) (pc : HandlerPc)
    (g : ℕ) : (s.setHandler h x pc).job g = s.job g := by
  refine getElem?_bind_set hh ?_ g
  rfl

/-- A step leaves all questions alone, or a call draws a key that is not in the map of its node. -/
theorem Step.query_cases (h : Step s a s') :
    (∀ j, s'.query j = s.query j) ∨
    ∃ i c key, a = .draw i key ∧ s.calls[i]? = some c ∧ c.pc = .draw ∧
      (s.nodes c.node).rr.load key = none ∧
      ∀ j, s'.query j = if i = j then some ⟨c.node, c.peer, key, c.data⟩ else s.query j := by
  cases h with
  | call node peer b =>
      refine Or.inl fun j => ?_
      simp only [query, List.getElem?_append]
      split
      · rfl
      · next hj =>
          rw [List.getElem?_eq_none (Nat.le_of_not_lt hj)]
          cases hk : j - s.calls.length <;> simp [Call.key]
  | draw hi hpc hload =>
      exact Or.inr ⟨_, _, _, rfl, hi, hpc, hload, query_setCall_write (s := s.setRr _ _) hi _⟩
  | write hi hpc hm =>
      exact Or.inl (query_setCall (s := s.post true _) hi (by simp [Call.key, hpc]))
  | fail hi hpc =>
      exact Or.inl (query_setCall hi (by rcases hpc with hpc | hpc <;> simp [Call.key, hpc]))
  | finish hi hpc =>
      exact Or.inl (query_setCall (s := s.setRr _ _) hi (by simp [Call.key, hpc]))
  | handover hh hx hi hc => exact Or.inl (query_setCall hi (by simp [Call.key, hc]))
  | _ => exact Or.inl fun j => rfl

theorem Step.query_of_some (h : Step s a s') {i : ℕ} {q : Query} (hq : s.query i = some q) :
    s'.query i = some q := by
  rcases h.query_cases with hkeep | ⟨j, c, key, _, hj, hpc, _, hnew⟩
  · rw [hkeep, hq]
  · have hne : j ≠ i := by
      rintro rfl
      rw [query_of_draw hj hpc] at hq
      cases hq
    rw [hnew, if_neg hne, hq]

theorem Step.extends (h : Step s a s') : Extends s s' := by
  have hquery : ∀ i q, s.query i = some q → s'.query i = some q := fun _ _ => h.query_of_some
  have href := Extends.refl s
  cases h with
  | spawn hp ht hr =>
      exact { href with query := hquery, job := fun g j hj => getElem?_bind_append hj _ }
  | request hh | quit hh | respond hh | load hh | handover hh =>
      exact { href with query := hquery, job := fun g j hj => (job_setHandler hh _ g).trans hj }
  | receive hrecv =>
      exact { href with
        query := hquery, received := fun r x hx => getElem?_append_of_some hx _ }
  | reply hr =>
      exact { href with
        query := hquery, answers := fun a r v ha => getElem?_append_of_some ha _ }
  | @take _ w r value got x hw hr hh hpc =>
      refine { href with
        query := hquery, job := fun g j hj => (job_setHandler hh _ g).trans hj, answers := ?_ }
      intro b r' v' hb
      have hne : w ≠ b := by
        rintro rfl
        rw [hw] at hb
        exact absurd hb (by simp)
      exact (List.getElem?_set_ne hne).trans hb
  | _ => exact { href with query := hquery }

theorem AnswerTo.mono {w i : ℕ} {value : List UInt8} (h : s.AnswerTo w i value)
    (hext : Extends s s') : s'.AnswerTo w i value := by
  obtain ⟨q, g, r, hq, hj, hr, hw⟩ := h
  exact ⟨q, g, r, hext.query i q hq, hext.job g _ hj, hext.received r _ hr, hext.answers w r _ hw⟩

/-! ## Where data can be -/

/-- `r` is on its way from `sender` to `dest` as a request or a reply made from `o`. -/
def Sent (s : Network) (o : Origin) (dest sender : UInt64) (r : RequestReply) : Prop :=
  match o with
  | .call i => ∃ q, s.query i = some q ∧ dest = q.peer ∧ sender = q.caller ∧
      r = ⟨true, q.key, q.data⟩
  | .answer w => ∃ i q value, s.AnswerTo w i value ∧ s.query i = some q ∧ dest = q.caller ∧
      sender = q.peer ∧ r = ⟨false, q.key, value⟩
  | .announce => False

theorem Sent.mono {o : Origin} {dest sender : UInt64} {r : RequestReply}
    (h : s.Sent o dest sender r) (hext : Extends s s') : s'.Sent o dest sender r := by
  cases o with
  | call i =>
      obtain ⟨q, hq, hrest⟩ := h
      exact ⟨q, hext.query i q hq, hrest⟩
  | answer w =>
      obtain ⟨i, q, value, hw, hq, hrest⟩ := h
      exact ⟨i, q, value, hw.mono hext, hext.query i q hq, hrest⟩
  | announce => exact h.elim

/-- A request or a reply in a packet is what its origin says, packed. -/
def PacketOk (s : Network) (pk : Packet) : Prop :=
  pk.message.type = messageRequestReply →
    ∃ mem r, rpcMessage mem pk.message.sender r = .ok pk.message ∧
      s.Sent pk.origin pk.dest pk.message.sender r

/-- A `handleRPC` was started for what its origin says; what it has got hold of since belongs to the
    same call. -/
def HandlerOk (s : Network) (x : Handler) : Prop :=
  s.Sent x.job.origin x.job.node x.job.sender x.job.r ∧
    match x.pc with
    | .request => x.job.r.request = true
    | .replying w value => ∃ i, x.job.origin = .call i ∧ s.AnswerTo w i value
    | .load => x.job.r.request = false
    | .handing i => ∃ w, x.job.origin = .answer w ∧ s.AnswerTo w i x.job.r.data
    | .awaiting | .done => True

/-- The request `q`, made at the node `n`, is that of the `handleRPC` whose channel it has. -/
def Requested (s : Network) (n : UInt64) (q : Request) : Prop :=
  ∃ j, s.job q.reply = some j ∧ j.node = n ∧ j.r.request = true ∧ j.r.data = q.data

/-- What came in on the reply channel of the `i`-th call is an answer to it. -/
def CallOk (s : Network) (i : ℕ) (c : Call) : Prop :=
  ∀ rep, c.reply = some rep → ∃ w, rep.origin = .answer w ∧ s.AnswerTo w i rep.data

/-- Everything that is somewhere in `t` is accounted for by what `s` has on record. -/
structure Explained (s t : Network) : Prop where
  pending : ∀ n key i, (t.nodes n).rr.load key = some i →
    ∃ q, s.query i = some q ∧ q.caller = n ∧ q.key = key
  queued : ∀ n, ∀ q ∈ (t.nodes n).req.buf, s.Requested n q
  received : ∀ x ∈ t.received, s.Requested x.node x.request
  packets : ∀ pk ∈ t.packets, s.PacketOk pk
  handlers : ∀ x ∈ t.handlers, s.HandlerOk x
  calls : ∀ (i : ℕ) c, t.calls[i]? = some c → s.CallOk i c

theorem explained_init : Explained init init where
  pending := fun n key i h => absurd h (by simp [init])
  queued := by simp [init]
  received := by simp [init]
  packets := by simp [init]
  handlers := by simp [init]
  calls := by simp [init]

theorem PacketOk.mono {pk : Packet} (h : s.PacketOk pk) (hext : Extends s s') :
    s'.PacketOk pk := by
  intro ht
  obtain ⟨heap, r, hr, hsent⟩ := h ht
  exact ⟨heap, r, hr, hsent.mono hext⟩

theorem HandlerOk.mono {x : Handler} (h : s.HandlerOk x) (hext : Extends s s') :
    s'.HandlerOk x := by
  obtain ⟨job, pc⟩ := x
  obtain ⟨hsent, hpc⟩ := h
  refine ⟨hsent.mono hext, ?_⟩
  cases pc with
  | replying w value =>
      obtain ⟨i, ho, hw⟩ := hpc
      exact ⟨i, ho, hw.mono hext⟩
  | handing i =>
      obtain ⟨w, ho, hw⟩ := hpc
      exact ⟨w, ho, hw.mono hext⟩
  | _ => exact hpc

theorem Requested.mono {n : UInt64} {q : Request} (h : s.Requested n q) (hext : Extends s s') :
    s'.Requested n q := by
  obtain ⟨j, hj, hrest⟩ := h
  exact ⟨j, hext.job _ j hj, hrest⟩

theorem CallOk.mono {i : ℕ} {c : Call} (h : s.CallOk i c) (hext : Extends s s') :
    s'.CallOk i c := by
  intro rep hrep
  obtain ⟨w, ho, hw⟩ := h rep hrep
  exact ⟨w, ho, hw.mono hext⟩

theorem Explained.mono {t : Network} (h : Explained s t) (hext : Extends s s') :
    Explained s' t where
  pending := by
    intro n key i hload
    obtain ⟨q, hq, hrest⟩ := h.pending n key i hload
    exact ⟨q, hext.query i q hq, hrest⟩
  queued n q hq := (h.queued n q hq).mono hext
  received x hx := (h.received x hx).mono hext
  packets pk hpk := (h.packets pk hpk).mono hext
  handlers x hx := (h.handlers x hx).mono hext
  calls i c hc := (h.calls i c hc).mono hext

theorem callOk_of_reply_none {i : ℕ} {c : Call} (h : c.reply = none) : s.CallOk i c := by
  intro rep hrep
  rw [h] at hrep
  cases hrep

/-! ## The keys of a node -/

/-- A node has drawn each of its keys once. -/
def KeysDistinct (s : Network) : Prop :=
  ∀ i j q q', s.query i = some q → s.query j = some q' → q.caller = q'.caller → q.key = q'.key →
    i = j

/-- `rand.Uint64` gives a node no key that it has used before, unless the call with that key is
    still in the map, when the loop of `Call` draws again. -/
def FreshKey (s : Network) (a : Action) : Prop :=
  match a with
  | .draw i key => ∀ c ∈ s.calls[i]?, (s.nodes c.node).rr.load key = none →
      ∀ d ∈ s.calls, d.node = c.node → d.key ≠ some key
  | _ => True

instance (s : Network) (a : Action) : Decidable (FreshKey s a) :=
  match a with
  | .draw i key => inferInstanceAs (Decidable (∀ c ∈ s.calls[i]?,
      (s.nodes c.node).rr.load key = none → ∀ d ∈ s.calls, d.node = c.node → d.key ≠ some key))
  | .call .. | .write .. | .timeout _ | .finish _ | .announce .. | .deliver _ | .lose _ | .request _
  | .expire _ | .respond .. | .load _ | .handover _ | .receive _ | .reply .. | .take _ =>
      isTrue trivial

/-- A key that a call has is the key of a call on the list. -/
theorem exists_call_of_query {i : ℕ} {q : Query} (h : s.query i = some q) :
    ∃ d ∈ s.calls, d.node = q.caller ∧ d.key = some q.key := by
  obtain ⟨d, hd, hq⟩ := Option.bind_eq_some_iff.1 h
  obtain ⟨key, hkey, rfl⟩ := Option.map_eq_some_iff.1 hq
  exact ⟨d, List.mem_of_getElem? hd, rfl, hkey⟩

theorem KeysDistinct.step (h : KeysDistinct s) (hfresh : FreshKey s a) (hstep : Step s a s') :
    KeysDistinct s' := by
  intro i j q q' hi hj hcaller hkey
  rcases hstep.query_cases with hkeep | ⟨k, c, key, rfl, hk, _, hload, hnew⟩
  · rw [hkeep] at hi hj
    exact h i j q q' hi hj hcaller hkey
  · -- the key just drawn is that of no other call of the node
    have hnone : ∀ l q, s.query l = some q → q.caller = c.node → q.key ≠ key := by
      intro l q hl hnode hq
      obtain ⟨d, hd, hdnode, hdkey⟩ := exists_call_of_query hl
      exact hfresh c hk hload d hd (hdnode.trans hnode) (hq ▸ hdkey)
    rw [hnew] at hi hj
    split at hi <;> split at hj
    · next hki hkj => exact hki.symm.trans hkj
    · obtain rfl := Option.some.inj hi
      exact absurd hkey.symm (hnone j q' hj hcaller.symm)
    · obtain rfl := Option.some.inj hj
      exact absurd hkey (hnone i q hi hcaller)
    · exact h i j q q' hi hj hcaller hkey

/-! ## One step -/

/-- A call with a key has a question. -/
theorem query_of_key {i : ℕ} {c : Call} (hi : s.calls[i]? = some c) {key : UInt64}
    (hkey : c.key = some key) : s.query i = some ⟨c.node, c.peer, key, c.data⟩ := by
  simp [query, hi, hkey]

/-- A message packed from what its origin says. -/
theorem packetOk_rpcMessage {o : Origin} {dest self : UInt64} {r : RequestReply} {m : Message}
    {heap : Heap} (hm : rpcMessage heap self r = .ok m) (hsent : s.Sent o dest self r) :
    s.PacketOk ⟨dest, m, o⟩ := by
  intro _
  have hself : m.sender = self := by rw [(rpcMessage_eq_ok hm).2]
  exact ⟨heap, r, by rw [hself]; exact hm, by rw [hself]; exact hsent⟩

/-- What the reader unpacks is what was packed. -/
theorem unpack_of_rpcMessage {self : UInt64} {r r' : RequestReply} {m : Message} {heap heap' : Heap}
    (hm : rpcMessage heap self r = .ok m) (hr : RequestReply.zero.unpack heap' m.data = .ok r') :
    r' = r := by
  obtain ⟨hmem, rfl⟩ := rpcMessage_eq_ok hm
  have hlt := hmem.lt
  exact RequestReply.eq_of_unpack_bytes (by omega) hr

theorem handlerOk_start {o : Origin} {dest sender : UInt64} {r : RequestReply}
    (h : s.Sent o dest sender r) : s.HandlerOk (.start ⟨dest, sender, r, o⟩) := by
  refine ⟨h, ?_⟩
  unfold Handler.start
  cases r.request <;> simp

/-- A `handleRPC` for a request was started for the request of a call. -/
theorem Sent.of_request {o : Origin} {dest sender : UInt64} {r : RequestReply}
    (h : s.Sent o dest sender r) (hr : r.request = true) :
    ∃ i q, o = .call i ∧ s.query i = some q ∧ dest = q.peer ∧ sender = q.caller ∧
      r = ⟨true, q.key, q.data⟩ := by
  cases o with
  | call i =>
      obtain ⟨q, hrest⟩ := h
      exact ⟨i, q, rfl, hrest⟩
  | answer w =>
      obtain ⟨i, q, value, _, _, _, _, rfl⟩ := h
      cases hr
  | announce => exact h.elim

/-- A `handleRPC` for a reply was started for an answer to a call. -/
theorem Sent.of_reply {o : Origin} {dest sender : UInt64} {r : RequestReply}
    (h : s.Sent o dest sender r) (hr : r.request = false) :
    ∃ w i q value, o = .answer w ∧ s.AnswerTo w i value ∧ s.query i = some q ∧ dest = q.caller ∧
      sender = q.peer ∧ r = ⟨false, q.key, value⟩ := by
  cases o with
  | call i =>
      obtain ⟨q, _, _, _, rfl⟩ := h
      cases hr
  | answer w =>
      obtain ⟨i, q, value, hrest⟩ := h
      exact ⟨w, i, q, value, rfl, hrest⟩
  | announce => exact h.elim

theorem job_of_getElem? {h : ℕ} {x : Handler} (hh : s.handlers[h]? = some x) :
    s.job h = some x.job := by
  simp [job, hh]

/-- **The lookup by key.** A reply that finds a channel in the map of the node it arrived at finds
    that of the call it answers. -/
theorem answerTo_of_load (h : Explained s s) (hkeys : KeysDistinct s) {x : Handler} {i : ℕ}
    (hx : x ∈ s.handlers) (hpc : x.pc = .load)
    (hload : (s.nodes x.job.node).rr.load x.job.r.key = some i) :
    ∃ w, x.job.origin = .answer w ∧ s.AnswerTo w i x.job.r.data := by
  obtain ⟨hsent, hrequest⟩ := h.handlers x hx
  rw [hpc] at hrequest
  obtain ⟨w, i', q, value, ho, hw, hq, hnode, _, hr⟩ := hsent.of_reply hrequest
  obtain ⟨q', hq', hcaller, hkey⟩ := h.pending _ _ _ hload
  have hi : i = i' := hkeys i i' q' q hq' hq (hcaller.trans hnode) (by rw [hkey, hr])
  refine ⟨w, ho, ?_⟩
  rw [hi, hr]
  exact hw

/-- **The answer of the application.** An answer sent on the `Reply` of a request that was received
    is an answer to the call that the request was made for. -/
theorem answerTo_of_received {j : Job} {got : Received} {r w : ℕ} {value : List UInt8}
    (hsent : s.Sent j.origin j.node j.sender j.r) (hj : s.job got.request.reply = some j)
    (hgot : s.Requested got.node got.request) (hr : s.received[r]? = some got)
    (hw : s.answers[w]? = some ⟨r, value, true⟩) :
    ∃ i, j.origin = .call i ∧ s.AnswerTo w i value := by
  obtain ⟨j', hj', hnode, hrequest, hdata⟩ := hgot
  obtain rfl := Option.some.inj (hj.symm.trans hj')
  obtain ⟨i, q, ho, hq, hpeer, hcaller, hreq⟩ := hsent.of_request hrequest
  have hjob : j = ⟨q.peer, q.caller, ⟨true, q.key, q.data⟩, .call i⟩ := by
    rw [← hpeer, ← hcaller, ← hreq, ← ho]
  have hrec : got = ⟨q.peer, ⟨q.data, got.request.reply⟩⟩ := by
    have hq : q.data = got.request.data := by rw [← hdata, hreq]
    rw [← hpeer, hnode, hq]
  exact ⟨i, ho, q, got.request.reply, r, hq, hjob ▸ hj, hrec ▸ hr, hw⟩

/-- What a `handleRPC` writes back is made from the answer it took. -/
theorem HandlerOk.sent_reply {x : Handler} (h : s.HandlerOk x) {w : ℕ} {value : List UInt8}
    (hpc : x.pc = .replying w value) :
    s.Sent (.answer w) x.job.sender x.job.node ⟨false, x.job.r.key, value⟩ := by
  obtain ⟨hsent, hreplying⟩ := h
  rw [hpc] at hreplying
  obtain ⟨i, ho, hw⟩ := hreplying
  rw [ho] at hsent
  obtain ⟨q, hq, hnode, hsender, hr⟩ := hsent
  exact ⟨i, q, value, hw, hq, hsender, hnode, by rw [hr]⟩

/-- What is in the map of a node after an entry was deleted was there before. -/
theorem load_setRr_delete {n m key k : UInt64} {j : ℕ}
    (h : ((s.setRr n ((s.nodes n).rr.delete key)).nodes m).rr.load k = some j) :
    (s.nodes m).rr.load k = some j := by
  rw [rr_setRr] at h
  split at h
  · next hm => exact hm ▸ SyncMap.load_of_load_delete h
  · exact h

/-- What is in the map of a node after an entry was stored is that entry or was there before. -/
theorem load_setRr_store {n m key k : UInt64} {i j : ℕ}
    (h : ((s.setRr n ((s.nodes n).rr.store key i)).nodes m).rr.load k = some j) :
    (m = n ∧ k = key ∧ j = i) ∨ (s.nodes m).rr.load k = some j := by
  rw [rr_setRr] at h
  split at h
  · next hm =>
      by_cases hk : k = key
      · rw [hk, SyncMap.load_store_self] at h
        exact Or.inl ⟨hm, hk, (Option.some.inj h).symm⟩
      · rw [SyncMap.load_store_ne _ _ hk] at h
        exact Or.inr (hm ▸ h)
  · exact Or.inr h

/-- A request in the buffer of a node after a send is the one sent or was there before. -/
theorem mem_setReq_send {n m : UInt64} {q q' : Request} {req : Chan Request 16}
    (hsend : (s.nodes m).req.send q = some req) (h : q' ∈ ((s.setReq m req).nodes n).req.buf) :
    q' ∈ (s.nodes n).req.buf ∨ (n = m ∧ q' = q) := by
  rw [req_setReq] at h
  split at h
  · next hn =>
      rw [(Chan.send_eq_some.1 hsend).2, List.mem_append, List.mem_singleton] at h
      exact h.imp (fun hold => hn ▸ hold) (fun hnew => ⟨hn, hnew⟩)
  · exact Or.inl h

/-- A request in the buffer of a node after a receive was there before. -/
theorem mem_setReq_recv {n m : UInt64} {q q' : Request} {req : Chan Request 16}
    (hrecv : (s.nodes m).req.recv = some (q, req)) (h : q' ∈ ((s.setReq m req).nodes n).req.buf) :
    q' ∈ (s.nodes n).req.buf := by
  rw [req_setReq] at h
  split at h
  · next hn =>
      rw [hn, Chan.recv_eq_some.1 hrecv]
      exact List.mem_cons_of_mem _ h
  · exact h

theorem Explained.calls_set {t : Network} (h : Explained s t) {i : ℕ} {c : Call}
    (hc : s.CallOk i c) : ∀ (j : ℕ) d, (t.calls.set i c)[j]? = some d → s.CallOk j d :=
  forall_getElem?_set (fun j d _ => h.calls j d) hc

/-- **One step.** What is on record stays so, and whatever the step puts somewhere is accounted
    for. -/
theorem Explained.step (h : Explained s s) (hkeys : KeysDistinct s) (hstep : Step s a s') :
    Explained s' s' := by
  have hext := hstep.extends
  have h' := h.mono hext
  cases hstep with
  | call node peer b =>
      exact { h' with calls := forall_getElem?_concat h'.calls (callOk_of_reply_none rfl) }
  | redraw => exact h
  | @draw i c key hi hpc hload =>
      refine { h' with
        pending := fun n k j hj => ?_
        queued := fun n q hq => h'.queued n q (by simpa using hq)
        calls := h'.calls_set (callOk_of_reply_none rfl) }
      rcases load_setRr_store hj with ⟨rfl, rfl, rfl⟩ | hold
      · exact ⟨_, (query_setCall_write (s := s.setRr _ _) hi _ _).trans (if_pos rfl), rfl, rfl⟩
      · exact h'.pending n k j hold
  | @write _ i c key m _ hi hpc hm =>
      refine { h' with
        packets := List.forall_mem_append.2 ⟨h'.packets, List.forall_mem_singleton.2 ?_⟩
        calls := h'.calls_set (callOk_of_reply_none rfl) }
      have hkey : c.key = some key := by simp [Call.key, hpc]
      have hq := hext.query i _ (query_of_key hi hkey)
      exact packetOk_rpcMessage hm ⟨_, hq, rfl, rfl, rfl⟩
  | fail hi hpc =>
      exact { h' with calls := h'.calls_set (callOk_of_reply_none rfl) }
  | @finish _ i c key res hi hpc =>
      refine { h' with
        pending := fun n k j hj => h'.pending n k j (load_setRr_delete hj)
        queued := fun n q hq => h'.queued n q (by simpa using hq)
        calls := h'.calls_set ?_ }
      have hsame : Call.reply { c with pc := .returned key res } = c.reply := by
        simp only [Call.reply, hpc]
        cases res <;> rfl
      exact fun rep hrep => h'.calls i c hi rep (hsame ▸ hrep)
  | announce ht ho =>
      exact { h' with
        packets := List.forall_mem_append.2
          ⟨h'.packets, List.forall_mem_singleton.2 (fun h => absurd h ht)⟩ }
  | @spawn _ p pk r _ hp ht hr =>
      obtain ⟨_, r', hm, hsent⟩ := h'.packets pk (List.mem_of_getElem? hp) ht
      obtain rfl : r = r' := unpack_of_rpcMessage hm hr
      exact { h' with
        packets := fun pk hpk => h'.packets pk (List.mem_of_mem_eraseIdx hpk)
        handlers := List.forall_mem_append.2
          ⟨h'.handlers, List.forall_mem_singleton.2 (handlerOk_start hsent)⟩ }
  | drop p =>
      exact { h' with packets := fun pk hpk => h'.packets pk (List.mem_of_mem_eraseIdx hpk) }
  | @request _ g x req hh hpc hsend =>
      have hx := h'.handlers x (List.mem_of_getElem? hh)
      refine { h' with
        pending := fun n k j hj => h'.pending n k j (by simpa using hj)
        queued := fun n q hq => ?_
        handlers := forall_mem_set h'.handlers ⟨hx.1, trivial⟩ }
      rcases mem_setReq_send hsend hq with hold | ⟨hn, rfl⟩
      · exact h'.queued n q hold
      · have hrequest := hx.2
        rw [hpc] at hrequest
        exact ⟨x.job, hext.job g _ (job_of_getElem? hh), hn.symm, hrequest, rfl⟩
  | quit hh =>
      have hx := h'.handlers _ (List.mem_of_getElem? hh)
      exact { h' with handlers := forall_mem_set h'.handlers ⟨hx.1, trivial⟩ }
  | @respond _ g x w value m _ hh hpc hm =>
      have hx := h'.handlers x (List.mem_of_getElem? hh)
      refine { h' with
        packets := List.forall_mem_append.2 ⟨h'.packets, List.forall_mem_singleton.2 ?_⟩
        handlers := forall_mem_set h'.handlers ⟨hx.1, trivial⟩ }
      exact packetOk_rpcMessage hm (hx.sent_reply hpc)
  | @load _ g i x hh hpc hload =>
      have hx := h'.handlers x (List.mem_of_getElem? hh)
      obtain ⟨w, ho, hw⟩ := answerTo_of_load h hkeys (List.mem_of_getElem? hh) hpc hload
      exact { h' with
        pending := fun n k j hj => h'.pending n k j (load_setRr_delete hj)
        queued := fun n q hq => h'.queued n q (by simpa using hq)
        handlers := forall_mem_set h'.handlers ⟨hx.1, w, ho, hw.mono hext⟩ }
  | @handover _ g i x c key hh hx hi hc =>
      have hok := h'.handlers x (List.mem_of_getElem? hh)
      have hhanding := hok.2
      rw [hx] at hhanding
      refine { h' with
        handlers := forall_mem_set h'.handlers ⟨hok.1, trivial⟩
        calls := h'.calls_set ?_ }
      intro rep hrep
      obtain rfl := Option.some.inj hrep
      exact hhanding
  | @receive _ node q req hrecv =>
      refine { h' with
        pending := fun n k j hj => h'.pending n k j (by simpa using hj)
        queued := fun n q' hq' => h'.queued n q' (mem_setReq_recv hrecv hq')
        received := List.forall_mem_append.2
          ⟨h'.received, List.forall_mem_singleton.2 (h'.queued node q ?_)⟩ }
      rw [Chan.recv_eq_some.1 hrecv]
      exact List.mem_cons_self
  | reply hr => exact { h' with }
  | @take _ w r value got x hw hr hh hpc =>
      have hx := h'.handlers x (List.mem_of_getElem? hh)
      have hjob := hext.job _ _ (job_of_getElem? hh)
      refine { h' with handlers := forall_mem_set h'.handlers ⟨hx.1, ?_⟩ }
      refine answerTo_of_received hx.1 hjob (h'.received got (List.mem_of_getElem? hr)) hr ?_
      exact List.getElem?_set_self (List.getElem?_eq_some_iff.1 hw).1

/-! ## A request is delivered once -/

/-- The origins of all messages on their way or delivered. -/
def origins (s : Network) : List Origin :=
  s.packets.map Packet.origin ++ s.handlers.map (fun x => x.job.origin)

/-- Among the messages made from `os` at most one is the request of a call, and none is that of a
    call that has not written it. -/
structure Single (os : List Origin) (calls : List Call) : Prop where
  bound : ∀ (i : ℕ) c, calls[i]? = some c → os.count (.call i) ≤ c.wrote.toNat
  known : ∀ i, 0 < os.count (.call i) → i < calls.length

theorem Single.of_count_le {os os' : List Origin} {calls : List Call} (h : Single os calls)
    (hle : ∀ i, os'.count (.call i) ≤ os.count (.call i)) : Single os' calls where
  bound i c hc := (hle i).trans (h.bound i c hc)
  known i hi := h.known i (hi.trans_le (hle i))

theorem Single.setCall (h : Single s.origins s.calls) {i : ℕ} {c : Call}
    (hi : s.calls[i]? = some c) {pc : CallPc}
    (hwrote : c.wrote.toNat ≤ (Call.wrote { c with pc := pc }).toNat) :
    Single s.origins (s.setCall i c pc).calls where
  bound := forall_getElem?_set (fun j d _ => h.bound j d) ((h.bound i c hi).trans hwrote)
  known j hj := by rw [length_calls_setCall]; exact h.known j hj

theorem origins_setHandler {h : ℕ} {x : Handler} (hh : s.handlers[h]? = some x) (pc : HandlerPc) :
    (s.setHandler h x pc).origins = s.origins := by
  have hsame : (s.handlers.set h { x with pc := pc }).map (fun x => x.job.origin)
      = s.handlers.map (fun x => x.job.origin) := by
    rw [← List.filterMap_eq_map]
    refine filterMap_set_of_eq hh ?_
    rfl
  simp only [origins, setHandler, hsame]

/-- A packet that was accepted adds its origin. -/
theorem count_origins_post (pk : Packet) (o : Origin) :
    (s.post true pk).origins.count o = s.origins.count o + [pk.origin].count o := by
  simp only [origins, post, if_pos, List.map_append, List.count_append, List.map_cons, List.map_nil]
  omega

/-- Delivery moves an origin from the packets to the goroutines. -/
theorem origins_spawn {p : ℕ} {pk : Packet} (hp : s.packets[p]? = some pk) {x : Handler}
    (hx : x.job.origin = pk.origin) :
    List.Perm
      (origins { s with packets := s.packets.eraseIdx p, handlers := s.handlers ++ [x] })
      s.origins := by
  obtain ⟨hlt, hget⟩ := List.getElem?_eq_some_iff.1 hp
  have hmove := (List.getElem_cons_eraseIdx_perm hlt).map Packet.origin
  rw [List.map_cons, hget] at hmove
  simp only [origins, List.map_append, List.map_cons, List.map_nil, hx]
  rw [← List.append_assoc]
  refine List.Perm.trans List.perm_append_comm ?_
  exact hmove.append_right _

theorem Single.step (h : Single s.origins s.calls) (hstep : Step s a s') :
    Single s'.origins s'.calls := by
  cases hstep with
  | call node peer b =>
      refine ⟨forall_getElem?_concat h.bound ?_, fun i hi => ?_⟩
      · exact Nat.le_of_not_lt fun hpos => absurd (h.known _ hpos) (lt_irrefl _)
      · exact (h.known i hi).trans_le (by simp)
  | redraw => exact h
  | draw hi hpc hload => exact h.setCall hi (by simp [Call.wrote, hpc])
  | @write _ i c key m _ hi hpc hm =>
      have hcount : ∀ j, List.count (.call j)
          ((s.post true ⟨c.peer, m, .call i⟩).setCall i c (.waiting key)).origins
            = s.origins.count (.call j) + [Origin.call i].count (.call j) :=
        fun j => count_origins_post _ _
      have hzero : s.origins.count (.call i) ≤ 0 := by simpa [Call.wrote, hpc] using h.bound i c hi
      have hother : ∀ j, i ≠ j → [Origin.call i].count (.call j) = 0 := fun j hij => by simp [hij]
      refine ⟨forall_getElem?_set (fun j d hij hd => ?_) ?_, fun j hj => ?_⟩
      · rw [hcount, hother j hij]
        exact h.bound j d hd
      · rw [hcount]
        simp [Call.wrote, Nat.le_zero.1 hzero]
      · rw [length_calls_setCall]
        by_cases hij : i = j
        · exact hij ▸ (List.getElem?_eq_some_iff.1 hi).1
        · rw [hcount, hother j hij] at hj
          exact h.known j hj
  | fail hi hpc =>
      exact h.setCall hi (by rcases hpc with hpc | hpc <;> simp [Call.wrote, hpc])
  | finish hi hpc => exact h.setCall hi (by simp [Call.wrote, hpc])
  | @announce _ pk ht ho =>
      exact h.of_count_le fun i => by simp [count_origins_post, ho]
  | spawn hp ht hr =>
      exact h.of_count_le fun i => ((origins_spawn hp rfl).count_eq _).le
  | drop p =>
      exact h.of_count_le fun i =>
        ((List.eraseIdx_sublist s.packets p).map Packet.origin).append_right _ |>.count_le _
  | request hh | quit hh | load hh =>
      exact h.of_count_le fun i => (congrArg (List.count _) (origins_setHandler hh _)).le
  | @respond _ g x w value m _ hh hpc hm =>
      refine h.of_count_le fun i => ?_
      rw [origins_setHandler (s := s.post true _) hh, count_origins_post]
      simp
  | handover hh hx hi hc =>
      refine (h.setCall hi (by simp [Call.wrote, hc])).of_count_le fun i => ?_
      exact (congrArg (List.count _) (origins_setHandler (s := s.setCall _ _ _) hh _)).le
  | receive hrecv => exact h
  | reply hr => exact h
  | take hw hr hh hpc =>
      exact h.of_count_le fun i => (congrArg (List.count _) (origins_setHandler hh _)).le

/-! ## Whole runs -/

/-- What holds in every state that is reached with fresh keys. -/
structure Traced (s : Network) : Prop where
  explained : Explained s s
  keys : KeysDistinct s
  single : Single s.origins s.calls

theorem traced_of_run {tr : List (Network × Action)} (hrun : (machine mem).Run init tr s)
    (hfresh : Machine.Meets FreshKey tr) : Traced s := by
  refine hrun.invariant hfresh ⟨explained_init, ?_, ⟨?_, ?_⟩⟩ ?_
  · intro i j q q' hi
    cases hi
  · intro i c hc
    cases hc
  · intro i hi
    cases hi
  · intro s a s' hs hok hstep
    have hrule := step_rule hstep
    exact ⟨hs.explained.step hs.keys hrule, hs.keys.step hok hrule, hs.single.step hrule⟩

/-- The reader does not fail on what the nodes send: every packet on its way can be delivered, if
    there is memory for it. -/
theorem deliver_isSome (h : Traced s) {p : ℕ} {pk : Packet} (hp : s.packets[p]? = some pk)
    (hroom : (mem pk.dest).Holds pk.message.data.length) : (s.step mem (.deliver p)).isSome := by
  simp only [step, hp, Option.bind_some, deliver]
  split
  · next ht =>
      obtain ⟨_, r, hm, _⟩ := h.explained.packets pk (List.mem_of_getElem? hp) ht
      have hdata : pk.message.data = r.bytes := by rw [(rpcMessage_eq_ok hm).2]
      rw [hdata, RequestReply.length_bytes] at hroom
      rw [hdata, RequestReply.unpack_bytes (hroom.mono (by omega))]
      rfl
  · rfl

/-- The request of a call is handled by at most one `handleRPC`. -/
theorem job_unique (h : Traced s) {g g' i : ℕ} {j j' : Job} (hj : s.job g = some j)
    (hj' : s.job g' = some j') (ho : j.origin = .call i) (ho' : j'.origin = .call i) : g = g' := by
  have hat : ∀ {k : ℕ} {l : Job}, s.job k = some l → l.origin = .call i →
      (s.handlers.map (fun x => x.job.origin))[k]? = some (.call i) := by
    intro k l hk hl
    obtain ⟨x, hx, hxj⟩ := Option.bind_eq_some_iff.1 hk
    obtain rfl := Option.some.inj hxj
    rw [List.getElem?_map, hx, Option.map_some, hl]
  have hcount : (s.handlers.map (fun x => x.job.origin)).count (.call i) ≤ 1 := by
    have hle : (s.handlers.map (fun x => x.job.origin)).count (.call i)
        ≤ s.origins.count (.call i) := by
      simp [origins, List.count_append]
    rcases Nat.eq_zero_or_pos (s.origins.count (.call i)) with hzero | hpos
    · omega
    · have hlt := h.single.known i hpos
      have hb := h.single.bound i _ (List.getElem?_eq_getElem hlt)
      have := Bool.toNat_le (s.calls[i]).wrote
      omega
  exact eq_of_count_le_one hcount (hat hj ho) (hat hj' ho')

/-- An answer answers one call. -/
theorem AnswerTo.unique {w i j : ℕ} {value value' : List UInt8} (h : s.AnswerTo w i value)
    (h' : s.AnswerTo w j value') : i = j := by
  obtain ⟨q, g, r, _, hg, hr, hw⟩ := h
  obtain ⟨q', g', r', _, hg', hr', hw'⟩ := h'
  -- one send, so one request, so one channel, so one `handleRPC`
  obtain rfl : r = r' := by
    rw [hw] at hw'
    exact (Answer.mk.inj (Option.some.inj hw')).1
  obtain rfl : g = g' := by
    rw [hr] at hr'
    exact (Request.mk.inj (Received.mk.inj (Option.some.inj hr')).2).2
  rw [hg] at hg'
  exact Origin.call.inj (Job.mk.inj (Option.some.inj hg')).2.2.2

/-- A call that has returned a reply returned an answer to itself. -/
theorem answerTo_of_returned (h : Traced s) {i : ℕ} {c : Call} {key : UInt64} {rep : Reply}
    (hi : s.calls[i]? = some c) (hpc : c.pc = .returned key (.ok rep)) :
    ∃ w, rep.origin = .answer w ∧ s.AnswerTo w i rep.data := by
  refine h.explained.calls i c hi rep ?_
  simp [Call.reply, hpc]

/-- **Replies go to their own calls.** In a run of any number of nodes in which no node draws a key
    that it has used before:

    - the data that a call of `c.peer` with `c.data` returns is an answer that the application of
      that peer sent on the `Reply` of the request with that data, made by the one `handleRPC` that
      was started for the call, with its key;
    - no two calls return the same answer;
    - no call returns data of another, be it the data of its request or an answer to it. Two nodes
      that call each other under the same key are two such calls. -/
theorem replies_reach_their_calls {tr : List (Network × Action)} {s : Network}
    (hrun : (machine mem).Run init tr s) (hfresh : Machine.Meets FreshKey tr) :
    (∀ (i : ℕ) c key rep, s.calls[i]? = some c → c.pc = .returned key (.ok rep) →
      ∃ w r g, rep.origin = .answer w ∧
        s.answers[w]? = some ⟨r, rep.data, true⟩ ∧
        s.received[r]? = some ⟨c.peer, ⟨c.data, g⟩⟩ ∧
        s.job g = some ⟨c.peer, c.node, ⟨true, key, c.data⟩, .call i⟩ ∧
        ∀ g' j, s.job g' = some j → j.origin = .call i → g' = g) ∧
    (∀ (i j : ℕ) c d key key' rep rep', s.calls[i]? = some c → s.calls[j]? = some d →
      c.pc = .returned key (.ok rep) → d.pc = .returned key' (.ok rep') →
      rep.origin = rep'.origin → i = j) ∧
    (∀ (i j : ℕ) c key rep, i ≠ j → s.calls[i]? = some c → c.pc = .returned key (.ok rep) →
      rep.origin ≠ .call j ∧ ∀ w value, rep.origin = .answer w → ¬ s.AnswerTo w j value) := by
  have h := traced_of_run hrun hfresh
  refine ⟨?_, ?_, ?_⟩
  · intro i c key rep hi hpc
    obtain ⟨w, ho, q, g, r, hq, hg, hr, hw⟩ := answerTo_of_returned h hi hpc
    have hkey : c.key = some key := by simp [Call.key, hpc]
    obtain rfl := Option.some.inj ((query_of_key hi hkey).symm.trans hq)
    exact ⟨w, r, g, ho, hw, hr, hg, fun g' j hj hcall => job_unique h hj hg hcall rfl⟩
  · intro i j c d key key' rep rep' hi hj hc hd heq
    obtain ⟨w, ho, hw⟩ := answerTo_of_returned h hi hc
    obtain ⟨w', ho', hw'⟩ := answerTo_of_returned h hj hd
    obtain rfl : w = w' := Origin.answer.inj (by rw [← ho, heq, ho'])
    exact hw.unique hw'
  · intro i j c key rep hij hi hpc
    obtain ⟨w, ho, hw⟩ := answerTo_of_returned h hi hpc
    refine ⟨by rw [ho]; simp, fun w' value ho' hw' => ?_⟩
    obtain rfl : w = w' := Origin.answer.inj (ho.symm.trans ho')
    exact hij (hw.unique hw')

/-- The memory of the nodes in the examples. -/
def heaps (_ : UInt64) : Heap := Heap.amd64

/-- Nodes 1 and 2 call each other under the same key; both applications answer and both calls
    return. -/
def crossingCalls : List Action :=
  [.call 1 2 [10], .call 2 1 [20], .draw 0 7, .draw 1 7, .write 0 true, .write 1 true,
    .deliver 0, .deliver 0, .request 0, .request 1, .receive 2, .receive 1,
    .reply 0 [11], .reply 1 [21], .take 0, .take 1, .respond 0 true, .respond 1 true,
    .deliver 0, .deliver 0, .load 2, .load 3, .handover 2, .handover 3, .finish 0, .finish 1]

theorem replies_reach_their_calls_crossing :
    ∃ s, (machine heaps).Run init ((machine heaps).trace init crossingCalls) s ∧
      s.calls = [⟨1, 2, [10], .returned 7 (.ok ⟨[11], .answer 0⟩)⟩,
        ⟨2, 1, [20], .returned 7 (.ok ⟨[21], .answer 1⟩)⟩] ∧
      (∃ r g, s.answers[0]? = some ⟨r, [11], true⟩ ∧ s.received[r]? = some ⟨2, ⟨[10], g⟩⟩) ∧
      ∀ value, ¬ s.AnswerTo 0 1 value := by
  obtain ⟨s, hrun, hcalls⟩ := (machine heaps).run_of_exec_any init crossingCalls
    (P := fun s => s.calls = [⟨1, 2, [10], .returned 7 (.ok ⟨[11], .answer 0⟩)⟩,
        ⟨2, 1, [20], .returned 7 (.ok ⟨[21], .answer 1⟩)⟩]) (by decide +kernel)
  have hfresh : Machine.Meets FreshKey ((machine heaps).trace init crossingCalls) := by
    unfold Machine.Meets
    decide +kernel
  obtain ⟨hown, _, hother⟩ := replies_reach_their_calls hrun hfresh
  have hfirst : s.calls[0]? = some ⟨1, 2, [10], .returned 7 (.ok ⟨[11], .answer 0⟩)⟩ := by
    rw [hcalls]
    rfl
  obtain ⟨w, r, g, ho, hw, hr, _⟩ := hown 0 _ 7 _ hfirst rfl
  obtain rfl : 0 = w := Origin.answer.inj ho
  exact ⟨s, hrun, hcalls, ⟨r, g, hw, hr⟩,
    fun value => (hother 0 1 _ 7 _ (by decide) hfirst rfl).2 0 value rfl⟩

end Tunnel.Messaging.Network
