import Mathlib.Data.List.Basic
import Mathlib.Logic.Function.Basic

set_option autoImplicit false

/-! # Connections

Reliable byte streams with two ends, as `net.Conn` promises them: what is written at one end arrives
at the other, in order, and is read there in pieces of any size. Any number of connections exist;
one is named by a number, and its two ends by a flag besides.

An end remembers what was written at it and how much of what the other end wrote has been read, so
that what is in flight is a suffix of what was written (`pending`) and nothing needs to be said
about the network between the ends. Closing an end makes every later write at that end fail, and
lets the other end read on until it has everything and then find the end of the stream. Whether it
makes the reads at that end fail, too, depends on the connection (`closesRead`). -/

namespace Tunnel.Lib

/-- One of the two ends of a connection. -/
structure Endpoint where
  conn : ℕ
  far : Bool
deriving DecidableEq

/-- The other end of the same connection. -/
def Endpoint.peer (e : Endpoint) : Endpoint := ⟨e.conn, !e.far⟩

@[simp] theorem Endpoint.peer_peer (e : Endpoint) : e.peer.peer = e := by
  simp [peer]

/-- What a `Read` reports besides its bytes: the end of the stream, or some failure. -/
inductive ReadErr
  | eof
  | failed
deriving DecidableEq

/-- All connections: what was written at each end, how many bytes from the other end were read
    there, and whether it is closed. -/
structure Conns (β : Type) where
  out : Endpoint → List β
  got : Endpoint → ℕ
  closed : Endpoint → Bool

namespace Conns

variable {β : Type}

/-- Connections on which nothing has happened. -/
def fresh : Conns β := ⟨fun _ => [], fun _ => 0, fun _ => false⟩

/-- Everything that was ever written towards `e`. -/
def incoming (k : Conns β) (e : Endpoint) : List β := k.out e.peer

/-- What was written towards `e` and not read there yet. -/
def pending (k : Conns β) (e : Endpoint) : List β := (k.incoming e).drop (k.got e)

/-- `bytes` are written at `e`. -/
def write (k : Conns β) (e : Endpoint) (bytes : List β) : Conns β :=
  { k with out := Function.update k.out e (k.out e ++ bytes) }

/-- `n` bytes are read at `e`. -/
def read (k : Conns β) (e : Endpoint) (n : ℕ) : Conns β :=
  { k with got := Function.update k.got e (k.got e + n) }

/-- `Close` at `e`. -/
def close (k : Conns β) (e : Endpoint) : Conns β :=
  { k with closed := Function.update k.closed e true }

/-- `e` is closed, and not for writing only. -/
def readClosed (closesRead : Endpoint → Bool) (k : Conns β) (e : Endpoint) : Bool :=
  k.closed e && closesRead e

/-- A `Read` at `e` with room for `limit` bytes may return `n` bytes and `err`. At an end that is
    closed for reading it fails. Otherwise it returns some of what is pending, or the end of the
    stream behind all of it once the other end is closed, or it fails; the last two may come
    together with bytes. -/
def Reads (closesRead : Endpoint → Bool) (k : Conns β) (e : Endpoint) (limit n : ℕ)
    (err : Option ReadErr) : Prop :=
  if k.readClosed closesRead e = true then n = 0 ∧ err = some .failed
  else n ≤ limit ∧ n ≤ (k.pending e).length ∧ (err = none → 0 < n) ∧
    (err = some .eof → n = (k.pending e).length ∧ k.closed e.peer = true)

instance (closesRead : Endpoint → Bool) (k : Conns β) (e : Endpoint) (limit n : ℕ)
    (err : Option ReadErr) : Decidable (k.Reads closesRead e limit n err) := by
  unfold Reads
  infer_instance

/-- A `Write` of `len` bytes at `e` may have written `n` of them and fail or not. At a closed end it
    fails. -/
def Writes (k : Conns β) (e : Endpoint) (len n : ℕ) (failed : Bool) : Prop :=
  if k.closed e = true then n = 0 ∧ failed = true else n ≤ len

instance (k : Conns β) (e : Endpoint) (len n : ℕ) (failed : Bool) :
    Decidable (k.Writes e len n failed) := by
  unfold Writes
  infer_instance

/-! ## What an operation changes -/

variable {k : Conns β} {e f : Endpoint} {n limit : ℕ} {bytes : List β}
  {closesRead : Endpoint → Bool}

@[simp] theorem out_read (k : Conns β) (e : Endpoint) (n : ℕ) : (k.read e n).out = k.out := rfl

@[simp] theorem incoming_read (k : Conns β) (e : Endpoint) (n : ℕ) :
    (k.read e n).incoming = k.incoming := rfl

@[simp] theorem closed_read (k : Conns β) (e : Endpoint) (n : ℕ) :
    (k.read e n).closed = k.closed := rfl

@[simp] theorem got_write (k : Conns β) (e : Endpoint) (bytes : List β) :
    (k.write e bytes).got = k.got := rfl

@[simp] theorem closed_write (k : Conns β) (e : Endpoint) (bytes : List β) :
    (k.write e bytes).closed = k.closed := rfl

@[simp] theorem out_close (k : Conns β) (e : Endpoint) : (k.close e).out = k.out := rfl

@[simp] theorem incoming_close (k : Conns β) (e : Endpoint) :
    (k.close e).incoming = k.incoming := rfl

@[simp] theorem got_close (k : Conns β) (e : Endpoint) : (k.close e).got = k.got := rfl

@[simp] theorem got_read_self (k : Conns β) (e : Endpoint) (n : ℕ) :
    (k.read e n).got e = k.got e + n := Function.update_self ..

theorem got_read_ne (k : Conns β) (n : ℕ) (h : f ≠ e) : (k.read e n).got f = k.got f :=
  Function.update_of_ne h ..

@[simp] theorem out_write_self (k : Conns β) (e : Endpoint) (bytes : List β) :
    (k.write e bytes).out e = k.out e ++ bytes := Function.update_self ..

theorem out_write_ne (k : Conns β) (bytes : List β) (h : f ≠ e) :
    (k.write e bytes).out f = k.out f := Function.update_of_ne h ..

/-- A write only adds to what arrives at any end. -/
theorem incoming_write_prefix (k : Conns β) (e : Endpoint) (bytes : List β) (f : Endpoint) :
    k.incoming f <+: (k.write e bytes).incoming f := by
  unfold incoming
  by_cases h : f.peer = e
  · rw [h, out_write_self]
    exact List.prefix_append _ _
  · exact ⟨[], by rw [out_write_ne k bytes h, List.append_nil]⟩

@[simp] theorem closed_close_self (k : Conns β) (e : Endpoint) : (k.close e).closed e = true :=
  Function.update_self ..

theorem closed_close_ne (k : Conns β) (h : f ≠ e) : (k.close e).closed f = k.closed f :=
  Function.update_of_ne h ..

/-- A closed end stays closed. -/
theorem closed_close_of_closed (h : k.closed f = true) : (k.close e).closed f = true := by
  by_cases hfe : f = e
  · rw [hfe, closed_close_self]
  · rw [closed_close_ne k hfe, h]

/-! ## Nothing is read that was not written -/

/-- No end has read more than was written towards it. -/
def Sound (k : Conns β) : Prop := ∀ e, k.got e ≤ (k.incoming e).length

theorem sound_fresh : Sound (fresh : Conns β) := by
  intro e
  simp [fresh, incoming]

theorem Sound.write (h : k.Sound) (e : Endpoint) (bytes : List β) : (k.write e bytes).Sound := by
  intro f
  rw [got_write]
  exact Nat.le_trans (h f) (k.incoming_write_prefix e bytes f).length_le

theorem Sound.close (h : k.Sound) (e : Endpoint) : (k.close e).Sound := h

theorem Sound.read (h : k.Sound) (hn : n ≤ (k.pending e).length) : (k.read e n).Sound := by
  intro f
  rw [incoming_read]
  by_cases hfe : f = e
  · subst hfe
    have hgot := h f
    rw [pending, List.length_drop] at hn
    rw [got_read_self]
    omega
  · rw [got_read_ne k n hfe]
    exact h f

/-- Where nothing is pending, everything that arrived has been read. -/
theorem Sound.got_of_pending_nil (h : k.Sound) (hnil : k.pending e = []) :
    k.got e = (k.incoming e).length := by
  have hle := h e
  rw [pending, List.drop_eq_nil_iff] at hnil
  omega

/-- The bytes of a successful read are there. -/
theorem Reads.le_pending {err : Option ReadErr} (h : k.Reads closesRead e limit n err) :
    n ≤ (k.pending e).length := by
  unfold Reads at h
  split at h
  · rw [h.1]
    exact Nat.zero_le _
  · exact h.2.1

theorem Reads.le_limit {err : Option ReadErr} (h : k.Reads closesRead e limit n err) :
    n ≤ limit := by
  unfold Reads at h
  split at h
  · rw [h.1]
    exact Nat.zero_le _
  · exact h.1

/-- A `Read` without an error brings something. -/
theorem Reads.pos_or_err {err : Option ReadErr} (h : k.Reads closesRead e limit n err) :
    0 < n ∨ err ≠ none := by
  by_cases herr : err = none
  · unfold Reads at h
    split at h
    · rw [h.2] at herr
      cases herr
    · exact Or.inl (h.2.2.1 herr)
  · exact Or.inr herr

theorem Writes.le {failed : Bool} {len : ℕ} (h : k.Writes e len n failed) : n ≤ len := by
  unfold Writes at h
  split at h
  · rw [h.1]
    exact Nat.zero_le _
  · exact h

end Conns

end Tunnel.Lib
