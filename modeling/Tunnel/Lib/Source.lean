import Mathlib.Data.List.Basic

set_option autoImplicit false

/-! # Readers: streams that arrive in pieces

What one end of a connection writes arrives at the other end in pieces, and nothing says that the
pieces are those that were written. `Read` into a buffer hands out the next piece, or as much of it
as fits, and the rest of the piece with the next call. Over all ways to cut a stream into pieces
this is every behaviour in which each call returns between one element and as many as the buffer
has room for.

`io.Reader` leaves two things open about the end of a stream: whether the call that hands out the
last elements reports `io.EOF` with them, and whether a call with an empty buffer reports it behind
them. A `Source` says what it does (`Ending`). Most callers look at the error first and drop what
was read along with it (`readOk`).

Code that takes each field of a format with a single `Read` sees the fields as they were written
exactly if no piece ends inside one of them (`Intact`) and the end of the stream does not come
along with the last one; `intact_cons` is the rule for one field. -/

namespace Tunnel.Lib

/-- The end of a stream: whether the `Read` that takes the last elements reports `io.EOF`, and
    whether a `Read` into an empty buffer does behind them. -/
structure Ending where
  withLast : Bool
  onEmpty : Bool
deriving DecidableEq

/-- The end is reported by the next `Read` that has room for something. -/
def Ending.late : Ending := ⟨false, false⟩

/-- The receiving end of a stream: the pieces in which the rest of it arrives, and then its end. -/
structure Source (α : Type) where
  pieces : List (List α)
  nonempty : ∀ p ∈ pieces, p ≠ []
  ending : Ending

/-- What `Read` returns: what was read, whether it reports `io.EOF`, and the source afterwards. -/
structure Reading (α : Type) where
  got : List α
  eof : Bool
  rest : Source α

/-- What `Write` returns: how many elements it has written, and an error. -/
structure Written where
  n : ℕ
  err : Option String

variable {α : Type}

/-- A buffer after `b` was read into it: what stood behind `b` stays. -/
def filled (buf b : List α) : List α := b ++ buf.drop b.length

namespace Source

/-- All that is still to be read. -/
def contents (s : Source α) : List α := s.pieces.flatten

/-- The pieces left of `p :: rest` when `n` elements have been taken off `p`. -/
def remaining (p : List α) (rest : List (List α)) (n : ℕ) : List (List α) :=
  if n < p.length then p.drop n :: rest else rest

theorem nonempty_remaining {p : List α} {rest : List (List α)} (h : ∀ q ∈ p :: rest, q ≠ [])
    (n : ℕ) : ∀ q ∈ remaining p rest n, q ≠ [] := by
  intro q hq
  unfold remaining at hq
  split at hq
  · next hn =>
      rcases List.mem_cons.1 hq with rfl | hq
      · exact fun hnil => absurd (List.drop_eq_nil_iff.1 hnil) (by omega)
      · exact h q (List.mem_cons_of_mem p hq)
  · exact h q (List.mem_cons_of_mem p hq)

/-- `Read` into a buffer of `n` elements. -/
def read : Source α → ℕ → Reading α
  | ⟨[], h, e⟩, n => ⟨[], decide (n ≠ 0) || e.onEmpty, ⟨[], h, e⟩⟩
  | ⟨p :: rest, h, e⟩, n =>
      ⟨p.take n, e.withLast && (remaining p rest n).isEmpty,
        ⟨remaining p rest n, nonempty_remaining h n, e⟩⟩

/-- `Read` for a caller that gives up on every error: what was read, and the source afterwards;
    `none` for `io.EOF`, with or without the last elements. -/
def readOk (s : Source α) (n : ℕ) : Option (List α × Source α) :=
  if (s.read n).eof = true then none else some ((s.read n).got, (s.read n).rest)

theorem flatten_remaining (p : List α) (rest : List (List α)) (n : ℕ) :
    p.take n ++ (remaining p rest n).flatten = p ++ rest.flatten := by
  unfold remaining
  split
  · rw [List.flatten_cons, ← List.append_assoc, List.take_append_drop]
  · next hn => rw [List.take_of_length_le (by omega)]

/-! ## What a single `Read` does -/

variable {s s' : Source α} {n : ℕ} {b : List α}

theorem contents_eq_nil : s.contents = [] ↔ s.pieces = [] := by
  obtain ⟨pieces, hne, e⟩ := s
  cases pieces with
  | nil => exact iff_of_true rfl rfl
  | cons p rest =>
      have hp : p ≠ [] := hne p List.mem_cons_self
      simp [contents, hp]

/-- **What `Read` returns.** The next elements of the stream, at most as many as the buffer has room
    for, and at least one if it has room and there is one. -/
theorem read_spec (s : Source α) (n : ℕ) :
    s.contents = (s.read n).got ++ (s.read n).rest.contents ∧ (s.read n).got.length ≤ n ∧
      (n ≠ 0 → s.contents ≠ [] → (s.read n).got ≠ []) ∧ (s.read n).rest.ending = s.ending := by
  obtain ⟨pieces, hne, e⟩ := s
  cases pieces with
  | nil => exact ⟨rfl, Nat.zero_le n, fun _ h => absurd rfl h, rfl⟩
  | cons p rest =>
      refine ⟨(flatten_remaining p rest n).symm, List.length_take_le n p, fun hn _ hnil => ?_, rfl⟩
      rcases List.take_eq_nil_iff.1 hnil with h | h
      · exact hn h
      · exact hne p List.mem_cons_self h

/-- When `Read` reports the end: nothing is left, or the last elements come with it. -/
theorem eof_read : (s.read n).eof = true ↔
    (s.contents = [] ∧ (n ≠ 0 ∨ s.ending.onEmpty = true)) ∨
      (s.contents ≠ [] ∧ (s.read n).rest.contents = [] ∧ s.ending.withLast = true) := by
  obtain ⟨pieces, hne, e⟩ := s
  cases pieces with
  | nil => simp [read, contents]
  | cons p rest =>
      have hp : (⟨p :: rest, hne, e⟩ : Source α).contents ≠ [] :=
        fun h => absurd (contents_eq_nil.1 h) (List.cons_ne_nil p rest)
      rw [or_iff_right (fun h => hp h.1), and_iff_right hp, contents_eq_nil]
      simp [read, and_comm]

theorem readOk_eq_some : s.readOk n = some (b, s') ↔
    (s.read n).eof = false ∧ (s.read n).got = b ∧ (s.read n).rest = s' := by
  unfold readOk
  split
  · next h => simp [h]
  · next h => simp [Bool.not_eq_true _ ▸ h]

/-- What `Read` returns without an error. -/
theorem readOk_spec (h : s.readOk n = some (b, s')) :
    s.contents = b ++ s'.contents ∧ b.length ≤ n ∧ (n ≠ 0 → b ≠ []) ∧ s'.ending = s.ending := by
  obtain ⟨heof, rfl, rfl⟩ := readOk_eq_some.1 h
  obtain ⟨hcontents, hlen, hne, hending⟩ := s.read_spec n
  refine ⟨hcontents, hlen, fun hn => hne hn fun hnil => ?_, hending⟩
  have htrue : (s.read n).eof = true := eof_read.2 (Or.inl ⟨hnil, Or.inl hn⟩)
  rw [heof] at htrue
  cases htrue

theorem readOk_of_nil (hs : s.contents = []) (hn : n ≠ 0) : s.readOk n = none :=
  if_pos (eof_read.2 (Or.inl ⟨hs, Or.inl hn⟩))

/-- A `Read` into an empty buffer takes nothing. -/
theorem readOk_zero (h : s.contents ≠ [] ∨ s.ending.onEmpty = false) :
    s.readOk 0 = some ([], s) := by
  obtain ⟨pieces, hne, e⟩ := s
  cases pieces with
  | nil =>
      have he : e.onEmpty = false := h.resolve_left (fun hc => hc rfl)
      simp [readOk, read, he]
  | cons p rest =>
      have hp : 0 < p.length := List.length_pos_iff.2 (hne p List.mem_cons_self)
      simp [readOk, read, remaining, hp]

/-- A `Read` of the size of the first piece, when it is not the last. -/
theorem readOk_piece {p q : List α} {rest : List (List α)} {h : ∀ x ∈ p :: q :: rest, x ≠ []}
    {e : Ending} :
    (⟨p :: q :: rest, h, e⟩ : Source α).readOk p.length
      = some (p, ⟨q :: rest, fun x hx => h x (List.mem_cons_of_mem p hx), e⟩) := by
  simp [readOk, read, remaining]

/-! ## Where a stream is cut -/

/-- A piece ends after the first `j` elements. -/
def Cut (s : Source α) (j : ℕ) : Prop := ∃ i, (s.pieces.take i).flatten.length = j

instance (s : Source α) (j : ℕ) : Decidable (s.Cut j) :=
  decidable_of_iff (∃ i < s.pieces.length + 1, (s.pieces.take i).flatten.length = j) <| by
    constructor
    · rintro ⟨i, _, hi⟩
      exact ⟨i, hi⟩
    · rintro ⟨i, hi⟩
      refine ⟨min i s.pieces.length, by omega, ?_⟩
      rw [← List.take_eq_take_min]
      exact hi

/-- The position `j` lies inside one of the fields, and at neither end of it. -/
def Inside (fields : List (List α)) (j : ℕ) : Prop :=
  ∃ pre f post, fields = pre ++ f :: post ∧ pre.flatten.length < j ∧
    j < pre.flatten.length + f.length

/-- No piece ends inside one of the fields that the stream begins with. -/
def Intact (s : Source α) (fields : List (List α)) : Prop := ∀ j, s.Cut j → ¬ Inside fields j

theorem inside_cons {f : List α} {fields : List (List α)} {j : ℕ} :
    Inside (f :: fields) j ↔
      (0 < j ∧ j < f.length) ∨ ∃ k, j = f.length + k ∧ Inside fields k := by
  constructor
  · rintro ⟨pre, g, post, heq, hlt, hgt⟩
    cases pre with
    | nil =>
        obtain ⟨rfl, -⟩ := List.cons.inj heq
        exact Or.inl ⟨by simpa using hlt, by simpa using hgt⟩
    | cons f' pre =>
        obtain ⟨rfl, rfl⟩ := List.cons.inj heq
        simp only [List.flatten_cons, List.length_append] at hlt hgt
        exact Or.inr ⟨j - f.length, by omega, pre, g, post, rfl, by omega, by omega⟩
  · rintro (⟨hpos, hlt⟩ | ⟨k, rfl, pre, g, post, rfl, hlt, hgt⟩)
    · exact ⟨[], f, fields, rfl, by simpa using hpos, by simpa using hlt⟩
    · refine ⟨f :: pre, g, post, rfl, ?_, ?_⟩
      · simpa using hlt
      · simp only [List.flatten_cons, List.length_append]
        omega

theorem Inside.pos {fields : List (List α)} {j : ℕ} (h : Inside fields j) : 0 < j := by
  obtain ⟨pre, f, post, _, hlt, _⟩ := h
  omega

theorem Inside.lt_length {fields : List (List α)} {j : ℕ} (h : Inside fields j) :
    j < fields.flatten.length := by
  obtain ⟨pre, f, post, rfl, _, hgt⟩ := h
  simp only [List.flatten_append, List.flatten_cons, List.length_append]
  omega

theorem not_inside_nil (j : ℕ) : ¬ Inside ([] : List (List α)) j := by
  rintro ⟨pre, f, post, heq, _⟩
  exact absurd heq (by simp)

theorem intact_nil (s : Source α) : s.Intact [] := fun j _ => not_inside_nil j

/-- An empty field cannot be cut. -/
theorem intact_cons_nil {fields : List (List α)} : s.Intact ([] :: fields) ↔ s.Intact fields := by
  have h : ∀ j, Inside ([] :: fields) j ↔ Inside fields j := by
    intro j
    simp [inside_cons]
  simp only [Intact, h]

/-- The cuts of `p :: rest` are its start, and those of `rest` moved by the length of `p`. -/
theorem cut_cons {p : List α} {rest : List (List α)} {h : ∀ q ∈ p :: rest, q ≠ []} {e : Ending}
    {j : ℕ} :
    Cut ⟨p :: rest, h, e⟩ j ↔ j = 0 ∨ ∃ k, j = p.length + k ∧
      Cut ⟨rest, fun q hq => h q (List.mem_cons_of_mem p hq), e⟩ k := by
  constructor
  · rintro ⟨i, hi⟩
    cases i with
    | zero => exact Or.inl (by simpa using hi.symm)
    | succ i => exact Or.inr ⟨(rest.take i).flatten.length, by simpa using hi.symm, i, rfl⟩
  · rintro (rfl | ⟨k, rfl, i, rfl⟩)
    · exact ⟨0, rfl⟩
    · exact ⟨i + 1, by simp⟩

/-- Fields that arrive in one piece are not cut. -/
theorem intact_of_piece {p : List α} {h : ∀ q ∈ [p], q ≠ []} {e : Ending} {fields : List (List α)}
    (hlen : fields.flatten.length ≤ p.length) : Intact ⟨[p], h, e⟩ fields := by
  rintro j hcut hin
  have hpos := hin.pos
  have hlt := hin.lt_length
  rcases cut_cons.1 hcut with rfl | ⟨k, rfl, _⟩
  · exact absurd hpos (Nat.lt_irrefl 0)
  · omega

/-- A `Read` of a whole field, with pieces left over or not, moves the cuts behind it. -/
theorem cut_remaining {p : List α} {rest : List (List α)} {h : ∀ q ∈ p :: rest, q ≠ []} {e : Ending}
    (hn : n ≤ p.length) {j : ℕ} (hj : 0 < j) :
    Cut ⟨remaining p rest n, nonempty_remaining h n, e⟩ j ↔ Cut ⟨p :: rest, h, e⟩ (n + j) := by
  have hrest : ∀ q ∈ rest, q ≠ [] := fun q hq => h q (List.mem_cons_of_mem p hq)
  rw [cut_cons]
  by_cases hlt : n < p.length
  · have hrem : remaining p rest n = p.drop n :: rest := if_pos hlt
    have hne : ∀ q ∈ p.drop n :: rest, q ≠ [] := hrem ▸ nonempty_remaining h n
    have hsource : (⟨remaining p rest n, nonempty_remaining h n, e⟩ : Source α)
        = ⟨p.drop n :: rest, hne, e⟩ := by simp only [hrem]
    rw [hsource, cut_cons, List.length_drop]
    constructor
    · rintro (rfl | ⟨k, rfl, hk⟩)
      · exact absurd hj (Nat.lt_irrefl 0)
      · exact Or.inr ⟨k, by omega, hk⟩
    · rintro (h0 | ⟨k, hk, hcut⟩)
      · omega
      · exact Or.inr ⟨k, by omega, hcut⟩
  · have hrem : remaining p rest n = rest := if_neg hlt
    have hsource : (⟨remaining p rest n, nonempty_remaining h n, e⟩ : Source α)
        = ⟨rest, hrest, e⟩ := by simp only [hrem]
    have hlen : n = p.length := by omega
    rw [hsource, hlen]
    constructor
    · exact fun hcut => Or.inr ⟨j, rfl, hcut⟩
    · rintro (h0 | ⟨k, hk, hcut⟩)
      · omega
      · rwa [show j = k by omega]

/-- Behind a `Read` that fills the buffer, the cuts are those of the stream. -/
theorem cut_of_read (hb : (s.read n).got.length = n) {j : ℕ} (hj : 0 < j) :
    (s.read n).rest.Cut j ↔ s.Cut (n + j) := by
  obtain ⟨pieces, hne, e⟩ := s
  cases pieces with
  | nil =>
      obtain rfl : 0 = n := hb
      rw [Nat.zero_add]
      rfl
  | cons p rest =>
      have hlen : (p.take n).length = n := hb
      rw [List.length_take] at hlen
      exact cut_remaining (by omega) hj

/-- A field is read at once exactly if no piece ends inside it. -/
theorem got_iff_no_cut {f more : List α} (hf : f ≠ []) (hs : s.contents = f ++ more) :
    (s.read f.length).got = f ↔ ∀ j, s.Cut j → ¬ (0 < j ∧ j < f.length) := by
  obtain ⟨pieces, hne, e⟩ := s
  cases pieces with
  | nil => exact absurd hs.symm (by simp [contents, hf])
  | cons p rest =>
      have hp : 0 < p.length := List.length_pos_iff.2 (hne p List.mem_cons_self)
      have hflat : p ++ rest.flatten = f ++ more := hs
      constructor
      · rintro hgot j hcut ⟨hpos, hlt⟩
        have hlen : (p.take f.length).length = f.length := congrArg List.length hgot
        rw [List.length_take] at hlen
        rcases cut_cons.1 hcut with rfl | ⟨k, rfl, _⟩
        · exact absurd hpos (Nat.lt_irrefl 0)
        · omega
      · intro hcuts
        -- the first piece does not end inside the field
        have hlen : f.length ≤ p.length := by
          by_contra hlt
          exact hcuts p.length ⟨1, by simp⟩ ⟨hp, by omega⟩
        have htake := congrArg (List.take f.length) hflat
        rwa [List.take_append_of_le_length hlen, List.take_left] at htake

/-- What is left when a `Read` has returned the first field of the stream. -/
theorem rest_of_got {f more : List α} (hs : s.contents = f ++ more) (hgot : (s.read n).got = f) :
    (s.read n).rest.contents = more := by
  have hcontents := (s.read_spec n).1
  rw [hs, hgot] at hcontents
  exact (List.append_cancel_left hcontents).symm

theorem contents_of_readOk {more : List α} (hs : s.contents = b ++ more)
    (h : s.readOk n = some (b, s')) : s'.contents = more := by
  obtain ⟨_, hgot, rfl⟩ := readOk_eq_some.1 h
  exact rest_of_got hs hgot

/-- A field comes without an error exactly if it is read at once, and not with the end of the
    stream. -/
theorem readOk_iff_no_cut {f more : List α} (hf : f ≠ []) (hs : s.contents = f ++ more) :
    (∃ s', s.readOk f.length = some (f, s')) ↔
      (∀ j, s.Cut j → ¬ (0 < j ∧ j < f.length)) ∧ (more = [] → s.ending.withLast = false) := by
  have hne : s.contents ≠ [] := by simp [hs, hf]
  rw [← got_iff_no_cut hf hs]
  constructor
  · rintro ⟨s', h⟩
    obtain ⟨heof, hgot, _⟩ := readOk_eq_some.1 h
    refine ⟨hgot, fun hmore => Bool.eq_false_iff.2 fun hlast => ?_⟩
    have htrue := eof_read.2 (Or.inr ⟨hne, (rest_of_got hs hgot).trans hmore, hlast⟩)
    rw [heof] at htrue
    cases htrue
  · rintro ⟨hgot, hend⟩
    refine ⟨_, readOk_eq_some.2 ⟨Bool.eq_false_iff.2 fun heof => ?_, hgot, rfl⟩⟩
    rcases eof_read.1 heof with ⟨hnil, _⟩ | ⟨_, hrest, hlast⟩
    · exact hne hnil
    · rw [rest_of_got hs hgot] at hrest
      rw [hend hrest] at hlast
      cases hlast

theorem cut_of_readOk (h : s.readOk n = some (b, s')) (hb : b.length = n) {j : ℕ} (hj : 0 < j) :
    s'.Cut j ↔ s.Cut (n + j) := by
  obtain ⟨_, rfl, rfl⟩ := readOk_eq_some.1 h
  exact cut_of_read hb hj

/-- Behind a field that was read at once, the cuts inside the next fields are those of the
    stream. -/
theorem intact_of_readOk {f : List α} {fields : List (List α)}
    (h : s.readOk f.length = some (f, s')) :
    s'.Intact fields ↔ ∀ k, s.Cut (f.length + k) → ¬ Inside fields k := by
  constructor
  · intro hintact k hcut hin
    exact hintact k ((cut_of_readOk h rfl hin.pos).2 hcut) hin
  · intro hcuts k hcut hin
    exact hcuts k ((cut_of_readOk h rfl hin.pos).1 hcut) hin

/-- **One field.** A stream that begins with the field `f` is intact exactly if a `Read` of the size
    of `f` returns all of `f`, and what comes then is intact; if `f` is the last field, its end must
    not come along with it. -/
theorem intact_cons {f more : List α} {fields : List (List α)} (hf : f ≠ [])
    (hs : s.contents = f ++ more) :
    (s.Intact (f :: fields) ∧ (more = [] → s.ending.withLast = false)) ↔
      ∃ s', s.readOk f.length = some (f, s') ∧ s'.contents = more ∧
        s'.ending = s.ending ∧ s'.Intact fields := by
  constructor
  · rintro ⟨hintact, hend⟩
    obtain ⟨s', hread⟩ := (readOk_iff_no_cut hf hs).2 ⟨fun j hcut hj =>
      hintact j hcut (inside_cons.2 (Or.inl hj)), hend⟩
    refine ⟨s', hread, contents_of_readOk hs hread, (readOk_spec hread).2.2.2, ?_⟩
    exact (intact_of_readOk hread).2 (fun k hcut hin =>
      hintact _ hcut (inside_cons.2 (Or.inr ⟨k, rfl, hin⟩)))
  · rintro ⟨s', hread, _, _, hintact⟩
    obtain ⟨hcuts, hend⟩ := (readOk_iff_no_cut hf hs).1 ⟨s', hread⟩
    refine ⟨fun j hcut hin => ?_, hend⟩
    rcases inside_cons.1 hin with hfirst | ⟨k, rfl, hrest⟩
    · exact hcuts j hcut hfirst
    · exact (intact_of_readOk hread).1 hintact k hcut hrest

/-- A stream that begins with the field `f` has it intact exactly if a `Read` of the size of `f`
    returns it. -/
theorem intact_singleton {f more : List α} (hf : f ≠ []) (hs : s.contents = f ++ more) :
    (s.Intact [f] ∧ (more = [] → s.ending.withLast = false)) ↔
      ∃ s', s.readOk f.length = some (f, s') := by
  rw [intact_cons hf hs]
  constructor
  · rintro ⟨s', hread, _⟩
    exact ⟨s', hread⟩
  · rintro ⟨s', hread⟩
    exact ⟨s', hread, contents_of_readOk hs hread, (readOk_spec hread).2.2.2, intact_nil s'⟩

/-- A `Read` with room for all that is left reports the end if there is nothing, or if it all comes
    at once and the end with it. -/
theorem eof_read_of_short (hlen : s.contents.length ≤ n) (hn : n ≠ 0) :
    (s.read n).eof = true ↔
      s.contents = [] ∨ (s.Intact [s.contents] ∧ s.ending.withLast = true) := by
  rw [eof_read]
  by_cases hnil : s.contents = []
  · simp [hnil, hn]
  · have hrest : (s.read n).rest.contents = [] ↔ s.Intact [s.contents] := by
      obtain ⟨pieces, hne, e⟩ := s
      cases pieces with
      | nil => exact absurd rfl hnil
      | cons p rest =>
          have hp : 0 < p.length := List.length_pos_iff.2 (hne p List.mem_cons_self)
          have hall : (⟨p :: rest, hne, e⟩ : Source α).contents = p ++ rest.flatten := rfl
          rw [hall, List.length_append] at hlen
          have hrem : remaining p rest n = rest := if_neg (by omega)
          rw [contents_eq_nil]
          show remaining p rest n = [] ↔ _
          rw [hrem]
          constructor
          · rintro rfl
            exact intact_of_piece (by simp [contents])
          · intro hintact
            by_contra hmore
            obtain ⟨q, more, rfl⟩ := List.exists_cons_of_ne_nil hmore
            have hq : 0 < q.length := List.length_pos_iff.2 (hne q (by simp))
            refine hintact p.length ⟨1, by simp⟩ (inside_cons.2 (Or.inl ⟨hp, ?_⟩))
            rw [hall, List.flatten_cons, List.length_append, List.length_append]
            omega
    rw [hrest]
    simp [hnil]

/-- If the field `f` is all that is left but `more`, its end is not reported along with it, nor, if
    it is empty, in its place. -/
def EndClear (s : Source α) (f more : List α) : Prop :=
  more = [] → (f ≠ [] → s.ending.withLast = false) ∧ (f = [] → s.ending.onEmpty = false)

/-- **One field, which may be empty.** -/
theorem read_field_iff {f more : List α} {fields : List (List α)} (hs : s.contents = f ++ more) :
    (s.Intact (f :: fields) ∧ s.EndClear f more) ↔
      ∃ s', s.readOk f.length = some (f, s') ∧ s'.contents = more ∧
        s'.ending = s.ending ∧ s'.Intact fields := by
  by_cases hf : f = []
  · subst hf
    have hmore : s.contents = more := hs
    have hclear : s.EndClear [] more ↔ (s.contents ≠ [] ∨ s.ending.onEmpty = false) := by
      simp only [EndClear, hmore, ne_eq, not_true_eq_false, false_imp_iff, true_and, true_imp_iff]
      exact imp_iff_not_or
    rw [intact_cons_nil, hclear]
    constructor
    · rintro ⟨hintact, hend⟩
      exact ⟨s, readOk_zero hend, hmore, rfl, hintact⟩
    · rintro ⟨s', hread, _, _, hintact⟩
      have hend : s.contents ≠ [] ∨ s.ending.onEmpty = false := by
        by_contra hnot
        rw [not_or, not_not, Bool.not_eq_false] at hnot
        have heof : (s.read 0).eof = true := eof_read.2 (Or.inl ⟨hnot.1, Or.inr hnot.2⟩)
        rw [List.length_nil, readOk, if_pos heof] at hread
        cases hread
      rw [List.length_nil, readOk_zero hend] at hread
      cases hread
      exact ⟨hintact, hend⟩
  · have hclear : s.EndClear f more ↔ (more = [] → s.ending.withLast = false) := by
      simp [EndClear, hf]
    rw [hclear, intact_cons hf hs]

end Source

end Tunnel.Lib
