import Tunnel.Lib.Source

set_option autoImplicit false

/-! # Reading JSON values off a stream (`encoding/json`)

A `Decoder` reads a stream into a buffer of its own and feeds every byte to a scanner, a machine
with a stack, until the scanner says that a value is complete. An object or array is complete with
its last bracket: the decoder does not wait for the byte behind it. But `Read` hands out as much as
the buffer has room for, so the buffer may hold more than the value. A second `Decode` would find it
there; whoever reads on from the stream does not.

For a text that ends with its bracket, `readValue_of_ends` says what `Decode` returns and how much
too much it has read: as much as the first refill of the buffer that reaches the end of the text
brings (`Buffer.Overshoots`). `ends_object` says that what the `Encoder` writes for a structure with
one field, a string, is such a text, whatever the string. -/

namespace Tunnel.Lib.Json

/-! ## The scanner -/

/-- What the scanner is in the middle of, the stack of which is `parseState`. -/
inductive ParseState
  | objectKey
  | objectValue
  | arrayValue
deriving DecidableEq

/-- The functions that `scanner.step` may be. `stateT` to `stateNul` are one, with the letters that
    are missing, and so are the four that read the digits of a `\u` escape. -/
inductive State
  | beginValueOrEmpty
  | beginValue
  | beginStringOrEmpty
  | beginString
  | endValue
  | endTop
  | inString
  | inStringEsc
  | inStringEscU (digits : ℕ)
  | neg
  | digits
  | zero
  | dot
  | fraction
  | exponent
  | exponentSign
  | exponentDigits
  | literal (missing : List UInt8)
  | error
deriving DecidableEq

/-- What the scanner says about a byte. -/
inductive Op
  | cont
  | beginLiteral
  | beginObject
  | objectKey
  | objectValue
  | endObject
  | beginArray
  | arrayValue
  | endArray
  | skipSpace
  | finish
  | error
deriving DecidableEq

structure Scanner where
  state : State
  parseState : List ParseState
deriving DecidableEq

def maxNestingDepth : ℕ := 10000

def isSpace (c : UInt8) : Bool := c == 0x20 || c == 0x09 || c == 0x0d || c == 0x0a

def isDigit (c : UInt8) : Bool := 0x30 ≤ c && c ≤ 0x39

def isHex (c : UInt8) : Bool :=
  isDigit c || (0x61 ≤ c && c ≤ 0x66) || (0x41 ≤ c && c ≤ 0x46)

namespace Scanner

/-- `scanner.reset` -/
def init : Scanner := ⟨.beginValue, []⟩

/-- `scanner.error` -/
def fail (s : Scanner) : Scanner × Op := ({ s with state := .error }, .error)

def pushParseState (s : Scanner) (ps : ParseState) (success : Op) : Scanner × Op :=
  let s' : Scanner := { s with parseState := ps :: s.parseState }
  if s'.parseState.length ≤ maxNestingDepth then (s', success) else s'.fail

/-- `scanner.popParseState`, when this is left of the stack. -/
def popParseState (outer : List ParseState) : Scanner :=
  if outer = [] then ⟨.endTop, outer⟩ else ⟨.endValue, outer⟩

def stateEndTop (s : Scanner) (c : UInt8) : Scanner × Op :=
  if isSpace c then (s, .finish) else (s.fail.1, .finish)

def stateEndValue (s : Scanner) (c : UInt8) : Scanner × Op :=
  match s.parseState with
  | [] => stateEndTop { s with state := .endTop } c
  | ps :: outer =>
      if isSpace c then ({ s with state := .endValue }, .skipSpace)
      else match ps with
        | .objectKey =>
            if c = 0x3a then (⟨.beginValue, .objectValue :: outer⟩, .objectKey) else s.fail
        | .objectValue =>
            if c = 0x2c then (⟨.beginString, .objectKey :: outer⟩, .objectValue)
            else if c = 0x7d then (popParseState outer, .endObject)
            else s.fail
        | .arrayValue =>
            if c = 0x2c then ({ s with state := .beginValue }, .arrayValue)
            else if c = 0x5d then (popParseState outer, .endArray)
            else s.fail

def stateBeginValue (s : Scanner) (c : UInt8) : Scanner × Op :=
  if isSpace c then (s, .skipSpace)
  else if c = 0x7b then
    pushParseState { s with state := .beginStringOrEmpty } .objectKey .beginObject
  else if c = 0x5b then
    pushParseState { s with state := .beginValueOrEmpty } .arrayValue .beginArray
  else if c = 0x22 then ({ s with state := .inString }, .beginLiteral)
  else if c = 0x2d then ({ s with state := .neg }, .beginLiteral)
  else if c = 0x30 then ({ s with state := .zero }, .beginLiteral)
  -- true, false and null
  else if c = 0x74 then ({ s with state := .literal [0x72, 0x75, 0x65] }, .beginLiteral)
  else if c = 0x66 then ({ s with state := .literal [0x61, 0x6c, 0x73, 0x65] }, .beginLiteral)
  else if c = 0x6e then ({ s with state := .literal [0x75, 0x6c, 0x6c] }, .beginLiteral)
  else if isDigit c then ({ s with state := .digits }, .beginLiteral)
  else s.fail

def stateBeginValueOrEmpty (s : Scanner) (c : UInt8) : Scanner × Op :=
  if isSpace c then (s, .skipSpace)
  else if c = 0x5d then s.stateEndValue c
  else s.stateBeginValue c

def stateBeginString (s : Scanner) (c : UInt8) : Scanner × Op :=
  if isSpace c then (s, .skipSpace)
  else if c = 0x22 then ({ s with state := .inString }, .beginLiteral)
  else s.fail

def stateBeginStringOrEmpty (s : Scanner) (c : UInt8) : Scanner × Op :=
  if isSpace c then (s, .skipSpace)
  else if c = 0x7d then
    stateEndValue { s with parseState := .objectValue :: s.parseState.drop 1 } c
  else s.stateBeginString c

def stateInString (s : Scanner) (c : UInt8) : Scanner × Op :=
  if c = 0x22 then ({ s with state := .endValue }, .cont)
  else if c = 0x5c then ({ s with state := .inStringEsc }, .cont)
  else if c < 0x20 then s.fail
  else (s, .cont)

/-- The letters that may stand behind a backslash. -/
def escapes : List UInt8 := [0x62, 0x66, 0x6e, 0x72, 0x74, 0x5c, 0x2f, 0x22]

def stateInStringEsc (s : Scanner) (c : UInt8) : Scanner × Op :=
  if c ∈ escapes then ({ s with state := .inString }, .cont)
  else if c = 0x75 then ({ s with state := .inStringEscU 4 }, .cont)
  else s.fail

/-- `stateInStringEscU` to `stateInStringEscU123`, with the number of digits that are missing. -/
def stateInStringEscU (s : Scanner) (digits : ℕ) (c : UInt8) : Scanner × Op :=
  if isHex c then
    ({ s with state := if digits ≤ 1 then .inString else .inStringEscU (digits - 1) }, .cont)
  else s.fail

def stateNeg (s : Scanner) (c : UInt8) : Scanner × Op :=
  if c = 0x30 then ({ s with state := .zero }, .cont)
  else if isDigit c then ({ s with state := .digits }, .cont)
  else s.fail

/-- `state0` -/
def stateZero (s : Scanner) (c : UInt8) : Scanner × Op :=
  if c = 0x2e then ({ s with state := .dot }, .cont)
  else if c = 0x65 ∨ c = 0x45 then ({ s with state := .exponent }, .cont)
  else s.stateEndValue c

/-- `state1` -/
def stateDigits (s : Scanner) (c : UInt8) : Scanner × Op :=
  if isDigit c then (s, .cont) else s.stateZero c

def stateDot (s : Scanner) (c : UInt8) : Scanner × Op :=
  if isDigit c then ({ s with state := .fraction }, .cont) else s.fail

/-- `stateDot0` -/
def stateFraction (s : Scanner) (c : UInt8) : Scanner × Op :=
  if isDigit c then (s, .cont)
  else if c = 0x65 ∨ c = 0x45 then ({ s with state := .exponent }, .cont)
  else s.stateEndValue c

/-- `stateESign` -/
def stateExponentSign (s : Scanner) (c : UInt8) : Scanner × Op :=
  if isDigit c then ({ s with state := .exponentDigits }, .cont) else s.fail

/-- `stateE` -/
def stateExponent (s : Scanner) (c : UInt8) : Scanner × Op :=
  if c = 0x2b ∨ c = 0x2d then ({ s with state := .exponentSign }, .cont)
  else s.stateExponentSign c

/-- `stateE0` -/
def stateExponentDigits (s : Scanner) (c : UInt8) : Scanner × Op :=
  if isDigit c then (s, .cont) else s.stateEndValue c

/-- `stateT` to `stateNul` -/
def stateLiteral (s : Scanner) (missing : List UInt8) (c : UInt8) : Scanner × Op :=
  match missing with
  | [] => s.fail
  | m :: rest =>
      if c = m then
        ({ s with state := if rest = [] then .endValue else .literal rest }, .cont)
      else s.fail

/-- `scanner.step` -/
def step (s : Scanner) (c : UInt8) : Scanner × Op :=
  match s.state with
  | .beginValueOrEmpty => s.stateBeginValueOrEmpty c
  | .beginValue => s.stateBeginValue c
  | .beginStringOrEmpty => s.stateBeginStringOrEmpty c
  | .beginString => s.stateBeginString c
  | .endValue => s.stateEndValue c
  | .endTop => s.stateEndTop c
  | .inString => s.stateInString c
  | .inStringEsc => s.stateInStringEsc c
  | .inStringEscU digits => s.stateInStringEscU digits c
  | .neg => s.stateNeg c
  | .digits => s.stateDigits c
  | .zero => s.stateZero c
  | .dot => s.stateDot c
  | .fraction => s.stateFraction c
  | .exponent => s.stateExponent c
  | .exponentSign => s.stateExponentSign c
  | .exponentDigits => s.stateExponentDigits c
  | .literal missing => s.stateLiteral missing c
  | .error => (s, .error)

end Scanner

/-- What comes of scanning some bytes: the value is not complete, or these bytes are behind it, or
    there is none. -/
inductive Scanned
  | more (s : Scanner)
  | value (unread : List UInt8)
  | error
deriving DecidableEq

namespace Scanner

/-- The `switch` in `Decoder.readValue`. The end of a number is seen with the byte behind it. Behind
    a closing bracket the decoder invents a space, to learn whether the value is complete without
    waiting for that byte. -/
def feed (s : Scanner) (c : UInt8) : Scanned :=
  match s.step c with
  | (_, .finish) => .value [c]
  | (_, .error) => .error
  | (s', .endObject) | (s', .endArray) =>
      if (s'.stateEndValue 0x20).2 = .finish then .value [] else .more (s'.stateEndValue 0x20).1
  | (s', _) => .more s'

/-- The inner loop of `Decoder.readValue`. -/
def scan : Scanner → List UInt8 → Scanned
  | s, [] => .more s
  | s, c :: rest => match s.feed c with
    | .more s' => scan s' rest
    | .value unread => .value (unread ++ rest)
    | .error => .error

variable {s s' : Scanner}

theorem scan_cons (s : Scanner) (c : UInt8) (rest : List UInt8) :
    s.scan (c :: rest) = match s.feed c with
      | .more s' => s'.scan rest
      | .value unread => .value (unread ++ rest)
      | .error => .error := rfl

/-- **Scanning in portions.** -/
theorem scan_append (s : Scanner) (p q : List UInt8) :
    s.scan (p ++ q) = match s.scan p with
      | .more s' => s'.scan q
      | .value unread => .value (unread ++ q)
      | .error => .error := by
  induction p generalizing s with
  | nil => rfl
  | cons c rest ih =>
      rw [List.cons_append, scan_cons, scan_cons]
      cases s.feed c with
      | more s' => exact ih s'
      | value unread => simp only [List.append_assoc]
      | error => rfl

/-- The scanner takes the text for a value with the last byte of it, whatever stands behind. -/
def Ends (s : Scanner) (text : List UInt8) : Prop :=
  ∀ behind, s.scan (text ++ behind) = .value behind

/-- A text that a value ends with is not complete before its last byte. -/
theorem Ends.of_append {p q : List UInt8} (h : s.Ends (p ++ q)) (hq : q ≠ []) :
    ∃ s', s.scan p = .more s' ∧ s'.Ends q := by
  have hsplit : ∀ behind, s.scan (p ++ (q ++ behind)) = .value behind := by
    intro behind
    rw [← List.append_assoc]
    exact h behind
  cases hscan : s.scan p with
  | more s' =>
      refine ⟨s', rfl, fun behind => ?_⟩
      have := hsplit behind
      rwa [scan_append, hscan] at this
  | value unread =>
      have := hsplit []
      rw [scan_append, hscan, Scanned.value.injEq, List.append_nil, List.append_eq_nil_iff] at this
      exact absurd this.2 hq
  | error =>
      have := hsplit []
      rw [scan_append, hscan] at this
      cases this

end Scanner

/-! ## The buffer of a decoder -/

/-- The smallest room with which `refill` reads. -/
def minRead : ℕ := 512

/-- `dec.buf`, with its capacity. -/
structure Buffer where
  data : List UInt8
  cap : ℕ
  fits : data.length ≤ cap

namespace Buffer

/-- The buffer of a new decoder. -/
def empty : Buffer := ⟨[], 0, Nat.le_refl 0⟩

/-- The capacity with which `refill` reads. -/
def grown (b : Buffer) : ℕ :=
  if b.cap - b.data.length < minRead then 2 * b.cap + minRead else b.cap

theorem le_grown (b : Buffer) : b.data.length + minRead ≤ b.grown := by
  have hfits := b.fits
  unfold grown
  split
  · omega
  · next h => omega

theorem room_ne_zero (b : Buffer) : b.grown - b.data.length ≠ 0 := by
  have := b.le_grown
  unfold minRead at this
  omega

/-- `Decoder.refill`: the buffer, and the stream afterwards; `none` if nothing came but the end of
    the stream. An `io.EOF` that comes with bytes is looked at when they have been scanned, and is
    what the next call would find. -/
def refill (b : Buffer) (r : Source UInt8) : Option (Buffer × Source UInt8) :=
  if (r.read (b.grown - b.data.length)).got = [] then none
  else some (⟨b.data ++ (r.read (b.grown - b.data.length)).got, b.grown, by
      have hx := (r.read_spec (b.grown - b.data.length)).2.1
      have hroom := b.le_grown
      rw [List.length_append]
      omega⟩, (r.read (b.grown - b.data.length)).rest)

variable {b b' : Buffer} {r r' : Source UInt8}

theorem refill_spec (h : b.refill r = some (b', r')) :
    ∃ x, (r.read (b.grown - b.data.length)).got = x ∧
      (r.read (b.grown - b.data.length)).rest = r' ∧ x ≠ [] ∧ b'.data = b.data ++ x ∧
      r.contents = x ++ r'.contents := by
  simp only [refill, Option.ite_none_left_eq_some, Option.some.injEq, Prod.mk.injEq] at h
  obtain ⟨hne, rfl, rfl⟩ := h
  exact ⟨_, rfl, rfl, hne, rfl, (r.read_spec _).1⟩

theorem refill_eq_none : b.refill r = none ↔ r.contents = [] := by
  obtain ⟨hcontents, _, hne, _⟩ := r.read_spec (b.grown - b.data.length)
  simp only [refill, ite_eq_left_iff, reduceCtorEq, imp_false, not_not]
  constructor
  · intro hnil
    by_contra hr
    exact hne b.room_ne_zero hr hnil
  · intro hr
    rw [hr] at hcontents
    exact (List.append_eq_nil_iff.1 hcontents.symm).1

/-- If the decoder keeps reading, there is a moment when its buffer has been refilled up to `j`
    bytes. -/
inductive Fills : Buffer → Source UInt8 → ℕ → Prop
  | now {b b' : Buffer} {r r' : Source UInt8} (h : b.refill r = some (b', r')) :
      Fills b r b'.data.length
  | later {b b' : Buffer} {r r' : Source UInt8} {j : ℕ} (h : b.refill r = some (b', r'))
      (hj : Fills b' r' j) : Fills b r j

theorem Fills.length_lt {j : ℕ} (h : Fills b r j) : b.data.length < j := by
  induction h with
  | now h =>
      obtain ⟨x, _, _, hx, hdata, _⟩ := refill_spec h
      have := List.length_pos_iff.2 hx
      rw [hdata, List.length_append]
      omega
  | later h _ ih =>
      obtain ⟨x, _, _, _, hdata, _⟩ := refill_spec h
      rw [hdata, List.length_append] at ih
      omega

theorem fills_iff (h : b.refill r = some (b', r')) {j : ℕ} :
    Fills b r j ↔ j = b'.data.length ∨ Fills b' r' j := by
  constructor
  · intro hj
    cases hj with
    | now h' =>
        rw [h] at h'
        cases h'
        exact Or.inl rfl
    | later h' hj =>
        rw [h] at h'
        cases h'
        exact Or.inr hj
  · rintro (rfl | hj)
    · exact .now h
    · exact .later h hj

theorem not_fills_of_nil (h : r.contents = []) (j : ℕ) : ¬ Fills b r j := by
  intro hj
  have hnone : b.refill r = none := refill_eq_none.2 h
  cases hj with
  | now h | later h _ =>
      rw [hnone] at h
      cases h

/-- A refill takes the next piece, or as much of it as there is room for. -/
theorem refill_cons {p : List UInt8} {rest : List (List UInt8)} {h : ∀ q ∈ p :: rest, q ≠ []}
    {e : Ending} :
    ∃ b', b.refill ⟨p :: rest, h, e⟩ = some (b',
        ⟨Source.remaining p rest (b.grown - b.data.length), Source.nonempty_remaining h _, e⟩) ∧
      b'.data.length = min b.grown (b.data.length + p.length) := by
  cases hfill : b.refill ⟨p :: rest, h, e⟩ with
  | none =>
      have hnil := refill_eq_none.1 hfill
      simp only [Source.contents, List.flatten_cons, List.append_eq_nil_iff] at hnil
      exact absurd hnil.1 (h p List.mem_cons_self)
  | some res =>
      obtain ⟨b', r'⟩ := res
      obtain ⟨x, rfl, rfl, _, hdata, _⟩ := refill_spec hfill
      refine ⟨b', rfl, ?_⟩
      have hgrown := b.le_grown
      rw [hdata, List.length_append, Source.read, List.length_take]
      omega

/-- **Where the first bytes are refilled.** Below the smallest room of a buffer, refills end where
    the pieces of the stream do. -/
theorem fills_iff_cut {j : ℕ} (hj : j < minRead) :
    Fills b r j ↔ ∃ k, 0 < k ∧ j = b.data.length + k ∧ r.Cut k := by
  obtain ⟨pieces, hne, e⟩ := r
  induction pieces generalizing b with
  | nil =>
      refine iff_of_false (not_fills_of_nil rfl j) ?_
      rintro ⟨k, hk, _, i, hi⟩
      rw [List.take_nil] at hi
      exact absurd hk (by simp [← hi])
  | cons p rest ih =>
      have hrest : ∀ q ∈ rest, q ≠ [] := fun q hq => hne q (List.mem_cons_of_mem p hq)
      have hp : 0 < p.length := List.length_pos_iff.2 (hne p List.mem_cons_self)
      have hgrown := b.le_grown
      obtain ⟨b', hfill, hlen⟩ := refill_cons (b := b) (h := hne) (e := e)
      rw [fills_iff hfill]
      simp only [Source.cut_cons]
      rcases Nat.lt_or_ge b.grown (b.data.length + p.length) with hfull | hwhole
      · -- the buffer is full, and longer than `j`
        refine iff_of_false ?_ ?_
        · rintro (rfl | hlater)
          · omega
          · have := hlater.length_lt
            omega
        · rintro ⟨k, hk, rfl, rfl | ⟨k', rfl, _⟩⟩
          · exact absurd hk (Nat.lt_irrefl 0)
          · omega
      · -- the piece is read as a whole
        have hrem : Source.remaining p rest (b.grown - b.data.length) = rest := if_neg (by omega)
        have hlen' : b'.data.length = b.data.length + p.length := by omega
        simp only [hrem, ih hrest, hlen']
        constructor
        · rintro (rfl | ⟨k, hk, rfl, hcut⟩)
          · exact ⟨p.length, hp, rfl, Or.inr ⟨0, rfl, 0, rfl⟩⟩
          · exact ⟨p.length + k, by omega, by omega, Or.inr ⟨k, rfl, hcut⟩⟩
        · rintro ⟨k, hk, rfl, rfl | ⟨k', rfl, hcut⟩⟩
          · exact absurd hk (Nat.lt_irrefl 0)
          · rcases Nat.eq_zero_or_pos k' with rfl | hpos
            · exact Or.inl rfl
            · exact Or.inr ⟨k', hpos, by omega, hcut⟩

/-- The first refill that brings `m` more bytes brings another `n`. -/
def Overshoots (b : Buffer) (r : Source UInt8) (m n : ℕ) : Prop :=
  b.Fills r (b.data.length + m + n) ∧ ∀ i < n, ¬ b.Fills r (b.data.length + m + i)

/-- A refill that brings less than `m` bytes leaves it to the others. -/
theorem overshoots_iff_of_short {x m n : ℕ} (h : b.refill r = some (b', r'))
    (hlen : b'.data.length = b.data.length + x) (hm : 0 < m) :
    b.Overshoots r (x + m) n ↔ b'.Overshoots r' m n := by
  have hsum : ∀ i, b.data.length + (x + m) + i = b'.data.length + m + i := by
    intro i
    omega
  have hnot : ∀ i, b'.data.length + m + i ≠ b'.data.length := by
    intro i
    omega
  simp only [Overshoots, fills_iff h, hsum, hnot, false_or]

/-- A refill that brings `m` bytes or more decides. -/
theorem overshoots_iff_of_long {m n k : ℕ} (h : b.refill r = some (b', r'))
    (hlen : b'.data.length = b.data.length + m + k) : b.Overshoots r m n ↔ k = n := by
  have hlater : ∀ i ≤ k, ¬ b'.Fills r' (b.data.length + m + i) := by
    intro i hi hfills
    have := hfills.length_lt
    omega
  simp only [Overshoots, fills_iff h, hlen]
  constructor
  · rintro ⟨hn, hbefore⟩
    by_contra hne
    rcases Nat.lt_or_ge k n with hlt | hge
    · exact hbefore k hlt (Or.inl rfl)
    · rcases hn with heq | hfills
      · omega
      · exact hlater n hge hfills
  · rintro rfl
    refine ⟨Or.inl rfl, fun i hi hor => ?_⟩
    rcases hor with heq | hfills
    · omega
    · exact hlater i (Nat.le_of_lt hi) hfills

theorem overshoots_iff_cut {m n : ℕ} (hm : 0 < m) (hlt : b.data.length + m + n < minRead) :
    b.Overshoots r m n ↔ r.Cut (m + n) ∧ ∀ i < n, ¬ r.Cut (m + i) := by
  have hfills : ∀ i ≤ n, (b.Fills r (b.data.length + m + i) ↔ r.Cut (m + i)) := by
    intro i hi
    rw [fills_iff_cut (by omega)]
    constructor
    · rintro ⟨k, _, hk, hcut⟩
      rwa [show m + i = k by omega]
    · exact fun hcut => ⟨m + i, by omega, by omega, hcut⟩
  rw [Overshoots, hfills n (Nat.le_refl n)]
  exact and_congr_right fun _ =>
    forall₂_congr fun i hi => not_congr (hfills i (Nat.le_of_lt hi))

end Buffer

/-! ## Decoding one value -/

inductive DecodeError
  | invalid
  | eof
  | unexpectedEOF
  | unmarshal (text : String)

/-- `Decoder.readValue`, from a refill on: the value, what has been read behind it, and the
    stream. -/
def readValue (b : Buffer) (s : Scanner) (r : Source UInt8) :
    Except DecodeError (List UInt8 × List UInt8 × Source UInt8) :=
  match _h : b.refill r with
  | none =>
      if (s.step 0x20).2 = .finish then .ok (b.data, [], r)
      else .error (if b.data.all isSpace then .eof else .unexpectedEOF)
  | some (b', r') => match s.scan (b'.data.drop b.data.length) with
    | .error => .error .invalid
    | .value unread => .ok (b'.data.take (b'.data.length - unread.length), unread, r')
    | .more s' => readValue b' s' r'
termination_by r.contents.length
decreasing_by
  obtain ⟨x, _, _, hx, _, hcontents⟩ := Buffer.refill_spec _h
  have := List.length_pos_iff.2 hx
  rw [hcontents, List.length_append]
  omega

/-- `Decode` of a new decoder, which is dropped then: the value, and the stream. -/
def decode {β : Type} (unmarshal : List UInt8 → Except String β) (r : Source UInt8) :
    Except DecodeError (β × Source UInt8) :=
  match readValue Buffer.empty Scanner.init r with
  | .error e => .error e
  | .ok (value, _, r') => match unmarshal value with
    | .error e => .error (.unmarshal e)
    | .ok v => .ok (v, r')

variable {b b' : Buffer} {s : Scanner} {r r' : Source UInt8} {text behind : List UInt8}

theorem readValue_of_refill (h : b.refill r = some (b', r')) :
    readValue b s r = match s.scan (b'.data.drop b.data.length) with
      | .error => .error .invalid
      | .value unread => .ok (b'.data.take (b'.data.length - unread.length), unread, r')
      | .more s' => readValue b' s' r' := by
  rw [readValue]
  split
  · next h' => rw [h] at h'; cases h'
  · next h' =>
      rw [h] at h'
      cases h'
      rfl

/-- A byte that no value begins with is refused. -/
theorem readValue_of_head {c : UInt8} {more : List UInt8} (hr : r.contents = c :: more)
    (hc : s.feed c = .error) : readValue b s r = .error .invalid := by
  cases hfill : b.refill r with
  | none =>
      rw [Buffer.refill_eq_none, hr] at hfill
      cases hfill
  | some res =>
      obtain ⟨b', r'⟩ := res
      obtain ⟨x, _, _, hx, hdata, hcontents⟩ := Buffer.refill_spec hfill
      obtain ⟨c', x', rfl⟩ := List.exists_cons_of_ne_nil hx
      rw [hr, List.cons_append] at hcontents
      obtain ⟨rfl, -⟩ := List.cons.inj hcontents
      rw [readValue_of_refill hfill, hdata, List.drop_left, Scanner.scan_cons, hc]

/-- **What `Decode` reads of a text.** The value is the text; what has been read behind it reaches
    to the first refill of the buffer that is not inside the text. -/
theorem readValue_of_ends (htext : s.Ends text) (hne : text ≠ [])
    (hr : r.contents = text ++ behind) :
    ∃ unread r', readValue b s r = .ok (b.data ++ text, unread, r') ∧
      behind = unread ++ r'.contents ∧
      ∀ n, unread.length = n ↔ b.Overshoots r text.length n := by
  obtain ⟨k, hk⟩ : ∃ k, k = r.contents.length := ⟨_, rfl⟩
  -- by induction on what is left of the stream
  induction k using Nat.strongRecOn generalizing b s r text with
  | ind k ih =>
      cases hfill : b.refill r with
      | none =>
          rw [Buffer.refill_eq_none, hr, List.append_eq_nil_iff] at hfill
          exact absurd hfill.1 hne
      | some res =>
          obtain ⟨b', r'⟩ := res
          obtain ⟨x, _, _, hx, hdata, hcontents⟩ := Buffer.refill_spec hfill
          have hlen : b'.data.length = b.data.length + x.length := by
            rw [hdata, List.length_append]
          rw [readValue_of_refill hfill, hdata, List.drop_left]
          rcases Nat.lt_or_ge x.length text.length with hshort | hlong
          · -- the refill ends inside the text
            obtain ⟨q, rfl⟩ : x <+: text :=
              List.prefix_of_prefix_length_le ⟨r'.contents, rfl⟩
                (hcontents ▸ hr ▸ List.prefix_append _ _) (Nat.le_of_lt hshort)
            have hq : q ≠ [] := by
              rintro rfl
              simp at hshort
            obtain ⟨s', hscan, hends⟩ := htext.of_append hq
            have hr' : r'.contents = q ++ behind := by
              rw [hr, List.append_assoc] at hcontents
              exact (List.append_cancel_left hcontents).symm
            have hlt : r'.contents.length < k := by
              have := List.length_pos_iff.2 hx
              rw [hk, hcontents, List.length_append]
              omega
            obtain ⟨unread, r'', hread, hbehind, hn⟩ := ih _ hlt (b := b') hends hq hr' rfl
            refine ⟨unread, r'', ?_, hbehind, fun n => ?_⟩
            · rw [hscan]
              simp only [hread, hdata, List.append_assoc]
            · rw [List.length_append,
                Buffer.overshoots_iff_of_short hfill hlen (List.length_pos_iff.2 hq)]
              exact hn n
          · -- the refill reaches the end of the text
            obtain ⟨unread, rfl⟩ : text <+: x :=
              List.prefix_of_prefix_length_le (hr ▸ List.prefix_append _ _)
                (hcontents ▸ List.prefix_append _ _) hlong
            have hbehind : behind = unread ++ r'.contents := by
              rw [hr, List.append_assoc] at hcontents
              exact List.append_cancel_left hcontents
            refine ⟨unread, r', ?_, hbehind, fun n => ?_⟩
            · rw [htext unread]
              simp only [← List.append_assoc, List.length_append, Nat.add_sub_cancel]
              rw [← List.length_append, List.take_left]
            · rw [List.length_append, ← Nat.add_assoc] at hlen
              exact (Buffer.overshoots_iff_of_long hfill hlen).symm

/-! ## Encoding strings -/

/-- `htmlSafeSet`: what stands for itself in an encoded string, among the bytes below `0x80`. -/
def htmlSafe (b : UInt8) : Bool :=
  0x20 ≤ b && b ≠ 0x22 && b ≠ 0x26 && b ≠ 0x3c && b ≠ 0x3e && b ≠ 0x5c

/-- The digits in `hex`. -/
def hexDigit (n : UInt8) : UInt8 := if n < 10 then 0x30 + n else 0x57 + n

/-- How `encodeState.string` writes a byte below `0x80`. -/
def escapeByte (b : UInt8) : List UInt8 :=
  if htmlSafe b then [b]
  else if b = 0x5c ∨ b = 0x22 then [0x5c, b]
  else if b = 0x0a then [0x5c, 0x6e]
  else if b = 0x0d then [0x5c, 0x72]
  else if b = 0x09 then [0x5c, 0x74]
  else [0x5c, 0x75, 0x30, 0x30, hexDigit (b >>> 4), hexDigit (b &&& 0x0f)]

/-- The first byte of a rune of more than one byte: how many follow, and the least and the greatest
    that the next may be. -/
def leading (b : UInt8) : Option (ℕ × UInt8 × UInt8) :=
  if 0xc2 ≤ b ∧ b ≤ 0xdf then some (1, 0x80, 0xbf)
  else if b = 0xe0 then some (2, 0xa0, 0xbf)
  else if b = 0xed then some (2, 0x80, 0x9f)
  else if 0xe1 ≤ b ∧ b ≤ 0xef then some (2, 0x80, 0xbf)
  else if b = 0xf0 then some (3, 0x90, 0xbf)
  else if 0xf1 ≤ b ∧ b ≤ 0xf3 then some (3, 0x80, 0xbf)
  else if b = 0xf4 then some (3, 0x80, 0x8f)
  else none

/-- The bytes begin with `n` that continue a rune, the first of them within these bounds. -/
def continues (lo hi : UInt8) : ℕ → List UInt8 → Bool
  | 0, _ => true
  | _ + 1, [] => false
  | n + 1, c :: rest => lo ≤ c && c ≤ hi && continues 0x80 0xbf n rest

/-- `utf8.DecodeRuneInString`: how many bytes follow `b` in its rune; `none` if there is no rune. -/
def runeTail (b : UInt8) (rest : List UInt8) : Option ℕ :=
  if b < 0x80 then some 0
  else (leading b).bind (fun (n, lo, hi) => if continues lo hi n rest then some n else none)

/-- How `encodeState.string` writes what stands at the front of `b :: rest`: a byte or a rune, with
    U+2028 and U+2029 escaped, or U+FFFD for a byte that no rune begins with. -/
def escapeFirst (b : UInt8) (rest : List UInt8) : List UInt8 :=
  match runeTail b rest with
  | none => [0x5c, 0x75, 0x66, 0x66, 0x66, 0x64]
  | some 0 => escapeByte b
  | some n =>
      if b :: rest.take n = [0xe2, 0x80, 0xa8] then [0x5c, 0x75, 0x32, 0x30, 0x32, 0x38]
      else if b :: rest.take n = [0xe2, 0x80, 0xa9] then [0x5c, 0x75, 0x32, 0x30, 0x32, 0x39]
      else b :: rest.take n

/-- The loop of `encodeState.string`, with `escapeHTML`; the first `skip` bytes have been written
    with the rune that they belong to. -/
def escape : ℕ → List UInt8 → List UInt8
  | _, [] => []
  | skip + 1, _ :: rest => escape skip rest
  | 0, b :: rest => escapeFirst b rest ++ escape ((runeTail b rest).getD 0) rest

/-- `encodeState.string` -/
def quote (s : List UInt8) : List UInt8 := 0x22 :: (escape 0 s ++ [0x22])

/-- What `Marshal` makes of a structure with one field, a string. -/
def object (name value : List UInt8) : List UInt8 :=
  0x7b :: (quote name ++ 0x3a :: (quote value ++ [0x7d]))

/-- What `Encode` writes for such a structure. -/
def encode (name value : List UInt8) : List UInt8 := object name value ++ [0x0a]

/-! ## Scanning what was encoded -/

/-- Scanning the bytes leaves the scanner as it is. -/
def Scanner.Passes (s : Scanner) (p : List UInt8) : Prop := s.scan p = .more s

theorem Scanner.Passes.scan_append {p : List UInt8} (h : s.Passes p) (q : List UInt8) :
    s.scan (p ++ q) = s.scan q := by
  rw [Scanner.scan_append, h]

theorem Scanner.passes_append {p q : List UInt8} (hp : s.Passes p) (hq : s.Passes q) :
    s.Passes (p ++ q) := by
  rw [Passes, hp.scan_append]
  exact hq

section InString

variable {ps : List ParseState}

/-- A byte from `0x20` on, other than a quote and a backslash. -/
theorem feed_inString {b : UInt8} (h : 0x20 ≤ b) (hquote : b ≠ 0x22) (hslash : b ≠ 0x5c) :
    (⟨.inString, ps⟩ : Scanner).feed b = .more ⟨.inString, ps⟩ := by
  have hlt : ¬ b < 0x20 := UInt8.not_lt.2 h
  simp [Scanner.feed, Scanner.step, Scanner.stateInString, hquote, hslash, hlt]

/-- Bytes from `0x80` on stand for themselves. -/
theorem passes_of_high {p : List UInt8} (h : ∀ b ∈ p, 0x80 ≤ b) :
    (⟨.inString, ps⟩ : Scanner).Passes p := by
  induction p with
  | nil => rfl
  | cons b rest ih =>
      have hb : 0x80 ≤ b := h b List.mem_cons_self
      rw [Scanner.Passes, Scanner.scan_cons, feed_inString (UInt8.le_trans (by decide) hb)
        (fun heq => absurd hb (by rw [heq]; decide)) (fun heq => absurd hb (by rw [heq]; decide))]
      exact ih (fun c hc => h c (List.mem_cons_of_mem b hc))

/-- An escape with four digits. -/
theorem passes_unicode {a b c d : UInt8} (ha : isHex a) (hb : isHex b) (hc : isHex c)
    (hd : isHex d) : (⟨.inString, ps⟩ : Scanner).Passes [0x5c, 0x75, a, b, c, d] := by
  simp [Scanner.Passes, Scanner.scan, Scanner.feed, Scanner.step, Scanner.stateInString,
    Scanner.stateInStringEsc, Scanner.escapes, Scanner.stateInStringEscU, ha, hb, hc, hd]

/-- An escape with one letter. -/
theorem passes_letter {c : UInt8} (hc : c ∈ Scanner.escapes) :
    (⟨.inString, ps⟩ : Scanner).Passes [0x5c, c] := by
  simp [Scanner.Passes, Scanner.scan, Scanner.feed, Scanner.step, Scanner.stateInString,
    Scanner.stateInStringEsc, hc]

theorem isHex_hexDigit {n : UInt8} (h : n.toNat < 16) : isHex (hexDigit n) := by
  have hall : ∀ k : Fin 16, isHex (hexDigit (UInt8.ofNat k)) := by decide
  have := hall ⟨n.toNat, h⟩
  rwa [UInt8.ofNat_toNat] at this

theorem passes_escapeByte (b : UInt8) : (⟨.inString, ps⟩ : Scanner).Passes (escapeByte b) := by
  unfold escapeByte
  split
  · next hsafe =>
      simp only [htmlSafe, Bool.and_eq_true, decide_eq_true_eq] at hsafe
      obtain ⟨⟨⟨⟨⟨hlow, hquote⟩, _⟩, _⟩, _⟩, hslash⟩ := hsafe
      rw [Scanner.Passes, Scanner.scan_cons, feed_inString hlow hquote hslash]
      rfl
  · split
    · next h =>
        rcases h with rfl | rfl
        · exact passes_letter (by decide)
        · exact passes_letter (by decide)
    · split
      · exact passes_letter (by decide)
      · split
        · exact passes_letter (by decide)
        · split
          · exact passes_letter (by decide)
          · have hhigh : (b >>> 4).toNat < 16 := by
              have := b.toNat_lt
              simp only [UInt8.toNat_shiftRight, UInt8.reduceToNat, Nat.reduceMod,
                Nat.shiftRight_eq_div_pow]
              omega
            have hlow : (b &&& 0x0f).toNat < 16 := by
              have := Nat.and_le_right (n := b.toNat) (m := 15)
              simp only [UInt8.toNat_and, UInt8.reduceToNat]
              omega
            exact passes_unicode (by decide) (by decide) (isHex_hexDigit hhigh)
              (isHex_hexDigit hlow)

/-- What continues a rune stands at `0x80` and above. -/
theorem high_of_continues {lo hi : UInt8} {n : ℕ} {rest : List UInt8} (hlo : 0x80 ≤ lo)
    (h : continues lo hi n rest = true) : ∀ c ∈ rest.take n, 0x80 ≤ c := by
  induction n generalizing lo hi rest with
  | zero => simp
  | succ n ih =>
      cases rest with
      | nil => simp
      | cons c rest =>
          simp only [continues, Bool.and_eq_true, decide_eq_true_eq] at h
          obtain ⟨⟨hc, _⟩, hrest⟩ := h
          intro c' hc'
          rcases List.mem_cons.1 hc' with rfl | hc'
          · exact UInt8.le_trans hlo hc
          · exact ih (by decide) hrest c' hc'

theorem le_of_leading {b lo hi : UInt8} {n : ℕ} (h : leading b = some (n, lo, hi)) : 0x80 ≤ lo := by
  unfold leading at h
  repeat' split at h
  all_goals
    cases h
    try decide

theorem high_of_runeTail {b : UInt8} {rest : List UInt8} {n : ℕ}
    (h : runeTail b rest = some (n + 1)) : ∀ c ∈ b :: rest.take (n + 1), 0x80 ≤ c := by
  unfold runeTail at h
  split at h
  · cases h
  · next hb =>
      obtain ⟨⟨m, lo, hi⟩, hleading, hn⟩ := Option.bind_eq_some_iff.1 h
      simp only [Option.ite_none_right_eq_some, Option.some.injEq] at hn
      obtain ⟨hcont, rfl⟩ := hn
      intro c hc
      rcases List.mem_cons.1 hc with rfl | hc
      · exact UInt8.not_lt.1 hb
      · exact high_of_continues (le_of_leading hleading) hcont c hc

theorem passes_escapeFirst (b : UInt8) (rest : List UInt8) :
    (⟨.inString, ps⟩ : Scanner).Passes (escapeFirst b rest) := by
  unfold escapeFirst
  split
  · exact passes_unicode (by decide) (by decide) (by decide) (by decide)
  · exact passes_escapeByte b
  · next n hne htail =>
      obtain ⟨m, rfl⟩ := Nat.exists_eq_succ_of_ne_zero hne
      split
      · exact passes_unicode (by decide) (by decide) (by decide) (by decide)
      · split
        · exact passes_unicode (by decide) (by decide) (by decide) (by decide)
        · exact passes_of_high (high_of_runeTail htail)

/-- **An encoded string does not end inside.** -/
theorem passes_escape (skip : ℕ) (value : List UInt8) :
    (⟨.inString, ps⟩ : Scanner).Passes (escape skip value) := by
  induction value generalizing skip with
  | nil =>
      unfold escape
      rfl
  | cons b rest ih =>
      cases skip with
      | zero => exact Scanner.passes_append (passes_escapeFirst b rest) (ih _)
      | succ skip => exact ih skip

end InString

/-- A string and its closing quote. -/
theorem scan_quote {st : State} {ps : List ParseState}
    (hst : (⟨st, ps⟩ : Scanner).feed 0x22 = .more ⟨.inString, ps⟩) (value q : List UInt8) :
    (⟨st, ps⟩ : Scanner).scan (quote value ++ q) = (⟨.endValue, ps⟩ : Scanner).scan q := by
  rw [quote, List.cons_append, Scanner.scan_cons, hst]
  show (⟨.inString, ps⟩ : Scanner).scan (escape 0 value ++ [0x22] ++ q) = _
  rw [List.append_assoc, (passes_escape 0 value).scan_append]
  rfl

/-- **An encoded structure ends with its bracket**, whatever the string. -/
theorem ends_object (name value : List UInt8) : Scanner.init.Ends (object name value) := by
  intro behind
  have hopen : Scanner.init.feed 0x7b = .more ⟨.beginStringOrEmpty, [.objectKey]⟩ := by decide
  have hcolon : (⟨.endValue, [.objectKey]⟩ : Scanner).feed 0x3a
      = .more ⟨.beginValue, [.objectValue]⟩ := by decide
  have hclose : (⟨.endValue, [.objectValue]⟩ : Scanner).feed 0x7d = .value [] := by decide
  rw [object, List.cons_append, Scanner.scan_cons, hopen]
  simp only [List.append_assoc, List.cons_append]
  rw [scan_quote (by decide), Scanner.scan_cons, hcolon]
  simp only
  rw [scan_quote (by decide), Scanner.scan_cons, hclose]
  rfl

end Tunnel.Lib.Json
