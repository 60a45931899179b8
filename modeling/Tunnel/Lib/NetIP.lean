import Mathlib.Data.List.Basic
import Mathlib.Data.UInt

set_option autoImplicit false

/-! # Textual IP addresses

`net.ParseIP` and `IP.String` of Go 1.17. A parsed address has 16 bytes, an IPv4 address as
`::ffff:a.b.c.d`. `none` is the `nil` address that stands for a text that is no address.

The parser of IPv4 accepts no leading zeros, so it accepts exactly one text for an address: printing
what was parsed gives the text back (`parseIPv4_eq_some`), and parsing what was printed gives the
address back (`parseIP_ipv4String`). -/

namespace Tunnel.Lib

/-! ## Numbers -/

/-- The value of a decimal digit. -/
def decDigit (c : Char) : Option ℕ :=
  if '0' ≤ c ∧ c ≤ '9' then some (c.toNat - '0'.toNat) else none

/-- The value of a hexadecimal digit. -/
def hexDigit (c : Char) : Option ℕ :=
  if '0' ≤ c ∧ c ≤ '9' then some (c.toNat - '0'.toNat)
  else if 'a' ≤ c ∧ c ≤ 'f' then some (c.toNat - 'a'.toNat + 10)
  else if 'A' ≤ c ∧ c ≤ 'F' then some (c.toNat - 'A'.toNat + 10)
  else none

/-- The loop of `dtoi` and `xtoi`: `n` is the number read so far and `i` the count of its digits.
    There must be a digit, and the number stays below `0xFFFFFF`. -/
def atoi (digit : Char → Option ℕ) (base : ℕ) : ℕ → ℕ → List Char → Option (ℕ × ℕ)
  | n, i, [] => if i = 0 then none else some (n, i)
  | n, i, c :: s =>
      match digit c with
      | none => if i = 0 then none else some (n, i)
      | some d =>
          if 0xFFFFFF ≤ n * base + d then none else atoi digit base (n * base + d) (i + 1) s

/-- `dtoi` -/
def dtoi (s : List Char) : Option (ℕ × ℕ) := atoi decDigit 10 0 0 s

/-- `xtoi` -/
def xtoi (s : List Char) : Option (ℕ × ℕ) := atoi hexDigit 16 0 0 s

/-! ## Addresses -/

/-- The first 12 bytes of an IPv4 address. -/
def v4InV6Prefix : List UInt8 := [0, 0, 0, 0, 0, 0, 0, 0, 0, 0, 0xff, 0xff]

/-- One part of an IPv4 address, and what follows it. -/
def parseOctet (s : List Char) : Option (UInt8 × List Char) :=
  match dtoi s with
  | none => none
  | some (n, c) =>
      if 0xFF < n then none
      else if 1 < c ∧ s.head? = some '0' then none
      else some (UInt8.ofNat n, s.drop c)

/-- `k` further parts of an IPv4 address, each after a dot, up to the end of the text. -/
def parseOctets : ℕ → List Char → Option (List UInt8)
  | 0, [] => some []
  | 0, _ :: _ => none
  | _ + 1, [] => none
  | k + 1, c :: s =>
      if c = '.' then
        (parseOctet s).bind (fun p => (parseOctets k p.2).map (p.1 :: ·))
      else none

/-- `parseIPv4` -/
def parseIPv4 (s : List Char) : Option (List UInt8) :=
  (parseOctet s).bind (fun p => (parseOctets 3 p.2).map (fun b => v4InV6Prefix ++ p.1 :: b))

/-- The loop of `parseIPv6`: at most `k` further groups, after the bytes in `ip`; with the position
    of the ellipsis, if there was one, and the text that is left. -/
def parseGroups : ℕ → List UInt8 → Option ℕ → List Char →
    Option (List UInt8 × Option ℕ × List Char)
  | 0, ip, ellipsis, s => some (ip, ellipsis, s)
  | k + 1, ip, ellipsis, s =>
      match xtoi s with
      | none => none
      | some (n, c) =>
          if 0xFFFF < n then none
          else if (s.drop c).head? = some '.' then
            -- the rest may be an IPv4 address
            if ellipsis = none ∧ ip.length ≠ 12 then none
            else if 16 < ip.length + 4 then none
            else (parseIPv4 s).map (fun ip4 => (ip ++ ip4.drop 12, ellipsis, []))
          else
            let ip' := ip ++ [UInt8.ofNat (n / 256), UInt8.ofNat n]
            match s.drop c with
            | [] => some (ip', ellipsis, [])
            | [_] => none
            | c₁ :: c₂ :: s' =>
                if c₁ ≠ ':' then none
                else if c₂ ≠ ':' then parseGroups k ip' ellipsis (c₂ :: s')
                else if ellipsis ≠ none then none
                else if s' = [] then some (ip', some ip'.length, [])
                else parseGroups k ip' (some ip'.length) s'

/-- The end of `parseIPv6`: the whole text is used, and the ellipsis stands for at least one
    byte. -/
def expandEllipsis : List UInt8 × Option ℕ × List Char → Option (List UInt8)
  | (_, _, _ :: _) => none
  | (ip, none, []) => if ip.length < 16 then none else some ip
  | (ip, some e, []) =>
      if ip.length < 16 then
        some (ip.take e ++ List.replicate (16 - ip.length) 0 ++ ip.drop e)
      else none

/-- `parseIPv6` -/
def parseIPv6 (s : List Char) : Option (List UInt8) :=
  match s with
  | [':', ':'] => some (List.replicate 16 0)
  | ':' :: ':' :: s' => (parseGroups 8 [] (some 0) s').bind expandEllipsis
  | _ => (parseGroups 8 [] none s).bind expandEllipsis

/-- `net.ParseIP`: the first dot or colon decides. -/
def parseIP (s : String) : Option (List UInt8) :=
  match s.toList.find? (fun c => c = '.' ∨ c = ':') with
  | none => none
  | some c => if c = '.' then parseIPv4 s.toList else parseIPv6 s.toList

/-- The dotted form of the bytes of an IPv4 address. -/
def dotted : List UInt8 → List Char
  | [] => []
  | [b] => Nat.toDigits 10 b.toNat
  | b :: b' :: bs => Nat.toDigits 10 b.toNat ++ '.' :: dotted (b' :: bs)

/-- `IP.String` of a 4-byte address. -/
def ipv4String (b : List UInt8) : String := String.ofList (dotted b)

/-! ## Printing what was parsed -/

theorem digitChar_of_decDigit {c : Char} {d : ℕ} (h : decDigit c = some d) :
    d < 10 ∧ Nat.digitChar d = c := by
  unfold decDigit at h
  split at h
  · next hc =>
      have hlow : 48 ≤ c.toNat := Char.le_def.1 hc.1
      have hhigh : c.toNat ≤ 57 := Char.le_def.1 hc.2
      have hd : c.toNat - 48 = d := Option.some.inj h
      have hlt : d < 10 := by omega
      refine ⟨hlt, Char.toNat_inj.1 ?_⟩
      rw [Nat.toNat_digitChar_of_lt_ten hlt]
      omega
  · exact absurd h (by simp)

/-- The count of digits does not fall, and where it stays the number stays. -/
theorem atoi_count {digit : Char → Option ℕ} {base n i v c : ℕ} {s : List Char}
    (h : atoi digit base n i s = some (v, c)) : i ≤ c ∧ (c = i → v = n) := by
  induction s generalizing n i with
  | nil =>
      simp only [atoi, Option.ite_none_left_eq_some, Option.some.injEq, Prod.mk.injEq] at h
      exact ⟨h.2.2.le, fun _ => h.2.1.symm⟩
  | cons ch rest ih =>
      cases hd : digit ch with
      | none =>
          simp only [atoi, hd, Option.ite_none_left_eq_some, Option.some.injEq,
            Prod.mk.injEq] at h
          exact ⟨h.2.2.le, fun _ => h.2.1.symm⟩
      | some d =>
          simp only [atoi, hd, Option.ite_none_left_eq_some] at h
          obtain ⟨hle, _⟩ := ih h.2
          exact ⟨by omega, fun hci => by omega⟩

/-- The digits that are read after a number other than 0 continue its decimal form. -/
theorem toDigits_of_atoi {n i v c : ℕ} {s : List Char} (hn : 0 < n)
    (h : atoi decDigit 10 n i s = some (v, c)) :
    Nat.toDigits 10 n ++ s = Nat.toDigits 10 v ++ s.drop (c - i) := by
  induction s generalizing n i with
  | nil =>
      simp only [atoi, Option.ite_none_left_eq_some, Option.some.injEq, Prod.mk.injEq] at h
      rw [h.2.1, List.drop_nil]
  | cons ch rest ih =>
      cases hd : decDigit ch with
      | none =>
          simp only [atoi, hd, Option.ite_none_left_eq_some, Option.some.injEq,
            Prod.mk.injEq] at h
          rw [h.2.1, h.2.2, Nat.sub_self, List.drop_zero]
      | some d =>
          simp only [atoi, hd, Option.ite_none_left_eq_some] at h
          obtain ⟨hlt, hch⟩ := digitChar_of_decDigit hd
          have hle := (atoi_count h.2).1
          have hdrop : (ch :: rest).drop (c - i) = rest.drop (c - (i + 1)) := by
            obtain ⟨k, hk⟩ : ∃ k, c - i = k + 1 := ⟨c - (i + 1), by omega⟩
            have hk' : c - (i + 1) = k := by omega
            rw [hk, hk', List.drop_succ_cons]
          rw [hdrop, ← ih (by omega) h.2, Nat.mul_comm n,
            ← Nat.toDigits_append_toDigits (by decide) hn hlt, Nat.toDigits_of_lt_base hlt, hch,
            List.append_assoc, List.singleton_append]

/-- A number without a leading zero is the decimal form of its value. -/
theorem toDigits_of_dtoi {v c : ℕ} {s : List Char} (h : dtoi s = some (v, c))
    (hzero : ¬ (1 < c ∧ s.head? = some '0')) : s = Nat.toDigits 10 v ++ s.drop c := by
  cases s with
  | nil => exact absurd h (by simp [dtoi, atoi])
  | cons ch rest =>
      unfold dtoi atoi at h
      cases hd : decDigit ch with
      | none => exact absurd h (by simp [hd])
      | some d =>
          simp only [hd, Nat.zero_mul, Nat.zero_add, Option.ite_none_left_eq_some] at h
          obtain ⟨hlt, hch⟩ := digitChar_of_decDigit hd
          obtain ⟨hle, hstay⟩ := atoi_count h.2
          obtain ⟨k, rfl⟩ : ∃ k, c = k + 1 := ⟨c - 1, by omega⟩
          rw [List.drop_succ_cons]
          rcases Nat.eq_zero_or_pos d with rfl | hpos
          · -- a leading zero is the whole number
            have hk : k = 0 := by
              by_contra hk
              exact hzero ⟨by omega, by rw [← hch]; rfl⟩
            subst hk
            rw [hstay rfl, Nat.toDigits_of_lt_base hlt, hch, List.drop_zero, List.singleton_append]
          · have hdigits := toDigits_of_atoi hpos h.2
            rw [Nat.toDigits_of_lt_base hlt, hch, List.singleton_append] at hdigits
            exact hdigits

theorem parseOctet_eq_some {s rest : List Char} {b : UInt8} (h : parseOctet s = some (b, rest)) :
    s = Nat.toDigits 10 b.toNat ++ rest := by
  unfold parseOctet at h
  split at h
  · exact absurd h (by simp)
  · next n c hdtoi =>
      simp only [Option.ite_none_left_eq_some, Option.some.injEq, Prod.mk.injEq] at h
      obtain ⟨hn, hzero, rfl, rfl⟩ := h
      have hbyte : (UInt8.ofNat n).toNat = n := by
        rw [UInt8.toNat_ofNat']
        omega
      rw [hbyte]
      exact toDigits_of_dtoi hdtoi hzero

/-- The parts after the first are the dotted form of their bytes, with a dot in front. -/
theorem parseOctets_eq_some {k : ℕ} {s : List Char} {bs : List UInt8}
    (h : parseOctets k s = some bs) :
    bs.length = k ∧ ∀ b : UInt8, Nat.toDigits 10 b.toNat ++ s = dotted (b :: bs) := by
  induction k generalizing s bs with
  | zero =>
      cases s with
      | nil =>
          simp only [parseOctets, Option.some.injEq] at h
          subst h
          exact ⟨rfl, fun b => List.append_nil _⟩
      | cons c rest => exact absurd h (by simp [parseOctets])
  | succ k ih =>
      cases s with
      | nil => exact absurd h (by simp [parseOctets])
      | cons c rest =>
          simp only [parseOctets, Option.ite_none_right_eq_some, Option.bind_eq_some_iff,
            Option.map_eq_some_iff] at h
          obtain ⟨rfl, ⟨b', rest'⟩, hoctet, bs', hbs', rfl⟩ := h
          obtain ⟨hlen, hdotted⟩ := ih hbs'
          refine ⟨by rw [List.length_cons, hlen], fun b => ?_⟩
          rw [parseOctet_eq_some hoctet, dotted, hdotted b']

/-- **The parser of IPv4 accepts only the dotted form of the four bytes it returns.** -/
theorem parseIPv4_eq_some {s : List Char} {ip : List UInt8} (h : parseIPv4 s = some ip) :
    ∃ b, b.length = 4 ∧ ip = v4InV6Prefix ++ b ∧ s = dotted b := by
  simp only [parseIPv4, Option.bind_eq_some_iff, Option.map_eq_some_iff] at h
  obtain ⟨⟨b, rest⟩, hoctet, bs, hbs, rfl⟩ := h
  obtain ⟨hlen, hdotted⟩ := parseOctets_eq_some hbs
  refine ⟨b :: bs, by rw [List.length_cons, hlen], rfl, ?_⟩
  rw [parseOctet_eq_some hoctet, hdotted b]

/-- The first separator of a dotted form is a dot. -/
theorem parseIP_of_parseIPv4 {s : String} {ip : List UInt8}
    (h : parseIPv4 s.toList = some ip) : parseIP s = some ip := by
  obtain ⟨b, hlen, _, hs⟩ := parseIPv4_eq_some h
  have hfind : s.toList.find? (fun c => c = '.' ∨ c = ':') = some '.' := by
    obtain ⟨b₀, b₁, bs, rfl⟩ : ∃ b₀ b₁ bs, b = b₀ :: b₁ :: bs := by
      match b with
      | [] | [_] => simp at hlen
      | b₀ :: b₁ :: bs => exact ⟨b₀, b₁, bs, rfl⟩
    have hdigits : (Nat.toDigits 10 b₀.toNat).find? (fun c => c = '.' ∨ c = ':') = none := by
      rw [List.find?_eq_none]
      intro c hc hsep
      have hdigit : c.isDigit = true := Nat.isDigit_of_mem_toDigits (by decide) (by decide) hc
      rcases of_decide_eq_true hsep with rfl | rfl <;> exact absurd hdigit (by decide)
    rw [hs, dotted, List.find?_append, hdigits]
    rfl
  rw [parseIP, hfind]
  exact h

/-! ## Parsing what was printed -/

theorem decDigit_digitChar : ∀ d < 10, decDigit (Nat.digitChar d) = some d := by decide

/-- The decimal form of a number is read as the number. -/
theorem atoi_toDigits (v : ℕ) (hv : v < 0xFFFFFF) (s : List Char) :
    atoi decDigit 10 0 0 (Nat.toDigits 10 v ++ s)
      = atoi decDigit 10 v (Nat.toDigits 10 v).length s := by
  induction v using Nat.strongRecOn generalizing s with
  | ind v ih =>
      by_cases hlt : v < 10
      · rw [Nat.toDigits_of_lt_base hlt]
        simp [atoi, decDigit_digitChar v hlt, Nat.not_le.2 hv]
      · -- the last digit is read after the others
        have hdigits : Nat.toDigits 10 v = Nat.toDigits 10 (v / 10) ++ [Nat.digitChar (v % 10)] :=
          Nat.toDigits_of_base_le (by decide) (Nat.not_lt.1 hlt)
        have hnext : v / 10 * 10 + v % 10 = v := by omega
        rw [hdigits, List.append_assoc, List.singleton_append, ih (v / 10) (by omega) (by omega)]
        simp [atoi, decDigit_digitChar (v % 10) (by omega), hnext, Nat.not_le.2 hv]

theorem head_toDigits (v : ℕ) (hv : 0 < v) : (Nat.toDigits 10 v).head? ≠ some '0' := by
  induction v using Nat.strongRecOn with
  | ind v ih =>
      by_cases hlt : v < 10
      · rw [Nat.toDigits_of_lt_base hlt]
        intro h
        have hzero : (Nat.digitChar v).toNat = 48 := by
          rw [Option.some.inj h]
          rfl
        rw [Nat.toNat_digitChar_of_lt_ten hlt] at hzero
        omega
      · rw [Nat.toDigits_of_base_le (by decide) (Nat.not_lt.1 hlt), List.head?_append]
        have hrest := ih (v / 10) (by omega) (by omega)
        cases hhead : (Nat.toDigits 10 (v / 10)).head? with
        | none => exact absurd (List.head?_eq_none_iff.1 hhead) (by simp)
        | some c => simpa [hhead] using hrest

/-- The decimal form of a byte is read as the byte, up to where something else begins. -/
theorem parseOctet_toDigits (b : UInt8) {s : List Char}
    (hs : ∀ c, s.head? = some c → decDigit c = none) :
    parseOctet (Nat.toDigits 10 b.toNat ++ s) = some (b, s) := by
  have hb : b.toNat < 256 := b.toNat_lt
  have hlen : (Nat.toDigits 10 b.toNat).length ≠ 0 := by simp
  have hdtoi : dtoi (Nat.toDigits 10 b.toNat ++ s)
      = some (b.toNat, (Nat.toDigits 10 b.toNat).length) := by
    rw [dtoi, atoi_toDigits _ (by omega)]
    cases s with
    | nil => simp [atoi]
    | cons c s => simp [atoi, hs c rfl]
  have hzero : ¬ (1 < (Nat.toDigits 10 b.toNat).length ∧
      (Nat.toDigits 10 b.toNat ++ s).head? = some '0') := by
    intro h
    obtain ⟨hlong, hhead⟩ := h
    rcases Nat.eq_zero_or_pos b.toNat with h0 | hpos
    · rw [h0] at hlong
      exact absurd hlong (by decide)
    · refine head_toDigits b.toNat hpos ?_
      rw [List.head?_append] at hhead
      cases hfirst : (Nat.toDigits 10 b.toNat).head? with
      | none => exact absurd (List.head?_eq_none_iff.1 hfirst) (by simp)
      | some c => simpa [hfirst] using hhead
  simp only [parseOctet, hdtoi, Nat.not_lt.2 (Nat.le_of_lt_succ hb), if_false, hzero,
    UInt8.ofNat_toNat, List.drop_left]

theorem decDigit_dot : decDigit '.' = none := by decide

/-- What follows an octet in a dotted form does not begin with a digit. -/
theorem parseOctets_dotted (bs : List UInt8) (b : UInt8) :
    ∃ s, dotted (b :: bs) = Nat.toDigits 10 b.toNat ++ s ∧ parseOctets bs.length s = some bs ∧
      ∀ c, s.head? = some c → decDigit c = none := by
  induction bs generalizing b with
  | nil => exact ⟨[], by simp [dotted], rfl, by simp⟩
  | cons b' bs ih =>
      obtain ⟨s, hdotted, hoctets, hs⟩ := ih b'
      refine ⟨'.' :: dotted (b' :: bs), rfl, ?_, ?_⟩
      · rw [List.length_cons, parseOctets, if_pos rfl, hdotted, parseOctet_toDigits b' hs]
        simp [hoctets]
      · intro c hc
        rw [← Option.some.inj hc]
        exact decDigit_dot

theorem parseIPv4_dotted {q : List UInt8} (hq : q.length = 4) :
    parseIPv4 (dotted q) = some (v4InV6Prefix ++ q) := by
  obtain ⟨b, bs, rfl⟩ : ∃ b bs, q = b :: bs := by
    cases q with
    | nil => cases hq
    | cons b bs => exact ⟨b, bs, rfl⟩
  obtain ⟨s, hdotted, hoctets, hs⟩ := parseOctets_dotted bs b
  have hthree : bs.length = 3 := by simpa using hq
  rw [hthree] at hoctets
  rw [parseIPv4, hdotted, parseOctet_toDigits b hs]
  simp [hoctets]

/-- **The text of an IPv4 address denotes the address.** -/
theorem parseIP_ipv4String {q : List UInt8} (hq : q.length = 4) :
    parseIP (ipv4String q) = some (v4InV6Prefix ++ q) := by
  refine parseIP_of_parseIPv4 ?_
  rw [ipv4String, String.toList_ofList]
  exact parseIPv4_dotted hq

/-! ## The length of an address -/

/-- The groups never fill more than 16 bytes. -/
theorem length_parseGroups {k : ℕ} {ip ip' : List UInt8} {e e' : Option ℕ} {s s' : List Char}
    (hlen : ip.length + 2 * k ≤ 16) (h : parseGroups k ip e s = some (ip', e', s')) :
    ip'.length ≤ 16 := by
  induction k generalizing ip e s with
  | zero =>
      simp only [parseGroups, Option.some.injEq, Prod.mk.injEq] at h
      rw [← h.1]
      omega
  | succ k ih =>
      have hnext : ∀ n : ℕ, (ip ++ [UInt8.ofNat (n / 256), UInt8.ofNat n]).length + 2 * k ≤ 16 := by
        intro n
        simp only [List.length_append, List.length_cons, List.length_nil]
        omega
      unfold parseGroups at h
      split at h
      · cases h
      · next n c _ =>
          split at h
          · cases h
          · split at h
            · split at h
              · cases h
              · split at h
                · cases h
                · next hroom =>
                    obtain ⟨ip4, hip4, heq⟩ := Option.map_eq_some_iff.1 h
                    obtain ⟨q, hq, rfl, _⟩ := parseIPv4_eq_some hip4
                    simp only [Prod.mk.injEq] at heq
                    rw [← heq.1, List.length_append, List.length_drop, List.length_append, hq]
                    simp only [v4InV6Prefix, List.length_cons, List.length_nil]
                    omega
            · simp only at h
              split at h
              · cases h
                have := hnext n
                omega
              · cases h
              · split at h
                · cases h
                · split at h
                  · exact ih (hnext n) h
                  · split at h
                    · cases h
                    · split at h
                      · cases h
                        have := hnext n
                        omega
                      · exact ih (hnext n) h

theorem length_expandEllipsis {r : List UInt8 × Option ℕ × List Char} {ip : List UInt8}
    (hlen : r.1.length ≤ 16) (h : expandEllipsis r = some ip) : ip.length = 16 := by
  unfold expandEllipsis at h
  split at h
  · cases h
  · split at h
    · cases h
    · cases h
      simp only at hlen
      omega
  · split at h
    · cases h
      simp only [List.length_append, List.length_take, List.length_replicate, List.length_drop]
      omega
    · cases h

/-- **A parsed address has 16 bytes.** -/
theorem length_parseIP {s : String} {ip : List UInt8} (h : parseIP s = some ip) :
    ip.length = 16 := by
  have hgroups : ∀ {e : Option ℕ} {cs : List Char},
      (parseGroups 8 [] e cs).bind expandEllipsis = some ip → ip.length = 16 := by
    intro e cs hbind
    obtain ⟨⟨ip', e', s'⟩, hparse, hexpand⟩ := Option.bind_eq_some_iff.1 hbind
    exact length_expandEllipsis (length_parseGroups (by decide) hparse) hexpand
  unfold parseIP at h
  split at h
  · cases h
  · split at h
    · obtain ⟨q, hq, rfl, _⟩ := parseIPv4_eq_some h
      simp [v4InV6Prefix, hq]
    · unfold parseIPv6 at h
      split at h
      · cases h
        rfl
      · exact hgroups h
      · exact hgroups h

end Tunnel.Lib
