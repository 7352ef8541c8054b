import Cheti.Base.Prim
/-!
# Texts of IP addresses

The readers behind `str::parse` for `IpAddr` and `SocketAddr`, as `core::net::parser` has them, and what `Display` writes
for an `IpAddr`. A reader takes what it reads off the front of the text; where it fails, nothing was taken.

* An address reads back as itself (`readIpv4_display`, `readIpv6_display`), whatever follows that does not go on with it.
* The text of an IPv4 address has one spelling (`display_of_readIpv4`): no octet has a leading zero.
* The text of an IPv6 address has two colons at least (`two_colons`), so nothing with one or none of them is one.
-/

namespace Net

/-! ## Readers -/

/-- `char::to_digit`, for a radix up to 16. -/
def digitOf (radix : Nat) (c : Char) : Option Nat :=
  let value :=
    if '0' ≤ c ∧ c ≤ '9' then some (c.toNat - 48)
    else if 'a' ≤ c ∧ c ≤ 'f' then some (c.toNat - 87)
    else if 'A' ≤ c ∧ c ≤ 'F' then some (c.toNat - 55)
    else none
  value.filter fun d => decide (d < radix)

def readDigits (radix : Nat) : Str → List Nat × Str
  | [] => ([], [])
  | c :: s =>
    match digitOf radix c with
    | some d => (d :: (readDigits radix s).1, (readDigits radix s).2)
    | none => ([], c :: s)

def valueOf (radix : Nat) (digits : List Nat) : Nat := digits.foldl (fun n d => radix * n + d) 0

/-- `read_number`: the number has to be below `bound`, which is the size of its type. -/
def readNumber (radix : Nat) (maxDigits : Option Nat) (allowZeroPrefix : Bool) (bound : Nat) (s : Str) :
    Option (Nat × Str) :=
  let digits := (readDigits radix s).1
  if digits = [] then none
  else if maxDigits.any (· < digits.length) then none
  else if !allowZeroPrefix && digits.head? == some 0 && decide (1 < digits.length) then none
  else if valueOf radix digits < bound then some (valueOf radix digits, (readDigits radix s).2)
  else none

/-- `read_given_char` -/
def skip (c : Char) : Str → Option Str
  | [] => none
  | d :: s => if d = c then some s else none

structure Ipv4Addr where
  a : UInt8
  b : UInt8
  c : UInt8
  d : UInt8
deriving DecidableEq, Repr

def readOctet (s : Str) : Option (UInt8 × Str) :=
  (readNumber 10 (some 3) false 256 s).map fun r => (UInt8.ofNat r.1, r.2)

/-- `read_separator('.', i, ..)` for `i > 0` -/
def readDotOctet (s : Str) : Option (UInt8 × Str) := (skip '.' s).bind readOctet

def readIpv4 (s : Str) : Option (Ipv4Addr × Str) := do
  let (a, s) ← readOctet s
  let (b, s) ← readDotOctet s
  let (c, s) ← readDotOctet s
  let (d, s) ← readDotOctet s
  return (⟨a, b, c, d⟩, s)

structure Ipv6Addr where
  segments : List UInt16
  length_eq : segments.length = 8
deriving DecidableEq, Repr

def Ipv4Addr.groups (v4 : Ipv4Addr) : List UInt16 :=
  [UInt16.ofNat (256 * v4.a.toNat + v4.b.toNat), UInt16.ofNat (256 * v4.c.toNat + v4.d.toNat)]

def readGroup (s : Str) : Option (UInt16 × Str) :=
  (readNumber 16 (some 4) true 65536 s).map fun r => (UInt16.ofNat r.1, r.2)

/-- What precedes a group: nothing before the first, a colon before the others. -/
def separator (first : Bool) (s : Str) : Option Str := if first then some s else skip ':' s

/-- `read_groups` with the number of slots that are left: the groups, whether they end with an IPv4 address, and
the rest. An IPv4 address needs two slots. -/
def readGroups : Nat → Bool → Str → List UInt16 × Bool × Str
  | 0, _, s => ([], false, s)
  | left + 1, first, s =>
    match if left = 0 then none else (separator first s).bind readIpv4 with
    | some (v4, rest) => (v4.groups, true, rest)
    | none =>
      match (separator first s).bind readGroup with
      | some (g, rest) => (g :: (readGroups left false rest).1, (readGroups left false rest).2)
      | none => ([], false, s)

theorem length_readGroups (left : Nat) (first : Bool) (s : Str) : (readGroups left first s).1.length ≤ left := by
  induction left generalizing first s with
  | zero => exact le_rfl
  | succ left ih =>
    unfold readGroups
    split
    · rename_i h
      split at h
      · cases h
      · simp only [Ipv4Addr.groups, List.length_cons, List.length_nil]
        omega
    · split
      · exact Nat.succ_le_succ (ih false _)
      · exact Nat.zero_le _

/-- The groups before and after `::`, with zeros between them. -/
def around (head : List UInt16) (tail : List UInt16) (h : head.length + tail.length ≤ 8) : Ipv6Addr where
  segments := head ++ List.replicate (8 - head.length - tail.length) 0 ++ tail
  length_eq := by
    rw [List.length_append, List.length_append, List.length_replicate]
    omega

def readIpv6 (s : Str) : Option (Ipv6Addr × Str) :=
  let head := readGroups 8 true s
  if hfull : head.1.length = 8 then some (⟨head.1, hfull⟩, head.2.2)
  else if head.2.1 then none
  else
    match (skip ':' head.2.2).bind (skip ':') with
    | none => none
    | some s =>
      let tail := readGroups (8 - (head.1.length + 1)) true s
      have hroom : head.1.length + tail.1.length ≤ 8 := by
        have h1 : head.1.length ≤ 8 := length_readGroups 8 true _
        have h2 : tail.1.length ≤ 8 - (head.1.length + 1) := length_readGroups _ true s
        omega
      some (around head.1 tail.1 hroom, tail.2.2)

inductive IpAddr where
  | v4 (addr : Ipv4Addr)
  | v6 (addr : Ipv6Addr)
deriving DecidableEq, Repr

/-- Without the scope id of an IPv6 address, which `ip()` and `port()` do not give. -/
structure SocketAddr where
  ip : IpAddr
  port : UInt16
deriving DecidableEq, Repr

def readIpAddr (s : Str) : Option (IpAddr × Str) :=
  match readIpv4 s with
  | some (v4, rest) => some (.v4 v4, rest)
  | none => (readIpv6 s).map fun r => (.v6 r.1, r.2)

def readPort (s : Str) : Option (UInt16 × Str) :=
  (skip ':' s).bind fun s => (readNumber 10 none true 65536 s).map fun r => (UInt16.ofNat r.1, r.2)

def readScopeId (s : Str) : Option (Nat × Str) := (skip '%' s).bind (readNumber 10 none true (2 ^ 32))

def readSocketAddrV4 (s : Str) : Option (SocketAddr × Str) := do
  let (ip, s) ← readIpv4 s
  let (port, s) ← readPort s
  return (⟨.v4 ip, port⟩, s)

def readSocketAddrV6 (s : Str) : Option (SocketAddr × Str) := do
  let s ← skip '[' s
  let (ip, s) ← readIpv6 s
  let s := ((readScopeId s).map Prod.snd).getD s
  let s ← skip ']' s
  let (port, s) ← readPort s
  return (⟨.v6 ip, port⟩, s)

def readSocketAddr (s : Str) : Option (SocketAddr × Str) :=
  match readSocketAddrV4 s with
  | some r => some r
  | none => readSocketAddrV6 s

/-- `parse_with`: nothing may be left. -/
def whole {α : Type} : Option (α × Str) → Option α
  | some (a, []) => some a
  | _ => none

def parseIpAddr (s : Str) : Option IpAddr := whole (readIpAddr s)

def parseSocketAddr (s : Str) : Option SocketAddr := whole (readSocketAddr s)

def withoutPlus : Str → Str
  | '+' :: s => s
  | s => s

/-- `str::parse::<u16>` -/
def parseU16 (s : Str) : Option UInt16 :=
  whole ((readNumber 10 none true 65536 (withoutPlus s)).map fun r => (UInt16.ofNat r.1, r.2))

/-! ## Printers -/

def dec (n : Nat) : Str := Nat.toDigits 10 n

/-- `{:x}` -/
def hex (n : Nat) : Str := Nat.toDigits 16 n

def Ipv4Addr.display (v4 : Ipv4Addr) : Str :=
  dec v4.a.toNat ++ '.' :: dec v4.b.toNat ++ '.' :: dec v4.c.toNat ++ '.' :: dec v4.d.toNat

/-- `to_ipv4_mapped`: the addresses `::ffff:a.b.c.d`. -/
def Ipv6Addr.toIpv4Mapped (v6 : Ipv6Addr) : Option Ipv4Addr :=
  match v6.segments with
  | [0, 0, 0, 0, 0, 0xffff, ab, cd] =>
    some ⟨UInt8.ofNat (ab.toNat / 256), UInt8.ofNat (ab.toNat % 256), UInt8.ofNat (cd.toNat / 256),
      UInt8.ofNat (cd.toNat % 256)⟩
  | _ => none

structure Span where
  start : Nat
  len : Nat

/-- The loop that looks for the longest run of zeros, from segment `i` on. -/
def findZeros (i : Nat) (current longest : Span) : List UInt16 → Span
  | [] => longest
  | segment :: rest =>
    if segment = 0 then
      let current : Span := ⟨if current.len = 0 then i else current.start, current.len + 1⟩
      findZeros (i + 1) current (if longest.len < current.len then current else longest) rest
    else findZeros (i + 1) ⟨0, 0⟩ longest rest

/-- `fmt_subslice` -/
def fmtSubslice : List UInt16 → Str
  | [] => []
  | first :: tail => hex first.toNat ++ tail.flatMap fun segment => ':' :: hex segment.toNat

def Ipv6Addr.display (v6 : Ipv6Addr) : Str :=
  match v6.toIpv4Mapped with
  | some v4 => "::ffff:".toList ++ v4.display
  | none =>
    let zeros := findZeros 0 ⟨0, 0⟩ ⟨0, 0⟩ v6.segments
    if 1 < zeros.len then
      fmtSubslice (v6.segments.take zeros.start) ++ "::".toList ++ fmtSubslice (v6.segments.drop (zeros.start + zeros.len))
    else fmtSubslice v6.segments

def IpAddr.display : IpAddr → Str
  | .v4 addr => addr.display
  | .v6 addr => addr.display

/-! ## Digits -/

/-- No digit follows. -/
def NoDigit (radix : Nat) (next : Str) : Prop := ∀ c s, next = c :: s → digitOf radix c = none

theorem noDigit_nil (radix : Nat) : NoDigit radix [] := nofun

theorem noDigit_cons {radix : Nat} {c : Char} (h : digitOf radix c = none) (s : Str) : NoDigit radix (c :: s) := by
  rintro d t heq
  obtain ⟨rfl, -⟩ := List.cons.inj heq
  exact h

theorem digitOf_digitChar : ∀ d < 16, ∀ radix ≤ 16, d < radix → digitOf radix d.digitChar = some d := by decide

/-- A decimal digit is written in one way. -/
theorem digitOf_ten {c : Char} {d : Nat} (h : digitOf 10 c = some d) : c = d.digitChar ∧ d < 10 := by
  unfold digitOf at h
  obtain ⟨hvalue, hd⟩ := Option.filter_eq_some_iff.1 h
  have hlt : d < 10 := of_decide_eq_true hd
  have hle : ∀ {a b : Char}, a ≤ b → a.toNat ≤ b.toNat := fun hab => UInt32.le_iff_toNat_le.1 hab
  split at hvalue
  · rename_i hc
    have h48 : 48 ≤ c.toNat := hle hc.1
    refine ⟨Char.toNat_inj.1 ?_, hlt⟩
    rw [Nat.toNat_digitChar_of_lt_ten hlt, ← Option.some.inj hvalue]
    show c.toNat = 48 + (c.toNat - 48)
    omega
  · split at hvalue
    · rename_i hc
      have h97 : 97 ≤ c.toNat := hle hc.1
      have := Option.some.inj hvalue
      omega
    · split at hvalue
      · rename_i hc
        have h65 : 65 ≤ c.toNat := hle hc.1
        have := Option.some.inj hvalue
        omega
      · cases hvalue

theorem readDigits_append {radix : Nat} {l next : Str} (hl : ∀ c ∈ l, (digitOf radix c).isSome = true)
    (hnext : NoDigit radix next) : readDigits radix (l ++ next) = (l.filterMap (digitOf radix), next) := by
  induction l with
  | nil =>
    cases next with
    | nil => rfl
    | cons c s => simp [readDigits, hnext c s rfl]
  | cons c l ih =>
    rw [List.forall_mem_cons] at hl
    obtain ⟨d, hd⟩ := Option.isSome_iff_exists.1 hl.1
    rw [List.cons_append, readDigits, hd, ih hl.2, List.filterMap_cons_some hd]

/-- The digits are a first part of the text, and no digit follows them. -/
theorem readDigits_spec (radix : Nat) (s : Str) : ∃ l, s = l ++ (readDigits radix s).2 ∧
    (∀ c ∈ l, (digitOf radix c).isSome = true) ∧ (readDigits radix s).1 = l.filterMap (digitOf radix) ∧
      NoDigit radix (readDigits radix s).2 := by
  induction s with
  | nil => exact ⟨[], rfl, by simp, rfl, noDigit_nil radix⟩
  | cons c s ih =>
    cases hd : digitOf radix c with
    | none =>
      have hread : readDigits radix (c :: s) = ([], c :: s) := by simp [readDigits, hd]
      rw [hread]
      exact ⟨[], rfl, by simp, rfl, noDigit_cons hd s⟩
    | some d =>
      have hread : readDigits radix (c :: s) = (d :: (readDigits radix s).1, (readDigits radix s).2) := by
        simp [readDigits, hd]
      obtain ⟨l, hs, hl, hdigits, hnext⟩ := ih
      rw [hread]
      refine ⟨c :: l, ?_, List.forall_mem_cons.2 ⟨by simp [hd], hl⟩, ?_, hnext⟩
      · rw [List.cons_append, ← hs]
      · rw [List.filterMap_cons_some hd, hdigits]

theorem valueOf_concat (radix : Nat) (digits : List Nat) (d : Nat) :
    valueOf radix (digits ++ [d]) = radix * valueOf radix digits + d := by
  simp [valueOf]

section Radix

variable {radix : Nat} (h1 : 1 < radix) (h16 : radix ≤ 16)
include h1 h16

/-- The digits of a number: they are read, they are its value, and the first is zero only if it is the only one. -/
theorem toDigits_spec (n : Nat) : (∀ c ∈ radix.toDigits n, (digitOf radix c).isSome = true) ∧
    valueOf radix ((radix.toDigits n).filterMap (digitOf radix)) = n ∧
    ((radix.toDigits n).filterMap (digitOf radix)).length = (radix.toDigits n).length ∧
    (((radix.toDigits n).filterMap (digitOf radix)).head? = some 0 → n = 0) := by
  induction n using Nat.strong_induction_on with
  | _ n ih =>
    by_cases hn : n < radix
    · have hdigit := digitOf_digitChar n (by omega) radix h16 hn
      rw [Nat.toDigits_of_lt_base hn]
      simp [hdigit, valueOf]
    · have hlt : n / radix < n := Nat.div_lt_self (by omega) h1
      have hmod : n % radix < radix := Nat.mod_lt _ (by omega)
      have hdigit := digitOf_digitChar (n % radix) (by omega) radix h16 hmod
      obtain ⟨hread, hvalue, hlen, hhead⟩ := ih (n / radix) hlt
      rw [Nat.toDigits_of_base_le h1 (by omega), List.filterMap_append, List.filterMap_cons_some hdigit,
        List.filterMap_nil]
      refine ⟨?_, ?_, ?_, ?_⟩
      · intro c hc
        rcases List.mem_append.1 hc with hc | hc
        · exact hread c hc
        · rw [List.mem_singleton.1 hc, hdigit]
          rfl
      · rw [valueOf_concat, hvalue, Nat.div_add_mod]
      · rw [List.length_append, List.length_append, hlen]
        rfl
      · intro h
        have hpos : 0 < n / radix := Nat.div_pos (by omega) (by omega)
        have hne : (radix.toDigits (n / radix)).filterMap (digitOf radix) ≠ [] := by
          rw [← List.length_pos_iff, hlen]
          exact Nat.length_toDigits_pos
        rw [List.head?_append_of_ne_nil _ hne] at h
        have := hhead h
        omega

theorem readDigits_toDigits (n : Nat) {next : Str} (hnext : NoDigit radix next) :
    readDigits radix (radix.toDigits n ++ next) = ((radix.toDigits n).filterMap (digitOf radix), next) :=
  readDigits_append (toDigits_spec h1 h16 n).1 hnext

/-- A number that fits is read back. -/
theorem readNumber_toDigits {maxDigits : Option Nat} {allowZeroPrefix : Bool} {bound n : Nat} (hn : n < bound)
    (hmax : ∀ m, maxDigits = some m → 0 < m ∧ n < radix ^ m) {next : Str} (hnext : NoDigit radix next) :
    readNumber radix maxDigits allowZeroPrefix bound (radix.toDigits n ++ next) = some (n, next) := by
  obtain ⟨-, hvalue, hlen, hhead⟩ := toDigits_spec h1 h16 n
  have hne : (radix.toDigits n).filterMap (digitOf radix) ≠ [] := by
    rw [← List.length_pos_iff, hlen]
    exact Nat.length_toDigits_pos
  have hshort : maxDigits.any (· < ((radix.toDigits n).filterMap (digitOf radix)).length) = false := by
    cases maxDigits with
    | none => rfl
    | some m =>
      obtain ⟨hm, hpow⟩ := hmax m rfl
      rw [hlen]
      simpa using (Nat.length_toDigits_le_iff h1 hm).2 hpow
  have hzero : (!allowZeroPrefix && ((radix.toDigits n).filterMap (digitOf radix)).head? == some 0 &&
      decide (1 < ((radix.toDigits n).filterMap (digitOf radix)).length)) = false := by
    by_contra hcon
    simp only [Bool.not_eq_false, Bool.and_eq_true, decide_eq_true_eq, beq_iff_eq] at hcon
    have h0 := hhead hcon.1.2
    rw [hlen, h0, Nat.toDigits_of_lt_base (by omega)] at hcon
    exact absurd hcon.2 (by simp)
  unfold readNumber
  simp only [readDigits_toDigits h1 h16 n hnext]
  rw [if_neg hne, if_neg (by simp [hshort]), if_neg (by simp only [hzero]; decide), hvalue, if_pos hn]

end Radix

/-- What a number is read from. -/
theorem readNumber_eq_some {radix : Nat} {maxDigits : Option Nat} {allowZeroPrefix : Bool} {bound : Nat} {s rest : Str}
    {n : Nat} (h : readNumber radix maxDigits allowZeroPrefix bound s = some (n, rest)) :
    ∃ l, s = l ++ rest ∧ (∀ c ∈ l, (digitOf radix c).isSome = true) ∧ l ≠ [] ∧
      n = valueOf radix (l.filterMap (digitOf radix)) ∧ n < bound ∧
      (allowZeroPrefix = false → (l.filterMap (digitOf radix)).head? = some 0 → l.length ≤ 1) := by
  obtain ⟨l, hs, hl, hdigits, -⟩ := readDigits_spec radix s
  have hlen : (l.filterMap (digitOf radix)).length = l.length := List.filterMap_length_eq_length.2 hl
  unfold readNumber at h
  simp only [hdigits] at h
  split at h
  · cases h
  · rename_i hne
    split at h
    · cases h
    · split at h
      · cases h
      · rename_i hzero
        split at h
        · rename_i hlt
          obtain ⟨rfl, rfl⟩ := Prod.mk.inj (Option.some.inj h)
          refine ⟨l, hs, hl, ?_, rfl, hlt, ?_⟩
          · rintro rfl
            exact hne rfl
          · rintro rfl hhead
            by_contra hlong
            exact hzero (by simp [hhead, hlen]; omega)
        · cases h

/-- A decimal number without leading zeros is written in one way. -/
theorem toDigits_of_digits {l : Str} (hl : ∀ c ∈ l, (digitOf 10 c).isSome = true) (hne : l ≠ [])
    (hzero : (l.filterMap (digitOf 10)).head? = some 0 → l.length ≤ 1) :
    Nat.toDigits 10 (valueOf 10 (l.filterMap (digitOf 10))) = l := by
  induction l using List.reverseRecOn with
  | nil => exact absurd rfl hne
  | append_singleton l c ih =>
    obtain ⟨d, hd⟩ := Option.isSome_iff_exists.1 (hl c (by simp))
    obtain ⟨hc, hlt⟩ := digitOf_ten hd
    rw [List.filterMap_append, List.filterMap_cons_some hd, List.filterMap_nil, valueOf_concat]
    cases l with
    | nil =>
      have hsingle : 10 * valueOf 10 ([].filterMap (digitOf 10)) + d = d := by simp [valueOf]
      rw [hsingle, Nat.toDigits_of_lt_base hlt, hc]
      rfl
    | cons e l =>
      have hl' : ∀ c ∈ e :: l, (digitOf 10 c).isSome = true := fun c hc => hl c (List.mem_append_left _ hc)
      obtain ⟨d', hd'⟩ := Option.isSome_iff_exists.1 (hl' e List.mem_cons_self)
      have hhead : d' ≠ 0 := by
        rintro rfl
        have hlong := hzero (by simp [List.filterMap_cons_some hd'])
        simp at hlong
      have hih := ih hl' (by simp) (by simp [List.filterMap_cons_some hd', hhead])
      have hpos : 0 < valueOf 10 ((e :: l).filterMap (digitOf 10)) := by
        by_contra h0
        rw [Nat.le_zero.1 (Nat.le_of_not_lt h0), Nat.toDigits_zero] at hih
        obtain ⟨rfl, -⟩ := List.cons.inj hih
        cases hd'
        exact hhead rfl
      rw [← Nat.toDigits_append_toDigits (by decide) hpos hlt, hih, Nat.toDigits_of_lt_base hlt, hc]

/-! ## IPv4 -/

@[simp] theorem skip_self (c : Char) (s : Str) : skip c (c :: s) = some s := if_pos rfl

theorem skip_eq_some {c : Char} {s t : Str} : skip c s = some t ↔ s = c :: t := by
  cases s with
  | nil => simp [skip]
  | cons d s =>
    unfold skip
    split
    · rename_i h
      simp [h]
    · rename_i h
      simp [h]

theorem readOctet_dec (a : UInt8) {next : Str} (h : NoDigit 10 next) : readOctet (dec a.toNat ++ next) = some (a, next) := by
  have hlt := a.toNat_lt
  have hread : readNumber 10 (some 3) false 256 (Nat.toDigits 10 a.toNat ++ next) = some (a.toNat, next) :=
    readNumber_toDigits (by decide) (by decide) hlt (by rintro m ⟨rfl⟩; exact ⟨by decide, by omega⟩) h
  rw [readOctet, dec, hread]
  simp

theorem readDotOctet_dec (a : UInt8) {next : Str} (h : NoDigit 10 next) :
    readDotOctet ('.' :: (dec a.toNat ++ next)) = some (a, next) := by
  rw [readDotOctet, skip_self]
  exact readOctet_dec a h

theorem Ipv4Addr.display_append (v4 : Ipv4Addr) (next : Str) : v4.display ++ next =
    dec v4.a.toNat ++ '.' :: (dec v4.b.toNat ++ '.' :: (dec v4.c.toNat ++ '.' :: (dec v4.d.toNat ++ next))) := by
  simp [display]

/-- **An IPv4 address is read back.** -/
theorem readIpv4_display (v4 : Ipv4Addr) {next : Str} (h : NoDigit 10 next) :
    readIpv4 (v4.display ++ next) = some (v4, next) := by
  have hdot : ∀ s, NoDigit 10 ('.' :: s) := noDigit_cons rfl
  rw [Ipv4Addr.display_append, readIpv4, readOctet_dec _ (hdot _)]
  simp only [Option.bind_eq_bind, Option.bind_some]
  rw [readDotOctet_dec _ (hdot _)]
  simp only [Option.bind_some]
  rw [readDotOctet_dec _ (hdot _)]
  simp only [Option.bind_some]
  rw [readDotOctet_dec _ h]
  rfl

theorem readOctet_eq_some {s rest : Str} {a : UInt8} (h : readOctet s = some (a, rest)) : s = dec a.toNat ++ rest := by
  obtain ⟨⟨n, rest'⟩, hread, heq⟩ := Option.map_eq_some_iff.1 h
  obtain ⟨rfl, rfl⟩ := Prod.mk.inj heq
  obtain ⟨l, hs, hl, hne, rfl, hlt, hzero⟩ := readNumber_eq_some hread
  rw [UInt8.toNat_ofNat_of_lt' hlt, dec, toDigits_of_digits hl hne (hzero rfl)]
  exact hs

theorem readDotOctet_eq_some {s rest : Str} {a : UInt8} (h : readDotOctet s = some (a, rest)) :
    s = '.' :: (dec a.toNat ++ rest) := by
  obtain ⟨t, hskip, hread⟩ := Option.bind_eq_some_iff.1 h
  rw [skip_eq_some.1 hskip, readOctet_eq_some hread]

/-- **An IPv4 address has one text.** -/
theorem display_of_readIpv4 {s rest : Str} {v4 : Ipv4Addr} (h : readIpv4 s = some (v4, rest)) : s = v4.display ++ rest := by
  obtain ⟨⟨a, s₁⟩, ha, h⟩ := Option.bind_eq_some_iff.1 h
  obtain ⟨⟨b, s₂⟩, hb, h⟩ := Option.bind_eq_some_iff.1 h
  obtain ⟨⟨c, s₃⟩, hc, h⟩ := Option.bind_eq_some_iff.1 h
  obtain ⟨⟨d, s₄⟩, hd, h⟩ := Option.bind_eq_some_iff.1 h
  cases h
  rw [Ipv4Addr.display_append, readOctet_eq_some ha, readDotOctet_eq_some hb, readDotOctet_eq_some hc,
    readDotOctet_eq_some hd]

/-! ## IPv6 -/

/-- Neither a group nor an IPv4 address goes on here. -/
def Ends (next : Str) : Prop := ∀ c s, next = c :: s → digitOf 16 c = none ∧ c ≠ '.'

/-- No further group follows. -/
def NoGroup (next : Str) : Prop := ∀ s, skip ':' next = some s → readIpv4 s = none ∧ readGroup s = none

theorem ends_nil : Ends [] := nofun

theorem ends_cons {c : Char} (h : digitOf 16 c = none) (hdot : c ≠ '.') (s : Str) : Ends (c :: s) := by
  rintro d t heq
  obtain ⟨rfl, -⟩ := List.cons.inj heq
  exact ⟨h, hdot⟩

theorem ends_colon (s : Str) : Ends (':' :: s) := ends_cons rfl (by decide) s

theorem digitOf_sixteen {c : Char} {d : Nat} (h : digitOf 10 c = some d) : digitOf 16 c = some d := by
  unfold digitOf at h ⊢
  obtain ⟨hvalue, hd⟩ := Option.filter_eq_some_iff.1 h
  refine Option.filter_eq_some_iff.2 ⟨hvalue, ?_⟩
  have : d < 10 := of_decide_eq_true hd
  exact decide_eq_true (by omega)

theorem Ends.noDigit {next : Str} (h : Ends next) : NoDigit 16 next := fun c s heq => (h c s heq).1

theorem Ends.noDecimal {next : Str} (h : Ends next) : NoDigit 10 next := by
  intro c s heq
  cases hd : digitOf 10 c with
  | none => rfl
  | some d =>
    have hnone := (h c s heq).1
    rw [digitOf_sixteen hd] at hnone
    cases hnone

theorem readGroup_hex (g : UInt16) {next : Str} (h : NoDigit 16 next) : readGroup (hex g.toNat ++ next) = some (g, next) := by
  have hlt := g.toNat_lt
  have hread : readNumber 16 (some 4) true 65536 (Nat.toDigits 16 g.toNat ++ next) = some (g.toNat, next) :=
    readNumber_toDigits (by decide) (by decide) hlt (by rintro m ⟨rfl⟩; exact ⟨by decide, hlt⟩) h
  rw [readGroup, hex, hread]
  simp

theorem readNumber_none {radix : Nat} {maxDigits : Option Nat} {allowZeroPrefix : Bool} {bound : Nat} {next : Str}
    (h : NoDigit radix next) : readNumber radix maxDigits allowZeroPrefix bound next = none := by
  have hread : readDigits radix ([] ++ next) = ([], next) := readDigits_append (by simp) h
  rw [List.nil_append] at hread
  simp [readNumber, hread]

theorem readGroup_none {next : Str} (h : NoDigit 16 next) : readGroup next = none := by
  rw [readGroup, readNumber_none h]
  rfl

theorem readIpv4_none {next : Str} (h : NoDigit 10 next) : readIpv4 next = none := by
  rw [readIpv4, readOctet, readNumber_none h]
  rfl

/-- A group is not the beginning of an IPv4 address unless a dot follows it. -/
theorem readIpv4_hex (n : Nat) {next : Str} (h : Ends next) : readIpv4 (hex n ++ next) = none := by
  cases hread : readIpv4 (hex n ++ next) with
  | none => rfl
  | some r =>
    obtain ⟨v4, rest⟩ := r
    have htext := display_of_readIpv4 hread
    rw [Ipv4Addr.display_append] at htext
    -- the digits end where the dot is, and where `next` begins
    have hleft := readDigits_toDigits (show 1 < 16 by decide) le_rfl n h.noDigit
    have hdec : ∀ c ∈ dec v4.a.toNat, (digitOf 16 c).isSome = true := by
      intro c hc
      obtain ⟨d, hd⟩ := Option.isSome_iff_exists.1 ((toDigits_spec (show 1 < 10 by decide) (by decide) _).1 c hc)
      rw [digitOf_sixteen hd]
      rfl
    have hdot : NoDigit 16 ('.' :: (dec v4.b.toNat ++ '.' :: (dec v4.c.toNat ++ '.' :: (dec v4.d.toNat ++ rest)))) :=
      noDigit_cons rfl _
    have hright := readDigits_append hdec hdot
    rw [← htext] at hright
    have hnext := (Prod.mk.inj (hleft.symm.trans hright)).2
    exact absurd rfl (h _ _ hnext).2

theorem Ends.noGroup {next : Str} (h : ∀ s, next ≠ ':' :: s) : NoGroup next :=
  fun s hs => absurd (skip_eq_some.1 hs) (h s)

theorem noGroup_colons (s : Str) : NoGroup (':' :: ':' :: s) := by
  intro t ht
  obtain ⟨-, rfl⟩ := List.cons.inj (skip_eq_some.1 ht)
  exact ⟨readIpv4_none (ends_colon s).noDecimal, readGroup_none (ends_colon s).noDigit⟩

/-- The groups after the first one. -/
def moreGroups (gs : List UInt16) : Str := gs.flatMap fun g => ':' :: hex g.toNat

theorem ends_moreGroups (gs : List UInt16) {next : Str} (h : Ends next) : Ends (moreGroups gs ++ next) := by
  cases gs with
  | nil => exact h
  | cons g gs => exact ends_colon _

theorem readGroups_step {left : Nat} {first : Bool} {s t : Str} {g : UInt16} (hsep : separator first s = some (hex g.toNat ++ t))
    (ht : Ends t) : readGroups (left + 1) first s = (g :: (readGroups left false t).1, (readGroups left false t).2) := by
  rw [readGroups, hsep]
  simp only [Option.bind_some, readIpv4_hex _ ht, readGroup_hex g ht.noDigit, ite_self]

theorem readGroups_stop {left : Nat} {first : Bool} {s : Str}
    (h : ∀ t, separator first s = some t → readIpv4 t = none ∧ readGroup t = none) :
    readGroups left first s = ([], false, s) := by
  cases left with
  | zero => rfl
  | succ left =>
    unfold readGroups
    cases hsep : separator first s with
    | none => simp
    | some t =>
      obtain ⟨h4, hg⟩ := h t hsep
      simp [h4, hg]

theorem readGroups_more {gs : List UInt16} : ∀ {left : Nat} {next : Str}, gs.length ≤ left → Ends next →
    (gs.length = left ∨ NoGroup next) → readGroups left false (moreGroups gs ++ next) = (gs, false, next) := by
  induction gs with
  | nil =>
    intro left next hlen hends hstop
    rcases hstop with rfl | hstop
    · rfl
    · exact readGroups_stop hstop
  | cons g gs ih =>
    intro left next hlen hends hstop
    obtain ⟨left, rfl⟩ : ∃ m, left = m + 1 := ⟨left - 1, by simp at hlen; omega⟩
    have htext : moreGroups (g :: gs) ++ next = ':' :: (hex g.toNat ++ (moreGroups gs ++ next)) := by simp [moreGroups]
    have hsep : separator false (':' :: (hex g.toNat ++ (moreGroups gs ++ next))) = some (hex g.toNat ++ (moreGroups gs ++ next)) :=
      skip_self ':' _
    rw [htext, readGroups_step hsep (ends_moreGroups gs hends),
      ih (by simpa using hlen) hends (hstop.imp_left fun h => by simpa using h)]

/-- Groups are read back, if there is room for them and they end. -/
theorem readGroups_fmtSubslice {gs : List UInt16} {left : Nat} {next : Str} (hlen : gs.length ≤ left) (hends : Ends next)
    (hstop : gs.length = left ∨ NoGroup next) : readGroups left true (fmtSubslice gs ++ next) = (gs, false, next) := by
  cases gs with
  | nil =>
    refine readGroups_stop fun t ht => ?_
    obtain rfl : next = t := Option.some.inj ht
    exact ⟨readIpv4_none hends.noDecimal, readGroup_none hends.noDigit⟩
  | cons g gs =>
    obtain ⟨left, rfl⟩ : ∃ m, left = m + 1 := ⟨left - 1, by simp at hlen; omega⟩
    have htext : fmtSubslice (g :: gs) ++ next = hex g.toNat ++ (moreGroups gs ++ next) := by
      simp [fmtSubslice, moreGroups]
    rw [htext, readGroups_step rfl (ends_moreGroups gs hends),
      readGroups_more (by simpa using hlen) hends (hstop.imp_left fun h => by simpa using h)]

/-! ### The run of zeros -/

/-- The span is a run of zeros. -/
def Zeros (all : List UInt16) (z : Span) : Prop :=
  ∃ before after, all = before ++ List.replicate z.len 0 ++ after ∧ before.length = z.start

theorem findZeros_zeros (all : List UInt16) : ∀ (rest seen : List UInt16) (current longest : Span), all = seen ++ rest →
    (∃ before, seen = before ++ List.replicate current.len 0 ∧ (current.len ≠ 0 → before.length = current.start)) →
      Zeros all longest → Zeros all (findZeros seen.length current longest rest) := by
  intro rest
  induction rest with
  | nil => exact fun _ _ _ _ _ hlongest => hlongest
  | cons segment rest ih =>
    intro seen current longest hall hcurrent hlongest
    have hall' : all = (seen ++ [segment]) ++ rest := by simp [hall]
    have hlen : (seen ++ [segment]).length = seen.length + 1 := by simp
    unfold findZeros
    split
    · rename_i hzero
      subst hzero
      obtain ⟨before, hseen, hstart⟩ := hcurrent
      let next : Span := ⟨if current.len = 0 then seen.length else current.start, current.len + 1⟩
      have hbefore : before.length = next.start := by
        by_cases h0 : current.len = 0
        · simp [next, h0, hseen]
        · simp [next, h0, hstart h0]
      have hnext : seen ++ [0] = before ++ List.replicate next.len 0 := by
        rw [hseen, List.append_assoc, List.replicate_succ']
      have hzeros : Zeros all next := ⟨before, rest, by rw [hall', hnext], hbefore⟩
      have hlongest' : Zeros all (if longest.len < next.len then next else longest) := by
        split
        · exact hzeros
        · exact hlongest
      exact hlen ▸ ih (seen ++ [0]) next _ hall' ⟨before, hnext, fun _ => hbefore⟩ hlongest'
    · exact hlen ▸ ih (seen ++ [segment]) ⟨0, 0⟩ longest hall' ⟨seen ++ [segment], by simp, nofun⟩ hlongest

theorem findZeros_spec (all : List UInt16) : Zeros all (findZeros 0 ⟨0, 0⟩ ⟨0, 0⟩ all) :=
  findZeros_zeros all all [] ⟨0, 0⟩ ⟨0, 0⟩ rfl ⟨[], rfl, nofun⟩ ⟨[], all, by simp, rfl⟩

/-! ### The address -/

theorem readIpv6_full {s rest : Str} {gs : List UInt16} {v4 : Bool} (h : readGroups 8 true s = (gs, v4, rest))
    (h8 : gs.length = 8) : readIpv6 s = some (⟨gs, h8⟩, rest) := by
  simp [readIpv6, h, h8]

theorem readIpv6_around {s t rest : Str} {head tail : List UInt16} {v4 : Bool}
    (h : readGroups 8 true s = (head, false, ':' :: ':' :: t)) (hlt : head.length < 8)
    (htail : readGroups (8 - (head.length + 1)) true t = (tail, v4, rest)) (hroom : head.length + tail.length ≤ 8) :
    readIpv6 s = some (around head tail hroom, rest) := by
  have hne : head.length ≠ 8 := by omega
  have htail' : readGroups (7 - head.length) true t = (tail, v4, rest) := by simpa using htail
  simp [readIpv6, h, hne, htail']

theorem Ipv6Addr.ext_segments {a b : Ipv6Addr} (h : a.segments = b.segments) : a = b := by
  cases a
  cases b
  cases h
  rfl

theorem groups_ofNat (ab cd : UInt16) : (⟨UInt8.ofNat (ab.toNat / 256), UInt8.ofNat (ab.toNat % 256),
    UInt8.ofNat (cd.toNat / 256), UInt8.ofNat (cd.toNat % 256)⟩ : Ipv4Addr).groups = [ab, cd] := by
  have hword : ∀ w : UInt16, UInt16.ofNat (256 * (UInt8.ofNat (w.toNat / 256)).toNat + (UInt8.ofNat (w.toNat % 256)).toNat) = w := by
    intro w
    have hlt := w.toNat_lt
    rw [UInt8.toNat_ofNat_of_lt' (show w.toNat / 256 < 256 by omega),
      UInt8.toNat_ofNat_of_lt' (show w.toNat % 256 < 256 by omega), Nat.div_add_mod, UInt16.ofNat_toNat]
  rw [Ipv4Addr.groups, hword, hword]

/-- A mapped address is written with `::`, one group and the IPv4 address. -/
theorem toIpv4Mapped_eq_some {v6 : Ipv6Addr} {v4 : Ipv4Addr} (h : v6.toIpv4Mapped = some v4) :
    v6.segments = [0, 0, 0, 0, 0, 0xffff] ++ v4.groups := by
  unfold Ipv6Addr.toIpv4Mapped at h
  split at h
  · rename_i ab cd hsegments
    rw [← Option.some.inj h, groups_ofNat, hsegments]
    rfl
  · cases h

theorem readIpv6_mapped {v6 : Ipv6Addr} {v4 : Ipv4Addr} (h : v6.toIpv4Mapped = some v4) {next : Str} (hends : Ends next) :
    readIpv6 ("::ffff:".toList ++ v4.display ++ next) = some (v6, next) := by
  have htext : "::ffff:".toList ++ v4.display ++ next = ':' :: ':' :: (hex 0xffff ++ ':' :: (v4.display ++ next)) := by
    have hhex : hex 0xffff = "ffff".toList := by decide +kernel
    rw [hhex]
    simp
  have hhead : readGroups 8 true (':' :: ':' :: (hex 0xffff ++ ':' :: (v4.display ++ next))) =
      ([], false, ':' :: ':' :: (hex 0xffff ++ ':' :: (v4.display ++ next))) :=
    readGroups_stop fun t ht => by
      obtain rfl := Option.some.inj ht
      exact ⟨readIpv4_none (ends_colon _).noDecimal, readGroup_none (ends_colon _).noDigit⟩
  have hlast : readGroups 6 false (':' :: (v4.display ++ next)) = (v4.groups, true, next) := by
    rw [readGroups]
    simp [separator, readIpv4_display v4 hends.noDecimal]
  have htail : readGroups 7 true (hex 0xffff ++ ':' :: (v4.display ++ next)) = (0xffff :: v4.groups, true, next) := by
    have hsep : separator true (hex 0xffff ++ ':' :: (v4.display ++ next)) =
        some (hex (0xffff : UInt16).toNat ++ ':' :: (v4.display ++ next)) := rfl
    rw [readGroups_step hsep (ends_colon _), hlast]
  rw [htext, readIpv6_around hhead (by simp) htail (by simp [Ipv4Addr.groups])]
  congr 2
  refine Ipv6Addr.ext_segments ?_
  rw [toIpv4Mapped_eq_some h]
  rfl

theorem readIpv6_zeros {v6 : Ipv6Addr} {z : Span} (hz : Zeros v6.segments z) (hlen : 1 < z.len) {next : Str}
    (hends : Ends next) (hstop : NoGroup next) :
    readIpv6 (fmtSubslice (v6.segments.take z.start) ++ "::".toList ++ fmtSubslice (v6.segments.drop (z.start + z.len)) ++ next) =
      some (v6, next) := by
  obtain ⟨before, after, hsegments, hstart⟩ := hz
  have h8 := v6.length_eq
  rw [hsegments, List.length_append, List.length_append, List.length_replicate] at h8
  have htake : v6.segments.take z.start = before := by
    rw [hsegments, List.append_assoc, ← hstart, List.take_left]
  have hdrop : v6.segments.drop (z.start + z.len) = after := by
    have hsplit : z.start + z.len = (before ++ List.replicate z.len (0 : UInt16)).length := by simp [hstart]
    rw [hsegments, hsplit, List.drop_left]
  have htext : fmtSubslice before ++ "::".toList ++ fmtSubslice after ++ next =
      fmtSubslice before ++ ':' :: ':' :: (fmtSubslice after ++ next) := by simp
  have hhead : readGroups 8 true (fmtSubslice before ++ ':' :: ':' :: (fmtSubslice after ++ next)) =
      (before, false, ':' :: ':' :: (fmtSubslice after ++ next)) :=
    readGroups_fmtSubslice (by omega) (ends_colon _) (Or.inr (noGroup_colons _))
  have htail : readGroups (8 - (before.length + 1)) true (fmtSubslice after ++ next) = (after, false, next) :=
    readGroups_fmtSubslice (by omega) hends (Or.inr hstop)
  rw [htake, hdrop, htext, readIpv6_around hhead (by omega) htail (by omega)]
  congr 2
  refine Ipv6Addr.ext_segments ?_
  have hzeros : 8 - before.length - after.length = z.len := by omega
  show before ++ List.replicate (8 - before.length - after.length) 0 ++ after = _
  rw [hzeros, hsegments]

/-- **An IPv6 address is read back.** -/
theorem readIpv6_display (v6 : Ipv6Addr) {next : Str} (hends : Ends next) (hstop : NoGroup next) :
    readIpv6 (v6.display ++ next) = some (v6, next) := by
  unfold Ipv6Addr.display
  split
  · rename_i v4 hmapped
    exact readIpv6_mapped hmapped hends
  · simp only
    split
    · rename_i hlen
      exact readIpv6_zeros (findZeros_spec v6.segments) hlen hends hstop
    · have hgroups : readGroups 8 true (fmtSubslice v6.segments ++ next) = (v6.segments, false, next) :=
        readGroups_fmtSubslice (Nat.le_of_eq v6.length_eq) hends (Or.inl v6.length_eq)
      exact readIpv6_full hgroups v6.length_eq

/-! ### Colons -/

theorem count_le_of_readNumber {radix : Nat} {maxDigits : Option Nat} {allowZeroPrefix : Bool} {bound : Nat} {s rest : Str}
    {n : Nat} (h : readNumber radix maxDigits allowZeroPrefix bound s = some (n, rest)) (c : Char) :
    rest.count c ≤ s.count c := by
  obtain ⟨l, rfl, -⟩ := readNumber_eq_some h
  rw [List.count_append]
  omega

theorem count_le_of_readIpv4 {s rest : Str} {v4 : Ipv4Addr} (h : readIpv4 s = some (v4, rest)) (c : Char) :
    rest.count c ≤ s.count c := by
  rw [display_of_readIpv4 h, List.count_append]
  omega

/-- Every group but the first has a colon before it; an IPv4 address counts for two. -/
theorem count_readGroups (left : Nat) : ∀ (first : Bool) (s : Str),
    (readGroups left first s).2.2.count ':' ≤ s.count ':' ∧
      (readGroups left first s).1.length + (readGroups left first s).2.2.count ':' ≤
        s.count ':' + if first then 2 else 1 := by
  induction left with
  | zero =>
    intro first s
    simp [readGroups]
  | succ left ih =>
    intro first s
    have hsep : ∀ t, separator first s = some t → t.count ':' + (if first then 0 else 1) ≤ s.count ':' := by
      intro t ht
      cases first with
      | true =>
        obtain rfl : s = t := Option.some.inj ht
        simp
      | false =>
        obtain rfl := skip_eq_some.1 ht
        simp
    rw [readGroups]
    split
    · rename_i v4 rest hread
      split at hread
      · cases hread
      · obtain ⟨t, ht, hread⟩ := Option.bind_eq_some_iff.1 hread
        have h1 := hsep t ht
        have h2 := count_le_of_readIpv4 hread ':'
        simp only [Ipv4Addr.groups, List.length_cons, List.length_nil]
        split_ifs at h1 ⊢ <;> omega
    · split
      · rename_i g rest hread
        obtain ⟨t, ht, hread⟩ := Option.bind_eq_some_iff.1 hread
        obtain ⟨⟨n, rest'⟩, hnumber, heq⟩ := Option.map_eq_some_iff.1 hread
        obtain ⟨-, rfl⟩ := Prod.mk.inj heq
        have h1 := hsep t ht
        have h2 := count_le_of_readNumber hnumber ':'
        obtain ⟨h3, h4⟩ := ih false rest'
        rw [if_neg Bool.false_ne_true] at h4
        simp only [List.length_cons]
        split_ifs at h1 ⊢ <;> omega
      · simp

/-- **The text of an IPv6 address has two colons at least.** -/
theorem two_colons {s rest : Str} {v6 : Ipv6Addr} (h : readIpv6 s = some (v6, rest)) : 2 ≤ s.count ':' := by
  obtain ⟨hrest, hcount⟩ := count_readGroups 8 true s
  unfold readIpv6 at h
  simp only at h
  split at h
  · rename_i hfull
    rw [hfull, if_pos rfl] at hcount
    omega
  · split at h
    · cases h
    · split at h
      · cases h
      · rename_i t hskip
        obtain ⟨u, hu, ht⟩ := Option.bind_eq_some_iff.1 hskip
        rw [skip_eq_some.1 hu, skip_eq_some.1 ht, List.count_cons_self, List.count_cons_self] at hrest
        omega

/-! ## Whole texts -/

theorem whole_eq_some {α : Type} {r : Option (α × Str)} {a : α} : whole r = some a ↔ r = some (a, []) := by
  unfold whole
  split
  · rename_i a'
    rw [Option.some_inj, Option.some_inj, Prod.mk.injEq, and_iff_left rfl]
  · rename_i h
    exact iff_of_false nofun (h a)

theorem readNumber_port (p : UInt16) : readNumber 10 none true 65536 (dec p.toNat) = some (p.toNat, []) := by
  have h : readNumber 10 none true 65536 (dec p.toNat ++ []) = some (p.toNat, []) :=
    readNumber_toDigits (by decide) (by decide) p.toNat_lt (by rintro m ⟨⟩) (noDigit_nil 10)
  rwa [List.append_nil] at h

theorem withoutPlus_dec (n : Nat) : withoutPlus (dec n) = dec n := by
  unfold withoutPlus
  split
  · rename_i t ht
    have hplus : '+' ∈ dec n := by simp [ht]
    exact absurd ((toDigits_spec (show 1 < 10 by decide) (by decide) n).1 '+' hplus) (by decide)
  · rfl

theorem parseU16_dec (p : UInt16) : parseU16 (dec p.toNat) = some p := by
  rw [parseU16, withoutPlus_dec, readNumber_port, Option.map_some, UInt16.ofNat_toNat]
  rfl

theorem readPort_dec (p : UInt16) : readPort (':' :: dec p.toNat) = some (p, []) := by
  rw [readPort, skip_self, Option.bind_some, readNumber_port, Option.map_some, UInt16.ofNat_toNat]

theorem readPort_eq_some {s rest : Str} {p : UInt16} (h : readPort s = some (p, rest)) :
    ∃ t, s = ':' :: t ∧ readNumber 10 none true 65536 t = some (p.toNat, rest) := by
  obtain ⟨t, ht, hread⟩ := Option.bind_eq_some_iff.1 h
  obtain ⟨⟨n, rest'⟩, hnumber, heq⟩ := Option.map_eq_some_iff.1 hread
  obtain ⟨rfl, rfl⟩ := Prod.mk.inj heq
  have hlt : n < 65536 := by
    obtain ⟨-, -, -, -, -, hlt, -⟩ := readNumber_eq_some hnumber
    exact hlt
  refine ⟨t, skip_eq_some.1 ht, ?_⟩
  rw [hnumber, UInt16.toNat_ofNat_of_lt' hlt]

/-- No IPv6 address begins like an IPv4 address. -/
theorem readIpv4_ipv6 (v6 : Ipv6Addr) : readIpv4 v6.display = none := by
  have hgroups : ∀ (gs : List UInt16) {next : Str}, Ends next → readIpv4 (fmtSubslice gs ++ next) = none := by
    intro gs next hends
    cases gs with
    | nil => exact readIpv4_none hends.noDecimal
    | cons g gs =>
      rw [fmtSubslice, List.append_assoc]
      exact readIpv4_hex g.toNat (ends_moreGroups gs hends)
  unfold Ipv6Addr.display
  split
  · exact readIpv4_none (ends_colon _).noDecimal
  · simp only
    split
    · rw [List.append_assoc]
      exact hgroups _ (ends_colon _)
    · have h := hgroups v6.segments ends_nil
      rwa [List.append_nil] at h

/-- **An address is parsed back.** -/
theorem parseIpAddr_display (ip : IpAddr) : parseIpAddr ip.display = some ip := by
  rw [parseIpAddr, whole_eq_some]
  cases ip with
  | v4 v4 =>
    have h := readIpv4_display v4 (noDigit_nil 10)
    rw [List.append_nil] at h
    rw [IpAddr.display, readIpAddr, h]
  | v6 v6 =>
    have h := readIpv6_display v6 ends_nil (Ends.noGroup nofun)
    rw [List.append_nil] at h
    rw [IpAddr.display, readIpAddr, readIpv4_ipv6, h]
    rfl

theorem parseSocketAddr_v4 (v4 : Ipv4Addr) (p : UInt16) :
    parseSocketAddr (v4.display ++ ':' :: dec p.toNat) = some ⟨.v4 v4, p⟩ := by
  have hread : readSocketAddrV4 (v4.display ++ ':' :: dec p.toNat) = some (⟨.v4 v4, p⟩, []) := by
    rw [readSocketAddrV4, readIpv4_display v4 (noDigit_cons rfl _)]
    show (readPort (':' :: dec p.toNat)).bind _ = _
    rw [readPort_dec]
    rfl
  rw [parseSocketAddr, readSocketAddr, hread]
  rfl

theorem readSocketAddrV4_bracket (s : Str) : readSocketAddrV4 ('[' :: s) = none := by
  rw [readSocketAddrV4, readIpv4_none (noDigit_cons rfl s)]
  rfl

theorem parseSocketAddr_v6 (v6 : Ipv6Addr) (p : UInt16) :
    parseSocketAddr ('[' :: (v6.display ++ ']' :: ':' :: dec p.toNat)) = some ⟨.v6 v6, p⟩ := by
  have hends : Ends (']' :: ':' :: dec p.toNat) := ends_cons rfl (by decide) _
  have hread := readIpv6_display v6 hends (Ends.noGroup (by simp))
  rw [parseSocketAddr, readSocketAddr, readSocketAddrV4_bracket, readSocketAddrV6, skip_self]
  show whole ((readIpv6 _).bind _) = _
  rw [hread]
  show whole ((readPort (':' :: dec p.toNat)).bind _) = _
  rw [readPort_dec]
  rfl

/-- What is parsed as a socket address is an IPv4 address, a colon and the port, or begins with a bracket. -/
theorem parseSocketAddr_eq_some {s : Str} {addr : SocketAddr} (h : parseSocketAddr s = some addr) :
    (∃ v4 t, s = v4.display ++ ':' :: t ∧ addr.ip = .v4 v4 ∧ readNumber 10 none true 65536 t = some (addr.port.toNat, [])) ∨
      ∃ t, s = '[' :: t := by
  rw [parseSocketAddr, whole_eq_some, readSocketAddr] at h
  split at h
  · rename_i r hread
    obtain rfl := Option.some.inj h
    obtain ⟨⟨v4, rest⟩, hv4, hread⟩ := Option.bind_eq_some_iff.1 hread
    obtain ⟨⟨port, rest'⟩, hport, heq⟩ := Option.bind_eq_some_iff.1 hread
    obtain ⟨rfl, rfl⟩ := Prod.mk.inj (Option.some.inj heq)
    obtain ⟨t, rfl, hnumber⟩ := readPort_eq_some hport
    exact Or.inl ⟨v4, t, display_of_readIpv4 hv4, rfl, hnumber⟩
  · obtain ⟨t, ht, -⟩ := Option.bind_eq_some_iff.1 h
    exact Or.inr ⟨t, skip_eq_some.1 ht⟩

theorem parseIpAddr_eq_some {s : Str} {ip : IpAddr} (h : parseIpAddr s = some ip) :
    (∃ v4, s = v4.display ∧ ip = .v4 v4) ∨ 2 ≤ s.count ':' := by
  rw [parseIpAddr, whole_eq_some, readIpAddr] at h
  split at h
  · rename_i v4 rest hread
    obtain ⟨rfl, rfl⟩ := Prod.mk.inj (Option.some.inj h)
    have htext := display_of_readIpv4 hread
    rw [List.append_nil] at htext
    exact Or.inl ⟨v4, htext, rfl⟩
  · obtain ⟨⟨v6, rest⟩, hread, -⟩ := Option.map_eq_some_iff.1 h
    exact Or.inr (two_colons hread)

/-! ### The characters of an address -/

/-- A hexadecimal digit, a colon or a dot. -/
def isAddrChar (c : Char) : Bool := (digitOf 16 c).isSome || c == ':' || c == '.'

theorem dec_isAddrChar {n : Nat} {c : Char} (h : c ∈ dec n) : isAddrChar c = true := by
  obtain ⟨d, hd⟩ := Option.isSome_iff_exists.1 ((toDigits_spec (show 1 < 10 by decide) (by decide) n).1 c h)
  rw [isAddrChar, digitOf_sixteen hd]
  rfl

theorem hex_isAddrChar {n : Nat} {c : Char} (h : c ∈ hex n) : isAddrChar c = true := by
  rw [isAddrChar, (toDigits_spec (show 1 < 16 by decide) le_rfl n).1 c h]
  rfl

theorem Ipv4Addr.isAddrChar_display {v4 : Ipv4Addr} {c : Char} (h : c ∈ v4.display) : isAddrChar c = true := by
  simp only [Ipv4Addr.display, List.mem_append, List.mem_cons] at h
  rcases h with ((h | rfl | h) | rfl | h) | rfl | h
  · exact dec_isAddrChar h
  · rfl
  · exact dec_isAddrChar h
  · rfl
  · exact dec_isAddrChar h
  · rfl
  · exact dec_isAddrChar h

theorem fmtSubslice_isAddrChar {gs : List UInt16} {c : Char} (h : c ∈ fmtSubslice gs) : isAddrChar c = true := by
  cases gs with
  | nil => cases h
  | cons g gs =>
    rcases List.mem_append.1 h with h | h
    · exact hex_isAddrChar h
    · obtain ⟨g', -, h⟩ := List.mem_flatMap.1 h
      rcases List.mem_cons.1 h with rfl | h
      · rfl
      · exact hex_isAddrChar h

theorem IpAddr.isAddrChar_display {ip : IpAddr} {c : Char} (h : c ∈ ip.display) : isAddrChar c = true := by
  cases ip with
  | v4 v4 => exact Ipv4Addr.isAddrChar_display h
  | v6 v6 =>
    have hcolons : ∀ s : Str, s.all isAddrChar = true → ∀ c ∈ s, isAddrChar c = true := fun s => List.all_eq_true.1
    rw [IpAddr.display, Ipv6Addr.display] at h
    split at h
    · rcases List.mem_append.1 h with h | h
      · exact hcolons "::ffff:".toList (by decide) c h
      · exact Ipv4Addr.isAddrChar_display h
    · simp only at h
      split at h
      · rcases List.mem_append.1 h with h | h
        · rcases List.mem_append.1 h with h | h
          · exact fmtSubslice_isAddrChar h
          · exact hcolons "::".toList (by decide) c h
        · exact fmtSubslice_isAddrChar h
      · exact fmtSubslice_isAddrChar h

end Net
