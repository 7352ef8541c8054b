import Cheti.Base.I64
import Cheti.Error
/-!
# When to renew (src/renewal.rs)

| here | there |
| --- | --- |
| `X509`, `X509Certificate`     | what the module reads with `x509_parser`: a PEM block, a certificate |
| `parseLeafDer`, `parseLeaf`   | `parse_leaf_der` (renewal.rs:202-216) and the `from_der` that follows it |
| `needsRenewalAtChecked`       | `needs_renewal_at_checked` (renewal.rs:42-54) |
| `CertLifetime`, `certLifetimeAt` | renewal.rs:68-83, `cert_lifetime_at` (renewal.rs:89-125) |
| `needsRenewalRatioAtChecked`  | `needs_renewal_ratio_at_checked` (renewal.rs:155-175) |

Times are `i64` Unix seconds and every operation on them is checked: a result is `none` where one of them
overflows. `renewed`, `lifetime` and `renewedRatio` are the same answers over exact integers; three
equations (`needsRenewalAtChecked_eq`, ..) say when the code computes them.
-/

namespace Cheti.Renewal

/-! ## Certificates -/

/-- A date as `x509_parser` reads it: a year of four digits, at most a day away from UTC. -/
structure Asn1Time where
  timestamp : Int
  range : -62167305600 ≤ timestamp ∧ timestamp ≤ 253402387199

inductive GeneralName where
  | dnsName (name : Str)
  | other

structure X509Certificate where
  notBefore : Asn1Time
  notAfter : Asn1Time
  /-- The common names of the subject, where they are text. -/
  commonNames : List (Option Str)
  /-- The subject alternative names; nothing without the extension, or where it does not parse. -/
  subjectAlternativeName : Option (List GeneralName)

/-- The parsers of `x509_parser`: the first PEM block, as its label and contents, and a certificate. -/
structure X509 where
  readPem : Str → Except String (Str × List UInt8)
  fromDer : List UInt8 → Except String X509Certificate

/-- A fallible function over `i64`: `none` where an operation overflows. -/
abbrev Checked := ExceptT DnsError Option

def parseLeafDer (x : X509) (pem : Str) : Except DnsError (List UInt8) :=
  match x.readPem pem with
  | .ok (label, contents) =>
    if label ≠ "CERTIFICATE".toList then .error (.certParse s!"expected CERTIFICATE PEM, got {label}")
    else .ok contents
  | .error e => .error (.certParse s!"no PEM block found: {e}")

def parseLeaf (x : X509) (pem : Str) : Except DnsError X509Certificate := do
  let leafDer ← parseLeafDer x pem
  (x.fromDer leafDer).mapError fun e => .certParse s!"parse leaf certificate: {e}"

/-! ## The three functions -/

def needsRenewalAtChecked (x : X509) (pem : Str) (thresholdDays : UInt32) (now : Int) : Checked Bool := do
  let cert ← parseLeaf x pem
  let thresholdSeconds ← I64.mul thresholdDays.toNat 86400
  let remaining ← I64.sub cert.notAfter.timestamp now
  return decide (remaining ≤ thresholdSeconds)

structure CertLifetime where
  notBefore : Int
  notAfter : Int
  totalDays : Int
  remainingDays : Int
  subjectCn : Option Str
  sans : List Str
deriving DecidableEq, Repr

def subjectCn (cert : X509Certificate) : Option Str := cert.commonNames.head?.join

def sans (cert : X509Certificate) : List Str :=
  match cert.subjectAlternativeName with
  | some names => names.filterMap fun
    | .dnsName name => some name
    | .other => none
  | none => []

def certLifetimeAt (x : X509) (pem : Str) (now : Int) : Checked CertLifetime := do
  let cert ← parseLeaf x pem
  let total ← I64.sub cert.notAfter.timestamp cert.notBefore.timestamp
  let totalDays ← I64.div (max total 0) 86400
  let remaining ← I64.sub cert.notAfter.timestamp now
  let remainingDays ← I64.div remaining 86400
  return {
    notBefore := cert.notBefore.timestamp
    notAfter := cert.notAfter.timestamp
    totalDays := totalDays
    remainingDays := remainingDays
    subjectCn := subjectCn cert
    sans := sans cert }

/-- `floor_days = 0` switches the cap off. -/
def needsRenewalRatioAtChecked (x : X509) (pem : Str) (floorDays : UInt32) (now : Int) : Checked Bool := do
  let life ← certLifetimeAt x pem now
  let remaining ← I64.sub life.notAfter now
  if remaining ≤ 0 then return true
  let total ← I64.sub life.notAfter life.notBefore
  let ratioSeconds ← I64.div (max total 0) 3
  let floorSeconds ← I64.mul floorDays.toNat 86400
  let thresholdSeconds := if floorSeconds = 0 then ratioSeconds else min ratioSeconds floorSeconds
  return decide (remaining ≤ thresholdSeconds)

/-! ## What they compute -/

section Exact

variable (cert : X509Certificate) (days : UInt32) (now : Int)

def renewed : Bool := cert.notAfter.timestamp - now ≤ days.toNat * 86400

def lifetime : CertLifetime where
  notBefore := cert.notBefore.timestamp
  notAfter := cert.notAfter.timestamp
  totalDays := (max (cert.notAfter.timestamp - cert.notBefore.timestamp) 0).tdiv 86400
  remainingDays := (cert.notAfter.timestamp - now).tdiv 86400
  subjectCn := subjectCn cert
  sans := sans cert

/-- A third of the lifetime, capped by the floor unless that is zero. -/
def ratioThreshold : Int :=
  let ratio := (max (cert.notAfter.timestamp - cert.notBefore.timestamp) 0).tdiv 3
  if days.toNat = 0 then ratio else min ratio (days.toNat * 86400)

def renewedRatio : Bool :=
  cert.notAfter.timestamp - now ≤ 0 || cert.notAfter.timestamp - now ≤ ratioThreshold cert days

end Exact

variable {x : X509} {pem : Str} {cert : X509Certificate} {now : Int}

theorem parseLeaf_bind {α : Type} (h : parseLeaf x pem = .ok cert) (k : X509Certificate → Checked α) :
    (do let cert ← parseLeaf x pem; k cert : Checked α) = k cert := by
  rw [h]
  rfl

theorem exact_bind {α : Type} {n : Int} {o : Option Int} (h : o = some n) (k : Int → Checked α) :
    (do let n ← o; k n : Checked α) = k n := by
  rw [h]
  rfl

/-- Days in seconds. -/
theorem days_fits (days : UInt32) : I64.Fits (days.toNat * 86400) := by
  have := days.toNat_lt
  unfold I64.Fits
  omega

theorem total_fits (cert : X509Certificate) : I64.Fits (cert.notAfter.timestamp - cert.notBefore.timestamp) := by
  have hb := cert.notBefore.range
  have ha := cert.notAfter.range
  unfold I64.Fits
  omega

theorem max_total_fits (cert : X509Certificate) :
    I64.Fits (max (cert.notAfter.timestamp - cert.notBefore.timestamp) 0) := by
  have h := total_fits cert
  unfold I64.Fits at h ⊢
  omega

theorem remaining_fits (cert : X509Certificate) (h0 : 0 ≤ now) (h : now < 2 ^ 62) :
    I64.Fits (cert.notAfter.timestamp - now) := by
  have ha := cert.notAfter.range
  unfold I64.Fits
  omega

theorem needsRenewalAtChecked_eq (h : parseLeaf x pem = .ok cert) (days : UInt32)
    (hfits : I64.Fits (cert.notAfter.timestamp - now)) :
    needsRenewalAtChecked x pem days now = some (.ok (renewed cert days now)) := by
  unfold needsRenewalAtChecked
  rw [parseLeaf_bind h, exact_bind (I64.mul_fits (days_fits days)), exact_bind (I64.sub_fits hfits)]
  rfl

theorem certLifetimeAt_eq (h : parseLeaf x pem = .ok cert) (hfits : I64.Fits (cert.notAfter.timestamp - now)) :
    certLifetimeAt x pem now = some (.ok (lifetime cert now)) := by
  unfold certLifetimeAt
  rw [parseLeaf_bind h, exact_bind (I64.sub_fits (total_fits cert)),
    exact_bind (I64.div_fits (max_total_fits cert) (by decide)), exact_bind (I64.sub_fits hfits),
    exact_bind (I64.div_fits hfits (by decide))]
  rfl

theorem needsRenewalRatioAtChecked_eq (h : parseLeaf x pem = .ok cert) (days : UInt32)
    (hfits : I64.Fits (cert.notAfter.timestamp - now)) :
    needsRenewalRatioAtChecked x pem days now = some (.ok (renewedRatio cert days now)) := by
  have hlife : needsRenewalRatioAtChecked x pem days now = (do
      let remaining ← I64.sub cert.notAfter.timestamp now
      if remaining ≤ 0 then return true
      let total ← I64.sub cert.notAfter.timestamp cert.notBefore.timestamp
      let ratioSeconds ← I64.div (max total 0) 3
      let floorSeconds ← I64.mul days.toNat 86400
      let thresholdSeconds := if floorSeconds = 0 then ratioSeconds else min ratioSeconds floorSeconds
      return decide (remaining ≤ thresholdSeconds) : Checked Bool) := by
    unfold needsRenewalRatioAtChecked
    rw [certLifetimeAt_eq h hfits]
    rfl
  rw [hlife, exact_bind (I64.sub_fits hfits)]
  by_cases hexpired : cert.notAfter.timestamp - now ≤ 0
  · have hratio : renewedRatio cert days now = true := by simp [renewedRatio, hexpired]
    rw [if_pos hexpired, hratio]
    rfl
  · rw [if_neg hexpired, exact_bind (I64.sub_fits (total_fits cert)),
      exact_bind (I64.div_fits (max_total_fits cert) (by decide)),
      exact_bind (I64.mul_fits (days_fits days))]
    have hzero : (days.toNat : Int) * 86400 = 0 ↔ days.toNat = 0 := by omega
    have hratio : renewedRatio cert days now = decide (cert.notAfter.timestamp - now ≤ ratioThreshold cert days) := by
      simp [renewedRatio, hexpired]
    rw [hratio, ratioThreshold]
    simp only [hzero]
    rfl

/-- With an overflow there is no lifetime to speak of. -/
theorem certLifetimeAt_eq_some {life : CertLifetime} (h : parseLeaf x pem = .ok cert)
    (hlife : certLifetimeAt x pem now = some (.ok life)) : life = lifetime cert now := by
  by_cases hfits : I64.Fits (cert.notAfter.timestamp - now)
  · rw [certLifetimeAt_eq h hfits] at hlife
    cases hlife
    rfl
  · have hnone : certLifetimeAt x pem now = none := by
      unfold certLifetimeAt
      rw [parseLeaf_bind h, exact_bind (I64.sub_fits (total_fits cert)),
        exact_bind (I64.div_fits (max_total_fits cert) (by decide)), I64.sub, I64.exact_not_fits hfits]
      rfl
    rw [hnone] at hlife
    cases hlife

/-! ## The lifetime rule -/

/-- The answer is that renewal is due. -/
def Due (r : Checked Bool) : Prop := r = some (.ok true)

theorem due_iff {b : Bool} : Due (some (.ok b)) ↔ b = true := by
  constructor
  · intro h
    cases h
    rfl
  · rintro rfl
    rfl

theorem renewed_iff {days : UInt32} :
    renewed cert days now = true ↔ cert.notAfter.timestamp - now ≤ days.toNat * 86400 := by
  simp [renewed]

theorem renewedRatio_iff {days : UInt32} : renewedRatio cert days now = true ↔
    cert.notAfter.timestamp - now ≤ max 0 (ratioThreshold cert days) := by
  simp [renewedRatio]

/-- A third, rounded down. -/
theorem third_le (cert : X509Certificate) (days : Int) :
    days ≤ (max (cert.notAfter.timestamp - cert.notBefore.timestamp) 0).tdiv 3 ↔
      3 * days ≤ max (cert.notAfter.timestamp - cert.notBefore.timestamp) 0 := by
  rw [Int.tdiv_eq_ediv_of_nonneg (by omega)]
  omega

/-- The rule that renews in the last third of the lifetime, beside the one that renews in a fixed window. -/
structure RatioRule (x : X509) (pem : Str) (cert : X509Certificate) : Prop where
  no_overflow : ∀ (F : UInt32) (now : Int), 0 ≤ now → now < 2 ^ 62 →
    needsRenewalAtChecked x pem F now ≠ none ∧ certLifetimeAt x pem now ≠ none ∧
      needsRenewalRatioAtChecked x pem F now ≠ none
  iff_window : ∀ (F : UInt32) (now : Int), 1 ≤ F → 0 ≤ now → now < 2 ^ 62 →
    (Due (needsRenewalRatioAtChecked x pem F now) ↔
      Due (needsRenewalAtChecked x pem F now) ∧ Due (needsRenewalRatioAtChecked x pem 0 now))
  eq_window : ∀ F : UInt32, 1 ≤ F → 3 * F.toNat * 86400 ≤ cert.notAfter.timestamp - cert.notBefore.timestamp →
    ∀ now, 0 ≤ now → now < 2 ^ 62 → needsRenewalRatioAtChecked x pem F now = needsRenewalAtChecked x pem F now
  /-- Once due, due from then on. -/
  mono_now : ∀ (F : UInt32) (now now' : Int), 0 ≤ now → now ≤ now' → now' < 2 ^ 62 →
    Due (needsRenewalRatioAtChecked x pem F now) → Due (needsRenewalRatioAtChecked x pem F now')
  mono_floor : ∀ (F F' : UInt32) (now : Int), 1 ≤ F → F ≤ F' → 0 ≤ now → now < 2 ^ 62 →
    Due (needsRenewalRatioAtChecked x pem F now) → Due (needsRenewalRatioAtChecked x pem F' now)
  expired : ∀ (F : UInt32) (now : Int), 0 ≤ now → now < 2 ^ 62 → cert.notAfter.timestamp ≤ now →
    Due (needsRenewalRatioAtChecked x pem F now)
  /-- A certificate is not due when it starts to be valid. -/
  fresh : cert.notBefore.timestamp < cert.notAfter.timestamp → ∀ F : UInt32,
    needsRenewalRatioAtChecked x pem F cert.notBefore.timestamp = some (.ok false)

theorem renewedRatio_window {F : UInt32} (hF : 1 ≤ F) :
    renewedRatio cert F now = true ↔ renewed cert F now = true ∧ renewedRatio cert 0 now = true := by
  have hpos : 1 ≤ F.toNat := UInt32.le_iff_toNat_le.1 hF
  have hthird : 0 ≤ (max (cert.notAfter.timestamp - cert.notBefore.timestamp) 0).tdiv 3 :=
    Int.tdiv_nonneg (by omega) (by decide)
  rw [renewedRatio_iff, renewedRatio_iff, renewed_iff, ratioThreshold, ratioThreshold, if_neg (by omega),
    if_pos (by decide)]
  omega

theorem ratioThreshold_of_long {F : UInt32} (hF : 1 ≤ F)
    (h : 3 * F.toNat * 86400 ≤ cert.notAfter.timestamp - cert.notBefore.timestamp) :
    ratioThreshold cert F = F.toNat * 86400 := by
  have hpos : 1 ≤ F.toNat := UInt32.le_iff_toNat_le.1 hF
  have hthird : (F.toNat : Int) * 86400 ≤ (max (cert.notAfter.timestamp - cert.notBefore.timestamp) 0).tdiv 3 :=
    (third_le cert _).2 (by omega)
  rw [ratioThreshold, if_neg (by omega)]
  exact min_eq_right hthird

theorem ratioThreshold_mono {F F' : UInt32} (hF : 1 ≤ F) (h : F ≤ F') :
    ratioThreshold cert F ≤ ratioThreshold cert F' := by
  have hpos : 1 ≤ F.toNat := UInt32.le_iff_toNat_le.1 hF
  have hle : F.toNat ≤ F'.toNat := UInt32.le_iff_toNat_le.1 h
  rw [ratioThreshold, ratioThreshold, if_neg (by omega), if_neg (by omega)]
  omega

theorem ratioThreshold_lt (F : UInt32) (h : cert.notBefore.timestamp < cert.notAfter.timestamp) :
    ratioThreshold cert F < cert.notAfter.timestamp - cert.notBefore.timestamp := by
  have hthird : (max (cert.notAfter.timestamp - cert.notBefore.timestamp) 0).tdiv 3 <
      cert.notAfter.timestamp - cert.notBefore.timestamp := by
    have hle := third_le cert (cert.notAfter.timestamp - cert.notBefore.timestamp)
    omega
  unfold ratioThreshold
  simp only
  split
  · exact hthird
  · omega

/-- **The rule by lifetime is consistent with the fixed window and with itself.** -/
theorem ratio_rule (h : parseLeaf x pem = .ok cert) : RatioRule x pem cert := by
  have hratio : ∀ (F : UInt32) (now : Int), 0 ≤ now → now < 2 ^ 62 →
      needsRenewalRatioAtChecked x pem F now = some (.ok (renewedRatio cert F now)) :=
    fun F now h0 h62 => needsRenewalRatioAtChecked_eq h F (remaining_fits cert h0 h62)
  have hwindow : ∀ (F : UInt32) (now : Int), 0 ≤ now → now < 2 ^ 62 →
      needsRenewalAtChecked x pem F now = some (.ok (renewed cert F now)) :=
    fun F now h0 h62 => needsRenewalAtChecked_eq h F (remaining_fits cert h0 h62)
  constructor
  case no_overflow =>
    intro F now h0 h62
    rw [hratio F now h0 h62, hwindow F now h0 h62, certLifetimeAt_eq h (remaining_fits cert h0 h62)]
    simp
  case iff_window =>
    intro F now hF h0 h62
    rw [hratio F now h0 h62, hwindow F now h0 h62, hratio 0 now h0 h62, due_iff, due_iff, due_iff]
    exact renewedRatio_window hF
  case eq_window =>
    intro F hF hlong now h0 h62
    have hsame : renewedRatio cert F now = renewed cert F now := by
      rw [Bool.eq_iff_iff, renewedRatio_iff, renewed_iff, ratioThreshold_of_long hF hlong]
      omega
    rw [hratio F now h0 h62, hwindow F now h0 h62, hsame]
  case mono_now =>
    intro F now now' h0 hle h62 hdue
    rw [hratio F now h0 (by omega), due_iff, renewedRatio_iff] at hdue
    rw [hratio F now' (by omega) h62, due_iff, renewedRatio_iff]
    omega
  case mono_floor =>
    intro F F' now hF hle h0 h62 hdue
    rw [hratio F now h0 h62, due_iff, renewedRatio_iff] at hdue
    rw [hratio F' now h0 h62, due_iff, renewedRatio_iff]
    have hmono : ratioThreshold cert F ≤ ratioThreshold cert F' := ratioThreshold_mono hF hle
    omega
  case expired =>
    intro F now h0 h62 hexpired
    rw [hratio F now h0 h62, due_iff, renewedRatio_iff]
    omega
  case fresh =>
    intro hlt F
    have hno : renewedRatio cert F cert.notBefore.timestamp = false := by
      rw [Bool.eq_false_iff, Ne, renewedRatio_iff]
      have := ratioThreshold_lt F hlt
      omega
    rw [needsRenewalRatioAtChecked_eq h F (total_fits cert), hno]

/-- A certificate that is valid for so many days from the epoch on. -/
def validFor (days : Nat) (h : days ≤ 30000) : X509Certificate :=
  ⟨⟨0, by omega⟩, ⟨days * 86400, by omega⟩, [some "a.org".toList], some [.dnsName "a.org".toList]⟩

/-- A parser that knows one certificate. -/
def oneCert (cert : X509Certificate) : X509 := ⟨fun pem => .ok ("CERTIFICATE".toList, pem.map fun _ => 0), fun _ => .ok cert⟩

theorem parseLeaf_oneCert (cert : X509Certificate) (pem : Str) : parseLeaf (oneCert cert) pem = .ok cert := rfl

theorem ratio_rule_ninety_days : RatioRule (oneCert (validFor 90 (by decide))) [] (validFor 90 (by decide)) :=
  ratio_rule (parseLeaf_oneCert _ _)

/-- With a floor of zero the two rules differ: ten days before the end of ninety, in the last third. -/
theorem ratio_zero_floor_differs :
    let cert := validFor 90 (by decide)
    3 * (0 : UInt32).toNat * 86400 ≤ cert.notAfter.timestamp - cert.notBefore.timestamp ∧
      needsRenewalRatioAtChecked (oneCert cert) [] 0 (80 * 86400) = some (.ok true) ∧
      needsRenewalAtChecked (oneCert cert) [] 0 (80 * 86400) = some (.ok false) := by
  intro cert
  have hratio : renewedRatio cert 0 (80 * 86400) = true := by decide
  have hwindow : renewed cert 0 (80 * 86400) = false := by decide
  refine ⟨by decide, ?_, ?_⟩
  · rw [needsRenewalRatioAtChecked_eq (parseLeaf_oneCert cert []) 0 (by decide), hratio]
  · rw [needsRenewalAtChecked_eq (parseLeaf_oneCert cert []) 0 (by decide), hwindow]

/-! ## Days and seconds -/

/-- The days that are reported agree with the decisions made in seconds. -/
structure DayCountsAgree (x : X509) (pem : Str) (cert : X509Certificate) (now : Int) (life : CertLifetime) : Prop where
  /-- Negative exactly once expired. -/
  negative : life.remainingDays < 0 ↔ cert.notAfter.timestamp < now
  renewed_of_lt : ∀ d : UInt32, life.remainingDays < d.toNat → Due (needsRenewalAtChecked x pem d now)
  le_of_renewed : ∀ d : UInt32, Due (needsRenewalAtChecked x pem d now) → life.remainingDays ≤ d.toNat
  /-- Time only takes days away. -/
  later : ∀ now' life', now ≤ now' → certLifetimeAt x pem now' = some (.ok life') →
    life'.remainingDays ≤ life.remainingDays
  total_nonneg : 0 ≤ life.totalDays
  remaining_le_total : cert.notBefore.timestamp ≤ now → life.remainingDays ≤ life.totalDays

/-- **The day counts agree with the decisions, except on the first day after the end**: the count is
truncated towards zero, so that it is not negative before a whole day has passed. -/
theorem dayCounts_agree_iff (h : parseLeaf x pem = .ok cert) (hfits : I64.Fits (cert.notAfter.timestamp - now)) :
    (∃ life, certLifetimeAt x pem now = some (.ok life) ∧ DayCountsAgree x pem cert now life) ↔
      now ≤ cert.notAfter.timestamp ∨ cert.notAfter.timestamp + 86400 ≤ now := by
  have hneg : (lifetime cert now).remainingDays < 0 ↔ cert.notAfter.timestamp - now ≤ -86400 :=
    I64.tdiv_neg_iff (by decide)
  constructor
  · rintro ⟨life, hlife, hagree⟩
    have hnegative := hagree.negative
    rw [certLifetimeAt_eq_some h hlife, hneg] at hnegative
    omega
  · intro hnow
    refine ⟨_, certLifetimeAt_eq h hfits, ?_⟩
    constructor
    case negative =>
      rw [hneg]
      omega
    case renewed_of_lt =>
      intro d hd
      rw [needsRenewalAtChecked_eq h d hfits, due_iff, renewed_iff]
      exact (I64.tdiv_lt (by decide) hd).le
    case le_of_renewed =>
      intro d hd
      rw [needsRenewalAtChecked_eq h d hfits, due_iff, renewed_iff] at hd
      exact I64.tdiv_le (by decide) hd
    case later =>
      intro now' life' hle hlife'
      rw [certLifetimeAt_eq_some h hlife']
      exact Int.tdiv_le_tdiv (by decide) (by omega)
    case total_nonneg => exact Int.tdiv_nonneg (by omega) (by decide)
    case remaining_le_total =>
      intro hbefore
      exact Int.tdiv_le_tdiv (by decide) (by omega)

theorem dayCounts_agree_last_second : let cert := validFor 90 (by decide)
    ∃ life, certLifetimeAt (oneCert cert) [] (90 * 86400 - 1) = some (.ok life) ∧
      DayCountsAgree (oneCert cert) [] cert (90 * 86400 - 1) life :=
  (dayCounts_agree_iff (parseLeaf_oneCert _ _) (by decide)).2 (by decide)

/-- One second after the end, no day is left and none is missing. -/
theorem expired_not_negative : let cert := validFor 90 (by decide)
    cert.notAfter.timestamp < 90 * 86400 + 1 ∧ ∃ life,
      certLifetimeAt (oneCert cert) [] (90 * 86400 + 1) = some (.ok life) ∧ life.remainingDays = 0 :=
  ⟨by decide, lifetime _ _, certLifetimeAt_eq (parseLeaf_oneCert _ _) (by decide), by decide⟩

end Cheti.Renewal
