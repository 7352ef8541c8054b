import Cheti.Base.Url
import Cheti.Error
/-!
# Names and values: the validators and `relative_name` (src/providers/common.rs:159-245)

| here | there |
| --- | --- |
| `trimDots`, `lower`       | `trim_end_matches('.')`, `to_ascii_lowercase` |
| `validateAcmeValue`       | `validate_acme_value` (common.rs:162-178) |
| `validateFqdn`            | `validate_fqdn` (common.rs:210-233), its loop body `validateLabel` |
| `validateZone`            | `validate_zone` (common.rs:182-191) |
| `relativeName`            | `relative_name` (common.rs:235-245) |
| `normalizeName`           | `normalize_name` (route53.rs:423-425) |
| `suffixes`                | the candidates of the zone walks (powerdns.rs:166-167, route53.rs:274-275, infomaniak.rs:150-151) |
| `absolute`                | `absolute` (google_cloud_dns.rs:527-529), `owner_name` (powerdns.rs:251-253), and the `format!("{}.", ..)` of route53.rs |
| `unquote`, `quote`        | `unquote`, the same in the nine providers that have it, and `format!("\"{value}\"")` |
| `encodePath`              | `encode_path` (common.rs:101-119) |
-/

namespace Cheti

/-! ## Text as Rust handles it -/

/-- `char::is_whitespace`: the Unicode property `White_Space`. -/
def isWhitespace (c : Char) : Bool :=
  (9 ≤ c.val && c.val ≤ 13) || c.val == 0x20 || c.val == 0x85 || c.val == 0xA0 || c.val == 0x1680 ||
    (0x2000 ≤ c.val && c.val ≤ 0x200A) || c.val == 0x2028 || c.val == 0x2029 || c.val == 0x202F ||
    c.val == 0x205F || c.val == 0x3000

def trim (s : Str) : Str := (s.dropWhile isWhitespace).rdropWhile isWhitespace

def trimDots (s : Str) : Str := s.rdropWhile (· == '.')

def lower (s : Str) : Str := s.map Char.toLower

/-- `b.is_ascii_alphanumeric() || b == b'-' || b == b'_'`, for every byte of the character. -/
def isNameChar (c : Char) : Bool := c.isAlphanum || c == '-' || c == '_'

/-- `s.contains(pat)` -/
def contains (pat : String) (s : Str) : Bool := decide (pat.toList <:+: s)

/-! ## Validation -/

def validateAcmeValue (value : Str) : Except DnsError Unit := do
  if value.isEmpty || Text.utf8Len value > 128 then
    throw (.other s!"invalid ACME value length: {Text.utf8Len value}")
  if !value.all isNameChar then
    throw (.other "ACME value must be base64url (A-Z a-z 0-9 - _)")

def validateLabel (fqdn label : Str) : Except DnsError Unit := do
  if label.isEmpty || Text.utf8Len label > 63 then throw (.other s!"invalid label in {fqdn}")
  if label.contains '\x00' then throw (.other "fqdn contains null byte")
  if !label.all isNameChar then throw (.other s!"invalid character in {fqdn}")

def validateFqdn (fqdn : Str) : Except DnsError Unit := do
  let trimmed := trimDots fqdn
  if trimmed.isEmpty || Text.utf8Len trimmed > 253 then throw (.other s!"invalid fqdn length: {fqdn}")
  (trimmed.splitOn '.').forM (validateLabel fqdn)

def validateZone (zone : Str) : Except DnsError Unit := do
  validateFqdn zone
  if !(trimDots zone).contains '.' then throw (.other s!"zone must have at least two labels, got {zone}")

/-! ## Names -/

def relativeName (fqdn zone : Str) : Except DnsError Str :=
  let fqdn := trimDots fqdn
  let zone := trimDots zone
  if fqdn = zone then .ok "@".toList
  else
    match fqdn.dropSuffix? ('.' :: zone) with
    | some rname => .ok rname
    | none => .error (.other s!"fqdn {fqdn} is not within zone {zone}")

def normalizeName (name : Str) : Str := lower (trimDots name)

def absolute (fqdn : Str) : Str := normalizeName fqdn ++ ['.']

/-- `a.eq_ignore_ascii_case(b)` -/
def eqIgnoreCase (a b : Str) : Bool := lower a = lower b

def joinDots (labels : List Str) : Str := ['.'].intercalate labels

/-- The candidates of `for start in 0..labels.len().saturating_sub(1) { labels[start..].join(".") }`:
every suffix with at least two labels, the longest first. -/
def suffixes : List Str → List Str
  | [] | [_] => []
  | l :: l' :: rest => joinDots (l :: l' :: rest) :: suffixes (l' :: rest)

/-! ## Values -/

/-- `trimmed.strip_prefix('"').and_then(|s| s.strip_suffix('"')).unwrap_or(trimmed)` -/
def unquote (value : Str) : Str :=
  match trim value with
  | '"' :: rest => if rest.getLast? = some '"' then rest.dropLast else '"' :: rest
  | trimmed => trimmed

def quote (value : Str) : Str := '"' :: (value ++ ['"'])

/-- `s.trim_matches('"')` -/
def trimQuotes (s : Str) : Str := (s.dropWhile (· == '"')).rdropWhile (· == '"')

/-! ## URLs -/

/-- The set `PATH_SEGMENT`, with the control characters and everything that is not ASCII. -/
def escaped (c : Char) : Bool :=
  c.val < 0x20 || 0x7F ≤ c.val || " \"#%/<>?\\^`\x7b|\x7d".toList.contains c

/-- `utf8_percent_encode(segment, PATH_SEGMENT)` -/
def encodePath (segment : Str) : Str := Url.escape (fun c => !escaped c) segment

/-! ## Facts about them -/

theorem trimDots_trimDots (s : Str) : trimDots (trimDots s) = trimDots s := List.rdropWhile_idempotent ..

theorem toLower_eq_dot {c : Char} : c.toLower = '.' ↔ c = '.' := by
  constructor
  · intro h
    unfold Char.toLower at h
    split at h
    · rename_i hup
      have hval := congrArg Char.val h
      simp only [UInt32.le_iff_toNat_le] at hup
      have := congrArg UInt32.toNat hval
      simp at this
      grind
    · exact h
  · rintro rfl; rfl

theorem not_upper_toLower (c : Char) : ¬ (65 ≤ c.toLower.val ∧ c.toLower.val ≤ 90) := by
  unfold Char.toLower
  split
  · rename_i h
    intro h'
    have h1 := UInt32.le_iff_toNat_le.1 h.1
    have h2 := UInt32.le_iff_toNat_le.1 h.2
    have h3 := UInt32.le_iff_toNat_le.1 h'.1
    have h4 := UInt32.le_iff_toNat_le.1 h'.2
    simp [UInt32.toNat_add] at *
    omega
  · rename_i h
    exact h

theorem toLower_toLower (c : Char) : c.toLower.toLower = c.toLower := by
  have h := not_upper_toLower c
  generalize c.toLower = d at h ⊢
  unfold Char.toLower
  exact dif_neg h

theorem lower_lower (s : Str) : lower (lower s) = lower s := by
  rw [lower, lower, List.map_map]
  exact List.map_congr_left fun c _ => toLower_toLower c

theorem lower_absolute (fqdn : Str) : lower (absolute fqdn) = absolute fqdn := by
  have hdot : lower ['.'] = ['.'] := rfl
  unfold absolute normalizeName
  rw [lower, List.map_append]
  exact congrArg₂ (· ++ ·) (lower_lower _) hdot

theorem lower_trimDots (s : Str) : lower (trimDots s) = trimDots (lower s) := by
  unfold lower trimDots
  induction s using List.reverseRecOn with
  | nil => rfl
  | append_singleton s c ih =>
    by_cases hc : c = '.'
    · subst hc
      rw [List.rdropWhile_concat_pos _ _ _ (by simp), ih]
      simp [List.rdropWhile_concat_pos]
    · have hc' : ¬ (c.toLower == '.') = true := by simpa [toLower_eq_dot] using hc
      rw [List.rdropWhile_concat_neg _ _ _ (by simpa using hc), List.map_append, List.map_singleton,
        List.rdropWhile_concat_neg (fun x => x == '.') _ _ hc']

theorem relativeName_trimDots (fqdn zone : Str) : relativeName (trimDots fqdn) zone = relativeName fqdn zone := by
  simp only [relativeName, trimDots_trimDots]

/-- The relative name depends only on the name, not on how it is spelled. -/
theorem relativeName_lower (fqdn zone : Str) :
    relativeName (lower fqdn) zone = relativeName (normalizeName fqdn) zone := by
  rw [normalizeName, lower_trimDots, relativeName_trimDots]

theorem trimDots_normalizeName (name : Str) : trimDots (normalizeName name) = normalizeName name := by
  rw [normalizeName, ← lower_trimDots, trimDots_trimDots]

/-- The zone itself, or a name below it. -/
def Within (name zone : Str) : Prop := name = zone ∨ ∃ labels, name = labels ++ '.' :: zone

theorem relativeName_of_within {fqdn zone : Str} (h : Within (trimDots fqdn) (trimDots zone)) :
    ∃ rname, relativeName fqdn zone = .ok rname := by
  unfold relativeName
  simp only
  split
  · exact ⟨_, rfl⟩
  · rename_i hne
    obtain ⟨labels, hl⟩ := h.resolve_left hne
    have hdrop : (trimDots fqdn).dropSuffix? ('.' :: trimDots zone) = some labels :=
      List.dropSuffix?_eq_some_iff.2 ⟨_, hl, by simp⟩
    rw [hdrop]
    exact ⟨_, rfl⟩

/-- A name given by its labels. -/
structure IsLabels (labels : List Str) : Prop where
  ne_nil : labels ≠ []
  dotless : ∀ l ∈ labels, '.' ∉ l
  nonempty : ∀ l ∈ labels, l ≠ []

theorem IsLabels.tail {l l' : Str} {rest : List Str} (h : IsLabels (l :: l' :: rest)) : IsLabels (l' :: rest) :=
  ⟨by simp, fun x hx => h.dotless x (List.mem_cons_of_mem _ hx), fun x hx => h.nonempty x (List.mem_cons_of_mem _ hx)⟩

theorem joinDots_cons (l l' : Str) (rest : List Str) :
    joinDots (l :: l' :: rest) = l ++ '.' :: joinDots (l' :: rest) := by
  simp [joinDots, List.intercalate]

/-- A name starts with its first label. -/
theorem head_joinDots {labels : List Str} (h : IsLabels labels) : ∃ x s, joinDots labels = x :: s ∧ x ≠ '.' := by
  obtain ⟨l, rest, rfl⟩ := List.exists_cons_of_ne_nil h.ne_nil
  obtain ⟨x, l', rfl⟩ := List.exists_cons_of_ne_nil (h.nonempty l (by simp))
  have hx : x ≠ '.' := fun he => h.dotless (x :: l') (by simp) (by simp [he])
  cases rest with
  | nil => exact ⟨x, l', by simp [joinDots], hx⟩
  | cons l'' rest => exact ⟨x, l' ++ '.' :: joinDots (l'' :: rest), by simp [joinDots_cons], hx⟩

theorem dotless_splitOn : ∀ (s : Str), ∀ l ∈ s.splitOn '.', '.' ∉ l
  | [] => by simp
  | x :: s => by
    have ih := dotless_splitOn s
    rw [List.splitOn_cons_eq_if_modifyHead]
    split
    · simpa using ih
    · rename_i hx
      obtain ⟨l, rest, hs⟩ := List.exists_cons_of_ne_nil (List.splitOn_ne_nil '.' s)
      rw [hs] at ih ⊢
      intro l' hl'
      rcases List.mem_cons.1 hl' with rfl | hl'
      · have hx' : ¬ '.' = x := fun he => hx (beq_iff_eq.2 he.symm)
        simpa [hx'] using ih l (by simp)
      · exact ih l' (List.mem_cons_of_mem _ hl')

theorem length_splitOn : ∀ (s : Str), (s.splitOn '.').length = s.count '.' + 1
  | [] => rfl
  | x :: s => by
    rw [List.splitOn_cons_eq_if_modifyHead, List.count_cons]
    split
    · rw [List.length_cons, length_splitOn s]
    · rw [List.length_modifyHead, length_splitOn s, Nat.add_zero]

theorem joinDots_splitOn (s : Str) : joinDots (s.splitOn '.') = s := List.intercalate_splitOn '.'

theorem getElem?_suffixes : ∀ (labels : List Str) (k : Nat),
    (suffixes labels)[k]? = if k + 2 ≤ labels.length then some (joinDots (labels.drop k)) else none
  | [], k => by simp [suffixes]
  | [l], k => by simp [suffixes]
  | l :: l' :: rest, 0 => by simp [suffixes]
  | l :: l' :: rest, k + 1 => by
    rw [suffixes, List.getElem?_cons_succ, getElem?_suffixes (l' :: rest) k]
    simp

theorem forM_iff {ε α : Type} {f : α → Except ε Unit} : ∀ {l : List α}, l.forM f = .ok () ↔ ∀ x ∈ l, f x = .ok ()
  | [] => by simp [pure, Except.pure]
  | y :: l => by
    have hcons : (y :: l).forM f = (f y >>= fun _ => l.forM f) := rfl
    rw [hcons, List.forall_mem_cons, ← forM_iff]
    cases hf : f y with
    | error e => simp [bind, Except.bind]
    | ok u => simp [bind, Except.bind]

/-- The labels of an accepted name are themselves accepted. -/
theorem validateLabel_of_validateFqdn {fqdn : Str} (h : validateFqdn fqdn = .ok ()) :
    ∀ label ∈ (trimDots fqdn).splitOn '.', validateLabel fqdn label = .ok () := by
  unfold validateFqdn at h
  simp only at h
  split at h
  · cases h
  · exact forM_iff.1 h

theorem label_ne_nil {fqdn label : Str} (h : validateLabel fqdn label = .ok ()) : label ≠ [] := by
  rintro rfl
  cases h

/-- In an accepted name, the relative name is never empty. -/
theorem relativeName_ne_nil {fqdn zone rname : Str} (hf : validateFqdn fqdn = .ok ())
    (h : relativeName (normalizeName fqdn) zone = .ok rname) : rname ≠ [] := by
  rintro rfl
  have hname : trimDots (normalizeName fqdn) = lower (trimDots fqdn) := trimDots_normalizeName fqdn
  -- the name would start with a dot
  have hdot : lower (trimDots fqdn) = '.' :: trimDots zone := by
    simp only [relativeName, hname] at h
    split at h
    · cases h
    · split at h
      · rename_i rname hr
        obtain rfl : rname = [] := by simpa using h
        obtain ⟨s', hs, he⟩ := List.dropSuffix?_eq_some_iff.1 hr
        rw [hs, eq_of_beq he, List.nil_append]
      · cases h
  cases ht : trimDots fqdn with
  | nil => rw [ht] at hdot; cases hdot
  | cons c rest =>
    rw [ht] at hdot
    obtain rfl : c = '.' := toLower_eq_dot.1 (List.cons.inj hdot).1
    have hmem : [] ∈ (trimDots fqdn).splitOn '.' := by
      rw [ht, List.splitOn_cons_eq_if_modifyHead]
      simp
    exact label_ne_nil (validateLabel_of_validateFqdn hf [] hmem) rfl

theorem nameChars_of_acme {v : Str} (h : validateAcmeValue v = .ok ()) : v.all isNameChar = true := by
  unfold validateAcmeValue at h
  by_contra hne
  rw [Bool.not_eq_true] at hne
  by_cases hlen : (v.isEmpty || decide (Text.utf8Len v > 128)) = true
  · rw [if_pos hlen] at h
    cases h
  · rw [if_neg hlen, hne] at h
    cases h

/-- An ACME value has no quotes to trim. -/
theorem trimQuotes_of_acme {v : Str} (h : validateAcmeValue v = .ok ()) : trimQuotes v = v := by
  have hall : ∀ c ∈ v, c ≠ '"' := by
    intro c hc
    have hchar := List.all_eq_true.1 (nameChars_of_acme h) c hc
    rintro rfl
    revert hchar
    decide
  have hfront : v.dropWhile (· == '"') = v := by
    cases v with
    | nil => rfl
    | cons c v => simp [hall c (by simp)]
  rw [trimQuotes, hfront, List.rdropWhile_eq_self_iff]
  intro hne
  simpa using hall _ (List.getLast_mem hne)

theorem not_isWhitespace {c : Char} (h : isNameChar c = true) : isWhitespace c = false := by
  have hrange : 45 ≤ c.toNat ∧ c.toNat ≤ 122 := by
    simp only [isNameChar, Char.isAlphanum, Char.isAlpha, Char.isUpper, Char.isLower, Char.isDigit, Bool.or_eq_true,
      Bool.and_eq_true, decide_eq_true_eq, beq_iff_eq, UInt32.le_iff_toNat_le] at h
    rcases h with (((h | h) | h) | rfl) | rfl
    · simp at h
      omega
    · simp at h
      omega
    · simp at h
      omega
    · decide
    · decide
  simp [isWhitespace, UInt32.le_iff_toNat_le, ← UInt32.toNat_inj]
  omega

theorem trim_of_forall {s : Str} (h : ∀ c ∈ s, isWhitespace c = false) : trim s = s := by
  have hfront : s.dropWhile isWhitespace = s := by
    cases s with
    | nil => rfl
    | cons c s => simp [h c (by simp)]
  rw [trim, hfront, List.rdropWhile_eq_self_iff]
  intro hne
  simpa using h _ (List.getLast_mem hne)

theorem trim_of_acme {v : Str} (h : validateAcmeValue v = .ok ()) : trim v = v :=
  trim_of_forall fun c hc => not_isWhitespace (List.all_eq_true.1 (nameChars_of_acme h) c hc)

theorem unquote_of_acme {v : Str} (h : validateAcmeValue v = .ok ()) : unquote v = v := by
  unfold unquote
  rw [trim_of_acme h]
  split
  · have hchar := List.all_eq_true.1 (nameChars_of_acme h) '"' (by simp)
    exact absurd hchar (by decide)
  · rfl

theorem trimQuotes_quote (v : Str) : trimQuotes (quote v) = trimQuotes v := by
  have hfront : (quote v).dropWhile (· == '"') = (v ++ ['"']).dropWhile (· == '"') := by simp [quote]
  rw [trimQuotes, trimQuotes, hfront, List.dropWhile_append]
  split
  · rename_i hnone
    rw [List.isEmpty_iff.1 hnone]
    rfl
  · exact List.rdropWhile_concat_pos _ _ _ (by simp)

theorem trim_quote (v : Str) : trim (quote v) = quote v := by
  have hq : isWhitespace '"' = false := by decide
  have hfront : (quote v).dropWhile isWhitespace = quote v := by simp [quote, hq]
  rw [trim, hfront, quote, ← List.cons_append]
  exact List.rdropWhile_concat_neg _ _ _ (by simp [hq])

@[simp] theorem unquote_quote (v : Str) : unquote (quote v) = v := by
  unfold unquote
  rw [trim_quote]
  simp [quote]

end Cheti
