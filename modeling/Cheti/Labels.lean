import Cheti.Base.Utf8
import Cheti.Names
/-!
# Names as lists of labels

A name denotes its labels: letter case and trailing dots do not matter (`labelsOf`). The tests the code
makes on text (a name is a zone or ends in a dot and the zone) are suffix tests on labels
(`within_iff_suffix`), and an accepted name is one whose labels are accepted (`validateFqdn_iff`).
-/

namespace Cheti

def labelsOf (name : Str) : List Str := (normalizeName name).splitOn '.'

theorem joinDots_labelsOf (name : Str) : joinDots (labelsOf name) = normalizeName name := joinDots_splitOn _

theorem labelsOf_inj {a b : Str} : labelsOf a = labelsOf b ↔ normalizeName a = normalizeName b := by
  constructor
  · intro h
    rw [← joinDots_labelsOf a, ← joinDots_labelsOf b, h]
  · intro h
    rw [labelsOf, labelsOf, h]

theorem joinDots_append {ls ms : List Str} (hl : ls ≠ []) (hm : ms ≠ []) :
    joinDots (ls ++ ms) = joinDots ls ++ '.' :: joinDots ms := by
  induction ls with
  | nil => exact absurd rfl hl
  | cons l ls ih =>
    cases ls with
    | nil =>
      obtain ⟨m, ms, rfl⟩ := List.exists_cons_of_ne_nil hm
      simp [joinDots]
    | cons l' ls =>
      have ih := ih (List.cons_ne_nil l' ls)
      rw [List.cons_append, List.cons_append, joinDots_cons, ← List.cons_append, ih, joinDots_cons, List.append_assoc]
      rfl

/-- **At or below a zone**, on text and on labels. -/
theorem within_iff_suffix {name zone : Str} : Within name zone ↔ zone.splitOn '.' <:+ name.splitOn '.' := by
  constructor
  · rintro (rfl | ⟨labels, rfl⟩)
    · exact List.suffix_refl _
    · rw [List.splitOn_append_cons_self]
      exact List.suffix_append _ _
  · rintro ⟨front, h⟩
    by_cases hfront : front = []
    · refine Or.inl ?_
      rw [← joinDots_splitOn name, ← h, hfront, List.nil_append, joinDots_splitOn]
    · refine Or.inr ⟨joinDots front, ?_⟩
      rw [← joinDots_splitOn name, ← h, joinDots_append hfront (List.splitOn_ne_nil _ _), joinDots_splitOn]

/-! ## Accepted names -/

structure LabelOk (label : Str) : Prop where
  ne_nil : label ≠ []
  short : Text.utf8Len label ≤ 63
  chars : ∀ c ∈ label, isNameChar c = true

/-- `if c { return Err(e); }` and what follows. -/
theorem ite_throw_bind_iff {ε α β : Type} {c : Prop} [Decidable c] {e : ε} {k : β → Except ε α} {y : Except ε α} {a : α} :
    (if c then throw e >>= k else y) = .ok a ↔ ¬ c ∧ y = .ok a := by
  by_cases hc : c
  · simp only [hc, not_true_eq_false, false_and, iff_false]
    exact nofun
  · simp [hc]

theorem ite_throw_iff {ε α : Type} {c : Prop} [Decidable c] {e : ε} {y : Except ε α} {a : α} :
    (if c then throw e else y) = .ok a ↔ ¬ c ∧ y = .ok a := by
  by_cases hc : c
  · simp only [hc, not_true_eq_false, false_and, iff_false]
    exact nofun
  · simp [hc]

theorem validateLabel_iff {fqdn label : Str} : validateLabel fqdn label = .ok () ↔ LabelOk label := by
  unfold validateLabel
  rw [ite_throw_bind_iff, ite_throw_bind_iff, ite_throw_iff]
  simp only [Bool.or_eq_true, List.isEmpty_iff, decide_eq_true_eq, not_or, Nat.not_lt, gt_iff_lt,
    List.contains_iff_mem, Bool.not_eq_true', Bool.not_eq_false, List.all_eq_true]
  constructor
  · rintro ⟨⟨hne, hlen⟩, -, hchars, -⟩
    exact ⟨hne, hlen, hchars⟩
  · rintro ⟨hne, hlen, hchars⟩
    refine ⟨⟨hne, hlen⟩, fun hnul => ?_, hchars, rfl⟩
    -- the null byte is not one of the characters allowed
    have := hchars _ hnul
    revert this
    decide

/-- **An accepted name.** -/
structure NameOk (labels : List Str) : Prop where
  label : ∀ l ∈ labels, LabelOk l
  short : Text.utf8Len (joinDots labels) ≤ 253

theorem validateFqdn_iff {fqdn : Str} : validateFqdn fqdn = .ok () ↔ NameOk ((trimDots fqdn).splitOn '.') := by
  unfold validateFqdn
  rw [ite_throw_bind_iff]
  simp only [Bool.or_eq_true, List.isEmpty_iff, decide_eq_true_eq, not_or, Nat.not_lt, gt_iff_lt]
  constructor
  · rintro ⟨⟨-, hlen⟩, hlabels⟩
    refine ⟨fun l hl => validateLabel_iff.1 (forM_iff.1 hlabels l hl), ?_⟩
    rwa [joinDots_splitOn]
  · rintro ⟨hlabels, hlen⟩
    rw [joinDots_splitOn] at hlen
    refine ⟨⟨fun hnil => ?_, hlen⟩, forM_iff.2 fun l hl => validateLabel_iff.2 (hlabels l hl)⟩
    -- an empty name has an empty label
    exact (hlabels [] (by simp [hnil])).ne_nil rfl

/-! ## Letter case -/

theorem isNameChar_iff {c : Char} : isNameChar c = true ↔ 65 ≤ c.toNat ∧ c.toNat ≤ 90 ∨ 97 ≤ c.toNat ∧ c.toNat ≤ 122 ∨
    48 ≤ c.toNat ∧ c.toNat ≤ 57 ∨ c.toNat = 45 ∨ c.toNat = 95 := by
  have hdash : c = '-' ↔ c.toNat = 45 := by rw [← Char.toNat_inj]; rfl
  have hline : c = '_' ↔ c.toNat = 95 := by rw [← Char.toNat_inj]; rfl
  simp [isNameChar, Char.isAlphanum, Char.isAlpha, Char.isUpper, Char.isLower, Char.isDigit, hdash, hline,
    UInt32.le_iff_toNat_le, or_assoc]

theorem toNat_toLower (c : Char) :
    c.toLower.toNat = if 65 ≤ c.toNat ∧ c.toNat ≤ 90 then c.toNat + 32 else c.toNat := by
  unfold Char.toLower
  have hup : c.val ≥ 'A'.val ∧ c.val ≤ 'Z'.val ↔ 65 ≤ c.toNat ∧ c.toNat ≤ 90 := by
    simp [UInt32.le_iff_toNat_le]
  by_cases hc : 65 ≤ c.toNat ∧ c.toNat ≤ 90
  · rw [dif_pos (hup.2 hc), if_pos hc]
    have hadd : (c.val + ('a'.val - 'A'.val)).toNat = (c.toNat + 32) % 2 ^ 32 := UInt32.toNat_add ..
    exact hadd.trans (Nat.mod_eq_of_lt (by omega))
  · rw [dif_neg (mt hup.1 hc), if_neg hc]

theorem isNameChar_toLower {c : Char} (h : isNameChar c = true) : isNameChar c.toLower = true := by
  rw [isNameChar_iff, toNat_toLower]
  rw [isNameChar_iff] at h
  split <;> omega

theorem utf8Size_of_isNameChar {c : Char} (h : isNameChar c = true) : c.utf8Size = 1 := by
  rw [isNameChar_iff] at h
  have hval : c.val.toNat ≤ 127 := by
    have : c.val.toNat = c.toNat := rfl
    omega
  exact if_pos (UInt32.le_iff_toNat_le.2 hval)

theorem splitOn_lower : ∀ (s : Str), (lower s).splitOn '.' = (s.splitOn '.').map lower
  | [] => rfl
  | c :: s => by
    have ih := splitOn_lower s
    have hcons : lower (c :: s) = c.toLower :: lower s := rfl
    obtain ⟨l, rest, hs⟩ := List.exists_cons_of_ne_nil (List.splitOn_ne_nil '.' s)
    rw [hcons, List.splitOn_cons_eq_if_modifyHead, List.splitOn_cons_eq_if_modifyHead, ih]
    by_cases hc : c = '.'
    · simp [hc, toLower_eq_dot.2, lower]
    · have hc' : ¬ c.toLower = '.' := fun h => hc (toLower_eq_dot.1 h)
      simp [hc, hc', hs, lower]

theorem LabelOk.lower {l : Str} (h : LabelOk l) : LabelOk (lower l) := by
  have hchars : ∀ c ∈ Cheti.lower l, isNameChar c = true := by
    intro c hc
    obtain ⟨c', hc', rfl⟩ := List.mem_map.1 hc
    exact isNameChar_toLower (h.chars c' hc')
  have hlen : Text.utf8Len (Cheti.lower l) = Text.utf8Len l := by
    rw [Text.utf8Len_of_ascii fun c hc => utf8Size_of_isNameChar (hchars c hc),
      Text.utf8Len_of_ascii fun c hc => utf8Size_of_isNameChar (h.chars c hc), Cheti.lower, List.length_map]
  exact ⟨by simpa [Cheti.lower] using h.ne_nil, hlen ▸ h.short, hchars⟩

/-! ## Suffixes of accepted names -/

theorem LabelOk.dotless {l : Str} (h : LabelOk l) : '.' ∉ l := by
  intro hdot
  have := h.chars _ hdot
  revert this
  decide

theorem NameOk.isLabels {labels : List Str} (h : NameOk labels) (hne : labels ≠ []) : IsLabels labels :=
  ⟨hne, fun l hl => (h.label l hl).dotless, fun l hl => (h.label l hl).ne_nil⟩

theorem utf8Len_append (s t : Str) : Text.utf8Len (s ++ t) = Text.utf8Len s + Text.utf8Len t := by
  simp [Text.utf8Len]

theorem mem_joinDots {c : Char} : ∀ {labels : List Str}, c ∈ joinDots labels → c = '.' ∨ ∃ l ∈ labels, c ∈ l
  | [], h => by simp [joinDots] at h
  | [l], h => Or.inr ⟨l, by simp, by simpa [joinDots] using h⟩
  | l :: l' :: rest, h => by
    rw [joinDots_cons, List.mem_append, List.mem_cons] at h
    rcases h with h | h | h
    · exact Or.inr ⟨l, by simp, h⟩
    · exact Or.inl h
    · refine (mem_joinDots h).imp_right ?_
      rintro ⟨m, hm, hc⟩
      exact ⟨m, List.mem_cons_of_mem l hm, hc⟩

theorem ascii_joinDots {labels : List Str} (h : ∀ l ∈ labels, LabelOk l) : ∀ c ∈ joinDots labels, c.utf8Size = 1 := by
  intro c hc
  rcases mem_joinDots hc with rfl | ⟨l, hl, hc⟩
  · decide
  · exact utf8Size_of_isNameChar ((h l hl).chars c hc)

theorem NameOk.utf8Len {labels : List Str} (h : NameOk labels) :
    Text.utf8Len (joinDots labels) = (joinDots labels).length := Text.utf8Len_of_ascii (ascii_joinDots h.label)

theorem nameOk_labelsOf {fqdn : Str} (h : validateFqdn fqdn = .ok ()) : NameOk (labelsOf fqdn) := by
  have hok := validateFqdn_iff.1 h
  have hlabels : labelsOf fqdn = ((trimDots fqdn).splitOn '.').map lower := splitOn_lower _
  have hlabel : ∀ l ∈ labelsOf fqdn, LabelOk l := by
    intro l hl
    rw [hlabels] at hl
    obtain ⟨l', hl', rfl⟩ := List.mem_map.1 hl
    exact (hok.label l' hl').lower
  refine ⟨hlabel, ?_⟩
  have hlen := hok.short
  rw [hok.utf8Len, joinDots_splitOn] at hlen
  rw [Text.utf8Len_of_ascii (ascii_joinDots hlabel), joinDots_labelsOf, normalizeName, lower, List.length_map]
  exact hlen

theorem NameOk.drop {labels : List Str} (h : NameOk labels) (k : Nat) : NameOk (labels.drop k) := by
  refine ⟨fun l hl => h.label l (List.mem_of_mem_drop hl), ?_⟩
  by_cases htake : labels.take k = []
  · have hdrop : labels.drop k = labels := by
      conv_rhs => rw [← List.take_append_drop k labels, htake, List.nil_append]
    rw [hdrop]
    exact h.short
  · by_cases hdrop : labels.drop k = []
    · simp [hdrop, joinDots, Text.utf8Len]
    · have hlen := h.short
      rw [← List.take_append_drop k labels, joinDots_append htake hdrop, utf8Len_append] at hlen
      have hcons : Text.utf8Len (joinDots (labels.drop k)) ≤ Text.utf8Len ('.' :: joinDots (labels.drop k)) := by
        simp [Text.utf8Len]
      omega

/-- A name ends with its last label. -/
theorem last_joinDots : ∀ {labels : List Str}, IsLabels labels → ∃ s x, joinDots labels = s ++ [x] ∧ x ≠ '.'
  | [], h => absurd rfl h.ne_nil
  | [l], h => by
    have hl : l ≠ [] := h.nonempty l (by simp)
    refine ⟨l.dropLast, l.getLast hl, by simp [joinDots, List.dropLast_append_getLast hl], fun he => ?_⟩
    exact h.dotless l (by simp) (he ▸ List.getLast_mem hl)
  | l :: l' :: rest, h => by
    obtain ⟨s, x, hs, hx⟩ := last_joinDots h.tail
    exact ⟨l ++ '.' :: s, x, by simp [joinDots_cons, hs], hx⟩

theorem trimDots_joinDots {labels : List Str} (h : IsLabels labels) : trimDots (joinDots labels) = joinDots labels := by
  obtain ⟨s, x, hs, hx⟩ := last_joinDots h
  rw [hs, trimDots]
  exact List.rdropWhile_concat_neg _ _ _ (by simpa using hx)

/-- A suffix with at least two labels is accepted as a zone. -/
theorem validateZone_joinDots {labels : List Str} (h : NameOk labels) (h2 : 2 ≤ labels.length) :
    validateZone (joinDots labels) = .ok () := by
  have hlabels : IsLabels labels := h.isLabels (List.ne_nil_of_length_pos (by omega))
  have hsplit : (trimDots (joinDots labels)).splitOn '.' = labels := by
    rw [trimDots_joinDots hlabels]
    exact List.splitOn_intercalate '.' hlabels.dotless hlabels.ne_nil
  have hfqdn : validateFqdn (joinDots labels) = .ok () := validateFqdn_iff.2 (by rwa [hsplit])
  have hdot : '.' ∈ trimDots (joinDots labels) := by
    have hlen := length_splitOn (trimDots (joinDots labels))
    rw [hsplit] at hlen
    exact List.count_pos_iff.1 (by omega)
  unfold validateZone
  simp [hfqdn, hdot]

/-! ## Relative names -/

theorem relativeName_eq_ok {fqdn zone rname : Str} : relativeName fqdn zone = .ok rname ↔
    trimDots fqdn = trimDots zone ∧ rname = "@".toList ∨
      trimDots fqdn ≠ trimDots zone ∧ trimDots fqdn = rname ++ '.' :: trimDots zone := by
  unfold relativeName
  simp only
  by_cases hapex : trimDots fqdn = trimDots zone
  · simp [hapex, eq_comm]
  · rw [if_neg hapex]
    simp only [hapex, false_and, false_or, ne_eq, not_false_eq_true, true_and]
    cases hdrop : (trimDots fqdn).dropSuffix? ('.' :: trimDots zone) with
    | some front =>
      obtain ⟨s', hs, he⟩ := List.dropSuffix?_eq_some_iff.1 hdrop
      rw [eq_of_beq he] at hs
      rw [hs]
      simp [eq_comm]
    | none =>
      refine iff_of_false nofun fun h => ?_
      have hsome : (trimDots fqdn).dropSuffix? ('.' :: trimDots zone) = some rname :=
        List.dropSuffix?_eq_some_iff.2 ⟨_, h, by simp⟩
      rw [hdrop] at hsome
      cases hsome

theorem trimDots_lower (fqdn : Str) : trimDots (lower fqdn) = normalizeName fqdn := (lower_trimDots fqdn).symm

theorem isNameChar_of_mem {fqdn : Str} (h : validateFqdn fqdn = .ok ()) {c : Char} (hc : c ∈ fqdn) :
    c = '.' ∨ isNameChar c = true := by
  rw [← List.rdropWhile_append_rtakeWhile (p := (· == '.')) (l := fqdn), List.mem_append] at hc
  rcases hc with hc | hc
  · rw [show fqdn.rdropWhile (· == '.') = _ from (joinDots_splitOn _).symm] at hc
    refine (mem_joinDots hc).imp_right ?_
    rintro ⟨l, hl, hcl⟩
    exact ((validateFqdn_iff.1 h).label l hl).chars c hcl
  · exact Or.inl (by simpa using List.mem_rtakeWhile_imp hc)

/-- The apex is not written like a label. -/
theorem not_mem_normalizeName {fqdn : Str} (h : validateFqdn fqdn = .ok ()) : '@' ∉ normalizeName fqdn := by
  intro hmem
  rw [← joinDots_labelsOf] at hmem
  rcases mem_joinDots hmem with hdot | ⟨l, hl, hc⟩
  · revert hdot
    decide
  · have hchar := ((nameOk_labelsOf h).label l hl).chars _ hc
    revert hchar
    decide

end Cheti
