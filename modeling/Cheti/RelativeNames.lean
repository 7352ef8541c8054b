import Cheti.Labels
import Cheti.Providers.Bunny
import Cheti.Providers.Desec
import Cheti.Providers.Infomaniak
import Cheti.Providers.Porkbun
/-!
# `relative_name` splits a name at a label (src/providers/common.rs:235-245)

The code cuts text: it strips `.` and the zone from the end of the name. On accepted names that is a cut of
the list of labels (`splitsAtLabel`): it works exactly on names in the zone, `@` is the zone itself and
nothing else, and the name can be put together again from the two parts.

`is_suffix` (bunny.rs:284-289) makes the same test on bytes. `isSuffixChecked` is the function with its
bounds: `none` is a panic. There is none for any two texts, because the byte before the slice is a dot, and
after a dot a character starts.
-/

namespace Cheti

/-! ## Labels as they are written -/

/-- The labels in the letter case they are written in. -/
def writtenLabels (name : Str) : List Str := (trimDots name).splitOn '.'

/-- The same name, up to trailing dots. -/
def SameName (a b : Str) : Prop := trimDots a = trimDots b

theorem joinDots_writtenLabels (name : Str) : joinDots (writtenLabels name) = trimDots name := joinDots_splitOn _

theorem NameOk.of_append {ls ms : List Str} (h : NameOk (ls ++ ms)) : NameOk ls := by
  refine ⟨fun l hl => h.label l (List.mem_append_left _ hl), ?_⟩
  by_cases hl : ls = []
  · simp [hl, joinDots, Text.utf8Len]
  · by_cases hm : ms = []
    · simpa [hm] using h.short
    · have hlen := h.short
      rw [joinDots_append hl hm, utf8Len_append] at hlen
      omega

theorem validateFqdn_joinDots {labels : List Str} (h : NameOk labels) (hne : labels ≠ []) :
    validateFqdn (joinDots labels) = .ok () := by
  have hlabels := h.isLabels hne
  refine validateFqdn_iff.2 ?_
  rw [trimDots_joinDots hlabels]
  have hsplit : (joinDots labels).splitOn '.' = labels := List.splitOn_intercalate '.' hlabels.dotless hlabels.ne_nil
  rwa [hsplit]

/-- An accepted name has no label like `@`. -/
theorem at_not_accepted : validateFqdn "@".toList ≠ .ok () := by
  intro h
  have hchar := (validateFqdn_iff.1 h).label "@".toList (by decide)
  exact absurd (hchar.chars '@' (by decide)) (by decide)

variable {f z r : Str}

theorem within_of_relativeName (h : relativeName f z = .ok r) : Within (trimDots f) (trimDots z) := by
  rcases relativeName_eq_ok.1 h with ⟨heq, -⟩ | ⟨-, happend⟩
  · exact Or.inl heq
  · exact Or.inr ⟨r, happend⟩

/-- The part in front of the zone is the labels in front of it. -/
theorem labels_of_relativeName (h : relativeName f z = .ok r) (hne : ¬ SameName f z) :
    ∃ front, front ≠ [] ∧ r = joinDots front ∧ writtenLabels f = front ++ writtenLabels z := by
  rcases relativeName_eq_ok.1 h with ⟨heq, -⟩ | ⟨-, happend⟩
  · exact absurd heq hne
  · refine ⟨r.splitOn '.', List.splitOn_ne_nil _ _, (joinDots_splitOn r).symm, ?_⟩
    rw [writtenLabels, happend, List.splitOn_append_cons_self]
    rfl

theorem relativeName_apex_iff (hf : validateFqdn f = .ok ()) (h : relativeName f z = .ok r) :
    r = "@".toList ↔ SameName f z := by
  constructor
  · intro hr
    by_contra hne
    obtain ⟨front, hfront, hjoin, hlabels⟩ := labels_of_relativeName h hne
    have hok : NameOk front := by
      have hall := validateFqdn_iff.1 hf
      rw [← writtenLabels, hlabels] at hall
      exact hall.of_append
    refine at_not_accepted ?_
    rw [← hr, hjoin]
    exact validateFqdn_joinDots hok hfront
  · intro hsame
    rcases relativeName_eq_ok.1 h with ⟨-, hr⟩ | ⟨hne, -⟩
    · exact hr
    · exact absurd hsame hne

/-- Below the zone, the relative name is a name of its own. -/
theorem relativeName_below (hf : validateFqdn f = .ok ()) (h : relativeName f z = .ok r) (hne : ¬ SameName f z) :
    r ≠ [] ∧ validateFqdn r = .ok () ∧ r ++ '.' :: trimDots z = trimDots f := by
  obtain ⟨front, hfront, hjoin, hlabels⟩ := labels_of_relativeName h hne
  have hall := validateFqdn_iff.1 hf
  rw [← writtenLabels, hlabels] at hall
  have hr : validateFqdn r = .ok () := hjoin ▸ validateFqdn_joinDots hall.of_append hfront
  refine ⟨?_, hr, ?_⟩
  · rintro rfl
    cases hr
  · rcases relativeName_eq_ok.1 h with ⟨heq, -⟩ | ⟨-, happend⟩
    · exact absurd heq hne
    · exact happend.symm

theorem relativeName_eq_iff {f' r' : Str} (hf : validateFqdn f = .ok ()) (hf' : validateFqdn f' = .ok ())
    (h : relativeName f z = .ok r) (h' : relativeName f' z = .ok r') : r = r' ↔ SameName f f' := by
  constructor
  · rintro rfl
    by_cases hsame : SameName f z
    · have hr := (relativeName_apex_iff hf h).2 hsame
      exact hsame.trans ((relativeName_apex_iff hf' h').1 hr).symm
    · have hsame' : ¬ SameName f' z := fun hz => hsame ((relativeName_apex_iff hf h).1 ((relativeName_apex_iff hf' h').2 hz))
      have hjoin := (relativeName_below hf h hsame).2.2
      exact hjoin.symm.trans (relativeName_below hf' h' hsame').2.2
  · intro hsame
    have heq : relativeName f z = relativeName f' z := by
      rw [← relativeName_trimDots, hsame, relativeName_trimDots]
    rw [heq, h'] at h
    cases h
    rfl

/-- The spelling of the apex that a provider puts in place of `@` is that of no other name. -/
theorem apexSpelling_iff (hf : validateFqdn f = .ok ()) (h : relativeName f z = .ok r) {apex : Str}
    (hapex : validateFqdn apex ≠ .ok ()) : (if r = "@".toList then apex else r) = apex ↔ SameName f z := by
  rw [← relativeName_apex_iff hf h]
  by_cases hr : r = "@".toList
  · simp [hr]
  · rw [if_neg hr]
    refine iff_of_false ?_ hr
    rintro rfl
    have hne : ¬ SameName f z := fun hsame => hr ((relativeName_apex_iff hf h).2 hsame)
    exact hapex (relativeName_below hf h hne).2.1

/-! ## Bytes -/

theorem utf8Size_toLower (c : Char) : c.toLower.utf8Size = c.utf8Size := by
  by_cases hup : 65 ≤ c.toNat ∧ c.toNat ≤ 90
  · have hlow : c.toLower.toNat = c.toNat + 32 := by rw [toNat_toLower, if_pos hup]
    have hone : ∀ d : Char, d.toNat ≤ 127 → d.utf8Size = 1 := by
      intro d hd
      rw [Char.utf8Size_eq_one_iff, UInt32.le_iff_toNat_le]
      exact hd
    rw [hone c (by omega), hone c.toLower (by omega)]
  · have hsame : c.toLower = c := by rw [← Char.toNat_inj, toNat_toLower, if_neg hup]
    rw [hsame]

/-- A slice that begins after a dot and reaches to the end. -/
theorem dot_before_drop {n z : Str} {len : Nat} :
    len < n.length ∧ n[n.length - len - 1]? = some '.' ∧ n.drop (n.length - len) = z ↔
      z.length = len ∧ ∃ front, n = front ++ '.' :: z := by
  constructor
  · rintro ⟨hlt, hdot, rfl⟩
    refine ⟨by rw [List.length_drop]; omega, n.take (n.length - len - 1), ?_⟩
    obtain ⟨hi, hdot⟩ := List.getElem?_eq_some_iff.1 hdot
    have hsplit := List.drop_eq_getElem_cons hi
    have hnext : n.length - len - 1 + 1 = n.length - len := by omega
    rw [hnext, hdot] at hsplit
    rw [← hsplit, List.take_append_drop]
  · rintro ⟨rfl, front, rfl⟩
    have hstart : (front ++ '.' :: z).length - z.length = front.length + 1 := by
      rw [List.length_append, List.length_cons]
      omega
    have happend : front ++ '.' :: z = (front ++ ['.']) ++ z := by simp
    refine ⟨by rw [List.length_append, List.length_cons]; omega, ?_, ?_⟩
    · rw [hstart]
      simp
    · rw [hstart, happend, List.drop_left' (by simp)]

namespace Bunny

/-- `is_suffix` with its bounds: the index into the bytes, and the slice, which has to begin at a character. -/
def isSuffixChecked (name zone : Str) : Option Bool :=
  if eqIgnoreCase name zone then some true
  else if Text.utf8Len name > Text.utf8Len zone then do
    let before ← (Text.bytes name)[Text.utf8Len name - Text.utf8Len zone - 1]?
    if before == '.'.val.toUInt8 then
      let slice ← Text.dropBytes name (Text.utf8Len name - Text.utf8Len zone)
      return eqIgnoreCase slice zone
    else return false
  else some false

/-- **No panic**, whatever the two texts are. -/
theorem isSuffixChecked_ne_none (name zone : Str) : isSuffixChecked name zone ≠ none := by
  unfold isSuffixChecked
  split
  · simp
  · split
    · rename_i hlt
      have hi : Text.utf8Len name - Text.utf8Len zone - 1 < (Text.bytes name).length := by
        rw [Text.length_bytes]
        omega
      have hbyte := List.getElem?_eq_getElem hi
      rw [hbyte, Option.bind_eq_bind, Option.bind_some]
      split
      · rename_i hdot
        rw [beq_iff_eq] at hdot
        rw [hdot] at hbyte
        obtain ⟨slice, hslice⟩ := Text.dropBytes_after_ascii (by decide) hbyte
        have hnext : Text.utf8Len name - Text.utf8Len zone - 1 + 1 = Text.utf8Len name - Text.utf8Len zone := by omega
        rw [hnext] at hslice
        simp [hslice]
      · simp
    · simp

theorem isSuffixChecked_eq {name zone : Str} (h : ∀ c ∈ name, c.utf8Size = 1) :
    isSuffixChecked name zone = some (isSuffix name zone) := by
  unfold isSuffixChecked isSuffix
  by_cases heq : eqIgnoreCase name zone = true
  · simp [heq]
  · simp only [heq, Bool.false_or]
    rw [Text.bytes_of_ascii h, Text.utf8Len_of_ascii h, Text.dropBytes_of_ascii h (Nat.sub_le _ _), List.getElem?_map]
    by_cases hlt : name.length > Text.utf8Len zone
    · obtain ⟨c, hc⟩ : ∃ c, name[name.length - Text.utf8Len zone - 1]? = some c :=
        ⟨_, List.getElem?_eq_getElem (by omega)⟩
      have hdot : (c.val.toUInt8 == '.'.val.toUInt8) = (some c == some '.') := by
        rw [Bool.eq_iff_iff, beq_iff_eq, beq_iff_eq, Option.some.injEq]
        exact Text.toUInt8_eq_iff (h c (List.mem_of_getElem? hc)) (by decide)
      simp only [hlt, decide_true, Bool.true_and, hc, Option.map_some, Option.bind_eq_bind, Option.bind_some]
      rw [hdot]
      cases some c == some '.' <;> rfl
    · simp [hlt]

/-- On names in ASCII, it is the zone itself or a parent domain, letter case aside. -/
theorem isSuffix_iff_within {name zone : Str} (h : ∀ c ∈ name, c.utf8Size = 1) :
    isSuffix name zone = true ↔ Within (lower name) (lower zone) := by
  have hlen : (lower name).length = name.length := List.length_map ..
  have hdot : ∀ i : Nat, name[i]? = some '.' ↔ (lower name)[i]? = some '.' := by
    intro i
    rw [lower, List.getElem?_map]
    cases name[i]? <;> simp [toLower_eq_dot]
  have hdrop : ∀ n : Nat, lower (name.drop n) = (lower name).drop n := fun n => List.map_drop ..
  unfold isSuffix
  simp only [Bool.or_eq_true, Bool.and_eq_true, decide_eq_true_eq, beq_iff_eq, eqIgnoreCase, Text.utf8Len_of_ascii h,
    hdrop, hdot, and_assoc, gt_iff_lt]
  rw [← hlen, dot_before_drop, Within]
  refine or_congr_right ⟨And.right, fun hfront => ⟨?_, hfront⟩⟩
  -- the zone is part of the name, so it is in ASCII too
  obtain ⟨front, happend⟩ := hfront
  have hzone : ∀ c ∈ zone, c.utf8Size = 1 := by
    intro c hc
    have hmem : c.toLower ∈ lower name := by
      rw [happend]
      exact List.mem_append_right _ (List.mem_cons_of_mem _ (List.mem_map_of_mem hc))
    obtain ⟨d, hd, heq⟩ := List.mem_map.1 hmem
    rw [← utf8Size_toLower c, ← heq, utf8Size_toLower d]
    exact h d hd
  rw [Text.utf8Len_of_ascii hzone]
  exact List.length_map ..

end Bunny

namespace Infomaniak

/-- The source of a record as the API wants it. -/
def source (rname : Str) : Str := if rname = "@".toList then ".".toList else rname

theorem createRecord_source (cfg : InfomaniakConfig) (zone rname value : Str) : ∃ decode,
    createRecord cfg zone rname value = request .post (.create zone ⟨source rname, txt, value, cfg.ttl⟩) decode := ⟨_, rfl⟩

end Infomaniak

/-! ## The split -/

/-- What a relative name tells of a name in a zone. -/
structure SplitsAtLabel (f z : Str) : Prop where
  ok_iff : (∃ r, relativeName f z = .ok r) ↔ writtenLabels z <:+ writtenLabels f
  apex : ∀ r, relativeName f z = .ok r → (r = "@".toList ↔ SameName f z)
  below : ∀ r, relativeName f z = .ok r → ¬ SameName f z →
    r ≠ [] ∧ validateFqdn r = .ok () ∧ r ++ '.' :: trimDots z = trimDots f
  injective : ∀ f', validateFqdn f' = .ok () → ∀ r r', relativeName f z = .ok r → relativeName f' z = .ok r' →
    (r = r' ↔ SameName f f')
  bunny : Bunny.bunnyName f z = .ok [] ↔ SameName f z
  porkbun : Porkbun.subdomainOf f z = .ok [] ↔ SameName f z
  desec : ∀ r, relativeName f z = .ok r → (Desec.subname r = [] ↔ SameName f z)
  infomaniak : ∀ r, relativeName f z = .ok r → (Infomaniak.source r = ".".toList ↔ SameName f z)
  in_bounds : ∀ d, Bunny.isSuffixChecked f d ≠ none
  isSuffix : trimDots f = f → ∀ d, trimDots d = d →
    (Bunny.isSuffixChecked f d = some true ↔ ∃ r, relativeName (lower f) (lower d) = .ok r)

theorem relativeName_ok_iff (f z : Str) : (∃ r, relativeName f z = .ok r) ↔ Within (trimDots f) (trimDots z) := by
  constructor
  · rintro ⟨r, h⟩
    exact within_of_relativeName h
  · exact relativeName_of_within

theorem emptyApex_iff (hf : validateFqdn f = .ok ()) :
    (do let r ← relativeName f z; return if r = "@".toList then [] else r) = (.ok [] : Except DnsError Str) ↔
      SameName f z := by
  simp only [bind_eq_ok, pure_eq_ok, Except.ok.injEq]
  constructor
  · rintro ⟨r, h, hnil⟩
    exact (apexSpelling_iff hf h (by decide)).1 hnil
  · intro hsame
    obtain ⟨r, h⟩ := (relativeName_ok_iff f z).2 (Or.inl hsame)
    exact ⟨r, h, (apexSpelling_iff hf h (by decide)).2 hsame⟩

/-- **The relative name is an exact and injective split at a label**, of an accepted name and at any zone: the
zone needs no check of its own, since the labels it shares with the name have passed. -/
theorem splitsAtLabel (hf : validateFqdn f = .ok ()) : SplitsAtLabel f z := by
  have hascii : ∀ c ∈ trimDots f, c.utf8Size = 1 := by
    rw [← joinDots_writtenLabels]
    exact ascii_joinDots (validateFqdn_iff.1 hf).label
  constructor
  case ok_iff => rw [relativeName_ok_iff, within_iff_suffix]; rfl
  case apex => exact fun r h => relativeName_apex_iff hf h
  case below => exact fun r h => relativeName_below hf h
  case injective => exact fun f' hf' r r' h h' => relativeName_eq_iff hf hf' h h'
  case bunny => exact emptyApex_iff hf
  case porkbun => exact emptyApex_iff hf
  case desec => exact fun r h => apexSpelling_iff hf h (by decide)
  case infomaniak => exact fun r h => apexSpelling_iff hf h (by decide)
  case in_bounds => exact Bunny.isSuffixChecked_ne_none f
  case isSuffix =>
    intro htrim d htrim'
    rw [htrim] at hascii
    have hlower : ∀ {s : Str}, trimDots s = s → trimDots (lower s) = lower s := fun h => by rw [← lower_trimDots, h]
    rw [Bunny.isSuffixChecked_eq hascii, Option.some.injEq, Bunny.isSuffix_iff_within hascii, relativeName_ok_iff,
      hlower htrim, hlower htrim']

theorem splitsAtLabel_challenge : SplitsAtLabel "_acme-challenge.example.com.".toList "example.com".toList :=
  splitsAtLabel rfl

end Cheti
