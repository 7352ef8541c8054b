import Cheti.Base.LongestSuffix
import Cheti.Labels
import Cheti.Listing
/-!
# Zone lookups over an API

A provider that asks its API for the zones of the account is to find the one whose labels are the longest
suffix of the name's. `ZoneApi` is such a provider with the API's contract (`serves`), `Right` the result it
owes for a name, and `FindsLongest` says that it keeps to that whatever was looked up before: the only state
is the cache, which starts empty.

`wp_firstSome` and `wp_cached` are the rules for the loop over the candidates and for the cache. The cache
is sound if each entry is right for its name, and that is what the calls keep.
-/

namespace Cheti

open Fut LongestSuffix

/-! ## Labels of zones -/

section Names

variable {fqdn zone : Str}

theorem within_iff_labels : Within (normalizeName fqdn) (normalizeName zone) ↔ labelsOf zone <:+ labelsOf fqdn :=
  within_iff_suffix

/-- The name is in the zone. -/
theorem relativeName_of_suffix (h : labelsOf zone <:+ labelsOf fqdn) :
    ∃ rname, relativeName (lower fqdn) (normalizeName zone) = .ok rname := by
  apply relativeName_of_within
  rw [trimDots_lower, trimDots_normalizeName]
  exact within_iff_labels.2 h

theorem validateZone_of_suffix (hf : validateFqdn fqdn = .ok ()) (h : labelsOf zone <:+ labelsOf fqdn)
    (h2 : 2 ≤ (labelsOf zone).length) : validateZone (normalizeName zone) = .ok () := by
  have hdrop := List.suffix_iff_eq_drop.1 h
  have hok : NameOk (labelsOf zone) := hdrop ▸ (nameOk_labelsOf hf).drop _
  rw [← joinDots_labelsOf]
  exact validateZone_joinDots hok h2

theorem isLabels_drop (hf : validateFqdn fqdn = .ok ()) {k : Nat} (hk : k < (labelsOf fqdn).length) :
    IsLabels ((labelsOf fqdn).drop k) := by
  refine ((nameOk_labelsOf hf).drop k).isLabels ?_
  rw [ne_eq, List.drop_eq_nil_iff]
  omega

theorem splitOn_joinDots_drop (hf : validateFqdn fqdn = .ok ()) {k : Nat} (hk : k < (labelsOf fqdn).length) :
    (joinDots ((labelsOf fqdn).drop k)).splitOn '.' = (labelsOf fqdn).drop k :=
  List.splitOn_intercalate '.' (isLabels_drop hf hk).dotless (isLabels_drop hf hk).ne_nil

/-- A suffix of the labels of a name, as text. -/
theorem labelsOf_eq_drop_iff (hf : validateFqdn fqdn = .ok ()) {k : Nat} (hk : k < (labelsOf fqdn).length) :
    labelsOf zone = (labelsOf fqdn).drop k ↔ normalizeName zone = joinDots ((labelsOf fqdn).drop k) := by
  constructor
  · intro h
    rw [← joinDots_labelsOf, h]
  · intro h
    rw [labelsOf, h, splitOn_joinDots_drop hf hk]

/-- Of two zones one in the other, the inner has the longer name. -/
theorem utf8Len_lt_of_suffix {outer inner : Str} (h : labelsOf outer <:+ labelsOf inner)
    (hlt : (labelsOf outer).length < (labelsOf inner).length) :
    Text.utf8Len (normalizeName outer) < Text.utf8Len (normalizeName inner) := by
  rcases within_iff_labels.2 h with he | ⟨front, he⟩
  · rw [labelsOf_inj.2 he] at hlt
    exact absurd hlt (lt_irrefl _)
  · have hdot : Text.utf8Len ('.' :: normalizeName outer) = 1 + Text.utf8Len (normalizeName outer) := rfl
    rw [he, utf8Len_append, hdot]
    omega

theorem mem_suffixes {labels : List Str} {candidate : Str} : candidate ∈ suffixes labels ↔
    ∃ k, k + 2 ≤ labels.length ∧ joinDots (labels.drop k) = candidate := by
  rw [List.mem_iff_getElem?]
  refine exists_congr fun k => ?_
  rw [getElem?_suffixes]
  split <;> simp [*]

/-- A candidate is a name as they are normalized. -/
theorem normalizeName_candidate (hf : validateFqdn fqdn = .ok ()) {candidate : Str}
    (h : candidate ∈ suffixes (labelsOf fqdn)) : normalizeName candidate = candidate := by
  obtain ⟨k, hk, rfl⟩ := mem_suffixes.1 h
  have hlt : k < (labelsOf fqdn).length := by omega
  have hlower : ((labelsOf fqdn).drop k).map lower = (labelsOf fqdn).drop k := by
    have hall : (labelsOf fqdn).map lower = labelsOf fqdn := by
      rw [labelsOf, ← splitOn_lower, normalizeName, lower_lower]
    rw [List.map_drop, hall]
  have hsplit : (lower (joinDots ((labelsOf fqdn).drop k))).splitOn '.' = (labelsOf fqdn).drop k := by
    rw [splitOn_lower, splitOn_joinDots_drop hf hlt, hlower]
  rw [normalizeName, trimDots_joinDots (isLabels_drop hf hlt), ← joinDots_splitOn (lower _), hsplit]

/-- The candidates are the zones with at least two labels that have the name in them. -/
theorem normalizeName_mem_suffixes (hf : validateFqdn fqdn = .ok ()) (h2 : 2 ≤ (labelsOf zone).length) :
    normalizeName zone ∈ suffixes (labelsOf fqdn) ↔ labelsOf zone <:+ labelsOf fqdn := by
  rw [mem_suffixes]
  constructor
  · rintro ⟨k, hk, hz⟩
    rw [(labelsOf_eq_drop_iff hf (by omega)).2 hz.symm]
    exact List.drop_suffix _ _
  · intro h
    have hlen := h.length_le
    have hdrop := List.suffix_iff_eq_drop.1 h
    exact ⟨_, by omega, ((labelsOf_eq_drop_iff hf (by omega)).1 hdrop).symm⟩

end Names

/-! ## Accounts -/

section Account

variable {Z : Type} (name : Z → Str) (zones : List Z)

/-- Zones with different names, each of at least two labels. -/
structure Account : Prop where
  distinct : (zones.map fun z => labelsOf (name z)).Nodup
  twoLabels : ∀ z ∈ zones, 2 ≤ (labelsOf (name z)).length

/-- The zone of exactly that name. -/
def named (candidate : Str) : Option Z := zones.find? fun z => normalizeName (name z) = candidate

variable {name zones} {fqdn : Str}

theorem named_eq_some {candidate : Str} {z : Z} (h : named name zones candidate = some z) :
    z ∈ zones ∧ normalizeName (name z) = candidate :=
  ⟨List.mem_of_find?_eq_some h, by simpa using List.find?_some h⟩

theorem named_eq_none {candidate : Str} : named name zones candidate = none ↔
    ∀ z ∈ zones, normalizeName (name z) ≠ candidate := by simp [named]

/-- No second zone has the name. -/
theorem Account.filter_eq (h : Account name zones) (candidate : Str) :
    (zones.filter fun z => normalizeName (name z) = candidate) = (named name zones candidate).toList := by
  have hdistinct := h.distinct
  unfold named
  clear h
  induction zones with
  | nil => rfl
  | cons z zones ih =>
    rw [List.map_cons, List.nodup_cons] at hdistinct
    by_cases hz : normalizeName (name z) = candidate
    · have hrest : (zones.filter fun z => normalizeName (name z) = candidate) = [] := by
        rw [List.filter_eq_nil_iff]
        intro z' hz' he
        have he : normalizeName (name z') = candidate := by simpa using he
        exact hdistinct.1 (List.mem_map.2 ⟨z', hz', labelsOf_inj.2 (he.trans hz.symm)⟩)
      simp [hz, hrest]
    · simp only [List.filter_cons, List.find?_cons, hz, decide_false, Bool.false_eq_true, if_false]
      exact ih hdistinct.2

/-- **The walk down**: of the candidates, the longest first, the first that names a zone. -/
theorem Account.walkDown (h : Account name zones) (hf : validateFqdn fqdn = .ok ()) :
    match (suffixes (labelsOf fqdn)).findSome? (named name zones) with
    | some z => Longest (fun z => labelsOf (name z)) zones (labelsOf fqdn) z
    | none => NoMatch (fun z => labelsOf (name z)) zones (labelsOf fqdn) := by
  cases hfound : (suffixes (labelsOf fqdn)).findSome? (named name zones) with
  | some z =>
    obtain ⟨before, candidate, after, hlist, hz, hnone⟩ := List.findSome?_eq_some_iff.1 hfound
    obtain ⟨hmem, hname⟩ := named_eq_some hz
    have hat : (suffixes (labelsOf fqdn))[before.length]? = some candidate := by simp [hlist]
    rw [getElem?_suffixes] at hat
    split at hat
    case isFalse => cases hat
    case isTrue hk =>
      cases hat
      refine Longest.of_first hmem ((labelsOf_eq_drop_iff hf (by omega)).2 hname) fun j hj z' hz' hlabels => ?_
      have hearlier : (suffixes (labelsOf fqdn))[j]? = some (joinDots ((labelsOf fqdn).drop j)) := by
        rw [getElem?_suffixes, if_pos (by omega)]
      rw [hlist, List.getElem?_append_left hj] at hearlier
      have hnot := named_eq_none.1 (hnone _ (List.mem_of_getElem? hearlier)) z' hz'
      exact hnot ((labelsOf_eq_drop_iff hf (by omega)).1 hlabels)
  | none =>
    refine NoMatch.of_forall fun k z hz hlabels => ?_
    have h2 := h.twoLabels z hz
    have hlen := congrArg List.length hlabels
    rw [List.length_drop] at hlen
    have hcandidate : (suffixes (labelsOf fqdn))[k]? = some (joinDots ((labelsOf fqdn).drop k)) := by
      rw [getElem?_suffixes, if_pos (by omega)]
    have hnone := List.findSome?_eq_none_iff.1 hfound _ (List.mem_of_getElem? hcandidate)
    exact named_eq_none.1 hnone z hz ((labelsOf_eq_drop_iff hf (by omega)).1 hlabels)

end Account

/-! ## Lookups -/

section Lookups

variable {Q : Type} {B : Q → Type} {α β : Type}

/-- Every request is answered as the API's contract says; the cache is as it was left. -/
def zoneEnv (serves : (q : Q) → Response (B q) → Prop) : Env (Call Q) (Reply B) (Str → Option Str)
  | .send q, r, s, s' => (∃ resp, r = .ok resp ∧ serves q resp) ∧ s' = s
  | .cacheGet name, r, s, s' => r = s name ∧ s' = s
  | .cacheInsert name zone, _, s, s' => s' = Function.update s name (some zone)
  | .accessToken, r, s, s' => (∃ token, r = .ok token) ∧ s' = s
  | _, _, s, s' => s' = s

variable {serves : (q : Q) → Response (B q) → Prop} {s : Str → Option Str}

/-- Every call is answered. -/
theorem zoneEnv_answers (h : ∀ q, ∃ resp, serves q resp) (c : Call Q) (s : Str → Option Str) :
    ∃ r s', zoneEnv serves c r s s' := by
  cases c with
  | send q =>
    obtain ⟨resp, hresp⟩ := h q
    exact ⟨.ok resp, s, ⟨resp, rfl, hresp⟩, rfl⟩
  | cacheGet name => exact ⟨s name, s, rfl, rfl⟩
  | cacheInsert name zone => exact ⟨(), _, rfl⟩
  | accessToken => exact ⟨.ok [], s, ⟨[], rfl⟩, rfl⟩
  | findZone fqdn => exact ⟨.ok [], s, rfl⟩
  | now => exact ⟨0, s, rfl⟩
  | lock | unlock | sleep | forgetToken => exact ⟨(), s, rfl⟩

/-- A request that is answered for good. -/
theorem wp_ask {method : Method} {q : Q} {decode : Response (B q) → Except DnsError α} {Post : Except DnsError α → Prop}
    (hfinal : ∀ resp, serves q resp → ¬ Retryable method resp) (hpost : ∀ resp, serves q resp → Post (decode resp)) :
    wp (fun _ _ => True) (zoneEnv serves) (request method q decode : Prog Q B α).run (fun r s' => s' = s ∧ Post r) s := by
  refine wp_request_inv (I := (· = s)) rfl ?_ fun d s₁ hs₁ => ⟨trivial, fun _ s' h => h.trans hs₁⟩
  rintro s rfl
  refine ⟨trivial, fun r s' h => ?_⟩
  obtain ⟨⟨resp, rfl, hresp⟩, rfl⟩ := h
  refine ⟨nofun, fun resp' he => ?_⟩
  cases he
  exact ⟨⟨rfl, hpost resp hresp⟩, fun hretry => absurd hretry (hfinal resp hresp)⟩

/-- The loop over the candidates. -/
theorem wp_firstSome {lookup : α → Prog Q B (Option β)} {f : α → Option β} (candidates : List α)
    (h : ∀ a ∈ candidates, wp (fun _ _ => True) (zoneEnv serves) (lookup a).run (fun r s' => s' = s ∧ r = .ok (f a)) s) :
    wp (fun _ _ => True) (zoneEnv serves) (firstSome lookup candidates).run
      (fun r s' => s' = s ∧ r = .ok (candidates.findSome? f)) s := by
  induction candidates with
  | nil => exact ⟨rfl, rfl⟩
  | cons a rest ih =>
    rw [firstSome, wp_run_bind]
    refine wp_mono (h a List.mem_cons_self) ?_
    rintro r s' ⟨rfl, rfl⟩
    rw [List.findSome?_cons]
    cases hfound : f a with
    | some b => exact ⟨rfl, rfl⟩
    | none => exact ih fun b hb => h b (List.mem_cons_of_mem _ hb)

/-- What a lookup gives: a value that is good for the name, or an error. -/
def Gives (Good : α → Prop) (Bad : DnsError → Prop) (r : Except DnsError α) : Prop :=
  match r with
  | .ok a => Good a
  | .error e => Bad e

/-- **The cache.** If every entry is good for its name, so is what is found, and what is left. -/
theorem wp_cached {Good : Str → Str → Prop} {Bad : DnsError → Prop} {name : Str} {find : Prog Q B Str}
    (hs : ∀ n zone, s n = some zone → Good n zone)
    (hfind : wp (fun _ _ => True) (zoneEnv serves) find.run (fun r s' => s' = s ∧ Gives (Good name) Bad r) s) :
    wp (fun _ _ => True) (zoneEnv serves) (cached name find).run
      (fun r s' => (∀ n zone, s' n = some zone → Good n zone) ∧ Gives (Good name) Bad r) s := by
  rw [cached, wp_run_bind]
  refine ⟨trivial, fun found s₁ h₁ => ?_⟩
  obtain ⟨rfl, rfl⟩ := h₁
  cases hfound : s₁ name with
  | some zone => exact ⟨hs, hs name zone hfound⟩
  | none =>
    show wp _ _ (find >>= _).run _ _
    rw [wp_run_bind]
    refine wp_mono hfind ?_
    rintro r s' ⟨rfl, hr⟩
    cases r with
    | error e => exact ⟨hs, hr⟩
    | ok zone =>
      refine ⟨trivial, fun _ s₂ h₂ => ?_⟩
      obtain rfl : s₂ = Function.update s' name (some zone) := h₂
      refine ⟨fun n zone' hn => ?_, hr⟩
      by_cases hname : n = name
      · subst hname
        rw [Function.update_self] at hn
        cases hn
        exact hr
      · rw [Function.update_of_ne hname] at hn
        exact hs n zone' hn

end Lookups

/-! ## What a provider owes -/

/-- A provider that looks its zones up, and the API it asks. -/
structure ZoneApi where
  Q : Type
  B : Q → Type
  Config : Type
  Zone : Type
  /-- What the lookup returns. -/
  Answer : Type
  /-- The zones of the account, and what is left open about how they are reported. -/
  World : Type
  zones : World → List Zone
  /-- The name of a zone, as the API reports it. -/
  name : Zone → Str
  account : ∀ w, Account name (zones w)
  serves : World → (q : Q) → Response (B q) → Prop
  answered : ∀ w q, ∃ resp, serves w q resp
  answer : Zone → Answer
  /-- No zone is configured. -/
  Automatic : Config → Prop
  /-- The name, as `present` and `cleanup` look it up. -/
  asked : Str → Str
  resolveZone : Config → Str → Prog Q B Answer
  /-- The name in the zone, as it is computed next. -/
  next : Str → Answer → Except DnsError Str

namespace ZoneApi

variable {a : ZoneApi} {w : a.World} {fqdn : Str}

def labels (a : ZoneApi) (z : a.Zone) : List Str := labelsOf (a.name z)

variable (w fqdn) in
/-- The result owed: the one zone with the longest suffix, in which the name then is; or that there is none. -/
inductive Right : Except DnsError a.Answer → Prop where
  | found (z : a.Zone) (h : Longest a.labels (a.zones w) (labelsOf fqdn) z)
      (unique : ∀ z', Longest a.labels (a.zones w) (labelsOf fqdn) z' → z' = z)
      (hnext : ∃ n, a.next fqdn (a.answer z) = .ok n) : Right (.ok (a.answer z))
  | none (h : NoMatch a.labels (a.zones w) (labelsOf fqdn)) : Right (.error (.zoneNotFound (a.asked fqdn)))

/-- A lookup of a name. -/
structure Lookup (a : ZoneApi) where
  cfg : a.Config
  automatic : a.Automatic cfg
  fqdn : Str
  accepted : validateFqdn fqdn = .ok ()

def Lookup.prog (c : a.Lookup) : Fut Unit (Call a.Q) (Reply a.B) (Except DnsError a.Answer) :=
  (a.resolveZone c.cfg (a.asked c.fqdn)).run

variable (w fqdn) in
/-- **Whatever was looked up before**, a lookup of the name returns, and what it returns is right. -/
def FindsLongest : Prop :=
  ∀ (before : List (a.Lookup × Except DnsError a.Answer)) (cache : Str → Option Str),
    RunsAll (zoneEnv (a.serves w)) (before.map fun c => (c.1.prog, c.2)) (fun _ => none) cache →
    ∀ c : a.Lookup, c.fqdn = fqdn →
      (∃ t r cache', c.prog.Runs t r ∧ Chain (zoneEnv (a.serves w)) t cache cache') ∧
      ∀ t r cache', c.prog.Runs t r → Chain (zoneEnv (a.serves w)) t cache cache' → a.Right w fqdn r

variable (w fqdn) in
/-- At most one zone of the account has the name in it. -/
def AtMostOne : Prop :=
  ∀ z ∈ a.zones w, ∀ z' ∈ a.zones w, a.labels z <:+ labelsOf fqdn → a.labels z' <:+ labelsOf fqdn → z' = z

variable (w fqdn) in
/-- The zones that have the name in them are reported in lower case and without a trailing dot. -/
def ReportedNormalized : Prop := ∀ z ∈ a.zones w, a.labels z <:+ labelsOf fqdn → normalizeName (a.name z) = a.name z

/-- `I` is what the lookups keep of the cache. -/
theorem findsLongest_of {I : (Str → Option Str) → Prop} (hempty : I fun _ => none)
    (hkeep : ∀ (c : a.Lookup) s, I s → wp (fun _ _ => True) (zoneEnv (a.serves w)) c.prog (fun _ s' => I s') s)
    (hright : ∀ (c : a.Lookup) s, c.fqdn = fqdn → I s →
      wp (fun _ _ => True) (zoneEnv (a.serves w)) c.prog (fun r _ => a.Right w fqdn r) s) : a.FindsLongest w fqdn := by
  intro before cache hbefore c hc
  have hcache : I cache := by
    refine hbefore.invariant (fun p r s hp hs => ?_) hempty
    obtain ⟨b, -, he⟩ := List.mem_map.1 hp
    cases he
    exact hkeep b.1 s hs
  refine ⟨exists_run (zoneEnv_answers (a.answered w)) _ _, fun t r cache' hrun hchain => ?_⟩
  exact (hright c cache hc hcache).of_runs hrun hchain

theorem Right.of_longest {z : a.Zone} (h : Longest a.labels (a.zones w) (labelsOf fqdn) z)
    (hnext : ∃ n, a.next fqdn (a.answer z) = .ok n) : a.Right w fqdn (.ok (a.answer z)) :=
  .found z h (fun _ h' => h.unique (a.account w).distinct h') hnext

theorem Right.noMatch {e : DnsError} (h : a.Right w fqdn (.error e)) : NoMatch a.labels (a.zones w) (labelsOf fqdn) := by
  cases h with
  | none h => exact h

end ZoneApi

end Cheti
