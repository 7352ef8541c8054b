import Cheti.Backend
import Cheti.Listing
/-!
# PowerDNS (src/providers/powerdns.rs)

| here | there |
| --- | --- |
| `resolveZone`, `lookupZone`  | `resolve_zone` (powerdns.rs:154-180), its loop |
| `fetchZone`, `fetchRrset`    | `fetch_zone` (powerdns.rs:183-203), `fetch_rrset` (powerdns.rs:206-227) |
| `patchRrset`                 | `patch_rrset` (powerdns.rs:229-248) |
| `checkError`, `truncate`     | `check_error` (powerdns.rs:259-276), `truncate` (powerdns.rs:278-287) |
| `presentLocked`, `cleanupLocked` | what `present` and `cleanup` (powerdns.rs:350-429) do under the lock |

The record sets of a zone are read with the zone and changed with a PATCH that replaces or deletes one
of them. A server without the filter parameters returns the whole zone, so the filter is applied again.
-/

namespace Cheti.PowerDns

def provider : String := "powerdns"
def locks : KeyedMutex := ⟨"powerdns".toList⟩
def maxErrorBody : Nat := 512

structure PowerDnsConfig where
  serverId : Str
  zoneOverride : Option Str
  ttl : Nat
  /-- `serde_json::from_str::<PdnsError>`, its `error` field. -/
  decodeError : Str → Option Str

structure PdnsRecord where
  content : Str
  disabled : Bool
deriving DecidableEq

structure PdnsRrset where
  name : Str
  recordType : Str
  ttl : Nat
  records : List PdnsRecord

inductive ChangeType where
  | replace
  | delete

structure PdnsRrsetWrite where
  name : Str
  recordType : Str
  ttl : Option Nat
  changetype : ChangeType
  records : Option (List PdnsRecord)

inductive Req where
  /-- GET of the zone without its record sets. -/
  | zone (zone : Str)
  /-- GET of the zone with a filter on its record sets. -/
  | rrsets (zone name : Str)
  | patch (zone : Str) (rrset : PdnsRrsetWrite)

structure PdnsZone where
  name : Str

abbrev Req.Doc : Req → Type
  | .zone _ => PdnsZone
  | .rrsets _ _ => List PdnsRrset
  | .patch _ _ => Unit

abbrev M := Prog Req Req.Doc

def zonePath (cfg : PowerDnsConfig) (zone : Str) : Str :=
  "/servers/".toList ++ encodePath cfg.serverId ++ "/zones/".toList ++ encodePath zone ++ ['.']

def truncate (raw : Str) : Str := truncateAt maxErrorBody raw

/-- A rejected API key becomes `Auth`; the error document's message is surfaced, or the raw body. -/
def checkError {α : Type} (cfg : PowerDnsConfig) (method : String) (path : Str) (response : Response α) : DnsError :=
  let detail := match cfg.decodeError response.text with
    | some error => truncate error
    | none => truncate response.text
  let message := s!"{provider} {method} {path} returned {response.status}: {detail}"
  if response.status.asU16 = 401 ∨ response.status.asU16 = 403 then .auth message else .api message

def fetchZone (cfg : PowerDnsConfig) (candidate : Str) : M (Option Str) :=
  request .get (Req.zone candidate) fun response => do
    if response.status.asU16 = 404 then return none
    else
      check response.status.isSuccess (checkError cfg "GET" (zonePath cfg candidate) response)
      let body : PdnsZone ← response.json
      return some (lower (trimDots body.name))

/-- The candidates are asked for from the name itself on, so that a delegated sub-zone is found before
its parent. -/
def lookupZone (cfg : PowerDnsConfig) (fqdn name : Str) : M Str := do
  match ← firstSome (fetchZone cfg) (suffixes (name.splitOn '.')) with
  | some zone =>
    validateZone zone
    let _ ← relativeName name zone
    return zone
  | none => throw (.zoneNotFound fqdn)

def resolveZone (cfg : PowerDnsConfig) (fqdn : Str) : M Str :=
  match cfg.zoneOverride with
  | some zone => pure zone
  | none => cached (normalizeName fqdn) (lookupZone cfg fqdn (normalizeName fqdn))

def fetchRrset (cfg : PowerDnsConfig) (zone name : Str) : M (Option PdnsRrset) :=
  request .get (Req.rrsets zone name) fun response => do
    check response.status.isSuccess (checkError cfg "GET" (zonePath cfg zone) response)
    let rrsets : List PdnsRrset ← response.json
    return rrsets.find? fun r => eqIgnoreCase r.recordType txt && eqIgnoreCase r.name name

def patchRrset (cfg : PowerDnsConfig) (zone : Str) (rrset : PdnsRrsetWrite) : M Unit :=
  request .patch (Req.patch zone rrset) fun response =>
    check response.status.isSuccess (checkError cfg "PATCH" (zonePath cfg zone) response)

def presentLocked (cfg : PowerDnsConfig) (zone name value : Str) : M Unit := do
  let existing ← fetchRrset cfg zone name
  let write ttl records := patchRrset cfg zone
    ⟨name, txt, some ttl, .replace, some (records ++ [⟨quote value, false⟩])⟩
  match existing with
  | some rrset => if rrset.records.any (unquote ·.content = value) then return else write rrset.ttl rrset.records
  | none => write cfg.ttl []

def present (cfg : PowerDnsConfig) (fqdn value : Str) : M Unit := do
  validateFqdn fqdn
  validateAcmeValue value
  let zone ← resolveZone cfg fqdn
  let rname ← relativeName (lower fqdn) zone
  withLock locks (lockKey zone rname) (presentLocked cfg zone (absolute fqdn) value)

def cleanupLocked (cfg : PowerDnsConfig) (zone name value : Str) : M Unit := do
  let existing ← fetchRrset cfg zone name
  match existing with
  | none => return
  | some rrset =>
    let before := rrset.records.length
    let remaining := rrset.records.filter (unquote ·.content ≠ value)
    if remaining.length = before then return
    else if remaining.isEmpty then patchRrset cfg zone ⟨name, txt, none, .delete, none⟩
    else patchRrset cfg zone ⟨name, txt, some rrset.ttl, .replace, some remaining⟩

def cleanup (cfg : PowerDnsConfig) (fqdn value : Str) : M Unit := do
  validateFqdn fqdn
  let zone ← resolveZone cfg fqdn
  let rname ← relativeName (lower fqdn) zone
  withLock locks (lockKey zone rname) (cleanupLocked cfg zone (absolute fqdn) value)

/-! ## The API -/

structure Stored where
  ttl : Nat
  records : List PdnsRecord

/-- What a write makes of its record set; `none` where it is rejected. -/
def PdnsRrsetWrite.stored (w : PdnsRrsetWrite) : Option (Option Stored) :=
  match w.changetype, w.ttl, w.records with
  | .replace, some ttl, some (r :: rs) => some (some ⟨ttl, r :: rs⟩)
  | .delete, _, _ => some none
  | _, _, _ => none

/-- In the answer to a read, a set of that name and type, in any letter case, is the stored one, and the
stored one is there; there may be others. -/
def serves : (q : Req) → Response q.Doc → Records Stored → Records Stored → Prop
  | .rrsets zone name, resp, s, s' => s' = s ∧ resp.status.isSuccess = true ∧ ∃ rrsets, resp.body = .ok rrsets ∧
    (∀ r ∈ rrsets, eqIgnoreCase r.recordType txt = true → eqIgnoreCase r.name name = true →
      s.sets ⟨zone, name, txt⟩ = some ⟨r.ttl, r.records⟩) ∧
    ((s.sets ⟨zone, name, txt⟩).isSome = true →
      ∃ r ∈ rrsets, eqIgnoreCase r.recordType txt = true ∧ eqIgnoreCase r.name name = true)
  | .patch zone w, resp, s, s' =>
    match w.stored with
    | some x => resp.status.isSuccess = true ∧ s' = s.put ⟨zone, w.name, w.recordType⟩ x
    | none => resp.status.asU16 = 422 ∧ s' = s.reject
  | .zone _, _, s, s' => s' = s

abbrev backend : Backend where
  Q := Req
  B := Req.Doc
  Config := PowerDnsConfig
  Zone := Str
  zoneName zone := zone
  locks := locks
  resolveZone := resolveZone
  present := present
  cleanup := cleanup
  key zone name := (relativeName name zone).map (lockKey zone)
  owner zone name := ⟨zone, name ++ ['.'], txt⟩
  aboutZones
    | .zone _ => true
    | _ => false
  Set := Stored
  values set := set.records.map (·.content)
  ttl set := some set.ttl
  plain _ _ := True
  serves := serves
  reads
    | .patch _ _ => false
    | _ => true
  notFoundAnswers := false
  canonical x := x
  keepsTtl := true
  polls := false

/-! ## Requests -/

open Fut (wp Always)

theorem throttles : backend.Throttles := by
  intro q resp s s' h hr
  cases q with
  | zone zone => exact h
  | rrsets zone name => exact h.1
  | patch zone w =>
    simp only [serves] at h
    split at h
    · exact absurd hr (StatusCode.not_throttled h.1)
    · rcases hr with hr | hr <;> rw [h.1] at hr <;> cases hr

variable {zenv : (c : Call Req) → Reply Req.Doc c → Prop} {faulty : Bool} {s : Records Stored}

def PdnsRrset.stored (r : PdnsRrset) : Stored := ⟨r.ttl, r.records⟩

/-- The filter of `fetch_rrset` finds the stored set in what the API returns. -/
theorem find_rrset {rrsets : List PdnsRrset} {name : Str} {set : Option Stored}
    (hmem : ∀ r ∈ rrsets, eqIgnoreCase r.recordType txt = true → eqIgnoreCase r.name name = true →
      set = some ⟨r.ttl, r.records⟩)
    (hex : set.isSome = true → ∃ r ∈ rrsets, eqIgnoreCase r.recordType txt = true ∧ eqIgnoreCase r.name name = true) :
    (rrsets.find? fun r => eqIgnoreCase r.recordType txt && eqIgnoreCase r.name name).map PdnsRrset.stored = set := by
  cases hfind : rrsets.find? fun r => eqIgnoreCase r.recordType txt && eqIgnoreCase r.name name with
  | some r =>
    have hr := List.find?_some hfind
    rw [Bool.and_eq_true] at hr
    exact (hmem r (List.mem_of_find?_eq_some hfind) hr.1 hr.2).symm
  | none =>
    cases set with
    | none => rfl
    | some x =>
      obtain ⟨r, hr, htype, hname⟩ := hex rfl
      have := List.find?_eq_none.1 hfind r hr
      simp [htype, hname] at this

theorem fetchRrset_wp (cfg : PowerDnsConfig) (zone name : Str) :
    wp (fun _ _ => True) (backend.env zenv faulty) (fetchRrset cfg zone name).run
      (backend.Fetched faulty s (fun existing => existing.map PdnsRrset.stored = s.sets ⟨zone, name, txt⟩)) s := by
  refine Backend.wp_record throttles rfl (fun resp s' h => ?_) (fun resp h => ?_) fun hf e => ?_
  · obtain ⟨rfl, hsucc, rrsets, hbody, hmem, hex⟩ := h
    refine ⟨rfl, Or.inl ⟨_, ?_, find_rrset hmem hex⟩⟩
    simp [check_ok hsucc, Response.json_ok hbody]
  · rcases Backend.failed_ok h with ⟨hsucc, -, e, he⟩ | ⟨hsucc, -⟩
    · exact ⟨.http e, by simp [check_ok hsucc, Response.json_error he]⟩
    · exact ⟨checkError cfg "GET" (zonePath cfg zone) resp, by simp [check_error hsucc]⟩
  · exact ⟨rfl, Or.inr ⟨hf, e, rfl⟩⟩

/-- A write that is not rejected. -/
theorem patchRrset_wp (cfg : PowerDnsConfig) (zone : Str) {w : PdnsRrsetWrite} {x : Option Stored}
    (hw : w.stored = some x) :
    wp (fun _ _ => True) (backend.env zenv faulty) (patchRrset cfg zone w).run
      (backend.Wrote faulty s ⟨zone, w.name, w.recordType⟩ x) s := by
  refine Backend.wp_record throttles rfl (fun resp s' h => ?_) (fun resp h => ?_) fun hf e => ?_
  · simp only [serves, hw] at h
    exact Or.inl ⟨Or.inl (check_ok h.1), h.2⟩
  · rcases Backend.failed_ok h with ⟨-, hreads, -⟩ | ⟨hsucc, -⟩
    · cases hreads
    · exact ⟨_, check_error hsucc⟩
  · exact Or.inr ⟨hf, ⟨e, rfl⟩, rfl⟩

theorem stored_replace (name : Str) (ttl : Nat) {records : List PdnsRecord} (h : records ≠ []) :
    PdnsRrsetWrite.stored ⟨name, txt, some ttl, .replace, some records⟩ = some (some ⟨ttl, records⟩) := by
  cases records with
  | nil => exact absurd rfl h
  | cons r rs => rfl

/-! ## Calls -/

theorem any_unquote (value : Str) (records : List PdnsRecord) :
    records.any (unquote ·.content = value) = holds value (records.map (·.content)) := by
  simp [holds, List.any_map, Function.comp_def]

theorem map_filter_unquote (value : Str) (records : List PdnsRecord) :
    (records.filter (unquote ·.content ≠ value)).map (·.content) =
      Op.cleanup.apply value (records.map (·.content)) := by
  rw [cleanup_apply, List.filter_map]
  rfl

theorem valuesAt_some {o : Owner} {set : Stored} (h : s.sets o = some set) :
    backend.valuesAt s o = set.records.map (·.content) := by
  simp [Backend.valuesAt, h]

theorem valuesAt_none {o : Owner} (h : s.sets o = none) : backend.valuesAt s o = [] := by
  simp [Backend.valuesAt, h]

theorem presentLocked_ok (cfg : PowerDnsConfig) (zone name value : Str) :
    backend.BodyOk .present value ⟨zone, name, txt⟩ (presentLocked cfg zone name value) := by
  refine ⟨Fut.always_run_bind backend.internal_request fun existing => ?_, fun zenv faulty s _ => ?_⟩
  · cases existing with
    | none => exact backend.internal_request
    | some rrset =>
      simp only
      split
      · trivial
      · exact backend.internal_request
  · refine Backend.wp_fetched (fetchRrset_wp cfg zone name) fun existing hset => ?_
    cases existing with
    | none =>
      have hv := valuesAt_none hset.symm
      refine Backend.wp_wrote (patchRrset_wp cfg zone (stored_replace name cfg.ttl (by simp))) ?_
        ⟨by simp [hv, present_apply, holds], by simp, trivial, fun _ old hold => ?_⟩
      · simp [hv, present_apply, holds]
      · rw [← hset] at hold; cases hold
    | some rrset =>
      have hv := valuesAt_some hset.symm
      simp only [any_unquote]
      split
      · rename_i h
        exact Or.inl ⟨by rw [hv]; exact present_apply_eq_iff.2 h, rfl, rfl⟩
      · rename_i h
        refine Backend.wp_wrote (patchRrset_wp cfg zone (stored_replace name rrset.ttl (by simp))) ?_
          ⟨?_, by simp, trivial, fun _ old hold => ?_⟩
        · rw [hv, Ne, present_apply_eq_iff]; exact h
        · rw [hv, present_apply, PdnsRrset.stored, if_neg h]; simp
        · rw [← hset] at hold; cases hold; rfl

theorem cleanupLocked_ok (cfg : PowerDnsConfig) (zone name value : Str) :
    backend.BodyOk .cleanup value ⟨zone, name, txt⟩ (cleanupLocked cfg zone name value) := by
  refine ⟨Fut.always_run_bind backend.internal_request fun existing => ?_, fun zenv faulty s _ => ?_⟩
  · cases existing with
    | none => trivial
    | some rrset =>
      simp only
      split
      · trivial
      · split <;> exact backend.internal_request
  · refine Backend.wp_fetched (fetchRrset_wp cfg zone name) fun existing hset => ?_
    cases existing with
    | none => exact Or.inl ⟨by rw [valuesAt_none hset.symm]; rfl, rfl, rfl⟩
    | some rrset =>
      have hv : backend.valuesAt s ⟨zone, name, txt⟩ = rrset.records.map (·.content) := valuesAt_some hset.symm
      have happly : Op.cleanup.apply value (backend.valuesAt s ⟨zone, name, txt⟩) =
          (rrset.records.filter (unquote ·.content ≠ value)).map (·.content) := by
        rw [hv, map_filter_unquote]
      simp only
      split
      · rename_i h
        have hself := List.filter_eq_self.2 (List.length_filter_eq_length_iff.1 h)
        exact Or.inl ⟨by rw [happly, hself, hv], rfl, rfl⟩
      · rename_i h
        have hne : Op.cleanup.apply value (backend.valuesAt s ⟨zone, name, txt⟩) ≠
            backend.valuesAt s ⟨zone, name, txt⟩ := by
          intro he
          have hlen := congrArg List.length (happly.symm.trans (he.trans hv))
          rw [List.length_map, List.length_map] at hlen
          exact h hlen
        split
        · rename_i hempty
          refine Backend.wp_wrote (patchRrset_wp cfg zone rfl) hne ?_
          rw [Backend.Written, happly, List.isEmpty_iff.1 hempty, List.map_nil]
        · rename_i hempty
          have hnil : rrset.records.filter (unquote ·.content ≠ value) ≠ [] := fun he =>
            hempty (List.isEmpty_iff.2 he)
          refine Backend.wp_wrote (patchRrset_wp cfg zone (stored_replace name rrset.ttl hnil)) hne
            ⟨by rw [happly]; simp, fun he => hnil (List.map_eq_nil_iff.1 he), trivial, fun _ old hold => ?_⟩
          rw [← hset] at hold; cases hold; rfl

theorem sound : backend.Sound where
  throttles := throttles
  answers q s hq := by
    cases q with
    | zone zone => cases hq
    | rrsets zone name =>
      refine ⟨⟨⟨200, ""⟩, none, none, none, [], .ok ((s.sets ⟨zone, name, txt⟩).map fun x =>
        ⟨name, txt, x.ttl, x.records⟩).toList⟩, s, rfl, rfl, _, rfl, ?_, ?_⟩
      · intro r hr _ _
        obtain ⟨x, hx, rfl⟩ := Option.map_eq_some_iff.1 (Option.mem_toList.1 hr)
        exact hx
      · intro hsome
        obtain ⟨x, hx⟩ := Option.isSome_iff_exists.1 hsome
        exact ⟨⟨name, txt, x.ttl, x.records⟩, by simp [hx], by simp [eqIgnoreCase], by simp [eqIgnoreCase]⟩
    | patch zone w =>
      cases hw : w.stored with
      | none => exact ⟨⟨⟨422, ""⟩, none, none, none, [], .ok ()⟩, s.reject, by simp [serves, hw]⟩
      | some x => exact ⟨⟨⟨200, ""⟩, none, none, none, [], .ok ()⟩, _, by simp only [serves, hw]; exact ⟨rfl, rfl⟩⟩
  owner_txt _ _ := rfl
  unquote_canonical _ := rfl
  canonical_quote _ := rfl
  call cfg op fqdn v := by
    cases op with
    | present =>
      refine ⟨_, fun zone => (relativeName (lower fqdn) zone).map fun rname =>
        (lockKey zone rname, presentLocked cfg zone (absolute fqdn) v), ?_, Backend.checks_present, fun _ => ?_⟩
      · simp only [Backend.run, present, lift_bind, lift_map, bind_assoc, pure_bind]
      · exact Backend.enterOk_relative (b := backend) (fun zone _ => presentLocked cfg zone (absolute fqdn) v)
          (fun _ _ => rfl) fun zone _ _ => presentLocked_ok cfg zone (absolute fqdn) v
    | cleanup =>
      refine ⟨_, fun zone => (relativeName (lower fqdn) zone).map fun rname =>
        (lockKey zone rname, cleanupLocked cfg zone (absolute fqdn) v), ?_, Backend.checks_cleanup, fun _ => ?_⟩
      · simp only [Backend.run, cleanup, lift_map, bind_assoc, pure_bind]
      · exact Backend.enterOk_relative (b := backend) (fun zone _ => cleanupLocked cfg zone (absolute fqdn) v)
          (fun _ _ => rfl) fun zone _ _ => cleanupLocked_ok cfg zone (absolute fqdn) v

end Cheti.PowerDns
