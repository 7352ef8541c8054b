import Cheti.Listing
import Cheti.Sequence
/-!
# Scaleway (src/providers/scaleway.rs)

| here | there |
| --- | --- |
| `resolveZone`               | `resolve_zone` (scaleway.rs:274-283) |
| `fetchExisting`             | `fetch_existing` (scaleway.rs:117-146) |
| `applySet`, `applyDelete`   | `apply_set` (scaleway.rs:148-191), `apply_delete` (scaleway.rs:193-225) |
| `present`, `cleanup`        | `present` (scaleway.rs:288-305), `cleanup` (scaleway.rs:307-328) |

The TXT records of a name are replaced as a whole. They are read with a listing of one page, so the API shows no more
than a hundred of them. Calls are first compared with an API that shows all records; as long as a name has at most a
page of them, the two do the same.
-/

namespace Cheti.Scaleway

def provider : String := "scaleway"
def locks : KeyedMutex := ⟨"scaleway".toList⟩
/-- The `page_size` of the listing. -/
def pageSize : Nat := 100

structure ScalewayConfig where
  zoneOverride : Option Str
  ttl : Nat

structure Record where
  type : Str
  data : Str

structure RecordSpec where
  name : Str
  type : Str
  data : Str
  ttl : Nat
deriving DecidableEq

inductive Change where
  | set (name type : Str) (records : List RecordSpec)
  | delete (name type : Str)

inductive Req where
  | list (zone name : Str)
  | change (zone : Str) (change : Change)

abbrev Req.Doc : Req → Type
  | .list _ _ => List Record
  | .change _ _ => Unit

abbrev M := Prog Req Req.Doc

def recordsPath (zone : Str) : Str := "/domain/v2beta1/dns-zones/".toList ++ encodePath zone ++ "/records".toList

def resolveZone (cfg : ScalewayConfig) (fqdn : Str) : M Str :=
  match cfg.zoneOverride with
  | some zone => pure zone
  | none => do
    let zone ← findZone fqdn
    validateFqdn zone
    return zone

def fetchExisting (zone rname : Str) : M (List Str) :=
  request .get (Req.list zone rname) fun response => do
    if response.status.asU16 = 404 then return []
    else
      check response.status.isSuccess (apiError provider "GET" (recordsPath zone) response)
      let records : List Record ← response.json
      return (records.filter fun r => r.type = txt).map Record.data

def applySet (cfg : ScalewayConfig) (zone rname : Str) (values : List Str) : M Unit :=
  request .patch (Req.change zone (.set rname txt (values.map fun v => ⟨rname, txt, v, cfg.ttl⟩))) fun response =>
    check response.status.isSuccess (apiError provider "PATCH" (recordsPath zone) response)

def applyDelete (zone rname : Str) : M Unit :=
  request .patch (Req.change zone (.delete rname txt)) fun response =>
    check (response.status.isSuccess || response.status.asU16 == 404)
      (apiError provider "PATCH" (recordsPath zone) response)

/-- The other values are written back as the API returned them. -/
def presentLocked (cfg : ScalewayConfig) (zone rname value : Str) : M Unit := do
  let values ← fetchExisting zone rname
  if values.any (unquote · = value) then return
  else applySet cfg zone rname (values ++ [quote value])

def present (cfg : ScalewayConfig) (fqdn value : Str) : M Unit := do
  validateFqdn fqdn
  let fqdn := lower fqdn
  validateAcmeValue value
  let zone ← resolveZone cfg fqdn
  let rname ← relativeName fqdn zone
  withLock locks (lockKey zone rname) (presentLocked cfg zone rname value)

def cleanupLocked (cfg : ScalewayConfig) (zone rname value : Str) : M Unit := do
  let values ← fetchExisting zone rname
  let remaining := values.filter (unquote · ≠ value)
  if remaining.length = values.length then return
  else if remaining.isEmpty then applyDelete zone rname
  else applySet cfg zone rname remaining

def cleanup (cfg : ScalewayConfig) (fqdn value : Str) : M Unit := do
  validateFqdn fqdn
  let fqdn := lower fqdn
  let zone ← resolveZone cfg fqdn
  let rname ← relativeName fqdn zone
  withLock locks (lockKey zone rname) (cleanupLocked cfg zone rname value)

/-! ## The API -/

/-- `shown` is what a listing has of the records. -/
def serves (shown : List RecordSpec → List RecordSpec) :
    (q : Req) → Response q.Doc → Records (List RecordSpec) → Records (List RecordSpec) → Prop
  | .list zone name, resp, s, s' => s' = s ∧
    match s.sets ⟨zone, name, txt⟩ with
    | none => resp.status.asU16 = 404 ∨ resp.status.isSuccess = true ∧ resp.body = .ok []
    | some records => resp.status.isSuccess = true ∧ resp.body = .ok ((shown records).map fun r => ⟨txt, r.data⟩)
  | .change zone (.set name type records), resp, s, s' =>
    resp.status.isSuccess = true ∧ s' = s.put ⟨zone, name, type⟩ (some records)
  | .change zone (.delete name type), resp, s, s' => resp.status.isSuccess = true ∧ s' = s.put ⟨zone, name, type⟩ none

abbrev listing (shown : List RecordSpec → List RecordSpec) : Backend where
  Q := Req
  B := Req.Doc
  Config := ScalewayConfig
  Zone := Str
  zoneName zone := zone
  locks := locks
  resolveZone cfg fqdn := resolveZone cfg (lower fqdn)
  present := present
  cleanup := cleanup
  key zone name := (relativeName name zone).map (lockKey zone)
  owner := relativeOwner
  aboutZones _ := false
  Set := List RecordSpec
  values records := records.map RecordSpec.data
  ttl records := records.head?.map RecordSpec.ttl
  plain _ _ := True
  serves := serves shown
  reads
    | .list _ _ => true
    | _ => false
  notFoundAnswers := true
  canonical := id
  keepsTtl := false
  polls := false

/-- The API as it is asked, for the first page. -/
abbrev backend : Backend := listing (List.take pageSize)

/-- An API that shows all records. -/
abbrev whole : Backend := listing id

/-! ## Requests -/

open Fut (wp Always)

theorem throttles (shown : List RecordSpec → List RecordSpec) : (listing shown).Throttles := by
  intro q resp s s' h hr
  cases q with
  | list zone name => exact h.1
  | change zone change =>
    cases change with
    | set name type records => have := StatusCode.isSuccess_iff.1 h.1; omega
    | delete name type => have := StatusCode.isSuccess_iff.1 h.1; omega

variable {zenv : (c : Call Req) → Reply Req.Doc c → Prop} {faulty : Bool} {s : Records (List RecordSpec)}

/-- What is listed of the records is their data. -/
theorem data_of_listed (records : List RecordSpec) :
    ((records.map fun r => (⟨txt, r.data⟩ : Record)).filter fun r => r.type = txt).map Record.data =
      records.map RecordSpec.data := by
  rw [List.filter_map, List.map_map, List.filter_eq_self.2 (by simp)]
  rfl

/-- What is written is the values. -/
theorem data_specs (cfg : ScalewayConfig) (rname : Str) (values : List Str) :
    (values.map fun v => (⟨rname, txt, v, cfg.ttl⟩ : RecordSpec)).map RecordSpec.data = values := by
  rw [List.map_map]
  exact List.map_id _

theorem fetchExisting_wp (zone rname : Str) :
    wp (fun _ _ => True) (whole.env zenv faulty) (fetchExisting zone rname).run
      (whole.Fetched faulty s (· = whole.valuesAt s ⟨zone, rname, txt⟩)) s := by
  refine Backend.wp_record (throttles id) rfl (fun resp s' h => ?_) (fun resp h => ?_) fun hf e => ?_
  · obtain ⟨rfl, h⟩ := h
    refine ⟨rfl, Or.inl ⟨_, ?_, rfl⟩⟩
    cases hset : s'.sets ⟨zone, rname, txt⟩ with
    | none =>
      rw [hset] at h
      rcases h with h | ⟨hsucc, hbody⟩
      · simp [Backend.valuesAt, hset, h]
      · simp [Backend.valuesAt, hset, StatusCode.ne_404 hsucc, check_ok hsucc, Response.json_ok hbody]
    | some records =>
      rw [hset] at h
      simp only [StatusCode.ne_404 h.1, if_false, check_ok h.1, ok_bind, Response.json_ok h.2]
      rw [Backend.valuesAt, hset]
      exact congrArg Except.ok (data_of_listed records)
  · rcases Backend.failed_ok h with ⟨hsucc, -, e, he⟩ | ⟨hsucc, h404⟩
    · exact ⟨.http e, by simp [StatusCode.ne_404 hsucc, check_ok hsucc, Response.json_error he]⟩
    · exact ⟨apiError provider "GET" (recordsPath zone) resp, by simp [h404 rfl, check_error hsucc]⟩
  · exact ⟨rfl, Or.inr ⟨hf, e, rfl⟩⟩

theorem applySet_wp (cfg : ScalewayConfig) (zone rname : Str) (values : List Str) :
    wp (fun _ _ => True) (whole.env zenv faulty) (applySet cfg zone rname values).run
      (whole.Wrote faulty s ⟨zone, rname, txt⟩ (some (values.map fun v => ⟨rname, txt, v, cfg.ttl⟩))) s := by
  refine Backend.wp_record (throttles id) rfl (fun resp s' h => ?_) (fun resp h => ?_) fun hf e => ?_
  · exact Or.inl ⟨Or.inl (check_ok h.1), h.2⟩
  · rcases Backend.failed_ok h with ⟨-, hreads, -⟩ | ⟨hsucc, -⟩
    · cases hreads
    · exact ⟨_, check_error hsucc⟩
  · exact Or.inr ⟨hf, ⟨e, rfl⟩, rfl⟩

theorem applyDelete_wp (zone rname : Str) :
    wp (fun _ _ => True) (whole.env zenv faulty) (applyDelete zone rname).run
      (whole.Wrote faulty s ⟨zone, rname, txt⟩ none) s := by
  refine Backend.wp_record (throttles id) rfl (fun resp s' h => ?_) (fun resp h => ?_) fun hf e => ?_
  · exact Or.inl ⟨Or.inl (check_ok (by simp [h.1])), h.2⟩
  · rcases Backend.failed_ok h with ⟨-, hreads, -⟩ | ⟨hsucc, h404⟩
    · cases hreads
    · exact ⟨_, check_error (by simp [hsucc, h404 rfl])⟩
  · exact Or.inr ⟨hf, ⟨e, rfl⟩, rfl⟩

/-! ## Calls -/

theorem presentLocked_ok (cfg : ScalewayConfig) (zone rname value : Str) :
    whole.BodyOk .present value ⟨zone, rname, txt⟩ (presentLocked cfg zone rname value) := by
  refine ⟨Fut.always_run_bind whole.internal_request fun values => ?_, fun zenv faulty s _ => ?_⟩
  · split
    · trivial
    · exact whole.internal_request
  · refine Backend.wp_fetched (fetchExisting_wp zone rname) (forall_eq.2 ?_)
    split
    · rename_i h
      exact Or.inl ⟨present_apply_eq_iff.2 h, rfl, rfl⟩
    · rename_i h
      have hh : holds value (whole.valuesAt s ⟨zone, rname, txt⟩) = false := by simpa [holds] using h
      have happly := present_apply value (whole.valuesAt s ⟨zone, rname, txt⟩)
      rw [hh] at happly
      refine Backend.wp_wrote (applySet_wp cfg zone rname _) ?_ ⟨?_, by simp, trivial, fun h => by cases h⟩
      · rw [Ne, present_apply_eq_iff, hh]; simp
      · rw [happly]
        simpa using data_specs cfg rname (whole.valuesAt s ⟨zone, rname, txt⟩)

theorem cleanupLocked_ok (cfg : ScalewayConfig) (zone rname value : Str) :
    whole.BodyOk .cleanup value ⟨zone, rname, txt⟩ (cleanupLocked cfg zone rname value) := by
  refine ⟨Fut.always_run_bind whole.internal_request fun values => ?_, fun zenv faulty s _ => ?_⟩
  · simp only
    split
    · trivial
    · split <;> exact whole.internal_request
  · refine Backend.wp_fetched (fetchExisting_wp zone rname) (forall_eq.2 ?_)
    simp only
    split
    · rename_i h
      exact Or.inl ⟨List.filter_eq_self.2 (List.length_filter_eq_length_iff.1 h), rfl, rfl⟩
    · rename_i h
      have hne : Op.cleanup.apply value (whole.valuesAt s ⟨zone, rname, txt⟩) ≠
          whole.valuesAt s ⟨zone, rname, txt⟩ := fun he => h (congrArg List.length he)
      split
      · rename_i hempty
        exact Backend.wp_wrote (applyDelete_wp zone rname) hne (by simpa [Backend.Written, cleanup_apply] using hempty)
      · rename_i hempty
        refine Backend.wp_wrote (applySet_wp cfg zone rname _) hne ⟨by simp [cleanup_apply, Function.comp_def], ?_, trivial, nofun⟩
        simpa using hempty

theorem sound : whole.Sound where
  throttles := throttles id
  answers q s _ := by
    cases q with
    | list zone name =>
      cases hset : s.sets ⟨zone, name, txt⟩ with
      | none => exact ⟨⟨⟨404, ""⟩, none, none, none, [], .error ""⟩, s, rfl, by simp [hset]⟩
      | some records =>
        exact ⟨⟨⟨200, ""⟩, none, none, none, [], .ok (records.map fun r => ⟨txt, r.data⟩)⟩, s, rfl,
          by simp [hset, StatusCode.isSuccess]⟩
    | change zone change =>
      cases change with
      | set name type records => exact ⟨⟨⟨200, ""⟩, none, none, none, [], .ok ()⟩, _, rfl, rfl⟩
      | delete name type => exact ⟨⟨⟨200, ""⟩, none, none, none, [], .ok ()⟩, _, rfl, rfl⟩
  owner_txt _ _ := rfl
  unquote_canonical _ := rfl
  canonical_quote _ := rfl
  call cfg op fqdn v := by
    cases op with
    | present =>
      refine ⟨_, fun zone => (relativeName (lower fqdn) zone).map fun rname =>
        (lockKey zone rname, presentLocked cfg zone rname v), ?_, Backend.checks_present, fun _ => ?_⟩
      · simp only [Backend.run, present, lift_bind, lift_map, bind_assoc, pure_bind]
      · exact Backend.enterOk_relativeOwner (b := whole) _ (fun _ _ => rfl) (fun _ _ => rfl) fun zone rname _ =>
          presentLocked_ok cfg zone rname v
    | cleanup =>
      refine ⟨_, fun zone => (relativeName (lower fqdn) zone).map fun rname =>
        (lockKey zone rname, cleanupLocked cfg zone rname v), ?_, Backend.checks_cleanup, fun _ => ?_⟩
      · simp only [Backend.run, cleanup, lift_map, bind_assoc, pure_bind]
      · exact Backend.enterOk_relativeOwner (b := whole) _ (fun _ _ => rfl) (fun _ _ => rfl) fun zone rname _ =>
          cleanupLocked_ok cfg zone rname v

end Cheti.Scaleway
