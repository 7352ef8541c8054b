import Cheti.Backend
/-!
# Gandi (src/providers/gandi.rs)

A record set is a resource: GET reads it (404 if there is none), PUT replaces it, DELETE removes it.
-/

namespace Cheti.Gandi

def provider : String := "gandi"
def locks : KeyedMutex := ⟨"gandi".toList⟩

structure GandiConfig where
  zoneOverride : Option Str
  ttl : Nat

structure TxtRecordBody where
  rrsetTtl : Nat
  rrsetValues : List Str

inductive Req where
  | get (zone rname : Str)
  | put (zone rname : Str) (body : TxtRecordBody)
  | delete (zone rname : Str)

abbrev Req.Doc : Req → Type
  | .get _ _ => TxtRecordBody
  | .put _ _ _ | .delete _ _ => Unit

abbrev M := Prog Req Req.Doc

def recordPath (zone rname : Str) : Str :=
  "/livedns/domains/".toList ++ encodePath zone ++ "/records/".toList ++ encodePath rname ++ "/TXT".toList

def fetchExisting (zone rname : Str) : M (List Str) :=
  request .get (Req.get zone rname) fun response => do
    if response.status.asU16 = 404 then return []
    else
      check response.status.isSuccess (apiError provider "GET" (recordPath zone rname) response)
      let body : TxtRecordBody ← response.json
      return body.rrsetValues

def putValues (cfg : GandiConfig) (zone rname : Str) (values : List Str) : M Unit :=
  request .put (Req.put zone rname ⟨cfg.ttl, values⟩) fun response =>
    check response.status.isSuccess (apiError provider "PUT" (recordPath zone rname) response)

def deleteRecord (zone rname : Str) : M Unit :=
  request .delete (Req.delete zone rname) fun response =>
    check (response.status.isSuccess || response.status.asU16 == 404)
      (apiError provider "DELETE" (recordPath zone rname) response)

def resolveZone (cfg : GandiConfig) (fqdn : Str) : M Str :=
  match cfg.zoneOverride with
  | some z => pure z
  | none => do
    let zone ← findZone fqdn
    validateFqdn zone
    return zone

def presentLocked (cfg : GandiConfig) (zone rname value : Str) : M Unit := do
  let values ← fetchExisting zone rname
  if values.any (unquote · = value) then return
  else putValues cfg zone rname (values ++ [quote value])

def present (cfg : GandiConfig) (fqdn value : Str) : M Unit := do
  validateFqdn fqdn
  let fqdn := lower fqdn
  validateAcmeValue value
  let zone ← resolveZone cfg fqdn
  let rname ← relativeName fqdn zone
  withLock locks (lockKey zone rname) (presentLocked cfg zone rname value)

def cleanupLocked (cfg : GandiConfig) (zone rname value : Str) : M Unit := do
  let values ← fetchExisting zone rname
  let count := values.length
  let remaining := values.filter (unquote · ≠ value)
  if remaining.length = count then return
  else if remaining.isEmpty then deleteRecord zone rname
  else putValues cfg zone rname remaining

def cleanup (cfg : GandiConfig) (fqdn value : Str) : M Unit := do
  validateFqdn fqdn
  let fqdn := lower fqdn
  let zone ← resolveZone cfg fqdn
  let rname ← relativeName fqdn zone
  withLock locks (lockKey zone rname) (cleanupLocked cfg zone rname value)

/-! ## The API -/

def serves : (q : Req) → Response q.Doc → Records TxtRecordBody → Records TxtRecordBody → Prop
  | .get zone rname, resp, s, s' => s' = s ∧
    match s.sets ⟨zone, rname, txt⟩ with
    | none => resp.status.asU16 = 404
    | some body => resp.status.isSuccess = true ∧ resp.body = .ok body
  | .put zone rname body, resp, s, s' => resp.status.isSuccess = true ∧ s' = s.put ⟨zone, rname, txt⟩ (some body)
  | .delete zone rname, resp, s, s' => resp.status.isSuccess = true ∧ s' = s.put ⟨zone, rname, txt⟩ none

abbrev backend : Backend where
  Q := Req
  B := Req.Doc
  Config := GandiConfig
  Zone := Str
  zoneName zone := zone
  locks := locks
  resolveZone cfg fqdn := resolveZone cfg (lower fqdn)
  present := present
  cleanup := cleanup
  key zone name := (relativeName name zone).map (lockKey zone)
  owner := relativeOwner
  aboutZones _ := false
  Set := TxtRecordBody
  values := TxtRecordBody.rrsetValues
  ttl body := some body.rrsetTtl
  plain _ _ := True
  serves := serves
  reads
    | .get _ _ => true
    | _ => false
  notFoundAnswers := true
  canonical := id
  keepsTtl := false
  polls := false

/-! ## Requests -/

open Fut (wp Always)

theorem throttles : backend.Throttles := by
  intro q resp s s' h hr
  cases q with
  | get zone rname => exact h.1
  | put zone rname body => have := StatusCode.isSuccess_iff.1 h.1; omega
  | delete zone rname => have := StatusCode.isSuccess_iff.1 h.1; omega

variable {zenv : (c : Call Req) → Reply Req.Doc c → Prop} {faulty : Bool} {s : Records TxtRecordBody}

theorem fetchExisting_wp (zone rname : Str) :
    wp (fun _ _ => True) (backend.env zenv faulty) (fetchExisting zone rname).run
      (backend.Fetched faulty s (· = backend.valuesAt s ⟨zone, rname, txt⟩)) s := by
  refine Backend.wp_record throttles rfl (fun resp s' h => ?_) (fun resp h => ?_) fun hf e => ?_
  · obtain ⟨rfl, h⟩ := h
    refine ⟨rfl, Or.inl ⟨_, ?_, rfl⟩⟩
    cases hset : s'.sets ⟨zone, rname, txt⟩ with
    | none => simp_all [Backend.valuesAt]
    | some body =>
      rw [hset] at h
      simp [Backend.valuesAt, hset, StatusCode.ne_404 h.1, check_ok h.1, Response.json_ok h.2]
  · rcases Backend.failed_ok h with ⟨hsucc, -, e, he⟩ | ⟨hsucc, h404⟩
    · exact ⟨.http e, by simp [StatusCode.ne_404 hsucc, check_ok hsucc, Response.json_error he]⟩
    · exact ⟨apiError provider "GET" (recordPath zone rname) resp, by simp [h404 rfl, check_error hsucc]⟩
  · exact ⟨rfl, Or.inr ⟨hf, e, rfl⟩⟩

theorem putValues_wp (cfg : GandiConfig) (zone rname : Str) (values : List Str) :
    wp (fun _ _ => True) (backend.env zenv faulty) (putValues cfg zone rname values).run
      (backend.Wrote faulty s ⟨zone, rname, txt⟩ (some ⟨cfg.ttl, values⟩)) s := by
  refine Backend.wp_record throttles rfl (fun resp s' h => ?_) (fun resp h => ?_) fun hf e => ?_
  · exact Or.inl ⟨Or.inl (check_ok h.1), h.2⟩
  · rcases Backend.failed_ok h with ⟨-, hreads, -⟩ | ⟨hsucc, -⟩
    · cases hreads
    · exact ⟨_, check_error hsucc⟩
  · exact Or.inr ⟨hf, ⟨e, rfl⟩, rfl⟩

theorem deleteRecord_wp (zone rname : Str) :
    wp (fun _ _ => True) (backend.env zenv faulty) (deleteRecord zone rname).run
      (backend.Wrote faulty s ⟨zone, rname, txt⟩ none) s := by
  refine Backend.wp_record throttles rfl (fun resp s' h => ?_) (fun resp h => ?_) fun hf e => ?_
  · exact Or.inl ⟨Or.inl (check_ok (by simp [h.1])), h.2⟩
  · rcases Backend.failed_ok h with ⟨-, hreads, -⟩ | ⟨hsucc, h404⟩
    · cases hreads
    · exact ⟨_, check_error (by simp [hsucc, h404 rfl])⟩
  · exact Or.inr ⟨hf, ⟨e, rfl⟩, rfl⟩

/-! ## Calls -/

theorem presentLocked_ok (cfg : GandiConfig) (zone rname value : Str) :
    backend.BodyOk .present value ⟨zone, rname, txt⟩ (presentLocked cfg zone rname value) := by
  refine ⟨Fut.always_run_bind backend.internal_request fun values => ?_, fun zenv faulty s _ => ?_⟩
  · split
    · trivial
    · exact backend.internal_request
  · refine Backend.wp_fetched (fetchExisting_wp zone rname) (forall_eq.2 ?_)
    split
    · rename_i h
      exact Or.inl ⟨present_apply_eq_iff.2 h, rfl, rfl⟩
    · rename_i h
      have hh : holds value (backend.valuesAt s ⟨zone, rname, txt⟩) = false := by simpa [holds] using h
      have happly := present_apply value (backend.valuesAt s ⟨zone, rname, txt⟩)
      rw [hh] at happly
      refine Backend.wp_wrote (putValues_wp cfg zone rname _) ?_ ⟨?_, by simp, trivial, fun h => by cases h⟩
      · rw [Ne, present_apply_eq_iff, hh]; simp
      · rw [happly]; simp

theorem cleanupLocked_ok (cfg : GandiConfig) (zone rname value : Str) :
    backend.BodyOk .cleanup value ⟨zone, rname, txt⟩ (cleanupLocked cfg zone rname value) := by
  refine ⟨Fut.always_run_bind backend.internal_request fun values => ?_, fun zenv faulty s _ => ?_⟩
  · simp only
    split
    · trivial
    · split <;> exact backend.internal_request
  · refine Backend.wp_fetched (fetchExisting_wp zone rname) (forall_eq.2 ?_)
    simp only
    split
    · rename_i h
      exact Or.inl ⟨List.filter_eq_self.2 (List.length_filter_eq_length_iff.1 h), rfl, rfl⟩
    · rename_i h
      have hne : Op.cleanup.apply value (backend.valuesAt s ⟨zone, rname, txt⟩) ≠
          backend.valuesAt s ⟨zone, rname, txt⟩ := fun he => h (congrArg List.length he)
      split
      · rename_i hempty
        exact Backend.wp_wrote (deleteRecord_wp zone rname) hne (by simpa [Backend.Written, cleanup_apply] using hempty)
      · rename_i hempty
        refine Backend.wp_wrote (putValues_wp cfg zone rname _) hne ⟨by simp [cleanup_apply], ?_, trivial, nofun⟩
        simpa using hempty

theorem sound : backend.Sound where
  throttles := throttles
  answers q s _ := by
    cases q with
    | get zone rname =>
      cases hset : s.sets ⟨zone, rname, txt⟩ with
      | none => exact ⟨⟨⟨404, ""⟩, none, none, none, [], .error ""⟩, s, rfl, by simp [hset]⟩
      | some body => exact ⟨⟨⟨200, ""⟩, none, none, none, [], .ok body⟩, s, rfl, by simp [hset, StatusCode.isSuccess]⟩
    | put zone rname body => exact ⟨⟨⟨200, ""⟩, none, none, none, [], .ok ()⟩, _, rfl, rfl⟩
    | delete zone rname => exact ⟨⟨⟨200, ""⟩, none, none, none, [], .ok ()⟩, _, rfl, rfl⟩
  owner_txt _ _ := rfl
  unquote_canonical _ := rfl
  canonical_quote _ := rfl
  call cfg op fqdn v := by
    cases op with
    | present =>
      refine ⟨_, fun zone => (relativeName (lower fqdn) zone).map fun rname =>
        (lockKey zone rname, presentLocked cfg zone rname v), ?_, Backend.checks_present, fun _ => ?_⟩
      · simp only [Backend.run, present, lift_bind, lift_map, bind_assoc, pure_bind]
      · exact Backend.enterOk_relativeOwner (b := backend) _ (fun _ _ => rfl) (fun _ _ => rfl) fun zone rname _ =>
          presentLocked_ok cfg zone rname v
    | cleanup =>
      refine ⟨_, fun zone => (relativeName (lower fqdn) zone).map fun rname =>
        (lockKey zone rname, cleanupLocked cfg zone rname v), ?_, Backend.checks_cleanup, fun _ => ?_⟩
      · simp only [Backend.run, cleanup, lift_map, bind_assoc, pure_bind]
      · exact Backend.enterOk_relativeOwner (b := backend) _ (fun _ _ => rfl) (fun _ _ => rfl) fun zone rname _ =>
          cleanupLocked_ok cfg zone rname v

end Cheti.Gandi
