import Cheti.Backend
/-!
# deSEC (src/providers/desec.rs)

Values are unquoted when read and quoted again when written, so a value written by someone else comes
back as it was only if it has the quoted form, which is how the API returns values. A write is a bulk
PATCH, which deletes a record set that is given no records.
-/

namespace Cheti.Desec

def provider : String := "desec"
def locks : KeyedMutex := ⟨"desec".toList⟩
def defaultTtl : Nat := 3600

structure DesecConfig where
  zoneOverride : Option Str
  ttl : Nat

structure DesecDomain where
  name : Str
  minimumTtl : Option Nat

structure DesecRrset where
  records : List Str

structure DesecRrsetWrite where
  subname : Str
  rrsetType : Str
  ttl : Nat
  records : List Str

inductive Req where
  /-- GET `/domains/?owns_qname=..` -/
  | domains (qname : Str)
  | domain (zone : Str)
  | rrset (zone rname : Str)
  | patch (zone : Str) (body : List DesecRrsetWrite)

abbrev Req.Doc : Req → Type
  | .domains _ => List DesecDomain
  | .domain _ => DesecDomain
  | .rrset _ _ => DesecRrset
  | .patch _ _ => Unit

abbrev M := Prog Req Req.Doc

structure ResolvedZone where
  name : Str
  ttl : Nat

def rrsetPath (zone rname : Str) : Str :=
  "/domains/".toList ++ encodePath zone ++ "/rrsets/".toList ++ encodePath rname ++ "/TXT/".toList

/-- Throttling becomes an explicit message that carries the `Retry-After` delay. -/
def checkError {α : Type} (method : String) (path : Str) (response : Response α) : DnsError :=
  if response.status.asU16 = 429 then
    .api s!"{provider} {method} {path} was rate limited (429), {retryHint response}"
  else apiError provider method path response

/-- The configured TTL, raised to the domain's minimum, or to the usual one. -/
def DesecDomain.intoResolved (d : DesecDomain) (ttl : Nat) : ResolvedZone :=
  ⟨d.name, max ttl (d.minimumTtl.getD defaultTtl)⟩

def fetchDomain (cfg : DesecConfig) (zone : Str) : M ResolvedZone :=
  request .get (Req.domain zone) fun response => do
    if response.status.asU16 = 404 then throw (.zoneNotFound zone)
    else
      check response.status.isSuccess (checkError "GET" ("/domains/".toList ++ encodePath zone ++ ['/']) response)
      let domain : DesecDomain ← response.json
      return domain.intoResolved cfg.ttl

def resolveZone (cfg : DesecConfig) (fqdn : Str) : M ResolvedZone :=
  match cfg.zoneOverride with
  | some zone => fetchDomain cfg zone
  | none => request .get (Req.domains (trimDots fqdn)) fun response => do
    check response.status.isSuccess (checkError "GET" "/domains/".toList response)
    let domains : List DesecDomain ← response.json
    match domains with
    | [] => throw (.zoneNotFound fqdn)
    | domain :: _ =>
      validateZone domain.name
      return domain.intoResolved cfg.ttl

def fetchExisting (zone rname : Str) : M (List Str) :=
  request .get (Req.rrset zone rname) fun response => do
    if response.status.asU16 = 404 then return []
    else
      check response.status.isSuccess (checkError "GET" (rrsetPath zone rname) response)
      let body : DesecRrset ← response.json
      return body.records.map unquote

/-- The apex is `@` in URLs but an empty subname in bodies. -/
def subname (rname : Str) : Str := if rname = "@".toList then [] else rname

def writeValues (zone rname : Str) (ttl : Nat) (values : List Str) : M Unit :=
  request .patch (Req.patch zone [⟨subname rname, txt, ttl, values.map quote⟩]) fun response =>
    check response.status.isSuccess
      (checkError "PATCH" ("/domains/".toList ++ encodePath zone ++ "/rrsets/".toList) response)

def presentLocked (zone : ResolvedZone) (rname value : Str) : M Unit := do
  let values ← fetchExisting zone.name rname
  if values.contains value then return
  else writeValues zone.name rname zone.ttl (values ++ [value])

def present (cfg : DesecConfig) (fqdn value : Str) : M Unit := do
  validateFqdn fqdn
  let fqdn := lower fqdn
  validateAcmeValue value
  let zone ← resolveZone cfg fqdn
  let rname ← relativeName fqdn zone.name
  withLock locks (lockKey zone.name rname) (presentLocked zone rname value)

def cleanupLocked (zone : ResolvedZone) (rname value : Str) : M Unit := do
  let values ← fetchExisting zone.name rname
  if !values.any (· == value) then return
  else writeValues zone.name rname zone.ttl (values.filter (· ≠ value))

def cleanup (cfg : DesecConfig) (fqdn value : Str) : M Unit := do
  validateFqdn fqdn
  let fqdn := lower fqdn
  let zone ← resolveZone cfg fqdn
  let rname ← relativeName fqdn zone.name
  withLock locks (lockKey zone.name rname) (cleanupLocked zone rname value)

/-! ## The API -/

structure Stored where
  ttl : Nat
  records : List Str

def owner (zone : Str) (w : DesecRrsetWrite) : Owner :=
  ⟨zone, if w.subname = [] then "@".toList else w.subname, w.rrsetType⟩

def DesecRrsetWrite.stored (w : DesecRrsetWrite) : Option Stored :=
  if w.records = [] then none else some ⟨w.ttl, w.records⟩

def serves : (q : Req) → Response q.Doc → Records Stored → Records Stored → Prop
  | .rrset zone rname, resp, s, s' => s' = s ∧
    match s.sets ⟨zone, rname, txt⟩ with
    | none => resp.status.asU16 = 404
    | some set => resp.status.isSuccess = true ∧ resp.body = .ok ⟨set.records⟩
  | .patch zone body, resp, s, s' =>
    resp.status.isSuccess = true ∧ s' = body.foldl (fun s w => s.put (owner zone w) w.stored) s
  | .domains _, _, s, s' | .domain _, _, s, s' => s' = s

abbrev backend : Backend where
  Q := Req
  B := Req.Doc
  Config := DesecConfig
  Zone := ResolvedZone
  zoneName zone := zone.name
  locks := locks
  resolveZone cfg fqdn := resolveZone cfg (lower fqdn)
  present := present
  cleanup := cleanup
  key zone name := (relativeName name zone).map (lockKey zone)
  owner := relativeOwner
  aboutZones
    | .domains _ | .domain _ => true
    | _ => false
  Set := Stored
  values := Stored.records
  ttl set := some set.ttl
  plain _ _ := True
  serves := serves
  reads
    | .patch _ _ => false
    | _ => true
  notFoundAnswers := true
  canonical x := quote (unquote x)
  keepsTtl := false
  polls := false

/-! ## Requests -/

open Fut (wp Always)

theorem throttles : backend.Throttles := by
  intro q resp s s' h hr
  cases q with
  | rrset zone rname => exact h.1
  | patch zone body => exact absurd hr (StatusCode.not_throttled h.1)
  | domains qname => exact h
  | domain zone => exact h

variable {zenv : (c : Call Req) → Reply Req.Doc c → Prop} {faulty : Bool} {s : Records Stored}

theorem fetchExisting_wp (zone rname : Str) :
    wp (fun _ _ => True) (backend.env zenv faulty) (fetchExisting zone rname).run
      (backend.Fetched faulty s (· = contents (backend.valuesAt s ⟨zone, rname, txt⟩))) s := by
  refine Backend.wp_record throttles rfl (fun resp s' h => ?_) (fun resp h => ?_) fun hf e => ?_
  · obtain ⟨rfl, h⟩ := h
    refine ⟨rfl, Or.inl ⟨_, ?_, rfl⟩⟩
    cases hset : s'.sets ⟨zone, rname, txt⟩ with
    | none => simp_all [Backend.valuesAt, contents]
    | some body =>
      rw [hset] at h
      simp [Backend.valuesAt, hset, StatusCode.ne_404 h.1, check_ok h.1, Response.json_ok h.2, contents]
  · rcases Backend.failed_ok h with ⟨hsucc, -, e, he⟩ | ⟨hsucc, h404⟩
    · exact ⟨.http e, by simp [StatusCode.ne_404 hsucc, check_ok hsucc, Response.json_error he]⟩
    · exact ⟨checkError "GET" (rrsetPath zone rname) resp, by simp [h404 rfl, check_error hsucc]⟩
  · exact ⟨rfl, Or.inr ⟨hf, e, rfl⟩⟩

/-- An empty subname is the apex again. -/
theorem owner_subname {rname : Str} (h : rname ≠ []) (zone : Str) (ttl : Nat) (records : List Str) :
    owner zone ⟨subname rname, txt, ttl, records⟩ = ⟨zone, rname, txt⟩ := by
  unfold owner subname
  by_cases hr : rname = "@".toList
  · simp [hr]
  · simp only [if_neg hr, if_neg h]

theorem writeValues_wp (zone : Str) {rname : Str} (hr : rname ≠ []) (ttl : Nat) (values : List Str) :
    wp (fun _ _ => True) (backend.env zenv faulty) (writeValues zone rname ttl values).run
      (backend.Wrote faulty s ⟨zone, rname, txt⟩
        (DesecRrsetWrite.stored ⟨subname rname, txt, ttl, values.map quote⟩)) s := by
  refine Backend.wp_record throttles rfl (fun resp s' h => ?_) (fun resp h => ?_) fun hf e => ?_
  · refine Or.inl ⟨Or.inl (check_ok h.1), ?_⟩
    rw [h.2, List.foldl_cons, List.foldl_nil, owner_subname hr]
  · rcases Backend.failed_ok h with ⟨-, hreads, -⟩ | ⟨hsucc, -⟩
    · cases hreads
    · exact ⟨_, check_error hsucc⟩
  · exact Or.inr ⟨hf, ⟨e, rfl⟩, rfl⟩

/-! ## Calls -/

/-- What is written is the changed set, every kept value quoted again. -/
theorem written_of_contents {op : Op} {v : Str} {o : Owner} {values : List Str} {sub : Str} {ttl : Nat}
    (h : values = contents (op.apply v (backend.valuesAt s o))) :
    backend.Written op v o s (DesecRrsetWrite.stored ⟨sub, txt, ttl, values.map quote⟩) := by
  unfold DesecRrsetWrite.stored
  split
  · rename_i hnil
    simpa [h, contents, Backend.Written] using hnil
  · rename_i hnil
    exact ⟨by simp [h, contents, Function.comp_def], hnil, trivial, fun h => by cases h⟩

theorem presentLocked_ok (zone : ResolvedZone) {rname : Str} (hr : rname ≠ []) (value : Str) :
    backend.BodyOk .present value ⟨zone.name, rname, txt⟩ (presentLocked zone rname value) := by
  refine ⟨Fut.always_run_bind backend.internal_request fun values => ?_, fun zenv faulty s _ => ?_⟩
  · split
    · trivial
    · exact backend.internal_request
  · refine Backend.wp_fetched (fetchExisting_wp zone.name rname) (forall_eq.2 ?_)
    have hiff : (contents (backend.valuesAt s ⟨zone.name, rname, txt⟩)).contains value =
        holds value (backend.valuesAt s ⟨zone.name, rname, txt⟩) := by
      rw [Bool.eq_iff_iff, holds_iff, List.contains_iff_mem]
    rw [hiff]
    split
    · rename_i h
      exact Or.inl ⟨present_apply_eq_iff.2 h, rfl, rfl⟩
    · rename_i h
      refine Backend.wp_wrote (writeValues_wp zone.name hr zone.ttl _) (by rwa [Ne, present_apply_eq_iff])
        (written_of_contents ?_)
      rw [present_apply, if_neg h]
      simp [contents]

theorem cleanupLocked_ok (zone : ResolvedZone) {rname : Str} (hr : rname ≠ []) (value : Str) :
    backend.BodyOk .cleanup value ⟨zone.name, rname, txt⟩ (cleanupLocked zone rname value) := by
  refine ⟨Fut.always_run_bind backend.internal_request fun values => ?_, fun zenv faulty s _ => ?_⟩
  · split
    · trivial
    · exact backend.internal_request
  · refine Backend.wp_fetched (fetchExisting_wp zone.name rname) (forall_eq.2 ?_)
    have hiff : (contents (backend.valuesAt s ⟨zone.name, rname, txt⟩)).any (· == value) =
        holds value (backend.valuesAt s ⟨zone.name, rname, txt⟩) := by
      rw [Bool.eq_iff_iff, holds_iff]
      simp
    rw [hiff]
    split
    · rename_i h
      exact Or.inl ⟨cleanup_apply_eq_iff.2 (by simpa using h), rfl, rfl⟩
    · rename_i h
      refine Backend.wp_wrote (writeValues_wp zone.name hr zone.ttl _) ?_ (written_of_contents ?_)
      · rw [Ne, cleanup_apply_eq_iff]; simpa using h
      · rw [cleanup_apply, contents, contents, List.filter_map]
        rfl

theorem sound : backend.Sound where
  throttles := throttles
  answers q s hq := by
    cases q with
    | rrset zone rname =>
      cases hset : s.sets ⟨zone, rname, txt⟩ with
      | none => exact ⟨⟨⟨404, ""⟩, none, none, none, [], .error ""⟩, s, rfl, by simp [hset]⟩
      | some set => exact ⟨⟨⟨200, ""⟩, none, none, none, [], .ok ⟨set.records⟩⟩, s, rfl, by simp [hset, StatusCode.isSuccess]⟩
    | patch zone body => exact ⟨⟨⟨200, ""⟩, none, none, none, [], .ok ()⟩, _, rfl, rfl⟩
    | domains qname => cases hq
    | domain zone => cases hq
  owner_txt _ _ := rfl
  unquote_canonical _ := by simp
  canonical_quote _ := by simp
  call cfg op fqdn v := by
    cases op with
    | present =>
      refine ⟨_, fun zone => (relativeName (lower fqdn) zone.name).map fun rname =>
        (lockKey zone.name rname, presentLocked zone rname v), ?_, Backend.checks_present, fun hc => ?_⟩
      · simp only [Backend.run, present, lift_bind, lift_map, bind_assoc, pure_bind]
      · exact Backend.enterOk_relativeOwner (b := backend) _ (fun _ _ => rfl) (fun _ _ => rfl) fun zone rname h =>
          presentLocked_ok zone (relativeName_ne_nil (Backend.validateFqdn_of_checks hc) h) v
    | cleanup =>
      refine ⟨_, fun zone => (relativeName (lower fqdn) zone.name).map fun rname =>
        (lockKey zone.name rname, cleanupLocked zone rname v), ?_, Backend.checks_cleanup, fun hc => ?_⟩
      · simp only [Backend.run, cleanup, lift_map, bind_assoc, pure_bind]
      · exact Backend.enterOk_relativeOwner (b := backend) _ (fun _ _ => rfl) (fun _ _ => rfl) fun zone rname h =>
          cleanupLocked_ok zone (relativeName_ne_nil hc h) v

end Cheti.Desec
