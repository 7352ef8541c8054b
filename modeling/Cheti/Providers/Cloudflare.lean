import Cheti.Listing
import Cheti.RecordSet
/-!
# Cloudflare (src/providers/cloudflare.rs)

| here | there |
| --- | --- |
| `resolveZoneName`, `resolveZoneId` | `resolve_zone_name` (cloudflare.rs:141-154), `resolve_zone_id` (cloudflare.rs:156-194) |
| `listMatchingRecords`              | `list_matching_records` (cloudflare.rs:217-248) |
| `createRecord`, `deleteRecord`     | `create_record` (cloudflare.rs:250-283), `delete_record` (cloudflare.rs:285-305) |
| `CfEnvelope.intoResult`            | `into_result` (cloudflare.rs:319-328) |
| `present`, `cleanup`               | `present` (cloudflare.rs:361-382), `cleanup` (cloudflare.rs:384-401) |
-/

namespace Cheti.Cloudflare

def provider : String := "cloudflare"
def locks : KeyedMutex := ⟨"cloudflare".toList⟩

structure ZoneOverride where
  name : Str
  id : Option Str

structure CloudflareConfig where
  zoneOverride : Option ZoneOverride
  ttl : Nat

structure CfEnvelope (T : Type) where
  success : Bool
  /-- The errors, as their `{:?}`. -/
  errors : String
  result : Option T

structure CfZone where
  id : Str
  name : Str

structure CfDnsRecord where
  id : Str
  content : Str

structure CreateRecordBody where
  type : Str
  name : Str
  content : Str
  ttl : Nat

inductive Req where
  | zones (name : Str)
  /-- The TXT records of the name, one page of a hundred. -/
  | list (zoneId name : Str)
  | create (zoneId : Str) (body : CreateRecordBody)
  | delete (zoneId recordId : Str)

abbrev Req.Doc : Req → Type
  | .zones _ => CfEnvelope (List CfZone)
  | .list _ _ => CfEnvelope (List CfDnsRecord)
  | .create _ _ => CfEnvelope CfDnsRecord
  | .delete _ _ => Unit

abbrev M := Prog Req Req.Doc

def CfEnvelope.intoResult {T : Type} (e : CfEnvelope T) (opLabel : String) : Except DnsError T := do
  check e.success (.api s!"cloudflare {opLabel}: {e.errors}")
  okOr e.result (.api s!"cloudflare {opLabel}: missing result")

theorem CfEnvelope.intoResult_ok {T : Type} {e : CfEnvelope T} {label : String} {a : T} :
    e.intoResult label = .ok a ↔ e.success = true ∧ e.result = some a := by
  simp [intoResult, bind_eq_ok, check_eq_ok, okOr_eq_ok]

def recordsPath (zoneId : Str) : Str := s!"/zones/{zoneId}/dns_records".toList

def resolveZoneName (cfg : CloudflareConfig) (fqdn : Str) : M Str :=
  match cfg.zoneOverride with
  | some o => do
    let _ ← relativeName fqdn o.name
    return o.name
  | none => do
    let zone ← findZone fqdn
    validateFqdn zone
    return zone

def lookupZoneId (zoneName : Str) : M Str :=
  request .get (Req.zones zoneName) fun response => do
    check response.status.isSuccess (apiError provider "GET" "/zones".toList response)
    let body : CfEnvelope (List CfZone) ← response.json
    let zones ← body.intoResult s!"GET /zones?name={zoneName}"
    let zone ← okOr (zones.find? fun z => z.name = zoneName) (.zoneNotFound zoneName)
    return zone.id

def resolveZoneId (cfg : CloudflareConfig) (zoneName : Str) : M Str :=
  match cfg.zoneOverride.bind ZoneOverride.id with
  | some id => pure id
  | none => cached zoneName (lookupZoneId zoneName)

def listMatchingRecords (zoneId fqdn : Str) : M (List CfDnsRecord) :=
  request .get (Req.list zoneId (trimDots fqdn)) fun response => do
    check response.status.isSuccess (apiError provider "GET" (recordsPath zoneId) response)
    let body : CfEnvelope (List CfDnsRecord) ← response.json
    body.intoResult s!"GET {recordsPath zoneId}"

/-- The value is sent in quotes, as Cloudflare stores it. -/
def createRecord (cfg : CloudflareConfig) (zoneId fqdn value : Str) : M Unit :=
  request .post (Req.create zoneId ⟨txt, trimDots fqdn, quote value, cfg.ttl⟩) fun response => do
    check response.status.isSuccess (apiError provider "POST" (recordsPath zoneId) response)
    let env : CfEnvelope CfDnsRecord ← response.json
    let _ ← env.intoResult s!"POST {recordsPath zoneId}"
    return

def deleteRecord (zoneId recordId : Str) : M Unit :=
  request .delete (Req.delete zoneId recordId) fun response =>
    check (response.status.isSuccess || response.status.asU16 == 404)
      (apiError provider "DELETE" (recordsPath zoneId) response)

def presentLocked (cfg : CloudflareConfig) (zoneId fqdn value : Str) : M Unit := do
  let existing ← listMatchingRecords zoneId fqdn
  if existing.any (trimQuotes ·.content = value) then return
  else createRecord cfg zoneId fqdn value

def present (cfg : CloudflareConfig) (fqdn value : Str) : M Unit := do
  validateFqdn fqdn
  let fqdn := lower fqdn
  validateAcmeValue value
  let zoneName ← resolveZoneName cfg fqdn
  let zoneId ← resolveZoneId cfg zoneName
  withLock locks (lockKey zoneId fqdn) (presentLocked cfg zoneId fqdn value)

def cleanupLocked (zoneId fqdn value : Str) : M Unit := do
  let existing ← listMatchingRecords zoneId fqdn
  deleteEach (fun rec => deleteRecord zoneId rec.id) (existing.filter (trimQuotes ·.content = value))

def cleanup (cfg : CloudflareConfig) (fqdn value : Str) : M Unit := do
  validateFqdn fqdn
  let fqdn := lower fqdn
  let zoneName ← resolveZoneName cfg fqdn
  let zoneId ← resolveZoneId cfg zoneName
  withLock locks (lockKey zoneId fqdn) (cleanupLocked zoneId fqdn value)

end Cheti.Cloudflare
