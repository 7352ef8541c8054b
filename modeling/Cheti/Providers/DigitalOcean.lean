import Cheti.Listing
import Cheti.RecordSet
/-!
# DigitalOcean (src/providers/digitalocean.rs)

| here | there |
| --- | --- |
| `resolveZone`                  | `resolve_zone` (digitalocean.rs:111-120) |
| `listMatchingRecords`          | `list_matching_records` (digitalocean.rs:140-199) |
| `createRecord`, `deleteRecord` | `create_record` (digitalocean.rs:201-226), `delete_record` (digitalocean.rs:228-249) |
| `recordValue`                  | `record_value` (digitalocean.rs:254-256) |
| `present`, `cleanup`           | `present` (digitalocean.rs:295-311), `cleanup` (digitalocean.rs:313-329) |

The listing is filtered by the full name, the body of a creation takes the relative one.
-/

namespace Cheti.DigitalOcean

def provider : String := "digitalocean"
def locks : KeyedMutex := ⟨"digitalocean".toList⟩
def maxPages : Nat := 50

structure DigitalOceanConfig where
  zoneOverride : Option Str
  ttl : Nat

structure DoRecord where
  id : Nat
  data : Str

structure DoRecordList where
  domainRecords : List DoRecord
  /-- `links.pages.next`, where all three are there. -/
  next : Option Str

structure CreateRecordBody where
  type : Str
  name : Str
  data : Str
  ttl : Nat

inductive Req where
  | list (zone name : Str) (page : Nat)
  | create (zone : Str) (body : CreateRecordBody)
  | delete (zone : Str) (recordId : Nat)

abbrev Req.Doc : Req → Type
  | .list _ _ _ => DoRecordList
  | .create _ _ | .delete _ _ => Unit

abbrev M := Prog Req Req.Doc

def recordsPath (zone : Str) : Str := "/domains/".toList ++ encodePath zone ++ "/records".toList

def resolveZone (cfg : DigitalOceanConfig) (fqdn : Str) : M Str :=
  match cfg.zoneOverride with
  | some zone => pure zone
  | none => do
    let zone ← findZone fqdn
    validateZone zone
    return zone

/-- Of the next link only its presence counts: the page is asked for by its number. -/
def listMatchingRecords (zone fqdn : Str) : M (List DoRecord) :=
  let fetch page := request .get (Req.list zone (trimDots fqdn) page) fun response => do
    if response.status.asU16 = 404 then throw (.zoneNotFound zone)
    else
      check response.status.isSuccess (apiError provider "GET" (recordsPath zone) response)
      let body : DoRecordList ← response.json
      return {
        items := body.domainRecords
        more := body.next.map fun _ =>
          .api s!"{provider} GET {recordsPath zone}: more than {maxPages} pages of records" }
  readPages fetch (maxPages - 1) 1 []

def createRecord (cfg : DigitalOceanConfig) (zone rname value : Str) : M Unit :=
  request .post (Req.create zone ⟨txt, rname, value, cfg.ttl⟩) fun response => do
    if response.status.asU16 = 404 then throw (.zoneNotFound zone)
    else check response.status.isSuccess (apiError provider "POST" (recordsPath zone) response)

def deleteRecord (zone : Str) (recordId : Nat) : M Unit :=
  request .delete (Req.delete zone recordId) fun response =>
    check (response.status.isSuccess || response.status.asU16 == 404)
      (apiError provider "DELETE" (recordsPath zone ++ s!"/{recordId}".toList) response)

def recordValue (record : DoRecord) : Str := trimQuotes (trim record.data)

def presentLocked (cfg : DigitalOceanConfig) (zone rname fqdn value : Str) : M Unit := do
  let existing ← listMatchingRecords zone fqdn
  if existing.any (recordValue · = value) then return
  else createRecord cfg zone rname value

def present (cfg : DigitalOceanConfig) (fqdn value : Str) : M Unit := do
  validateFqdn fqdn
  let fqdn := lower fqdn
  validateAcmeValue value
  let zone ← resolveZone cfg fqdn
  let rname ← relativeName fqdn zone
  withLock locks (lockKey zone rname) (presentLocked cfg zone rname fqdn value)

def cleanupLocked (zone fqdn value : Str) : M Unit := do
  let existing ← listMatchingRecords zone fqdn
  deleteEach (fun rec => deleteRecord zone rec.id) (existing.filter (recordValue · = value))

def cleanup (cfg : DigitalOceanConfig) (fqdn value : Str) : M Unit := do
  validateFqdn fqdn
  let fqdn := lower fqdn
  let zone ← resolveZone cfg fqdn
  let rname ← relativeName fqdn zone
  withLock locks (lockKey zone rname) (cleanupLocked zone fqdn value)

end Cheti.DigitalOcean
