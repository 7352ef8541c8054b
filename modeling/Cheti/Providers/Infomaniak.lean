import Cheti.Json
import Cheti.Listing
import Cheti.RecordSet
/-!
# Infomaniak (src/providers/infomaniak.rs)

| here | there |
| --- | --- |
| `resolveZone`, `lookupZone`    | `resolve_zone` (infomaniak.rs:138-164), its loop |
| `fetchZone`, `listTxtRecords`  | `fetch_zone` (infomaniak.rs:168-188), `list_txt_records` (infomaniak.rs:192-234) |
| `createRecord`, `deleteRecord` | `create_record` (infomaniak.rs:236-273), `delete_record` (infomaniak.rs:275-295) |
| `sameSource`, `truncate`       | `same_source` (infomaniak.rs:300-306), `truncate` (infomaniak.rs:318-328) |
| `IkEnvelope.intoData`, `IkEnvelope.errorCode` | `into_data` (infomaniak.rs:345-357), `error_code` (infomaniak.rs:359-361) |
| `present`, `cleanup`           | `present` (infomaniak.rs:410-422), `cleanup` (infomaniak.rs:424-437) |
-/

namespace Cheti.Infomaniak

def provider : String := "infomaniak"
def locks : KeyedMutex := ⟨"infomaniak".toList⟩
/-- The error code of a creation when an identical record exists. -/
def alreadyExists : Str := "dns_record_already_exists".toList
def maxPages : Nat := 100

structure IkError where
  code : Option Str
  description : Option Str

/-- `fmt` (infomaniak.rs:373-380) -/
instance : ToString IkError where
  toString e :=
    let code := e.code.getD "unknown".toList
    let description := e.description.getD []
    s!"{code} ({description})"

structure IkEnvelope (T : Type) where
  result : Str
  data : Option T
  error : Option IkError
  pages : Option Nat

structure InfomaniakConfig where
  zoneOverride : Option Str
  ttl : Nat
  /-- `serde_json::from_str::<IkEnvelope<serde_json::Value>>` -/
  decodeError : Str → Option (IkEnvelope Value)

structure IkZone where
  fqdn : Str

structure IkRecord where
  id : Nat
  source : Str
  recordType : Str
  target : Str

structure IkRecordWrite where
  source : Str
  recordType : Str
  target : Str
  ttl : Nat

inductive Req where
  | zone (zone : Str)
  /-- One page of the TXT records of the zone. -/
  | list (zone : Str) (page : Nat)
  | create (zone : Str) (body : IkRecordWrite)
  | delete (zone : Str) (recordId : Nat)

abbrev Req.Doc : Req → Type
  | .zone _ => IkEnvelope IkZone
  | .list _ _ => IkEnvelope (List IkRecord)
  | .create _ _ | .delete _ _ => IkEnvelope Value

abbrev M := Prog Req Req.Doc

def zonePath (zone : Str) : Str := "/2/zones/".toList ++ encodePath zone

def recordsPath (zone : Str) : Str := zonePath zone ++ "/records".toList

def recordPath (zone : Str) (recordId : Nat) : Str := zonePath zone ++ s!"/records/{recordId}".toList

def truncate (raw : Str) : Str := truncateAt 512 raw

def IkEnvelope.intoData {T : Type} (e : IkEnvelope T) (method : String) (path : Str) : Except DnsError T :=
  if e.result ≠ "success".toList then
    let details := (e.error.map ToString.toString).getD "no error details"
    .error (.api s!"{provider} {method} {path}: result {e.result}: {details}")
  else okOr e.data (.api s!"{provider} {method} {path}: missing data")

theorem IkEnvelope.intoData_ok {T : Type} {e : IkEnvelope T} {method : String} {path : Str} {a : T} :
    e.intoData method path = .ok a ↔ e.result = "success".toList ∧ e.data = some a := by
  unfold intoData
  split <;> simp_all [okOr_eq_ok]

def IkEnvelope.errorCode {T : Type} (e : IkEnvelope T) : Option Str := e.error.bind IkError.code

/-- The zone's fqdn, or nothing when no zone of the account has that name. -/
def fetchZone (candidate : Str) : M (Option Str) :=
  request .get (Req.zone candidate) fun response => do
    if response.status.asU16 = 404 then return none
    else
      check response.status.isSuccess (apiError provider "GET" (zonePath candidate) response)
      let body : IkEnvelope IkZone ← response.json
      let zone ← body.intoData "GET" (zonePath candidate)
      return some (lower (trimDots zone.fqdn))

/-- The candidates are asked for from the name itself on, so that a delegated sub-zone is found before
its parent. -/
def lookupZone (fqdn name : Str) : M Str := do
  match ← firstSome fetchZone (suffixes (name.splitOn '.')) with
  | some zone =>
    validateZone zone
    let _ ← relativeName name zone
    return zone
  | none => throw (.zoneNotFound fqdn)

def resolveZone (cfg : InfomaniakConfig) (fqdn : Str) : M Str :=
  match cfg.zoneOverride with
  | some zone => pure zone
  | none => cached (normalizeName fqdn) (lookupZone fqdn (normalizeName fqdn))

/-- The record's relative source is our relative name. The apex may be reported as `.`, `@` or nothing. -/
def sameSource (source rname : Str) : Bool :=
  let source := trimDots source
  if rname = "@".toList then source.isEmpty || source == "@".toList else eqIgnoreCase source rname

def listTxtRecords (zone rname : Str) : M (List IkRecord) :=
  let path := recordsPath zone
  let fetch page := request .get (Req.list zone page) fun response => do
    check response.status.isSuccess (apiError provider "GET" path response)
    let body : IkEnvelope (List IkRecord) ← response.json
    let pages := body.pages.getD 1
    let records ← body.intoData "GET" path
    return {
      items := records.filter fun r => eqIgnoreCase r.recordType txt && sameSource r.source rname
      more := if page ≥ pages then none
        else some (.api s!"{provider} GET {path}: TXT listing has {pages} pages, more than the {maxPages} read") }
  readPages fetch (maxPages - 1) 1 []

/-- The apex is `@` for us but `.` for the API. A record that is there already is what we want. -/
def createRecord (cfg : InfomaniakConfig) (zone rname value : Str) : M Unit :=
  let path := recordsPath zone
  let source := if rname = "@".toList then ".".toList else rname
  request .post (Req.create zone ⟨source, txt, value, cfg.ttl⟩) fun response => do
    if response.status.isSuccess then
      let body : IkEnvelope Value ← response.json
      let _ ← body.intoData "POST" path
      return
    else if ((cfg.decodeError response.text).bind IkEnvelope.errorCode) = some alreadyExists then return
    else throw (.api s!"{provider} POST {path} returned {response.status}: {truncate response.text}")

def deleteRecord (zone : Str) (recordId : Nat) : M Unit :=
  let path := recordPath zone recordId
  request .delete (Req.delete zone recordId) fun response => do
    if response.status.asU16 = 404 then return
    else
      check response.status.isSuccess (apiError provider "DELETE" path response)
      let body : IkEnvelope Value ← response.json
      let _ ← body.intoData "DELETE" path
      return

def presentLocked (cfg : InfomaniakConfig) (zone rname value : Str) : M Unit := do
  let existing ← listTxtRecords zone rname
  if existing.any (unquote ·.target = value) then return
  else createRecord cfg zone rname value

def present (cfg : InfomaniakConfig) (fqdn value : Str) : M Unit := do
  validateFqdn fqdn
  validateAcmeValue value
  let zone ← resolveZone cfg fqdn
  let rname ← relativeName (lower fqdn) zone
  withLock locks (lockKey zone rname) (presentLocked cfg zone rname value)

def cleanupLocked (zone rname value : Str) : M Unit := do
  let existing ← listTxtRecords zone rname
  deleteEach (fun record => deleteRecord zone record.id) (existing.filter (unquote ·.target = value))

def cleanup (cfg : InfomaniakConfig) (fqdn value : Str) : M Unit := do
  validateFqdn fqdn
  let zone ← resolveZone cfg fqdn
  let rname ← relativeName (lower fqdn) zone
  withLock locks (lockKey zone rname) (cleanupLocked zone rname value)

end Cheti.Infomaniak
