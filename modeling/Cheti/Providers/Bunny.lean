import Cheti.Listing
import Cheti.RecordSet
/-!
# Bunny (src/providers/bunny.rs)

| here | there |
| --- | --- |
| `resolveZone`, `isSuffix`      | `resolve_zone` (bunny.rs:138-160), `is_suffix` (bunny.rs:284-289) |
| `listZones`                    | `list_zones` (bunny.rs:163-205) |
| `listMatchingRecords`          | `list_matching_records` (bunny.rs:209-237), with `record_name` and `record_value` (bunny.rs:292-308) |
| `createRecord`, `deleteRecord` | `create_record` (bunny.rs:239-263), `delete_record` (bunny.rs:265-280) |
| `checkError`, `truncate`       | `check_error` (bunny.rs:312-361), `truncate` (bunny.rs:363-372) |
| `present`, `cleanup`           | `present` (bunny.rs:429-445), `cleanup` (bunny.rs:447-463), with `bunny_name` (bunny.rs:467-470) |

A record is added with a PUT on the collection, so each PUT that is carried out adds one.
-/

namespace Cheti.Bunny

def provider : String := "bunny"
def locks : KeyedMutex := ⟨"bunny".toList⟩
/-- `DnsRecordTypes` value of TXT in the Bunny API. -/
def recordTypeTxt : Nat := 3
def maxPages : Nat := 50
def maxErrorMessage : Nat := 512

structure BunnyErrorBody where
  errorKey : Option Str
  message : Option Str

structure BunnyConfig where
  zoneOverride : Option Str
  ttl : Nat
  /-- `serde_json::from_str::<BunnyErrorBody>` -/
  decodeError : Str → Option BunnyErrorBody

structure Zone where
  id : Int
  domain : Str
deriving DecidableEq

structure BunnyZoneSummary where
  id : Int
  domain : Str

structure BunnyZoneList where
  items : Option (List BunnyZoneSummary)
  hasMoreItems : Bool

structure BunnyRecord where
  id : Int
  type : Nat
  name : Option Str
  value : Option Str

structure BunnyZone where
  records : Option (List BunnyRecord)

structure AddRecordBody where
  type : Nat
  ttl : Nat
  value : Str
  name : Str

inductive Req where
  | zones (search : Str) (page : Nat)
  | zone (id : Int)
  | create (zone : Int) (body : AddRecordBody)
  | delete (zone record : Int)

abbrev Req.Doc : Req → Type
  | .zones _ _ => BunnyZoneList
  | .zone _ => BunnyZone
  | .create _ _ | .delete _ _ => Unit

abbrev M := Prog Req Req.Doc

def zonePath (zoneId : Int) : Str := s!"/dnszone/{zoneId}".toList

def recordsPath (zoneId : Int) : Str := s!"/dnszone/{zoneId}/records".toList

def recordItemPath (zoneId recordId : Int) : Str := s!"/dnszone/{zoneId}/records/{recordId}".toList

def truncate (text : Str) : Str := truncateAt maxErrorMessage text

/-- A rejected key becomes `Auth`, throttling an explicit message; of a JSON body the key and the message
are surfaced. -/
def checkError {α : Type} (cfg : BunnyConfig) (method : String) (path : Str) (response : Response α) : DnsError :=
  if response.status.asU16 = 429 then
    .api s!"{provider} {method} {path} was rate limited (429), {retryHint response}"
  else if response.status.asU16 = 401 then .auth s!"{provider} {method} {path} rejected the API key (401)"
  else if !response.contentType.any (contains "json") then apiError provider method path response
  else
    let detail := match cfg.decodeError response.text with
      | some ⟨some key, some message⟩ => truncate key ++ ": ".toList ++ truncate message
      | some ⟨none, some message⟩ => truncate message
      | _ => truncate response.text
    .api s!"{provider} {method} {path} returned {response.status}: {detail}"

/-- The zone is the name itself or one of its parent domains. Lengths and positions count bytes, which in
a validated name are characters. -/
def isSuffix (name zone : Str) : Bool :=
  let start := Text.utf8Len name - Text.utf8Len zone
  eqIgnoreCase name zone || (decide (Text.utf8Len name > Text.utf8Len zone) &&
    name[start - 1]? == some '.' && eqIgnoreCase (name.drop start) zone)

def listZones (cfg : BunnyConfig) (search : Str) : M (List Zone) :=
  let fetch page := request .get (Req.zones search page) fun response => do
    check response.status.isSuccess (checkError cfg "GET" "/dnszone".toList response)
    let body : BunnyZoneList ← response.json
    return {
      items := (body.items.getD []).map fun z => ⟨z.id, lower (trimDots z.domain)⟩
      more := if body.hasMoreItems then some (.api s!"{provider} GET /dnszone: more than {maxPages} pages of zones")
        else none }
  readPages fetch (maxPages - 1) 1 []

/-- The account zone whose domain is the longest suffix of the name. A zone has at least two labels, so
the last two of the name are searched for. -/
def resolveZone (cfg : BunnyConfig) (fqdn : Str) : M Zone :=
  match cfg.zoneOverride with
  | some zone => do
    let zones ← listZones cfg zone
    okOr (zones.find? fun z => z.domain = zone) (.zoneNotFound zone)
  | none => do
    let name := trimDots fqdn
    let labels := name.splitOn '.'
    let zones ← listZones cfg (joinDots (labels.drop (labels.length - 2)))
    okOr (maxByKey (fun z => Text.utf8Len z.domain) (zones.filter fun z => isSuffix name z.domain)) (.zoneNotFound fqdn)

/-- The apex is stored with an empty name; `@` is accepted as well. -/
def recordName (record : BunnyRecord) : Str :=
  if record.name = some "@".toList then [] else record.name.getD []

def recordValue (record : BunnyRecord) : Str := trimQuotes (trim (record.value.getD []))

def listMatchingRecords (cfg : BunnyConfig) (zone : Zone) (rname : Str) : M (List BunnyRecord) :=
  request .get (Req.zone zone.id) fun response => do
    if response.status.asU16 = 404 then throw (.zoneNotFound zone.domain)
    else
      check response.status.isSuccess (checkError cfg "GET" (zonePath zone.id) response)
      let body : BunnyZone ← response.json
      return (body.records.getD []).filter fun r => r.type = recordTypeTxt ∧ eqIgnoreCase (recordName r) rname

def createRecord (cfg : BunnyConfig) (zone : Zone) (rname value : Str) : M Unit :=
  request .put (Req.create zone.id ⟨recordTypeTxt, cfg.ttl, value, rname⟩) fun response => do
    if response.status.asU16 = 404 then throw (.zoneNotFound zone.domain)
    else check response.status.isSuccess (checkError cfg "PUT" (recordsPath zone.id) response)

def deleteRecord (cfg : BunnyConfig) (zone : Zone) (recordId : Int) : M Unit :=
  request .delete (Req.delete zone.id recordId) fun response =>
    check (response.status.isSuccess || response.status.asU16 == 404)
      (checkError cfg "DELETE" (recordItemPath zone.id recordId) response)

/-- The name relative to the zone, the apex as an empty string. -/
def bunnyName (fqdn zone : Str) : Except DnsError Str := do
  let rname ← relativeName fqdn zone
  return if rname = "@".toList then [] else rname

def presentLocked (cfg : BunnyConfig) (zone : Zone) (rname value : Str) : M Unit := do
  let existing ← listMatchingRecords cfg zone rname
  if existing.any (recordValue · = value) then return
  else createRecord cfg zone rname value

def present (cfg : BunnyConfig) (fqdn value : Str) : M Unit := do
  validateFqdn fqdn
  let fqdn := lower fqdn
  validateAcmeValue value
  let zone ← resolveZone cfg fqdn
  let rname ← bunnyName fqdn zone.domain
  withLock locks (lockKey zone.domain rname) (presentLocked cfg zone rname value)

def cleanupLocked (cfg : BunnyConfig) (zone : Zone) (rname value : Str) : M Unit := do
  let existing ← listMatchingRecords cfg zone rname
  deleteEach (fun r => deleteRecord cfg zone r.id) (existing.filter (recordValue · = value))

def cleanup (cfg : BunnyConfig) (fqdn value : Str) : M Unit := do
  validateFqdn fqdn
  let fqdn := lower fqdn
  let zone ← resolveZone cfg fqdn
  let rname ← bunnyName fqdn zone.domain
  withLock locks (lockKey zone.domain rname) (cleanupLocked cfg zone rname value)

end Cheti.Bunny
