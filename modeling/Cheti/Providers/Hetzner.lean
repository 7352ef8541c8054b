import Cheti.Listing
import Cheti.Polling
import Cheti.RecordSet
/-!
# Hetzner (src/providers/hetzner.rs)

| here | there |
| --- | --- |
| `resolveZone`, `zoneExists` | `resolve_zone` (hetzner.rs:131-145), `zone_exists` (hetzner.rs:147-163) |
| `fetchExisting`             | `fetch_existing` (hetzner.rs:167-195) |
| `runRecordsAction`          | `run_records_action` (hetzner.rs:199-230) |
| `waitForAction`, `fetchAction`, `settled` | `wait_for_action` (hetzner.rs:232-264), `fetch_action` (hetzner.rs:266-282), the check for a failed action |
| `checkError`                | `check_error` (hetzner.rs:287-308) |
| `present`, `cleanup`        | `present` (hetzner.rs:376-399), `cleanup` (hetzner.rs:401-418) |

Single values are added to and removed from a record set by actions that run asynchronously.
-/

namespace Cheti.Hetzner

def provider : String := "hetzner"
def locks : KeyedMutex := ⟨"hetzner".toList⟩

structure HetznerConfig where
  zoneOverride : Option Str
  ttl : Nat

structure HetznerZone where
  name : Str
deriving DecidableEq

structure HetznerZones where
  zones : List HetznerZone

structure HetznerRecord where
  value : Str

structure HetznerRrset where
  records : List HetznerRecord

structure HetznerRecordsWrite where
  ttl : Option Nat
  records : List HetznerRecord

structure HetznerActionError where
  code : Str
  message : Str

structure HetznerAction where
  id : Nat
  command : Str
  status : Str
  error : Option HetznerActionError

inductive Req where
  | zones (name : Str)
  | rrset (zone rname : Str)
  | action (zone rname action : Str) (body : HetznerRecordsWrite)
  | getAction (id : Nat)

abbrev Req.Doc : Req → Type
  | .zones _ => HetznerZones
  | .rrset _ _ => HetznerRrset
  | .action _ _ _ _ | .getAction _ => HetznerAction

abbrev M := Prog Req Req.Doc

def rrsetPath (zone rname : Str) : Str :=
  "/zones/".toList ++ encodePath zone ++ "/rrsets/".toList ++ encodePath rname ++ "/TXT".toList

/-- Throttling becomes an explicit message that carries the time of the reset. -/
def checkError {α : Type} (method : String) (path : Str) (response : Response α) : DnsError :=
  if response.status.asU16 = 429 then
    let hint := match response.rateLimitReset with
      | some ts => s!"limit resets at unix time {ts}"
      | none => "retry later"
    .api s!"{provider} {method} {path} was rate limited (429), {hint}"
  else apiError provider method path response

def zoneExists (name : Str) : M Bool :=
  request .get (Req.zones name) fun response => do
    check response.status.isSuccess (checkError "GET" "/zones".toList response)
    let body : HetznerZones ← response.json
    return body.zones.any fun z => z.name = name

/-- Candidates are tried from the shortest suffix up: the API hosts no delegated sub-zones. -/
def resolveZone (cfg : HetznerConfig) (fqdn : Str) : M Str :=
  match cfg.zoneOverride with
  | some zone => pure zone
  | none => do
    let name := normalizeName fqdn
    let lookup candidate := do
      if ← zoneExists candidate then return some candidate else return none
    match ← firstSome lookup (suffixes (name.splitOn '.')).reverse with
    | some zone => return zone
    | none => throw (.zoneNotFound fqdn)

/-- The unquoted values of the record set, or nothing when it does not exist. -/
def fetchExisting (zone rname : Str) : M (Option (List Str)) :=
  request .get (Req.rrset zone rname) fun response => do
    if response.status.asU16 = 404 then return none
    else
      check response.status.isSuccess (checkError "GET" (rrsetPath zone rname) response)
      let body : HetznerRrset ← response.json
      return some (body.records.map fun r => unquote r.value)

def fetchAction (id : Nat) : M HetznerAction :=
  request .get (Req.getAction id) fun response => do
    check response.status.isSuccess (checkError "GET" s!"/zones/actions/{id}".toList response)
    response.json

/-- An action that failed ends the wait. -/
def settled (action : HetznerAction) : Except DnsError HetznerAction :=
  if action.status = "error".toList then
    let detail := match action.error with
      | some e => s!"{e.code}: {e.message}"
      | none => "unknown error"
    .error (.api s!"{provider} action {action.id} ({action.command}) failed: {detail}")
  else .ok action

def actionPolicy : PollPolicy HetznerAction where
  interval := secs 1
  timeout := secs 60
  inSync action := action.status = "success".toList
  timedOut action := .api s!"{provider} action {action.id} ({action.command}) still {action.status} after 60s"

def waitForAction (action : HetznerAction) : M Unit := do
  let start : Duration ← sync .now
  let action ← settled action
  let poll (action : HetznerAction) : M HetznerAction := do
    let action ← fetchAction action.id
    settled action
  waitFrom actionPolicy poll (start + actionPolicy.timeout) (actionPolicy.timeout / actionPolicy.interval) action

def runRecordsAction (zone rname action value : Str) (ttl : Option Nat) : M Unit := do
  let path := rrsetPath zone rname ++ "/actions/".toList ++ action
  let started : HetznerAction ← request .post (Req.action zone rname action ⟨ttl, [⟨quote value⟩]⟩) fun response => do
    check response.status.isSuccess (checkError "POST" path response)
    response.json
  waitForAction started

/-- A TTL is sent only when the record set is created: one that differs from an existing set's is rejected. -/
def presentLocked (cfg : HetznerConfig) (zone rname value : Str) : M Unit := do
  match ← fetchExisting zone rname with
  | some values =>
    if values.any (· = value) then return
    else runRecordsAction zone rname "add_records".toList value none
  | none => runRecordsAction zone rname "add_records".toList value (some cfg.ttl)

def present (cfg : HetznerConfig) (fqdn value : Str) : M Unit := do
  validateFqdn fqdn
  validateAcmeValue value
  let zone ← resolveZone cfg fqdn
  let rname ← relativeName (lower fqdn) zone
  withLock locks (lockKey zone rname) (presentLocked cfg zone rname value)

def cleanupLocked (zone rname value : Str) : M Unit := do
  let existing ← fetchExisting zone rname
  if existing.any fun values => values.any (· = value) then
    runRecordsAction zone rname "remove_records".toList value none
  else return

def cleanup (cfg : HetznerConfig) (fqdn value : Str) : M Unit := do
  validateFqdn fqdn
  let zone ← resolveZone cfg fqdn
  let rname ← relativeName (lower fqdn) zone
  withLock locks (lockKey zone rname) (cleanupLocked zone rname value)

end Cheti.Hetzner
