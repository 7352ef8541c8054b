import Cheti.RecordSet
import Cheti.Http
/-!
# OVH (src/providers/ovh.rs)

| here | there |
| --- | --- |
| `resolveZone`, `syncTime`     | `resolve_zone` (ovh.rs:128-137), `sync_time` (ovh.rs:198-214) |
| `listRecords`, `getRecord`    | `list_records` (ovh.rs:242-265), `get_record` (ovh.rs:267-286) |
| `createRecord`, `deleteRecord`, `refreshZone` | `create_record` (ovh.rs:288-318), `delete_record` (ovh.rs:320-338), `refresh_zone` (ovh.rs:340-358) |
| `anyHolds`, `deleteMatching`  | the loops of `present` and `cleanup` over the listed ids |
| `present`, `cleanup`          | `present` (ovh.rs:379-406), `cleanup` (ovh.rs:408-434) |

Each value is a record of its own. Records are created and deleted in the zone as it is being edited
(`RecordContract`); a refresh publishes it (`Published`). The clock offset that `sync_time` measures is used by
the signature only, which is not modelled.
-/

namespace Cheti.Ovh

def provider : String := "ovh"
def locks : KeyedMutex := ⟨"ovh".toList⟩

structure OvhConfig where
  zoneOverride : Option Str
  ttl : Nat

/-- An instance, as a call finds it. -/
structure OvhProvider where
  config : OvhConfig
  timeDelta : Option Int

structure OvhRecord where
  id : Nat
  target : Str

inductive Req where
  | time
  | list (zone subDomain : Str)
  | get (zone : Str) (id : Nat)
  | create (zone subDomain target : Str) (ttl : Nat)
  | delete (zone : Str) (id : Nat)
  | refresh (zone : Str)

abbrev Req.Doc : Req → Type
  | .time => Int
  | .list _ _ => List Nat
  | .get _ _ => OvhRecord
  | .create _ _ _ _ | .delete _ _ | .refresh _ => Unit

abbrev M := Prog Req Req.Doc

def resolveZone (cfg : OvhConfig) (fqdn : Str) : M Str :=
  match cfg.zoneOverride with
  | some z => pure z
  | none => do
    let zone ← findZone fqdn
    validateFqdn zone
    return zone

def ovhPath (suffix : Str) : Str := "/domain/zone/".toList ++ suffix

def recordPath (zone : Str) : Str := ovhPath (zone ++ "/record".toList)

def recordItemPath (zone : Str) (id : Nat) : Str := ovhPath (zone ++ "/record/".toList ++ (toString id).toList)

/-- A failure leaves the offset unset, so whatever comes back the call goes on. -/
def syncTime (self : OvhProvider) : M Unit :=
  match self.timeDelta with
  | some _ => pure ()
  | none => do
    let _ ← ExceptT.lift (sendFrom .get .time 1 (maxAttempts - 1))
    return

def listRecords (zone subDomain : Str) : M (List Nat) :=
  request .get (Req.list zone subDomain) fun response => do
    check response.status.isSuccess (apiError provider "GET" (recordPath zone) response)
    response.json

def getRecord (zone : Str) (id : Nat) : M OvhRecord :=
  request .get (Req.get zone id) fun response => do
    check response.status.isSuccess (apiError provider "GET" (recordItemPath zone id) response)
    response.json

def createRecord (self : OvhProvider) (zone subDomain target : Str) : M Unit :=
  request .post (Req.create zone subDomain target self.config.ttl) fun response =>
    check response.status.isSuccess (apiError provider "POST" (recordPath zone) response)

def deleteRecord (zone : Str) (id : Nat) : M Unit :=
  request .delete (Req.delete zone id) fun response =>
    check (response.status.isSuccess || response.status.asU16 == 404)
      (apiError provider "DELETE" (recordItemPath zone id) response)

def refreshZone (zone : Str) : M Unit :=
  request .post (Req.refresh zone) fun response =>
    check response.status.isSuccess (apiError provider "POST" (ovhPath (zone ++ "/refresh".toList)) response)

/-- Whether one of the records holds the value. -/
def anyHolds (zone value : Str) : List Nat → M Bool
  | [] => return false
  | id :: rest => do
    let record ← getRecord zone id
    if trimQuotes record.target = value then return true
    else anyHolds zone value rest

def presentLocked (self : OvhProvider) (zone subDomain value : Str) : M Unit := do
  syncTime self
  let existingIds ← listRecords zone subDomain
  if ← anyHolds zone value existingIds then return
  else
    createRecord self zone subDomain value
    refreshZone zone

def present (self : OvhProvider) (fqdn value : Str) : M Unit := do
  validateFqdn fqdn
  let fqdn := lower fqdn
  validateAcmeValue value
  let zone ← resolveZone self.config fqdn
  let subDomain ← relativeName fqdn zone
  withLock locks (lockKey zone subDomain) (presentLocked self zone subDomain value)

/-- The records that hold the value are deleted; the flag is `deleted_any`. -/
def deleteMatching (zone value : Str) : List Nat → Bool → M Bool
  | [], deletedAny => return deletedAny
  | id :: rest, deletedAny => do
    let record ← getRecord zone id
    if trimQuotes record.target = value then do
      deleteRecord zone record.id
      deleteMatching zone value rest true
    else deleteMatching zone value rest deletedAny

def cleanupLocked (self : OvhProvider) (zone subDomain value : Str) : M Unit := do
  syncTime self
  let existingIds ← listRecords zone subDomain
  let deletedAny ← deleteMatching zone value existingIds false
  if deletedAny then refreshZone zone
  else return

def cleanup (self : OvhProvider) (fqdn value : Str) : M Unit := do
  validateFqdn fqdn
  let fqdn := lower fqdn
  let zone ← resolveZone self.config fqdn
  let subDomain ← relativeName fqdn zone
  withLock locks (lockKey zone subDomain) (cleanupLocked self zone subDomain value)

def run (self : OvhProvider) : Op → Str → Str → M Unit
  | .present => present self
  | .cleanup => cleanup self

end Cheti.Ovh
