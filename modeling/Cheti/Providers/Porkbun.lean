import Cheti.Json
import Cheti.Listing
import Cheti.RecordSet
/-!
# Porkbun (src/providers/porkbun.rs)

| here | there |
| --- | --- |
| `resolveZone`, `subdomainOf`   | `resolve_zone` (porkbun.rs:130-139), `subdomain_of` (porkbun.rs:471-477) |
| `post`, `parseEnvelope`        | `post` (porkbun.rs:162-180), `parse_envelope` (porkbun.rs:280-344) with `is_api_access_message` (porkbun.rs:348-351) |
| `fetchExisting`, `createRecord`, `deleteRecord` | `fetch_existing` (porkbun.rs:183-200), `create_record` (porkbun.rs:202-243), `delete_record` (porkbun.rs:245-253) |
| `stringOrNumber`, `Warnings`, `CreatedRecord` | porkbun.rs:377-443, with the decoders serde derives for them |
| `present`, `cleanup`           | `present` (porkbun.rs:481-495), `cleanup` (porkbun.rs:497-510) |

Every call is a POST. A response is read as text and decoded from there: its document is the JSON value,
if the text is one.
-/

namespace Cheti.Porkbun

def provider : String := "porkbun"
def locks : KeyedMutex := ⟨"porkbun".toList⟩
def maxErrorMessage : Nat := 512
def codeApiAccessDisabled : Str := "API_ACCESS_DISABLED".toList
def codeDuplicateRecord : Str := "DUPLICATE_RECORD".toList
def codeInvalidRecordId : Str := "INVALID_RECORD_ID".toList

/-- The codes that mean that the credentials, or their scoping, were refused. -/
def authCodes : List Str :=
  ["API_KEY_REQUIRED".toList, "MISSING_SECRETAPIKEY".toList, "INVALID_API_KEYS_001".toList,
    "INVALID_API_KEYS_002".toList, "INVALID_USER".toList, "IP_NOT_ALLOWED".toList, "DOMAIN_NOT_ALLOWED".toList]

structure PorkbunConfig where
  zoneOverride : Option Str
  ttl : Nat
  /-- What serde says of a document that is not a list of records. -/
  decodeError : Value → String

structure CreateRecord where
  name : Str
  recordType : Str
  content : Str
  ttl : Nat

inductive Req where
  | retrieve (zone subdomain : Str)
  | create (zone : Str) (fields : CreateRecord)
  | delete (zone id : Str)

abbrev Req.Doc (_ : Req) : Type := Option Value

abbrev M := Prog Req Req.Doc

/-! ## Documents -/

structure Envelope where
  status : Str
  code : Option Str
  message : Option Str

def Envelope.ofValue (v : Value) : Option Envelope := do
  match ← v.fields ["status", "code", "message"] with
  | [some status, code, message] => return ⟨← status.asStr, ← Value.optionalStr code, ← Value.optionalStr message⟩
  | _ => none

def stringOrNumber : Value → Option Str
  | .string s => some s
  | v => v.asU64.map fun n => (toString n).toList

structure PorkbunRecord where
  id : Str
  recordType : Str
  content : Str

def PorkbunRecord.ofValue (v : Value) : Option PorkbunRecord := do
  match ← v.fields ["id", "type", "content"] with
  | [some id, some recordType, some content] => return ⟨← stringOrNumber id, ← recordType.asStr, ← content.asStr⟩
  | _ => none

/-- `PorkbunRecords`; no records where the field is missing. -/
def recordsOfValue (v : Value) : Option (List PorkbunRecord) := do
  match ← v.fields ["records"] with
  | [some records] => (← records.asArray).mapM PorkbunRecord.ofValue
  | _ => return []

inductive Warnings where
  | none
  | one (w : Str)
  | many (ws : List Str)

/-- An untagged enum: the variants are tried in order. -/
def Warnings.ofValue : Value → Option Warnings
  | .null => some .none
  | .string w => some (.one w)
  | .array ws => (ws.mapM Value.asStr).map .many
  | _ => Option.none

def Warnings.intoVec (w : Warnings) : List Str :=
  let all := match w with
    | .none => []
    | .one w => [w]
    | .many ws => ws
  all.filter fun w => !(trim w).isEmpty

structure CreatedRecord where
  id : Option Str
  warnings : Warnings

def CreatedRecord.ofValue (v : Value) : Option CreatedRecord := do
  match ← v.fields ["id", "warnings"] with
  | [id, warnings] => do
    let id ← match id with
      | none => some none
      | some v => (stringOrNumber v).map some
    let warnings ← match warnings with
      | none => some Warnings.none
      | some v => Warnings.ofValue v
    return ⟨id, warnings⟩
  | _ => none

/-! ## Requests -/

inductive PorkbunError where
  | code (code : Str) (err : DnsError)
  | other (err : DnsError)

def PorkbunError.toDnsError : PorkbunError → DnsError
  | .code _ err => err
  | .other err => err

def retrievePath (zone subdomain : Str) : Str :=
  "/dns/retrieveByNameType/".toList ++ encodePath zone ++ "/TXT".toList ++
    if subdomain.isEmpty then [] else '/' :: encodePath subdomain

def createPath (zone : Str) : Str := "/dns/create/".toList ++ encodePath zone

def deletePath (zone id : Str) : Str := "/dns/delete/".toList ++ encodePath zone ++ '/' :: encodePath id

def truncate (raw : Str) : Str := truncateAt maxErrorMessage raw

def isApiAccessMessage (message : Str) : Bool :=
  contains "api access" (lower message) || contains "opted in" (lower message)

def envelopeError (path zone : Str) (status : StatusCode) (env : Envelope) : PorkbunError :=
  let code := env.code.getD []
  let message := truncate (env.message.getD "no message".toList)
  .code code <|
    if code = codeApiAccessDisabled ∨ isApiAccessMessage message then
      .auth (s!"{provider}: API access is not enabled for domain {zone}; " ++
        s!"turn on \"API Access\" for it in the Porkbun domain management page ({message})")
    else if authCodes.contains code then .auth s!"{provider} POST {path} refused credentials: {code}: {message}"
    else if code.isEmpty then .api s!"{provider} POST {path} returned {status}: {message}"
    else .api s!"{provider} POST {path} returned {status}: {code}: {message}"

/-- An `ERROR` status is a failure even on HTTP 200. -/
def parseEnvelope (path zone : Str) (response : Response (Option Value)) : Except PorkbunError Value := do
  let body ← response.body.mapError fun e => .other (.http e)
  let envelope := body.bind Envelope.ofValue
  match body, envelope with
  | some body, some env =>
    if response.status.isSuccess && eqIgnoreCase env.status "SUCCESS".toList then return body
    else if response.status.asU16 = 429 then throw (rateLimited response)
    else throw (envelopeError path zone response.status env)
  | _, _ =>
    if response.status.asU16 = 429 then throw (rateLimited response)
    else throw (.other (.api s!"{provider} POST {path} returned {response.status}: {truncate response.text}"))
where
  rateLimited (response : Response (Option Value)) : PorkbunError :=
    .code "RATE_LIMIT_EXCEEDED".toList (.api s!"{provider} POST {path} was rate limited (429), {retryHint response}")

/-- The call's result is what the caller makes of the outcome. -/
def post {α : Type} (path zone : Str) (q : Req) (outcome : Except PorkbunError Value → Except DnsError α) : M α :=
  request .post q fun response => outcome (parseEnvelope path zone response)

def resolveZone (cfg : PorkbunConfig) (fqdn : Str) : M Str :=
  match cfg.zoneOverride with
  | some zone => pure (trimDots zone)
  | none => do
    let zone ← findZone fqdn
    validateZone zone
    return zone

def fetchExisting (cfg : PorkbunConfig) (zone subdomain : Str) : M (List PorkbunRecord) :=
  let path := retrievePath zone subdomain
  post path zone (Req.retrieve zone subdomain) fun outcome => do
    let body ← outcome.mapError PorkbunError.toDnsError
    let records ← okOr (recordsOfValue body)
      (.api s!"{provider} POST {path} returned an invalid body: {cfg.decodeError body}")
    return records.filter fun r => eqIgnoreCase r.recordType txt

/-- A record that is gone already is what cleanup is after. -/
def deleteRecord (zone id : Str) : M Unit :=
  post (deletePath zone id) zone (Req.delete zone id) fun
    | .ok _ => .ok ()
    | .error (.code code err) => if code = codeInvalidRecordId then .ok () else .error err
    | .error (.other err) => .error err

/-- What the creation's answer decodes to, or its default; nothing where the record was there already. -/
def created : Except PorkbunError Value → Except DnsError (Option CreatedRecord)
  | .ok body => .ok (some ((CreatedRecord.ofValue body).getD ⟨none, .none⟩))
  | .error (.code code err) => if code = codeDuplicateRecord then .ok none else .error err
  | .error (.other err) => .error err

/-- A record with warnings is stored but will not resolve: it is deleted again, as far as that works. -/
def createRecord (cfg : PorkbunConfig) (zone subdomain value : Str) : M Unit := do
  match ← post (createPath zone) zone (Req.create zone ⟨subdomain, txt, value, cfg.ttl⟩) created with
  | none => return
  | some record =>
    let warnings := record.warnings.intoVec
    if warnings.isEmpty then return
    else
      match record.id with
      | some id =>
        let _ ← ExceptT.lift (deleteRecord zone id).run
        throw (willNotResolve zone warnings)
      | none => throw (willNotResolve zone warnings)
where
  willNotResolve (zone : Str) (warnings : List Str) : DnsError :=
    let joined := [' '].intercalate warnings
    .api s!"{provider}: record for {zone} was stored but will not resolve: {truncate joined}"

/-- The apex is an empty subdomain. -/
def subdomainOf (fqdn zone : Str) : Except DnsError Str := do
  let rname ← relativeName fqdn zone
  return if rname = "@".toList then [] else rname

def presentLocked (cfg : PorkbunConfig) (zone subdomain value : Str) : M Unit := do
  let existing ← fetchExisting cfg zone subdomain
  if existing.any (unquote ·.content = value) then return
  else createRecord cfg zone subdomain value

def present (cfg : PorkbunConfig) (fqdn value : Str) : M Unit := do
  validateFqdn fqdn
  let fqdn := lower fqdn
  validateAcmeValue value
  let zone ← resolveZone cfg fqdn
  let subdomain ← subdomainOf fqdn zone
  withLock locks (lockKey zone subdomain) (presentLocked cfg zone subdomain value)

def cleanupLocked (cfg : PorkbunConfig) (zone subdomain value : Str) : M Unit := do
  let existing ← fetchExisting cfg zone subdomain
  deleteEach (fun record => deleteRecord zone record.id) (existing.filter (unquote ·.content = value))

def cleanup (cfg : PorkbunConfig) (fqdn value : Str) : M Unit := do
  validateFqdn fqdn
  let fqdn := lower fqdn
  let zone ← resolveZone cfg fqdn
  let subdomain ← subdomainOf fqdn zone
  withLock locks (lockKey zone subdomain) (cleanupLocked cfg zone subdomain value)

/-! ## Envelopes -/

/-- The document of a request that was carried out. -/
def Accepted (resp : Response (Option Value)) (v : Value) : Prop :=
  resp.status.isSuccess = true ∧ resp.body = .ok (some v) ∧
    ∃ e, Envelope.ofValue v = some e ∧ eqIgnoreCase e.status "SUCCESS".toList = true

/-- An error with this code. -/
def RefusedWith (code : Str) (resp : Response (Option Value)) : Prop :=
  resp.status.asU16 ≠ 429 ∧ ∃ v e, resp.body = .ok (some v) ∧ Envelope.ofValue v = some e ∧
    (resp.status.isSuccess && eqIgnoreCase e.status "SUCCESS".toList) = false ∧ e.code.getD [] = code

section Envelopes

variable {path zone : Str} {resp : Response (Option Value)} {v : Value}

theorem parseEnvelope_of_error {e : String} (hbody : resp.body = .error e) :
    parseEnvelope path zone resp = .error (.other (.http e)) := by
  rw [parseEnvelope, hbody]
  rfl

theorem parseEnvelope_of_some {e : Envelope} (hbody : resp.body = .ok (some v)) (henv : Envelope.ofValue v = some e) :
    parseEnvelope path zone resp =
      if (resp.status.isSuccess && eqIgnoreCase e.status "SUCCESS".toList) = true then .ok v
      else if resp.status.asU16 = 429 then .error (parseEnvelope.rateLimited path resp)
      else .error (envelopeError path zone resp.status e) := by
  rw [parseEnvelope, hbody]
  simp only [Except.mapError, ok_bind, Option.bind_some, henv]
  rfl

theorem parseEnvelope_of_none {body : Option Value} (hbody : resp.body = .ok body) (henv : body.bind Envelope.ofValue = none) :
    parseEnvelope path zone resp =
      if resp.status.asU16 = 429 then .error (parseEnvelope.rateLimited path resp)
      else .error (.other (.api s!"{provider} POST {path} returned {resp.status}: {truncate resp.text}")) := by
  rw [parseEnvelope, hbody]
  cases body with
  | none => rfl
  | some v =>
    simp only [Except.mapError, ok_bind, henv]
    rfl

theorem parseEnvelope_ok : parseEnvelope path zone resp = .ok v ↔ Accepted resp v := by
  constructor
  · intro h
    cases hbody : resp.body with
    | error e =>
      rw [parseEnvelope_of_error hbody] at h
      cases h
    | ok body =>
      cases henv : body.bind Envelope.ofValue with
      | none =>
        rw [parseEnvelope_of_none hbody henv] at h
        split at h <;> cases h
      | some e =>
        obtain ⟨w, rfl, henv⟩ := Option.bind_eq_some_iff.1 henv
        rw [parseEnvelope_of_some hbody henv] at h
        split at h
        case isTrue hsucc =>
          cases h
          rw [Bool.and_eq_true] at hsucc
          exact ⟨hsucc.1, hbody, e, henv, hsucc.2⟩
        case isFalse => split at h <;> cases h
  · rintro ⟨hsucc, hbody, e, henv, hstatus⟩
    rw [parseEnvelope_of_some hbody henv, if_pos (by rw [hsucc, hstatus]; rfl)]

/-- The errors with a code, other than the one for throttling. -/
theorem parseEnvelope_code {code : Str} (hcode : code ≠ "RATE_LIMIT_EXCEEDED".toList) :
    (∃ e, parseEnvelope path zone resp = .error (.code code e)) ↔ RefusedWith code resp := by
  constructor
  · rintro ⟨e₀, h⟩
    cases hbody : resp.body with
    | error e =>
      rw [parseEnvelope_of_error hbody] at h
      cases h
    | ok body =>
      cases henv : body.bind Envelope.ofValue with
      | none =>
        rw [parseEnvelope_of_none hbody henv] at h
        split at h
        · cases h
          exact absurd rfl hcode
        · cases h
      | some e =>
        obtain ⟨w, rfl, henv⟩ := Option.bind_eq_some_iff.1 henv
        rw [parseEnvelope_of_some hbody henv] at h
        split at h
        · cases h
        case isFalse hfail =>
          split at h
          · cases h
            exact absurd rfl hcode
          case isFalse hlimit =>
            cases h
            exact ⟨hlimit, w, e, hbody, henv, by simpa using hfail, rfl⟩
  · rintro ⟨hlimit, w, e, hbody, henv, hfail, rfl⟩
    rw [parseEnvelope_of_some hbody henv, hfail, if_neg Bool.false_ne_true, if_neg hlimit]
    exact ⟨_, rfl⟩

end Envelopes

end Cheti.Porkbun
