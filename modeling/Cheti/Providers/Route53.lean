import Cheti.Backend
import Cheti.Listing
import Cheti.Polling
/-!
# Route53 (src/providers/route53.rs)

| here | there |
| --- | --- |
| `send`, `sendLoop`            | `send` (route53.rs:178-211) and its loop over throttled attempts |
| `parseXml`, `isThrottled`, `mapError` | `parse_xml` (route53.rs:474-484), `is_throttled` (route53.rs:487-490), `map_error` (route53.rs:494-537) |
| `resolveZone`, `lookupZone`, `findPublicZone` | `resolve_zone` (route53.rs:262-285), its loop, `find_public_zone` (route53.rs:290-323) |
| `fetchRrset`, `changeRrset`   | `fetch_rrset` (route53.rs:327-360), `change_rrset` (route53.rs:364-378) |
| `fetchChange`                 | `fetch_change` (route53.rs:399-406) |
| `presentLocked`, `cleanupLocked` | what `present` and `cleanup` (route53.rs:792-842) do under the lock |

A change is an UPSERT, which replaces a record set whole, or a DELETE, which has to name it exactly.
A request is its content here: signing, the XML encoding and the request URL are in `RequestSigning` and `Route53Wire`.
-/

namespace Cheti.Route53

def provider : String := "route53"
def locks : KeyedMutex := ⟨"route53".toList⟩

structure AwsError where
  code : Str
  message : Option Str

structure Route53Config where
  hostedZoneId : Option Str
  ttl : Nat
  /-- `quick_xml::de::from_str::<ErrorResponse>` -/
  decodeError : Str → Option AwsError
  /-- `quick_xml::de::from_str::<InvalidChangeBatch>`, its messages. -/
  decodeBatch : Str → Option (List Str)

def authCodes : List Str :=
  ["AccessDenied", "AccessDeniedException", "ExpiredToken", "IncompleteSignature", "InvalidClientTokenId",
    "MissingAuthenticationToken", "SignatureDoesNotMatch", "UnrecognizedClientException"].map (·.toList)

def throttlingCodes : List Str := ["Throttling", "PriorRequestNotComplete"].map (·.toList)

structure HostedZone where
  id : Str
  name : Str
  /-- `config.private_zone`, where there is a `config`. -/
  config : Option Bool

structure ResourceRecordSet where
  name : Str
  recordType : Str
  ttl : Option Nat
  setIdentifier : Option Str
  resourceRecords : Option (List Str)

structure ChangeInfo where
  id : Str
  status : Str

structure TxtSet where
  ttl : Nat
  values : List Str
deriving DecidableEq

inductive Action where
  | upsert
  | delete

inductive Req where
  | zonesByName (dnsname : Str)
  | rrset (zoneId name : Str)
  | change (zoneId : Str) (action : Action) (name : Str) (set : TxtSet)
  | getChange (id : Str)

abbrev Req.Doc : Req → Type
  | .zonesByName _ => List HostedZone
  | .rrset _ _ => List ResourceRecordSet
  | .change _ _ _ _ | .getChange _ => ChangeInfo

abbrev M := Prog Req Req.Doc

def isThrottled (cfg : Route53Config) (text : Str) : Bool :=
  (cfg.decodeError text).any fun err => throttlingCodes.contains err.code

/-- The code and message of an error document, of either kind. -/
def errorDocument (cfg : Route53Config) (text : Str) : Option (Str × Str) :=
  match cfg.decodeError text with
  | some err => some (err.code, err.message.getD [])
  | none => (cfg.decodeBatch text).map fun items => ("InvalidChangeBatch".toList, "; ".toList.intercalate items)

def mapError (cfg : Route53Config) (method : String) (path : Str) (status : StatusCode) (text : Str) : DnsError :=
  match errorDocument cfg text with
  | none =>
    let text := truncateErrorBody text
    if status.asU16 = 403 then .auth s!"{provider} {method} {path} returned {status}: {text}"
    else if status.asU16 = 429 then .api s!"{provider} {method} {path} was rate limited ({status}), retry later"
    else .api s!"{provider} {method} {path} returned {status}: {text}"
  | some (code, message) =>
    let message := truncateErrorBody message
    if authCodes.contains code then
      .auth s!"{provider} {method} {path} refused credentials: {code}: {message}"
    else if throttlingCodes.contains code || status.asU16 == 429 then
      .api s!"{provider} {method} {path} was rate limited ({code}), retry later: {message}"
    else if code = "NoSuchHostedZone".toList then .zoneNotFound s!"{provider} hosted zone ({message})".toList
    else .api s!"{provider} {method} {path} returned {status}: {code}: {message}"

/-- The loop of `send` from its `attempt`, with `left` more attempts allowed. Throttling is reported as a
400 with an error code, which the retries of `send_retrying` do not see. -/
def sendLoop (cfg : Route53Config) (method : Method) (verb : String) (path : Str) (q : Req) :
    Nat → Nat → M (Response q.Doc)
  | left, attempt => do
    let response ← sendRetrying method q
    if response.status.isSuccess then return response
    else
      match left with
      | 0 => throw (mapError cfg verb path response.status response.text)
      | left + 1 =>
        if isThrottled cfg response.text then do
          let _ ← await (.sleep (retryBackoff attempt))
          sendLoop cfg method verb path q left (attempt + 1)
        else throw (mapError cfg verb path response.status response.text)

def parseXml {α : Type} (verb : String) (path : Str) (response : Response α) : Except DnsError α :=
  response.body.mapError fun e => DnsError.api s!"{provider} {verb} {path} returned an unexpected body: {e}"

/-- `send`, and `parse_xml` of what it returns. -/
def send (cfg : Route53Config) (method : Method) (verb : String) (path : Str) (q : Req) : M q.Doc := do
  let response ← sendLoop cfg method verb path q (maxAttempts - 1) 1
  parseXml verb path response

/-- `b.is_ascii_alphanumeric()` for every byte: a character that is not ASCII has bytes that are not. -/
def normalizeId (id pfx : Str) : Option Str :=
  let id := (id.dropPrefix? pfx).getD id
  if !id.isEmpty && decide (Text.utf8Len id ≤ 64) && id.all Char.isAlphanum then some id else none

def findPublicZone (cfg : Route53Config) (candidate : Str) : M (Option Str) := do
  let path := "/hostedzonesbyname".toList
  let zones : List HostedZone ← send cfg .get "GET" path (Req.zonesByName candidate)
  match (zones.filter fun z => normalizeName z.name = candidate).filter (fun z => !z.config.getD false) with
  | [] => return none
  | [zone] =>
    match normalizeId zone.id "/hostedzone/".toList with
    | some id => return some id
    | none => throw (.api s!"{provider} GET {path} returned an invalid hosted zone id")
  | _ => throw (.api (s!"{provider}: several public hosted zones are named {candidate}; " ++
      "pick one with with_hosted_zone_id"))

def lookupZone (cfg : Route53Config) (fqdn name : Str) : M Str := do
  match ← firstSome (findPublicZone cfg) (suffixes (name.splitOn '.')) with
  | some id => return id
  | none => throw (.zoneNotFound fqdn)

def resolveZone (cfg : Route53Config) (fqdn : Str) : M Str :=
  match cfg.hostedZoneId with
  | some id => pure id
  | none => cached (normalizeName fqdn) (lookupZone cfg fqdn (normalizeName fqdn))

/-- What `fetch_rrset` makes of the first record set of the listing. -/
def txtSet (cfg : Route53Config) (name : Str) : Option ResourceRecordSet → Except DnsError (Option TxtSet)
  | none => return none
  | some set =>
    if normalizeName set.name ≠ normalizeName name ∨ set.recordType ≠ txt then return none
    else if set.setIdentifier.isSome then
      throw (.api s!"{provider}: TXT record set {name} uses a routing policy, which is not supported")
    else return some ⟨set.ttl.getD cfg.ttl, set.resourceRecords.getD []⟩

def fetchRrset (cfg : Route53Config) (zoneId name : Str) : M (Option TxtSet) := do
  let path := "/hostedzone/".toList ++ zoneId ++ "/rrset".toList
  let sets : List ResourceRecordSet ← send cfg .get "GET" path (Req.rrset zoneId name)
  txtSet cfg name sets.head?

def fetchChange (cfg : Route53Config) (change : ChangeInfo) : M ChangeInfo :=
  match normalizeId change.id "/change/".toList with
  | none => throw (.api s!"{provider} returned an invalid change id")
  | some id => send cfg .get "GET" ("/change/".toList ++ id) (Req.getChange id)

def pollPolicy : PollPolicy ChangeInfo where
  interval := secs 2
  timeout := secs 120
  inSync change := change.status = "INSYNC".toList
  timedOut change := .api s!"{provider} change {change.id} still {change.status} after {120}s"

def changeRrset (cfg : Route53Config) (zoneId : Str) (action : Action) (name : Str) (set : TxtSet) : M Unit := do
  let path := "/hostedzone/".toList ++ zoneId ++ "/rrset/".toList
  let change : ChangeInfo ← send cfg .post "POST" path (Req.change zoneId action name set)
  waitForChange pollPolicy (fetchChange cfg) change

def TxtSet.contains (set : TxtSet) (value : Str) : Bool := set.values.any (unquote · = value)

def presentLocked (cfg : Route53Config) (zoneId name value : Str) : M Unit := do
  match ← fetchRrset cfg zoneId name with
  | some set =>
    if set.contains value then return
    else changeRrset cfg zoneId .upsert name ⟨set.ttl, set.values ++ [quote value]⟩
  | none => changeRrset cfg zoneId .upsert name ⟨cfg.ttl, [quote value]⟩

def present (cfg : Route53Config) (fqdn value : Str) : M Unit := do
  validateFqdn fqdn
  validateAcmeValue value
  let zoneId ← resolveZone cfg fqdn
  withLock locks (lockKey zoneId (absolute fqdn)) (presentLocked cfg zoneId (absolute fqdn) value)

def cleanupLocked (cfg : Route53Config) (zoneId name value : Str) : M Unit := do
  match ← fetchRrset cfg zoneId name with
  | none => return
  | some set =>
    if set.contains value then
      let remaining := set.values.filter (unquote · ≠ value)
      if remaining.isEmpty then changeRrset cfg zoneId .delete name set
      else changeRrset cfg zoneId .upsert name ⟨set.ttl, remaining⟩
    else return

def cleanup (cfg : Route53Config) (fqdn value : Str) : M Unit := do
  validateFqdn fqdn
  let zoneId ← resolveZone cfg fqdn
  withLock locks (lockKey zoneId (absolute fqdn)) (cleanupLocked cfg zoneId (absolute fqdn) value)

/-! ## The API -/

/-- The kinds of record set: values with a TTL, an alias of another resource, and sets of a routing
policy, of which the listing shows the first. -/
inductive Stored where
  | simple (ttl : Nat) (values : List Str)
  | aliasOf (target : Str)
  | routed (identifier : Str) (ttl : Option Nat) (values : Option (List Str)) (others : List Str)

/-- `d` is how a listing reports the set. -/
def Stored.ReportedAs : Stored → ResourceRecordSet → Prop
  | .simple ttl values, d => d.ttl = some ttl ∧ d.setIdentifier = none ∧ d.resourceRecords = some values
  | .aliasOf _, d => d.ttl = none ∧ d.setIdentifier = none ∧ d.resourceRecords = none
  | .routed identifier ttl values _, d =>
    d.ttl = ttl ∧ d.setIdentifier = some identifier ∧ d.resourceRecords = values

/-- What a change makes of the stored set; `none` where it is rejected. -/
def Action.applied : Action → TxtSet → Option Stored → Option (Option Stored)
  | _, _, some (.routed _ _ _ _) => none
  | .upsert, set, _ => if set.values = [] then none else some (some (.simple set.ttl set.values))
  | .delete, set, some (.simple ttl values) => if set = ⟨ttl, values⟩ then some none else none
  | .delete, _, _ => none

/-- A listing starts at the set asked for, or where it would be. -/
def serves : (q : Req) → Response q.Doc → Records Stored → Records Stored → Prop
  | .rrset zoneId name, resp, s, s' => s' = s ∧ resp.status.isSuccess = true ∧ ∃ sets, resp.body = .ok sets ∧
    match s.sets ⟨zoneId, name, txt⟩ with
    | some set => ∃ d, sets.head? = some d ∧ normalizeName d.name = normalizeName name ∧ d.recordType = txt ∧
        set.ReportedAs d
    | none => ∀ d, sets.head? = some d → normalizeName d.name ≠ normalizeName name ∨ d.recordType ≠ txt
  | .change zoneId action name set, resp, s, s' =>
    match action.applied set (s.sets ⟨zoneId, name, txt⟩) with
    | some x => resp.status.isSuccess = true ∧ (∃ change, resp.body = .ok change) ∧ s' = s.put ⟨zoneId, name, txt⟩ x
    | none => resp.status.asU16 = 400 ∧ s' = s.reject
  | .getChange _, resp, s, s' => s' = s ∧ resp.status.isSuccess = true ∧ ∃ change, resp.body = .ok change
  | .zonesByName _, _, s, s' => s' = s

abbrev backend : Backend where
  Q := Req
  B := Req.Doc
  Config := Route53Config
  Zone := Str
  zoneName zone := zone
  locks := locks
  resolveZone := resolveZone
  present := present
  cleanup := cleanup
  key zone name := .ok (lockKey zone (name ++ ['.']))
  owner zone name := ⟨zone, name ++ ['.'], txt⟩
  aboutZones
    | .zonesByName _ => true
    | _ => false
  Set := Stored
  values
    | .simple _ values => values
    | _ => []
  ttl
    | .simple ttl _ => some ttl
    | _ => none
  plain _ set := ∃ ttl values, set = .simple ttl values
  serves := serves
  reads
    | .change _ _ _ _ => false
    | _ => true
  notFoundAnswers := false
  canonical x := x
  keepsTtl := true
  polls := true

/-! ## Requests -/

open Fut (wp Always)

theorem throttles : backend.Throttles := by
  intro q resp s s' h hr
  cases q with
  | zonesByName dnsname => exact h
  | rrset zoneId name => exact h.1
  | getChange id => exact h.1
  | change zoneId action name set =>
    simp only [serves] at h
    split at h
    · exact absurd hr (StatusCode.not_throttled h.1)
    · omega

variable {zenv : (c : Call Req) → Reply Req.Doc c → Prop} {faulty : Bool} {s : Records Stored}

/-- **`send` is one request**, if the API carries it out: an attempt that was refused before had no effect,
so the answer that counts comes from the records before the first attempt. -/
theorem wp_sendLoop (cfg : Route53Config) (method : Method) (verb : String) (path : Str) {q : Req}
    (hq : backend.aboutZones q = false) {Post : Except DnsError (Response q.Doc) → Records Stored → Prop}
    (hserved : ∀ resp s', serves q resp s s' → resp.status.isSuccess = true)
    (hok : ∀ resp s', resp.status.isSuccess = true → backend.env zenv faulty (.send q) (.ok resp) s s' →
      Post (.ok resp) s')
    (herror : faulty = true → ∀ e, Post (.error e) s) :
    ∀ left attempt, wp (fun _ _ => True) (backend.env zenv faulty)
      (sendLoop cfg method verb path q left attempt).run Post s := by
  have hkeep : ∀ resp s', resp.status.isSuccess = false →
      backend.env zenv faulty (.send q) (.ok resp) s s' → s' = s ∧ faulty = true := by
    intro resp s' hresp h
    rcases (Backend.env_send (b := backend) hq).1 h with ⟨resp', he, hs⟩ | ⟨hf, -, hs⟩
    · cases he
      rw [hserved resp s' hs] at hresp
      cases hresp
    · exact ⟨hs, hf⟩
  have hretry : ∀ (resp : Response q.Doc) s', backend.env zenv faulty (.send q) (.ok resp) s s' →
      resp.status.asU16 = 429 ∨ resp.status.asU16 = 503 → s' = s := by
    intro resp s' h hr
    refine (hkeep resp s' ?_ h).1
    by_contra hsucc
    exact StatusCode.not_throttled (by simpa using hsucc) hr
  have hfailed : ∀ e s', backend.env zenv faulty (.send q) (.error e) s s' → ∀ e', Post (.error e') s' := by
    intro e s' h e'
    rcases (Backend.env_send (b := backend) hq).1 h with ⟨resp, he, -⟩ | ⟨hf, -, rfl⟩
    · cases he
    · exact herror hf e'
  -- one attempt, with what the attempts that are left do
  have hattempt : ∀ left attempt, (∀ left', left = left' + 1 → ∀ attempt, wp (fun _ _ => True) (backend.env zenv faulty)
      (sendLoop cfg method verb path q left' attempt).run Post s) →
      wp (fun _ _ => True) (backend.env zenv faulty) (sendLoop cfg method verb path q left attempt).run Post s := by
    intro left attempt hrest
    rw [sendLoop.eq_def, Fut.wp_run_bind]
    refine wp_sendRetrying trivial (fun d => ⟨trivial, fun _ _ h => h⟩) hretry fun r s' h => ?_
    cases r with
    | error e => exact hfailed e s' h _
    | ok resp =>
      by_cases hsucc : resp.status.isSuccess = true
      · simp only [Except.mapError, if_pos hsucc]
        exact hok resp s' hsucc h
      · have hresp : resp.status.isSuccess = false := by simpa using hsucc
        obtain ⟨rfl, hf⟩ := hkeep resp s' hresp h
        simp only [Except.mapError, if_neg hsucc]
        cases left with
        | zero => exact herror hf _
        | succ left =>
          by_cases hthrottled : isThrottled cfg resp.text = true
          · simp only [if_pos hthrottled]
            rw [Fut.wp_run_bind]
            refine wp_await_run.2 ⟨trivial, fun _ s₁ h₁ => ?_⟩
            obtain rfl : s₁ = s' := h₁
            exact hrest left rfl (attempt + 1)
          · simp only [if_neg hthrottled]
            exact herror hf _
  intro left
  induction left with
  | zero => exact fun attempt => hattempt 0 attempt nofun
  | succ left ih => exact fun attempt => hattempt (left + 1) attempt fun left' hleft attempt => by cases hleft; exact ih attempt

/-- A request that the API carries out, and what comes back. -/
theorem wp_send (cfg : Route53Config) (method : Method) (verb : String) (path : Str) {q : Req}
    (hq : backend.aboutZones q = false) {Post : Except DnsError q.Doc → Records Stored → Prop}
    (hserved : ∀ resp s', serves q resp s s' → resp.status.isSuccess = true ∧
      ∃ doc, resp.body = .ok doc ∧ Post (.ok doc) s')
    (herror : faulty = true → ∀ e, Post (.error e) s) :
    wp (fun _ _ => True) (backend.env zenv faulty) (send cfg method verb path q).run Post s := by
  unfold send
  rw [Fut.wp_run_bind]
  refine wp_sendLoop cfg method verb path hq (fun resp s' h => (hserved resp s' h).1) (fun resp s' hsucc h => ?_)
    (fun hf e => herror hf e) _ _
  · simp only [Fut.wp_run_except]
    rcases (Backend.env_send (b := backend) hq).1 h with ⟨resp', he, hs⟩ | ⟨hf, hfail, rfl⟩
    · cases he
      obtain ⟨-, doc, hdoc, hpost⟩ := hserved resp s' hs
      simpa [parseXml, hdoc, Except.mapError] using hpost
    · rcases Backend.failed_ok hfail with ⟨-, -, e, he⟩ | ⟨hns, -⟩
      · simpa [parseXml, he, Except.mapError] using herror hf _
      · rw [hsucc] at hns; cases hns

/-- What `fetch_rrset` returns of a stored set: an alias has neither a TTL nor values. -/
def fetched (cfg : Route53Config) (name : Str) : Option Stored → Except DnsError (Option TxtSet)
  | none => .ok none
  | some (.simple ttl values) => .ok (some ⟨ttl, values⟩)
  | some (.aliasOf _) => .ok (some ⟨cfg.ttl, []⟩)
  | some (.routed _ _ _ _) =>
    .error (.api s!"{provider}: TXT record set {name} uses a routing policy, which is not supported")

theorem txtSet_reported (cfg : Route53Config) {name : Str} {set : Stored} {d : ResourceRecordSet}
    (hname : normalizeName d.name = normalizeName name) (htype : d.recordType = txt) (hd : set.ReportedAs d) :
    txtSet cfg name (some d) = fetched cfg name (some set) := by
  have hours : ¬ (normalizeName d.name ≠ normalizeName name ∨ d.recordType ≠ txt) := by simp [hname, htype]
  simp only [txtSet, if_neg hours]
  cases set with
  | simple ttl values => obtain ⟨h₁, h₂, h₃⟩ := hd; simp [h₁, h₂, h₃, fetched]
  | aliasOf target => obtain ⟨h₁, h₂, h₃⟩ := hd; simp [h₁, h₂, h₃, fetched]
  | routed identifier ttl values others => obtain ⟨-, h₂, -⟩ := hd; simp [h₂, fetched]; rfl

theorem txtSet_other (cfg : Route53Config) {name : Str} {d : Option ResourceRecordSet}
    (h : ∀ d', d = some d' → normalizeName d'.name ≠ normalizeName name ∨ d'.recordType ≠ txt) :
    txtSet cfg name d = .ok none := by
  cases d with
  | none => rfl
  | some d => simp only [txtSet, if_pos (h d rfl)]; rfl

theorem fetchRrset_wp (cfg : Route53Config) (zoneId name : Str) :
    wp (fun _ _ => True) (backend.env zenv faulty) (fetchRrset cfg zoneId name).run (fun r s' => s' = s ∧
      (r = fetched cfg name (s.sets ⟨zoneId, name, txt⟩) ∨ faulty = true ∧ ∃ e, r = .error e)) s := by
  unfold fetchRrset
  rw [Fut.wp_run_bind]
  refine wp_send cfg _ _ _ rfl (fun resp s' h => ?_) fun hf e => ⟨rfl, Or.inr ⟨hf, e, rfl⟩⟩
  obtain ⟨rfl, hsucc, sets, hbody, hsets⟩ := h
  refine ⟨hsucc, sets, hbody, ?_⟩
  simp only [Fut.wp_run_except]
  refine ⟨trivial, Or.inl ?_⟩
  cases hset : s'.sets ⟨zoneId, name, txt⟩ with
  | none =>
    rw [hset] at hsets
    exact txtSet_other cfg hsets
  | some set =>
    rw [hset] at hsets
    obtain ⟨d, hd, hname, htype, hrep⟩ := hsets
    rw [hd]
    exact txtSet_reported cfg hname htype hrep

theorem fetchChange_wp (cfg : Route53Config) (change : ChangeInfo) :
    wp (fun _ _ => True) (backend.env zenv faulty) (fetchChange cfg change).run (fun _ s' => s' = s) s := by
  unfold fetchChange
  split
  · rfl
  · exact wp_send cfg _ _ _ rfl (fun resp s' h => ⟨h.2.1, h.2.2.imp fun _ hdoc => ⟨hdoc, h.1⟩⟩) fun _ _ => rfl

/-- A change that is not rejected is made, whatever comes of waiting for it. -/
theorem changeRrset_wp (cfg : Route53Config) (zoneId name : Str) {action : Action} {set : TxtSet} {x : Option Stored}
    (hx : action.applied set (s.sets ⟨zoneId, name, txt⟩) = some x) :
    wp (fun _ _ => True) (backend.env zenv faulty) (changeRrset cfg zoneId action name set).run
      (backend.Wrote faulty s ⟨zoneId, name, txt⟩ x) s := by
  unfold changeRrset
  rw [Fut.wp_run_bind]
  refine wp_send cfg _ _ _ rfl (fun resp s' h => ?_) fun hf e => Or.inr ⟨hf, ⟨e, rfl⟩, rfl⟩
  simp only [serves, hx] at h
  obtain ⟨hsucc, ⟨change, hbody⟩, hs'⟩ := h
  refine ⟨hsucc, change, hbody, Fut.wp_mono (wp_waitForChange ⟨trivial, fun _ _ h => h⟩
    (fun d => ⟨trivial, fun _ _ h => h⟩) (fun change => fetchChange_wp cfg change) change) fun r s₂ h₂ => ?_⟩
  exact Or.inl ⟨Or.inr rfl, h₂.trans hs'⟩

/-! ## Calls -/

theorem only_sendLoop {P : Call Req → Prop} (cfg : Route53Config) (method : Method) (verb : String) (path : Str)
    {q : Req} (hsend : P (.send q)) (hsleep : ∀ d, P (.sleep d)) (left attempt : Nat) :
    Only P (sendLoop cfg method verb path q left attempt) := by
  rw [sendLoop.eq_def]
  refine (Only.sendRetrying hsend hsleep).bind fun response => ?_
  by_cases hsucc : response.status.isSuccess = true
  · simp only [if_pos hsucc]
    exact .pure response
  · simp only [if_neg hsucc]
    cases left with
    | zero => exact .throw _
    | succ left =>
      by_cases hthrottled : isThrottled cfg response.text = true
      · simp only [if_pos hthrottled]
        exact (Only.await (hsleep _)).bind fun _ =>
          only_sendLoop cfg method verb path hsend hsleep left (attempt + 1)
      · simp only [if_neg hthrottled]
        exact .throw _

theorem only_send {P : Call Req → Prop} (cfg : Route53Config) (method : Method) (verb : String) (path : Str) {q : Req}
    (hsend : P (.send q)) (hsleep : ∀ d, P (.sleep d)) : Only P (send cfg method verb path q) :=
  (only_sendLoop cfg method verb path hsend hsleep _ _).bind fun _ => .lift _

theorem only_fetchRrset {P : Call Req → Prop} (cfg : Route53Config) {zoneId name : Str} (hsend : P (.send (.rrset zoneId name)))
    (hsleep : ∀ d, P (.sleep d)) : Only P (fetchRrset cfg zoneId name) :=
  (only_send cfg _ _ _ hsend hsleep).bind fun _ => .lift _

theorem only_fetchChange {P : Call Req → Prop} (cfg : Route53Config) (hsend : ∀ id, P (.send (.getChange id)))
    (hsleep : ∀ d, P (.sleep d)) (change : ChangeInfo) : Only P (fetchChange cfg change) := by
  unfold fetchChange
  split
  · exact .throw _
  · exact only_send cfg _ _ _ (hsend _) hsleep

theorem internal_fetchRrset (cfg : Route53Config) (zoneId name : Str) :
    Only backend.Internal (fetchRrset cfg zoneId name) :=
  only_fetchRrset cfg trivial fun _ => trivial

theorem internal_changeRrset (cfg : Route53Config) (zoneId name : Str) (action : Action) (set : TxtSet) :
    Only backend.Internal (changeRrset cfg zoneId action name set) :=
  (only_send cfg _ _ _ trivial fun _ => trivial).bind fun change =>
    .waitForChange trivial (fun _ => trivial) (only_fetchChange cfg (fun _ => trivial) fun _ => trivial) change

/-- A plain set, or none, is fetched as it is. -/
theorem fetched_plain (cfg : Route53Config) {zoneId name : Str} (hs : backend.PlainAt s ⟨zoneId, name, txt⟩) :
    ∃ existing, fetched cfg name (s.sets ⟨zoneId, name, txt⟩) = .ok existing ∧
      s.sets ⟨zoneId, name, txt⟩ = existing.map (fun set => .simple set.ttl set.values) := by
  cases hset : s.sets ⟨zoneId, name, txt⟩ with
  | none => exact ⟨none, rfl, rfl⟩
  | some set =>
    obtain ⟨⟨ttl, values, rfl⟩, -⟩ := hs _ hset
    exact ⟨some ⟨ttl, values⟩, rfl, rfl⟩

/-- In plain record sets, a critical section goes on with the set there is. -/
theorem wp_fetchRrset (cfg : Route53Config) {zoneId name : Str} (hs : backend.PlainAt s ⟨zoneId, name, txt⟩)
    {op : Op} {v : Str} {rest : Option TxtSet → M Unit}
    (hrest : ∀ existing, s.sets ⟨zoneId, name, txt⟩ = existing.map (fun set => .simple set.ttl set.values) →
      wp (fun _ _ => True) (backend.env zenv faulty) (rest existing).run
        (backend.Post op v ⟨zoneId, name, txt⟩ faulty s) s) :
    wp (fun _ _ => True) (backend.env zenv faulty) (fetchRrset cfg zoneId name >>= rest).run
      (backend.Post op v ⟨zoneId, name, txt⟩ faulty s) s := by
  obtain ⟨existing, hfetched, hset⟩ := fetched_plain cfg hs
  refine Backend.wp_fetched (A := (· = existing)) (Fut.wp_mono (fetchRrset_wp cfg zoneId name) ?_)
    (forall_eq.2 (hrest existing hset))
  rintro r s' ⟨hs', hr⟩
  refine ⟨hs', hr.imp_left fun hr => ⟨existing, ?_, rfl⟩⟩
  rw [hr, hfetched]

theorem contains_eq (set : TxtSet) (value : Str) : set.contains value = holds value set.values := rfl

theorem applied_upsert (existing : Option TxtSet) (ttl : Nat) {values : List Str} (h : values ≠ []) :
    Action.applied .upsert ⟨ttl, values⟩ (existing.map fun set => .simple set.ttl set.values) =
      some (some (.simple ttl values)) := by
  cases existing <;> simp [Action.applied, h]

theorem applied_delete (set : TxtSet) :
    Action.applied .delete set (some (.simple set.ttl set.values)) = some none := by
  simp [Action.applied]

theorem presentLocked_ok (cfg : Route53Config) (zoneId name value : Str) :
    backend.BodyOk .present value ⟨zoneId, name, txt⟩ (presentLocked cfg zoneId name value) := by
  refine ⟨Fut.always_run_bind (internal_fetchRrset cfg zoneId name) fun existing => ?_, fun zenv faulty s hs => ?_⟩
  · cases existing with
    | none => exact internal_changeRrset cfg _ _ _ _
    | some set =>
      by_cases h : set.contains value = true
      · simp only [if_pos h]; trivial
      · simp only [if_neg h]; exact internal_changeRrset cfg _ _ _ _
  · refine wp_fetchRrset cfg hs fun existing hset => ?_
    cases existing with
    | none =>
      have hv : backend.valuesAt s ⟨zoneId, name, txt⟩ = [] := by simp [Backend.valuesAt, hset]
      have hx : Action.applied .upsert ⟨cfg.ttl, [quote value]⟩ (s.sets ⟨zoneId, name, txt⟩) =
          some (some (.simple cfg.ttl [quote value])) := by
        rw [hset]; exact applied_upsert none cfg.ttl (by simp)
      refine Backend.wp_wrote (changeRrset_wp cfg zoneId name hx) ?_
        ⟨by simp [hv, present_apply, holds], by simp, ⟨_, _, rfl⟩, fun _ old hold => ?_⟩
      · simp [hv, present_apply, holds]
      · rw [hset] at hold; cases hold
    | some set =>
      have hv : backend.valuesAt s ⟨zoneId, name, txt⟩ = set.values := by simp [Backend.valuesAt, hset]
      by_cases h : set.contains value = true
      · simp only [if_pos h]
        exact Or.inl ⟨by rw [hv]; exact present_apply_eq_iff.2 h, rfl, rfl⟩
      · simp only [if_neg h]
        have hx : Action.applied .upsert ⟨set.ttl, set.values ++ [quote value]⟩ (s.sets ⟨zoneId, name, txt⟩) =
            some (some (.simple set.ttl (set.values ++ [quote value]))) := by
          rw [hset]; exact applied_upsert (some set) set.ttl (by simp)
        rw [contains_eq] at h
        refine Backend.wp_wrote (changeRrset_wp cfg zoneId name hx) ?_
          ⟨?_, by simp, ⟨_, _, rfl⟩, fun _ old hold => ?_⟩
        · rw [hv, Ne, present_apply_eq_iff]; exact h
        · rw [hv, present_apply, if_neg h]; simp
        · rw [hset] at hold; cases hold; rfl

theorem cleanupLocked_ok (cfg : Route53Config) (zoneId name value : Str) :
    backend.BodyOk .cleanup value ⟨zoneId, name, txt⟩ (cleanupLocked cfg zoneId name value) := by
  refine ⟨Fut.always_run_bind (internal_fetchRrset cfg zoneId name) fun existing => ?_, fun zenv faulty s hs => ?_⟩
  · cases existing with
    | none => trivial
    | some set =>
      by_cases h : set.contains value = true
      · simp only [if_pos h]
        split <;> exact internal_changeRrset cfg _ _ _ _
      · simp only [if_neg h]; trivial
  · refine wp_fetchRrset cfg hs fun existing hset => ?_
    cases existing with
    | none =>
      have hv : backend.valuesAt s ⟨zoneId, name, txt⟩ = [] := by simp [Backend.valuesAt, hset]
      exact Or.inl ⟨by rw [hv]; rfl, rfl, rfl⟩
    | some set =>
      have hv : backend.valuesAt s ⟨zoneId, name, txt⟩ = set.values := by simp [Backend.valuesAt, hset]
      by_cases h : set.contains value = true
      · have hne : Op.cleanup.apply value (backend.valuesAt s ⟨zoneId, name, txt⟩) ≠
            backend.valuesAt s ⟨zoneId, name, txt⟩ := by
          rw [hv, Ne, cleanup_apply_eq_iff, ← contains_eq, h]; simp
        simp only [if_pos h]
        by_cases hempty : (set.values.filter (unquote · ≠ value)).isEmpty = true
        · simp only [if_pos hempty]
          refine Backend.wp_wrote (changeRrset_wp cfg zoneId name (by rw [hset]; exact applied_delete set)) hne ?_
          rw [Backend.Written, hv, cleanup_apply]
          exact List.isEmpty_iff.1 hempty
        · simp only [if_neg hempty]
          have hnil : set.values.filter (unquote · ≠ value) ≠ [] := fun he => hempty (List.isEmpty_iff.2 he)
          have hx : Action.applied .upsert ⟨set.ttl, set.values.filter (unquote · ≠ value)⟩
              (s.sets ⟨zoneId, name, txt⟩) =
                some (some (.simple set.ttl (set.values.filter (unquote · ≠ value)))) := by
            rw [hset]; exact applied_upsert (some set) set.ttl hnil
          refine Backend.wp_wrote (changeRrset_wp cfg zoneId name hx) hne
            ⟨by rw [hv, cleanup_apply]; simp, hnil, ⟨_, _, rfl⟩, fun _ old hold => ?_⟩
          rw [hset] at hold; cases hold; rfl
      · simp only [if_neg h]
        refine Or.inl ⟨?_, rfl, rfl⟩
        rw [hv, cleanup_apply_eq_iff, ← contains_eq]
        simpa using h

theorem sound : backend.Sound where
  throttles := throttles
  answers q s hq := by
    cases q with
    | zonesByName dnsname => cases hq
    | getChange id => exact ⟨⟨⟨200, ""⟩, none, none, none, [], .ok ⟨id, "INSYNC".toList⟩⟩, s, rfl, rfl, _, rfl⟩
    | change zoneId action name set =>
      cases hx : action.applied set (s.sets ⟨zoneId, name, txt⟩) with
      | none => exact ⟨⟨⟨400, ""⟩, none, none, none, [], .error ""⟩, s.reject, by simp [serves, hx]⟩
      | some x =>
        refine ⟨⟨⟨200, ""⟩, none, none, none, [], .ok ⟨[], "INSYNC".toList⟩⟩, s.put ⟨zoneId, name, txt⟩ x, ?_⟩
        simp only [serves, hx]
        exact ⟨rfl, ⟨_, rfl⟩, trivial⟩
    | rrset zoneId name =>
      cases hset : s.sets ⟨zoneId, name, txt⟩ with
      | none => exact ⟨⟨⟨200, ""⟩, none, none, none, [], .ok []⟩, s, rfl, rfl, [], rfl, by simp [hset]⟩
      | some set =>
        obtain ⟨d, hname, htype, hd⟩ : ∃ d : ResourceRecordSet, d.name = name ∧ d.recordType = txt ∧
            set.ReportedAs d := by
          cases set with
          | simple ttl values => exact ⟨⟨name, txt, some ttl, none, some values⟩, rfl, rfl, rfl, rfl, rfl⟩
          | aliasOf target => exact ⟨⟨name, txt, none, none, none⟩, rfl, rfl, rfl, rfl, rfl⟩
          | routed identifier ttl values others =>
            exact ⟨⟨name, txt, ttl, some identifier, values⟩, rfl, rfl, rfl, rfl, rfl⟩
        refine ⟨⟨⟨200, ""⟩, none, none, none, [], .ok [d]⟩, s, rfl, rfl, [d], rfl, ?_⟩
        rw [hset]
        exact ⟨d, rfl, by rw [hname], htype, hd⟩
  owner_txt _ _ := rfl
  unquote_canonical _ := rfl
  canonical_quote _ := rfl
  call cfg op fqdn v := by
    cases op with
    | present =>
      refine ⟨_, fun zone => .ok (lockKey zone (absolute fqdn), presentLocked cfg zone (absolute fqdn) v), ?_,
        Backend.checks_present, fun _ => ?_⟩
      · simp only [Backend.run, present, lift_bind, bind_assoc]
        rfl
      · exact Backend.enterOk_absolute (b := backend) (fun zone => presentLocked cfg zone (absolute fqdn) v)
          (fun _ _ => rfl) (fun _ _ => rfl) fun zone => presentLocked_ok cfg zone (absolute fqdn) v
    | cleanup =>
      refine ⟨_, fun zone => .ok (lockKey zone (absolute fqdn), cleanupLocked cfg zone (absolute fqdn) v), ?_,
        Backend.checks_cleanup, fun _ => ?_⟩
      · simp only [Backend.run, cleanup]
        rfl
      · exact Backend.enterOk_absolute (b := backend) (fun zone => cleanupLocked cfg zone (absolute fqdn) v)
          (fun _ _ => rfl) (fun _ _ => rfl) fun zone => cleanupLocked_ok cfg zone (absolute fqdn) v

end Cheti.Route53
