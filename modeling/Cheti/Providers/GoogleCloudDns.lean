import Cheti.Backend
import Cheti.Json
import Cheti.Polling
/-!
# Google Cloud DNS (src/providers/google_cloud_dns.rs)

| here | there |
| --- | --- |
| `exchange`, `settle`          | `get` (google_cloud_dns.rs:335-350) and the same steps around the POST of `apply_change` |
| `checkError`                  | `check_error` (google_cloud_dns.rs:481-513) with `into_auth` (google_cloud_dns.rs:515-520) |
| `resolveZone`, `listFrom`, `better` | `resolve_zone` (google_cloud_dns.rs:364-401), its loop over the pages and the one over a page |
| `fetchRrset`, `isTxtAt`       | `fetch_rrset` (google_cloud_dns.rs:405-418) and its filter |
| `applyChange`                 | `apply_change` (google_cloud_dns.rs:423-451) |
| `rrdatas`                     | `rrdatas` (google_cloud_dns.rs:543-553) |
| `presentLocked`, `cleanupLocked` | what `present` and `cleanup` (google_cloud_dns.rs:634-693) do under the lock |

A record set is kept as the JSON value the API reports, since a change has to delete it exactly as it
is. The exchange of a signed assertion for an access token is one await, `accessToken`.
-/

namespace Cheti.GoogleCloudDns

def provider : String := "google-cloud-dns"
def locks : KeyedMutex := ⟨"google-cloud-dns".toList⟩
def maxPages : Nat := 50

structure GoogleCloudDnsConfig where
  project : Str
  managedZone : Option Str
  ttl : UInt32

structure Rrset where
  name : Str
  kind : Str
  ttl : Nat
  rrdatas : List Str

structure ManagedZone where
  name : Str
  dnsName : Str
  visibility : Option Str

structure ManagedZones where
  managedZones : List ManagedZone
  nextPageToken : Option Str

structure Change where
  id : Str
  status : Str

inductive Req where
  | zones (pageToken : Option Str)
  | rrsets (zone name : Str)
  | change (zone : Str) (deletion : Option Value) (addition : Option Rrset)
  | getChange (zone id : Str)

abbrev Req.Doc : Req → Type
  | .zones _ => ManagedZones
  | .rrsets _ _ => List Value
  | .change _ _ _ | .getChange _ _ => Change

abbrev M := Prog Req Req.Doc

def zonesPath (cfg : GoogleCloudDnsConfig) : Str :=
  "/projects/".toList ++ encodePath cfg.project ++ "/managedZones".toList

def zonePath (cfg : GoogleCloudDnsConfig) (zone : Str) : Str := zonesPath cfg ++ '/' :: encodePath zone

def intoAuth : DnsError → DnsError
  | .api msg => .auth msg
  | other => other

def checkError {α : Type} (verb : String) (path : Str) (response : Response α) : DnsError :=
  if response.status.asU16 = 401 ∨ response.status.asU16 = 403 then
    intoAuth (apiError provider verb path response)
  else if response.status.asU16 = 429 then
    .api s!"{provider} {verb} {path} was rate limited (429), {retryHint response}"
  else if response.status.asU16 = 409 ∨ response.status.asU16 = 412 then
    .api (s!"{provider} {verb} {path} returned {response.status}: the record set was modified " ++
      "concurrently, retry the operation")
  else apiError provider verb path response

/-- The document of a successful response; a 401 drops the cached token. -/
def settle {α : Type} (verb : String) (path : Str) (response : Response α) : M α :=
  if response.status.isSuccess then response.json
  else if response.status.asU16 = 401 then do
    let _ ← await .forgetToken
    throw (checkError verb path response)
  else throw (checkError verb path response)

def exchange (method : Method) (verb : String) (path : Str) (q : Req) : M q.Doc := do
  let _ ← accessToken
  let response ← sendRetrying method q
  settle verb path response

/-- A public zone that has the name in it and a longer DNS name than the best one so far. -/
def better (name : Str) (best : Option (Nat × Str)) (zone : ManagedZone) : Option (Nat × Str) :=
  if zone.visibility = some "private".toList then best
  else
    let dnsName := lower zone.dnsName
    let fits := decide (name = dnsName) || ('.' :: dnsName).isSuffixOf name
    if fits && best.all (fun b => decide (Text.utf8Len dnsName > b.1)) then some (Text.utf8Len dnsName, zone.name)
    else best

def found (fqdn : Str) : Option (Nat × Str) → Except DnsError Str
  | some (_, zone) => .ok zone
  | none => .error (.zoneNotFound fqdn)

/-- The loop of `resolve_zone` with the number of pages that are left. -/
def listFrom (cfg : GoogleCloudDnsConfig) (fqdn name : Str) : Nat → Option Str → Option (Nat × Str) → M Str
  | 0, _, _ => throw (.api s!"{provider} zone listing exceeded {maxPages} pages")
  | left + 1, pageToken, best => do
    let body : ManagedZones ← exchange .get "GET" (zonesPath cfg) (Req.zones pageToken)
    let best := body.managedZones.foldl (better name) best
    match body.nextPageToken with
    | some t => if t.isEmpty then found fqdn best else listFrom cfg fqdn name left (some t) best
    | none => found fqdn best

def resolveZone (cfg : GoogleCloudDnsConfig) (fqdn : Str) : M Str :=
  match cfg.managedZone with
  | some zone => pure zone
  | none => listFrom cfg fqdn (absolute fqdn) maxPages none none

/-- `r["type"] == "TXT" && r["name"].as_str().is_some_and(..)` -/
def isTxtAt (name : Str) (r : Value) : Bool :=
  decide ((r.get "type").asStr = some txt) && (r.get "name").asStr.any (eqIgnoreCase · name)

def fetchRrset (cfg : GoogleCloudDnsConfig) (zone name : Str) : M (Option Value) := do
  let rrsets : List Value ← exchange .get "GET" (zonePath cfg zone ++ "/rrsets".toList) (Req.rrsets zone name)
  return rrsets.find? (isTxtAt name)

def pollPolicy : PollPolicy Change where
  interval := secs 1
  timeout := secs 60
  inSync change := change.status = "done".toList
  timedOut change := .api s!"{provider} change {change.id} still {change.status} after {60}s"

def fetchChange (cfg : GoogleCloudDnsConfig) (zone : Str) (change : Change) : M Change :=
  exchange .get "GET" (zonePath cfg zone ++ "/changes/".toList ++ encodePath change.id) (Req.getChange zone change.id)

def applyChange (cfg : GoogleCloudDnsConfig) (zone : Str) (deletion : Option Value) (addition : Option Rrset) :
    M Unit := do
  let change : Change ← exchange .post "POST" (zonePath cfg zone ++ "/changes".toList)
    (Req.change zone deletion addition)
  waitForChange pollPolicy (fetchChange cfg zone) change

def rrdatas (rrset : Value) : List Str :=
  ((rrset.get "rrdatas").asArray.map fun values => values.filterMap Value.asStr).getD []

/-- `rrset["ttl"].as_u64().unwrap_or(u64::from(self.config.ttl))` -/
def ttlOf (cfg : GoogleCloudDnsConfig) (rrset : Value) : Nat := (rrset.get "ttl").asU64.getD cfg.ttl.toNat

def presentLocked (cfg : GoogleCloudDnsConfig) (zone name value : Str) : M Unit := do
  let existing ← fetchRrset cfg zone name
  let values := (existing.map rrdatas).getD []
  let ttl := (existing.map (ttlOf cfg)).getD cfg.ttl.toNat
  if values.any (unquote · = value) then return
  else applyChange cfg zone existing (some ⟨name, txt, ttl, values ++ [quote value]⟩)

def present (cfg : GoogleCloudDnsConfig) (fqdn value : Str) : M Unit := do
  validateFqdn fqdn
  validateAcmeValue value
  let zone ← resolveZone cfg fqdn
  withLock locks (lockKey zone (absolute fqdn)) (presentLocked cfg zone (absolute fqdn) value)

def cleanupLocked (cfg : GoogleCloudDnsConfig) (zone name value : Str) : M Unit := do
  match ← fetchRrset cfg zone name with
  | none => return
  | some existing =>
    let values := rrdatas existing
    let remaining := values.filter (unquote · ≠ value)
    if remaining.length = values.length then return
    else if remaining.isEmpty then applyChange cfg zone (some existing) none
    else applyChange cfg zone (some existing) (some ⟨name, txt, ttlOf cfg existing, remaining⟩)

def cleanup (cfg : GoogleCloudDnsConfig) (fqdn value : Str) : M Unit := do
  validateFqdn fqdn
  let zone ← resolveZone cfg fqdn
  withLock locks (lockKey zone (absolute fqdn)) (cleanupLocked cfg zone (absolute fqdn) value)

/-! ## The API -/

/-- `x` is a stored form of the record set: it may have more fields. -/
structure Rrset.StoredAs (r : Rrset) (x : Value) : Prop where
  name : x.get "name" = .string r.name
  kind : x.get "type" = .string r.kind
  ttl : x.get "ttl" = .number r.ttl
  rrdatas : x.get "rrdatas" = .array (r.rrdatas.map .string)
  routingPolicy : x.get "routingPolicy" = .null

def Stores : Option Rrset → Option Value → Prop
  | none, none => True
  | some r, some x => r.StoredAs x
  | _, _ => False

/-- The record set a change is about. -/
def changeOwner (zone : Str) : Option Value → Option Rrset → Owner
  | _, some r => ⟨zone, r.name, r.kind⟩
  | some d, none => ⟨zone, lower ((d.get "name").asStr.getD []), (d.get "type").asStr.getD []⟩
  | none, none => ⟨zone, [], []⟩

/-- In the answer to a read, a TXT set of that name is the stored one, and the stored one is there. A
change is made if what it deletes is exactly what is stored. -/
def serves : (q : Req) → Response q.Doc → Records Value → Records Value → Prop
  | .rrsets zone name, resp, s, s' => s' = s ∧ resp.status.isSuccess = true ∧ ∃ rrsets, resp.body = .ok rrsets ∧
    (∀ r ∈ rrsets, isTxtAt name r = true → s.sets ⟨zone, name, txt⟩ = some r) ∧
    (∀ x, s.sets ⟨zone, name, txt⟩ = some x → isTxtAt name x = true → x ∈ rrsets)
  | .change zone deletion addition, resp, s, s' =>
    (s.sets (changeOwner zone deletion addition) = deletion ∧ resp.status.isSuccess = true ∧
      (∃ change, resp.body = .ok change) ∧
      ∃ x, Stores addition x ∧ s' = s.put (changeOwner zone deletion addition) x) ∨
    (s.sets (changeOwner zone deletion addition) ≠ deletion ∧
      (resp.status.asU16 = 409 ∨ resp.status.asU16 = 412) ∧ s' = s.reject)
  | .getChange _ _, resp, s, s' => s' = s ∧ resp.status.isSuccess = true ∧ ∃ change, resp.body = .ok change
  | .zones _, _, s, s' => s' = s

/-- A record set that is just a list of values: its data is not under `routingPolicy`. -/
structure Plain (o : Owner) (x : Value) : Prop where
  named : isTxtAt o.name x = true
  ttl : ∃ ttl, (x.get "ttl").asU64 = some ttl
  rrdatas : ∃ values : List Str, x.get "rrdatas" = .array (values.map .string)
  routingPolicy : x.get "routingPolicy" = .null

abbrev backend : Backend where
  Q := Req
  B := Req.Doc
  Config := GoogleCloudDnsConfig
  Zone := Str
  zoneName zone := zone
  locks := locks
  resolveZone := resolveZone
  present := present
  cleanup := cleanup
  key zone name := .ok (lockKey zone (name ++ ['.']))
  owner zone name := ⟨zone, name ++ ['.'], txt⟩
  aboutZones
    | .zones _ => true
    | _ => false
  Set := Value
  values := rrdatas
  ttl x := (x.get "ttl").asU64
  plain := Plain
  serves := serves
  reads
    | .change _ _ _ => false
    | _ => true
  notFoundAnswers := false
  canonical x := x
  keepsTtl := true
  polls := true

/-! ## Values -/

theorem rrdatas_eq {x : Value} {values : List Str} (h : x.get "rrdatas" = .array (values.map .string)) :
    rrdatas x = values := by
  simp [rrdatas, h, Value.asArray, Value.asStr, List.filterMap_map, Function.comp_def]

/-- What is added is stored as a plain set. -/
theorem Rrset.StoredAs.plain {r : Rrset} {x : Value} (h : r.StoredAs x) (hkind : r.kind = txt)
    (httl : r.ttl < 2 ^ 64) (zone : Str) : Plain ⟨zone, r.name, txt⟩ x where
  named := by simp [isTxtAt, h.kind, h.name, hkind, Value.asStr, eqIgnoreCase]
  ttl := ⟨r.ttl, by rw [h.ttl]; exact Value.asU64_eq_some.2 ⟨rfl, httl⟩⟩
  rrdatas := ⟨r.rrdatas, h.rrdatas⟩
  routingPolicy := h.routingPolicy

theorem ttlOf_lt (cfg : GoogleCloudDnsConfig) (x : Value) : ttlOf cfg x < 2 ^ 64 := by
  unfold ttlOf
  cases h : (x.get "ttl").asU64 with
  | some n => exact (Value.asU64_eq_some.1 h).2
  | none => exact lt_trans cfg.ttl.toNat_lt (by decide)

/-- The TTL a plain set is written back with is its own. -/
theorem Plain.ttlOf_eq {o : Owner} {x : Value} (h : Plain o x) (cfg : GoogleCloudDnsConfig) :
    (x.get "ttl").asU64 = some (ttlOf cfg x) := by
  obtain ⟨ttl, httl⟩ := h.ttl
  simp [ttlOf, httl]

/-! ## Requests -/

open Fut (wp Always)

theorem throttles : backend.Throttles := by
  intro q resp s s' h hr
  cases q with
  | zones pageToken => exact h
  | rrsets zone name => exact h.1
  | getChange zone id => exact h.1
  | change zone deletion addition =>
    rcases h with ⟨-, hsucc, -, -⟩ | ⟨-, hstatus, -⟩
    · exact absurd hr (StatusCode.not_throttled hsucc)
    · omega

variable {zenv : (c : Call Req) → Reply Req.Doc c → Prop} {faulty : Bool} {s : Records Value}

/-- An unsuccessful response is an error, and the records stay as they are. -/
theorem wp_settle_error {α : Type} (verb : String) (path : Str) {response : Response α}
    (h : response.status.isSuccess = false) {Post : Except DnsError α → Records Value → Prop}
    (hpost : ∀ e, Post (.error e) s) :
    wp (fun _ _ => True) (backend.env zenv faulty) (settle verb path response).run Post s := by
  have hsucc : ¬ response.status.isSuccess = true := by simp [h]
  unfold settle
  rw [if_neg hsucc]
  by_cases h401 : response.status.asU16 = 401
  · rw [if_pos h401, Fut.wp_run_bind]
    refine wp_await_run.2 ⟨trivial, fun _ s₁ h₁ => ?_⟩
    obtain rfl : s₁ = s := h₁
    exact hpost _
  · rw [if_neg h401]
    exact hpost _

theorem settle_success {α : Type} (verb : String) (path : Str) {response : Response α}
    (h : response.status.isSuccess = true) : settle verb path response = liftM response.json := by
  unfold settle
  rw [if_pos h]

/-- A request that the API carries out, with its token, and what comes back. -/
theorem wp_exchange (method : Method) (verb : String) (path : Str) {q : Req} (hq : backend.aboutZones q = false)
    {Post : Except DnsError q.Doc → Records Value → Prop}
    (hserved : ∀ resp s', serves q resp s s' → resp.status.isSuccess = true ∧
      ∃ doc, resp.body = .ok doc ∧ Post (.ok doc) s')
    (herror : faulty = true → ∀ e, Post (.error e) s) :
    wp (fun _ _ => True) (backend.env zenv faulty) (exchange method verb path q).run Post s := by
  unfold exchange
  rw [Fut.wp_run_bind]
  refine ⟨trivial, fun token s₁ h₁ => ?_⟩
  obtain ⟨htoken, rfl⟩ := h₁
  cases token with
  | error e =>
    -- without faults there is a token
    cases faulty with
    | false => obtain ⟨t, ht⟩ := htoken rfl; cases ht
    | true => exact herror rfl e
  | ok token =>
    show wp _ _ (sendRetrying method q >>= fun response => settle verb path response).run Post s₁
    rw [Fut.wp_run_bind]
    refine wp_sendRetrying trivial (fun d => ⟨trivial, fun _ _ h => h⟩) (fun resp s' h hr => ?_) fun r s' h => ?_
    · rcases (Backend.env_send (b := backend) hq).1 h with ⟨resp', he, hs⟩ | ⟨-, -, hs⟩
      · cases he; exact throttles q resp s₁ s' hs hr
      · exact hs
    · rcases (Backend.env_send (b := backend) hq).1 h with ⟨resp, rfl, hs⟩ | ⟨hf, hfail, rfl⟩
      · obtain ⟨hsucc, doc, hdoc, hpost⟩ := hserved resp s' hs
        simp only [Except.mapError]
        rw [settle_success verb path hsucc, Fut.wp_run_except, Response.json_ok hdoc]
        exact hpost
      · cases r with
        | error e => exact herror hf _
        | ok resp =>
          simp only [Except.mapError]
          rcases Backend.failed_ok hfail with ⟨hsucc, -, e, he⟩ | ⟨hsucc, -⟩
          · rw [settle_success verb path hsucc, Fut.wp_run_except, Response.json_error he]
            exact herror hf _
          · exact wp_settle_error verb path hsucc fun e => herror hf e

/-- The filter of `fetch_rrset` finds the stored set in what the API returns. -/
theorem find_rrset {rrsets : List Value} {name : Str} {set : Option Value}
    (hmem : ∀ r ∈ rrsets, isTxtAt name r = true → set = some r)
    (hex : ∀ x, set = some x → isTxtAt name x = true → x ∈ rrsets)
    (hnamed : ∀ x, set = some x → isTxtAt name x = true) : rrsets.find? (isTxtAt name) = set := by
  cases hfind : rrsets.find? (isTxtAt name) with
  | some r => exact (hmem r (List.mem_of_find?_eq_some hfind) (List.find?_some hfind)).symm
  | none =>
    cases set with
    | none => rfl
    | some x => exact absurd (hnamed x rfl) (List.find?_eq_none.1 hfind x (hex x rfl (hnamed x rfl)))

theorem fetchRrset_wp (cfg : GoogleCloudDnsConfig) (zone name : Str)
    (hnamed : ∀ x, s.sets ⟨zone, name, txt⟩ = some x → isTxtAt name x = true) :
    wp (fun _ _ => True) (backend.env zenv faulty) (fetchRrset cfg zone name).run
      (backend.Fetched faulty s (· = s.sets ⟨zone, name, txt⟩)) s := by
  unfold fetchRrset
  rw [Fut.wp_run_bind]
  refine wp_exchange _ _ _ rfl (fun resp s' h => ?_) fun hf e => ⟨rfl, Or.inr ⟨hf, e, rfl⟩⟩
  obtain ⟨rfl, hsucc, rrsets, hbody, hmem, hex⟩ := h
  exact ⟨hsucc, rrsets, hbody, rfl, Or.inl ⟨_, rfl, find_rrset hmem hex hnamed⟩⟩

theorem fetchChange_wp (cfg : GoogleCloudDnsConfig) (zone : Str) (change : Change) :
    wp (fun _ _ => True) (backend.env zenv faulty) (fetchChange cfg zone change).run (fun _ s' => s' = s) s :=
  wp_exchange _ _ _ rfl (fun _ _ h => ⟨h.2.1, h.2.2.imp fun _ hdoc => ⟨hdoc, h.1⟩⟩) fun _ _ => rfl

/-- A change that deletes exactly what is stored is made, whatever comes of waiting for it. -/
theorem applyChange_wp (cfg : GoogleCloudDnsConfig) (zone : Str) {o : Owner} {deletion : Option Value}
    {addition : Option Rrset} (ho : changeOwner zone deletion addition = o) (hdeletion : s.sets o = deletion) :
    wp (fun _ _ => True) (backend.env zenv faulty) (applyChange cfg zone deletion addition).run (fun r s' =>
      (∃ x, Stores addition x ∧ s' = s.put o x) ∨ faulty = true ∧ (∃ e, r = .error e) ∧ s' = s) s := by
  unfold applyChange
  rw [Fut.wp_run_bind]
  refine wp_exchange _ _ _ rfl (fun resp s' h => ?_) fun hf e => Or.inr ⟨hf, ⟨e, rfl⟩, rfl⟩
  simp only [serves, ho] at h
  rcases h with ⟨-, hsucc, ⟨change, hbody⟩, x, hx, hs'⟩ | ⟨hother, -, -⟩
  · refine ⟨hsucc, change, hbody, Fut.wp_mono (wp_waitForChange ⟨trivial, fun _ _ h => h⟩
      (fun d => ⟨trivial, fun _ _ h => h⟩) (fun change => fetchChange_wp cfg zone change) change) fun r s₂ h₂ => ?_⟩
    exact Or.inl ⟨x, hx, h₂.trans hs'⟩
  · exact absurd hdeletion hother

theorem wp_applyChange (cfg : GoogleCloudDnsConfig) (zone : Str) {o : Owner} {deletion : Option Value}
    {addition : Option Rrset} {op : Op} {v : Str} (ho : changeOwner zone deletion addition = o)
    (hdeletion : s.sets o = deletion) (hne : op.apply v (backend.valuesAt s o) ≠ backend.valuesAt s o)
    (hwritten : ∀ x, Stores addition x → backend.Written op v o s x) :
    wp (fun _ _ => True) (backend.env zenv faulty) (applyChange cfg zone deletion addition).run
      (backend.Post op v o faulty s) s := by
  refine Fut.wp_mono (applyChange_wp cfg zone ho hdeletion) ?_
  rintro r s' (⟨x, hx, rfl⟩ | ⟨hf, he, rfl⟩)
  · exact Or.inr (Or.inl ⟨hne, Or.inr rfl, x, rfl, hwritten x hx⟩)
  · exact Or.inr (Or.inr ⟨hf, he, rfl⟩)

/-- What an addition has to be for the set it makes to be the changed one. -/
theorem written_addition {zone name v : Str} {op : Op} {ttl : Nat} {values : List Str} {x : Option Value}
    (hx : Stores (some ⟨name, txt, ttl, values⟩) x) (hnil : values ≠ []) (httl : ttl < 2 ^ 64)
    (hvalues : values = op.apply v (backend.valuesAt s ⟨zone, name, txt⟩))
    (hkeep : ∀ old, s.sets ⟨zone, name, txt⟩ = some old → (old.get "ttl").asU64 = some ttl) :
    backend.Written op v ⟨zone, name, txt⟩ s x := by
  cases x with
  | none => exact hx.elim
  | some x =>
    have hst : Rrset.StoredAs ⟨name, txt, ttl, values⟩ x := hx
    have hrr : rrdatas x = values := rrdatas_eq hst.rrdatas
    refine ⟨?_, ?_, hst.plain rfl httl zone, fun _ old hold => ?_⟩
    · show rrdatas x = _
      rw [hrr, hvalues]; simp
    · show rrdatas x ≠ []
      rwa [hrr]
    · show (x.get "ttl").asU64 = (old.get "ttl").asU64
      rw [hst.ttl, hkeep old hold]
      exact Value.asU64_eq_some.2 ⟨rfl, httl⟩

/-! ## Calls -/

theorem only_settle {P : Call Req → Prop} {α : Type} (hforget : P .forgetToken) (verb : String) (path : Str)
    (response : Response α) : Only P (settle verb path response) := by
  unfold settle
  by_cases hsucc : response.status.isSuccess = true
  · rw [if_pos hsucc]
    exact .lift _
  · rw [if_neg hsucc]
    by_cases h401 : response.status.asU16 = 401
    · rw [if_pos h401]
      exact (Only.await hforget).bind fun _ => .throw _
    · rw [if_neg h401]
      exact .throw _

theorem only_exchange {P : Call Req → Prop} (method : Method) (verb : String) (path : Str) {q : Req} (hsend : P (.send q))
    (hsleep : ∀ d, P (.sleep d)) (htoken : P .accessToken) (hforget : P .forgetToken) :
    Only P (exchange method verb path q) :=
  (Only.accessToken htoken).bind fun _ => (Only.sendRetrying hsend hsleep).bind fun response =>
    only_settle hforget verb path response

theorem only_fetchRrset {P : Call Req → Prop} (cfg : GoogleCloudDnsConfig) {zone name : Str}
    (hsend : P (.send (.rrsets zone name))) (hsleep : ∀ d, P (.sleep d)) (htoken : P .accessToken)
    (hforget : P .forgetToken) : Only P (fetchRrset cfg zone name) := by
  unfold fetchRrset
  exact (only_exchange _ _ _ hsend hsleep htoken hforget).bind fun _ => .pure _

theorem only_fetchChange {P : Call Req → Prop} (cfg : GoogleCloudDnsConfig) {zone : Str}
    (hsend : ∀ id, P (.send (.getChange zone id))) (hsleep : ∀ d, P (.sleep d)) (htoken : P .accessToken)
    (hforget : P .forgetToken) (change : Change) : Only P (fetchChange cfg zone change) := by
  unfold fetchChange
  exact only_exchange _ _ _ (hsend change.id) hsleep htoken hforget

theorem internal_fetchRrset (cfg : GoogleCloudDnsConfig) (zone name : Str) :
    Only backend.Internal (fetchRrset cfg zone name) :=
  only_fetchRrset cfg trivial (fun _ => trivial) trivial trivial

theorem internal_applyChange (cfg : GoogleCloudDnsConfig) (zone : Str) (deletion : Option Value)
    (addition : Option Rrset) : Only backend.Internal (applyChange cfg zone deletion addition) := by
  unfold applyChange
  refine (only_exchange _ _ _ trivial (fun _ => trivial) trivial trivial).bind fun change => ?_
  exact .waitForChange trivial (fun _ => trivial)
    (only_fetchChange cfg (fun _ => trivial) (fun _ => trivial) trivial trivial) change

theorem valuesAt_eq (o : Owner) : backend.valuesAt s o = ((s.sets o).map rrdatas).getD [] := rfl

/-- What `present` adds is the set with the value. -/
theorem written_present (cfg : GoogleCloudDnsConfig) {zone name value : Str} {x : Option Value}
    (hs : backend.PlainAt s ⟨zone, name, txt⟩) (hnot : ¬ holds value (backend.valuesAt s ⟨zone, name, txt⟩) = true)
    (hx : Stores (some ⟨name, txt, ((s.sets ⟨zone, name, txt⟩).map (ttlOf cfg)).getD cfg.ttl.toNat,
      backend.valuesAt s ⟨zone, name, txt⟩ ++ [quote value]⟩) x) :
    backend.Written .present value ⟨zone, name, txt⟩ s x := by
  refine written_addition hx (by simp) ?_ ?_ fun old hold => ?_
  · cases s.sets ⟨zone, name, txt⟩ with
    | none => exact lt_trans cfg.ttl.toNat_lt (by decide)
    | some old => exact ttlOf_lt cfg old
  · rw [present_apply, if_neg hnot]
  · rw [hold]
    exact (hs old hold).1.ttlOf_eq cfg

theorem presentLocked_ok (cfg : GoogleCloudDnsConfig) (zone name value : Str) :
    backend.BodyOk .present value ⟨zone, name, txt⟩ (presentLocked cfg zone name value) := by
  refine ⟨Fut.always_run_bind (internal_fetchRrset cfg zone name) fun existing => ?_, fun zenv faulty s hs => ?_⟩
  · simp only
    split
    · trivial
    · exact internal_applyChange cfg _ _ _
  · refine Backend.wp_fetched (fetchRrset_wp cfg zone name fun x hx => (hs x hx).1.named) (forall_eq.2 ?_)
    have hv := valuesAt_eq (s := s) ⟨zone, name, txt⟩
    simp only
    split
    · rename_i h
      exact Or.inl ⟨by rw [hv]; exact present_apply_eq_iff.2 h, rfl, rfl⟩
    · rename_i h
      have hnot : ¬ holds value (backend.valuesAt s ⟨zone, name, txt⟩) = true := h
      refine wp_applyChange cfg zone rfl rfl ?_ fun x hx => written_present cfg hs hnot hx
      rwa [Ne, present_apply_eq_iff]

/-- A plain set that is deleted is found under its own name. -/
theorem changeOwner_deletion {zone name : Str} (hname : lower name = name) {x : Value} (h : isTxtAt name x = true) :
    changeOwner zone (some x) none = ⟨zone, name, txt⟩ := by
  simp only [isTxtAt, Bool.and_eq_true, decide_eq_true_eq] at h
  obtain ⟨htype, hany⟩ := h
  cases hn : (x.get "name").asStr with
  | none => rw [hn] at hany; cases hany
  | some n =>
    rw [hn] at hany
    have hlower : lower n = lower name := by simpa [eqIgnoreCase] using hany
    simp [changeOwner, hn, htype, hlower, hname]

/-- What `cleanup` leaves: nothing, or the other values. -/
def remainder (cfg : GoogleCloudDnsConfig) (name : Str) (existing : Value) (remaining : List Str) : Option Rrset :=
  if remaining.isEmpty then none else some ⟨name, txt, ttlOf cfg existing, remaining⟩

theorem cleanupLocked_eq (cfg : GoogleCloudDnsConfig) (zone name value : Str) : cleanupLocked cfg zone name value = (do
    match ← fetchRrset cfg zone name with
    | none => return
    | some existing =>
      let remaining := (rrdatas existing).filter (unquote · ≠ value)
      if remaining.length = (rrdatas existing).length then return
      else applyChange cfg zone (some existing) (remainder cfg name existing remaining)) := by
  unfold cleanupLocked remainder
  refine bind_congr fun existing => ?_
  cases existing with
  | none => rfl
  | some existing =>
    simp only
    split
    · rfl
    · split <;> rfl

theorem changeOwner_remainder (cfg : GoogleCloudDnsConfig) {zone name : Str} (hname : lower name = name) {existing : Value}
    (h : isTxtAt name existing = true) (remaining : List Str) :
    changeOwner zone (some existing) (remainder cfg name existing remaining) = ⟨zone, name, txt⟩ := by
  unfold remainder
  split
  · exact changeOwner_deletion hname h
  · rfl

theorem written_cleanup (cfg : GoogleCloudDnsConfig) {zone name value : Str} {existing : Value} {x : Option Value}
    (hs : backend.PlainAt s ⟨zone, name, txt⟩) (hset : s.sets ⟨zone, name, txt⟩ = some existing)
    (hx : Stores (remainder cfg name existing ((rrdatas existing).filter (unquote · ≠ value))) x) :
    backend.Written .cleanup value ⟨zone, name, txt⟩ s x := by
  have happly : Op.cleanup.apply value (backend.valuesAt s ⟨zone, name, txt⟩) =
      (rrdatas existing).filter (unquote · ≠ value) := by
    rw [valuesAt_eq, hset, cleanup_apply]
    rfl
  unfold remainder at hx
  split at hx
  · rename_i hempty
    cases x with
    | some x => exact hx.elim
    | none =>
      rw [Backend.Written, happly]
      exact List.isEmpty_iff.1 hempty
  · rename_i hempty
    refine written_addition hx (fun he => hempty (List.isEmpty_iff.2 he)) (ttlOf_lt cfg existing) happly.symm
      fun old hold => ?_
    rw [hset] at hold
    cases hold
    exact (hs existing hset).1.ttlOf_eq cfg

theorem cleanupLocked_ok (cfg : GoogleCloudDnsConfig) (zone : Str) {name : Str} (hname : lower name = name)
    (value : Str) : backend.BodyOk .cleanup value ⟨zone, name, txt⟩ (cleanupLocked cfg zone name value) := by
  rw [cleanupLocked_eq]
  refine ⟨Fut.always_run_bind (internal_fetchRrset cfg zone name) fun existing => ?_, fun zenv faulty s hs => ?_⟩
  · cases existing with
    | none => trivial
    | some existing =>
      simp only
      split
      · trivial
      · exact internal_applyChange cfg _ _ _
  · refine Backend.wp_fetched (fetchRrset_wp cfg zone name fun x hx => (hs x hx).1.named) (forall_eq.2 ?_)
    cases hset : s.sets ⟨zone, name, txt⟩ with
    | none => exact Or.inl ⟨by rw [valuesAt_eq, hset]; rfl, rfl, rfl⟩
    | some existing =>
      have hv : backend.valuesAt s ⟨zone, name, txt⟩ = rrdatas existing := by rw [valuesAt_eq, hset]; rfl
      have happly := cleanup_apply value (rrdatas existing)
      simp only
      by_cases hlen : ((rrdatas existing).filter (unquote · ≠ value)).length = (rrdatas existing).length
      · rw [if_pos hlen]
        have hself := List.filter_eq_self.2 (List.length_filter_eq_length_iff.1 hlen)
        exact Or.inl ⟨by rw [hv, happly, hself], rfl, rfl⟩
      · rw [if_neg hlen]
        refine wp_applyChange cfg zone (changeOwner_remainder cfg hname (hs existing hset).1.named _) hset ?_
          fun x hx => written_cleanup cfg hs hset hx
        intro he
        rw [hv, happly] at he
        exact hlen (congrArg List.length he)

/-- Every record set has a stored form. -/
theorem exists_stored (addition : Option Rrset) : ∃ x, Stores addition x := by
  cases addition with
  | none => exact ⟨none, trivial⟩
  | some r =>
    exact ⟨some (.object [("name".toList, .string r.name), ("type".toList, .string r.kind),
      ("ttl".toList, .number r.ttl), ("rrdatas".toList, .array (r.rrdatas.map .string))]), rfl, rfl, rfl, rfl, rfl⟩

theorem sound : backend.Sound where
  throttles := throttles
  answers q s hq := by
    cases q with
    | zones pageToken => cases hq
    | getChange zone id => exact ⟨⟨⟨200, ""⟩, none, none, none, [], .ok ⟨id, "done".toList⟩⟩, s, rfl, rfl, _, rfl⟩
    | rrsets zone name =>
      refine ⟨⟨⟨200, ""⟩, none, none, none, [], .ok (s.sets ⟨zone, name, txt⟩).toList⟩, s, rfl, rfl, _, rfl, ?_, ?_⟩
      · intro r hr _
        exact Option.mem_toList.1 hr
      · intro x hx _
        exact Option.mem_toList.2 hx
    | change zone deletion addition =>
      by_cases h : s.sets (changeOwner zone deletion addition) = deletion
      · obtain ⟨x, hx⟩ := exists_stored addition
        exact ⟨⟨⟨200, ""⟩, none, none, none, [], .ok ⟨[], "done".toList⟩⟩, s.put (changeOwner zone deletion addition) x,
          Or.inl ⟨h, rfl, ⟨_, rfl⟩, x, hx, rfl⟩⟩
      · exact ⟨⟨⟨412, ""⟩, none, none, none, [], .error ""⟩, s.reject, Or.inr ⟨h, Or.inr rfl, rfl⟩⟩
  owner_txt _ _ := rfl
  unquote_canonical _ := rfl
  canonical_quote _ := rfl
  call cfg op fqdn v := by
    cases op with
    | present =>
      refine ⟨_, fun zone => .ok (lockKey zone (absolute fqdn), presentLocked cfg zone (absolute fqdn) v), ?_,
        Backend.checks_present, fun _ => ?_⟩
      · simp only [Backend.run, present, lift_bind, bind_assoc]
        rfl
      · exact Backend.enterOk_absolute (b := backend) (fun zone => presentLocked cfg zone (absolute fqdn) v)
          (fun _ _ => rfl) (fun _ _ => rfl) fun zone => presentLocked_ok cfg zone (absolute fqdn) v
    | cleanup =>
      refine ⟨_, fun zone => .ok (lockKey zone (absolute fqdn), cleanupLocked cfg zone (absolute fqdn) v), ?_,
        Backend.checks_cleanup, fun _ => ?_⟩
      · simp only [Backend.run, cleanup]
        rfl
      · exact Backend.enterOk_absolute (b := backend) (fun zone => cleanupLocked cfg zone (absolute fqdn) v)
          (fun _ _ => rfl) (fun _ _ => rfl) fun zone => cleanupLocked_ok cfg zone (lower_absolute fqdn) v

end Cheti.GoogleCloudDns
