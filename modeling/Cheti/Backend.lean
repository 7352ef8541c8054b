import Cheti.Base.Serial
import Cheti.Http
import Cheti.RecordSet
/-!
# Read-merge-write providers

Gandi, deSEC, PowerDNS, Route53 and Google Cloud DNS hold all values of a name in one record set, which
an API replaces as a whole. A `Backend` is such a provider with the API it talks to: the code of
`present` and `cleanup`, and what the API stores and does. `Backend.Sound` is what has to be shown of
each one, about a single call; what follows for sequences of calls and for concurrent calls is proved
here for all of them.
-/

namespace Cheti

open Fut (Env wp Always)

/-- Where an API stores a record set. -/
structure Owner where
  zone : Str
  name : Str
  rtype : Str
deriving DecidableEq, Repr

/-- The owner of a TXT record set that an API addresses by the name relative to the zone. -/
def relativeOwner (zone name : Str) : Owner := ⟨zone, (relativeName name zone).toOption.getD [], txt⟩

theorem relativeOwner_eq {zone name rname : Str} (h : relativeName name zone = .ok rname) :
    relativeOwner zone name = ⟨zone, rname, txt⟩ := by
  simp [relativeOwner, h, Except.toOption]

/-- The record sets an API stores, and how many write requests it has received, rejected ones included. -/
structure Records (X : Type) where
  sets : Owner → Option X
  writes : Nat

/-- One write request: the set of `o` becomes `x`. -/
def Records.put {X : Type} (s : Records X) (o : Owner) (x : Option X) : Records X :=
  ⟨Function.update s.sets o x, s.writes + 1⟩

/-- A write request that is rejected. -/
def Records.reject {X : Type} (s : Records X) : Records X := ⟨s.sets, s.writes + 1⟩

structure Backend where
  /-- The requests, and the document each is answered with. -/
  Q : Type
  B : Q → Type
  Config : Type
  Zone : Type
  zoneName : Zone → Str
  locks : KeyedMutex
  /-- `resolve_zone`, given the name as `present` and `cleanup` hand it over. -/
  resolveZone : Config → Str → Prog Q B Zone
  present : Config → Str → Str → Prog Q B Unit
  cleanup : Config → Str → Str → Prog Q B Unit
  /-- The lock key of a zone and a normalized name. -/
  key : Str → Str → Except DnsError Str
  /-- Where the API has the TXT record set of a zone and a normalized name. -/
  owner : Str → Str → Owner
  /-- A request of `resolve_zone`. -/
  aboutZones : Q → Bool
  /-- What the API stores for an owner. -/
  Set : Type
  values : Set → List Str
  ttl : Set → Option Nat
  /-- A record set that is just a list of values. -/
  plain : Owner → Set → Prop
  /-- What the API does with a request about records. -/
  serves : (q : Q) → Response (B q) → Records Set → Records Set → Prop
  reads : Q → Bool
  /-- A 404 is an answer ("no such record set"), not a failure. -/
  notFoundAnswers : Bool
  /-- How a value that is kept is written back. -/
  canonical : Str → Str
  /-- An existing record set keeps its TTL. -/
  keepsTtl : Bool
  /-- A change is polled after it was made, until it is in sync or a deadline passes. -/
  polls : Bool

namespace Backend

variable (b : Backend)

def run (cfg : b.Config) : Op → Str → Str → Prog b.Q b.B Unit
  | .present => b.present cfg
  | .cleanup => b.cleanup cfg

def valuesAt (s : Records b.Set) (o : Owner) : List Str := ((s.sets o).map b.values).getD []

/-- The set of `o`, if there is one, is plain and has a value. -/
def PlainAt (s : Records b.Set) (o : Owner) : Prop := ∀ x, s.sets o = some x → b.plain o x ∧ b.values x ≠ []

/-- Every TXT record set is plain; there is nothing about the other types. -/
def WF (s : Records b.Set) : Prop := ∀ o, o.rtype = txt → b.PlainAt s o

/-! ## The environment -/

/-- A request that failed: no response, an error status, or a document that cannot be read. -/
def Failed (q : b.Q) : Except String (Response (b.B q)) → Prop
  | .error _ => True
  | .ok resp =>
    if resp.status.isSuccess then b.reads q = true ∧ ∃ e, resp.body = .error e
    else b.notFoundAnswers = true → resp.status.asU16 ≠ 404

/-- What decides which zone a name is in. -/
def lookup : Call b.Q → Bool
  | .send q => b.aboutZones q
  | .findZone _ | .cacheGet _ => true
  | _ => false

theorem lookup_answered (c : Call b.Q) (hc : b.lookup c = true) : ∃ _ : Reply b.B c, True := by
  cases c with
  | send q => exact ⟨.error "", trivial⟩
  | findZone fqdn => exact ⟨.ok [], trivial⟩
  | cacheGet name => exact ⟨none, trivial⟩
  | _ => cases hc

/-- Zone lookups are answered as `zenv` says. A request about records is served, or, where requests may
fail, fails without effect; the same goes for the access token. -/
def env (zenv : (c : Call b.Q) → Reply b.B c → Prop) (faulty : Bool) :
    Env (Call b.Q) (Reply b.B) (Records b.Set)
  | .send q, r, s, s' =>
    if b.aboutZones q then zenv (.send q) r ∧ s' = s
    else (∃ resp, r = .ok resp ∧ b.serves q resp s s') ∨ faulty = true ∧ b.Failed q r ∧ s' = s
  | .findZone fqdn, r, s, s' => zenv (.findZone fqdn) r ∧ s' = s
  | .cacheGet name, r, s, s' => zenv (.cacheGet name) r ∧ s' = s
  | .accessToken, r, s, s' => (faulty = false → ∃ token, r = .ok token) ∧ s' = s
  | .lock _ _, _, s, s' | .unlock, _, s, s' | .sleep _, _, s, s' | .now, _, s, s'
  | .cacheInsert _ _, _, s, s' | .forgetToken, _, s, s' => s' = s

/-! ## What a single call has to do -/

/-- A call that has nothing to do with records or the lock. -/
def Neutral : Call b.Q → Prop
  | .send q => b.aboutZones q = true
  | .lock _ _ | .unlock => False
  | _ => True

/-- A call that may be made with the lock. -/
def Internal : Call b.Q → Prop
  | .lock _ _ | .unlock => False
  | _ => True

/-- With the lookups answered by `zenv`, the zone of `fqdn` is `z`; where `total` holds, it is always found. -/
def Resolves (zenv : (c : Call b.Q) → Reply b.B c → Prop) (total : Bool) (cfg : b.Config) (fqdn z : Str) : Prop :=
  Always b.Neutral (fun c r => b.lookup c = true → zenv c r) (b.resolveZone cfg fqdn).run fun
    | .ok zone => b.zoneName zone = z
    | .error _ => total = false

/-- `x` is what the set of `o` becomes when `op v` is applied to it. -/
def Written (op : Op) (v : Str) (o : Owner) (s : Records b.Set) : Option b.Set → Prop
  | none => op.apply v (b.valuesAt s o) = []
  | some x => b.values x = (op.apply v (b.valuesAt s o)).map b.canonical ∧ b.values x ≠ [] ∧ b.plain o x ∧
      (b.keepsTtl = true → ∀ old, s.sets o = some old → b.ttl x = b.ttl old)

/-- The end of the critical section of `op v` on `o`: nothing to do; or one write, that of the changed
set; or an error without effect. -/
def Post (op : Op) (v : Str) (o : Owner) (faulty : Bool) (s : Records b.Set) (r : Except DnsError Unit)
    (s' : Records b.Set) : Prop :=
  (op.apply v (b.valuesAt s o) = b.valuesAt s o ∧ r = .ok () ∧ s' = s) ∨
  (op.apply v (b.valuesAt s o) ≠ b.valuesAt s o ∧ (r = .ok () ∨ b.polls = true) ∧
    ∃ x, s' = s.put o x ∧ b.Written op v o s x) ∨
  (faulty = true ∧ (∃ e, r = .error e) ∧ s' = s)

/-- The end of a read, with a result as `A` says. -/
def Fetched {α : Type} (faulty : Bool) (s : Records b.Set) (A : α → Prop) (r : Except DnsError α)
    (s' : Records b.Set) : Prop :=
  s' = s ∧ ((∃ a, r = .ok a ∧ A a) ∨ faulty = true ∧ ∃ e, r = .error e)

/-- The end of a write of `x` to `o`. -/
def Wrote (faulty : Bool) (s : Records b.Set) (o : Owner) (x : Option b.Set) (r : Except DnsError Unit)
    (s' : Records b.Set) : Prop :=
  ((r = .ok () ∨ b.polls = true) ∧ s' = s.put o x) ∨ faulty = true ∧ (∃ e, r = .error e) ∧ s' = s

/-- What runs with the lock: it does not touch the lock, and it does `op v`. -/
structure BodyOk (op : Op) (v : Str) (o : Owner) (body : Prog b.Q b.B Unit) : Prop where
  internal : Always b.Internal (fun _ _ => True) body.run fun _ => True
  post : ∀ zenv faulty s, b.PlainAt s o → wp (fun _ _ => True) (b.env zenv faulty) body.run (b.Post op v o faulty s) s

theorem internal_request {α : Type} {method : Method} {q : b.Q} {decode : Response (b.B q) → Except DnsError α} :
    Always b.Internal (fun _ _ => True) (request method q decode : Prog b.Q b.B α).run fun _ => True :=
  always_request trivial (fun _ => trivial) (fun _ => trivial) fun _ _ => trivial

/-- The call can be refused before anything is done. -/
def Refused (op : Op) (fqdn v z : Str) : Prop :=
  validateFqdn fqdn ≠ .ok () ∨ op = .present ∧ validateAcmeValue v ≠ .ok () ∨
    ∃ e, b.key z (normalizeName fqdn) = .error e

/-- What a call makes of its zone: the lock key, and what it does with the lock. -/
def EnterOk (op : Op) (fqdn v : Str) (enter : b.Zone → Except DnsError (Str × Prog b.Q b.B Unit)) : Prop :=
  ∀ zone, match enter zone with
    | .ok (key, body) => b.key (b.zoneName zone) (normalizeName fqdn) = .ok key ∧
        b.BodyOk op v (b.owner (b.zoneName zone) (normalizeName fqdn)) body
    | .error _ => ∃ e, b.key (b.zoneName zone) (normalizeName fqdn) = .error e

/-- Being throttled has no effect. -/
def Throttles : Prop :=
  ∀ q resp s s', b.serves q resp s s' → resp.status.asU16 = 429 ∨ resp.status.asU16 = 503 → s' = s

structure Sound : Prop where
  throttles : b.Throttles
  /-- The API answers every request. -/
  answers : ∀ q s, b.aboutZones q = false → ∃ resp s', b.serves q resp s s'
  owner_txt : ∀ z n, (b.owner z n).rtype = txt
  unquote_canonical : ∀ x, unquote (b.canonical x) = unquote x
  canonical_quote : ∀ v, b.canonical (quote v) = quote v
  /-- A call checks its arguments, looks up its zone, then takes the lock of its name and does its work
  with it. -/
  call : ∀ cfg op fqdn v, ∃ (checks : Except DnsError Unit)
      (enter : b.Zone → Except DnsError (Str × Prog b.Q b.B Unit)),
    b.run cfg op fqdn v = (do
      checks
      let zone ← b.resolveZone cfg fqdn
      let x ← enter zone
      withLock b.locks x.1 x.2) ∧
    (∀ e, checks = .error e → validateFqdn fqdn ≠ .ok () ∨ op = .present ∧ validateAcmeValue v ≠ .ok ()) ∧
    (checks = .ok () → b.EnterOk op fqdn v enter)

variable {b}

/-! ## The environment, call by call -/

theorem env_neutral {zenv : (c : Call b.Q) → Reply b.B c → Prop} {faulty : Bool} {c : Call b.Q}
    {r : Reply b.B c} {s s' : Records b.Set} (hc : b.Neutral c) (h : b.env zenv faulty c r s s') :
    s' = s ∧ (b.lookup c = true → zenv c r) ∧ ∀ s₁, b.env zenv faulty c r s₁ s₁ := by
  cases c with
  | send q =>
    have hq : b.aboutZones q = true := hc
    simp only [env, hq, if_true] at h
    exact ⟨h.2, fun _ => h.1, fun s₁ => by simp [env, hq, h.1]⟩
  | findZone fqdn => exact ⟨h.2, fun _ => h.1, fun s₁ => ⟨h.1, rfl⟩⟩
  | cacheGet name => exact ⟨h.2, fun _ => h.1, fun s₁ => ⟨h.1, rfl⟩⟩
  | accessToken => exact ⟨h.2, nofun, fun s₁ => ⟨h.1, rfl⟩⟩
  | lock l key => exact hc.elim
  | unlock => exact hc.elim
  | sleep d => exact ⟨h, nofun, fun s₁ => rfl⟩
  | now => exact ⟨h, nofun, fun s₁ => rfl⟩
  | cacheInsert name zone => exact ⟨h, nofun, fun s₁ => rfl⟩
  | forgetToken => exact ⟨h, nofun, fun s₁ => rfl⟩

theorem failed_ok {q : b.Q} {resp : Response (b.B q)} (h : b.Failed q (.ok resp)) :
    (resp.status.isSuccess = true ∧ b.reads q = true ∧ ∃ e, resp.body = .error e) ∨
      resp.status.isSuccess = false ∧ (b.notFoundAnswers = true → resp.status.asU16 ≠ 404) := by
  simp only [Failed] at h
  split at h
  · rename_i hsucc; exact Or.inl ⟨hsucc, h⟩
  · rename_i hsucc; exact Or.inr ⟨by simpa using hsucc, h⟩

theorem env_send {zenv : (c : Call b.Q) → Reply b.B c → Prop} {faulty : Bool} {q : b.Q} (hq : b.aboutZones q = false)
    {r : Except String (Response (b.B q))} {s s' : Records b.Set} :
    b.env zenv faulty (.send q) r s s' ↔
      (∃ resp, r = .ok resp ∧ b.serves q resp s s') ∨ faulty = true ∧ b.Failed q r ∧ s' = s := by
  simp [env, hq]

/-- **One request about records**, with its retries: it is served, or it fails without effect. -/
theorem wp_record {α : Type} (hb : b.Throttles) {zenv : (c : Call b.Q) → Reply b.B c → Prop} {faulty : Bool}
    {method : Method} {q : b.Q} (hq : b.aboutZones q = false)
    {decode : Response (b.B q) → Except DnsError α} {s : Records b.Set}
    {Post : Except DnsError α → Records b.Set → Prop}
    (hserved : ∀ resp s', b.serves q resp s s' → Post (decode resp) s')
    (hfailed : ∀ resp, b.Failed q (.ok resp) → ∃ e, decode resp = .error e)
    (herror : faulty = true → ∀ e, Post (.error e) s) :
    wp (fun _ _ => True) (b.env zenv faulty) (request method q decode : Prog b.Q b.B _).run Post s := by
  refine wp_request trivial (fun d => ⟨trivial, fun _ _ h => h⟩) (fun r s' h hr => ?_) (fun e s' h => ?_)
    fun resp s' h => ?_
  · rcases (env_send hq).1 h with ⟨resp, he, hs⟩ | ⟨-, -, rfl⟩
    · cases he; exact hb q r s s' hs hr
    · rfl
  · rcases (env_send hq).1 h with ⟨resp, he, -⟩ | ⟨hf, -, rfl⟩
    · cases he
    · exact herror hf _
  · rcases (env_send hq).1 h with ⟨resp', he, hs⟩ | ⟨hf, hfail, rfl⟩
    · cases he; exact hserved resp s' hs
    · obtain ⟨e, he⟩ := hfailed resp hfail
      rw [he]
      exact herror hf e

/-- A critical section that reads first. -/
theorem wp_fetched {zenv : (c : Call b.Q) → Reply b.B c → Prop} {faulty : Bool} {s : Records b.Set}
    {α : Type} {fetch : Prog b.Q b.B α} {rest : α → Prog b.Q b.B Unit} {A : α → Prop} {op : Op} {v : Str} {o : Owner}
    (hfetch : wp (fun _ _ => True) (b.env zenv faulty) fetch.run (b.Fetched faulty s A) s)
    (hrest : ∀ a, A a → wp (fun _ _ => True) (b.env zenv faulty) (rest a).run (b.Post op v o faulty s) s) :
    wp (fun _ _ => True) (b.env zenv faulty) (fetch >>= rest).run (b.Post op v o faulty s) s := by
  rw [Fut.wp_run_bind]
  refine Fut.wp_mono hfetch ?_
  rintro r s' ⟨rfl, ⟨a, rfl, ha⟩ | ⟨hf, e, rfl⟩⟩
  · exact hrest a ha
  · exact Or.inr (Or.inr ⟨hf, ⟨e, rfl⟩, rfl⟩)

/-- A critical section that ends with the write of the changed set. -/
theorem wp_wrote {zenv : (c : Call b.Q) → Reply b.B c → Prop} {faulty : Bool} {s : Records b.Set}
    {write : Prog b.Q b.B Unit} {op : Op} {v : Str} {o : Owner} {x : Option b.Set}
    (hwrite : wp (fun _ _ => True) (b.env zenv faulty) write.run (b.Wrote faulty s o x) s)
    (hne : op.apply v (b.valuesAt s o) ≠ b.valuesAt s o) (hx : b.Written op v o s x) :
    wp (fun _ _ => True) (b.env zenv faulty) write.run (b.Post op v o faulty s) s := by
  refine Fut.wp_mono hwrite ?_
  rintro r s' (⟨hr, rfl⟩ | ⟨hf, he, rfl⟩)
  · exact Or.inr (Or.inl ⟨hne, hr, x, rfl, hx⟩)
  · exact Or.inr (Or.inr ⟨hf, he, rfl⟩)

/-! ## Calls -/

theorem checks_present {fqdn v : Str} (e : DnsError) (h : (do validateFqdn fqdn; validateAcmeValue v) = .error e) :
    validateFqdn fqdn ≠ .ok () ∨ Op.present = .present ∧ validateAcmeValue v ≠ .ok () := by
  cases hf : validateFqdn fqdn with
  | error e' => exact Or.inl (by simp)
  | ok u => exact Or.inr ⟨rfl, by rw [hf, ok_bind] at h; simp [h]⟩

theorem checks_cleanup {fqdn v : Str} (e : DnsError) (h : validateFqdn fqdn = .error e) :
    validateFqdn fqdn ≠ .ok () ∨ Op.cleanup = .present ∧ validateAcmeValue v ≠ .ok () :=
  Or.inl (by simp [h])

theorem validateFqdn_of_checks {fqdn v : Str} (h : (do validateFqdn fqdn; validateAcmeValue v) = .ok ()) :
    validateFqdn fqdn = .ok () := by
  cases hf : validateFqdn fqdn with
  | error e => rw [hf] at h; cases h
  | ok u => rfl

/-- A provider that addresses a record by its name relative to the zone. -/
theorem enterOk_relative {op : Op} {fqdn v : Str} (body : b.Zone → Str → Prog b.Q b.B Unit)
    (hkey : ∀ z n, b.key z n = (relativeName n z).map (lockKey z))
    (hbody : ∀ zone rname, relativeName (normalizeName fqdn) (b.zoneName zone) = .ok rname →
      b.BodyOk op v (b.owner (b.zoneName zone) (normalizeName fqdn)) (body zone rname)) :
    b.EnterOk op fqdn v fun zone => (relativeName (lower fqdn) (b.zoneName zone)).map
      fun rname => (lockKey (b.zoneName zone) rname, body zone rname) := by
  intro zone
  simp only [hkey, relativeName_lower]
  cases h : relativeName (normalizeName fqdn) (b.zoneName zone) with
  | error e => exact ⟨e, rfl⟩
  | ok rname => exact ⟨rfl, hbody zone rname h⟩

theorem enterOk_relativeOwner {op : Op} {fqdn v : Str} (body : b.Zone → Str → Prog b.Q b.B Unit)
    (hkey : ∀ z n, b.key z n = (relativeName n z).map (lockKey z)) (howner : ∀ z n, b.owner z n = relativeOwner z n)
    (hbody : ∀ zone rname, relativeName (normalizeName fqdn) (b.zoneName zone) = .ok rname →
      b.BodyOk op v ⟨b.zoneName zone, rname, txt⟩ (body zone rname)) :
    b.EnterOk op fqdn v fun zone => (relativeName (lower fqdn) (b.zoneName zone)).map
      fun rname => (lockKey (b.zoneName zone) rname, body zone rname) := by
  refine enterOk_relative body hkey fun zone rname h => ?_
  rw [howner, relativeOwner_eq h]
  exact hbody zone rname h

/-- A provider that addresses a record by its absolute name. -/
theorem enterOk_absolute {op : Op} {fqdn v : Str} (body : b.Zone → Prog b.Q b.B Unit)
    (hkey : ∀ z n, b.key z n = .ok (lockKey z (n ++ ['.']))) (howner : ∀ z n, b.owner z n = ⟨z, n ++ ['.'], txt⟩)
    (hbody : ∀ zone, b.BodyOk op v ⟨b.zoneName zone, absolute fqdn, txt⟩ (body zone)) :
    b.EnterOk op fqdn v fun zone => .ok (lockKey (b.zoneName zone) (absolute fqdn), body zone) := by
  intro zone
  refine ⟨hkey _ _, ?_⟩
  rw [howner]
  exact hbody zone

/-- A call with a critical section that is known, in a state that the lookups and the lock leave as it is. -/
theorem wp_call_idle {zenv : (c : Call b.Q) → Reply b.B c → Prop} {total : Bool} {cfg : b.Config} {fqdn z : Str}
    (hres : b.Resolves zenv total cfg fqdn z) {checks : Except DnsError Unit} {key : b.Zone → Str}
    {body : b.Zone → Prog b.Q b.B Unit} {S : Type} {ok : Call b.Q → S → Prop} {H : Fut.Env (Call b.Q) (Reply b.B) S}
    {s : S} {Φ : Except DnsError Unit → S → Prop}
    (hneutral : ∀ c s, b.Neutral c → ok c s ∧ ∀ r s', H c r s s' → s' = s ∧ (b.lookup c = true → zenv c r))
    (hlock : ∀ l key s, ok (.lock l key) s ∧ ∀ r s', H (.lock l key) r s s' → s' = s)
    (hunlock : ∀ s, ok .unlock s ∧ ∀ r s', H .unlock r s s' → s' = s)
    (hchecks : ∀ e, checks = .error e → Φ (.error e) s) (hzone : total = false → ∀ e, Φ (.error e) s)
    (hbody : ∀ zone, b.zoneName zone = z → wp ok H (body zone).run Φ s) :
    wp ok H (do
      checks
      let zone ← b.resolveZone cfg fqdn
      withLock b.locks (key zone) (body zone) : Prog b.Q b.B Unit).run Φ s := by
  rw [Fut.wp_run_bind, Fut.wp_run_except]
  cases checks with
  | error e => exact hchecks e rfl
  | ok u =>
    simp only
    rw [Fut.wp_run_bind]
    refine Fut.wp_mono (Fut.wp_of_always hres fun c hc => hneutral c s hc) ?_
    rintro (e | zone) s' ⟨rfl, hr⟩
    · exact hzone hr e
    · refine wp_withLock.2 ⟨(hlock _ _ _).1, fun r s₁ h₁ => ?_⟩
      obtain rfl := (hlock _ _ _).2 r s₁ h₁
      refine Fut.wp_mono (hbody zone hr) fun r s₂ hpost => ⟨(hunlock _).1, fun u s₃ h₃ => ?_⟩
      obtain rfl := (hunlock _).2 u s₃ h₃
      exact hpost

/-- The same in any state: the rule for record sets that are not plain. -/
theorem wp_call {zenv : (c : Call b.Q) → Reply b.B c → Prop} {total faulty : Bool} {cfg : b.Config} {fqdn z : Str}
    (hres : b.Resolves zenv total cfg fqdn z) {checks : Except DnsError Unit} {key : b.Zone → Str}
    {body : b.Zone → Prog b.Q b.B Unit} {s : Records b.Set} {Φ : Except DnsError Unit → Records b.Set → Prop}
    (hchecks : ∀ e, checks = .error e → Φ (.error e) s) (hzone : total = false → ∀ e, Φ (.error e) s)
    (hbody : ∀ zone, b.zoneName zone = z → wp (fun _ _ => True) (b.env zenv faulty) (body zone).run Φ s) :
    wp (fun _ _ => True) (b.env zenv faulty) (do
      checks
      let zone ← b.resolveZone cfg fqdn
      withLock b.locks (key zone) (body zone) : Prog b.Q b.B Unit).run Φ s := by
  refine wp_call_idle hres (fun c s hc => ⟨trivial, fun r s' h => ?_⟩) (fun _ _ _ => ⟨trivial, fun _ _ h => h⟩)
    (fun _ => ⟨trivial, fun _ _ h => h⟩) hchecks hzone hbody
  obtain ⟨hs', hz, -⟩ := env_neutral hc h
  exact ⟨hs', hz⟩

/-- What a call does before it takes the lock. -/
theorem Sound.prelude (hb : b.Sound) {zenv : (c : Call b.Q) → Reply b.B c → Prop} {total : Bool}
    {cfg : b.Config} {fqdn z : Str} (hres : b.Resolves zenv total cfg fqdn z) (op : Op) (v : Str) :
    ∃ pre : Prog b.Q b.B (Str × Prog b.Q b.B Unit),
      b.run cfg op fqdn v = (pre >>= fun x => withLock b.locks x.1 x.2) ∧
      Always b.Neutral (fun c r => b.lookup c = true → zenv c r) pre.run fun
        | .ok (key, body) => b.key z (normalizeName fqdn) = .ok key ∧
            b.BodyOk op v (b.owner z (normalizeName fqdn)) body
        | .error _ => total = false ∨ b.Refused op fqdn v z := by
  obtain ⟨checks, enter, heq, hchecks, henter⟩ := hb.call cfg op fqdn v
  refine ⟨(do checks; let zone ← b.resolveZone cfg fqdn; enter zone), ?_, ?_⟩
  · rw [heq]
    simp only [bind_assoc]
  · rw [Always, Fut.wp_run_bind, Fut.wp_run_except]
    cases hc : checks with
    | error e =>
      rcases hchecks e hc with h | h
      · exact Or.inr (Or.inl h)
      · exact Or.inr (Or.inr (Or.inl h))
    | ok u =>
      simp only
      rw [Fut.wp_run_bind]
      refine Fut.wp_mono hres fun r _ hr => ?_
      cases r with
      | error e => exact Or.inl hr
      | ok zone =>
        obtain rfl : b.zoneName zone = z := hr
        have hz := henter hc zone
        simp only [Fut.wp_run_except]
        cases he : enter zone with
        | error e =>
          rw [he] at hz
          exact Or.inr (Or.inr (Or.inr hz))
        | ok x =>
          rw [he] at hz
          exact hz

/-- **One call, from any record sets**: what its critical section does, or a refusal without effect. -/
theorem Sound.call_wp (hb : b.Sound) {zenv : (c : Call b.Q) → Reply b.B c → Prop} {total faulty : Bool}
    {cfg : b.Config} {fqdn z : Str} (hres : b.Resolves zenv total cfg fqdn z) (op : Op) (v : Str)
    {s : Records b.Set} (hs : b.PlainAt s (b.owner z (normalizeName fqdn))) :
    wp (fun _ _ => True) (b.env zenv faulty) (b.run cfg op fqdn v).run (fun r s' =>
      b.Post op v (b.owner z (normalizeName fqdn)) faulty s r s' ∨
        (total = false ∨ b.Refused op fqdn v z) ∧ (∃ e, r = .error e) ∧ s' = s) s := by
  obtain ⟨pre, heq, hpre⟩ := hb.prelude hres op v
  rw [heq, Fut.wp_run_bind]
  refine Fut.wp_mono (Fut.wp_of_always hpre fun c hc => ⟨trivial, fun r s' h => ?_⟩) ?_
  · obtain ⟨hs', hz, -⟩ := env_neutral hc h
    exact ⟨hs', hz⟩
  · rintro (e | ⟨key, body⟩) s' ⟨rfl, hr⟩
    · exact Or.inr ⟨hr, ⟨e, rfl⟩, rfl⟩
    · refine wp_withLock.2 ⟨trivial, fun _ s₁ h₁ => ?_⟩
      obtain rfl : s₁ = s' := h₁
      refine Fut.wp_mono (hr.2.post zenv faulty s₁ hs) fun r s₂ hpost => ⟨trivial, fun _ s₃ h₃ => ?_⟩
      obtain rfl : s₃ = s₂ := h₃
      exact Or.inl hpost

theorem Sound.exists_run (hb : b.Sound) {zenv : (c : Call b.Q) → Reply b.B c → Prop}
    (hz : ∀ c, b.lookup c = true → ∃ r, zenv c r) (faulty : Bool) (cfg : b.Config) (op : Op) (fqdn v : Str)
    (s : Records b.Set) :
    ∃ t r s', (b.run cfg op fqdn v).run.Runs t r ∧ Fut.Chain (b.env zenv faulty) t s s' := by
  refine Fut.exists_run (fun c s => ?_) _ s
  cases c with
  | send q =>
    cases hq : b.aboutZones q with
    | true =>
      obtain ⟨r, hr⟩ := hz (.send q) hq
      exact ⟨r, s, by simp [env, hq, hr]⟩
    | false =>
      obtain ⟨resp, s', hs⟩ := hb.answers q s hq
      exact ⟨.ok resp, s', by simp [env, hq, hs]⟩
  | findZone fqdn =>
    obtain ⟨r, hr⟩ := hz (.findZone fqdn) rfl
    exact ⟨r, s, hr, rfl⟩
  | cacheGet name =>
    obtain ⟨r, hr⟩ := hz (.cacheGet name) rfl
    exact ⟨r, s, hr, rfl⟩
  | accessToken => exact ⟨.ok [], s, fun _ => ⟨_, rfl⟩, rfl⟩
  | lock l key => exact ⟨(), s, rfl⟩
  | unlock => exact ⟨(), s, rfl⟩
  | sleep d => exact ⟨(), s, rfl⟩
  | now => exact ⟨(0 : Nat), s, rfl⟩
  | cacheInsert name zone => exact ⟨(), s, rfl⟩
  | forgetToken => exact ⟨(), s, rfl⟩

end Backend
end Cheti
