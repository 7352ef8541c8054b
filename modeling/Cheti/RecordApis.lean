import Cheti.Labels
import Cheti.RecordSet
import Cheti.Records
import Cheti.Providers.Bunny
import Cheti.Providers.Cloudflare
import Cheti.Providers.DigitalOcean
import Cheti.Providers.Infomaniak
/-!
# The providers that keep one record for each value

`OneRecordApi` is such a provider with the API it talks to: which records the API keeps, what it makes of the
requests (`server`) and which of the records a call is about (`hold`: the TXT records of the name, in the
zone, that hold the value). The calls of all of them have one form (`call`), and differ in what they do with the
lock. `OneRecordApi.Contract` is what `present` and `cleanup` promise: any number of calls, any of whose requests
may have failed, and then one more.

A zone keeps its records under their names in it. `recordAt` is the name such a record has, whichever
way the API spells the apex. Where a provider leaves the choice of the records to the API, the API is
taken to choose by that name.
-/

namespace Cheti

open Fut

/-! ## Names of records -/

/-- A name as an API may spell it relative to the zone: the apex is empty or `@`. -/
def spelled (name : Str) : Str := if name = "@".toList then [] else lower name

/-- The full name of a record. -/
def recordAt (zone name : Str) : Str :=
  if spelled name = [] then normalizeName zone else spelled name ++ '.' :: normalizeName zone

theorem normalizeName_trimDots_lower (fqdn : Str) : normalizeName (trimDots (lower fqdn)) = normalizeName fqdn := by
  rw [trimDots_lower, normalizeName, trimDots_normalizeName]
  exact lower_lower _

theorem append_dot_ne (name zone : Str) : name ++ '.' :: zone ≠ zone := by
  intro h
  have hlen := congrArg List.length h
  simp only [List.length_append, List.length_cons] at hlen
  omega

/-- **The records of a name are those spelled like its relative name.** -/
theorem recordAt_eq_iff {f zone rname : Str} (hf : validateFqdn f = .ok ())
    (h : relativeName (lower f) zone = .ok rname) (name : Str) :
    recordAt zone name = normalizeName f ↔ spelled name = spelled rname := by
  have hlower : lower (normalizeName f) = normalizeName f := lower_lower _
  have hne : rname ≠ [] := relativeName_ne_nil hf (by rwa [← relativeName_lower])
  rw [relativeName_eq_ok, trimDots_lower] at h
  unfold recordAt
  rcases h with ⟨hz, rfl⟩ | ⟨-, hz⟩
  · -- the apex
    have hzone : normalizeName zone = normalizeName f := by
      rw [normalizeName, ← hz, hlower]
    have hapex : spelled "@".toList = [] := if_pos rfl
    rw [hapex, hzone]
    by_cases hname : spelled name = []
    · simp [hname]
    · simpa [hname] using append_dot_ne _ _
  · have hparts : lower rname = rname ∧ lower (trimDots zone) = trimDots zone := by
      rw [hz] at hlower
      simp only [lower, List.map_append, List.map_cons] at hlower
      obtain ⟨hr, hrest⟩ := List.append_inj hlower (by simp)
      exact ⟨hr, (List.cons.inj hrest).2⟩
    have hat : rname ≠ "@".toList := by
      rintro rfl
      exact not_mem_normalizeName hf (by simp [hz])
    have hspelled : spelled rname = rname := by rw [spelled, if_neg hat, hparts.1]
    have hzone : normalizeName zone = trimDots zone := hparts.2
    rw [hspelled, hzone, hz]
    by_cases hname : spelled name = []
    · simpa [hname, hne.symm] using (append_dot_ne rname (trimDots zone)).symm
    · simp [hname]

theorem recordAt_relativeName {f zone rname : Str} (hf : validateFqdn f = .ok ())
    (h : relativeName (lower f) zone = .ok rname) : recordAt zone rname = normalizeName f :=
  (recordAt_eq_iff hf h rname).2 rfl

/-- A relative name does not end in a dot. -/
theorem trimDots_relativeName {f zone rname : Str} (hf : validateFqdn f = .ok ())
    (h : relativeName (lower f) zone = .ok rname) : trimDots rname = rname := by
  rw [relativeName_eq_ok, trimDots_lower] at h
  rcases h with ⟨-, rfl⟩ | ⟨-, hz⟩
  · decide
  · rw [trimDots, List.rdropWhile_eq_self_iff]
    intro hne hdot
    have hdot : rname.getLast hne = '.' := by simpa using hdot
    have hempty : [] ∈ labelsOf f := by
      rw [labelsOf, hz, ← List.dropLast_append_getLast hne, hdot, List.append_assoc, List.singleton_append,
        List.splitOn_append_cons_self, ← List.nil_append ('.' :: trimDots zone), List.splitOn_append_cons_self]
      simp
    exact ((nameOk_labelsOf hf).label [] hempty).ne_nil rfl

theorem not_mem_relativeName {f zone rname : Str} (hf : validateFqdn f = .ok ())
    (h : relativeName (lower f) zone = .ok rname) (hapex : rname ≠ "@".toList) : '@' ∉ lower rname := by
  rw [relativeName_eq_ok, trimDots_lower] at h
  obtain ⟨-, hz⟩ := h.resolve_left fun h => hapex h.2
  have hlower : lower (normalizeName f) = normalizeName f := lower_lower _
  intro hmem
  refine not_mem_normalizeName hf ?_
  rw [← hlower, hz, lower, List.map_append]
  exact List.mem_append_left _ hmem

/-! ## The contract -/

/-- Only `present` checks the value. -/
def Op.checkValue : Op → Str → Except DnsError Unit
  | .present, value => validateAcmeValue value
  | .cleanup, _ => .ok ()

/-- A provider and its API. -/
structure OneRecordApi where
  Q : Type
  B : Q → Type
  R : Type
  ι : Type
  decEq : DecidableEq ι
  Config : Type
  Zone : Type
  Name : Type
  /-- What is left open about the API: how zones are looked up, how a listing is cut into pages. -/
  World : Type
  server : World → RecordServer Q B R ι
  /-- The provider reads the documents of the API as they are meant. -/
  Decodes : World → Config → Prop
  /-- The listing of the name has no more pages than the provider reads. -/
  Listed : World → Zone → Str → List R → Prop
  /-- The zone, as `present` and `cleanup` look it up. -/
  resolveZone : Config → Str → Prog Q B Zone
  /-- The name as the API has it, where it lies in the zone. -/
  nameIn : Zone → Str → Except DnsError Name
  locks : KeyedMutex
  key : Zone → Name → Str
  /-- What a call does with the lock. -/
  locked : Config → Op → Zone → Str → Name → Str → Prog Q B Unit
  run : Config → Op → Str → Str → Prog Q B Unit
  /-- The TXT records of the name in the zone that hold the value. -/
  hold : Zone → Str → Str → R → Bool
  run_eq : ∀ cfg op fqdn value, run cfg op fqdn value = do
    validateFqdn fqdn
    op.checkValue value
    let zone ← resolveZone cfg fqdn
    let name ← nameIn zone fqdn
    withLock locks (key zone name) (locked cfg op zone fqdn name value)

attribute [instance] OneRecordApi.decEq

namespace OneRecordApi

variable {a : OneRecordApi}

structure Invocation (a : OneRecordApi) where
  cfg : a.Config
  op : Op
  fqdn : Str
  value : Str

def Invocation.prog (c : a.Invocation) : Fut Unit (Call a.Q) (Reply a.B) (Except DnsError Unit) :=
  (a.run c.cfg c.op c.fqdn c.value).run

/-- Where the zone of the name is found, it is `z`. -/
def ZoneIs (a : OneRecordApi) (w : a.World) (cfg : a.Config) (fqdn : Str) (z : a.Zone) : Prop :=
  Reads (a.server w) true (a.resolveZone cfg fqdn) (· = z)

/-- Where no request fails, the zone of the name is found, and it is `z`. -/
def ZoneFound (a : OneRecordApi) (w : a.World) (cfg : a.Config) (fqdn : Str) (z : a.Zone) : Prop :=
  ∀ s, wp (fun _ _ => True) ((a.server w).env false) (a.resolveZone cfg fqdn).run (fun r s' => s' = s ∧ r = .ok z) s

/-- The arguments are valid, and the name lies in the zone. -/
structure Invocation.Accepted (c : a.Invocation) (z : a.Zone) : Prop where
  fqdn : validateFqdn c.fqdn = .ok ()
  value : c.op.checkValue c.value = .ok ()
  name : ∃ name, a.nameIn z c.fqdn = .ok name

/-- **What the calls promise.** Any calls, one after the other and with any failures, have made of the records
`s₀` the records `s`. Then a call ends as it promises, whatever its requests come to; and one that is accepted, whose
zone is found, whose listing is not cut off and whose requests all succeed returns `Ok` and does what it is for. -/
def Contract (a : OneRecordApi) : Prop :=
  ∀ (w : a.World) (before : List (a.Invocation × Except DnsError Unit)) (s₀ s : List a.R),
    (a.server w).UniqueIds s₀ → RunsAll ((a.server w).env true) (before.map fun c => (c.1.prog, c.2)) s₀ s →
    ∀ (c : a.Invocation) (z : a.Zone), a.Decodes w c.cfg →
      (a.ZoneIs w c.cfg c.fqdn z → ∀ t r s', c.prog.Runs t r → Chain ((a.server w).env true) t s s' →
        c.op.Promises (a.server w) (a.hold z c.fqdn c.value) s r s') ∧
      (c.Accepted z → a.ZoneFound w c.cfg c.fqdn z → a.Listed w z c.fqdn s → ∀ t r s', c.prog.Runs t r →
        Chain ((a.server w).env false) t s s' → c.op.Exactly (a.hold z c.fqdn c.value) s r s')

/-- What has to be shown of a provider: what its calls do with the lock. -/
def LockedOk (a : OneRecordApi) : Prop :=
  ∀ (w : a.World) (c : a.Invocation) (z : a.Zone) (name : a.Name), a.Decodes w c.cfg → validateFqdn c.fqdn = .ok () →
    c.op.checkValue c.value = .ok () → a.nameIn z c.fqdn = .ok name →
    ∀ (faulty : Bool) (s : List a.R), (a.server w).UniqueIds s →
      wp (fun _ _ => True) ((a.server w).env faulty) (a.locked c.cfg c.op z c.fqdn name c.value).run
        (Outcome (a.server w) (faulty = false ∧ a.Listed w z c.fqdn s) c.op (a.hold z c.fqdn c.value) s) s

/-- A call, up to what it does with the lock. -/
theorem wp_prog (h : a.LockedOk) {w : a.World} {c : a.Invocation} {z : a.Zone} (hdecodes : a.Decodes w c.cfg)
    {faulty : Bool} {s : List a.R} (hids : (a.server w).UniqueIds s) {found : Prop}
    (hzone : wp (fun _ _ => True) ((a.server w).env faulty) (a.resolveZone c.cfg c.fqdn).run (fun r s' => s' = s ∧
      (∀ z', r = .ok z' → z' = z) ∧ (found → r = .ok z)) s) :
    wp (fun _ _ => True) ((a.server w).env faulty) c.prog
      (Outcome (a.server w) (c.Accepted z ∧ found ∧ faulty = false ∧ a.Listed w z c.fqdn s) c.op
        (a.hold z c.fqdn c.value) s) s := by
  rw [Invocation.prog, a.run_eq]
  cases hf : validateFqdn c.fqdn with
  | error e => exact .refused _ hids (fun hsure => by simpa [hf] using hsure.1.fqdn) e
  | ok u =>
    cases hv : c.op.checkValue c.value with
    | error e => exact .refused _ hids (fun hsure => by simpa [hv] using hsure.1.value) e
    | ok u =>
      show wp _ _ (a.resolveZone c.cfg c.fqdn >>= _).run _ s
      rw [wp_run_bind]
      refine wp_mono hzone ?_
      rintro r s' ⟨rfl, hz, hfound⟩
      cases r with
      | error e => exact .refused _ hids (fun hsure => by simpa using hfound hsure.2.1) e
      | ok z' =>
        obtain rfl := hz z' rfl
        simp only [wp_run_bind, wp_run_except]
        cases hn : a.nameIn z' c.fqdn with
        | error e =>
          refine .refused _ hids (fun hsure => ?_) e
          obtain ⟨name, hname⟩ := hsure.1.name
          simp [hn] at hname
        | ok name =>
          refine wp_locked (wp_mono (h w c z' name hdecodes hf hv hn faulty s' hids) fun r s₁ ho => ?_)
          exact ho.mono fun hsure => hsure.2.2

/-- It is enough to look at one call, in any state. -/
theorem contract_of (h : a.LockedOk) : a.Contract := by
  intro w before s₀ s hids₀ hbefore c z hdecodes
  have hids : (a.server w).UniqueIds s :=
    hbefore.invariant (fun p _ _ _ hs => wp_of_kept (fun _ _ _ _ h hs => env_ids h hs) p hs) hids₀
  refine ⟨fun hzone t r s' hrun hchain => ?_, fun haccepted hzone hlisted t r s' hrun hchain => ?_⟩
  · have hresolve := wp_mono (hzone s) fun r s' hr => (⟨hr.1, hr.2, False.elim⟩ : s' = s ∧ (∀ z', r = .ok z' → z' = z) ∧ (False → r = .ok z))
    exact ((wp_prog h hdecodes hids hresolve).of_runs hrun hchain).promises
  · have hresolve : wp (fun _ _ => True) ((a.server w).env false) (a.resolveZone c.cfg c.fqdn).run (fun r s' => s' = s ∧
        (∀ z', r = .ok z' → z' = z) ∧ (True → r = .ok z)) s := by
      refine wp_mono (hzone s) ?_
      rintro r s' ⟨hs, rfl⟩
      exact ⟨hs, fun z' he => by cases he; rfl, fun _ => rfl⟩
    exact ((wp_prog h hdecodes hids hresolve).of_runs hrun hchain).exact ⟨haccepted, trivial, rfl, hlisted⟩

end OneRecordApi

/-! ## Cloudflare -/

namespace Cloudflare

/-- A record of the account. -/
structure Line where
  zone : Str
  type : Str
  name : Str
  record : CfDnsRecord

def Line.isTxtAt (zoneId name : Str) (l : Line) : Bool :=
  l.zone = zoneId ∧ l.type = txt ∧ normalizeName l.name = normalizeName name

/-- The listing is chosen by type and name, and is complete. -/
def server (known : (c : Call Req) → Reply Req.Doc c → Prop) : RecordServer Req Req.Doc Line (Str × Str) where
  ident l := (l.zone, l.record.id)
  meaning
    | .zones _ => .reads fun _ _ => True
    | .list z n => .reads fun lines resp => ∀ body page, resp.status.isSuccess = true → resp.body = .ok body →
        body.success = true → body.result = some page → page.Perm ((lines.filter (Line.isTxtAt z n)).map Line.record)
    | .create z body => .creates fun l => l.zone = z ∧ l.type = body.type ∧
        normalizeName l.name = normalizeName body.name ∧ trimQuotes l.record.content = trimQuotes body.content
    | .delete z id => .deletes (z, id)
  confirms
    | .delete _ _, resp => (resp.status.isSuccess || resp.status.asU16 == 404) = true
    | .create _ _, resp => resp.status.isSuccess = true ∧ ∃ body r, resp.body = .ok body ∧ body.success = true ∧
        body.result = some r
    | .list _ _, resp => resp.status.isSuccess = true ∧ ∃ body page, resp.body = .ok body ∧ body.success = true ∧
        body.result = some page
    | .zones _, resp => resp.status.isSuccess = true
  answers := known

def hold (zoneId fqdn value : Str) (l : Line) : Bool := l.isTxtAt zoneId fqdn && trimQuotes l.record.content = value

/-- The two lookups of the zone. -/
def resolve (cfg : CloudflareConfig) (fqdn : Str) : M Str := do
  let zoneName ← resolveZoneName cfg (lower fqdn)
  resolveZoneId cfg zoneName

def run (cfg : CloudflareConfig) : Op → Str → Str → M Unit
  | .present => present cfg
  | .cleanup => cleanup cfg

def api : OneRecordApi where
  Q := Req
  B := Req.Doc
  R := Line
  ι := Str × Str
  decEq := inferInstance
  Config := CloudflareConfig
  Zone := Str
  Name := Str
  World := (c : Call Req) → Reply Req.Doc c → Prop
  server := server
  Decodes _ _ := True
  Listed _ _ _ _ := True
  resolveZone := resolve
  nameIn _ fqdn := .ok (lower fqdn)
  locks := locks
  key := lockKey
  locked
    | cfg, .present, zoneId, _, fqdn, value => presentLocked cfg zoneId fqdn value
    | _, .cleanup, zoneId, _, fqdn, value => cleanupLocked zoneId fqdn value
  run := run
  hold := hold
  run_eq cfg op fqdn value := by
    cases op with
    | present => simp only [run, present, resolve, LawfulMonad.bind_assoc]; rfl
    | cleanup => simp only [run, cleanup, resolve, LawfulMonad.bind_assoc]; rfl

variable {known : (c : Call Req) → Reply Req.Doc c → Prop} {faulty : Bool} {s : List Line} {zoneId fqdn value : Str}

theorem isTxtAt_trimDots_lower (zoneId fqdn : Str) : Line.isTxtAt zoneId (trimDots (lower fqdn)) = Line.isTxtAt zoneId fqdn := by
  funext l
  simp only [Line.isTxtAt, normalizeName_trimDots_lower]

theorem finds_listMatchingRecords :
    Finds (server known) faulty (hold zoneId fqdn value) (fun _ => True) (listMatchingRecords zoneId (lower fqdn))
      (trimQuotes ·.content = value) fun r => (zoneId, r.id) := by
  refine finds_of_perm (fun s => wp_mono ((wp_reads rfl).and (wp_succeeds ?_)) ?_) (fun _ => rfl) fun l hl => ?_
  · rintro resp ⟨hsucc, body, page, hbody, hok, hresult⟩
    refine ⟨page, ?_⟩
    simp only [bind_eq_ok, check_eq_ok, Response.json_eq_ok, CfEnvelope.intoResult_ok]
    exact ⟨(), hsucc, body, hbody, hok, hresult⟩
  · rintro r s' ⟨⟨rfl, hr⟩, hsure⟩
    refine ⟨rfl, fun page hpage => ?_, fun hf _ => hsure hf⟩
    obtain ⟨resp, hshows, hdecode⟩ := hr page hpage
    simp only [bind_eq_ok, check_eq_ok, Response.json_eq_ok, CfEnvelope.intoResult_ok] at hdecode
    obtain ⟨-, hsucc, body, hbody, hok, hresult⟩ := hdecode
    rw [← isTxtAt_trimDots_lower]
    exact hshows body page hsucc hbody hok hresult
  · simp only [Line.isTxtAt, decide_eq_true_eq] at hl
    exact congrArg (·, l.record.id) hl.1.symm

theorem created_createRecord (cfg : CloudflareConfig) (hvalue : validateAcmeValue value = .ok ())
    (hids : (server known).UniqueIds s) :
    wp (fun _ _ => True) ((server known).env faulty) (createRecord cfg zoneId (lower fqdn) value).run
      (Created (server known) faulty (hold zoneId fqdn value) s) s := by
  refine wp_creates rfl (fun l hl => ?_) (fun resp => ?_) hids
  · obtain ⟨hz, htype, hname, hcontent⟩ := hl
    rw [normalizeName_trimDots_lower] at hname
    rw [trimQuotes_quote, trimQuotes_of_acme hvalue] at hcontent
    simp [hold, Line.isTxtAt, hz, htype, hname, hcontent]
  · simp only [bind_eq_ok, check_eq_ok, Response.json_eq_ok, CfEnvelope.intoResult_ok, pure_eq_ok, server]
    grind

theorem deletes_record : Deletes (server known) faulty (fun r => deleteRecord zoneId r.id)
    fun r : CfDnsRecord => (zoneId, r.id) :=
  fun _ _ => wp_deletes rfl fun _ => exists_check_eq_ok

theorem contract : api.Contract := by
  refine OneRecordApi.contract_of fun known c zoneId name _ _ hvalue hname faulty s hids => ?_
  obtain ⟨cfg, op, fqdn, value⟩ := c
  obtain rfl : lower fqdn = name := Except.ok.inj hname
  cases op with
  | present => exact wp_present finds_listMatchingRecords hids (created_createRecord cfg hvalue hids)
  | cleanup => exact wp_cleanup finds_listMatchingRecords deletes_record hids

end Cloudflare

/-! ## DigitalOcean -/

namespace DigitalOcean

structure Line where
  zone : Str
  type : Str
  name : Str
  record : DoRecord

def Line.isTxtAt (zone fqdn : Str) (l : Line) : Bool :=
  l.zone = zone ∧ l.type = txt ∧ recordAt zone l.name = normalizeName fqdn

/-- The pages of a listing together have the records of the name. -/
structure World where
  known : (c : Call Req) → Reply Req.Doc c → Prop
  pages : List Line → Str → Str → List (List DoRecord)
  complete : ∀ lines zone name, (pages lines zone name).flatten.Perm ((lines.filter (Line.isTxtAt zone name)).map Line.record)

def server (w : World) : RecordServer Req Req.Doc Line (Str × Nat) where
  ident l := (l.zone, l.record.id)
  meaning
    | .list z n page => .reads fun lines resp => ∀ body, resp.status.isSuccess = true → resp.body = .ok body →
        body.domainRecords = (w.pages lines z n).getD (page - 1) [] ∧ (body.next = none ↔ (w.pages lines z n).length ≤ page)
    | .create z body => .creates fun l => l.zone = z ∧ l.type = body.type ∧ recordAt z l.name = recordAt z body.name ∧
        trimQuotes (trim l.record.data) = trimQuotes (trim body.data)
    | .delete z id => .deletes (z, id)
  confirms
    | .delete _ _, resp => (resp.status.isSuccess || resp.status.asU16 == 404) = true
    | .list _ _ _, resp => resp.status.isSuccess = true ∧ ∃ body, resp.body = .ok body
    | .create _ _, resp => resp.status.isSuccess = true
  answers := w.known

def hold (zone fqdn value : Str) (l : Line) : Bool := l.isTxtAt zone fqdn && recordValue l.record = value

def run (cfg : DigitalOceanConfig) : Op → Str → Str → M Unit
  | .present => present cfg
  | .cleanup => cleanup cfg

def api : OneRecordApi where
  Q := Req
  B := Req.Doc
  R := Line
  ι := Str × Nat
  decEq := inferInstance
  Config := DigitalOceanConfig
  Zone := Str
  Name := Str
  World := World
  server := server
  Decodes _ _ := True
  Listed w zone fqdn lines := (w.pages lines zone (trimDots (lower fqdn))).length ≤ maxPages
  resolveZone cfg fqdn := resolveZone cfg (lower fqdn)
  nameIn zone fqdn := relativeName (lower fqdn) zone
  locks := locks
  key := lockKey
  locked
    | cfg, .present, zone, fqdn, rname, value => presentLocked cfg zone rname (lower fqdn) value
    | _, .cleanup, zone, fqdn, _, value => cleanupLocked zone (lower fqdn) value
  run := run
  hold := hold
  run_eq _ op _ _ := by cases op <;> rfl

variable {w : World} {faulty : Bool} {s : List Line} {zone fqdn value : Str}

theorem finds_listMatchingRecords :
    Finds (server w) faulty (hold zone fqdn value) (api.Listed w zone fqdn) (listMatchingRecords zone (lower fqdn))
      (recordValue · = value) fun r => (zone, r.id) := by
  refine finds_of_perm (fun s => ?_) (fun _ => rfl) fun l hl => ?_
  · have hname : Line.isTxtAt zone (trimDots (lower fqdn)) = Line.isTxtAt zone fqdn := by
      funext l
      simp only [Line.isTxtAt, normalizeName_trimDots_lower]
    have hpages := w.complete s zone (trimDots (lower fqdn))
    rw [hname] at hpages
    refine wp_mono (wp_readPages (w.pages s zone (trimDots (lower fqdn))) (faulty = false) (fun page => ?_) _ 0 []) ?_
    · refine wp_mono ((wp_reads rfl).and (wp_succeeds ?_)) ?_
      · rintro resp ⟨hsucc, body, hbody⟩
        exact ⟨_, by simp [StatusCode.ne_404 hsucc, check_ok hsucc, Response.json_ok hbody]; rfl⟩
      · rintro r s' ⟨⟨rfl, hr⟩, hsure⟩
        refine ⟨rfl, fun p hp => ?_, hsure⟩
        obtain ⟨resp, hshows, hdecode⟩ := hr p hp
        split at hdecode
        · cases hdecode
        · simp only [bind_eq_ok, check_eq_ok, Response.json_eq_ok] at hdecode
          obtain ⟨-, hsucc, body, hbody, hp⟩ := hdecode
          cases hp
          obtain ⟨hitems, hlast⟩ := hshows body hsucc hbody
          exact ⟨hitems, by simpa using hlast⟩
    · rintro r s' ⟨rfl, hr, hsure⟩
      refine ⟨rfl, fun found hfound => ?_, fun hf hlisted => hsure hf ?_⟩
      · rw [hr found hfound]
        exact hpages
      · have hle : _ ≤ maxPages := hlisted
        simpa [maxPages] using hle
  · simp only [Line.isTxtAt, decide_eq_true_eq] at hl
    exact congrArg (·, l.record.id) hl.1.symm

theorem created_createRecord (cfg : DigitalOceanConfig) {rname : Str} (hname : recordAt zone rname = normalizeName fqdn)
    (hvalue : validateAcmeValue value = .ok ()) (hids : (server w).UniqueIds s) :
    wp (fun _ _ => True) ((server w).env faulty) (createRecord cfg zone rname value).run
      (Created (server w) faulty (hold zone fqdn value) s) s := by
  refine wp_creates rfl (fun l hl => ?_) (fun resp => ?_) hids
  · obtain ⟨hz, htype, hat, hdata⟩ := hl
    rw [trim_of_acme hvalue, trimQuotes_of_acme hvalue] at hdata
    simp [hold, Line.isTxtAt, recordValue, hz, htype, hat, hname, hdata]
  · exact ⟨fun ⟨_, h⟩ => found_eq_ok.1 h, fun h => ⟨(), found_eq_ok.2 h⟩⟩

theorem deletes_record : Deletes (server w) faulty (fun r => deleteRecord zone r.id)
    fun r : DoRecord => (zone, r.id) :=
  fun _ _ => wp_deletes rfl fun _ => exists_check_eq_ok

theorem contract : api.Contract := by
  refine OneRecordApi.contract_of fun w c zone rname _ hf hvalue hrname faulty s hids => ?_
  obtain ⟨cfg, op, fqdn, value⟩ := c
  cases op with
  | present =>
    exact wp_present finds_listMatchingRecords hids (created_createRecord cfg (recordAt_relativeName hf hrname) hvalue hids)
  | cleanup => exact wp_cleanup finds_listMatchingRecords deletes_record hids

end DigitalOcean

/-! ## Bunny -/

/-- The apex as an empty name, other names as they are. -/
theorem lower_apexEmpty (rname : Str) : lower (if rname = "@".toList then [] else rname) = spelled rname := by
  unfold spelled
  split <;> rfl

theorem spelled_apexEmpty (rname : Str) : spelled (if rname = "@".toList then [] else rname) = spelled rname := by
  by_cases h : rname = "@".toList
  · rw [if_pos h, h]
    rfl
  · rw [if_neg h]

namespace Bunny

structure Line where
  zone : Int
  record : BunnyRecord

def Line.isTxtAt (zone : Zone) (fqdn : Str) (l : Line) : Bool :=
  l.zone = zone.id ∧ l.record.type = recordTypeTxt ∧ recordAt zone.domain (l.record.name.getD []) = normalizeName fqdn

/-- A zone is answered with all its records, of every name and type. -/
def recordServer (known : (c : Call Req) → Reply Req.Doc c → Prop) : RecordServer Req Req.Doc Line (Int × Int) where
  ident l := (l.zone, l.record.id)
  meaning
    | .zones _ _ => .reads fun _ _ => True
    | .zone id => .reads fun lines resp => ∀ body, resp.status.isSuccess = true → resp.body = .ok body →
        (body.records.getD []).Perm ((lines.filter (·.zone = id)).map Line.record)
    | .create z body => .creates fun l => l.zone = z ∧ l.record.type = body.type ∧
        spelled (l.record.name.getD []) = spelled body.name ∧ recordValue l.record = trimQuotes (trim body.value)
    | .delete z id => .deletes (z, id)
  confirms
    | .delete _ _, resp => (resp.status.isSuccess || resp.status.asU16 == 404) = true
    | .zone _, resp => resp.status.isSuccess = true ∧ ∃ body, resp.body = .ok body
    | .create _ _, resp | .zones _ _, resp => resp.status.isSuccess = true
  answers := known

def hold (zone : Zone) (fqdn value : Str) (l : Line) : Bool := l.isTxtAt zone fqdn && recordValue l.record = value

def run (cfg : BunnyConfig) : Op → Str → Str → M Unit
  | .present => present cfg
  | .cleanup => cleanup cfg

def api : OneRecordApi where
  Q := Req
  B := Req.Doc
  R := Line
  ι := Int × Int
  decEq := inferInstance
  Config := BunnyConfig
  Zone := Zone
  Name := Str
  World := (c : Call Req) → Reply Req.Doc c → Prop
  server := recordServer
  Decodes _ _ := True
  Listed _ _ _ _ := True
  resolveZone cfg fqdn := resolveZone cfg (lower fqdn)
  nameIn zone fqdn := bunnyName (lower fqdn) zone.domain
  locks := locks
  key zone := lockKey zone.domain
  locked
    | cfg, .present, zone, _, rname, value => presentLocked cfg zone rname value
    | cfg, .cleanup, zone, _, rname, value => cleanupLocked cfg zone rname value
  run := run
  hold := hold
  run_eq _ op _ _ := by cases op <;> rfl

theorem lower_recordName (r : BunnyRecord) : lower (recordName r) = spelled (r.name.getD []) := by
  unfold recordName spelled
  cases r.name with
  | none => rfl
  | some name =>
    by_cases h : name = "@".toList
    · rw [if_pos (congrArg some h), Option.getD_some, if_pos h]
      rfl
    · rw [if_neg (h ∘ Option.some.inj), Option.getD_some, if_neg h]

theorem bunnyName_eq_ok {fqdn zone sub : Str} : bunnyName fqdn zone = .ok sub ↔
    ∃ rname, relativeName fqdn zone = .ok rname ∧ (if rname = "@".toList then [] else rname) = sub := by
  simp only [bunnyName, bind_eq_ok, pure_eq_ok, Except.ok.injEq]

variable {known : (c : Call Req) → Reply Req.Doc c → Prop} {faulty : Bool} {s : List Line} {zone : Zone} {fqdn sub value : Str}

/-- The client picks the records of the name. -/
theorem isTxtAt_eq (hf : validateFqdn fqdn = .ok ()) (hsub : bunnyName (lower fqdn) zone.domain = .ok sub) (l : Line) :
    l.isTxtAt zone fqdn = (decide (l.zone = zone.id) &&
      decide (l.record.type = recordTypeTxt ∧ eqIgnoreCase (recordName l.record) sub)) := by
  obtain ⟨rname, hrname, rfl⟩ := bunnyName_eq_ok.1 hsub
  have hname : eqIgnoreCase (recordName l.record) (if rname = "@".toList then [] else rname) = true ↔
      recordAt zone.domain (l.record.name.getD []) = normalizeName fqdn := by
    rw [recordAt_eq_iff hf hrname, eqIgnoreCase, decide_eq_true_eq, lower_recordName, lower_apexEmpty]
  simp only [Line.isTxtAt, hname, Bool.decide_and]

theorem finds_listMatchingRecords (cfg : BunnyConfig) (hf : validateFqdn fqdn = .ok ())
    (hsub : bunnyName (lower fqdn) zone.domain = .ok sub) :
    Finds (recordServer known) faulty (hold zone fqdn value) (fun _ => True) (listMatchingRecords cfg zone sub)
      (recordValue · = value) fun r => (zone.id, r.id) := by
  refine finds_of_perm (fun s => wp_mono ((wp_reads rfl).and (wp_succeeds ?_)) ?_) (fun _ => rfl) fun l hl => ?_
  · rintro resp ⟨hsucc, body, hbody⟩
    exact ⟨_, by simp [StatusCode.ne_404 hsucc, check_ok hsucc, Response.json_ok hbody]; rfl⟩
  · rintro r s' ⟨⟨rfl, hr⟩, hsure⟩
    refine ⟨rfl, fun found hfound => ?_, fun hf _ => hsure hf⟩
    obtain ⟨resp, hshows, hdecode⟩ := hr found hfound
    split at hdecode
    · cases hdecode
    · simp only [bind_eq_ok, check_eq_ok, Response.json_eq_ok] at hdecode
      obtain ⟨-, hsucc, body, hbody, hfound⟩ := hdecode
      cases hfound
      have hperm := (hshows body hsucc hbody).filter fun r => r.type = recordTypeTxt ∧ eqIgnoreCase (recordName r) sub
      rw [List.filter_map, List.filter_filter] at hperm
      refine hperm.trans (.of_eq (congrArg _ (List.filter_congr fun l _ => ?_)))
      rw [isTxtAt_eq hf hsub, Bool.and_comm]
      rfl
  · simp only [Line.isTxtAt, decide_eq_true_eq] at hl
    exact congrArg (·, l.record.id) hl.1.symm

theorem created_createRecord (cfg : BunnyConfig) (hf : validateFqdn fqdn = .ok ())
    (hsub : bunnyName (lower fqdn) zone.domain = .ok sub) (hvalue : validateAcmeValue value = .ok ())
    (hids : (recordServer known).UniqueIds s) :
    wp (fun _ _ => True) ((recordServer known).env faulty) (createRecord cfg zone sub value).run
      (Created (recordServer known) faulty (hold zone fqdn value) s) s := by
  refine wp_creates rfl (fun l hl => ?_) (fun resp => ?_) hids
  · obtain ⟨hz, htype, hname, hcontent⟩ := hl
    obtain ⟨rname, hrname, rfl⟩ := bunnyName_eq_ok.1 hsub
    rw [spelled_apexEmpty, ← recordAt_eq_iff hf hrname] at hname
    rw [trim_of_acme hvalue, trimQuotes_of_acme hvalue] at hcontent
    simp [hold, Line.isTxtAt, hz, htype, hname, hcontent]
  · exact ⟨fun ⟨_, h⟩ => found_eq_ok.1 h, fun h => ⟨(), found_eq_ok.2 h⟩⟩

theorem deletes_record (cfg : BunnyConfig) : Deletes (recordServer known) faulty
    (fun r => deleteRecord cfg zone r.id) fun r : BunnyRecord => (zone.id, r.id) :=
  fun _ _ => wp_deletes rfl fun _ => exists_check_eq_ok

theorem contract : api.Contract := by
  refine OneRecordApi.contract_of fun known c zone sub _ hf hvalue hsub faulty s hids => ?_
  obtain ⟨cfg, op, fqdn, value⟩ := c
  cases op with
  | present =>
    exact wp_present (finds_listMatchingRecords cfg hf hsub) hids (created_createRecord cfg hf hsub hvalue hids)
  | cleanup => exact wp_cleanup (finds_listMatchingRecords cfg hf hsub) (deletes_record cfg) hids

end Bunny

/-! ## Infomaniak -/

namespace Infomaniak

structure Line where
  zone : Str
  record : IkRecord

def Line.isTxtAt (zone fqdn : Str) (l : Line) : Bool :=
  l.zone = zone ∧ eqIgnoreCase l.record.recordType txt ∧ recordAt zone (trimDots l.record.source) = normalizeName fqdn

def isTxt (r : IkRecord) : Bool := eqIgnoreCase r.recordType txt

/-- The pages of a zone together have its TXT records; they may have others. -/
structure World where
  known : (c : Call Req) → Reply Req.Doc c → Prop
  pages : List Line → Str → List (List IkRecord)
  complete : ∀ lines zone, ((pages lines zone).flatten.filter isTxt).Perm
    (((lines.filter (·.zone = zone)).map Line.record).filter isTxt)
  /-- The document in the text of an error. -/
  errorBody : Str → Option (IkEnvelope Value)

def recordServer (w : World) : RecordServer Req Req.Doc Line (Str × Nat) where
  ident l := (l.zone, l.record.id)
  meaning
    | .zone _ => .reads fun _ _ => True
    | .list z page => .reads fun lines resp => ∀ body records, resp.status.isSuccess = true → resp.body = .ok body →
        body.result = "success".toList → body.data = some records →
          records = (w.pages lines z).getD (page - 1) [] ∧ (body.pages.getD 1 ≤ page ↔ (w.pages lines z).length ≤ page)
    | .create z body => .creates fun l => l.zone = z ∧ l.record.recordType = body.recordType ∧
        spelled (trimDots l.record.source) = spelled (trimDots body.source) ∧ unquote l.record.target = unquote body.target
    | .delete z id => .deletes (z, id)
  confirms
    | .create _ _, resp => resp.status.isSuccess = true ∧ (∃ body v, resp.body = .ok body ∧
          body.result = "success".toList ∧ body.data = some v) ∨
        resp.status.isSuccess = false ∧ (w.errorBody resp.text).bind IkEnvelope.errorCode = some alreadyExists
    | .delete _ _, resp => resp.status.asU16 = 404 ∨ resp.status.isSuccess = true ∧ ∃ body v, resp.body = .ok body ∧
        body.result = "success".toList ∧ body.data = some v
    | .list _ _, resp => resp.status.isSuccess = true ∧ ∃ body records, resp.body = .ok body ∧
        body.result = "success".toList ∧ body.data = some records
    -- that the account does not have a zone is an answer as well
    | .zone _, resp => resp.status.isSuccess = true ∨ resp.status.asU16 = 404
  answers := w.known

def hold (zone fqdn value : Str) (l : Line) : Bool := l.isTxtAt zone fqdn && unquote l.record.target = value

def run (cfg : InfomaniakConfig) : Op → Str → Str → M Unit
  | .present => present cfg
  | .cleanup => cleanup cfg

def api : OneRecordApi where
  Q := Req
  B := Req.Doc
  R := Line
  ι := Str × Nat
  decEq := inferInstance
  Config := InfomaniakConfig
  Zone := Str
  Name := Str
  World := World
  server := recordServer
  Decodes w cfg := cfg.decodeError = w.errorBody
  Listed w zone _ lines := (w.pages lines zone).length ≤ maxPages
  resolveZone := resolveZone
  nameIn zone fqdn := relativeName (lower fqdn) zone
  locks := locks
  key := lockKey
  locked
    | cfg, .present, zone, _, rname, value => presentLocked cfg zone rname value
    | _, .cleanup, zone, _, rname, value => cleanupLocked zone rname value
  run := run
  hold := hold
  run_eq _ op _ _ := by cases op <;> rfl

theorem spelled_eq_nil {name : Str} : spelled name = [] ↔ name = [] ∨ name = "@".toList := by
  unfold spelled
  by_cases h : name = "@".toList
  · simp [h]
  · rw [if_neg h, or_iff_left h, lower, List.map_eq_nil_iff]

variable {w : World} {faulty : Bool} {s : List Line} {zone fqdn rname value : Str}

/-- The client picks the records of the name. -/
theorem sameSource_iff (hf : validateFqdn fqdn = .ok ()) (hrname : relativeName (lower fqdn) zone = .ok rname) (source : Str) :
    sameSource source rname = true ↔ recordAt zone (trimDots source) = normalizeName fqdn := by
  rw [recordAt_eq_iff hf hrname, sameSource]
  by_cases hapex : rname = "@".toList
  · have hspelled : spelled rname = [] := if_pos hapex
    rw [if_pos hapex, hspelled, spelled_eq_nil, Bool.or_eq_true, List.isEmpty_iff, beq_iff_eq]
  · have hspelled : spelled rname = lower rname := if_neg hapex
    rw [if_neg hapex, hspelled, eqIgnoreCase, decide_eq_true_eq]
    by_cases hat : trimDots source = "@".toList
    · -- neither side: no label of the name has an `@`
      have hno : '@' ∉ lower rname := not_mem_relativeName hf hrname hapex
      have hne : rname ≠ [] := relativeName_ne_nil hf (by rwa [← relativeName_lower])
      rw [hat]
      constructor
      · intro h
        exact absurd (h ▸ List.mem_singleton_self _) hno
      · intro h
        exact absurd (List.map_eq_nil_iff.1 (show lower rname = [] from h.symm)) hne
    · rw [spelled, if_neg hat]

theorem finds_listTxtRecords (hf : validateFqdn fqdn = .ok ()) (hrname : relativeName (lower fqdn) zone = .ok rname) :
    Finds (recordServer w) faulty (hold zone fqdn value) (api.Listed w zone fqdn) (listTxtRecords zone rname)
      (unquote ·.target = value) fun r => (zone, r.id) := by
  refine finds_of_perm (fun s => ?_) (fun _ => rfl) fun l hl => ?_
  · let pick (r : IkRecord) : Bool := eqIgnoreCase r.recordType txt && sameSource r.source rname
    refine wp_mono (wp_readPages ((w.pages s zone).map (List.filter pick)) (faulty = false) (fun page => ?_) _ 0 []) ?_
    · refine wp_mono ((wp_reads rfl).and (wp_succeeds ?_)) ?_
      · rintro resp ⟨hsucc, body, records, hbody, hresult, hdata⟩
        have hok : body.intoData "GET" (recordsPath zone) = .ok records := IkEnvelope.intoData_ok.2 ⟨hresult, hdata⟩
        exact ⟨_, by simp [check_ok hsucc, Response.json_ok hbody, hok]; rfl⟩
      · rintro r s' ⟨⟨rfl, hr⟩, hsure⟩
        refine ⟨rfl, fun p hp => ?_, hsure⟩
        obtain ⟨resp, hshows, hdecode⟩ := hr p hp
        simp only [bind_eq_ok, check_eq_ok, Response.json_eq_ok, IkEnvelope.intoData_ok] at hdecode
        obtain ⟨-, hsucc, body, hbody, records, ⟨hresult, hdata⟩, hp⟩ := hdecode
        cases hp
        obtain ⟨hitems, hlast⟩ := hshows body records hsucc hbody hresult hdata
        refine ⟨?_, ?_⟩
        · rw [hitems]
          rw [List.getD_eq_getElem?_getD, List.getD_eq_getElem?_getD, List.getElem?_map]
          exact (Option.getD_map (List.filter pick) [] _).symm
        · rw [List.length_map, ← hlast]
          simp
    · rintro r s' ⟨rfl, hr, hsure⟩
      refine ⟨rfl, fun found hfound => ?_, fun hf hlisted => hsure hf ?_⟩
      · have hpick : pick = fun r => sameSource r.source rname && isTxt r := funext fun r => Bool.and_comm _ _
        have hperm := (w.complete s' zone).filter fun r => sameSource r.source rname
        rw [List.filter_filter, List.filter_filter, ← hpick, List.filter_map, List.filter_filter] at hperm
        rw [hr found hfound, List.drop_zero, List.nil_append, ← List.filter_flatten]
        refine hperm.trans (.of_eq (congrArg _ (List.filter_congr fun l _ => ?_)))
        simp only [pick, Function.comp, Line.isTxtAt, Bool.decide_and, ← sameSource_iff hf hrname, Bool.decide_eq_true]
        exact Bool.and_comm _ _
      · have hle : _ ≤ maxPages := hlisted
        simpa [maxPages] using hle
  · simp only [Line.isTxtAt, decide_eq_true_eq] at hl
    exact congrArg (·, l.record.id) hl.1.symm

theorem created_createRecord {cfg : InfomaniakConfig} (hcfg : cfg.decodeError = w.errorBody) (hf : validateFqdn fqdn = .ok ())
    (hrname : relativeName (lower fqdn) zone = .ok rname) (hvalue : validateAcmeValue value = .ok ())
    (hids : (recordServer w).UniqueIds s) :
    wp (fun _ _ => True) ((recordServer w).env faulty) (createRecord cfg zone rname value).run
      (Created (recordServer w) faulty (hold zone fqdn value) s) s := by
  refine wp_creates rfl (fun l hl => ?_) (fun resp => ?_) hids
  · obtain ⟨hz, htype, hname, htarget⟩ := hl
    have hsource : spelled (trimDots (if rname = "@".toList then ".".toList else rname)) = spelled rname := by
      by_cases hapex : rname = "@".toList
      · rw [if_pos hapex, hapex]
        decide
      · rw [if_neg hapex, trimDots_relativeName hf hrname]
    rw [hsource, ← recordAt_eq_iff hf hrname] at hname
    rw [unquote_of_acme hvalue] at htarget
    simp [hold, Line.isTxtAt, hz, htype, hname, htarget, eqIgnoreCase]
  · rw [hcfg]
    show _ ↔ _ ∨ _
    by_cases hsucc : resp.status.isSuccess = true
    · simp only [hsucc, if_true, bind_eq_ok, Response.json_eq_ok, IkEnvelope.intoData_ok, pure_eq_ok]
      grind
    · have hfail : resp.status.isSuccess = false := by simpa using hsucc
      simp only [hfail, Bool.false_eq_true, if_false, false_and, false_or, true_and]
      split <;> simp_all

theorem deletes_record : Deletes (recordServer w) faulty (fun r => deleteRecord zone r.id)
    fun r : IkRecord => (zone, r.id) := by
  refine fun _ _ => wp_deletes rfl fun resp => ?_
  show _ ↔ _ ∨ _
  by_cases h404 : resp.status.asU16 = 404
  · simp [h404]
  · simp only [h404, if_false, false_or, bind_eq_ok, check_eq_ok, Response.json_eq_ok, IkEnvelope.intoData_ok, pure_eq_ok]
    grind

theorem contract : api.Contract := by
  refine OneRecordApi.contract_of fun w c zone rname hcfg hf hvalue hrname faulty s hids => ?_
  obtain ⟨cfg, op, fqdn, value⟩ := c
  cases op with
  | present => exact wp_present (finds_listTxtRecords hf hrname) hids (created_createRecord hcfg hf hrname hvalue hids)
  | cleanup => exact wp_cleanup (finds_listTxtRecords hf hrname) deletes_record hids

end Infomaniak

end Cheti
