import Cheti.RecordApis
import Cheti.Resend
import Cheti.Providers.Ovh
import Cheti.Providers.Porkbun
/-!
# What `present` and `cleanup` promise, for six providers

Porkbun and OVH do more than list, create and delete. Porkbun takes a creation back that it is warned
about; the API here warns about none. OVH lists ids only and reads each record before it decides; what it
changes is the zone as it is edited, which a refresh then publishes.
-/

namespace Cheti

open Fut

/-! ## Porkbun -/

namespace Porkbun

theorem created_eq_ok {outcome : Except PorkbunError Value} : (∃ a, created outcome = .ok a) ↔
    (∃ v, outcome = .ok v) ∨ ∃ e, outcome = .error (.code codeDuplicateRecord e) := by
  rcases outcome with (⟨code, e⟩ | e) | v
  · by_cases hcode : code = codeDuplicateRecord <;> simp [created, hcode]
  · simp [created]
  · simp [created]

/-- Where an answer does not have a record, there are no warnings in it. -/
theorem warnings_created {path zone : Str} {resp : Response (Option Value)} {record : CreatedRecord}
    (h : created (parseEnvelope path zone resp) = .ok (some record))
    (hwarn : ∀ v r, resp.body = .ok (some v) → CreatedRecord.ofValue v = some r → r.warnings.intoVec = []) :
    record.warnings.intoVec = [] := by
  rcases hparse : parseEnvelope path zone resp with (⟨code, e⟩ | e) | v
  · rw [hparse, created] at h
    split at h <;> cases h
  · rw [hparse] at h
    cases h
  · rw [hparse] at h
    cases h
    obtain ⟨-, hbody, -⟩ := parseEnvelope_ok.1 hparse
    cases hrecord : CreatedRecord.ofValue v with
    | none => rfl
    | some r => exact hwarn v r hbody hrecord

structure Line where
  zone : Str
  name : Str
  record : PorkbunRecord

def Line.isTxtAt (zone fqdn : Str) (l : Line) : Bool :=
  l.zone = zone ∧ eqIgnoreCase l.record.recordType txt ∧ recordAt zone l.name = normalizeName fqdn

def isTxt (r : PorkbunRecord) : Bool := eqIgnoreCase r.recordType txt

/-- No creation is answered with a warning. -/
def NoWarning : (c : Call Req) → Reply Req.Doc c → Prop
  | .send (.create _ _), .ok resp => ∀ v record, resp.body = .ok (some v) → CreatedRecord.ofValue v = some record →
      record.warnings.intoVec = []
  | _, _ => True

def recordServer (known : (c : Call Req) → Reply Req.Doc c → Prop) : RecordServer Req Req.Doc Line (Str × Str) where
  ident l := (l.zone, l.record.id)
  meaning
    | .retrieve z sub => .reads fun lines resp => ∀ v records, Accepted resp v → recordsOfValue v = some records →
        (records.filter isTxt).Perm
          ((lines.filter fun l => l.zone = z ∧ isTxt l.record ∧ spelled l.name = spelled sub).map Line.record)
    | .create z body => .creates fun l => l.zone = z ∧ l.record.recordType = body.recordType ∧
        spelled l.name = spelled body.name ∧ unquote l.record.content = unquote body.content
    | .delete z id => .deletes (z, id)
  confirms
    | .retrieve _ _, resp => ∃ v records, Accepted resp v ∧ recordsOfValue v = some records
    | .create _ _, resp => (∃ v, Accepted resp v) ∨ RefusedWith codeDuplicateRecord resp
    | .delete _ _, resp => (∃ v, Accepted resp v) ∨ RefusedWith codeInvalidRecordId resp
  answers c r := known c r ∧ NoWarning c r

def hold (zone fqdn value : Str) (l : Line) : Bool := l.isTxtAt zone fqdn && unquote l.record.content = value

def run (cfg : PorkbunConfig) : Op → Str → Str → M Unit
  | .present => present cfg
  | .cleanup => cleanup cfg

def recordApi : OneRecordApi where
  Q := Req
  B := Req.Doc
  R := Line
  ι := Str × Str
  decEq := inferInstance
  Config := PorkbunConfig
  Zone := Str
  Name := Str
  World := (c : Call Req) → Reply Req.Doc c → Prop
  server := recordServer
  Decodes _ _ := True
  Listed _ _ _ _ := True
  resolveZone cfg fqdn := resolveZone cfg (lower fqdn)
  nameIn zone fqdn := subdomainOf (lower fqdn) zone
  locks := locks
  key := lockKey
  locked
    | cfg, .present, zone, _, sub, value => presentLocked cfg zone sub value
    | cfg, .cleanup, zone, _, sub, value => cleanupLocked cfg zone sub value
  run := run
  hold := hold
  run_eq _ op _ _ := by cases op <;> rfl

theorem subdomainOf_eq_ok {fqdn zone sub : Str} : subdomainOf fqdn zone = .ok sub ↔
    ∃ rname, relativeName fqdn zone = .ok rname ∧ (if rname = "@".toList then [] else rname) = sub := by
  simp only [subdomainOf, bind_eq_ok, pure_eq_ok, Except.ok.injEq]

variable {known : (c : Call Req) → Reply Req.Doc c → Prop} {faulty : Bool} {s : List Line} {zone fqdn sub value : Str}

theorem recordAt_eq_iff_sub (hf : validateFqdn fqdn = .ok ()) (hsub : subdomainOf (lower fqdn) zone = .ok sub) (name : Str) :
    recordAt zone name = normalizeName fqdn ↔ spelled name = spelled sub := by
  obtain ⟨rname, hrname, rfl⟩ := subdomainOf_eq_ok.1 hsub
  rw [spelled_apexEmpty, recordAt_eq_iff hf hrname]

theorem finds_fetchExisting (cfg : PorkbunConfig) (hf : validateFqdn fqdn = .ok ())
    (hsub : subdomainOf (lower fqdn) zone = .ok sub) :
    Finds (recordServer known) faulty (hold zone fqdn value) (fun _ => True) (fetchExisting cfg zone sub)
      (unquote ·.content = value) fun r => (zone, r.id) := by
  refine finds_of_perm (fun s => wp_mono ((wp_reads rfl).and (wp_succeeds ?_)) ?_) (fun _ => rfl) fun l hl => ?_
  · rintro resp ⟨v, records, haccepted, hrecords⟩
    have hparse : parseEnvelope (retrievePath zone sub) zone resp = .ok v := parseEnvelope_ok.2 haccepted
    exact ⟨_, by simp [hparse, Except.mapError, hrecords, okOr]; rfl⟩
  · rintro r s' ⟨⟨rfl, hr⟩, hsure⟩
    refine ⟨rfl, fun found hfound => ?_, fun hf _ => hsure hf⟩
    obtain ⟨resp, hshows, hdecode⟩ := hr found hfound
    simp only [bind_eq_ok, okOr_eq_ok, mapError_eq_ok, parseEnvelope_ok, pure_eq_ok, Except.ok.injEq] at hdecode
    obtain ⟨v, haccepted, records, hrecords, rfl⟩ := hdecode
    refine (hshows v records haccepted hrecords).trans (.of_eq (congrArg _ (List.filter_congr fun l _ => ?_)))
    rw [Line.isTxtAt, decide_eq_decide, recordAt_eq_iff_sub hf hsub]
    rfl
  · simp only [Line.isTxtAt, decide_eq_true_eq] at hl
    exact congrArg (·, l.record.id) hl.1.symm

theorem created_createRecord (cfg : PorkbunConfig) (hf : validateFqdn fqdn = .ok ())
    (hsub : subdomainOf (lower fqdn) zone = .ok sub) (hvalue : validateAcmeValue value = .ok ())
    (hids : (recordServer known).UniqueIds s) :
    wp (fun _ _ => True) ((recordServer known).env faulty) (createRecord cfg zone sub value).run
      (Created (recordServer known) faulty (hold zone fqdn value) s) s := by
  have hcreates : wp (fun _ _ => True) ((recordServer known).env faulty)
      (post (createPath zone) zone (Req.create zone ⟨sub, txt, value, cfg.ttl⟩) created).run
      (Created (recordServer known) faulty (hold zone fqdn value) s) s := by
    refine wp_creates rfl (fun l hl => ?_) (fun resp => ?_) hids
    · obtain ⟨hz, htype, hname, hcontent⟩ := hl
      rw [← recordAt_eq_iff_sub hf hsub] at hname
      rw [unquote_of_acme hvalue] at hcontent
      simp [hold, Line.isTxtAt, hz, htype, hname, hcontent, eqIgnoreCase]
    · simp only [created_eq_ok, parseEnvelope_ok, parseEnvelope_code (show codeDuplicateRecord ≠ _ by decide)]
      rfl
  rw [createRecord, wp_run_bind]
  refine wp_mono (hcreates.and wp_answered) ?_
  rintro r s' ⟨hcreated, hanswered⟩
  cases r with
  | error e => exact hcreated.congr (by simp)
  | ok record =>
    cases record with
    | none => exact hcreated.congr (by simp)
    | some record =>
      obtain ⟨resp, ⟨-, hwarn⟩, hdecode⟩ := hanswered _ rfl
      have hnone : record.warnings.intoVec = [] := warnings_created hdecode hwarn
      simp only [hnone]
      exact hcreated.congr (by simp)

theorem deletes_record : Deletes (recordServer known) faulty (fun r => deleteRecord zone r.id)
    fun r : PorkbunRecord => (zone, r.id) := by
  refine fun r _ => wp_deletes rfl fun resp => ?_
  show _ ↔ (∃ v, Accepted resp v) ∨ RefusedWith codeInvalidRecordId resp
  have haccepted (v : Value) : parseEnvelope (deletePath zone r.id) zone resp = .ok v ↔ Accepted resp v := parseEnvelope_ok
  have hrefused : (∃ e, parseEnvelope (deletePath zone r.id) zone resp = .error (.code codeInvalidRecordId e)) ↔
      RefusedWith codeInvalidRecordId resp := parseEnvelope_code (by decide)
  simp only [← haccepted, ← hrefused]
  rcases parseEnvelope (deletePath zone r.id) zone resp with (⟨code, e⟩ | e) | v
  · by_cases hcode : code = codeInvalidRecordId <;> simp [hcode]
  · simp
  · simp

theorem contract : recordApi.Contract := by
  refine OneRecordApi.contract_of fun known c zone sub _ hf hvalue hsub faulty s hids => ?_
  obtain ⟨cfg, op, fqdn, value⟩ := c
  cases op with
  | present => exact wp_present (finds_fetchExisting cfg hf hsub) hids (created_createRecord cfg hf hsub hvalue hids)
  | cleanup => exact wp_cleanup (finds_fetchExisting cfg hf hsub) deletes_record hids

end Porkbun

/-! ## OVH -/

namespace Ovh

/-- A record of a zone as it is edited. -/
structure Line where
  zone : Str
  id : Nat
  fieldType : Str
  subDomain : Str
  target : Str

def Line.isTxtAt (zone fqdn : Str) (l : Line) : Bool :=
  l.zone = zone ∧ l.fieldType = txt ∧ recordAt zone l.subDomain = normalizeName fqdn

def recordServer (known : (c : Call Req) → Reply Req.Doc c → Prop) : RecordServer Req Req.Doc Line (Str × Nat) where
  ident l := (l.zone, l.id)
  meaning
    | .time | .refresh _ => .reads fun _ _ => True
    | .list z sub => .reads fun lines resp => ∀ ids, resp.status.isSuccess = true → resp.body = .ok ids →
        ids.Perm ((lines.filter fun l => l.zone = z ∧ l.fieldType = txt ∧
          spelled l.subDomain = spelled sub).map (·.id))
    | .get z id => .reads fun lines resp => ∀ doc, resp.status.isSuccess = true → resp.body = .ok doc →
        ∃ l ∈ lines, l.zone = z ∧ l.id = id ∧ doc = ⟨id, l.target⟩
    | .create z sub target _ => .creates fun l => l.zone = z ∧ l.fieldType = txt ∧
        spelled l.subDomain = spelled sub ∧ trimQuotes l.target = trimQuotes target
    | .delete z id => .deletes (z, id)
  confirms
    | .delete _ _, resp => (resp.status.isSuccess || resp.status.asU16 == 404) = true
    | .list _ _, resp => resp.status.isSuccess = true ∧ ∃ ids, resp.body = .ok ids
    | .get _ _, resp => resp.status.isSuccess = true ∧ ∃ doc, resp.body = .ok doc
    | .time, resp | .refresh _, resp | .create _ _ _ _, resp => resp.status.isSuccess = true
  answers := known

def hold (zone fqdn value : Str) (l : Line) : Bool := l.isTxtAt zone fqdn && trimQuotes l.target = value

def recordApi : OneRecordApi where
  Q := Req
  B := Req.Doc
  R := Line
  ι := Str × Nat
  decEq := inferInstance
  Config := OvhProvider
  Zone := Str
  Name := Str
  World := (c : Call Req) → Reply Req.Doc c → Prop
  server := recordServer
  Decodes _ _ := True
  Listed _ _ _ _ := True
  resolveZone self fqdn := resolveZone self.config (lower fqdn)
  nameIn zone fqdn := relativeName (lower fqdn) zone
  locks := locks
  key := lockKey
  locked
    | self, .present, zone, _, sub, value => presentLocked self zone sub value
    | self, .cleanup, zone, _, sub, value => cleanupLocked self zone sub value
  run := run
  hold := hold
  run_eq _ op _ _ := by cases op <;> rfl

variable {known : (c : Call Req) → Reply Req.Doc c → Prop} {faulty : Bool} {s : List Line} {zone fqdn rname value : Str}

/-- Whatever comes of it, the call goes on. -/
theorem wp_syncTime (self : OvhProvider) : wp (fun _ _ => True) ((recordServer known).env faulty) (syncTime self).run
    (fun r s' => s' = s ∧ r = .ok ()) s := by
  unfold syncTime
  split
  · exact ⟨rfl, rfl⟩
  · rw [wp_run_bind]
    refine wp_bind.2 (wp_sendFrom_inv (I := (· = s)) ?_ (fun d s₁ hs₁ => ⟨trivial, fun _ s' h => (env_sleep h).trans hs₁⟩)
      _ _ s rfl)
    rintro s rfl
    refine ⟨trivial, fun r s' h => ?_⟩
    obtain ⟨-, -, rfl, -⟩ := h
    exact ⟨⟨rfl, rfl⟩, fun _ _ _ => rfl⟩

/-- The ids of the records of a name. -/
def IdsAt (zone fqdn : Str) (s : List Line) (ids : List Nat) : Prop :=
  ids.Perm ((s.filter (Line.isTxtAt zone fqdn)).map (·.id))

theorem wp_listRecords (hf : validateFqdn fqdn = .ok ()) (hrname : relativeName (lower fqdn) zone = .ok rname) :
    wp (fun _ _ => True) ((recordServer known).env faulty) (listRecords zone rname).run (fun r s' => s' = s ∧
      (∀ ids, r = .ok ids → IdsAt zone fqdn s ids) ∧ (faulty = false → ∃ ids, r = .ok ids)) s := by
  refine wp_mono ((wp_reads rfl).and (wp_succeeds fun resp ⟨hsucc, ids, hbody⟩ =>
    ⟨ids, by simp [check_ok hsucc, Response.json_ok hbody]⟩)) ?_
  rintro r s' ⟨⟨rfl, hr⟩, hsure⟩
  refine ⟨rfl, fun ids hids => ?_, hsure⟩
  obtain ⟨resp, hshows, hdecode⟩ := hr ids hids
  simp only [bind_eq_ok, check_eq_ok, Response.json_eq_ok] at hdecode
  obtain ⟨-, hsucc, hbody⟩ := hdecode
  refine (hshows ids hsucc hbody).trans (.of_eq (congrArg _ (List.filter_congr fun l _ => ?_)))
  rw [Line.isTxtAt, decide_eq_decide, recordAt_eq_iff hf hrname]

theorem wp_getRecord (id : Nat) :
    wp (fun _ _ => True) ((recordServer known).env faulty) (getRecord zone id).run (fun r s' => s' = s ∧
      (∀ doc, r = .ok doc → ∃ l ∈ s, l.zone = zone ∧ l.id = id ∧ doc = ⟨id, l.target⟩) ∧
      (faulty = false → ∃ doc, r = .ok doc)) s := by
  refine wp_mono ((wp_reads rfl).and (wp_succeeds fun resp ⟨hsucc, doc, hbody⟩ =>
    ⟨doc, by simp [check_ok hsucc, Response.json_ok hbody]⟩)) ?_
  rintro r s' ⟨⟨rfl, hr⟩, hsure⟩
  refine ⟨rfl, fun doc hdoc => ?_, hsure⟩
  obtain ⟨resp, hshows, hdecode⟩ := hr doc hdoc
  simp only [bind_eq_ok, check_eq_ok, Response.json_eq_ok] at hdecode
  obtain ⟨-, hsucc, hbody⟩ := hdecode
  exact hshows doc hsucc hbody

theorem zone_of_isTxtAt {l : Line} (h : l.isTxtAt zone fqdn = true) : l.zone = zone := by
  simp only [Line.isTxtAt, decide_eq_true_eq] at h
  exact h.1

/-- The record that was read is the one of that id. -/
theorem isTxtAt_of_ids {s₁ : List Line} {ids : List Nat} {l : Line} (hids : (recordServer known).UniqueIds s)
    (h : IdsAt zone fqdn s ids) (hsub : s₁.Sublist s) (hl : l ∈ s₁) (hz : l.zone = zone) (hid : l.id ∈ ids) :
    l.isTxtAt zone fqdn = true := by
  obtain ⟨x, hx, hxid⟩ := List.mem_map.1 (h.mem_iff.1 hid)
  obtain ⟨hx, hat⟩ := List.mem_filter.1 hx
  rwa [← hids.eq hx (hsub.subset hl) (Prod.ext ((zone_of_isTxtAt hat).trans hz.symm) hxid)]

theorem wp_anyHolds (hids : (recordServer known).UniqueIds s) (ids : List Nat) :
    wp (fun _ _ => True) ((recordServer known).env faulty) (anyHolds zone value ids).run (fun r s' => s' = s ∧
      (∀ b, r = .ok b → (b = true ↔ ∃ l ∈ s, l.zone = zone ∧ l.id ∈ ids ∧ trimQuotes l.target = value)) ∧
      (faulty = false → ∃ b, r = .ok b)) s := by
  induction ids with
  | nil => exact ⟨rfl, fun b hb => by cases hb; simp, fun _ => ⟨false, rfl⟩⟩
  | cons id rest ih =>
    rw [anyHolds, wp_run_bind]
    refine wp_mono (wp_getRecord id) ?_
    rintro r s' ⟨rfl, hr, hsure⟩
    cases r with
    | error e =>
      refine ⟨rfl, fun b hb => (by cases hb), fun hf => ?_⟩
      obtain ⟨doc, he⟩ := hsure hf
      cases he
    | ok doc =>
      obtain ⟨l, hl, hz, hid, rfl⟩ := hr doc rfl
      by_cases htarget : trimQuotes l.target = value
      · simp only [htarget, if_true]
        refine ⟨rfl, fun b hb => ?_, fun _ => ⟨true, rfl⟩⟩
        cases hb
        simpa using ⟨l, hl, hz, Or.inl hid, htarget⟩
      · simp only [htarget, if_false]
        refine wp_mono ih ?_
        rintro r s₁ ⟨rfl, hr, hsure⟩
        refine ⟨rfl, fun b hb => (hr b hb).trans ?_, hsure⟩
        constructor
        · rintro ⟨x, hx, hxz, hxid, hxt⟩
          exact ⟨x, hx, hxz, List.mem_cons_of_mem _ hxid, hxt⟩
        · rintro ⟨x, hx, hxz, hxid, hxt⟩
          rcases List.mem_cons.1 hxid with hxid | hxid
          · have hsame : x = l := hids.eq hx hl (Prod.ext (hxz.trans hz.symm) (hxid.trans hid.symm))
            exact absurd (hsame ▸ hxt) htarget
          · exact ⟨x, hx, hxz, hxid, hxt⟩

theorem hold_iff {l : Line} : hold zone fqdn value l = true ↔
    l.isTxtAt zone fqdn = true ∧ trimQuotes l.target = value := by
  rw [hold, Bool.and_eq_true, decide_eq_true_eq]

theorem any_hold_iff {ids : List Nat} (hids : (recordServer known).UniqueIds s) (h : IdsAt zone fqdn s ids) :
    s.any (hold zone fqdn value) = true ↔
      ∃ l ∈ s, l.zone = zone ∧ l.id ∈ ids ∧ trimQuotes l.target = value := by
  rw [List.any_eq_true]
  constructor
  · rintro ⟨l, hl, hheld⟩
    obtain ⟨hat, htarget⟩ := hold_iff.1 hheld
    exact ⟨l, hl, zone_of_isTxtAt hat, h.mem_iff.2 (List.mem_map_of_mem (List.mem_filter.2 ⟨hl, hat⟩)), htarget⟩
  · rintro ⟨l, hl, hz, hid, htarget⟩
    exact ⟨l, hl, hold_iff.2 ⟨isTxtAt_of_ids hids h (.refl _) hl hz hid, htarget⟩⟩

theorem wp_refreshZone : wp (fun _ _ => True) ((recordServer known).env faulty) (refreshZone zone).run
    (fun r s' => s' = s ∧ (faulty = false → ∃ u, r = .ok u)) s := by
  refine wp_mono ((wp_reads rfl).and (wp_succeeds fun _ => exists_check_eq_ok.2)) ?_
  rintro r s' ⟨⟨rfl, -⟩, hsure⟩
  exact ⟨rfl, hsure⟩

/-- The creation, then the refresh. -/
theorem created_createRecord (self : OvhProvider) (hf : validateFqdn fqdn = .ok ())
    (hrname : relativeName (lower fqdn) zone = .ok rname) (hvalue : validateAcmeValue value = .ok ())
    (hids : (recordServer known).UniqueIds s) :
    wp (fun _ _ => True) ((recordServer known).env faulty) (do createRecord self zone rname value; refreshZone zone : M Unit).run
      (Created (recordServer known) faulty (hold zone fqdn value) s) s := by
  have hcreates : wp (fun _ _ => True) ((recordServer known).env faulty) (createRecord self zone rname value).run
      (Created (recordServer known) faulty (hold zone fqdn value) s) s := by
    refine wp_creates rfl (fun l hl => ?_) (fun resp => ?_) hids
    · obtain ⟨hz, htype, hname, htarget⟩ := hl
      rw [← recordAt_eq_iff hf hrname] at hname
      rw [trimQuotes_of_acme hvalue] at htarget
      simp [hold, Line.isTxtAt, hz, htype, hname, htarget]
    · exact exists_check_eq_ok
  rw [wp_run_bind]
  refine wp_mono hcreates fun r s₁ hcreated => ?_
  cases r with
  | error e => exact hcreated
  | ok u =>
    refine wp_mono wp_refreshZone ?_
    rintro r s' ⟨rfl, hok⟩
    exact ⟨hcreated.added, fun _ _ => hcreated.there u rfl, hok⟩

theorem deletes_record : Deletes (recordServer known) faulty (deleteRecord zone) (zone, ·) :=
  fun _ _ => wp_deletes rfl fun _ => exists_check_eq_ok

/-- **The loop of `cleanup`.** Of the listed records those that hold the value go, each after it was read. -/
theorem wp_deleteMatching {all : List Nat} (hids : (recordServer known).UniqueIds s) (hall : IdsAt zone fqdn s all)
    (ids : List Nat) : ∀ (deletedAny : Bool) (s₁ : List Line), (∀ id ∈ ids, id ∈ all) →
      Untouched (recordServer known) (hold zone fqdn value) s s₁ → s₁.Sublist s →
      wp (fun _ _ => True) ((recordServer known).env faulty) (deleteMatching zone value ids deletedAny).run (fun r s' =>
        Untouched (recordServer known) (hold zone fqdn value) s s' ∧ s'.Sublist s₁ ∧
        (∀ b, r = .ok b → ∀ x ∈ s', x.zone = zone → x.id ∈ ids → hold zone fqdn value x = false) ∧
        (faulty = false → ∃ b, r = .ok b)) s₁ := by
  induction ids with
  | nil => exact fun deletedAny s₁ _ hkept _ => ⟨hkept, .refl _, by simp, fun _ => ⟨deletedAny, rfl⟩⟩
  | cons id rest ih =>
    intro deletedAny s₁ hmem hkept hsub
    rw [deleteMatching, wp_run_bind]
    refine wp_mono (wp_getRecord id) ?_
    rintro r s' ⟨rfl, hr, hsure⟩
    cases r with
    | error e =>
      refine ⟨hkept, .refl _, fun any h => (by cases h), fun hf => ?_⟩
      obtain ⟨doc, he⟩ := hsure hf
      cases he
    | ok doc =>
      obtain ⟨l, hl, hz, rfl, rfl⟩ := hr doc rfl
      have hat : l.isTxtAt zone fqdn = true := isTxtAt_of_ids hids hall hsub hl hz (hmem _ List.mem_cons_self)
      have hident : (recordServer known).ident l = (zone, l.id) := Prod.ext hz rfl
      have hrest : ∀ id ∈ rest, id ∈ all := fun id h => hmem id (List.mem_cons_of_mem _ h)
      by_cases htarget : trimQuotes l.target = value
      · simp only [htarget, if_true]
        rw [wp_run_bind]
        refine wp_mono (deletes_record l.id s') ?_
        rintro r s₂ ⟨hstep, hgone, hsure⟩
        have hkept₂ : Untouched (recordServer known) (hold zone fqdn value) s s₂ := by
          rcases hstep with rfl | rfl
          · exact hkept
          · have hdelete := hkept.delete hl (hold_iff.2 ⟨hat, htarget⟩)
            rwa [hident] at hdelete
        have hsub₂ : s₂.Sublist s' := by
          rcases hstep with rfl | rfl
          · exact .refl _
          · exact List.filter_sublist
        cases r with
        | error e =>
          refine ⟨hkept₂, hsub₂, fun any h => (by cases h), fun hf => ?_⟩
          obtain ⟨u, he⟩ := hsure hf
          cases he
        | ok u =>
          refine wp_mono (ih true s₂ hrest hkept₂ (hsub₂.trans hsub)) ?_
          rintro r s₃ ⟨hkept₃, hsub₃, hnone, hsure₃⟩
          refine ⟨hkept₃, hsub₃.trans hsub₂, fun b hb x hx hxz hxid => ?_, hsure₃⟩
          rcases List.mem_cons.1 hxid with hxid | hxid
          · have hx₂ := hsub₃.subset hx
            rw [hgone u rfl, List.mem_filter] at hx₂
            exact absurd (Prod.ext hxz hxid) (by simpa using hx₂.2)
          · exact hnone b hb x hx hxz hxid
      · simp only [htarget, if_false]
        refine wp_mono (ih deletedAny s' hrest hkept hsub) ?_
        rintro r s₃ ⟨hkept₃, hsub₃, hnone, hsure₃⟩
        refine ⟨hkept₃, hsub₃, fun b hb x hx hxz hxid => ?_, hsure₃⟩
        rcases List.mem_cons.1 hxid with hxid | hxid
        · obtain rfl := hkept.ids.eq (hsub₃.subset hx) hl (Prod.ext (hxz.trans hz.symm) hxid)
          simp [hold, htarget]
        · exact hnone b hb x hx hxz hxid

/-- Both calls first look at the ids of the name. -/
theorem wp_listed {op : Op} {self : OvhProvider} (hf : validateFqdn fqdn = .ok ())
    (hrname : relativeName (lower fqdn) zone = .ok rname) (hids : (recordServer known).UniqueIds s)
    {rest : List Nat → M Unit} (hrest : ∀ ids, IdsAt zone fqdn s ids →
      wp (fun _ _ => True) ((recordServer known).env faulty) (rest ids).run
        (Outcome (recordServer known) (faulty = false) op (hold zone fqdn value) s) s) :
    wp (fun _ _ => True) ((recordServer known).env faulty) (do syncTime self; let ids ← listRecords zone rname; rest ids).run
      (Outcome (recordServer known) (faulty = false) op (hold zone fqdn value) s) s := by
  rw [wp_run_bind]
  refine wp_mono (wp_syncTime self) ?_
  rintro r s' ⟨rfl, rfl⟩
  show wp _ _ (listRecords zone rname >>= rest).run _ _
  rw [wp_run_bind]
  refine wp_mono (wp_listRecords hf hrname) ?_
  rintro r s₁ ⟨rfl, hlisted, hsure⟩
  cases r with
  | error e => exact .refused op hids (fun hf => by simpa using hsure hf) e
  | ok ids => exact hrest ids (hlisted ids rfl)

theorem wp_presentLocked (self : OvhProvider) (hf : validateFqdn fqdn = .ok ())
    (hrname : relativeName (lower fqdn) zone = .ok rname) (hvalue : validateAcmeValue value = .ok ())
    (hids : (recordServer known).UniqueIds s) :
    wp (fun _ _ => True) ((recordServer known).env faulty) (presentLocked self zone rname value).run
      (Outcome (recordServer known) (faulty = false) .present (hold zone fqdn value) s) s := by
  refine wp_listed hf hrname hids fun ids hall => ?_
  rw [wp_run_bind]
  refine wp_mono (wp_anyHolds hids ids) ?_
  rintro r s₁ ⟨rfl, hany, hsure⟩
  cases r with
  | error e => exact .refused .present hids (fun hf => by simpa using hsure hf) e
  | ok there =>
    have hthere : there = s₁.any (hold zone fqdn value) := by
      rw [Bool.eq_iff_iff, hany there rfl, any_hold_iff hids hall]
    exact wp_present_if hthere hids (created_createRecord self hf hrname hvalue hids)

theorem wp_cleanupLocked (self : OvhProvider) (hf : validateFqdn fqdn = .ok ())
    (hrname : relativeName (lower fqdn) zone = .ok rname) (hids : (recordServer known).UniqueIds s) :
    wp (fun _ _ => True) ((recordServer known).env faulty) (cleanupLocked self zone rname value).run
      (Outcome (recordServer known) (faulty = false) .cleanup (hold zone fqdn value) s) s := by
  refine wp_listed hf hrname hids fun ids hall => ?_
  rw [wp_run_bind]
  refine wp_mono (wp_deleteMatching hids hall ids false s (fun _ h => h) (.refl hids) (.refl _)) ?_
  rintro r s₁ ⟨hkept, hsub, hnone, hsure⟩
  cases r with
  | error e =>
    have hcleaned : Cleaned (recordServer known) (hold zone fqdn value) s (.error e) s₁ := ⟨hkept, hsub, nofun⟩
    exact hcleaned.outcome fun hf => by simpa using hsure hf
  | ok deletedAny =>
    have hgone : ∀ x ∈ s₁, hold zone fqdn value x = false := by
      intro x hx
      by_contra hne
      have hheld : hold zone fqdn value x = true := by simpa using hne
      have hat := (hold_iff.1 hheld).1
      have hid : x.id ∈ ids :=
        hall.mem_iff.2 (List.mem_map_of_mem (List.mem_filter.2 ⟨hsub.subset hx, hat⟩))
      exact hne (hnone deletedAny rfl x hx (zone_of_isTxtAt hat) hid)
    have hcleaned (r : Except DnsError Unit) : Cleaned (recordServer known) (hold zone fqdn value) s r s₁ :=
      ⟨hkept, hsub, fun _ => hgone⟩
    cases deletedAny with
    | false => exact (hcleaned _).outcome fun _ => rfl
    | true =>
      refine wp_mono wp_refreshZone ?_
      rintro r s₂ ⟨rfl, hsure⟩
      refine (hcleaned r).outcome fun hf => ?_
      obtain ⟨u, hr⟩ := hsure hf
      exact hr

theorem contract : recordApi.Contract := by
  refine OneRecordApi.contract_of fun known c zone rname _ hf hvalue hrname faulty s hids => ?_
  obtain ⟨self, op, fqdn, value⟩ := c
  cases op with
  | present => exact wp_mono (wp_presentLocked self hf hrname hvalue hids) fun _ _ h => h.mono And.left
  | cleanup => exact wp_mono (wp_cleanupLocked self hf hrname hids) fun _ _ h => h.mono And.left

end Ovh

/-! ## An account at Infomaniak -/

namespace Infomaniak

def answer {T : Type} (status : Nat) (body : T) : Response T := ⟨⟨status, ""⟩, none, none, none, [], .ok body⟩

/-- An account with one zone, whose records are all on one page. -/
def account (zone : Str) : World where
  known
    | .send (.zone name), r => ∀ resp, r = .ok resp →
      if name = zone then resp = answer 200 ⟨"success".toList, some ⟨name⟩, none, none⟩ else resp.status.asU16 = 404
    | .cacheGet _, found => found = none
    | _, _ => True
  pages lines zone := [(lines.filter (·.zone = zone)).map Line.record]
  complete _ _ := by simp
  errorBody _ := none

/-- No zone is configured: the candidates are asked for one after the other. -/
def config : InfomaniakConfig := ⟨none, 300, fun _ => none⟩

variable {zone : Str}

/-- Every request to the account may succeed. -/
theorem account_answers (c : Call Req) (s : List Line) : ∃ r s', (recordServer (account zone)).env false c r s s' := by
  have hsucc {q : Req} {body : q.Doc} (hconf : (recordServer (account zone)).confirms q (answer 200 body)) :
      (recordServer (account zone)).Succeeds q (.ok (answer 200 body)) := ⟨_, rfl, hconf, by simp [answer]⟩
  cases c with
  | send q =>
    cases q with
    | zone name =>
      let body : IkEnvelope IkZone := ⟨"success".toList, some ⟨name⟩, none, none⟩
      by_cases hname : name = zone
      · refine ⟨.ok (answer 200 body), s, fun resp hresp => ?_, fun _ => hsucc (Or.inl (by rfl)), rfl, fun _ _ => trivial⟩
        cases hresp
        rw [if_pos hname]
      · refine ⟨.ok (answer 404 body), s, fun resp hresp => ?_, fun _ => ⟨_, rfl, Or.inr rfl, by simp [answer]⟩, rfl,
          fun _ _ => trivial⟩
        cases hresp
        rw [if_neg hname]
        rfl
    | list z page =>
      let records := ((account zone).pages s z).getD (page - 1) []
      refine ⟨.ok (answer 200 ⟨"success".toList, some records, none, some 1⟩), s, trivial,
        fun _ => hsucc ⟨by rfl, _, _, rfl, rfl, rfl⟩, rfl, ?_⟩
      rintro resp hresp body records' - hbody - hdata
      cases hresp
      cases hbody
      cases hdata
      exact ⟨rfl, Iff.rfl⟩
    | create z body =>
      obtain ⟨id, hid⟩ := Infinite.exists_notMem_finset (s.map (·.record.id)).toFinset
      refine ⟨.ok (answer 200 ⟨"success".toList, some .null, none, none⟩),
        s ++ [⟨z, id, body.source, body.recordType, body.target⟩], trivial,
        fun _ => hsucc (Or.inl ⟨by rfl, _, _, rfl, rfl, rfl⟩),
        Or.inl ⟨_, ⟨rfl, rfl, rfl, rfl⟩, fun y hy he => hid ?_, rfl⟩⟩
      have hrecord : y.record.id = id := congrArg Prod.snd he
      simpa using ⟨y, hy, hrecord⟩
    | delete z id =>
      exact ⟨.ok (answer 200 ⟨"success".toList, some .null, none, none⟩), _, trivial,
        fun _ => hsucc (Or.inr ⟨by rfl, _, _, rfl, rfl, rfl⟩), Or.inl rfl⟩
  | cacheGet name => exact ⟨none, s, rfl, rfl⟩
  | findZone fqdn => exact ⟨.ok [], s, trivial, rfl⟩
  | accessToken => exact ⟨.ok [], s, trivial, rfl⟩
  | now => exact ⟨(0 : Nat), s, trivial, rfl⟩
  | _ => exact ⟨(), s, trivial, rfl⟩

theorem wp_fetchZone_account (name : Str) (s : List Line) : wp (fun _ _ => True) ((recordServer (account zone)).env false)
    (fetchZone name).run (fun r s' => s' = s ∧ r = .ok (if name = zone then some (lower (trimDots name)) else none)) s := by
  refine wp_request_inv (I := (· = s)) rfl ?_ fun d s₁ hs₁ => ⟨trivial, fun _ s' h => (env_sleep h).trans hs₁⟩
  rintro s rfl
  refine ⟨trivial, fun r s' h => ?_⟩
  obtain ⟨hknown, hsucc, rfl, -⟩ := h
  obtain ⟨resp, rfl, -, -⟩ := hsucc rfl
  refine ⟨nofun, ?_⟩
  rintro resp' he
  cases he
  refine ⟨⟨rfl, ?_⟩, fun _ => rfl⟩
  have hresp := hknown resp rfl
  by_cases hname : name = zone
  · rw [if_pos hname] at hresp ⊢
    rw [hresp]
    rfl
  · rw [if_neg hname] at hresp ⊢
    rw [hresp]
    rfl

/-- The name itself is no zone of the account; its parent is. -/
theorem zoneFound_account {fqdn rname : Str} (hname : normalizeName fqdn = fqdn)
    (hcandidates : suffixes (fqdn.splitOn '.') = [fqdn, zone]) (hne : fqdn ≠ zone) (hlower : lower (trimDots zone) = zone)
    (hvalid : validateZone zone = .ok ()) (hwithin : relativeName fqdn zone = .ok rname) :
    api.ZoneFound (account zone) config fqdn zone := by
  have hlookup (s : List Line) : wp (fun _ _ => True) ((recordServer (account zone)).env false) (lookupZone fqdn fqdn).run
      (fun r s' => s' = s ∧ r = .ok zone) s := by
    rw [lookupZone, hcandidates, wp_run_bind]
    simp only [firstSome, wp_run_bind]
    refine wp_mono (wp_fetchZone_account fqdn s) ?_
    rintro r s' ⟨rfl, rfl⟩
    simp only [if_neg hne, wp_run_bind]
    refine wp_mono (wp_fetchZone_account zone s') ?_
    rintro r s'' ⟨rfl, rfl⟩
    simp only [if_true, hlower, wp_run_bind, wp_run_except, hvalid, hwithin, wp_run_pure, and_self]
  have hresolve (s : List Line) : wp (fun _ _ => True) ((recordServer (account zone)).env false) (resolveZone config fqdn).run
      (fun r s' => s' = s ∧ r = .ok zone) s := by
    unfold resolveZone
    simp only [config, hname]
    refine ⟨trivial, fun found s₁ hfound => ?_⟩
    obtain ⟨rfl, rfl⟩ : found = none ∧ s₁ = s := hfound
    show wp _ _ (lookupZone fqdn fqdn >>= _).run _ s₁
    rw [wp_run_bind]
    refine wp_mono (hlookup s₁) ?_
    rintro r s' ⟨rfl, rfl⟩
    exact ⟨trivial, fun _ s'' h' => ⟨h'.2, rfl⟩⟩
  exact hresolve

end Infomaniak

section Pair

variable {R : Type} {hold : R → Bool} {x y : R} {r : Except DnsError Unit} {s' : List R}

theorem Op.Exactly.present_singleton (h : Op.present.Exactly hold [y] r s') (hy : hold y = false) :
    r = .ok () ∧ ∃ x, hold x = true ∧ s' = [y, x] := by
  simpa [Op.Exactly, hy] using h

theorem Op.Exactly.cleanup_pair (h : Op.cleanup.Exactly hold [y, x] r s') (hy : hold y = false) (hx : hold x = true) :
    r = .ok () ∧ s' = [y] := by
  simpa [Op.Exactly, hy, hx] using h

end Pair

/-! ## The six providers -/

abbrev OnePerValue.recordApi : OnePerValue → OneRecordApi
  | .bunny => Bunny.api
  | .cloudflare => Cloudflare.api
  | .digitalOcean => DigitalOcean.api
  | .infomaniak => Infomaniak.api
  | .ovh => Ovh.recordApi
  | .porkbun => Porkbun.recordApi

/-- **The contract of `DnsProvider`, for every provider that keeps one record for each value.** -/
theorem OnePerValue.sequential_contract (p : OnePerValue) : p.recordApi.Contract := by
  cases p with
  | bunny => exact Bunny.contract
  | cloudflare => exact Cloudflare.contract
  | digitalOcean => exact DigitalOcean.contract
  | infomaniak => exact Infomaniak.contract
  | ovh => exact Ovh.contract
  | porkbun => exact Porkbun.contract

open Infomaniak in
/-- The zone is the second candidate, and another value is there already: `present` adds one record, `cleanup` takes
it away. -/
theorem OnePerValue.sequential_contract_infomaniak :
    let zone := "a.org".toList
    let fqdn := "_acme-challenge.a.org".toList
    let other : Line := ⟨zone, 1, "_acme-challenge".toList, txt, "y".toList⟩
    let call (op : Op) : Infomaniak.api.Invocation := ⟨config, op, fqdn, "x".toList⟩
    ∃ t x t', (call .present).prog.Runs t (.ok ()) ∧
      Chain ((recordServer (account zone)).env false) t [other] [other, x] ∧ hold zone fqdn "x".toList x = true ∧
      (call .cleanup).prog.Runs t' (.ok ()) ∧ Chain ((recordServer (account zone)).env false) t' [other, x] [other] := by
  intro zone fqdn other call
  have hids : (recordServer (account zone)).UniqueIds [other] := by simp [RecordServer.UniqueIds]
  have hother : hold zone fqdn "x".toList other = false := by decide
  have hvalid : validateFqdn fqdn = .ok () := by decide
  have hvalue : validateAcmeValue "x".toList = .ok () := by decide
  have hwithin : relativeName fqdn zone = .ok "_acme-challenge".toList := by decide
  have hwithin' : relativeName (lower fqdn) zone = .ok "_acme-challenge".toList := by decide
  have hfound : Infomaniak.api.ZoneFound (account zone) config fqdn zone :=
    zoneFound_account (by decide) (by decide) (by decide) (by decide) (by decide) hwithin
  have hlisted (s : List Line) : Infomaniak.api.Listed (account zone) zone fqdn s := show 1 ≤ 100 by decide
  obtain ⟨t, r, s₁, hrun, hchain⟩ := exists_run account_answers (call .present).prog [other]
  have hpresent := (sequential_contract .infomaniak (account zone) [] [other] [other] hids (.nil _) (call .present) zone
    rfl).2 ⟨hvalid, hvalue, _, hwithin'⟩ hfound (hlisted _) t r s₁ hrun hchain
  obtain ⟨rfl, x, hx, rfl⟩ := hpresent.present_singleton hother
  obtain ⟨t', r, s₂, hrun', hchain'⟩ := exists_run account_answers (call .cleanup).prog [other, x]
  have hbefore : RunsAll ((recordServer (account zone)).env true) [((call .present).prog, .ok ())] [other] [other, x] :=
    .cons hrun (hchain.mono fun _ _ _ _ => env_faulty) (.nil _)
  have hcleanup := (sequential_contract .infomaniak (account zone) [(call .present, .ok ())] [other] [other, x] hids hbefore
    (call .cleanup) zone rfl).2 ⟨hvalid, rfl, _, hwithin'⟩ hfound (hlisted _) t' r s₂ hrun' hchain'
  obtain ⟨rfl, rfl⟩ := hcleanup.cleanup_pair hother hx
  exact ⟨t, x, t', hrun, hchain, hx, hrun', hchain'⟩

end Cheti
