import Cheti.RecordContract
/-!
# What OVH serves (`present` and `cleanup`, src/providers/ovh.rs:379-434)

The records that OVH creates and deletes are those of the zones as they are edited; `POST /refresh` publishes a zone,
and nothing else does. `env` is the API of `RecordContract` with the published zones beside it.

What a call promises of the records as they are edited is known from there. A call that returns `Ok` has published its
zone last or has changed nothing at all (`wp_settled`); in the second case it has published nothing either, although
an earlier call may have left changes that are still to be published.
-/

namespace Cheti.Ovh

open Fut

/-- The records of the zones as they are edited, and as they are served. -/
structure Zones where
  staged : List Line
  published : List Line

/-- The zone that is published by the call. A refresh that failed has had no effect. -/
def publishes : (c : Call Req) → Reply Req.Doc c → Option Str
  | .send (.refresh zone), .ok resp => if resp.status.isSuccess then some zone else none
  | _, _ => none

/-- `find` is what `find_zone` answers where it does not fail. -/
def lookups (find : Str → Except DnsError Str) : (c : Call Req) → Reply Req.Doc c → Prop
  | .findZone fqdn, r => r = find fqdn ∨ ∃ e, r = .error e
  | _, _ => True

/-- Of the zone that is published the records as they are edited are served from then on. -/
def Zones.serve (s : Zones) : Option Str → List Line
  | some zone => s.published.filter (·.zone ≠ zone) ++ s.staged.filter (·.zone = zone)
  | none => s.published

/-- Any request may fail; one that creates or deletes may have been carried out all the same. -/
def env (find : Str → Except DnsError Str) : Env (Call Req) (Reply Req.Doc) Zones := fun c r s s' =>
  (recordServer (lookups find)).env true c r s.staged s'.staged ∧ s'.published = s.serve (publishes c r)

variable {find : Str → Except DnsError Str} {s s' : Zones} {zone fqdn rname value : Str} {α β : Type}

/-- Only requests change anything. -/
theorem env_local {c : Call Req} {r : Reply Req.Doc c} (hc : ∀ q, c ≠ .send q) :
    env find c r s s' ↔ lookups find c r ∧ s' = s := by
  obtain ⟨staged, published⟩ := s
  obtain ⟨staged', published'⟩ := s'
  cases c with
  | send q => exact absurd rfl (hc q)
  | _ => simp [env, RecordServer.env, recordServer, publishes, Zones.serve, and_assoc]

/-- A request that only reads may be answered with what it shows. -/
theorem env_shows {q : Req} {shows : List Line → Response q.Doc → Prop} {resp : Response q.Doc}
    (hq : (recordServer (lookups find)).meaning q = .reads shows) (hsilent : publishes (.send q) (.ok resp) = none)
    (h : shows s.staged resp) : env find (.send q) (.ok resp) s s := by
  refine ⟨⟨trivial, nofun, ?_⟩, by rw [hsilent]; rfl⟩
  rw [hq]
  refine ⟨rfl, ?_⟩
  rintro _ ⟨rfl⟩
  exact h

/-! ## The records as they are edited -/

theorem chain_staged {t : List (Ev (Call Req) (Reply Req.Doc))} (h : Chain (env find) t s s') :
    Chain ((recordServer (lookups find)).env true) t s.staged s'.staged := by
  induction t generalizing s with
  | nil =>
    obtain rfl : s = s' := h
    rfl
  | cons e t ih =>
    obtain ⟨m, he, hrest⟩ := h
    exact ⟨m.staged, he.1, ih hrest⟩

theorem runsAll_staged {l : List (Fut Unit (Call Req) (Reply Req.Doc) α × α)} (h : RunsAll (env find) l s s') :
    RunsAll ((recordServer (lookups find)).env true) l s.staged s'.staged := by
  induction h with
  | nil s => exact .nil _
  | cons hrun hc hrest ih => exact .cons hrun (chain_staged hc) ih

/-! ## What is published -/

/-- The call publishes nothing, however it is answered. -/
def Silent (c : Call Req) : Prop := ∀ r, publishes c r = none

theorem silent_request {method : Method} {q : Req} {decode : Response q.Doc → Except DnsError α}
    (hq : ∀ zone, q ≠ .refresh zone) : Only Silent (request method q decode : M α) := by
  refine .request (fun r => ?_) fun d r => rfl
  cases q with
  | refresh zone => exact absurd rfl (hq zone)
  | _ => rfl

theorem wp_silent {p : Fut Unit (Call Req) (Reply Req.Doc) α} {Post : α → List Line → Prop}
    (hsilent : Always Silent (fun _ _ => True) p fun _ => True)
    (h : wp (fun _ _ => True) ((recordServer (lookups find)).env true) p Post s.staged) :
    wp (fun _ _ => True) (env find) p (fun a s' => Post a s'.staged ∧ s'.published = s.published) s := by
  induction p generalizing s with
  | done a => exact ⟨h, rfl⟩
  | await g c k ih =>
    refine ⟨trivial, fun r s₁ hr => ?_⟩
    have hkept : s₁.published = s.published := by rw [hr.2, hsilent.1 r, Zones.serve]
    rw [← hkept]
    exact ih r (hsilent.2 r _ trivial) (h.2 r _ hr.1)

/-- A part of a call that changes nothing and publishes nothing. -/
theorem wp_after {p : M α} {A : α → Prop} {f : α → M β} {Post : Except DnsError β → Zones → Prop} (hsilent : Only Silent p)
    (hp : Reads (recordServer (lookups find)) true p A)
    (hf : ∀ a, A a → wp (fun _ _ => True) (env find) (f a).run Post s) (herror : ∀ e, Post (.error e) s) :
    wp (fun _ _ => True) (env find) (p >>= f).run Post s := by
  rw [wp_run_bind]
  refine wp_mono (wp_silent hsilent (hp s.staged)) ?_
  rintro r ⟨staged, published⟩ ⟨⟨rfl, hr⟩, rfl⟩
  cases r with
  | error e => exact herror e
  | ok a => exact hf a (hr a rfl)

theorem reads_request {method : Method} {q : Req} {decode : Response q.Doc → Except DnsError α}
    {shows : List Line → Response q.Doc → Prop} (hq : (recordServer (lookups find)).meaning q = .reads shows) :
    Reads (recordServer (lookups find)) true (request method q decode : M α) fun _ => True :=
  fun _ => wp_mono (wp_reads hq) fun _ _ h => ⟨h.1, fun _ _ => trivial⟩

theorem silent_syncTime (self : OvhProvider) : Only Silent (syncTime self) := by
  unfold syncTime
  split
  · exact .pure ()
  · refine .bind (.attempt ?_) fun _ => .pure ()
    exact wp_sendFrom (fun _ => rfl) (fun d => ⟨fun _ => rfl, fun _ _ _ => rfl⟩) (fun _ _ _ _ => rfl)
      (fun _ _ _ => trivial) _ _

theorem reads_syncTime (self : OvhProvider) : Reads (recordServer (lookups find)) true (syncTime self) fun _ => True :=
  fun _ => wp_mono (wp_syncTime self) fun _ _ h => ⟨h.1, fun _ _ => trivial⟩

theorem silent_anyHolds (ids : List Nat) : Only Silent (anyHolds zone value ids) := by
  induction ids with
  | nil => exact .pure false
  | cons id rest ih =>
    refine (silent_request (q := .get zone id) nofun).bind fun record => ?_
    split
    · exact .pure true
    · exact ih

theorem reads_anyHolds (ids : List Nat) :
    Reads (recordServer (lookups find)) true (anyHolds zone value ids) fun _ => True := by
  induction ids with
  | nil => exact .pure trivial
  | cons id rest ih =>
    refine (reads_request rfl).bind fun record _ => ?_
    split
    · exact .pure trivial
    · exact ih

theorem silent_deleteMatching (ids : List Nat) (deletedAny : Bool) :
    Only Silent (deleteMatching zone value ids deletedAny) := by
  induction ids generalizing deletedAny with
  | nil => exact .pure deletedAny
  | cons id rest ih =>
    refine (silent_request (q := .get zone id) nofun).bind fun record => ?_
    split
    · exact (silent_request (q := .delete zone record.id) nofun).bind fun _ => ih true
    · exact ih deletedAny

/-- Where the flag is not set, nothing was deleted. -/
theorem wp_deleteMatching_flag (ids : List Nat) (deletedAny : Bool) (lines : List Line) :
    wp (fun _ _ => True) ((recordServer (lookups find)).env true) (deleteMatching zone value ids deletedAny).run
      (fun r lines' => r = .ok false → deletedAny = false ∧ lines' = lines) lines := by
  induction ids generalizing deletedAny lines with
  | nil =>
    intro hr
    cases hr
    exact ⟨rfl, rfl⟩
  | cons id rest ih =>
    rw [deleteMatching, wp_run_bind]
    refine wp_mono (reads_request rfl lines) ?_
    rintro r _ ⟨rfl, -⟩
    cases r with
    | error e => exact fun h => by cases h
    | ok record =>
      by_cases htarget : trimQuotes record.target = value
      · simp only [htarget, if_true]
        rw [wp_run_bind]
        refine wp_of_forall_runs fun t r lines₁ _ _ => ?_
        cases r with
        | error e => exact fun h => by cases h
        | ok u => exact wp_mono (ih true lines₁) fun r _ h hr => absurd (h hr).1 (by simp)
      · simp only [htarget, if_false]
        exact ih deletedAny _

/-- What is served of the zone is what was edited. -/
def Zones.Fresh (s : Zones) (zone : Str) : Prop :=
  s.published.filter (·.zone = zone) = s.staged.filter (·.zone = zone)

theorem wp_refreshZone_fresh : wp (fun _ _ => True) (env find) (refreshZone zone).run
    (fun r s' => r = .ok () → s'.Fresh zone) s := by
  refine wp_request_inv (I := fun _ => True) trivial (fun s₁ _ => ⟨trivial, fun r s' h => ⟨fun _ _ => nofun, ?_⟩⟩)
    fun _ _ _ => ⟨trivial, fun _ _ _ => trivial⟩
  rintro resp rfl
  refine ⟨fun hok => ?_, fun _ => trivial⟩
  obtain ⟨⟨-, -, hstaged, -⟩, hpublished⟩ := h
  have hsucc : resp.status.isSuccess = true := check_eq_ok.1 hok
  rw [Zones.Fresh, hpublished, hstaged, publishes, if_pos hsucc, Zones.serve]
  simp [List.filter_filter]

/-- A call that has returned `Ok` has published its zone, or changed nothing. -/
def Settled (zone : Str) (s : Zones) (r : Except DnsError Unit) (s' : Zones) : Prop :=
  r = .ok () → s' = s ∨ s'.Fresh zone

theorem settled_error (e : DnsError) : Settled zone s (.error e) s' := fun h => by cases h

theorem wp_settled_locked (self : OvhProvider) (op : Op) :
    wp (fun _ _ => True) (env find) (recordApi.locked self op zone fqdn rname value).run (Settled zone s) s := by
  cases op with
  | present =>
    refine wp_after (silent_syncTime self) (reads_syncTime self) (fun _ _ => ?_) settled_error
    refine wp_after (silent_request nofun) (reads_request rfl) (fun ids _ => ?_) settled_error
    refine wp_after (silent_anyHolds ids) (reads_anyHolds ids) (fun there _ => ?_) settled_error
    cases there with
    | true => exact fun _ => Or.inl rfl
    | false =>
      simp only [Bool.false_eq_true, if_false]
      rw [wp_run_bind]
      refine wp_of_forall_runs fun t r s₁ _ _ => ?_
      cases r with
      | error e => exact settled_error e
      | ok u => exact wp_mono wp_refreshZone_fresh fun r s' h hr => Or.inr (h hr)
  | cleanup =>
    refine wp_after (silent_syncTime self) (reads_syncTime self) (fun _ _ => ?_) settled_error
    refine wp_after (silent_request nofun) (reads_request rfl) (fun ids _ => ?_) settled_error
    rw [wp_run_bind]
    refine wp_mono (wp_silent (silent_deleteMatching ids false) (wp_deleteMatching_flag ids false s.staged)) ?_
    rintro r ⟨staged, published⟩ ⟨hflag, rfl⟩
    cases r with
    | error e => exact settled_error e
    | ok deletedAny =>
      cases deletedAny with
      | false =>
        obtain ⟨-, rfl⟩ := hflag rfl
        exact fun _ => Or.inl rfl
      | true => exact wp_mono wp_refreshZone_fresh fun r s' h hr => Or.inr (h hr)

/-! ## Calls -/

/-- The zone that `resolve_zone` returns, where the lookup does not fail. -/
def ZoneOf (find : Str → Except DnsError Str) (cfg : OvhConfig) (fqdn zone : Str) : Prop :=
  cfg.zoneOverride = some zone ∨ cfg.zoneOverride = none ∧ find fqdn = .ok zone ∧ validateFqdn zone = .ok ()

theorem silent_resolveZone (cfg : OvhConfig) (fqdn : Str) : Only Silent (resolveZone cfg fqdn) := by
  unfold resolveZone
  split
  · exact .pure _
  · exact .foundZone fun _ => rfl

theorem zoneIs_of_zoneOf {self : OvhProvider} (h : ZoneOf find self.config (lower fqdn) zone) :
    recordApi.ZoneIs (lookups find) self fqdn zone := by
  show Reads (recordServer (lookups find)) true (resolveZone self.config (lower fqdn)) (· = zone)
  unfold resolveZone
  rcases h with h | ⟨h, hfind, -⟩
  · rw [h]
    exact .pure rfl
  · rw [h]
    refine (Reads.findZone _).bind fun z hz => (Reads.lift _).bind fun _ _ => .pure ?_
    rcases hz with hz | ⟨e, he⟩
    · rw [hfind] at hz
      exact Except.ok.inj hz
    · cases he

/-- **A call that has returned `Ok` has published its zone, or changed nothing.** -/
theorem wp_settled {c : recordApi.Invocation} (hz : ZoneOf find c.cfg.config (lower c.fqdn) zone) :
    wp (fun _ _ => True) (env find) c.prog (Settled zone s) s := by
  rw [OneRecordApi.Invocation.prog, recordApi.run_eq]
  refine wp_after (.lift _) (.lift _) (fun _ _ => ?_) settled_error
  refine wp_after (.lift _) (.lift _) (fun _ _ => ?_) settled_error
  refine wp_after (silent_resolveZone _ _) (zoneIs_of_zoneOf hz) (fun z hz => ?_) settled_error
  subst hz
  refine wp_after (.lift _) (.lift _) (fun name _ => ?_) settled_error
  refine wp_withLock.2 ⟨trivial, fun _ s₁ h₁ => ?_⟩
  obtain rfl := ((env_local (c := .lock _ _) fun _ h => by cases h).1 h₁).2
  refine wp_mono (wp_settled_locked c.cfg c.op) fun r s₂ h => ⟨trivial, fun _ s₃ h₃ => ?_⟩
  obtain rfl := ((env_local (c := .unlock) fun _ h => by cases h).1 h₃).2
  exact h

/-! ## Runs that find nothing to do -/

def answer {D : Type} (doc : D) : Response D := ⟨⟨200, ""⟩, none, none, none, [], .ok doc⟩

theorem may_syncTime (self : OvhProvider) : may (env find) (syncTime self).run (fun r s' => r = .ok () ∧ s' = s) s := by
  unfold syncTime
  split
  · exact ⟨rfl, rfl⟩
  · have hlift : (ExceptT.lift (sendFrom .get .time 1 (maxAttempts - 1)) : M _).run =
        (sendFrom .get .time 1 (maxAttempts - 1)).bind fun a => .done (.ok a) := rfl
    rw [may_run_bind, hlift, may_bind, sendFrom.eq_def, may_await]
    have hfinal : ¬ Retryable .get (answer (0 : Int)) := by simp [Retryable, answer]
    refine ⟨.ok (answer 0), s, env_shows rfl rfl trivial, ?_⟩
    simp only [maxAttempts, retryDelay_eq_none hfinal]
    exact ⟨rfl, rfl⟩

theorem may_getRecord {l : Line} (hl : l ∈ s.staged) : may (env find) (getRecord l.zone l.id).run
    (fun r s' => r = .ok ⟨l.id, l.target⟩ ∧ s' = s) s := by
  have hshown : env find (.send (.get l.zone l.id)) (.ok (answer ⟨l.id, l.target⟩)) s s := by
    refine env_shows rfl rfl ?_
    rintro doc - ⟨rfl⟩
    exact ⟨l, hl, rfl, rfl, rfl⟩
  exact may_request hshown (by simp [Retryable, answer]) ⟨rfl, rfl⟩

/-- The records are read until one holds the value. -/
theorem may_anyHolds (ids : List Nat) (hids : ∀ id ∈ ids, ∃ l ∈ s.staged, l.zone = zone ∧ l.id = id)
    (hheld : ∃ l ∈ s.staged, l.zone = zone ∧ l.id ∈ ids ∧ trimQuotes l.target = value) :
    may (env find) (anyHolds zone value ids).run (fun r s' => r = .ok true ∧ s' = s) s := by
  induction ids with
  | nil => simp at hheld
  | cons id rest ih =>
    by_cases hfirst : ∃ l ∈ s.staged, l.zone = zone ∧ l.id = id ∧ trimQuotes l.target = value
    · obtain ⟨l, hl, rfl, rfl, htarget⟩ := hfirst
      refine may_run_bind.2 (may_mono (may_getRecord hl) ?_)
      rintro r s' ⟨rfl, rfl⟩
      simp only [htarget, if_true]
      exact ⟨rfl, rfl⟩
    · obtain ⟨l, hl, rfl, rfl⟩ := hids id List.mem_cons_self
      refine may_run_bind.2 (may_mono (may_getRecord hl) ?_)
      rintro r s' ⟨rfl, rfl⟩
      have htarget : trimQuotes l.target ≠ value := fun h => hfirst ⟨l, hl, rfl, rfl, h⟩
      simp only [htarget, if_false]
      refine ih (fun id hid => hids id (List.mem_cons_of_mem _ hid)) ?_
      obtain ⟨x, hx, hz, hid, hxt⟩ := hheld
      rcases List.mem_cons.1 hid with hid | hid
      · exact absurd ⟨x, hx, hz, hid, hxt⟩ hfirst
      · exact ⟨x, hx, hz, hid, hxt⟩

/-- None of the records holds the value. -/
theorem may_deleteMatching (ids : List Nat)
    (hids : ∀ id ∈ ids, ∃ l ∈ s.staged, l.zone = zone ∧ l.id = id ∧ trimQuotes l.target ≠ value) :
    may (env find) (deleteMatching zone value ids false).run (fun r s' => r = .ok false ∧ s' = s) s := by
  induction ids with
  | nil => exact ⟨rfl, rfl⟩
  | cons id rest ih =>
    obtain ⟨l, hl, rfl, rfl, htarget⟩ := hids id List.mem_cons_self
    refine may_run_bind.2 (may_mono (may_getRecord hl) ?_)
    rintro r s' ⟨rfl, rfl⟩
    simp only [htarget, if_false]
    exact ih fun id hid => hids id (List.mem_cons_of_mem _ hid)

theorem may_listRecords (hf : validateFqdn fqdn = .ok ()) (hrname : relativeName (lower fqdn) zone = .ok rname) :
    may (env find) (listRecords zone rname).run
      (fun r s' => r = .ok ((s.staged.filter (Line.isTxtAt zone fqdn)).map (·.id)) ∧ s' = s) s := by
  have hshown : env find (.send (.list zone rname))
      (.ok (answer ((s.staged.filter (Line.isTxtAt zone fqdn)).map (·.id)))) s s := by
    refine env_shows rfl rfl ?_
    rintro ids - ⟨rfl⟩
    refine .of_eq (congrArg _ (List.filter_congr fun l _ => ?_))
    rw [Line.isTxtAt, decide_eq_decide, recordAt_eq_iff hf hrname]
  exact may_request hshown (by simp [Retryable, answer]) ⟨rfl, rfl⟩

/-- Whether the call is to leave a record that holds the value. -/
def wants : Op → Bool
  | .present => true
  | .cleanup => false

/-- Where the zone as it is edited is as the call wants it, the call may return `Ok` at once. -/
theorem may_locked (self : OvhProvider) {op : Op} (hf : validateFqdn fqdn = .ok ())
    (hrname : relativeName (lower fqdn) zone = .ok rname) (hstaged : s.staged.any (hold zone fqdn value) = wants op) :
    may (env find) (recordApi.locked self op zone fqdn rname value).run (fun r s' => r = .ok () ∧ s' = s) s := by
  cases op with
  | present =>
    refine may_run_bind.2 (may_mono (may_syncTime self) ?_)
    rintro r s₁ ⟨rfl, rfl⟩
    refine may_run_bind.2 (may_mono (may_listRecords hf hrname) ?_)
    rintro r s₁ ⟨rfl, rfl⟩
    refine may_run_bind.2 (may_mono (may_anyHolds _ ?_ ?_) ?_)
    · intro id hid
      obtain ⟨l, hl, rfl⟩ := List.mem_map.1 hid
      obtain ⟨hl, hat⟩ := List.mem_filter.1 hl
      exact ⟨l, hl, zone_of_isTxtAt hat, rfl⟩
    · obtain ⟨l, hl, hheld⟩ := List.any_eq_true.1 hstaged
      obtain ⟨hat, htarget⟩ := hold_iff.1 hheld
      exact ⟨l, hl, zone_of_isTxtAt hat, List.mem_map_of_mem (List.mem_filter.2 ⟨hl, hat⟩), htarget⟩
    · rintro r s₁ ⟨rfl, rfl⟩
      exact ⟨rfl, rfl⟩
  | cleanup =>
    refine may_run_bind.2 (may_mono (may_syncTime self) ?_)
    rintro r s₁ ⟨rfl, rfl⟩
    refine may_run_bind.2 (may_mono (may_listRecords hf hrname) ?_)
    rintro r s₁ ⟨rfl, rfl⟩
    refine may_run_bind.2 (may_mono (may_deleteMatching _ ?_) ?_)
    · intro id hid
      obtain ⟨l, hl, rfl⟩ := List.mem_map.1 hid
      obtain ⟨hl, hat⟩ := List.mem_filter.1 hl
      exact ⟨l, hl, zone_of_isTxtAt hat, rfl, fun htarget => List.any_eq_false.1 hstaged l hl (hold_iff.2 ⟨hat, htarget⟩)⟩
    · rintro r s₁ ⟨rfl, rfl⟩
      exact ⟨rfl, rfl⟩

/-- A call that is not refused may get to its zone. -/
theorem may_prog {c : recordApi.Invocation} (hc : c.Accepted zone) (hz : ZoneOf find c.cfg.config (lower c.fqdn) zone)
    {Post : Except DnsError Unit → Zones → Prop}
    (h : ∀ rname, relativeName (lower c.fqdn) zone = .ok rname →
      may (env find) (recordApi.locked c.cfg c.op zone c.fqdn rname c.value).run Post s) :
    may (env find) c.prog Post s := by
  obtain ⟨rname, hrname⟩ := hc.name
  rw [OneRecordApi.Invocation.prog, recordApi.run_eq]
  refine may_run_except_bind hc.fqdn (may_run_except_bind hc.value (may_run_bind.2 ?_))
  have hzone : may (env find) (resolveZone c.cfg.config (lower c.fqdn)).run (fun r s' => r = .ok zone ∧ s' = s) s := by
    unfold resolveZone
    rcases hz with hz | ⟨hz, hfind, hvalid⟩
    · rw [hz]
      exact ⟨rfl, rfl⟩
    · rw [hz]
      refine may_run_bind.2 ⟨.ok zone, s, (env_local (c := .findZone _) fun _ h => by cases h).2 ⟨Or.inl hfind.symm, rfl⟩, ?_⟩
      exact may_run_except_bind hvalid ⟨rfl, rfl⟩
  refine may_mono hzone ?_
  rintro r s' ⟨rfl, rfl⟩
  refine may_run_except_bind hrname (may_withLock ((env_local (c := .lock _ _) fun _ h => by cases h).2 ⟨trivial, rfl⟩) ?_)
  exact may_mono (h rname hrname) fun r s' hpost => ⟨s', (env_local (c := .unlock) fun _ h => by cases h).2 ⟨trivial, rfl⟩, hpost⟩

theorem any_published (h : s.Fresh zone) : s.published.any (hold zone fqdn value) = s.staged.any (hold zone fqdn value) := by
  have hzone (lines : List Line) :
      lines.any (hold zone fqdn value) = (lines.filter (·.zone = zone)).any (hold zone fqdn value) := by
    rw [Bool.eq_iff_iff, List.any_eq_true, List.any_eq_true]
    simp only [List.mem_filter, decide_eq_true_eq]
    exact ⟨fun ⟨l, hl, hheld⟩ => ⟨l, ⟨hl, zone_of_isTxtAt (hold_iff.1 hheld).1⟩, hheld⟩, fun ⟨l, hl, hheld⟩ => ⟨l, hl.1, hheld⟩⟩
  rw [hzone s.published, h, ← hzone]

theorem any_of_promises {srv : RecordServer Req Req.Doc Line (Str × Nat)} {op : Op} {lines lines' : List Line}
    (h : op.Promises srv (hold zone fqdn value) lines (.ok ()) lines') :
    lines'.any (hold zone fqdn value) = wants op := by
  cases op with
  | present =>
    obtain ⟨l, hl, hheld⟩ := h.there rfl
    exact List.any_eq_true.2 ⟨l, hl, hheld⟩
  | cleanup =>
    refine List.any_eq_false.2 fun l hl => ?_
    simp [h.gone rfl l hl]

/-- **When `Ok` means published.** After any calls, in which requests may have failed, a call that is not
refused leaves the published zone right in every run in which it returns `Ok`, iff it is right already
where the zone as it is being edited needs no change. -/
theorem published_iff {s₀ s : Zones} (hids : (recordServer (lookups find)).UniqueIds s₀.staged)
    {before : List (recordApi.Invocation × Except DnsError Unit)}
    (hbefore : RunsAll (env find) (before.map fun c => (c.1.prog, c.2)) s₀ s) {c : recordApi.Invocation} {z : Str}
    (hc : c.Accepted z) (hz : ZoneOf find c.cfg.config (lower c.fqdn) z) :
    (∀ t s', c.prog.Runs t (.ok ()) → Chain (env find) t s s' →
      s'.published.any (hold z c.fqdn c.value) = wants c.op) ↔
    (s.staged.any (hold z c.fqdn c.value) = wants c.op → s.published.any (hold z c.fqdn c.value) = wants c.op) := by
  constructor
  · intro h hstaged
    have hmay := may_prog (s := s) hc hz fun rname hrname => may_locked c.cfg hc.fqdn hrname hstaged
    obtain ⟨t, r, s', hrun, hchain, rfl, rfl⟩ := hmay.exists_run
    exact h t _ hrun hchain
  · intro h t s' hrun hchain
    have hpromise := (contract (lookups find) before s₀.staged s.staged hids (runsAll_staged hbefore) c z trivial).1
      (zoneIs_of_zoneOf hz) t _ s'.staged hrun (chain_staged hchain)
    have hstaged : s'.staged.any (hold z c.fqdn c.value) = wants c.op := any_of_promises hpromise
    rcases (wp_settled hz).of_runs hrun hchain rfl with rfl | hfresh
    · exact h hstaged
    · rw [any_published hfresh]
      exact hstaged

/-- `present` of `x` in a zone without records. -/
def presentX : recordApi.Invocation :=
  ⟨⟨⟨some "a.org".toList, 60⟩, some 0⟩, .present, "_acme-challenge.a.org".toList, "x".toList⟩

def noRecords : Zones := ⟨[], []⟩

def noZone (fqdn : Str) : Except DnsError Str := .error (.zoneNotFound fqdn)

theorem noRecords_ids : (recordServer (lookups noZone)).UniqueIds noRecords.staged := List.nodup_nil

theorem presentX_name : relativeName (lower presentX.fqdn) "a.org".toList = .ok "_acme-challenge".toList := by decide

theorem presentX_accepted : presentX.Accepted "a.org".toList := ⟨by decide, by decide, _, presentX_name⟩

theorem presentX_zone : ZoneOf noZone presentX.cfg.config (lower presentX.fqdn) "a.org".toList := Or.inl rfl

/-- The zone with a record that is not published. -/
def stagedX : Zones := ⟨[⟨"a.org".toList, 0, txt, "_acme-challenge".toList, "x".toList⟩], []⟩

/-- The record is created; then the refresh is answered with `status`. -/
theorem may_presentX (status : StatusCode) (hfinal : status.asU16 ≠ 429 ∧ status.asU16 ≠ 503) :
    may (env noZone) presentX.prog (fun r s' => (status.isSuccess = true → r = .ok ()) ∧
      (status.isSuccess = false → (∃ e, r = .error e) ∧ s' = stagedX)) noRecords := by
  let refreshed : Response Unit := ⟨status, none, none, none, [], .ok ()⟩
  refine may_prog presentX_accepted presentX_zone fun rname hrname => ?_
  obtain rfl : rname = "_acme-challenge".toList := Except.ok.inj (hrname.symm.trans presentX_name)
  have hcreate : env noZone (.send (.create "a.org".toList "_acme-challenge".toList "x".toList 60)) (.ok (answer ()))
      noRecords stagedX :=
    ⟨⟨trivial, nofun, Or.inl ⟨_, ⟨rfl, rfl, rfl, rfl⟩, nofun, rfl⟩⟩, rfl⟩
  have hrefresh : env noZone (.send (.refresh "a.org".toList)) (.ok refreshed) stagedX
      ⟨stagedX.staged, stagedX.serve (publishes (.send (.refresh "a.org".toList)) (.ok refreshed))⟩ :=
    ⟨⟨trivial, nofun, rfl, fun _ _ => trivial⟩, rfl⟩
  refine may_run_bind.2 (may_mono (may_syncTime presentX.cfg) ?_)
  rintro r s' ⟨rfl, rfl⟩
  refine may_run_bind.2 (may_mono (may_listRecords presentX_accepted.fqdn presentX_name) ?_)
  rintro r s' ⟨rfl, rfl⟩
  refine may_run_bind.2 (may_run_bind.2 (may_request hcreate (by simp [Retryable, answer]) ?_))
  refine may_request hrefresh (by simp [Retryable, refreshed, hfinal]) ⟨fun hsucc => ?_, fun hfail => ?_⟩
  · exact check_ok hsucc
  · refine ⟨⟨_, check_error hfail⟩, ?_⟩
    simp [publishes, refreshed, hfail, Zones.serve]

theorem published_iff_presentX : ∃ t s', presentX.prog.Runs t (.ok ()) ∧ Chain (env noZone) t noRecords s' ∧
    s'.published.any (hold "a.org".toList presentX.fqdn presentX.value) = true := by
  obtain ⟨t, r, s', hrun, hchain, hok, -⟩ := (may_presentX ⟨200, ""⟩ (by decide)).exists_run
  obtain rfl := hok rfl
  have hbefore : RunsAll (env noZone)
      (([] : List (recordApi.Invocation × Except DnsError Unit)).map fun c => (c.1.prog, c.2)) noRecords noRecords := .nil _
  exact ⟨t, s', hrun, hchain,
    (published_iff noRecords_ids hbefore presentX_accepted presentX_zone).2 (fun h => by cases h) t s' hrun hchain⟩

/-- **A retry that hides a failed refresh.** `present` fails because the zone cannot be refreshed; called
again it finds the record and returns `Ok`, and the value is still not published. -/
theorem retry_not_published : ∃ e s, RunsAll (env noZone)
      [(presentX.prog, .error e), (presentX.prog, .ok ())] noRecords s ∧
    s.published.any (hold "a.org".toList presentX.fqdn presentX.value) = false := by
  obtain ⟨t, r, s', hrun, hchain, -, hfail⟩ := (may_presentX ⟨500, ""⟩ (by decide)).exists_run
  obtain ⟨⟨e, rfl⟩, rfl⟩ := hfail rfl
  have hstaged : stagedX.staged.any (hold "a.org".toList presentX.fqdn presentX.value) = true := by decide
  have hagain := may_prog (s := stagedX) presentX_accepted presentX_zone fun rname hrname =>
    may_locked presentX.cfg presentX_accepted.fqdn hrname hstaged
  obtain ⟨t', r, s', hrun', hchain', rfl, rfl⟩ := hagain.exists_run
  exact ⟨e, stagedX, .cons hrun hchain (.cons hrun' hchain' (.nil _)), rfl⟩

end Cheti.Ovh
