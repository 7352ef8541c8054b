import Cheti.Providers.Cloudflare
import Cheti.Providers.Scaleway
import Cheti.Records
/-!
# Listings of one page

Cloudflare and Scaleway read the TXT records of a name with one request for a page of a hundred. Both say
that a couple of values at most share a name; neither looks at whether the page was all.

A page of more records than fit it leaves some out, and any of them (`exists_page_without`). So what the
two calls promise depends on how many records there are: Cloudflare overlooks a record that `cleanup` is to
delete, Scaleway writes back a set without the records it has not seen.
-/

namespace Cheti

open Fut

/-! ## Pages -/

section Pages

variable {α : Type} {size : Nat} {records page : List α}

/-- What a listing of at most `size` records shows, in any order. -/
structure PageOf (size : Nat) (records page : List α) : Prop where
  shown : page.Subperm records
  length : page.length = min size records.length

theorem PageOf.perm (h : PageOf size records page) (hfit : records.length ≤ size) : page.Perm records :=
  h.shown.perm_of_length_le (by rw [h.length]; omega)

theorem pageOf_self (h : records.length ≤ size) : PageOf size records records := ⟨.refl _, by omega⟩

theorem exists_page_without {x : α} (hx : x ∈ records) (hmore : size < records.length) :
    ∃ page, PageOf size records page ∧ (x :: page).Subperm records := by
  obtain ⟨a, b, rfl⟩ := List.append_of_mem hx
  have hsub : (x :: (a ++ b).take size).Subperm (a ++ x :: b) :=
    ((List.take_sublist size (a ++ b)).cons_cons x).subperm.trans List.perm_middle.symm.subperm
  refine ⟨(a ++ b).take size, ⟨(List.sublist_cons_self x _).subperm.trans hsub, ?_⟩, hsub⟩
  simp only [List.length_take, List.length_append, List.length_cons] at hmore ⊢
  omega

/-- A page can show one record and leave out another. -/
theorem exists_page_between {x y : α} (hxy : [y, x].Subperm records) (hsize : 0 < size) (hmore : size < records.length) :
    ∃ page, PageOf size records page ∧ x ∈ page ∧ (y :: page).Subperm records := by
  obtain ⟨l, hl, hin⟩ := hxy
  obtain ⟨rest, hrest⟩ := hin.exists_perm_append
  have hall : records.Perm (y :: x :: rest) := hrest.trans (hl.append_right rest)
  have hlen := hall.length_eq
  have hsub : (y :: x :: rest.take (size - 1)).Subperm records := by
    refine List.Subperm.trans ?_ hall.symm.subperm
    exact (((List.take_sublist (size - 1) rest).cons_cons x).cons_cons y).subperm
  refine ⟨x :: rest.take (size - 1), ⟨(List.sublist_cons_self y _).subperm.trans hsub, ?_⟩, by simp, hsub⟩
  simp only [List.length_cons, List.length_take] at hlen ⊢
  omega

end Pages

/-! ## What the two calls promise -/

section Promise

variable {Q : Type} {B : Q → Type} {R : Type}

/-- If the call returns `Ok`, no record holds the value. -/
def LeavesNone (H : Env (Call Q) (Reply B) (List R)) (hold : R → Bool) (p : Prog Q B Unit) (records : List R) : Prop :=
  ∀ t s', p.run.Runs t (.ok ()) → Chain H t records s' → ∀ x ∈ s', hold x = false

/-- However the call ends, the records that do not hold the value are there as before. -/
def KeepsOthers (H : Env (Call Q) (Reply B) (List R)) (hold : R → Bool) (p : Prog Q B Unit) (records : List R) : Prop :=
  ∀ t r s', p.run.Runs t r → Chain H t records s' → (records.filter (!hold ·)).Subperm s'

end Promise

/-! ## Cloudflare -/

namespace Cloudflare

/-- The `per_page` of the listing. -/
def perPage : Nat := 100

def holds (value : Str) (r : CfDnsRecord) : Bool := trimQuotes r.content = value

/-- The TXT records of one name, in the zone with this id. The zone is the one that the name is found in. -/
def nameServer (zoneId name : Str) : RecordServer Req Req.Doc CfDnsRecord Str where
  ident := CfDnsRecord.id
  meaning
    | .zones _ => .reads fun _ resp => ∀ body zones, resp.body = .ok body → body.result = some zones →
        ∀ z ∈ zones, z.id = zoneId
    | .list z n => .reads fun records resp => z = zoneId → n = name → resp.status.isSuccess = true →
        ∀ body page, resp.body = .ok body → body.result = some page → PageOf perPage records page
    | .create z body => if z = zoneId ∧ body.name = name then .creates fun r => trimQuotes r.content = trimQuotes body.content
        else .reads fun _ _ => True
    | .delete z id => if z = zoneId then .deletes id else .reads fun _ _ => True
  confirms
    | .delete _ _, resp => (resp.status.isSuccess || resp.status.asU16 == 404) = true
    | .create _ _, resp => resp.status.isSuccess = true ∧ ∃ body r, resp.body = .ok body ∧ body.success = true ∧
        body.result = some r
    | .zones _, _ | .list _ _, _ => True
  answers
    | .cacheGet _, found => ∀ id, found = some id → id = zoneId
    | _, _ => True

variable {zoneId name value : Str} {faulty : Bool} {s : List CfDnsRecord}

theorem reads_resolveZoneName (cfg : CloudflareConfig) (fqdn : Str) :
    Reads (nameServer zoneId name) faulty (resolveZoneName cfg fqdn) fun _ => True := by
  unfold resolveZoneName
  split
  · exact (Reads.lift _).bind fun _ _ => .pure trivial
  · exact (Reads.findZone _).bind fun _ _ => (Reads.lift _).bind fun _ _ => .pure trivial

theorem reads_lookupZoneId (zoneName : Str) :
    Reads (nameServer zoneId name) faulty (lookupZoneId zoneName) (· = zoneId) := by
  intro s
  refine wp_mono (wp_reads rfl) ?_
  rintro r s' ⟨rfl, hr⟩
  refine ⟨rfl, fun id hid => ?_⟩
  obtain ⟨resp, hshows, hdecode⟩ := hr id hid
  simp only [bind_eq_ok, check_eq_ok, Response.json_eq_ok, CfEnvelope.intoResult_ok, okOr_eq_ok] at hdecode
  obtain ⟨-, -, body, hbody, zones, ⟨-, hzones⟩, zone, hfind, hzone⟩ := hdecode
  cases hzone
  exact hshows body zones hbody hzones zone (List.mem_of_find?_eq_some hfind)

/-- The zone is the one that the name is found in. -/
theorem reads_resolveZoneId {cfg : CloudflareConfig} (hcfg : ∀ id, cfg.zoneOverride.bind ZoneOverride.id = some id → id = zoneId)
    (zoneName : Str) : Reads (nameServer zoneId name) faulty (resolveZoneId cfg zoneName) (· = zoneId) := by
  unfold resolveZoneId
  split
  · rename_i id hid
    exact .pure (hcfg id hid)
  · exact (reads_lookupZoneId zoneName).cached fun z hz => hz z rfl

theorem wp_listMatchingRecords {fqdn : Str} (hname : trimDots fqdn = name) :
    wp (fun _ _ => True) ((nameServer zoneId name).env faulty) (listMatchingRecords zoneId fqdn).run (fun r s' =>
      s' = s ∧ ∀ page, r = .ok page → PageOf perPage s page) s := by
  refine wp_mono (wp_reads rfl) ?_
  rintro r s' ⟨rfl, hr⟩
  refine ⟨rfl, fun page hpage => ?_⟩
  obtain ⟨resp, hshows, hdecode⟩ := hr page hpage
  simp only [bind_eq_ok, check_eq_ok, Response.json_eq_ok, CfEnvelope.intoResult_ok] at hdecode
  obtain ⟨-, hsucc, body, hbody, -, hresult⟩ := hdecode
  exact hshows rfl hname hsucc body page hbody hresult

theorem wp_createRecord {cfg : CloudflareConfig} {fqdn : Str} (hname : trimDots fqdn = name)
    (hvalue : validateAcmeValue value = .ok ()) (hids : (nameServer zoneId name).UniqueIds s) :
    wp (fun _ _ => True) ((nameServer zoneId name).env faulty) (createRecord cfg zoneId fqdn value).run (fun _ s' =>
      Untouched (nameServer zoneId name) (holds value) s s') s := by
  have hmeaning : (nameServer zoneId name).meaning (.create zoneId ⟨txt, trimDots fqdn, quote value, cfg.ttl⟩) =
      .creates fun r => trimQuotes r.content = trimQuotes (quote value) := by simp [nameServer, hname]
  have hmakes : ∀ r : CfDnsRecord, trimQuotes r.content = trimQuotes (quote value) → holds value r = true := by
    intro r hr
    simpa [holds, trimQuotes_quote, trimQuotes_of_acme hvalue] using hr
  refine wp_mono (wp_creates hmeaning hmakes (fun resp => ?_) hids) fun r s' ⟨⟨added, hadded, _⟩, _, _⟩ => hadded.untouched
  simp only [bind_eq_ok, check_eq_ok, Response.json_eq_ok, CfEnvelope.intoResult_ok, pure_eq_ok, nameServer]
  grind

theorem deletes_deleteRecord :
    Deletes (nameServer zoneId name) faulty (fun r => deleteRecord zoneId r.id) CfDnsRecord.id := by
  intro r s
  have hmeaning : (nameServer zoneId name).meaning (.delete zoneId r.id) = .deletes r.id := by simp [nameServer]
  exact wp_deletes hmeaning fun _ => exists_check_eq_ok

section Calls

variable {cfg : CloudflareConfig} {fqdn : Str}
  (hcfg : ∀ id, cfg.zoneOverride.bind ZoneOverride.id = some id → id = zoneId)
include hcfg

/-- A `present` never touches another value, whatever the page showed. -/
theorem wp_present_untouched (hids : (nameServer zoneId (trimDots (lower fqdn))).UniqueIds s) :
    wp (fun _ _ => True) ((nameServer zoneId (trimDots (lower fqdn))).env faulty) (present cfg fqdn value).run
      (fun _ s' => Untouched (nameServer zoneId (trimDots (lower fqdn))) (holds value) s s') s := by
  refine (Reads.lift _).before (fun _ _ => (Reads.lift _).before (fun _ hvalue => ?_) ?_) ?_ <;> try exact fun _ => .refl hids
  refine (reads_resolveZoneName cfg _).before (fun zoneName _ => ?_) fun _ => .refl hids
  refine (reads_resolveZoneId hcfg zoneName).before (fun id hid => ?_) fun _ => .refl hids
  subst hid
  refine wp_locked ?_
  unfold presentLocked
  rw [wp_run_bind]
  refine wp_mono (wp_listMatchingRecords rfl) ?_
  rintro r s' ⟨rfl, -⟩
  cases r with
  | error e => exact .refl hids
  | ok page =>
    simp only
    split
    · exact .refl hids
    · exact wp_createRecord rfl hvalue hids

/-- A `cleanup` deletes those of the page that hold the value. -/
theorem wp_cleanup_page (hids : (nameServer zoneId (trimDots (lower fqdn))).UniqueIds s) :
    wp (fun _ _ => True) ((nameServer zoneId (trimDots (lower fqdn))).env faulty) (cleanup cfg fqdn value).run
      (fun r s' => Untouched (nameServer zoneId (trimDots (lower fqdn))) (holds value) s s' ∧ s'.Sublist s ∧
        (r = .ok () → ∃ page, PageOf perPage s page ∧ ∀ x ∈ s', x.id ∉ (page.filter (holds value)).map CfDnsRecord.id)) s := by
  have herror : ∀ e, Untouched (nameServer zoneId (trimDots (lower fqdn))) (holds value) s s ∧ s.Sublist s ∧
      ((.error e : Except DnsError Unit) = .ok () → ∃ page, PageOf perPage s page ∧
        ∀ x ∈ s, x.id ∉ (page.filter (holds value)).map CfDnsRecord.id) := fun e => ⟨.refl hids, .refl _, nofun⟩
  refine (Reads.lift _).before (fun _ _ => ?_) herror
  refine (reads_resolveZoneName cfg _).before (fun zoneName _ => ?_) herror
  refine (reads_resolveZoneId hcfg zoneName).before (fun id hid => ?_) herror
  subst hid
  let listed ids := ∃ page, PageOf perPage s page ∧ ids = (page.filter (holds value)).map CfDnsRecord.id
  have hlist : wp (fun _ _ => True) ((nameServer id (trimDots (lower fqdn))).env faulty)
      (listMatchingRecords id (lower fqdn)).run (fun r s' => s' = s ∧ (∀ found, r = .ok found →
        Sound (nameServer id (trimDots (lower fqdn))) (holds value) s ((found.filter (holds value)).map CfDnsRecord.id) ∧
        listed ((found.filter (holds value)).map CfDnsRecord.id)) ∧ (faulty = false → False → ∃ found, r = .ok found)) s := by
    refine wp_mono (wp_listMatchingRecords rfl) ?_
    rintro r s' ⟨rfl, hr⟩
    refine ⟨rfl, fun page hpage => ⟨?_, page, hr page hpage, rfl⟩, fun _ => False.elim⟩
    intro i hi
    obtain ⟨x, hx, rfl⟩ := List.mem_map.1 hi
    obtain ⟨hx, hheld⟩ := List.mem_filter.1 hx
    exact ⟨x, (hr page hpage).shown.subset hx, hheld, rfl⟩
  refine wp_locked (wp_mono (wp_cleanup_listed hlist deletes_deleteRecord hids) ?_)
  rintro r s' ⟨hkept, hsub, hgone, -⟩
  refine ⟨hkept, hsub, fun hr => ?_⟩
  obtain ⟨_, ⟨page, hpage, rfl⟩, hnone⟩ := hgone hr
  exact ⟨page, hpage, hnone⟩

end Calls

/-- What `present` and `cleanup` promise, for these TXT records of the name. -/
def Safe (records : List CfDnsRecord) (value : Str) : Prop :=
  ∀ (cfg : CloudflareConfig) (fqdn zoneId : Str), (∀ id, cfg.zoneOverride.bind ZoneOverride.id = some id → id = zoneId) →
    LeavesNone ((nameServer zoneId (trimDots (lower fqdn))).env true) (holds value) (cleanup cfg fqdn value) records ∧
    KeepsOthers ((nameServer zoneId (trimDots (lower fqdn))).env true) (holds value) (present cfg fqdn value) records ∧
    KeepsOthers ((nameServer zoneId (trimDots (lower fqdn))).env true) (holds value) (cleanup cfg fqdn value) records

theorem subperm_of_untouched {srv : RecordServer Req Req.Doc CfDnsRecord Str} {s' : List CfDnsRecord}
    (h : Untouched srv (holds value) s s') : (s.filter (!holds value ·)).Subperm s' := by
  rw [← h.others]
  exact List.filter_sublist.subperm

theorem safe_of {records : List CfDnsRecord} (hids : (records.map CfDnsRecord.id).Nodup)
    (h : records.length ≤ perPage ∨ ∀ r ∈ records, holds value r = false) : Safe records value := by
  intro cfg fqdn zoneId hcfg
  refine ⟨fun t s' hrun hchain x hx => ?_, fun t r s' hrun hchain => ?_, fun t r s' hrun hchain => ?_⟩
  · obtain ⟨-, hsub, hgone⟩ := (wp_cleanup_page hcfg hids).of_runs hrun hchain
    rcases h with hfit | hnone
    · obtain ⟨page, hpage, hdeleted⟩ := hgone rfl
      rw [← Bool.not_eq_true]
      refine fun hheld => hdeleted x hx (List.mem_map_of_mem (List.mem_filter.2 ⟨?_, hheld⟩))
      exact (hpage.perm hfit).mem_iff.2 (hsub.subset hx)
    · exact hnone x (hsub.subset hx)
  · exact subperm_of_untouched ((wp_present_untouched hcfg hids).of_runs hrun hchain)
  · exact subperm_of_untouched ((wp_cleanup_page hcfg hids).of_runs hrun hchain).1

/-- Every deletion is carried out and confirmed. -/
theorem may_deleteEach : ∀ (l s : List CfDnsRecord),
    may ((nameServer zoneId name).env true) (deleteEach (fun r => deleteRecord zoneId r.id) l).run
      (fun r s' => r = .ok () ∧ ∀ x ∈ s, x.id ∉ l.map CfDnsRecord.id → x ∈ s') s
  | [], s => ⟨rfl, fun _ hx _ => hx⟩
  | r :: l, s => by
    have hdelete : (nameServer zoneId name).env true (.send (.delete zoneId r.id))
        (.ok ⟨⟨200, ""⟩, none, none, none, [], .ok ()⟩) s (s.filter (CfDnsRecord.id · ≠ r.id)) := by
      refine ⟨trivial, nofun, ?_⟩
      simp only [nameServer, if_true]
      exact Or.inl rfl
    rw [deleteEach, may_run_bind]
    refine may_request hdelete (by simp [Retryable]) (may_mono (may_deleteEach l _) ?_)
    rintro r' s' ⟨rfl, hkept⟩
    refine ⟨rfl, fun x hx hnot => hkept x ?_ fun hmem => hnot (by simp [hmem])⟩
    exact List.mem_filter.2 ⟨hx, by simpa using fun he => hnot (by simp [he])⟩

/-- The zone and its id are configured, so that the first request is the listing. -/
def inZone : CloudflareConfig := ⟨some ⟨"a.org".toList, some "z".toList⟩, 60⟩

def challenge : Str := "_acme-challenge.a.org".toList

/-- `cleanup` with a page that does not show `x`. -/
theorem may_cleanup_overlook {records page : List CfDnsRecord} {x : CfDnsRecord} (hx : x ∈ records)
    (hpage : PageOf perPage records page) (hnot : x.id ∉ page.map CfDnsRecord.id) :
    may ((nameServer "z".toList challenge).env true) (cleanup inZone challenge value).run
      (fun r s' => r = .ok () ∧ x ∈ s') records := by
  have hlist : (nameServer "z".toList challenge).env true (.send (.list "z".toList challenge))
      (.ok ⟨⟨200, ""⟩, none, none, none, [], .ok ⟨true, "", some page⟩⟩) records records := by
    refine ⟨trivial, nofun, rfl, ?_⟩
    rintro resp hresp - - - body page' hbody hresult
    cases hresp
    cases hbody
    cases hresult
    exact hpage
  refine may_run_except_bind (a := ()) (by decide) ?_
  refine may_run_bind.2 (may_run_except_bind (a := "_acme-challenge".toList) (by decide) ?_)
  refine may_withLock ⟨trivial, rfl⟩ (may_run_bind.2 (may_request hlist (by simp [Retryable]) ?_))
  refine may_mono (may_deleteEach _ records) ?_
  rintro r s' ⟨rfl, hkept⟩
  refine ⟨s', ⟨trivial, rfl⟩, rfl, hkept x hx fun hmem => hnot ?_⟩
  obtain ⟨y, hy, he⟩ := List.mem_map.1 hmem
  exact List.mem_map.2 ⟨y, (List.mem_filter.1 hy).1, he⟩

theorem of_safe {records : List CfDnsRecord} (hids : (records.map CfDnsRecord.id).Nodup) (h : Safe records value) :
    records.length ≤ perPage ∨ ∀ r ∈ records, holds value r = false := by
  by_contra hnot
  push Not at hnot
  obtain ⟨hmore, x, hx, hheld⟩ := hnot
  obtain ⟨page, hpage, hsub⟩ := exists_page_without hx hmore
  have hunlisted : x.id ∉ page.map CfDnsRecord.id := by
    obtain ⟨l, hl, hin⟩ := hsub
    have hnodup : ((x :: page).map CfDnsRecord.id).Nodup :=
      (hl.map CfDnsRecord.id).nodup_iff.1 (hids.sublist (hin.map CfDnsRecord.id))
    exact (List.nodup_cons.1 hnodup).1
  obtain ⟨t, r, s', hrun, hchain, rfl, hx'⟩ := (may_cleanup_overlook hx hpage hunlisted).exists_run
  have hleft := (h inZone challenge "z".toList (by simp [inZone])).1 t s' hrun hchain x hx'
  exact hheld hleft

end Cloudflare

/-! ## Scaleway -/

namespace Scaleway

def holds (value data : Str) : Bool := unquote data = value

/-- The data of the TXT records of one name. A change replaces all of them, and is not confirmed where it
was not made. -/
def nameServer (zone rname : Str) : Env (Call Req) (Reply Req.Doc) (List Str)
  | .send (.list z n), r, s, s' => s' = s ∧ (z = zone → n = rname → ∀ resp, r = .ok resp →
      (resp.status.asU16 = 404 → s = []) ∧ (resp.status.isSuccess = true → ∀ records, resp.body = .ok records →
        ∃ page, PageOf pageSize s page ∧ records = page.map (⟨txt, ·⟩)))
  | .send (.change z (.set n type records)), r, s, s' => if z = zone ∧ n = rname ∧ type = txt then
      s' = records.map RecordSpec.data ∨ s' = s ∧ ∀ resp, r = .ok resp → resp.status.isSuccess = false
    else s' = s
  | .send (.change z (.delete n type)), r, s, s' => if z = zone ∧ n = rname ∧ type = txt then
      s' = [] ∨ s' = s ∧ ∀ resp, r = .ok resp → (resp.status.isSuccess || resp.status.asU16 == 404) = false
    else s' = s
  | .findZone _, r, s, s' => (∀ z, r = .ok z → z = zone) ∧ s' = s
  | .lock _ _, _, s, s' | .unlock, _, s, s' | .sleep _, _, s, s' | .now, _, s, s' | .cacheGet _, _, s, s'
  | .cacheInsert _ _, _, s, s' | .accessToken, _, s, s' | .forgetToken, _, s, s' => s' = s

variable {zone rname value : Str} {s : List Str}

theorem data_listed (page : List Str) :
    ((page.map (Record.mk txt)).filter fun r => r.type = txt).map Record.data = page := by
  rw [List.filter_eq_self.2 (by simp), List.map_map]
  exact List.map_id' page

theorem wp_fetchExisting : wp (fun _ _ => True) (nameServer zone rname) (fetchExisting zone rname).run (fun r s' =>
    s' = s ∧ ∀ values, r = .ok values → PageOf pageSize s values) s := by
  refine wp_request_inv (I := (· = s)) rfl ?_ fun d s₁ hs₁ => ⟨trivial, fun _ s' h => Eq.trans h hs₁⟩
  rintro s rfl
  refine ⟨trivial, fun r s' h => ?_⟩
  obtain ⟨rfl, hpage⟩ := h
  refine ⟨fun e _ => ⟨rfl, nofun⟩, ?_⟩
  rintro resp rfl
  refine ⟨⟨rfl, fun values hvalues => ?_⟩, fun _ => rfl⟩
  obtain ⟨hnone, hshown⟩ := hpage rfl rfl resp rfl
  split at hvalues
  · rename_i h404
    cases hvalues
    rw [hnone h404]
    exact pageOf_self (by simp)
  · simp only [bind_eq_ok, check_eq_ok, Response.json_eq_ok] at hvalues
    obtain ⟨-, hsucc, records, hbody, hvalues⟩ := hvalues
    obtain ⟨page, hpage, rfl⟩ := hshown hsucc records hbody
    rw [data_listed] at hvalues
    cases hvalues
    exact hpage

/-- A change with its retries: it is made or not, and it is made if it is confirmed. -/
theorem wp_change {change : Change} {decode : Response Unit → Except DnsError Unit} {new : List Str}
    (hchange : ∀ r s s', nameServer zone rname (.send (.change zone change)) r s s' → s' = new ∨ s' = s ∧
      ∀ resp, r = .ok resp → decode resp ≠ .ok ()) :
    wp (fun _ _ => True) (nameServer zone rname) (request .patch (Req.change zone change) decode : M Unit).run
      (fun r s' => (s' = s ∨ s' = new) ∧ (r = .ok () → s' = new)) s := by
  refine wp_request_inv (I := fun s₁ => s₁ = s ∨ s₁ = new) (Or.inl rfl) ?_ fun d s₁ hs₁ => ⟨trivial, fun _ s' h => ?_⟩
  · intro s₁ hs₁
    refine ⟨trivial, fun r s' h => ?_⟩
    have hstep : (s' = s ∨ s' = new) ∧ ∀ resp, r = .ok resp → decode resp = .ok () → s' = new := by
      rcases hchange r s₁ s' h with rfl | ⟨rfl, hnot⟩
      · exact ⟨Or.inr rfl, fun _ _ _ => rfl⟩
      · exact ⟨hs₁, fun resp hr hdecode => absurd hdecode (hnot resp hr)⟩
    exact ⟨fun e _ => ⟨hstep.1, nofun⟩, fun resp hr => ⟨⟨hstep.1, hstep.2 resp hr⟩, fun _ => hstep.1⟩⟩
  · rwa [show s' = s₁ from h]

theorem wp_applySet {cfg : ScalewayConfig} {values : List Str} :
    wp (fun _ _ => True) (nameServer zone rname) (applySet cfg zone rname values).run
      (fun r s' => (s' = s ∨ s' = values) ∧ (r = .ok () → s' = values)) s := by
  refine wp_change fun r s₁ s' h => ?_
  simp only [nameServer, and_self, if_true, List.map_map] at h
  refine h.imp (fun h => h.trans (List.map_id' values)) fun ⟨he, hfail⟩ => ⟨he, fun resp hr hok => ?_⟩
  rw [check_eq_ok, hfail resp hr] at hok
  cases hok

theorem wp_applyDelete : wp (fun _ _ => True) (nameServer zone rname) (applyDelete zone rname).run
    (fun r s' => (s' = s ∨ s' = []) ∧ (r = .ok () → s' = [])) s := by
  refine wp_change fun r s₁ s' h => ?_
  simp only [nameServer, and_self, if_true] at h
  refine h.imp_right fun ⟨he, hfail⟩ => ⟨he, fun resp hr hok => ?_⟩
  rw [check_eq_ok, hfail resp hr] at hok
  cases hok

/-- What a `present` leaves: the records, or the page with the value. -/
def PresentedPage (value : Str) (s s' : List Str) : Prop :=
  s' = s ∨ ∃ page, PageOf pageSize s page ∧ s' = page ++ [quote value]

/-- What a `cleanup` leaves: the records, if the page does not show the value, or the page without it. -/
def CleanedPage (value : Str) (s : List Str) (r : Except DnsError Unit) (s' : List Str) : Prop :=
  s' = s ∧ (r = .ok () → ∃ page, PageOf pageSize s page ∧ ∀ x ∈ page, holds value x = false) ∨
    ∃ page, PageOf pageSize s page ∧ s' = page.filter (!holds value ·)

theorem wp_presentLocked {cfg : ScalewayConfig} :
    wp (fun _ _ => True) (nameServer zone rname) (presentLocked cfg zone rname value).run
      (fun _ s' => PresentedPage value s s') s := by
  unfold presentLocked
  rw [wp_run_bind]
  refine wp_mono wp_fetchExisting ?_
  rintro r s₁ ⟨rfl, hpage⟩
  cases r with
  | error e => exact Or.inl rfl
  | ok page =>
    simp only
    split
    · exact Or.inl rfl
    · refine wp_mono wp_applySet fun r s' h => h.1.imp_right fun he => ⟨page, hpage page rfl, he⟩

theorem remaining_eq (value : Str) (page : List Str) :
    page.filter (unquote · ≠ value) = page.filter (!holds value ·) := by
  simp only [holds, ne_eq, decide_not]

theorem wp_cleanupLocked {cfg : ScalewayConfig} :
    wp (fun _ _ => True) (nameServer zone rname) (cleanupLocked cfg zone rname value).run
      (fun r s' => CleanedPage value s r s') s := by
  unfold cleanupLocked
  rw [wp_run_bind]
  refine wp_mono wp_fetchExisting ?_
  rintro r s₁ ⟨rfl, hpage⟩
  cases r with
  | error e => exact Or.inl ⟨rfl, nofun⟩
  | ok page =>
    simp only [remaining_eq]
    split
    · rename_i hlen
      refine Or.inl ⟨rfl, fun _ => ⟨page, hpage page rfl, fun x hx => ?_⟩⟩
      have hall := List.filter_eq_self.1 (List.filter_sublist.eq_of_length hlen) x hx
      simpa using hall
    · -- a set without values is deleted
      have hchanged : ∀ {r : Except DnsError Unit} {s'}, (s' = s₁ ∨ s' = page.filter (!holds value ·)) ∧
          (r = .ok () → s' = page.filter (!holds value ·)) → CleanedPage value s₁ r s' := by
        rintro r s' ⟨he | he, hok⟩
        · by_cases hr : r = .ok ()
          · exact Or.inr ⟨page, hpage page rfl, hok hr⟩
          · exact Or.inl ⟨he, fun h => absurd h hr⟩
        · exact Or.inr ⟨page, hpage page rfl, he⟩
      split
      · rename_i hempty
        refine wp_mono wp_applyDelete fun r s' h => hchanged ?_
        rwa [List.isEmpty_iff.1 hempty]
      · exact wp_mono wp_applySet fun r s' h => hchanged h

/-- The calls differ from here on only in what they do with the lock. -/
theorem wp_enter {cfg : ScalewayConfig} {fqdn : Str} {body : Str → Str → M Unit}
    {Post : Except DnsError Unit → List Str → Prop} (hcfg : ∀ z, cfg.zoneOverride = some z → z = zone)
    (hname : relativeName fqdn zone = .ok rname)
    (hbody : wp (fun _ _ => True) (nameServer zone rname) (body zone rname).run Post s) (herror : ∀ e, Post (.error e) s) :
    wp (fun _ _ => True) (nameServer zone rname) (do
      let zone ← resolveZone cfg fqdn
      let rname ← relativeName fqdn zone
      withLock locks (lockKey zone rname) (body zone rname) : M Unit).run Post s := by
  have hzone : wp (fun _ _ => True) (nameServer zone rname) (resolveZone cfg fqdn).run
      (fun r s' => s' = s ∧ ∀ z, r = .ok z → z = zone) s := by
    unfold resolveZone
    split
    · rename_i z hz
      refine ⟨rfl, fun z' he => ?_⟩
      cases he
      exact hcfg z hz
    · rw [wp_run_bind]
      refine ⟨trivial, fun r s' h => ?_⟩
      obtain ⟨hr, rfl⟩ := h
      cases r with
      | error e => exact ⟨rfl, nofun⟩
      | ok z =>
        obtain rfl := hr z rfl
        show wp _ _ (liftM (validateFqdn z) >>= fun _ => pure z : M Str).run _ _
        rw [wp_run_bind, wp_run_except]
        cases validateFqdn z with
        | error e => exact ⟨rfl, nofun⟩
        | ok u => exact ⟨rfl, fun z' he => by cases he; rfl⟩
  rw [wp_run_bind]
  refine wp_mono hzone ?_
  rintro r s₁ ⟨rfl, hr⟩
  cases r with
  | error e => exact herror e
  | ok z =>
    obtain rfl := hr z rfl
    simp only
    rw [wp_run_bind, wp_run_except, hname]
    refine wp_withLock.2 ⟨trivial, fun _ s₂ h₂ => ?_⟩
    obtain rfl : s₂ = s₁ := h₂
    refine wp_mono hbody fun r s₃ hpost => ⟨trivial, fun _ s₄ h₄ => ?_⟩
    obtain rfl : s₄ = s₃ := h₄
    exact hpost

section Calls

variable {cfg : ScalewayConfig} {fqdn : Str} (hcfg : ∀ z, cfg.zoneOverride = some z → z = zone)
  (hname : relativeName (lower fqdn) zone = .ok rname)
include hcfg hname

theorem wp_present_page : wp (fun _ _ => True) (nameServer zone rname) (present cfg fqdn value).run
    (fun _ s' => PresentedPage value s s') s := by
  unfold present
  rw [wp_run_bind, wp_run_except]
  cases validateFqdn fqdn with
  | error e => exact Or.inl rfl
  | ok u =>
    simp only
    rw [wp_run_bind, wp_run_except]
    cases validateAcmeValue value with
    | error e => exact Or.inl rfl
    | ok u => exact wp_enter hcfg hname wp_presentLocked fun e => Or.inl rfl

theorem wp_cleanup_page : wp (fun _ _ => True) (nameServer zone rname) (cleanup cfg fqdn value).run
    (fun r s' => CleanedPage value s r s') s := by
  unfold cleanup
  rw [wp_run_bind, wp_run_except]
  cases validateFqdn fqdn with
  | error e => exact Or.inl ⟨rfl, nofun⟩
  | ok u => exact wp_enter hcfg hname wp_cleanupLocked fun e => Or.inl ⟨rfl, nofun⟩

end Calls

/-- What `present` and `cleanup` promise, for TXT records of the name with these data. -/
def Safe (records : List Str) (value : Str) : Prop :=
  ∀ (cfg : ScalewayConfig) (fqdn zone rname : Str), (∀ z, cfg.zoneOverride = some z → z = zone) →
    relativeName (lower fqdn) zone = .ok rname →
    LeavesNone (nameServer zone rname) (holds value) (cleanup cfg fqdn value) records ∧
    KeepsOthers (nameServer zone rname) (holds value) (present cfg fqdn value) records ∧
    KeepsOthers (nameServer zone rname) (holds value) (cleanup cfg fqdn value) records

theorem safe_of {records : List Str} (h : records.length ≤ pageSize ∨ ∀ x ∈ records, holds value x = true) :
    Safe records value := by
  -- the others are on the page, or there are none
  have hothers : ∀ {page}, PageOf pageSize records page →
      (records.filter (!holds value ·)).Subperm (page.filter (!holds value ·)) := by
    intro page hpage
    rcases h with hfit | hall
    · exact ((hpage.perm hfit).filter _).symm.subperm
    · rw [List.filter_eq_nil_iff.2 fun x hx => by simp [hall x hx]]
      exact List.nil_subperm
  intro cfg fqdn zone rname hcfg hname
  refine ⟨fun t s' hrun hchain x hx => ?_, fun t r s' hrun hchain => ?_, fun t r s' hrun hchain => ?_⟩
  · rcases (wp_cleanup_page hcfg hname).of_runs hrun hchain with ⟨rfl, hnone⟩ | ⟨page, -, rfl⟩
    · obtain ⟨page, hpage, hnone⟩ := hnone rfl
      rcases h with hfit | hall
      · exact hnone x ((hpage.perm hfit).mem_iff.2 hx)
      · -- a page of records that all hold the value would show it
        have hlen : page.length = min pageSize s'.length := hpage.length
        obtain ⟨y, hy⟩ := List.exists_mem_of_length_pos (show 0 < page.length by
          have := List.length_pos_of_mem hx
          have hsize : pageSize = 100 := rfl
          omega)
        have hheld := hall y (hpage.shown.subset hy)
        rw [hnone y hy] at hheld
        cases hheld
    · simpa using (List.mem_filter.1 hx).2
  · rcases (wp_present_page hcfg hname).of_runs hrun hchain with rfl | ⟨page, hpage, rfl⟩
    · exact List.filter_sublist.subperm
    · exact (hothers hpage).trans (List.filter_sublist.trans (List.sublist_append_left page _)).subperm
  · rcases (wp_cleanup_page hcfg hname).of_runs hrun hchain with ⟨rfl, -⟩ | ⟨page, hpage, rfl⟩
    · exact List.filter_sublist.subperm
    · exact hothers hpage

def inZone : ScalewayConfig := ⟨some "a.org".toList, 60⟩

def challenge : Str := "_acme-challenge.a.org".toList

def label : Str := "_acme-challenge".toList

theorem may_fetch {α : Type} {f : List Str → M α} {page : List Str} {Post : Except DnsError α → List Str → Prop}
    (hpage : PageOf pageSize s page) (h : may (nameServer zone rname) (f page).run Post s) :
    may (nameServer zone rname) (fetchExisting zone rname >>= f).run Post s := by
  have hlist : nameServer zone rname (.send (.list zone rname))
      (.ok ⟨⟨200, ""⟩, none, none, none, [], .ok (page.map (⟨txt, ·⟩))⟩) s s := by
    refine ⟨rfl, fun _ _ resp hresp => ?_⟩
    cases hresp
    refine ⟨nofun, fun _ records hrecords => ?_⟩
    cases hrecords
    exact ⟨page, hpage, rfl⟩
  refine may_run_bind.2 (may_request hlist (by simp [Retryable]) ?_)
  show may _ (f (((page.map (Record.mk txt)).filter fun r => r.type = txt).map Record.data)).run Post s
  rwa [data_listed]

theorem may_applySet {cfg : ScalewayConfig} (values : List Str) :
    may (nameServer zone rname) (applySet cfg zone rname values).run (fun r s' => r = .ok () ∧ s' = values) s := by
  have hset : nameServer zone rname (.send (.change zone (.set rname txt (values.map fun v => ⟨rname, txt, v, cfg.ttl⟩))))
      (.ok ⟨⟨200, ""⟩, none, none, none, [], .ok ()⟩) s values := by
    simp only [nameServer, and_self, if_true, List.map_map]
    exact Or.inl (List.map_id' values).symm
  exact may_request hset (by simp [Retryable]) ⟨rfl, rfl⟩

theorem may_applyDelete :
    may (nameServer zone rname) (applyDelete zone rname).run (fun r s' => r = .ok () ∧ s' = []) s := by
  have hdelete : nameServer zone rname (.send (.change zone (.delete rname txt)))
      (.ok ⟨⟨200, ""⟩, none, none, none, [], .ok ()⟩) s [] := by
    simp [nameServer]
  exact may_request hdelete (by simp [Retryable]) ⟨rfl, rfl⟩

/-- `present` with a page that does not show the value. -/
theorem may_present_page {page : List Str} (hpage : PageOf pageSize s page) (hvalue : validateAcmeValue value = .ok ())
    (hnot : ∀ x ∈ page, holds value x = false) :
    may (nameServer "a.org".toList label) (present inZone challenge value).run
      (fun _ s' => s' = page ++ [quote value]) s := by
  refine may_run_except_bind (a := ()) (by decide) (may_run_except_bind (a := ()) hvalue ?_)
  refine may_run_bind.2 (may_run_except_bind (a := label) (by decide) (may_withLock rfl (may_fetch hpage ?_)))
  have hany : page.any (unquote · = value) = false := by simpa [holds] using hnot
  rw [hany]
  exact may_mono (may_applySet _) fun r s' h => ⟨s', rfl, h.2⟩

/-- `cleanup` with a page that shows the value. -/
theorem may_cleanup_page {page : List Str} {x : Str} (hpage : PageOf pageSize s page) (hx : x ∈ page)
    (hheld : holds value x = true) :
    may (nameServer "a.org".toList label) (cleanup inZone challenge value).run
      (fun _ s' => s' = page.filter (!holds value ·)) s := by
  refine may_run_except_bind (a := ()) (by decide) (may_run_bind.2 (may_run_except_bind (a := label) (by decide) ?_))
  refine may_withLock rfl (may_fetch hpage ?_)
  have hfewer : (page.filter (!holds value ·)).length ≠ page.length := by
    intro hlen
    have hkept := List.filter_eq_self.1 (List.filter_sublist.eq_of_length hlen) x hx
    simp [hheld] at hkept
  simp only [remaining_eq, if_neg hfewer]
  split
  · rename_i hempty
    refine may_mono may_applyDelete fun r s' h => ⟨s', rfl, ?_⟩
    rw [h.2, List.isEmpty_iff.1 hempty]
  · exact may_mono (may_applySet _) fun r s' h => ⟨s', rfl, h.2⟩

/-- The others on the page are all there are afterwards: one that it did not show is lost. -/
theorem not_keeps {page s' : List Str} {y : Str} (hsub : (y :: page).Subperm s) (hy : holds value y = false)
    (hothers : s'.filter (!holds value ·) = page.filter (!holds value ·)) :
    ¬ (s.filter (!holds value ·)).Subperm s' := by
  intro hkept
  have hkept' := (hkept.filter (!holds value ·)).length_le
  have hmore := (hsub.filter (!holds value ·)).length_le
  simp only [List.filter_filter, Bool.and_self, hothers] at hkept'
  rw [List.filter_cons_of_pos (by simp [hy]), List.length_cons] at hmore
  omega

theorem of_safe {records : List Str} (hvalue : validateAcmeValue value = .ok ()) (h : Safe records value) :
    records.length ≤ pageSize ∨ ∀ x ∈ records, holds value x = true := by
  by_contra hnot
  push Not at hnot
  obtain ⟨hmore, y, hy, hother⟩ := hnot
  replace hother : holds value y = false := by simpa using hother
  obtain ⟨-, hpresent, hcleanup⟩ := h inZone challenge "a.org".toList label (by simp [inZone]) (by decide)
  by_cases hheld : ∃ x ∈ records, holds value x = true
  · obtain ⟨x, hx, hheld⟩ := hheld
    have hxy : [y, x].Subperm records := by
      refine List.subperm_of_subset ?_ (by simp [hx, hy])
      rw [List.nodup_cons, List.mem_singleton]
      refine ⟨?_, List.nodup_singleton x⟩
      rintro rfl
      rw [hheld] at hother
      cases hother
    obtain ⟨page, hpage, hxpage, hsub⟩ := exists_page_between hxy (by decide) hmore
    obtain ⟨t, r, s', hrun, hchain, rfl⟩ := (may_cleanup_page hpage hxpage hheld).exists_run
    exact not_keeps hsub hother (by simp [List.filter_filter]) (hcleanup t r _ hrun hchain)
  · have hnone : ∀ x ∈ records, holds value x = false := fun x hx => by simpa using fun hx' => hheld ⟨x, hx, hx'⟩
    obtain ⟨page, hpage, hsub⟩ := exists_page_without hy hmore
    have hunseen : ∀ x ∈ page, holds value x = false := fun x hx => hnone x (hpage.shown.subset hx)
    obtain ⟨t, r, s', hrun, hchain, rfl⟩ := (may_present_page hpage hvalue hunseen).exists_run
    refine not_keeps hsub hother ?_ (hpresent t r _ hrun hchain)
    rw [List.filter_append, List.filter_cons_of_neg (by simp [holds])]
    simp

end Scaleway

/-! ## When one page is enough -/

/-- **One page is enough iff it shows all records**, except where there is nothing to overlook: for
Cloudflare no record with the value, for Scaleway no other record. -/
theorem single_page_iff {value : Str} (hvalue : validateAcmeValue value = .ok ()) :
    (∀ records : List Cloudflare.CfDnsRecord, (records.map Cloudflare.CfDnsRecord.id).Nodup →
      (Cloudflare.Safe records value ↔
        records.length ≤ 100 ∨ ∀ r ∈ records, trimQuotes r.content ≠ value)) ∧
    ∀ records : List Str, (Scaleway.Safe records value ↔
      records.length ≤ 100 ∨ ∀ data ∈ records, unquote data = value) := by
  refine ⟨fun records hids => ?_, fun records => ?_⟩
  · have h : Cloudflare.Safe records value ↔ _ := ⟨Cloudflare.of_safe hids, Cloudflare.safe_of hids⟩
    simpa [Cloudflare.holds, Cloudflare.perPage] using h
  · have h : Scaleway.Safe records value ↔ _ := ⟨Scaleway.of_safe hvalue, Scaleway.safe_of⟩
    simpa [Scaleway.holds, Scaleway.pageSize] using h

theorem single_page_iff_x : validateAcmeValue "x".toList = .ok () ∧
    Cloudflare.Safe [⟨"1".toList, "\"x\"".toList⟩, ⟨"2".toList, "y".toList⟩] "x".toList ∧
    Scaleway.Safe ["\"x\"".toList, "\"y\"".toList] "x".toList := by
  have hvalue : validateAcmeValue "x".toList = .ok () := by decide
  obtain ⟨hcloudflare, hscaleway⟩ := single_page_iff hvalue
  refine ⟨hvalue, (hcloudflare _ (by decide)).2 (Or.inl (by decide)), (hscaleway _).2 (Or.inl (by decide))⟩

/-- A hundred and one records, of which the last holds `x`. -/
def crowded : List Cloudflare.CfDnsRecord :=
  (List.range 101).map fun n => ⟨List.replicate n 'r', if n = 100 then "x".toList else "y".toList⟩

/-- **A value that outlives its cleanup**: it is on the second page. -/
theorem cloudflare_cleanup_overlooks : ∃ t s' r,
    (Cloudflare.cleanup Cloudflare.inZone Cloudflare.challenge "x".toList).run.Runs t (.ok ()) ∧
    Chain ((Cloudflare.nameServer "z".toList Cloudflare.challenge).env true) t crowded s' ∧
    r ∈ s' ∧ r.content = "x".toList := by
  have hpage : PageOf Cloudflare.perPage crowded (crowded.take 100) := ⟨(List.take_sublist _ _).subperm, by decide⟩
  have hx : ⟨List.replicate 100 'r', "x".toList⟩ ∈ crowded := List.mem_map.2 ⟨100, by simp, rfl⟩
  have hnot : List.replicate 100 'r' ∉ (crowded.take 100).map Cloudflare.CfDnsRecord.id := by
    simp only [crowded, ← List.map_take, List.mem_map, not_exists, not_and]
    rintro _ ⟨n, hn, rfl⟩ he
    have hlen := congrArg List.length he
    simp only [List.length_replicate] at hlen
    simp [List.take_range, hlen] at hn
  obtain ⟨t, _, s', hrun, hchain, rfl, hleft⟩ := (Cloudflare.may_cleanup_overlook hx hpage hnot).exists_run
  exact ⟨t, s', _, hrun, hchain, hleft, rfl⟩

end Cheti
