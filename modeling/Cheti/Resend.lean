import Cheti.Providers.Bunny
import Cheti.Providers.Cloudflare
import Cheti.Providers.DigitalOcean
import Cheti.Providers.Infomaniak
import Cheti.Providers.Ovh
import Cheti.Providers.Porkbun
/-!
# Resent creations

Six providers keep one record for each value, and add it with a request that adds a record each time it
is carried out. `send_retrying` repeats a request when it is throttled (429), which means that it was not
carried out, and an idempotent one also when the service is unavailable (503), which does not.

`AtMost n p` bounds the records that one run of `p` adds, whatever the server does, and follows the
structure of the program. Five of the providers create with a POST, so a call of `present` adds one record
at most (`AtMost.request`); Bunny creates with a PUT, and its call can add two (`Bunny.may_add_two`).
-/

namespace Cheti

structure TxtRecord where
  zone : Str
  name : Str
  content : Str
deriving DecidableEq

def TxtRecord.holds (value : Str) (r : TxtRecord) : Bool := trimQuotes r.content == value

/-- What a request does to the records, if it is carried out. -/
inductive Effect where
  | creates (r : TxtRecord)
  | deletes
  | keeps

section Server

open Fut

variable {Q : Type} {B : Q → Type} {α β : Type}

/-- Any server: the answer to a creation says nothing about whether it was carried out, except that a
throttled one was not. -/
def server (effect : Q → Effect) : Env (Call Q) (Reply B) (List TxtRecord)
  | .send q, r, s, s' =>
    match effect q with
    | .creates record => s' = s ∨ s' = s ++ [record] ∧ ∀ resp, r = .ok resp → resp.status.asU16 ≠ 429
    | .deletes => s'.Sublist s
    | .keeps => s' = s
  | _, _, s, s' => s' = s

def Call.CreatesNothing (effect : Q → Effect) : Call Q → Prop
  | .send q => ∀ record, effect q ≠ .creates record
  | _ => True

variable {effect : Q → Effect}

theorem server_sublist {c : Call Q} {r : Reply B c} {s s' : List TxtRecord} (hc : c.CreatesNothing effect)
    (h : server effect c r s s') : s'.Sublist s := by
  cases c with
  | send q =>
    simp only [server] at h
    split at h
    · rename_i record hq
      exact absurd hq (hc record)
    · exact h
    · exact h ▸ .refl _
  | _ => exact h ▸ .refl _

/-- A run of `p` adds at most `n` records to those that are there. -/
def AtMost (effect : Q → Effect) (n : Nat) (p : Prog Q B α) : Prop :=
  ∀ s, wp (fun _ _ => True) (server effect) p.run
    (fun _ s' => ∃ added : List TxtRecord, added.length ≤ n ∧ s'.Sublist (s ++ added)) s

namespace AtMost

variable {m n : Nat}

theorem of_only {p : Prog Q B α} (h : Only (Call.CreatesNothing effect) p) : AtMost effect 0 p := by
  intro s
  have hrun := wp_rel_of_always (H := server effect) (K := fun s s' : List TxtRecord => s'.Sublist s) (fun s => .refl s)
    (fun _ _ _ h₁ h₂ => h₂.trans h₁) h (fun c r s s' hc hr => ⟨server_sublist hc hr, trivial⟩) s
  refine wp_mono hrun fun _ s' hs' => ⟨[], le_rfl, ?_⟩
  simpa using hs'.1

theorem mono {p : Prog Q B α} (h : AtMost effect m p) (hmn : m ≤ n) : AtMost effect n p := fun s =>
  wp_mono (h s) fun _ _ ⟨added, hlen, hsub⟩ => ⟨added, hlen.trans hmn, hsub⟩

theorem bind {p : Prog Q B α} {f : α → Prog Q B β} (hp : AtMost effect m p) (hf : ∀ a, AtMost effect n (f a)) :
    AtMost effect (m + n) (p >>= f) := by
  intro s
  rw [wp_run_bind]
  refine wp_mono (hp s) ?_
  rintro r s₁ ⟨added, hlen, hsub⟩
  cases r with
  | error e => exact ⟨added, hlen.trans (Nat.le_add_right m n), hsub⟩
  | ok a =>
    refine wp_mono (hf a s₁) ?_
    rintro r s' ⟨added', hlen', hsub'⟩
    refine ⟨added ++ added', ?_, ?_⟩
    · rw [List.length_append]
      omega
    · rw [← List.append_assoc]
      exact hsub'.trans (hsub.append (.refl added'))

/-- What adds nothing can go first. -/
theorem after {p : Prog Q B α} {f : α → Prog Q B β} (hp : Only (Call.CreatesNothing effect) p)
    (hf : ∀ a, AtMost effect n (f a)) : AtMost effect n (p >>= f) := by
  simpa using (of_only hp).bind hf

theorem withLock {l : KeyedMutex} {key : Str} {body : Prog Q B α} (h : AtMost effect n body) :
    AtMost effect n (Cheti.withLock l key body) := by
  intro s
  rw [wp_withLock]
  refine ⟨trivial, fun _ s₁ hs₁ => ?_⟩
  obtain rfl : s₁ = s := hs₁
  refine wp_mono (h s₁) fun _ s₂ hs₂ => ⟨trivial, fun _ s₃ hs₃ => ?_⟩
  obtain rfl : s₃ = s₂ := hs₃
  exact hs₂

/-- **A creation that is not idempotent**: it is repeated only after an answer that rules out that it was
carried out. -/
theorem request {method : Method} {q : Q} {decode : Response (B q) → Except DnsError α} {record : TxtRecord}
    (hmethod : method.isIdempotent = false) (hq : effect q = .creates record) :
    AtMost effect 1 (Cheti.request method q decode : Prog Q B α) := by
  intro s
  refine wp_request_inv (I := (· = s)) rfl (fun s₁ hs₁ => ⟨trivial, fun r s' h => ?_⟩) fun d s₁ hs₁ =>
    ⟨trivial, fun _ s' h => ?_⟩
  · subst hs₁
    simp only [server, hq] at h
    have hadded : ∃ added : List TxtRecord, added.length ≤ 1 ∧ s'.Sublist (s₁ ++ added) := by
      rcases h with rfl | ⟨rfl, -⟩
      · exact ⟨[], by simp, by simp⟩
      · exact ⟨[record], by simp, .refl _⟩
    refine ⟨fun e _ => hadded, fun resp hresp => ⟨hadded, fun hretry => ?_⟩⟩
    rcases hretry with hthrottled | ⟨-, hidem⟩
    · exact h.resolve_right fun h => h.2 resp hresp hthrottled
    · rw [hmethod] at hidem
      cases hidem
  · exact Eq.trans (show s' = s₁ from h) hs₁

/-- The creation is left out where the record is there. -/
theorem ifMissing {c : Prop} [Decidable c] {create : Prog Q B Unit} (h : AtMost effect n create) :
    AtMost effect n (if c then pure () else create) := by
  split
  · exact (of_only (.pure ())).mono (Nat.zero_le n)
  · exact h

/-- So the records that hold a value are at most `n` more than before. -/
theorem countP_le {p : Prog Q B α} (h : AtMost effect n p) {s s' : List TxtRecord} {t : List (Ev (Call Q) (Reply B))}
    {r : Except DnsError α} (hrun : p.run.Runs t r) (hchain : Chain (server effect) t s s') (f : TxtRecord → Bool) :
    s'.countP f ≤ s.countP f + n := by
  obtain ⟨added, hlen, hsub⟩ := (h s).of_runs hrun hchain
  calc s'.countP f ≤ (s ++ added).countP f := hsub.countP_le
    _ = s.countP f + added.countP f := List.countP_append
    _ ≤ s.countP f + n := Nat.add_le_add_left (List.countP_le_length.trans hlen) _

end AtMost

/-- A request that creates nothing, with its retries. -/
theorem quiet_request {method : Method} {q : Q} {decode : Response (B q) → Except DnsError α}
    (h : ∀ record, effect q ≠ .creates record) :
    Only (Call.CreatesNothing effect) (request method q decode : Prog Q B α) :=
  .request h fun _ => trivial

end Server

/-! ## The providers -/

namespace Bunny

def effect : Req → Effect
  | .create zone body => .creates ⟨(toString zone).toList, body.name, body.value⟩
  | .delete _ _ => .deletes
  | .zones _ _ | .zone _ => .keeps

/-- A zone of its own, so that the only lookup is the one for its id. -/
def inZone (zone : Str) : BunnyConfig := ⟨some zone, 60, fun _ => none⟩

def zoneOrg : Zone := ⟨1, "a.org".toList⟩

def challenge : TxtRecord := ⟨"1".toList, "_acme-challenge".toList, "x".toList⟩

open Fut

theorem may_listZones : may (server effect) (listZones (inZone zoneOrg.domain) zoneOrg.domain).run
    (fun r s' => r = .ok [zoneOrg] ∧ s' = []) [] := by
  have hlist : server (B := Req.Doc) effect (.send (Req.zones zoneOrg.domain 1))
      (.ok ⟨⟨200, ""⟩, none, none, none, [], .ok ⟨some [⟨1, "a.org".toList⟩], false⟩⟩) [] [] := rfl
  rw [listZones, readPages.eq_def, may_run_bind]
  exact may_request hlist (by simp [Retryable]) ⟨rfl, rfl⟩

/-- A creation that is carried out but answered with a 503 is sent again. -/
theorem may_create : may (server effect) (createRecord (inZone zoneOrg.domain) zoneOrg "_acme-challenge".toList
    "x".toList).run (fun r s' => r = .ok () ∧ s' = [challenge, challenge]) [] := by
  let q : Req := .create 1 ⟨recordTypeTxt, 60, "x".toList, "_acme-challenge".toList⟩
  have hfirst : server (B := Req.Doc) effect (.send q) (.ok ⟨⟨503, ""⟩, none, none, none, [], .ok ()⟩) [] [challenge] :=
    Or.inr ⟨rfl, fun resp hresp => by cases hresp; decide⟩
  have hagain : server (B := Req.Doc) effect (.send q) (.ok ⟨⟨201, ""⟩, none, none, none, [], .ok ()⟩) [challenge]
      [challenge, challenge] := Or.inr ⟨rfl, fun resp hresp => by cases hresp; decide⟩
  exact may_request_again hfirst rfl rfl hagain (by simp [Retryable]) ⟨rfl, rfl⟩

theorem may_add_two : may (server effect) (present (inZone zoneOrg.domain) "_acme-challenge.a.org".toList "x".toList).run
    (fun r s' => r = .ok () ∧ s' = [challenge, challenge]) [] := by
  have hrecords : server (B := Req.Doc) effect (.send (Req.zone 1)) (.ok ⟨⟨200, ""⟩, none, none, none, [], .ok ⟨none⟩⟩) [] [] :=
    rfl
  refine may_run_except_bind (a := ()) (by decide) (may_run_except_bind (a := ()) (by decide) ?_)
  have hzone : may (server effect) (resolveZone (inZone zoneOrg.domain) (lower "_acme-challenge.a.org".toList)).run
      (fun r s' => r = .ok zoneOrg ∧ s' = []) [] := by
    rw [resolveZone]
    refine may_run_bind.2 (may_mono may_listZones ?_)
    rintro r s' ⟨rfl, rfl⟩
    exact ⟨rfl, rfl⟩
  refine may_run_bind.2 (may_mono hzone ?_)
  rintro r s' ⟨rfl, rfl⟩
  refine may_run_except_bind (a := "_acme-challenge".toList) (by decide) (may_withLock rfl ?_)
  refine may_run_bind.2 (may_request hrecords (by simp [Retryable]) ?_)
  refine may_mono may_create ?_
  rintro r s' hr
  exact ⟨s', rfl, hr⟩

end Bunny

namespace Cloudflare

def effect : Req → Effect
  | .create zoneId body => .creates ⟨zoneId, body.name, body.content⟩
  | .delete _ _ => .deletes
  | .zones _ | .list _ _ => .keeps

theorem quiet_resolveZoneName (cfg : CloudflareConfig) (fqdn : Str) :
    Only (Call.CreatesNothing effect) (resolveZoneName cfg fqdn) := by
  unfold resolveZoneName
  split
  · exact (Only.lift _).bind fun _ => .pure _
  · exact .foundZone trivial

theorem quiet_resolveZoneId (cfg : CloudflareConfig) (zoneName : Str) :
    Only (Call.CreatesNothing effect) (resolveZoneId cfg zoneName) := by
  unfold resolveZoneId
  split
  · exact .pure _
  · exact .cached trivial (fun _ => trivial) (quiet_request nofun)

theorem atMost_present (cfg : CloudflareConfig) (fqdn value : Str) : AtMost effect 1 (present cfg fqdn value) := by
  refine .after (.lift _) fun _ => .after (.lift _) fun _ => ?_
  refine .after (quiet_resolveZoneName cfg _) fun zoneName => .after (quiet_resolveZoneId cfg zoneName) fun zoneId => ?_
  exact .withLock (.after (quiet_request nofun) fun existing => .ifMissing (.request rfl rfl))

end Cloudflare

namespace DigitalOcean

def effect : Req → Effect
  | .create zone body => .creates ⟨zone, body.name, body.data⟩
  | .delete _ _ => .deletes
  | .list _ _ _ => .keeps

theorem quiet_resolveZone (cfg : DigitalOceanConfig) (fqdn : Str) :
    Only (Call.CreatesNothing effect) (resolveZone cfg fqdn) := by
  unfold resolveZone
  split
  · exact .pure _
  · exact .foundZone trivial

theorem quiet_listMatchingRecords (zone fqdn : Str) :
    Only (Call.CreatesNothing effect) (listMatchingRecords zone fqdn) := by
  refine .readPages (fun page => ?_) _ _ _
  exact quiet_request nofun

theorem atMost_present (cfg : DigitalOceanConfig) (fqdn value : Str) : AtMost effect 1 (present cfg fqdn value) := by
  refine .after (.lift _) fun _ => .after (.lift _) fun _ => ?_
  refine .after (quiet_resolveZone cfg _) fun zone => .after (.lift _) fun rname => ?_
  exact .withLock (.after (quiet_listMatchingRecords zone _) fun existing => .ifMissing (.request rfl rfl))

end DigitalOcean

namespace Infomaniak

def effect : Req → Effect
  | .create zone body => .creates ⟨zone, body.source, body.target⟩
  | .delete _ _ => .deletes
  | .zone _ | .list _ _ => .keeps

theorem quiet_resolveZone (cfg : InfomaniakConfig) (fqdn : Str) :
    Only (Call.CreatesNothing effect) (resolveZone cfg fqdn) := by
  unfold resolveZone
  split
  · exact .pure _
  · refine .cached trivial (fun _ => trivial) (.bind (.firstSome (fun candidate => ?_) _) fun found => ?_)
    · exact quiet_request nofun
    · cases found with
      | some zone => exact (Only.lift _).bind fun _ => (Only.lift _).bind fun _ => .pure zone
      | none => exact .throw _

theorem quiet_listTxtRecords (zone rname : Str) : Only (Call.CreatesNothing effect) (listTxtRecords zone rname) := by
  refine .readPages (fun page => ?_) _ _ _
  exact quiet_request nofun

theorem atMost_present (cfg : InfomaniakConfig) (fqdn value : Str) : AtMost effect 1 (present cfg fqdn value) := by
  refine .after (.lift _) fun _ => .after (.lift _) fun _ => ?_
  refine .after (quiet_resolveZone cfg fqdn) fun zone => .after (.lift _) fun rname => ?_
  exact .withLock (.after (quiet_listTxtRecords zone rname) fun existing => .ifMissing (.request rfl rfl))

end Infomaniak

namespace Ovh

/-- The records are those of the zone as it is edited, which a refresh leaves as it is. -/
def effect : Req → Effect
  | .create zone subDomain target _ => .creates ⟨zone, subDomain, target⟩
  | .delete _ _ => .deletes
  | .time | .list _ _ | .get _ _ | .refresh _ => .keeps

theorem quiet_resolveZone (cfg : OvhConfig) (fqdn : Str) :
    Only (Call.CreatesNothing effect) (resolveZone cfg fqdn) := by
  unfold resolveZone
  split
  · exact .pure _
  · exact .foundZone trivial

theorem quiet_anyHolds (zone value : Str) : ∀ ids, Only (Call.CreatesNothing effect) (anyHolds zone value ids)
  | [] => .pure false
  | id :: rest => by
    refine .bind (quiet_request nofun) fun record => ?_
    split
    · exact .pure true
    · exact quiet_anyHolds zone value rest

theorem quiet_syncTime (self : OvhProvider) : Only (Call.CreatesNothing effect) (syncTime self) := by
  unfold syncTime
  split
  · exact .pure ()
  · refine .bind (.attempt ?_) fun _ => .pure ()
    exact wp_sendFrom (fun _ => nofun) (fun d => ⟨trivial, fun _ _ _ => rfl⟩) (fun _ _ _ _ => rfl)
      (fun _ _ _ => trivial) _ _

theorem atMost_present (self : OvhProvider) (fqdn value : Str) : AtMost effect 1 (present self fqdn value) := by
  refine .after (.lift _) fun _ => .after (.lift _) fun _ => ?_
  refine .after (quiet_resolveZone self.config _) fun zone => .after (.lift _) fun subDomain => .withLock ?_
  refine .after (quiet_syncTime self) fun _ => .after (quiet_request nofun) fun ids => ?_
  refine .after (quiet_anyHolds zone value ids) fun found => .ifMissing ?_
  refine .bind (m := 1) (n := 0) (.request rfl rfl) fun _ => .of_only ?_
  exact quiet_request nofun

end Ovh

namespace Porkbun

def effect : Req → Effect
  | .create zone fields => .creates ⟨zone, fields.name, fields.content⟩
  | .delete _ _ => .deletes
  | .retrieve _ _ => .keeps

theorem quiet_resolveZone (cfg : PorkbunConfig) (fqdn : Str) :
    Only (Call.CreatesNothing effect) (resolveZone cfg fqdn) := by
  unfold resolveZone
  split
  · exact .pure _
  · exact .foundZone trivial

/-- The record that is created is the only one, also where it is deleted again. -/
theorem atMost_createRecord (cfg : PorkbunConfig) (zone subdomain value : Str) :
    AtMost effect 1 (createRecord cfg zone subdomain value) := by
  refine .bind (n := 0) (.request rfl rfl) fun record => .of_only ?_
  cases record with
  | none => exact .pure ()
  | some record =>
    simp only
    split
    · exact .pure ()
    · split
      · exact .bind (.attempt (quiet_request nofun)) fun _ => .throw _
      · exact .throw _

theorem atMost_present (cfg : PorkbunConfig) (fqdn value : Str) : AtMost effect 1 (present cfg fqdn value) := by
  refine .after (.lift _) fun _ => .after (.lift _) fun _ => ?_
  refine .after (quiet_resolveZone cfg _) fun zone => .after (.lift _) fun subdomain => ?_
  exact .withLock (.after (quiet_request nofun) fun existing => .ifMissing (atMost_createRecord cfg zone subdomain value))

end Porkbun

/-! ## One call of `present` -/

/-- The providers that keep a record of its own for each value. -/
inductive OnePerValue where
  | bunny
  | cloudflare
  | digitalOcean
  | infomaniak
  | ovh
  | porkbun
deriving DecidableEq

structure RecordApi where
  Q : Type
  B : Q → Type
  Config : Type
  effect : Q → Effect
  present : Config → Str → Str → Prog Q B Unit

abbrev OnePerValue.api : OnePerValue → RecordApi
  | .bunny => ⟨_, _, _, Bunny.effect, Bunny.present⟩
  | .cloudflare => ⟨_, _, _, Cloudflare.effect, Cloudflare.present⟩
  | .digitalOcean => ⟨_, _, _, DigitalOcean.effect, DigitalOcean.present⟩
  | .infomaniak => ⟨_, _, _, Infomaniak.effect, Infomaniak.present⟩
  | .ovh => ⟨_, _, _, Ovh.effect, Ovh.present⟩
  | .porkbun => ⟨_, _, _, Porkbun.effect, Porkbun.present⟩

theorem OnePerValue.atMost_present {p : OnePerValue} (h : p ≠ .bunny) (cfg : p.api.Config) (fqdn value : Str) :
    AtMost p.api.effect 1 (p.api.present cfg fqdn value) := by
  cases p with
  | bunny => exact absurd rfl h
  | cloudflare => exact Cloudflare.atMost_present cfg fqdn value
  | digitalOcean => exact DigitalOcean.atMost_present cfg fqdn value
  | infomaniak => exact Infomaniak.atMost_present cfg fqdn value
  | ovh => exact Ovh.atMost_present cfg fqdn value
  | porkbun => exact Porkbun.atMost_present cfg fqdn value

open Fut

/-- **Resends do not duplicate a record**, from whatever records are there and whatever the server does:
exactly for the providers that create with a POST. -/
theorem present_adds_at_most_one_iff (p : OnePerValue) :
    (∀ (cfg : p.api.Config) (fqdn value : Str) (s s' : List TxtRecord) (t : List (Ev (Call p.api.Q) (Reply p.api.B)))
      (r : Except DnsError Unit), (p.api.present cfg fqdn value).run.Runs t r → Chain (server p.api.effect) t s s' →
      s'.countP (TxtRecord.holds value) ≤ s.countP (TxtRecord.holds value) + 1) ↔ p ≠ .bunny := by
  constructor
  · rintro h rfl
    obtain ⟨t, r, s', hrun, hchain, -, rfl⟩ := Bunny.may_add_two.exists_run
    have hcount := h _ _ _ _ _ _ _ hrun hchain
    revert hcount
    decide
  · intro hp cfg fqdn value s s' t r hrun hchain
    exact (OnePerValue.atMost_present hp cfg fqdn value).countP_le hrun hchain _

/-- Bunny's PUT is answered with a 503 and sent again, and both are carried out. -/
theorem bunny_present_adds_two : ∃ t s',
    (Bunny.present (Bunny.inZone "a.org".toList) "_acme-challenge.a.org".toList "x".toList).run.Runs t (.ok ()) ∧
    Chain (server Bunny.effect) t [] s' ∧ s'.countP (TxtRecord.holds "x".toList) = 2 := by
  obtain ⟨t, r, s', hrun, hchain, rfl, rfl⟩ := Bunny.may_add_two.exists_run
  exact ⟨t, _, hrun, hchain, by decide⟩

end Cheti
