import Cheti.ZoneLookup
import Cheti.Paging
import Cheti.RelativeNames
import Cheti.Providers.Bunny
import Cheti.Providers.GoogleCloudDns
import Cheti.Providers.Hetzner
import Cheti.Providers.Infomaniak
import Cheti.Providers.PowerDns
import Cheti.Providers.Route53
/-!
# The zone of a name, for the providers that ask their API

PowerDNS, Infomaniak and Route53 walk down from the name, Hetzner walks up from its last two labels, Bunny
and Google Cloud DNS list zones and take the longest match.
-/

namespace Cheti

open Fut LongestSuffix

section Walks

variable {Q : Type} {B : Q → Type} {Z β : Type} {serves : (q : Q) → Response (B q) → Prop} {s : Str → Option Str}
  {name : Z → Str} {zones : List Z} {fqdn : Str}

variable (name zones) in
/-- A result that stands for the zone, or says that there is none. -/
abbrev FoundZone (answer : Z → β) (fqdn asked : Str) : Except DnsError β → Prop :=
  Gives (fun b => ∃ z, Longest (fun z => labelsOf (name z)) zones (labelsOf fqdn) z ∧ answer z = b)
    fun e => NoMatch (fun z => labelsOf (name z)) zones (labelsOf fqdn) ∧ e = .zoneNotFound asked

/-- **The walk down**, where each candidate is asked for. -/
theorem Account.wp_walkDown {lookup : Str → Prog Q B (Option β)} {answer : Z → β} {γ : Type} {f : Option β → Prog Q B γ}
    {Post : Except DnsError γ → Prop} (h : Account name zones) (hf : validateFqdn fqdn = .ok ())
    (hlookup : ∀ candidate, wp (fun _ _ => True) (zoneEnv serves) (lookup candidate).run (fun r s' => s' = s ∧
      r = .ok ((named name zones candidate).map answer)) s)
    (hsome : ∀ z, Longest (fun z => labelsOf (name z)) zones (labelsOf fqdn) z →
      wp (fun _ _ => True) (zoneEnv serves) (f (some (answer z))).run (fun r s' => s' = s ∧ Post r) s)
    (hnone : NoMatch (fun z => labelsOf (name z)) zones (labelsOf fqdn) →
      wp (fun _ _ => True) (zoneEnv serves) (f none).run (fun r s' => s' = s ∧ Post r) s) :
    wp (fun _ _ => True) (zoneEnv serves) (firstSome lookup (suffixes (labelsOf fqdn)) >>= f).run
      (fun r s' => s' = s ∧ Post r) s := by
  rw [wp_run_bind]
  refine wp_mono (wp_firstSome _ fun c _ => hlookup c) ?_
  rintro r s' ⟨rfl, rfl⟩
  have hwalk := h.walkDown hf
  have hmap : (suffixes (labelsOf fqdn)).findSome? (fun c => (named name zones c).map answer) =
      ((suffixes (labelsOf fqdn)).findSome? (named name zones)).map answer := (List.map_findSome? ..).symm
  simp only [hmap]
  cases hfound : (suffixes (labelsOf fqdn)).findSome? (named name zones) with
  | some z =>
    rw [hfound] at hwalk
    exact hsome z hwalk
  | none =>
    rw [hfound] at hwalk
    exact hnone hwalk

/-- The zone that was reported is checked before it is used. -/
theorem Account.wp_checked (h : Account name zones) (hf : validateFqdn fqdn = .ok ()) {z : Z}
    (hz : Longest (fun z => labelsOf (name z)) zones (labelsOf fqdn) z) :
    wp (fun _ _ => True) (zoneEnv serves) (do
      validateZone (normalizeName (name z))
      let _ ← relativeName (normalizeName fqdn) (normalizeName (name z))
      return normalizeName (name z) : Prog Q B Str).run
      (fun r s' => s' = s ∧ FoundZone name zones (fun z => normalizeName (name z)) fqdn fqdn r) s := by
  have hvalid := validateZone_of_suffix hf hz.suffix (h.twoLabels z hz.mem)
  obtain ⟨rname, hrname⟩ := relativeName_of_suffix hz.suffix
  rw [relativeName_lower] at hrname
  rw [hvalid, hrname]
  exact ⟨rfl, z, hz, rfl⟩

/-- A GET of a name: the zone, or a 404. -/
def FoundOr404 (found : Option Z) (status : StatusCode) (shows : Z → Prop) : Prop :=
  match found with
  | some z => status.isSuccess = true ∧ shows z
  | none => status.asU16 = 404

theorem FoundOr404.final {D : Type} {found : Option Z} {resp : Response D} {shows : Z → Prop} {method : Method}
    (h : FoundOr404 found resp.status shows) : ¬ Retryable method resp := by
  intro hretry
  cases found with
  | some z => exact StatusCode.not_throttled h.1 (hretry.imp_right And.left)
  | none =>
    have h404 : resp.status.asU16 = 404 := h
    rcases hretry with hr | ⟨hr, -⟩ <;> omega

theorem FoundOr404.mono {found : Option Z} {status : StatusCode} {shows shows' : Z → Prop} (h : FoundOr404 found status shows)
    (hshows : ∀ z, shows z → shows' z) : FoundOr404 found status shows' := by
  cases found with
  | some z => exact ⟨h.1, hshows z h.2⟩
  | none => exact h

theorem FoundOr404.exists {D : Type} (found : Option Z) (body : Z → D) : ∃ resp : Response D,
    FoundOr404 found resp.status fun z => resp.body = .ok (body z) := by
  cases found with
  | some z => exact ⟨⟨⟨200, ""⟩, none, none, none, [], .ok (body z)⟩, rfl, rfl⟩
  | none => exact ⟨⟨⟨404, ""⟩, none, none, none, [], .error ""⟩, rfl⟩

variable (name zones) in
/-- An entry of the cache is the zone found for that name. -/
def GoodEntry (answer : Z → Str) (n zone : Str) : Prop :=
  ∃ z, Longest (fun z => labelsOf (name z)) zones (n.splitOn '.') z ∧ answer z = zone

variable (name zones) in
def SoundCache (answer : Z → Str) (cache : Str → Option Str) : Prop :=
  ∀ n zone, cache n = some zone → GoodEntry name zones answer n zone

theorem soundCache_empty (answer : Z → Str) : SoundCache name zones answer fun _ => none := nofun

end Walks

namespace ZoneApi

variable {a : ZoneApi} {w : a.World}

theorem Right.of_found {fqdn : Str} {r : Except DnsError a.Answer}
    (h : FoundZone a.name (a.zones w) a.answer fqdn (a.asked fqdn) r)
    (hnext : ∀ z, a.labels z <:+ labelsOf fqdn → ∃ n, a.next fqdn (a.answer z) = .ok n) : a.Right w fqdn r := by
  cases r with
  | error e =>
    obtain ⟨hnone, rfl⟩ := h
    exact .none hnone
  | ok answer =>
    obtain ⟨z, hz, rfl⟩ := h
    exact .of_longest hz (hnext z hz.suffix)

/-- Every lookup finds the zone. -/
theorem findsLongest_of_found {I : (Str → Option Str) → Prop} (hempty : I fun _ => none)
    (h : ∀ (c : a.Lookup) s, I s → wp (fun _ _ => True) (zoneEnv (a.serves w)) c.prog (fun r s' => I s' ∧
      FoundZone a.name (a.zones w) a.answer c.fqdn (a.asked c.fqdn) r) s)
    {fqdn : Str} (hnext : ∀ z, a.labels z <:+ labelsOf fqdn → ∃ n, a.next fqdn (a.answer z) = .ok n) :
    a.FindsLongest w fqdn := by
  refine findsLongest_of hempty (fun c s hs => wp_mono (h c s hs) fun _ _ => And.left) ?_
  rintro c s rfl hs
  exact wp_mono (h c s hs) fun r _ hr => .of_found hr.2 hnext

end ZoneApi

/-! ## PowerDNS -/

namespace PowerDns

/-- The zones that the server has. -/
structure Directory where
  zones : List PdnsZone
  account : Account PdnsZone.name zones

def zoneServes (w : Directory) : (q : Req) → Response q.Doc → Prop
  | .zone candidate, resp => FoundOr404 (named PdnsZone.name w.zones candidate) resp.status fun z => resp.body = .ok z
  | .rrsets _ _, _ | .patch _ _, _ => True

theorem zoneServes_answers (w : Directory) (q : Req) : ∃ resp, zoneServes w q resp := by
  cases q with
  | zone candidate => exact FoundOr404.exists _ id
  | rrsets | patch => exact ⟨⟨⟨200, ""⟩, none, none, none, [], .error ""⟩, trivial⟩

def zoneApi : ZoneApi where
  Q := Req
  B := Req.Doc
  Config := PowerDnsConfig
  Zone := PdnsZone
  Answer := Str
  World := Directory
  zones := Directory.zones
  name := PdnsZone.name
  account := Directory.account
  serves := zoneServes
  answered := zoneServes_answers
  answer z := normalizeName z.name
  Automatic cfg := cfg.zoneOverride = none
  asked fqdn := fqdn
  resolveZone := resolveZone
  next fqdn zone := relativeName (lower fqdn) zone

variable {w : Directory} {s : Str → Option Str} {fqdn : Str}

theorem wp_fetchZone (cfg : PowerDnsConfig) (candidate : Str) :
    wp (fun _ _ => True) (zoneEnv (zoneServes w)) (fetchZone cfg candidate).run (fun r s' => s' = s ∧
      r = .ok ((named PdnsZone.name w.zones candidate).map fun z => normalizeName z.name)) s := by
  refine wp_ask (fun _ => FoundOr404.final) fun resp h => ?_
  have h : FoundOr404 (named PdnsZone.name w.zones candidate) resp.status fun z => resp.body = .ok z := h
  cases hfound : named PdnsZone.name w.zones candidate with
  | some z =>
    rw [hfound] at h
    rw [if_neg (StatusCode.ne_404 h.1)]
    simp [check_ok h.1, Response.json_ok h.2, normalizeName]
  | none =>
    rw [hfound] at h
    have h404 : resp.status.asU16 = 404 := h
    rw [if_pos h404]
    rfl

theorem wp_lookupZone (cfg : PowerDnsConfig) (hf : validateFqdn fqdn = .ok ()) :
    wp (fun _ _ => True) (zoneEnv (zoneServes w)) (lookupZone cfg fqdn (normalizeName fqdn)).run (fun r s' => s' = s ∧
      FoundZone PdnsZone.name w.zones (fun z => normalizeName z.name) fqdn fqdn r) s :=
  w.account.wp_walkDown hf (wp_fetchZone cfg) (fun _ => w.account.wp_checked hf) fun hnone => ⟨rfl, hnone, rfl⟩

theorem findsLongest (w : Directory) (fqdn : Str) : zoneApi.FindsLongest w fqdn := by
  refine ZoneApi.findsLongest_of_found (I := SoundCache PdnsZone.name w.zones fun z => normalizeName z.name)
    (soundCache_empty _) (fun c s hs => ?_) fun z => relativeName_of_suffix
  obtain ⟨cfg, hcfg, fqdn, hf⟩ := c
  have hcfg : cfg.zoneOverride = none := hcfg
  have hresolve : resolveZone cfg fqdn = cached (normalizeName fqdn) (lookupZone cfg fqdn (normalizeName fqdn)) := by
    simp only [resolveZone, hcfg]
  show wp _ _ (resolveZone cfg fqdn).run _ s
  rw [hresolve]
  exact wp_cached hs (wp_lookupZone cfg hf)

end PowerDns

/-! ## Infomaniak -/

namespace Infomaniak

structure Directory where
  zones : List IkZone
  account : Account IkZone.fqdn zones

def zoneServes (w : Directory) : (q : Req) → Response q.Doc → Prop
  | .zone candidate, resp => FoundOr404 (named IkZone.fqdn w.zones candidate) resp.status fun z =>
      ∃ body, resp.body = .ok body ∧ body.result = "success".toList ∧ body.data = some z
  | .list _ _, _ | .create _ _, _ | .delete _ _, _ => True

theorem zoneServes_answers (w : Directory) (q : Req) : ∃ resp, zoneServes w q resp := by
  cases q with
  | zone candidate =>
    obtain ⟨resp, h⟩ := FoundOr404.exists (named IkZone.fqdn w.zones candidate)
      fun z => (⟨"success".toList, some z, none, none⟩ : IkEnvelope IkZone)
    exact ⟨resp, h.mono fun z hz => ⟨_, hz, rfl, rfl⟩⟩
  | list | create | delete => exact ⟨⟨⟨200, ""⟩, none, none, none, [], .error ""⟩, trivial⟩

def zoneApi : ZoneApi where
  Q := Req
  B := Req.Doc
  Config := InfomaniakConfig
  Zone := IkZone
  Answer := Str
  World := Directory
  zones := Directory.zones
  name := IkZone.fqdn
  account := Directory.account
  serves := zoneServes
  answered := zoneServes_answers
  answer z := normalizeName z.fqdn
  Automatic cfg := cfg.zoneOverride = none
  asked fqdn := fqdn
  resolveZone := resolveZone
  next fqdn zone := relativeName (lower fqdn) zone

variable {w : Directory} {s : Str → Option Str} {fqdn : Str}

theorem wp_fetchZone (candidate : Str) :
    wp (fun _ _ => True) (zoneEnv (zoneServes w)) (fetchZone candidate).run (fun r s' => s' = s ∧
      r = .ok ((named IkZone.fqdn w.zones candidate).map fun z => normalizeName z.fqdn)) s := by
  refine wp_ask (fun _ => FoundOr404.final) fun resp h => ?_
  have h : FoundOr404 (named IkZone.fqdn w.zones candidate) resp.status fun z =>
      ∃ body, resp.body = .ok body ∧ body.result = "success".toList ∧ body.data = some z := h
  cases hfound : named IkZone.fqdn w.zones candidate with
  | some z =>
    rw [hfound] at h
    obtain ⟨hsucc, body, hbody, hresult, hdata⟩ := h
    have hinto : body.intoData "GET" (zonePath candidate) = .ok z := IkEnvelope.intoData_ok.2 ⟨hresult, hdata⟩
    rw [if_neg (StatusCode.ne_404 hsucc)]
    simp [check_ok hsucc, Response.json_ok hbody, hinto, normalizeName]
  | none =>
    rw [hfound] at h
    have h404 : resp.status.asU16 = 404 := h
    rw [if_pos h404]
    rfl

theorem wp_lookupZone (hf : validateFqdn fqdn = .ok ()) :
    wp (fun _ _ => True) (zoneEnv (zoneServes w)) (lookupZone fqdn (normalizeName fqdn)).run (fun r s' => s' = s ∧
      FoundZone IkZone.fqdn w.zones (fun z => normalizeName z.fqdn) fqdn fqdn r) s :=
  w.account.wp_walkDown hf wp_fetchZone (fun _ => w.account.wp_checked hf) fun hnone => ⟨rfl, hnone, rfl⟩

theorem findsLongest (w : Directory) (fqdn : Str) : zoneApi.FindsLongest w fqdn := by
  refine ZoneApi.findsLongest_of_found (I := SoundCache IkZone.fqdn w.zones fun z => normalizeName z.fqdn)
    (soundCache_empty _) (fun c s hs => ?_) fun z => relativeName_of_suffix
  obtain ⟨cfg, hcfg, fqdn, hf⟩ := c
  have hcfg : cfg.zoneOverride = none := hcfg
  have hresolve : resolveZone cfg fqdn = cached (normalizeName fqdn) (lookupZone fqdn (normalizeName fqdn)) := by
    simp only [resolveZone, hcfg]
  show wp _ _ (resolveZone cfg fqdn).run _ s
  rw [hresolve]
  exact wp_cached hs (wp_lookupZone hf)

end Infomaniak

/-! ## Route53 -/

namespace Route53

/-- The public zones; their ids are those of hosted zones. -/
structure Directory where
  zones : List HostedZone
  account : Account HostedZone.name zones
  isPublic : ∀ z ∈ zones, z.config.getD false = false
  ids : ∀ z ∈ zones, ∃ id, normalizeId z.id "/hostedzone/".toList = some id

/-- The listing by name starts with the zones of that name. There may be more: private ones, other names. -/
def zoneServes (w : Directory) : (q : Req) → Response q.Doc → Prop
  | .zonesByName candidate, resp => resp.status.isSuccess = true ∧ ∃ docs, resp.body = .ok docs ∧
      ((docs.filter fun z => normalizeName z.name = candidate).filter fun z => !z.config.getD false).Perm
        (w.zones.filter fun z => normalizeName z.name = candidate)
  | .rrset _ _, _ | .change _ _ _ _, _ | .getChange _, _ => True

theorem zoneServes_answers (w : Directory) (q : Req) : ∃ resp, zoneServes w q resp := by
  cases q with
  | zonesByName candidate =>
    refine ⟨⟨⟨200, ""⟩, none, none, none, [], .ok w.zones⟩, rfl, w.zones, rfl, .of_eq ?_⟩
    rw [List.filter_eq_self]
    intro z hz
    simp [w.isPublic z (List.mem_filter.1 hz).1]
  | rrset | change | getChange => exact ⟨⟨⟨200, ""⟩, none, none, none, [], .error ""⟩, trivial⟩

def zoneId (z : HostedZone) : Str := (normalizeId z.id "/hostedzone/".toList).getD []

def zoneApi : ZoneApi where
  Q := Req
  B := Req.Doc
  Config := Route53Config
  Zone := HostedZone
  Answer := Str
  World := Directory
  zones := Directory.zones
  name := HostedZone.name
  account := Directory.account
  serves := zoneServes
  answered := zoneServes_answers
  answer := zoneId
  Automatic cfg := cfg.hostedZoneId = none
  asked fqdn := fqdn
  resolveZone := resolveZone
  next fqdn _ := .ok (absolute fqdn)

variable {w : Directory} {s : Str → Option Str} {fqdn : Str}

/-- A request that is answered at once. -/
theorem wp_send_ask {serves : (q : Req) → Response q.Doc → Prop} (cfg : Route53Config) (method : Method) (verb : String)
    (path : Str) {q : Req} {Doc : q.Doc → Prop}
    (h : ∀ resp, serves q resp → resp.status.isSuccess = true ∧ ∃ doc, resp.body = .ok doc ∧ Doc doc) :
    wp (fun _ _ => True) (zoneEnv serves) (send cfg method verb path q).run (fun r s' => s' = s ∧
      ∃ doc, r = .ok doc ∧ Doc doc) s := by
  rw [send, wp_run_bind, sendLoop.eq_def, wp_run_bind]
  refine wp_sendRetrying trivial (fun d => ⟨trivial, fun _ _ h => h⟩) (fun _ _ h _ => h.2) ?_
  rintro r s' ⟨⟨resp, rfl, hresp⟩, rfl⟩
  obtain ⟨hsucc, doc, hdoc, hDoc⟩ := h resp hresp
  simp only [Except.mapError, hsucc, if_true]
  exact ⟨rfl, doc, by simp [parseXml, hdoc, Except.mapError], hDoc⟩

theorem wp_findPublicZone (cfg : Route53Config) (candidate : Str) :
    wp (fun _ _ => True) (zoneEnv (zoneServes w)) (findPublicZone cfg candidate).run (fun r s' => s' = s ∧
      r = .ok ((named HostedZone.name w.zones candidate).map zoneId)) s := by
  rw [findPublicZone, wp_run_bind]
  refine wp_mono (wp_send_ask cfg .get "GET" _ fun resp h => h) ?_
  rintro r s' ⟨rfl, docs, rfl, hperm⟩
  rw [w.account.filter_eq] at hperm
  cases hfound : named HostedZone.name w.zones candidate with
  | none =>
    rw [hfound] at hperm
    simp only [List.perm_nil.1 hperm]
    exact ⟨rfl, rfl⟩
  | some z =>
    rw [hfound] at hperm
    obtain ⟨id, hid⟩ := w.ids z (named_eq_some hfound).1
    simp only [List.perm_singleton.1 hperm, hid]
    exact ⟨rfl, by rw [Option.map_some, zoneId, hid]; rfl⟩

theorem wp_lookupZone (cfg : Route53Config) (hf : validateFqdn fqdn = .ok ()) :
    wp (fun _ _ => True) (zoneEnv (zoneServes w)) (lookupZone cfg fqdn (normalizeName fqdn)).run (fun r s' => s' = s ∧
      FoundZone HostedZone.name w.zones zoneId fqdn fqdn r) s :=
  w.account.wp_walkDown hf (wp_findPublicZone cfg) (fun z hz => ⟨rfl, z, hz, rfl⟩) fun hnone => ⟨rfl, hnone, rfl⟩

theorem findsLongest (w : Directory) (fqdn : Str) : zoneApi.FindsLongest w fqdn := by
  refine ZoneApi.findsLongest_of_found (I := SoundCache HostedZone.name w.zones zoneId) (soundCache_empty _)
    (fun c s hs => ?_) fun z _ => ⟨_, rfl⟩
  obtain ⟨cfg, hcfg, fqdn, hf⟩ := c
  have hcfg : cfg.hostedZoneId = none := hcfg
  have hresolve : resolveZone cfg fqdn = cached (normalizeName fqdn) (lookupZone cfg fqdn (normalizeName fqdn)) := by
    simp only [resolveZone, hcfg]
  show wp _ _ (resolveZone cfg fqdn).run _ s
  rw [hresolve]
  exact wp_cached hs (wp_lookupZone cfg hf)

end Route53

/-! ## Hetzner -/

namespace Hetzner

structure Directory where
  zones : List HetznerZone
  account : Account HetznerZone.name zones

/-- The listing has the zones of the name, spelled as they are reported. -/
def zoneServes (w : Directory) : (q : Req) → Response q.Doc → Prop
  | .zones candidate, resp => resp.status.isSuccess = true ∧ ∃ docs, resp.body = .ok ⟨docs⟩ ∧
      (∀ z ∈ w.zones, normalizeName z.name = candidate → z ∈ docs) ∧ ∀ z ∈ docs, z ∈ w.zones
  | .rrset _ _, _ | .action _ _ _ _, _ | .getAction _, _ => True

theorem zoneServes_answers (w : Directory) (q : Req) : ∃ resp, zoneServes w q resp := by
  cases q with
  | zones candidate =>
    exact ⟨⟨⟨200, ""⟩, none, none, none, [], .ok ⟨w.zones⟩⟩, rfl, w.zones, rfl, fun _ hz _ => hz, fun _ hz => hz⟩
  | rrset | action | getAction => exact ⟨⟨⟨200, ""⟩, none, none, none, [], .error ""⟩, trivial⟩

def zoneApi : ZoneApi where
  Q := Req
  B := Req.Doc
  Config := HetznerConfig
  Zone := HetznerZone
  Answer := Str
  World := Directory
  zones := Directory.zones
  name := HetznerZone.name
  account := Directory.account
  serves := zoneServes
  answered := zoneServes_answers
  answer z := normalizeName z.name
  Automatic cfg := cfg.zoneOverride = none
  asked fqdn := fqdn
  resolveZone := resolveZone
  next fqdn zone := relativeName (lower fqdn) zone

variable {w : Directory} {s : Str → Option Str} {fqdn : Str}

/-- A zone is recognized by the bytes of its name. -/
theorem wp_zoneExists {candidate : Str} (hc : normalizeName candidate = candidate) :
    wp (fun _ _ => True) (zoneEnv (zoneServes w)) (zoneExists candidate).run (fun r s' => s' = s ∧
      r = .ok (w.zones.any (·.name = candidate))) s := by
  refine wp_ask (fun resp h hretry => StatusCode.not_throttled h.1 (hretry.imp_right And.left)) fun resp h => ?_
  obtain ⟨hsucc, docs, hbody, hlisted, honly⟩ := h
  have hany : docs.any (·.name = candidate) = w.zones.any (·.name = candidate) := by
    rw [Bool.eq_iff_iff, List.any_eq_true, List.any_eq_true]
    constructor
    · rintro ⟨z, hz, hname⟩
      exact ⟨z, honly z hz, hname⟩
    · rintro ⟨z, hz, hname⟩
      have he : z.name = candidate := by simpa using hname
      exact ⟨z, hlisted z hz (he ▸ hc), hname⟩
  simp [check_ok hsucc, Response.json_ok hbody, hany]

/-- The walk up: the shortest candidate that is the reported name of a zone. -/
def shortest (w : Directory) (fqdn : Str) : Option Str :=
  (suffixes (labelsOf fqdn)).reverse.find? fun candidate => w.zones.any (·.name = candidate)

theorem wp_resolveZone {cfg : HetznerConfig} (hcfg : cfg.zoneOverride = none) (hf : validateFqdn fqdn = .ok ()) :
    wp (fun _ _ => True) (zoneEnv (zoneServes w)) (resolveZone cfg fqdn).run (fun r s' => s' = s ∧
      r = (shortest w fqdn).elim (.error (.zoneNotFound fqdn)) .ok) s := by
  have hlookup : ∀ candidate ∈ (suffixes (labelsOf fqdn)).reverse, wp (fun _ _ => True) (zoneEnv (zoneServes w))
      (do if ← zoneExists candidate then return some candidate else return none : M (Option Str)).run
      (fun r s' => s' = s ∧ r = .ok (Option.guard (fun c => w.zones.any (·.name = c)) candidate)) s := by
    intro candidate hc
    rw [wp_run_bind]
    refine wp_mono (wp_zoneExists (normalizeName_candidate hf (List.mem_reverse.1 hc))) ?_
    rintro r s' ⟨rfl, rfl⟩
    cases hany : w.zones.any (·.name = candidate) with
    | true => exact ⟨rfl, by rw [Option.guard, hany]; rfl⟩
    | false => exact ⟨rfl, by rw [Option.guard, hany]; rfl⟩
  simp only [resolveZone, hcfg]
  rw [wp_run_bind]
  refine wp_mono (wp_firstSome _ hlookup) ?_
  rintro r s' ⟨rfl, rfl⟩
  have hfind : (suffixes ((normalizeName fqdn).splitOn '.')).reverse.findSome?
      (Option.guard fun c => w.zones.any (·.name = c)) = shortest w fqdn := List.findSome?_guard
  rw [hfind]
  cases shortest w fqdn with
  | some candidate => exact ⟨rfl, rfl⟩
  | none => exact ⟨rfl, rfl⟩

/-- A zone that is found. -/
theorem shortest_eq_some {candidate : Str} (hf : validateFqdn fqdn = .ok ()) (h : shortest w fqdn = some candidate) :
    ∃ z ∈ w.zones, z.name = candidate ∧ normalizeName z.name = candidate ∧ labelsOf z.name <:+ labelsOf fqdn := by
  unfold shortest at h
  have hc : candidate ∈ suffixes (labelsOf fqdn) := List.mem_reverse.1 (List.mem_of_find?_eq_some h)
  have hany := List.find?_some h
  simp only [List.any_eq_true, decide_eq_true_eq] at hany
  obtain ⟨z, hz, hname⟩ := hany
  have hnorm : normalizeName z.name = candidate := by rw [hname, normalizeName_candidate hf hc]
  refine ⟨z, hz, hname, hnorm, ?_⟩
  rwa [← normalizeName_mem_suffixes hf (w.account.twoLabels z hz), hnorm]

theorem shortest_eq_none (h : shortest w fqdn = none) {candidate : Str} (hc : candidate ∈ suffixes (labelsOf fqdn)) :
    ∀ z ∈ w.zones, z.name ≠ candidate := by
  have hnone := List.find?_eq_none.1 h candidate (List.mem_reverse.2 hc)
  simpa using hnone

theorem found_of_normalized (hf : validateFqdn fqdn = .ok ()) (hone : zoneApi.AtMostOne w fqdn)
    (h : zoneApi.ReportedNormalized w fqdn) :
    FoundZone HetznerZone.name w.zones (fun z => normalizeName z.name) fqdn fqdn
      ((shortest w fqdn).elim (.error (.zoneNotFound fqdn)) .ok) := by
  cases hshortest : shortest w fqdn with
  | some candidate =>
    obtain ⟨z, hz, -, hnorm, hsuffix⟩ := shortest_eq_some hf hshortest
    exact ⟨z, .of_only hz hsuffix fun z' hz' hs' => hone z hz z' hz' hsuffix hs', hnorm⟩
  | none =>
    refine ⟨fun z hz hsuffix => ?_, rfl⟩
    have hc := (normalizeName_mem_suffixes hf (w.account.twoLabels z hz)).2 hsuffix
    exact shortest_eq_none hshortest hc z hz (h z hz hsuffix).symm

/-- A zone that is reported otherwise is not found. -/
theorem shortest_of_spelled (hf : validateFqdn fqdn = .ok ()) (hone : zoneApi.AtMostOne w fqdn) {z : HetznerZone} (hz : z ∈ w.zones)
    (hsuffix : labelsOf z.name <:+ labelsOf fqdn) (hspelled : normalizeName z.name ≠ z.name) : shortest w fqdn = none := by
  cases hshortest : shortest w fqdn with
  | none => rfl
  | some candidate =>
    obtain ⟨z', hz', hname, hnorm, hs'⟩ := shortest_eq_some hf hshortest
    obtain rfl := hone z hz z' hz' hsuffix hs'
    exact absurd (hnorm.trans hname.symm) hspelled

theorem findsLongest_iff (hf : validateFqdn fqdn = .ok ()) (hone : zoneApi.AtMostOne w fqdn) :
    zoneApi.FindsLongest w fqdn ↔ zoneApi.ReportedNormalized w fqdn := by
  constructor
  · intro hfinds z hz hsuffix
    by_contra hspelled
    let cfg : HetznerConfig := ⟨none, 60⟩
    obtain ⟨⟨t, r, cache, hrun, hchain⟩, hright⟩ := hfinds [] _ (.nil _) ⟨cfg, rfl, fqdn, hf⟩ rfl
    have hrun' : (resolveZone cfg fqdn).run.Runs t r := hrun
    have hr := ((wp_resolveZone rfl hf).of_runs hrun' hchain).2
    rw [shortest_of_spelled hf hone hz hsuffix hspelled] at hr
    subst hr
    exact (hright t _ cache hrun hchain).noMatch z hz hsuffix
  · intro hreported
    refine ZoneApi.findsLongest_of (I := fun _ => True) trivial (fun c s _ => wp_of_kept (fun _ _ _ _ _ h => h) _ trivial) ?_
    rintro ⟨cfg, hcfg, fqdn, hf⟩ s rfl -
    refine wp_mono (wp_resolveZone hcfg hf) ?_
    rintro r s' ⟨-, rfl⟩
    exact .of_found (found_of_normalized hf hone hreported) fun z => relativeName_of_suffix

end Hetzner

/-! ## Bunny -/

namespace Bunny

/-- The zones, and the pages of a search: the zones whose domain contains what is searched for, in any letter
case. There may be other zones of the account among them. -/
structure Directory where
  zones : List BunnyZoneSummary
  account : Account BunnyZoneSummary.domain zones
  pages : Str → List (List BunnyZoneSummary)
  complete : ∀ search, ∀ z ∈ zones, lower search <:+: lower z.domain → z ∈ (pages search).flatten
  only : ∀ search, ∀ z ∈ (pages search).flatten, z ∈ zones
  few : ∀ search, (pages search).length ≤ maxPages

def zoneServes (w : Directory) : (q : Req) → Response q.Doc → Prop
  | .zones search page, resp => resp.status.isSuccess = true ∧ ∃ body, resp.body = .ok body ∧
      body.items.getD [] = (w.pages search).getD (page - 1) [] ∧
      (body.hasMoreItems = true ↔ page < (w.pages search).length)
  | .zone _, _ | .create _ _, _ | .delete _ _, _ => True

theorem zoneServes_answers (w : Directory) (q : Req) : ∃ resp, zoneServes w q resp := by
  cases q with
  | zones search page =>
    exact ⟨⟨⟨200, ""⟩, none, none, none, [], .ok ⟨some ((w.pages search).getD (page - 1) []),
      decide (page < (w.pages search).length)⟩⟩, rfl, _, rfl, rfl, decide_eq_true_iff⟩
  | zone | create | delete => exact ⟨⟨⟨200, ""⟩, none, none, none, [], .error ""⟩, trivial⟩

/-- A zone as the listing reads it. -/
def readZone (z : BunnyZoneSummary) : Zone := ⟨z.id, normalizeName z.domain⟩

def zoneApi : ZoneApi where
  Q := Req
  B := Req.Doc
  Config := BunnyConfig
  Zone := BunnyZoneSummary
  Answer := Zone
  World := Directory
  zones := Directory.zones
  name := BunnyZoneSummary.domain
  account := Directory.account
  serves := zoneServes
  answered := zoneServes_answers
  answer := readZone
  Automatic cfg := cfg.zoneOverride = none
  asked := lower
  resolveZone := resolveZone
  next fqdn zone := bunnyName (lower fqdn) zone.domain

variable {w : Directory} {s : Str → Option Str} {fqdn domain : Str}

theorem wp_listZones (cfg : BunnyConfig) (search : Str) :
    wp (fun _ _ => True) (zoneEnv (zoneServes w)) (listZones cfg search).run (fun r s' => s' = s ∧
      r = .ok ((w.pages search).flatten.map readZone)) s := by
  rw [List.map_flatten]
  refine wp_readPages_all ((w.pages search).map (List.map readZone)) (fun page => ?_) ?_
  · refine wp_ask (fun resp h hretry => StatusCode.not_throttled h.1 (hretry.imp_right And.left)) fun resp h => ?_
    obtain ⟨hsucc, body, hbody, hitems, hmore⟩ := h
    refine ⟨_, by rw [check_ok hsucc, Response.json_ok hbody]; rfl, ?_, ?_⟩
    · show (body.items.getD []).map readZone = _
      rw [hitems, List.getD_eq_getElem?_getD, List.getD_eq_getElem?_getD, List.getElem?_map]
      exact (Option.getD_map (List.map readZone) [] _).symm
    · rw [List.length_map, ← not_lt, ← hmore]
      cases body.hasMoreItems <;> simp
  · rw [List.length_map]
    exact w.few search

/-- The zone is the name itself or one of its parent domains. -/
theorem isSuffix_iff (hf : validateFqdn fqdn = .ok ()) :
    isSuffix (normalizeName fqdn) (normalizeName domain) = true ↔ labelsOf domain <:+ labelsOf fqdn := by
  have hascii : ∀ c ∈ normalizeName fqdn, c.utf8Size = 1 := by
    rw [← joinDots_labelsOf]
    exact ascii_joinDots (nameOk_labelsOf hf).label
  have hlower : ∀ name : Str, lower (normalizeName name) = normalizeName name := fun _ => lower_lower _
  rw [Bunny.isSuffix_iff_within hascii, hlower, hlower, within_iff_labels]

/-- What is searched for is in the domain of every zone that has the name in it. -/
theorem search_in_domain (hf : validateFqdn fqdn = .ok ()) (h : labelsOf domain <:+ labelsOf fqdn)
    (h2 : 2 ≤ (labelsOf domain).length) :
    lower (joinDots ((labelsOf fqdn).drop ((labelsOf fqdn).length - 2))) <:+: lower domain := by
  have hlen := h.length_le
  have hlast : (labelsOf fqdn).drop ((labelsOf fqdn).length - 2) <:+ labelsOf domain := by
    refine List.suffix_of_suffix_length_le (List.drop_suffix _ _) h ?_
    rw [List.length_drop]
    omega
  have hwithin : Within (normalizeName domain) (joinDots ((labelsOf fqdn).drop ((labelsOf fqdn).length - 2))) := by
    rw [within_iff_suffix, splitOn_joinDots_drop hf (by omega)]
    exact hlast
  have hsuffix : joinDots ((labelsOf fqdn).drop ((labelsOf fqdn).length - 2)) <:+ normalizeName domain := by
    rcases hwithin with he | ⟨front, he⟩
    · rw [he]
    · exact ⟨front ++ ['.'], by rw [he, List.append_assoc]; rfl⟩
  have hlower : (normalizeName domain).map Char.toLower = normalizeName domain := lower_lower _
  have hmap := hsuffix.map Char.toLower
  rw [hlower] at hmap
  have hprefix : normalizeName domain <+: lower domain := (List.rdropWhile_prefix _ _).map _
  exact hmap.isInfix.trans hprefix.isInfix

/-- The longest of the listed zones. -/
theorem found_maxByKey (hf : validateFqdn fqdn = .ok ()) {listed : List BunnyZoneSummary}
    (hcomplete : ∀ z ∈ w.zones, labelsOf z.domain <:+ labelsOf fqdn → z ∈ listed) (honly : ∀ z ∈ listed, z ∈ w.zones) :
    FoundZone BunnyZoneSummary.domain w.zones readZone fqdn (lower fqdn)
      (okOr (maxByKey (fun z => Text.utf8Len z.domain)
        ((listed.map readZone).filter fun z => isSuffix (normalizeName fqdn) z.domain)) (.zoneNotFound (lower fqdn))) := by
  have hmem : ∀ z ∈ listed, labelsOf z.domain <:+ labelsOf fqdn →
      readZone z ∈ (listed.map readZone).filter fun z => isSuffix (normalizeName fqdn) z.domain :=
    fun z hz hs => List.mem_filter.2 ⟨List.mem_map_of_mem hz, (isSuffix_iff hf).2 hs⟩
  cases hmax : maxByKey (fun z => Text.utf8Len z.domain)
      ((listed.map readZone).filter fun z => isSuffix (normalizeName fqdn) z.domain) with
  | none =>
    refine ⟨fun z hz hs => ?_, rfl⟩
    have hzero := hmem z (hcomplete z hz hs) hs
    rw [maxByKey_eq_none.1 hmax] at hzero
    cases hzero
  | some best =>
    obtain ⟨hbest, hlongest⟩ := maxByKey_eq_some hmax
    obtain ⟨hbest, hsuffix⟩ := List.mem_filter.1 hbest
    obtain ⟨z, hz, rfl⟩ := List.mem_map.1 hbest
    refine ⟨z, Longest.of_key (fun z => Text.utf8Len (normalizeName z.domain))
      (fun _ _ => utf8Len_lt_of_suffix) (honly z hz) ((isSuffix_iff hf).1 hsuffix) fun z' hz' hs' => ?_, rfl⟩
    exact hlongest _ (hmem z' (hcomplete z' hz' hs') hs')

theorem wp_resolveZone {cfg : BunnyConfig} (hcfg : cfg.zoneOverride = none) (hf : validateFqdn fqdn = .ok ()) :
    wp (fun _ _ => True) (zoneEnv (zoneServes w)) (resolveZone cfg (lower fqdn)).run (fun r s' => s' = s ∧
      FoundZone BunnyZoneSummary.domain w.zones readZone fqdn (lower fqdn) r) s := by
  simp only [resolveZone, hcfg, trimDots_lower]
  rw [wp_run_bind]
  refine wp_mono (wp_listZones cfg _) ?_
  rintro r s' ⟨rfl, rfl⟩
  refine ⟨rfl, found_maxByKey hf (fun z hz hs => ?_) (w.only _)⟩
  exact w.complete _ z hz (search_in_domain hf hs (w.account.twoLabels z hz))

theorem findsLongest (w : Directory) (fqdn : Str) : zoneApi.FindsLongest w fqdn := by
  refine ZoneApi.findsLongest_of_found (I := fun _ => True) trivial (fun c s _ => ?_) fun z hs => ?_
  · exact wp_mono (wp_resolveZone c.automatic c.accepted) fun r s' h => ⟨trivial, h.2⟩
  · obtain ⟨rname, hrname⟩ := relativeName_of_suffix hs
    exact ⟨_, bind_eq_ok.2 ⟨rname, hrname, rfl⟩⟩

end Bunny

/-! ## Google Cloud DNS -/

namespace GoogleCloudDns

/-- The zones of the pages from a token on, where those are at most `left`. -/
def listing (page : Option Str → ManagedZones) : Nat → Option Str → Option (List ManagedZone)
  | 0, _ => none
  | left + 1, token =>
    match (page token).nextPageToken with
    | some t =>
      if t.isEmpty then some (page token).managedZones
      else (listing page left (some t)).map ((page token).managedZones ++ ·)
    | none => some (page token).managedZones

/-- The public zones, their DNS names with a dot at the end. The pages have them, and may have private ones. -/
structure Directory where
  zones : List ManagedZone
  account : Account ManagedZone.dnsName zones
  rooted : ∀ z ∈ zones, lower z.dnsName = absolute z.dnsName
  page : Option Str → ManagedZones
  all : List ManagedZone
  listed : listing page maxPages none = some all
  complete : ∀ z, z ∈ zones ↔ z ∈ all ∧ z.visibility ≠ some "private".toList

def zoneServes (w : Directory) : (q : Req) → Response q.Doc → Prop
  | .zones token, resp => resp.status.isSuccess = true ∧ resp.body = .ok (w.page token)
  | .rrsets _ _, _ | .change _ _ _, _ | .getChange _ _, _ => True

theorem zoneServes_answers (w : Directory) (q : Req) : ∃ resp, zoneServes w q resp := by
  cases q with
  | zones token => exact ⟨⟨⟨200, ""⟩, none, none, none, [], .ok (w.page token)⟩, rfl, rfl⟩
  | rrsets | change | getChange => exact ⟨⟨⟨200, ""⟩, none, none, none, [], .error ""⟩, trivial⟩

def zoneApi : ZoneApi where
  Q := Req
  B := Req.Doc
  Config := GoogleCloudDnsConfig
  Zone := ManagedZone
  Answer := Str
  World := Directory
  zones := Directory.zones
  name := ManagedZone.dnsName
  account := Directory.account
  serves := zoneServes
  answered := zoneServes_answers
  answer := ManagedZone.name
  Automatic cfg := cfg.managedZone = none
  asked fqdn := fqdn
  resolveZone := resolveZone
  next fqdn _ := .ok (absolute fqdn)

variable {w : Directory} {s : Str → Option Str} {fqdn : Str}

theorem wp_exchange_ask {serves : (q : Req) → Response q.Doc → Prop} (method : Method) (verb : String) (path : Str) {q : Req}
    {doc : q.Doc} (h : ∀ resp, serves q resp → resp.status.isSuccess = true ∧ resp.body = .ok doc) :
    wp (fun _ _ => True) (zoneEnv serves) (exchange method verb path q).run (fun r s' => s' = s ∧ r = .ok doc) s := by
  rw [exchange, wp_run_bind]
  refine ⟨trivial, fun token s₁ h₁ => ?_⟩
  obtain ⟨⟨token, rfl⟩, rfl⟩ := h₁
  show wp _ _ (sendRetrying method q >>= fun response => settle verb path response).run _ s₁
  rw [wp_run_bind]
  refine wp_sendRetrying trivial (fun d => ⟨trivial, fun _ _ h => h⟩) (fun _ _ h _ => h.2) ?_
  rintro r s' ⟨⟨resp, rfl, hresp⟩, rfl⟩
  obtain ⟨hsucc, hdoc⟩ := h resp hresp
  simp only [Except.mapError, settle, hsucc, if_true]
  exact ⟨rfl, Response.json_ok hdoc⟩

/-- The loop over the pages sees the zones of all of them. -/
theorem wp_listFrom (cfg : GoogleCloudDnsConfig) (name : Str) : ∀ (left : Nat) (token : Option Str)
    (best : Option (Nat × Str)) (rest : List ManagedZone), listing w.page left token = some rest →
    wp (fun _ _ => True) (zoneEnv (zoneServes w)) (listFrom cfg fqdn name left token best).run (fun r s' => s' = s ∧
      r = found fqdn (rest.foldl (better name) best)) s := by
  intro left
  induction left with
  | zero => exact fun token best rest h => nomatch h
  | succ left ih =>
    intro token best rest h
    rw [listFrom, wp_run_bind]
    refine wp_mono (wp_exchange_ask _ _ _ fun resp h => h) ?_
    rintro r s' ⟨rfl, rfl⟩
    rw [listing] at h
    dsimp only
    cases htoken : (w.page token).nextPageToken with
    | none =>
      rw [htoken] at h
      cases h
      exact ⟨rfl, rfl⟩
    | some t =>
      rw [htoken] at h
      by_cases hempty : t.isEmpty = true
      · simp only [hempty, if_true] at h ⊢
        cases h
        exact ⟨rfl, rfl⟩
      · simp only [hempty] at h ⊢
        obtain ⟨more, hmore, rfl⟩ := Option.map_eq_some_iff.1 h
        rw [List.foldl_append]
        exact ih (some t) _ more hmore

/-- A public zone fits if the name is in it. -/
theorem fits_iff {z : ManagedZone} (hz : z ∈ w.zones) :
    Fits (absolute fqdn) z ↔ labelsOf z.dnsName <:+ labelsOf fqdn := by
  have hpublic := ((w.complete z).1 hz).2
  rw [← within_iff_labels, Fits, w.rooted z hz, and_iff_right hpublic, Within, absolute, absolute]
  refine or_congr (List.append_left_inj _) (exists_congr fun front => ?_)
  rw [← List.cons_append, ← List.append_assoc, List.append_left_inj, eq_comm]

theorem dnsLen_eq {z : ManagedZone} (hz : z ∈ w.zones) : dnsLen z = Text.utf8Len (normalizeName z.dnsName) + 1 := by
  rw [dnsLen, w.rooted z hz, absolute, utf8Len_append]
  rfl

theorem found_best : FoundZone ManagedZone.dnsName w.zones ManagedZone.name fqdn fqdn
    (found fqdn (w.all.foldl (better (absolute fqdn)) none)) := by
  have hbest : Best (absolute fqdn) w.all (w.all.foldl (better (absolute fqdn)) none) :=
    best_foldl w.all (show Best (absolute fqdn) [] none from fun z hz => absurd hz (by simp))
  cases hfold : w.all.foldl (better (absolute fqdn)) none with
  | none =>
    rw [hfold] at hbest
    exact ⟨fun z hz hs => hbest z ((w.complete z).1 hz).1 ((fits_iff hz).2 hs), rfl⟩
  | some best =>
    rw [hfold] at hbest
    obtain ⟨z, ⟨hmem, hfits, hlongest⟩, -, hname⟩ := hbest
    have hz : z ∈ w.zones := (w.complete z).2 ⟨hmem, hfits.1⟩
    refine ⟨z, LongestSuffix.Longest.of_key (fun z => Text.utf8Len (normalizeName z.dnsName))
      (fun _ _ => utf8Len_lt_of_suffix) hz ((fits_iff hz).1 hfits) fun z' hz' hs' => ?_, hname⟩
    have hle := hlongest z' ((w.complete z').1 hz').1 ((fits_iff hz').2 hs')
    rw [dnsLen_eq hz, dnsLen_eq hz'] at hle
    omega

theorem wp_resolveZone {cfg : GoogleCloudDnsConfig} (hcfg : cfg.managedZone = none) :
    wp (fun _ _ => True) (zoneEnv (zoneServes w)) (resolveZone cfg fqdn).run (fun r s' => s' = s ∧
      FoundZone ManagedZone.dnsName w.zones ManagedZone.name fqdn fqdn r) s := by
  simp only [resolveZone, hcfg]
  refine wp_mono (wp_listFrom cfg _ _ _ _ _ w.listed) ?_
  rintro r s' ⟨rfl, rfl⟩
  exact ⟨rfl, found_best⟩

theorem findsLongest (w : Directory) (fqdn : Str) : zoneApi.FindsLongest w fqdn := by
  refine ZoneApi.findsLongest_of_found (I := fun _ => True) trivial (fun c s _ => ?_) fun z _ => ⟨_, rfl⟩
  exact wp_mono (wp_resolveZone c.automatic) fun r s' h => ⟨trivial, h.2⟩

end GoogleCloudDns

/-! ## The six providers -/

inductive ZoneResolver where
  | powerDns
  | infomaniak
  | route53
  | bunny
  | googleCloudDns
  | hetzner

abbrev ZoneResolver.api : ZoneResolver → ZoneApi
  | .powerDns => PowerDns.zoneApi
  | .infomaniak => Infomaniak.zoneApi
  | .route53 => Route53.zoneApi
  | .bunny => Bunny.zoneApi
  | .googleCloudDns => GoogleCloudDns.zoneApi
  | .hetzner => Hetzner.zoneApi

/-- **The zone with the longest suffix is found**, whatever the account, the name and the earlier lookups. Hetzner
is to find it where there is one match only, and does exactly if that is reported as names are normalized. -/
theorem ZoneResolver.resolves_longest_iff (p : ZoneResolver) (w : p.api.World) {fqdn : Str} (hf : validateFqdn fqdn = .ok ())
    (hone : p = .hetzner → p.api.AtMostOne w fqdn) :
    p.api.FindsLongest w fqdn ↔ (p = .hetzner → p.api.ReportedNormalized w fqdn) := by
  cases p with
  | powerDns => exact iff_of_true (PowerDns.findsLongest w fqdn) nofun
  | infomaniak => exact iff_of_true (Infomaniak.findsLongest w fqdn) nofun
  | route53 => exact iff_of_true (Route53.findsLongest w fqdn) nofun
  | bunny => exact iff_of_true (Bunny.findsLongest w fqdn) nofun
  | googleCloudDns => exact iff_of_true (GoogleCloudDns.findsLongest w fqdn) nofun
  | hetzner => exact (Hetzner.findsLongest_iff hf (hone rfl)).trans ⟨fun h _ => h, fun h => h rfl⟩

/-- An account with the zone `a.org`, as it is reported. -/
def Hetzner.accountOf (name : Str) (h2 : 2 ≤ (labelsOf name).length) : Hetzner.Directory :=
  ⟨[⟨name⟩], by simp, by simpa using h2⟩

theorem Hetzner.atMostOne_accountOf {name : Str} (h2 : 2 ≤ (labelsOf name).length) (fqdn : Str) :
    Hetzner.zoneApi.AtMostOne (Hetzner.accountOf name h2) fqdn := by
  intro z hz z' hz' _ _
  rw [List.mem_singleton.1 hz, List.mem_singleton.1 hz']

theorem ZoneResolver.resolves_longest_challenge : validateFqdn "_acme-challenge.A.org.".toList = .ok () ∧
    ZoneResolver.hetzner.api.FindsLongest (Hetzner.accountOf "a.org".toList (by decide)) "_acme-challenge.A.org.".toList := by
  refine ⟨by decide, (resolves_longest_iff .hetzner _ (by decide) fun _ => Hetzner.atMostOne_accountOf _ _).2 fun _ => ?_⟩
  intro z hz _
  rw [List.mem_singleton.1 hz]
  decide

/-- The only zone of the account is reported as `A.org`, and the lookup does not find it. -/
theorem Hetzner.upper_case_zone_not_found : ∃ t s',
    (Hetzner.resolveZone ⟨none, 60⟩ "_acme-challenge.a.org".toList).run.Runs t
      (.error (.zoneNotFound "_acme-challenge.a.org".toList)) ∧
    Chain (zoneEnv (Hetzner.zoneServes (Hetzner.accountOf "A.org".toList (by decide)))) t (fun _ => none) s' ∧
    Longest (fun z => labelsOf (HetznerZone.name z)) (Hetzner.accountOf "A.org".toList (by decide)).zones
      (labelsOf "_acme-challenge.a.org".toList) ⟨"A.org".toList⟩ := by
  obtain ⟨t, r, s', hrun, hchain⟩ := exists_run
    (zoneEnv_answers (Hetzner.zoneServes_answers (Hetzner.accountOf "A.org".toList (by decide))))
    (Hetzner.resolveZone ⟨none, 60⟩ "_acme-challenge.a.org".toList).run fun _ => none
  have hr := ((Hetzner.wp_resolveZone rfl (by decide)).of_runs hrun hchain).2
  have hnone : Hetzner.shortest (Hetzner.accountOf "A.org".toList (by decide)) "_acme-challenge.a.org".toList = none := by decide
  rw [hnone] at hr
  subst hr
  refine ⟨t, s', hrun, hchain, .of_only (List.mem_singleton_self _) (by decide) fun z hz _ => List.mem_singleton.1 hz⟩

end Cheti
