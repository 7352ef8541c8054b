import Cheti.Base.Url
import Cheti.Providers.Cloudflare
import Cheti.Providers.GoogleCloudDns
import Cheti.Providers.Porkbun
import Cheti.Providers.PowerDns
/-!
# `encode_path` and the shape of a URL (src/providers/common.rs:101-119)

What `encode_path` writes has no slash, no `?` and no `#`, nothing the URL parser takes out or rewrites, and
it decodes to the text it was made from. But a dot needs no escape, and the segments `.` and `..` are not
names for the parser: they name the resource they stand in, and the one above it (`keepsShape_iff`). An
escaped `%` saves the texts `%2e` and `%2e%2e`.

Google's managed zone is one place where such a text is accepted: `with_managed_zone` (google_cloud_dns.rs:135-144)
checks its length only.
-/

namespace Cheti

/-! ## What is written -/

theorem plain_percentEncode (b : UInt8) : Url.Plain (Url.percentEncode b) := by
  have hdigit : ∀ n < 16, Url.isSlash (Url.hexDigit n) = false ∧ Url.inPathSet (Url.hexDigit n) = false := by decide
  have hlt := b.toNat_lt
  intro c hc
  simp only [Url.percentEncode, List.mem_cons, List.not_mem_nil, or_false] at hc
  rcases hc with rfl | rfl | rfl
  · decide
  · exact hdigit _ (by omega)
  · exact hdigit _ (by omega)

/-- Whatever ends a segment or is rewritten by the parser is escaped. -/
theorem plain_of_not_escaped {c : Char} (h : escaped c = false) : Url.isSlash c = false ∧ Url.inPathSet c = false := by
  simp only [escaped, Bool.or_eq_false_iff, decide_eq_false_iff_not, UInt32.not_lt, UInt32.not_le] at h
  obtain ⟨⟨hlow, hhigh⟩, hset⟩ := h
  have hne : ∀ d ∈ " \"#%/<>?\\^`\x7b|\x7d".toList, c ≠ d := by
    rintro d hd rfl
    rw [List.contains_iff_mem.2 hd] at hset
    cases hset
  constructor
  · simp [Url.isSlash, hne '/' (by decide), hne '\\' (by decide)]
  · have hpath : " \"#<>?^`\x7b\x7d".toList.contains c = false := by
      have hsubset : ∀ d ∈ " \"#<>?^`\x7b\x7d".toList, d ∈ " \"#%/<>?\\^`\x7b|\x7d".toList := by simp
      rw [← Bool.not_eq_true, List.contains_iff_mem]
      intro hmem
      exact hne c (hsubset c hmem) rfl
    rw [Url.inPathSet, hpath, Bool.or_false, Bool.or_eq_false_iff, decide_eq_false_iff_not, decide_eq_false_iff_not,
      UInt32.not_lt, UInt32.not_lt]
    refine ⟨hlow, UInt32.le_iff_toNat_le.2 ?_⟩
    have hlt : c.val.toNat < 127 := UInt32.lt_iff_toNat_lt.1 hhigh
    exact Nat.le_of_lt_succ hlt

theorem plain_encodePath (s : Str) : Url.Plain (encodePath s) := by
  induction s with
  | nil => exact fun c hc => absurd hc List.not_mem_nil
  | cons c s ih =>
    intro d hd
    rw [encodePath, Url.escape_cons, List.mem_append] at hd
    rcases hd with hd | hd
    · split at hd
      · rename_i hkept
        rw [List.mem_singleton] at hd
        rw [hd]
        exact plain_of_not_escaped (by simpa using hkept)
      · obtain ⟨b, -, hd⟩ := List.mem_flatMap.1 hd
        exact plain_percentEncode b d hd
    · exact ih d hd

theorem percentDecode_encodePath (s : Str) : Url.percentDecode (encodePath s) = Text.bytes s :=
  Url.percentDecode_escape (by decide) s

theorem encodePath_not_dots {s : Str} (h1 : s ≠ ".".toList) (h2 : s ≠ "..".toList) :
    encodePath s ∉ Url.singleDots ∧ encodePath s ∉ Url.doubleDots := by
  constructor
  · intro hmem
    have hbytes := Url.percentDecode_singleDots _ hmem
    rw [percentDecode_encodePath] at hbytes
    exact h1 (Text.bytes_injective hbytes)
  · intro hmem
    have hbytes := Url.percentDecode_doubleDots _ hmem
    rw [percentDecode_encodePath] at hbytes
    exact h2 (Text.bytes_injective hbytes)

/-! ## The shape -/

/-- In place of `{}` there is one segment, which decodes to `s`; all else is the template's. -/
def KeepsShape (t : Url.Template) (s : Str) : Prop :=
  ∃ segment, Url.percentDecode segment = Text.bytes s ∧
    Url.parse (t.fill (encodePath s)) =
      ⟨t.parents ++ [segment] ++ t.children, (Url.parse t.after).query, (Url.parse t.after).fragment⟩

/-- A dot segment leaves a path with no segment for it, or with an empty one at its end. -/
theorem not_keepsShape_of_dots (t : Url.Template) {s : Str} (hne : s ≠ []) (hsame : encodePath s = s)
    (hclose : (Url.close t.parents s).length ≤ t.parents.length) (hdots : s ∈ Url.singleDots ++ Url.doubleDots) :
    ¬ KeepsShape t s := by
  rintro ⟨segment, hdecode, hparse⟩
  rw [t.parse_fill (plain_encodePath s), hsame, Url.Parsed.mk.injEq] at hparse
  have hpath := hparse.1
  unfold Url.Template.children at hpath
  have hstays := t.stays (Url.close t.parents s)
  cases hafter : Url.further t.after with
  | nil =>
    simp only [hafter, Url.resolve, if_pos hdots, List.append_nil] at hpath
    have hlast := congrArg List.getLast? hpath
    rw [List.getLast?_concat, List.getLast?_concat, Option.some.injEq] at hlast
    rw [← hlast] at hdecode
    exact hne (Text.bytes_injective hdecode.symm)
  | cons next rest =>
    rw [hafter] at hpath hstays
    rw [Url.resolve, hstays] at hpath
    have hlen := congrArg List.length hpath
    simp only [List.length_append, List.length_singleton] at hlen
    omega

/-! ## Identifiers that no check has seen -/

namespace Cloudflare

/-- The part after the base of the API. -/
def recordsUrl (zoneId : Str) : Str := "/zones/".toList ++ encodePath zoneId ++ "/dns_records".toList

def recordItemUrl (zoneId recordId : Str) : Str := recordsUrl zoneId ++ '/' :: encodePath recordId

def listUrl (zoneId fqdn : Str) : Str :=
  recordsUrl zoneId ++ "?type=TXT&per_page=100&name=".toList ++ encodePath (trimDots fqdn)

end Cloudflare

namespace GoogleCloudDns

/-- `GoogleCloudDnsConfig::with_managed_zone` -/
def GoogleCloudDnsConfig.withManagedZone (cfg : GoogleCloudDnsConfig) (name : Str) : Except DnsError GoogleCloudDnsConfig :=
  if name.isEmpty || Text.utf8Len name > 63 then .error (.other s!"{provider} invalid managed zone name: {name}")
  else .ok { cfg with managedZone := some name }

end GoogleCloudDns

/-- The places of identifiers that come from an API or from the user, with what else is in the path. -/
inductive Place
  | managedZoneRrsets (cfg : GoogleCloudDns.GoogleCloudDnsConfig)
  | managedZoneChanges (cfg : GoogleCloudDns.GoogleCloudDnsConfig)
  | managedZoneChange (cfg : GoogleCloudDns.GoogleCloudDnsConfig) (change : Str)
  | changeId (cfg : GoogleCloudDns.GoogleCloudDnsConfig) (zone : Str)
  | serverId (cfg : PowerDns.PowerDnsConfig) (zone : Str)
  | zoneIdList (fqdn : Str)
  | zoneIdRecords
  | zoneIdRecord (record : Str)
  | cloudflareRecord (zone : Str)
  | porkbunRecord (zone : Str)

namespace Place

/-- The path the code builds. -/
def path : Place → Str → Str
  | managedZoneRrsets cfg, s => GoogleCloudDns.zonePath cfg s ++ "/rrsets".toList
  | managedZoneChanges cfg, s => GoogleCloudDns.zonePath cfg s ++ "/changes".toList
  | managedZoneChange cfg change, s => GoogleCloudDns.zonePath cfg s ++ "/changes/".toList ++ encodePath change
  | changeId cfg zone, s => GoogleCloudDns.zonePath cfg zone ++ "/changes/".toList ++ encodePath s
  | serverId cfg zone, s => PowerDns.zonePath { cfg with serverId := s } zone
  | zoneIdList fqdn, s => Cloudflare.listUrl s fqdn
  | zoneIdRecords, s => Cloudflare.recordsUrl s
  | zoneIdRecord record, s => Cloudflare.recordItemUrl s record
  | cloudflareRecord zone, s => Cloudflare.recordItemUrl zone s
  | porkbunRecord zone, s => Porkbun.deletePath zone s

/-- The names in front of the place, and below the names that follow it. Every one of them is escaped, which a
word of the API does not show. -/
def first : Place → List Str
  | managedZoneRrsets cfg | managedZoneChanges cfg | managedZoneChange cfg _ =>
    ["projects".toList, cfg.project, "managedZones".toList]
  | changeId cfg zone => ["projects".toList, cfg.project, "managedZones".toList, zone, "changes".toList]
  | serverId _ _ => ["servers".toList]
  | zoneIdList _ | zoneIdRecords | zoneIdRecord _ => ["zones".toList]
  | cloudflareRecord zone => ["zones".toList, zone, "dns_records".toList]
  | porkbunRecord zone => ["dns".toList, "delete".toList, zone]

def last : Place → List Str
  | managedZoneRrsets _ => ["rrsets".toList]
  | managedZoneChanges _ => ["changes".toList]
  | managedZoneChange _ change => ["changes".toList, change]
  | changeId _ _ | cloudflareRecord _ | porkbunRecord _ => []
  | serverId _ zone => ["zones".toList, zone ++ ['.']]
  | zoneIdList _ | zoneIdRecords => ["dns_records".toList]
  | zoneIdRecord record => ["dns_records".toList, record]

def query : Place → Str
  | zoneIdList fqdn => "?type=TXT&per_page=100&name=".toList ++ encodePath (trimDots fqdn)
  | _ => []

theorem plain_map (names : List Str) : ∀ segment ∈ names.map encodePath, Url.Plain segment := by
  intro segment hmem
  obtain ⟨name, -, rfl⟩ := List.mem_map.1 hmem
  exact plain_encodePath name

/-- After the place there is a word of the API, if anything, and at most one name below it. -/
theorem stays_last (p : Place) (path : List Str) :
    Url.resolve path (p.last.map encodePath) = path ++ Url.resolve [] (p.last.map encodePath) := by
  have hword : ∀ word ∈ ["rrsets", "changes", "zones", "dns_records"],
      encodePath word.toList ∉ Url.singleDots ∧ encodePath word.toList ∉ Url.doubleDots := by decide
  have hone : ∀ word ∈ ["rrsets", "changes", "zones", "dns_records"],
      Url.resolve path [encodePath word.toList] = path ++ Url.resolve [] [encodePath word.toList] := by
    intro word hmem
    rw [Url.resolve_cons (hword word hmem).1 (hword word hmem).2, Url.resolve_cons (hword word hmem).1 (hword word hmem).2]
    rfl
  have htwo : ∀ word ∈ ["rrsets", "changes", "zones", "dns_records"], ∀ name,
      Url.resolve path [encodePath word.toList, encodePath name] =
        path ++ Url.resolve [] [encodePath word.toList, encodePath name] :=
    fun word hmem name => Url.resolve_pair (hword word hmem).1 (hword word hmem).2 _ _
  cases p with
  | managedZoneRrsets => exact hone "rrsets" (by decide)
  | managedZoneChanges => exact hone "changes" (by decide)
  | managedZoneChange _ change => exact htwo "changes" (by decide) change
  | serverId _ zone => exact htwo "zones" (by decide) (zone ++ ['.'])
  | zoneIdList | zoneIdRecords => exact hone "dns_records" (by decide)
  | zoneIdRecord record => exact htwo "dns_records" (by decide) record
  | changeId | cloudflareRecord | porkbunRecord => exact (List.append_nil path).symm

theorem query_head (p : Place) : ∀ c ∈ p.query.head?, c = '?' := by
  intro c hc
  unfold query at hc
  split at hc
  · exact (Option.some.inj hc).symm
  · cases hc

variable {base : Str} (hbase : '?' ∉ base ∧ '#' ∉ base)

/-- The template of a place, below the path of the base of the API. -/
def template (p : Place) : Url.Template :=
  Url.Template.ofSegments base (p.first.map encodePath) (p.last.map encodePath) p.query hbase (plain_map _) (plain_map _)
    p.stays_last p.query_head

theorem googleZonePath_eq (cfg : GoogleCloudDns.GoogleCloudDnsConfig) (zone : Str) : GoogleCloudDns.zonePath cfg zone =
    Url.joined (["projects".toList, cfg.project, "managedZones".toList, zone].map encodePath) := by
  have hprojects : encodePath "projects".toList = "projects".toList := by decide
  have hzones : encodePath "managedZones".toList = "managedZones".toList := by decide
  simp only [List.map_cons, List.map_nil]
  rw [hprojects, hzones]
  unfold GoogleCloudDns.zonePath GoogleCloudDns.zonesPath
  simp [Url.joined]

theorem powerDnsZonePath_eq (cfg : PowerDns.PowerDnsConfig) (zone : Str) : PowerDns.zonePath cfg zone =
    Url.joined (["servers".toList, cfg.serverId, "zones".toList, zone ++ ['.']].map encodePath) := by
  have hservers : encodePath "servers".toList = "servers".toList := by decide
  have hzones : encodePath "zones".toList = "zones".toList := by decide
  have hdot : encodePath (zone ++ ['.']) = encodePath zone ++ ['.'] := List.flatMap_append
  simp only [List.map_cons, List.map_nil]
  rw [hservers, hzones, hdot]
  unfold PowerDns.zonePath
  simp [Url.joined]

theorem recordsUrl_eq (zoneId : Str) : Cloudflare.recordsUrl zoneId =
    Url.joined (["zones".toList, zoneId, "dns_records".toList].map encodePath) := by
  have hzones : encodePath "zones".toList = "zones".toList := by decide
  have hrecords : encodePath "dns_records".toList = "dns_records".toList := by decide
  simp only [List.map_cons, List.map_nil]
  rw [hzones, hrecords]
  unfold Cloudflare.recordsUrl
  simp [Url.joined]

theorem deletePath_eq (zone id : Str) : Porkbun.deletePath zone id =
    Url.joined (["dns".toList, "delete".toList, zone, id].map encodePath) := by
  have hdns : encodePath "dns".toList = "dns".toList := by decide
  have hdelete : encodePath "delete".toList = "delete".toList := by decide
  simp only [List.map_cons, List.map_nil]
  rw [hdns, hdelete]
  unfold Porkbun.deletePath
  simp [Url.joined]

theorem path_joined (p : Place) (s : Str) : p.path s = Url.joined ((p.first ++ s :: p.last).map encodePath) ++ p.query := by
  have hrrsets : "/rrsets".toList = Url.joined (["rrsets".toList].map encodePath) := by decide
  have hchanges : "/changes".toList = Url.joined (["changes".toList].map encodePath) := by decide
  have hone : ∀ name, '/' :: encodePath name = Url.joined ([name].map encodePath) := fun name => by simp [Url.joined]
  have hchange : ∀ before name, before ++ "/changes/".toList ++ encodePath name =
      before ++ Url.joined (["changes".toList].map encodePath) ++ Url.joined ([name].map encodePath) := by
    intro before name
    rw [← hone name, ← hchanges]
    simp
  cases p with
  | managedZoneRrsets cfg =>
    rw [path, googleZonePath_eq, hrrsets, ← Url.joined_append]
    exact (List.append_nil _).symm
  | managedZoneChanges cfg =>
    rw [path, googleZonePath_eq, hchanges, ← Url.joined_append]
    exact (List.append_nil _).symm
  | managedZoneChange cfg change =>
    rw [path, hchange, googleZonePath_eq, ← Url.joined_append, ← Url.joined_append]
    exact (List.append_nil _).symm
  | changeId cfg zone =>
    rw [path, hchange, googleZonePath_eq, ← Url.joined_append, ← Url.joined_append]
    exact (List.append_nil _).symm
  | serverId cfg zone =>
    rw [path, powerDnsZonePath_eq]
    exact (List.append_nil _).symm
  | zoneIdList fqdn =>
    rw [path, Cloudflare.listUrl, recordsUrl_eq, List.append_assoc]
    rfl
  | zoneIdRecords =>
    rw [path, recordsUrl_eq]
    exact (List.append_nil _).symm
  | zoneIdRecord record =>
    rw [path, Cloudflare.recordItemUrl, recordsUrl_eq, hone, ← Url.joined_append]
    exact (List.append_nil _).symm
  | cloudflareRecord zone =>
    rw [path, Cloudflare.recordItemUrl, recordsUrl_eq, hone, ← Url.joined_append]
    exact (List.append_nil _).symm
  | porkbunRecord zone =>
    rw [path, deletePath_eq]
    exact (List.append_nil _).symm

/-- The code's path is the template with the identifier in its place. -/
theorem path_eq (p : Place) (s : Str) : base ++ p.path s = (p.template hbase).fill (encodePath s) := by
  have hfill : (p.template hbase).fill (encodePath s) = base ++ Url.joined (p.first.map encodePath) ++
      '/' :: encodePath s ++ (Url.joined (p.last.map encodePath) ++ p.query) := rfl
  rw [hfill, path_joined, List.map_append, Url.joined_append, List.map_cons, Url.joined_cons]
  simp

end Place

/-! ## Which texts keep the shape -/

/-- **The shape is kept by every text but the two dot segments.** -/
theorem keepsShape_iff (t : Url.Template) (s : Str) : KeepsShape t s ↔ s ≠ ".".toList ∧ s ≠ "..".toList := by
  constructor
  · intro hshape
    constructor
    · rintro rfl
      have hclose : Url.close t.parents ".".toList = t.parents := by simp [Url.close, Url.doubleDots, Url.singleDots]
      exact not_keepsShape_of_dots t (by decide) (by decide) (by rw [hclose]) (by decide) hshape
    · rintro rfl
      exact not_keepsShape_of_dots t (by decide) (by decide) (by simp [Url.close, Url.doubleDots]) (by decide) hshape
  · rintro ⟨h1, h2⟩
    obtain ⟨hsingle, hdouble⟩ := encodePath_not_dots h1 h2
    refine ⟨encodePath s, percentDecode_encodePath s, ?_⟩
    rw [t.parse_fill (plain_encodePath s), Url.resolve_cons hsingle hdouble, t.stays]
    rfl

/-- A managed zone named `..` is accepted, and a change to it is posted to the project itself. -/
theorem managedZone_dotdot :
    let cfg : GoogleCloudDns.GoogleCloudDnsConfig := ⟨"project".toList, none, 60⟩
    let place : Place := .managedZoneChanges cfg
    cfg.withManagedZone "..".toList = .ok { cfg with managedZone := some "..".toList } ∧
      Url.parse (place.path "..".toList) = ⟨["projects".toList, "project".toList, "changes".toList], none, none⟩ ∧
      ¬ KeepsShape (place.template (by decide : '?' ∉ [] ∧ '#' ∉ [])) "..".toList := by
  intro cfg place
  refine ⟨rfl, ?_, ?_⟩
  · decide
  · exact not_keepsShape_of_dots _ (by decide) (by decide) (by simp [Url.close, Url.doubleDots]) (by decide)

end Cheti
