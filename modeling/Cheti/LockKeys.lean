import Cheti.Labels
import Cheti.Providers.Bunny
import Cheti.Providers.Cloudflare
import Cheti.Providers.Desec
import Cheti.Providers.DigitalOcean
import Cheti.Providers.Gandi
import Cheti.Providers.GoogleCloudDns
import Cheti.Providers.Hetzner
import Cheti.Providers.Infomaniak
import Cheti.Providers.Ovh
import Cheti.Providers.Porkbun
import Cheti.Providers.PowerDns
import Cheti.Providers.Route53
import Cheti.Providers.Scaleway
/-!
# The keys of the locks

Thirteen providers take a lock once they know the zone, under a key they put together from the zone and
the name: relative to the zone, absolute, or as it was given. `Locking.key` is what they compute, and
`Locking.issues_iff` says of their code that it is what they lock.

A key has to stand for the record. That two names have one relative name only if they are the same name
rests on what `validate_fqdn` accepts: the apex is `@`, which is no label (`relativeName_inj`). Cloudflare
takes the name in lower case but with its trailing dots.
-/

namespace Cheti

open Fut

/-! ## Relative names -/

/-- **A relative name stands for one name.** -/
theorem relativeName_inj {f g zone rname : Str} (hf : validateFqdn f = .ok ()) (hg : validateFqdn g = .ok ())
    (h : relativeName (lower f) zone = .ok rname) (h' : relativeName (lower g) zone = .ok rname) :
    normalizeName f = normalizeName g := by
  rw [relativeName_eq_ok, trimDots_lower] at h h'
  rcases h with ⟨hz, rfl⟩ | ⟨-, hz⟩ <;> rcases h' with ⟨hz', hr⟩ | ⟨-, hz'⟩
  · rw [hz, hz']
  · exact absurd (by simp [hz']) (not_mem_normalizeName hg)
  · subst hr
    exact absurd (by simp [hz]) (not_mem_normalizeName hf)
  · rw [hz, hz']

theorem relativeName_congr {f g : Str} (h : normalizeName f = normalizeName g) (zone : Str) :
    relativeName (lower f) zone = relativeName (lower g) zone := by
  rw [relativeName_lower, relativeName_lower, h]

theorem lockKey_inj {zone a b : Str} : lockKey zone a = lockKey zone b ↔ a = b := by
  simp [lockKey]

theorem absolute_inj {f g : Str} : absolute f = absolute g ↔ normalizeName f = normalizeName g := by
  simp [absolute]

/-! ## What a call locks -/

section Issues

variable {Q : Type} {B : Q → Type} {α β : Type} {t : List (Ev (Call Q) (Reply B))} {c : Call Q}

/-- After a part that has ended, the next call is that of the rest. -/
theorem issues_run_bind {p : Prog Q B α} {f : α → Prog Q B β} {a : α} (h : p.run.Runs t (.ok a)) :
    (p >>= f).run.Issues t c ↔ (f a).run.Issues [] c := by
  have hat : (p >>= f).run.At t (f a).run := by
    rw [ExceptT.run_bind, bind_eq]
    exact at_bind.2 (Or.inr ⟨t, .ok a, [], h, at_nil.2 rfl, by simp⟩)
  exact hat.issues_iff

theorem issues_withLock {l : KeyedMutex} {key : Str} {body : Prog Q B α} :
    (withLock l key body).run.Issues [] c ↔ c = .lock l key := by
  have h : (withLock l key body).run =
      .await (some ()) (.lock l key) fun _ => body.run.bind fun r => .await none .unlock fun _ => .done r := rfl
  rw [h, issues_await]
  constructor
  · rintro (⟨-, he⟩ | ⟨r, t', ht, -⟩)
    · exact he.symm
    · cases ht
  · rintro rfl
    exact Or.inl ⟨rfl, rfl⟩

theorem issues_checked {x : Except DnsError Unit} (hx : x = .ok ()) {rest : Prog Q B α} :
    (liftM x >>= fun _ => rest : Prog Q B α).run.Issues t c ↔ rest.run.Issues t c := by
  rw [hx, lift_ok_bind]

/-- The zone, the name in it, and the lock. -/
theorem issues_named {ζ ν : Type} {resolve : Prog Q B ζ} {name : ζ → Except DnsError ν} {key : ζ → ν → Str}
    {l : KeyedMutex} {body : ζ → ν → Prog Q B Unit} {z : ζ} (h : resolve.run.Runs t (.ok z)) {k : Str} :
    (do
      let zone ← resolve
      let n ← name zone
      withLock l (key zone n) (body zone n) : Prog Q B Unit).run.Issues t (.lock l k) ↔
    (name z).map (key z) = .ok k := by
  rw [issues_run_bind h]
  cases hn : name z with
  | error e => exact iff_of_false issues_done (by simp [Except.map])
  | ok n =>
    rw [lift_ok_bind, issues_withLock]
    simp [Except.map, eq_comm]

/-- The zone, and the lock. -/
theorem issues_zoned {ζ : Type} {resolve : Prog Q B ζ} {key : ζ → Str} {l : KeyedMutex} {body : ζ → Prog Q B Unit}
    {z : ζ} (h : resolve.run.Runs t (.ok z)) {k : Str} :
    (do
      let zone ← resolve
      withLock l (key zone) (body zone) : Prog Q B Unit).run.Issues t (.lock l k) ↔ key z = k := by
  rw [issues_run_bind h, issues_withLock]
  simp [eq_comm]

end Issues

/-! ## The providers -/

inductive Locking where
  | bunny
  | cloudflare
  | desec
  | digitalOcean
  | gandi
  | google
  | hetzner
  | infomaniak
  | ovh
  | porkbun
  | powerDns
  | route53
  | scaleway
deriving DecidableEq

/-- A provider with what it does before it locks. -/
structure LockingApi where
  Q : Type
  B : Q → Type
  Config : Type
  Zone : Type
  /-- The zone as it stands in the key. -/
  zoneName : Zone → Str
  locks : KeyedMutex
  /-- The zone of a name, as `present` and `cleanup` look it up. -/
  resolve : Config → Str → Prog Q B Zone
  present : Config → Str → Str → Prog Q B Unit
  cleanup : Config → Str → Str → Prog Q B Unit

abbrev Locking.api : Locking → LockingApi
  | .bunny => ⟨_, _, _, _, Bunny.Zone.domain, Bunny.locks, fun cfg f => Bunny.resolveZone cfg (lower f), Bunny.present,
      Bunny.cleanup⟩
  | .cloudflare => ⟨_, _, _, _, id, Cloudflare.locks,
      fun cfg f => Cloudflare.resolveZoneName cfg (lower f) >>= Cloudflare.resolveZoneId cfg, Cloudflare.present,
      Cloudflare.cleanup⟩
  | .desec => ⟨_, _, _, _, Desec.ResolvedZone.name, Desec.locks, fun cfg f => Desec.resolveZone cfg (lower f),
      Desec.present, Desec.cleanup⟩
  | .digitalOcean => ⟨_, _, _, _, id, DigitalOcean.locks, fun cfg f => DigitalOcean.resolveZone cfg (lower f),
      DigitalOcean.present, DigitalOcean.cleanup⟩
  | .gandi => ⟨_, _, _, _, id, Gandi.locks, fun cfg f => Gandi.resolveZone cfg (lower f), Gandi.present, Gandi.cleanup⟩
  | .google => ⟨_, _, _, _, id, GoogleCloudDns.locks, GoogleCloudDns.resolveZone, GoogleCloudDns.present,
      GoogleCloudDns.cleanup⟩
  | .hetzner => ⟨_, _, _, _, id, Hetzner.locks, Hetzner.resolveZone, Hetzner.present, Hetzner.cleanup⟩
  | .infomaniak => ⟨_, _, _, _, id, Infomaniak.locks, Infomaniak.resolveZone, Infomaniak.present, Infomaniak.cleanup⟩
  | .ovh => ⟨_, _, _, _, id, Ovh.locks, fun self f => Ovh.resolveZone self.config (lower f), Ovh.present, Ovh.cleanup⟩
  | .porkbun => ⟨_, _, _, _, id, Porkbun.locks, fun cfg f => Porkbun.resolveZone cfg (lower f), Porkbun.present,
      Porkbun.cleanup⟩
  | .powerDns => ⟨_, _, _, _, id, PowerDns.locks, PowerDns.resolveZone, PowerDns.present, PowerDns.cleanup⟩
  | .route53 => ⟨_, _, _, _, id, Route53.locks, Route53.resolveZone, Route53.present, Route53.cleanup⟩
  | .scaleway => ⟨_, _, _, _, id, Scaleway.locks, fun cfg f => Scaleway.resolveZone cfg (lower f), Scaleway.present,
      Scaleway.cleanup⟩

def LockingApi.run (api : LockingApi) (cfg : api.Config) : Op → Str → Str → Prog api.Q api.B Unit
  | .present => api.present cfg
  | .cleanup => api.cleanup cfg

/-- The key for a zone and a name. -/
def Locking.key (p : Locking) (zone fqdn : Str) : Except DnsError Str :=
  match p with
  | .cloudflare => .ok (lockKey zone (lower fqdn))
  | .google | .route53 => .ok (lockKey zone (absolute fqdn))
  | .bunny | .porkbun => (relativeName (lower fqdn) zone).map fun rname =>
      lockKey zone (if rname = "@".toList then [] else rname)
  | .desec | .digitalOcean | .gandi | .hetzner | .infomaniak | .ovh | .powerDns | .scaleway =>
      (relativeName (lower fqdn) zone).map (lockKey zone)

/-- `present` looks at the value first. -/
def ValueOk (op : Op) (value : Str) : Prop := op = .present → validateAcmeValue value = .ok ()

theorem Bunny.map_bunnyName (fqdn zone : Str) :
    (bunnyName fqdn zone).map (lockKey zone) =
      (relativeName fqdn zone).map fun rname => lockKey zone (if rname = "@".toList then [] else rname) := by
  unfold bunnyName
  cases relativeName fqdn zone <;> rfl

theorem Porkbun.map_subdomainOf (fqdn zone : Str) :
    (subdomainOf fqdn zone).map (lockKey zone) =
      (relativeName fqdn zone).map fun rname => lockKey zone (if rname = "@".toList then [] else rname) := by
  unfold subdomainOf
  cases relativeName fqdn zone <;> rfl

section Calls

variable {p : Locking} {fqdn value k : Str} {cfg : p.api.Config} {z : p.api.Zone}
  {t : List (Ev (Call p.api.Q) (Reply p.api.B))} (hf : validateFqdn fqdn = .ok ())
  (h : (p.api.resolve cfg fqdn).run.Runs t (.ok z))
include hf h

theorem Locking.issues_present (hv : validateAcmeValue value = .ok ()) :
    (p.api.present cfg fqdn value).run.Issues t (.lock p.api.locks k) ↔ p.key (p.api.zoneName z) fqdn = .ok k := by
  cases p with
  | bunny =>
    refine (issues_checked hf).trans ((issues_checked hv).trans ((issues_named h).trans ?_))
    rw [Bunny.map_bunnyName]
    rfl
  | porkbun =>
    refine (issues_checked hf).trans ((issues_checked hv).trans ((issues_named h).trans ?_))
    rw [Porkbun.map_subdomainOf]
    rfl
  | cloudflare =>
    refine (issues_checked hf).trans ((issues_checked hv).trans ?_)
    rw [← LawfulMonad.bind_assoc]
    exact (issues_zoned h).trans (by simp [Locking.key])
  | google => exact (issues_checked hf).trans ((issues_checked hv).trans ((issues_zoned h).trans (by simp [Locking.key])))
  | route53 => exact (issues_checked hf).trans ((issues_checked hv).trans ((issues_zoned h).trans (by simp [Locking.key])))
  | desec => exact (issues_checked hf).trans ((issues_checked hv).trans (issues_named h))
  | digitalOcean => exact (issues_checked hf).trans ((issues_checked hv).trans (issues_named h))
  | gandi => exact (issues_checked hf).trans ((issues_checked hv).trans (issues_named h))
  | hetzner => exact (issues_checked hf).trans ((issues_checked hv).trans (issues_named h))
  | infomaniak => exact (issues_checked hf).trans ((issues_checked hv).trans (issues_named h))
  | ovh => exact (issues_checked hf).trans ((issues_checked hv).trans (issues_named h))
  | powerDns => exact (issues_checked hf).trans ((issues_checked hv).trans (issues_named h))
  | scaleway => exact (issues_checked hf).trans ((issues_checked hv).trans (issues_named h))

theorem Locking.issues_cleanup :
    (p.api.cleanup cfg fqdn value).run.Issues t (.lock p.api.locks k) ↔ p.key (p.api.zoneName z) fqdn = .ok k := by
  cases p with
  | bunny =>
    refine (issues_checked hf).trans ((issues_named h).trans ?_)
    rw [Bunny.map_bunnyName]
    rfl
  | porkbun =>
    refine (issues_checked hf).trans ((issues_named h).trans ?_)
    rw [Porkbun.map_subdomainOf]
    rfl
  | cloudflare =>
    refine (issues_checked hf).trans ?_
    rw [← LawfulMonad.bind_assoc]
    exact (issues_zoned h).trans (by simp [Locking.key])
  | google => exact (issues_checked hf).trans ((issues_zoned h).trans (by simp [Locking.key]))
  | route53 => exact (issues_checked hf).trans ((issues_zoned h).trans (by simp [Locking.key]))
  | desec => exact (issues_checked hf).trans (issues_named h)
  | digitalOcean => exact (issues_checked hf).trans (issues_named h)
  | gandi => exact (issues_checked hf).trans (issues_named h)
  | hetzner => exact (issues_checked hf).trans (issues_named h)
  | infomaniak => exact (issues_checked hf).trans (issues_named h)
  | ovh => exact (issues_checked hf).trans (issues_named h)
  | powerDns => exact (issues_checked hf).trans (issues_named h)
  | scaleway => exact (issues_checked hf).trans (issues_named h)

/-- **A call locks the key of its zone and name**, once it has found the zone. -/
theorem Locking.issues_iff {op : Op} (hv : ValueOk op value) :
    (p.api.run cfg op fqdn value).run.Issues t (.lock p.api.locks k) ↔ p.key (p.api.zoneName z) fqdn = .ok k := by
  cases op with
  | present => exact issues_present hf h (hv rfl)
  | cleanup => exact issues_cleanup hf h

end Calls

/-! ## Keys and names -/

theorem Locking.key_congr {p : Locking} (hp : p ≠ .cloudflare) {f g : Str} (h : normalizeName f = normalizeName g)
    (zone : Str) : p.key zone f = p.key zone g := by
  have habsolute : absolute f = absolute g := absolute_inj.2 h
  have hrelative := relativeName_congr h zone
  cases p <;> simp_all [Locking.key]

theorem Locking.eq_of_key_eq {p : Locking} (hp : p ≠ .cloudflare) {f g zone k : Str} (hf : validateFqdn f = .ok ())
    (hg : validateFqdn g = .ok ()) (h : p.key zone f = .ok k) (h' : p.key zone g = .ok k) :
    normalizeName f = normalizeName g := by
  have hrelative : ∀ {r r'}, relativeName (lower f) zone = .ok r → relativeName (lower g) zone = .ok r' → r = r' →
      normalizeName f = normalizeName g := by
    rintro r _ hr hr' rfl
    exact relativeName_inj hf hg hr hr'
  -- a relative name is not empty, so the apex can be
  have hapex : ∀ {r r' : Str}, r ≠ [] → r' ≠ [] →
      (if r = "@".toList then [] else r) = (if r' = "@".toList then [] else r') → r = r' := by
    intro r r' hr hr' he
    split at he <;> split at he <;> simp_all
  have hnil : ∀ {n r}, validateFqdn n = .ok () → relativeName (lower n) zone = .ok r → r ≠ [] := by
    intro n r hn hr
    rw [relativeName_lower] at hr
    exact relativeName_ne_nil hn hr
  cases p with
  | cloudflare => exact absurd rfl hp
  | google | route53 =>
    simp only [key, Except.ok.injEq] at h h'
    exact absolute_inj.1 (lockKey_inj.1 (h.trans h'.symm))
  | bunny | porkbun =>
    simp only [key, map_eq_ok] at h h'
    obtain ⟨r, hr, rfl⟩ := h
    obtain ⟨r', hr', he⟩ := h'
    exact hrelative hr hr' (hapex (hnil hf hr) (hnil hg hr') (lockKey_inj.1 he).symm)
  | desec | digitalOcean | gandi | hetzner | infomaniak | ovh | powerDns | scaleway =>
    simp only [key, map_eq_ok] at h h'
    obtain ⟨r, hr, rfl⟩ := h
    obtain ⟨r', hr', he⟩ := h'
    exact hrelative hr hr' (lockKey_inj.1 he).symm

/-- With the zone and its id configured, Cloudflare asks nothing. -/
theorem Cloudflare.resolve_configured {name id f rname : Str} (h : relativeName (lower f) name = .ok rname) (ttl : Nat) :
    (Locking.cloudflare.api.resolve ⟨some ⟨name, some id⟩, ttl⟩ f).run.Runs [] (.ok id) := by
  let cfg : CloudflareConfig := ⟨some ⟨name, some id⟩, ttl⟩
  have hname : resolveZoneName cfg (lower f) = pure name := by
    show (liftM (relativeName (lower f) name) >>= fun _ => pure name : M Str) = _
    rw [h, lift_ok_bind]
  show (resolveZoneName cfg (lower f) >>= resolveZoneId cfg).run.Runs [] _
  rw [hname]
  exact runs_done.2 ⟨rfl, rfl⟩

/-- Two names that are found in one zone: calls on them lock one key if they are the same name, and
different keys if they are not. -/
def SameLock (p : Locking) (f g : Str) : Prop :=
  ∀ (cfg cfg' : p.api.Config) (z z' : p.api.Zone) (t t' : List (Ev (Call p.api.Q) (Reply p.api.B))),
    (p.api.resolve cfg f).run.Runs t (.ok z) → (p.api.resolve cfg' g).run.Runs t' (.ok z') →
    p.api.zoneName z = p.api.zoneName z' →
    ∀ (op op' : Op) (v v' : Str), ValueOk op v → ValueOk op' v' →
      (normalizeName f = normalizeName g → ∀ k,
        (p.api.run cfg op f v).run.Issues t (.lock p.api.locks k) ↔
          (p.api.run cfg' op' g v').run.Issues t' (.lock p.api.locks k)) ∧
      (normalizeName f ≠ normalizeName g → ∀ k,
        (p.api.run cfg op f v).run.Issues t (.lock p.api.locks k) →
          ¬ (p.api.run cfg' op' g v').run.Issues t' (.lock p.api.locks k))

/-- **One record, one lock**: for Cloudflare iff one name is always given with the same trailing dots, for the
others always. -/
theorem sameLock_iff (p : Locking) {f g : Str} (hf : validateFqdn f = .ok ()) (hg : validateFqdn g = .ok ()) :
    SameLock p f g ↔ (p = .cloudflare → normalizeName f = normalizeName g → lower f = lower g) := by
  constructor
  · rintro h rfl hname
    -- the zone is the name, and its id is configured
    let cfg : Cloudflare.CloudflareConfig := ⟨some ⟨normalizeName f, some "z".toList⟩, 60⟩
    have hruns : ∀ n, normalizeName n = normalizeName f →
        (Locking.cloudflare.api.resolve cfg n).run.Runs [] (.ok "z".toList) := by
      intro n hn
      have hrel : relativeName (lower n) (normalizeName f) = .ok "@".toList := by
        rw [relativeName_eq_ok, trimDots_lower, trimDots_normalizeName]
        exact Or.inl ⟨hn, rfl⟩
      exact Cloudflare.resolve_configured hrel 60
    have hcleanup : ∀ v, ValueOk .cleanup v := fun v => nofun
    obtain ⟨hsame, -⟩ := h cfg cfg _ _ [] [] (hruns f rfl) (hruns g hname.symm) rfl .cleanup .cleanup [] []
      (hcleanup []) (hcleanup [])
    have hkeys := hsame hname (lockKey "z".toList (lower f))
    rw [Locking.issues_iff hf (hruns f rfl) (hcleanup []), Locking.issues_iff hg (hruns g hname.symm) (hcleanup [])] at hkeys
    have hkey := hkeys.1 rfl
    simp only [Locking.key, Except.ok.injEq] at hkey
    exact (lockKey_inj.1 hkey).symm
  · intro h cfg cfg' z z' t t' hz hz' hzone op op' v v' hv hv'
    simp only [Locking.issues_iff hf hz hv, Locking.issues_iff hg hz' hv', hzone]
    by_cases hp : p = .cloudflare
    · subst hp
      refine ⟨fun hname k => by simp only [Locking.key, h rfl hname], fun hname k hk hk' => hname ?_⟩
      simp only [Locking.key, Except.ok.injEq] at hk hk'
      have hlower : lower f = lower g := lockKey_inj.1 (hk.trans hk'.symm)
      rw [← trimDots_lower, ← trimDots_lower, hlower]
    · refine ⟨fun hname k => by rw [Locking.key_congr hp hname], fun hname k hk hk' => hname ?_⟩
      exact Locking.eq_of_key_eq hp hf hg hk hk'

theorem sameLock_iff_dot : validateFqdn "A.org".toList = .ok () ∧ validateFqdn "a.org.".toList = .ok () ∧
    SameLock .gandi "A.org".toList "a.org.".toList :=
  ⟨by decide, by decide, (sameLock_iff .gandi (by decide) (by decide)).2 nofun⟩

/-- **One record, two locks**: the name with and without its trailing dot, in the zone `a.org` with the id
`z`. -/
theorem cloudflare_locks_apart :
    let cfg : Cloudflare.CloudflareConfig := ⟨some ⟨"a.org".toList, some "z".toList⟩, 60⟩
    normalizeName "_acme-challenge.a.org.".toList = normalizeName "_acme-challenge.a.org".toList ∧
    (Cloudflare.present cfg "_acme-challenge.a.org".toList "x".toList).run.Issues []
      (.lock Cloudflare.locks "z|_acme-challenge.a.org".toList) ∧
    (Cloudflare.present cfg "_acme-challenge.a.org.".toList "x".toList).run.Issues []
      (.lock Cloudflare.locks "z|_acme-challenge.a.org.".toList) := by
  intro cfg
  have hresolve : ∀ f, relativeName (lower f) "a.org".toList = .ok "_acme-challenge".toList →
      (Locking.cloudflare.api.resolve cfg f).run.Runs [] (.ok "z".toList) :=
    fun f hf => Cloudflare.resolve_configured hf 60
  have hvalue : validateAcmeValue "x".toList = .ok () := by decide
  refine ⟨by decide, ?_, ?_⟩
  · exact (Locking.issues_present (by decide) (hresolve _ (by decide)) hvalue).2 (by decide)
  · exact (Locking.issues_present (by decide) (hresolve _ (by decide)) hvalue).2 (by decide)

end Cheti
