import Cheti.ConcurrentSolves
import Cheti.ReadMergeWrite
import Cheti.RecordContract
import Cheti.Providers.Scaleway
/-!
# Solves on the APIs of the providers

An `Implementation` is a provider with the API it talks to, and with what `DnsProvider` promises about its two
calls proved against that API: whatever its requests come to, a call touches no value but its own, and one that
returns `Ok` has done its work. Since any request may fail without effect, this also says what a call leaves that
was dropped between two of its requests (`Fut.wp.of_at`).

Any number of solves run on it, each of their calls to the provider being the provider's own requests. They refine
the solves of `ConcurrentSolves`, on the values that the API holds (`Implementation.refines`). A call is one step
here: that the requests of two calls do not mix is the matter of the lock that the provider takes (`Interleaving`).
What is left of a call that was dropped is a step too, at any later time or never; a write that lands after others have
changed the set it was made from is the subject of `Abandoned`. For the record sets a request that failed has had no
effect; for the records a create may have been carried out whose answer was lost. A listing shows all records of the
name, which is so at Cloudflare and Scaleway for a hundred of them (`SinglePage`, `OnePage`).

| here | what is held |
| --- | --- |
| `Backend.implementation`      | the values in the record sets: Gandi, deSEC, PowerDNS, Route53, Google Cloud DNS, Scaleway |
| `OneRecordApi.implementation` | the records, one for each value: Bunny, Cloudflare, DigitalOcean, Infomaniak, OVH, Porkbun |
-/

namespace Cheti

open Fut Fut.Tasks

/-- What a call is for. -/
def Op.effect {κ : Type} : Op → κ → Tasks.Effect κ
  | .present, k => .adds k
  | .cleanup, k => .removes k

structure Implementation where
  C : Type
  R : C → Type
  S : Type
  κ : Type
  api : Env C R S
  run : Op → Solver.PlacedRecord → Fut Unit C R (Except DnsError Unit)
  Valid : S → Prop
  held : S → Set κ
  key : Solver.PlacedRecord → κ
  /-- Every request may fail without effect. -/
  idle : ∀ c s, ∃ r, api c r s s
  call : ∀ op record s, Valid s → wp (fun _ _ => True) api (run op record) (fun r s' => Valid s' ∧
    (op.effect (key record)).Tried (held s) (held s') ∧
    (r = .ok () → held s' = (op.effect (key record)).apply (held s))) s

namespace Implementation

variable (p : Implementation)

/-- A call of a solve to its provider is a run of the provider's code. -/
def env : Env Solver.Call Solver.Reply p.S
  | .present fqdn value, r, s, s' => ∃ t, (p.run .present ⟨fqdn, value⟩).Runs t r ∧ Chain p.api t s s'
  | .cleanup fqdn value, r, s, s' => ∃ t, (p.run .cleanup ⟨fqdn, value⟩).Runs t r ∧ Chain p.api t s s'
  | _, _, s, s' => s' = s

/-- A call that was dropped has made some of its requests, one after the other; the last one may have been in flight. -/
def abandons : Solver.Call → p.S → p.S → Prop
  | .present fqdn value, s, s' => ∃ t q, (p.run .present ⟨fqdn, value⟩).At t q ∧ Chain p.api t s s'
  | .cleanup fqdn value, s, s' => ∃ t q, (p.run .cleanup ⟨fqdn, value⟩).At t q ∧ Chain p.api t s s'
  | _, s, s' => s' = s

/-- `w` happened to the solves, from the state `s₀` of the API. -/
abbrev Interleaves {ι : Type} [DecidableEq ι] (runtime : ι → Bool) (solves : ι → Solver.Solve) (s₀ : p.S) :
    History ι Solver.Call Solver.Reply → Solver.System ι p.S → Prop :=
  Steps (spawning p.env p.abandons runtime CleanupGuard.drop) (start (fun i => (solves i).prog) (.init s₀))

variable {p}

theorem env_refines {c : Solver.Call} {r : Solver.Reply c} {s s' : p.S} (hs : p.Valid s) (h : p.env c r s s') :
    p.Valid s' ∧ effectEnv (Solver.Call.effect p.key) Solver.Call.Confirmed c r (p.held s) (p.held s') := by
  cases c with
  | present fqdn value =>
    obtain ⟨t, hrun, hc⟩ := h
    exact (p.call .present ⟨fqdn, value⟩ s hs).of_runs hrun hc
  | cleanup fqdn value =>
    obtain ⟨t, hrun, hc⟩ := h
    exact (p.call .cleanup ⟨fqdn, value⟩ s hs).of_runs hrun hc
  | _ =>
    obtain rfl : s' = s := h
    exact ⟨hs, rfl, fun _ => rfl⟩

theorem abandons_refines {c : Solver.Call} {s s' : p.S} (hs : p.Valid s) (h : p.abandons c s s') :
    p.Valid s' ∧ effectAbandons (Solver.Call.effect p.key) c (p.held s) (p.held s') := by
  cases c with
  | present fqdn value =>
    obtain ⟨t, q, hat, hc⟩ := h
    obtain ⟨r, hvalid, htried, -⟩ := wp.of_at p.idle (p.call .present ⟨fqdn, value⟩ s hs) hat hc
    exact ⟨hvalid, htried⟩
  | cleanup fqdn value =>
    obtain ⟨t, q, hat, hc⟩ := h
    obtain ⟨r, hvalid, htried, -⟩ := wp.of_at p.idle (p.call .cleanup ⟨fqdn, value⟩ s hs) hat hc
    exact ⟨hvalid, htried⟩
  | _ =>
    obtain rfl : s' = s := h
    exact ⟨hs, rfl⟩

/-- **The solves on an API refine those on the set of the values that it holds.** -/
theorem refines {ι : Type} [DecidableEq ι] {runtime : ι → Bool} {solves : ι → Solver.Solve} {s₀ : p.S} (hs₀ : p.Valid s₀)
    {w : History ι Solver.Call Solver.Reply} {cfg : Solver.System ι p.S} (h : p.Interleaves runtime solves s₀ w cfg) :
    p.Valid cfg.store.state ∧ Solver.Interleaves p.key runtime solves (p.held s₀) w
      ⟨{ cfg.store with state := p.held cfg.store.state }, cfg.prog⟩ :=
  h.spawning_refines (fun _ _ _ _ => env_refines) (fun _ _ _ => abandons_refines) hs₀

end Implementation

/-! ## Record sets -/

/-- Values, each in the record set of an owner. -/
abbrev OwnedValues := Set (Owner × Str)

namespace Backend

variable {b : Backend}

/-- The values in the TXT record sets. -/
def held (b : Backend) (s : Records b.Set) : OwnedValues := {k | k.1.rtype = txt ∧ k.2 ∈ contents (b.valuesAt s k.1)}

theorem held_put {op : Op} {v : Str} {o : Owner} {s : Records b.Set} (hb : b.Sound) (ho : o.rtype = txt)
    {x : Option b.Set} (hx : b.Written op v o s x) : b.held (s.put o x) = (op.effect (o, v)).apply (b.held s) := by
  ext ⟨o', w⟩
  by_cases hoo : o' = o
  · subst hoo
    have hmem : w ∈ contents (b.valuesAt (s.put o' x) o') ↔ w ∈ contents (op.apply v (b.valuesAt s o')) := by
      rw [valuesAt_written hx, contents_map_canonical hb]
    cases op with
    | present => simp [held, Op.effect, Tasks.Effect.apply, ho, hmem, mem_contents_present, or_comm]
    | cleanup => simp [held, Op.effect, Tasks.Effect.apply, ho, hmem, mem_contents_cleanup]
  · have hsame : b.valuesAt (s.put o x) o' = b.valuesAt s o' := by
      rw [valuesAt, sets_put_of_ne hoo, valuesAt]
    cases op with
    | present => simp [held, Op.effect, Tasks.Effect.apply, hsame, hoo]
    | cleanup => simp [held, Op.effect, Tasks.Effect.apply, hsame, hoo]

/-- Where there is nothing to do, the effect is nothing. -/
theorem held_of_apply_eq {op : Op} {v : Str} {o : Owner} {s : Records b.Set} (ho : o.rtype = txt)
    (h : op.apply v (b.valuesAt s o) = b.valuesAt s o) : (op.effect (o, v)).apply (b.held s) = b.held s := by
  cases op with
  | present =>
    have hmem : v ∈ contents (b.valuesAt s o) := holds_iff.1 (present_apply_eq_iff.1 h)
    exact Set.insert_eq_of_mem ⟨ho, hmem⟩
  | cleanup =>
    refine Set.sdiff_singleton_eq_self fun hmem => ?_
    rw [held, Set.mem_ofPred_eq, ← holds_iff, cleanup_apply_eq_iff.1 h] at hmem
    cases hmem.2

theorem tried_of_post {op : Op} {v : Str} {o : Owner} {faulty : Bool} {s s' : Records b.Set} {r : Except DnsError Unit}
    (hb : b.Sound) (ho : o.rtype = txt) (h : b.Post op v o faulty s r s') :
    (op.effect (o, v)).Tried (b.held s) (b.held s') ∧ (r = .ok () → b.held s' = (op.effect (o, v)).apply (b.held s)) := by
  have hidle : (op.effect (o, v)).Tried (b.held s) (b.held s) := by
    cases op with
    | present => rfl
    | cleanup => exact Or.inr rfl
  rcases h with ⟨heq, -, rfl⟩ | ⟨-, -, x, rfl, hx⟩ | ⟨-, ⟨e, rfl⟩, rfl⟩
  · exact ⟨hidle, fun _ => (held_of_apply_eq ho heq).symm⟩
  · rw [held_put hb ho hx]
    exact ⟨Tasks.Effect.tried_apply _ _, fun _ => rfl⟩
  · exact ⟨hidle, nofun⟩

/-- The zone in which a name is found, and that lookups are answered. -/
structure Placement (b : Backend) (cfg : b.Config) where
  zenv : (c : Call b.Q) → Reply b.B c → Prop
  zoneOf : Str → Str
  answered : ∀ c, b.lookup c = true → ∃ r, zenv c r
  resolves : ∀ fqdn, b.Resolves zenv false cfg fqdn (zoneOf (normalizeName fqdn))

def Placement.key {cfg : b.Config} (z : b.Placement cfg) (record : Solver.PlacedRecord) : Owner × Str :=
  (b.owner (z.zoneOf (normalizeName record.fqdn)) (normalizeName record.fqdn), record.value)

/-- A request may fail, and everything else leaves the records alone. -/
theorem env_idle {zenv : (c : Call b.Q) → Reply b.B c → Prop} (h : ∀ c, b.lookup c = true → ∃ r, zenv c r)
    (c : Call b.Q) (s : Records b.Set) : ∃ r, b.env zenv true c r s s := by
  cases c with
  | send q =>
    cases hq : b.aboutZones q with
    | true =>
      obtain ⟨r, hr⟩ := h (.send q) hq
      exact ⟨r, by simp [env, hq, hr]⟩
    | false => exact ⟨.error "", by simp [env, hq, Failed]⟩
  | findZone fqdn =>
    obtain ⟨r, hr⟩ := h (.findZone fqdn) rfl
    exact ⟨r, hr, rfl⟩
  | cacheGet name =>
    obtain ⟨r, hr⟩ := h (.cacheGet name) rfl
    exact ⟨r, hr, rfl⟩
  | accessToken => exact ⟨.error (.other ""), by simp, rfl⟩
  | now => exact ⟨(0 : Nat), rfl⟩
  | _ => exact ⟨(), rfl⟩

theorem env_mono {zenv : (c : Call b.Q) → Reply b.B c → Prop} (c : Call b.Q) (r : Reply b.B c) (s s' : Records b.Set)
    (h : b.env zenv false c r s s') : b.env zenv true c r s s' := by
  cases c with
  | send q =>
    cases hq : b.aboutZones q with
    | true => simpa [env, hq] using h
    | false =>
      rw [env_send hq] at h ⊢
      exact h.imp_right fun hfaulty => absurd hfaulty.1 (by simp)
  | accessToken => exact ⟨by simp, h.2⟩
  | _ => exact h

def implementation (hb : b.Sound) (cfg : b.Config) (z : b.Placement cfg) : Implementation where
  C := Call b.Q
  R := Reply b.B
  S := Records b.Set
  κ := Owner × Str
  api := b.env z.zenv true
  run op record := (b.run cfg op record.fqdn record.value).run
  Valid := b.WF
  held := b.held
  key := z.key
  idle := env_idle z.answered
  call op record s hs := by
    have ho := hb.owner_txt (z.zoneOf (normalizeName record.fqdn)) (normalizeName record.fqdn)
    refine wp_mono (hb.call_wp (z.resolves record.fqdn) op record.value (hs _ ho)) ?_
    rintro r s' (hpost | ⟨-, ⟨e, rfl⟩, rfl⟩)
    · exact ⟨(effect_of_post hpost).wf hs, tried_of_post hb ho hpost⟩
    · refine ⟨hs, ?_, nofun⟩
      cases op with
      | present => rfl
      | cleanup => exact Or.inr rfl

end Backend

/-! ## One record for each value -/

theorem normalizeName_normalizeName (name : Str) : normalizeName (normalizeName name) = normalizeName name := by
  rw [normalizeName, trimDots_normalizeName]
  exact lower_lower _

namespace OneRecordApi

variable {a : OneRecordApi}

/-- A record holds at most one value, of one name. -/
structure Keyed (a : OneRecordApi) (zoneOf : Str → a.Zone) : Prop where
  spelling : ∀ z fqdn v, a.hold z (normalizeName fqdn) v = a.hold z fqdn v
  unique : ∀ n n' v v' x, a.hold (zoneOf n) n v x = true → a.hold (zoneOf n') n' v' x = true →
    normalizeName n = normalizeName n' ∧ v = v'

theorem keyed_of {zoneOf : Str → a.Zone} (inZone : a.Zone → a.R → Prop) (name : a.Zone → a.R → Str) (value : a.R → Str)
    (hhold : ∀ z fqdn v x, a.hold z fqdn v x = true ↔ inZone z x ∧ name z x = normalizeName fqdn ∧ value x = v)
    (hname : ∀ n n' x, inZone (zoneOf n) x → inZone (zoneOf n') x → name (zoneOf n) x = name (zoneOf n') x) :
    a.Keyed zoneOf where
  spelling z fqdn v := by
    funext x
    rw [Bool.eq_iff_iff, hhold, hhold, normalizeName_normalizeName]
  unique n n' v v' x hx hx' := by
    obtain ⟨hz, hn, hv⟩ := (hhold ..).1 hx
    obtain ⟨hz', hn', hv'⟩ := (hhold ..).1 hx'
    exact ⟨by rw [← hn, ← hn', hname n n' x hz hz'], hv.symm.trans hv'⟩

/-- The values that some record holds. -/
def held (a : OneRecordApi) (zoneOf : Str → a.Zone) (s : List a.R) : Set (Str × Str) :=
  {k | normalizeName k.1 = k.1 ∧ ∃ x ∈ s, a.hold (zoneOf k.1) k.1 k.2 x = true}

section Held

variable {zoneOf : Str → a.Zone} (hkeyed : a.Keyed zoneOf) {srv : RecordServer a.Q a.B a.R a.ι} {fqdn v : Str}
  {s s' : List a.R}

include hkeyed

theorem mem_held_iff : (normalizeName fqdn, v) ∈ a.held zoneOf s ↔
    ∃ x ∈ s, a.hold (zoneOf (normalizeName fqdn)) fqdn v x = true := by
  rw [held, Set.mem_ofPred_eq, and_iff_right (normalizeName_normalizeName fqdn), hkeyed.spelling]

/-- The values that are not the call's own. -/
theorem mem_held_of_untouched (h : Untouched srv (a.hold (zoneOf (normalizeName fqdn)) fqdn v) s s') {k : Str × Str}
    (hk : k ≠ (normalizeName fqdn, v)) : k ∈ a.held zoneOf s' ↔ k ∈ a.held zoneOf s := by
  have hother : ∀ x, normalizeName k.1 = k.1 → a.hold (zoneOf k.1) k.1 k.2 x = true →
      a.hold (zoneOf (normalizeName fqdn)) fqdn v x = false := by
    intro x hnorm hx
    by_contra hne
    rw [Bool.not_eq_false, ← hkeyed.spelling] at hne
    obtain ⟨hn, hv⟩ := hkeyed.unique _ _ _ _ x hx hne
    rw [hnorm, normalizeName_normalizeName] at hn
    exact hk (Prod.ext hn hv)
  refine and_congr_right fun hnorm => exists_congr fun x => and_congr_left fun hx => ?_
  have hmem : x ∈ s'.filter (!a.hold (zoneOf (normalizeName fqdn)) fqdn v ·) ↔
      x ∈ s.filter (!a.hold (zoneOf (normalizeName fqdn)) fqdn v ·) := by rw [h.others]
  simpa [hother x hnorm hx] using hmem

theorem held_presented {r : Except DnsError Unit}
    (h : Presented srv (a.hold (zoneOf (normalizeName fqdn)) fqdn v) s r s') :
    (Tasks.Effect.adds (normalizeName fqdn, v)).Tried (a.held zoneOf s) (a.held zoneOf s') ∧
      (r = .ok () → a.held zoneOf s' = insert (normalizeName fqdn, v) (a.held zoneOf s)) := by
  constructor
  · ext k
    by_cases hk : k = (normalizeName fqdn, v)
    · simp [hk]
    · simp [hk, mem_held_of_untouched hkeyed h.untouched hk]
  · intro hr
    ext k
    by_cases hk : k = (normalizeName fqdn, v)
    · subst hk
      simp [mem_held_iff hkeyed, h.there hr]
    · simp [hk, mem_held_of_untouched hkeyed h.untouched hk]

theorem held_cleaned {r : Except DnsError Unit}
    (h : Cleaned srv (a.hold (zoneOf (normalizeName fqdn)) fqdn v) s r s') :
    (Tasks.Effect.removes (normalizeName fqdn, v)).Tried (a.held zoneOf s) (a.held zoneOf s') ∧
      (r = .ok () → a.held zoneOf s' = a.held zoneOf s \ {(normalizeName fqdn, v)}) := by
  have hgone : (normalizeName fqdn, v) ∉ a.held zoneOf s' → a.held zoneOf s' = a.held zoneOf s \ {(normalizeName fqdn, v)} := by
    intro hnot
    ext k
    by_cases hk : k = (normalizeName fqdn, v)
    · subst hk
      simp [hnot]
    · simp [hk, mem_held_of_untouched hkeyed h.untouched hk]
  constructor
  · by_cases hmem : (normalizeName fqdn, v) ∈ a.held zoneOf s'
    · refine Or.inr (Set.ext fun k => ?_)
      by_cases hk : k = (normalizeName fqdn, v)
      · subst hk
        obtain ⟨x, hx, hheld⟩ := (mem_held_iff hkeyed).1 hmem
        exact iff_of_true hmem ((mem_held_iff hkeyed).2 ⟨x, h.fewer.subset hx, hheld⟩)
      · exact mem_held_of_untouched hkeyed h.untouched hk
    · exact Or.inl (hgone hmem)
  · intro hr
    refine hgone fun hmem => ?_
    obtain ⟨x, hx, hheld⟩ := (mem_held_iff hkeyed).1 hmem
    rw [h.gone hr x hx] at hheld
    cases hheld

end Held

/-- The zone in which a name is found, and that every call may be answered, a request with a failure. -/
structure Placement (a : OneRecordApi) (cfg : a.Config) where
  world : a.World
  zoneOf : Str → a.Zone
  decodes : a.Decodes world cfg
  fails : ∀ q, ∃ e, (a.server world).answers (.send q) (.error e)
  answered : ∀ c, (∀ q, c ≠ .send q) → ∃ r, (a.server world).answers c r
  resolves : ∀ fqdn, a.ZoneIs world cfg fqdn (zoneOf (normalizeName fqdn))

theorem env_idle {cfg : a.Config} (z : a.Placement cfg) (c : Call a.Q) (s : List a.R) :
    ∃ r, (a.server z.world).env true c r s s := by
  by_cases hsend : ∃ q, c = .send q
  · obtain ⟨q, rfl⟩ := hsend
    obtain ⟨e, he⟩ := z.fails q
    have hnot : ¬ (a.server z.world).Confirmed q (.error e) := by
      rintro ⟨resp, hresp, -⟩
      cases hresp
    refine ⟨.error e, he, nofun, ?_⟩
    cases (a.server z.world).meaning q with
    | reads shows => exact ⟨rfl, nofun⟩
    | creates makes => exact Or.inr ⟨rfl, fun h => absurd h hnot⟩
    | deletes id => exact Or.inr ⟨rfl, hnot⟩
  · obtain ⟨r, hr⟩ := z.answered c fun q hq => hsend ⟨q, hq⟩
    refine ⟨r, ?_⟩
    cases c with
    | send q => exact absurd ⟨q, rfl⟩ hsend
    | _ => exact ⟨hr, rfl⟩

def implementation (ha : a.Contract) (cfg : a.Config) (z : a.Placement cfg) (hkeyed : a.Keyed z.zoneOf) :
    Implementation where
  C := Call a.Q
  R := Reply a.B
  S := List a.R
  κ := Str × Str
  api := (a.server z.world).env true
  run op record := (a.run cfg op record.fqdn record.value).run
  Valid := (a.server z.world).UniqueIds
  held := a.held z.zoneOf
  key record := (normalizeName record.fqdn, record.value)
  idle := env_idle z
  call op record s hs := by
    refine wp_of_forall_runs fun t r s' hrun hchain => ?_
    obtain ⟨hpromise, -⟩ := ha z.world [] s s hs (.nil s) ⟨cfg, op, record.fqdn, record.value⟩ _ z.decodes
    cases op with
    | present =>
      have hpresented : Presented _ _ s r s' := hpromise (z.resolves record.fqdn) t r s' hrun hchain
      exact ⟨hpresented.untouched.ids, held_presented hkeyed hpresented⟩
    | cleanup =>
      have hcleaned : Cleaned _ _ s r s' := hpromise (z.resolves record.fqdn) t r s' hrun hchain
      exact ⟨hcleaned.untouched.ids, held_cleaned hkeyed hcleaned⟩

end OneRecordApi

/-! ## The providers -/

/-- The providers that replace the record set of a name as a whole. -/
inductive SetProvider where
  | rmw (p : Rmw)
  | scaleway

abbrev SetProvider.backend : SetProvider → Backend
  | .rmw p => p.backend
  | .scaleway => Scaleway.whole

theorem SetProvider.sound (p : SetProvider) : p.backend.Sound := by
  cases p with
  | rmw p => exact p.sound
  | scaleway => exact Scaleway.sound

namespace OnePerValue

theorem contract (p : OnePerValue) : p.recordApi.Contract := by
  cases p with
  | bunny => exact Bunny.contract
  | cloudflare => exact Cloudflare.contract
  | digitalOcean => exact DigitalOcean.contract
  | infomaniak => exact Infomaniak.contract
  | ovh => exact Ovh.contract
  | porkbun => exact Porkbun.contract

/-- Bunny's records name their zone by an id. -/
def DistinctZones : (p : OnePerValue) → (Str → p.recordApi.Zone) → Prop
  | .bunny, zoneOf => ∀ n n', Bunny.Zone.id (zoneOf n) = Bunny.Zone.id (zoneOf n') → zoneOf n = zoneOf n'
  | _, _ => True

/-- **A record holds one value, of one name.** -/
theorem keyed (p : OnePerValue) {zoneOf : Str → p.recordApi.Zone} (h : p.DistinctZones zoneOf) :
    p.recordApi.Keyed zoneOf := by
  cases p with
  | bunny =>
    refine OneRecordApi.keyed_of (fun z l => l.zone = z.id ∧ l.record.type = Bunny.recordTypeTxt)
      (fun z l => recordAt z.domain (l.record.name.getD [])) (fun l => Bunny.recordValue l.record) (fun z fqdn v l => ?_) ?_
    · show Bunny.hold z fqdn v l = true ↔ _
      simp [Bunny.hold, Bunny.Line.isTxtAt, and_assoc]
    · rintro n n' l ⟨hz, -⟩ ⟨hz', -⟩
      rw [h n n' (hz.symm.trans hz')]
  | cloudflare =>
    refine OneRecordApi.keyed_of (fun z l => l.zone = z ∧ l.type = txt) (fun _ l => normalizeName l.name)
      (fun l => trimQuotes l.record.content) (fun z fqdn v l => ?_) fun _ _ _ _ _ => rfl
    show Cloudflare.hold z fqdn v l = true ↔ _
    simp [Cloudflare.hold, Cloudflare.Line.isTxtAt, and_assoc]
  | digitalOcean =>
    refine OneRecordApi.keyed_of (fun z l => l.zone = z ∧ l.type = txt) (fun z l => recordAt z l.name)
      (fun l => DigitalOcean.recordValue l.record) (fun z fqdn v l => ?_) ?_
    · show DigitalOcean.hold z fqdn v l = true ↔ _
      simp [DigitalOcean.hold, DigitalOcean.Line.isTxtAt, and_assoc]
    · rintro n n' l ⟨hz, -⟩ ⟨hz', -⟩
      rw [← hz, ← hz']
  | infomaniak =>
    refine OneRecordApi.keyed_of (fun z l => l.zone = z ∧ eqIgnoreCase l.record.recordType txt)
      (fun z l => recordAt z (trimDots l.record.source)) (fun l => unquote l.record.target) (fun z fqdn v l => ?_) ?_
    · show Infomaniak.hold z fqdn v l = true ↔ _
      simp [Infomaniak.hold, Infomaniak.Line.isTxtAt, and_assoc]
    · rintro n n' l ⟨hz, -⟩ ⟨hz', -⟩
      rw [← hz, ← hz']
  | ovh =>
    refine OneRecordApi.keyed_of (fun z l => l.zone = z ∧ l.fieldType = txt) (fun z l => recordAt z l.subDomain)
      (fun l => trimQuotes l.target) (fun z fqdn v l => ?_) ?_
    · show Ovh.hold z fqdn v l = true ↔ _
      simp [Ovh.hold, Ovh.Line.isTxtAt, and_assoc]
    · rintro n n' l ⟨hz, -⟩ ⟨hz', -⟩
      rw [← hz, ← hz']
  | porkbun =>
    refine OneRecordApi.keyed_of (fun z l => l.zone = z ∧ eqIgnoreCase l.record.recordType txt)
      (fun z l => recordAt z l.name) (fun l => unquote l.record.content) (fun z fqdn v l => ?_) ?_
    · show Porkbun.hold z fqdn v l = true ↔ _
      simp [Porkbun.hold, Porkbun.Line.isTxtAt, and_assoc]
    · rintro n n' l ⟨hz, -⟩ ⟨hz', -⟩
      rw [← hz, ← hz']

end OnePerValue

/-- A provider, an instance of it, and the API it works on. -/
inductive Deployment where
  | sets (p : SetProvider) (cfg : p.backend.Config) (z : p.backend.Placement cfg)
  | records (p : OnePerValue) (cfg : p.recordApi.Config) (z : p.recordApi.Placement cfg) (hz : p.DistinctZones z.zoneOf)

namespace Deployment

def implementation : Deployment → Implementation
  | .sets p cfg z => p.backend.implementation p.sound cfg z
  | .records p cfg z hz => p.recordApi.implementation p.contract cfg z (p.keyed hz)

/-- Gandi, with the zone of every name given. -/
def gandi : Deployment :=
  .sets (.rmw .gandi) (Rmw.instanceWithTtl 300)
    { zenv := fun _ _ => True, zoneOf := fun _ => "a.org".toList, answered := (Rmw.backend .gandi).lookup_answered, resolves := fun _ => rfl }

/-- A call on the name of a sample challenge may return `Ok`. -/
theorem gandi_returns (op : Op) (value : Str) (hvalue : validateAcmeValue value = .ok ())
    {s : gandi.implementation.S} (hs : gandi.implementation.Valid s) :
    ∃ s', (∃ t, (gandi.implementation.run op ⟨"_acme-challenge.a.org".toList, value⟩).Runs t (.ok ()) ∧
      Chain gandi.implementation.api t s s') ∧ gandi.implementation.Valid s' := by
  have hfqdn : validateFqdn "_acme-challenge.a.org".toList = .ok () := by decide
  have hwithin : normalizeName "_acme-challenge.a.org".toList = "_acme-challenge".toList ++ '.' :: trimDots "a.org".toList := by
    decide
  have hvalid : Rmw.Valid (p := .gandi) "a.org".toList ⟨Rmw.instanceWithTtl 300, op, "_acme-challenge.a.org".toList, value⟩ :=
    ⟨hfqdn, hvalue, Or.inr ⟨_, hwithin⟩⟩
  obtain ⟨t, s', hrun, hchain, hwf⟩ := (hvalid.accepted rfl).exists_ok (Rmw.sound .gandi) rfl (Rmw.backend .gandi).lookup_answered hs
  exact ⟨s', ⟨t, hrun, hchain.mono Backend.env_mono⟩, hwf⟩

end Deployment

end Cheti
