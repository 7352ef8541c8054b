import Cheti.Sequence
import Cheti.Providers.Route53
import Cheti.Providers.GoogleCloudDns
/-!
# Record sets that are more than a list of values

Route53 has alias sets and sets of a routing policy, Google Cloud DNS has sets with their data under
`routingPolicy`. `fetch_rrset` reads a TTL and values out of whatever is stored, and a write replaces the
set whole. `Keeps` says that nothing is lost by that. It holds of plain sets for any `Sound` backend,
and of sets that `fetch_rrset` refuses; it fails for the alias sets of Route53 and for the routing
policies of Google Cloud DNS, which are read as sets without values.
-/

namespace Cheti

open Fut (Chain wp)

namespace Backend

variable {b : Backend}

/-- What can be seen of a record set. -/
structure View (b : Backend) where
  /-- What is served for the name. -/
  Answer : Type
  answers : b.Set → List Answer
  /-- The sets do not differ. -/
  same : b.Set → b.Set → Prop

/-- `present` leaves the set `x` of `fqdn` as it is and fails, or everything that was served before is
still served; and a `cleanup` after it restores the set. -/
def Keeps (view : View b) (z fqdn : Str) (x : b.Set) : Prop :=
  ∀ (zenv : (c : Call b.Q) → Reply b.B c → Prop) (faulty : Bool) (cfg : b.Config) (v : Str),
    b.Resolves zenv false cfg fqdn z → validateAcmeValue v = .ok () →
    ∀ s s' t r, s.sets (b.owner z (normalizeName fqdn)) = some x →
      (b.present cfg fqdn v).run.Runs t r → Chain (b.env zenv faulty) t s s' →
      ((∃ e, r = .error e) ∧ s'.sets (b.owner z (normalizeName fqdn)) = some x ∨
        ∃ y, s'.sets (b.owner z (normalizeName fqdn)) = some y ∧ ∀ a ∈ view.answers x, a ∈ view.answers y) ∧
      (r = .ok () → holds v (b.values x) = false →
        ∀ cfg' fqdn' s'' t', normalizeName fqdn' = normalizeName fqdn → b.Resolves zenv false cfg' fqdn' z →
          (b.cleanup cfg' fqdn' v).run.Runs t' (.ok ()) → Chain (b.env zenv faulty) t' s' s'' →
          ∃ y, s''.sets (b.owner z (normalizeName fqdn)) = some y ∧ view.same y x)

theorem apply_present_ne_nil (v : Str) (values : List Str) : Op.present.apply v values ≠ [] := by
  intro h
  have hv : v ∈ contents (Op.present.apply v values) := mem_contents_present.2 (Or.inr rfl)
  rw [h] at hv
  cases hv

/-- What a call that wrote left, where values are written back as they are. -/
theorem Written.exists_set {op : Op} {v : Str} {o : Owner} {s : Records b.Set} {x : Option b.Set}
    (hcanon : ∀ w, b.canonical w = w) (h : b.Written op v o s x) (hne : op.apply v (b.valuesAt s o) ≠ []) :
    ∃ y, x = some y ∧ b.values y = op.apply v (b.valuesAt s o) ∧ b.plain o y ∧
      (b.keepsTtl = true → ∀ old, s.sets o = some old → b.ttl y = b.ttl old) := by
  cases x with
  | none => exact absurd h hne
  | some y =>
    obtain ⟨hvalues, -, hplain, httl⟩ := h
    have hid : b.canonical = id := funext hcanon
    rw [hid, List.map_id] at hvalues
    exact ⟨y, rfl, hvalues, hplain, httl⟩

theorem valuesAt_of_sets {s : Records b.Set} {o : Owner} {x : b.Set} (h : s.sets o = some x) :
    b.valuesAt s o = b.values x := by
  simp [valuesAt, h]

/-- **Plain sets are kept**, by every provider that writes values and the TTL back. -/
theorem Sound.keeps_of_plain (hb : b.Sound) (hcanon : ∀ w, b.canonical w = w) (hkeeps : b.keepsTtl = true)
    {view : View b} {z fqdn : Str} {x : b.Set}
    (hanswers : ∀ y, b.plain (b.owner z (normalizeName fqdn)) y → (∀ w ∈ b.values x, w ∈ b.values y) →
      ∀ a ∈ view.answers x, a ∈ view.answers y)
    (hsame : ∀ y, b.plain (b.owner z (normalizeName fqdn)) y → b.values y = b.values x → b.ttl y = b.ttl x →
      view.same y x)
    (hplain : b.plain (b.owner z (normalizeName fqdn)) x) (hx : b.values x ≠ []) : Keeps view z fqdn x := by
  intro zenv faulty cfg v hzone hv s s' t r hset hrun hchain
  have hs : b.PlainAt s (b.owner z (normalizeName fqdn)) := fun y hy => by
    rw [hset] at hy
    cases hy
    exact ⟨hplain, hx⟩
  have hold := valuesAt_of_sets hset
  rcases Fut.wp.of_runs (hb.call_wp hzone .present v hs) hrun hchain with
    (⟨heq, rfl, rfl⟩ | ⟨hne, -, y, rfl, hw⟩ | ⟨-, ⟨e, rfl⟩, rfl⟩) | ⟨-, ⟨e, rfl⟩, rfl⟩
  · -- the value was there
    refine ⟨Or.inr ⟨x, hset, fun a ha => ha⟩, fun _ hnot => ?_⟩
    rw [hold, present_apply_eq_iff, hnot] at heq
    cases heq
  · -- it was added to the others
    obtain ⟨y, rfl, hy, hyplain, hyttl⟩ := Written.exists_set hcanon hw (apply_present_ne_nil v _)
    refine ⟨Or.inr ⟨y, sets_put_self .., hanswers y hyplain fun w hw => ?_⟩, fun _ hnot cfg' fqdn' s'' t' hname hzone'
      hrun' hchain' => ?_⟩
    · rw [hy, hold, present_apply]
      split
      · exact hw
      · exact List.mem_append_left _ hw
    · have hs' : b.PlainAt (s.put (b.owner z (normalizeName fqdn)) (some y)) (b.owner z (normalizeName fqdn')) := by
        intro y' hy'
        rw [hname, sets_put_self] at hy'
        cases hy'
        rw [hname]
        exact ⟨hyplain, by rw [hy]; exact apply_present_ne_nil v _⟩
      have hvalues : b.valuesAt (s.put (b.owner z (normalizeName fqdn)) (some y)) (b.owner z (normalizeName fqdn)) =
          Op.present.apply v (b.values x) := by rw [valuesAt_put, ← hold]; exact hy
      have hundo : Op.cleanup.apply v (Op.present.apply v (b.values x)) = b.values x := cleanup_present hnot
      have hpost := Fut.wp.of_runs (hb.call_wp hzone' .cleanup v hs') hrun' hchain'
      rw [hname] at hpost
      rcases hpost with (⟨heq, -, -⟩ | ⟨-, -, y', rfl, hw'⟩ | ⟨-, ⟨e, he⟩, -⟩) | ⟨-, ⟨e, he⟩, -⟩
      · -- then the present before it would have changed nothing
        rw [hvalues, hundo] at heq
        rw [hold] at hne
        exact absurd heq.symm hne
      · rw [← hundo, ← hvalues] at hx
        obtain ⟨y', rfl, hy', hplain', httl'⟩ := Written.exists_set hcanon hw' hx
        rw [hvalues, hundo] at hy'
        refine ⟨y', sets_put_self .., hsame y' hplain' hy' ?_⟩
        rw [httl' hkeeps y (sets_put_self ..), hyttl hkeeps x hset]
      · cases he
      · cases he
  · exact ⟨Or.inl ⟨⟨e, rfl⟩, hset⟩, nofun⟩
  · exact ⟨Or.inl ⟨⟨e, rfl⟩, hset⟩, nofun⟩

/-- `present` in any state, for a provider that takes the lock once it has its zone. -/
theorem wp_present {zenv : (c : Call b.Q) → Reply b.B c → Prop} {total faulty : Bool} {cfg : b.Config} {z fqdn v : Str}
    {key : b.Zone → Str} {body : b.Zone → Prog b.Q b.B Unit} {s : Records b.Set}
    {Φ : Except DnsError Unit → Records b.Set → Prop}
    (heq : b.present cfg fqdn v = (do
      validateFqdn fqdn
      validateAcmeValue v
      let zone ← b.resolveZone cfg fqdn
      withLock b.locks (key zone) (body zone)))
    (hres : b.Resolves zenv total cfg fqdn z)
    (hchecks : (validateFqdn fqdn ≠ .ok () ∨ validateAcmeValue v ≠ .ok ()) → ∀ e, Φ (.error e) s)
    (hzone : total = false → ∀ e, Φ (.error e) s)
    (hbody : ∀ zone, b.zoneName zone = z → wp (fun _ _ => True) (b.env zenv faulty) (body zone).run Φ s) :
    wp (fun _ _ => True) (b.env zenv faulty) (b.present cfg fqdn v).run Φ s := by
  rw [heq, ← bind_assoc, ← lift_bind]
  refine wp_call hres (fun e h => hchecks ?_ e) hzone hbody
  exact (checks_present e h).imp_right fun h => h.2

/-- A set of which something is lost in some run of `present` without faults. -/
theorem Sound.not_keeps (hb : b.Sound) {zenv : (c : Call b.Q) → Reply b.B c → Prop}
    (hz : ∀ c, b.lookup c = true → ∃ r, zenv c r) {cfg : b.Config} {z fqdn v : Str} {view : View b} {x : b.Set}
    (hzone : b.Resolves zenv false cfg fqdn z) (hv : validateAcmeValue v = .ok ()) {s : Records b.Set}
    (hset : s.sets (b.owner z (normalizeName fqdn)) = some x)
    (hlost : wp (fun _ _ => True) (b.env zenv false) (b.present cfg fqdn v).run (fun _ s' =>
      ∃ y, s'.sets (b.owner z (normalizeName fqdn)) = some y ∧ ∃ a ∈ view.answers x, a ∉ view.answers y) s) :
    ¬ Keeps view z fqdn x := by
  intro hkeeps
  obtain ⟨t, r, s', hrun, hchain⟩ := hb.exists_run hz false cfg .present fqdn v s
  obtain ⟨y, hy, a, ha, hnot⟩ := Fut.wp.of_runs hlost hrun hchain
  rcases (hkeeps zenv false cfg v hzone hv s s' t r hset hrun hchain).1 with ⟨-, hx⟩ | ⟨y', hy', hall⟩
  · rw [hy] at hx
    cases hx
    exact hnot ha
  · rw [hy] at hy'
    cases hy'
    exact hnot (hall a ha)

end Backend

open Backend (View Keeps)

/-! ## Route53 -/

namespace Route53

inductive Answer where
  | value (w : Str)
  | target (name : Str)
  | policy (identifier : Str) (values : Option (List Str)) (others : List Str)

def view : View backend where
  Answer := Answer
  answers
    | .simple _ values => values.map .value
    | .aliasOf target => [.target target]
    | .routed identifier _ values others => [.policy identifier values others]
  same y x := y = x

/-- The API has no set of values without one. -/
def Stored.Real : Stored → Prop
  | .simple _ values => values ≠ []
  | _ => True

variable {zenv : (c : Call Req) → Reply Req.Doc c → Prop} {faulty : Bool} {cfg : Route53Config}
  {z fqdn v : Str} {s : Records Stored}

/-- A set of a routing policy is refused. -/
theorem presentLocked_routed {name identifier : Str} {ttl : Option Nat} {values : Option (List Str)} {others : List Str}
    (hset : s.sets ⟨z, name, txt⟩ = some (.routed identifier ttl values others)) :
    wp (fun _ _ => True) (backend.env zenv faulty) (presentLocked cfg z name v).run
      (fun r s' => (∃ e, r = .error e) ∧ s' = s) s := by
  unfold presentLocked
  rw [Fut.wp_run_bind]
  refine Fut.wp_mono (fetchRrset_wp cfg z name) ?_
  rintro r s' ⟨rfl, hr⟩
  rw [hset, fetched] at hr
  rcases hr with rfl | ⟨-, e, rfl⟩
  · exact ⟨⟨_, rfl⟩, rfl⟩
  · exact ⟨⟨e, rfl⟩, rfl⟩

/-- An alias is read as a set without values, and replaced by one with the new value. -/
theorem presentLocked_alias {name target : Str} (hset : s.sets ⟨z, name, txt⟩ = some (.aliasOf target)) :
    wp (fun _ _ => True) (backend.env zenv false) (presentLocked cfg z name v).run
      (fun _ s' => s' = s.put ⟨z, name, txt⟩ (some (.simple cfg.ttl [quote v]))) s := by
  unfold presentLocked
  rw [Fut.wp_run_bind]
  refine Fut.wp_mono (fetchRrset_wp cfg z name) ?_
  rintro r s' ⟨rfl, hr⟩
  rw [hset, fetched] at hr
  obtain rfl : r = .ok (some ⟨cfg.ttl, []⟩) := hr.resolve_right (by simp)
  have hx : Action.applied .upsert ⟨cfg.ttl, [quote v]⟩ (s'.sets ⟨z, name, txt⟩) =
      some (some (.simple cfg.ttl [quote v])) := by
    rw [hset]
    simp [Action.applied]
  refine Fut.wp_mono (changeRrset_wp cfg z name hx) ?_
  rintro r s₁ (⟨-, h⟩ | ⟨hf, -, -⟩)
  · exact h
  · cases hf

theorem keeps_routed {identifier : Str} {ttl : Option Nat} {values : Option (List Str)} {others : List Str} :
    Keeps view z fqdn (.routed identifier ttl values others) := by
  intro zenv faulty cfg v hzone _ s s' t r hset hrun hchain
  obtain ⟨⟨e, rfl⟩, rfl⟩ := Fut.wp.of_runs (Backend.wp_present (b := backend) rfl hzone
    (fun _ e => ⟨⟨e, rfl⟩, rfl⟩) (fun _ e => ⟨⟨e, rfl⟩, rfl⟩) (forall_eq.2 (presentLocked_routed hset))) hrun hchain
  exact ⟨Or.inl ⟨⟨e, rfl⟩, hset⟩, nofun⟩

theorem keeps_simple {ttl : Nat} {values : List Str} (h : values ≠ []) : Keeps view z fqdn (.simple ttl values) := by
  refine sound.keeps_of_plain (fun _ => rfl) rfl ?_ ?_ ⟨ttl, values, rfl⟩ h
  · rintro y ⟨ttl', values', rfl⟩ hsub a ha
    obtain ⟨w, hw, rfl⟩ := List.mem_map.1 ha
    exact List.mem_map.2 ⟨w, hsub w hw, rfl⟩
  · rintro y ⟨ttl', values', rfl⟩ hvalues httl
    obtain rfl : values' = values := hvalues
    obtain rfl : ttl' = ttl := Option.some.inj httl
    rfl

/-- An instance for the hosted zone `z`. -/
def configFor (z : Str) : Route53Config := ⟨some z, 60, fun _ => none, fun _ => none⟩

theorem present_alias {target : Str} (hfqdn : validateFqdn fqdn = .ok ()) (hv : validateAcmeValue v = .ok ())
    (hset : s.sets ⟨z, absolute fqdn, txt⟩ = some (.aliasOf target)) :
    wp (fun _ _ => True) (backend.env zenv false) (present (configFor z) fqdn v).run
      (fun _ s' => s' = s.put ⟨z, absolute fqdn, txt⟩ (some (.simple 60 [quote v]))) s :=
  Backend.wp_present (b := backend) rfl (show backend.Resolves zenv true _ _ z from rfl)
    (fun h => by simp [hfqdn, hv] at h) nofun (forall_eq.2 (presentLocked_alias hset))

theorem not_keeps_alias {target : Str} (hfqdn : validateFqdn fqdn = .ok ()) :
    ¬ Keeps view z fqdn (.aliasOf target) := by
  have hset : (⟨fun _ => some (.aliasOf target), 0⟩ : Records Stored).sets ⟨z, absolute fqdn, txt⟩ =
      some (.aliasOf target) := rfl
  have hzone : backend.Resolves (fun _ _ => True) false (configFor z) fqdn z := rfl
  have hv : validateAcmeValue ['x'] = .ok () := by decide
  refine sound.not_keeps backend.lookup_answered hzone hv hset (Fut.wp_mono (present_alias hfqdn hv hset) ?_)
  rintro r s' rfl
  refine ⟨.simple 60 [quote ['x']], Backend.sets_put_self (b := backend) .., .target target, List.mem_singleton_self _, ?_⟩
  intro h
  cases List.mem_singleton.1 h

/-- What is lost by `present` are exactly the aliases. -/
theorem keeps_iff {x : Stored} (hx : x.Real) (hfqdn : validateFqdn fqdn = .ok ()) :
    Keeps view z fqdn x ↔ ∀ target, x ≠ .aliasOf target := by
  cases x with
  | simple ttl values => exact iff_of_true (keeps_simple hx) nofun
  | routed identifier ttl values others => exact iff_of_true keeps_routed nofun
  | aliasOf target => exact iff_of_false (not_keeps_alias hfqdn) fun h => h target rfl

end Route53

/-! ## Google Cloud DNS -/

namespace GoogleCloudDns

inductive Answer where
  | value (w : Str)
  | policy (p : Value)

/-- A record set is compared by its TTL and its data; the API is free to report other fields. -/
def view : View backend where
  Answer := Answer
  answers x := (rrdatas x).map .value ++ [.policy (x.get "routingPolicy")]
  same y x := y.get "ttl" = x.get "ttl" ∧ y.get "rrdatas" = x.get "rrdatas" ∧
    y.get "routingPolicy" = x.get "routingPolicy"

/-- A set with its data under `routingPolicy`. -/
structure Routed (o : Owner) (x : Value) : Prop where
  named : isTxtAt o.name x = true
  rrdatas : rrdatas x = []
  routingPolicy : x.get "routingPolicy" ≠ .null

variable {zenv : (c : Call Req) → Reply Req.Doc c → Prop} {faulty : Bool} {cfg : GoogleCloudDnsConfig}
  {z fqdn v : Str} {s : Records Value}

/-- A routing policy is read as a set without values, deleted, and replaced by one with the new value. -/
theorem presentLocked_routed {name : Str} {x : Value} (hset : s.sets ⟨z, name, txt⟩ = some x)
    (hx : Routed ⟨z, name, txt⟩ x) :
    wp (fun _ _ => True) (backend.env zenv false) (presentLocked cfg z name v).run (fun _ s' =>
      ∃ y, Rrset.StoredAs ⟨name, txt, ttlOf cfg x, [quote v]⟩ y ∧ s' = s.put ⟨z, name, txt⟩ (some y)) s := by
  unfold presentLocked
  rw [Fut.wp_run_bind]
  refine Fut.wp_mono (fetchRrset_wp cfg z name fun y hy => ?_) ?_
  · rw [hset] at hy
    cases hy
    exact hx.named
  · rintro r s' ⟨rfl, hr⟩
    obtain ⟨a, rfl, rfl⟩ := hr.resolve_right (by simp)
    simp only [hset, Option.map_some, Option.getD_some, hx.rrdatas, List.any_nil, Bool.false_eq_true, if_false,
      List.nil_append]
    refine Fut.wp_mono (applyChange_wp cfg z rfl hset) ?_
    rintro r s₁ (⟨y, hy, rfl⟩ | ⟨hf, -, -⟩)
    · cases y with
      | none => exact hy.elim
      | some y => exact ⟨y, hy, rfl⟩
    · cases hf

theorem keeps_plain {x : Value} (hplain : Plain ⟨z, absolute fqdn, txt⟩ x) (hx : rrdatas x ≠ []) :
    Keeps view z fqdn x := by
  refine sound.keeps_of_plain (fun _ => rfl) rfl ?_ ?_ hplain hx
  · intro y hy hsub a ha
    rcases List.mem_append.1 ha with ha | ha
    · obtain ⟨w, hw, rfl⟩ := List.mem_map.1 ha
      exact List.mem_append_left _ (List.mem_map.2 ⟨w, hsub w hw, rfl⟩)
    · refine List.mem_append_right _ ?_
      rwa [hy.routingPolicy, ← hplain.routingPolicy]
  · intro y hy hvalues httl
    obtain ⟨values, hv⟩ := hplain.rrdatas
    obtain ⟨values', hv'⟩ := hy.rrdatas
    obtain ⟨ttl, ht⟩ := hplain.ttl
    refine ⟨?_, ?_, by rw [hy.routingPolicy, hplain.routingPolicy]⟩
    · have ht' : (y.get "ttl").asU64 = some ttl := httl.trans ht
      rw [(Value.asU64_eq_some.1 ht).1, (Value.asU64_eq_some.1 ht').1]
    · have hrr : rrdatas y = rrdatas x := hvalues
      rw [rrdatas_eq hv, rrdatas_eq hv'] at hrr
      rw [hv, hv', hrr]

/-- An instance for the managed zone `z`. -/
def configFor (z : Str) : GoogleCloudDnsConfig := ⟨"project".toList, some z, 60⟩

theorem present_routed {x : Value} (hfqdn : validateFqdn fqdn = .ok ()) (hv : validateAcmeValue v = .ok ())
    (hset : s.sets ⟨z, absolute fqdn, txt⟩ = some x) (hx : Routed ⟨z, absolute fqdn, txt⟩ x) :
    wp (fun _ _ => True) (backend.env zenv false) (present (configFor z) fqdn v).run (fun _ s' =>
      ∃ y, Rrset.StoredAs ⟨absolute fqdn, txt, ttlOf (configFor z) x, [quote v]⟩ y ∧
        s' = s.put ⟨z, absolute fqdn, txt⟩ (some y)) s :=
  Backend.wp_present (b := backend) rfl (show backend.Resolves zenv true _ _ z from rfl)
    (fun h => by simp [hfqdn, hv] at h) nofun (forall_eq.2 (presentLocked_routed hset hx))

theorem not_keeps_routed {x : Value} (hfqdn : validateFqdn fqdn = .ok ()) (hx : Routed ⟨z, absolute fqdn, txt⟩ x) :
    ¬ Keeps view z fqdn x := by
  have hset : (⟨fun _ => some x, 0⟩ : Records Value).sets ⟨z, absolute fqdn, txt⟩ = some x := rfl
  have hzone : backend.Resolves (fun _ _ => True) false (configFor z) fqdn z := rfl
  have hv : validateAcmeValue ['x'] = .ok () := by decide
  refine sound.not_keeps backend.lookup_answered hzone hv hset (Fut.wp_mono (present_routed hfqdn hv hset hx) ?_)
  rintro r s' ⟨y, hy, rfl⟩
  refine ⟨y, Backend.sets_put_self (b := backend) .., .policy (x.get "routingPolicy"),
    List.mem_append_right _ (List.mem_singleton_self _), fun h => ?_⟩
  rcases List.mem_append.1 h with h | h
  · obtain ⟨w, -, hw⟩ := List.mem_map.1 h
    cases hw
  · rw [hy.routingPolicy] at h
    exact hx.routingPolicy (Answer.policy.inj (List.mem_singleton.1 h))

/-- What is lost by `present` are exactly the routing policies. -/
theorem keeps_iff {x : Value} (hfqdn : validateFqdn fqdn = .ok ())
    (hx : Plain ⟨z, absolute fqdn, txt⟩ x ∧ rrdatas x ≠ [] ∨ Routed ⟨z, absolute fqdn, txt⟩ x) :
    Keeps view z fqdn x ↔ x.get "routingPolicy" = .null := by
  rcases hx with ⟨hplain, hne⟩ | hrouted
  · exact iff_of_true (keeps_plain hplain hne) hplain.routingPolicy
  · exact iff_of_false (not_keeps_routed hfqdn hrouted) hrouted.routingPolicy

end GoogleCloudDns

/-- **When `present` keeps what is stored.** Of the record sets that Route53 has, it keeps exactly those
that are not an alias, and of those that Google Cloud DNS has, exactly those whose data is not under
`routingPolicy`. -/
theorem present_keeps_iff {z fqdn : Str} (hfqdn : validateFqdn fqdn = .ok ()) :
    (∀ x : Route53.Stored, x.Real → (Keeps Route53.view z fqdn x ↔ ∀ target, x ≠ .aliasOf target)) ∧
    (∀ x : Value,
      (GoogleCloudDns.Plain ⟨z, absolute fqdn, txt⟩ x ∧ GoogleCloudDns.rrdatas x ≠ [] ∨
        GoogleCloudDns.Routed ⟨z, absolute fqdn, txt⟩ x) →
      (Keeps GoogleCloudDns.view z fqdn x ↔ x.get "routingPolicy" = .null)) :=
  ⟨fun _ hx => Route53.keeps_iff hx hfqdn, fun _ hx => GoogleCloudDns.keeps_iff hfqdn hx⟩

/-- A record set of Google Cloud DNS with one value. -/
def plainExample : Value := .object [("name".toList, .string "_acme-challenge.a.org.".toList),
  ("type".toList, .string txt), ("ttl".toList, .number 300), ("rrdatas".toList, .array [.string "\"old\"".toList])]

theorem present_keeps_plain_examples :
    Keeps Route53.view "Z1".toList "_acme-challenge.a.org".toList (.simple 300 ["\"old\"".toList]) ∧
    Keeps GoogleCloudDns.view "zone".toList "_acme-challenge.a.org".toList plainExample := by
  have hfqdn : validateFqdn "_acme-challenge.a.org".toList = .ok () := by decide
  have hplain : GoogleCloudDns.Plain ⟨"zone".toList, absolute "_acme-challenge.a.org".toList, txt⟩ plainExample :=
    ⟨by decide, ⟨300, by decide⟩, ⟨["\"old\"".toList], rfl⟩, rfl⟩
  have hreal : Route53.Stored.Real (.simple 300 ["\"old\"".toList]) := List.cons_ne_nil _ _
  exact ⟨((present_keeps_iff hfqdn).1 _ hreal).2 nofun,
    ((present_keeps_iff hfqdn).2 _ (Or.inl ⟨hplain, by decide⟩)).2 rfl⟩

/-- A record set of Google Cloud DNS with its data under `routingPolicy`. -/
def policyExample : Value := .object [("name".toList, .string "_acme-challenge.a.org.".toList),
  ("type".toList, .string txt), ("ttl".toList, .number 300),
  ("routingPolicy".toList, .object [("geo".toList, .array [])])]

/-- An alias of another name, and a routing policy: after `present`, with no request failing, there is a
set with the new value only. -/
theorem present_replaces_whole_set :
    (∃ t r s s', s.sets ⟨"Z1".toList, "_acme-challenge.a.org.".toList, txt⟩ = some (.aliasOf "b.org.".toList) ∧
      (Route53.present (Route53.configFor "Z1".toList) "_acme-challenge.a.org".toList "x".toList).run.Runs t r ∧
      Chain (Route53.backend.env (fun _ _ => True) false) t s s' ∧
      s'.sets ⟨"Z1".toList, "_acme-challenge.a.org.".toList, txt⟩ = some (.simple 60 ["\"x\"".toList])) ∧
    (∃ t r s s' y, s.sets ⟨"zone".toList, "_acme-challenge.a.org.".toList, txt⟩ = some policyExample ∧
      (GoogleCloudDns.present (GoogleCloudDns.configFor "zone".toList) "_acme-challenge.a.org".toList
        "x".toList).run.Runs t r ∧
      Chain (GoogleCloudDns.backend.env (fun _ _ => True) false) t s s' ∧
      s'.sets ⟨"zone".toList, "_acme-challenge.a.org.".toList, txt⟩ = some y ∧
      y.get "rrdatas" = .array [.string "\"x\"".toList] ∧ y.get "routingPolicy" = .null) := by
  have hfqdn : validateFqdn "_acme-challenge.a.org".toList = .ok () := by decide
  have hv : validateAcmeValue "x".toList = .ok () := by decide
  constructor
  · have hset : (⟨fun _ => some (.aliasOf "b.org.".toList), 0⟩ : Records Route53.Stored).sets
        ⟨"Z1".toList, absolute "_acme-challenge.a.org".toList, txt⟩ = some (.aliasOf "b.org.".toList) := rfl
    obtain ⟨t, r, s', hrun, hchain⟩ := Route53.sound.exists_run Route53.backend.lookup_answered false
      (Route53.configFor "Z1".toList) .present "_acme-challenge.a.org".toList "x".toList _
    obtain rfl := Fut.wp.of_runs (Route53.present_alias hfqdn hv hset) hrun hchain
    exact ⟨t, r, _, _, rfl, hrun, hchain, Backend.sets_put_self (b := Route53.backend) ..⟩
  · have hset : (⟨fun _ => some policyExample, 0⟩ : Records Value).sets
        ⟨"zone".toList, absolute "_acme-challenge.a.org".toList, txt⟩ = some policyExample := rfl
    have hrouted : GoogleCloudDns.Routed ⟨"zone".toList, absolute "_acme-challenge.a.org".toList, txt⟩ policyExample :=
      ⟨by decide, by decide, nofun⟩
    obtain ⟨t, r, s', hrun, hchain⟩ := GoogleCloudDns.sound.exists_run GoogleCloudDns.backend.lookup_answered false
      (GoogleCloudDns.configFor "zone".toList) .present "_acme-challenge.a.org".toList "x".toList _
    obtain ⟨y, hy, rfl⟩ := Fut.wp.of_runs (GoogleCloudDns.present_routed hfqdn hv hset hrouted) hrun hchain
    exact ⟨t, r, _, _, y, rfl, hrun, hchain, Backend.sets_put_self (b := GoogleCloudDns.backend) .., hy.rrdatas,
      hy.routingPolicy⟩

end Cheti
