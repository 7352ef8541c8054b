import Cheti.Sequence
import Cheti.Providers.Gandi
import Cheti.Providers.Desec
import Cheti.Providers.PowerDns
import Cheti.Providers.Route53
import Cheti.Providers.GoogleCloudDns
/-!
# The read-merge-write providers

The five providers that hold the values of a name in one record set, and what is true of all of them.
-/

namespace Cheti

open Fut (Chain Ev)

inductive Rmw where
  | gandi
  | desec
  | powerDns
  | route53
  | googleCloudDns
deriving DecidableEq, Repr

namespace Rmw

abbrev backend : Rmw → Backend
  | .gandi => Gandi.backend
  | .desec => Desec.backend
  | .powerDns => PowerDns.backend
  | .route53 => Route53.backend
  | .googleCloudDns => GoogleCloudDns.backend

theorem sound (p : Rmw) : p.backend.Sound := by
  cases p with
  | gandi => exact Gandi.sound
  | desec => exact Desec.sound
  | powerDns => exact PowerDns.sound
  | route53 => exact Route53.sound
  | googleCloudDns => exact GoogleCloudDns.sound

open Backend

/-- A call with arguments that the checks accept, on a name of the zone. -/
structure Valid {p : Rmw} (z : Str) (c : Invocation p.backend) : Prop where
  fqdn : validateFqdn c.fqdn = .ok ()
  value : validateAcmeValue c.value = .ok ()
  within : Within (normalizeName c.fqdn) (trimDots z)

theorem key_of_within (p : Rmw) {n z : Str} (h : Within (trimDots n) (trimDots z)) : ∃ k, p.backend.key z n = .ok k := by
  obtain ⟨rname, hr⟩ := relativeName_of_within h
  cases p with
  | gandi => exact ⟨lockKey z rname, by simp [hr, Except.map]⟩
  | desec => exact ⟨lockKey z rname, by simp [hr, Except.map]⟩
  | powerDns => exact ⟨lockKey z rname, by simp [hr, Except.map]⟩
  | route53 => exact ⟨_, rfl⟩
  | googleCloudDns => exact ⟨_, rfl⟩

theorem Valid.accepted {p : Rmw} {zenv : (c : Call p.backend.Q) → Reply p.backend.B c → Prop} {z : Str}
    {c : Invocation p.backend} (h : Valid z c) (hzone : p.backend.Resolves zenv true c.cfg c.fqdn z) :
    Accepted zenv z c := by
  refine ⟨hzone, ?_⟩
  rintro (hf | ⟨-, hv⟩ | ⟨e, he⟩)
  · exact hf h.fqdn
  · exact hv h.value
  · have hwithin : Within (trimDots (normalizeName c.fqdn)) (trimDots z) := by
      rw [trimDots_normalizeName]
      exact h.within
    obtain ⟨k, hk⟩ := p.key_of_within hwithin
    rw [hk] at he
    cases he

/-! ## Concurrent calls -/

/-- **No update is lost.** Any number of calls on spellings of one name, through any instances that
resolve it to the zone `z`, run interleaved, their requests failing or not. When all have ended, the
records are what the calls give one after the other, in the order in which they took the lock. So a
value whose `present` returned `Ok` is there unless a cleanup of it took the lock later, a value that no
call names is still there, and nothing else has changed. -/
theorem no_lost_update (p : Rmw) {ι : Type} [Fintype ι] [DecidableEq ι]
    {zenv : (c : Call p.backend.Q) → Reply p.backend.B c → Prop} {faulty : Bool} {z n : Str}
    {calls : ι → Invocation p.backend} (hname : ∀ i, normalizeName (calls i).fqdn = n)
    (hzone : ∀ i, p.backend.Resolves zenv false (calls i).cfg (calls i).fqdn z)
    {s₀ s : Records p.backend.Set} (hs₀ : p.backend.WF s₀)
    {w : List (ι × Ev (Call p.backend.Q) (Reply p.backend.B))} {locks : KeyedMutex.State ι}
    {res : ι → Except DnsError Unit}
    (h : Run zenv faulty (Machine.start s₀ calls) w ⟨locks, s, fun i => .done (res i)⟩) :
    (lockOrder (p.backend.keyOf z n) w).Nodup ∧
    (∀ i, res i = .ok () → i ∈ lockOrder (p.backend.keyOf z n) w) ∧
    Serially zenv faulty calls res (lockOrder (p.backend.keyOf z n) w) s₀ s ∧
    (∀ i o₁ o₂, lockOrder (p.backend.keyOf z n) w = o₁ ++ i :: o₂ → (calls i).op = .present → res i = .ok () →
      (∀ j ∈ o₂, (calls j).op = .cleanup → (calls j).value ≠ (calls i).value) →
        (calls i).value ∈ contents (p.backend.valuesAt s (p.backend.owner z n))) ∧
    (∀ x, (∀ i, (calls i).value ≠ x) → x ∈ contents (p.backend.valuesAt s₀ (p.backend.owner z n)) →
      x ∈ contents (p.backend.valuesAt s (p.backend.owner z n))) ∧
    ∀ o, o ≠ p.backend.owner z n → s.sets o = s₀.sets o := by
  obtain ⟨hnodup, hunlocked, hserial⟩ := p.sound.serially hname hzone h
  obtain ⟨-, hframe, hkeep⟩ := Serially.run p.sound hname hzone hserial hs₀
  refine ⟨hnodup, fun i hi => ?_, hserial, fun i o₁ o₂ ho hop hres hlater => ?_,
    fun x hx hmem => hkeep x (fun i _ _ => hx i) hmem, hframe⟩
  · by_contra hnot
    obtain ⟨e, he⟩ := hunlocked i hnot
    rw [hi] at he
    cases he
  · rw [ho] at hserial
    exact Serially.present p.sound hname hzone hserial hs₀ hop hres hlater

/-- An instance for the zone `a.org`. -/
def instanceWithTtl (ttl : Nat) : Gandi.GandiConfig := ⟨some "a.org".toList, ttl⟩

/-- Two values for one name, in two spellings and through two instances. -/
def twoPresents : Fin 2 → Invocation (backend .gandi)
  | 0 => ⟨instanceWithTtl 300, .present, "_acme-challenge.a.org".toList, "x".toList⟩
  | 1 => ⟨instanceWithTtl 60, .present, "_ACME-challenge.A.org.".toList, "y".toList⟩

theorem twoPresents_name : ∀ i, normalizeName (twoPresents i).fqdn = "_acme-challenge.a.org".toList := by decide

theorem twoPresents_resolves (total : Bool) : ∀ i, (backend .gandi).Resolves (fun _ _ => True) total
    (twoPresents i).cfg (twoPresents i).fqdn "a.org".toList
  | 0 => rfl
  | 1 => rfl

theorem twoPresents_valid (i : Fin 2) : Valid (p := .gandi) "a.org".toList (twoPresents i) := by
  refine ⟨by revert i; decide, by revert i; decide, Or.inr ⟨"_acme-challenge".toList, ?_⟩⟩
  rw [twoPresents_name]
  decide

def noRecords : Records (backend .gandi).Set := ⟨fun _ => none, 0⟩

theorem noRecords_wf : (backend .gandi).WF noRecords := fun _ _ _ hx => by cases hx

theorem no_lost_update_two : ∃ w locks s,
    Run (fun _ _ => True) false (Machine.start noRecords twoPresents) w ⟨locks, s, fun _ => .done (.ok ())⟩ ∧
    "x".toList ∈ contents ((backend .gandi).valuesAt s (relativeOwner "a.org".toList "_acme-challenge.a.org".toList)) ∧
    "y".toList ∈ contents ((backend .gandi).valuesAt s (relativeOwner "a.org".toList "_acme-challenge.a.org".toList)) := by
  have hcalls := fun i => (twoPresents_valid i).accepted (twoPresents_resolves true i)
  obtain ⟨t₀, s₁, hrun₀, hchain₀, hwf₁⟩ := (hcalls 0).exists_ok (sound .gandi) rfl (backend .gandi).lookup_answered noRecords_wf
  obtain ⟨t₁, s₂, hrun₁, hchain₁, -⟩ := (hcalls 1).exists_ok (sound .gandi) rfl (backend .gandi).lookup_answered hwf₁
  have hserial : Serially (fun _ _ => True) false twoPresents (fun _ => .ok ()) [0, 1] noRecords s₂ :=
    .cons hrun₀ hchain₀ (.cons hrun₁ hchain₁ (.nil s₂))
  obtain ⟨w, locks, hrun⟩ :=
    (sound .gandi).interleaved twoPresents_name (twoPresents_resolves false) (by decide) (by decide) hserial
  obtain ⟨-, hmem, -, hpresent, -, -⟩ :=
    no_lost_update .gandi twoPresents_name (twoPresents_resolves false) noRecords_wf hrun
  have hop : ∀ i, (twoPresents i).op = .present := by decide
  have hthere : ∀ i, (twoPresents i).value ∈ contents ((backend .gandi).valuesAt s₂ ((backend .gandi).owner
      "a.org".toList "_acme-challenge.a.org".toList)) := by
    intro i
    obtain ⟨o₁, o₂, ho⟩ := List.append_of_mem (hmem i rfl)
    refine hpresent i o₁ o₂ ho (hop i) rfl fun j _ hj => ?_
    rw [hop j] at hj
    cases hj
  exact ⟨w, locks, s₂, hrun, hthere 0, hthere 1⟩

/-! ## Calls one after the other -/

/-- deSEC returns its values in quotes, and that is what they are written back as. Of the other APIs
nothing is asked. -/
def Presented (p : Rmw) (s : Records p.backend.Set) : Prop :=
  p = .desec → ∀ o, o.rtype = txt → ∀ w ∈ p.backend.valuesAt s o, ∃ v, w = quote v

end Rmw
end Cheti
