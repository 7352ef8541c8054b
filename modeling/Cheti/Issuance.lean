import Cheti.Base.Levels
import Cheti.Base.Nested
import Cheti.InstantAcme
import Cheti.SolvesOnApis
/-!
# Issuing certificates (`Dns01Solver::solve_and_finalize`, src/solver.rs:134-137)

The solver, the driver of an ACME order and a provider with its API, put together. Any number of issuances run side
by side, each dropped wherever it is suspended, in the driver's own requests as well as in the solver's calls.

| here | there |
| --- | --- |
| `Order`    | an `InstantAcmeDriver` with its order, of which `first` and `second` are the two readings |
| `collect`, `nextDns01` | `collect` and `next_dns01` (solver.rs:235-248, 289-294) |
| `setReady` | `set_ready` (solver.rs:296-323), its requests being those of `InstantAcmeDriver.setReady` |
| `finalize` | `finalize` (solver.rs:327-350) |
| `carryOut` | the `ChallengeDriver` that `solve_with_driver` is given |

A call of the solver to its driver is the driver's own requests to the ACME server (`Fut.nest`), so an issuance may
be looked at while the server is being told of one challenge and not yet of the next. The solver's own view of it
is a solve of `ConcurrentSolves` on the results that `next_dns01` yields.
-/

namespace Cheti.Issuance

open Fut Fut.Tasks Solver InstantAcme
open TlsAlpn (OrderStatus)

inductive AcmeCall where
  /-- `authorizations.next()` in the first reading. -/
  | collect
  /-- What `set_ready` asks for, in the second. -/
  | order (c : InstantAcme.Call)
  | pollReady
  | finalize
  | pollCertificate
deriving DecidableEq

abbrev AcmeReply : AcmeCall → Type
  | .collect => Unit
  | .order c => InstantAcme.Reply c
  | .pollReady => Except String OrderStatus
  | .finalize | .pollCertificate => Except String Str

abbrev Request := Fut Unit AcmeCall AcmeReply

structure Order where
  first : Pass
  second : Pass
  driver : InstantAcmeDriver

/-- Reading ends at the first error. -/
def collect : Pass → Request Unit
  | [] => .await (some ()) .collect .done
  | result :: rest =>
    .await (some ()) .collect fun _ => if (pendingChallenge result []).1.isOk then collect rest else .done ()

namespace Order

def nextDns01 (o : Order) : Request (Unit × Order) :=
  (if o.driver.queue.isNone then collect o.first else .done ()).bind fun _ =>
    .done ((), { o with driver := (InstantAcme.nextDns01 o.first o.driver).2 })

def setReady (o : Order) (tokens : List Nat) : Request (Except DnsError Unit × Order) :=
  ((o.driver.setReady tokens o.second).handle fun c => .await (some ()) (.order c) .done).bind fun r => .done (r, o)

end Order

def finalize : Request (Except DnsError (Str × Str)) :=
  .await (some ()) .pollReady fun
    | .error e => .done (.error (.acme e))
    | .ok status =>
      if status ≠ .ready then .done (.error (.unexpectedOrderStatus status.debug))
      else .await (some ()) .finalize fun
        | .error e => .done (.error (.acme e))
        | .ok privateKeyPem => .await (some ()) .pollCertificate fun
          | .error e => .done (.error (.acme e))
          | .ok certChainPem => .done (.ok (certChainPem, privateKeyPem))

def carryOut (o : Order) : (c : Solver.Call) → Option (Request (Solver.Reply c × Order))
  | .nextDns01 => some o.nextDns01
  | .setReady tokens => some (o.setReady tokens)
  | .finalize => some (finalize.bind fun r => .done (r, o))
  | _ => none

structure Issue where
  solver : Dns01Solver
  first : Pass
  second : Pass

namespace Issue

/-- The solver's view of an issuance. -/
def solve (x : Issue) : Solve := ⟨x.solver, yields x.first⟩

def order (x : Issue) : Order := ⟨x.first, x.second, .new⟩

/-- `solve_and_finalize`. -/
def prog (x : Issue) : Fut Guard (Solver.Call ⊕ AcmeCall) (Sum.elim Solver.Reply AcmeReply) (Except DnsError (Str × Str)) :=
  nest carryOut x.order x.solve.prog

end Issue

abbrev System (ι S : Type) :=
  Config ι Guard (Solver.Call ⊕ AcmeCall) (Sum.elim Solver.Reply AcmeReply) (Except DnsError (Str × Str))
    (Shared ι (Solver.Call ⊕ AcmeCall) (Sum.elim Solver.Reply AcmeReply) S)

/-- What a guard spawns makes no request to the ACME server, so any order does. -/
def spawned : Bool → Guard → Option (Fut Unit (Solver.Call ⊕ AcmeCall) (Sum.elim Solver.Reply AcmeReply) Unit) :=
  nestSpawns carryOut ⟨[], [], .new⟩ CleanupGuard.drop

/-- `w` happened to the issuances, from the state `s₀` of the provider's API. -/
abbrev Interleaves (p : Implementation) {ι : Type} [DecidableEq ι] (runtime : ι → Bool) (issues : ι → Issue) (s₀ : p.S) :
    History ι (Solver.Call ⊕ AcmeCall) (Sum.elim Solver.Reply AcmeReply) → System ι p.S → Prop :=
  Steps (spawning (nestEnv p.env) (nestAbandons p.abandons) runtime spawned) (start (fun i => (issues i).prog) (.init s₀))

/-! ## The driver between the calls -/

/-- The driver after `n` calls of `next_dns01`. -/
def driverAfter (first : Pass) : Nat → InstantAcmeDriver
  | 0 => .new
  | n + 1 => ⟨some ((yields first).drop (n + 1)), (pendings first).map (·.2.url)⟩

/-- What the solver is given is what the driver yields. -/
theorem nextDns01_driverAfter (first : Pass) (n : Nat) :
    InstantAcme.nextDns01 first (driverAfter first n) = ((yields first)[n]?, driverAfter first (n + 1)) := by
  cases n with
  | zero =>
    have hnew := calls_new first 0
    simp only [InstantAcme.calls] at hnew
    rw [Prod.mk.injEq] at hnew
    refine Prod.ext ?_ hnew.2
    simpa [driverAfter] using hnew.1
  | succ n => simp [InstantAcme.nextDns01, driverAfter]

theorem challengeUrls_driverAfter {first : Pass} {n : Nat} {url : Str} (h : url ∈ (driverAfter first n).challengeUrls) :
    ∃ found ∈ pendings first, found.2.url = url := by
  cases n with
  | zero => cases h
  | succ n => simpa [driverAfter] using h

theorem unfolds_order {first second : Pass} {n : Nat} {t : Solver.Trace}
    {t' : List (Ev (Solver.Call ⊕ AcmeCall) (Sum.elim Solver.Reply AcmeReply))} {o : Order}
    (h : Unfolds carryOut ⟨first, second, driverAfter first n⟩ t t' o) :
    o = ⟨first, second, driverAfter first (n + (t.map (·.call)).count .nextDns01)⟩ := by
  generalize ho : (⟨first, second, driverAfter first n⟩ : Order) = o₀ at h
  induction h generalizing n with
  | nil => exact ho.symm
  | @pass o₀ o c t t' hh r hrest ih =>
    have hc : c ≠ .nextDns01 := by
      rintro rfl
      cases hh
    rw [ih ho]
    simp [hc]
  | @carried o₀ o₁ o c p t₁ r t t' hh hrun hrest ih =>
    subst ho
    -- the driver's methods keep the order; only `next_dns01` changes the driver
    cases c with
    | nextDns01 =>
      cases hh
      obtain ⟨_, _, _, -, hdone, -⟩ := runs_bind.1 hrun
      obtain ⟨-, hdone⟩ := runs_done.1 hdone
      rw [nextDns01_driverAfter, Prod.mk.injEq] at hdone
      rw [ih (n := n + 1) hdone.2]
      simp only [List.map_cons, List.count_cons_self]
      congr 2
      omega
    | setReady tokens =>
      cases hh
      obtain ⟨_, _, _, -, hdone, -⟩ := runs_bind.1 hrun
      obtain ⟨-, hdone⟩ := runs_done.1 hdone
      rw [ih (Prod.mk.injEq .. ▸ hdone).2]
      simp
    | finalize =>
      cases hh
      obtain ⟨_, _, _, -, hdone, -⟩ := runs_bind.1 hrun
      obtain ⟨-, hdone⟩ := runs_done.1 hdone
      rw [ih (Prod.mk.injEq .. ▸ hdone).2]
      simp
    | _ => cases hh

/-- The order of an issuance, after some of the solver's calls. -/
theorem leads_order {x : Issue} {t : Solver.Trace} {o : Order} (h : Leads carryOut x.order t o) :
    o = ⟨x.first, x.second, driverAfter x.first ((t.map (·.call)).count .nextDns01)⟩ := by
  obtain ⟨t', hun⟩ := h
  have ho := unfolds_order (n := 0) hun
  rwa [Nat.zero_add] at ho

/-- A reading that yields challenges only met no error, and numbers them. -/
theorem yields_ok {first : Pass} {chs : List Dns01Challenge} (h : yields first = chs.map .ok) :
    firstError first = none ∧ chs.map (·.token) = List.range (pendings first).length := by
  have hnone : firstError first = none := by
    cases herror : firstError first with
    | none => rfl
    | some e =>
      have hmem : (.error e : Except DnsError Dns01Challenge) ∈ chs.map .ok := by
        rw [← h, yields, herror]
        simp
      obtain ⟨ch, -, hch⟩ := List.mem_map.1 hmem
      cases hch
  refine ⟨hnone, ?_⟩
  let challenge (found : (Str × Challenge) × Nat) : Dns01Challenge :=
    ⟨found.1.1, "_acme-challenge.".toList ++ found.1.1, found.1.2.dnsValue, found.2⟩
  have hmap : chs.map Except.ok = ((pendings first).zipIdx.map challenge).map (.ok : _ → Except DnsError _) := by
    rw [← h, yields, hnone, List.map_map]
    simp only [Option.toList_none, List.map_nil, List.append_nil]
    rfl
  have hinj : Function.Injective (Except.ok : Dns01Challenge → Except DnsError Dns01Challenge) :=
    fun a b hab => Except.ok.inj hab
  rw [List.map_injective_iff.2 hinj hmap, List.map_map, List.range_eq_range', ← List.zipIdx_map_snd 0 (pendings first)]
  rfl

/-! ## What the ACME server is asked -/

/-- A pending authorization of a reading, with the DNS-01 challenge that is to be met. -/
theorem mem_pendings {pass : Pass} {found : Str × Challenge} (h : found ∈ pendings pass) :
    ∃ authz, .ok authz ∈ pass ∧ authz.status = .pending ∧ authz.identifier = .dns found.1 ∧
      authz.challenge .dns01 = some found.2 := by
  obtain ⟨reading, hmem, hpending⟩ := List.mem_filterMap.1 h
  obtain ⟨result, hresult, rfl⟩ := List.mem_map.1 ((List.takeWhile_prefix _).subset hmem)
  rcases result with e | ⟨status, identifier, challenges⟩
  · cases hpending
  cases status with
  | pending =>
    cases identifier with
    | other debug => cases hpending
    | dns domain =>
      simp only [InstantAcme.read] at hpending
      cases hfind : challenges.find? (·.kind = .dns01) with
      | none =>
        rw [hfind] at hpending
        cases hpending
      | some challenge =>
        rw [hfind] at hpending
        cases hpending
        exact ⟨_, hresult, rfl, rfl, hfind⟩
  | _ => cases hpending

/-- The requests of `set_ready` are the driver's. -/
theorem issues_order {α : Type} {p : InstantAcme.Act α} {t : List (Ev AcmeCall AcmeReply)} {a : AcmeCall}
    (h : (p.handle fun c => .await (some ()) (.order c) .done).Issues t a) : ∃ c t₀, a = .order c ∧ p.Issues t₀ c := by
  induction p generalizing t with
  | done b => exact absurd h issues_done
  | await g c k ih =>
    rcases issues_await.1 h with ⟨-, rfl⟩ | ⟨r, t', -, hrest⟩
    · exact ⟨c, [], rfl, g, k, at_nil.2 rfl⟩
    · obtain ⟨c', t₀, rfl, hc'⟩ := ih r hrest
      exact ⟨c', ⟨c, r⟩ :: t₀, rfl, issues_await.2 (Or.inr ⟨r, t₀, rfl, hc'⟩)⟩

theorem targetsOf_subset {urls : List Str} {tokens : List Nat} {targets : List Str}
    (h : targetsOf urls tokens = .ok targets) : targets ⊆ urls := by
  induction tokens generalizing targets with
  | nil =>
    cases h
    exact List.nil_subset _
  | cons token tokens ih =>
    unfold targetsOf at h ih
    rw [List.mapM_cons] at h
    cases hget : urls[token]? with
    | none =>
      rw [hget] at h
      cases h
    | some url =>
      rw [hget] at h
      obtain ⟨url', hurl, h⟩ := bind_eq_ok.1 h
      obtain ⟨rest, hrest, hok⟩ := bind_eq_ok.1 h
      cases hurl
      cases hok
      exact List.cons_subset.2 ⟨List.mem_of_getElem? hget, ih hrest⟩

/-- It sets ready only what is on the driver's list. -/
theorem setReady_issues {d : InstantAcmeDriver} {tokens : List Nat} {pass : Pass} {t : InstantAcme.Trace} {url : Str}
    (h : (d.setReady tokens pass).Issues t (.setReady url)) : url ∈ d.challengeUrls := by
  unfold InstantAcmeDriver.setReady at h
  cases htargets : targetsOf d.challengeUrls tokens with
  | error e =>
    rw [htargets] at h
    exact absurd h issues_done
  | ok targets =>
    rw [htargets] at h
    obtain ⟨g, k, hat⟩ := h
    have hle := readyLoop_le (hat.snoc (.ok ()))
    have hmem : url ∈ readied (t ++ [⟨.setReady url, .ok ()⟩]) := by simp [readied]
    exact targetsOf_subset htargets (Multiset.mem_of_le hle hmem)

theorem finalize_issues {t : List (Ev AcmeCall AcmeReply)} {a : AcmeCall} (h : finalize.Issues t a) :
    a = .pollReady ∨ a = .finalize ∨ a = .pollCertificate := by
  rcases issues_await.1 h with ⟨-, rfl⟩ | ⟨status, _, -, h⟩
  · exact Or.inl rfl
  cases status with
  | error e => exact absurd h issues_done
  | ok status =>
    dsimp only at h
    split at h
    · exact absurd h issues_done
    rcases issues_await.1 h with ⟨-, rfl⟩ | ⟨key, _, -, h⟩
    · exact Or.inr (Or.inl rfl)
    cases key with
    | error e => exact absurd h issues_done
    | ok key =>
      rcases issues_await.1 h with ⟨-, rfl⟩ | ⟨chain, _, -, h⟩
      · exact Or.inr (Or.inr rfl)
      cases chain with
      | error e => exact absurd h issues_done
      | ok chain => exact absurd h issues_done

/-- Where a request comes from: the readings, `set_ready` or `finalize`. -/
theorem carryOut_issues {o : Order} {c : Solver.Call} {p : Request (Solver.Reply c × Order)}
    {t : List (Ev AcmeCall AcmeReply)} {a : AcmeCall} (hp : carryOut o c = some p) (h : p.Issues t a) (ha : a ≠ .collect) :
    (c.stage = .announcing ∨ c.stage = .finalizing) ∧
      ∀ url, a = .order (.setReady url) → url ∈ o.driver.challengeUrls := by
  have hcollect : ∀ {pass t}, (collect pass).Issues t a → a = .collect := by
    intro pass
    induction pass with
    | nil =>
      intro t hcall
      rcases issues_await.1 hcall with ⟨-, rfl⟩ | ⟨_, _, -, hdone⟩
      · rfl
      · exact absurd hdone issues_done
    | cons result rest ih =>
      intro t hcall
      rcases issues_await.1 hcall with ⟨-, rfl⟩ | ⟨_, _, -, hrest⟩
      · rfl
      · split at hrest
        · exact ih hrest
        · exact absurd hrest issues_done
  cases c with
  | nextDns01 =>
    cases hp
    rcases issues_bind.1 h with hread | ⟨_, _, _, -, hdone, -⟩
    · split at hread
      · exact absurd (hcollect hread) ha
      · exact absurd hread issues_done
    · exact absurd hdone issues_done
  | setReady tokens =>
    cases hp
    refine ⟨Or.inl rfl, ?_⟩
    rintro url rfl
    rcases issues_bind.1 h with hcall | ⟨_, _, _, -, hdone, -⟩
    · obtain ⟨c, t₀, hc, hissues⟩ := issues_order hcall
      cases hc
      exact setReady_issues hissues
    · exact absurd hdone issues_done
  | finalize =>
    cases hp
    refine ⟨Or.inr rfl, ?_⟩
    rintro url rfl
    rcases issues_bind.1 h with hcall | ⟨_, _, _, -, hdone, -⟩
    · rcases finalize_issues hcall with hc | hc | hc <;> cases hc
    · exact absurd hdone issues_done
  | _ => cases hp

/-! ## Issuances side by side -/

section Interleaved

variable {p : Implementation} {ι : Type} [DecidableEq ι] {runtime : ι → Bool} {issues : ι → Issue} {s₀ : p.S}
  {w : History ι (Solver.Call ⊕ AcmeCall) (Sum.elim Solver.Reply AcmeReply)} {cfg : System ι p.S}

/-- The driver's own requests leave the zone alone. -/
theorem carried_quiet (p : Implementation) (c : Solver.Call) (hc : Carried carryOut c) (r : Solver.Reply c) (s : p.S) :
    p.env c r s s := by
  obtain ⟨o, q, hq⟩ := hc
  cases c with
  | nextDns01 | setReady tokens | finalize => rfl
  | _ => cases hq

/-- What a dropped solve leaves behind is the matter of the provider alone. -/
theorem spawned_passes (x : Issue) {t : Solver.Trace} {g : Guard} {c : Solver.Call} {runtime : Bool}
    {q : Fut Unit Solver.Call Solver.Reply Unit} (hstop : x.solve.prog.Stops t g c) (hq : g.drop runtime = some q) :
    Passes carryOut q := by
  have hkeeps := Dns01Solver.keeps_outcome id x.solver (yields x.first)
  obtain ⟨hcleanup, -⟩ := hkeeps.pending_added (K := Set.univ) (fun _ _ _ _ _ => Set.mem_univ _) hstop
  intro t' c' hc' o
  rw [CleanupGuard.drop_eq_some hq, hcleanup] at hc'
  obtain ⟨record, -, t'', hissues⟩ := CleanupGuard.cleanAll_issues hc'
  have hstage := Dns01Solver.cleanupRecord_issues hissues
  cases c' with
  | nextDns01 | setReady | finalize => cases hstage
  | _ => rfl

/-- **Issuances refine the solves of their solvers.** -/
theorem unnest (h : Interleaves p runtime issues s₀ w cfg) :
    ∃ w₁ cfg₁, p.Interleaves runtime (fun i => (issues i).solve) s₀ w₁ cfg₁ ∧
      Level carryOut (fun i => (issues i).order) ⟨[], [], .new⟩ w₁ cfg cfg₁ :=
  Steps.unnest (carried_quiet p) (fun i _ _ _ _ hstop hq => spawned_passes (issues i) hstop hq) h

/-- The value that a pending authorization asks for. -/
def recordOf (found : Str × Challenge) : PlacedRecord := ⟨"_acme-challenge.".toList ++ found.1, found.2.dnsValue⟩

theorem mem_values {x : Issue} {κ : Type} {key : PlacedRecord → κ} {found : Str × Challenge}
    (h : found ∈ pendings x.first) : key (recordOf found) ∈ x.solve.values key := by
  obtain ⟨n, hn⟩ := List.mem_iff_getElem?.1 h
  refine ⟨⟨found.1, (recordOf found).fqdn, found.2.dnsValue, n⟩, ?_, rfl⟩
  exact List.mem_append_left _ (List.mem_map.2 ⟨(found, n), List.mk_mem_zipIdx_iff_getElem?.2 hn, rfl⟩)

/-- From the first challenge that is announced to the certificate, the solver waits for its driver with every
record in place. -/
theorem held_of_awaits (hs₀ : p.Valid s₀) (h : Interleaves p runtime issues s₀ w cfg) {i : ι} {g : Option Guard} {a : AcmeCall}
    {next : AcmeReply a → Fut Guard (Solver.Call ⊕ AcmeCall) (Sum.elim Solver.Reply AcmeReply) (Except DnsError (Str × Str))}
    (hp : cfg.prog i = some (.await g (.inr a) next)) (ha : a ≠ .collect)
    (hothers : ∀ j, j ≠ i → Disjoint ((issues i).solve.values p.key) ((issues j).solve.values p.key)) :
    firstError (issues i).first = none ∧ (issues i).solve.values p.key ⊆ p.held cfg.store.state ∧
      ∀ url, a = .order (.setReady url) → ∃ found ∈ pendings (issues i).first, found.2.url = url := by
  obtain ⟨w₁, cfg₁, hs, hlevel⟩ := unnest h
  obtain ⟨w₂, cfg₂, q, hs₂, hl₂, hq, hfront⟩ := hlevel.front (carried_quiet p) hs hp
  cases hfront with
  | @inner o g c k r t₁ g₀ a k₀ hd hh hat =>
    obtain ⟨hstage, hurl⟩ := carryOut_issues hh ⟨g₀, k₀, hat⟩ ha
    obtain ⟨-, hrefined⟩ := Implementation.refines hs₀ hs₂
    refine ⟨?_, ?_, fun url heq => ?_⟩
    · obtain ⟨⟨chs, hdriver, -⟩, -⟩ := Dns01Solver.presented_of_announced ⟨g, k, hs₂.at_some rfl hq⟩ hstage
      exact (yields_ok hdriver).1
    · rw [hl₂.state]
      exact Dns01Solver.values_mem hrefined hq hstage hothers
    · have hmem := hurl url heq
      rw [leads_order hd] at hmem
      exact challengeUrls_driverAfter hmem

end Interleaved

/-- **What the ACME server looks for is there.** Any number of issuances work through a provider on its API, one call
to it at a time, any of them dropped anywhere, every request failing or not. From the moment an issuance tells the
ACME server of its first challenge until it has the certificate, the API holds the value of every pending
authorization that it has read; and it tells the server only of challenges of these. -/
theorem values_held_while_validated (d : Deployment) {ι : Type} [DecidableEq ι] {runtime : ι → Bool} {issues : ι → Issue}
    {s₀ : d.implementation.S} (hs₀ : d.implementation.Valid s₀)
    {w : History ι (Solver.Call ⊕ AcmeCall) (Sum.elim Solver.Reply AcmeReply)} {cfg : System ι d.implementation.S}
    (h : Interleaves d.implementation runtime issues s₀ w cfg) (i : ι) (g : Option Guard) (a : AcmeCall)
    (next : AcmeReply a → Fut Guard (Solver.Call ⊕ AcmeCall) (Sum.elim Solver.Reply AcmeReply) (Except DnsError (Str × Str)))
    (hp : cfg.prog i = some (.await g (.inr a) next)) (ha : a ≠ .collect)
    (hothers : ∀ j, j ≠ i → Disjoint ((issues i).solve.values d.implementation.key)
      ((issues j).solve.values d.implementation.key)) :
    firstError (issues i).first = none ∧
    (∀ found ∈ pendings (issues i).first, d.implementation.key (recordOf found) ∈ d.implementation.held cfg.store.state) ∧
    ∀ url, a = .order (.setReady url) → ∃ authz, .ok authz ∈ (issues i).first ∧ authz.status = .pending ∧
      ∃ challenge, authz.challenge .dns01 = some challenge ∧ challenge.url = url := by
  obtain ⟨hnone, hvalues, hurl⟩ := held_of_awaits hs₀ h hp ha hothers
  refine ⟨hnone, fun found hfound => hvalues (mem_values hfound), fun url heq => ?_⟩
  obtain ⟨found, hfound, rfl⟩ := hurl url heq
  obtain ⟨authz, hmem, hstatus, -, hchallenge⟩ := mem_pendings hfound
  exact ⟨authz, hmem, hstatus, found.2, hchallenge, rfl⟩

/-- Two orders, for `a.org` and its wildcard; the one authorization of each is read twice. -/
def sampleIssue (i : Bool) : Issue :=
  let pass : Pass := [.ok ⟨.pending, .dns "a.org".toList, [⟨.dns01, "u".toList, (if i then "x" else "y").toList, []⟩]⟩]
  ⟨⟨.default, [], none, some 0, false⟩, pass, pass⟩

/-- What an issuance asks for, up to the moment at which it announces its challenge. -/
abbrev sampleReady (value : String) : List (Ev (Solver.Call ⊕ AcmeCall) (Sum.elim Solver.Reply AcmeReply)) :=
  [⟨.inr .collect, ()⟩, ⟨.inr .collect, ()⟩, ⟨.inl (.present "_acme-challenge.a.org".toList value.toList), .ok ()⟩,
    ⟨.inl (.sleep 0), ()⟩, ⟨.inr (.order .nextAuthorization), ()⟩]

/-- From there to its end. -/
abbrev sampleRest (value : String) : List (Ev (Solver.Call ⊕ AcmeCall) (Sum.elim Solver.Reply AcmeReply)) :=
  [⟨.inr (.order (.setReady "u".toList)), .ok ()⟩, ⟨.inr (.order .nextAuthorization), ()⟩, ⟨.inr .pollReady, .ok .ready⟩,
    ⟨.inr .finalize, .ok "k".toList⟩, ⟨.inr .pollCertificate, .ok "c".toList⟩,
    ⟨.inl (.cleanup "_acme-challenge.a.org".toList value.toList), .ok ()⟩]

/-- One of them ends, with its cleanup, while the other one is about to announce its challenge. -/
theorem exists_sample : ∃ w cfg, Interleaves Deployment.gandi.implementation (fun _ => true) sampleIssue Rmw.noRecords w cfg ∧
    cfg.prog false = some (.done (.ok ("c".toList, "k".toList))) ∧
    ∃ g next, cfg.prog true = some (.await g (.inr (.order (.setReady "u".toList))) next) := by
  obtain ⟨s₁, hx, hs₁⟩ := Deployment.gandi_returns .present "x".toList rfl Rmw.noRecords_wf
  obtain ⟨s₂, hy, hs₂⟩ := Deployment.gandi_returns .present "y".toList rfl hs₁
  obtain ⟨s₃, hcleanup, -⟩ := Deployment.gandi_returns .cleanup "y".toList rfl hs₂
  have hnil : Interleaves Deployment.gandi.implementation (fun _ => true) sampleIssue Rmw.noRecords [] _ := .nil
  have hready := hnil.go_on (i := true) (t := sampleReady "x") rfl
    ⟨(), rfl, (), rfl, .ok (), rfl, (), rfl, (), rfl, rfl⟩ ⟨_, rfl, _, rfl, _, hx, _, rfl, _, rfl, rfl⟩
  have hother := hready.go_on (i := false) (q := .done (.ok ("c".toList, "k".toList)))
    (t := sampleReady "y" ++ sampleRest "y") rfl
    ⟨(), rfl, (), rfl, .ok (), rfl, (), rfl, (), rfl, .ok (), rfl, (), rfl, .ok .ready, rfl, .ok _, rfl, .ok _, rfl, .ok (), rfl, rfl⟩
    ⟨_, rfl, _, rfl, _, hy, _, rfl, _, rfl, _, rfl, _, rfl, _, rfl, _, rfl, _, rfl, _, hcleanup, rfl⟩
  exact ⟨_, _, hother, rfl, _, _, rfl⟩

theorem values_held_while_validated_gandi :
    ∃ w cfg, Interleaves Deployment.gandi.implementation (fun _ => true) sampleIssue Rmw.noRecords w cfg ∧
      cfg.prog false = some (.done (.ok ("c".toList, "k".toList))) ∧
      Deployment.gandi.implementation.key ⟨"_acme-challenge.a.org".toList, "x".toList⟩ ∈
        Deployment.gandi.implementation.held cfg.store.state := by
  obtain ⟨w, cfg, h, hdone, g, next, hp⟩ := exists_sample
  have hdisjoint : ∀ j, j ≠ true → Disjoint ((sampleIssue true).solve.values Deployment.gandi.implementation.key)
      ((sampleIssue j).solve.values Deployment.gandi.implementation.key) := by
    rintro (_ | _) hj
    · rw [Set.disjoint_left]
      rintro k ⟨ch₁, h₁, rfl⟩ ⟨ch₂, h₂, heq⟩
      have hne : ch₁.dnsValue ≠ ch₂.dnsValue := by
        cases Except.ok.inj (List.mem_singleton.1 h₁)
        cases Except.ok.inj (List.mem_singleton.1 h₂)
        decide
      exact hne (congrArg Prod.snd heq).symm
    · exact absurd rfl hj
  obtain ⟨-, hheld, -⟩ := values_held_while_validated Deployment.gandi Rmw.noRecords_wf h true g
    (.order (.setReady "u".toList)) next hp (by simp) hdisjoint
  exact ⟨w, cfg, h, hdone, hheld ("a.org".toList, ⟨.dns01, "u".toList, "x".toList, []⟩) (by decide)⟩

/-! ## What a certificate stands for -/

/-- A solve that ends well has announced all its challenges at once, and finalized the order after that. -/
theorem solve_ok_runs {s : Dns01Solver} {driver : Driver} {t : Solver.Trace} {x : Str × Str}
    (h : (s.solveWithDriver driver).Runs t (.ok x)) :
    ∃ (chs : List Dns01Challenge) (t₁ t₂ : Solver.Trace), driver = chs.map .ok ∧
      t = t₁ ++ ⟨.setReady (chs.map (·.token)), .ok ()⟩ :: ⟨.finalize, .ok x⟩ :: t₂ ∧
      (t₁.map (·.call)).count .nextDns01 = chs.length + 1 ∧
      (∀ e ∈ t₁, e.call.stage = .placing ∨ e.call.stage = .waiting) ∧ ∀ e ∈ t₂, e.call.stage = .cleaning := by
  obtain ⟨t', t₂, placed, rfl, hout, hclean⟩ := Dns01Solver.solveWithDriver_runs.1 h
  obtain ⟨-, hcleaning⟩ := Dns01Solver.cleans_spec hclean
  obtain ⟨t₁, ⟨res, placed₁⟩, t₃, hready, hfinal, rfl⟩ := runs_bind.1 hout
  cases res with
  | error e => cases (runs_done.1 hfinal).2
  | ok u =>
    obtain ⟨r, t₄, rfl, hdone⟩ := runs_await.1 hfinal
    obtain ⟨rfl, heq⟩ := runs_done.1 hdone
    cases heq
    obtain ⟨t₅, ⟨res, placed₂⟩, t₆, hloop, hrest, rfl⟩ := runs_bind.1 hready
    cases res with
    | error e => cases (runs_done.1 hrest).2
    | ok tokens =>
      obtain ⟨hplacing, -, hok⟩ := Dns01Solver.presentLoop_at hloop
      obtain ⟨chs, hdriver, htokens, -, hcount⟩ := hok tokens rfl
      obtain ⟨t₇, res, t₈, hwait, hset, rfl⟩ := runs_bind.1 hrest
      obtain ⟨hwaiting, -⟩ := Dns01Solver.propagate_at hwait
      cases res with
      | error e => cases (runs_done.1 hset).2
      | ok u =>
        obtain ⟨r, t₉, rfl, hdone⟩ := runs_await.1 hset
        obtain ⟨rfl, heq⟩ := runs_done.1 hdone
        cases heq
        refine ⟨chs, t₅ ++ t₇, t₂, hdriver, by simp [htokens], ?_, fun e he => ?_, hcleaning⟩
        · have hnone : (t₇.map (·.call)).count .nextDns01 = 0 := by
            rw [List.count_eq_zero]
            intro hmem
            obtain ⟨e, he, hcall⟩ := List.mem_map.1 hmem
            have hstage := hwaiting e he
            rw [hcall] at hstage
            cases hstage
          rw [List.map_append, List.count_append, hnone, hcount]
        · rcases List.mem_append.1 he with he | he
          · exact Or.inl (hplacing e he)
          · exact Or.inr (hwaiting e he)

/-- The requests to the ACME server. -/
def acme (t : List (Ev (Solver.Call ⊕ AcmeCall) (Sum.elim Solver.Reply AcmeReply))) : List (Ev AcmeCall AcmeReply) :=
  t.filterMap fun
    | ⟨.inl _, _⟩ => none
    | ⟨.inr a, r⟩ => some ⟨a, r⟩

def asOrder (e : Ev InstantAcme.Call InstantAcme.Reply) : Ev AcmeCall AcmeReply := ⟨.order e.call, e.reply⟩

section acme

variable {t' t₁' t₂' : List (Ev (Solver.Call ⊕ AcmeCall) (Sum.elim Solver.Reply AcmeReply))} {o o' : Order}

theorem acme_append : acme (t₁' ++ t₂') = acme t₁' ++ acme t₂' := List.filterMap_append

theorem acme_inr (t : List (Ev AcmeCall AcmeReply)) : acme (t.map fun e => ⟨.inr e.call, e.reply⟩) = t := by
  induction t with
  | nil => rfl
  | cons e t ih =>
    rw [List.map_cons]
    exact congrArg (e :: ·) ih

/-- Before the challenges are announced, the order is read and nothing else. -/
theorem acme_of_placing {t : Solver.Trace} (h : Unfolds carryOut o t t' o')
    (ht : ∀ e ∈ t, e.call.stage ≠ .announcing ∧ e.call.stage ≠ .finalizing) : ∀ e ∈ acme t', e.call = .collect := by
  induction h with
  | nil => simp [acme]
  | pass hh r hrest ih => exact ih fun e he => ht e (List.mem_cons_of_mem _ he)
  | @carried o o₁ o' c p t₁ r t t' hh hrun hrest ih =>
    intro e he
    rw [acme_append, acme_inr, List.mem_append] at he
    rcases he with he | he
    · obtain ⟨u₁, u₂, rfl⟩ := List.append_of_mem he
      by_contra hne
      obtain ⟨hstage, -⟩ := carryOut_issues hh (At.issues_before hrun) hne
      obtain ⟨hann, hfin⟩ := ht ⟨c, r⟩ List.mem_cons_self
      exact hstage.elim hann hfin
    · exact ih (fun e he => ht e (List.mem_cons_of_mem _ he)) e he

/-- The guard's cleanup makes none. -/
theorem acme_of_cleaning {t : Solver.Trace} (h : Unfolds carryOut o t t' o') (ht : ∀ e ∈ t, e.call.stage = .cleaning) :
    acme t' = [] := by
  induction h with
  | nil => rfl
  | pass hh r hrest ih => exact ih fun e he => ht e (List.mem_cons_of_mem _ he)
  | @carried o o₁ o' c p t₁ r t t' hh hrun hrest ih =>
    have hstage := ht ⟨c, r⟩ List.mem_cons_self
    cases c with
    | nextDns01 | setReady | finalize => cases hstage
    | _ => cases hh

theorem setReady_runs {tokens : List Nat} {t : List (Ev AcmeCall AcmeReply)} {r : Except DnsError Unit}
    (h : (o.setReady tokens).Runs t (r, o')) :
    ∃ ready, (o.driver.setReady tokens o.second).Runs ready r ∧ t = ready.map asOrder := by
  obtain ⟨t₁, r', t₂, hcall, hdone, rfl⟩ := runs_bind.1 h
  obtain ⟨rfl, heq⟩ := runs_done.1 hdone
  cases heq
  obtain ⟨ready, hready, hcarries⟩ := runs_handle.1 hcall
  refine ⟨ready, hready, ?_⟩
  rw [List.append_nil]
  clear h hready hcall hdone
  induction hcarries with
  | nil => rfl
  | cons hone _ ih =>
    obtain ⟨r', t', rfl, hdone⟩ := runs_await.1 hone
    obtain ⟨rfl, rfl⟩ := runs_done.1 hdone
    rw [ih]
    rfl

theorem finalize_ok {t : List (Ev AcmeCall AcmeReply)} {chain key : Str} (h : finalize.Runs t (.ok (chain, key))) :
    t = [⟨.pollReady, .ok .ready⟩, ⟨.finalize, .ok key⟩, ⟨.pollCertificate, .ok chain⟩] := by
  obtain ⟨status, t₁, rfl, h₁⟩ := runs_await.1 h
  cases status with
  | error e => cases (runs_done.1 h₁).2
  | ok status =>
    dsimp only at h₁
    split at h₁
    · cases (runs_done.1 h₁).2
    rename_i hready
    obtain rfl : status = .ready := not_not.1 hready
    obtain ⟨key', t₂, rfl, h₂⟩ := runs_await.1 h₁
    cases key' with
    | error e => cases (runs_done.1 h₂).2
    | ok key' =>
      obtain ⟨chain', t₃, rfl, h₃⟩ := runs_await.1 h₂
      cases chain' with
      | error e => cases (runs_done.1 h₃).2
      | ok chain' =>
        obtain ⟨rfl, heq⟩ := runs_done.1 h₃
        cases heq
        rfl

/-- All tokens ask for all URLs. -/
theorem asked_range (first : Pass) (n : Nat) :
    InstantAcme.asked (driverAfter first (n + 1)) (List.range (pendings first).length) = (pendings first).map (·.2.url) := by
  have hall : ∀ urls : List Str, (List.range urls.length).filterMap (urls[·]?) = urls := by
    intro urls
    induction urls using List.reverseRecOn with
    | nil => rfl
    | append_singleton urls url ih =>
      rw [List.length_append, List.length_singleton, List.range_succ, List.filterMap_append]
      have hfront : ∀ i ∈ List.range urls.length, (urls ++ [url])[i]? = urls[i]? := by
        intro i hi
        exact List.getElem?_append_left (List.mem_range.1 hi)
      rw [List.filterMap_congr hfront, ih]
      simp
  have hurls := hall ((pendings first).map (·.2.url))
  rwa [List.length_map] at hurls

end acme

/-- **A certificate stands for an order all of whose challenges were announced.** An issuance that returns one has
read the order without an error, has told the ACME server of the challenge of each pending authorization, once for
each, and of no other; all were taken. Only then it asked whether the order is ready, which it was; the key and the
chain are what the server gave after that. -/
theorem certificate_of_order {p : Implementation} {ι : Type} [DecidableEq ι] {runtime : ι → Bool} {issues : ι → Issue} {s₀ : p.S}
    {w : History ι (Solver.Call ⊕ AcmeCall) (Sum.elim Solver.Reply AcmeReply)} {cfg : System ι p.S}
    (h : Interleaves p runtime issues s₀ w cfg) (i : ι) (chain key : Str) (hdone : cfg.prog i = some (.done (.ok (chain, key)))) :
    firstError (issues i).first = none ∧ ∃ reads ready,
      acme (Tasks.calls i w) = reads ++ ready.map asOrder ++
        [⟨.pollReady, .ok .ready⟩, ⟨.finalize, .ok key⟩, ⟨.pollCertificate, .ok chain⟩] ∧
      (∀ e ∈ reads, e.call = .collect) ∧ NoApiError (issues i).second ready ∧
      (readied ready : Multiset Str) = (pendings (issues i).first).map (·.2.url) := by
  have hrun : (issues i).prog.Runs (Tasks.calls i w) (.ok (chain, key)) := h.at_some rfl hdone
  obtain ⟨t, o', hsolve, hun⟩ := runs_nest hrun
  obtain ⟨chs, t₁, t₂, hdriver, rfl, hcount, hplacing, hcleaning⟩ := solve_ok_runs hsolve
  obtain ⟨hnone, htokens⟩ := yields_ok hdriver
  obtain ⟨t₁', t₂', o₁, hsplit, hun₁, hun₂⟩ := unfolds_append.1 hun
  have ho₁ := unfolds_order (n := 0) hun₁
  rw [Nat.zero_add, hcount] at ho₁
  subst ho₁
  cases hun₂ with
  | pass hh => cases hh
  | carried hh hrun₂ hrest =>
    cases hh
    obtain ⟨ready, hready, rfl⟩ := setReady_runs hrun₂
    cases hrest with
    | pass hh => cases hh
    | carried hh hrun₃ hrest =>
      cases hh
      obtain ⟨t₅, r, t₆, hfinal, hend, rfl⟩ := runs_bind.1 hrun₃
      obtain ⟨rfl, heq⟩ := runs_done.1 hend
      cases heq
      -- the loop over the second reading, with the URLs of the first
      have hvalid : ∀ token ∈ chs.map (·.token),
          token < (driverAfter (issues i).first (chs.length + 1)).challengeUrls.length := by
        intro token hmem
        rw [htokens, List.mem_range] at hmem
        simpa [driverAfter] using hmem
      dsimp only at hready
      rw [setReady_valid hvalid, htokens, asked_range] at hready
      have hloop := loop_of_runs hready
      refine ⟨hnone, acme t₁', ready, ?_, acme_of_placing hun₁ fun e he => ?_, (hloop.ok_iff.1 rfl).1, hloop.exact rfl⟩
      · rw [hsplit, acme_append, acme_append, acme_append, acme_inr, acme_inr, acme_of_cleaning hrest hcleaning,
          finalize_ok hfinal]
        simp
      · rcases hplacing e he with hstage | hstage <;> simp [hstage]

/-- The one of the two that ends. -/
theorem certificate_of_order_gandi :
    ∃ w cfg, Interleaves Deployment.gandi.implementation (fun _ => true) sampleIssue Rmw.noRecords w cfg ∧
      ∃ reads ready, acme (Tasks.calls false w) = reads ++ ready.map asOrder ++
        [⟨.pollReady, .ok .ready⟩, ⟨.finalize, .ok "k".toList⟩, ⟨.pollCertificate, .ok "c".toList⟩] ∧
        (readied ready : Multiset Str) = ["u".toList] := by
  obtain ⟨w, cfg, h, hdone, -⟩ := exists_sample
  obtain ⟨-, reads, ready, hacme, -, -, hreadied⟩ := certificate_of_order h false "c".toList "k".toList hdone
  exact ⟨w, cfg, h, reads, ready, hacme, hreadied⟩

end Cheti.Issuance
