import Cheti.Cleanup
/-!
# The DNS-01 orchestrator: `Dns01Solver` (src/solver.rs)

| here | there |
| --- | --- |
| `new`, `withResolvers`, `withTimeout`, `withInterval`, `skipPropagationCheck`, `setOnCleanupError` | the constructor and the builder methods (solver.rs:68-122) |
| `Driver`               | a `ChallengeDriver` (solver.rs:34-48) seen from the solver: the results its `next_dns01` yields, in order; `set_ready` and `finalize` are calls |
| `Call`, `Reply`        | every await of the solver, and the `on_cleanup_error` hook |
| `cleanupGuard`         | `Dns01Solver::cleanup_guard` (solver.rs:152-166) |
| `presentThenReady`     | `Dns01Solver::present_then_ready` (solver.rs:171-206) |
| `solveWithDriver`      | `Dns01Solver::solve_with_driver` (solver.rs:139-150) |

The provider, the propagation check and the ACME side are the environment: any reply may come back
from any call. The guard is a local variable of `solve_with_driver`, lent to `present_then_ready`, so
every await carries it.
-/

namespace Cheti.Solver

structure PropagationTiming where
  timeout : Duration
  interval : Duration
deriving DecidableEq, Repr

/-- `PropagationTiming::default` (provider.rs:16-23). -/
def PropagationTiming.default : PropagationTiming := ⟨secs 120, secs 5⟩

structure Dns01Challenge where
  domain : Str
  fqdn : Str
  dnsValue : Str
  token : Nat
deriving DecidableEq, Repr

structure PlacedRecord where
  fqdn : Str
  value : Str
deriving DecidableEq, Repr

def Dns01Challenge.record (ch : Dns01Challenge) : PlacedRecord := ⟨ch.fqdn, ch.dnsValue⟩

/-- What `next_dns01` yields, call after call; `None` once the list is used up. -/
abbrev Driver := List (Except DnsError Dns01Challenge)

inductive Call where
  | nextDns01
  | present (fqdn value : Str)
  | sleep (d : Duration)
  | waitForPropagation (fqdn expected : Str) (resolvers : List Str) (timing : PropagationTiming)
  | setReady (tokens : List Nat)
  | finalize
  | cleanup (fqdn value : Str)
  | onCleanupError (fqdn : Str) (e : DnsError)
deriving DecidableEq

/-- `next_dns01` has no reply of its own: what it yields is the head of the `Driver`. -/
abbrev Reply : Call → Type
  | .nextDns01 | .sleep _ | .onCleanupError _ _ => Unit
  | .present _ _ | .waitForPropagation _ _ _ _ | .setReady _ | .cleanup _ _ => Except DnsError Unit
  | .finalize => Except DnsError (Str × Str)

abbrev Trace := List (Fut.Ev Call Reply)
abbrev Guard := CleanupGuard Call Reply PlacedRecord
abbrev Act (α : Type) := Fut Guard Call Reply α

structure Dns01Solver where
  /-- `provider.timing()`. -/
  providerTiming : PropagationTiming
  fallbackResolvers : List Str
  timing : Option PropagationTiming
  skipPropagation : Option Duration
  /-- Whether an `on_cleanup_error` hook is set. -/
  onCleanupError : Bool

/-- `DEFAULT_RESOLVERS` (dns/propagation.rs:19). -/
def defaultResolvers : List Str := ["1.1.1.1:53".toList, "8.8.8.8:53".toList]

namespace Dns01Solver

def new (providerTiming : PropagationTiming) : Dns01Solver := ⟨providerTiming, defaultResolvers, none, none, false⟩

variable (s : Dns01Solver)

def withResolvers (resolvers : List Str) : Dns01Solver := { s with fallbackResolvers := resolvers }

/-- `self.timing.get_or_insert_with(PropagationTiming::default).timeout = timeout` -/
def withTimeout (timeout : Duration) : Dns01Solver :=
  { s with timing := some { s.timing.getD .default with timeout := timeout } }

def withInterval (interval : Duration) : Dns01Solver :=
  { s with timing := some { s.timing.getD .default with interval := interval } }

def skipPropagationCheck (delay : Duration) : Dns01Solver := { s with skipPropagation := some delay }

def setOnCleanupError : Dns01Solver := { s with onCleanupError := true }

/-- The closure given to the guard: remove the record, report a failure to the hook, if any. -/
def cleanupRecord (record : PlacedRecord) : Fut Unit Call Reply Unit :=
  .await (some ()) (.cleanup record.fqdn record.value) fun
    | .ok () => .done ()
    | .error e => if s.onCleanupError then .await none (.onCleanupError record.fqdn e) .done else .done ()

def cleanupGuard : Guard := .new s.cleanupRecord

/-- The `while let Some(result) = driver.next_dns01().await` loop. The record is pushed before
`present`; a failed `next_dns01` or `present` ends the loop with its error. -/
def presentLoop : Driver → Guard → List Nat → Act (Except DnsError (List Nat) × Guard)
  | [], placed, tokens => .await (some placed) .nextDns01 fun _ => .done (.ok tokens, placed)
  | .error e :: _, placed, _ => .await (some placed) .nextDns01 fun _ => .done (.error e, placed)
  | .ok ch :: rest, placed, tokens =>
    .await (some placed) .nextDns01 fun _ =>
      let placed := placed.push ch.record
      .await (some placed) (.present ch.fqdn ch.dnsValue) fun
        | .error e => .done (.error e, placed)
        | .ok () => presentLoop rest placed (tokens ++ [ch.token])

/-- `for record in placed.pending() { wait_for_propagation(..).await?; }` -/
def waitAll (placed : Guard) (resolvers : List Str) (timing : PropagationTiming) :
    List PlacedRecord → Act (Except DnsError Unit)
  | [] => .done (.ok ())
  | record :: rest =>
    .await (some placed) (.waitForPropagation record.fqdn record.value resolvers timing) fun
      | .error e => .done (.error e)
      | .ok () => waitAll placed resolvers timing rest

/-- `match self.skip_propagation { .. }` (solver.rs:193-203). -/
def propagate (placed : Guard) : Act (Except DnsError Unit) :=
  match s.skipPropagation with
  | some delay => .await (some placed) (.sleep delay) fun _ => .done (.ok ())
  | none => waitAll placed s.fallbackResolvers (s.timing.getD s.providerTiming) placed.pending

def presentThenReady (driver : Driver) (placed : Guard) : Act (Except DnsError Unit × Guard) :=
  (presentLoop driver placed []).bind fun
    | (.error e, placed) => .done (.error e, placed)
    | (.ok tokens, placed) =>
      (s.propagate placed).bind fun
        | .error e => .done (.error e, placed)
        | .ok () => .await (some placed) (.setReady tokens) fun r => .done (r, placed)

/-- The `outcome` of `solve_with_driver`, computed before any cleanup, and the guard it leaves. -/
def outcome (driver : Driver) : Act (Except DnsError (Str × Str) × Guard) :=
  (s.presentThenReady driver s.cleanupGuard).bind fun
    | (.ok (), placed) => .await (some placed) .finalize fun r => .done (r, placed)
    | (.error e, placed) => .done (.error e, placed)

def solveWithDriver (driver : Driver) : Act (Except DnsError (Str × Str)) :=
  (s.outcome driver).bind fun (outcome, placed) => placed.run.bind fun _ => .done outcome

end Dns01Solver

/-! ## Reading a trace -/

/-- The record a call places. -/
def Call.presented : Call → List PlacedRecord
  | .present fqdn value => [⟨fqdn, value⟩]
  | _ => []

/-- The record a call removes. -/
def Call.cleaned : Call → List PlacedRecord
  | .cleanup fqdn value => [⟨fqdn, value⟩]
  | _ => []

/-- The stages of a solve, in the order it goes through them. -/
inductive Stage where
  | placing
  | waiting
  | announcing
  | finalizing
  | cleaning
deriving DecidableEq, Repr

def Call.stage : Call → Stage
  | .nextDns01 | .present _ _ => .placing
  | .sleep _ | .waitForPropagation _ _ _ _ => .waiting
  | .setReady _ => .announcing
  | .finalize => .finalizing
  | .cleanup _ _ | .onCleanupError _ _ => .cleaning

def presents (t : Trace) : List PlacedRecord := t.flatMap (·.call.presented)
def cleanups (t : Trace) : List PlacedRecord := t.flatMap (·.call.cleaned)

/-- The removals of a trace with what the provider answered. -/
def cleanupReplies : Trace → List (PlacedRecord × Except DnsError Unit)
  | [] => []
  | ⟨.cleanup fqdn value, r⟩ :: t => (⟨fqdn, value⟩, r) :: cleanupReplies t
  | _ :: t => cleanupReplies t

/-- The placements of a trace with what the provider answered. -/
def presentReplies : Trace → List (PlacedRecord × Except DnsError Unit)
  | [] => []
  | ⟨.present fqdn value, r⟩ :: t => (⟨fqdn, value⟩, r) :: presentReplies t
  | _ :: t => presentReplies t

@[simp] theorem presents_nil : presents [] = [] := rfl
@[simp] theorem cleanups_nil : cleanups [] = [] := rfl
@[simp] theorem presents_cons (e : Fut.Ev Call Reply) (t : Trace) :
    presents (e :: t) = e.call.presented ++ presents t := rfl
@[simp] theorem cleanups_cons (e : Fut.Ev Call Reply) (t : Trace) :
    cleanups (e :: t) = e.call.cleaned ++ cleanups t := rfl
@[simp] theorem presents_append (t u : Trace) : presents (t ++ u) = presents t ++ presents u := by
  simp [presents]
@[simp] theorem cleanups_append (t u : Trace) : cleanups (t ++ u) = cleanups t ++ cleanups u := by
  simp [cleanups]

theorem cleanups_of_not_cleaning {t : Trace} (h : ∀ e ∈ t, e.call.stage ≠ .cleaning) : cleanups t = [] := by
  simp only [cleanups, List.flatMap_eq_nil_iff]
  intro e he
  have := h e he
  cases hc : e.call <;> simp_all [Call.stage, Call.cleaned]

/-- Only the calls of the first stage present something. -/
theorem presents_of_stage {t : Trace} {stage : Stage} (hstage : stage ≠ .placing) (h : ∀ e ∈ t, e.call.stage = stage) :
    presents t = [] := by
  simp only [presents, List.flatMap_eq_nil_iff]
  intro e he
  have := h e he
  cases hc : e.call <;> simp_all [Call.stage, Call.presented]

namespace Dns01Solver

variable {s : Dns01Solver}

/-! ## The cleanup path -/

/-- The only suspension point of the closure is the provider's `cleanup` itself. -/
theorem cleanupRecord_reports (s : Dns01Solver) (record : PlacedRecord) :
    CleanupGuard.Reports (.cleanup record.fqdn record.value) (fun c => ∃ e, c = .onCleanupError record.fqdn e)
      (s.cleanupRecord record) := by
  refine ⟨_, rfl, fun r => ?_⟩
  cases r with
  | ok u => exact Or.inl rfl
  | error e =>
    by_cases h : s.onCleanupError = true
    · exact Or.inr ⟨.onCleanupError record.fqdn e, .done, ⟨e, rfl⟩, if_pos h, fun _ => rfl⟩
    · exact Or.inl (if_neg h)

theorem cleanupRecord_runs {record : PlacedRecord} {t : Trace} (h : (s.cleanupRecord record).Runs t ()) :
    cleanups t = [record] ∧ ∀ e ∈ t, e.call.stage = .cleaning := by
  obtain ⟨r, t', rfl, hreports⟩ := (cleanupRecord_reports s record).runs h
  have hcleaned : cleanups t' = [] := by
    refine List.flatMap_eq_nil_iff.2 fun e he => ?_
    obtain ⟨e', heq⟩ := hreports e he
    rw [heq]
    rfl
  refine ⟨by rw [cleanups_cons, hcleaned]; rfl, fun e he => ?_⟩
  rcases List.mem_cons.1 he with rfl | he
  · rfl
  · obtain ⟨e', heq⟩ := hreports e he
    rw [heq]
    rfl

theorem cleanupRecord_issues {record : PlacedRecord} {t : Trace} {c : Call}
    (h : (s.cleanupRecord record).Issues t c) : c.stage = .cleaning := by
  rcases (cleanupRecord_reports s record).issues h with rfl | ⟨e, rfl⟩ <;> rfl

/-- Whatever the provider is going to answer, the closure completes. -/
theorem cleanupRecord_answered (s : Dns01Solver) (record : PlacedRecord) (r : Except DnsError Unit) :
    ∃ t, (s.cleanupRecord record).Runs t () ∧ ∀ u, cleanupReplies (t ++ u) = (record, r) :: cleanupReplies u := by
  cases r with
  | ok u => exact ⟨[⟨.cleanup record.fqdn record.value, .ok ()⟩], ⟨.ok (), rfl, rfl⟩, fun _ => rfl⟩
  | error e =>
    by_cases h : s.onCleanupError = true
    · refine ⟨[⟨.cleanup record.fqdn record.value, .error e⟩, ⟨.onCleanupError record.fqdn e, ()⟩],
        ⟨.error e, rfl, ?_⟩, fun _ => rfl⟩
      simp only [h, if_true]
      exact ⟨(), rfl, rfl⟩
    · refine ⟨[⟨.cleanup record.fqdn record.value, .error e⟩], ⟨.error e, rfl, ?_⟩, fun _ => rfl⟩
      simp only [h, Bool.false_eq_true, if_false]
      rfl

theorem cleans_spec : ∀ {items : List PlacedRecord} {t : Trace},
    CleanupGuard.Cleans s.cleanupRecord items t → cleanups t = items ∧ ∀ e ∈ t, e.call.stage = .cleaning
  | [], t, h => by
    obtain rfl : t = [] := h
    simp
  | record :: rest, _, ⟨t₁, t₂, h₁, h₂, rfl⟩ => by
    obtain ⟨hc₁, he₁⟩ := cleanupRecord_runs h₁
    obtain ⟨hc₂, he₂⟩ := cleans_spec h₂
    refine ⟨by simp [hc₁, hc₂], fun e he => ?_⟩
    rcases List.mem_append.1 he with he | he
    · exact he₁ e he
    · exact he₂ e he

theorem cleans_answered (s : Dns01Solver) : ∀ rs : List (PlacedRecord × Except DnsError Unit),
    ∃ t, CleanupGuard.Cleans s.cleanupRecord (rs.map Prod.fst) t ∧ cleanupReplies t = rs
  | [] => ⟨[], rfl, rfl⟩
  | (record, r) :: rs => by
    obtain ⟨t₁, h₁, hr₁⟩ := cleanupRecord_answered s record r
    obtain ⟨t₂, h₂, hr₂⟩ := cleans_answered s rs
    exact ⟨t₁ ++ t₂, ⟨t₁, t₂, h₁, h₂, rfl⟩, by rw [hr₁, hr₂]⟩

/-! ## The placing loop -/

/-- What has been placed by the calls `t`, on top of `placed`. -/
def guardAfter (placed : Guard) (t : List PlacedRecord) : Guard := ⟨placed.pending ++ t, placed.cleanup⟩

/-- What is true of the loop wherever it stands after the calls `t`: suspended, its guard holds every
record `present` was called with, the one in flight included; finished without an error, it has
presented every challenge of the driver. -/
def LoopAt (driver : Driver) (placed : Guard) (tokens : List Nat) (t : Trace) :
    Act (Except DnsError (List Nat) × Guard) → Prop
  | .await g c _ => c.stage = .placing ∧ g = some (guardAfter placed (presents t ++ c.presented))
  | .done (res, placed') => placed' = guardAfter placed (presents t) ∧
    ∀ toks, res = .ok toks → ∃ chs : List Dns01Challenge, driver = chs.map .ok ∧
      toks = tokens ++ chs.map (·.token) ∧ presentReplies t = chs.map (fun ch => (ch.record, .ok ())) ∧
      (t.map (·.call)).count .nextDns01 = chs.length + 1

theorem presentLoop_at : ∀ {driver : Driver} {placed : Guard} {tokens : List Nat} {t : Trace}
    {q : Act (Except DnsError (List Nat) × Guard)}, (presentLoop driver placed tokens).At t q →
      (∀ e ∈ t, e.call.stage = .placing) ∧ LoopAt driver placed tokens t q
  | [], placed, tokens, t, q, h => by
    rcases Fut.at_await.1 h with ⟨rfl, rfl⟩ | ⟨r, t', rfl, h'⟩
    · simp [LoopAt, guardAfter, Call.stage, Call.presented]
    · obtain ⟨rfl, rfl⟩ := Fut.at_done.1 h'
      simp [LoopAt, guardAfter, Call.stage, Call.presented, presentReplies]
  | .error e :: rest, placed, tokens, t, q, h => by
    rcases Fut.at_await.1 h with ⟨rfl, rfl⟩ | ⟨r, t', rfl, h'⟩
    · simp [LoopAt, guardAfter, Call.stage, Call.presented]
    · obtain ⟨rfl, rfl⟩ := Fut.at_done.1 h'
      simp [LoopAt, guardAfter, Call.stage, Call.presented]
  | .ok ch :: rest, placed, tokens, t, q, h => by
    rcases Fut.at_await.1 h with ⟨rfl, rfl⟩ | ⟨r, t', rfl, h'⟩
    · simp [LoopAt, guardAfter, Call.stage, Call.presented]
    rcases Fut.at_await.1 h' with ⟨rfl, rfl⟩ | ⟨r', t'', rfl, h''⟩
    · simp [LoopAt, guardAfter, Call.stage, Call.presented, CleanupGuard.push, Dns01Challenge.record]
    cases r' with
    | error e =>
      obtain ⟨rfl, rfl⟩ := Fut.at_done.1 h''
      simp [LoopAt, guardAfter, Call.stage, Call.presented, CleanupGuard.push, Dns01Challenge.record]
    | ok u =>
      obtain ⟨hpl, hq⟩ := presentLoop_at h''
      refine ⟨by simpa [Call.stage] using hpl, ?_⟩
      cases q with
      | await g c k =>
        obtain ⟨hc, rfl⟩ := hq
        exact ⟨hc, by simp [guardAfter, Call.presented, CleanupGuard.push, Dns01Challenge.record]⟩
      | done a =>
        obtain ⟨res, placed'⟩ := a
        obtain ⟨rfl, hok⟩ := hq
        refine ⟨by simp [guardAfter, Call.presented, CleanupGuard.push, Dns01Challenge.record], ?_⟩
        intro toks ht
        obtain ⟨chs, rfl, rfl, hr, hn⟩ := hok toks ht
        refine ⟨ch :: chs, rfl, by simp, ?_, by simp [hn]⟩
        simp [presentReplies, hr, Dns01Challenge.record]

/-! ## The propagation wait -/

theorem waitAll_at {placed : Guard} {resolvers : List Str} {timing : PropagationTiming} :
    ∀ {items : List PlacedRecord} {t : Trace} {q : Act (Except DnsError Unit)},
    (waitAll placed resolvers timing items).At t q →
      (∀ e ∈ t, e.call.stage = .waiting) ∧
      match q with
      | .await g c _ => c.stage = .waiting ∧ g = some placed
      | .done res => res = .ok () → ∀ record ∈ items,
        (⟨.waitForPropagation record.fqdn record.value resolvers timing, .ok ()⟩ : Fut.Ev Call Reply) ∈ t
  | [], t, q, h => by
    obtain ⟨rfl, rfl⟩ := Fut.at_done.1 h
    simp
  | record :: rest, t, q, h => by
    rcases Fut.at_await.1 h with ⟨rfl, rfl⟩ | ⟨r, t', rfl, h'⟩
    · simp [Call.stage]
    cases r with
    | error e =>
      obtain ⟨rfl, rfl⟩ := Fut.at_done.1 h'
      simp [Call.stage]
    | ok u =>
      obtain ⟨hw, hq⟩ := waitAll_at h'
      refine ⟨by simpa [Call.stage] using hw, ?_⟩
      cases q with
      | await g c k => exact hq
      | done res =>
        intro hok record' hmem
        rcases List.mem_cons.1 hmem with rfl | hmem
        · exact List.mem_cons_self ..
        · exact List.mem_cons_of_mem _ (hq hok record' hmem)

/-- The wait was made for every one of `items`: each of them seen, or the configured delay slept. -/
def Waited (s : Dns01Solver) (items : List PlacedRecord) (t : Trace) : Prop :=
  match s.skipPropagation with
  | some delay => (⟨.sleep delay, ()⟩ : Fut.Ev Call Reply) ∈ t
  | none => ∀ record ∈ items, (⟨.waitForPropagation record.fqdn record.value s.fallbackResolvers
      (s.timing.getD s.providerTiming), .ok ()⟩ : Fut.Ev Call Reply) ∈ t

theorem propagate_at {placed : Guard} {t : Trace} {q : Act (Except DnsError Unit)}
    (h : (s.propagate placed).At t q) :
    (∀ e ∈ t, e.call.stage = .waiting) ∧
    match q with
    | .await g c _ => c.stage = .waiting ∧ g = some placed
    | .done res => res = .ok () → s.Waited placed.pending t := by
  unfold propagate at h
  unfold Waited
  split at h
  · rcases Fut.at_await.1 h with ⟨rfl, rfl⟩ | ⟨r, t', rfl, h'⟩
    · simp [Call.stage]
    · obtain ⟨rfl, rfl⟩ := Fut.at_done.1 h'
      simp_all [Call.stage]
  · rename_i hs
    obtain ⟨hw, hq⟩ := waitAll_at h
    refine ⟨hw, ?_⟩
    cases q with
    | await g c k => exact hq
    | done res => simpa [hs] using hq

/-! ## The solve up to its outcome -/

/-- The calls `t` have presented every challenge the driver yields, each with success, and then waited
for every one of them; `tokens` are the challenges' own. -/
def Announced (s : Dns01Solver) (driver : Driver) (t : Trace) (tokens : List Nat) : Prop :=
  ∃ (chs : List Dns01Challenge) (t₁ t₂ : Trace), t = t₁ ++ t₂ ∧ driver = chs.map .ok ∧
    tokens = chs.map (·.token) ∧ (t₁.map (·.call)).count .nextDns01 = chs.length + 1 ∧
    presentReplies t₁ = chs.map (fun ch => (ch.record, .ok ())) ∧
    presents t₂ = [] ∧ s.Waited (chs.map (·.record)) t₂

/-- A suspended `present_then_ready` or `outcome`: the guard holds all that was presented. -/
def Holds (placed : Guard) (t : Trace) (g : Option Guard) (c : Call) : Prop :=
  g = some (guardAfter placed (presents t ++ c.presented))

theorem presents_of_presentReplies : ∀ t : Trace, presents t = (presentReplies t).map Prod.fst
  | [] => rfl
  | ⟨c, r⟩ :: t => by
    cases c <;> simp [presentReplies, Call.presented, presents_of_presentReplies t]

/-- What is true of `present_then_ready` wherever it stands after the calls `t`. -/
def ReadyAt (s : Dns01Solver) (driver : Driver) (placed : Guard) (t : Trace) :
    Act (Except DnsError Unit × Guard) → Prop
  | .await g c _ => Holds placed t g c ∧ c.stage ≠ .finalizing ∧ c.stage ≠ .cleaning ∧
      ∀ tokens, c = .setReady tokens → (∀ e ∈ t, e.call.stage ≠ .announcing) ∧ s.Announced driver t tokens
  | .done (res, placed') => placed' = guardAfter placed (presents t) ∧
      (res = .ok () → ∃ tokens, (⟨.setReady tokens, .ok ()⟩ : Fut.Ev Call Reply) ∈ t)

theorem presentThenReady_at {driver : Driver} {t : Trace} {q : Act (Except DnsError Unit × Guard)}
    (h : (s.presentThenReady driver s.cleanupGuard).At t q) :
    (∀ e ∈ t, e.call.stage ≠ .finalizing ∧ e.call.stage ≠ .cleaning) ∧
      s.ReadyAt driver s.cleanupGuard t q := by
  rcases Fut.at_bind.1 h with ⟨g, c, k, hl, rfl⟩ | ⟨t₁, ⟨res, placed⟩, t', hl, hrest, rfl⟩
  · obtain ⟨hpl, hc, hg⟩ := presentLoop_at hl
    refine ⟨fun e he => by simp [hpl e he], hg, by simp [hc], by simp [hc], ?_⟩
    rintro tokens rfl
    simp [Call.stage] at hc
  obtain ⟨hpl, rfl, hok⟩ := presentLoop_at hl
  cases res with
  | error e =>
    obtain ⟨rfl, rfl⟩ := Fut.at_done.1 hrest
    exact ⟨by simp_all, by simp, by simp⟩
  | ok tokens =>
    obtain ⟨chs, hdriver, htok, hreplies, hcount⟩ := hok tokens rfl
    rcases Fut.at_bind.1 hrest with ⟨g, c, k, hp, rfl⟩ | ⟨t₂, res, t'', hp, hrest', rfl⟩
    · obtain ⟨hw, hc, rfl⟩ := propagate_at hp
      have hnone : c.presented = [] := by cases c <;> simp_all [Call.stage, Call.presented]
      refine ⟨?_, ?_, by simp [hc], by simp [hc], ?_⟩
      · simp only [List.mem_append]
        rintro e (he | he)
        · simp [hpl e he]
        · simp [hw e he]
      · simp [Holds, presents_of_stage (by decide) hw, hnone]
      · rintro tokens' rfl
        simp [Call.stage] at hc
    obtain ⟨hw, hwaited⟩ := propagate_at hp
    have hpre : presents (t₁ ++ t₂) = presents t₁ := by simp [presents_of_stage (by decide) hw]
    have hstage : ∀ e ∈ t₁ ++ t₂, e.call.stage = .placing ∨ e.call.stage = .waiting := by
      simp only [List.mem_append]
      rintro e (he | he)
      · exact Or.inl (hpl e he)
      · exact Or.inr (hw e he)
    cases res with
    | error e =>
      obtain ⟨rfl, rfl⟩ := Fut.at_done.1 hrest'
      simp only [List.append_nil]
      refine ⟨fun e he => ?_, by rw [hpre], by simp⟩
      rcases hstage e he with h' | h' <;> simp [h']
    | ok u =>
      have hpending : (guardAfter s.cleanupGuard (presents t₁)).pending = chs.map (·.record) := by
        simp [guardAfter, cleanupGuard, CleanupGuard.new, presents_of_presentReplies, hreplies]
      have hann : s.Announced driver (t₁ ++ t₂) tokens :=
        ⟨chs, t₁, t₂, rfl, hdriver, by simpa using htok, hcount, hreplies, presents_of_stage (by decide) hw,
          hpending ▸ hwaited rfl⟩
      rcases Fut.at_await.1 hrest' with ⟨rfl, rfl⟩ | ⟨r, t₃, rfl, hd⟩
      · simp only [List.append_nil]
        refine ⟨fun e he => ?_, ?_, by simp [Call.stage], by simp [Call.stage], ?_⟩
        · rcases hstage e he with h' | h' <;> simp [h']
        · simp only [Holds, hpre, Call.presented, List.append_nil]
        · rintro tokens' ⟨⟩
          refine ⟨fun e he => ?_, hann⟩
          rcases hstage e he with h' | h' <;> simp [h']
      · obtain ⟨rfl, rfl⟩ := Fut.at_done.1 hd
        rw [← List.append_assoc]
        refine ⟨?_, by rw [presents_append, hpre]; simp [Call.presented], ?_⟩
        · simp only [List.mem_append (s := t₁ ++ t₂), List.mem_singleton]
          rintro e (he | rfl)
          · rcases hstage e he with h' | h' <;> simp [h']
          · simp [Call.stage]
        · rintro rfl
          exact ⟨tokens, by simp⟩

/-- What is true of the solve before any cleanup, wherever it stands after the calls `t`. -/
def OutcomeAt (s : Dns01Solver) (driver : Driver) (t : Trace) :
    Act (Except DnsError (Str × Str) × Guard) → Prop
  | .await g c _ => Holds s.cleanupGuard t g c ∧ c.stage ≠ .cleaning ∧
      (∀ tokens, c = .setReady tokens →
        (∀ e ∈ t, e.call.stage ≠ .announcing) ∧ s.Announced driver t tokens) ∧
      (c = .finalize → (∀ e ∈ t, e.call.stage ≠ .finalizing) ∧
        ∃ tokens, (⟨.setReady tokens, .ok ()⟩ : Fut.Ev Call Reply) ∈ t)
  | .done (_, placed) => placed = guardAfter s.cleanupGuard (presents t)

theorem outcome_at {driver : Driver} {t : Trace} {q : Act (Except DnsError (Str × Str) × Guard)}
    (h : (s.outcome driver).At t q) :
    (∀ e ∈ t, e.call.stage ≠ .cleaning) ∧ s.OutcomeAt driver t q := by
  rcases Fut.at_bind.1 h with ⟨g, c, k, hr, rfl⟩ | ⟨t₁, ⟨res, placed⟩, t', hr, hrest, rfl⟩
  · obtain ⟨hst, hg, hfin, hclean, hann⟩ := presentThenReady_at hr
    refine ⟨fun e he => (hst e he).2, hg, hclean, hann, ?_⟩
    rintro rfl
    simp [Call.stage] at hfin
  obtain ⟨hst, rfl, hready⟩ := presentThenReady_at hr
  cases res with
  | error e =>
    obtain ⟨rfl, rfl⟩ := Fut.at_done.1 hrest
    exact ⟨fun e he => (hst e (by simpa using he)).2, by simp [OutcomeAt]⟩
  | ok u =>
    rcases Fut.at_await.1 hrest with ⟨rfl, rfl⟩ | ⟨r, t₂, rfl, hd⟩
    · simp only [List.append_nil]
      refine ⟨fun e he => (hst e he).2, by simp [Holds, Call.presented], by simp [Call.stage], nofun, ?_⟩
      exact fun _ => ⟨fun e he => (hst e he).1, hready rfl⟩
    · obtain ⟨rfl, rfl⟩ := Fut.at_done.1 hd
      refine ⟨?_, by simp [OutcomeAt, Call.presented]⟩
      simp only [List.mem_append, List.mem_singleton]
      rintro e (he | rfl)
      · exact (hst e he).2
      · simp [Call.stage]

/-! ## The whole solve -/

theorem pending_guardAfter (s : Dns01Solver) (l : List PlacedRecord) :
    (guardAfter s.cleanupGuard l).pending = l := rfl

theorem solveWithDriver_eq (s : Dns01Solver) (driver : Driver) :
    s.solveWithDriver driver = CleanupGuard.guarded (s.outcome driver) := rfl

/-- A solve that completes is its outcome, then the cleanup of what the outcome presented. -/
theorem solveWithDriver_runs {driver : Driver} {t : Trace} {r : Except DnsError (Str × Str)} :
    (s.solveWithDriver driver).Runs t r ↔
      ∃ t₁ t₂ placed, t = t₁ ++ t₂ ∧ (s.outcome driver).Runs t₁ (r, placed) ∧
        CleanupGuard.Cleans s.cleanupRecord (presents t₁) t₂ := by
  rw [solveWithDriver_eq, CleanupGuard.guarded_runs]
  constructor
  · rintro ⟨t₁, t₂, placed, ht, h₁, h₂⟩
    obtain ⟨-, rfl⟩ := outcome_at h₁
    exact ⟨t₁, t₂, _, ht, h₁, h₂⟩
  · rintro ⟨t₁, t₂, placed, ht, h₁, h₂⟩
    obtain ⟨-, rfl⟩ := outcome_at h₁
    exact ⟨t₁, t₂, _, ht, h₁, h₂⟩

/-- A solve that is dropped is still in its outcome, with the guard full, or it has cleaned a first
part of what was presented and hands over the rest. -/
theorem solveWithDriver_stops {driver : Driver} {t : Trace} {g : Guard} {c : Call}
    (h : (s.solveWithDriver driver).Stops t g c) :
    ∃ pending, g = ⟨pending, s.cleanupRecord⟩ ∧ presents t ++ c.presented = cleanups t ++ pending := by
  rcases CleanupGuard.guarded_stops h with ⟨k, h'⟩ |
    ⟨t₁, t₂, t₃, r, placed, cleaned, item, rest, rfl, h₁, hitems, hcl, hstop, rfl⟩
  · obtain ⟨hst, hg, -⟩ := outcome_at h'
    refine ⟨presents t ++ c.presented, Option.some.inj hg, ?_⟩
    simp [cleanups_of_not_cleaning hst]
  · obtain ⟨hst, rfl⟩ := outcome_at h₁
    obtain ⟨rfl, rfl⟩ := (cleanupRecord_reports s _).stops hstop
    obtain ⟨hcleaned, hcleaning⟩ := cleans_spec hcl
    rw [pending_guardAfter] at hitems
    refine ⟨item :: rest, rfl, ?_⟩
    simp [cleanups_of_not_cleaning hst, presents_of_stage (by decide) hcleaning, hcleaned, hitems, Call.presented]

/-- **Cleanup is complete, exact and survives cancellation.** A solve that is not dropped is an
outcome, in which nothing is cleaned up, followed by one cleanup for each `present`, in the same
order; its result is that outcome's, and it has such an end for every way the provider may answer the
cleanups. If it is dropped while it waits for `c`, what it has not cleaned up yet, the record in flight
included, is in the guard, and the task spawned by `Drop` cleans up exactly that. -/
theorem cleanup_complete (s : Dns01Solver) (driver : Driver) :
    (∀ t r, (s.solveWithDriver driver).Runs t r →
      ∃ t₁ t₂ placed, t = t₁ ++ t₂ ∧ (s.outcome driver).Runs t₁ (r, placed) ∧
        (∀ e ∈ t₁, e.call.stage ≠ .cleaning) ∧ (∀ e ∈ t₂, e.call.stage = .cleaning) ∧
        cleanups t₂ = presents t₁) ∧
    (∀ t₁ r placed, (s.outcome driver).Runs t₁ (r, placed) →
      ∀ answers : List (PlacedRecord × Except DnsError Unit), answers.map Prod.fst = presents t₁ →
        ∃ t₂, (s.solveWithDriver driver).Runs (t₁ ++ t₂) r ∧ cleanupReplies t₂ = answers) ∧
    (∀ t g c, (s.solveWithDriver driver).Stops t g c →
      ∃ pending, presents t ++ c.presented = cleanups t ++ pending ∧
        (∀ t', g.DroppedRuns t' → cleanups t' = pending ∧ ∀ e ∈ t', e.call.stage = .cleaning) ∧
        ∀ answers : List (PlacedRecord × Except DnsError Unit), answers.map Prod.fst = pending →
          ∃ t', g.DroppedRuns t' ∧ cleanupReplies t' = answers) := by
  refine ⟨fun t r h => ?_, fun t₁ r placed h answers ha => ?_, fun t g c h => ?_⟩
  · obtain ⟨t₁, t₂, placed, rfl, h₁, h₂⟩ := solveWithDriver_runs.1 h
    obtain ⟨hcleaned, hcleaning⟩ := cleans_spec h₂
    exact ⟨t₁, t₂, placed, rfl, h₁, (outcome_at h₁).1, hcleaning, hcleaned⟩
  · obtain ⟨t₂, h₂, hr⟩ := cleans_answered s answers
    exact ⟨t₂, solveWithDriver_runs.2 ⟨t₁, t₂, placed, rfl, h, ha ▸ h₂⟩, hr⟩
  · obtain ⟨pending, rfl, hp⟩ := solveWithDriver_stops h
    refine ⟨pending, hp, fun t' ht => cleans_spec (CleanupGuard.droppedRuns_iff.1 ht), ?_⟩
    rintro answers rfl
    obtain ⟨t', ht, hr⟩ := cleans_answered s answers
    exact ⟨t', CleanupGuard.droppedRuns_iff.2 ht, hr⟩

/-- The second `present` fails: both records are cleaned up, and the error is the solve's. -/
theorem cleanup_complete_failed_present :
    let s : Dns01Solver := ⟨.default, [], none, none, true⟩
    let ch (name : String) : Dns01Challenge :=
      ⟨name.toList, ("_acme-challenge." ++ name).toList, "v".toList, 0⟩
    ∃ t₁ t₂ placed, (s.outcome [.ok (ch "a.org"), .ok (ch "b.org")]).Runs t₁ (.error (.api "x"), placed) ∧
      presents t₁ = [(ch "a.org").record, (ch "b.org").record] ∧ cleanups t₂ = presents t₁ := by
  intro s ch
  obtain ⟨hruns, -, -⟩ := cleanup_complete s [.ok (ch "a.org"), .ok (ch "b.org")]
  obtain ⟨t₁, t₂, placed, ht, h₁, -, hcleaning, hcleaned⟩ := hruns
    [⟨.nextDns01, ()⟩, ⟨.present (ch "a.org").fqdn (ch "a.org").dnsValue, .ok ()⟩, ⟨.nextDns01, ()⟩,
      ⟨.present (ch "b.org").fqdn (ch "b.org").dnsValue, .error (.api "x")⟩,
      ⟨.cleanup (ch "a.org").fqdn (ch "a.org").dnsValue, .ok ()⟩,
      ⟨.cleanup (ch "b.org").fqdn (ch "b.org").dnsValue, .error (.other "y")⟩,
      ⟨.onCleanupError (ch "b.org").fqdn (.other "y"), ()⟩] (.error (.api "x"))
    ⟨(), rfl, .ok (), rfl, (), rfl, .error (.api "x"), rfl, .ok (), rfl, .error (.other "y"), rfl, (), rfl, rfl⟩
  refine ⟨t₁, t₂, placed, h₁, ?_, hcleaned⟩
  have hp : presents (t₁ ++ t₂) = [(ch "a.org").record, (ch "b.org").record] := by rw [← ht]; rfl
  rwa [presents_append, presents_of_stage (by decide) hcleaning, List.append_nil] at hp

/-- **No challenge is announced before its record is in place.** Whatever the solve calls next, after
the answered calls `t`: `set_ready` is called once at most, with the tokens of all yielded challenges,
after every one of them was presented with success and then waited for; `finalize` once at most, after
a successful `set_ready`; and nothing but cleanup follows a cleanup. -/
theorem announced_once_in_place (s : Dns01Solver) (driver : Driver) (t : Trace) (c : Call)
    (h : (s.solveWithDriver driver).Issues t c) :
    (∀ tokens, c = .setReady tokens →
      (∀ e ∈ t, e.call.stage ≠ .announcing) ∧ s.Announced driver t tokens) ∧
    (c = .finalize → (∀ e ∈ t, e.call.stage ≠ .finalizing) ∧
      ∃ tokens, (⟨.setReady tokens, .ok ()⟩ : Fut.Ev Call Reply) ∈ t) ∧
    (c.stage ≠ .cleaning → ∀ e ∈ t, e.call.stage ≠ .cleaning) := by
  rcases CleanupGuard.guarded_issues h with ⟨g, k, h'⟩ | ⟨t₁, t₂, r, placed, rfl, h₁, record, -, t', h'⟩
  · obtain ⟨hst, -, -, hann, hfin⟩ := outcome_at h'
    exact ⟨hann, hfin, fun _ => hst⟩
  · obtain ⟨-, rfl⟩ := outcome_at h₁
    have hc : c.stage = .cleaning := cleanupRecord_issues h'
    refine ⟨?_, ?_, fun hne => absurd hc hne⟩
    · rintro tokens rfl; cases hc
    · rintro rfl; cases hc

/-- With two challenges, presented and seen: `set_ready` is called with their tokens. -/
theorem announced_once_in_place_two :
    let s : Dns01Solver := ⟨.default, [], none, none, false⟩
    let a : Dns01Challenge := ⟨"a.org".toList, "_acme-challenge.a.org".toList, "v".toList, 7⟩
    let b : Dns01Challenge := ⟨"b.org".toList, "_acme-challenge.b.org".toList, "w".toList, 8⟩
    ∃ t, (s.solveWithDriver [.ok a, .ok b]).Issues t (.setReady [7, 8]) ∧
      s.Announced [.ok a, .ok b] t [7, 8] := by
  intro s a b
  have h : (s.solveWithDriver [.ok a, .ok b]).Issues
      [⟨.nextDns01, ()⟩, ⟨.present a.fqdn a.dnsValue, .ok ()⟩, ⟨.nextDns01, ()⟩,
        ⟨.present b.fqdn b.dnsValue, .ok ()⟩, ⟨.nextDns01, ()⟩,
        ⟨.waitForPropagation a.fqdn a.dnsValue [] .default, .ok ()⟩,
        ⟨.waitForPropagation b.fqdn b.dnsValue [] .default, .ok ()⟩] (.setReady [7, 8]) :=
    ⟨_, _, (), rfl, .ok (), rfl, (), rfl, .ok (), rfl, (), rfl, .ok (), rfl, .ok (), rfl, rfl⟩
  exact ⟨_, h, ((announced_once_in_place s _ _ _ h).1 [7, 8] rfl).2⟩

end Dns01Solver
end Cheti.Solver
