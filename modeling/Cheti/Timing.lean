import Cheti.Solver
/-!
# Timing overrides (src/solver.rs:88-102, 193-203)

A solver is built by any sequence of builder calls. What is asked of them is that the two halves of the
timing are overridden apart from each other: the last `with_timeout` decides the timeout, the last
`with_interval` the interval, and a half that no call names is the provider's (`intended`).

The code keeps both halves in one `Option<PropagationTiming>`. The first override fills the half that it
does not name from `PropagationTiming::default()`, and the fallback to the provider happens later, and only
where nothing was overridden (`build_timing`). So the two agree unless exactly one half is overridden and
the provider's other half is not the default one: `timing_intended_iff`.
-/

namespace Cheti.Solver

/-- A call of a builder method. -/
inductive Setting where
  | withResolvers (resolvers : List Str)
  | withTimeout (timeout : Duration)
  | withInterval (interval : Duration)
  | skipPropagationCheck (delay : Duration)
  | onCleanupError

def Setting.apply : Setting → Dns01Solver → Dns01Solver
  | .withResolvers resolvers, s => s.withResolvers resolvers
  | .withTimeout timeout, s => s.withTimeout timeout
  | .withInterval interval, s => s.withInterval interval
  | .skipPropagationCheck delay, s => s.skipPropagationCheck delay
  | .onCleanupError, s => s.setOnCleanupError

/-- `Dns01Solver::new(provider)` and the builder calls on it, in order. -/
def build (provider : PropagationTiming) (calls : List Setting) : Dns01Solver :=
  calls.foldl (fun s call => call.apply s) (.new provider)

def Setting.timeout? : Setting → Option Duration
  | .withTimeout timeout => some timeout
  | _ => none

def Setting.interval? : Setting → Option Duration
  | .withInterval interval => some interval
  | _ => none

def timeouts (calls : List Setting) : List Duration := calls.filterMap Setting.timeout?
def intervals (calls : List Setting) : List Duration := calls.filterMap Setting.interval?

/-- Each half is that of the last call that names it, or the one given. -/
def overridden (base : PropagationTiming) (calls : List Setting) : PropagationTiming :=
  ⟨(timeouts calls).getLast?.getD base.timeout, (intervals calls).getLast?.getD base.interval⟩

/-- What the overrides are for. -/
abbrev intended (provider : PropagationTiming) (calls : List Setting) : PropagationTiming := overridden provider calls

/-! ## What is built -/

theorem build_concat (provider : PropagationTiming) (calls : List Setting) (call : Setting) :
    build provider (calls ++ [call]) = call.apply (build provider calls) := by
  simp [build]

theorem build_providerTiming (provider : PropagationTiming) (calls : List Setting) :
    (build provider calls).providerTiming = provider := by
  induction calls using List.reverseRecOn with
  | nil => rfl
  | append_singleton calls call ih =>
    rw [build_concat]
    cases call <;> exact ih

theorem timeouts_concat (calls : List Setting) (call : Setting) :
    timeouts (calls ++ [call]) = timeouts calls ++ call.timeout?.toList := by
  cases call <;> simp [timeouts, Setting.timeout?]

theorem intervals_concat (calls : List Setting) (call : Setting) :
    intervals (calls ++ [call]) = intervals calls ++ call.interval?.toList := by
  cases call <;> simp [intervals, Setting.interval?]

/-- Once a half is overridden, the other one no longer depends on the provider. -/
theorem build_timing (provider : PropagationTiming) (calls : List Setting) : (build provider calls).timing =
    if timeouts calls = [] ∧ intervals calls = [] then none else some (overridden .default calls) := by
  induction calls using List.reverseRecOn with
  | nil => rfl
  | append_singleton calls call ih =>
    have hbase : (build provider calls).timing.getD .default = overridden .default calls := by
      rw [ih]
      split
      · rename_i h
        simp [overridden, h.1, h.2]
      · rfl
    rw [build_concat, overridden, timeouts_concat, intervals_concat]
    cases call with
    | withTimeout timeout =>
      simp [Setting.apply, Dns01Solver.withTimeout, hbase, Setting.timeout?, Setting.interval?, overridden]
    | withInterval interval =>
      simp [Setting.apply, Dns01Solver.withInterval, hbase, Setting.timeout?, Setting.interval?, overridden]
    | _ =>
      simp only [Setting.timeout?, Setting.interval?, Option.toList_none, List.append_nil]
      exact ih

/-! ## What the propagation check gets -/

namespace Dns01Solver

variable {s : Dns01Solver}

theorem waitAll_issues {placed : Guard} {resolvers : List Str} {timing : PropagationTiming} {c : Call} :
    ∀ {items : List PlacedRecord} {t : Trace}, (waitAll placed resolvers timing items).Issues t c →
      ∃ fqdn value, c = .waitForPropagation fqdn value resolvers timing
  | [], _, h => absurd h Fut.issues_done
  | record :: rest, t, h => by
    rcases Fut.issues_await.1 h with ⟨-, rfl⟩ | ⟨r, t', -, h'⟩
    · exact ⟨record.fqdn, record.value, rfl⟩
    · cases r with
      | error e => exact absurd h' Fut.issues_done
      | ok u => exact waitAll_issues h'

/-- Every wait of a solve is made with the timing selected at solver.rs:196. -/
theorem solveWithDriver_timing {driver : Driver} {t : Trace} {fqdn value : Str} {resolvers : List Str}
    {timing : PropagationTiming} (h : (s.solveWithDriver driver).Issues t (.waitForPropagation fqdn value resolvers timing)) :
    timing = s.timing.getD s.providerTiming := by
  rcases Fut.issues_bind.1 h with h | ⟨t₁, ⟨r, placed⟩, t₂, h₁, h, -⟩
  · rcases Fut.issues_bind.1 h with h | ⟨t₁, ⟨r, placed⟩, t₂, -, h, -⟩
    · rcases Fut.issues_bind.1 h with ⟨g, k, h⟩ | ⟨t₁, ⟨r, placed⟩, t₂, -, h, -⟩
      · obtain ⟨-, hstage, -⟩ := presentLoop_at h
        cases hstage
      · cases r with
        | error e => exact absurd h Fut.issues_done
        | ok tokens =>
          rcases Fut.issues_bind.1 h with h | ⟨t₁, r, t₂, -, h, -⟩
          · unfold propagate at h
            split at h
            · rcases Fut.issues_await.1 h with ⟨-, hc⟩ | ⟨r, t', -, h⟩
              · cases hc
              · exact absurd h Fut.issues_done
            · obtain ⟨fqdn', value', hc⟩ := waitAll_issues h
              cases hc
              rfl
          · cases r with
            | error e => exact absurd h Fut.issues_done
            | ok u =>
              rcases Fut.issues_await.1 h with ⟨-, hc⟩ | ⟨r, t', -, h⟩
              · cases hc
              · exact absurd h Fut.issues_done
    · cases r with
      | error e => exact absurd h Fut.issues_done
      | ok u =>
        rcases Fut.issues_await.1 h with ⟨-, hc⟩ | ⟨r, t', -, h⟩
        · cases hc
        · exact absurd h Fut.issues_done
  · -- past the outcome only the guard makes calls
    rcases Fut.issues_bind.1 h with h | ⟨_, _, _, _, h, _⟩
    · obtain ⟨-, rfl⟩ := outcome_at h₁
      obtain ⟨record, -, t', h⟩ := CleanupGuard.runFrom_issues h
      cases cleanupRecord_issues h
    · exact absurd h Fut.issues_done

end Dns01Solver

/-- **The overrides are independent only if both halves are overridden, or none, or the provider's own half
is the default one.** -/
theorem timing_intended_iff (provider : PropagationTiming) (calls : List Setting) (driver : Driver) (t : Trace)
    (fqdn value : Str) (resolvers : List Str) (timing : PropagationTiming)
    (h : ((build provider calls).solveWithDriver driver).Issues t (.waitForPropagation fqdn value resolvers timing)) :
    timing = intended provider calls ↔
      (timeouts calls = [] ↔ intervals calls = []) ∨
      intervals calls = [] ∧ provider.interval = PropagationTiming.default.interval ∨
      timeouts calls = [] ∧ provider.timeout = PropagationTiming.default.timeout := by
  rw [Dns01Solver.solveWithDriver_timing h, build_timing, build_providerTiming]
  by_cases ht : timeouts calls = []
  · by_cases hi : intervals calls = []
    · simp [ht, hi, overridden]
    · simp [ht, hi, overridden, List.getLast?_eq_some_getLast hi, eq_comm]
  · by_cases hi : intervals calls = []
    · simp [ht, hi, overridden, List.getLast?_eq_some_getLast ht, eq_comm]
    · simp [ht, hi, overridden, List.getLast?_eq_some_getLast ht, List.getLast?_eq_some_getLast hi]

/-- A provider that polls every ten seconds for five minutes. -/
def slow : PropagationTiming := ⟨secs 300, secs 10⟩

/-- One challenge, presented with success: the next call is the wait. -/
def presentedOne : Trace :=
  [⟨.nextDns01, ()⟩, ⟨.present "_acme-challenge.a.org".toList "v".toList, .ok ()⟩, ⟨.nextDns01, ()⟩]

def oneChallenge : Driver := [.ok ⟨"a.org".toList, "_acme-challenge.a.org".toList, "v".toList, 0⟩]

theorem issues_oneChallenge (provider : PropagationTiming) (calls : List Setting)
    (hskip : (build provider calls).skipPropagation = none) :
    ((build provider calls).solveWithDriver oneChallenge).Issues presentedOne
      (.waitForPropagation "_acme-challenge.a.org".toList "v".toList (build provider calls).fallbackResolvers
        ((build provider calls).timing.getD (build provider calls).providerTiming)) := by
  generalize build provider calls = s at hskip ⊢
  obtain ⟨p, resolvers, timing, skip, hook⟩ := s
  obtain rfl : skip = none := hskip
  exact ⟨_, _, (), rfl, .ok (), rfl, (), rfl, rfl⟩

theorem timing_intended_both : ∃ timing, timing = intended slow [.withTimeout (secs 60), .withInterval (secs 1)] ∧
    ((build slow [.withTimeout (secs 60), .withInterval (secs 1)]).solveWithDriver oneChallenge).Issues presentedOne
      (.waitForPropagation "_acme-challenge.a.org".toList "v".toList defaultResolvers timing) :=
  have h := issues_oneChallenge slow [.withTimeout (secs 60), .withInterval (secs 1)] rfl
  ⟨_, (timing_intended_iff _ _ _ _ _ _ _ _ h).2 (Or.inl (by decide)), h⟩

/-- Only the timeout is overridden, and the check polls every five seconds instead of the provider's ten. -/
theorem timeout_resets_interval : intended slow [.withTimeout (secs 60)] = ⟨secs 60, secs 10⟩ ∧
    ((build slow [.withTimeout (secs 60)]).solveWithDriver oneChallenge).Issues presentedOne
      (.waitForPropagation "_acme-challenge.a.org".toList "v".toList defaultResolvers ⟨secs 60, secs 5⟩) :=
  ⟨rfl, issues_oneChallenge slow [.withTimeout (secs 60)] rfl⟩

end Cheti.Solver
