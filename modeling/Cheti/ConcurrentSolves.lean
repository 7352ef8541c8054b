import Cheti.Base.Tidy
import Cheti.Names
import Cheti.Solver
import Cheti.TlsAlpn
/-!
# Many solves at once

Any number of solves, of one process or of several, work on the same zones. Each may be dropped wherever it is
suspended; what `CleanupGuard` then spawns goes on by itself. Outside of a Tokio runtime it spawns nothing
(cleanup.rs:63-65); `runtime` says which solves are dropped inside of one. The provider answers as `DnsProvider`
promises (provider.rs:25-41): a call that returns `Ok` has added or removed its value, and no other; a call that fails
may have done so, and touches no other value either; and one that was in flight when its solve was dropped may do so at
any later time, or never. What counts as the same value is the provider's matter (`key`): letter case and the last dot
of a name, say.

A body that keeps its guard is tidy, whichever solver it belongs to (`CleanupGuard.Keeps.tidy`), so the rules of
`Base.Tidy` apply. While a solve waits for the ACME server, from `set_ready` to the end of `finalize`, all its
values are in the zone, whatever the other solves do; when all solves have ended, the zone is what it was, without
the values they presented, but for those of which a cleanup failed, or a `present` came late, or whose solve was
dropped outside of a runtime. The same holds of the certificates of TLS-ALPN-01 and the responder that serves them.
-/

namespace Cheti

open Fut Fut.Tasks

/-! ## Guards -/

namespace CleanupGuard

variable {C : Type} {R : C → Type} {T α κ : Type}

theorem cleanAll_issues {cleanup : T → Fut Unit C R Unit} : ∀ {items : List T} {t : List (Ev C R)} {c : C},
    (cleanAll cleanup items).Issues t c → ∃ item ∈ items, ∃ t', (cleanup item).Issues t' c
  | [], t, c, h => absurd h issues_done
  | item :: rest, t, c, h => by
    rcases issues_bind.1 h with h' | ⟨_, _, _, _, h', _⟩
    · exact ⟨item, List.mem_cons_self, t, h'⟩
    · obtain ⟨item', hmem, h''⟩ := cleanAll_issues h'
      exact ⟨item', List.mem_cons_of_mem _ hmem, h''⟩

/-- Outside of a runtime nothing is spawned. -/
theorem drop_false (g : CleanupGuard C R T) : g.drop false = none := by
  unfold drop
  split <;> rfl

theorem drop_eq_some {g : CleanupGuard C R T} {runtime : Bool} {q : Fut Unit C R Unit} (h : g.drop runtime = some q) :
    q = cleanAll g.cleanup g.pending := by
  cases runtime with
  | true =>
    unfold drop at h
    split at h
    · cases h
    · simpa using h.symm
  | false =>
    rw [drop_false] at h
    cases h

/-- A body that fills its guard: `items c` are what the call `c` places, an element `key item` of the shared set
each, and `undo item` is the call that takes it back. -/
structure Keeps (effect : C → Tasks.Effect κ) (items : C → List T) (key : T → κ) (undo : T → C)
    (cleanup : T → Fut Unit C R Unit) (body : Fut (CleanupGuard C R T) C R (α × CleanupGuard C R T)) : Prop where
  guard : ∀ t g c k, body.At t (.await (some g) c k) → g = ⟨t.flatMap (items ·.call) ++ items c, cleanup⟩
  placed : ∀ t a g, body.Runs t (a, g) → g = ⟨t.flatMap (items ·.call), cleanup⟩
  adds : ∀ c k, effect c = .adds k ↔ ∃ item ∈ items c, key item = k
  body_keeps : ∀ t c k, body.Issues t c → effect c ≠ .removes k
  undoes : ∀ item, effect (undo item) = .removes (key item)
  reports : ∀ item, ∃ report, Reports (undo item) report (cleanup item) ∧ ∀ c, report c → effect c = .nothing

namespace Keeps

variable {effect : C → Tasks.Effect κ} {items : C → List T} {key : T → κ} {undo : T → C}
  {cleanup : T → Fut Unit C R Unit} {body : Fut (CleanupGuard C R T) C R (α × CleanupGuard C R T)}
  (h : Keeps effect items key undo cleanup body)

include h

/-- What a cleanup calls has no effect but that of its own item. -/
theorem effect_cleanup {item : T} {t : List (Ev C R)} {c : C} (hc : (cleanup item).Issues t c) :
    effect c = .removes (key item) ∨ effect c = .nothing := by
  obtain ⟨report, hreports, hnothing⟩ := h.reports item
  rcases hreports.issues hc with rfl | hreport
  · exact Or.inl (h.undoes item)
  · exact Or.inr (hnothing c hreport)

theorem exists_undo {l : List T} {t : List (Ev C R)} (hl : Cleans cleanup l t) {item : T} (hitem : item ∈ l) :
    ∃ e ∈ t, effect e.call = .removes (key item) := by
  induction l generalizing t with
  | nil => cases hitem
  | cons item' rest ih =>
    obtain ⟨t₁, t₂, h₁, h₂, rfl⟩ := hl
    rcases List.mem_cons.1 hitem with rfl | hitem
    · obtain ⟨report, hreports, -⟩ := h.reports item
      obtain ⟨r, t', rfl, -⟩ := hreports.runs h₁
      exact ⟨⟨undo item, r⟩, by simp, h.undoes item⟩
    · obtain ⟨e, he, hk⟩ := ih h₂ hitem
      exact ⟨e, by simp [he], hk⟩

/-- A guard with the item is going to take it back when it is dropped. -/
theorem leftOwes {l : List T} {item : T} (hitem : item ∈ l) :
    LeftOwes effect (key item) ((⟨l, cleanup⟩ : CleanupGuard C R T).drop true) := by
  obtain ⟨item', rest, rfl⟩ := List.exists_cons_of_ne_nil (List.ne_nil_of_mem hitem)
  exact ⟨cleanAll cleanup (item' :: rest), rfl, fun t ht => h.exists_undo (cleanAll_runs.1 ht) hitem⟩

/-- Whatever the rest of the body does, an item that is in the guard is owed. -/
theorem owes {q : Fut (CleanupGuard C R T) C R (α × CleanupGuard C R T)} {t : List (Ev C R)} (hq : body.At t q)
    {item : T} (hitem : item ∈ t.flatMap (items ·.call)) :
    Owes effect (CleanupGuard.drop true) (key item) (guarded q) := by
  have hlater : ∀ t', item ∈ (t ++ t').flatMap (items ·.call) := fun t' => by simp [hitem]
  constructor
  · intro t' a hrun
    obtain ⟨t₁, t₂, placed, rfl, h₁, h₂⟩ := guarded_runs.1 hrun
    obtain rfl := h.placed _ _ _ (hq.append h₁)
    obtain ⟨e, he, hk⟩ := h.exists_undo h₂ (hlater t₁)
    exact ⟨e, by simp [he], hk⟩
  · intro t' g c hstop
    rcases guarded_stops hstop with ⟨k, hat⟩ | ⟨t₁, t₂, t₃, r, placed, cleaned, item', rest, rfl, h₁, hpending, hcl, -, rfl⟩
    · obtain rfl := h.guard _ _ _ _ (hq.append hat)
      exact Or.inr (h.leftOwes (List.mem_append_left _ (hlater t')))
    · obtain rfl := h.placed _ _ _ (hq.append h₁)
      have hmem : item ∈ cleaned ++ item' :: rest := hpending ▸ hlater t₁
      rcases List.mem_append.1 hmem with hmem | hmem
      · obtain ⟨e, he, hk⟩ := h.exists_undo hcl hmem
        exact Or.inl ⟨e, by simp [he], hk⟩
      · exact Or.inr (h.leftOwes hmem)

/-- What a cleanup removes is its own item, and it adds nothing. -/
theorem only_removes {item : T} {t : List (Ev C R)} {c : C} (hc : (cleanup item).Issues t c) {P : κ → Prop}
    (hP : P (key item)) : (∀ k, effect c ≠ .adds k) ∧ ∀ k, effect c = .removes k → P k := by
  rcases h.effect_cleanup hc with heffect | heffect
  · rw [heffect]
    refine ⟨nofun, fun k hk => ?_⟩
    cases hk
    exact hP
  · rw [heffect]
    exact ⟨nofun, nofun⟩

/-- What a suspended call adds is owed: by the task whatever the answer, and by the guard. -/
theorem adds_owed {t : List (Ev C R)} {g : Option (CleanupGuard C R T)} {c : C} {next : R c → Fut (CleanupGuard C R T) C R α}
    {k : κ} (hat : (guarded body).At t (.await g c next)) (hk : effect c = .adds k) :
    (∀ r, Owes effect (CleanupGuard.drop true) k (next r)) ∧
      ∀ g', g = some g' → LeftOwes effect k (CleanupGuard.drop true g') := by
  rcases at_bind.1 hat with ⟨g', c', k', hbody, heq⟩ | ⟨t₁, ⟨a, placed⟩, t₂, h₁, h₂, rfl⟩
  · cases heq
    obtain ⟨item, hitem, rfl⟩ := (h.adds c k).1 hk
    refine ⟨fun r => h.owes (hbody.snoc r) (by simp [hitem]), fun g' hg => ?_⟩
    subst hg
    obtain rfl := h.guard _ _ _ _ hbody
    exact h.leftOwes (List.mem_append_right _ hitem)
  · obtain rfl := h.placed _ _ _ h₁
    rcases issues_bind.1 ⟨g, next, h₂⟩ with hrun | ⟨_, _, _, _, hdone, _⟩
    · obtain ⟨item, -, t', hcleanup⟩ := runFrom_issues hrun
      exact absurd hk ((h.only_removes (P := fun _ => True) hcleanup trivial).1 k)
    · exact absurd hdone issues_done

section Elements

variable {K : Set κ} (hK : ∀ t c, body.Issues t c → ∀ item ∈ items c, key item ∈ K)

include hK

/-- What has been placed was added by a call of the body. -/
theorem added {q : Fut (CleanupGuard C R T) C R (α × CleanupGuard C R T)} {t : List (Ev C R)} (hq : body.At t q)
    {item : T} (hitem : item ∈ t.flatMap (items ·.call)) :
    key item ∈ K ∧ ∃ e ∈ t, effect e.call = .adds (key item) := by
  obtain ⟨e, he, hmem⟩ := List.mem_flatMap.1 hitem
  obtain ⟨t₁, t₂, rfl⟩ := List.append_of_mem he
  exact ⟨hK t₁ e.call hq.issues_before item hmem, e, he, (h.adds _ _).2 ⟨item, hmem, rfl⟩⟩

/-- The body only adds; what comes after it only removes what the body has added. -/
theorem guarded_effect {t : List (Ev C R)} {c : C} (hc : (guarded body).Issues t c) :
    (body.Issues t c ∧ ∀ k, effect c ≠ .removes k) ∨
      (∀ k, effect c ≠ .adds k) ∧ ∀ k, effect c = .removes k → k ∈ K ∧ ∃ e ∈ t, effect e.call = .adds k := by
  rcases guarded_issues hc with hbody | ⟨t₁, t₂, r, placed, rfl, h₁, item, hitem, t', hcleanup⟩
  · exact Or.inl ⟨hbody, fun k => h.body_keeps t c k hbody⟩
  · obtain rfl := h.placed _ _ _ h₁
    obtain ⟨hmem, e, he, hadds⟩ := h.added hK h₁ hitem
    exact Or.inr (h.only_removes hcleanup ⟨hmem, e, List.mem_append_left _ he, hadds⟩)

/-- The guard of a suspended solve holds what was placed, and what is being placed. -/
theorem pending_added {t : List (Ev C R)} {g : CleanupGuard C R T} {c : C} (hstop : (guarded body).Stops t g c) :
    g.cleanup = cleanup ∧ ∀ item ∈ g.pending, key item ∈ K ∧
      (effect c = .adds (key item) ∨ ∃ e ∈ t, effect e.call = .adds (key item)) := by
  rcases guarded_stops hstop with ⟨k, hat⟩ | ⟨t₁, t₂, t₃, r, placed, cleaned, item', rest, rfl, h₁, hitems, -, -, rfl⟩
  · obtain rfl := h.guard _ _ _ _ hat
    refine ⟨rfl, fun item hitem => ?_⟩
    rcases List.mem_append.1 hitem with hitem | hitem
    · exact (h.added hK hat hitem).imp_right Or.inr
    · exact ⟨hK t c ⟨_, k, hat⟩ item hitem, Or.inl ((h.adds _ _).2 ⟨item, hitem, rfl⟩)⟩
  · obtain rfl := h.placed _ _ _ h₁
    refine ⟨rfl, fun item hitem => ?_⟩
    have hmem : item ∈ t₁.flatMap (items ·.call) := by
      rw [show t₁.flatMap (items ·.call) = cleaned ++ item' :: rest from hitems]
      exact List.mem_append_right _ hitem
    obtain ⟨hmemK, e, he, hadds⟩ := h.added hK h₁ hmem
    exact ⟨hmemK, Or.inr ⟨e, by simp [he], hadds⟩⟩

/-- **A body that keeps its guard is tidy**, followed by the guard's own run. -/
theorem tidy : Tidy effect (CleanupGuard.drop true) (guarded body) K where
  keys t c k hc hk := by
    rcases h.guarded_effect hK hc with ⟨hbody, hnot⟩ | ⟨hnot, hremoves⟩
    · obtain ⟨item, hitem, rfl⟩ := (h.adds c k).1 (hk.resolve_right (hnot k))
      exact hK t c hbody item hitem
    · exact (hremoves k (hk.resolve_left (hnot k))).1
  removes t c k hc hk := by
    rcases h.guarded_effect hK hc with ⟨-, hnot⟩ | ⟨-, hremoves⟩
    · exact absurd hk (hnot k)
    · exact (hremoves k hk).2
  adds t g c next k hat hk := h.adds_owed hat hk
  left t g c q t' c' hstop hq hc' := by
    obtain ⟨hcleanup, hall⟩ := h.pending_added hK hstop
    rw [drop_eq_some hq, hcleanup] at hc'
    obtain ⟨item, hitem, t'', hissue⟩ := cleanAll_issues hc'
    exact h.only_removes hissue (hall item hitem)

end Elements

end Keeps

end CleanupGuard

/-! ## DNS-01 -/

namespace Solver

variable {ι κ : Type} [DecidableEq ι]

/-- `key` is what a provider takes a record for. -/
def Call.effect (key : PlacedRecord → κ) : Call → Tasks.Effect κ
  | .present fqdn value => .adds (key ⟨fqdn, value⟩)
  | .cleanup fqdn value => .removes (key ⟨fqdn, value⟩)
  | _ => .nothing

def Call.Confirmed : (c : Call) → Reply c → Prop
  | .present _ _, r | .cleanup _ _, r => r = .ok ()
  | _, _ => True

structure Solve where
  solver : Dns01Solver
  driver : Driver

def Solve.prog (x : Solve) : Act (Except DnsError (Str × Str)) := x.solver.solveWithDriver x.driver

/-- The values that the challenges of a solve ask for. -/
def Solve.values (key : PlacedRecord → κ) (x : Solve) : Set κ := {k | ∃ ch, .ok ch ∈ x.driver ∧ key ch.record = k}

abbrev System (ι S : Type) := Config ι Guard Call Reply (Except DnsError (Str × Str)) (Shared ι Call Reply S)

/-- `w` happened to the solves, from the zone `zone`. -/
abbrev Interleaves (key : PlacedRecord → κ) (runtime : ι → Bool) (solves : ι → Solve) (zone : Set κ) :
    History ι Call Reply → System ι (Set κ) → Prop :=
  Steps (effects (Call.effect key) Call.Confirmed runtime CleanupGuard.drop) (start (fun i => (solves i).prog) (.init zone))

namespace Dns01Solver

variable {s : Dns01Solver} {driver : Driver} {t : Trace} {c : Call}

theorem presentLoop_issues : ∀ {driver : Driver} {placed : Guard} {tokens : List Nat} {t : Trace} {c : Call},
    (presentLoop driver placed tokens).Issues t c → ∀ record ∈ c.presented, ∃ ch, .ok ch ∈ driver ∧ ch.record = record
  | [], placed, tokens, t, c, h => by
    rcases issues_await.1 h with ⟨-, rfl⟩ | ⟨_, _, -, h'⟩
    · simp [Call.presented]
    · exact absurd h' issues_done
  | .error e :: rest, placed, tokens, t, c, h => by
    rcases issues_await.1 h with ⟨-, rfl⟩ | ⟨_, _, -, h'⟩
    · simp [Call.presented]
    · exact absurd h' issues_done
  | .ok ch :: rest, placed, tokens, t, c, h => by
    rcases issues_await.1 h with ⟨-, rfl⟩ | ⟨_, _, -, h'⟩
    · simp [Call.presented]
    rcases issues_await.1 h' with ⟨-, rfl⟩ | ⟨r, _, -, h''⟩
    · simp [Call.presented, Dns01Challenge.record]
    cases r with
    | error e => exact absurd h'' issues_done
    | ok u =>
      intro record hrecord
      obtain ⟨ch', hch, hrec⟩ := presentLoop_issues h'' record hrecord
      exact ⟨ch', List.mem_cons_of_mem _ hch, hrec⟩

/-- Only records of the driver's challenges are placed. -/
theorem outcome_issues (h : (s.outcome driver).Issues t c) : ∀ record ∈ c.presented, ∃ ch, .ok ch ∈ driver ∧ ch.record = record := by
  have hquiet : ∀ {c : Call}, c.stage ≠ .placing → ∀ record ∈ c.presented, ∃ ch, .ok ch ∈ driver ∧ ch.record = record := by
    intro c hc
    cases c <;> simp_all [Call.stage, Call.presented]
  rcases issues_bind.1 h with hready | ⟨t₁, ⟨res, placed⟩, t₂, -, hfinal, -⟩
  · rcases issues_bind.1 hready with hloop | ⟨t₁, ⟨res, placed⟩, t₂, -, hrest, -⟩
    · exact presentLoop_issues hloop
    · cases res with
      | error e => exact absurd hrest issues_done
      | ok tokens =>
        rcases issues_bind.1 hrest with ⟨g, k, hwait⟩ | ⟨_, res, _, -, hset, -⟩
        · have hstage : c.stage = .waiting := (propagate_at hwait).2.1
          exact hquiet (by simp [hstage])
        · cases res with
          | error e => exact absurd hset issues_done
          | ok u =>
            rcases issues_await.1 hset with ⟨-, rfl⟩ | ⟨_, _, -, hdone⟩
            · exact hquiet (by simp [Call.stage])
            · exact absurd hdone issues_done
  · cases res with
    | error e => exact absurd hfinal issues_done
    | ok u =>
      rcases issues_await.1 hfinal with ⟨-, rfl⟩ | ⟨_, _, -, hdone⟩
      · exact hquiet (by simp [Call.stage])
      · exact absurd hdone issues_done

theorem keeps_outcome (key : PlacedRecord → κ) (s : Dns01Solver) (driver : Driver) :
    CleanupGuard.Keeps (Call.effect key) Call.presented key (fun record => .cleanup record.fqdn record.value)
      s.cleanupRecord (s.outcome driver) where
  guard t g c k h := Option.some.inj (outcome_at h).2.1
  placed t a g h := (outcome_at h).2
  adds c k := by cases c <;> simp [Call.effect, Call.presented]
  body_keeps t c k h := by
    obtain ⟨g, k', hat⟩ := h
    have hstage : c.stage ≠ .cleaning := (outcome_at hat).2.2.1
    cases c <;> simp_all [Call.stage, Call.effect]
  undoes record := rfl
  reports record := by
    refine ⟨_, cleanupRecord_reports s record, ?_⟩
    rintro c ⟨e, rfl⟩
    rfl

theorem tidy_solve (key : PlacedRecord → κ) (x : Solve) :
    Tidy (Call.effect key) (CleanupGuard.drop true) x.prog (x.values key) := by
  refine (keeps_outcome key x.solver x.driver).tidy fun t c hc record hrecord => ?_
  obtain ⟨ch, hch, rfl⟩ := outcome_issues hc record hrecord
  exact ⟨ch, hch, rfl⟩

theorem mem_presentReplies {record : PlacedRecord} {r : Except DnsError Unit} : (record, r) ∈ presentReplies t ↔
    (⟨.present record.fqdn record.value, r⟩ : Ev Call Reply) ∈ t := by
  induction t with
  | nil => simp [presentReplies]
  | cons e t ih =>
    obtain ⟨c, r'⟩ := e
    cases c with
    | present fqdn value =>
      rw [presentReplies, List.mem_cons, List.mem_cons, ih]
      refine or_congr_left ⟨fun h => ?_, fun h => ?_⟩
      · cases h
        rfl
      · cases h
        rfl
    | _ => simp [presentReplies, ih]

theorem presentReplies_append (t u : Trace) : presentReplies (t ++ u) = presentReplies t ++ presentReplies u := by
  induction t with
  | nil => rfl
  | cons e t ih =>
    obtain ⟨c, r⟩ := e
    cases c <;> simp [presentReplies, ih]

theorem presentReplies_of_presents {t : Trace} (h : presents t = []) : presentReplies t = [] := by
  rw [presents_of_presentReplies] at h
  exact List.map_eq_nil_iff.1 h

theorem presentThenReady_replies {placed : Guard}
    (h : (s.presentThenReady driver s.cleanupGuard).Runs t (.ok (), placed)) :
    ∃ chs : List Dns01Challenge, driver = chs.map .ok ∧ presentReplies t = chs.map fun ch => (ch.record, .ok ()) := by
  obtain ⟨t₁, ⟨res, placed'⟩, t', hloop, hrest, rfl⟩ := runs_bind.1 h
  cases res with
  | error e => cases (runs_done.1 hrest).2
  | ok tokens =>
    obtain ⟨-, -, hok⟩ := presentLoop_at hloop
    obtain ⟨chs, hdriver, -, hreplies, -⟩ := hok tokens rfl
    obtain ⟨t₂, res, t'', hwait, hset, rfl⟩ := runs_bind.1 hrest
    have hquiet := presents_of_stage (by decide) (propagate_at hwait).1
    refine ⟨chs, hdriver, ?_⟩
    cases res with
    | error e => cases (runs_done.1 hset).2
    | ok u =>
      obtain ⟨r, t₃, rfl, hdone⟩ := runs_await.1 hset
      obtain ⟨rfl, -⟩ := runs_done.1 hdone
      simp [presentReplies_append, hreplies, presentReplies_of_presents hquiet, presentReplies]

/-- From `set_ready` on, all challenges have been presented, all with success, and nothing was cleaned up. -/
theorem presented_of_announced (h : (s.solveWithDriver driver).Issues t c)
    (hc : c.stage = .announcing ∨ c.stage = .finalizing) :
    (∃ chs : List Dns01Challenge, driver = chs.map .ok ∧ presentReplies t = chs.map fun ch => (ch.record, .ok ())) ∧
      ∀ e ∈ t, e.call.stage ≠ .cleaning := by
  rw [solveWithDriver_eq] at h
  rcases CleanupGuard.guarded_issues h with ⟨g, k, hat⟩ | ⟨t₁, t₂, r, placed, rfl, h₁, record, -, t', h'⟩
  · refine ⟨?_, (outcome_at hat).1⟩
    rcases at_bind.1 hat with ⟨g', c', k', hready, heq⟩ | ⟨t₁, ⟨res, placed⟩, t₂, hready, hrest, rfl⟩
    · cases heq
      obtain ⟨-, -, hfin, -, hann⟩ := presentThenReady_at hready
      cases c with
      | setReady tokens =>
        obtain ⟨chs, t₁, t₂, rfl, hdriver, -, -, hreplies, hquiet, -⟩ := (hann tokens rfl).2
        exact ⟨chs, hdriver, by simp [presentReplies_append, hreplies, presentReplies_of_presents hquiet]⟩
      | finalize => exact absurd rfl hfin
      | _ => simp [Call.stage] at hc
    · cases res with
      | error e => cases (at_done.1 hrest).2
      | ok u =>
        rcases at_await.1 hrest with ⟨rfl, -⟩ | ⟨r, t₃, rfl, hdone⟩
        · rw [List.append_nil]
          exact presentThenReady_replies hready
        · cases (at_done.1 hdone).2
  · obtain ⟨-, rfl⟩ := outcome_at h₁
    rw [cleanupRecord_issues h'] at hc
    simp at hc

/-- The values of a solve that has announced its challenges, and has not finished, are in the zone. -/
theorem values_mem {key : PlacedRecord → κ} {runtime : ι → Bool} {solves : ι → Solve} {zone : Set κ}
    {w : History ι Call Reply} {cfg : System ι (Set κ)} (h : Interleaves key runtime solves zone w cfg) {i : ι}
    {g : Option Guard} {next : Reply c → Act (Except DnsError (Str × Str))} (hp : cfg.prog i = some (.await g c next))
    (hc : c.stage = .announcing ∨ c.stage = .finalizing)
    (hothers : ∀ j, j ≠ i → Disjoint ((solves i).values key) ((solves j).values key)) :
    (solves i).values key ⊆ cfg.store.state := by
  rintro k ⟨ch, hch, rfl⟩
  obtain ⟨⟨chs, hdriver, hreplies⟩, hstages⟩ := presented_of_announced ⟨g, next, h.at_some rfl hp⟩ hc
  have hmem : ch ∈ chs := by simpa [hdriver] using hch
  have hreply : (ch.record, .ok ()) ∈ presentReplies (calls i w) := by
    rw [hreplies]
    exact List.mem_map_of_mem hmem
  refine h.mem_store CleanupGuard.drop_false (fun i => tidy_solve key (solves i)) hp (fun j hj hk => ?_)
    ⟨_, mem_presentReplies.1 hreply, rfl⟩ (fun e he hadds => ?_) fun e he => ?_
  · exact Set.disjoint_left.1 (hothers j hj) ⟨ch, hch, rfl⟩ hk
  · obtain ⟨c', r⟩ := e
    cases c' with
    | present fqdn value =>
      have hr : (⟨fqdn, value⟩, r) ∈ presentReplies (calls i w) := mem_presentReplies.2 he
      rw [hreplies] at hr
      obtain ⟨ch', -, heq⟩ := List.mem_map.1 hr
      exact (Prod.ext_iff.1 heq).2.symm
    | _ => cases hadds
  · have hstage := hstages e he
    cases hcall : e.call <;> simp_all [Call.stage, Call.effect]

end Dns01Solver

variable {key : PlacedRecord → κ} {runtime : ι → Bool} {solves : ι → Solve} {zone : Set κ} {w : History ι Call Reply}
  {cfg : System ι (Set κ)}

/-- **While the ACME server validates, the values are in the zone.** A solve that waits for `set_ready` or
`finalize` has all its values in the zone at that moment, whatever the other solves and what they left behind
have done, if none of them asks for one of the same values. -/
theorem values_in_place (h : Interleaves key runtime solves zone w cfg) (i : ι) (g : Option Guard) (c : Call)
    (next : Reply c → Act (Except DnsError (Str × Str))) (hp : cfg.prog i = some (.await g c next))
    (hc : c.stage = .announcing ∨ c.stage = .finalizing)
    (hothers : ∀ j, j ≠ i → Disjoint ((solves i).values key) ((solves j).values key)) :
    (solves i).values key ⊆ cfg.store.state :=
  Dns01Solver.values_mem h hp hc hothers

/-- A value at a name, in whatever letter case and with or without its last dot the name was given. -/
def PlacedRecord.valueAt (record : PlacedRecord) : Str × Str := (normalizeName record.fqdn, record.value)

/-- A challenge for `value` at the name that a wildcard and its apex share. -/
def sampleChallenge (value : String) : Dns01Challenge := ⟨"a.org".toList, "_acme-challenge.a.org".toList, value.toList, 0⟩

/-- Two solves, of a wildcard and of its apex. -/
def sampleSolve (i : Bool) : Solve :=
  ⟨⟨.default, [], none, some 0, false⟩, [.ok (sampleChallenge (if i then "v" else "w"))]⟩

/-- The calls of a solve up to `set_ready`. -/
abbrev sampleReady (value : String) : Trace :=
  [⟨.nextDns01, ()⟩, ⟨.present (sampleChallenge value).fqdn (sampleChallenge value).dnsValue, .ok ()⟩, ⟨.nextDns01, ()⟩,
    ⟨.sleep 0, ()⟩]

/-- From `set_ready` to the end. -/
abbrev sampleRest (value : String) : Trace :=
  [⟨.setReady [0], .ok ()⟩, ⟨.finalize, .ok ([], [])⟩,
    ⟨.cleanup (sampleChallenge value).fqdn (sampleChallenge value).dnsValue, .ok ()⟩]

theorem sampleSolve_at : (sampleSolve false).prog.At (sampleReady "w" ++ sampleRest "w") (.done (.ok ([], []))) :=
  ⟨(), rfl, .ok (), rfl, (), rfl, (), rfl, .ok (), rfl, .ok ([], []), rfl, .ok (), rfl, rfl⟩

/-- To a provider that tells values apart, they ask for different ones. -/
theorem sampleSolve_disjoint {key : PlacedRecord → κ} (hkey : ∀ r r', key r = key r' → r.value = r'.value) (j : Bool)
    (hj : j ≠ true) : Disjoint ((sampleSolve true).values key) ((sampleSolve j).values key) := by
  obtain rfl : j = false := by simpa using hj
  rw [Set.disjoint_left]
  rintro k ⟨ch₁, h₁, rfl⟩ ⟨ch₂, h₂, heq⟩
  obtain rfl : ch₁ = sampleChallenge "v" := by simpa [sampleSolve] using h₁
  obtain rfl : ch₂ = sampleChallenge "w" := by simpa [sampleSolve] using h₂
  exact absurd (hkey _ _ heq) (by decide)

/-- The solve of one ends, with its cleanup, while the other one waits. -/
theorem values_in_place_wildcard :
    ∃ w cfg, Interleaves PlacedRecord.valueAt (fun _ => true) sampleSolve ∅ w cfg ∧
      cfg.prog false = some (.done (.ok ([], []))) ∧ (sampleSolve true).values PlacedRecord.valueAt ⊆ cfg.store.state := by
  have hnil : Interleaves PlacedRecord.valueAt (fun _ => true) sampleSolve ∅ [] _ := .nil
  have hfirst := hnil.go_on (i := true) (t := sampleReady "v") rfl
    ⟨(), rfl, .ok (), rfl, (), rfl, (), rfl, rfl⟩ (chain_effectEnv _ _)
  have hsecond := hfirst.go_on (i := false) rfl sampleSolve_at (chain_effectEnv _ _)
  exact ⟨_, _, hsecond, rfl, values_in_place hsecond true _ (.setReady [0]) _ rfl (Or.inl rfl)
    (sampleSolve_disjoint fun _ _ heq => congrArg Prod.snd heq)⟩

end Solver

/-! ## TLS-ALPN-01 -/

namespace TlsAlpn

open InstantAcme

variable {ι : Type} [DecidableEq ι]

/-- A responder serves one certificate for a domain, and `cleanup` names the domain only. -/
def Call.effect : Call → Tasks.Effect Str
  | .present domain _ => .adds domain
  | .cleanup domain => .removes domain
  | _ => .nothing

def Call.Confirmed : (c : Call) → Reply c → Prop
  | .present _ _, r | .cleanup _, r => r = .ok ()
  | _, _ => True

structure Solve where
  solver : TlsAlpn01Solver
  order : Nat → Pass

def Solve.prog (x : Solve) : Act (Except DnsError (Str × Str)) := x.solver.solveAndFinalize x.order

/-- The pending challenges of the order. -/
def Solve.pending (x : Solve) : List Pending := (collected (x.order 0)).toOption.getD []

def Solve.domains (x : Solve) : Set Str := {domain | ∃ p ∈ x.pending, p.domain = domain}

abbrev System (ι : Type) := Config ι Guard Call Reply (Except DnsError (Str × Str)) (Shared ι Call Reply (Set Str))

/-- `w` happened to the solves, while the responder served the domains `served` at first. -/
abbrev Interleaves (runtime : ι → Bool) (solves : ι → Solve) (served : Set Str) : History ι Call Reply → System ι → Prop :=
  Steps (effects Call.effect Call.Confirmed runtime CleanupGuard.drop) (start (fun i => (solves i).prog) (.init served))

theorem presents_eq (t : Trace) : presents t = t.flatMap (·.call.presented) := by
  induction t with
  | nil => rfl
  | cons e t ih =>
    obtain ⟨c, r⟩ := e
    have hcons : presents (⟨c, r⟩ :: t) = presents [⟨c, r⟩] ++ presents t := presents_append [_] t
    rw [hcons, ih, List.flatMap_cons]
    cases c <;> rfl

theorem pending_eq {x : Solve} {pending : List Pending} (h : collected (x.order 0) = .ok pending) : x.pending = pending := by
  rw [Solve.pending, h]
  rfl

theorem presentEach_issues {order : Nat → Pass} : ∀ {i : Nat} {pending : List Pending} {presented : Guard} {t : Trace}
    {c : Call}, (presentEach order i pending presented).Issues t c → ∀ domain ∈ c.presented, ∃ p ∈ pending, p.domain = domain
  | _, [], presented, t, c, h => absurd h issues_done
  | i, p :: rest, presented, t, c, h => by
    intro domain hdomain
    rcases issues_bind.1 h with ⟨g, k, hbuild⟩ | ⟨t₁, res, t₂, -, hrest, -⟩
    · obtain ⟨rfl, -⟩ := (buildChallengeCertificate_at hbuild).2
      cases hdomain
    cases res with
    | error e => exact absurd hrest issues_done
    | ok cert =>
      rcases issues_await.1 hrest with ⟨-, rfl⟩ | ⟨r, t₃, -, hnext⟩
      · exact ⟨p, List.mem_cons_self, (List.mem_singleton.1 hdomain).symm⟩
      cases r with
      | error e => exact absurd hnext issues_done
      | ok u =>
        rcases issues_bind.1 hnext with ⟨g, k, hready⟩ | ⟨_, res, _, -, hlater, -⟩
        · rcases (setReadyByUrl_at hready).2.1 with rfl | rfl <;> cases hdomain
        · cases res with
          | error e => exact absurd hlater issues_done
          | ok u =>
            obtain ⟨p', hp', hd⟩ := presentEach_issues hlater domain hdomain
            exact ⟨p', List.mem_cons_of_mem _ hp', hd⟩

namespace TlsAlpn01Solver

variable {s : TlsAlpn01Solver} {order : Nat → Pass} {t : Trace} {c : Call}

/-- Only domains of pending challenges are presented. -/
theorem outcome_issues {x : Solve} (h : (x.solver.outcome x.order).Issues t c) : ∀ domain ∈ c.presented, domain ∈ x.domains := by
  rcases issues_bind.1 h with hall | ⟨t₁, ⟨res, presented⟩, t₂, -, hrest, -⟩
  · rcases issues_bind.1 hall with ⟨g, k, hcollect⟩ | ⟨_, res, _, hcollect, heach, -⟩
    · obtain ⟨rfl, -⟩ := (collectPending_at hcollect).2
      exact fun domain hdomain => by cases hdomain
    · obtain ⟨-, hres⟩ := collectPending_at hcollect
      cases hcollected : collected (x.order 0) with
      | error e =>
        rw [hcollected] at hres
        subst hres
        exact absurd heach issues_done
      | ok pending =>
        rw [hcollected] at hres
        subst hres
        intro domain hdomain
        obtain ⟨p, hp, hd⟩ := presentEach_issues heach domain hdomain
        exact ⟨p, by rw [pending_eq hcollected]; exact hp, hd⟩
  · cases res with
    | error e => exact absurd hrest issues_done
    | ok u =>
      rcases issues_bind.1 hrest with ⟨g, k, hfinal⟩ | ⟨_, _, _, -, hdone, -⟩
      · have hstage : c.stage = .finalizing := (finalizeOrder_at hfinal).2.1
        cases c <;> simp_all [Call.stage, Call.presented]
      · exact absurd hdone issues_done

theorem keeps_outcome (s : TlsAlpn01Solver) (order : Nat → Pass) : CleanupGuard.Keeps Call.effect Call.presented id
    .cleanup s.cleanupDomain (s.outcome order) where
  guard t g c k h := by
    have hguard := (outcome_at h).2.2.1 g rfl
    rwa [presents_eq] at hguard
  placed t a g h := by
    have hguard := (outcome_at h).2
    rwa [OutcomeAt, presents_eq] at hguard
  adds c k := by cases c <;> simp [Call.effect, Call.presented]
  body_keeps t c k h := by
    obtain ⟨g, k', hat⟩ := h
    have hstage : c.stage ≠ .cleaning := (outcome_at hat).2.1
    cases c <;> simp_all [Call.stage, Call.effect]
  undoes domain := rfl
  reports domain := by
    refine ⟨_, cleanupDomain_reports s domain, ?_⟩
    rintro c ⟨e, rfl⟩
    rfl

theorem tidy_solve (x : Solve) : Tidy Call.effect (CleanupGuard.drop true) x.prog x.domains :=
  (keeps_outcome x.solver x.order).tidy fun _ _ hc domain hdomain => outcome_issues hc domain hdomain

end TlsAlpn01Solver

variable {runtime : ι → Bool} {solves : ι → Solve} {served : Set Str} {w : History ι Call Reply} {cfg : System ι}

/-- Two orders, each with one pending challenge. -/
def sampleSolve (i : Bool) : Solve :=
  ⟨⟨false⟩, fun _ => [.ok ⟨.pending, .dns (if i then "a.org" else "c.org").toList,
    [⟨.tlsAlpn01, "u".toList, [], List.replicate 32 0⟩]⟩]⟩

/-- The calls of a solve up to `set_ready`. -/
abbrev sampleReady (domain : String) : Trace := [⟨.nextAuthorization, ()⟩, ⟨.nextAuthorization, ()⟩,
  ⟨.selfSign domain.toList (List.replicate 32 0), .ok ⟨[], []⟩⟩, ⟨.present domain.toList ⟨[], []⟩, .ok ()⟩,
  ⟨.nextAuthorization, ()⟩]

/-- From `set_ready` to the end. -/
abbrev sampleRest (domain : String) : Trace := [⟨.setReady "u".toList, .ok ()⟩, ⟨.pollReady, .ok .ready⟩, ⟨.finalize, .ok []⟩,
  ⟨.pollCertificate, .ok []⟩, ⟨.cleanup domain.toList, .ok ()⟩]

theorem sampleSolve_at :
    (sampleSolve false).prog.At (sampleReady "c.org" ++ sampleRest "c.org") (.done (.ok ([], []))) :=
  ⟨(), rfl, (), rfl, .ok ⟨[], []⟩, rfl, .ok (), rfl, (), rfl, .ok (), rfl, .ok .ready, rfl, .ok [], rfl, .ok [], rfl,
    .ok (), rfl, rfl⟩

end TlsAlpn

end Cheti
