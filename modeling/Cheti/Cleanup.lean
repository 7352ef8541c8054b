import Cheti.Base.Fut
import Cheti.Error
/-!
# `CleanupGuard` (src/cleanup.rs)

| here | there |
| --- | --- |
| `CleanupGuard`     | the pending items and the async cleanup function (cleanup.rs:22-25) |
| `run`              | `CleanupGuard::run` (cleanup.rs:50-55): the head leaves the list only after its cleanup |
| `drop`             | `Drop::drop` (cleanup.rs:58-74): the task spawned, if any |

`run` is a loop over the head of `pending`; each of its awaits is marked with the guard as it stands,
because that is what `Drop` takes over. `runFrom_stops` says what it finds there: the item in flight and
everything after it.
-/

namespace Cheti

variable {C : Type} {R : C → Type} {T : Type}

structure CleanupGuard (C : Type) (R : C → Type) (T : Type) where
  pending : List T
  cleanup : T → Fut Unit C R Unit

namespace CleanupGuard

def new (cleanup : T → Fut Unit C R Unit) : CleanupGuard C R T := ⟨[], cleanup⟩

def push (g : CleanupGuard C R T) (item : T) : CleanupGuard C R T :=
  { g with pending := g.pending ++ [item] }

/-- `while let Some(item) = pending.first().cloned() { cleanup(item).await; pending.remove(0); }` -/
def runFrom (cleanup : T → Fut Unit C R Unit) : List T → Fut (CleanupGuard C R T) C R Unit
  | [] => .done ()
  | item :: rest =>
    ((cleanup item).within ⟨item :: rest, cleanup⟩).bind fun _ => runFrom cleanup rest

def run (g : CleanupGuard C R T) : Fut (CleanupGuard C R T) C R Unit := runFrom g.cleanup g.pending

/-- The body of the spawned task: `for item in pending { cleanup(item).await; }`. -/
def cleanAll (cleanup : T → Fut Unit C R Unit) : List T → Fut Unit C R Unit
  | [] => .done ()
  | item :: rest => (cleanup item).bind fun _ => cleanAll cleanup rest

/-- `Drop::drop`: nothing without pending items or without a Tokio runtime, else a task that cleans
up what is pending. -/
def drop (runtime : Bool) (g : CleanupGuard C R T) : Option (Fut Unit C R Unit) :=
  if g.pending.isEmpty then none
  else if runtime then some (cleanAll g.cleanup g.pending) else none

/-- The calls made after a drop with a live runtime that runs the spawned task to its end. -/
def DroppedRuns (g : CleanupGuard C R T) (t : List (Fut.Ev C R)) : Prop :=
  match g.drop true with
  | none => t = []
  | some task => task.Runs t ()

/-! ## What a closure does -/

/-- The closure awaits `c` only; afterwards it may make one call in `report`. -/
def Reports (c : C) (report : C → Prop) (p : Fut Unit C R Unit) : Prop :=
  ∃ k, p = .await (some ()) c k ∧
    ∀ r, k r = .done () ∨ ∃ c' k', report c' ∧ k r = .await none c' k' ∧ ∀ r', k' r' = .done ()

namespace Reports

variable {c c' : C} {report : C → Prop} {p : Fut Unit C R Unit} {t : List (Fut.Ev C R)}

theorem runs (h : Reports c report p) (hrun : p.Runs t ()) :
    ∃ r t', t = ⟨c, r⟩ :: t' ∧ ∀ e ∈ t', report e.call := by
  obtain ⟨k, rfl, hk⟩ := h
  obtain ⟨r, t', rfl, hrest⟩ := Fut.runs_await.1 hrun
  refine ⟨r, t', rfl, ?_⟩
  rcases hk r with hdone | ⟨c', k', hreport, hawait, hdone⟩
  · rw [hdone] at hrest
    obtain ⟨rfl, -⟩ := Fut.runs_done.1 hrest
    simp
  · rw [hawait] at hrest
    obtain ⟨r', t'', rfl, hend⟩ := Fut.runs_await.1 hrest
    rw [hdone] at hend
    obtain ⟨rfl, -⟩ := Fut.runs_done.1 hend
    simpa using hreport

theorem issues (h : Reports c report p) (hissues : p.Issues t c') : c' = c ∨ report c' := by
  obtain ⟨k, rfl, hk⟩ := h
  rcases Fut.issues_await.1 hissues with ⟨-, rfl⟩ | ⟨r, t', rfl, hrest⟩
  · exact Or.inl rfl
  rcases hk r with hdone | ⟨c'', k', hreport, hawait, hdone⟩
  · rw [hdone] at hrest
    exact absurd hrest Fut.issues_done
  · rw [hawait] at hrest
    rcases Fut.issues_await.1 hrest with ⟨-, rfl⟩ | ⟨r', t'', rfl, hend⟩
    · exact Or.inr hreport
    · rw [hdone] at hend
      exact absurd hend Fut.issues_done

theorem stops (h : Reports c report p) (hstops : p.Stops t () c') : t = [] ∧ c' = c := by
  obtain ⟨k, rfl, hk⟩ := h
  rcases Fut.stops_await.1 hstops with ⟨rfl, -, rfl⟩ | ⟨r, t', rfl, hrest⟩
  · exact ⟨rfl, rfl⟩
  rcases hk r with hdone | ⟨c'', k', -, hawait, hdone⟩
  · rw [hdone] at hrest
    exact absurd hrest Fut.stops_done
  · rw [hawait] at hrest
    rcases Fut.stops_await.1 hrest with ⟨-, hg, -⟩ | ⟨r', t'', rfl, hend⟩
    · cases hg
    · rw [hdone] at hend
      exact absurd hend Fut.stops_done

end Reports

/-! ## What a guard does -/

/-- `t` is one complete cleanup of each item, in order. -/
def Cleans (cleanup : T → Fut Unit C R Unit) : List T → List (Fut.Ev C R) → Prop
  | [], t => t = []
  | item :: rest, t => ∃ t₁ t₂, (cleanup item).Runs t₁ () ∧ Cleans cleanup rest t₂ ∧ t = t₁ ++ t₂

variable {cleanup : T → Fut Unit C R Unit}

theorem cleans_cons {item : T} {rest : List T} {t : List (Fut.Ev C R)} : Cleans cleanup (item :: rest) t ↔
    ∃ t₁ u t₂, (cleanup item).Runs t₁ u ∧ Cleans cleanup rest t₂ ∧ t = t₁ ++ t₂ := by
  constructor
  · rintro ⟨t₁, t₂, h⟩
    exact ⟨t₁, (), t₂, h⟩
  · rintro ⟨t₁, _, t₂, h⟩
    exact ⟨t₁, t₂, h⟩

theorem cleanAll_runs : ∀ {items : List T} {t : List (Fut.Ev C R)},
    (cleanAll cleanup items).Runs t () ↔ Cleans cleanup items t
  | [], t => by simp [cleanAll, Cleans]
  | item :: rest, t => by simp only [cleanAll, Fut.runs_bind, cleanAll_runs, cleans_cons]

/-- **A run that completes** cleans every pending item once, in order. -/
theorem runFrom_runs : ∀ {items : List T} {t : List (Fut.Ev C R)},
    (runFrom cleanup items).Runs t () ↔ Cleans cleanup items t
  | [], t => by simp [runFrom, Cleans]
  | item :: rest, t => by
    simp only [runFrom, Fut.runs_bind, Fut.runs_within, runFrom_runs, cleans_cons]

/-- Every call of a run is one of the cleanup of some pending item. -/
theorem runFrom_issues : ∀ {items : List T} {t : List (Fut.Ev C R)} {c : C},
    (runFrom cleanup items).Issues t c → ∃ item ∈ items, ∃ t', (cleanup item).Issues t' c
  | [], t, c, h => absurd h Fut.issues_done
  | item :: rest, t, c, h => by
    rcases Fut.issues_bind.1 h with h' | ⟨_, _, _, _, h', _⟩
    · exact ⟨item, List.mem_cons_self .., t, Fut.issues_within.1 h'⟩
    · obtain ⟨item', hmem, h''⟩ := runFrom_issues h'
      exact ⟨item', List.mem_cons_of_mem _ hmem, h''⟩

/-- **A run that is dropped** has cleaned a prefix of the items, is inside the cleanup of the next
one, and leaves that one and the rest in the guard. -/
theorem runFrom_stops : ∀ {items : List T} {t : List (Fut.Ev C R)} {g : CleanupGuard C R T} {c : C},
    (runFrom cleanup items).Stops t g c →
      ∃ cleaned item rest t₁ t₂, items = cleaned ++ item :: rest ∧ t = t₁ ++ t₂ ∧
        Cleans cleanup cleaned t₁ ∧ (cleanup item).Stops t₂ () c ∧ g = ⟨item :: rest, cleanup⟩
  | [], t, g, c, h => by simp [runFrom] at h
  | item :: rest, t, g, c, h => by
    simp only [runFrom, Fut.stops_bind, Fut.stops_within, Fut.runs_within] at h
    rcases h with ⟨rfl, ⟨⟩, h⟩ | ⟨t₁, ⟨⟩, t₂, h₁, h₂, rfl⟩
    · exact ⟨[], item, rest, [], t, rfl, rfl, rfl, h, rfl⟩
    · obtain ⟨cleaned, item', rest', u₁, u₂, rfl, rfl, hc, hs, rfl⟩ := runFrom_stops h₂
      exact ⟨item :: cleaned, item', rest', t₁ ++ u₁, u₂, rfl, by simp, ⟨t₁, u₁, h₁, hc, rfl⟩, hs, rfl⟩

/-- **A drop** cleans whatever was pending. -/
theorem droppedRuns_iff {g : CleanupGuard C R T} {t : List (Fut.Ev C R)} :
    g.DroppedRuns t ↔ Cleans g.cleanup g.pending t := by
  obtain ⟨pending, cleanup⟩ := g
  cases pending with
  | nil => simp [DroppedRuns, drop, Cleans]
  | cons item rest => simp [DroppedRuns, drop, cleanAll_runs]

/-! ## A body with a guard -/

section guarded

variable {α : Type} {body : Fut (CleanupGuard C R T) C R (α × CleanupGuard C R T)} {t : List (Fut.Ev C R)} {r : α}
  {g : CleanupGuard C R T} {c : C}

/-- What both solvers do: a body that fills a guard, then `run().await`, then the body's outcome. -/
def guarded (body : Fut (CleanupGuard C R T) C R (α × CleanupGuard C R T)) : Fut (CleanupGuard C R T) C R α :=
  body.bind fun a => a.2.run.bind fun _ => .done a.1

theorem guarded_runs : (guarded body).Runs t r ↔
    ∃ t₁ t₂ placed, t = t₁ ++ t₂ ∧ body.Runs t₁ (r, placed) ∧ Cleans placed.cleanup placed.pending t₂ := by
  simp only [guarded, Fut.runs_bind, Fut.runs_done, run]
  constructor
  · rintro ⟨t₁, ⟨r', placed⟩, _, h₁, ⟨t₂, ⟨⟩, _, h₂, ⟨rfl, rfl⟩, rfl⟩, rfl⟩
    exact ⟨t₁, t₂, placed, by simp, h₁, runFrom_runs.1 h₂⟩
  · rintro ⟨t₁, t₂, placed, rfl, h₁, h₂⟩
    exact ⟨t₁, _, t₂, h₁, ⟨t₂, (), [], runFrom_runs.2 h₂, ⟨rfl, rfl⟩, by simp⟩, rfl⟩

/-- Dropped, it is in its body, or inside the cleanup of one item, with a first part cleaned up. -/
theorem guarded_stops (h : (guarded body).Stops t g c) : body.Stops t g c ∨
    ∃ t₁ t₂ t₃ r placed cleaned item rest, t = t₁ ++ (t₂ ++ t₃) ∧ body.Runs t₁ (r, placed) ∧
      placed.pending = cleaned ++ item :: rest ∧ Cleans placed.cleanup cleaned t₂ ∧
      (placed.cleanup item).Stops t₃ () c ∧ g = ⟨item :: rest, placed.cleanup⟩ := by
  rcases Fut.stops_bind.1 h with h' | ⟨t₁, ⟨r, placed⟩, t₂, h₁, h₂, rfl⟩
  · exact Or.inl h'
  · rcases Fut.stops_bind.1 h₂ with h' | ⟨_, _, _, _, h', _⟩
    · obtain ⟨cleaned, item, rest, u₁, u₂, hitems, rfl, hcl, hstop, rfl⟩ := runFrom_stops h'
      exact Or.inr ⟨t₁, u₁, u₂, r, placed, cleaned, item, rest, rfl, h₁, hitems, hcl, hstop, rfl⟩
    · exact absurd h' Fut.stops_done

/-- Past the body only the guard makes calls. -/
theorem guarded_issues (h : (guarded body).Issues t c) : body.Issues t c ∨
    ∃ t₁ t₂ r placed, t = t₁ ++ t₂ ∧ body.Runs t₁ (r, placed) ∧
      ∃ item ∈ placed.pending, ∃ t', (placed.cleanup item).Issues t' c := by
  rcases Fut.issues_bind.1 h with h' | ⟨t₁, ⟨r, placed⟩, t₂, h₁, h₂, rfl⟩
  · exact Or.inl h'
  · rcases Fut.issues_bind.1 h₂ with h' | ⟨_, _, _, _, h', _⟩
    · exact Or.inr ⟨t₁, t₂, r, placed, rfl, h₁, runFrom_issues h'⟩
    · exact absurd h' Fut.issues_done

end guarded

end CleanupGuard
end Cheti
