import Cheti.Base.Wp
/-!
# Optimistic updates

Any number of tasks share a store and no lock. A task reads a cell of the store, and asks for an update
that is made only if the cell still holds what it has read. If no task asks for an update in any other way
(`Updates`), then whatever the interleaving, the cell holds the result of the updates that were made, in the
order in which they were made (`Steps.inv`).
-/

namespace Fut.Optimistic

variable {ι G C : Type} {R : C → Type} {α S V W : Type}

/-! ## The machine -/

structure Config (ι G C : Type) (R : C → Type) (α S : Type) where
  store : S
  prog : ι → Fut G C R α

section Machine

variable [DecidableEq ι] (H : Env C R S)

/-- The task `i` makes its next call. -/
inductive Step : Config ι G C R α S → ι → Ev C R → Config ι G C R α S → Prop where
  | call {cfg : Config ι G C R α S} {i : ι} {g : Option G} {c : C} {k : R c → Fut G C R α} {r : R c} {s' : S}
      (hp : cfg.prog i = .await g c k) (hr : H c r cfg.store s') :
      Step cfg i ⟨c, r⟩ ⟨s', Function.update cfg.prog i (k r)⟩

/-- An interleaving: the calls of all tasks, each with the task that made it, in global order. -/
inductive Steps (init : Config ι G C R α S) : List (ι × Ev C R) → Config ι G C R α S → Prop where
  | nil : Steps init [] init
  | snoc {w : List (ι × Ev C R)} {cfg cfg' : Config ι G C R α S} {i : ι} {e : Ev C R}
      (h : Steps init w cfg) (hs : Step H cfg i e cfg') : Steps init (w ++ [(i, e)]) cfg'

variable {H}

/-- A task may run to its end before the others go on. -/
theorem Steps.runs {init cfg : Config ι G C R α S} {w : List (ι × Ev C R)} (h : Steps H init w cfg) {i : ι} {t : List (Ev C R)}
    {a : α} {s' : S} (hrun : (cfg.prog i).Runs t a) (hchain : Chain H t cfg.store s') :
    Steps H init (w ++ t.map fun e => (i, e)) ⟨s', Function.update cfg.prog i (.done a)⟩ := by
  induction t generalizing w cfg with
  | nil =>
    obtain rfl : cfg.store = s' := hchain
    have hdone : cfg.prog i = .done a := at_nil.1 hrun
    rw [← hdone, Function.update_eq_self]
    simpa using h
  | cons e t ih =>
    obtain ⟨m, he, hrest⟩ := hchain
    cases hp : cfg.prog i with
    | done b =>
      rw [hp] at hrun
      exact hrun.elim
    | await g c k =>
      rw [hp] at hrun
      obtain ⟨r, rfl, hk⟩ := hrun
      have hk : (k r).Runs t a := hk
      have hstep : Steps H init (w ++ [(i, ⟨c, r⟩)]) ⟨m, Function.update cfg.prog i (k r)⟩ := .snoc h (.call hp he)
      have hnext := ih hstep (by simpa using hk) hrest
      simpa using hnext

end Machine

/-! ## The cell -/

/-- How calls and their answers are about the cell. -/
structure Cell (C : Type) (R : C → Type) (V : Type) where
  /-- What the cell holds, as the answer to a read has it. -/
  reports : Ev C R → Option V
  /-- What the cell must hold for the update to be made. -/
  expects : C → Option V
  /-- The update was made. -/
  commits : Ev C R → Bool

/-- The tasks whose updates were made, in that order. -/
def Cell.order (cell : Cell C R V) (w : List (ι × Ev C R)) : List ι :=
  w.filterMap fun x => if cell.commits x.2 then some x.1 else none

theorem Cell.order_snoc (cell : Cell C R V) (w : List (ι × Ev C R)) (i : ι) (e : Ev C R) :
    cell.order (w ++ [(i, e)]) = cell.order w ++ if cell.commits e then [i] else [] := by
  unfold order
  rw [List.filterMap_append]
  split <;> simp [*]

/-- What a task has done with the cell. -/
inductive Stage (V : Type) where
  | fresh
  /-- It was last told that the cell holds `x`. -/
  | saw (x : V)
  | committed

def Cell.next (cell : Cell C R V) (stage : Stage V) (e : Ev C R) : Stage V :=
  match stage with
  | .committed => .committed
  | stage => if cell.commits e then .committed else (cell.reports e).elim stage .saw

/-- An event that is not about the cell. -/
theorem Cell.next_idle {cell : Cell C R V} {e : Ev C R} (hc : cell.commits e = false) (hr : cell.reports e = none)
    (stage : Stage V) : cell.next stage e = stage := by
  cases stage <;> simp [next, hc, hr]

/-- An answer that reports what a task already knows or need not know any more. -/
theorem Cell.next_committed {cell : Cell C R V} {e : Ev C R} {stage : Stage V} (hc : cell.commits e = false)
    (h : cell.next stage e = .committed) : stage = .committed := by
  cases stage with
  | committed => rfl
  | _ => cases hr : cell.reports e <;> simp [next, hc, hr] at h

/-- A task that was told something about the cell was told it just now or before. -/
theorem Cell.next_saw {cell : Cell C R V} {e : Ev C R} {stage : Stage V} {x : V} (h : cell.next stage e = .saw x) :
    cell.reports e = some x ∨ stage = .saw x := by
  cases stage with
  | committed => cases h
  | fresh =>
    cases hc : cell.commits e <;> cases hr : cell.reports e <;> simp [next, hc, hr] at h ⊢
    exact h
  | saw y =>
    cases hc : cell.commits e <;> cases hr : cell.reports e <;> simp [next, hc, hr] at h ⊢
    · exact h
    · exact Or.inl h

/-! ## Tasks that update optimistically -/

section Tasks

variable (cell : Cell C R V) (H : Env C R S) (content : S → V) (rest : S → W) (Good : V → Prop) (allowed : C → Prop)

/-- The store answers reads with what the cell holds, where that is good, and compares before it updates. The
calls that are allowed touch nothing else. -/
structure Cell.Lawful : Prop where
  reports : ∀ c r s s' x, allowed c → H c r s s' → Good (content s) → cell.reports ⟨c, r⟩ = some x → x = content s
  expects : ∀ c r s s', allowed c → H c r s s' → cell.commits ⟨c, r⟩ = true → cell.expects c = some (content s)
  keeps : ∀ c r s s', allowed c → H c r s s' → cell.commits ⟨c, r⟩ = false → content s' = content s
  frame : ∀ c r s s', allowed c → H c r s s' → rest s' = rest s

/-- A call of a task in `stage` that is to update the cell as `T` says: an update expects what the task was
told last, and is then one by `T`. -/
def Cell.Ok (T : V → V → Prop) (c : C) (stage : Stage V) : Prop :=
  allowed c ∧ ∀ x, cell.expects c = some x → stage = .saw x ∧
    ∀ r s s', H c r s s' → content s = x → Good x → cell.commits ⟨c, r⟩ = true → T x (content s')

/-- The stages of a task, for any answers the store may give. -/
def Cell.stages : Env C R (Stage V) := fun c r stage stage' => (∃ s s', H c r s s') ∧ stage' = cell.next stage ⟨c, r⟩

/-- Standing in `stage`, the task `p` updates the cell only optimistically and as `T` says, and ends in `Φ`. -/
def Cell.Updates (T : V → V → Prop) (Φ : α → Stage V → Prop) (stage : Stage V) (p : Fut G C R α) : Prop :=
  wp (cell.Ok H content Good allowed T) (cell.stages H) p Φ stage

end Tasks

/-- The updates of the tasks, one after the other. -/
inductive Applied (T : ι → V → V → Prop) : List ι → V → V → Prop where
  | nil (x : V) : Applied T [] x x
  | snoc {o : List ι} {i : ι} {x y z : V} (h : Applied T o x y) (hi : T i y z) : Applied T (o ++ [i]) x z

/-! ## The invariant -/

variable [DecidableEq ι] {cell : Cell C R V} {H : Env C R S} {content : S → V} {rest : S → W} {Good : V → Prop}
  {allowed : C → Prop} {T : ι → V → V → Prop} {Φ : ι → α → Stage V → Prop}

structure Inv (cell : Cell C R V) (H : Env C R S) (content : S → V) (rest : S → W) (Good : V → Prop)
    (allowed : C → Prop) (T : ι → V → V → Prop) (Φ : ι → α → Stage V → Prop) (init : Config ι G C R α S)
    (w : List (ι × Ev C R)) (cfg : Config ι G C R α S) (stage : ι → Stage V) : Prop where
  updates : ∀ i, cell.Updates H content Good allowed (T i) (Φ i) (stage i) (cfg.prog i)
  committed : ∀ i, stage i = .committed ↔ i ∈ cell.order w
  /-- What a task was told was so at that moment. -/
  saw : ∀ i x, stage i = .saw x → ∃ w₁ e w₂ cfg₁, w = w₁ ++ (i, e) :: w₂ ∧ Steps H init w₁ cfg₁ ∧
    cell.reports e = some x ∧ content cfg₁.store = x
  nodup : (cell.order w).Nodup
  good : Good (content cfg.store)
  applied : Applied T (cell.order w) (content init.store) (content cfg.store)
  frame : rest cfg.store = rest init.store

theorem Inv.init {p : ι → Fut G C R α} {s₀ : S} (hgood : Good (content s₀))
    (hp : ∀ i, cell.Updates H content Good allowed (T i) (Φ i) .fresh (p i)) :
    Inv cell H content rest Good allowed T Φ ⟨s₀, p⟩ [] ⟨s₀, p⟩ fun _ => .fresh := by
  refine ⟨hp, fun i => ?_, fun i x h => ?_, List.nodup_nil, hgood, .nil _, rfl⟩
  · simp [Cell.order]
  · cases h

section Step

variable {init cfg : Config ι G C R α S} {w : List (ι × Ev C R)} {stage : ι → Stage V} {i : ι} {g : Option G} {c : C}
  {k : R c → Fut G C R α} {r : R c} {s' : S}

theorem Inv.updates_step (hinv : Inv cell H content rest Good allowed T Φ init w cfg stage)
    (hp : cfg.prog i = .await g c k) (hr : H c r cfg.store s') (j : ι) :
    cell.Updates H content Good allowed (T j) (Φ j) (Function.update stage i (cell.next (stage i) ⟨c, r⟩) j)
      (Function.update cfg.prog i (k r) j) := by
  by_cases hj : j = i
  · subst hj
    have hnow := hinv.updates j
    rw [hp] at hnow
    rw [Function.update_self, Function.update_self]
    exact hnow.2 r _ ⟨⟨_, _, hr⟩, rfl⟩
  · simpa [hj] using hinv.updates j

theorem Inv.saw_step (hcell : cell.Lawful H content rest Good allowed)
    (hinv : Inv cell H content rest Good allowed T Φ init w cfg stage) (hw : Steps H init w cfg)
    (hallowed : allowed c) (hr : H c r cfg.store s') (j : ι) (x : V)
    (hj : Function.update stage i (cell.next (stage i) ⟨c, r⟩) j = .saw x) :
    ∃ w₁ e w₂ cfg₁, w ++ [(i, ⟨c, r⟩)] = w₁ ++ (j, e) :: w₂ ∧ Steps H init w₁ cfg₁ ∧
      cell.reports e = some x ∧ content cfg₁.store = x := by
  suffices (j = i ∧ cell.reports ⟨c, r⟩ = some x) ∨ stage j = .saw x by
    rcases this with ⟨rfl, hrep⟩ | hsaw
    · exact ⟨w, ⟨c, r⟩, [], cfg, rfl, hw, hrep, (hcell.reports c r _ _ x hallowed hr hinv.good hrep).symm⟩
    · obtain ⟨w₁, e, w₂, cfg₁, rfl, h⟩ := hinv.saw j x hsaw
      exact ⟨w₁, e, w₂ ++ [(i, ⟨c, r⟩)], cfg₁, by simp, h⟩
  by_cases hji : j = i
  · subst hji
    rw [Function.update_self] at hj
    exact (Cell.next_saw hj).imp_left fun h => ⟨rfl, h⟩
  · rw [Function.update_of_ne hji] at hj
    exact Or.inr hj

/-- The update of `i` is made: nothing has changed the cell since `i` was told what it holds. -/
theorem Inv.step_commit (hT : ∀ i x y, Good x → T i x y → Good y) (hcell : cell.Lawful H content rest Good allowed)
    (hinv : Inv cell H content rest Good allowed T Φ init w cfg stage) (hw : Steps H init w cfg)
    (hp : cfg.prog i = .await g c k) (hr : H c r cfg.store s') (hc : cell.commits ⟨c, r⟩ = true) :
    Inv cell H content rest Good allowed T Φ init (w ++ [(i, ⟨c, r⟩)]) ⟨s', Function.update cfg.prog i (k r)⟩
      (Function.update stage i (cell.next (stage i) ⟨c, r⟩)) := by
  have horder : cell.order (w ++ [(i, ⟨c, r⟩)]) = cell.order w ++ [i] := by rw [Cell.order_snoc, if_pos hc]
  have hnow := hinv.updates i
  rw [hp] at hnow
  obtain ⟨hallowed, hexpects⟩ := hnow.1
  obtain ⟨hsaw, hupdate⟩ := hexpects _ (hcell.expects c r _ _ hallowed hr hc)
  have hTi : T i (content cfg.store) (content s') := hupdate r _ _ hr rfl hinv.good hc
  have hnew : i ∉ cell.order w := by
    intro hi
    rw [← hinv.committed i, hsaw] at hi
    cases hi
  have hnext : cell.next (stage i) ⟨c, r⟩ = .committed := by simp [hsaw, Cell.next, hc]
  refine ⟨hinv.updates_step hp hr, fun j => ?_, hinv.saw_step hcell hw hallowed hr, ?_, hT i _ _ hinv.good hTi, ?_,
    (hcell.frame c r _ _ hallowed hr).trans hinv.frame⟩
  · rw [horder]
    by_cases hj : j = i
    · subst hj
      simp [hnext]
    · simpa [hj] using hinv.committed j
  · rw [horder]
    refine List.nodup_append.2 ⟨hinv.nodup, by simp, ?_⟩
    simpa using fun a ha (e : a = i) => hnew (e ▸ ha)
  · rw [horder]
    exact .snoc hinv.applied hTi

/-- Any other call leaves the cell alone. -/
theorem Inv.step_keep (hcell : cell.Lawful H content rest Good allowed)
    (hinv : Inv cell H content rest Good allowed T Φ init w cfg stage) (hw : Steps H init w cfg)
    (hp : cfg.prog i = .await g c k) (hr : H c r cfg.store s') (hc : cell.commits ⟨c, r⟩ = false) :
    Inv cell H content rest Good allowed T Φ init (w ++ [(i, ⟨c, r⟩)]) ⟨s', Function.update cfg.prog i (k r)⟩
      (Function.update stage i (cell.next (stage i) ⟨c, r⟩)) := by
  have horder : cell.order (w ++ [(i, ⟨c, r⟩)]) = cell.order w := by simp [Cell.order_snoc, hc]
  have hnow := hinv.updates i
  rw [hp] at hnow
  have hallowed := hnow.1.1
  have hsame := hcell.keeps c r _ _ hallowed hr hc
  refine ⟨hinv.updates_step hp hr, fun j => ?_, hinv.saw_step hcell hw hallowed hr, horder ▸ hinv.nodup, ?_, ?_,
    (hcell.frame c r _ _ hallowed hr).trans hinv.frame⟩
  · rw [horder, ← hinv.committed j]
    by_cases hj : j = i
    · subst hj
      rw [Function.update_self]
      exact ⟨Cell.next_committed hc, fun h => by rw [h]; rfl⟩
    · rw [Function.update_of_ne hj]
  · rw [hsame]
    exact hinv.good
  · rw [horder, hsame]
    exact hinv.applied

end Step

/-- **Optimistic updates are linear.** In any interleaving, no task's update is made twice, and the cell holds
the result of those that were made, in their order. -/
theorem Steps.inv (hT : ∀ i x y, Good x → T i x y → Good y) (hcell : cell.Lawful H content rest Good allowed)
    {p : ι → Fut G C R α} {s₀ : S} (hgood : Good (content s₀))
    (hp : ∀ i, cell.Updates H content Good allowed (T i) (Φ i) .fresh (p i)) {w : List (ι × Ev C R)}
    {cfg : Config ι G C R α S} (h : Steps H ⟨s₀, p⟩ w cfg) :
    ∃ stage, Inv cell H content rest Good allowed T Φ ⟨s₀, p⟩ w cfg stage := by
  induction h with
  | nil => exact ⟨_, Inv.init hgood hp⟩
  | snoc hw hs ih =>
    obtain ⟨stage, hinv⟩ := ih
    cases hs with
    | @call g c k r s' hp hr =>
      cases hc : cell.commits ⟨c, r⟩ with
      | true => exact ⟨_, hinv.step_commit hT hcell hw hp hr hc⟩
      | false => exact ⟨_, hinv.step_keep hcell hw hp hr hc⟩

end Fut.Optimistic
