import Cheti.Base.Wp
/-!
# Tasks that share a store

At each moment one of any number of tasks makes its next call, or is dropped where it is suspended, or something
else happens to the store: a clock goes on, a server does its work. What all this does to the store is said by a
`World`. A run is the list of what happened (`Label`).

What is known of one task is known of its own calls: `Steps.at` gives back the task alone, and `record` is the
environment in which a specification of it speaks about the calls it has made so far.
-/

namespace Fut.Tasks

variable {ι G C O : Type} {R : C → Type} {α S : Type}

/-! ## The machine -/

/-- What happens to the store. -/
structure World (ι G C : Type) (R : C → Type) (S O : Type) where
  call : ι → Env C R S
  /-- A task is dropped, with what it holds, while it waits for a call. -/
  drop : ι → Option G → C → S → S → Prop
  other : O → S → S → Prop

/-- A task that was dropped has no program. -/
structure Config (ι G C : Type) (R : C → Type) (α S : Type) where
  store : S
  prog : ι → Option (Fut G C R α)

/-- All tasks are about to start. -/
def start (p : ι → Fut G C R α) (s₀ : S) : Config ι G C R α S := ⟨s₀, fun i => some (p i)⟩

inductive Label (ι C : Type) (R : C → Type) (O : Type) where
  | call (i : ι) (e : Ev C R)
  /-- Dropped while it waited for `c`. -/
  | drop (i : ι) (c : C)
  | other (o : O)

section Machine

variable [DecidableEq ι] (W : World ι G C R S O)

inductive Step : Config ι G C R α S → Label ι C R O → Config ι G C R α S → Prop where
  | call {cfg : Config ι G C R α S} {i : ι} {g : Option G} {c : C} {k : R c → Fut G C R α} {r : R c} {s' : S}
      (hp : cfg.prog i = some (.await g c k)) (hr : W.call i c r cfg.store s') :
      Step cfg (.call i ⟨c, r⟩) ⟨s', Function.update cfg.prog i (some (k r))⟩
  | drop {cfg : Config ι G C R α S} {i : ι} {g : Option G} {c : C} {k : R c → Fut G C R α} {s' : S}
      (hp : cfg.prog i = some (.await g c k)) (hs : W.drop i g c cfg.store s') :
      Step cfg (.drop i c) ⟨s', Function.update cfg.prog i none⟩
  | other {cfg : Config ι G C R α S} {o : O} {s' : S} (hs : W.other o cfg.store s') : Step cfg (.other o) ⟨s', cfg.prog⟩

inductive Steps (init : Config ι G C R α S) : List (Label ι C R O) → Config ι G C R α S → Prop where
  | nil : Steps init [] init
  | snoc {w : List (Label ι C R O)} {cfg cfg' : Config ι G C R α S} {l : Label ι C R O}
      (h : Steps init w cfg) (hs : Step W cfg l cfg') : Steps init (w ++ [l]) cfg'

end Machine

variable [DecidableEq ι] {W : World ι G C R S O} {init cfg : Config ι G C R α S} {w : List (Label ι C R O)}

/-- Whatever has happened was a step. -/
theorem Steps.split {w₁ w₂ : List (Label ι C R O)} {l : Label ι C R O} (h : Steps W init (w₁ ++ l :: w₂) cfg) :
    ∃ cfg₁ cfg₂, Steps W init w₁ cfg₁ ∧ Step W cfg₁ l cfg₂ := by
  induction w₂ using List.reverseRecOn generalizing cfg with
  | nil =>
    generalize hw : w₁ ++ [l] = w at h
    cases h with
    | nil => simp at hw
    | snoc h hs =>
      obtain ⟨rfl, heq⟩ := List.append_inj' hw rfl
      obtain rfl := List.singleton_inj.1 heq
      exact ⟨_, _, h, hs⟩
  | append_singleton w₂ l' ih =>
    generalize hw : w₁ ++ l :: (w₂ ++ [l']) = w at h
    cases h with
    | nil => simp at hw
    | snoc h hs =>
      rw [← List.cons_append, ← List.append_assoc] at hw
      obtain ⟨rfl, -⟩ := List.append_inj' hw rfl
      exact ih h

/-- A task may go on for a while before anything else happens. -/
theorem Steps.run (h : Steps W init w cfg) {i : ι} {p q : Fut G C R α} {t : List (Ev C R)} {s' : S}
    (hp : cfg.prog i = some p) (hat : p.At t q) (hc : Chain (W.call i) t cfg.store s') :
    Steps W init (w ++ t.map (.call i)) ⟨s', Function.update cfg.prog i (some q)⟩ := by
  induction t generalizing w cfg p with
  | nil =>
    obtain rfl : cfg.store = s' := hc
    obtain rfl := at_nil.1 hat
    rw [← hp, Function.update_eq_self]
    simpa using h
  | cons e t ih =>
    obtain ⟨m, he, hrest⟩ := hc
    cases p with
    | done b => exact hat.elim
    | await g c k =>
      obtain ⟨r, rfl, hk⟩ := hat
      have hstep : Steps W init (w ++ [.call i ⟨c, r⟩]) ⟨m, Function.update cfg.prog i (some (k r))⟩ := .snoc h (.call hp he)
      simpa using ih hstep (Function.update_self ..) hk hrest

/-- **Refinement.** Each step does to the store what the world above does to its abstraction. -/
theorem Steps.refines {S' : Type} (W' : World ι G C R S' O) (abs : S → S') (Valid : S → Prop)
    (hcall : ∀ i c r s s', Valid s → W.call i c r s s' → Valid s' ∧ W'.call i c r (abs s) (abs s'))
    (hdrop : ∀ i g c s s', Valid s → W.drop i g c s s' → Valid s' ∧ W'.drop i g c (abs s) (abs s'))
    (hother : ∀ o s s', Valid s → W.other o s s' → Valid s' ∧ W'.other o (abs s) (abs s')) (hs₀ : Valid init.store)
    (h : Steps W init w cfg) : Valid cfg.store ∧ Steps W' ⟨abs init.store, init.prog⟩ w ⟨abs cfg.store, cfg.prog⟩ := by
  induction h with
  | nil => exact ⟨hs₀, .nil⟩
  | snoc h hs ih =>
    obtain ⟨hvalid, hsteps⟩ := ih
    cases hs with
    | call hp hr =>
      obtain ⟨hvalid', hr'⟩ := hcall _ _ _ _ _ hvalid hr
      exact ⟨hvalid', .snoc hsteps (.call hp hr')⟩
    | drop hp hs =>
      obtain ⟨hvalid', hs'⟩ := hdrop _ _ _ _ _ hvalid hs
      exact ⟨hvalid', .snoc hsteps (.drop hp hs')⟩
    | other hs =>
      obtain ⟨hvalid', hs'⟩ := hother _ _ _ hvalid hs
      exact ⟨hvalid', .snoc hsteps (.other hs')⟩

/-! ## One task -/

/-- The calls of one task. -/
def calls (i : ι) : List (Label ι C R O) → List (Ev C R)
  | [] => []
  | .call j e :: w => if j = i then e :: calls i w else calls i w
  | _ :: w => calls i w

theorem calls_append (i : ι) (w₁ w₂ : List (Label ι C R O)) : calls i (w₁ ++ w₂) = calls i w₁ ++ calls i w₂ := by
  induction w₁ with
  | nil => rfl
  | cons l w₁ ih =>
    cases l with
    | call j e => by_cases hj : j = i <;> simp [calls, hj, ih]
    | drop j c => exact ih
    | other o => exact ih

theorem calls_map_call (i j : ι) (u : List (Ev C R)) :
    calls j (u.map (.call i) : List (Label ι C R O)) = if j = i then u else [] := by
  induction u with
  | nil => simp [calls]
  | cons e u ih =>
    rw [List.map_cons, calls, ih]
    by_cases hj : j = i
    · simp [hj]
    · simp [hj, Ne.symm hj]

/-- The calls of a task happened in that order. -/
theorem calls_sublist (i : ι) (w : List (Label ι C R O)) : ((calls i w).map (Label.call i)).Sublist w := by
  induction w with
  | nil => exact .slnil
  | cons l w ih =>
    cases l with
    | call j e =>
      rw [calls]
      split
      · rename_i hj
        rw [List.map_cons, hj]
        exact ih.cons_cons _
      · exact ih.cons _
    | drop j c => exact ih.cons _
    | other o => exact ih.cons _

theorem mem_of_mem_calls {i : ι} {e : Ev C R} (h : e ∈ calls i w) : Label.call i e ∈ w :=
  (calls_sublist i w).subset (List.mem_map_of_mem h)

theorem mem_calls {i : ι} {e : Ev C R} (h : Label.call i e ∈ w) : e ∈ calls i w := by
  obtain ⟨w₁, w₂, rfl⟩ := List.append_of_mem h
  rw [calls_append, calls, if_pos rfl]
  simp

variable (W) in
/-- Where a task is: it has made its calls, and was dropped there if it has no program. -/
def Reached (i : ι) (p : Fut G C R α) (t : List (Ev C R)) : Option (Fut G C R α) → Prop
  | some q => p.At t q
  | none => ∃ g c k s s', p.At t (.await g c k) ∧ W.drop i g c s s'

theorem Steps.at (h : Steps W init w cfg) {i : ι} {p : Fut G C R α} (hp : init.prog i = some p) :
    Reached W i p (calls i w) (cfg.prog i) := by
  induction h with
  | nil =>
    rw [hp]
    exact at_nil.2 rfl
  | @snoc w cfg cfg' l h hs ih =>
    rw [calls_append]
    cases hs with
    | @call j g c k r s' hq hr =>
      by_cases hj : j = i
      · subst hj
        rw [hq] at ih
        simp only [Function.update_self, calls, if_pos]
        exact At.snoc ih r
      · simp only [Function.update_of_ne (Ne.symm hj), calls, if_neg hj, List.append_nil]
        exact ih
    | @drop j g c k s' hq hs =>
      by_cases hj : j = i
      · subst hj
        rw [hq] at ih
        simp only [Function.update_self, calls, List.append_nil]
        exact ⟨g, c, k, _, _, ih, hs⟩
      · simp only [Function.update_of_ne (Ne.symm hj), calls, List.append_nil]
        exact ih
    | other hs =>
      simp only [calls, List.append_nil]
      exact ih

/-- A task that was not dropped stands behind its calls. -/
theorem Steps.at_some (h : Steps W init w cfg) {i : ι} {p q : Fut G C R α} (hp : init.prog i = some p)
    (hq : cfg.prog i = some q) : p.At (calls i w) q := by
  have hat := h.at hp
  rwa [hq] at hat

/-- A call that was made was the next one of its task. -/
theorem Steps.issues {w₁ w₂ : List (Label ι C R O)} {i : ι} {e : Ev C R}
    (h : Steps W init (w₁ ++ .call i e :: w₂) cfg) {p : Fut G C R α} (hp : init.prog i = some p) :
    p.Issues (calls i w₁) e.call := by
  obtain ⟨cfg₁, cfg₂, h₁, hs⟩ := h.split
  cases hs with
  | call hq hr => exact ⟨_, _, h₁.at_some hp hq⟩

/-! ## Specifications over the calls made -/

/-- The environment that only remembers. -/
def record : Env C R (List (Ev C R)) := fun c r t t' => t' = t ++ [⟨c, r⟩]

theorem chain_record (t u : List (Ev C R)) : Chain record u t (t ++ u) := by
  induction u generalizing t with
  | nil => exact (List.append_nil t).symm
  | cons e u ih =>
    refine ⟨t ++ [e], rfl, ?_⟩
    have h := ih (t ++ [e])
    rwa [List.append_assoc] at h

variable {ok : C → List (Ev C R) → Prop} {Q : α → List (Ev C R) → Prop} {p : Fut G C R α}

theorem wp_record_await {g : Option G} {c : C} {k : R c → Fut G C R α} {t : List (Ev C R)} (hc : ok c t)
    (hk : ∀ r, wp ok record (k r) Q (t ++ [⟨c, r⟩])) : wp ok record (.await g c k) Q t := by
  refine ⟨hc, fun r t' ht => ?_⟩
  unfold record at ht
  rw [ht]
  exact hk r

/-- A call is allowed by the calls made before it. -/
theorem wp_issues (h : wp ok record p Q []) {t : List (Ev C R)} {c : C} (hi : p.Issues t c) : ok c t := by
  obtain ⟨g, k, hat⟩ := hi
  exact (h.at hat (chain_record [] t)).1

theorem wp_runs (h : wp ok record p Q []) {t : List (Ev C R)} {a : α} (hr : p.Runs t a) : Q a t :=
  h.of_runs hr (chain_record [] t)

end Fut.Tasks
