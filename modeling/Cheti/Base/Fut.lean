import Mathlib
/-!
# Suspendable computations

An `async fn` runs from one `await` to the next. At an `await` it has issued a call, and either the
reply arrives and it goes on, or the whole computation is dropped there, which drops its local
variables. `Fut G C R α` is that tree: `C` are the calls, `R c` the replies to `c`, `α` the result,
and `G` is whatever local state a drop would act on. A synchronous call (a callback, a table behind a
blocking mutex) is an `await none`: it has a reply, but nothing can be dropped there.

`At p t q` says that `p`, having got the answered calls `t`, has become `q`. Three readings of it
carry the proofs, each with its rule for sequential composition (`bind`):

* `Runs p t a` — `p` makes exactly the calls of `t` and returns `a`;
* `Issues p t c` — after `t`, the next call of `p` is `c` (whether or not it is ever answered);
* `Stops p t g c` — after `t`, `p` is suspended on `c`, and a drop there finds `g`.
-/

/-- A computation that is finished, or has issued a call. -/
inductive Fut (G C : Type) (R : C → Type) (α : Type) : Type
  | done (a : α)
  | await (g : Option G) (c : C) (k : R c → Fut G C R α)

namespace Fut

variable {G G' C : Type} {R : C → Type} {α β γ : Type}

/-- A call that was answered. -/
structure Ev (C : Type) (R : C → Type) where
  call : C
  reply : R call

def bind : Fut G C R α → (α → Fut G C R β) → Fut G C R β
  | .done a, f => f a
  | .await g c k, f => .await g c fun r => (k r).bind f

/-- One call, its reply the result. -/
def call (g : Option G) (c : C) : Fut G C R (R c) := .await g c .done

/-- `p` awaited by a caller whose own local state is `g`: a drop inside `p` drops the caller too. -/
def within (g : G') : Fut G C R α → Fut G' C R α
  | .done a => .done a
  | .await none c k => .await none c fun r => (k r).within g
  | .await (some _) c k => .await (some g) c fun r => (k r).within g

instance : Monad (Fut G C R) where
  pure := .done
  bind := bind

@[simp] theorem pure_eq (a : α) : (pure a : Fut G C R α) = .done a := rfl

@[simp] theorem bind_eq (p : Fut G C R α) (f : α → Fut G C R β) : (p >>= f) = p.bind f := rfl

@[simp] theorem done_bind (a : α) (f : α → Fut G C R β) : (Fut.done a).bind f = f a := rfl

@[simp] theorem await_bind (g : Option G) (c : C) (k : R c → Fut G C R α) (f : α → Fut G C R β) :
    (Fut.await g c k).bind f = .await g c fun r => (k r).bind f := rfl

@[simp] theorem call_bind (g : Option G) (c : C) (f : R c → Fut G C R β) :
    (call g c).bind f = .await g c f := rfl

theorem bind_done (p : Fut G C R α) : p.bind .done = p := by
  induction p with
  | done a => rfl
  | await g c k ih => simp only [await_bind]; congr 1; funext r; exact ih r

theorem bind_assoc (p : Fut G C R α) (f : α → Fut G C R β) (q : β → Fut G C R γ) :
    (p.bind f).bind q = p.bind fun a => (f a).bind q := by
  induction p with
  | done a => rfl
  | await g c k ih => simp only [await_bind]; congr 1; funext r; exact ih r

instance : LawfulMonad (Fut G C R) :=
  LawfulMonad.mk' (Fut G C R) (fun p => bind_done p) (fun _ _ => rfl) bind_assoc

/-! ## Traces -/

/-- After the answered calls `t`, `p` has become `q`. -/
def At : Fut G C R α → List (Ev C R) → Fut G C R α → Prop
  | p, [], q => p = q
  | .await _ c k, e :: t, q => ∃ r, e = ⟨c, r⟩ ∧ (k r).At t q
  | .done _, _ :: _, _ => False

/-- `p` makes exactly the calls of `t` and returns `a`. -/
def Runs (p : Fut G C R α) (t : List (Ev C R)) (a : α) : Prop := p.At t (.done a)

/-- After `t`, the next call `p` makes is `c`. -/
def Issues (p : Fut G C R α) (t : List (Ev C R)) (c : C) : Prop := ∃ g k, p.At t (.await g c k)

/-- After `t`, `p` is suspended on `c`; dropping it there drops `g`. -/
def Stops (p : Fut G C R α) (t : List (Ev C R)) (g : G) (c : C) : Prop :=
  ∃ k, p.At t (.await (some g) c k)

theorem Stops.issues {p : Fut G C R α} {t : List (Ev C R)} {g : G} {c : C} (h : p.Stops t g c) :
    p.Issues t c := let ⟨k, hk⟩ := h; ⟨some g, k, hk⟩

@[simp] theorem at_nil {p q : Fut G C R α} : p.At [] q ↔ p = q := by cases p <;> rfl

theorem at_done {b : α} {t : List (Ev C R)} {q : Fut G C R α} :
    (Fut.done b).At t q ↔ t = [] ∧ .done b = q := by
  cases t <;> simp [At]

theorem at_await {g : Option G} {c : C} {k : R c → Fut G C R α} {t : List (Ev C R)} {q : Fut G C R α} :
    (Fut.await g c k).At t q ↔ (t = [] ∧ .await g c k = q) ∨ ∃ r t', t = ⟨c, r⟩ :: t' ∧ (k r).At t' q := by
  cases t with
  | nil => simp [At]
  | cons e t =>
    simp only [At, reduceCtorEq, false_and, false_or, List.cons.injEq]
    constructor
    · rintro ⟨r, rfl, h⟩; exact ⟨r, t, ⟨rfl, rfl⟩, h⟩
    · rintro ⟨r, t', ⟨rfl, rfl⟩, h⟩; exact ⟨r, rfl, h⟩

theorem At.snoc {p : Fut G C R α} {g : Option G} {c : C} {k : R c → Fut G C R α} {t : List (Ev C R)}
    (h : p.At t (.await g c k)) (r : R c) : p.At (t ++ [⟨c, r⟩]) (k r) := by
  induction t generalizing p with
  | nil =>
    obtain rfl := at_nil.1 h
    exact ⟨r, rfl, at_nil.2 rfl⟩
  | cons e t ih =>
    cases p with
    | done a => exact h.elim
    | await g' c' k' =>
      obtain ⟨r', he, h'⟩ := h
      exact ⟨r', he, ih h'⟩

theorem At.unique {p q q' : Fut G C R α} {t : List (Ev C R)} (h : p.At t q) (h' : p.At t q') : q = q' := by
  induction t generalizing p with
  | nil => exact (at_nil.1 h).symm.trans (at_nil.1 h')
  | cons e t ih =>
    cases p with
    | done a => exact h.elim
    | await g c k =>
      obtain ⟨r, rfl, h⟩ := h
      obtain ⟨r', he, h'⟩ := h'
      cases he
      exact ih h h'

theorem At.append {p q q' : Fut G C R α} {t t' : List (Ev C R)} (h : p.At t q) (h' : q.At t' q') : p.At (t ++ t') q' := by
  induction t generalizing p with
  | nil =>
    obtain rfl := at_nil.1 h
    exact h'
  | cons e t ih =>
    cases p with
    | done a => exact h.elim
    | await g c k =>
      obtain ⟨r, rfl, h⟩ := h
      exact ⟨r, rfl, ih h⟩

/-- A call that was answered was issued. -/
theorem At.issues_before {p q : Fut G C R α} {t₁ t₂ : List (Ev C R)} {e : Ev C R} (h : p.At (t₁ ++ e :: t₂) q) :
    p.Issues t₁ e.call := by
  induction t₁ generalizing p with
  | nil =>
    cases p with
    | done b => exact h.elim
    | await g c k =>
      obtain ⟨r, rfl, -⟩ := h
      exact ⟨g, k, at_nil.2 rfl⟩
  | cons e' t₁ ih =>
    cases p with
    | done b => exact h.elim
    | await g c k =>
      obtain ⟨r, rfl, h⟩ := h
      obtain ⟨g', k', h'⟩ := ih h
      exact ⟨g', k', r, rfl, h'⟩

/-- The next call is that of what the computation has become. -/
theorem At.issues_iff {p q : Fut G C R α} {t : List (Ev C R)} (h : p.At t q) {c : C} :
    p.Issues t c ↔ q.Issues [] c := by
  constructor
  · rintro ⟨g, k, h'⟩
    exact ⟨g, k, at_nil.2 (h.unique h')⟩
  · rintro ⟨g, k, h'⟩
    obtain rfl := at_nil.1 h'
    exact ⟨g, k, h⟩

/-- A composition is either still in its first part, or past it. -/
theorem at_bind {p : Fut G C R α} {f : α → Fut G C R β} {t : List (Ev C R)} {q : Fut G C R β} :
    (p.bind f).At t q ↔
      (∃ g c k, p.At t (.await g c k) ∧ (Fut.await g c k).bind f = q) ∨
      ∃ t₁ a t₂, p.Runs t₁ a ∧ (f a).At t₂ q ∧ t = t₁ ++ t₂ := by
  induction p generalizing t with
  | done a =>
    simp only [done_bind, at_done, Runs, reduceCtorEq, and_false, false_and, exists_false, false_or,
      Fut.done.injEq]
    constructor
    · intro h; exact ⟨[], a, t, ⟨rfl, rfl⟩, h, rfl⟩
    · rintro ⟨t₁, a', t₂, ⟨rfl, rfl⟩, h, rfl⟩; exact h
  | await g c k ih =>
    simp only [await_bind, at_await, Runs, reduceCtorEq, and_false, false_or]
    constructor
    · rintro (⟨rfl, rfl⟩ | ⟨r, t', rfl, h⟩)
      · exact Or.inl ⟨g, c, k, Or.inl ⟨rfl, rfl⟩, rfl⟩
      · rcases (ih r).1 h with ⟨g', c', k', h', rfl⟩ | ⟨t₁, a, t₂, h₁, h₂, rfl⟩
        · exact Or.inl ⟨g', c', k', Or.inr ⟨r, t', rfl, h'⟩, rfl⟩
        · exact Or.inr ⟨⟨c, r⟩ :: t₁, a, t₂, ⟨r, t₁, rfl, h₁⟩, h₂, rfl⟩
    · rintro (⟨g', c', k', (⟨rfl, h⟩ | ⟨r, t', rfl, h⟩), rfl⟩ | ⟨_, a, t₂, ⟨r, t₁, rfl, h₁⟩, h₂, rfl⟩)
      · cases h; exact Or.inl ⟨rfl, rfl⟩
      · exact Or.inr ⟨r, t', rfl, (ih r).2 (Or.inl ⟨g', c', k', h, rfl⟩)⟩
      · exact Or.inr ⟨r, t₁ ++ t₂, rfl, (ih r).2 (Or.inr ⟨t₁, a, t₂, h₁, h₂, rfl⟩)⟩

@[simp] theorem runs_done {b a : α} {t : List (Ev C R)} :
    (Fut.done b : Fut G C R α).Runs t a ↔ t = [] ∧ b = a := by
  simp [Runs, at_done]

theorem runs_await {g : Option G} {c : C} {k : R c → Fut G C R α} {t : List (Ev C R)} {a : α} :
    (Fut.await g c k).Runs t a ↔ ∃ r t', t = ⟨c, r⟩ :: t' ∧ (k r).Runs t' a := by
  simp [Runs, at_await]

theorem At.bind {p q : Fut G C R α} {t : List (Ev C R)} (h : p.At t q) (f : α → Fut G C R β) :
    (p.bind f).At t (q.bind f) := by
  cases q with
  | done a => exact at_bind.2 (Or.inr ⟨t, a, [], h, at_nil.2 rfl, (List.append_nil t).symm⟩)
  | await g c k => exact at_bind.2 (Or.inl ⟨g, c, k, h, rfl⟩)

theorem runs_bind {p : Fut G C R α} {f : α → Fut G C R β} {t : List (Ev C R)} {b : β} :
    (p.bind f).Runs t b ↔ ∃ t₁ a t₂, p.Runs t₁ a ∧ (f a).Runs t₂ b ∧ t = t₁ ++ t₂ := by
  unfold Runs
  rw [at_bind]
  simp only [await_bind, reduceCtorEq, and_false, exists_false, false_or]
  rfl

theorem Runs.issues {p : Fut G C R α} {t₁ t₂ : List (Ev C R)} {e : Ev C R} {a : α} (h : p.Runs (t₁ ++ e :: t₂) a) :
    p.Issues t₁ e.call :=
  At.issues_before h

@[simp] theorem issues_done {b : α} {t : List (Ev C R)} {c : C} :
    ¬ (Fut.done b : Fut G C R α).Issues t c := by
  simp [Issues, at_done]

theorem issues_await {g : Option G} {c c' : C} {k : R c → Fut G C R α} {t : List (Ev C R)} :
    (Fut.await g c k).Issues t c' ↔ (t = [] ∧ c = c') ∨ ∃ r t', t = ⟨c, r⟩ :: t' ∧ (k r).Issues t' c' := by
  unfold Issues
  constructor
  · rintro ⟨g', k', h⟩
    rcases at_await.1 h with ⟨rfl, h'⟩ | ⟨r, t', rfl, h'⟩
    · cases h'; exact Or.inl ⟨rfl, rfl⟩
    · exact Or.inr ⟨r, t', rfl, g', k', h'⟩
  · rintro (⟨rfl, rfl⟩ | ⟨r, t', rfl, g', k', h⟩)
    · exact ⟨g, k, at_await.2 (Or.inl ⟨rfl, rfl⟩)⟩
    · exact ⟨g', k', at_await.2 (Or.inr ⟨r, t', rfl, h⟩)⟩

theorem issues_bind {p : Fut G C R α} {f : α → Fut G C R β} {t : List (Ev C R)} {c : C} :
    (p.bind f).Issues t c ↔
      p.Issues t c ∨ ∃ t₁ a t₂, p.Runs t₁ a ∧ (f a).Issues t₂ c ∧ t = t₁ ++ t₂ := by
  unfold Issues
  constructor
  · rintro ⟨g, k, h⟩
    rcases at_bind.1 h with ⟨g', c', k', h', he⟩ | ⟨t₁, a, t₂, h₁, h₂, rfl⟩
    · cases he; exact Or.inl ⟨g, k', h'⟩
    · exact Or.inr ⟨t₁, a, t₂, h₁, ⟨g, k, h₂⟩, rfl⟩
  · rintro (⟨g, k, h⟩ | ⟨t₁, a, t₂, h₁, ⟨g, k, h₂⟩, rfl⟩)
    · exact ⟨g, fun r => (k r).bind f, at_bind.2 (Or.inl ⟨g, c, k, h, rfl⟩)⟩
    · exact ⟨g, k, at_bind.2 (Or.inr ⟨t₁, a, t₂, h₁, h₂, rfl⟩)⟩

@[simp] theorem stops_done {b : α} {t : List (Ev C R)} {g : G} {c : C} :
    ¬ (Fut.done b : Fut G C R α).Stops t g c := by
  simp [Stops, at_done]

theorem stops_await {g : Option G} {g' : G} {c c' : C} {k : R c → Fut G C R α} {t : List (Ev C R)} :
    (Fut.await g c k).Stops t g' c' ↔
      (t = [] ∧ g = some g' ∧ c = c') ∨ ∃ r t', t = ⟨c, r⟩ :: t' ∧ (k r).Stops t' g' c' := by
  unfold Stops
  constructor
  · rintro ⟨k', h⟩
    rcases at_await.1 h with ⟨rfl, h'⟩ | ⟨r, t', rfl, h'⟩
    · cases h'; exact Or.inl ⟨rfl, rfl, rfl⟩
    · exact Or.inr ⟨r, t', rfl, k', h'⟩
  · rintro (⟨rfl, rfl, rfl⟩ | ⟨r, t', rfl, k', h⟩)
    · exact ⟨k, at_await.2 (Or.inl ⟨rfl, rfl⟩)⟩
    · exact ⟨k', at_await.2 (Or.inr ⟨r, t', rfl, h⟩)⟩

theorem stops_bind {p : Fut G C R α} {f : α → Fut G C R β} {t : List (Ev C R)} {g : G} {c : C} :
    (p.bind f).Stops t g c ↔
      p.Stops t g c ∨ ∃ t₁ a t₂, p.Runs t₁ a ∧ (f a).Stops t₂ g c ∧ t = t₁ ++ t₂ := by
  unfold Stops
  constructor
  · rintro ⟨k, h⟩
    rcases at_bind.1 h with ⟨g', c', k', h', he⟩ | ⟨t₁, a, t₂, h₁, h₂, rfl⟩
    · cases he; exact Or.inl ⟨k', h'⟩
    · exact Or.inr ⟨t₁, a, t₂, h₁, ⟨k, h₂⟩, rfl⟩
  · rintro (⟨k, h⟩ | ⟨t₁, a, t₂, h₁, ⟨k, h₂⟩, rfl⟩)
    · exact ⟨fun r => (k r).bind f, at_bind.2 (Or.inl ⟨some g, c, k, h, rfl⟩)⟩
    · exact ⟨k, at_bind.2 (Or.inr ⟨t₁, a, t₂, h₁, h₂, rfl⟩)⟩

/-! ## Awaiting an inner computation -/

@[simp] theorem runs_within {g : G'} {p : Fut G C R α} {t : List (Ev C R)} {a : α} :
    (p.within g).Runs t a ↔ p.Runs t a := by
  induction p generalizing t with
  | done b => simp [within]
  | await g₀ c k ih => cases g₀ <;> simp only [within, runs_await, ih]

@[simp] theorem issues_within {g : G'} {p : Fut G C R α} {t : List (Ev C R)} {c : C} :
    (p.within g).Issues t c ↔ p.Issues t c := by
  induction p generalizing t with
  | done b => simp [within]
  | await g₀ c₀ k ih => cases g₀ <;> simp only [within, issues_await, ih]

theorem stops_within {g g' : G'} {p : Fut G C R α} {t : List (Ev C R)} {c : C} :
    (p.within g).Stops t g' c ↔ g = g' ∧ ∃ g₀, p.Stops t g₀ c := by
  induction p generalizing t with
  | done b => simp [within]
  | await g₀ c₀ k ih =>
    cases g₀ with
    | none => simp only [within, stops_await, ih, reduceCtorEq, false_and, and_false, false_or]; grind
    | some g₁ => simp only [within, stops_await, ih, Option.some.injEq]; grind

end Fut
