import Cheti.Base.Wp
/-!
# Loops, and calls carried out by the level below

`iterate body n s` is `loop { .. }` for at most `n` rounds: a round goes on with a new state or ends with
a result, and `none` says that the rounds were used up. So a loop ends if, with enough rounds, it never
returns `none`.

`p.handle h` is `p` with each of its calls carried out by a computation of the level below. A run of it is
a run `T` of `p` whose calls, one after the other, make the calls `t` of that level: `Carries h T t`. What
is proved of every run of `p` against an environment then holds of every run of `p.handle h`, provided
that what carries out a call does what the environment says (`Carries.chain`).
-/

namespace Fut

variable {G G' C C' : Type} {R : C → Type} {R' : C' → Type} {α β σ : Type}

def iterate (body : σ → Fut G C R (σ ⊕ α)) : Nat → σ → Fut G C R (Option α)
  | 0, _ => .done none
  | n + 1, s => (body s).bind fun
    | .inl s' => iterate body n s'
    | .inr a => .done (some a)

/-- A loop returns in its first round, or goes on after it. -/
theorem runs_iterate {body : σ → Fut G C R (σ ⊕ α)} {n : Nat} {s : σ} {t : List (Ev C R)} {x : Option α} :
    (iterate body (n + 1) s).Runs t x ↔ (∃ a, (body s).Runs t (.inr a) ∧ x = some a) ∨
      ∃ t₁ s' t₂, (body s).Runs t₁ (.inl s') ∧ (iterate body n s').Runs t₂ x ∧ t = t₁ ++ t₂ := by
  rw [iterate, runs_bind]
  constructor
  · rintro ⟨t₁, y, t₂, hbody, hrest, rfl⟩
    cases y with
    | inl s' => exact Or.inr ⟨t₁, s', t₂, hbody, hrest, rfl⟩
    | inr a =>
      obtain ⟨rfl, rfl⟩ := runs_done.1 hrest
      exact Or.inl ⟨a, by simpa using hbody, rfl⟩
  · rintro (⟨a, hbody, rfl⟩ | ⟨t₁, s', t₂, hbody, hrest, rfl⟩)
    · exact ⟨t, .inr a, [], hbody, runs_done.2 ⟨rfl, rfl⟩, by simp⟩
    · exact ⟨t₁, .inl s', t₂, hbody, hrest, rfl⟩

/-- The next call of a loop is one of its first round, or comes after it. -/
theorem issues_iterate {body : σ → Fut G C R (σ ⊕ α)} {n : Nat} {s : σ} {t : List (Ev C R)} {c : C}
    (h : (iterate body (n + 1) s).Issues t c) : (body s).Issues t c ∨
      ∃ t₁ s' t₂, (body s).Runs t₁ (.inl s') ∧ (iterate body n s').Issues t₂ c ∧ t = t₁ ++ t₂ := by
  rw [iterate, issues_bind] at h
  refine h.imp_right ?_
  rintro ⟨t₁, y, t₂, hbody, hrest, rfl⟩
  cases y with
  | inl s' => exact ⟨t₁, s', t₂, hbody, hrest, rfl⟩
  | inr a => exact absurd hrest issues_done

/-! ## Levels -/

def handle (h : (c : C) → Fut G' C' R' (R c)) : Fut G C R α → Fut G' C' R' α
  | .done a => .done a
  | .await _ c k => (h c).bind fun r => (k r).handle h

variable {h : (c : C) → Fut G' C' R' (R c)}

@[simp] theorem handle_done (a : α) : (Fut.done a : Fut G C R α).handle h = .done a := rfl

@[simp] theorem handle_await (g : Option G) (c : C) (k : R c → Fut G C R α) :
    (Fut.await g c k).handle h = (h c).bind fun r => (k r).handle h := rfl

/-- The calls of `T`, carried out one after the other, make the calls of `t`. -/
inductive Carries (h : (c : C) → Fut G' C' R' (R c)) : List (Ev C R) → List (Ev C' R') → Prop where
  | nil : Carries h [] []
  | cons {c : C} {r : R c} {T : List (Ev C R)} {t₁ t₂ : List (Ev C' R')} (hcall : (h c).Runs t₁ r)
      (hrest : Carries h T t₂) : Carries h (⟨c, r⟩ :: T) (t₁ ++ t₂)

theorem runs_handle {p : Fut G C R α} {t : List (Ev C' R')} {a : α} :
    (p.handle h).Runs t a ↔ ∃ T, p.Runs T a ∧ Carries h T t := by
  constructor
  · intro hrun
    induction p generalizing t with
    | done b =>
      obtain ⟨rfl, rfl⟩ := runs_done.1 hrun
      exact ⟨[], runs_done.2 ⟨rfl, rfl⟩, .nil⟩
    | await g c k ih =>
      rw [handle_await] at hrun
      obtain ⟨t₁, r, t₂, hcall, hrest, rfl⟩ := runs_bind.1 hrun
      obtain ⟨T, hT, hcarries⟩ := ih r hrest
      exact ⟨⟨c, r⟩ :: T, runs_await.2 ⟨r, T, rfl, hT⟩, .cons hcall hcarries⟩
  · rintro ⟨T, hT, hcarries⟩
    induction hcarries generalizing p with
    | nil =>
      obtain rfl := at_nil.1 hT
      exact runs_done.2 ⟨rfl, rfl⟩
    | cons hcall _ ih =>
      cases p with
      | done b => exact hT.elim
      | await g c k =>
        obtain ⟨r, heq, hT⟩ := hT
        cases heq
        exact runs_bind.2 ⟨_, _, _, hcall, ih hT, rfl⟩

/-- What carries out the calls as the environment `H` answers them runs as `H` does. -/
theorem Carries.chain {S : Type} {H : Env C R S} {H' : Env C' R' S}
    (hcall : ∀ c t r s s', (h c).Runs t r → Chain H' t s s' → H c r s s') {T : List (Ev C R)} {t : List (Ev C' R')}
    (hT : Carries h T t) {s s' : S} (hc : Chain H' t s s') : Chain H T s s' := by
  induction hT generalizing s with
  | nil => exact hc
  | cons hrun _ ih =>
    obtain ⟨m, h₁, h₂⟩ := chain_append.1 hc
    exact ⟨m, hcall _ _ _ _ _ hrun h₁, ih h₂⟩

/-! ## Computations with the same runs -/

section SameRuns

variable {S : Type} {H : Env C R S} {s : S}

/-- Against `H` from `s`, the runs of `p` and `q` are the same. -/
def SameRuns (H : Env C R S) (p q : Fut G C R α) (s : S) : Prop :=
  ∀ t a s', Chain H t s s' → (p.Runs t a ↔ q.Runs t a)

theorem SameRuns.refl (p : Fut G C R α) : SameRuns H p p s := fun _ _ _ _ => Iff.rfl

theorem SameRuns.await {g g' : Option G} {c : C} {k k' : R c → Fut G C R α}
    (h : ∀ r s', H c r s s' → SameRuns H (k r) (k' r) s') : SameRuns H (.await g c k) (.await g' c k') s := by
  intro t a s' hc
  rw [runs_await, runs_await]
  refine exists_congr fun r => exists_congr fun t' => and_congr_right ?_
  rintro rfl
  obtain ⟨m, hm, hc'⟩ := hc
  exact h r m hm t' a s' hc'

theorem SameRuns.bind {p : Fut G C R α} {f f' : α → Fut G C R β}
    (h : ∀ t a s', p.Runs t a → Chain H t s s' → SameRuns H (f a) (f' a) s') :
    SameRuns H (p.bind f) (p.bind f') s := by
  intro t b s' hc
  rw [runs_bind, runs_bind]
  refine exists_congr fun t₁ => exists_congr fun a => exists_congr fun t₂ => and_congr_right fun hp => ?_
  refine and_congr_left ?_
  rintro rfl
  obtain ⟨m, hc₁, hc₂⟩ := chain_append.1 hc
  exact h t₁ a m hp hc₁ t₂ b s' hc₂

theorem runs_bind_some {p : Fut G C R α} {t : List (Ev C R)} {x : Option α} :
    (p.bind fun a => .done (some a)).Runs t x ↔ ∃ a, x = some a ∧ p.Runs t a := by
  rw [runs_bind]
  constructor
  · rintro ⟨t₁, a, t₂, hp, hdone, rfl⟩
    obtain ⟨rfl, rfl⟩ := runs_done.1 hdone
    exact ⟨a, rfl, by simpa using hp⟩
  · rintro ⟨a, rfl, hp⟩
    exact ⟨t, a, [], hp, runs_done.2 ⟨rfl, rfl⟩, by simp⟩

end SameRuns

end Fut
