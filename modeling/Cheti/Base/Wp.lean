import Cheti.Base.Fut
/-!
# Environments and weakest preconditions

What answers the calls of a computation is an environment: a state, and for each call the replies it
may give and the states it may leave. `Chain H t s s'` says that the environment `H` answers the calls
of `t` as `t` says, going from `s` to `s'`; so `p.Runs t a ∧ Chain H t s s'` is one complete run of `p`
against `H`.

`wp ok H p Q s` says of every such run from `s`: each call is one that `ok` allows at that moment, and
the run ends with a result and a state in `Q`. It computes along the program (`wp_bind`), so a
specification is proved by going through the code; `wp.at` and `wp.of_runs` are its soundness. `may` is
its dual: some run ends that way.

A fallible computation is an `ExceptT ε (Fut G C R) α`; its rules are those of `?`: an error skips what
follows.
-/

namespace Fut

variable {G C : Type} {R : C → Type} {α β ε S : Type}

/-- `H c r s s'`: in `s`, the call `c` may be answered with `r`, leaving `s'`. -/
abbrev Env (C : Type) (R : C → Type) (S : Type) := (c : C) → R c → S → S → Prop

def Chain (H : Env C R S) : List (Ev C R) → S → S → Prop
  | [], s, s' => s = s'
  | e :: t, s, s' => ∃ m, H e.call e.reply s m ∧ Chain H t m s'

@[simp] theorem chain_nil {H : Env C R S} {s s' : S} : Chain H [] s s' ↔ s = s' := Iff.rfl

theorem chain_cons {H : Env C R S} {e : Ev C R} {t : List (Ev C R)} {s s' : S} :
    Chain H (e :: t) s s' ↔ ∃ m, H e.call e.reply s m ∧ Chain H t m s' := Iff.rfl

theorem chain_append {H : Env C R S} {t u : List (Ev C R)} {s s' : S} :
    Chain H (t ++ u) s s' ↔ ∃ m, Chain H t s m ∧ Chain H u m s' := by
  induction t generalizing s with
  | nil => simp
  | cons e t ih =>
    simp only [List.cons_append, chain_cons, ih]
    constructor
    · rintro ⟨m, he, m', ht, hu⟩; exact ⟨m', ⟨m, he, ht⟩, hu⟩
    · rintro ⟨m', ⟨m, he, ht⟩, hu⟩; exact ⟨m, he, m', ht, hu⟩

theorem chain_singleton {H : Env C R S} {e : Ev C R} {s s' : S} :
    Chain H [e] s s' ↔ H e.call e.reply s s' := by
  simp [chain_cons]

theorem Chain.mono {H H' : Env C R S} (hH : ∀ c r s s', H c r s s' → H' c r s s') {t : List (Ev C R)} {s s' : S}
    (h : Chain H t s s') : Chain H' t s s' := by
  induction t generalizing s with
  | nil => exact h
  | cons e t ih =>
    obtain ⟨m, he, ht⟩ := h
    exact ⟨m, hH _ _ _ _ he, ih ht⟩

/-- Every run of `p` from `s` makes only calls that `ok` allows, and ends in `Q`. -/
def wp (ok : C → S → Prop) (H : Env C R S) : Fut G C R α → (α → S → Prop) → S → Prop
  | .done a, Q, s => Q a s
  | .await _ c k, Q, s => ok c s ∧ ∀ r s', H c r s s' → wp ok H (k r) Q s'

variable {ok : C → S → Prop} {H : Env C R S}

@[simp] theorem wp_done {a : α} {Q : α → S → Prop} {s : S} :
    wp ok H (.done a : Fut G C R α) Q s ↔ Q a s := Iff.rfl

theorem wp_await {g : Option G} {c : C} {k : R c → Fut G C R α} {Q : α → S → Prop} {s : S} :
    wp ok H (.await g c k) Q s ↔ ok c s ∧ ∀ r s', H c r s s' → wp ok H (k r) Q s' := Iff.rfl

theorem wp_bind {p : Fut G C R α} {f : α → Fut G C R β} {Q : β → S → Prop} {s : S} :
    wp ok H (p.bind f) Q s ↔ wp ok H p (fun a s' => wp ok H (f a) Q s') s := by
  induction p generalizing s with
  | done a => rfl
  | await g c k ih => simp only [await_bind, wp_await, ih]

theorem wp_mono {p : Fut G C R α} {Q Q' : α → S → Prop} {s : S} (h : wp ok H p Q s)
    (hQ : ∀ a s', Q a s' → Q' a s') : wp ok H p Q' s := by
  induction p generalizing s with
  | done a => exact hQ a s h
  | await g c k ih => exact ⟨h.1, fun r s' hr => ih r (h.2 r s' hr)⟩

/-- What every call keeps, every computation keeps. -/
theorem wp_of_kept {I : S → Prop} (hI : ∀ c r s s', H c r s s' → I s → I s') (p : Fut G C R α) {s : S} (hs : I s) :
    wp (fun _ _ => True) H p (fun _ s' => I s') s := by
  induction p generalizing s with
  | done a => exact hs
  | await g c k ih => exact ⟨trivial, fun r s' hr => ih r (hI c r s s' hr hs)⟩

/-- With fewer answers, no less holds. -/
theorem wp.antitone {H' : Env C R S} (hH : ∀ c r s s', H' c r s s' → H c r s s') {p : Fut G C R α} {Q : α → S → Prop}
    {s : S} (h : wp ok H p Q s) : wp ok H' p Q s := by
  induction p generalizing s with
  | done a => exact h
  | await g c k ih => exact ⟨h.1, fun r s' hr => ih r (h.2 r s' (hH c r s s' hr))⟩

theorem wp.and {p : Fut G C R α} {Q Q' : α → S → Prop} {s : S} (h : wp ok H p Q s) (h' : wp ok H p Q' s) :
    wp ok H p (fun a s => Q a s ∧ Q' a s) s := by
  induction p generalizing s with
  | done a => exact ⟨h, h'⟩
  | await g c k ih => exact ⟨h.1, fun r s' hr => ih r (h.2 r s' hr) (h'.2 r s' hr)⟩

/-- Postconditions that agree wherever the computation can end. -/
theorem wp_congr {ok' : C → S → Prop} {p : Fut G C R α} {P Q Q' : α → S → Prop} {s : S} (h : wp ok' H p P s)
    (hQ : ∀ a s', P a s' → (Q a s' ↔ Q' a s')) : wp ok H p Q s ↔ wp ok H p Q' s := by
  induction p generalizing s with
  | done a => exact hQ a s h
  | await g c k ih =>
    rw [wp_await, wp_await]
    refine and_congr_right fun _ => forall_congr' fun r => forall_congr' fun s' => ?_
    exact imp_congr_right fun hr => ih r (h.2 r s' hr)

/-- What holds of a computation holds of what it has become. -/
theorem wp.at {p q : Fut G C R α} {Q : α → S → Prop} {t : List (Ev C R)} {s s' : S}
    (h : wp ok H p Q s) (ht : p.At t q) (hc : Chain H t s s') : wp ok H q Q s' := by
  induction t generalizing p s with
  | nil =>
    obtain rfl := at_nil.1 ht
    obtain rfl : s = s' := hc
    exact h
  | cons e t ih =>
    cases p with
    | done a => exact ht.elim
    | await g c k =>
      obtain ⟨r, rfl, ht'⟩ := ht
      obtain ⟨m, hm, hc'⟩ := hc
      exact ih (h.2 r m hm) ht' hc'

theorem wp.of_runs {p : Fut G C R α} {Q : α → S → Prop} {t : List (Ev C R)} {s s' : S} {a : α}
    (h : wp ok H p Q s) (ht : p.Runs t a) (hc : Chain H t s s') : Q a s' := h.at ht hc

/-- What holds at the end of every run. -/
theorem wp_of_forall_runs {p : Fut G C R α} {Q : α → S → Prop} {s : S}
    (h : ∀ t a s', p.Runs t a → Chain H t s s' → Q a s') : wp (fun _ _ => True) H p Q s := by
  induction p generalizing s with
  | done a => exact h [] a s rfl rfl
  | await g c k ih =>
    refine ⟨trivial, fun r s₁ hr => ih r fun t a s' ht hc => ?_⟩
    exact h (⟨c, r⟩ :: t) a s' (runs_await.2 ⟨r, t, rfl, ht⟩) ⟨s₁, hr, hc⟩

/-- The computations run one after the other, each to its end, with these results. -/
inductive RunsAll (H : Env C R S) : List (Fut G C R α × α) → S → S → Prop where
  | nil (s : S) : RunsAll H [] s s
  | cons {p : Fut G C R α} {a : α} {rest : List (Fut G C R α × α)} {t : List (Ev C R)} {s s₁ s' : S}
      (hrun : p.Runs t a) (hc : Chain H t s s₁) (hrest : RunsAll H rest s₁ s') : RunsAll H ((p, a) :: rest) s s'

/-- What every computation keeps, a sequence of them keeps. -/
theorem RunsAll.invariant {l : List (Fut G C R α × α)} {s s' : S} (h : RunsAll H l s s') {I : S → Prop}
    (hI : ∀ p a s, (p, a) ∈ l → I s → wp (fun _ _ => True) H p (fun _ s' => I s') s) (hs : I s) : I s' := by
  induction h with
  | nil s => exact hs
  | cons hrun hc _ ih =>
    refine ih (fun p a s hp => hI p a s (List.mem_cons_of_mem _ hp)) ?_
    exact (hI _ _ _ List.mem_cons_self hs).of_runs hrun hc

/-- An environment that always answers runs every computation to its end. -/
theorem exists_run (hH : ∀ c s, ∃ r s', H c r s s') (p : Fut G C R α) (s : S) :
    ∃ t a s', p.Runs t a ∧ Chain H t s s' := by
  induction p generalizing s with
  | done a => exact ⟨[], a, s, rfl, rfl⟩
  | await g c k ih =>
    obtain ⟨r, m, hm⟩ := hH c s
    obtain ⟨t, a, s', ht, hc⟩ := ih r m
    exact ⟨⟨c, r⟩ :: t, a, s', ⟨r, rfl, ht⟩, m, hm, hc⟩

/-- An environment that can answer every call without a change can leave the state as it is. -/
theorem exists_quiet_run (hH : ∀ c s, ∃ r, H c r s s) (p : Fut G C R α) (s : S) :
    ∃ t a, p.Runs t a ∧ Chain H t s s := by
  induction p with
  | done a => exact ⟨[], a, rfl, rfl⟩
  | await g c k ih =>
    obtain ⟨r, hr⟩ := hH c s
    obtain ⟨t, a, ht, hc⟩ := ih r
    exact ⟨⟨c, r⟩ :: t, a, ⟨r, rfl, ht⟩, s, hr, hc⟩

/-- The call that changes the state first. -/
theorem Chain.first_change {t : List (Ev C R)} {s s' : S} (h : Chain H t s s') (hne : s' ≠ s) :
    ∃ t₁ e t₂ m, t = t₁ ++ e :: t₂ ∧ Chain H t₁ s s ∧ H e.call e.reply s m ∧ m ≠ s := by
  induction t generalizing s with
  | nil => exact absurd (show s = s' from h).symm hne
  | cons e t ih =>
    obtain ⟨m, he, ht⟩ := h
    by_cases hm : m = s
    · subst hm
      obtain ⟨t₁, e', t₂, m', rfl, h₁, hchange, hne'⟩ := ih ht hne
      exact ⟨e :: t₁, e', t₂, m', rfl, ⟨m, he, h₁⟩, hchange, hne'⟩
    · exact ⟨[], e, t, m, rfl, rfl, he, hm⟩

/-- Wherever a computation is stopped, it has left a state in which it might have ended, if any call may fail
without a change. -/
theorem wp.of_at {ok : C → S → Prop} {H : Env C R S} (hH : ∀ c s, ∃ r, H c r s s) {p q : Fut G C R α}
    {Q : α → S → Prop} {t : List (Ev C R)} {s s' : S} (h : wp ok H p Q s) (hat : p.At t q) (hc : Chain H t s s') :
    ∃ a, Q a s' := by
  obtain ⟨t', a, hrun, hquiet⟩ := exists_quiet_run hH q s'
  exact ⟨a, (h.at hat hc).of_runs hrun hquiet⟩

/-- Some run of `p` from `s` ends in `Q`. -/
def may (H : Env C R S) : Fut G C R α → (α → S → Prop) → S → Prop
  | .done a, Q, s => Q a s
  | .await _ c k, Q, s => ∃ r s', H c r s s' ∧ may H (k r) Q s'

theorem may_await {g : Option G} {c : C} {k : R c → Fut G C R α} {Q : α → S → Prop} {s : S} :
    may H (.await g c k) Q s ↔ ∃ r s', H c r s s' ∧ may H (k r) Q s' := Iff.rfl

theorem may_bind {p : Fut G C R α} {f : α → Fut G C R β} {Q : β → S → Prop} {s : S} :
    may H (p.bind f) Q s ↔ may H p (fun a s' => may H (f a) Q s') s := by
  induction p generalizing s with
  | done a => rfl
  | await g c k ih => simp only [await_bind, may_await, ih]

theorem may_mono {p : Fut G C R α} {Q Q' : α → S → Prop} {s : S} (h : may H p Q s)
    (hQ : ∀ a s', Q a s' → Q' a s') : may H p Q' s := by
  induction p generalizing s with
  | done a => exact hQ a s h
  | await g c k ih =>
    obtain ⟨r, s', hr, hk⟩ := h
    exact ⟨r, s', hr, ih r hk⟩

theorem may.exists_run {p : Fut G C R α} {Q : α → S → Prop} {s : S} (h : may H p Q s) :
    ∃ t a s', p.Runs t a ∧ Chain H t s s' ∧ Q a s' := by
  induction p generalizing s with
  | done a => exact ⟨[], a, s, rfl, rfl, h⟩
  | await g c k ih =>
    obtain ⟨r, m, hm, hk⟩ := h
    obtain ⟨t, a, s', ht, hc, hq⟩ := ih r hk
    exact ⟨⟨c, r⟩ :: t, a, s', ⟨r, rfl, ht⟩, ⟨m, hm, hc⟩, hq⟩

/-- Whatever the state: given replies in `A`, the calls of `p` are in `P` and its result is in `Φ`. -/
abbrev Always (P : C → Prop) (A : (c : C) → R c → Prop) (p : Fut G C R α) (Φ : α → Prop) : Prop :=
  wp (fun c (_ : Unit) => P c) (fun c r _ _ => A c r) p (fun a _ => Φ a) ()

/-- What holds in every state holds in a state that the calls in `P` leave as it is. -/
theorem wp_of_always {P : C → Prop} {A : (c : C) → R c → Prop} {p : Fut G C R α} {Φ : α → Prop} {s : S}
    (h : Always P A p Φ) (hH : ∀ c, P c → ok c s ∧ ∀ r s', H c r s s' → s' = s ∧ A c r) :
    wp ok H p (fun a s' => s' = s ∧ Φ a) s := by
  induction p with
  | done a => exact ⟨rfl, h⟩
  | await g c k ih =>
    refine ⟨(hH c h.1).1, fun r s' hr => ?_⟩
    obtain ⟨rfl, hA⟩ := (hH c h.1).2 r s' hr
    exact ih r (h.2 r () hA)

/-- What the calls in `P` can do to the state, in any number, a computation that makes no others does. -/
theorem wp_rel_of_always {P : C → Prop} {A : (c : C) → R c → Prop} {p : Fut G C R α} {Φ : α → Prop}
    {K : S → S → Prop} (hrefl : ∀ s, K s s) (htrans : ∀ s₁ s₂ s₃, K s₁ s₂ → K s₂ s₃ → K s₁ s₃)
    (h : Always P A p Φ) (hH : ∀ c r s s', P c → H c r s s' → K s s' ∧ A c r) (s : S) :
    wp (fun _ _ => True) H p (fun a s' => K s s' ∧ Φ a) s := by
  induction p generalizing s with
  | done a => exact ⟨hrefl s, h⟩
  | await g c k ih =>
    refine ⟨trivial, fun r s₁ hr => ?_⟩
    obtain ⟨hK, hA⟩ := hH c r s s₁ h.1 hr
    exact wp_mono (ih r (h.2 r () hA) s₁) fun a s' ha => ⟨htrans s s₁ s' hK ha.1, ha.2⟩

/-! ## Fallible computations -/

theorem wp_run_bind {p : ExceptT ε (Fut G C R) α} {f : α → ExceptT ε (Fut G C R) β}
    {Q : Except ε β → S → Prop} {s : S} :
    wp ok H (p >>= f).run Q s ↔ wp ok H p.run (fun r s' =>
      match r with
      | .ok a => wp ok H (f a).run Q s'
      | .error e => Q (.error e) s') s := by
  rw [ExceptT.run_bind, bind_eq, wp_bind]
  constructor <;> intro h' <;> refine wp_mono h' fun r s' hr => ?_ <;> cases r <;> exact hr

/-- A fallible computation ends in its first part, with an error, or goes on to its second. -/
theorem runs_run_bind {p : ExceptT ε (Fut G C R) α} {f : α → ExceptT ε (Fut G C R) β} {t : List (Ev C R)}
    {r : Except ε β} :
    (p >>= f).run.Runs t r ↔ (∃ e, p.run.Runs t (.error e) ∧ r = .error e) ∨
      ∃ t₁ a t₂, p.run.Runs t₁ (.ok a) ∧ (f a).run.Runs t₂ r ∧ t = t₁ ++ t₂ := by
  rw [ExceptT.run_bind, bind_eq, runs_bind]
  constructor
  · rintro ⟨t₁, x, t₂, hp, hf, rfl⟩
    cases x with
    | error e =>
      obtain ⟨rfl, rfl⟩ := runs_done.1 hf
      exact Or.inl ⟨e, by simpa using hp, rfl⟩
    | ok a => exact Or.inr ⟨t₁, a, t₂, hp, hf, rfl⟩
  · rintro (⟨e, hp, rfl⟩ | ⟨t₁, a, t₂, hp, hf, rfl⟩)
    · exact ⟨t, .error e, [], hp, runs_done.2 ⟨rfl, rfl⟩, by simp⟩
    · exact ⟨t₁, .ok a, t₂, hp, hf, rfl⟩

/-- A fallible computation that succeeds goes through both of its parts. -/
theorem runs_run_bind_ok {p : ExceptT ε (Fut G C R) α} {f : α → ExceptT ε (Fut G C R) β} {t : List (Ev C R)} {b : β} :
    (p >>= f).run.Runs t (.ok b) ↔
      ∃ t₁ a t₂, p.run.Runs t₁ (.ok a) ∧ (f a).run.Runs t₂ (.ok b) ∧ t = t₁ ++ t₂ := by
  rw [runs_run_bind]
  exact or_iff_right (by rintro ⟨e, -, heq⟩; cases heq)

theorem always_run_bind {P : C → Prop} {A : (c : C) → R c → Prop} {p : ExceptT ε (Fut G C R) α}
    {f : α → ExceptT ε (Fut G C R) β} (hp : Always P A p.run fun _ => True)
    (hf : ∀ a, Always P A (f a).run fun _ => True) : Always P A (p >>= f).run fun _ => True := by
  rw [Always, wp_run_bind]
  refine wp_mono hp fun r _ _ => ?_
  cases r with
  | ok a => exact hf a
  | error e => trivial

theorem may_run_bind {p : ExceptT ε (Fut G C R) α} {f : α → ExceptT ε (Fut G C R) β}
    {Q : Except ε β → S → Prop} {s : S} :
    may H (p >>= f).run Q s ↔ may H p.run (fun r s' =>
      match r with
      | .ok a => may H (f a).run Q s'
      | .error e => Q (.error e) s') s := by
  rw [ExceptT.run_bind, bind_eq, may_bind]
  constructor <;> intro h' <;> refine may_mono h' fun r s' hr => ?_ <;> cases r <;> exact hr

@[simp] theorem wp_run_pure {a : α} {Q : Except ε α → S → Prop} {s : S} :
    wp ok H (pure a : ExceptT ε (Fut G C R) α).run Q s ↔ Q (.ok a) s := Iff.rfl

@[simp] theorem wp_run_throw {e : ε} {Q : Except ε α → S → Prop} {s : S} :
    wp ok H (throw e : ExceptT ε (Fut G C R) α).run Q s ↔ Q (.error e) s := Iff.rfl

@[simp] theorem wp_run_except {x : Except ε α} {Q : Except ε α → S → Prop} {s : S} :
    wp ok H (liftM x : ExceptT ε (Fut G C R) α).run Q s ↔ Q x s := Iff.rfl

theorem may_run_except_bind {x : Except ε α} {a : α} (hx : x = .ok a) {f : α → ExceptT ε (Fut G C R) β}
    {Q : Except ε β → S → Prop} {s : S} (h : may H (f a).run Q s) : may H (liftM x >>= f).run Q s := by
  subst hx
  exact may_run_bind.2 h

end Fut
