import Cheti.Base.Tasks
/-!
# Programs under interference

Any number of programs share a store, in any world. If `K` is what all steps can do to the store, then what `wp` says
of a program whose every call may come after any such change holds of it in the machine (`Steps.resumes`).
-/

namespace Fut.Tasks

variable {ι G C O : Type} {R : C → Type} {α S : Type}

/-- Before each call, the others may have done something. -/
def relyEnv (K : S → S → Prop) (H : Env C R S) : Env C R S := fun c r s s' => ∃ m, K s m ∧ H c r m s'

section Rules

variable [DecidableEq ι] {W : World ι G C R S O} {p : ι → Fut G C R α} {s₀ : S} {cfg : Config ι G C R α S}
  {w : List (Label ι C R O)} {ok : ι → C → Prop} {Q : ι → α → S → Prop} {K : S → S → Prop}

variable (W ok K) in
/-- `K` is a preorder that every step is in, of which program `i` makes only calls in `ok i`. -/
structure Interference : Prop where
  refl : ∀ s, K s s
  trans : ∀ {s₁ s₂ s₃}, K s₁ s₂ → K s₂ s₃ → K s₁ s₃
  call : ∀ {i c r s s'}, ok i c → W.call i c r s s' → K s s'
  drop : ∀ {i g c s s'}, ok i c → W.drop i g c s s' → K s s'
  other : ∀ {o s s'}, W.other o s s' → K s s'

variable (W ok Q K) in
/-- What a program has become, as it was in the state after its last call. -/
def Resumes (i : ι) (q : Fut G C R α) (s : S) : Prop :=
  ∃ m, wp (fun c _ => ok i c) (relyEnv K (W.call i)) q (Q i) m ∧ K m s

/-- **The rule of interference.** -/
theorem Steps.resumes (hK : Interference W ok K) (hp : ∀ i, wp (fun c _ => ok i c) (relyEnv K (W.call i)) (p i) (Q i) s₀)
    (h : Steps W (start p s₀) w cfg) {i : ι} {q : Fut G C R α} (hq : cfg.prog i = some q) :
    Resumes W ok Q K i q cfg.store := by
  induction h generalizing i q with
  | nil =>
    cases hq
    exact ⟨s₀, hp i, hK.refl s₀⟩
  | @snoc w cfg cfg' l h hs ih =>
    have hlater : ∀ {i q s'}, K cfg.store s' → cfg.prog i = some q → Resumes W ok Q K i q s' := by
      intro i q s' hs' hq
      obtain ⟨m, hwp, hm⟩ := ih hq
      exact ⟨m, hwp, hK.trans hm hs'⟩
    cases hs with
    | @call j g c k r s' hj hr =>
      obtain ⟨m, hwp, hm⟩ := ih hj
      by_cases hi : i = j
      · subst hi
        obtain rfl : k r = q := by simpa using hq
        exact ⟨s', hwp.2 r s' ⟨cfg.store, hm, hr⟩, hK.refl s'⟩
      · exact hlater (hK.call hwp.1 hr) (by simpa [hi] using hq)
    | @drop j g c k s' hj hs =>
      obtain ⟨m, hwp, hm⟩ := ih hj
      by_cases hi : i = j
      · subst hi
        simp at hq
      · exact hlater (hK.drop hwp.1 hs) (by simpa [hi] using hq)
    | other hs => exact hlater (hK.other hs) hq

/-- The store has become what such steps make of it. -/
theorem Steps.store (hK : Interference W ok K) (hp : ∀ i, wp (fun c _ => ok i c) (relyEnv K (W.call i)) (p i) (Q i) s₀)
    (h : Steps W (start p s₀) w cfg) : K s₀ cfg.store := by
  induction h with
  | nil => exact hK.refl s₀
  | @snoc w cfg cfg' l h hs ih =>
    have hok : ∀ {i g c k}, cfg.prog i = some (.await g c k) → ok i c := by
      intro i g c k hi
      obtain ⟨m, hwp, -⟩ := h.resumes hK hp hi
      exact hwp.1
    cases hs with
    | call hi hr => exact hK.trans ih (hK.call (hok hi) hr)
    | drop hi hs => exact hK.trans ih (hK.drop (hok hi) hs)
    | other hs => exact hK.trans ih (hK.other hs)

/-- What holds of a program in every state, under interference. -/
theorem wp_rely_of_always {P : C → Prop} {A : (c : C) → R c → Prop} {Φ : α → Prop} {ok : C → Prop} {H : Env C R S}
    {q : Fut G C R α} (hrefl : ∀ s, K s s) (htrans : ∀ {s₁ s₂ s₃}, K s₁ s₂ → K s₂ s₃ → K s₁ s₃) (h : Always P A q Φ)
    (hok : ∀ c, P c → ok c) (hH : ∀ c r s s', P c → H c r s s' → K s s' ∧ A c r) (s : S) :
    wp (fun c _ => ok c) (relyEnv K H) q (fun a s' => K s s' ∧ Φ a) s := by
  induction q generalizing s with
  | done a => exact ⟨hrefl s, h⟩
  | await g c k ih =>
    refine ⟨hok c h.1, ?_⟩
    rintro r s₁ ⟨m, hm, hr⟩
    obtain ⟨hs₁, hA⟩ := hH c r m s₁ h.1 hr
    exact wp_mono (ih r (h.2 r () hA) s₁) fun a s' ha => ⟨htrans (htrans hm hs₁) ha.1, ha.2⟩

end Rules

end Fut.Tasks
