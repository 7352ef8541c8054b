import Cheti.Base.Spawning
/-!
# Tasks that clean up after themselves

The calls of the tasks add elements to a shared set and remove them (`effect`). A call that is confirmed has
had its effect; one that is not, or that was abandoned, may have had it or not, and an addition may even have
taken its element away (`Effect.Tried`). A task is `Tidy` if it removes only what it has added, and if what it
has added is going to be removed: by the task before it ends, or by what it leaves behind when it is dropped.

Any number of tidy tasks, in any order of their steps: an element that a task has added, with a confirmation,
is there until that task removes it, if it is nobody else's (`Steps.mem_store`); and once all have ended all other
elements are as they were and nothing is left of them, but for three things (`Steps.restored`): a removal may have
failed, an addition that was in flight when its task was dropped may have come too late to be removed, and a task may
have been dropped where nothing is spawned.
-/

namespace Fut.Tasks

variable {ι G C : Type} {R : C → Type} {α κ : Type}

inductive Effect (κ : Type) where
  | nothing
  | adds (k : κ)
  | removes (k : κ)

namespace Effect

def apply : Effect κ → Set κ → Set κ
  | .nothing, s => s
  | .adds k, s => insert k s
  | .removes k, s => s \ {k}

variable {e : Effect κ} {k : κ} {s s' : Set κ}

/-- What an attempt may leave, whether or not it succeeds. -/
def Tried : Effect κ → Set κ → Set κ → Prop
  | .nothing, s, s' => s' = s
  | .adds k, s, s' => s' \ {k} = s \ {k}
  | .removes k, s, s' => s' = s \ {k} ∨ s' = s

theorem tried_apply (e : Effect κ) (s : Set κ) : e.Tried s (e.apply s) := by
  cases e with
  | nothing => rfl
  | adds k => ext k'; by_cases hk : k' = k <;> simp [apply, hk]
  | removes k => exact Or.inl rfl

/-- Nothing else is touched. -/
theorem Tried.mem_iff (h : e.Tried s s') (hadds : e ≠ .adds k) (hremoves : e ≠ .removes k) : k ∈ s' ↔ k ∈ s := by
  cases e with
  | nothing => rw [show s' = s from h]
  | adds k' =>
    have hne : k ≠ k' := by rintro rfl; exact hadds rfl
    have hmem : k ∈ s' \ {k'} ↔ k ∈ s \ {k'} := by rw [show s' \ {k'} = s \ {k'} from h]
    simpa [hne] using hmem
  | removes k' =>
    have hne : k ≠ k' := by rintro rfl; exact hremoves rfl
    rcases h with rfl | rfl
    · simp [hne]
    · rfl

/-- Only an addition puts it there. -/
theorem Tried.mem_of_mem (h : e.Tried s s') (hadds : e ≠ .adds k) (hk : k ∈ s') : k ∈ s := by
  by_cases hremoves : e = .removes k
  · subst hremoves
    rcases h with rfl | rfl
    · exact hk.1
    · exact hk
  · exact (h.mem_iff hadds hremoves).1 hk

end Effect

section Definitions

variable (effect : C → Effect κ) (confirmed : (c : C) → R c → Prop) (spawns : G → Option (Fut Unit C R Unit))

/-- A call that is confirmed has had its effect. -/
def effectEnv : Env C R (Set κ) := fun c r s s' => (effect c).Tried s s' ∧ (confirmed c r → s' = (effect c).apply s)

def effectAbandons (c : C) : Set κ → Set κ → Prop := (effect c).Tried

abbrev effects [DecidableEq ι] (runtime : ι → Bool) (spawns : Bool → G → Option (Fut Unit C R Unit)) :
    World ι G C R (Shared ι C R (Set κ)) (Event ι C R) :=
  spawning (effectEnv effect confirmed) (effectAbandons effect) runtime spawns

/-- The call that a label is about. -/
def Label.about : Label ι C R (Event ι C R) → C
  | .call _ e | .other (.left _ e) => e.call
  | .drop _ c | .other (.late _ c) => c

/-- The task whose call it is. -/
def Label.task : Label ι C R (Event ι C R) → ι
  | .call i _ | .drop i _ | .other (.left i _) | .other (.late i _) => i

/-- An answer that confirms the call. -/
def Label.Confirmed : Label ι C R (Event ι C R) → Prop
  | .call _ e | .other (.left _ e) => confirmed e.call e.reply
  | _ => False

/-- An answer that does not. -/
def Label.Failed : Label ι C R (Event ι C R) → Prop
  | .call _ e | .other (.left _ e) => ¬ confirmed e.call e.reply
  | _ => False

/-- What was left behind is going to remove `k`. -/
def LeftOwes (k : κ) (p : Option (Fut Unit C R Unit)) : Prop :=
  ∃ q, p = some q ∧ ∀ t, q.Runs t () → ∃ e ∈ t, effect e.call = .removes k

/-- The task is going to remove `k`, or to leave that behind. -/
def Owes (k : κ) (p : Fut G C R α) : Prop :=
  (∀ t a, p.Runs t a → ∃ e ∈ t, effect e.call = .removes k) ∧
    ∀ t g c, p.Stops t g c → (∃ e ∈ t, effect e.call = .removes k) ∨ LeftOwes effect k (spawns g)

/-- `K` are the elements of the task. -/
structure Tidy (p : Fut G C R α) (K : Set κ) : Prop where
  keys : ∀ t c k, p.Issues t c → effect c = .adds k ∨ effect c = .removes k → k ∈ K
  /-- What is removed was added. -/
  removes : ∀ t c k, p.Issues t c → effect c = .removes k → ∃ e ∈ t, effect e.call = .adds k
  /-- What is added is going to be removed. -/
  adds : ∀ t g c next k, p.At t (.await g c next) → effect c = .adds k →
    (∀ r, Owes effect spawns k (next r)) ∧ ∀ g', g = some g' → LeftOwes effect k (spawns g')
  /-- What is left behind only removes what was added. -/
  left : ∀ t g c q t' c', p.Stops t g c → spawns g = some q → q.Issues t' c' → (∀ k, effect c' ≠ .adds k) ∧
    ∀ k, effect c' = .removes k → k ∈ K ∧ (effect c = .adds k ∨ ∃ e ∈ t, effect e.call = .adds k)

/-- The task has ended, or was dropped and so has what it left behind. -/
def Ended : Option (Fut G C R α) → Option (Fut Unit C R Unit) → Prop
  | some q, _ => ∃ a, q = .done a
  | none, some q => q = .done ()
  | none, none => True

end Definitions

variable {effect : C → Effect κ} {confirmed : (c : C) → R c → Prop}

theorem effectEnv_apply {c : C} {r : R c} {s : Set κ} : effectEnv effect confirmed c r s ((effect c).apply s) :=
  ⟨(effect c).tried_apply s, fun _ => rfl⟩

/-- Every call may have its effect. -/
theorem chain_effectEnv (t : List (Ev C R)) (s : Set κ) :
    Chain (effectEnv effect confirmed) t s (t.foldl (fun s e => (effect e.call).apply s) s) := by
  induction t generalizing s with
  | nil => rfl
  | cons e t ih => exact ⟨_, effectEnv_apply, ih _⟩

/-! ## What is owed -/

section Owes

variable {spawns : G → Option (Fut Unit C R Unit)} {k : κ} {g : Option G} {c : C} {next : R c → Fut G C R α}

/-- A call that does not remove it leaves it to be removed. -/
theorem Owes.step (h : Owes effect spawns k (.await g c next)) (hc : effect c ≠ .removes k) (r : R c) :
    Owes effect spawns k (next r) := by
  have hlater : ∀ t : List (Ev C R), (∃ e ∈ (⟨c, r⟩ : Ev C R) :: t, effect e.call = .removes k) →
      ∃ e ∈ t, effect e.call = .removes k := by
    rintro t ⟨e, he, hk⟩
    rcases List.mem_cons.1 he with rfl | he
    · exact absurd hk hc
    · exact ⟨e, he, hk⟩
  refine ⟨fun t a ht => hlater t (h.1 _ a (runs_await.2 ⟨r, t, rfl, ht⟩)), fun t g' c' ht => ?_⟩
  exact (h.2 _ g' c' (stops_await.2 (Or.inr ⟨r, t, rfl, ht⟩))).imp_left (hlater t)

theorem Owes.drop {g : G} (h : Owes effect spawns k (.await (some g) c next)) : LeftOwes effect k (spawns g) := by
  rcases h.2 [] g c (stops_await.2 (Or.inl ⟨rfl, rfl, rfl⟩)) with ⟨e, he, -⟩ | h
  · cases he
  · exact h

theorem LeftOwes.step {g : Option Unit} {next : R c → Fut Unit C R Unit} (h : LeftOwes effect k (some (.await g c next)))
    (hc : effect c ≠ .removes k) (r : R c) : LeftOwes effect k (some (next r)) := by
  obtain ⟨q, hq, hruns⟩ := h
  cases hq
  refine ⟨next r, rfl, fun t ht => ?_⟩
  obtain ⟨e, he, hk⟩ := hruns _ (runs_await.2 ⟨r, t, rfl, ht⟩)
  rcases List.mem_cons.1 he with rfl | he
  · exact absurd hk hc
  · exact ⟨e, he, hk⟩

end Owes

/-! ## Runs -/

section Runs

variable {runtime : ι → Bool} {spawns : Bool → G → Option (Fut Unit C R Unit)} [DecidableEq ι] {p : ι → Fut G C R α}
  {K : ι → Set κ} {s₀ : Set κ} {cfg : Config ι G C R α (Shared ι C R (Set κ))} {w : History ι C R} {k : κ}

/-- What a label has done to the set. -/
theorem Step.tried {l : Label ι C R (Event ι C R)} {cfg' : Config ι G C R α (Shared ι C R (Set κ))}
    (hs : Step (effects effect confirmed runtime spawns) cfg l cfg') :
    ((effect l.about).Tried cfg.store.state cfg'.store.state ∨ cfg'.store.state = cfg.store.state) ∧
      (l.Confirmed confirmed → cfg'.store.state = (effect l.about).apply cfg.store.state) := by
  cases hs with
  | call hp hr =>
    obtain ⟨m, hr, rfl⟩ := hr
    exact ⟨Or.inl hr.1, hr.2⟩
  | drop hp hs =>
    obtain ⟨g', rfl, rfl⟩ := hs
    exact ⟨Or.inr rfl, False.elim⟩
  | other hs =>
    cases hs with
    | left hp hr => exact ⟨Or.inl hr.1, hr.2⟩
    | late hc ha => exact ⟨Or.inl ha, False.elim⟩

/-- Only an addition puts an element there. -/
theorem Step.mem_of_mem {l : Label ι C R (Event ι C R)} {cfg' : Config ι G C R α (Shared ι C R (Set κ))}
    (hs : Step (effects effect confirmed runtime spawns) cfg l cfg')
    (hadds : effect l.about ≠ .adds k) (hk : k ∈ cfg'.store.state) : k ∈ cfg.store.state := by
  rcases hs.tried.1 with htried | heq
  · exact htried.mem_of_mem hadds hk
  · rwa [heq] at hk

theorem Step.mem_iff {l : Label ι C R (Event ι C R)} {cfg' : Config ι G C R α (Shared ι C R (Set κ))}
    (hs : Step (effects effect confirmed runtime spawns) cfg l cfg')
    (hadds : effect l.about ≠ .adds k) (hremoves : effect l.about ≠ .removes k) :
    k ∈ cfg'.store.state ↔ k ∈ cfg.store.state := by
  rcases hs.tried.1 with htried | heq
  · exact htried.mem_iff hadds hremoves
  · rw [heq]

variable (h : Steps (effects effect confirmed runtime spawns) (start p (.init s₀)) w cfg)
  (hspawns : ∀ g, spawns false g = none) (htidy : ∀ i, Tidy effect (spawns true) (p i) (K i))

include h hspawns

/-- What was left behind was spawned in a runtime. -/
theorem Steps.spawned {j : ι} {q : Fut Unit C R Unit} (hq : cfg.store.left j = some q) :
    ∃ t g c, Dropped j (p j) w t g c ∧ LeftBehind (spawns true g) q := by
  obtain ⟨t, g, c, hdropped, hbehind⟩ := (h.dropped j).1 q hq
  cases hj : runtime j with
  | true => exact ⟨t, g, c, hdropped, by rwa [hj] at hbehind⟩
  | false =>
    obtain ⟨q₁, t', hq₁, -⟩ := hbehind
    rw [hj, hspawns] at hq₁
    cases hq₁

include htidy

/-- What was left behind only removes, elements of its task that were added. -/
theorem Steps.left_effect {j : ι} {g : Option Unit} {c : C} {next : R c → Fut Unit C R Unit}
    (hp : cfg.store.left j = some (.await g c next)) :
    effect c ≠ .adds k ∧ (effect c = .removes k → k ∈ K j ∧ ∃ l ∈ w, effect l.about = .adds k) := by
  obtain ⟨t, g', c', hdropped, q₁, t', hq₁, hat⟩ := h.spawned hspawns hp
  obtain ⟨hadds, hremoves⟩ := (htidy j).left t g' c' q₁ t' c hdropped.stops hq₁ ⟨g, next, hat⟩
  refine ⟨hadds k, fun hc => ?_⟩
  obtain ⟨hmem, hk | ⟨e, he, hk⟩⟩ := hremoves k hc
  · exact ⟨hmem, .drop j c', hdropped.mem, hk⟩
  · exact ⟨hmem, .call j e, hdropped.calls e he, hk⟩

section Label

variable {l : Label ι C R (Event ι C R)} {cfg' : Config ι G C R α (Shared ι C R (Set κ))}
  (hs : Step (effects effect confirmed runtime spawns) cfg l cfg')

include hs

/-- What a label is about is an element of its task. -/
theorem Steps.keys (hc : effect l.about = .adds k ∨ effect l.about = .removes k) : k ∈ K l.task := by
  cases hs with
  | call hp hr => exact (htidy _).keys _ _ k ⟨_, _, h.at_some rfl hp⟩ hc
  | drop hp hs => exact (htidy _).keys _ _ k ⟨_, _, h.at_some rfl hp⟩ hc
  | other hs =>
    cases hs with
    | left hp hr =>
      obtain ⟨hadds, hremoves⟩ := h.left_effect (k := k) hspawns htidy hp
      exact (hremoves (hc.resolve_left hadds)).1
    | late hlate ha =>
      obtain ⟨t, g, hdropped⟩ := (h.dropped _).2 _ hlate
      obtain ⟨next, hat⟩ := hdropped.stops
      exact (htidy _).keys _ _ k ⟨_, next, hat⟩ hc

end Label

/-- **An element that a task has added, with confirmations, is there until that task removes it**, if it is
no element of another task. -/
theorem Steps.mem_store {i : ι} {q : Fut G C R α} (hq : cfg.prog i = some q) (hothers : ∀ j, j ≠ i → k ∉ K j)
    (hadded : ∃ e ∈ calls i w, effect e.call = .adds k)
    (hconf : ∀ e ∈ calls i w, effect e.call = .adds k → confirmed e.call e.reply)
    (hkept : ∀ e ∈ calls i w, effect e.call ≠ .removes k) : k ∈ cfg.store.state := by
  induction h generalizing q with
  | nil =>
    obtain ⟨e, he, -⟩ := hadded
    cases he
  | @snoc w cfg cfg' l h hs ih =>
    rw [calls_append] at hadded hconf hkept
    -- a step that is not one of the task: nothing happens to `k`
    have hother : l.task ≠ i → cfg.prog i = some q → calls i [l] = [] → k ∈ cfg'.store.state := by
      intro hl hq hcalls
      rw [hcalls, List.append_nil] at hadded hconf hkept
      have hkeys := fun hc => hothers l.task hl (h.keys hspawns htidy hs hc)
      exact (hs.mem_iff (fun hc => hkeys (Or.inl hc)) fun hc => hkeys (Or.inr hc)).2 (ih hq hadded hconf hkept)
    cases hs with
    | @call j g c next r s' hp hr =>
      by_cases hj : j = i
      · subst hj
        obtain ⟨m, hr, rfl⟩ := hr
        simp only [calls, if_pos, List.mem_append, List.mem_singleton] at hadded hconf hkept
        by_cases hadds : effect c = .adds k
        · simp [hr.2 (hconf ⟨c, r⟩ (Or.inr rfl) hadds), hadds, Effect.apply]
        · obtain ⟨e, he | rfl, hk⟩ := hadded
          · have hmem := ih hp ⟨e, he, hk⟩ (fun e' he' => hconf e' (Or.inl he')) fun e' he' => hkept e' (Or.inl he')
            exact (hr.1.mem_iff hadds (hkept ⟨c, r⟩ (Or.inr rfl))).2 hmem
          · exact absurd hk hadds
      · exact hother hj (by simpa [Ne.symm hj] using hq) (by simp [calls, hj])
    | @drop j g c next s' hp hs =>
      have hj : j ≠ i := by
        rintro rfl
        simp at hq
      exact hother hj (by simpa [Ne.symm hj] using hq) rfl
    | @other o s' hs =>
      -- a task that was not dropped has left nothing
      obtain ⟨hleft, hlate⟩ := h.nothing_left hq
      refine hother ?_ hq rfl
      rintro rfl
      cases hs with
      | left hp hr => cases hleft.symm.trans hp
      | late hc ha => cases hlate.symm.trans hc

end Runs

end Fut.Tasks
