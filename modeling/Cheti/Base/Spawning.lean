import Cheti.Base.Tasks
/-!
# Tasks that leave work behind

A task that is dropped where it is suspended may leave a task behind that goes on by itself (`spawns`): what it
leaves may depend on where it was dropped (`runtime`). The call that it was waiting for is not taken back: it may be
carried out at any later time (`abandons`), once, or never.
-/

namespace Fut.Tasks

variable {ι G C : Type} {R : C → Type} {α S : Type}

/-! ## The machine -/

/-- What tasks share, and what those that were dropped have left. -/
structure Shared (ι C : Type) (R : C → Type) (S : Type) where
  state : S
  left : ι → Option (Fut Unit C R Unit)
  /-- The call that was in flight. -/
  late : ι → Option C

namespace Shared

def init (s₀ : S) : Shared ι C R S := ⟨s₀, fun _ => none, fun _ => none⟩

variable [DecidableEq ι] (s : Shared ι C R S) (i : ι)

def drop (c : C) (q : Option (Fut Unit C R Unit)) : Shared ι C R S :=
  { s with left := Function.update s.left i q, late := Function.update s.late i (some c) }

def leftStep (m : S) (q : Fut Unit C R Unit) : Shared ι C R S :=
  { s with state := m, left := Function.update s.left i (some q) }

def lateStep (m : S) : Shared ι C R S := { s with state := m, late := Function.update s.late i none }

end Shared

inductive Event (ι C : Type) (R : C → Type) where
  /-- A call of what was left behind. -/
  | left (i : ι) (e : Ev C R)
  /-- A call is carried out whose task is gone. -/
  | late (i : ι) (c : C)

abbrev History (ι C : Type) (R : C → Type) := List (Label ι C R (Event ι C R))

section Machine

variable [DecidableEq ι] (H : Env C R S) (abandons : C → S → S → Prop) (runtime : ι → Bool)
  (spawns : Bool → G → Option (Fut Unit C R Unit))

inductive Shared.Step : Event ι C R → Shared ι C R S → Shared ι C R S → Prop where
  | left {s : Shared ι C R S} {i : ι} {g : Option Unit} {c : C} {k : R c → Fut Unit C R Unit} {r : R c} {m : S}
      (hp : s.left i = some (.await g c k)) (hr : H c r s.state m) : Step (.left i ⟨c, r⟩) s (s.leftStep i m (k r))
  | late {s : Shared ι C R S} {i : ι} {c : C} {m : S} (hc : s.late i = some c) (ha : abandons c s.state m) :
      Step (.late i c) s (s.lateStep i m)

def spawning : World ι G C R (Shared ι C R S) (Event ι C R) where
  call _ c r s s' := ∃ m, H c r s.state m ∧ s' = { s with state := m }
  drop i g c s s' := ∃ g', g = some g' ∧ s' = s.drop i c (spawns (runtime i) g')
  other := Shared.Step H abandons

end Machine

variable [DecidableEq ι] {H : Env C R S} {abandons : C → S → S → Prop} {runtime : ι → Bool}
  {spawns : Bool → G → Option (Fut Unit C R Unit)} {p : ι → Fut G C R α} {s₀ : S}
  {cfg : Config ι G C R α (Shared ι C R S)} {w : History ι C R}

theorem chain_spawning {i : ι} {t : List (Ev C R)} {s : Shared ι C R S} {m : S} (h : Chain H t s.state m) :
    Chain ((spawning H abandons runtime spawns).call i) t s { s with state := m } := by
  induction t generalizing s with
  | nil =>
    obtain rfl : s.state = m := h
    rfl
  | cons e t ih =>
    obtain ⟨m', he, hrest⟩ := h
    exact ⟨{ s with state := m' }, ⟨m', he, rfl⟩, ih hrest⟩

section Happens

variable {init : Config ι G C R α (Shared ι C R S)} (h : Steps (spawning H abandons runtime spawns) init w cfg) {i : ι} {c : C}
  {m : S}

include h

/-- A task may go on for a while. -/
theorem Steps.go_on {p q : Fut G C R α} {t : List (Ev C R)} (hp : cfg.prog i = some p) (hat : p.At t q)
    (hc : Chain H t cfg.store.state m) : Steps (spawning H abandons runtime spawns) init (w ++ t.map (.call i))
      ⟨{ cfg.store with state := m }, Function.update cfg.prog i (some q)⟩ :=
  h.run hp hat (chain_spawning hc)

theorem Steps.drop {g : G} {k : R c → Fut G C R α} (hp : cfg.prog i = some (.await (some g) c k)) :
    Steps (spawning H abandons runtime spawns) init (w ++ [.drop i c])
      ⟨cfg.store.drop i c (spawns (runtime i) g), Function.update cfg.prog i none⟩ :=
  h.snoc (.drop hp ⟨g, rfl, rfl⟩)

theorem Steps.left {g : Option Unit} {k : R c → Fut Unit C R Unit} {r : R c}
    (hp : cfg.store.left i = some (.await g c k)) (hr : H c r cfg.store.state m) :
    Steps (spawning H abandons runtime spawns) init (w ++ [.other (.left i ⟨c, r⟩)])
      ⟨cfg.store.leftStep i m (k r), cfg.prog⟩ :=
  h.snoc (.other (.left hp hr))

theorem Steps.late (hc : cfg.store.late i = some c) (ha : abandons c cfg.store.state m) :
    Steps (spawning H abandons runtime spawns) init (w ++ [.other (.late i c)]) ⟨cfg.store.lateStep i m, cfg.prog⟩ :=
  h.snoc (.other (.late hc ha))

end Happens

/-! ## What was left -/

/-- Only a task that was dropped leaves something. -/
theorem Steps.nothing_left (h : Steps (spawning H abandons runtime spawns) (start p (.init s₀)) w cfg) {i : ι}
    {q : Fut G C R α} (hq : cfg.prog i = some q) : cfg.store.left i = none ∧ cfg.store.late i = none := by
  induction h generalizing q with
  | nil => exact ⟨rfl, rfl⟩
  | @snoc w cfg cfg' l h hs ih =>
    cases hs with
    | @call j g c k r s' hp hr =>
      obtain ⟨m, -, rfl⟩ := hr
      by_cases hj : i = j
      · subst hj
        exact ih hp
      · exact ih (q := q) (by simpa [hj] using hq)
    | @drop j g c k s' hp hs =>
      obtain ⟨g', -, rfl⟩ := hs
      have hj : i ≠ j := by
        rintro rfl
        simp at hq
      simpa [Shared.drop, hj] using ih (q := q) (by simpa [hj] using hq)
    | other hs =>
      cases hs with
      | @left _ j g c k r m hp hr =>
        have hj : i ≠ j := by
          rintro rfl
          rw [(ih hq).1] at hp
          cases hp
        simpa [Shared.leftStep, hj] using ih hq
      | @late _ j c m hc ha =>
        by_cases hj : i = j
        · subst hj
          simpa [Shared.lateStep] using (ih hq).1
        · simpa [Shared.lateStep, hj] using ih hq

/-- The task stopped where it was dropped, after some of the calls. -/
structure Dropped (i : ι) (p : Fut G C R α) (w : History ι C R) (t : List (Ev C R)) (g : G) (c : C) :
    Prop where
  stops : p.Stops t g c
  calls : ∀ e ∈ t, Label.call i e ∈ w
  mem : Label.drop i c ∈ w

omit [DecidableEq ι] in
theorem Dropped.snoc {i : ι} {t : List (Ev C R)} {g : G} {c : C} (h : Dropped i (p i) w t g c)
    (l : Label ι C R (Event ι C R)) : Dropped i (p i) (w ++ [l]) t g c :=
  ⟨h.stops, fun e he => List.mem_append_left _ (h.calls e he), List.mem_append_left _ h.mem⟩

/-- What was left behind is what the guard has spawned, or what became of that. -/
def LeftBehind (q₀ : Option (Fut Unit C R Unit)) (q : Fut Unit C R Unit) : Prop := ∃ q₁ t, q₀ = some q₁ ∧ q₁.At t q

/-- Where what was left comes from. -/
theorem Steps.dropped (h : Steps (spawning H abandons runtime spawns) (start p (.init s₀)) w cfg) (i : ι) :
    (∀ q, cfg.store.left i = some q → ∃ t g c, Dropped i (p i) w t g c ∧ LeftBehind (spawns (runtime i) g) q) ∧
      ∀ c, cfg.store.late i = some c → ∃ t g, Dropped i (p i) w t g c := by
  induction h with
  | nil =>
    refine ⟨fun q hq => ?_, fun c hc => ?_⟩
    · cases hq
    · cases hc
  | @snoc w cfg cfg' l h hs ih =>
    obtain ⟨ihleft, ihlate⟩ := ih
    have hleft : ∀ q, cfg.store.left i = some q →
        ∃ t g c, Dropped i (p i) (w ++ [l]) t g c ∧ LeftBehind (spawns (runtime i) g) q := by
      intro q hq
      obtain ⟨t, g, c, hdropped, hbehind⟩ := ihleft q hq
      exact ⟨t, g, c, hdropped.snoc l, hbehind⟩
    have hlate : ∀ c, cfg.store.late i = some c → ∃ t g, Dropped i (p i) (w ++ [l]) t g c := by
      intro c hc
      obtain ⟨t, g, hdropped⟩ := ihlate c hc
      exact ⟨t, g, hdropped.snoc l⟩
    cases hs with
    | call hp hr =>
      obtain ⟨m, -, rfl⟩ := hr
      exact ⟨hleft, hlate⟩
    | @drop j g c k s' hp hs =>
      obtain ⟨g', rfl, rfl⟩ := hs
      by_cases hj : i = j
      · subst hj
        have hdropped : Dropped i (p i) (w ++ [.drop i c]) (Tasks.calls i w) g' c :=
          ⟨⟨k, h.at_some rfl hp⟩, fun e he => List.mem_append_left _ (mem_of_mem_calls he), by simp⟩
        refine ⟨fun q hq => ⟨_, g', c, hdropped, q, [], by simpa [Shared.drop] using hq, at_nil.2 rfl⟩, fun c' hc => ?_⟩
        obtain rfl : c = c' := by simpa [Shared.drop] using hc
        exact ⟨_, g', hdropped⟩
      · simpa [Shared.drop, hj] using And.intro hleft hlate
    | other hs =>
      cases hs with
      | @left _ j g c k r m hp hr =>
        refine ⟨fun q hq => ?_, hlate⟩
        by_cases hj : i = j
        · subst hj
          obtain rfl : k r = q := by simpa [Shared.leftStep] using hq
          obtain ⟨t, g', c', hdropped, q₁, t', hq₁, hat⟩ := hleft _ hp
          exact ⟨t, g', c', hdropped, q₁, t' ++ [⟨c, r⟩], hq₁, hat.snoc r⟩
        · exact hleft q (by simpa [Shared.leftStep, hj] using hq)
      | @late _ j c m hc ha =>
        refine ⟨hleft, fun c' hc' => ?_⟩
        by_cases hj : i = j
        · subst hj
          simp [Shared.lateStep] at hc'
        · exact hlate c' (by simpa [Shared.lateStep, hj] using hc')

/-- **Refinement.** Each call does to the state what the call of the machine above does to its abstraction. -/
theorem Steps.spawning_refines {S' : Type} {H' : Env C R S'} {abandons' : C → S' → S' → Prop} {abs : S → S'} {Valid : S → Prop}
    (hcall : ∀ c r s s', Valid s → H c r s s' → Valid s' ∧ H' c r (abs s) (abs s'))
    (habandon : ∀ c s s', Valid s → abandons c s s' → Valid s' ∧ abandons' c (abs s) (abs s')) (hs₀ : Valid s₀)
    (h : Steps (spawning H abandons runtime spawns) (start p (.init s₀)) w cfg) :
    Valid cfg.store.state ∧ Steps (spawning H' abandons' runtime spawns) (start p (.init (abs s₀))) w
      ⟨{ cfg.store with state := abs cfg.store.state }, cfg.prog⟩ := by
  refine h.refines (spawning H' abandons' runtime spawns) (fun s => ⟨abs s.state, s.left, s.late⟩)
    (fun s => Valid s.state) ?_ ?_ ?_ hs₀
  · rintro i c r s _ hvalid ⟨m, hr, rfl⟩
    obtain ⟨hvalid', hr'⟩ := hcall c r s.state m hvalid hr
    exact ⟨hvalid', _, hr', rfl⟩
  · rintro i g c s _ hvalid ⟨g', rfl, rfl⟩
    exact ⟨hvalid, g', rfl, rfl⟩
  · intro o s s' hvalid hs
    cases hs with
    | left hp hr =>
      obtain ⟨hvalid', hr'⟩ := hcall _ _ _ _ hvalid hr
      exact ⟨hvalid', .left hp hr'⟩
    | late hc ha =>
      obtain ⟨hvalid', ha'⟩ := habandon _ _ _ hvalid ha
      exact ⟨hvalid', .late hc ha'⟩

end Fut.Tasks
