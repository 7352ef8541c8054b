import Cheti.Base.Spawning
/-!
# Tasks some of whose calls are computations themselves

`nest h d p` is `p` with some of its calls carried out by computations (`h`) that share a state `d`; the other calls
are made as they were. Such a computation is awaited where the call was: as long as it is suspended, the task holds
what it held there, and a drop leaves the same behind.

Tasks that run so refine those of `Base.Spawning`: each stands at a call of its own program, with part of the
computation done that carries it out (`Steps.unnest`).
-/

namespace Fut

variable {ι G C A : Type} {R : C → Type} {RA : A → Type} {D α β S : Type}

def carried (g : Option G) : Fut Unit A RA β → Fut G (C ⊕ A) (Sum.elim R RA) β
  | .done b => .done b
  | .await g₀ a k => .await (g₀.bind fun _ => g) (.inr a) fun r => (k r).carried g

def nest (h : D → (c : C) → Option (Fut Unit A RA (R c × D))) : D → Fut G C R α → Fut G (C ⊕ A) (Sum.elim R RA) α
  | _, .done a => .done a
  | d, .await g c k => match h d c with
    | none => .await g (.inl c) fun r => nest h d (k r)
    | some p => (carried g p).bind fun x => nest h x.2 (k x.1)

variable {h : D → (c : C) → Option (Fut Unit A RA (R c × D))} {d d₀ : D} {g : Option G} {c : C} {k : R c → Fut G C R α}

@[simp] theorem nest_done (a : α) : nest h d (.done a : Fut G C R α) = .done a := rfl

theorem nest_pass (hh : h d c = none) : nest h d (.await g c k) = .await g (.inl c) fun r => nest h d (k r) := by
  rw [nest, hh]

theorem nest_carried {p : Fut Unit A RA (R c × D)} (hh : h d c = some p) :
    nest h d (.await g c k) = (carried g p).bind fun x => nest h x.2 (k x.1) := by
  rw [nest, hh]

/-- `t'` are the calls of `t`, with those that are carried out replaced by the calls that this makes; it ends with
the state `d'`. -/
inductive Unfolds (h : D → (c : C) → Option (Fut Unit A RA (R c × D))) :
    D → List (Ev C R) → List (Ev (C ⊕ A) (Sum.elim R RA)) → D → Prop
  | nil {d : D} : Unfolds h d [] [] d
  | pass {d d' : D} {c : C} {t : List (Ev C R)} {t' : List (Ev (C ⊕ A) (Sum.elim R RA))} (hh : h d c = none) (r : R c)
      (hrest : Unfolds h d t t' d') : Unfolds h d (⟨c, r⟩ :: t) (⟨.inl c, r⟩ :: t') d'
  | carried {d d₁ d' : D} {c : C} {p : Fut Unit A RA (R c × D)} {t₁ : List (Ev A RA)} {r : R c} {t : List (Ev C R)}
      {t' : List (Ev (C ⊕ A) (Sum.elim R RA))} (hh : h d c = some p) (hrun : p.Runs t₁ (r, d₁))
      (hrest : Unfolds h d₁ t t' d') : Unfolds h d (⟨c, r⟩ :: t) (t₁.map (fun e => ⟨.inr e.call, e.reply⟩) ++ t') d'

theorem unfolds_append {t₁ t₂ : List (Ev C R)} {t' : List (Ev (C ⊕ A) (Sum.elim R RA))} {d d' : D} :
    Unfolds h d (t₁ ++ t₂) t' d' ↔
      ∃ t₁' t₂' d₁, t' = t₁' ++ t₂' ∧ Unfolds h d t₁ t₁' d₁ ∧ Unfolds h d₁ t₂ t₂' d' := by
  induction t₁ generalizing d t' with
  | nil =>
    constructor
    · intro hun
      exact ⟨[], t', d, rfl, .nil, hun⟩
    · rintro ⟨t₁', t₂', d₁, rfl, h₁, h₂⟩
      cases h₁
      exact h₂
  | cons e t₁ ih =>
    constructor
    · intro hun
      cases hun with
      | pass hh r hrest =>
        obtain ⟨t₁', t₂', d₁, rfl, h₁, h₂⟩ := ih.1 hrest
        exact ⟨_, t₂', d₁, rfl, .pass hh r h₁, h₂⟩
      | carried hh hrun hrest =>
        obtain ⟨t₁', t₂', d₁, rfl, h₁, h₂⟩ := ih.1 hrest
        exact ⟨_, t₂', d₁, (List.append_assoc ..).symm, .carried hh hrun h₁, h₂⟩
    · rintro ⟨t₁', t₂', d₁, rfl, h₁, h₂⟩
      cases h₁ with
      | pass hh r hrest => exact .pass hh r (ih.2 ⟨_, _, _, rfl, hrest, h₂⟩)
      | carried hh hrun hrest =>
        rw [List.append_assoc]
        exact .carried hh hrun (ih.2 ⟨_, _, _, rfl, hrest, h₂⟩)

/-- The state after the calls of `t`. -/
def Leads (h : D → (c : C) → Option (Fut Unit A RA (R c × D))) (d₀ : D) (t : List (Ev C R)) (d : D) : Prop :=
  ∃ t', Unfolds h d₀ t t' d

theorem Leads.nil : Leads h d [] d := ⟨[], .nil⟩

theorem Leads.pass {t : List (Ev C R)} (hd : Leads h d₀ t d) (hh : h d c = none) (r : R c) :
    Leads h d₀ (t ++ [⟨c, r⟩]) d := by
  obtain ⟨t', hun⟩ := hd
  exact ⟨_, unfolds_append.2 ⟨t', _, d, rfl, hun, .pass hh r .nil⟩⟩

theorem Leads.carried {t : List (Ev C R)} {d' : D} {p : Fut Unit A RA (R c × D)} {t₁ : List (Ev A RA)} {r : R c}
    (hd : Leads h d₀ t d) (hh : h d c = some p) (hrun : p.Runs t₁ (r, d')) : Leads h d₀ (t ++ [⟨c, r⟩]) d' := by
  obtain ⟨t', hun⟩ := hd
  exact ⟨_, unfolds_append.2 ⟨t', _, d, rfl, hun, .carried hh hrun .nil⟩⟩

theorem runs_carried {p : Fut Unit A RA β} {t : List (Ev (C ⊕ A) (Sum.elim R RA))} {b : β} :
    (carried g p : Fut G (C ⊕ A) (Sum.elim R RA) β).Runs t b ↔
      ∃ t₁, p.Runs t₁ b ∧ t = t₁.map fun e => ⟨.inr e.call, e.reply⟩ := by
  induction p generalizing t with
  | done b' =>
    rw [carried, runs_done]
    constructor
    · rintro ⟨rfl, rfl⟩
      exact ⟨[], runs_done.2 ⟨rfl, rfl⟩, rfl⟩
    · rintro ⟨t₁, hrun, rfl⟩
      obtain ⟨rfl, rfl⟩ := runs_done.1 hrun
      exact ⟨rfl, rfl⟩
  | await g₀ a k ih =>
    rw [carried, runs_await]
    constructor
    · rintro ⟨r, t', rfl, hrun⟩
      obtain ⟨t₁, hk, rfl⟩ := (ih r).1 hrun
      exact ⟨⟨a, r⟩ :: t₁, runs_await.2 ⟨r, t₁, rfl, hk⟩, rfl⟩
    · rintro ⟨t₁, hrun, rfl⟩
      obtain ⟨r, t₂, rfl, hk⟩ := runs_await.1 hrun
      exact ⟨r, _, rfl, (ih r).2 ⟨t₂, hk, rfl⟩⟩

/-- A run is one of the program, unfolded. -/
theorem runs_nest {p : Fut G C R α} {t' : List (Ev (C ⊕ A) (Sum.elim R RA))} {a : α} (hrun : (nest h d p).Runs t' a) :
    ∃ t d', p.Runs t a ∧ Unfolds h d t t' d' := by
  induction p generalizing d t' with
  | done b =>
    obtain ⟨rfl, rfl⟩ := runs_done.1 hrun
    exact ⟨[], d, runs_done.2 ⟨rfl, rfl⟩, .nil⟩
  | await g c k ih =>
    cases hh : h d c with
    | none =>
      rw [nest_pass hh] at hrun
      obtain ⟨r, t₂, rfl, hrest⟩ := runs_await.1 hrun
      obtain ⟨t, d', ht, hun⟩ := ih r hrest
      exact ⟨⟨c, r⟩ :: t, d', runs_await.2 ⟨r, t, rfl, ht⟩, .pass hh r hun⟩
    | some q =>
      rw [nest_carried hh] at hrun
      obtain ⟨t₁', x, t₂, hcall, hrest, rfl⟩ := runs_bind.1 hrun
      obtain ⟨t₁, hq, rfl⟩ := runs_carried.1 hcall
      obtain ⟨t, d', ht, hun⟩ := ih x.1 hrest
      exact ⟨⟨c, x.1⟩ :: t, d', runs_await.2 ⟨x.1, t, rfl, ht⟩, .carried hh hq hun⟩

/-- The task stands at a call of `q` that is being carried out, or may be done already. -/
inductive Stands (h : D → (c : C) → Option (Fut Unit A RA (R c × D))) (d₀ : D) (t : List (Ev C R)) :
    Fut G (C ⊕ A) (Sum.elim R RA) α → Fut G C R α → Prop
  | start {d : D} {q : Fut G C R α} (hd : Leads h d₀ t d) : Stands h d₀ t (nest h d q) q
  | inner {d : D} {g : Option G} {c : C} {k : R c → Fut G C R α} {p q : Fut Unit A RA (R c × D)} {t₁ : List (Ev A RA)}
      (hd : Leads h d₀ t d) (hh : h d c = some p) (hat : p.At t₁ q) :
      Stands h d₀ t ((carried g q).bind fun x => nest h x.2 (k x.1)) (.await g c k)

/-- The same, with every call of `q` made that is done. -/
inductive Front (h : D → (c : C) → Option (Fut Unit A RA (R c × D))) (d₀ : D) (t : List (Ev C R)) :
    Fut G (C ⊕ A) (Sum.elim R RA) α → Fut G C R α → Prop
  | done {d : D} (hd : Leads h d₀ t d) (a : α) : Front h d₀ t (.done a) (.done a)
  | pass {d : D} {g : Option G} {c : C} {k : R c → Fut G C R α} (hd : Leads h d₀ t d) (hh : h d c = none) :
      Front h d₀ t (.await g (.inl c) fun r => nest h d (k r)) (.await g c k)
  | inner {d : D} {g : Option G} {c : C} {k : R c → Fut G C R α} {p : Fut Unit A RA (R c × D)} {t₁ : List (Ev A RA)}
      {g₀ : Option Unit} {a : A} {k₀ : RA a → Fut Unit A RA (R c × D)}
      (hd : Leads h d₀ t d) (hh : h d c = some p) (hat : p.At t₁ (.await g₀ a k₀)) :
      Front h d₀ t (.await (g₀.bind fun _ => g) (.inr a) fun r => (carried g (k₀ r)).bind fun x => nest h x.2 (k x.1))
        (.await g c k)

/-- The calls that `h` carries out. -/
def Carried (h : D → (c : C) → Option (Fut Unit A RA (R c × D))) (c : C) : Prop := ∃ d p, h d c = some p

/-- The calls that are done are made, as many as there are. -/
theorem Stands.front {t : List (Ev C R)} {p' : Fut G (C ⊕ A) (Sum.elim R RA) α} {p : Fut G C R α}
    (hst : Stands h d₀ t p' p) : ∃ u q, p.At u q ∧ (∀ e ∈ u, Carried h e.call) ∧ Front h d₀ (t ++ u) p' q := by
  induction p generalizing t p' with
  | done a =>
    cases hst with
    | start hd => exact ⟨[], .done a, at_nil.2 rfl, by simp, .done (by simpa using hd) a⟩
  | await g c k ih =>
    have hinner : ∀ {d p q t₁}, Leads h d₀ t d → h d c = some p → p.At t₁ q →
        ∃ u q', (Fut.await g c k).At u q' ∧ (∀ e ∈ u, Carried h e.call) ∧
          Front h d₀ (t ++ u) ((carried g q).bind fun x => nest h x.2 (k x.1)) q' := by
      intro d p q t₁ hd hh hat
      cases q with
      | done x =>
        -- the call is done: go on behind it
        obtain ⟨u, q', hu, hall, hfront⟩ := ih x.1 (.start (hd.carried hh hat))
        refine ⟨⟨c, x.1⟩ :: u, q', ⟨x.1, rfl, hu⟩, ?_, by rw [List.append_cons]; exact hfront⟩
        simpa using ⟨⟨d, p, hh⟩, hall⟩
      | await g₀ a k₀ =>
        exact ⟨[], _, at_nil.2 rfl, by simp, by rw [List.append_nil]; exact .inner hd hh hat⟩
    cases hst with
    | inner hd hh hat => exact hinner hd hh hat
    | @start d _ hd =>
      cases hh : h d c with
      | none =>
        rw [nest_pass hh]
        exact ⟨[], _, at_nil.2 rfl, by simp, by rw [List.append_nil]; exact .pass hd hh⟩
      | some p =>
        rw [nest_carried hh]
        exact hinner hd hh (at_nil.2 rfl)

theorem Front.stands {t : List (Ev C R)} {p' : Fut G (C ⊕ A) (Sum.elim R RA) α} {p : Fut G C R α}
    (hf : Front h d₀ t p' p) : Stands h d₀ t p' p := by
  cases hf with
  | done hd a => exact Stands.start (q := .done a) hd
  | pass hd hh =>
    rw [← nest_pass hh]
    exact .start hd
  | inner hd hh hat => exact .inner hd hh hat

/-- Where it may be dropped, its guard is that of the call. -/
theorem Front.guard {t : List (Ev C R)} {p : Fut G C R α} {g : G} {c' : C ⊕ A}
    {k' : Sum.elim R RA c' → Fut G (C ⊕ A) (Sum.elim R RA) α} {p' : Fut G (C ⊕ A) (Sum.elim R RA) α}
    (hf : Front h d₀ t p' p) (hp : p' = .await (some g) c' k') :
    ∃ c k, p = .await (some g) c k ∧ (c' = .inl c ∨ Carried h c ∧ ∃ a, c' = .inr a) := by
  cases hf with
  | done => cases hp
  | @pass d g c k hd hh =>
    cases hp
    exact ⟨c, k, rfl, Or.inl rfl⟩
  | @inner d g c k p t₁ g₀ a k₀ hd hh hat =>
    cases g₀ with
    | none => cases hp
    | some u =>
      cases hp
      exact ⟨c, k, rfl, Or.inr ⟨⟨d, p, hh⟩, a, rfl⟩⟩

namespace Tasks

/-- What carries out a call leaves the state alone. -/
def nestEnv (H : Env C R S) : Env (C ⊕ A) (Sum.elim R RA) S
  | .inl c => H c
  | .inr _ => fun _ s s' => s' = s

def nestAbandons (abandons : C → S → S → Prop) : C ⊕ A → S → S → Prop
  | .inl c => abandons c
  | .inr _ => fun s s' => s' = s

def nestSpawns (h : D → (c : C) → Option (Fut Unit A RA (R c × D))) (d₀ : D)
    (spawns : Bool → G → Option (Fut Unit C R Unit)) (runtime : Bool) (g : G) :
    Option (Fut Unit (C ⊕ A) (Sum.elim R RA) Unit) := (spawns runtime g).map (nest h d₀)

/-- A computation of which no call is carried out by another. -/
def Passes (h : D → (c : C) → Option (Fut Unit A RA (R c × D))) (q : Fut Unit C R Unit) : Prop :=
  ∀ t c, q.Issues t c → ∀ d, h d c = none

theorem Passes.step {g : Option Unit} {k : R c → Fut Unit C R Unit} (hq : Passes h (.await g c k)) (r : R c) :
    Passes h (k r) := fun t c' hc' => hq (⟨c, r⟩ :: t) c' (issues_await.2 (Or.inr ⟨r, t, rfl, hc'⟩))

variable [DecidableEq ι] {H : Env C R S} {abandons : C → S → S → Prop} {runtime : ι → Bool}
  {spawns : Bool → G → Option (Fut Unit C R Unit)} {p : ι → Fut G C R α} {d : ι → D} {s₀ : S}

/-- The two machines are at the same point. -/
structure Level (h : D → (c : C) → Option (Fut Unit A RA (R c × D))) (d : ι → D) (d₀ : D)
    (w : History ι C R) (cfg' : Config ι G (C ⊕ A) (Sum.elim R RA) α (Shared ι (C ⊕ A) (Sum.elim R RA) S))
    (cfg : Config ι G C R α (Shared ι C R S)) : Prop where
  state : cfg'.store.state = cfg.store.state
  prog : ∀ i q', cfg'.prog i = some q' → ∃ q, cfg.prog i = some q ∧ Stands h (d i) (calls i w) q' q
  left : ∀ i, cfg'.store.left i = (cfg.store.left i).map (nest h d₀)
  passes : ∀ i q, cfg.store.left i = some q → Passes h q
  late : ∀ i c, cfg'.store.late i = some (.inl c) → cfg.store.late i = some c

section Unnest

variable {w : History ι C R}
  {cfg' : Config ι G (C ⊕ A) (Sum.elim R RA) α (Shared ι (C ⊕ A) (Sum.elim R RA) S)} {cfg : Config ι G C R α (Shared ι C R S)}

/-- The calls of one task that are done are made. -/
theorem Level.front (hquiet : ∀ c, Carried h c → ∀ r s, H c r s s) (hlevel : Level h d d₀ w cfg' cfg)
    (hs : Steps (spawning H abandons runtime spawns) (start p (.init s₀)) w cfg) {i : ι}
    {q' : Fut G (C ⊕ A) (Sum.elim R RA) α} (hq : cfg'.prog i = some q') :
    ∃ w₁ cfg₁ q, Steps (spawning H abandons runtime spawns) (start p (.init s₀)) w₁ cfg₁ ∧ Level h d d₀ w₁ cfg' cfg₁ ∧
      cfg₁.prog i = some q ∧ Front h (d i) (calls i w₁) q' q := by
  obtain ⟨q₀, hq₀, hst⟩ := hlevel.prog i q' hq
  obtain ⟨u, q, hat, hall, hfront⟩ := hst.front
  have hchain : ∀ {u : List (Ev C R)}, (∀ e ∈ u, Carried h e.call) → Chain H u cfg.store.state cfg.store.state := by
    intro u hu
    induction u with
    | nil => rfl
    | cons e u ih =>
      rw [List.forall_mem_cons] at hu
      exact ⟨cfg.store.state, hquiet e.call hu.1 _ _, ih hu.2⟩
  have hcalls : ∀ j, calls j (w ++ u.map (.call i)) = calls j w ++ if j = i then u else [] := by
    intro j
    rw [calls_append, calls_map_call]
  have hprog : ∀ j q', cfg'.prog j = some q' → ∃ q₁, Function.update cfg.prog i (some q) j = some q₁ ∧
      Stands h (d j) (calls j (w ++ u.map (.call i))) q' q₁ := by
    intro j q₁ hq₁
    by_cases hj : j = i
    · subst hj
      obtain rfl : q' = q₁ := Option.some.inj (hq.symm.trans hq₁)
      exact ⟨q, Function.update_self .., by rw [hcalls, if_pos rfl]; exact hfront.stands⟩
    · obtain ⟨q₂, hq₂, hst⟩ := hlevel.prog j q₁ hq₁
      exact ⟨q₂, by simpa [hj] using hq₂, by rw [hcalls, if_neg hj, List.append_nil]; exact hst⟩
  exact ⟨_, _, q, hs.go_on hq₀ hat (hchain hall),
    ⟨hlevel.state, hprog, hlevel.left, hlevel.passes, hlevel.late⟩, Function.update_self ..,
    by rw [hcalls, if_pos rfl]; exact hfront⟩

/-- A call that is passed on is made below too; one of those that carry out another is a part of it. -/
theorem Level.call (hquiet : ∀ c, Carried h c → ∀ r s, H c r s s) (hlevel : Level h d d₀ w cfg' cfg)
    (hs : Steps (spawning H abandons runtime spawns) (start p (.init s₀)) w cfg) {i : ι} {g : Option G} {c' : C ⊕ A}
    {k' : Sum.elim R RA c' → Fut G (C ⊕ A) (Sum.elim R RA) α} {r' : Sum.elim R RA c'} {m : S}
    (hp : cfg'.prog i = some (.await g c' k')) (hr : nestEnv H c' r' cfg'.store.state m) :
    ∃ w₁ cfg₁, Steps (spawning H abandons runtime spawns) (start p (.init s₀)) w₁ cfg₁ ∧
      Level h d d₀ w₁ ⟨{ cfg'.store with state := m }, Function.update cfg'.prog i (some (k' r'))⟩ cfg₁ := by
  obtain ⟨w₁, cfg₁, q, hs₁, hl₁, hq, hfront⟩ := hlevel.front hquiet hs hp
  cases hfront with
  | @pass d₁ g c k hd hh =>
    have hr₁ : H c r' cfg₁.store.state m := hl₁.state ▸ hr
    refine ⟨_, _, .snoc hs₁ (.call hq ⟨m, hr₁, rfl⟩), rfl, fun j q' hq' => ?_, hl₁.left, hl₁.passes, hl₁.late⟩
    rw [calls_append]
    by_cases hj : j = i
    · subst hj
      obtain rfl : nest h d₁ (k r') = q' := by simpa using hq'
      exact ⟨k r', by simp, by simpa [calls] using Stands.start (hd.pass hh r')⟩
    · obtain ⟨q₁, hq₁, hst⟩ := hl₁.prog j q' (by simpa [hj] using hq')
      exact ⟨q₁, by simpa [hj] using hq₁, by simpa [calls, Ne.symm hj] using hst⟩
  | @inner d₁ g c k p t₁ g₀ a k₀ hd hh hat =>
    obtain rfl : m = cfg'.store.state := hr
    refine ⟨w₁, cfg₁, hs₁, hl₁.state, fun j q' hq' => ?_, hl₁.left, hl₁.passes, hl₁.late⟩
    by_cases hj : j = i
    · subst hj
      obtain rfl : ((carried g (k₀ r')).bind fun x => nest h x.2 (k x.1)) = q' := by simpa using hq'
      exact ⟨_, hq, .inner hd hh (hat.snoc r')⟩
    · exact hl₁.prog j q' (by simpa [hj] using hq')

/-- Wherever a task is dropped, its guard is that of the call. -/
theorem Level.drop (hquiet : ∀ c, Carried h c → ∀ r s, H c r s s)
    (hspawns : ∀ i t g c q, (p i).Stops t g c → spawns (runtime i) g = some q → Passes h q)
    (hlevel : Level h d d₀ w cfg' cfg) (hs : Steps (spawning H abandons runtime spawns) (start p (.init s₀)) w cfg)
    {i : ι} {g : G} {c' : C ⊕ A} {k' : Sum.elim R RA c' → Fut G (C ⊕ A) (Sum.elim R RA) α}
    (hp : cfg'.prog i = some (.await (some g) c' k')) :
    ∃ w₁ cfg₁, Steps (spawning H abandons runtime spawns) (start p (.init s₀)) w₁ cfg₁ ∧
      Level h d d₀ w₁ ⟨cfg'.store.drop i c' (nestSpawns h d₀ spawns (runtime i) g), Function.update cfg'.prog i none⟩ cfg₁ := by
  obtain ⟨w₁, cfg₁, q, hs₁, hl₁, hprog, hfront⟩ := hlevel.front hquiet hs hp
  obtain ⟨c, k, rfl, hc⟩ := hfront.guard rfl
  refine ⟨_, _, .snoc hs₁ (.drop hprog ⟨g, rfl, rfl⟩), hl₁.state, fun j q' hq' => ?_, fun j => ?_, fun j q hq => ?_,
    fun j c₁ hc₁ => ?_⟩
  · have hj : j ≠ i := by
      rintro rfl
      simp at hq'
    obtain ⟨q₁, hq₁, hst⟩ := hl₁.prog j q' (by simpa [hj] using hq')
    exact ⟨q₁, by simpa [hj] using hq₁, by simpa [calls, calls_append] using hst⟩
  · by_cases hj : j = i
    · subst hj
      simp [Shared.drop, nestSpawns]
    · simpa [Shared.drop, hj] using hl₁.left j
  · by_cases hj : j = i
    · subst hj
      exact hspawns j _ g c q ⟨k, hs₁.at_some rfl hprog⟩ (by simpa [Shared.drop] using hq)
    · exact hl₁.passes j q (by simpa [Shared.drop, hj] using hq)
  · by_cases hj : j = i
    · subst hj
      obtain rfl : c' = .inl c₁ := by simpa [Shared.drop] using hc₁
      rcases hc with heq | ⟨-, a, heq⟩
      · cases heq
        simp [Shared.drop]
      · cases heq
    · simpa [Shared.drop, hj] using hl₁.late j c₁ (by simpa [Shared.drop, hj] using hc₁)

/-- What a task has left behind makes the calls of its program. -/
theorem Level.leftStep (hlevel : Level h d d₀ w cfg' cfg)
    (hs : Steps (spawning H abandons runtime spawns) (start p (.init s₀)) w cfg) {i : ι} {g : Option Unit} {c' : C ⊕ A}
    {k' : Sum.elim R RA c' → Fut Unit (C ⊕ A) (Sum.elim R RA) Unit} {r' : Sum.elim R RA c'} {m : S}
    (hp : cfg'.store.left i = some (.await g c' k')) (hr : nestEnv H c' r' cfg'.store.state m) :
    ∃ w₁ cfg₁, Steps (spawning H abandons runtime spawns) (start p (.init s₀)) w₁ cfg₁ ∧
      Level h d d₀ w₁ ⟨cfg'.store.leftStep i m (k' r'), cfg'.prog⟩ cfg₁ := by
  rw [hlevel.left i] at hp
  obtain ⟨q, hq, hnest⟩ := Option.map_eq_some_iff.1 hp
  have hpass := hlevel.passes i q hq
  cases q with
  | done u => cases hnest
  | await g₁ c k =>
    have hh : h d₀ c = none := hpass [] c ⟨g₁, k, at_nil.2 rfl⟩ d₀
    rw [nest_pass hh] at hnest
    cases hnest
    have hr₁ : H c r' cfg.store.state m := hlevel.state ▸ hr
    refine ⟨_, _, .snoc hs (.other (.left hq hr₁)), rfl, fun j q' hq' => ?_, fun j => ?_, fun j q hq => ?_, hlevel.late⟩
    · obtain ⟨q₁, hq₁, hst⟩ := hlevel.prog j q' hq'
      exact ⟨q₁, hq₁, by simpa [calls, calls_append] using hst⟩
    · by_cases hj : j = i
      · subst hj
        simp [Shared.leftStep]
      · simpa [Shared.leftStep, hj] using hlevel.left j
    · by_cases hj : j = i
      · subst hj
        obtain rfl : k r' = q := by simpa [Shared.leftStep] using hq
        exact hpass.step r'
      · exact hlevel.passes j q (by simpa [Shared.leftStep, hj] using hq)

/-- A call has its effect late; what only carries out a call has none. -/
theorem Level.lateStep (hlevel : Level h d d₀ w cfg' cfg)
    (hs : Steps (spawning H abandons runtime spawns) (start p (.init s₀)) w cfg) {i : ι} {c' : C ⊕ A} {m : S}
    (hc : cfg'.store.late i = some c') (ha : nestAbandons abandons c' cfg'.store.state m) :
    ∃ w₁ cfg₁, Steps (spawning H abandons runtime spawns) (start p (.init s₀)) w₁ cfg₁ ∧
      Level h d d₀ w₁ ⟨cfg'.store.lateStep i m, cfg'.prog⟩ cfg₁ := by
  cases c' with
  | inl c =>
    have ha₁ : abandons c cfg.store.state m := hlevel.state ▸ ha
    refine ⟨_, _, .snoc hs (.other (.late (hlevel.late i c hc) ha₁)), rfl, fun j q' hq' => ?_, hlevel.left,
      hlevel.passes, fun j c₁ hc₁ => ?_⟩
    · obtain ⟨q₁, hq₁, hst⟩ := hlevel.prog j q' hq'
      exact ⟨q₁, hq₁, by simpa [calls, calls_append] using hst⟩
    · by_cases hj : j = i
      · subst hj
        simp [Shared.lateStep] at hc₁
      · simpa [Shared.lateStep, hj] using hlevel.late j c₁ (by simpa [Shared.lateStep, hj] using hc₁)
  | inr a =>
    obtain rfl : m = cfg'.store.state := ha
    refine ⟨w, cfg, hs, hlevel.state, hlevel.prog, hlevel.left, hlevel.passes, fun j c₁ hc₁ => ?_⟩
    by_cases hj : j = i
    · subst hj
      simp [Shared.lateStep] at hc₁
    · exact hlevel.late j c₁ (by simpa [Shared.lateStep, hj] using hc₁)

/-- **Refinement.** What a machine does whose tasks carry out some of their calls themselves is done by the machine
of their programs. -/
theorem Steps.unnest (hquiet : ∀ c, Carried h c → ∀ r s, H c r s s)
    (hspawns : ∀ i t g c q, (p i).Stops t g c → spawns (runtime i) g = some q → Passes h q)
    {w' : History ι (C ⊕ A) (Sum.elim R RA)}
    (hs : Steps (spawning (nestEnv H) (nestAbandons abandons) runtime (nestSpawns h d₀ spawns))
      (start (fun i => nest h (d i) (p i)) (.init s₀)) w' cfg') :
    ∃ w cfg, Steps (spawning H abandons runtime spawns) (start p (.init s₀)) w cfg ∧ Level h d d₀ w cfg' cfg := by
  induction hs with
  | nil =>
    refine ⟨[], _, .nil, rfl, fun i q' hq' => ?_, fun i => rfl, fun i q hq => (by cases hq), fun i c hc => by cases hc⟩
    obtain rfl : nest h (d i) (p i) = q' := Option.some.inj hq'
    exact ⟨p i, rfl, .start .nil⟩
  | snoc _ hstep ih =>
    obtain ⟨w, cfg, hs, hlevel⟩ := ih
    cases hstep with
    | call hp hr =>
      obtain ⟨m, hr, rfl⟩ := hr
      exact hlevel.call hquiet hs hp hr
    | drop hp hd =>
      obtain ⟨g, rfl, rfl⟩ := hd
      exact hlevel.drop hquiet hspawns hs hp
    | other hstep =>
      cases hstep with
      | left hp hr => exact hlevel.leftStep hs hp hr
      | late hc ha => exact hlevel.lateStep hs hc ha

end Unnest

end Tasks

end Fut
