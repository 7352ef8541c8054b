import Cheti.Base.Wp
/-!
# Critical sections are serial

Any number of tasks run on one store; one lock protects it. If every task touches the store only
between its `lock` and its `unlock`, and its other calls neither change the store nor depend on it
(`Disciplined`), then whatever the interleaving, the store is what results from running the tasks one
after another, each with exactly the calls and replies it had, in the order in which they took the
lock (`Steps.serial`).

The lock here is a bare `holder`; a real lock is connected to it by a simulation.
-/

namespace Fut.Serial

/-- What a call is with respect to the protected store. -/
inductive Kind where
  | lock
  | unlock
  /-- It may read or change the store. -/
  | critical
  /-- It has nothing to do with the store. -/
  | neutral
  /-- No task may make it. -/
  | foreign
deriving DecidableEq, Repr

/-- Where a task is with respect to its critical section. -/
inductive Phase where
  | before
  | inside
  | after
deriving DecidableEq, Repr

variable {ι G C : Type} {R : C → Type} {α S : Type}

/-- A call of this kind may be made in this phase. -/
def Kind.allowed : Kind → Phase → Prop
  | .lock, .before | .unlock, .inside | .critical, .inside | .neutral, _ => True
  | _, _ => False

def Kind.phase : Kind → Phase → Phase
  | .lock, _ => .inside
  | .unlock, _ => .after
  | _, ph => ph

section Discipline

variable (kind : C → Kind) (H : Env C R S) (Φ : α → Prop)

/-- The calls other than the critical ones leave the store, and are answered alike in every state. -/
def Idle : Prop := ∀ c r s s', kind c ≠ .critical → H c r s s' → s' = s ∧ ∀ s₁, H c r s₁ s₁

/-- The phases of a task, for any replies the environment may give. -/
def phases : Env C R Phase := fun c r ph ph' => (∃ s s', H c r s s') ∧ ph' = (kind c).phase ph

/-- Standing in `ph`, the task `p` makes every call in its phase, does not end with the lock, and ends in
`Φ` if it never took it. -/
def Disciplined (ph : Phase) (p : Fut G C R α) : Prop :=
  wp (fun c ph => (kind c).allowed ph) (phases kind H) p (fun a ph => ph ≠ .inside ∧ (ph = .before → Φ a)) ph

end Discipline

/-! ## The machine -/

structure Config (ι G C : Type) (R : C → Type) (α S : Type) where
  holder : Option ι
  store : S
  prog : ι → Fut G C R α

def Kind.holder (i : ι) : Kind → Option ι → Option ι
  | .lock, _ => some i
  | .unlock, _ => none
  | _, h => h

variable [DecidableEq ι] (kind : C → Kind) (H : Env C R S)

/-- The task `i` makes its next call; a `lock` waits until nobody holds the lock. -/
inductive Step : Config ι G C R α S → ι → Ev C R → Config ι G C R α S → Prop where
  | call {cfg : Config ι G C R α S} {i : ι} {g : Option G} {c : C} {k : R c → Fut G C R α} {r : R c} {s' : S}
      (hp : cfg.prog i = .await g c k) (hr : H c r cfg.store s')
      (hl : kind c = .lock → cfg.holder = none) :
      Step cfg i ⟨c, r⟩ ⟨(kind c).holder i cfg.holder, s', Function.update cfg.prog i (k r)⟩

/-- An interleaving: the calls of all tasks, each with the task that made it, in global order. -/
inductive Steps (init : Config ι G C R α S) : List (ι × Ev C R) → Config ι G C R α S → Prop where
  | nil : Steps init [] init
  | snoc {w : List (ι × Ev C R)} {cfg cfg' : Config ι G C R α S} {i : ι} {e : Ev C R}
      (h : Steps init w cfg) (hs : Step kind H cfg i e cfg') : Steps init (w ++ [(i, e)]) cfg'

/-- The calls of one task. -/
def proj (i : ι) (w : List (ι × Ev C R)) : List (Ev C R) := (w.filter (·.1 = i)).map Prod.snd

/-- The tasks that took the lock, in that order. -/
def order (w : List (ι × Ev C R)) : List ι :=
  w.filterMap fun x => if kind x.2.call = .lock then some x.1 else none

/-- The calls of the tasks `o`, one task after the other. -/
def serial (w : List (ι × Ev C R)) (o : List ι) : List (Ev C R) := o.flatMap fun i => proj i w

variable {kind : C → Kind} {H : Env C R S} {Φ : α → Prop}

@[simp] theorem proj_nil (i : ι) : proj i ([] : List (ι × Ev C R)) = [] := rfl

@[simp] theorem proj_snoc_self (i : ι) (w : List (ι × Ev C R)) (e : Ev C R) :
    proj i (w ++ [(i, e)]) = proj i w ++ [e] := by
  simp [proj]

theorem proj_snoc_of_ne {i j : ι} (h : i ≠ j) (w : List (ι × Ev C R)) (e : Ev C R) :
    proj j (w ++ [(i, e)]) = proj j w := by
  simp [proj, h]

omit [DecidableEq ι] in
theorem order_snoc (w : List (ι × Ev C R)) (i : ι) (e : Ev C R) :
    order kind (w ++ [(i, e)]) = order kind w ++ if kind e.call = .lock then [i] else [] := by
  unfold order
  rw [List.filterMap_append]
  split <;> simp [*]

theorem serial_snoc_of_notMem {w : List (ι × Ev C R)} {i : ι} {e : Ev C R} {o : List ι} (h : i ∉ o) :
    serial (w ++ [(i, e)]) o = serial w o := by
  unfold serial
  refine List.flatMap_congr fun j hj => proj_snoc_of_ne ?_ w e
  rintro rfl
  exact h hj

/-- In a serial arrangement, a new call of `i` goes to the end of the calls of `i`. -/
theorem serial_snoc_of_mem {w : List (ι × Ev C R)} {i : ι} {e : Ev C R} {o₁ o₂ : List ι}
    (h : (o₁ ++ i :: o₂).Nodup) :
    serial (w ++ [(i, e)]) (o₁ ++ i :: o₂) = serial w (o₁ ++ [i]) ++ e :: serial w o₂ := by
  have h₁ : i ∉ o₁ := fun hi => (List.nodup_append.1 h).2.2 i hi i (by simp) rfl
  have h₂ : i ∉ o₂ := (List.nodup_cons.1 (List.nodup_append.1 h).2.1).1
  have ho₁ := serial_snoc_of_notMem (w := w) (e := e) h₁
  have ho₂ := serial_snoc_of_notMem (w := w) (e := e) h₂
  simp only [serial, List.flatMap_append, List.flatMap_cons, List.flatMap_nil, proj_snoc_self] at *
  rw [ho₁, ho₂]
  simp

/-! ## The invariant -/

structure Inv (kind : C → Kind) (H : Env C R S) (Φ : α → Prop) (p : ι → Fut G C R α) (s₀ : S) (w : List (ι × Ev C R))
    (cfg : Config ι G C R α S) (ph : ι → Phase) : Prop where
  reached : ∀ i, (p i).At (proj i w) (cfg.prog i)
  disciplined : ∀ i, Disciplined kind H Φ (ph i) (cfg.prog i)
  before : ∀ i, ph i = .before ↔ i ∉ order kind w
  inside : ∀ i, ph i = .inside ↔ cfg.holder = some i
  /-- The holder is the last one that took the lock. -/
  last : ∀ i, cfg.holder = some i → ∃ o, order kind w = o ++ [i]
  nodup : (order kind w).Nodup
  /-- What a task did before it took the lock can be done in any state. -/
  idle : ∀ i, ph i = .before → ∀ s, Chain H (proj i w) s s
  chain : Chain H (serial w (order kind w)) s₀ cfg.store

theorem Inv.init {p : ι → Fut G C R α} (hp : ∀ i, Disciplined kind H Φ .before (p i)) (s₀ : S) :
    Inv kind H Φ p s₀ [] ⟨none, s₀, p⟩ (fun _ => .before) := by
  refine ⟨fun i => by simp, hp, fun i => by simp [order], fun i => by simp, fun i h => ?_, by simp [order],
    fun i _ s => by simp, by simp [order, serial]⟩
  cases h

/-- Where each task stands after one more call of `i`. -/
theorem Inv.reached_step {p : ι → Fut G C R α} {s₀ : S} {w : List (ι × Ev C R)}
    {cfg : Config ι G C R α S} {ph : ι → Phase} {i : ι} {g : Option G} {c : C} {k : R c → Fut G C R α}
    (hinv : Inv kind H Φ p s₀ w cfg ph) (hp : cfg.prog i = .await g c k) (r : R c) (j : ι) :
    (p j).At (proj j (w ++ [(i, ⟨c, r⟩)])) (Function.update cfg.prog i (k r) j) := by
  by_cases hj : i = j
  · subst hj
    have hi := hinv.reached i
    rw [hp] at hi
    simpa using hi.snoc r
  · simpa [proj_snoc_of_ne hj, Function.update_of_ne (Ne.symm hj)] using hinv.reached j

theorem Inv.disciplined_step {p : ι → Fut G C R α} {s₀ : S} {w : List (ι × Ev C R)}
    {cfg : Config ι G C R α S} {ph : ι → Phase} {i : ι} {q : Fut G C R α} {ph' : Phase}
    (hinv : Inv kind H Φ p s₀ w cfg ph) (hq : Disciplined kind H Φ ph' q) (j : ι) :
    Disciplined kind H Φ (Function.update ph i ph' j) (Function.update cfg.prog i q j) := by
  by_cases hj : j = i
  · subst hj; simpa using hq
  · simpa [hj] using hinv.disciplined j

/-- The lock is taken: `i` joins the order, after what it did before the lock. -/
theorem Inv.step_lock {p : ι → Fut G C R α} {s₀ : S} {w : List (ι × Ev C R)}
    {cfg : Config ι G C R α S} {ph : ι → Phase} {i : ι} {g : Option G} {c : C} {k : R c → Fut G C R α}
    {r : R c} (hinv : Inv kind H Φ p s₀ w cfg ph) (hp : cfg.prog i = .await g c k) (hc : kind c = .lock)
    (hbefore : ph i = .before) (hfree : cfg.holder = none) (hr : H c r cfg.store cfg.store)
    (hq : Disciplined kind H Φ .inside (k r)) :
    Inv kind H Φ p s₀ (w ++ [(i, ⟨c, r⟩)]) ⟨some i, cfg.store, Function.update cfg.prog i (k r)⟩
      (Function.update ph i .inside) := by
  have horder : order kind (w ++ [(i, ⟨c, r⟩)]) = order kind w ++ [i] := by rw [order_snoc]; simp [hc]
  have hnew : i ∉ order kind w := (hinv.before i).1 hbefore
  have hnodup : (order kind w ++ [i]).Nodup :=
    List.nodup_append.2 ⟨hinv.nodup, by simp, by simpa using fun a ha (e : a = i) => hnew (e ▸ ha)⟩
  refine ⟨hinv.reached_step hp r, hinv.disciplined_step hq, fun j => ?_, fun j => ?_, fun j hj => ?_,
    horder ▸ hnodup, fun j hj => ?_, ?_⟩
  · rw [horder]
    by_cases hj : j = i
    · subst hj; simp
    · simpa [hj] using hinv.before j
  · by_cases hj : j = i
    · subst hj; simp
    · simpa [hj, hfree, Ne.symm hj] using hinv.inside j
  · obtain rfl : i = j := by simpa using hj
    exact ⟨_, horder⟩
  · have hj' : j ≠ i := by rintro rfl; simp at hj
    rw [proj_snoc_of_ne (Ne.symm hj')]
    exact hinv.idle j (by simpa [hj'] using hj)
  · rw [horder, serial_snoc_of_mem hnodup, serial, List.flatMap_append]
    refine chain_append.2 ⟨cfg.store, chain_append.2 ⟨cfg.store, hinv.chain, ?_⟩, ?_⟩
    · simpa using hinv.idle i hbefore cfg.store
    · exact ⟨cfg.store, hr, rfl⟩

/-- A call inside the critical section: it comes last in the serial arrangement too. -/
theorem Inv.step_inside {p : ι → Fut G C R α} {s₀ s' : S} {w : List (ι × Ev C R)}
    {cfg : Config ι G C R α S} {ph : ι → Phase} {i : ι} {g : Option G} {c : C} {k : R c → Fut G C R α}
    {r : R c} (hinv : Inv kind H Φ p s₀ w cfg ph) (hp : cfg.prog i = .await g c k) (hc : kind c ≠ .lock)
    (hinside : ph i = .inside) (hr : H c r cfg.store s')
    (hq : Disciplined kind H Φ ((kind c).phase .inside) (k r)) :
    Inv kind H Φ p s₀ (w ++ [(i, ⟨c, r⟩)]) ⟨(kind c).holder i cfg.holder, s', Function.update cfg.prog i (k r)⟩
      (Function.update ph i ((kind c).phase .inside)) := by
  have horder : order kind (w ++ [(i, ⟨c, r⟩)]) = order kind w := by rw [order_snoc]; simp [hc]
  have hholder : cfg.holder = some i := (hinv.inside i).1 hinside
  obtain ⟨o, ho⟩ := hinv.last i hholder
  have hphase : (kind c).phase .inside = .after ∧ (kind c).holder i cfg.holder = none ∨
      (kind c).phase .inside = .inside ∧ (kind c).holder i cfg.holder = some i := by
    cases hkc : kind c <;> simp_all [Kind.phase, Kind.holder]
  refine ⟨hinv.reached_step hp r, hinv.disciplined_step hq, fun j => ?_, fun j => ?_, fun j hj => ?_,
    horder ▸ hinv.nodup, fun j hj => ?_, ?_⟩
  · rw [horder]
    by_cases hj : j = i
    · subst hj
      have : j ∈ order kind w := by rw [ho]; simp
      rcases hphase with ⟨h, -⟩ | ⟨h, -⟩ <;> simp [h, this]
    · simpa [hj] using hinv.before j
  · by_cases hj : j = i
    · subst hj
      rcases hphase with ⟨h, h'⟩ | ⟨h, h'⟩ <;> simp [h, h']
    · have hnot : ph j ≠ .inside := fun h => hj (by simpa [hholder, eq_comm] using (hinv.inside j).1 h)
      rcases hphase with ⟨-, h'⟩ | ⟨-, h'⟩ <;> simp [h', hj, hnot, Ne.symm hj]
  · rcases hphase with ⟨-, h'⟩ | ⟨-, h'⟩
    · rw [h'] at hj; cases hj
    · obtain rfl : i = j := by rw [h'] at hj; simpa using hj
      exact ⟨o, horder.trans ho⟩
  · have hj' : j ≠ i := by rintro rfl; rcases hphase with ⟨h, -⟩ | ⟨h, -⟩ <;> simp [h] at hj
    rw [proj_snoc_of_ne (Ne.symm hj')]
    exact hinv.idle j (by simpa [hj'] using hj)
  · have hnodup := hinv.nodup
    have hchain := hinv.chain
    rw [horder]
    rw [ho] at hnodup hchain ⊢
    rw [serial_snoc_of_mem hnodup]
    exact chain_append.2 ⟨cfg.store, hchain, s', hr, rfl⟩

/-- A call outside the critical section: the store stays, and the call fits in anywhere. -/
theorem Inv.step_outside {p : ι → Fut G C R α} {s₀ : S} {w : List (ι × Ev C R)}
    {cfg : Config ι G C R α S} {ph : ι → Phase} {i : ι} {g : Option G} {c : C} {k : R c → Fut G C R α}
    {r : R c} (hinv : Inv kind H Φ p s₀ w cfg ph) (hp : cfg.prog i = .await g c k) (hc : kind c ≠ .lock)
    (hr : ∀ s, H c r s s) (hq : Disciplined kind H Φ (ph i) (k r)) :
    Inv kind H Φ p s₀ (w ++ [(i, ⟨c, r⟩)]) ⟨cfg.holder, cfg.store, Function.update cfg.prog i (k r)⟩ ph := by
  have horder : order kind (w ++ [(i, ⟨c, r⟩)]) = order kind w := by rw [order_snoc]; simp [hc]
  refine ⟨hinv.reached_step hp r, ?_, horder ▸ hinv.before, hinv.inside, horder ▸ hinv.last,
    horder ▸ hinv.nodup, fun j hj s => ?_, ?_⟩
  · intro j
    simpa using hinv.disciplined_step (i := i) hq j
  · by_cases hji : i = j
    · subst hji
      rw [proj_snoc_self]
      exact chain_append.2 ⟨s, hinv.idle i hj s, s, hr s, rfl⟩
    · rw [proj_snoc_of_ne hji]
      exact hinv.idle j hj s
  · rw [horder]
    by_cases hmem : i ∈ order kind w
    · -- the call goes between the calls of `i` and those of the tasks after it
      obtain ⟨o₁, o₂, ho⟩ := List.append_of_mem hmem
      have hnodup := hinv.nodup
      have hchain := hinv.chain
      rw [ho] at hnodup hchain ⊢
      rw [serial_snoc_of_mem hnodup]
      have hsplit : serial w (o₁ ++ i :: o₂) = serial w (o₁ ++ [i]) ++ serial w o₂ := by simp [serial]
      rw [hsplit] at hchain
      obtain ⟨m, h₁, h₂⟩ := chain_append.1 hchain
      exact chain_append.2 ⟨m, h₁, m, hr m, h₂⟩
    · rw [serial_snoc_of_notMem hmem]
      exact hinv.chain

theorem Inv.step (hH : Idle kind H) {p : ι → Fut G C R α} {s₀ : S} {w : List (ι × Ev C R)}
    {cfg cfg' : Config ι G C R α S} {ph : ι → Phase} {i : ι} {e : Ev C R}
    (hinv : Inv kind H Φ p s₀ w cfg ph) (hs : Step kind H cfg i e cfg') :
    ∃ ph', Inv kind H Φ p s₀ (w ++ [(i, e)]) cfg' ph' := by
  cases hs with
  | @call g c k r s' hp hr hl =>
    obtain ⟨hallowed, hnext⟩ := hp ▸ hinv.disciplined i
    have hq : Disciplined kind H Φ ((kind c).phase (ph i)) (k r) := hnext r _ ⟨⟨_, _, hr⟩, rfl⟩
    by_cases hinside : ph i = .inside
    · rw [hinside] at hq hallowed
      have hc : kind c ≠ .lock := by intro h; simp [h, Kind.allowed] at hallowed
      exact ⟨_, hinv.step_inside hp hc hinside hr hq⟩
    · by_cases hc : kind c = .lock
      · have hbefore : ph i = .before := by
          cases h : ph i <;> simp_all [Kind.allowed]
        obtain ⟨rfl, -⟩ := hH c r _ _ (by simp [hc]) hr
        simp only [hc, Kind.phase, Kind.holder] at hq ⊢
        exact ⟨_, hinv.step_lock hp hc hbefore (hl hc) hr hq⟩
      · have hneutral : kind c = .neutral := by
          cases h : kind c <;> cases h' : ph i <;> simp_all [Kind.allowed]
        obtain ⟨rfl, hall⟩ := hH c r _ _ (by simp [hneutral]) hr
        simp only [hneutral, Kind.phase, Kind.holder] at hq ⊢
        exact ⟨_, hinv.step_outside hp hc hall hq⟩

theorem Steps.inv (hH : Idle kind H) {p : ι → Fut G C R α} (hp : ∀ i, Disciplined kind H Φ .before (p i))
    {s₀ : S} {w : List (ι × Ev C R)} {cfg : Config ι G C R α S}
    (h : Steps kind H ⟨none, s₀, p⟩ w cfg) : ∃ ph, Inv kind H Φ p s₀ w cfg ph := by
  induction h with
  | nil => exact ⟨_, Inv.init hp s₀⟩
  | snoc _ hs ih =>
    obtain ⟨ph, hinv⟩ := ih
    exact hinv.step hH hs

/-- **Critical sections are serial.** When all tasks have ended, each has run through its own calls,
and the store is what these calls give, one task after the other, in the order of the locks. A task
that never took the lock has left the store alone and ended in `Φ`. -/
theorem Steps.serial (hH : Idle kind H) {p : ι → Fut G C R α}
    (hp : ∀ i, Disciplined kind H Φ .before (p i)) {s₀ s : S} {holder : Option ι} {a : ι → α}
    {w : List (ι × Ev C R)} (h : Steps kind H ⟨none, s₀, p⟩ w ⟨holder, s, fun i => .done (a i)⟩) :
    (∀ i, (p i).Runs (proj i w) (a i)) ∧ (order kind w).Nodup ∧
      (∀ i, i ∉ order kind w → Φ (a i) ∧ ∀ s, Chain H (proj i w) s s) ∧
      Chain H (serial w (order kind w)) s₀ s := by
  obtain ⟨ph, hinv⟩ := h.inv hH hp
  refine ⟨hinv.reached, hinv.nodup, fun i hi => ?_, hinv.chain⟩
  have hbefore : ph i = .before := (hinv.before i).2 hi
  have hend : ph i ≠ .inside ∧ (ph i = .before → Φ (a i)) := hinv.disciplined i
  exact ⟨hend.2 hbefore, hinv.idle i hbefore⟩

end Fut.Serial
