import Cheti.Base.Prim
/-!
# `KeyedMutex`: one mutex per key behind a garbage-collected table (src/providers/common.rs:121-157)

| here | there |
| --- | --- |
| `KeyedMutex`        | the struct (common.rs:129-131): an instance is only its namespace |
| `State.table`       | the static `lock_table()` (common.rs:133-138), shared by all instances: full key to mutex |
| `Task`              | where a task is: outside, inside `lock_owned().await`, or holding the guard |
| `strongCount`       | `Arc::strong_count` of a mutex in the table: the table's own clone and one per task |
| `lockTable`         | the block of `lock` that runs under the table's std mutex (common.rs:146-154) |
| `Action.acquire`    | `lock_owned()` getting the mutex: Tokio's mutex has one holder at a time |
| `Action.release`    | the drop of the `OwnedMutexGuard` |
| `Action.cancel`     | the drop of a `lock` future that still waits |

The table forgets a mutex nobody refers to, so a key can get a new mutex later. What makes this safe
is `Inv.current`: whoever waits on or holds a mutex for a key refers to the one the table has for it.
-/

namespace Cheti

structure KeyedMutex where
  ns : Str
deriving DecidableEq, Repr

namespace KeyedMutex

/-- The identity of an `Arc<AsyncMutex<()>>`; `Arc::new` gives one that was never used before. -/
abbrev MutexId := Nat

/-- What a task locked: the namespace of the instance it went through, and the key. -/
structure LockKey where
  ns : Str
  key : Str
deriving DecidableEq, Repr

/-- `format!("{}|{key}", self.namespace)` -/
def LockKey.full (k : LockKey) : Str := k.ns ++ '|' :: k.key

inductive Task where
  | idle
  | waiting (k : LockKey) (m : MutexId)
  | holding (k : LockKey) (m : MutexId)
deriving DecidableEq, Repr

/-- The key a task is in `lock` or in its critical section for, and the mutex it has a clone of. -/
def Task.clone : Task → Option (LockKey × MutexId)
  | .idle => none
  | .waiting k m | .holding k m => some (k, m)

def Task.refersTo (m : MutexId) (t : Task) : Bool := t.clone.any (·.2 == m)

def Task.holds (m : MutexId) : Task → Bool
  | .holding _ m' => m' == m
  | _ => false

structure State (ι : Type) where
  table : Str → Option MutexId
  /-- The identity the next `Arc::new` gives. -/
  next : MutexId
  task : ι → Task

inductive Action (ι : Type) where
  | lock (i : ι) (l : KeyedMutex) (key : Str)
  | acquire (i : ι)
  | release (i : ι)
  | cancel (i : ι)

variable {ι : Type} [Fintype ι] [DecidableEq ι]

def init : State ι := ⟨fun _ => none, 0, fun _ => .idle⟩

def State.strongCount (st : State ι) (m : MutexId) : Nat :=
  1 + (Finset.univ.filter fun i => (st.task i).refersTo m).card

/-- `map.retain(|_, m| Arc::strong_count(m) > 1)` -/
def State.retain (st : State ι) : Str → Option MutexId :=
  fun k => (st.table k).filter fun m => st.strongCount m > 1

/-- The table section of `lock`: `retain`, then `entry(..).or_insert_with(..).clone()`. -/
def State.lockTable (st : State ι) (k : LockKey) : (Str → Option MutexId) × MutexId × MutexId :=
  match st.retain k.full with
  | some m => (st.retain, st.next, m)
  | none => (Function.update st.retain k.full (some st.next), st.next + 1, st.next)

def State.setTask (st : State ι) (i : ι) (t : Task) : State ι :=
  { st with task := Function.update st.task i t }

def step (st : State ι) : Action ι → Option (State ι)
  | .lock i l key =>
    match st.task i with
    | .idle =>
      let (table, next, m) := st.lockTable ⟨l.ns, key⟩
      some (State.setTask { st with table, next } i (.waiting ⟨l.ns, key⟩ m))
    | _ => none
  | .acquire i =>
    match st.task i with
    | .waiting k m => if ∃ j, (st.task j).holds m then none else some (st.setTask i (.holding k m))
    | _ => none
  | .release i =>
    match st.task i with
    | .holding _ _ => some (st.setTask i .idle)
    | _ => none
  | .cancel i =>
    match st.task i with
    | .waiting _ _ => some (st.setTask i .idle)
    | _ => none

/-- Any number of steps of any tasks, from the empty table. -/
inductive Reachable : State ι → Prop where
  | init : Reachable init
  | step {st st' : State ι} {a : Action ι} (h : Reachable st) (hs : step st a = some st') : Reachable st'

/-! ## The table section -/

omit [DecidableEq ι] in
theorem strongCount_gt_one {st : State ι} {m : MutexId} :
    st.strongCount m > 1 ↔ ∃ i, (st.task i).refersTo m = true := by
  unfold State.strongCount
  rw [gt_iff_lt, Nat.lt_add_right_iff_pos, Finset.card_pos]
  simp [Finset.Nonempty]

omit [DecidableEq ι] in
theorem retain_eq_some {st : State ι} {k : Str} {m : MutexId} :
    st.retain k = some m ↔ st.table k = some m ∧ ∃ i, (st.task i).refersTo m = true := by
  simp [State.retain, Option.filter_eq_some_iff, ← strongCount_gt_one]

omit [DecidableEq ι] in
/-- The table after the section: what was retained, and the locked key's mutex. That one is either
the retained one or new. -/
theorem lockTable_spec {st : State ι} {k : LockKey} {table : Str → Option MutexId} {next m : MutexId}
    (h : st.lockTable k = (table, next, m)) :
    (∀ k' m', table k' = some m' ↔ (k' = k.full ∧ m' = m) ∨ st.retain k' = some m') ∧
      (st.retain k.full = some m ∧ next = st.next ∨ st.retain k.full = none ∧ m = st.next ∧ next = st.next + 1) := by
  unfold State.lockTable at h
  split at h
  · rename_i m₀ hm
    obtain ⟨rfl, rfl, rfl⟩ : st.retain = table ∧ st.next = next ∧ m₀ = m := by simpa using h
    refine ⟨fun k' m' => ⟨Or.inr, ?_⟩, Or.inl ⟨hm, rfl⟩⟩
    rintro (⟨rfl, rfl⟩ | h')
    · exact hm
    · exact h'
  · rename_i hm
    obtain ⟨rfl, rfl, rfl⟩ : Function.update st.retain k.full (some st.next) = table ∧
        st.next + 1 = next ∧ st.next = m := by simpa using h
    refine ⟨fun k' m' => ?_, Or.inr ⟨hm, rfl, rfl⟩⟩
    by_cases hk : k' = k.full
    · subst hk
      simp [hm, eq_comm]
    · simp [hk]

/-! ## What one step does -/

theorem step_cases {st st' : State ι} {a : Action ι} (h : step st a = some st') :
    (∃ i l key table next m, a = .lock i l key ∧ st.task i = .idle ∧
      st.lockTable ⟨l.ns, key⟩ = (table, next, m) ∧
      st' = ⟨table, next, Function.update st.task i (.waiting ⟨l.ns, key⟩ m)⟩) ∨
    (∃ i k m, a = .acquire i ∧ st.task i = .waiting k m ∧ (∀ j, (st.task j).holds m = false) ∧
      st' = st.setTask i (.holding k m)) ∨
    (∃ i k m, (a = .release i ∧ st.task i = .holding k m ∨ a = .cancel i ∧ st.task i = .waiting k m) ∧
      st' = st.setTask i .idle) := by
  cases a with
  | lock i l key =>
    simp only [step] at h
    split at h
    · rename_i hi
      exact Or.inl ⟨i, l, key, _, _, _, rfl, hi, rfl, (Option.some.inj h).symm⟩
    · cases h
  | acquire i =>
    simp only [step] at h
    split at h
    · rename_i k m hi
      split at h
      · cases h
      · rename_i hfree
        refine Or.inr (Or.inl ⟨i, k, m, rfl, hi, ?_, (Option.some.inj h).symm⟩)
        simpa using hfree
    · cases h
  | release i =>
    simp only [step] at h
    split at h
    · rename_i k m hi
      exact Or.inr (Or.inr ⟨i, k, m, Or.inl ⟨rfl, hi⟩, (Option.some.inj h).symm⟩)
    · cases h
  | cancel i =>
    simp only [step] at h
    split at h
    · rename_i k m hi
      exact Or.inr (Or.inr ⟨i, k, m, Or.inr ⟨rfl, hi⟩, (Option.some.inj h).symm⟩)
    · cases h

/-! ## The invariant -/

structure Inv (st : State ι) : Prop where
  /-- A task's clone is the mutex the table has for its key. -/
  current : ∀ i k m, (st.task i).clone = some (k, m) → st.table k.full = some m
  /-- A mutex serves one key. -/
  distinct : ∀ k k' m, st.table k = some m → st.table k' = some m → k = k'
  allocated : ∀ k m, st.table k = some m → m < st.next
  exclusive : ∀ i j m, (st.task i).holds m = true → (st.task j).holds m = true → i = j

theorem refersTo_of_clone {t : Task} {k : LockKey} {m : MutexId} (h : t.clone = some (k, m)) :
    t.refersTo m = true := by
  simp [Task.refersTo, h]

omit [Fintype ι] [DecidableEq ι] in
theorem inv_init : Inv (init : State ι) := by
  constructor <;> simp [init, Task.clone, Task.holds]

omit [Fintype ι] in
/-- A task may move to any place where its clone is the table's and nobody else holds what it holds. -/
theorem Inv.setTask {st : State ι} (hinv : Inv st) {i : ι} {t : Task}
    (hclone : ∀ k m, t.clone = some (k, m) → st.table k.full = some m)
    (hfree : ∀ m, t.holds m = true → ∀ j, (st.task j).holds m = false) : Inv (st.setTask i t) := by
  refine ⟨fun j k m h => ?_, hinv.distinct, hinv.allocated, fun j j' m h h' => ?_⟩
  · by_cases hj : j = i
    · subst hj
      exact hclone k m (by simpa [State.setTask] using h)
    · exact hinv.current j k m (by simpa [State.setTask, hj] using h)
  · by_cases hj : j = i <;> by_cases hj' : j' = i
    · rw [hj, hj']
    · have := hfree m (by simpa [State.setTask, hj] using h) j'
      simp_all [State.setTask]
    · have := hfree m (by simpa [State.setTask, hj'] using h') j
      simp_all [State.setTask]
    · exact hinv.exclusive j j' m (by simpa [State.setTask, hj] using h) (by simpa [State.setTask, hj'] using h')

omit [DecidableEq ι] in
/-- The table section keeps every mutex a task refers to, and gives the locked key one of its own. -/
theorem Inv.lockTable {st : State ι} (hinv : Inv st) {k : LockKey} {table : Str → Option MutexId}
    {next m : MutexId} (h : st.lockTable k = (table, next, m)) :
    table k.full = some m ∧ Inv { st with table, next } := by
  obtain ⟨htable, hnew⟩ := lockTable_spec h
  have hle : st.next ≤ next := by rcases hnew with ⟨-, rfl⟩ | ⟨-, -, rfl⟩ <;> simp
  -- a retained mutex is an allocated one, so it is not the new one
  have hretained : ∀ {k' m'}, st.retain k' = some m' → st.table k' = some m' := fun h' => (retain_eq_some.1 h').1
  refine ⟨(htable _ _).2 (Or.inl ⟨rfl, rfl⟩), fun i k' m' hi => ?_, fun k₁ k₂ m' h₁ h₂ => ?_,
    fun k' m' h' => ?_, hinv.exclusive⟩
  · exact (htable _ _).2 (Or.inr (retain_eq_some.2 ⟨hinv.current i k' m' hi, i, refersTo_of_clone hi⟩))
  · rcases (htable _ _).1 h₁ with ⟨rfl, rfl⟩ | h₁' <;> rcases (htable _ _).1 h₂ with ⟨rfl, he⟩ | h₂'
    · rfl
    · rcases hnew with ⟨hm, -⟩ | ⟨-, rfl, -⟩
      · exact hinv.distinct _ _ _ (hretained hm) (hretained h₂')
      · exact absurd (hinv.allocated _ _ (hretained h₂')) (lt_irrefl _)
    · subst he
      rcases hnew with ⟨hm, -⟩ | ⟨-, rfl, -⟩
      · exact hinv.distinct _ _ _ (hretained h₁') (hretained hm)
      · exact absurd (hinv.allocated _ _ (hretained h₁')) (lt_irrefl _)
    · exact hinv.distinct _ _ _ (hretained h₁') (hretained h₂')
  · show m' < next
    rcases (htable _ _).1 h' with ⟨rfl, rfl⟩ | h''
    · rcases hnew with ⟨hm, rfl⟩ | ⟨-, rfl, rfl⟩
      · exact hinv.allocated _ _ (hretained hm)
      · exact Nat.lt_succ_self _
    · exact lt_of_lt_of_le (hinv.allocated _ _ (hretained h'')) hle

theorem inv_step {st st' : State ι} {a : Action ι} (hinv : Inv st) (h : step st a = some st') : Inv st' := by
  rcases step_cases h with ⟨i, l, key, table, next, m, -, -, htable, rfl⟩ |
    ⟨i, k, m, -, hi, hfree, rfl⟩ | ⟨i, k, m, -, rfl⟩
  · obtain ⟨hm, hinv'⟩ := hinv.lockTable htable
    refine hinv'.setTask (i := i) (t := .waiting ⟨l.ns, key⟩ m) ?_ (by simp [Task.holds])
    intro k' m' hc
    obtain ⟨rfl, rfl⟩ : ⟨l.ns, key⟩ = k' ∧ m = m' := by simpa [Task.clone] using hc
    exact hm
  · refine hinv.setTask (fun k' m' hc => hinv.current i k' m' (by simpa [hi, Task.clone] using hc)) ?_
    intro m' hm'
    obtain rfl : m = m' := by simpa [Task.holds] using hm'
    exact hfree
  · exact hinv.setTask (by simp [Task.clone]) (by simp [Task.holds])

theorem inv_reachable {st : State ι} (h : Reachable st) : Inv st := by
  induction h with
  | init => exact inv_init
  | step _ hs ih => exact inv_step ih hs

/-! ## Keys -/

theorem takeWhile_full {k : LockKey} (hk : '|' ∉ k.ns) : k.full.takeWhile (· != '|') = k.ns := by
  have hne : ∀ c ∈ k.ns, (c != '|') = true := fun c hc => bne_iff_ne.2 fun e => hk (e ▸ hc)
  rw [LockKey.full, List.takeWhile_append_of_pos hne]
  simp

/-- Without a `|` in the namespaces, the full key determines namespace and key. -/
theorem full_injective {k k' : LockKey} (hk : '|' ∉ k.ns) (hk' : '|' ∉ k'.ns) (h : k.full = k'.full) :
    k = k' := by
  have hns : k.ns = k'.ns := by rw [← takeWhile_full hk, ← takeWhile_full hk', h]
  obtain ⟨ns, key⟩ := k
  obtain ⟨ns', key'⟩ := k'
  obtain rfl : ns = ns' := hns
  simpa [LockKey.full] using h

/-! ## The mutex -/

/-- **`KeyedMutex` is a mutex for each key.** In every reachable state, for any tasks, instances and
keys: two tasks that locked the same namespace and key do not hold at the same time; a task that waits
on or holds a mutex refers to the one the table has for its key; a `lock` leaves no entry in the table
that nobody waits on or holds; and tasks with different namespaces or keys, no namespace containing
`|`, have different mutexes, so a waiting task is only ever kept out by a holder of its own key. -/
theorem mutual_exclusion (st : State ι) (h : Reachable st) :
    (∀ i j k m m', st.task i = .holding k m → st.task j = .holding k m' → i = j) ∧
    (∀ i k m, (st.task i).clone = some (k, m) → st.table k.full = some m) ∧
    (∀ i l key st', step st (.lock i l key) = some st' →
      ∀ full m, st'.table full = some m → ∃ j, (st'.task j).refersTo m = true) ∧
    (∀ i j k k' m m', (st.task i).clone = some (k, m) → (st.task j).clone = some (k', m') →
      '|' ∉ k.ns → '|' ∉ k'.ns → k ≠ k' → m ≠ m') ∧
    (∀ i k m, st.task i = .waiting k m → '|' ∉ k.ns →
      (∀ j k' m', st.task j = .holding k' m' → '|' ∉ k'.ns ∧ k' ≠ k) →
        step st (.acquire i) = some (st.setTask i (.holding k m))) := by
  have hinv := inv_reachable h
  have hapart : ∀ i j k k' m m', (st.task i).clone = some (k, m) → (st.task j).clone = some (k', m') →
      '|' ∉ k.ns → '|' ∉ k'.ns → k ≠ k' → m ≠ m' := by
    rintro i j k k' m m' hi hj hk hk' hne rfl
    exact hne (full_injective hk hk' (hinv.distinct _ _ m (hinv.current i k m hi) (hinv.current j k' m hj)))
  refine ⟨fun i j k m m' hi hj => ?_, hinv.current, fun i l key st' hs full m hm => ?_, hapart,
    fun i k m hi hk hothers => ?_⟩
  · -- both refer to what the table has for the key, and a mutex has one holder
    have hi' := hinv.current i k m (by simp [hi, Task.clone])
    have hj' := hinv.current j k m' (by simp [hj, Task.clone])
    obtain rfl : m = m' := Option.some.inj (hi'.symm.trans hj')
    exact hinv.exclusive i j m (by simp [hi, Task.holds]) (by simp [hj, Task.holds])
  · rcases step_cases hs with ⟨i', l', key', table, next, m₀, ha, hidle, htable, rfl⟩ |
      ⟨_, _, _, ha, _⟩ | ⟨_, _, _, (⟨ha, _⟩ | ⟨ha, _⟩), _⟩
    · rcases ((lockTable_spec htable).1 full m).1 hm with ⟨rfl, rfl⟩ | hret
      · exact ⟨i', by simp [Task.refersTo, Task.clone]⟩
      · obtain ⟨j, hj⟩ := (retain_eq_some.1 hret).2
        refine ⟨j, ?_⟩
        have hji : j ≠ i' := by rintro rfl; simp [hidle, Task.refersTo, Task.clone] at hj
        simpa [hji] using hj
    · cases ha
    · cases ha
    · cases ha
  · have hfree : ¬ ∃ j, (st.task j).holds m = true := by
      rintro ⟨j, hj⟩
      cases htj : st.task j with
      | idle => simp [htj, Task.holds] at hj
      | waiting k' m' => simp [htj, Task.holds] at hj
      | holding k' m' =>
        obtain rfl : m' = m := by simpa [htj, Task.holds] using hj
        obtain ⟨hk', hne⟩ := hothers j k' m' htj
        exact hapart j i k' k m' m' (by simp [htj, Task.clone]) (by simp [hi, Task.clone]) hk' hk hne rfl
    simp [step, hi, hfree]

/-- Two instances with one namespace: the second task waits on the mutex the first one holds. -/
theorem mutual_exclusion_two :
    let k : LockKey := ⟨"gandi".toList, "a.org|x".toList⟩
    ∃ st : State (Fin 2), Reachable st ∧ st.task 0 = .holding k 0 ∧ st.task 1 = .waiting k 0 ∧
      st.table k.full = some 0 := by
  intro k
  have h₁ : Reachable (State.mk (Function.update (fun _ => none) k.full (some 0)) 1
      (Function.update (fun _ => .idle) 0 (.waiting k 0)) : State (Fin 2)) :=
    .step (a := .lock 0 ⟨"gandi".toList⟩ "a.org|x".toList) .init rfl
  obtain ⟨st, h₂, h0, h1⟩ : ∃ st : State (Fin 2), Reachable st ∧ st.task 0 = .holding k 0 ∧
      st.task 1 = .waiting k 0 :=
    ⟨_, .step (a := .lock 1 ⟨"gandi".toList⟩ "a.org|x".toList) (.step (a := .acquire 0) h₁ rfl) rfl, rfl, rfl⟩
  exact ⟨st, h₂, h0, h1, (mutual_exclusion st h₂).2.1 1 k 0 (by rw [h1]; rfl)⟩

end KeyedMutex
end Cheti
