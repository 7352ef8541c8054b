import Cheti.Backend
/-!
# Concurrent calls

Any number of calls, each a task of its own, run on one API and on the lock table of the process. A task
that makes several calls one after the other is the special case in which the next one starts late.

`Step` is the machine: the locks are the `KeyedMutex` of the source, with its table, and everything
else is answered by the API. It is simulated by the machine of `Fut.Serial`, whose lock is a bare holder
(`Simulates`): a task gets the mutex of its key only when no task holds it.
-/

namespace Cheti.Backend

open Fut (Env wp Always Ev Chain)
open Fut.Serial

variable {b : Backend} {ι : Type}

/-- A call of a provider instance: its configuration and the arguments. -/
structure Invocation (b : Backend) where
  cfg : b.Config
  op : Op
  fqdn : Str
  value : Str

def Invocation.prog (c : Invocation b) : Fut Unit (Call b.Q) (Reply b.B) (Except DnsError Unit) :=
  (b.run c.cfg c.op c.fqdn c.value).run

structure Machine (b : Backend) (ι : Type) where
  locks : KeyedMutex.State ι
  store : Records b.Set
  prog : ι → Fut Unit (Call b.Q) (Reply b.B) (Except DnsError Unit)

/-- A call that does not touch the lock. -/
def Plain : Call b.Q → Prop
  | .lock _ _ | .unlock => False
  | _ => True

variable [Fintype ι] [DecidableEq ι]

def Machine.start (s₀ : Records b.Set) (calls : ι → Invocation b) : Machine b ι :=
  ⟨KeyedMutex.init, s₀, fun i => (calls i).prog⟩

/-- One step of some task; the label is the call that was answered, if one was. -/
inductive Step (zenv : (c : Call b.Q) → Reply b.B c → Prop) (faulty : Bool) :
    Machine b ι → Option (ι × Ev (Call b.Q) (Reply b.B)) → Machine b ι → Prop where
  /-- The table section of `lock`; the task now waits. -/
  | enqueue {m : Machine b ι} {i : ι} {g : Option Unit} {l : KeyedMutex} {key : Str}
      {k : Unit → Fut Unit (Call b.Q) (Reply b.B) (Except DnsError Unit)} {locks' : KeyedMutex.State ι}
      (hp : m.prog i = .await g (.lock l key) k) (hl : KeyedMutex.step m.locks (.lock i l key) = some locks') :
      Step zenv faulty m none ⟨locks', m.store, m.prog⟩
  | acquire {m : Machine b ι} {i : ι} {g : Option Unit} {l : KeyedMutex} {key : Str}
      {k : Unit → Fut Unit (Call b.Q) (Reply b.B) (Except DnsError Unit)} {locks' : KeyedMutex.State ι}
      (hp : m.prog i = .await g (.lock l key) k) (hl : KeyedMutex.step m.locks (.acquire i) = some locks') :
      Step zenv faulty m (some (i, ⟨.lock l key, ()⟩)) ⟨locks', m.store, Function.update m.prog i (k ())⟩
  | release {m : Machine b ι} {i : ι} {g : Option Unit}
      {k : Unit → Fut Unit (Call b.Q) (Reply b.B) (Except DnsError Unit)} {locks' : KeyedMutex.State ι}
      (hp : m.prog i = .await g .unlock k) (hl : KeyedMutex.step m.locks (.release i) = some locks') :
      Step zenv faulty m (some (i, ⟨.unlock, ()⟩)) ⟨locks', m.store, Function.update m.prog i (k ())⟩
  | call {m : Machine b ι} {i : ι} {g : Option Unit} {c : Call b.Q}
      {k : Reply b.B c → Fut Unit (Call b.Q) (Reply b.B) (Except DnsError Unit)} {r : Reply b.B c}
      {s' : Records b.Set} (hp : m.prog i = .await g c k) (hc : Plain c) (hr : b.env zenv faulty c r m.store s') :
      Step zenv faulty m (some (i, ⟨c, r⟩)) ⟨m.locks, s', Function.update m.prog i (k r)⟩

/-- An interleaving, with the calls that were answered in it. -/
inductive Run (zenv : (c : Call b.Q) → Reply b.B c → Prop) (faulty : Bool) (init : Machine b ι) :
    List (ι × Ev (Call b.Q) (Reply b.B)) → Machine b ι → Prop where
  | nil : Run zenv faulty init [] init
  | snoc {w : List (ι × Ev (Call b.Q) (Reply b.B))} {m m' : Machine b ι}
      {e : Option (ι × Ev (Call b.Q) (Reply b.B))} (h : Run zenv faulty init w m) (hs : Step zenv faulty m e m') :
      Run zenv faulty init (w ++ e.toList) m'

/-! ## The lock of one key -/

/-- The calls as seen from the record set that the lock of `key` protects. -/
def kind (b : Backend) (key : Str) : Call b.Q → Kind
  | .lock l key' => if l = b.locks ∧ key' = key then .lock else .foreign
  | .unlock => .unlock
  | .send q => if b.aboutZones q then .neutral else .critical
  | _ => .neutral

/-- The tasks that took the lock, in that order. -/
def lockOrder (key : Str) (w : List (ι × Ev (Call b.Q) (Reply b.B))) : List ι := order (b.kind key) w

theorem kind_neutral {key : Str} {c : Call b.Q} (h : b.Neutral c) : b.kind key c = .neutral := by
  cases c with
  | send q => exact if_pos h
  | lock l key' => exact h.elim
  | unlock => exact h.elim
  | _ => rfl

theorem idle_env (zenv : (c : Call b.Q) → Reply b.B c → Prop) (faulty : Bool) (key : Str) :
    Idle (b.kind key) (b.env zenv faulty) := by
  intro c r s s' hc h
  cases c with
  | lock l key' => exact ⟨h, fun _ => rfl⟩
  | unlock => exact ⟨h, fun _ => rfl⟩
  | send q =>
    have hq : b.aboutZones q = true := by
      by_contra hne
      exact hc (if_neg hne)
    obtain ⟨hs, -, hall⟩ := env_neutral (c := .send q) hq h
    exact ⟨hs, hall⟩
  | _ =>
    obtain ⟨hs, -, hall⟩ := env_neutral (by exact trivial) h
    exact ⟨hs, hall⟩

/-- Inside the critical section, what may be called keeps the phase. -/
theorem kind_internal {key : Str} {c : Call b.Q} (h : b.Internal c) :
    (b.kind key c).allowed .inside ∧ (b.kind key c).phase .inside = .inside := by
  cases c with
  | lock l key' => exact h.elim
  | unlock => exact h.elim
  | send q =>
    by_cases hq : b.aboutZones q = true
    · simp [kind, hq, Kind.allowed, Kind.phase]
    · simp [kind, hq, Kind.allowed, Kind.phase]
  | _ => exact ⟨trivial, rfl⟩

/-- How a call that never took the lock ends. -/
def Unlocked (r : Except DnsError Unit) : Prop := ∃ e, r = .error e

/-- **A call keeps to the lock of its name**: before the lock it only looks up its zone, and after it
nothing is left to do. -/
theorem Sound.disciplined (hb : b.Sound) {zenv : (c : Call b.Q) → Reply b.B c → Prop} {faulty : Bool}
    {c : Invocation b} {z key : Str} (hres : b.Resolves zenv false c.cfg c.fqdn z)
    (hkey : ∀ k, b.key z (normalizeName c.fqdn) = .ok k → k = key) :
    Disciplined (b.kind key) (b.env zenv faulty) Unlocked .before c.prog := by
  obtain ⟨pre, heq, hpre⟩ := hb.prelude hres c.op c.value
  unfold Disciplined Invocation.prog
  rw [heq, Fut.wp_run_bind]
  refine Fut.wp_mono (Fut.wp_of_always hpre fun c' hc => ⟨?_, ?_⟩) ?_
  · rw [kind_neutral hc]
    trivial
  · rintro r ph ⟨⟨s, s', h⟩, hph⟩
    rw [kind_neutral hc] at hph
    exact ⟨hph, (env_neutral hc h).2.1⟩
  · rintro (e | ⟨k, body⟩) ph ⟨rfl, hr⟩
    · exact ⟨nofun, fun _ => ⟨e, rfl⟩⟩
    · obtain ⟨hk, hbody⟩ := hr
      obtain rfl := hkey k hk
      have hlock : b.kind k (.lock b.locks k) = .lock := if_pos ⟨rfl, rfl⟩
      refine wp_withLock.2 ⟨by rw [hlock]; trivial, fun _ ph hph => ?_⟩
      obtain ⟨-, rfl⟩ := hph
      rw [hlock]
      refine Fut.wp_mono (Fut.wp_of_always hbody.internal fun c' hc => ⟨(kind_internal hc).1, ?_⟩) ?_
      · rintro r ph ⟨-, rfl⟩
        exact ⟨(kind_internal hc).2, trivial⟩
      · rintro r ph ⟨rfl, -⟩
        refine ⟨trivial, fun _ ph hph => ?_⟩
        obtain ⟨-, rfl⟩ := hph
        exact ⟨nofun, nofun⟩

/-! ## The simulation -/

abbrev Abstract (b : Backend) (ι : Type) :=
  Fut.Serial.Config ι Unit (Call b.Q) (Reply b.B) (Except DnsError Unit) (Records b.Set)

/-- The abstract machine has the same store and programs, and its holder is the task that holds a mutex.
Every task in `lock` or in its critical section is there for `key`. -/
structure Simulates (key : Str) (m : Machine b ι) (cfg : Abstract b ι) : Prop where
  store : cfg.store = m.store
  prog : cfg.prog = m.prog
  locks : KeyedMutex.Inv m.locks
  key : ∀ i k id, (m.locks.task i).clone = some (k, id) → k = ⟨b.locks.ns, key⟩
  holder : ∀ i, cfg.holder = some i ↔ ∃ k id, m.locks.task i = .holding k id

omit [Fintype ι] [DecidableEq ι] in
/-- A task that gets its mutex finds the lock free: any holder has the same key, hence the same mutex. -/
theorem Simulates.free {key : Str} {m : Machine b ι} {cfg : Abstract b ι} (h : Simulates key m cfg) {i : ι} {k : KeyedMutex.LockKey} {id : KeyedMutex.MutexId}
    (hi : m.locks.task i = .waiting k id) (hfree : ∀ j, (m.locks.task j).holds id = false) : cfg.holder = none := by
  by_contra hne
  obtain ⟨j, hj⟩ := Option.ne_none_iff_exists'.1 hne
  obtain ⟨k', id', hj'⟩ := (h.holder j).1 hj
  have hci : (m.locks.task i).clone = some (k, id) := by rw [hi]; rfl
  have hcj : (m.locks.task j).clone = some (k', id') := by rw [hj']; rfl
  have hi' := h.locks.current i k id hci
  have hj'' := h.locks.current j k' id' hcj
  rw [h.key i k id hci] at hi'
  rw [h.key j k' id' hcj, hi'] at hj''
  obtain rfl := Option.some.inj hj''
  have hholds := hfree j
  simp [hj', KeyedMutex.Task.holds] at hholds

omit [Fintype ι] in
/-- The holder after `i` went to `t` and nobody else moved. -/
theorem Simulates.holder_setTask {key : Str} {m : Machine b ι} {cfg : Abstract b ι} (h : Simulates key m cfg)
    {i : ι} {t : KeyedMutex.Task} {holder : Option ι} (hi : holder = some i ↔ ∃ k id, t = .holding k id)
    (hothers : ∀ j, j ≠ i → (holder = some j ↔ cfg.holder = some j)) (j : ι) :
    holder = some j ↔ ∃ k id, Function.update m.locks.task i t j = .holding k id := by
  by_cases hj : j = i
  · subst hj
    simpa using hi
  · rw [Function.update_of_ne hj, hothers j hj]
    exact h.holder j

omit [Fintype ι] in
theorem Simulates.key_setTask {key : Str} {m : Machine b ι} {cfg : Abstract b ι} (h : Simulates key m cfg)
    {i : ι} {t : KeyedMutex.Task} (ht : ∀ k id, t.clone = some (k, id) → k = ⟨b.locks.ns, key⟩) (j : ι)
    (k : KeyedMutex.LockKey) (id : KeyedMutex.MutexId)
    (hj : (Function.update m.locks.task i t j).clone = some (k, id)) : k = ⟨b.locks.ns, key⟩ := by
  by_cases hji : j = i
  · subst hji
    exact ht k id (by simpa using hj)
  · rw [Function.update_of_ne hji] at hj
    exact h.key j k id hj

variable {zenv : (c : Call b.Q) → Reply b.B c → Prop} {faulty : Bool}

/-- Queueing for the lock is silent. -/
theorem Simulates.enqueue {key : Str} {m : Machine b ι} {cfg : Abstract b ι} (h : Simulates key m cfg) {i : ι}
    {locks' : KeyedMutex.State ι} (hl : KeyedMutex.step m.locks (.lock i b.locks key) = some locks') :
    Simulates key ⟨locks', m.store, m.prog⟩ cfg := by
  have hinv := KeyedMutex.inv_step h.locks hl
  rcases KeyedMutex.step_cases hl with ⟨i', l, key', table, next, id, ha, hidle, -, rfl⟩ | ⟨_, _, _, ha, _⟩ |
    ⟨_, _, _, (⟨ha, _⟩ | ⟨ha, _⟩), _⟩
  · cases ha
    have hnot : cfg.holder ≠ some i := by
      intro hh
      obtain ⟨k, id, hk⟩ := (h.holder i).1 hh
      rw [hidle] at hk
      cases hk
    refine ⟨h.store, h.prog, hinv, h.key_setTask ?_, h.holder_setTask ?_ fun _ _ => Iff.rfl⟩
    · intro k id' hk
      obtain ⟨rfl, -⟩ : ⟨b.locks.ns, key⟩ = k ∧ id = id' := by simpa [KeyedMutex.Task.clone] using hk
      rfl
    · simpa using hnot
  · cases ha
  · cases ha
  · cases ha

theorem Simulates.acquire {key : Str} {m : Machine b ι} {cfg : Abstract b ι} (h : Simulates key m cfg) {i : ι}
    {locks' : KeyedMutex.State ι} (hl : KeyedMutex.step m.locks (.acquire i) = some locks')
    (q : Fut Unit (Call b.Q) (Reply b.B) (Except DnsError Unit)) :
    cfg.holder = none ∧ Simulates key ⟨locks', m.store, Function.update m.prog i q⟩
      ⟨some i, cfg.store, Function.update cfg.prog i q⟩ := by
  have hinv := KeyedMutex.inv_step h.locks hl
  rcases KeyedMutex.step_cases hl with ⟨_, _, _, _, _, _, ha, _⟩ | ⟨i', k, id, ha, hi, hfree, rfl⟩ |
    ⟨_, _, _, (⟨ha, _⟩ | ⟨ha, _⟩), _⟩
  · cases ha
  · cases ha
    have hnone := h.free hi hfree
    refine ⟨hnone, h.store, by rw [h.prog], hinv, h.key_setTask ?_, h.holder_setTask ?_ ?_⟩
    · intro k' id' hk
      exact h.key i k' id' (by rw [hi]; exact hk)
    · exact ⟨fun _ => ⟨k, id, rfl⟩, fun _ => rfl⟩
    · intro j hj
      simp [hnone, Ne.symm hj]
  · cases ha
  · cases ha

theorem Simulates.release {key : Str} {m : Machine b ι} {cfg : Abstract b ι} (h : Simulates key m cfg) {i : ι}
    {locks' : KeyedMutex.State ι} (hl : KeyedMutex.step m.locks (.release i) = some locks')
    (q : Fut Unit (Call b.Q) (Reply b.B) (Except DnsError Unit)) :
    Simulates key ⟨locks', m.store, Function.update m.prog i q⟩
      ⟨none, cfg.store, Function.update cfg.prog i q⟩ := by
  have hinv := KeyedMutex.inv_step h.locks hl
  rcases KeyedMutex.step_cases hl with ⟨_, _, _, _, _, _, ha, _⟩ | ⟨_, _, _, ha, _⟩ |
    ⟨i', k, id, (⟨ha, hi⟩ | ⟨ha, _⟩), rfl⟩
  · cases ha
  · cases ha
  · cases ha
    have hholder : cfg.holder = some i := (h.holder i).2 ⟨k, id, hi⟩
    refine ⟨h.store, by rw [h.prog], hinv, h.key_setTask (by simp [KeyedMutex.Task.clone]),
      h.holder_setTask (by simp) ?_⟩
    intro j hj
    simp [hholder, Ne.symm hj]
  · cases ha

/-- A lock that a disciplined task is about to take is the one of the key. -/
theorem lock_of_disciplined {key key' : Str} {ph : Phase} {g : Option Unit} {l : KeyedMutex}
    {k : Unit → Fut Unit (Call b.Q) (Reply b.B) (Except DnsError Unit)}
    (h : Disciplined (b.kind key) (b.env zenv faulty) Unlocked ph (.await g (.lock l key') k)) :
    l = b.locks ∧ key' = key := by
  by_contra hne
  have hforeign : b.kind key (.lock l key') = .foreign := if_neg hne
  have hallowed : (b.kind key (.lock l key')).allowed ph := h.1
  rw [hforeign] at hallowed
  exact hallowed

omit [Fintype ι] [DecidableEq ι] in
theorem holder_plain (key : Str) {c : Call b.Q} (hc : Plain c) (i : ι) (holder : Option ι) :
    (b.kind key c).holder i holder = holder ∧ b.kind key c ≠ .lock := by
  cases c with
  | lock l key' => exact hc.elim
  | unlock => exact hc.elim
  | send q =>
    by_cases hq : b.aboutZones q = true
    · simp [kind, hq, Kind.holder]
    · simp [kind, hq, Kind.holder]
  | _ => exact ⟨rfl, fun h => by cases h⟩

/-- **One step of the machine is at most one step of the abstract one**, with the same label. -/
theorem Simulates.step {key : Str} {p : ι → Fut Unit (Call b.Q) (Reply b.B) (Except DnsError Unit)}
    {s₀ : Records b.Set} (hp : ∀ i, Disciplined (b.kind key) (b.env zenv faulty) Unlocked .before (p i))
    {w : List (ι × Ev (Call b.Q) (Reply b.B))} {m m' : Machine b ι} {cfg : Abstract b ι}
    {e : Option (ι × Ev (Call b.Q) (Reply b.B))}
    (hw : Steps (b.kind key) (b.env zenv faulty) ⟨none, s₀, p⟩ w cfg) (h : Simulates key m cfg)
    (hs : Step zenv faulty m e m') :
    ∃ cfg', Steps (b.kind key) (b.env zenv faulty) ⟨none, s₀, p⟩ (w ++ e.toList) cfg' ∧ Simulates key m' cfg' := by
  obtain ⟨ph, hinv⟩ := hw.inv (idle_env zenv faulty key) hp
  cases hs with
  | @enqueue i g l key' k locks' hprog hl =>
    have hdisc := hinv.disciplined i
    rw [h.prog, hprog] at hdisc
    obtain ⟨rfl, rfl⟩ := lock_of_disciplined hdisc
    exact ⟨cfg, by simpa using hw, h.enqueue hl⟩
  | @acquire i g l key' k locks' hprog hl =>
    have hdisc := hinv.disciplined i
    rw [h.prog, hprog] at hdisc
    obtain ⟨rfl, rfl⟩ := lock_of_disciplined hdisc
    obtain ⟨hnone, hsim⟩ := h.acquire hl (k ())
    have hkind : b.kind key' (.lock b.locks key') = .lock := if_pos ⟨rfl, rfl⟩
    have hstep : Fut.Serial.Step (b.kind key') (b.env zenv faulty) cfg i ⟨.lock b.locks key', ()⟩
        ⟨(b.kind key' (.lock b.locks key')).holder i cfg.holder, cfg.store, Function.update cfg.prog i (k ())⟩ :=
      .call (by rw [h.prog, hprog]) rfl fun _ => hnone
    rw [hkind] at hstep
    exact ⟨_, .snoc hw hstep, hsim⟩
  | @release i g k locks' hprog hl =>
    have hstep : Fut.Serial.Step (b.kind key) (b.env zenv faulty) cfg i ⟨.unlock, ()⟩
        ⟨none, cfg.store, Function.update cfg.prog i (k ())⟩ :=
      .call (by rw [h.prog, hprog]) rfl fun hlock => by cases hlock
    exact ⟨_, .snoc hw hstep, h.release hl (k ())⟩
  | @call i g c k r s' hprog hc hr =>
    obtain ⟨hholder, hlock⟩ := holder_plain key hc i cfg.holder
    have hstep : Fut.Serial.Step (b.kind key) (b.env zenv faulty) cfg i ⟨c, r⟩
        ⟨(b.kind key c).holder i cfg.holder, s', Function.update cfg.prog i (k r)⟩ :=
      .call (by rw [h.prog, hprog]) (by rw [h.store]; exact hr) fun hl => absurd hl hlock
    rw [hholder] at hstep
    exact ⟨_, .snoc hw hstep, rfl, by rw [h.prog], h.locks, h.key, h.holder⟩

theorem Run.simulated {key : Str} {s₀ : Records b.Set} {calls : ι → Invocation b}
    (hp : ∀ i, Disciplined (b.kind key) (b.env zenv faulty) Unlocked .before (calls i).prog)
    {w : List (ι × Ev (Call b.Q) (Reply b.B))} {m : Machine b ι}
    (h : Run zenv faulty (Machine.start s₀ calls) w m) :
    ∃ cfg, Steps (b.kind key) (b.env zenv faulty) ⟨none, s₀, fun i => (calls i).prog⟩ w cfg ∧ Simulates key m cfg := by
  induction h with
  | nil =>
    refine ⟨_, .nil, rfl, rfl, KeyedMutex.inv_init, ?_, ?_⟩
    · intro i k id hk
      cases hk
    · intro i
      constructor
      · intro hh; cases hh
      · rintro ⟨k, id, hk⟩; cases hk
  | snoc _ hs ih =>
    obtain ⟨cfg, hw, hsim⟩ := ih
    exact Simulates.step hp hw hsim hs

/-! ## One call after the other -/

/-- The calls in the list run one after the other, each to its end, with these results. -/
inductive Serially (zenv : (c : Call b.Q) → Reply b.B c → Prop) (faulty : Bool) (calls : ι → Invocation b)
    (res : ι → Except DnsError Unit) : List ι → Records b.Set → Records b.Set → Prop where
  | nil (s : Records b.Set) : Serially zenv faulty calls res [] s s
  | cons {i : ι} {rest : List ι} {t : List (Ev (Call b.Q) (Reply b.B))} {s s₁ s' : Records b.Set}
      (hrun : (calls i).prog.Runs t (res i)) (hc : Chain (b.env zenv faulty) t s s₁)
      (hrest : Serially zenv faulty calls res rest s₁ s') : Serially zenv faulty calls res (i :: rest) s s'

omit [Fintype ι] in
theorem serially_of_chain {calls : ι → Invocation b} {res : ι → Except DnsError Unit}
    {w : List (ι × Ev (Call b.Q) (Reply b.B))} (hrun : ∀ i, (calls i).prog.Runs (proj i w) (res i)) :
    ∀ {o : List ι} {s s' : Records b.Set}, Chain (b.env zenv faulty) (serial w o) s s' →
      Serially zenv faulty calls res o s s'
  | [], s, s', h => by
    obtain rfl : s = s' := h
    exact .nil s
  | i :: o, s, s', h => by
    obtain ⟨s₁, h₁, h₂⟩ := Fut.chain_append.1 h
    exact .cons (hrun i) h₁ (serially_of_chain hrun h₂)

/-! ### Serial executions are interleavings -/

theorem Run.trans {m₀ m₁ m₂ : Machine b ι} {w w' : List (ι × Ev (Call b.Q) (Reply b.B))}
    (h : Run zenv faulty m₀ w m₁) (h' : Run zenv faulty m₁ w' m₂) : Run zenv faulty m₀ (w ++ w') m₂ := by
  induction h' with
  | nil => simpa using h
  | snoc _ hs ih =>
    rw [← List.append_assoc]
    exact .snoc ih hs

/-- Where the tasks are while `i` runs alone. -/
def Alone (i : ι) (ph : Phase) (locks : KeyedMutex.State ι) : Prop :=
  (∀ j, j ≠ i → locks.task j = .idle) ∧
    (if ph = .inside then ∃ k id, locks.task i = .holding k id else locks.task i = .idle)

omit [DecidableEq ι] [Fintype ι] in
theorem Alone.idle {i : ι} {ph : Phase} {locks : KeyedMutex.State ι} (h : Alone i ph locks) (hph : ph ≠ .inside)
    (j : ι) : locks.task j = .idle := by
  by_cases hj : j = i
  · subst hj
    simpa [hph] using h.2
  · exact h.1 j hj

/-- A task that is alone gets its lock at once. -/
theorem Alone.lock {i : ι} {locks : KeyedMutex.State ι} (h : Alone i .before locks) (l : KeyedMutex) (key : Str) :
    ∃ locks₁ locks₂, KeyedMutex.step locks (.lock i l key) = some locks₁ ∧
      KeyedMutex.step locks₁ (.acquire i) = some locks₂ ∧ Alone i .inside locks₂ := by
  have hidle := h.idle (by simp)
  obtain ⟨table, next, id, htable⟩ : ∃ table next id, locks.lockTable ⟨l.ns, key⟩ = (table, next, id) := ⟨_, _, _, rfl⟩
  let locks₁ : KeyedMutex.State ι := ⟨table, next, Function.update locks.task i (.waiting ⟨l.ns, key⟩ id)⟩
  have hnobody : ¬ ∃ j, (locks₁.task j).holds id = true := by
    rintro ⟨j, hj⟩
    by_cases hji : j = i
    · subst hji; simp [locks₁, KeyedMutex.Task.holds] at hj
    · simp [locks₁, hji, hidle, KeyedMutex.Task.holds] at hj
  refine ⟨locks₁, locks₁.setTask i (.holding ⟨l.ns, key⟩ id), ?_, ?_, fun j hj => ?_, ?_⟩
  · simp only [KeyedMutex.step, hidle i, htable]
    rfl
  · have hi : locks₁.task i = .waiting ⟨l.ns, key⟩ id := by simp [locks₁]
    simp only [KeyedMutex.step, hi, if_neg hnobody]
  · simp [KeyedMutex.State.setTask, locks₁, hj, hidle]
  · simp [KeyedMutex.State.setTask]

theorem Alone.release {i : ι} {locks : KeyedMutex.State ι} (h : Alone i .inside locks) :
    ∃ locks', KeyedMutex.step locks (.release i) = some locks' ∧ Alone i .after locks' := by
  obtain ⟨k, id, hi⟩ : ∃ k id, locks.task i = .holding k id := by simpa using h.2
  refine ⟨locks.setTask i .idle, by simp only [KeyedMutex.step, hi], fun j hj => ?_, ?_⟩
  · simpa [KeyedMutex.State.setTask, hj] using h.1 j hj
  · simp [KeyedMutex.State.setTask]

theorem Run.single {m m' : Machine b ι} {e : Option (ι × Ev (Call b.Q) (Reply b.B))} (hs : Step zenv faulty m e m') :
    Run zenv faulty m e.toList m' := by
  simpa using Run.snoc .nil hs

omit [Fintype ι] [DecidableEq ι] in
theorem phase_plain (key : Str) {c : Call b.Q} (hc : Plain c) (ph : Phase) : (b.kind key c).phase ph = ph := by
  cases c with
  | lock l key' => exact hc.elim
  | unlock => exact hc.elim
  | send q =>
    by_cases hq : b.aboutZones q = true
    · simp [kind, hq, Kind.phase]
    · simp [kind, hq, Kind.phase]
  | _ => rfl

/-- One call of a task that is alone. -/
theorem Alone.step {key : Str} {i : ι} {ph : Phase} {m : Machine b ι} {g : Option Unit} {c : Call b.Q}
    {k : Reply b.B c → Fut Unit (Call b.Q) (Reply b.B) (Except DnsError Unit)} {r : Reply b.B c} {s₁ : Records b.Set}
    (h : Alone i ph m.locks) (hp : m.prog i = .await g c k) (hallowed : (b.kind key c).allowed ph)
    (hr : b.env zenv faulty c r m.store s₁) :
    ∃ w locks', Run zenv faulty m w ⟨locks', s₁, Function.update m.prog i (k r)⟩ ∧
      Alone i ((b.kind key c).phase ph) locks' := by
  have hplain : Plain c → ∃ w locks', Run zenv faulty m w ⟨locks', s₁, Function.update m.prog i (k r)⟩ ∧
      Alone i ((b.kind key c).phase ph) locks' := by
    intro hc
    rw [phase_plain key hc]
    exact ⟨_, m.locks, .single (.call hp hc hr), h⟩
  cases c with
  | lock l key' =>
    obtain rfl : s₁ = m.store := hr
    by_cases hkey : l = b.locks ∧ key' = key
    · have hkind : b.kind key (.lock l key') = .lock := if_pos hkey
      rw [hkind] at hallowed ⊢
      obtain rfl : ph = .before := by
        cases ph with
        | before => rfl
        | inside => exact hallowed.elim
        | after => exact hallowed.elim
      obtain ⟨locks₁, locks₂, h₁, h₂, halone⟩ := h.lock l key'
      have hq : Run zenv faulty m [] ⟨locks₁, m.store, m.prog⟩ := .single (.enqueue hp h₁)
      have ha : Step zenv faulty ⟨locks₁, m.store, m.prog⟩ (some (i, ⟨.lock l key', ()⟩))
          ⟨locks₂, m.store, Function.update m.prog i (k ())⟩ := .acquire hp h₂
      exact ⟨_, locks₂, .snoc hq ha, halone⟩
    · have hkind : b.kind key (.lock l key') = .foreign := if_neg hkey
      rw [hkind] at hallowed
      exact hallowed.elim
  | unlock =>
    obtain rfl : s₁ = m.store := hr
    obtain rfl : ph = .inside := by
      cases ph with
      | inside => rfl
      | before => exact hallowed.elim
      | after => exact hallowed.elim
    obtain ⟨locks', h₁, halone⟩ := h.release
    exact ⟨_, locks', .single (.release hp h₁), halone⟩
  | send q => exact hplain trivial
  | sleep d => exact hplain trivial
  | now => exact hplain trivial
  | findZone fqdn => exact hplain trivial
  | cacheGet name => exact hplain trivial
  | cacheInsert name zone => exact hplain trivial
  | accessToken => exact hplain trivial
  | forgetToken => exact hplain trivial

/-- **A task that runs alone can make all of its calls.** -/
theorem run_alone {key : Str} {i : ι} {s' : Records b.Set} {r : Except DnsError Unit} :
    ∀ (t : List (Ev (Call b.Q) (Reply b.B))) (ph : Phase) (m : Machine b ι),
      Disciplined (b.kind key) (b.env zenv faulty) Unlocked ph (m.prog i) → (m.prog i).Runs t r →
      Chain (b.env zenv faulty) t m.store s' → Alone i ph m.locks →
      ∃ w locks, Run zenv faulty m w ⟨locks, s', Function.update m.prog i (.done r)⟩ ∧ ∀ j, locks.task j = .idle
  | [], ph, m, hdisc, hrun, hc, halone => by
    obtain rfl : m.store = s' := hc
    have hdone : m.prog i = .done r := Fut.at_nil.1 hrun
    rw [hdone] at hdisc
    refine ⟨[], m.locks, ?_, halone.idle hdisc.1⟩
    rw [← hdone, Function.update_eq_self]
    exact .nil
  | ⟨c, a⟩ :: t, ph, m, hdisc, hrun, hc, halone => by
    obtain ⟨s₁, hr, hc⟩ := hc
    cases hp : m.prog i with
    | done r' => rw [hp] at hrun; cases hrun
    | await g c' k =>
      rw [hp] at hrun hdisc
      obtain ⟨a', he, hrun⟩ := hrun
      cases he
      have hnext := hdisc.2 a _ ⟨⟨_, _, hr⟩, rfl⟩
      obtain ⟨w₁, locks₁, hrun₁, halone₁⟩ := halone.step hp hdisc.1 hr
      have hself : Function.update m.prog i (k a) i = k a := Function.update_self ..
      obtain ⟨w₂, locks₂, hrun₂, hidle⟩ := run_alone t _ ⟨locks₁, s₁, Function.update m.prog i (k a)⟩
        (hself.symm ▸ hnext) (hself.symm ▸ hrun) hc halone₁
      refine ⟨w₁ ++ w₂, locks₂, ?_, hidle⟩
      simpa [Function.update_idem] using hrun₁.trans hrun₂

/-- **Every serial execution is an interleaving**: the calls can run one after the other. -/
theorem exists_interleaving {key : Str} {calls : ι → Invocation b} {res : ι → Except DnsError Unit}
    (hp : ∀ i, Disciplined (b.kind key) (b.env zenv faulty) Unlocked .before (calls i).prog) :
    ∀ {order : List ι} {s s' : Records b.Set} (m : Machine b ι), Serially zenv faulty calls res order s s' →
      order.Nodup → m.store = s → (∀ j, m.locks.task j = .idle) → (∀ i ∈ order, m.prog i = (calls i).prog) →
      ∃ w m', Run zenv faulty m w m' ∧ m'.store = s' ∧ (∀ i ∈ order, m'.prog i = .done (res i)) ∧
        ∀ j, j ∉ order → m'.prog j = m.prog j
  | _, s, _, m, .nil _, _, hs, _, _ => ⟨[], m, .nil, hs, by simp, fun _ _ => rfl⟩
  | i :: rest, _, s', m, .cons hrun hc hrest, hnodup, hs, hidle, hprog => by
    subst hs
    obtain ⟨hi, hnodup⟩ := List.nodup_cons.1 hnodup
    have hpi : m.prog i = (calls i).prog := hprog i (by simp)
    obtain ⟨w₁, locks₁, hrun₁, hidle₁⟩ := run_alone _ .before m (by rw [hpi]; exact hp i) (by rw [hpi]; exact hrun)
      hc ⟨fun j _ => hidle j, by simpa using hidle i⟩
    obtain ⟨w₂, m₂, hrun₂, hs₂, hdone, hothers⟩ := exists_interleaving hp
      ⟨locks₁, _, Function.update m.prog i (.done (res i))⟩ hrest hnodup rfl hidle₁ (by
      intro j hj
      have hji : j ≠ i := by rintro rfl; exact hi hj
      simpa [hji] using hprog j (by simp [hj]))
    refine ⟨w₁ ++ w₂, m₂, hrun₁.trans hrun₂, hs₂, fun j hj => ?_, fun j hj => ?_⟩
    · by_cases hji : j = i
      · subst hji
        rw [hothers j hi]
        simp
      · exact hdone j (by simpa [hji] using hj)
    · have hji : j ≠ i := by rintro rfl; simp at hj
      rw [hothers j (fun h => hj (by simp [h]))]
      simp [hji]

/-- The key of the lock of a name; where there is none, no call gets that far. -/
def keyOf (b : Backend) (z n : Str) : Str := (b.key z n).toOption.getD []

/-- Calls that resolve one name to one zone keep to one lock. -/
theorem Sound.disciplined_keyOf (hb : b.Sound) {z n : Str} {c : Invocation b} (hname : normalizeName c.fqdn = n)
    (hzone : b.Resolves zenv false c.cfg c.fqdn z) :
    Disciplined (b.kind (b.keyOf z n)) (b.env zenv faulty) Unlocked .before c.prog := by
  refine hb.disciplined hzone fun k hk => ?_
  rw [hname] at hk
  simp [keyOf, hk, Except.toOption]

/-- **Every interleaving is serial**: when all calls have ended, the records are what the calls give one
after the other, in the order in which they took the lock. -/
theorem Sound.serially (hb : b.Sound) {z n : Str} {calls : ι → Invocation b}
    (hname : ∀ i, normalizeName (calls i).fqdn = n)
    (hzone : ∀ i, b.Resolves zenv false (calls i).cfg (calls i).fqdn z) {s₀ s : Records b.Set}
    {w : List (ι × Ev (Call b.Q) (Reply b.B))} {locks : KeyedMutex.State ι} {res : ι → Except DnsError Unit}
    (h : Run zenv faulty (Machine.start s₀ calls) w ⟨locks, s, fun i => .done (res i)⟩) :
    (lockOrder (b.keyOf z n) w).Nodup ∧ (∀ i, i ∉ lockOrder (b.keyOf z n) w → ∃ e, res i = .error e) ∧
      Serially zenv faulty calls res (lockOrder (b.keyOf z n) w) s₀ s := by
  have hp : ∀ i, Disciplined (b.kind (b.keyOf z n)) (b.env zenv faulty) Unlocked .before (calls i).prog :=
    fun i => hb.disciplined_keyOf (hname i) (hzone i)
  obtain ⟨⟨holder, store, prog⟩, hw, hsim⟩ := Run.simulated hp h
  obtain rfl : store = s := hsim.store
  obtain rfl : prog = fun i => .done (res i) := hsim.prog
  obtain ⟨hruns, hnodup, hunlocked, hchain⟩ := hw.serial (idle_env zenv faulty _) hp
  exact ⟨hnodup, fun i hi => (hunlocked i hi).1, serially_of_chain hruns hchain⟩

/-- The converse: any order of the calls is one in which they can run. -/
theorem Sound.interleaved (hb : b.Sound) {z n : Str} {calls : ι → Invocation b}
    (hname : ∀ i, normalizeName (calls i).fqdn = n)
    (hzone : ∀ i, b.Resolves zenv false (calls i).cfg (calls i).fqdn z) {s₀ s : Records b.Set}
    {res : ι → Except DnsError Unit} {order : List ι} (hall : ∀ i, i ∈ order) (hnodup : order.Nodup)
    (h : Serially zenv faulty calls res order s₀ s) :
    ∃ w locks, Run zenv faulty (Machine.start s₀ calls) w ⟨locks, s, fun i => .done (res i)⟩ := by
  obtain ⟨w, ⟨locks, store, prog⟩, hrun, rfl, hdone, -⟩ := exists_interleaving
    (fun i => hb.disciplined_keyOf (hname i) (hzone i)) (Machine.start s₀ calls) h hnodup rfl (fun _ => rfl) fun _ _ => rfl
  obtain rfl : prog = fun i => .done (res i) := funext fun i => hdone i (hall i)
  exact ⟨w, locks, hrun⟩

end Cheti.Backend
