import Cheti.Base.Levels
import Cheti.Polling
/-!
# The loop that waits for a change

| here | there |
| --- | --- |
| `round` | the body of the loops of `wait_for_change` (route53.rs:382-396, google_cloud_dns.rs:455-474) and `wait_for_action` (hetzner.rs:234-263) |
| `wait`  | the three functions: the deadline, and the loop |

The loop is written over what it does itself: it reads the clock, sleeps, and fetches the status, which
may fail. A fetch is one step here, whatever requests it takes; `perform` says which. A run of the loop
is then a sequence of readings, sleeps and fetched statuses, and any sequence of statuses and errors is one that the
API may give.

The loop is bounded by nothing but the clock. `wait` may be given any number of rounds, and
`runs_wait_returns` says that with a clock that sleeping moves on, one more than the intervals in the
timeout are always enough.
-/

namespace Cheti.Waiting

open Fut

variable {χ : Type}

/-- What the loop does, where `χ` is what a fetch returns. -/
inductive Act (χ : Type) where
  | now
  | sleep (d : Duration)
  | fetch (change : χ)

abbrev Act.Reply : Act χ → Type
  | .now => Duration
  | .sleep _ => Unit
  | .fetch _ => Except DnsError χ

abbrev Trace (χ : Type) := List (Ev (Act χ) Act.Reply)

structure Watch (χ : Type) extends PollPolicy χ where
  /-- A status that ends the wait with an error. -/
  failed : χ → Option DnsError

/-- A watch that no status ends with an error. -/
def Watch.ofPolicy (policy : PollPolicy χ) : Watch χ := { policy with failed := fun _ => none }

/-- What a status ends the wait with. -/
def Watch.verdict (w : Watch χ) (change : χ) : Option (Except DnsError Unit) :=
  if w.inSync change then some (.ok ()) else (w.failed change).map .error

def round (w : Watch χ) (deadline : Duration) (change : χ) : Fut Unit (Act χ) Act.Reply (χ ⊕ Except DnsError Unit) :=
  match w.verdict change with
  | some result => .done (.inr result)
  | none => .await none .now fun now =>
    if now + w.interval > deadline then .done (.inr (.error (w.timedOut change)))
    else .await (some ()) (.sleep w.interval) fun _ => .await (some ()) (.fetch change) fun
      | .ok change => .done (.inl change)
      | .error e => .done (.inr (.error e))

def wait (w : Watch χ) (rounds : Nat) (change : χ) : Fut Unit (Act χ) Act.Reply (Option (Except DnsError Unit)) :=
  .await none .now fun start => iterate (round w (start + w.timeout)) rounds change

/-! ## What a run shows -/

def reported : Ev (Act χ) Act.Reply → Option χ
  | ⟨.fetch _, .ok change⟩ => some change
  | _ => none

/-- The statuses that are seen: the first one, and those that are fetched. -/
def observed (change : χ) (T : Trace χ) : List χ := change :: T.filterMap reported

def isFetch : Ev (Act χ) Act.Reply → Bool
  | ⟨.fetch _, _⟩ => true
  | _ => false

def fetches (T : Trace χ) : Nat := T.countP isFetch

/-- What the answer to a fetch ends the wait with. -/
def Watch.ends (w : Watch χ) : Except DnsError χ → Option (Except DnsError Unit)
  | .ok change => w.verdict change
  | .error e => some (.error e)

/-- A clock that never goes back, with sleeps that last at least as long as asked. -/
def clock : Env (Act χ) Act.Reply Duration
  | .now, now, t, t' => now = t ∧ t ≤ t'
  | .sleep d, _, t, t' => t + d ≤ t'
  | .fetch _, _, t, t' => t ≤ t'

/-! ## The rounds of a run -/

/-- The loop from `change` on makes the steps `T` and returns, unless the rounds are used up before. -/
inductive Rounds (w : Watch χ) (deadline : Duration) : χ → Trace χ → Option (Except DnsError Unit) → Prop where
  | usedUp {change : χ} : Rounds w deadline change [] none
  | settled {change : χ} {result : Except DnsError Unit} (h : w.verdict change = some result) :
      Rounds w deadline change [] (some result)
  | late {change : χ} {now : Duration} (h : w.verdict change = none) (hlate : now + w.interval > deadline) :
      Rounds w deadline change [⟨.now, now⟩] (some (.error (w.timedOut change)))
  | failed {change : χ} {now : Duration} {u : Unit} {e : DnsError} (h : w.verdict change = none)
      (hintime : now + w.interval ≤ deadline) :
      Rounds w deadline change [⟨.now, now⟩, ⟨.sleep w.interval, u⟩, ⟨.fetch change, .error e⟩] (some (.error e))
  | again {change next : χ} {now : Duration} {u : Unit} {T : Trace χ} {x : Option (Except DnsError Unit)}
      (h : w.verdict change = none) (hintime : now + w.interval ≤ deadline) (hrest : Rounds w deadline next T x) :
      Rounds w deadline change (⟨.now, now⟩ :: ⟨.sleep w.interval, u⟩ :: ⟨.fetch change, .ok next⟩ :: T) x

/-! What a round adds to what is seen. -/

@[simp] theorem fetches_round (change : χ) (now d : Duration) (u : Unit) (reply : Except DnsError χ) (T : Trace χ) :
    fetches (⟨.now, now⟩ :: ⟨.sleep d, u⟩ :: ⟨.fetch change, reply⟩ :: T) = fetches T + 1 := by
  simp [fetches, List.countP_cons, isFetch]

@[simp] theorem observed_round (change next : χ) (now d : Duration) (u : Unit) (T : Trace χ) :
    observed change (⟨.now, now⟩ :: ⟨.sleep d, u⟩ :: ⟨.fetch change, .ok next⟩ :: T) = change :: observed next T := rfl

section Loop

variable {w : Watch χ} {deadline : Duration} {change : χ} {T : Trace χ} {x : Option (Except DnsError Unit)}
  {result : Except DnsError Unit} {s s' : Duration} {n : Nat}

theorem round_of_verdict (h : w.verdict change = some result) : round w deadline change = .done (.inr result) := by
  rw [round, h]

theorem round_of_none (h : w.verdict change = none) : round w deadline change = .await none .now fun now =>
    if now + w.interval > deadline then .done (.inr (.error (w.timedOut change)))
    else .await (some ()) (.sleep w.interval) fun _ => .await (some ()) (.fetch change) fun
      | .ok change => .done (.inl change)
      | .error e => .done (.inr (.error e)) := by
  rw [round, h]

/-- A round that ends the loop. -/
theorem rounds_of_inr (h : (round w deadline change).Runs T (.inr result)) :
    Rounds w deadline change T (some result) := by
  cases hv : w.verdict change with
  | some r =>
    rw [round_of_verdict hv] at h
    obtain ⟨rfl, heq⟩ := runs_done.1 h
    cases heq
    exact .settled hv
  | none =>
    rw [round_of_none hv] at h
    obtain ⟨now, T₁, rfl, h₁⟩ := runs_await.1 h
    by_cases hlate : now + w.interval > deadline
    · rw [if_pos hlate] at h₁
      obtain ⟨rfl, heq⟩ := runs_done.1 h₁
      cases heq
      exact .late hv hlate
    · rw [if_neg hlate] at h₁
      obtain ⟨u, T₂, rfl, h₂⟩ := runs_await.1 h₁
      obtain ⟨reply, T₃, rfl, h₃⟩ := runs_await.1 h₂
      cases reply with
      | ok next =>
        obtain ⟨-, heq⟩ := runs_done.1 h₃
        cases heq
      | error e =>
        obtain ⟨rfl, heq⟩ := runs_done.1 h₃
        cases heq
        exact .failed hv (not_lt.1 hlate)

/-- A round after which the loop goes on. -/
theorem runs_round_inl {next : χ} (h : (round w deadline change).Runs T (.inl next)) :
    w.verdict change = none ∧ ∃ (now : Duration) (u : Unit), now + w.interval ≤ deadline ∧
      T = [⟨.now, now⟩, ⟨.sleep w.interval, u⟩, ⟨.fetch change, .ok next⟩] := by
  cases hv : w.verdict change with
  | some r =>
    rw [round_of_verdict hv] at h
    obtain ⟨-, heq⟩ := runs_done.1 h
    cases heq
  | none =>
    rw [round_of_none hv] at h
    obtain ⟨now, T₁, rfl, h₁⟩ := runs_await.1 h
    by_cases hlate : now + w.interval > deadline
    · rw [if_pos hlate] at h₁
      obtain ⟨-, heq⟩ := runs_done.1 h₁
      cases heq
    · rw [if_neg hlate] at h₁
      obtain ⟨u, T₂, rfl, h₂⟩ := runs_await.1 h₁
      obtain ⟨reply, T₃, rfl, h₃⟩ := runs_await.1 h₂
      cases reply with
      | ok c =>
        obtain ⟨rfl, heq⟩ := runs_done.1 h₃
        cases heq
        exact ⟨rfl, now, u, not_lt.1 hlate, rfl⟩
      | error e =>
        obtain ⟨-, heq⟩ := runs_done.1 h₃
        cases heq

theorem rounds_of_runs (h : (iterate (round w deadline) n change).Runs T x) : Rounds w deadline change T x := by
  induction n generalizing change T with
  | zero =>
    obtain ⟨rfl, rfl⟩ := runs_done.1 h
    exact .usedUp
  | succ n ih =>
    rcases runs_iterate.1 h with ⟨r, hround, rfl⟩ | ⟨T₁, next, T₂, hround, hrest, rfl⟩
    · exact rounds_of_inr hround
    · obtain ⟨hv, now, u, hintime, rfl⟩ := runs_round_inl hround
      exact .again hv hintime (ih hrest)

/-- The rounds are used up by as many fetches. -/
theorem fetches_of_usedUp (h : (iterate (round w deadline) n change).Runs T none) : fetches T = n := by
  induction n generalizing change T with
  | zero =>
    obtain ⟨rfl, -⟩ := runs_done.1 h
    rfl
  | succ n ih =>
    rcases runs_iterate.1 h with ⟨r, -, heq⟩ | ⟨T₁, next, T₂, hround, hrest, rfl⟩
    · cases heq
    · obtain ⟨-, now, u, -, rfl⟩ := runs_round_inl hround
      rw [List.cons_append, List.cons_append, List.cons_append, List.nil_append, fetches_round, ih hrest]

/-! ## The clock -/

/-- Each fetch comes after a sleep, and the last sleep was to end by the deadline. -/
theorem Rounds.elapsed (h : Rounds w deadline change T x) (hc : Chain clock T s s') :
    fetches T = 0 ∨ s + fetches T * w.interval ≤ deadline := by
  induction h generalizing s with
  | usedUp => exact Or.inl rfl
  | settled _ => exact Or.inl rfl
  | late _ _ => exact Or.inl rfl
  | failed _ hintime =>
    obtain ⟨s₁, ⟨rfl, -⟩, -⟩ := hc
    refine Or.inr ?_
    simpa [fetches, isFetch] using hintime
  | @again change next now u T x _ hintime _ ih =>
    obtain ⟨s₁, ⟨rfl, h₁⟩, s₂, h₂, s₃, h₃, hrest⟩ := hc
    rw [fetches_round]
    refine Or.inr ?_
    rcases ih hrest with hnone | hsome
    · simpa [hnone] using hintime
    · -- the sleep of this round comes before those of the rest
      have hslept : now + w.interval ≤ s₃ := (Nat.add_le_add_right h₁ _).trans (Nat.le_trans h₂ h₃)
      calc now + (fetches T + 1) * w.interval = now + w.interval + fetches T * w.interval := by ring
        _ ≤ s₃ + fetches T * w.interval := Nat.add_le_add_right hslept _
        _ ≤ deadline := hsome

/-- The number of intervals that fit before the deadline. -/
theorem fetches_le {start : Duration} (hw : 0 < w.interval) (hs : start ≤ s)
    (h : Rounds w (start + w.timeout) change T x) (hc : Chain clock T s s') :
    fetches T ≤ w.timeout / w.interval := by
  rcases h.elapsed hc with hnone | hsome
  · rw [hnone]
    exact Nat.zero_le _
  · rw [Nat.le_div_iff_mul_le hw]
    exact Nat.le_of_add_le_add_left ((Nat.add_le_add_right hs _).trans hsome)

theorem runs_wait_returns {rounds : Nat} (hw : 0 < w.interval) (hrounds : w.timeout / w.interval < rounds)
    (h : (wait w rounds change).Runs T x) (hc : Chain clock T s s') :
    (∃ r, x = some r) ∧ fetches T ≤ w.timeout / w.interval := by
  obtain ⟨start, T', rfl, h'⟩ := runs_await.1 h
  obtain ⟨s₁, ⟨rfl, hs₁⟩, hc'⟩ := hc
  have hle : fetches T' ≤ w.timeout / w.interval := fetches_le hw hs₁ (rounds_of_runs h') hc'
  refine ⟨?_, hle⟩
  cases x with
  | some r => exact ⟨r, rfl⟩
  | none =>
    have hused : fetches T' = rounds := fetches_of_usedUp h'
    exact absurd (hused ▸ hle) (not_le.2 hrounds)

/-! ## The result -/

theorem inSync_iff_verdict : w.inSync change = true ↔ w.verdict change = some (.ok ()) := by
  unfold Watch.verdict
  split
  · simp [*]
  · cases w.failed change <;> simp [*]

theorem Rounds.ok_iff (h : Rounds w deadline change T (some result)) :
    result = .ok () ↔ ∃ c ∈ observed change T, w.inSync c = true := by
  generalize hx : some result = x at h
  induction h with
  | usedUp => cases hx
  | settled hv =>
    cases hx
    simp [observed, inSync_iff_verdict, hv]
  | late hv _ =>
    cases hx
    simp [observed, reported, inSync_iff_verdict, hv]
  | failed hv _ =>
    cases hx
    simp [observed, reported, inSync_iff_verdict, hv]
  | again hv _ _ ih =>
    rw [observed_round, ih hx]
    simp [inSync_iff_verdict, hv]

theorem Rounds.of_verdict {r : Except DnsError Unit} (h : Rounds w deadline change T (some result))
    (hv : w.verdict change = some r) : T = [] ∧ result = r := by
  cases h with
  | settled hv' => exact ⟨rfl, Option.some.inj (hv'.symm.trans hv)⟩
  | late hv' _ => cases hv'.symm.trans hv
  | failed hv' _ => cases hv'.symm.trans hv
  | again hv' _ _ => cases hv'.symm.trans hv

/-- An answer that ends the wait is the last thing that happens. -/
theorem Rounds.at_once {c : χ} {reply : Except DnsError χ} {T' : Trace χ} {r : Except DnsError Unit}
    (h : Rounds w deadline change T (some result)) (hT : ⟨.fetch c, reply⟩ :: T' <:+ T) (hends : w.ends reply = some r) :
    T' = [] ∧ result = r := by
  generalize hx : some result = x at h
  induction h with
  | usedUp => cases hx
  | settled _ => simp at hT
  | late _ _ => simp [List.suffix_cons_iff] at hT
  | failed _ _ =>
    cases hx
    simp only [List.suffix_cons_iff, List.cons.injEq, Ev.mk.injEq, reduceCtorEq, false_and, false_or,
      List.suffix_nil, or_false] at hT
    obtain ⟨⟨hc, hreply⟩, rfl⟩ := hT
    cases hc
    cases eq_of_heq hreply
    exact ⟨rfl, Option.some.inj hends⟩
  | again _ _ hrest ih =>
    simp only [List.suffix_cons_iff, List.cons.injEq, Ev.mk.injEq, reduceCtorEq, false_and, false_or] at hT
    rcases hT with ⟨⟨hc, hreply⟩, rfl⟩ | hT
    · cases hc
      cases eq_of_heq hreply
      subst hx
      exact hrest.of_verdict hends
    · exact ih hT hx

/-! ## The sleeps -/

theorem issues_round_sleep {d : Duration} (h : (round w deadline change).Issues T (.sleep d)) :
    d = w.interval ∧ ∃ now : Duration, T = [⟨.now, now⟩] ∧ now + d ≤ deadline := by
  cases hv : w.verdict change with
  | some r =>
    rw [round_of_verdict hv] at h
    exact absurd h issues_done
  | none =>
    rw [round_of_none hv] at h
    rcases issues_await.1 h with ⟨-, heq⟩ | ⟨now, T₁, rfl, h₁⟩
    · cases heq
    · by_cases hlate : now + w.interval > deadline
      · rw [if_pos hlate] at h₁
        exact absurd h₁ issues_done
      · rw [if_neg hlate] at h₁
        rcases issues_await.1 h₁ with ⟨rfl, heq⟩ | ⟨u, T₂, rfl, h₂⟩
        · cases heq
          exact ⟨rfl, now, rfl, not_lt.1 hlate⟩
        · rcases issues_await.1 h₂ with ⟨-, heq⟩ | ⟨reply, T₃, rfl, h₃⟩
          · cases heq
          · cases reply <;> exact absurd h₃ issues_done

/-- A sleep is started only where the clock, just read, leaves time for it. -/
theorem issues_loop_sleep {d : Duration} (h : (iterate (round w deadline) n change).Issues T (.sleep d)) :
    d = w.interval ∧ ∃ (T₀ : Trace χ) (now : Duration), T = T₀ ++ [⟨.now, now⟩] ∧ now + d ≤ deadline := by
  induction n generalizing change T with
  | zero => exact absurd h issues_done
  | succ n ih =>
    rcases issues_iterate h with hround | ⟨T₁, next, T₂, -, hrest, rfl⟩
    · obtain ⟨hd, now, rfl, hintime⟩ := issues_round_sleep hround
      exact ⟨hd, [], now, rfl, hintime⟩
    · obtain ⟨hd, T₀, now, rfl, hintime⟩ := ih hrest
      exact ⟨hd, T₁ ++ T₀, now, by simp, hintime⟩

end Loop

/-! ## The functions of the providers -/

section Functions

variable {Q : Type} {B : Q → Type}

/-- The loop's steps as a provider takes them, with the requests of its `fetch`. -/
def perform (fetch : χ → Prog Q B χ) : (c : Act χ) → Fut Unit (Call Q) (Reply B) c.Reply
  | .now => Fut.call none Call.now
  | .sleep d => Fut.call (some ()) (Call.sleep d)
  | .fetch change => (fetch change).run

/-- `function` is the loop: with a clock that sleeping moves on, its runs are those of the loop, carried out
with `fetch`, however many rounds more than enough the loop is given. -/
def IsLoop (w : Watch χ) (fetch : χ → Prog Q B χ) (function : χ → Prog Q B Unit) : Prop :=
  ∀ rounds change t r s s', w.timeout / w.interval < rounds → Chain Cheti.clock t s s' →
    ((function change).run.Runs t r ↔
      ∃ T, (wait w rounds change).Runs T (some r) ∧ Carries (perform fetch) T t ∧ Chain clock T s s')

theorem clock_le {t : List (Ev (Call Q) (Reply B))} {s s' : Duration} (h : Chain Cheti.clock t s s') : s ≤ s' := by
  induction t generalizing s with
  | nil => exact le_of_eq h
  | cons e t ih =>
    obtain ⟨m, he, ht⟩ := h
    refine le_trans ?_ (ih ht)
    obtain ⟨c, r⟩ := e
    cases c with
    | now => exact he.2
    | sleep d => exact (Nat.le_add_right s d).trans he
    | _ => exact he

/-- What a run of a function takes is a run of the loop with the same clock. -/
theorem perform_clock {fetch : χ → Prog Q B χ} (c : Act χ) (t : List (Ev (Call Q) (Reply B))) (r : c.Reply)
    (s s' : Duration) (h : (perform fetch c).Runs t r) (hc : Chain Cheti.clock t s s') : clock c r s s' := by
  cases c with
  | now =>
    obtain ⟨now, t', rfl, h'⟩ := runs_await.1 h
    obtain ⟨rfl, rfl⟩ := runs_done.1 h'
    exact chain_singleton.1 hc
  | sleep d =>
    obtain ⟨u, t', rfl, h'⟩ := runs_await.1 h
    obtain ⟨rfl, rfl⟩ := runs_done.1 h'
    exact chain_singleton.1 hc
  | fetch change => exact clock_le hc

/-- A status that ends the wait with an error is not waited on. -/
def settle (w : Watch χ) (change : χ) : Except DnsError χ := (w.failed change).elim (.ok change) .error

def fetchSettled (w : Watch χ) (fetch : χ → Prog Q B χ) (change : χ) : Prog Q B χ := do
  let change ← fetch change
  settle w change

/-- `waitFrom` for a watch. -/
def waitFromSettled (w : Watch χ) (fetch : χ → Prog Q B χ) (deadline : Duration) (left : Nat) (change : χ) :
    Prog Q B Unit := do
  let change ← settle w change
  waitFrom w.toPollPolicy (fetchSettled w fetch) deadline left change

variable {w : Watch χ} {fetch : χ → Prog Q B χ} {deadline : Duration} {left n : Nat} {change : χ}

theorem verdict_eq_none : w.verdict change = none ↔ ¬ w.inSync change = true ∧ w.failed change = none := by
  unfold Watch.verdict
  split <;> simp [*]

theorem waitFromSettled_of_none (h : w.failed change = none) : waitFromSettled w fetch deadline left change =
    waitFrom w.toPollPolicy (fetchSettled w fetch) deadline left change := by
  rw [waitFromSettled, settle, h]
  rfl

theorem waitFromSettled_verdict (hw : ∀ c, w.inSync c = true → w.failed c = none) {r : Except DnsError Unit}
    (h : w.verdict change = some r) : (waitFromSettled w fetch deadline left change).run = .done r := by
  unfold Watch.verdict at h
  by_cases hsync : w.inSync change = true
  · rw [if_pos hsync] at h
    cases h
    rw [waitFromSettled_of_none (hw change hsync), waitFrom.eq_def]
    simp only [if_pos hsync]
    rfl
  · rw [if_neg hsync] at h
    obtain ⟨e, he, rfl⟩ := Option.map_eq_some_iff.1 h
    rw [waitFromSettled, settle, he]
    rfl

/-- Fetching and going on. -/
theorem fetchSettled_bind_run : (fetchSettled w fetch change >>= fun next =>
    waitFrom w.toPollPolicy (fetchSettled w fetch) deadline left next).run =
      (fetch change).run.bind fun
        | .ok next => (waitFromSettled w fetch deadline left next).run
        | .error e => .done (.error e) := by
  rw [fetchSettled, ExceptT.run_bind, ExceptT.run_bind, bind_eq, bind_eq, bind_assoc]
  refine congrArg (Fut.bind (fetch change).run) (funext fun r => ?_)
  cases r with
  | ok next => rfl
  | error e => rfl

theorem run_sync_bind {α : Type} (c : Call Q) (f : Reply B c → Prog Q B α) :
    (sync c >>= f).run = .await none c fun r => (f r).run := rfl

theorem run_await_bind {α : Type} (c : Call Q) (f : Reply B c → Prog Q B α) :
    (await c >>= f).run = .await (some ()) c fun r => (f r).run := rfl

theorem waitFromSettled_none (h : w.verdict change = none) :
    (waitFromSettled w fetch deadline left change).run = .await none .now fun now : Duration =>
      if now + w.interval > deadline then .done (.error (w.timedOut change))
      else
        match left with
        | 0 => .done (.error (w.timedOut change))
        | left + 1 => .await (some ()) (.sleep w.interval) fun _ => (fetch change).run.bind fun
          | .ok next => (waitFromSettled w fetch deadline left next).run
          | .error e => .done (.error e) := by
  obtain ⟨hsync, hfailed⟩ := verdict_eq_none.1 h
  rw [waitFromSettled_of_none hfailed, waitFrom.eq_def]
  simp only [if_neg hsync]
  rw [run_sync_bind]
  refine congrArg (Fut.await none Call.now) (funext fun now : Duration => ?_)
  by_cases hlate : now + w.interval > deadline
  · rw [if_pos hlate, if_pos hlate]
    rfl
  · rw [if_neg hlate, if_neg hlate]
    cases left with
    | zero => rfl
    | succ left =>
      rw [run_await_bind]
      exact congrArg (Fut.await (some ()) (Call.sleep w.interval)) (funext fun _ => fetchSettled_bind_run)

theorem handle_now {α : Type} (g : Option Unit) (k : Duration → Fut Unit (Act χ) Act.Reply α) :
    (Fut.await g .now k).handle (perform fetch) = .await none .now fun now : Duration => (k now).handle (perform fetch) :=
  rfl

theorem handle_sleep {α : Type} (g : Option Unit) (d : Duration) (k : Unit → Fut Unit (Act χ) Act.Reply α) :
    (Fut.await g (.sleep d) k).handle (perform fetch) =
      .await (some ()) (.sleep d) fun u : Unit => (k u).handle (perform fetch) := rfl

theorem handled_verdict {r : Except DnsError Unit} (h : w.verdict change = some r) :
    (iterate (round w deadline) (n + 1) change).handle (perform fetch) = .done (some r) := by
  rw [iterate, round_of_verdict h]
  rfl

theorem handled_none (h : w.verdict change = none) :
    (iterate (round w deadline) (n + 1) change).handle (perform fetch) = .await none .now fun now : Duration =>
      if now + w.interval > deadline then .done (some (.error (w.timedOut change)))
      else .await (some ()) (.sleep w.interval) fun _ => (fetch change).run.bind fun
        | .ok next => (iterate (round w deadline) n next).handle (perform fetch)
        | .error e => .done (some (.error e)) := by
  rw [iterate, round_of_none h, await_bind, handle_now]
  refine congrArg (Fut.await none Call.now) (funext fun now : Duration => ?_)
  by_cases hlate : now + w.interval > deadline
  · rw [if_pos hlate, if_pos hlate]
    rfl
  · rw [if_neg hlate, if_neg hlate, await_bind, handle_sleep]
    refine congrArg (Fut.await (some ()) (Call.sleep w.interval)) (funext fun _ => ?_)
    refine congrArg (Fut.bind (fetch change).run) (funext fun r => ?_)
    cases r <;> rfl

/-- **Enough rounds**: from a time at which the polls that are left reach past the deadline, `waitFrom` and
the loop with more rounds than that do the same. -/
theorem sameRuns_waitFromSettled (hw : ∀ c, w.inSync c = true → w.failed c = none) (extra left : Nat) (change : χ)
    {s : Duration} (hs : deadline < s + (left + 1) * w.interval) :
    SameRuns Cheti.clock ((iterate (round w deadline) (left + 1 + extra) change).handle (perform fetch))
      ((waitFromSettled w fetch deadline left change).run.bind fun r => .done (some r)) s := by
  rw [Nat.add_right_comm]
  cases hv : w.verdict change with
  | some r =>
    rw [handled_verdict hv, waitFromSettled_verdict hw hv]
    exact .refl _
  | none =>
    rw [handled_none hv, waitFromSettled_none hv, await_bind]
    refine .await fun now s₁ h₁ => ?_
    obtain ⟨rfl, hs₁⟩ := h₁
    by_cases hlate : now + w.interval > deadline
    · rw [if_pos hlate, if_pos hlate]
      exact .refl _
    · rw [if_neg hlate, if_neg hlate]
      cases left with
      | zero => exact absurd (by simpa using hs) hlate
      | succ left =>
        refine .await fun _ s₂ h₂ => ?_
        rw [bind_assoc]
        refine .bind fun t r s₃ _ hfetch => ?_
        cases r with
        | error e => exact .refl _
        | ok next =>
          refine sameRuns_waitFromSettled hw extra left next (lt_of_lt_of_le hs ?_)
          -- the sleep has used up one interval
          have hslept : now + w.interval ≤ s₃ :=
            (Nat.add_le_add_right hs₁ _).trans (Nat.le_trans h₂ (clock_le hfetch))
          calc now + (left + 1 + 1) * w.interval = now + w.interval + (left + 1) * w.interval := by ring
            _ ≤ s₃ + (left + 1) * w.interval := Nat.add_le_add_right hslept _

theorem isLoop {function : χ → Prog Q B Unit} (hinterval : 0 < w.interval)
    (hw : ∀ c, w.inSync c = true → w.failed c = none)
    (hfunction : ∀ change, (function change).run = .await none .now fun start : Duration =>
      (waitFromSettled w fetch (start + w.timeout) (w.timeout / w.interval) change).run) :
    IsLoop w fetch function := by
  intro rounds change t r s s' hrounds hc
  have hsame : SameRuns Cheti.clock ((wait w rounds change).handle (perform fetch))
      ((function change).run.bind fun r => .done (some r)) s := by
    rw [hfunction, await_bind, wait, handle_now]
    refine .await fun start s₁ h₁ => ?_
    obtain ⟨rfl, hs₁⟩ := h₁
    obtain ⟨extra, rfl⟩ := Nat.exists_eq_add_of_le hrounds
    exact sameRuns_waitFromSettled hw extra _ change
      ((deadline_lt w.toPollPolicy hinterval start).trans_le (Nat.add_le_add_right hs₁ _))
  calc (function change).run.Runs t r
      ↔ ((function change).run.bind fun r => .done (some r)).Runs t (some r) := by simp [runs_bind_some]
    _ ↔ ((wait w rounds change).handle (perform fetch)).Runs t (some r) := (hsame t (some r) s' hc).symm
    _ ↔ ∃ T, (wait w rounds change).Runs T (some r) ∧ Carries (perform fetch) T t := runs_handle
    _ ↔ ∃ T, (wait w rounds change).Runs T (some r) ∧ Carries (perform fetch) T t ∧ Chain clock T s s' := by
      refine exists_congr fun T => and_congr_right fun _ => ?_
      exact (and_iff_left_of_imp fun hcarries => hcarries.chain perform_clock hc).symm

theorem fetchSettled_ofPolicy (policy : PollPolicy χ) (fetch : χ → Prog Q B χ) :
    fetchSettled (.ofPolicy policy) fetch = fetch := by
  funext change
  exact bind_pure (fetch change)

theorem waitForChange_run (policy : PollPolicy χ) (fetch : χ → Prog Q B χ) (change : χ) :
    (waitForChange policy fetch change).run = .await none .now fun start : Duration =>
      (waitFromSettled (.ofPolicy policy) fetch (start + policy.timeout) (policy.timeout / policy.interval) change).run := by
  rw [waitForChange, run_sync_bind]
  refine congrArg (Fut.await none Call.now) (funext fun start : Duration => ?_)
  rw [waitFromSettled_of_none rfl, fetchSettled_ofPolicy]
  rfl

end Functions

/-! ## What the loop guarantees -/

/-- A run is that of the loop from any first status, whatever the fetches are answered with. -/
structure SoundAndBounded (w : Watch χ) : Prop where
  polls : w.timeout / w.interval = 60
  /-- It returns after at most 60 fetches, if sleeping moves the clock on. -/
  returns : ∀ rounds change T x s s', 60 < rounds → (wait w rounds change).Runs T x → Chain clock T s s' →
    (∃ r, x = some r) ∧ fetches T ≤ 60
  /-- It succeeds if it sees the status it waits for, and only then. -/
  ok_iff : ∀ rounds change T r, (wait w rounds change).Runs T (some r) →
    (r = .ok () ↔ ∃ c ∈ observed change T, w.inSync c = true)
  /-- It starts a sleep only right after reading a time from which the sleep ends by the deadline. -/
  intime : ∀ rounds change T d, (wait w rounds change).Issues T (.sleep d) →
    d = w.interval ∧ ∃ (start : Duration) (T₀ : Trace χ) (now : Duration),
      T = ⟨.now, start⟩ :: (T₀ ++ [⟨.now, now⟩]) ∧ now + d ≤ start + w.timeout
  /-- An error of a fetch, and a status that is an end, is the last thing that happens. -/
  at_once : ∀ rounds change T r c reply T' r', (wait w rounds change).Runs T (some r) →
    ⟨.fetch c, reply⟩ :: T' <:+ T → w.ends reply = some r' → T' = [] ∧ r = r'
  /-- The first status can be an end too. -/
  at_start : ∀ rounds change T r r', (wait w rounds change).Runs T (some r) → w.verdict change = some r' →
    (∃ start : Duration, T = [⟨.now, start⟩]) ∧ r = r'

theorem soundAndBounded {w : Watch χ} (hinterval : 0 < w.interval) (hpolls : w.timeout / w.interval = 60) :
    SoundAndBounded w where
  polls := hpolls
  returns rounds change T x s s' hrounds h hc := hpolls ▸ runs_wait_returns hinterval (hpolls.symm ▸ hrounds) h hc
  ok_iff rounds change T r h := by
    obtain ⟨start, T', rfl, h'⟩ := runs_await.1 h
    exact (rounds_of_runs h').ok_iff
  intime rounds change T d h := by
    rcases issues_await.1 h with ⟨-, heq⟩ | ⟨start, T', rfl, h'⟩
    · cases heq
    · obtain ⟨hd, T₀, now, rfl, hle⟩ := issues_loop_sleep h'
      exact ⟨hd, start, T₀, now, rfl, hle⟩
  at_once rounds change T r c reply T' r' h hT hends := by
    obtain ⟨start, T₁, rfl, h'⟩ := runs_await.1 h
    rcases List.suffix_cons_iff.1 hT with heq | hT
    · cases heq
    · exact (rounds_of_runs h').at_once hT hends
  at_start rounds change T r r' h hv := by
    obtain ⟨start, T', rfl, h'⟩ := runs_await.1 h
    obtain ⟨rfl, rfl⟩ := (rounds_of_runs h').of_verdict hv
    exact ⟨⟨start, rfl⟩, rfl⟩

end Cheti.Waiting
