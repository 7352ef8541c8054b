import Cheti.Listing
/-!
# Waiting for an asynchronous change

| here | there |
| --- | --- |
| `waitForChange` | `wait_for_change` (route53.rs:380-397, google_cloud_dns.rs:453-475) |
| `waitFrom`      | its loop, with the number of polls that are left |

The two differ in the interval, the timeout, the status they wait for and the request that polls. The
loop of the source is bounded by the clock only. Here it is bounded by a number of polls as well, and
`waitFrom_enough` says that with a clock that sleeping moves on, that bound is never what ends it.
-/

namespace Cheti

open Fut (Env wp Always)

variable {Q : Type} {B : Q → Type} {χ : Type}

structure PollPolicy (χ : Type) where
  interval : Duration
  timeout : Duration
  inSync : χ → Bool
  timedOut : χ → DnsError

def waitFrom (policy : PollPolicy χ) (poll : χ → Prog Q B χ) (deadline : Duration) : Nat → χ → Prog Q B Unit
  | left, change =>
    if policy.inSync change then return
    else do
      let now : Duration ← sync .now
      if now + policy.interval > deadline then throw (policy.timedOut change)
      else
        match left with
        | 0 => throw (policy.timedOut change)
        | left + 1 => do
          let _ ← await (.sleep policy.interval)
          let change ← poll change
          waitFrom policy poll deadline left change

def waitForChange (policy : PollPolicy χ) (poll : χ → Prog Q B χ) (change : χ) : Prog Q B Unit := do
  let start : Duration ← sync .now
  waitFrom policy poll (start + policy.timeout) (policy.timeout / policy.interval) change

section Rules

variable {S : Type} {ok : Call Q → S → Prop} {H : Env (Call Q) (Reply B) S} {s : S}
  {policy : PollPolicy χ} {poll : χ → Prog Q B χ}

/-- One round of the loop. -/
theorem wp_waitFrom_iff {deadline : Duration} {left : Nat} {change : χ} {Post : Except DnsError Unit → S → Prop} :
    wp ok H (waitFrom policy poll deadline left change).run Post s ↔
      if policy.inSync change then Post (.ok ()) s
      else ok .now s ∧ ∀ (now : Duration) s₁, H .now now s s₁ →
        if now + policy.interval > deadline then Post (.error (policy.timedOut change)) s₁
        else
          match left with
          | 0 => Post (.error (policy.timedOut change)) s₁
          | left + 1 => ok (.sleep policy.interval) s₁ ∧ ∀ u s₂, H (.sleep policy.interval) u s₁ s₂ →
              wp ok H (poll change).run (fun r s₃ =>
                match r with
                | .ok change => wp ok H (waitFrom policy poll deadline left change).run Post s₃
                | .error e => Post (.error e) s₃) s₂ := by
  rw [waitFrom.eq_def]
  simp only
  by_cases hsync : policy.inSync change = true
  · rw [if_pos hsync, if_pos hsync]
    rfl
  · rw [if_neg hsync, if_neg hsync, Fut.wp_run_bind, wp_sync_run]
    refine and_congr_right fun _ => forall_congr' fun now => forall_congr' fun s₁ => imp_congr_right fun _ => ?_
    by_cases hlate : now + policy.interval > deadline
    · simp only [if_pos hlate]
      rfl
    · simp only [if_neg hlate]
      cases left with
      | zero => rfl
      | succ left =>
        rw [Fut.wp_run_bind]
        refine wp_await_run.trans (and_congr_right fun _ => forall_congr' fun u => forall_congr' fun s₂ =>
          imp_congr_right fun _ => ?_)
        simp only
        rw [Fut.wp_run_bind]
        refine iff_of_eq (congrArg (fun P => wp ok H (poll change).run P s₂) (funext₂ fun r s₃ => ?_))
        cases r <;> rfl

/-- Waiting keeps a state that the clock, sleeping and polling keep, and fails like the polls or by running
out of time. -/
theorem wp_waitFrom {E : DnsError → Prop} (hnow : ok .now s ∧ ∀ r s', H .now r s s' → s' = s)
    (hsleep : ∀ d, ok (.sleep d) s ∧ ∀ u s', H (.sleep d) u s s' → s' = s)
    (hpoll : ∀ change, wp ok H (poll change).run (fun r s' => s' = s ∧ ∀ e, r = .error e → E e) s)
    (htimedOut : ∀ change, E (policy.timedOut change)) (deadline : Duration) (left : Nat) (change : χ) :
    wp ok H (waitFrom policy poll deadline left change).run (fun r s' => s' = s ∧ ∀ e, r = .error e → E e) s := by
  have htime : s = s ∧ ∀ e, (.error (policy.timedOut change) : Except DnsError Unit) = .error e → E e :=
    ⟨rfl, fun e he => by cases he; exact htimedOut change⟩
  rw [wp_waitFrom_iff]
  split
  · exact ⟨rfl, nofun⟩
  · refine ⟨hnow.1, fun now s₁ h₁ => ?_⟩
    obtain rfl := (hnow.2 now s₁ h₁).symm
    split
    · exact htime
    · cases left with
      | zero => exact htime
      | succ left =>
        refine ⟨(hsleep _).1, fun u s₂ h₂ => ?_⟩
        obtain rfl := ((hsleep _).2 u s₂ h₂).symm
        refine Fut.wp_mono (hpoll change) fun r s₃ h₃ => ?_
        obtain ⟨hs₃, herror⟩ := h₃
        obtain rfl := hs₃.symm
        cases r with
        | error e => exact ⟨rfl, fun e' he => by cases he; exact herror e rfl⟩
        | ok change => exact wp_waitFrom hnow hsleep hpoll htimedOut deadline left change

theorem wp_waitForChange_error {E : DnsError → Prop} (hnow : ok .now s ∧ ∀ r s', H .now r s s' → s' = s)
    (hsleep : ∀ d, ok (.sleep d) s ∧ ∀ u s', H (.sleep d) u s s' → s' = s)
    (hpoll : ∀ change, wp ok H (poll change).run (fun r s' => s' = s ∧ ∀ e, r = .error e → E e) s)
    (htimedOut : ∀ change, E (policy.timedOut change)) (change : χ) :
    wp ok H (waitForChange policy poll change).run (fun r s' => s' = s ∧ ∀ e, r = .error e → E e) s := by
  unfold waitForChange
  rw [Fut.wp_run_bind]
  refine wp_sync_run.2 ⟨hnow.1, fun start s' h => ?_⟩
  obtain rfl := hnow.2 start s' h
  exact wp_waitFrom hnow hsleep hpoll htimedOut _ _ change

theorem wp_waitForChange (hnow : ok .now s ∧ ∀ r s', H .now r s s' → s' = s)
    (hsleep : ∀ d, ok (.sleep d) s ∧ ∀ u s', H (.sleep d) u s s' → s' = s)
    (hpoll : ∀ change, wp ok H (poll change).run (fun _ s' => s' = s) s) (change : χ) :
    wp ok H (waitForChange policy poll change).run (fun _ s' => s' = s) s := by
  have hpoll' : ∀ change, wp ok H (poll change).run (fun r s' => s' = s ∧ ∀ e, r = .error e → True) s :=
    fun change => Fut.wp_mono (hpoll change) fun _ _ h => ⟨h, fun _ _ => trivial⟩
  exact Fut.wp_mono (wp_waitForChange_error hnow hsleep hpoll' (fun _ => trivial) change) fun _ _ h => h.1

end Rules

section Only

variable {P : Call Q → Prop} {policy : PollPolicy χ} {poll : χ → Prog Q B χ}

theorem Only.waitFrom (hnow : P .now) (hsleep : ∀ d, P (.sleep d)) (hpoll : ∀ change, Only P (poll change))
    (deadline : Duration) (left : Nat) (change : χ) : Only P (Cheti.waitFrom policy poll deadline left change) := by
  have hpoll' : ∀ change, wp (fun c (_ : Unit) => P c) (fun _ _ _ _ => True) (poll change).run
      (fun r s' => s' = () ∧ ∀ e, r = .error e → True) () :=
    fun change => Fut.wp_mono (hpoll change) fun _ _ _ => ⟨rfl, fun _ _ => trivial⟩
  exact Fut.wp_mono (wp_waitFrom ⟨hnow, fun _ _ _ => rfl⟩ (fun d => ⟨hsleep d, fun _ _ _ => rfl⟩) hpoll'
    (fun _ => trivial) deadline left change) fun _ _ _ => trivial

theorem Only.waitForChange (hnow : P .now) (hsleep : ∀ d, P (.sleep d)) (hpoll : ∀ change, Only P (poll change))
    (change : χ) : Only P (Cheti.waitForChange policy poll change) :=
  (Only.sync hnow).bind fun _ => .waitFrom hnow hsleep hpoll _ _ change

end Only

/-! ## The bound on the polls -/

/-- A clock: it never goes back, it is what `now` answers, and a sleep lasts at least as long as asked. -/
def clock : Env (Call Q) (Reply B) Duration
  | .now, r, t, t' => r = t ∧ t ≤ t'
  | .sleep d, _, t, t' => t + d ≤ t'
  | _, _, t, t' => t ≤ t'

/-- **Enough polls**: from a time at which the polls that are left reach past the deadline, one more
makes no difference. -/
theorem waitFrom_enough {ok : Call Q → Duration → Prop} {policy : PollPolicy χ} {poll : χ → Prog Q B χ}
    {deadline : Duration} (hpoll : ∀ change t, wp (fun _ _ => True) clock (poll change).run (fun _ t' => t ≤ t') t)
    {Post : Except DnsError Unit → Duration → Prop} (left : Nat) (change : χ) (t : Duration)
    (ht : deadline < t + (left + 1) * policy.interval) :
    wp ok clock (waitFrom policy poll deadline left change).run Post t ↔
      wp ok clock (waitFrom policy poll deadline (left + 1) change).run Post t := by
  rw [wp_waitFrom_iff, wp_waitFrom_iff]
  by_cases hsync : policy.inSync change = true
  · rw [if_pos hsync, if_pos hsync]
  · rw [if_neg hsync, if_neg hsync]
    refine and_congr_right fun _ => forall_congr' fun now => forall_congr' fun t₁ => imp_congr_right fun h₁ => ?_
    obtain ⟨rfl, hmono⟩ := h₁
    by_cases hlate : now + policy.interval > deadline
    · rw [if_pos hlate, if_pos hlate]
    · rw [if_neg hlate, if_neg hlate]
      cases left with
      | zero => exact absurd (by simpa using ht) hlate
      | succ left =>
        refine and_congr_right fun _ => forall_congr' fun u => forall_congr' fun t₂ => imp_congr_right fun h₂ => ?_
        refine Fut.wp_congr (hpoll change t₂) fun r t₃ h₃ => ?_
        cases r with
        | error e => exact Iff.rfl
        | ok change =>
          refine waitFrom_enough hpoll left change t₃ (lt_of_lt_of_le ht ?_)
          -- the sleep has used up one interval
          have hslept : now + policy.interval ≤ t₃ := (Nat.add_le_add_right hmono _).trans (Nat.le_trans h₂ h₃)
          calc now + (left + 1 + 1) * policy.interval
              = now + policy.interval + (left + 1) * policy.interval := by ring
            _ ≤ t₃ + (left + 1) * policy.interval := Nat.add_le_add_right hslept _

/-- The polls of `waitForChange` reach past its deadline. -/
theorem deadline_lt (policy : PollPolicy χ) (h : 0 < policy.interval) (start : Duration) :
    start + policy.timeout < start + (policy.timeout / policy.interval + 1) * policy.interval := by
  have hdiv : policy.timeout < (policy.timeout / policy.interval + 1) * policy.interval :=
    (Nat.div_lt_iff_lt_mul h).1 (Nat.lt_succ_self _)
  exact Nat.add_lt_add_left hdiv start

end Cheti
