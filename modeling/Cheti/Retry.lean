import Cheti.Providers.Route53
/-!
# Retries: `send_retrying` (src/providers/common.rs:37-99) and the two loops of Route53

| here | there |
| --- | --- |
| `RequestBuilder`, `tryClone`    | a `reqwest::RequestBuilder`, which cannot be cloned if its body is a stream |
| `RequestBuilder.sendRetrying`   | `SendRetrying::send_retrying` (common.rs:37-64), its loop `sendFrom` |
| `Route53.sendLoop`              | the loop of `Route53Provider::send` (route53.rs:194-210), around that one |

The requests of the providers have their bodies in memory, and `Cheti.sendRetrying` is this function for
them (`sendRetrying_of_cloneable`). `serving answers` is a server that answers the `n`th request (from 0)
with `answers n`, whatever was asked before: a transport error, or any response.
-/

namespace Cheti

open Fut (Env Chain wp)

variable {Q : Type} {B : Q → Type} {α : Type}

/-! ## The function -/

structure RequestBuilder (q : Q) where
  method : Method
  cloneable : Bool

namespace RequestBuilder

variable {q : Q}

def tryClone (request : RequestBuilder q) : Option (RequestBuilder q) :=
  if request.cloneable then some request else none

def sendFrom (method : Option Method) : Nat → Nat → RequestBuilder q →
    Fut Unit (Call Q) (Reply B) (Except String (Response (B q)))
  | attempt, left, request => .await (some ()) (.send q) fun
    | .error e => .done (.error e)
    | .ok response =>
      match request.tryClone, method with
      | some next, some method' =>
        match left with
        | 0 => .done (.ok response)
        | left + 1 =>
          match retryDelay method' response.status response.retryAfter attempt with
          | none => .done (.ok response)
          | some wait => .await (some ()) (.sleep wait) fun _ => sendFrom method (attempt + 1) left next
      | _, _ => .done (.ok response)

def sendRetrying (self : RequestBuilder q) : Fut Unit (Call Q) (Reply B) (Except String (Response (B q))) :=
  sendFrom (self.tryClone.map (·.method)) 1 (maxAttempts - 1) self

theorem sendFrom_of_cloneable {request : RequestBuilder q} (h : request.cloneable = true) :
    ∀ left attempt, (sendFrom (some request.method) attempt left request : Fut Unit (Call Q) (Reply B) _) =
      Cheti.sendFrom request.method q attempt left := by
  have hclone : request.tryClone = some request := by simp [tryClone, h]
  intro left
  induction left with
  | zero =>
    intro attempt
    rw [sendFrom, Cheti.sendFrom]
    congr 1
    funext r
    cases r <;> simp [hclone]
  | succ left ih =>
    intro attempt
    rw [sendFrom, Cheti.sendFrom]
    congr 1
    funext r
    cases r with
    | error e => rfl
    | ok response =>
      cases hdelay : retryDelay request.method response.status response.retryAfter attempt with
      | none => simp [hclone, hdelay]
      | some wait => simp [hclone, hdelay, ih]

/-- A request that can be cloned is sent as the providers' requests are. -/
theorem sendRetrying_of_cloneable {request : RequestBuilder q} (h : request.cloneable = true) :
    (request.sendRetrying : Fut Unit (Call Q) (Reply B) _) = Cheti.sendFrom request.method q 1 (maxAttempts - 1) := by
  rw [← sendFrom_of_cloneable h, sendRetrying]
  simp [tryClone, h]

/-- One that cannot is sent once. -/
theorem sendRetrying_of_not_cloneable {request : RequestBuilder q} (h : request.cloneable = false) :
    (request.sendRetrying : Fut Unit (Call Q) (Reply B) _) = .await (some ()) (.send q) .done := by
  rw [sendRetrying, sendFrom]
  congr 1
  funext r
  cases r <;> simp [tryClone, h]

end RequestBuilder

/-! ## The policy -/

/-- The seconds of a `Retry-After` that can be read. -/
def retryAfterSecs (answer : Except String (Response α)) : Option Nat :=
  match answer with
  | .error _ => none
  | .ok response => response.retryAfter.bind fun v => parseU64 (trim v)

/-- An answer after which the request may be sent again. -/
def WillRetry (method : Method) (answer : Except String (Response α)) : Prop :=
  ∃ response, answer = .ok response ∧ Retryable method response ∧ ∀ n, retryAfterSecs answer = some n → n ≤ 10

/-- How long to wait after the `i`th answer (from 1). -/
def waitAfter (i : Nat) (answer : Except String (Response α)) : Duration :=
  secs ((retryAfterSecs answer).getD (2 ^ (i - 1)))

theorem secs_le_iff {m n : Nat} : secs m ≤ secs n ↔ m ≤ n := by
  exact Nat.mul_le_mul_right_iff (by decide)

theorem retryDelay_eq_some_iff {method : Method} {response : Response α} {attempt : Nat} {wait : Duration} :
    retryDelay method response.status response.retryAfter attempt = some wait ↔
      WillRetry method (.ok response) ∧ wait = waitAfter attempt (.ok response) := by
  have hstatus : (response.status.asU16 == 429 || (response.status.asU16 == 503 && method.isIdempotent)) = true ↔
      Retryable method response := by simp [Retryable]
  have hheader : (response.retryAfter.bind fun v => (parseU64 (trim v)).map secs) =
      (retryAfterSecs (.ok response)).map secs := by
    simp only [retryAfterSecs]
    cases response.retryAfter <;> rfl
  unfold retryDelay WillRetry waitAfter
  rw [hheader]
  simp only [Except.ok.injEq, exists_eq_left', Bool.not_eq_true']
  by_cases hretry : Retryable method response
  · rw [if_neg (by simp [hstatus.2 hretry])]
    cases retryAfterSecs (.ok response) with
    | none => simp [hretry, retryBackoff, secs, eq_comm, Nat.mul_comm]
    | some n =>
      simp only [Option.map_some, maxRetryWait, gt_iff_lt, Option.some.injEq, forall_eq', hretry, true_and,
        Option.getD_some]
      by_cases hn : n ≤ 10
      · rw [if_neg (not_lt.2 (secs_le_iff.2 hn))]
        simp [hn, eq_comm]
      · rw [if_pos (not_le.1 (fun h => hn (secs_le_iff.1 h)))]
        simp [hn]
  · rw [if_pos (Bool.eq_false_iff.2 fun h => hretry (hstatus.1 h))]
    simp [hretry]

/-- A server that answers the `n`th request with `answers n`. -/
def serving (answers : (q : Q) → Nat → Except String (Response (B q))) : Env (Call Q) (Reply B) Nat
  | .send q, r, n, n' => r = answers q n ∧ n' = n + 1
  | _, _, n, n' => n' = n

/-- The server seen from its `i`th answer on. -/
theorem chain_shift {answers : (q : Q) → Nat → Except String (Response (B q))} (i : Nat) :
    ∀ (t : List (Fut.Ev (Call Q) (Reply B))) (m n : Nat), Chain (serving answers) t (i + m) n →
      ∃ n', n = i + n' ∧ Chain (serving fun q j => answers q (i + j)) t m n'
  | [], m, n, h => ⟨m, h.symm, rfl⟩
  | ⟨c, r⟩ :: t, m, n, ⟨n₁, hstep, h⟩ => by
    have hfirst : ∃ m₁, n₁ = i + m₁ ∧ serving (fun q j => answers q (i + j)) c r m m₁ := by
      cases c with
      | send q => exact ⟨m + 1, hstep.2, hstep.1, rfl⟩
      | _ => exact ⟨m, hstep, rfl⟩
    obtain ⟨m₁, rfl, hstep'⟩ := hfirst
    obtain ⟨n', rfl, h'⟩ := chain_shift i t m₁ n h
    exact ⟨n', rfl, m₁, hstep', h'⟩

/-- The calls of the attempts `i` to `k`, the first of them without a wait before it. -/
def attempts (answers : (q : Q) → Nat → Except String (Response (B q))) (q : Q) (i k : Nat) :
    List (Fut.Ev (Call Q) (Reply B)) :=
  ⟨.send q, answers q i⟩ :: (List.range' (i + 1) (k - i)).flatMap fun j =>
    [⟨.sleep (waitAfter j (answers q (j - 1))), ()⟩, ⟨.send q, answers q j⟩]

section Policy

variable {method : Method} {q : Q} {answers : (q : Q) → Nat → Except String (Response (B q))}

theorem attempts_self (i : Nat) : attempts answers q i i = [⟨.send q, answers q i⟩] := by
  simp [attempts]

theorem attempts_succ {i k : Nat} (h : i < k) :
    attempts answers q i k =
      ⟨.send q, answers q i⟩ :: ⟨.sleep (waitAfter (i + 1) (answers q i)), ()⟩ :: attempts answers q (i + 1) k := by
  obtain ⟨m, hm⟩ : ∃ m, k - i = m + 1 := ⟨k - i - 1, by omega⟩
  have hm' : k - (i + 1) = m := by omega
  rw [attempts, attempts, hm, hm', List.range'_succ]
  simp

/-- The attempts from the `i`th to the `k`th, of which the last is the `k`th because it is not retried or
because no attempt is left. -/
structure Attempted (method : Method) (answers : (q : Q) → Nat → Except String (Response (B q))) (q : Q) (i left k : Nat)
    (t : List (Fut.Ev (Call Q) (Reply B))) (r : Except String (Response (B q))) : Prop where
  first : i ≤ k
  last : k ≤ i + left
  calls : t = attempts answers q i k
  result : r = answers q k
  retried : ∀ j, i ≤ j → j < k → WillRetry method (answers q j)
  stopped : k = i + left ∨ ¬ WillRetry method (answers q k)

/-- **The loop against a server**: from the `i`th answer it goes on to the first answer that is not retried, or
to the last attempt. -/
theorem runs_sendFrom {r : Except String (Response (B q))} {n : Nat} :
    ∀ left i (t : List (Fut.Ev (Call Q) (Reply B))), (sendFrom method q (i + 1) left).Runs t r →
      Chain (serving answers) t i n → ∃ k, n = k + 1 ∧ Attempted method answers q i left k t r := by
  intro left
  induction left with
  | zero =>
    intro i t hrun hchain
    rw [sendFrom, Fut.runs_await] at hrun
    obtain ⟨a, t', rfl, hrun⟩ := hrun
    obtain ⟨m, ⟨rfl, rfl⟩, hchain⟩ := hchain
    have hend : t' = [] ∧ answers q i = r := by
      cases ha : answers q i <;> rw [ha] at hrun <;> exact Fut.runs_done.1 hrun
    obtain ⟨rfl, rfl⟩ := hend
    exact ⟨i, hchain.symm, le_rfl, le_rfl, (attempts_self i).symm, rfl, by omega, Or.inl rfl⟩
  | succ left ih =>
    intro i t hrun hchain
    rw [sendFrom, Fut.runs_await] at hrun
    obtain ⟨a, t', rfl, hrun⟩ := hrun
    obtain ⟨m, ⟨rfl, rfl⟩, hchain⟩ := hchain
    -- an answer that is not retried is the last
    have hlast : ¬ WillRetry method (answers q i) → t' = [] ∧ answers q i = r →
        ∃ k, n = k + 1 ∧ Attempted method answers q i (left + 1) k (⟨.send q, answers q i⟩ :: t') r := by
      rintro hstop ⟨rfl, rfl⟩
      exact ⟨i, hchain.symm, le_rfl, Nat.le_add_right _ _, (attempts_self i).symm, rfl, by omega, Or.inr hstop⟩
    cases ha : answers q i with
    | error e =>
      rw [ha] at hrun hlast
      exact hlast (by simp [WillRetry]) (Fut.runs_done.1 hrun)
    | ok response =>
      rw [ha] at hrun hlast
      simp only at hrun
      cases hdelay : retryDelay method response.status response.retryAfter (i + 1) with
      | none =>
        rw [hdelay] at hrun
        refine hlast (fun hretry => ?_) (Fut.runs_done.1 hrun)
        have hsome : retryDelay method response.status response.retryAfter (i + 1) = some _ :=
          retryDelay_eq_some_iff.2 ⟨hretry, rfl⟩
        exact absurd (hdelay.symm.trans hsome) (by simp)
      | some wait =>
        rw [hdelay] at hrun
        simp only at hrun
        obtain ⟨hretry, rfl⟩ := retryDelay_eq_some_iff.1 hdelay
        rw [Fut.runs_await] at hrun
        obtain ⟨u, t'', rfl, hrun⟩ := hrun
        obtain ⟨m, rfl, hchain⟩ := hchain
        obtain ⟨k, rfl, h⟩ := ih (i + 1) t'' hrun hchain
        have hlt : i < k := h.first
        refine ⟨k, rfl, hlt.le, by have := h.last; omega, ?_, h.result, ?_, ?_⟩
        · rw [attempts_succ hlt, h.calls, ha]
        · intro j hij hjk
          rcases Nat.lt_or_eq_of_le hij with hlt' | rfl
          · exact h.retried j hlt' hjk
          · exact ha ▸ hretry
        · exact h.stopped.imp_left fun hk => by omega

/-- The time slept in a run. -/
def slept (t : List (Fut.Ev (Call Q) (Reply B))) : Duration :=
  (t.map fun e => match e.call with
    | .sleep d => d
    | _ => 0).sum

@[simp] theorem slept_nil : slept ([] : List (Fut.Ev (Call Q) (Reply B))) = 0 := rfl

@[simp] theorem slept_send (answer : Except String (Response (B q))) (t : List (Fut.Ev (Call Q) (Reply B))) :
    slept (⟨.send q, answer⟩ :: t) = slept t := by
  simp [slept]

@[simp] theorem slept_sleep (d : Duration) (u : Unit) (t : List (Fut.Ev (Call Q) (Reply B))) :
    slept (⟨.sleep d, u⟩ :: t) = d + slept t := by
  simp [slept]

theorem waitAfter_le {i : Nat} {answer : Except String (Response α)} (h : WillRetry method answer) (hi : i ≤ 4) :
    waitAfter i answer ≤ secs 10 := by
  obtain ⟨response, rfl, -, hlong⟩ := h
  rw [waitAfter, secs_le_iff]
  cases hs : retryAfterSecs (.ok response) with
  | none =>
    calc 2 ^ (i - 1) ≤ 2 ^ 3 := Nat.pow_le_pow_right (by decide) (by omega)
      _ ≤ 10 := by decide
  | some n => exact hlong n hs

theorem slept_attempts {k : Nat} {most : Duration} (h : ∀ j < k, waitAfter (j + 1) (answers q j) ≤ most) :
    ∀ m i, k = i + m → slept (attempts answers q i k) ≤ m * most
  | 0, i, hm => by
    obtain rfl : k = i := hm
    simp [attempts_self]
  | m + 1, i, hm => by
    have hlt : i < k := by omega
    have ih := slept_attempts h m (i + 1) (by omega)
    have hslept : slept (attempts answers q i k) =
        waitAfter (i + 1) (answers q i) + slept (attempts answers q (i + 1) k) := by
      rw [attempts_succ hlt, slept_send, slept_sleep]
    rw [hslept, Nat.succ_mul, Nat.add_comm (m * most)]
    exact Nat.add_le_add (h i hlt) ih

/-- **`send_retrying` follows its policy.** -/
theorem sendRetrying_policy (request : RequestBuilder q) (answers : (q : Q) → Nat → Except String (Response (B q)))
    {t : List (Fut.Ev (Call Q) (Reply B))} {r : Except String (Response (B q))} {n : Nat}
    (hrun : request.sendRetrying.Runs t r) (hchain : Chain (serving answers) t 0 n) :
    ∃ k, 1 ≤ k ∧ k ≤ 3 ∧ n = k ∧ r = answers q (k - 1) ∧
      t = ⟨.send q, answers q 0⟩ :: (List.range' 1 (k - 1)).flatMap (fun i =>
        [⟨.sleep (waitAfter i (answers q (i - 1))), ()⟩, ⟨.send q, answers q i⟩]) ∧
      (request.cloneable = false → k = 1) ∧
      (request.cloneable = true → (∀ i, i + 1 < k → WillRetry request.method (answers q i)) ∧
        (k = 3 ∨ ¬ WillRetry request.method (answers q (k - 1)))) ∧
      (request.method.isIdempotent = false → ∀ i, i + 1 < k →
        ∃ response, answers q i = .ok response ∧ response.status.asU16 = 429) ∧
      slept t ≤ secs 20 := by
  cases hclone : request.cloneable with
  | false =>
    rw [RequestBuilder.sendRetrying_of_not_cloneable hclone, Fut.runs_await] at hrun
    obtain ⟨a, t', rfl, hrun⟩ := hrun
    obtain ⟨m, ⟨rfl, rfl⟩, hchain⟩ := hchain
    obtain ⟨rfl, rfl⟩ := Fut.runs_done.1 hrun
    exact ⟨1, le_rfl, by decide, hchain.symm, rfl, rfl, fun _ => rfl, nofun, fun _ i hi => absurd hi (by omega),
      by simp⟩
  | true =>
    rw [RequestBuilder.sendRetrying_of_cloneable hclone] at hrun
    obtain ⟨k, rfl, h⟩ := runs_sendFrom 2 0 t hrun hchain
    have hk : k ≤ 2 := by simpa using h.last
    have hretried : ∀ i < k, WillRetry request.method (answers q i) := fun i hi => h.retried i (Nat.zero_le i) hi
    refine ⟨k + 1, by omega, by omega, rfl, h.result, h.calls, nofun, fun _ => ⟨?_, ?_⟩, ?_, ?_⟩
    · exact fun i hi => hretried i (by omega)
    · exact h.stopped.imp_left fun hk' => by omega
    · intro hpost i hi
      obtain ⟨response, ha, hstatus, -⟩ := hretried i (by omega)
      exact ⟨response, ha, hstatus.resolve_right fun h503 => by simp [hpost] at h503⟩
    · have hwait : ∀ i < k, waitAfter (i + 1) (answers q i) ≤ secs 10 :=
        fun i hi => waitAfter_le (hretried i hi) (by omega)
      rw [h.calls]
      calc slept (attempts answers q 0 k) ≤ k * secs 10 := slept_attempts hwait k 0 (by omega)
        _ ≤ 2 * secs 10 := Nat.mul_le_mul_right _ hk
        _ = secs 20 := rfl

theorem serving_answers (answers : (q : Q) → Nat → Except String (Response (B q))) :
    ∀ (c : Call Q) (n : Nat), ∃ r n', serving answers c r n n'
  | .send q, n => ⟨answers q n, n + 1, rfl, rfl⟩
  | .lock _ _, n | .unlock, n | .sleep _, n | .cacheInsert _ _, n | .forgetToken, n => ⟨(), n, rfl⟩
  | .now, n => ⟨(0 : Duration), n, rfl⟩
  | .findZone _, n | .accessToken, n => ⟨.ok [], n, rfl⟩
  | .cacheGet _, n => ⟨none, n, rfl⟩

/-- A `POST` that is throttled each time. -/
theorem sendRetrying_policy_throttled :
    ∃ (answers : (q : Unit) → Nat → Except String (Response Unit))
      (t : List (Fut.Ev (Call Unit) (Reply fun _ => Unit))) (r : Except String (Response Unit)) (n : Nat),
      (⟨.post, true⟩ : RequestBuilder ()).sendRetrying.Runs t r ∧ Chain (serving answers) t 0 n ∧
      1 ≤ n ∧ n ≤ 3 ∧ r = answers () (n - 1) ∧ slept t ≤ secs 20 := by
  obtain ⟨t, r, n, hrun, hchain⟩ := Fut.exists_run
    (serving_answers fun _ _ => .ok ⟨⟨429, "429"⟩, some "2".toList, none, none, [], .ok ()⟩)
    ((⟨.post, true⟩ : RequestBuilder ()).sendRetrying : Fut Unit (Call Unit) (Reply fun _ => Unit) _) 0
  obtain ⟨k, hpos, hk, rfl, hr, -, -, -, -, hslept⟩ := sendRetrying_policy _ _ hrun hchain
  exact ⟨_, t, r, n, hrun, hchain, hpos, hk, hr, hslept⟩

end Policy

/-! ## Route53: a loop around the loop -/

namespace Route53

variable {cfg : Route53Config} {method : Method} {verb : String} {path : Str} {q : Req}
  {answers : (q : Req) → Nat → Except String (Response q.Doc)}

/-- `send_retrying` sends the request again. -/
def statusRetry (method : Method) (answer : Except String (Response α)) : Bool :=
  match answer with
  | .error _ => false
  | .ok response => (response.status.asU16 == 429 || (response.status.asU16 == 503 && method.isIdempotent)) &&
      (retryAfterSecs answer).all (· ≤ 10)

/-- The loop of `send` does. -/
def codeRetry (cfg : Route53Config) (answer : Except String (Response α)) : Bool :=
  match answer with
  | .error _ => false
  | .ok response => !response.status.isSuccess && isThrottled cfg response.text

/-- The attempts that `send` and, inside it, `send_retrying` have left when the `n`th request is sent, if it is. -/
def phase (cfg : Route53Config) (method : Method) (answers : Nat → Except String (Response α)) : Nat → Option (Nat × Nat)
  | 0 => some (maxAttempts - 1, maxAttempts - 1)
  | n + 1 => (phase cfg method answers n).bind fun left =>
      if statusRetry method (answers n) && 0 < left.2 then some (left.1, left.2 - 1)
      else if codeRetry cfg (answers n) && 0 < left.1 then some (left.1 - 1, maxAttempts - 1)
      else none

theorem statusRetry_iff {answer : Except String (Response α)} :
    statusRetry method answer = true ↔ WillRetry method answer := by
  cases answer with
  | error e => simp [statusRetry, WillRetry]
  | ok response =>
    simp only [statusRetry, WillRetry, Retryable, Except.ok.injEq, exists_eq_left', Bool.and_eq_true]
    cases retryAfterSecs (.ok response) <;> simp

theorem phase_succ {left : Nat × Nat} {n : Nat} (h : phase cfg method (answers q) n = some left) :
    phase cfg method (answers q) (n + 1) =
      if statusRetry method (answers q n) && 0 < left.2 then some (left.1, left.2 - 1)
      else if codeRetry cfg (answers q n) && 0 < left.1 then some (left.1 - 1, maxAttempts - 1)
      else none := by
  rw [phase, h]
  rfl

/-- The resends of `send_retrying` use up its own attempts. -/
theorem phase_of_retried {outer left i : Nat} (hi : phase cfg method (answers q) i = some (outer, left)) :
    ∀ m ≤ left, (∀ j, i ≤ j → j < i + m → WillRetry method (answers q j)) →
      phase cfg method (answers q) (i + m) = some (outer, left - m)
  | 0, _, _ => hi
  | m + 1, hm, h => by
    have ih := phase_of_retried hi m (by omega) fun j hij hj => h j hij (by omega)
    have hretry : statusRetry method (answers q (i + m)) = true :=
      statusRetry_iff.2 (h (i + m) (by omega) (by omega))
    rw [← Nat.add_assoc, phase_succ ih, hretry]
    simp only [Bool.true_and, decide_eq_true_eq]
    rw [if_pos (by omega)]
    congr 2

/-- `send_retrying` ends with the `k`th request, and only an error code in its answer leads to another. -/
structure InnerEnds (cfg : Route53Config) (method : Method) (answers : (q : Req) → Nat → Except String (Response q.Doc))
    (q : Req) (outer i k : Nat) : Prop where
  next : phase cfg method (answers q) (k + 1) =
    if codeRetry cfg (answers q k) && 0 < outer then some (outer - 1, maxAttempts - 1) else none
  sent : ∀ j, i ≤ j → j < k + 1 → phase cfg method (answers q) j ≠ none

theorem wp_sendRetrying_phase {outer i : Nat} (hi : phase cfg method (answers q) i = some (outer, maxAttempts - 1)) :
    wp (fun _ _ => True) (serving answers) (sendRetrying method q : M (Response q.Doc)).run
      (fun r n => ∃ k, n = k + 1 ∧ r = (answers q k).mapError .http ∧ InnerEnds cfg method answers q outer i k) i := by
  have h : (sendRetrying method q : M (Response q.Doc)).run =
      (sendFrom method q 1 (maxAttempts - 1)).bind fun r => .done (r.mapError .http) := rfl
  rw [h, Fut.wp_bind]
  refine Fut.wp_of_forall_runs fun t r n hrun hchain => ?_
  obtain ⟨n', rfl, hchain'⟩ := chain_shift i t 0 n hchain
  obtain ⟨m, rfl, hm⟩ := runs_sendFrom (maxAttempts - 1) 0 t hrun hchain'
  have hlast : m ≤ maxAttempts - 1 := by simpa using hm.last
  have hretried : ∀ j, i ≤ j → j < i + m → WillRetry method (answers q j) := by
    intro j hij hj
    have hj' := hm.retried (j - i) (Nat.zero_le _) (by omega)
    rwa [Nat.add_sub_cancel' hij] at hj'
  have hphase := phase_of_retried hi m hlast hretried
  refine ⟨i + m, rfl, congrArg (Except.mapError DnsError.http) hm.result, ?_, ?_⟩
  · -- no attempt is left, or the answer is not one to resend after
    have hstop : (statusRetry method (answers q (i + m)) && decide (0 < maxAttempts - 1 - m)) = false := by
      rcases hm.stopped with hk | hk
      · simp [show maxAttempts - 1 - m = 0 by omega]
      · rw [← statusRetry_iff, Bool.not_eq_true] at hk
        simp [hk]
    rw [phase_succ hphase, hstop]
    rfl
  · intro j hij hj
    have hj' := phase_of_retried hi (j - i) (by omega) fun l hil hl => hretried l hil (by omega)
    rw [Nat.add_sub_cancel' hij] at hj'
    simp [hj']

/-- **The requests of one `send`**, begun with these attempts left: it makes those that `phase` says. -/
theorem wp_sendLoop_phase : ∀ (outer attempt i : Nat), phase cfg method (answers q) i = some (outer, maxAttempts - 1) →
    wp (fun _ _ => True) (serving answers) (sendLoop cfg method verb path q outer attempt).run
      (fun _ n => phase cfg method (answers q) n = none ∧
        ∀ j, i ≤ j → j < n → phase cfg method (answers q) j ≠ none) i := by
  intro outer
  induction outer with
  | zero =>
    intro attempt i hi
    rw [sendLoop.eq_def, Fut.wp_run_bind]
    refine Fut.wp_mono (wp_sendRetrying_phase hi) ?_
    rintro r n ⟨k, rfl, rfl, hends⟩
    have hnone : phase cfg method (answers q) (k + 1) = none := by simp [hends.next]
    cases answers q k with
    | error e => exact ⟨hnone, hends.sent⟩
    | ok response =>
      simp only [Except.mapError]
      split <;> exact ⟨hnone, hends.sent⟩
  | succ outer ih =>
    intro attempt i hi
    rw [sendLoop.eq_def, Fut.wp_run_bind]
    refine Fut.wp_mono (wp_sendRetrying_phase hi) ?_
    rintro r n ⟨k, rfl, rfl, hends⟩
    have hnext := hends.next
    cases ha : answers q k with
    | error e =>
      rw [ha] at hnext
      exact ⟨hnext, hends.sent⟩
    | ok response =>
      rw [ha] at hnext
      simp only [Except.mapError]
      split
      · rename_i hsuccess
        exact ⟨by simp [hnext, codeRetry, hsuccess], hends.sent⟩
      · rename_i hfailed
        split
        · rename_i hthrottled
          rw [Fut.wp_run_bind]
          refine wp_await_run.2 ⟨trivial, fun _ n hn => ?_⟩
          obtain rfl : n = k + 1 := hn
          have hagain : phase cfg method (answers q) (k + 1) = some (outer, maxAttempts - 1) := by
            simp [hnext, codeRetry, hfailed, hthrottled]
          refine Fut.wp_mono (ih (attempt + 1) (k + 1) hagain) ?_
          rintro _ n ⟨hend, hsent⟩
          refine ⟨hend, fun j hij hj => ?_⟩
          by_cases hjk : j < k + 1
          · exact hends.sent j hij hjk
          · exact hsent j (not_lt.1 hjk) hj
        · rename_i hother
          exact ⟨by simp [hnext, codeRetry, hother], hends.sent⟩

theorem wp_send_phase : wp (fun _ _ => True) (serving answers) (send cfg method verb path q).run
    (fun _ n => phase cfg method (answers q) n = none ∧ ∀ j < n, phase cfg method (answers q) j ≠ none) 0 := by
  unfold send
  rw [Fut.wp_run_bind]
  refine Fut.wp_mono (wp_sendLoop_phase (maxAttempts - 1) 1 0 rfl) ?_
  rintro r n ⟨hend, hsent⟩
  have h : phase cfg method (answers q) n = none ∧ ∀ j < n, phase cfg method (answers q) j ≠ none :=
    ⟨hend, fun j => hsent j (Nat.zero_le j)⟩
  cases r <;> exact h

/-- The server asks for a longer wait than 10 seconds. -/
def AsksLonger (answer : Except String (Response α)) : Prop := ∃ n, retryAfterSecs answer = some n ∧ 10 < n

def Unavailable (answer : Except String (Response α)) : Prop :=
  ∃ response, answer = .ok response ∧ response.status.asU16 = 503

/-- An answer that no request should follow. -/
def Forbids (method : Method) (answer : Except String (Response α)) : Prop :=
  AsksLonger answer ∨ method = .post ∧ Unavailable answer

/-- One of the two loops sends the request again. -/
def resent (cfg : Route53Config) (method : Method) (answer : Except String (Response α)) : Bool :=
  statusRetry method answer || codeRetry cfg answer

/-- The first answers are such that the loops do not add up: no answer with a throttling code forbids another
request, and the third answer does not set off the loop that did not make both resends before it. -/
structure OneLoop (cfg : Route53Config) (method : Method) (a₀ a₁ a₂ : Except String (Response α)) : Prop where
  first : codeRetry cfg a₀ = true → ¬ Forbids method a₀
  second : resent cfg method a₀ = true → codeRetry cfg a₁ = true → ¬ Forbids method a₁
  third : resent cfg method a₀ = true → resent cfg method a₁ = true →
    (statusRetry method a₀ = true → statusRetry method a₁ = true → codeRetry cfg a₂ = false) ∧
    (statusRetry method a₀ = false → statusRetry method a₁ = false → statusRetry method a₂ = false) ∧
    (statusRetry method a₀ ≠ statusRetry method a₁ → resent cfg method a₂ = false)

/-- `send_retrying` never resends after such an answer. -/
theorem not_forbids {answer : Except String (Response α)} (h : statusRetry method answer = true) :
    ¬ Forbids method answer := by
  obtain ⟨response, rfl, hstatus, hlong⟩ := statusRetry_iff.1 h
  rintro (⟨n, hn, hlt⟩ | ⟨rfl, _, he, h503⟩)
  · exact absurd (hlong n hn) (by omega)
  · cases he
    rcases hstatus with h429 | ⟨-, hpost⟩
    · omega
    · exact absurd hpost (by decide)

section Phases

variable {a : Nat → Except String (Response α)}

theorem phase_one : phase cfg method a 1 ≠ none ↔ resent cfg method (a 0) = true := by
  simp only [phase, resent, maxAttempts]
  cases statusRetry method (a 0) <;> cases codeRetry cfg (a 0) <;> simp

theorem phase_two :
    phase cfg method a 2 ≠ none ↔ resent cfg method (a 0) = true ∧ resent cfg method (a 1) = true := by
  simp only [phase, resent, maxAttempts]
  cases statusRetry method (a 0) <;> cases codeRetry cfg (a 0) <;> cases statusRetry method (a 1) <;>
    cases codeRetry cfg (a 1) <;> simp

theorem phase_three : phase cfg method a 3 = none ↔
    (resent cfg method (a 0) = true → resent cfg method (a 1) = true →
      (statusRetry method (a 0) = true → statusRetry method (a 1) = true → codeRetry cfg (a 2) = false) ∧
      (statusRetry method (a 0) = false → statusRetry method (a 1) = false → statusRetry method (a 2) = false) ∧
      (statusRetry method (a 0) ≠ statusRetry method (a 1) → resent cfg method (a 2) = false)) := by
  simp only [phase, resent, maxAttempts]
  generalize statusRetry method (a 0) = s₀, codeRetry cfg (a 0) = c₀, statusRetry method (a 1) = s₁,
    codeRetry cfg (a 1) = c₁, statusRetry method (a 2) = s₂, codeRetry cfg (a 2) = c₂
  revert s₀ c₀ s₁ c₁ s₂ c₂
  decide

/-- Once no request is made, none is made later. -/
theorem phase_none_mono {m n : Nat} (hmn : m ≤ n) (h : phase cfg method a m = none) : phase cfg method a n = none := by
  induction hmn with
  | refl => exact h
  | step _ ih => rw [phase, ih]; rfl

end Phases

/-- **One call of the API makes at most three requests and respects the server's wishes** iff the first answers
do not mix the two loops. -/
theorem send_respects_iff (cfg : Route53Config) (method : Method) (verb : String) (path : Str) (q : Req)
    (answers : (q : Req) → Nat → Except String (Response q.Doc)) :
    (∀ t r n, (send cfg method verb path q).run.Runs t r → Chain (serving answers) t 0 n →
      n ≤ 3 ∧ (∀ i, i + 1 < n → ¬ AsksLonger (answers q i)) ∧
      (method = .post → ∀ i, i + 1 < n → ¬ Unavailable (answers q i))) ↔
    OneLoop cfg method (answers q 0) (answers q 1) (answers q 2) := by
  constructor
  · intro h
    obtain ⟨t, r, n, hrun, hchain⟩ := Fut.exists_run (serving_answers answers) (send cfg method verb path q).run 0
    obtain ⟨hend, hsent⟩ := wp_send_phase.of_runs hrun hchain
    obtain ⟨hthree, hlonger, hpost⟩ := h t r n hrun hchain
    have hmade : ∀ i, phase cfg method (answers q) i ≠ none → i < n := by
      intro i hi
      by_contra hni
      exact hi (phase_none_mono (not_lt.1 hni) hend)
    have hforbids : ∀ i, phase cfg method (answers q) (i + 1) ≠ none → ¬ Forbids method (answers q i) := by
      rintro i hi (hlong | ⟨rfl, h503⟩)
      · exact hlonger i (hmade _ hi) hlong
      · exact hpost rfl i (hmade _ hi) h503
    refine ⟨fun hc => hforbids 0 (phase_one.2 ?_), fun h₀ hc => hforbids 1 (phase_two.2 ⟨h₀, ?_⟩),
      phase_three.1 (phase_none_mono hthree hend)⟩
    · simp [resent, hc]
    · simp [resent, hc]
  · intro h t r n hrun hchain
    obtain ⟨hend, hsent⟩ := wp_send_phase.of_runs hrun hchain
    have hthree : n ≤ 3 := by
      by_contra hn
      exact hsent 3 (by omega) (phase_three.2 h.third)
    have hforbids : ∀ i, i + 1 < n → ¬ Forbids method (answers q i) := by
      intro i hi
      have hphase := hsent (i + 1) hi
      by_cases hs : statusRetry method (answers q i) = true
      · exact not_forbids hs
      · obtain rfl | rfl : i = 0 ∨ i = 1 := by omega
        · exact h.first (by simpa [resent, hs] using phase_one.1 hphase)
        · have hboth := phase_two.1 hphase
          exact h.second hboth.1 (by simpa [resent, hs] using hboth.2)
    refine ⟨hthree, fun i hi hlong => hforbids i hi (Or.inl hlong), ?_⟩
    rintro rfl i hi h503
    exact hforbids i hi (Or.inr ⟨rfl, h503⟩)

/-- A server that answers every request with a 429 and the code `Throttling` gets nine of them. -/
theorem send_makes_nine_requests :
    ∃ (cfg : Route53Config) (answers : (q : Req) → Nat → Except String (Response q.Doc))
      (t : List (Fut.Ev (Call Req) (Reply Req.Doc))) (r : Except DnsError ChangeInfo),
      (send cfg .get "GET" [] (.getChange [])).run.Runs t r ∧ Chain (serving answers) t 0 9 := by
  let cfg : Route53Config := ⟨none, 60, fun _ => some ⟨"Throttling".toList, none⟩, fun _ => none⟩
  let answers : (q : Req) → Nat → Except String (Response q.Doc) :=
    fun _ _ => .ok ⟨⟨429, "429"⟩, none, none, none, [], .error ""⟩
  obtain ⟨t, r, n, hrun, hchain⟩ := Fut.exists_run (serving_answers answers) (send cfg .get "GET" [] (.getChange [])).run 0
  obtain ⟨hend, hsent⟩ := wp_send_phase.of_runs hrun hchain
  have hnine : n = 9 := by
    have hlast : phase cfg .get (answers (.getChange [])) 9 = none := rfl
    have hbefore : phase cfg .get (answers (.getChange [])) 8 ≠ none := nofun
    refine le_antisymm (not_lt.1 fun hlt => hsent 9 hlt hlast) (not_lt.1 fun hlt => ?_)
    exact hbefore (phase_none_mono (Nat.le_of_lt_succ hlt) hend)
  exact ⟨cfg, answers, t, r, hrun, hnine ▸ hchain⟩

end Route53

end Cheti
