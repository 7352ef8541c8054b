import Cheti.Base.Wp
import Cheti.KeyedMutex
import Cheti.Names
/-!
# The HTTP side of the providers (src/providers/common.rs)

| here | there |
| --- | --- |
| `Call`, `Prog`          | what a provider awaits: requests, the lock, sleeps, the clock, the zone lookup; and its `async fn .. -> Result<_, DnsError>` |
| `Response`              | a `reqwest::Response` with its body read: the status, `Retry-After`, the text, the decoded document |
| `retryDelay`            | `retry_delay` (common.rs:66-93), `retryBackoff` for `retry_backoff` |
| `sendRetrying`          | `SendRetrying::send_retrying` (common.rs:37-62) |
| `withLock`              | `let _guard = self.locks.lock(..).await;` and the rest of the function |
| `apiError`, `truncateErrorBody` | `api_error`, `truncate_error_body` (common.rs:264-289) |

A provider's requests are a type `Q`, with the document each one is answered with, `B q`. Bodies are in
memory, so every request can be cloned and resent. Each await may be answered in any way; what an API
promises is said where it is used, by an environment.
-/

namespace Cheti

/-! ## Results -/

section Results

variable {ε α β : Type}

@[simp] theorem ok_bind (a : α) (f : α → Except ε β) : (Except.ok a >>= f) = f a := rfl

@[simp] theorem error_bind (e : ε) (f : α → Except ε β) : (Except.error e >>= f) = .error e := rfl

@[simp] theorem pure_eq_ok (a : α) : (pure a : Except ε α) = .ok a := rfl

theorem bind_eq_ok {x : Except ε α} {f : α → Except ε β} {b : β} :
    (x >>= f) = .ok b ↔ ∃ a, x = .ok a ∧ f a = .ok b := by
  cases x <;> simp

theorem map_eq_ok {x : Except ε α} {f : α → β} {b : β} : x.map f = .ok b ↔ ∃ a, x = .ok a ∧ f a = b := by
  cases x <;> simp [Except.map]

theorem mapError_eq_ok {ε' : Type} {x : Except ε α} {f : ε → ε'} {a : α} : x.mapError f = .ok a ↔ x = .ok a := by
  cases x <;> simp [Except.mapError]

end Results

/-- `if !ok { return Err(e); }` -/
def check (ok : Bool) (e : DnsError) : Except DnsError Unit := if ok then .ok () else .error e

theorem check_ok {ok : Bool} {e : DnsError} (h : ok = true) : check ok e = .ok () := by simp [check, h]

theorem check_error {ok : Bool} {e : DnsError} (h : ok = false) : check ok e = .error e := by simp [check, h]

theorem check_eq_ok {ok : Bool} {e : DnsError} {u : Unit} : check ok e = .ok u ↔ ok = true := by
  cases ok <;> simp [check]

theorem exists_check_eq_ok {ok : Bool} {e : DnsError} : (∃ u, check ok e = .ok u) ↔ ok = true := by simp [check_eq_ok]

/-! ## Requests and responses -/

inductive Method where
  | get
  | put
  | delete
  | post
  | patch
  | head
  | options
  | trace
  | connect
  | extension (name : String)
deriving DecidableEq, Repr

/-- `Method::is_idempotent`: the safe methods, `PUT` and `DELETE`. -/
def Method.isIdempotent : Method → Bool
  | .get | .head | .options | .trace | .put | .delete => true
  | .post | .patch | .connect | .extension _ => false

structure StatusCode where
  asU16 : Nat
  /-- Its `Display`. -/
  display : String
deriving DecidableEq, Repr

instance : ToString StatusCode := ⟨StatusCode.display⟩

def StatusCode.isSuccess (s : StatusCode) : Bool := 200 ≤ s.asU16 && s.asU16 < 300

theorem StatusCode.isSuccess_iff {s : StatusCode} : s.isSuccess = true ↔ 200 ≤ s.asU16 ∧ s.asU16 < 300 := by
  simp [isSuccess]

theorem StatusCode.ne_404 {s : StatusCode} (h : s.isSuccess = true) : s.asU16 ≠ 404 := by
  have := isSuccess_iff.1 h
  omega

theorem StatusCode.not_throttled {s : StatusCode} (h : s.isSuccess = true) :
    ¬ (s.asU16 = 429 ∨ s.asU16 = 503) := by
  have := isSuccess_iff.1 h
  omega

/-- A 404 has an error of its own. -/
theorem found_eq_ok {s : StatusCode} {e e' : DnsError} {u : Unit} :
    (if s.asU16 = 404 then throw e else check s.isSuccess e') = .ok u ↔ s.isSuccess = true := by
  constructor
  · intro h
    split at h
    · cases h
    · exact check_eq_ok.1 h
  · intro h
    rw [if_neg (StatusCode.ne_404 h)]
    exact check_eq_ok.2 h

structure Response (B : Type) where
  status : StatusCode
  /-- The `Retry-After` header, where it is text. -/
  retryAfter : Option Str
  /-- The `Content-Type` header, where it is text. -/
  contentType : Option Str
  /-- The `ratelimit-reset` header, where it is text. -/
  rateLimitReset : Option Str
  /-- `text().await.unwrap_or_default()` -/
  text : Str
  /-- `json().await`: the document, or why there is none. -/
  body : Except String B

inductive Call (Q : Type) where
  | lock (l : KeyedMutex) (key : Str)
  /-- The guard is dropped. -/
  | unlock
  | send (q : Q)
  | sleep (d : Duration)
  /-- `Instant::now()` -/
  | now
  | findZone (fqdn : Str)
  | cacheGet (name : Str)
  | cacheInsert (name zone : Str)
  /-- `GoogleCloudDnsProvider::access_token` -/
  | accessToken
  | forgetToken
deriving DecidableEq

abbrev Reply {Q : Type} (B : Q → Type) : Call Q → Type
  | .send q => Except String (Response (B q))
  | .now => Duration
  | .findZone _ => Except DnsError Str
  | .cacheGet _ => Option Str
  | .accessToken => Except DnsError Str
  | .lock _ _ | .unlock | .sleep _ | .cacheInsert _ _ | .forgetToken => Unit

abbrev Prog (Q : Type) (B : Q → Type) (α : Type) := ExceptT DnsError (Fut Unit (Call Q) (Reply B)) α

variable {Q : Type} {B : Q → Type} {α : Type}

theorem lift_bind {β : Type} (x : Except DnsError α) (f : α → Except DnsError β) :
    (liftM (x >>= f) : Prog Q B β) = liftM x >>= fun a => liftM (f a) := by
  cases x <;> rfl

theorem lift_ok_bind {β : Type} {a : α} (f : α → Prog Q B β) :
    (liftM (Except.ok a : Except DnsError α) >>= f : Prog Q B β) = f a := rfl

theorem lift_map {β : Type} (x : Except DnsError α) (f : α → β) :
    (liftM (x.map f) : Prog Q B β) = liftM x >>= fun a => pure (f a) := by
  cases x <;> rfl

/-- An await, its reply the result. -/
def await (c : Call Q) : Prog Q B (Reply B c) := ExceptT.lift (Fut.call (some ()) c)

/-- A call that cannot be suspended in. -/
def sync (c : Call Q) : Prog Q B (Reply B c) := ExceptT.lift (Fut.call none c)

/-- An await that may fail, followed by `?`. -/
def awaitTry (p : Fut Unit (Call Q) (Reply B) (Except DnsError α)) : Prog Q B α := ExceptT.mk p

/-- `find_zone(fqdn).await?` -/
def findZone (fqdn : Str) : Prog Q B Str := awaitTry (Fut.call (some ()) (Call.findZone fqdn))

/-- `self.access_token().await?` -/
def accessToken : Prog Q B Str := awaitTry (Fut.call (some ()) Call.accessToken)

/-! ## Retries -/

def maxAttempts : Nat := 3
def maxRetryWait : Duration := secs 10

/-- `RETRY_BACKOFF * 2u32.pow(attempt - 1)` -/
def retryBackoff (attempt : Nat) : Duration := secs 1 * 2 ^ (attempt - 1)

/-- `str::parse::<u64>`: an optional `+`, then digits only, within range. -/
def parseU64 (s : Str) : Option Nat :=
  let digits := s.dropPrefix? ['+'] |>.getD s
  if digits.isEmpty || !digits.all Char.isDigit then none
  else
    let n := digits.foldl (fun n c => 10 * n + (c.toNat - '0'.toNat)) 0
    if n < 2 ^ 64 then some n else none

def retryDelay (method : Method) (status : StatusCode) (retryAfter : Option Str) (attempt : Nat) :
    Option Duration :=
  let retryable := status.asU16 == 429 || (status.asU16 == 503 && method.isIdempotent)
  if !retryable then none
  else
    match retryAfter.bind fun v => (parseU64 (trim v)).map secs with
    | some wait => if wait > maxRetryWait then none else some wait
    | none => some (retryBackoff attempt)

/-- The loop of `send_retrying` from its `attempt`, with `left` more attempts allowed. -/
def sendFrom (method : Method) (q : Q) : Nat → Nat → Fut Unit (Call Q) (Reply B) (Except String (Response (B q)))
  | attempt, left => .await (some ()) (.send q) fun
    | .error e => .done (.error e)
    | .ok response =>
      match left with
      | 0 => .done (.ok response)
      | left + 1 =>
        match retryDelay method response.status response.retryAfter attempt with
        | none => .done (.ok response)
        | some wait => .await (some ()) (.sleep wait) fun _ => sendFrom method q (attempt + 1) left

def sendRetrying (method : Method) (q : Q) : Prog Q B (Response (B q)) :=
  awaitTry ((sendFrom method q 1 (maxAttempts - 1)).bind fun r => .done (r.mapError .http))

/-- `response.json().await?` -/
def Response.json (r : Response α) : Except DnsError α := r.body.mapError .http

theorem Response.json_ok {r : Response α} {a : α} (h : r.body = .ok a) : r.json = .ok a := by
  simp [Response.json, h, Except.mapError]

theorem Response.json_error {r : Response α} {e : String} (h : r.body = .error e) : r.json = .error (.http e) := by
  simp [Response.json, h, Except.mapError]

theorem Response.json_eq_ok {r : Response α} {a : α} : r.json = .ok a ↔ r.body = .ok a := by
  cases h : r.body <;> simp [Response.json, h, Except.mapError]

/-- A request, and what the function makes of the response. -/
def request (method : Method) (q : Q) (decode : Response (B q) → Except DnsError α) : Prog Q B α := do
  let response ← sendRetrying method q
  decode response

/-! ## The lock -/

/-- `format!("{zone}|{name}")` -/
def lockKey (zone name : Str) : Str := zone ++ '|' :: name

/-- The body runs with the lock; the guard is dropped when the function returns, with or without an error. -/
def withLock (l : KeyedMutex) (key : Str) (body : Prog Q B α) : Prog Q B α :=
  ExceptT.mk (.await (some ()) (.lock l key) fun _ => body.run.bind fun r => .await none .unlock fun _ => .done r)

/-! ## Errors -/

def maxErrorBody : Nat := 512

/-- `raw[..n]`, where `n` is a character boundary. -/
def takeBytes : Str → Nat → Option Str
  | _, 0 => some []
  | [], _ + 1 => none
  | c :: s, n => if c.utf8Size ≤ n then (takeBytes s (n - c.utf8Size)).map (c :: ·) else none

/-- `while cut > 0 && !raw.is_char_boundary(cut) { cut -= 1; }`, then `raw[..cut]`. -/
def cutAt (raw : Str) : Nat → Str
  | 0 => []
  | cut + 1 => (takeBytes raw (cut + 1)).getD (cutAt raw cut)

/-- At most `max` bytes, cut at a character boundary, and a mark. -/
def truncateAt (max : Nat) (raw : Str) : Str :=
  if Text.utf8Len raw ≤ max then raw else cutAt raw max ++ "…(truncated)".toList

def truncateErrorBody (raw : Str) : Str := truncateAt maxErrorBody raw

def apiError (provider method : String) (path : Str) (response : Response α) : DnsError :=
  .api s!"{provider} {method} {path} returned {response.status}: {truncateErrorBody response.text}"

/-- The delay a throttled response asks for, in the messages of the providers that report it. -/
def retryHint (response : Response α) : String :=
  match response.retryAfter with
  | some delay => s!"retry after {delay}s"
  | none => "retry later"

/-- `x.ok_or_else(|| e)` -/
def okOr (x : Option α) (e : DnsError) : Except DnsError α := x.elim (.error e) .ok

theorem okOr_eq_ok {x : Option α} {e : DnsError} {a : α} : okOr x e = .ok a ↔ x = some a := by
  cases x <;> simp [okOr]

/-! ## Rules -/

section Rules

open Fut

variable {S : Type} {ok : Call Q → S → Prop} {H : Env (Call Q) (Reply B) S} {s : S}

@[simp] theorem wp_await_run {c : Call Q} {Post : Except DnsError (Reply B c) → S → Prop} :
    wp ok H (await c : Prog Q B _).run Post s ↔ ok c s ∧ ∀ r s', H c r s s' → Post (.ok r) s' := Iff.rfl

@[simp] theorem wp_sync_run {c : Call Q} {Post : Except DnsError (Reply B c) → S → Prop} :
    wp ok H (sync c : Prog Q B _).run Post s ↔ ok c s ∧ ∀ r s', H c r s s' → Post (.ok r) s' := Iff.rfl

theorem wp_withLock {l : KeyedMutex} {key : Str} {body : Prog Q B α} {Post : Except DnsError α → S → Prop} :
    wp ok H (withLock l key body).run Post s ↔
      ok (.lock l key) s ∧ ∀ r s', H (.lock l key) r s s' →
        wp ok H body.run (fun r s₁ => ok .unlock s₁ ∧ ∀ u s₂, H .unlock u s₁ s₂ → Post r s₂) s' := by
  have h : (withLock l key body).run =
      .await (some ()) (.lock l key) fun _ => body.run.bind fun r => .await none .unlock fun _ => .done r := rfl
  simp only [h, wp_await, wp_bind, wp_done]

/-- A response that `send_retrying` may send the request again after. -/
def Retryable (method : Method) (r : Response α) : Prop :=
  r.status.asU16 = 429 ∨ r.status.asU16 = 503 ∧ method.isIdempotent = true

theorem retryable_of_delay {method : Method} {r : Response α} {attempt : Nat} {wait : Duration}
    (h : retryDelay method r.status r.retryAfter attempt = some wait) : Retryable method r := by
  unfold retryDelay at h
  by_contra hne
  simp_all [Retryable]

/-- **A request with its retries**: what holds before each attempt is kept by the attempts that are
repeated, and each answer may be the last. -/
theorem wp_sendFrom_inv {method : Method} {q : Q} {Post : Except String (Response (B q)) → S → Prop} {I : S → Prop}
    (hsend : ∀ s, I s → ok (.send q) s ∧ ∀ r s', H (.send q) r s s' →
      Post r s' ∧ ∀ resp, r = .ok resp → Retryable method resp → I s')
    (hsleep : ∀ d s, I s → ok (.sleep d) s ∧ ∀ u s', H (.sleep d) u s s' → I s') :
    ∀ left attempt s, I s → wp ok H (sendFrom method q attempt left) Post s
  | left, attempt, s, hs => by
    rw [sendFrom.eq_def, wp_await]
    refine ⟨(hsend s hs).1, fun r s' hr => ?_⟩
    obtain ⟨hpost, hretry⟩ := (hsend s hs).2 r s' hr
    cases r with
    | error e => exact hpost
    | ok response =>
      cases left with
      | zero => exact hpost
      | succ left =>
        cases hdelay : retryDelay method response.status response.retryAfter attempt with
        | none =>
          simp only [hdelay]
          exact hpost
        | some wait =>
          simp only [hdelay]
          have hs' : I s' := hretry response rfl (retryable_of_delay hdelay)
          refine ⟨(hsleep wait s' hs').1, fun u s₁ hu => ?_⟩
          exact wp_sendFrom_inv hsend hsleep left (attempt + 1) s₁ ((hsleep wait s' hs').2 u s₁ hu)

/-- It is one request, if a throttled or unavailable answer has no effect: its last answer comes from the
state before the first attempt. -/
theorem wp_sendFrom {method : Method} {q : Q} {Post : Except String (Response (B q)) → S → Prop}
    (hok : ok (.send q) s) (hsleep : ∀ d, ok (.sleep d) s ∧ ∀ u s', H (.sleep d) u s s' → s' = s)
    (hretry : ∀ r s', H (.send q) (.ok r) s s' → r.status.asU16 = 429 ∨ r.status.asU16 = 503 → s' = s)
    (hpost : ∀ r s', H (.send q) r s s' → Post r s') (left attempt : Nat) :
    wp ok H (sendFrom method q attempt left) Post s := by
  refine wp_sendFrom_inv (I := (· = s)) ?_ (fun d _ h => h ▸ hsleep d) left attempt s rfl
  rintro s rfl
  refine ⟨hok, fun r s' hr => ⟨hpost r s' hr, ?_⟩⟩
  rintro resp rfl hstatus
  exact hretry resp s' hr (hstatus.imp_right And.left)

theorem sendRetrying_run (method : Method) (q : Q) : (sendRetrying method q : Prog Q B _).run =
    (sendFrom method q 1 (maxAttempts - 1)).bind fun r => .done (r.mapError .http) := rfl

theorem wp_sendRetrying {method : Method} {q : Q} {Post : Except DnsError (Response (B q)) → S → Prop}
    (hok : ok (.send q) s) (hsleep : ∀ d, ok (.sleep d) s ∧ ∀ u s', H (.sleep d) u s s' → s' = s)
    (hretry : ∀ r s', H (.send q) (.ok r) s s' → r.status.asU16 = 429 ∨ r.status.asU16 = 503 → s' = s)
    (hpost : ∀ r s', H (.send q) r s s' → Post (r.mapError .http) s') :
    wp ok H (sendRetrying method q : Prog Q B _).run Post s := by
  rw [sendRetrying_run, wp_bind]
  exact wp_sendFrom hok hsleep hretry hpost _ _

/-- A request in terms of what its attempts keep. -/
theorem wp_request_inv {method : Method} {q : Q} {decode : Response (B q) → Except DnsError α}
    {Post : Except DnsError α → S → Prop} {I : S → Prop} (hs : I s)
    (hsend : ∀ s, I s → ok (.send q) s ∧ ∀ r s', H (.send q) r s s' →
      (∀ e, r = .error e → Post (.error (.http e)) s') ∧
      ∀ resp, r = .ok resp → Post (decode resp) s' ∧ (Retryable method resp → I s'))
    (hsleep : ∀ d s, I s → ok (.sleep d) s ∧ ∀ u s', H (.sleep d) u s s' → I s') :
    wp ok H (request method q decode : Prog Q B _).run Post s := by
  unfold request
  rw [wp_run_bind, sendRetrying_run, wp_bind]
  refine wp_sendFrom_inv (I := I) (fun s hs => ?_) hsleep _ _ s hs
  refine ⟨(hsend s hs).1, fun r s' hr => ?_⟩
  obtain ⟨herror, hresp⟩ := (hsend s hs).2 r s' hr
  cases r with
  | error e => exact ⟨herror e rfl, nofun⟩
  | ok resp => exact ⟨(hresp resp rfl).1, fun resp' he => by cases he; exact (hresp resp rfl).2⟩

theorem wp_request {method : Method} {q : Q} {decode : Response (B q) → Except DnsError α}
    {Post : Except DnsError α → S → Prop}
    (hok : ok (.send q) s) (hsleep : ∀ d, ok (.sleep d) s ∧ ∀ u s', H (.sleep d) u s s' → s' = s)
    (hretry : ∀ r s', H (.send q) (.ok r) s s' → r.status.asU16 = 429 ∨ r.status.asU16 = 503 → s' = s)
    (herror : ∀ e s', H (.send q) (.error e) s s' → Post (.error (.http e)) s')
    (hresp : ∀ resp s', H (.send q) (.ok resp) s s' → Post (decode resp) s') :
    wp ok H (request method q decode : Prog Q B _).run Post s := by
  unfold request
  rw [wp_run_bind]
  refine wp_sendRetrying hok hsleep hretry fun r s' hr => ?_
  cases r with
  | error e => exact herror e s' hr
  | ok resp => exact hresp resp s' hr

/-- The same in every state: a request, and what may come back. -/
theorem always_request {P : Call Q → Prop} {A : (c : Call Q) → Reply B c → Prop} {method : Method}
    {q : Q} {decode : Response (B q) → Except DnsError α} {Φ : Except DnsError α → Prop}
    (hsend : P (.send q)) (hsleep : ∀ d, P (.sleep d)) (herror : ∀ e, Φ (.error (.http e)))
    (hresp : ∀ resp, A (.send q) (.ok resp) → Φ (decode resp)) :
    Always P A (request method q decode : Prog Q B _).run Φ :=
  wp_request hsend (fun d => ⟨hsleep d, fun _ _ _ => rfl⟩) (fun _ _ _ _ => rfl) (fun e _ _ => herror e)
    fun resp _ hr => hresp resp hr

/-- The answers before the last one were to be retried. -/
def Retried (method : Method) (q : Q) (t : List (Ev (Call Q) (Reply B))) : Prop :=
  ∀ e ∈ t, (∃ d, e.call = .sleep d) ∨ ∃ resp, e = ⟨.send q, .ok resp⟩ ∧ Retryable method resp

theorem answered_sendFrom {method : Method} {q : Q} {r : Except String (Response (B q))} : ∀ {left attempt : Nat}
    {t : List (Ev (Call Q) (Reply B))}, (sendFrom method q attempt left).Runs t r →
      ∃ t₁, t = t₁ ++ [⟨.send q, r⟩] ∧ Retried method q t₁
  | left, attempt, t, h => by
    rw [sendFrom.eq_def] at h
    obtain ⟨r', t', rfl, h'⟩ := runs_await.1 h
    cases r' with
    | error e =>
      obtain ⟨rfl, rfl⟩ := runs_done.1 h'
      exact ⟨[], rfl, by simp [Retried]⟩
    | ok resp =>
      cases left with
      | zero =>
        obtain ⟨rfl, rfl⟩ := runs_done.1 h'
        exact ⟨[], rfl, by simp [Retried]⟩
      | succ left =>
        cases hdelay : retryDelay method resp.status resp.retryAfter attempt with
        | none =>
          simp only [hdelay] at h'
          obtain ⟨rfl, rfl⟩ := runs_done.1 h'
          exact ⟨[], rfl, by simp [Retried]⟩
        | some wait =>
          simp only [hdelay] at h'
          obtain ⟨u, t'', rfl, h''⟩ := runs_await.1 h'
          obtain ⟨t₁, rfl, hearlier⟩ := answered_sendFrom h''
          refine ⟨⟨.send q, .ok resp⟩ :: ⟨.sleep wait, u⟩ :: t₁, rfl, ?_⟩
          intro e he
          rcases List.mem_cons.1 he with rfl | he
          · exact Or.inr ⟨resp, rfl, retryable_of_delay hdelay⟩
          · rcases List.mem_cons.1 he with rfl | he
            · exact Or.inl ⟨wait, rfl⟩
            · exact hearlier e he

theorem answered_sendRetrying {method : Method} {q : Q} {t : List (Ev (Call Q) (Reply B))}
    {a : Except DnsError (Response (B q))} (h : (sendRetrying method q : Prog Q B _).run.Runs t a) :
    ∃ (t₁ : List (Ev (Call Q) (Reply B))) (r : Except String (Response (B q))), t = t₁ ++ [⟨.send q, r⟩] ∧
      Retried method q t₁ ∧ a = r.mapError .http := by
  rw [sendRetrying_run] at h
  obtain ⟨t', r, t₂, hsend, hdone, rfl⟩ := runs_bind.1 h
  obtain ⟨t₁, rfl, hretried⟩ := answered_sendFrom hsend
  obtain ⟨rfl, rfl⟩ := runs_done.1 hdone
  exact ⟨t₁, r, by simp, hretried, rfl⟩

/-- A request that returned was answered last by what it returns. -/
theorem answered_request {method : Method} {q : Q} {decode : Response (B q) → Except DnsError α}
    {t : List (Ev (Call Q) (Reply B))} {a : Except DnsError α}
    (h : (request method q decode : Prog Q B α).run.Runs t a) :
    ∃ (t₁ : List (Ev (Call Q) (Reply B))) (r : Except String (Response (B q))), t = t₁ ++ [⟨.send q, r⟩] ∧
      Retried method q t₁ ∧ a = (r.mapError .http >>= decode) := by
  rw [request, ExceptT.run_bind, bind_eq] at h
  obtain ⟨t', x, t₂, hsend, hdecode, rfl⟩ := runs_bind.1 h
  obtain ⟨t₁, r, rfl, hretried, rfl⟩ := answered_sendRetrying hsend
  cases r with
  | error e =>
    obtain ⟨rfl, rfl⟩ := runs_done.1 hdecode
    exact ⟨t₁, .error e, by simp, hretried, rfl⟩
  | ok resp =>
    obtain ⟨rfl, rfl⟩ := runs_done.1 hdecode
    exact ⟨t₁, .ok resp, by simp, hretried, rfl⟩

theorem may_withLock {l : KeyedMutex} {key : Str} {body : Prog Q B α} {Post : Except DnsError α → S → Prop} {s' : S}
    (hlock : H (.lock l key) () s s')
    (h : may H body.run (fun r s₁ => ∃ s₂, H .unlock () s₁ s₂ ∧ Post r s₂) s') :
    may H (withLock l key body).run Post s := by
  refine ⟨(), s', hlock, may_bind.2 (may_mono h ?_)⟩
  rintro r s₁ ⟨s₂, hunlock, hpost⟩
  exact ⟨(), s₂, hunlock, hpost⟩

theorem retryDelay_eq_none {method : Method} {r : Response α} {attempt : Nat} (h : ¬ Retryable method r) :
    retryDelay method r.status r.retryAfter attempt = none := by
  by_contra hne
  obtain ⟨wait, hwait⟩ := Option.ne_none_iff_exists'.1 hne
  exact h (retryable_of_delay hwait)

theorem runs_request_final {method : Method} {q : Q} {decode : Response (B q) → Except DnsError α} {resp : Response (B q)}
    (hfinal : ¬ Retryable method resp) :
    (request method q decode : Prog Q B α).run.Runs [⟨.send q, .ok resp⟩] (decode resp) := by
  rw [request, ExceptT.run_bind, bind_eq, sendRetrying_run, bind_assoc, sendFrom.eq_def]
  refine runs_await.2 ⟨.ok resp, [], rfl, ?_⟩
  simp only [maxAttempts, retryDelay_eq_none hfinal]
  exact runs_done.2 ⟨rfl, rfl⟩

/-- A request that is answered for good. -/
theorem may_request {method : Method} {q : Q} {decode : Response (B q) → Except DnsError α}
    {Post : Except DnsError α → S → Prop} {resp : Response (B q)} {s' : S} (h : H (.send q) (.ok resp) s s')
    (hfinal : ¬ Retryable method resp) (hpost : Post (decode resp) s') :
    may H (request method q decode : Prog Q B _).run Post s := by
  unfold request
  rw [may_run_bind, sendRetrying_run, may_bind, sendFrom.eq_def, may_await]
  refine ⟨.ok resp, s', h, ?_⟩
  simp only [maxAttempts, retryDelay_eq_none hfinal]
  exact hpost

/-- A request that is answered for good when it is sent again. -/
theorem may_request_again {method : Method} {q : Q} {decode : Response (B q) → Except DnsError α}
    {Post : Except DnsError α → S → Prop} {first resp : Response (B q)} {wait : Duration} {s₁ s₂ s' : S}
    (hfirst : H (.send q) (.ok first) s s₁) (hwait : retryDelay method first.status first.retryAfter 1 = some wait)
    (hsleep : H (.sleep wait) () s₁ s₂) (h : H (.send q) (.ok resp) s₂ s') (hfinal : ¬ Retryable method resp)
    (hpost : Post (decode resp) s') : may H (request method q decode : Prog Q B _).run Post s := by
  unfold request
  rw [may_run_bind, sendRetrying_run, may_bind, sendFrom.eq_def, may_await]
  refine ⟨.ok first, s₁, hfirst, ?_⟩
  simp only [maxAttempts, hwait]
  refine ⟨(), s₂, hsleep, ?_⟩
  rw [sendFrom.eq_def, may_await]
  refine ⟨.ok resp, s', h, ?_⟩
  simp only [retryDelay_eq_none hfinal]
  exact hpost

end Rules

end Cheti
