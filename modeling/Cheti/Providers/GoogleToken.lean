import Cheti.Base.Tasks
import Cheti.Providers.GoogleCloudDns
/-!
# The access token of Google Cloud DNS (src/providers/google_cloud_dns.rs)

| here | there |
| --- | --- |
| `CachedToken`, `TokenResponse`  | the same (200-203, 584-587) |
| `accessToken`                   | `access_token` (259-295): `exchange` is what follows the look at the cache, `settle` what follows the response |
| `forgetTokenOnUnauthorized`     | `forget_token_on_unauthorized` (355-359) |
| `World`, `env`                  | `token: AsyncMutex<Option<CachedToken>>` and the clock |

These are the awaits `accessToken` and `forgetToken` of the provider. The token is behind an async mutex, which is held
during the exchange, retries included. A call can be dropped wherever it awaits, and its guard goes with it; it can
also panic, where the lifetime is too long for an `Instant`. The signed assertion is one call: nothing here depends on
its text.
-/

namespace Cheti.GoogleToken

open Fut

def tokenRefreshMargin : Duration := secs 60

structure CachedToken where
  value : Str
  refreshAt : Duration
deriving DecidableEq, Repr

structure TokenResponse where
  accessToken : Str
  expiresIn : Option UInt64
deriving DecidableEq, Repr

/-- `Duration::from_secs(body.expires_in.unwrap_or(3600))` -/
def TokenResponse.lifetime (body : TokenResponse) : Duration := secs (body.expiresIn.getD 3600).toNat

/-- The requests of `send_retrying` are answered for each assertion. -/
abbrev HttpCall := Cheti.Call Str

abbrev HttpReply : HttpCall → Type := Cheti.Reply fun _ : Str => TokenResponse

inductive Call where
  /-- `self.token.lock().await` -/
  | lock
  /-- The guard is dropped. -/
  | unlock
  | cached
  | store (token : Option CachedToken)
  /-- `Instant::now()` -/
  | now
  | signedAssertion
  /-- A call of `send_retrying`. -/
  | http (c : HttpCall)

abbrev Reply : Call → Type
  | .cached => Option CachedToken
  | .now => Duration
  | .signedAssertion => Except DnsError Str
  | .http c => HttpReply c
  | .lock | .unlock | .store _ => Unit

/-- What a drop finds. -/
inductive Guard where
  | waiting
  | held
deriving DecidableEq, Repr

inductive Outcome where
  | token (value : Str)
  | error (e : DnsError)
  | panicked
  /-- `forget_token_on_unauthorized` has returned. -/
  | done

abbrev Act (α : Type) := Fut Guard Call Reply α

/-- An inner `await`, with the guard held. -/
def held {α : Type} : Fut Unit HttpCall HttpReply α → Act α
  | .done a => .done a
  | .await none c k => .await none (.http c) fun r => held (k r)
  | .await (some ()) c k => .await (some .held) (.http c) fun r => held (k r)

def release (outcome : Outcome) : Act Outcome := .await none .unlock fun _ => .done outcome

/-- `now + duration`, which panics above the largest `Instant`. -/
def addInstant (maxInstant now duration : Duration) : Option Duration :=
  if now + duration ≤ maxInstant then some (now + duration) else none

variable (maxInstant : Duration)

def cacheToken (body : TokenResponse) : Act Outcome :=
  .await none .now fun now =>
    match addInstant maxInstant now (body.lifetime - tokenRefreshMargin) with
    | none => release .panicked
    | some refreshAt =>
      .await none (.store (some ⟨body.accessToken, refreshAt⟩)) fun _ => release (.token body.accessToken)

def settle (response : Response TokenResponse) : Act Outcome :=
  if !response.status.isSuccess then
    release (.error (GoogleCloudDns.intoAuth (apiError GoogleCloudDns.provider "POST" "token".toList response)))
  else
    match response.json with
    | .error e => release (.error e)
    | .ok body => cacheToken maxInstant body

def exchange : Act Outcome :=
  .await none .signedAssertion fun
    | .error e => release (.error e)
    | .ok assertion =>
      (held (sendRetrying .post assertion : Prog Str _ _).run).bind fun
        | .error e => release (.error e)
        | .ok response => settle maxInstant response

def accessToken : Act Outcome :=
  .await (some .waiting) .lock fun _ =>
    .await none .cached fun
      | none => exchange maxInstant
      | some token =>
        .await none .now fun now =>
          if now < token.refreshAt then release (.token token.value) else exchange maxInstant

def forgetTokenOnUnauthorized (status : StatusCode) : Act Outcome :=
  if status.asU16 = 401 then
    .await (some .waiting) .lock fun _ => .await none (.store none) fun _ => release .done
  else .done .done

/-! ## The world -/

structure World where
  clock : Duration
  locked : Bool
  cache : Option CachedToken

def env : Env Call Reply World
  | .lock, _, s, s' => s.locked = false ∧ s' = { s with locked := true }
  | .unlock, _, s, s' => s' = { s with locked := false }
  | .cached, r, s, s' => r = s.cache ∧ s' = s
  | .store token, _, s, s' => s' = { s with cache := token }
  | .now, r, s, s' => r = s.clock ∧ s' = s
  | .signedAssertion, _, s, s' => s' = s
  | .http _, _, s, s' => s' = s

def onDrop : Guard → World → World
  | .waiting, s => s
  | .held, s => { s with locked := false }

/-- The clock does not go back. -/
def tick (s s' : World) : Prop := s.clock ≤ s'.clock ∧ s' = { s with clock := s'.clock }

/-- A call of one of the two functions. -/
inductive Task where
  | accessToken
  | forget (status : StatusCode)

def Task.prog : Task → Act Outcome
  | .accessToken => GoogleToken.accessToken maxInstant
  | .forget status => forgetTokenOnUnauthorized status

abbrev Config (ι : Type) := Tasks.Config ι Guard Call Reply Outcome World

abbrev Label (ι : Type) := Tasks.Label ι Call Reply Unit

/-- A drop takes the lock's guard with it; the clock goes on by itself. -/
def machine {ι : Type} : Tasks.World ι Guard Call Reply World Unit where
  call _ := env
  drop _ g _ s s' := ∃ g', g = some g' ∧ s' = onDrop g' s
  other _ := tick

/-- Nothing is cached, and no call has begun. -/
def start {ι : Type} (tasks : ι → Task) (clock : Duration) : Config ι :=
  Tasks.start (fun i => (tasks i).prog maxInstant) ⟨clock, false, none⟩

/-- A run of all the calls. -/
abbrev Run {ι : Type} [DecidableEq ι] (tasks : ι → Task) (clock : Duration) : List (Label ι) → Config ι → Prop :=
  Tasks.Steps machine (start maxInstant tasks clock)

end Cheti.GoogleToken
