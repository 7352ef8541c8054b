import Cheti.Providers.GoogleToken
/-!
# The cached token is never stale or revoked

Any number of calls of `access_token` and of `forget_token_on_unauthorized` run together, each of them may be dropped
or panic, and the clock goes on. What one call does is said once (`accessToken_spec`): it stores a token only after an
exchange that gave it, and nothing else; it returns a token that it has stored, or one that it has read from the cache
before its time. The rest is about the order in which the calls touch the cache: what is read was stored last
(`cache_eq`), and the clock does not go back (`clock_le`).
-/

namespace Cheti.GoogleToken

open Fut Fut.Tasks

/-! ## One call -/

abbrev Trace := List (Ev Call Reply)

def NoStore (t : Trace) : Prop := ∀ e ∈ t, ∀ token, e.call ≠ .store token

theorem noStore_nil : NoStore [] := nofun

theorem noStore_snoc {t : Trace} {e : Ev Call Reply} (h : NoStore t) (he : ∀ token, e.call ≠ .store token) :
    NoStore (t ++ [e]) := by
  intro e' he'
  rcases List.mem_append.1 he' with he' | he'
  · exact h e' he'
  · rw [List.mem_singleton.1 he']
    exact he

/-- When a token that was obtained then is to be replaced. -/
def TokenResponse.refreshAt (body : TokenResponse) (obtained : Duration) : Duration :=
  obtained + (body.lifetime - tokenRefreshMargin)

/-- The response gives a token. -/
structure Exchange (response : Response TokenResponse) (body : TokenResponse) : Prop where
  success : response.status.isSuccess = true
  decoded : response.body = .ok body

/-- The last two calls were an exchange that gave this token and a look at the clock. -/
def Obtained (token : CachedToken) (t : Trace) : Prop :=
  ∃ t₁ assertion response body obtained, t = t₁ ++ [⟨.http (.send assertion), .ok response⟩, ⟨.now, obtained⟩] ∧
    Exchange response body ∧ token = ⟨body.accessToken, body.refreshAt obtained⟩

def CallOk : Call → Trace → Prop
  | .store token, t => NoStore t ∧ ∃ tok, token = some tok ∧ Obtained tok t
  | .lock, t | .http _, t => NoStore t
  | _, _ => True

/-- The token was read from the cache before its time. -/
def Hit (value : Str) (t : Trace) : Prop :=
  ∃ token now, t = [⟨.lock, ()⟩, ⟨.cached, some token⟩, ⟨.now, now⟩, ⟨.unlock, ()⟩] ∧ now < token.refreshAt ∧
    token.value = value

/-- The token was stored. -/
def Stored (value : Str) (t : Trace) : Prop :=
  ∃ t₁ token, t = t₁ ++ [⟨.store (some token), ()⟩, ⟨.unlock, ()⟩] ∧ NoStore t₁ ∧ token.value = value

def OutcomeOk : Outcome → Trace → Prop
  | .token value, t => Hit value t ∧ NoStore t ∨ Stored value t
  | .error _, t | .panicked, t => NoStore t
  | .done, _ => False

variable {maxInstant : Duration}

theorem wp_release {outcome : Outcome} {t : Trace} (h : OutcomeOk outcome (t ++ [⟨.unlock, ()⟩])) :
    wp CallOk record (release outcome) OutcomeOk t :=
  wp_record_await trivial fun _ => h

theorem wp_fails {e : DnsError} {t : Trace} (h : NoStore t) : wp CallOk record (release (.error e)) OutcomeOk t :=
  wp_release (noStore_snoc h nofun)

theorem wp_cacheToken {body : TokenResponse} {t t₁ : Trace} {assertion : Str} {response : Response TokenResponse}
    (ht : t = t₁ ++ [⟨.http (.send assertion), .ok response⟩]) (hx : Exchange response body) (h : NoStore t) :
    wp CallOk record (cacheToken maxInstant body) OutcomeOk t := by
  refine wp_record_await trivial fun now => ?_
  have hnow : NoStore (t ++ [⟨.now, now⟩]) := noStore_snoc h nofun
  split
  · exact wp_release (noStore_snoc hnow nofun)
  · rename_i refreshAt hadd
    have hrefresh : refreshAt = body.refreshAt now := by
      unfold addInstant at hadd
      split at hadd
      · exact (Option.some.inj hadd).symm
      · cases hadd
    have hobtained : Obtained ⟨body.accessToken, refreshAt⟩ (t ++ [⟨.now, now⟩]) :=
      ⟨t₁, assertion, response, body, now, by rw [ht]; simp, hx, by rw [hrefresh]⟩
    refine wp_record_await ⟨hnow, _, rfl, hobtained⟩ fun u => ?_
    exact wp_release (Or.inr ⟨_, _, List.append_assoc .., hnow, rfl⟩)

theorem wp_settle {response : Response TokenResponse} {t t₁ : Trace} {assertion : Str}
    (ht : t = t₁ ++ [⟨.http (.send assertion), .ok response⟩]) (h : NoStore t) :
    wp CallOk record (settle maxInstant response) OutcomeOk t := by
  unfold settle
  split
  · exact wp_fails h
  · rename_i hsuccess
    split
    · exact wp_fails h
    · rename_i body hbody
      refine wp_cacheToken ht ⟨?_, Response.json_eq_ok.1 hbody⟩ h
      simpa using hsuccess

/-- The response is that of the last call. -/
def SentLast (assertion : Str) (r : Except String (Response TokenResponse)) (t : Trace) : Prop :=
  NoStore t ∧ ∀ response, r = .ok response → ∃ t₁, t = t₁ ++ [⟨.http (.send assertion), .ok response⟩]

theorem sentLast (assertion : Str) {t : Trace} (h : NoStore t) (r : Except String (Response TokenResponse)) :
    SentLast assertion r (t ++ [⟨.http (.send assertion), r⟩]) :=
  ⟨noStore_snoc h nofun, fun response heq => ⟨t, by rw [heq]⟩⟩

/-- The attempts of `send_retrying`. -/
theorem wp_sendFrom (assertion : Str) : ∀ (left attempt : Nat) (t : Trace), NoStore t →
    wp CallOk record (held (sendFrom .post assertion attempt left)) (SentLast assertion) t
  | left, attempt, t, h => by
    rw [sendFrom.eq_def, held]
    refine wp_record_await h fun r => ?_
    cases r with
    | error e => exact sentLast assertion h _
    | ok response =>
      cases left with
      | zero => exact sentLast assertion h _
      | succ left =>
        simp only
        split
        · exact sentLast assertion h _
        · have hsent := (sentLast assertion h (.ok response)).1
          exact wp_record_await hsent fun u => wp_sendFrom assertion left (attempt + 1) _ (noStore_snoc hsent nofun)

theorem held_bind {α β : Type} (p : Fut Unit HttpCall HttpReply α) (f : α → Fut Unit HttpCall HttpReply β) :
    held (p.bind f) = (held p).bind fun a => held (f a) := by
  induction p with
  | done a => rfl
  | await g c k ih =>
    cases g with
    | _ =>
      simp only [await_bind, held]
      congr 1
      funext r
      exact ih r

theorem held_sendRetrying (assertion : Str) : held (sendRetrying .post assertion : Prog Str (fun _ => TokenResponse) _).run =
    (held (sendFrom .post assertion 1 (maxAttempts - 1))).bind fun r => .done (r.mapError .http) := held_bind _ _

theorem wp_exchange {t : Trace} (h : NoStore t) : wp CallOk record (exchange maxInstant) OutcomeOk t := by
  refine wp_record_await trivial fun r => ?_
  have hsigned : NoStore (t ++ [⟨.signedAssertion, r⟩]) := noStore_snoc h nofun
  cases r with
  | error e => exact wp_fails hsigned
  | ok assertion =>
    simp only [held_sendRetrying, wp_bind]
    refine wp_mono (wp_sendFrom assertion _ 1 _ hsigned) fun r t' hr => ?_
    obtain ⟨hstore, hlast⟩ := hr
    cases r with
    | error e => exact wp_fails hstore
    | ok response =>
      obtain ⟨t₁, ht⟩ := hlast response rfl
      exact wp_settle ht hstore

/-- **What a call of `access_token` does.** -/
theorem accessToken_spec : wp CallOk record (accessToken maxInstant) OutcomeOk [] := by
  refine wp_record_await noStore_nil fun _ => wp_record_await trivial fun r => ?_
  have hread : NoStore ([] ++ [⟨.lock, ()⟩] ++ [⟨.cached, r⟩]) :=
    noStore_snoc (noStore_snoc noStore_nil nofun) nofun
  cases r with
  | none => exact wp_exchange hread
  | some token =>
    refine wp_record_await trivial fun now => ?_
    have hnow := noStore_snoc hread (show ∀ tok, (⟨.now, now⟩ : Ev Call Reply).call ≠ .store tok from nofun)
    split
    · rename_i hlt
      exact wp_release (Or.inl ⟨⟨token, now, rfl, hlt, rfl⟩, noStore_snoc hnow nofun⟩)
    · exact wp_exchange hnow

theorem not_stops_release {outcome : Outcome} {t : Trace} {g : Guard} {c : Call} : ¬ (release outcome).Stops t g c := by
  intro h
  rcases stops_await.1 h with ⟨-, heq, -⟩ | ⟨_, t₁, -, h₁⟩
  · cases heq
  · exact stops_done h₁

theorem not_stops_settle {response : Response TokenResponse} {t : Trace} {g : Guard} {c : Call} :
    ¬ (settle maxInstant response).Stops t g c := by
  intro h
  unfold settle at h
  split at h
  · exact not_stops_release h
  · split at h
    · exact not_stops_release h
    · rcases stops_await.1 h with ⟨-, heq, -⟩ | ⟨now, t₁, -, h₁⟩
      · cases heq
      · split at h₁
        · exact not_stops_release h₁
        · rcases stops_await.1 h₁ with ⟨-, heq, -⟩ | ⟨_, t₂, -, h₂⟩
          · cases heq
          · exact not_stops_release h₂

theorem held_stops {α : Type} {p : Fut Unit HttpCall HttpReply α} {t : Trace} {g : Guard} {c : Call}
    (h : (held p).Stops t g c) : ∃ c', c = .http c' := by
  induction p generalizing t with
  | done a => exact absurd h stops_done
  | await g' c' k ih =>
    cases g' with
    | _ =>
      rcases stops_await.1 h with ⟨-, -, heq⟩ | ⟨r, t₁, -, h₁⟩
      · exact ⟨c', heq.symm⟩
      · exact ih r h₁

theorem exchange_stops {t : Trace} {g : Guard} {c : Call} (h : (exchange maxInstant).Stops t g c) :
    ∃ c', c = .http c' := by
  rcases stops_await.1 h with ⟨-, heq, -⟩ | ⟨r, t₁, -, h₁⟩
  · cases heq
  · cases r with
    | error e => exact absurd h₁ not_stops_release
    | ok assertion =>
      rcases stops_bind.1 h₁ with h₂ | ⟨_, r, t₂, -, h₂, -⟩
      · exact held_stops h₂
      · cases r with
        | error e => exact absurd h₂ not_stops_release
        | ok response => exact absurd h₂ not_stops_settle

/-- **A call that is dropped** has stored nothing. -/
theorem noStore_of_stops {t : Trace} {g : Guard} {c : Call} (h : (accessToken maxInstant).Stops t g c) : NoStore t := by
  have hok := wp_issues accessToken_spec h.issues
  have hcall : c = .lock ∨ ∃ c', c = .http c' := by
    rcases stops_await.1 h with ⟨-, -, heq⟩ | ⟨_, t₁, -, h₁⟩
    · exact Or.inl heq.symm
    · refine Or.inr ?_
      rcases stops_await.1 h₁ with ⟨-, heq, -⟩ | ⟨r, t₂, -, h₂⟩
      · cases heq
      · cases r with
        | none => exact exchange_stops h₂
        | some token =>
          rcases stops_await.1 h₂ with ⟨-, heq, -⟩ | ⟨now, t₃, -, h₃⟩
          · cases heq
          · split at h₃
            · exact absurd h₃ not_stops_release
            · exact exchange_stops h₃
  rcases hcall with rfl | ⟨c', rfl⟩
  · exact hok
  · exact hok

/-- `forget_token_on_unauthorized` stores nothing but the absence of a token. -/
theorem forget_issues {status : StatusCode} {t : Trace} {token : Option CachedToken}
    (h : (forgetTokenOnUnauthorized status).Issues t (.store token)) : token = none := by
  unfold forgetTokenOnUnauthorized at h
  split at h
  · rcases issues_await.1 h with ⟨-, heq⟩ | ⟨_, t₁, -, h₁⟩
    · cases heq
    · rcases issues_await.1 h₁ with ⟨-, heq⟩ | ⟨_, t₂, -, h₂⟩
      · exact (Call.store.inj heq).symm
      · rcases issues_await.1 h₂ with ⟨-, heq⟩ | ⟨_, t₃, -, h₃⟩
        · cases heq
        · exact absurd h₃ issues_done
  · exact absurd h issues_done

theorem forget_runs {status : StatusCode} {t : Trace} {outcome : Outcome}
    (h : (forgetTokenOnUnauthorized status).Runs t outcome) :
    outcome = .done ∧ (status.asU16 = 401 → ⟨.store none, ()⟩ ∈ t) := by
  unfold forgetTokenOnUnauthorized at h
  split at h
  · obtain ⟨_, t₁, rfl, h₁⟩ := runs_await.1 h
    obtain ⟨_, t₂, rfl, h₂⟩ := runs_await.1 h₁
    obtain ⟨_, t₃, rfl, h₃⟩ := runs_await.1 h₂
    exact ⟨(runs_done.1 h₃).2.symm, fun _ => by simp⟩
  · rename_i hother
    exact ⟨(runs_done.1 h).2.symm, fun h401 => absurd h401 hother⟩

/-! ## The cache -/

section Cache

variable {ι : Type} {w : List (Label ι)}

def cacheStep (cache : Option CachedToken) : Label ι → Option CachedToken
  | .call _ ⟨.store token, _⟩ => token
  | _ => cache

/-- What the cache holds after these calls, from what it held before. -/
def cacheFrom (cache : Option CachedToken) (w : List (Label ι)) : Option CachedToken := w.foldl cacheStep cache

def cacheAfter (w : List (Label ι)) : Option CachedToken := cacheFrom none w

theorem cacheFrom_append (cache : Option CachedToken) (w₁ w₂ : List (Label ι)) :
    cacheFrom cache (w₁ ++ w₂) = cacheFrom (cacheFrom cache w₁) w₂ := List.foldl_append

/-- A token in the cache was there before, or was stored. -/
theorem cacheFrom_eq_some {cache : Option CachedToken} {token : CachedToken} (h : cacheFrom cache w = some token) :
    cache = some token ∨ ∃ j, .call j ⟨.store (some token), ()⟩ ∈ w := by
  induction w using List.reverseRecOn with
  | nil => exact Or.inl h
  | append_singleton w l ih =>
    rw [cacheFrom_append] at h
    have hkeep : cacheFrom cache w = some token → cache = some token ∨ ∃ j, .call j ⟨.store (some token), ()⟩ ∈ w ++ [l] :=
      fun hw => (ih hw).imp_right fun ⟨j, hj⟩ => ⟨j, List.mem_append_left [l] hj⟩
    cases l with
    | call j e =>
      obtain ⟨c, r⟩ := e
      cases c with
      | store stored =>
        obtain rfl : stored = some token := h
        exact Or.inr ⟨j, by simp⟩
      | _ => exact hkeep h
    | drop j c => exact hkeep h
    | other o => exact hkeep h

theorem cacheAfter_store (w : List (Label ι)) (k : ι) (token : Option CachedToken) :
    cacheAfter (w ++ [.call k ⟨.store token, ()⟩]) = token := by
  rw [cacheAfter, cacheFrom_append]
  rfl

theorem cacheAfter_of_noStore {i : ι} {e : Ev Call Reply} (h : ∀ token, e.call ≠ .store token) (w : List (Label ι)) :
    cacheAfter (w ++ [.call i e]) = cacheAfter w := by
  rw [cacheAfter, cacheFrom_append]
  obtain ⟨c, r⟩ := e
  cases c with
  | store token => exact absurd rfl (h token)
  | _ => rfl

theorem prog_of_accessToken {tasks : ι → Task} {clock : Duration} {i : ι} (hi : tasks i = .accessToken) :
    (start maxInstant tasks clock).prog i = some (accessToken maxInstant) := by
  show some ((tasks i).prog maxInstant) = _
  rw [hi]
  rfl

theorem prog_of_forget {tasks : ι → Task} {clock : Duration} {i : ι} {status : StatusCode} (hi : tasks i = .forget status) :
    (start maxInstant tasks clock).prog i = some (forgetTokenOnUnauthorized status) := by
  show some ((tasks i).prog maxInstant) = _
  rw [hi]
  rfl

end Cache

section Run

variable {ι : Type} [DecidableEq ι] {tasks : ι → Task} {clock : Duration} {w w₁ w₂ : List (Label ι)} {cfg : Config ι}

/-- What a step does to the cache and to the clock. -/
theorem step_store {cfg cfg' : Config ι} {l : Label ι} (h : Tasks.Step machine cfg l cfg') :
    cfg'.store.cache = cacheStep cfg.store.cache l ∧ cfg.store.clock ≤ cfg'.store.clock := by
  cases h with
  | @call i g c k r s' hp hr =>
    cases c with
    | lock =>
      rw [hr.2]
      exact ⟨rfl, le_rfl⟩
    | cached =>
      rw [hr.2]
      exact ⟨rfl, le_rfl⟩
    | now =>
      rw [hr.2]
      exact ⟨rfl, le_rfl⟩
    | _ =>
      obtain rfl : s' = _ := hr
      exact ⟨rfl, le_rfl⟩
  | drop hp hs =>
    obtain ⟨g, rfl, rfl⟩ := hs
    cases g with
    | waiting => exact ⟨rfl, le_rfl⟩
    | held => exact ⟨rfl, le_rfl⟩
  | other htick =>
    rw [htick.2]
    exact ⟨rfl, htick.1⟩

/-- **What the cache holds was stored last.** -/
theorem cache_eq (h : Run maxInstant tasks clock w cfg) : cfg.store.cache = cacheAfter w := by
  induction h with
  | nil => rfl
  | snoc h hs ih =>
    rw [cacheAfter, cacheFrom_append, (step_store hs).1, ih]
    rfl

theorem read_eq {i : ι} {r : Option CachedToken} (h : Run maxInstant tasks clock (w₁ ++ .call i ⟨.cached, r⟩ :: w₂) cfg) :
    r = cacheAfter w₁ := by
  obtain ⟨cfg₁, cfg₂, h₁, hs⟩ := h.split
  cases hs with
  | call hp hr => exact hr.1.trans (cache_eq h₁)

/-- **The clock does not go back.** -/
theorem clock_le (h : Run maxInstant tasks clock w cfg) {j : ι} {now : Duration} (hj : .call j ⟨.now, now⟩ ∈ w) :
    now ≤ cfg.store.clock := by
  induction h with
  | nil => cases hj
  | snoc h hs ih =>
    have hmono := (step_store hs).2
    rcases List.mem_append.1 hj with hj | hj
    · exact (ih hj).trans hmono
    · rw [← List.mem_singleton.1 hj] at hs
      cases hs with
      | call hp hr =>
        rw [hr.1]
        exact hmono

theorem now_le {i j : ι} {now before : Duration} (h : Run maxInstant tasks clock (w₁ ++ .call i ⟨.now, now⟩ :: w₂) cfg)
    (hj : .call j ⟨.now, before⟩ ∈ w₁) : before ≤ now := by
  obtain ⟨cfg₁, cfg₂, h₁, hs⟩ := h.split
  cases hs with
  | call hp hr =>
    rw [hr.1]
    exact clock_le h₁ hj

/-! ## The calls in a run -/

/-- Only `access_token` returns a token, and it has read or stored it. -/
theorem token_calls (h : Run maxInstant tasks clock w cfg) {i : ι} {value : Str}
    (hi : cfg.prog i = some (.done (.token value))) :
    tasks i = .accessToken ∧ (Hit value (calls i w) ∨ Stored value (calls i w)) := by
  cases htask : tasks i with
  | accessToken =>
    have hat := h.at (prog_of_accessToken htask)
    rw [hi] at hat
    exact ⟨rfl, (wp_runs accessToken_spec hat).imp_left And.left⟩
  | forget status =>
    have hat := h.at (prog_of_forget htask)
    rw [hi] at hat
    cases (forget_runs hat).1

/-- What a call has stored, it has obtained. -/
theorem stored_obtained {j : ι} {token : CachedToken}
    (h : Run maxInstant tasks clock (w₁ ++ .call j ⟨.store (some token), ()⟩ :: w₂) cfg) :
    tasks j = .accessToken ∧ Obtained token (calls j w₁) := by
  cases htask : tasks j with
  | accessToken =>
    obtain ⟨-, token', heq, hobtained⟩ := wp_issues accessToken_spec (h.issues (prog_of_accessToken htask))
    obtain rfl := Option.some.inj heq
    exact ⟨rfl, hobtained⟩
  | forget status => cases forget_issues (h.issues (prog_of_forget htask))

/-- The token came in an exchange of this run, at this time. -/
def ObtainedIn (w : List (Label ι)) (token : CachedToken) (body : TokenResponse) (obtained : Duration) : Prop :=
  token = ⟨body.accessToken, body.refreshAt obtained⟩ ∧ ∃ j assertion response, Exchange response body ∧
    [Tasks.Label.call j ⟨.http (.send assertion), .ok response⟩, .call j ⟨.now, obtained⟩,
      .call j ⟨.store (some token), ()⟩].Sublist w

theorem obtainedIn_of_mem {j : ι} {token : CachedToken} (h : Run maxInstant tasks clock w cfg)
    (hj : .call j ⟨.store (some token), ()⟩ ∈ w) : ∃ body obtained, ObtainedIn w token body obtained := by
  obtain ⟨w₁, w₂, rfl⟩ := List.append_of_mem hj
  obtain ⟨-, t₁, assertion, response, body, obtained, hcalls, hx, htoken⟩ := stored_obtained h
  refine ⟨body, obtained, htoken, j, assertion, response, hx, ?_⟩
  have hsub := calls_sublist j w₁
  rw [hcalls, List.map_append] at hsub
  have hpair := (List.sublist_append_right _ _).trans hsub
  exact hpair.append (List.singleton_sublist.2 List.mem_cons_self)

/-- The calls of a hit, in the run. -/
theorem hit_split {i : ι} {value : Str} (h : Hit value (calls i w)) : ∃ token now a b c,
    w = a ++ .call i ⟨.cached, some token⟩ :: (b ++ .call i ⟨.now, now⟩ :: c) ∧ now < token.refreshAt ∧
      token.value = value := by
  obtain ⟨token, now, hcalls, hlt, hvalue⟩ := h
  have hsub := calls_sublist i w
  rw [hcalls] at hsub
  have hread : [Tasks.Label.call i ⟨.cached, some token⟩, .call i ⟨.now, now⟩].Sublist w :=
    .trans (by simp) hsub
  obtain ⟨r₁, r₂, rfl, h₁, h₂⟩ := List.cons_sublist_iff.1 hread
  obtain ⟨a, b, rfl⟩ := List.append_of_mem h₁
  obtain ⟨b', c, rfl⟩ := List.append_of_mem (List.singleton_sublist.1 h₂)
  exact ⟨token, now, a, b ++ b', c, by simp, hlt, hvalue⟩

/-- Only a 401 empties the cache. -/
theorem forgets {k : ι} (h : Run maxInstant tasks clock (w₁ ++ .call k ⟨.store none, ()⟩ :: w₂) cfg) :
    tasks k ≠ .accessToken := by
  intro htask
  obtain ⟨-, token, heq, -⟩ := wp_issues accessToken_spec (h.issues (prog_of_accessToken htask))
  cases heq

/-- The calls of a task that begins after `w₁`, and does not make the next call. -/
theorem calls_after {i k : ι} {e : Ev Call Reply} (hi : calls i w₁ = []) (hk : k ≠ i) :
    calls i (w₁ ++ .call k e :: w₂) = calls i w₂ := by
  rw [calls_append, hi, calls, if_neg hk]
  rfl

/-- What a task that begins now returns was in the cache now, or is stored from now on. -/
theorem token_after {i k : ι} {e : Ev Call Reply} {value : Str} (h : Run maxInstant tasks clock (w₁ ++ .call k e :: w₂) cfg)
    (hdone : cfg.prog i = some (.done (.token value))) (hi : calls i w₁ = []) (hk : k ≠ i) :
    ∃ token, token.value = value ∧
      (cacheAfter (w₁ ++ [.call k e]) = some token ∨ ∃ j, .call j ⟨.store (some token), ()⟩ ∈ w₂) := by
  obtain ⟨-, hcalls⟩ := token_calls h hdone
  rw [calls_after hi hk] at hcalls
  rcases hcalls with hhit | ⟨t₁, token, hcalls, -, hvalue⟩
  · obtain ⟨token, now, a, b, c, rfl, -, hvalue⟩ := hit_split hhit
    refine ⟨token, hvalue, ?_⟩
    have hsplit : w₁ ++ .call k e :: (a ++ .call i ⟨.cached, some token⟩ :: (b ++ .call i ⟨.now, now⟩ :: c)) =
        (w₁ ++ [.call k e] ++ a) ++ .call i ⟨.cached, some token⟩ :: (b ++ .call i ⟨.now, now⟩ :: c) := by simp
    rw [hsplit] at h
    have hread := read_eq h
    rw [cacheAfter, cacheFrom_append] at hread
    rcases cacheFrom_eq_some hread.symm with hbefore | ⟨j, hj⟩
    · exact Or.inl hbefore
    · exact Or.inr ⟨j, List.mem_append_left _ hj⟩
  · refine ⟨token, hvalue, Or.inr ⟨i, mem_of_mem_calls ?_⟩⟩
    rw [hcalls]
    simp

/-- A call that has failed, panicked or was dropped. -/
def Failed : Option (Act Outcome) → Prop
  | none | some (.done (.error _)) | some (.done .panicked) => True
  | _ => False

theorem noStore_of_failed (h : Run maxInstant tasks clock w cfg) {i : ι} (hi : tasks i = .accessToken)
    (hfailed : Failed (cfg.prog i)) : NoStore (calls i w) := by
  have hat := h.at (prog_of_accessToken hi)
  cases hprog : cfg.prog i with
  | none =>
    rw [hprog] at hat
    obtain ⟨-, c, k, -, -, hstops, g, rfl, -⟩ := hat
    exact noStore_of_stops ⟨k, hstops⟩
  | some q =>
    rw [hprog] at hat hfailed
    cases q with
    | await g c k => exact hfailed.elim
    | done outcome =>
      have hok := wp_runs accessToken_spec hat
      cases outcome with
      | token value => exact hfailed.elim
      | error e => exact hok
      | panicked => exact hok
      | done => exact hfailed.elim

/-- A token that was read from the cache was obtained, and its time has not come. -/
theorem hit_fresh (h : Run maxInstant tasks clock w cfg) {i : ι} {value : Str} (hhit : Hit value (calls i w)) :
    ∃ w₁ now w₂ token body obtained, w = w₁ ++ .call i ⟨.now, now⟩ :: w₂ ∧ token.value = value ∧
      ObtainedIn w₁ token body obtained ∧ obtained ≤ now ∧ now < obtained + (body.lifetime - secs 60) ∧
        secs 60 < body.lifetime := by
  obtain ⟨token, now, a, b, c, rfl, hlt, hvalue⟩ := hit_split hhit
  have hread := read_eq h
  obtain ⟨cfg₁, cfg₂, h₁, -⟩ := h.split
  obtain ⟨j, hj⟩ := (cacheFrom_eq_some hread.symm).resolve_left nofun
  obtain ⟨body, obtained, htoken, j', assertion, response, hx, hsub⟩ := obtainedIn_of_mem h₁ hj
  have hsplit : a ++ .call i ⟨.cached, some token⟩ :: (b ++ .call i ⟨.now, now⟩ :: c) =
      (a ++ .call i ⟨.cached, some token⟩ :: b) ++ .call i ⟨.now, now⟩ :: c := by simp
  rw [hsplit] at h ⊢
  have hwide := hsub.trans (List.sublist_append_left a (.call i ⟨.cached, some token⟩ :: b))
  have hle : obtained ≤ now := now_le h (hwide.subset (List.mem_cons_of_mem _ List.mem_cons_self))
  have hbound : now < obtained + (body.lifetime - secs 60) := by
    rw [htoken] at hlt
    exact hlt
  have hmargin : secs 60 < body.lifetime := by
    by_contra hshort
    rw [Nat.sub_eq_zero_of_le (Nat.not_lt.1 hshort)] at hbound
    exact absurd (Nat.lt_of_le_of_lt hle hbound) (Nat.lt_irrefl _)
  exact ⟨_, now, c, token, body, obtained, rfl, hvalue, ⟨htoken, j', assertion, response, hx, hwide⟩, hle, hbound, hmargin⟩

/-- A call that caches a token has asked for it. -/
theorem sent_of_stored (h : Run maxInstant tasks clock w cfg) {i : ι} {token : CachedToken}
    (hmem : .call i ⟨.store (some token), ()⟩ ∈ w) : ∃ assertion r, .call i ⟨.http (.send assertion), r⟩ ∈ w := by
  obtain ⟨w₁, w₂, rfl⟩ := List.append_of_mem hmem
  obtain ⟨-, t₂, assertion, response, body, obtained, heq, -⟩ := stored_obtained h
  have hsend : .call i ⟨.http (.send assertion), .ok response⟩ ∈ w₁ := mem_of_mem_calls (by rw [heq]; simp)
  exact ⟨assertion, _, List.mem_append_left _ hsend⟩

/-- A call that caches a token returns it. -/
theorem value_of_stored (h : Run maxInstant tasks clock w cfg) {i : ι} {value : Str} {token : CachedToken}
    (hdone : cfg.prog i = some (.done (.token value))) (hmem : ⟨.store (some token), ()⟩ ∈ calls i w) :
    value = token.value := by
  rcases (token_calls h hdone).2 with ⟨token', now, hcalls, -⟩ | ⟨t₁, token', hcalls, hno, hvalue⟩
  · rw [hcalls] at hmem
    simp at hmem
  · rw [hcalls] at hmem
    rcases List.mem_append.1 hmem with hmem | hmem
    · exact absurd rfl (hno _ hmem (some token))
    · have heq : token = token' := by simpa using hmem
      rw [heq, hvalue]

/-! ## Together -/

/-- What holds of the cache in every run. -/
structure Sound (tasks : ι → Task) (w : List (Label ι)) (cfg : Config ι) : Prop where
  /-- A token that is returned without an exchange was obtained, and its time has not come. -/
  fresh : ∀ i value, cfg.prog i = some (.done (.token value)) → (∀ assertion r, .call i ⟨.http (.send assertion), r⟩ ∉ w) →
    ∃ w₁ now w₂ token body obtained, w = w₁ ++ .call i ⟨.now, now⟩ :: w₂ ∧ token.value = value ∧
      ObtainedIn w₁ token body obtained ∧ obtained ≤ now ∧ now < obtained + (body.lifetime - secs 60) ∧
        secs 60 < body.lifetime
  /-- A 401 that was handled has emptied the cache. -/
  handled : ∀ k status outcome, tasks k = .forget status → status.asU16 = 401 → cfg.prog k = some (.done outcome) →
    .call k ⟨.store none, ()⟩ ∈ w
  /-- A call that begins after that returns a token that was cached after that. -/
  revoked : ∀ w₁ k w₂, w = w₁ ++ .call k ⟨.store none, ()⟩ :: w₂ → ∀ i value, calls i w₁ = [] →
    cfg.prog i = some (.done (.token value)) → ∃ j token, .call j ⟨.store (some token), ()⟩ ∈ w₂ ∧ token.value = value
  cache : cfg.store.cache = cacheAfter w
  /-- A call of `access_token` that fails leaves the cache as it is. -/
  failed : ∀ i, tasks i = .accessToken → Failed (cfg.prog i) → ∀ w₁ e w₂, w = w₁ ++ .call i e :: w₂ →
    cacheAfter (w₁ ++ [.call i e]) = cacheAfter w₁
  /-- From one exchange to the next, all calls return its token. -/
  same : ∀ w₁ k token w₂, w = w₁ ++ .call k ⟨.store (some token), ()⟩ :: w₂ →
    (∀ j token', .call j ⟨.store (some token'), ()⟩ ∉ w₂) → ∀ i value, i = k ∨ calls i w₁ = [] →
      cfg.prog i = some (.done (.token value)) → value = token.value

/-- **The token cache never serves a stale or revoked token.** -/
theorem cache_never_stale (maxInstant clock : Duration) (tasks : ι → Task) (w : List (Label ι)) (cfg : Config ι)
    (h : Run maxInstant tasks clock w cfg) : Sound tasks w cfg where
  fresh i value hdone hno := by
    obtain ⟨-, hhit | ⟨t₁, token, hcalls, -, -⟩⟩ := token_calls h hdone
    · exact hit_fresh h hhit
    · have hstored : .call i ⟨.store (some token), ()⟩ ∈ w := mem_of_mem_calls (by rw [hcalls]; simp)
      obtain ⟨assertion, r, hsent⟩ := sent_of_stored h hstored
      exact absurd hsent (hno assertion r)
  handled k status outcome htask h401 hdone := by
    have hat := h.at (prog_of_forget htask)
    rw [hdone] at hat
    exact mem_of_mem_calls ((forget_runs hat).2 h401)
  revoked w₁ k w₂ hw i value hi hdone := by
    subst hw
    have hk : k ≠ i := by
      rintro rfl
      exact forgets h (token_calls h hdone).1
    obtain ⟨token, hvalue, hcache⟩ := token_after h hdone hi hk
    rw [cacheAfter_store] at hcache
    obtain ⟨j, hj⟩ := hcache.resolve_left nofun
    exact ⟨j, token, hj, hvalue⟩
  cache := cache_eq h
  failed i hi hfailed w₁ e w₂ hw := by
    subst hw
    refine cacheAfter_of_noStore (noStore_of_failed h hi hfailed e ?_) w₁
    rw [calls_append, calls, if_pos rfl]
    simp
  same w₁ k token w₂ hw hlast i value hi hdone := by
    subst hw
    by_cases hk : k = i
    · subst hk
      exact value_of_stored h hdone (mem_calls (by simp))
    · have hbefore := hi.resolve_left (Ne.symm hk)
      obtain ⟨token', hvalue, hcache⟩ := token_after h hdone hbefore hk
      rw [cacheAfter_store] at hcache
      rcases hcache with hcache | ⟨j, hj⟩
      · rw [Option.some.inj hcache, hvalue]
      · exact absurd hj (hlast j token')

end Run

/-- Two calls, one after the other: the second one returns the token of the first one, whose lifetime is 61 seconds. -/
theorem cache_never_stale_shared : ∃ w cfg, Run (secs 10) (fun _ : Bool => .accessToken) 0 w cfg ∧
    cfg.prog true = some (.done (.token "t".toList)) ∧ Sound (fun _ : Bool => .accessToken) w cfg := by
  let body : TokenResponse := ⟨"t".toList, some 61⟩
  let response : Response TokenResponse := ⟨⟨200, "200 OK"⟩, none, none, none, [], .ok body⟩
  let token : CachedToken := ⟨"t".toList, secs 1⟩
  let first : Trace := [⟨.lock, ()⟩, ⟨.cached, none⟩, ⟨.signedAssertion, .ok []⟩, ⟨.http (.send []), .ok response⟩, ⟨.now, 0⟩,
    ⟨.store (some token), ()⟩, ⟨.unlock, ()⟩]
  let second : Trace := [⟨.lock, ()⟩, ⟨.cached, some token⟩, ⟨.now, 0⟩, ⟨.unlock, ()⟩]
  have hsend : (held (sendRetrying .post [] : Prog Str (fun _ => TokenResponse) _).run).Runs
      [⟨.http (.send []), .ok response⟩] (.ok response) := by
    rw [held_sendRetrying, sendFrom, held]
    exact runs_bind.2 ⟨_, .ok response, [], runs_await.2 ⟨.ok response, [], rfl, runs_done.2 ⟨rfl, rfl⟩⟩,
      runs_done.2 ⟨rfl, rfl⟩, rfl⟩
  have hadd : addInstant (secs 10) 0 (body.lifetime - tokenRefreshMargin) = some (secs 1) := by decide +kernel
  have hcache : (cacheToken (secs 10) body).Runs [⟨.now, 0⟩, ⟨.store (some token), ()⟩, ⟨.unlock, ()⟩] (.token "t".toList) := by
    refine runs_await.2 ⟨0, _, rfl, ?_⟩
    rw [hadd]
    exact runs_await.2 ⟨(), _, rfl, runs_await.2 ⟨(), [], rfl, runs_done.2 ⟨rfl, rfl⟩⟩⟩
  have hfirst : (accessToken (secs 10)).Runs first (.token "t".toList) := by
    refine runs_await.2 ⟨(), _, rfl, runs_await.2 ⟨none, _, rfl, runs_await.2 ⟨.ok [], _, rfl, ?_⟩⟩⟩
    exact runs_bind.2 ⟨_, _, _, hsend, hcache, rfl⟩
  have hsecond : (accessToken (secs 10)).Runs second (.token "t".toList) := by
    refine runs_await.2 ⟨(), _, rfl, runs_await.2 ⟨some token, _, rfl, runs_await.2 ⟨0, _, rfl, ?_⟩⟩⟩
    rw [if_pos (by decide)]
    exact runs_await.2 ⟨(), [], rfl, runs_done.2 ⟨rfl, rfl⟩⟩
  have h₀ : Run (secs 10) (fun _ : Bool => .accessToken) 0 [] (start (secs 10) (fun _ : Bool => .accessToken) 0) := .nil
  have hchain₁ : Chain env first ⟨0, false, none⟩ ⟨0, false, some token⟩ :=
    ⟨_, ⟨rfl, rfl⟩, _, ⟨rfl, rfl⟩, _, rfl, _, rfl, _, ⟨rfl, rfl⟩, _, rfl, _, rfl, rfl⟩
  have hchain₂ : Chain env second ⟨0, false, some token⟩ ⟨0, false, some token⟩ :=
    ⟨_, ⟨rfl, rfl⟩, _, ⟨rfl, rfl⟩, _, ⟨rfl, rfl⟩, _, rfl, rfl⟩
  have h₁ := h₀.run (i := false) rfl hfirst hchain₁
  have h₂ := h₁.run (i := true) rfl hsecond hchain₂
  exact ⟨_, _, h₂, rfl, cache_never_stale (secs 10) 0 _ _ _ h₂⟩

end Cheti.GoogleToken
