import Cheti.Providers.GoogleCloudDns
import Cheti.Providers.Hetzner
import Cheti.Providers.Route53
import Cheti.Waiting
/-!
# Changes that were reported as applied

Route53, Google Cloud DNS and Hetzner carry out a change after they have accepted it. `present` and
`cleanup` send it, and then wait until the API says that it is applied.

A `ChangeApi` says which requests make a change, and how an API reports on one. `Confirms api p` says of
`p` that it succeeds, having sent a change, only if that change was reported as applied. The reports are
found by following what the API says: its answer to the change names it, the answer to a request for its
status names it again, and so on.
-/

namespace Cheti

open Fut

variable {Q : Type} {B : Q → Type} {χ α β : Type}

/-- The request `q` was answered with `doc`. -/
def Answered (t : List (Ev (Call Q) (Reply B))) (q : Q) (doc : B q) : Prop :=
  ∃ response : Response (B q), (⟨.send q, .ok response⟩ : Ev (Call Q) (Reply B)) ∈ t ∧
    response.status.isSuccess = true ∧ response.body = .ok doc

theorem Answered.mono {t t' : List (Ev (Call Q) (Reply B))} (ht : t ⊆ t') {q : Q} {doc : B q} (h : Answered t q doc) :
    Answered t' q doc := by
  obtain ⟨response, hmem, hresponse⟩ := h
  exact ⟨response, ht hmem, hresponse⟩

/-- A request whose answer has to be a success and a document. -/
theorem Answered.of_request {method : Method} {q : Q} {e : Response (B q) → DnsError} {t : List (Ev (Call Q) (Reply B))}
    {doc : B q} (h : (request method q (fun response => do
      check response.status.isSuccess (e response)
      response.json) : Prog Q B (B q)).run.Runs t (.ok doc)) : Answered t q doc := by
  obtain ⟨t₁, r, rfl, -, heq⟩ := answered_request h
  cases r with
  | error e => cases heq
  | ok response =>
    have hdecoded : (check response.status.isSuccess (e response) >>= fun _ => response.json) = .ok doc := heq.symm
    obtain ⟨u, hcheck, hjson⟩ := bind_eq_ok.1 hdecoded
    exact ⟨response, by simp, check_eq_ok.1 hcheck, Response.json_eq_ok.1 hjson⟩

structure ChangeApi (Q : Type) (B : Q → Type) (χ : Type) where
  isChange : Q → Bool
  /-- The request for the status of what the request `q` started. -/
  status (q : Q) (change : χ) : Option Q
  /-- The change that an answer describes. -/
  describes : (q : Q) → B q → Option χ
  applied : χ → Bool

namespace ChangeApi

variable (api : ChangeApi Q B χ)

/-- The API reported `change` in answer to `q`. -/
def Reported (t : List (Ev (Call Q) (Reply B))) (q : Q) (change : χ) : Prop :=
  ∃ doc, Answered t q doc ∧ api.describes q doc = some change

/-- Asked for the status of `change`, the API reported `next`. -/
def Next (t : List (Ev (Call Q) (Reply B))) (q : Q) (change next : χ) : Prop :=
  ∃ q', api.status q change = some q' ∧ api.Reported t q' next

/-- A report is on the change that was asked for. -/
def OnTopic (t : List (Ev (Call Q) (Reply B))) (q : Q) : Prop :=
  ∀ change next, api.Next t q change next → api.status q next = api.status q change

/-- What `q` started was reported as applied; by a report on the change that the answer to `q` named, if
reports are on the change that was asked for. -/
def Confirmed (t : List (Ev (Call Q) (Reply B))) (q : Q) : Prop :=
  ∃ first last, api.Reported t q first ∧ Relation.ReflTransGen (api.Next t q) first last ∧ api.applied last = true ∧
    (api.OnTopic t q → last = first ∨ api.Next t q first last)

/-- Where `p` succeeds, each change that it sent was reported as applied. -/
def Confirms (p : Prog Q B α) : Prop :=
  ∀ t a, p.run.Runs t (.ok a) → ∀ q r, api.isChange q = true → (⟨.send q, r⟩ : Ev (Call Q) (Reply B)) ∈ t →
    api.Confirmed t q

/-- Any call but a change. -/
def Quiet : Call Q → Prop
  | .send q => api.isChange q = false
  | _ => True

variable {api} {t t' : List (Ev (Call Q) (Reply B))} {q : Q} {first last change next : χ}

theorem Reported.mono (ht : t ⊆ t') (h : api.Reported t q change) : api.Reported t' q change := by
  obtain ⟨doc, hdoc, hchange⟩ := h
  exact ⟨doc, hdoc.mono ht, hchange⟩

theorem Next.mono (ht : t ⊆ t') (h : api.Next t q change next) : api.Next t' q change next := by
  obtain ⟨q', hq', hnext⟩ := h
  exact ⟨q', hq', hnext.mono ht⟩

theorem reports_mono (ht : t ⊆ t') (h : Relation.ReflTransGen (api.Next t q) first last) :
    Relation.ReflTransGen (api.Next t' q) first last :=
  h.lift id fun _ _ hnext => hnext.mono ht

/-- Reports on the change that was asked for are all on the first one. -/
theorem OnTopic.status_eq (h : api.OnTopic t q) (hreports : Relation.ReflTransGen (api.Next t q) first last) :
    api.status q last = api.status q first := by
  induction hreports with
  | refl => rfl
  | tail _ hnext ih => exact (h _ _ hnext).trans ih

theorem OnTopic.last_eq_or_next (h : api.OnTopic t q) (hreports : Relation.ReflTransGen (api.Next t q) first last) :
    last = first ∨ api.Next t q first last := by
  cases hreports with
  | refl => exact Or.inl rfl
  | tail hreports hnext =>
    obtain ⟨q', hq', hreported⟩ := hnext
    exact Or.inr ⟨q', (h.status_eq hreports).symm.trans hq', hreported⟩

theorem Confirmed.of_reports (hfirst : api.Reported t q first)
    (hreports : Relation.ReflTransGen (api.Next t q) first last) (happlied : api.applied last = true) :
    api.Confirmed t q :=
  ⟨first, last, hfirst, hreports, happlied, fun h => h.last_eq_or_next hreports⟩

theorem Confirmed.mono (ht : t ⊆ t') (h : api.Confirmed t q) : api.Confirmed t' q := by
  obtain ⟨first, last, hfirst, hreports, happlied, -⟩ := h
  exact .of_reports (hfirst.mono ht) (reports_mono ht hreports) happlied

namespace Confirms

theorem of_only {p : Prog Q B α} (h : Only api.Quiet p) : api.Confirms p := by
  intro t a hrun q r hq hmem
  have hquiet : api.isChange q = false := h.mem_run hrun hmem
  rw [hquiet] at hq
  cases hq

/-- What makes no change can go first. -/
theorem after {p : Prog Q B α} {f : α → Prog Q B β} (hp : Only api.Quiet p) (hf : ∀ a, api.Confirms (f a)) :
    api.Confirms (p >>= f) := by
  intro t b hrun q r hq hmem
  obtain ⟨t₁, a, t₂, h₁, h₂, rfl⟩ := runs_run_bind_ok.1 hrun
  rcases List.mem_append.1 hmem with hmem | hmem
  · exact (of_only hp t₁ a h₁ q r hq hmem).mono (List.subset_append_left t₁ t₂)
  · exact (hf a t₂ b h₂ q r hq hmem).mono (List.subset_append_right t₁ t₂)

theorem withLock {l : KeyedMutex} {key : Str} {body : Prog Q B α} (h : api.Confirms body) :
    api.Confirms (Cheti.withLock l key body) := by
  intro t a hrun q r hq hmem
  obtain ⟨u, t', rfl, hrun'⟩ := runs_await.1 hrun
  obtain ⟨t₁, x, t₂, hbody, hunlock, rfl⟩ := runs_bind.1 hrun'
  obtain ⟨v, t₃, rfl, hdone⟩ := runs_await.1 hunlock
  obtain ⟨rfl, rfl⟩ := runs_done.1 hdone
  have hmem' : (⟨.send q, r⟩ : Ev (Call Q) (Reply B)) ∈ t₁ := by simpa using hmem
  refine (h t₁ a hbody q r hq hmem').mono ?_
  exact List.Subset.trans (List.subset_append_left _ _) (List.subset_cons_self _ _)

/-- **A change and the wait for it.** -/
theorem sendAndWait {start : Prog Q B χ} {function : χ → Prog Q B Unit} {q : Q}
    (hstart : Only (fun c => c = .send q ∨ api.Quiet c) start)
    (hreported : ∀ t first, start.run.Runs t (.ok first) → api.Reported t q first)
    (hquiet : ∀ first, Only api.Quiet (function first))
    (hwait : ∀ t first, (function first).run.Runs t (.ok ()) →
      ∃ last, Relation.ReflTransGen (api.Next t q) first last ∧ api.applied last = true) :
    api.Confirms (start >>= function) := by
  intro t b hrun q' r hq' hmem
  obtain ⟨t₁, first, t₂, h₁, h₂, rfl⟩ := runs_run_bind_ok.1 hrun
  have hsame : q' = q := by
    rcases List.mem_append.1 hmem with hmem | hmem
    · rcases hstart.mem_run h₁ hmem with heq | hcall
      · exact Call.send.inj heq
      · exact absurd hq' (Bool.eq_false_iff.1 hcall)
    · exact absurd hq' (Bool.eq_false_iff.1 ((hquiet first).mem_run h₂ hmem))
  subst hsame
  obtain ⟨last, hreports, happlied⟩ := hwait t₂ first h₂
  exact .of_reports ((hreported t₁ first h₁).mono (List.subset_append_left t₁ t₂))
    (reports_mono (List.subset_append_right t₁ t₂) hreports) happlied

end Confirms

end ChangeApi

/-! ## The reports of a wait -/

namespace Waiting

variable {w : Watch χ} {fetch : χ → Prog Q B χ}

/-- A wait that succeeds has fetched its way from the first status to one that it waits for. -/
theorem runs_waitFromSettled_ok (hw : ∀ c, w.inSync c = true → w.failed c = none) {Next : χ → χ → Prop}
    {t₀ : List (Ev (Call Q) (Reply B))}
    (hfetch : ∀ t change next, t ⊆ t₀ → (fetch change).run.Runs t (.ok next) → Next change next) {deadline : Duration} :
    ∀ (left : Nat) {change : χ} {t : List (Ev (Call Q) (Reply B))}, t ⊆ t₀ →
      (waitFromSettled w fetch deadline left change).run.Runs t (.ok ()) →
      ∃ last, Relation.ReflTransGen Next change last ∧ w.inSync last = true
  | left, change, t, ht, h => by
    cases hv : w.verdict change with
    | some r =>
      rw [waitFromSettled_verdict hw hv] at h
      obtain ⟨-, rfl⟩ := runs_done.1 h
      exact ⟨change, .refl, inSync_iff_verdict.2 hv⟩
    | none =>
      rw [waitFromSettled_none hv] at h
      obtain ⟨now, t₁, rfl, h₁⟩ := runs_await.1 h
      by_cases hlate : now + w.interval > deadline
      · rw [if_pos hlate] at h₁
        cases (runs_done.1 h₁).2
      · rw [if_neg hlate] at h₁
        cases left with
        | zero => cases (runs_done.1 h₁).2
        | succ left =>
          obtain ⟨u, t₂, rfl, h₂⟩ := runs_await.1 h₁
          obtain ⟨t₃, r, t₄, h₃, h₄, rfl⟩ := runs_bind.1 h₂
          have ht' : t₃ ++ t₄ ⊆ t₀ := fun e he => ht (by simp [he])
          cases r with
          | error e => cases (runs_done.1 h₄).2
          | ok next =>
            obtain ⟨last, hreports, hsync⟩ := runs_waitFromSettled_ok hw hfetch left
              (List.Subset.trans (List.subset_append_right t₃ t₄) ht') h₄
            have hnext : Next change next := hfetch t₃ change next (List.Subset.trans (List.subset_append_left t₃ t₄) ht') h₃
            exact ⟨last, .head hnext hreports, hsync⟩

/-- The same for a function that waits, in terms of what its fetches report. -/
theorem reports_of_function {api : ChangeApi Q B χ} {q : Q} {function : χ → Prog Q B Unit}
    (hw : ∀ c, w.inSync c = true → w.failed c = none)
    (hfunction : ∀ change, (function change).run = .await none .now fun start : Duration =>
      (waitFromSettled w fetch (start + w.timeout) (w.timeout / w.interval) change).run)
    (happlied : ∀ c, w.inSync c = true → api.applied c = true)
    (hfetch : ∀ t change next, (fetch change).run.Runs t (.ok next) → api.Next t q change next)
    (t : List (Ev (Call Q) (Reply B))) (first : χ) (h : (function first).run.Runs t (.ok ())) :
    ∃ last, Relation.ReflTransGen (api.Next t q) first last ∧ api.applied last = true := by
  rw [hfunction] at h
  obtain ⟨start, t', rfl, h'⟩ := runs_await.1 h
  obtain ⟨last, hreports, hsync⟩ := runs_waitFromSettled_ok hw
    (fun t change next ht hrun => (hfetch t change next hrun).mono ht) _ (List.subset_cons_self _ t') h'
  exact ⟨last, hreports, happlied last hsync⟩

end Waiting

/-! ## Route53 -/

namespace Route53

open Waiting

def watch : Watch ChangeInfo := .ofPolicy pollPolicy

def changeApi : ChangeApi Req Req.Doc ChangeInfo where
  isChange
    | .change _ _ _ _ => true
    | _ => false
  status _ change := (normalizeId change.id "/change/".toList).map Req.getChange
  describes
    | .change _ _ _ _, change => some change
    | .getChange _, change => some change
    | .zonesByName _, _ | .rrset _ _, _ => none
  applied := pollPolicy.inSync

theorem answered_sendLoop {cfg : Route53Config} {method : Method} {verb : String} {path : Str} {q : Req}
    {response : Response q.Doc} : ∀ {left attempt : Nat} {t : List (Ev (Call Req) (Reply Req.Doc))},
      (sendLoop cfg method verb path q left attempt).run.Runs t (.ok response) →
      (⟨.send q, .ok response⟩ : Ev (Call Req) (Reply Req.Doc)) ∈ t ∧ response.status.isSuccess = true
  | left, attempt, t, h => by
    rw [sendLoop.eq_def] at h
    obtain ⟨t₁, answer, t₂, h₁, h₂, rfl⟩ := runs_run_bind_ok.1 h
    obtain ⟨t₃, r, rfl, -, heq⟩ := answered_sendRetrying h₁
    obtain rfl := mapError_eq_ok.1 heq.symm
    by_cases hsucc : answer.status.isSuccess = true
    · simp only [if_pos hsucc] at h₂
      obtain ⟨rfl, hanswer⟩ := runs_done.1 h₂
      cases hanswer
      exact ⟨by simp, hsucc⟩
    · simp only [if_neg hsucc] at h₂
      cases left with
      | zero => cases (runs_done.1 h₂).2
      | succ left =>
        by_cases hthrottled : isThrottled cfg answer.text = true
        · simp only [if_pos hthrottled] at h₂
          obtain ⟨t₄, u, t₅, -, h₅, rfl⟩ := runs_run_bind_ok.1 h₂
          obtain ⟨hmem, hresponse⟩ := answered_sendLoop h₅
          exact ⟨by simp [hmem], hresponse⟩
        · simp only [if_neg hthrottled] at h₂
          cases (runs_done.1 h₂).2

theorem answered_send {cfg : Route53Config} {method : Method} {verb : String} {path : Str} {q : Req} {doc : q.Doc}
    {t : List (Ev (Call Req) (Reply Req.Doc))} (h : (send cfg method verb path q).run.Runs t (.ok doc)) :
    Answered t q doc := by
  obtain ⟨t₁, response, t₂, h₁, h₂, rfl⟩ := runs_run_bind_ok.1 h
  obtain ⟨hmem, hsucc⟩ := answered_sendLoop h₁
  obtain ⟨rfl, hparsed⟩ := runs_done.1 h₂
  exact ⟨response, by simp [hmem], hsucc, mapError_eq_ok.1 hparsed⟩

theorem next_of_fetchChange {cfg : Route53Config} {q : Req} (t : List (Ev (Call Req) (Reply Req.Doc)))
    (change next : ChangeInfo) (h : (fetchChange cfg change).run.Runs t (.ok next)) :
    changeApi.Next t q change next := by
  unfold fetchChange at h
  cases hid : normalizeId change.id "/change/".toList with
  | none =>
    simp only [hid] at h
    cases (runs_done.1 h).2
  | some id =>
    simp only [hid] at h
    exact ⟨.getChange id, congrArg (Option.map Req.getChange) hid, next, answered_send h, rfl⟩

theorem confirms_changeRrset (cfg : Route53Config) (zoneId : Str) (action : Action) (name : Str) (set : TxtSet) :
    changeApi.Confirms (changeRrset cfg zoneId action name set) := by
  unfold changeRrset
  refine .sendAndWait (q := .change zoneId action name set) ?_ ?_ ?_ ?_
  · exact only_send cfg _ _ _ (Or.inl rfl) fun _ => Or.inr trivial
  · exact fun t first h => ⟨first, answered_send h, rfl⟩
  · exact Only.waitForChange trivial (fun _ => trivial) (only_fetchChange cfg (fun _ => rfl) fun _ => trivial)
  · exact reports_of_function (w := watch) (fun _ _ => rfl) (waitForChange_run pollPolicy (fetchChange cfg))
      (fun _ h => h) next_of_fetchChange

theorem quiet_findPublicZone (cfg : Route53Config) (candidate : Str) :
    Only changeApi.Quiet (findPublicZone cfg candidate) := by
  unfold findPublicZone
  refine (only_send (P := changeApi.Quiet) (q := .zonesByName candidate) cfg _ _ _ rfl fun _ => trivial).bind fun zones => ?_
  split
  · exact .pure none
  · split
    · exact .pure _
    · exact .throw _
  · exact .throw _

theorem quiet_resolveZone (cfg : Route53Config) (fqdn : Str) : Only changeApi.Quiet (resolveZone cfg fqdn) := by
  unfold resolveZone
  split
  · exact .pure _
  · refine .cached trivial (fun _ => trivial) ?_
    refine (Only.firstSome (quiet_findPublicZone cfg) _).bind fun found => ?_
    cases found with
    | none => exact .throw _
    | some id => exact .pure id

theorem confirms_present (cfg : Route53Config) (fqdn value : Str) : changeApi.Confirms (present cfg fqdn value) := by
  unfold present
  refine .after (.lift _) fun _ => .after (.lift _) fun _ => .after (quiet_resolveZone cfg fqdn) fun zoneId => ?_
  refine .withLock (.after (only_fetchRrset cfg rfl fun _ => trivial) fun existing => ?_)
  cases existing with
  | none => exact confirms_changeRrset cfg _ _ _ _
  | some set =>
    dsimp only
    split
    · exact .of_only (.pure ())
    · exact confirms_changeRrset cfg _ _ _ _

theorem confirms_cleanup (cfg : Route53Config) (fqdn value : Str) : changeApi.Confirms (cleanup cfg fqdn value) := by
  unfold cleanup
  refine .after (.lift _) fun _ => .after (quiet_resolveZone cfg fqdn) fun zoneId => ?_
  refine .withLock (.after (only_fetchRrset cfg rfl fun _ => trivial) fun existing => ?_)
  cases existing with
  | none => exact .of_only (.pure ())
  | some set =>
    dsimp only
    split
    · split <;> exact confirms_changeRrset cfg _ _ _ _
    · exact .of_only (.pure ())

end Route53

/-! ## Google Cloud DNS -/

namespace GoogleCloudDns

open Waiting

def watch : Watch Change := .ofPolicy pollPolicy

def changeApi : ChangeApi Req Req.Doc Change where
  isChange
    | .change _ _ _ => true
    | _ => false
  status
    | .change zone _ _, change => some (.getChange zone change.id)
    | _, _ => none
  describes
    | .change _ _ _, change => some change
    | .getChange _ _, change => some change
    | .zones _, _ | .rrsets _ _, _ => none
  applied := pollPolicy.inSync

theorem answered_exchange {method : Method} {verb : String} {path : Str} {q : Req} {doc : q.Doc}
    {t : List (Ev (Call Req) (Reply Req.Doc))} (h : (exchange method verb path q).run.Runs t (.ok doc)) :
    Answered t q doc := by
  obtain ⟨t₁, token, t₂, -, h₂, rfl⟩ := runs_run_bind_ok.1 h
  obtain ⟨t₃, response, t₄, h₃, h₄, rfl⟩ := runs_run_bind_ok.1 h₂
  obtain ⟨t₅, r, rfl, -, heq⟩ := answered_sendRetrying h₃
  obtain rfl := mapError_eq_ok.1 heq.symm
  unfold settle at h₄
  by_cases hsucc : response.status.isSuccess = true
  · rw [if_pos hsucc] at h₄
    obtain ⟨rfl, hjson⟩ := runs_done.1 h₄
    exact ⟨response, by simp, hsucc, Response.json_eq_ok.1 hjson⟩
  · rw [if_neg hsucc] at h₄
    by_cases h401 : response.status.asU16 = 401
    · rw [if_pos h401] at h₄
      obtain ⟨t₆, u, t₇, -, h₇, rfl⟩ := runs_run_bind_ok.1 h₄
      cases (runs_done.1 h₇).2
    · rw [if_neg h401] at h₄
      cases (runs_done.1 h₄).2

theorem next_of_fetchChange {cfg : GoogleCloudDnsConfig} {zone : Str} {deletion : Option Value}
    {addition : Option Rrset} (t : List (Ev (Call Req) (Reply Req.Doc))) (change next : Change)
    (h : (fetchChange cfg zone change).run.Runs t (.ok next)) :
    changeApi.Next t (.change zone deletion addition) change next := by
  unfold fetchChange at h
  exact ⟨.getChange zone change.id, rfl, next, answered_exchange h, rfl⟩

theorem confirms_applyChange (cfg : GoogleCloudDnsConfig) (zone : Str) (deletion : Option Value)
    (addition : Option Rrset) : changeApi.Confirms (applyChange cfg zone deletion addition) := by
  unfold applyChange
  refine .sendAndWait (q := .change zone deletion addition) ?_ ?_ ?_ ?_
  · exact only_exchange _ _ _ (Or.inl rfl) (fun _ => Or.inr trivial) (Or.inr trivial) (Or.inr trivial)
  · exact fun t first h => ⟨first, answered_exchange h, rfl⟩
  · exact Only.waitForChange trivial (fun _ => trivial)
      (only_fetchChange cfg (fun _ => rfl) (fun _ => trivial) trivial trivial)
  · exact reports_of_function (w := watch) (fun _ _ => rfl) (waitForChange_run pollPolicy (fetchChange cfg zone))
      (fun _ h => h) next_of_fetchChange

theorem quiet_listFrom (cfg : GoogleCloudDnsConfig) (fqdn name : Str) :
    ∀ left pageToken best, Only changeApi.Quiet (listFrom cfg fqdn name left pageToken best) := by
  intro left
  induction left with
  | zero => exact fun _ _ => .throw _
  | succ left ih =>
    intro pageToken best
    rw [listFrom]
    refine (only_exchange (P := changeApi.Quiet) (q := .zones pageToken) _ _ _ rfl (fun _ => trivial) trivial trivial).bind fun body => ?_
    split
    · split
      · exact .lift _
      · exact ih _ _
    · exact .lift _

theorem quiet_resolveZone (cfg : GoogleCloudDnsConfig) (fqdn : Str) :
    Only changeApi.Quiet (resolveZone cfg fqdn) := by
  unfold resolveZone
  split
  · exact .pure _
  · exact quiet_listFrom cfg _ _ _ _ _

theorem confirms_present (cfg : GoogleCloudDnsConfig) (fqdn value : Str) :
    changeApi.Confirms (present cfg fqdn value) := by
  unfold present
  refine .after (.lift _) fun _ => .after (.lift _) fun _ => .after (quiet_resolveZone cfg fqdn) fun zone => ?_
  refine .withLock (.after (only_fetchRrset cfg rfl (fun _ => trivial) trivial trivial) fun existing => ?_)
  dsimp only
  split
  · exact .of_only (.pure ())
  · exact confirms_applyChange cfg _ _ _

theorem confirms_cleanup (cfg : GoogleCloudDnsConfig) (fqdn value : Str) :
    changeApi.Confirms (cleanup cfg fqdn value) := by
  unfold cleanup
  refine .after (.lift _) fun _ => .after (quiet_resolveZone cfg fqdn) fun zone => ?_
  refine .withLock (.after (only_fetchRrset cfg rfl (fun _ => trivial) trivial trivial) fun existing => ?_)
  cases existing with
  | none => exact .of_only (.pure ())
  | some existing =>
    dsimp only
    split
    · exact .of_only (.pure ())
    · split <;> exact confirms_applyChange cfg _ _ _

end GoogleCloudDns

/-! ## Hetzner -/

namespace Hetzner

open Waiting

/-- An action that failed ends the wait. -/
def watch : Watch HetznerAction where
  toPollPolicy := actionPolicy
  failed action :=
    match settled action with
    | .ok _ => none
    | .error e => some e

def changeApi : ChangeApi Req Req.Doc HetznerAction where
  isChange
    | .action _ _ _ _ => true
    | _ => false
  status _ action := some (.getAction action.id)
  describes
    | .action _ _ _ _, action => some action
    | .getAction _, action => some action
    | .zones _, _ | .rrset _ _, _ => none
  applied := actionPolicy.inSync

theorem settled_eq_ok {action action' : HetznerAction} (h : settled action = .ok action') : action' = action := by
  unfold settled at h
  split at h
  · cases h
  · cases h
    rfl

theorem settle_watch (action : HetznerAction) : settle watch action = settled action := by
  simp only [settle, watch]
  cases h : settled action with
  | ok action' =>
    obtain rfl := settled_eq_ok h
    rfl
  | error e => rfl

/-- An action that succeeded did not fail. -/
theorem failed_of_inSync (action : HetznerAction) (h : watch.inSync action = true) : watch.failed action = none := by
  have hsuccess : action.status = "success".toList := of_decide_eq_true h
  have hne : ¬ action.status = "error".toList := by
    rw [hsuccess]
    decide
  simp only [watch, settled, if_neg hne]

theorem waitForAction_run (action : HetznerAction) : (waitForAction action).run =
    .await none .now fun start : Duration => (waitFromSettled watch (fun action => fetchAction action.id)
      (start + watch.timeout) (watch.timeout / watch.interval) action).run := by
  have hpoll : fetchSettled watch (fun action => fetchAction action.id) = fun action : HetznerAction =>
      (do let action ← fetchAction action.id; settled action : M HetznerAction) := by
    funext action
    simp only [fetchSettled, settle_watch]
  unfold waitForAction
  rw [run_sync_bind]
  refine congrArg (Fut.await none Call.now) (funext fun start : Duration => ?_)
  rw [waitFromSettled, hpoll, settle_watch]
  rfl

theorem quiet_waitForAction (action : HetznerAction) : Only changeApi.Quiet (waitForAction action) := by
  unfold waitForAction
  refine (Only.sync trivial).bind fun _ => (Only.lift _).bind fun _ => .waitFrom trivial (fun _ => trivial) ?_ _ _ _
  exact fun action => (Only.request (P := changeApi.Quiet) (q := Req.getAction action.id) rfl fun _ => trivial).bind fun _ => .lift _

theorem next_of_fetchAction {q : Req} (t : List (Ev (Call Req) (Reply Req.Doc))) (action next : HetznerAction)
    (h : (fetchAction action.id).run.Runs t (.ok next)) : changeApi.Next t q action next :=
  ⟨.getAction action.id, rfl, next, .of_request h, rfl⟩

theorem confirms_runRecordsAction (zone rname action value : Str) (ttl : Option Nat) :
    changeApi.Confirms (runRecordsAction zone rname action value ttl) := by
  unfold runRecordsAction
  refine .sendAndWait (q := .action zone rname action ⟨ttl, [⟨quote value⟩]⟩) ?_ ?_ quiet_waitForAction ?_
  · exact .request (Or.inl rfl) fun _ => Or.inr trivial
  · exact fun t first h => ⟨first, .of_request h, rfl⟩
  · exact reports_of_function failed_of_inSync waitForAction_run (fun _ h => h) next_of_fetchAction

theorem quiet_resolveZone (cfg : HetznerConfig) (fqdn : Str) : Only changeApi.Quiet (resolveZone cfg fqdn) := by
  unfold resolveZone
  split
  · exact .pure _
  · refine (Only.firstSome (fun candidate => ?_) _).bind fun found => ?_
    · refine (Only.request (P := changeApi.Quiet) (q := Req.zones candidate) rfl fun _ => trivial).bind fun exists_ => ?_
      split <;> exact .pure _
    · cases found with
      | none => exact .throw _
      | some zone => exact .pure zone

theorem quiet_fetchExisting (zone rname : Str) : Only changeApi.Quiet (fetchExisting zone rname) :=
  Only.request (P := changeApi.Quiet) rfl fun _ => trivial

theorem confirms_present (cfg : HetznerConfig) (fqdn value : Str) : changeApi.Confirms (present cfg fqdn value) := by
  unfold present
  refine .after (.lift _) fun _ => .after (.lift _) fun _ => .after (quiet_resolveZone cfg fqdn) fun zone => ?_
  refine .after (.lift _) fun rname => .withLock (.after (quiet_fetchExisting zone rname) fun existing => ?_)
  cases existing with
  | none => exact confirms_runRecordsAction _ _ _ _ _
  | some values =>
    dsimp only
    split
    · exact .of_only (.pure ())
    · exact confirms_runRecordsAction _ _ _ _ _

theorem confirms_cleanup (cfg : HetznerConfig) (fqdn value : Str) : changeApi.Confirms (cleanup cfg fqdn value) := by
  unfold cleanup
  refine .after (.lift _) fun _ => .after (quiet_resolveZone cfg fqdn) fun zone => ?_
  refine .after (.lift _) fun rname => .withLock (.after (quiet_fetchExisting zone rname) fun existing => ?_)
  split
  · exact confirms_runRecordsAction _ _ _ _ _
  · exact .of_only (.pure ())

end Hetzner

/-! ## The three of them -/

open Waiting in
/-- **Waiting is sound and bounded**: each of the three functions is its loop, each loop returns in time and
with the right result, and `present` and `cleanup` succeed only if what they sent was applied. -/
theorem waiting_sound_and_bounded :
    (SoundAndBounded Route53.watch ∧ ∀ cfg, IsLoop Route53.watch (Route53.fetchChange cfg)
      (waitForChange Route53.pollPolicy (Route53.fetchChange cfg))) ∧
    (SoundAndBounded GoogleCloudDns.watch ∧ ∀ cfg zone, IsLoop GoogleCloudDns.watch (GoogleCloudDns.fetchChange cfg zone)
      (waitForChange GoogleCloudDns.pollPolicy (GoogleCloudDns.fetchChange cfg zone))) ∧
    (SoundAndBounded Hetzner.watch ∧
      IsLoop Hetzner.watch (fun action => Hetzner.fetchAction action.id) Hetzner.waitForAction) ∧
    (∀ cfg fqdn value, Route53.changeApi.Confirms (Route53.present cfg fqdn value) ∧
      Route53.changeApi.Confirms (Route53.cleanup cfg fqdn value)) ∧
    (∀ cfg fqdn value, GoogleCloudDns.changeApi.Confirms (GoogleCloudDns.present cfg fqdn value) ∧
      GoogleCloudDns.changeApi.Confirms (GoogleCloudDns.cleanup cfg fqdn value)) ∧
    ∀ cfg fqdn value, Hetzner.changeApi.Confirms (Hetzner.present cfg fqdn value) ∧
      Hetzner.changeApi.Confirms (Hetzner.cleanup cfg fqdn value) := by
  have hminute : secs 60 / secs 1 = 60 := by decide +kernel
  have htwo : secs 120 / secs 2 = 60 := by decide +kernel
  have hone : 0 < secs 1 := by decide +kernel
  refine ⟨⟨soundAndBounded (by decide +kernel) htwo, fun cfg => ?_⟩, ⟨soundAndBounded hone hminute, fun cfg zone => ?_⟩,
    ⟨soundAndBounded hone hminute, ?_⟩, ?_, ?_, ?_⟩
  · exact isLoop (by decide +kernel) (fun _ _ => rfl) (waitForChange_run _ _)
  · exact isLoop hone (fun _ _ => rfl) (waitForChange_run _ _)
  · exact isLoop hone Hetzner.failed_of_inSync Hetzner.waitForAction_run
  · exact fun cfg fqdn value => ⟨Route53.confirms_present cfg fqdn value, Route53.confirms_cleanup cfg fqdn value⟩
  · exact fun cfg fqdn value =>
      ⟨GoogleCloudDns.confirms_present cfg fqdn value, GoogleCloudDns.confirms_cleanup cfg fqdn value⟩
  · exact fun cfg fqdn value => ⟨Hetzner.confirms_present cfg fqdn value, Hetzner.confirms_cleanup cfg fqdn value⟩

end Cheti
