import Cheti.Providers.Bunny
import Cheti.Providers.DigitalOcean
import Cheti.Providers.GoogleCloudDns
import Cheti.Providers.Infomaniak
/-!
# Listings that come in pages

The four loops that follow a listing to its end: `list_zones` of Bunny (bunny.rs:163-205),
`list_matching_records` of DigitalOcean (digitalocean.rs:140-199), `list_txt_records` of Infomaniak
(infomaniak.rs:192-234) and `resolve_zone` of Google Cloud DNS (google_cloud_dns.rs:370-400). Each has its
own way to say that there is a next page: a flag, a link, a number of pages, a token.

`Paging` is what they have in common: how a page is got, what comes next, and what is made of all pages.
`AllOrNothing` says of every run, whatever the answers are: pages are asked for in order and each once, at
most `maxPages` of them, and the result is made of all of them or is an error.
-/

namespace Cheti

open Fut (Ev)

variable {Q : Type} {B : Q → Type} {α β κ δ ρ : Type}

/-! ## Requests -/

/-- The requests of a run, in order. A request that `send_retrying` sends again, after a sleep, counts once. -/
def askedFrom (resend : Bool) : List (Ev (Call Q) (Reply B)) → List Q
  | [] => []
  | e :: t =>
    match e.call with
    | .send q => if resend then askedFrom false t else q :: askedFrom false t
    | .sleep _ => askedFrom true t
    | _ => askedFrom false t

abbrev asked (t : List (Ev (Call Q) (Reply B))) : List Q := askedFrom false t

/-- A computation that asks for `q`, once, unless it fails before. -/
def AsksFor (q : Q) (p : Prog Q B α) : Prop :=
  ∀ t x, p.run.Runs t x → ∃ qs, qs <+: [q] ∧ (∀ a, x = .ok a → qs = [q]) ∧ ∀ t', asked (t ++ t') = qs ++ asked t'

theorem asked_sendFrom {method : Method} {q : Q} {r : Except String (Response (B q))} :
    ∀ left attempt (t : List (Ev (Call Q) (Reply B))), (sendFrom method q attempt left).Runs t r →
      ∀ resend t', askedFrom resend (t ++ t') = (if resend then [] else [q]) ++ asked t' := by
  intro left
  induction left with
  | zero =>
    intro attempt t hrun resend t'
    rw [sendFrom, Fut.runs_await] at hrun
    obtain ⟨a, t₁, rfl, hrun⟩ := hrun
    obtain rfl : t₁ = [] := by cases a <;> exact (Fut.runs_done.1 hrun).1
    cases resend <;> rfl
  | succ left ih =>
    intro attempt t hrun resend t'
    rw [sendFrom, Fut.runs_await] at hrun
    obtain ⟨a, t₁, rfl, hrun⟩ := hrun
    have hrest : asked (t₁ ++ t') = asked t' := by
      cases a with
      | error e =>
        obtain ⟨rfl, -⟩ := Fut.runs_done.1 hrun
        rfl
      | ok response =>
        simp only at hrun
        cases hdelay : retryDelay method response.status response.retryAfter attempt with
        | none =>
          rw [hdelay] at hrun
          obtain ⟨rfl, -⟩ := Fut.runs_done.1 hrun
          rfl
        | some wait =>
          rw [hdelay] at hrun
          simp only at hrun
          rw [Fut.runs_await] at hrun
          obtain ⟨u, t₂, rfl, hrun⟩ := hrun
          -- the sleep marks what follows as a resend
          exact ih (attempt + 1) t₂ hrun true t'
    cases resend
    · simpa [askedFrom] using hrest
    · simpa [askedFrom] using hrest

theorem asksFor_sendRetrying (method : Method) (q : Q) : AsksFor q (sendRetrying method q : Prog Q B _) := by
  intro t x hrun
  have h : (sendRetrying method q : Prog Q B _).run =
      (sendFrom method q 1 (maxAttempts - 1)).bind fun r => .done (r.mapError .http) := rfl
  rw [h, Fut.runs_bind] at hrun
  obtain ⟨t₁, r, t₂, hrun, hend, rfl⟩ := hrun
  obtain ⟨rfl, -⟩ := Fut.runs_done.1 hend
  refine ⟨[q], List.prefix_rfl, fun _ _ => rfl, fun t' => ?_⟩
  simpa using asked_sendFrom _ _ t₁ hrun false t'

/-- What follows asks for nothing. -/
theorem AsksFor.bind {q : Q} {p : Prog Q B α} {f : α → Prog Q B β} (hp : AsksFor q p)
    (hf : ∀ a t x, (f a).run.Runs t x → ∀ t', asked (t ++ t') = asked t') : AsksFor q (p >>= f) := by
  intro t x hrun
  rcases Fut.runs_run_bind.1 hrun with ⟨e, hfirst, rfl⟩ | ⟨t₁, a, t₂, hfirst, hrest, rfl⟩
  · obtain ⟨qs, hpre, -, hasked⟩ := hp t _ hfirst
    exact ⟨qs, hpre, nofun, hasked⟩
  · obtain ⟨qs, hpre, hok, hasked⟩ := hp t₁ _ hfirst
    refine ⟨qs, hpre, fun _ _ => hok a rfl, fun t' => ?_⟩
    rw [List.append_assoc, hasked, hf a t₂ x hrest]

theorem asksFor_request (method : Method) (q : Q) (decode : Response (B q) → Except DnsError α) :
    AsksFor q (request method q decode : Prog Q B α) := by
  refine (asksFor_sendRetrying method q).bind fun response t x hrun t' => ?_
  obtain ⟨rfl, -⟩ := Fut.runs_done.1 hrun
  rfl

/-! ## Pages -/

/-- The pages from the cursor `c` on, each of which says that there is another: the cursors asked for, the
documents got, and the cursor of the next page. -/
inductive Fetched (get : κ → Prog Q B δ) (next : κ → δ → Option κ) :
    κ → List κ → List δ → κ → List (Ev (Call Q) (Reply B)) → Prop
  | nil (c : κ) : Fetched get next c [] [] c []
  | cons {c c' c'' : κ} {d : δ} {cs : List κ} {docs : List δ} {t t' : List (Ev (Call Q) (Reply B))}
      (hget : (get c).run.Runs t (.ok d)) (hnext : next c d = some c') (hrest : Fetched get next c' cs docs c'' t') :
      Fetched get next c (c :: cs) (d :: docs) c'' (t ++ t')

structure Paging (Q : Type) (B : Q → Type) (κ δ ρ : Type) where
  /-- One page, decoded. -/
  get : κ → Prog Q B δ
  request : κ → Q
  first : κ
  /-- Where the page says that there is another. -/
  next : κ → δ → Option κ
  maxPages : Nat
  /-- What is made of all pages. -/
  built : List δ → Except DnsError ρ → Prop
  loop : Prog Q B ρ

/-- The loop ends with a page that could not be got, that was the last one, or that was one too many. -/
def EndsWith (P : Paging Q B κ δ ρ) (docs : List δ) (c : κ) (r : Except DnsError ρ) : Except DnsError δ → Prop
  | .error e => r = .error e
  | .ok d =>
    match P.next c d with
    | none => P.built (docs ++ [d]) r
    | some _ => docs.length + 1 = P.maxPages ∧ ∃ e, r = .error e

def AllOrNothing (P : Paging Q B κ δ ρ) : Prop :=
  ∀ t r, P.loop.run.Runs t r → ∃ cs docs c t₁ t₂ x,
    Fetched P.get P.next P.first cs docs c t₁ ∧ t = t₁ ++ t₂ ∧ (P.get c).run.Runs t₂ x ∧ cs.length < P.maxPages ∧
    EndsWith P docs c r x ∧
    asked t <+: (cs ++ [c]).map P.request ∧ (∀ d, x = .ok d → asked t = (cs ++ [c]).map P.request)

section Pages

variable {get : κ → Prog Q B δ} {next : κ → δ → Option κ}

theorem Fetched.length {c c' : κ} {cs : List κ} {docs : List δ} {t : List (Ev (Call Q) (Reply B))}
    (h : Fetched get next c cs docs c' t) : cs.length = docs.length := by
  induction h with
  | nil => rfl
  | cons _ _ _ ih => simp [ih]

/-- Each page is asked for once, in order. -/
theorem Fetched.asked {request : κ → Q} (hasks : ∀ c, AsksFor (request c) (get c)) {c c' : κ} {cs : List κ}
    {docs : List δ} {t : List (Ev (Call Q) (Reply B))} (h : Fetched get next c cs docs c' t) :
    ∀ t', asked (t ++ t') = cs.map request ++ asked t' := by
  induction h with
  | nil => exact fun _ => rfl
  | cons hget _ _ ih =>
    intro t'
    obtain ⟨qs, -, hok, hasked⟩ := hasks _ _ _ hget
    rw [List.append_assoc, hasked, ih t', hok _ rfl]
    rfl

/-- A loop that reads pages as it should is all-or-nothing. -/
theorem allOrNothing_of_runs {P : Paging Q B κ δ ρ} (hasks : ∀ c, AsksFor (P.request c) (P.get c))
    (hruns : ∀ t r, P.loop.run.Runs t r → ∃ cs docs c t₁ t₂ x, Fetched P.get P.next P.first cs docs c t₁ ∧
      t = t₁ ++ t₂ ∧ (P.get c).run.Runs t₂ x ∧ cs.length < P.maxPages ∧ EndsWith P docs c r x) :
    AllOrNothing P := by
  intro t r hrun
  obtain ⟨cs, docs, c, t₁, t₂, x, hfetched, rfl, hget, hlen, hends⟩ := hruns t r hrun
  obtain ⟨qs, hpre, hok, hasked⟩ := hasks c t₂ x hget
  have hlast : asked t₂ = qs := by simpa [Cheti.asked, askedFrom] using hasked []
  have hall : asked (t₁ ++ t₂) = cs.map P.request ++ qs := by rw [hfetched.asked hasks, hlast]
  refine ⟨cs, docs, c, t₁, t₂, x, hfetched, rfl, hget, hlen, hends, ?_, fun d hd => ?_⟩
  · rw [hall, List.map_append]
    exact List.prefix_append_right_inj _ |>.2 hpre
  · rw [hall, hok d hd, List.map_append]
    rfl

end Pages

section Loops

variable {σ : Type} {get : κ → Prog Q B δ} {next : κ → δ → Option κ}

/-- What a loop with the pages so far in `s` does after a page: it is the last one, there may be no more, or the
next one is read. -/
def afterPage (loop : Nat → κ → σ → Prog Q B ρ) (finish : σ → Except DnsError ρ) (tooMany : DnsError) (left : Nat) (s : σ) :
    Option κ → Prog Q B ρ
  | none => finish s
  | some c =>
    match left with
    | 0 => throw tooMany
    | left + 1 => loop left c s

/-- How such a loop ends, with `left` more pages allowed after the first. -/
def PageEnds (next : κ → δ → Option κ) (add : σ → δ → σ) (finish : σ → Except DnsError ρ) (left : Nat) (s : σ)
    (docs : List δ) (c : κ) (r : Except DnsError ρ) : Except DnsError δ → Prop
  | .error e => r = .error e
  | .ok d =>
    match next c d with
    | none => r = finish ((docs ++ [d]).foldl add s)
    | some _ => docs.length = left ∧ ∃ e, r = .error e

/-- **Reading to the end**: a run of the loop is a chain of pages and a last one. -/
theorem runs_loop {loop : Nat → κ → σ → Prog Q B ρ} {add : σ → δ → σ} {finish : σ → Except DnsError ρ}
    {tooMany : κ → δ → DnsError}
    (hloop : ∀ left c s, loop left c s = get c >>= fun d =>
      afterPage loop finish (tooMany c d) left (add s d) (next c d)) {r : Except DnsError ρ} :
    ∀ left c s (t : List (Ev (Call Q) (Reply B))), (loop left c s).run.Runs t r →
      ∃ cs docs c' t₁ t₂ x, Fetched get next c cs docs c' t₁ ∧ t = t₁ ++ t₂ ∧ (get c').run.Runs t₂ x ∧
        cs.length ≤ left ∧ PageEnds next add finish left s docs c' r x := by
  intro left
  induction left with
  | zero =>
    intro c s t hrun
    rw [hloop] at hrun
    rcases Fut.runs_run_bind.1 hrun with ⟨e, hget, rfl⟩ | ⟨t₁, d, t₂, hget, hrest, rfl⟩
    · exact ⟨[], [], c, [], t, .error e, .nil c, rfl, hget, le_rfl, rfl⟩
    · have hend : t₂ = [] ∧ PageEnds next add finish 0 s [] c r (.ok d) := by
        cases hnext : next c d <;> rw [hnext] at hrest <;> obtain ⟨rfl, rfl⟩ := Fut.runs_done.1 hrest <;>
          simp [PageEnds, hnext]
      obtain ⟨rfl, hend⟩ := hend
      exact ⟨[], [], c, [], t₁, .ok d, .nil c, by simp, hget, le_rfl, hend⟩
  | succ left ih =>
    intro c s t hrun
    rw [hloop] at hrun
    rcases Fut.runs_run_bind.1 hrun with ⟨e, hget, rfl⟩ | ⟨t₁, d, t₂, hget, hrest, rfl⟩
    · exact ⟨[], [], c, [], t, .error e, .nil c, rfl, hget, Nat.zero_le _, rfl⟩
    · cases hnext : next c d with
      | none =>
        rw [hnext] at hrest
        obtain ⟨rfl, rfl⟩ := Fut.runs_done.1 hrest
        exact ⟨[], [], c, [], t₁, .ok d, .nil c, by simp, hget, Nat.zero_le _, by simp [PageEnds, hnext]⟩
      | some c₁ =>
        rw [hnext] at hrest
        obtain ⟨cs, docs, c', t₃, t₄, x, hfetched, rfl, hlast, hlen, hends⟩ := ih c₁ (add s d) t₂ hrest
        refine ⟨c :: cs, d :: docs, c', t₁ ++ t₃, t₄, x, .cons hget hnext hfetched, by simp, hlast,
          by simpa using hlen, ?_⟩
        cases x with
        | error e => exact hends
        | ok d' =>
          simp only [PageEnds] at hends ⊢
          cases hnext' : next c' d' <;> rw [hnext'] at hends <;> simpa using hends

/-- A loop of this kind is all-or-nothing. -/
theorem allOrNothing_of_loop {P : Paging Q B κ δ ρ} {loop : Nat → κ → σ → Prog Q B ρ} {add : σ → δ → σ}
    {finish : σ → Except DnsError ρ} {tooMany : κ → δ → DnsError} {start : σ} {left : Nat}
    (hasks : ∀ c, AsksFor (P.request c) (P.get c))
    (hloop : ∀ left c s, loop left c s = P.get c >>= fun d =>
      afterPage loop finish (tooMany c d) left (add s d) (P.next c d))
    (hstart : P.loop = loop left P.first start) (hmax : P.maxPages = left + 1)
    (hbuilt : ∀ docs, P.built docs (finish (docs.foldl add start))) : AllOrNothing P := by
  refine allOrNothing_of_runs hasks fun t r hrun => ?_
  rw [hstart] at hrun
  obtain ⟨cs, docs, c, t₁, t₂, x, hfetched, ht, hget, hlen, hends⟩ := runs_loop hloop _ _ _ _ hrun
  refine ⟨cs, docs, c, t₁, t₂, x, hfetched, ht, hget, by omega, ?_⟩
  cases x with
  | error e => exact hends
  | ok d =>
    simp only [PageEnds] at hends
    simp only [EndsWith]
    cases hnext : P.next c d <;> rw [hnext] at hends
    · rw [hends]
      exact hbuilt _
    · exact ⟨by omega, hends.2⟩

/-- The loop over numbered pages is one. -/
theorem readPages_eq {get : Nat → Prog Q B δ} {items : δ → List α} {more : Nat → δ → Option DnsError}
    {next : Nat → δ → Option Nat} (hnext : ∀ page d, next page d = (more page d).map fun _ => page + 1)
    (left page : Nat) (acc : List α) :
    let fetch page := do
      let d ← get page
      return (⟨items d, more page d⟩ : Page α)
    readPages fetch left page acc = get page >>= fun d =>
      afterPage (readPages fetch) .ok ((more page d).getD (.other "")) left (acc ++ items d) (next page d) := by
  intro fetch
  rw [readPages.eq_def]
  simp only [fetch, bind_assoc, pure_bind, hnext]
  congr 1
  funext d
  cases more page d with
  | none => rfl
  | some e => cases left <;> rfl

theorem allOrNothing_of_readPages {P : Paging Q B Nat δ (List α)} {items : δ → List α}
    {more : Nat → δ → Option DnsError} {left : Nat} (hasks : ∀ page, AsksFor (P.request page) (P.get page))
    (hloop : P.loop = readPages (fun page => do
      let d ← P.get page
      return ⟨items d, more page d⟩) left P.first [])
    (hmax : P.maxPages = left + 1) (hnext : ∀ page d, P.next page d = (more page d).map fun _ => page + 1)
    (hbuilt : ∀ docs, P.built docs (.ok (docs.flatMap items))) : AllOrNothing P := by
  refine allOrNothing_of_loop hasks (readPages_eq hnext) hloop hmax fun docs => ?_
  rw [← List.flatMap_eq_foldl]
  exact hbuilt docs

end Loops

theorem request_map (method : Method) (q : Q) (decode : Response (B q) → Except DnsError α) (f : α → β) :
    (request method q (fun response => do
      let a ← decode response
      return f a) : Prog Q B β) = do
        let a ← request method q decode
        return f a := by
  unfold request
  rw [bind_assoc]
  congr 1
  funext response
  exact lift_bind (decode response) fun a => pure (f a)

namespace Bunny

/-- One page of the zones, as the API sends it. -/
def getZones (cfg : BunnyConfig) (search : Str) (page : Nat) : M BunnyZoneList :=
  request .get (Req.zones search page) fun response => do
    check response.status.isSuccess (checkError cfg "GET" "/dnszone".toList response)
    response.json

def zonesOf (body : BunnyZoneList) : List Zone := (body.items.getD []).map fun z => ⟨z.id, lower (trimDots z.domain)⟩

def paging (cfg : BunnyConfig) (search : Str) : Paging Req Req.Doc Nat BunnyZoneList (List Zone) where
  get := getZones cfg search
  request := Req.zones search
  first := 1
  next page body := if body.hasMoreItems then some (page + 1) else none
  maxPages := 50
  built bodies r := r = .ok (bodies.flatMap zonesOf)
  loop := listZones cfg search

theorem allOrNothing (cfg : BunnyConfig) (search : Str) : AllOrNothing (paging cfg search) := by
  have hloop : listZones cfg search = readPages (fun page => do
      let body ← getZones cfg search page
      return ⟨zonesOf body, if body.hasMoreItems then
        some (.api s!"{provider} GET /dnszone: more than {maxPages} pages of zones") else none⟩) (maxPages - 1) 1 [] := by
    refine congrArg (fun fetch => readPages fetch (maxPages - 1) 1 []) (funext fun page => ?_)
    rw [getZones, ← request_map]
    refine congrArg (request .get (Req.zones search page)) (funext fun response => ?_)
    rw [bind_assoc]
    rfl
  refine allOrNothing_of_readPages (fun page => asksFor_request _ _ _) hloop rfl (fun page body => ?_) (fun _ => rfl)
  simp only [paging]
  split <;> rfl

end Bunny

namespace DigitalOcean

def getRecords (zone fqdn : Str) (page : Nat) : M DoRecordList :=
  request .get (Req.list zone (trimDots fqdn) page) fun response => do
    if response.status.asU16 = 404 then throw (.zoneNotFound zone)
    else
      check response.status.isSuccess (apiError provider "GET" (recordsPath zone) response)
      response.json

def paging (zone fqdn : Str) : Paging Req Req.Doc Nat DoRecordList (List DoRecord) where
  get := getRecords zone fqdn
  request := Req.list zone (trimDots fqdn)
  first := 1
  next page body := if body.next.isSome then some (page + 1) else none
  maxPages := 50
  built bodies r := r = .ok (bodies.flatMap (·.domainRecords))
  loop := listMatchingRecords zone fqdn

theorem allOrNothing (zone fqdn : Str) : AllOrNothing (paging zone fqdn) := by
  have hloop : listMatchingRecords zone fqdn = readPages (fun page => do
      let body ← getRecords zone fqdn page
      return ⟨body.domainRecords, body.next.map fun _ =>
        .api s!"{provider} GET {recordsPath zone}: more than {maxPages} pages of records"⟩) (maxPages - 1) 1 [] := by
    refine congrArg (fun fetch => readPages fetch (maxPages - 1) 1 []) (funext fun page => ?_)
    rw [getRecords, ← request_map]
    refine congrArg (request .get (Req.list zone (trimDots fqdn) page)) (funext fun response => ?_)
    split
    · rfl
    · rw [bind_assoc]
  refine allOrNothing_of_readPages (fun page => asksFor_request _ _ _) hloop rfl (fun page body => ?_) (fun _ => rfl)
  simp only [paging]
  cases body.next <;> rfl

end DigitalOcean

namespace Infomaniak

/-- The number of pages and the records of one of them. -/
def getRecords (zone : Str) (page : Nat) : M (Nat × List IkRecord) :=
  request .get (Req.list zone page) fun response => do
    check response.status.isSuccess (apiError provider "GET" (recordsPath zone) response)
    let body : IkEnvelope (List IkRecord) ← response.json
    let records ← body.intoData "GET" (recordsPath zone)
    return (body.pages.getD 1, records)

def isTxtOf (rname : Str) (r : IkRecord) : Bool := eqIgnoreCase r.recordType txt && sameSource r.source rname

def paging (zone rname : Str) : Paging Req Req.Doc Nat (Nat × List IkRecord) (List IkRecord) where
  get := getRecords zone
  request := Req.list zone
  first := 1
  next page body := if page < body.1 then some (page + 1) else none
  maxPages := 100
  built bodies r := r = .ok ((bodies.flatMap (·.2)).filter (isTxtOf rname))
  loop := listTxtRecords zone rname

theorem allOrNothing (zone rname : Str) : AllOrNothing (paging zone rname) := by
  have hloop : listTxtRecords zone rname = readPages (fun page => do
      let body ← getRecords zone page
      let pages := body.1
      return ⟨body.2.filter (isTxtOf rname), if page ≥ pages then none else some (.api
        s!"{provider} GET {recordsPath zone}: TXT listing has {pages} pages, more than the {maxPages} read")⟩)
        (maxPages - 1) 1 [] := by
    refine congrArg (fun fetch => readPages fetch (maxPages - 1) 1 []) (funext fun page => ?_)
    rw [getRecords]
    simp only
    rw [← request_map]
    refine congrArg (request .get (Req.list zone page)) (funext fun response => ?_)
    simp only [bind_assoc]
    rfl
  refine allOrNothing_of_readPages (fun page => asksFor_request _ _ _) hloop rfl (fun page body => ?_) (fun bodies => ?_)
  · simp only [paging]
    by_cases h : page < body.1
    · rw [if_pos h, if_neg (by omega)]
      rfl
    · rw [if_neg h, if_pos (by omega)]
      rfl
  · simp [paging, List.filter_flatMap]

end Infomaniak

namespace GoogleCloudDns

/-! ### The best zone of a listing -/

/-- A public zone that has the absolute name in it. -/
def Fits (name : Str) (zone : ManagedZone) : Prop :=
  zone.visibility ≠ some "private".toList ∧ (name = lower zone.dnsName ∨ ('.' :: lower zone.dnsName) <:+ name)

def dnsLen (zone : ManagedZone) : Nat := Text.utf8Len (lower zone.dnsName)

/-- `zone` is one of those with the longest DNS name among the zones that fit. -/
structure Longest (name : Str) (zones : List ManagedZone) (zone : ManagedZone) : Prop where
  mem : zone ∈ zones
  fits : Fits name zone
  longest : ∀ z ∈ zones, Fits name z → dnsLen z ≤ dnsLen zone

def Best (name : Str) (zones : List ManagedZone) : Option (Nat × Str) → Prop
  | none => ∀ z ∈ zones, ¬ Fits name z
  | some (len, found) => ∃ z, Longest name zones z ∧ dnsLen z = len ∧ z.name = found

theorem better_of_fits {name : Str} {best : Option (Nat × Str)} {zone : ManagedZone} (h : Fits name zone) :
    better name best zone = if best.all (fun b => decide (dnsLen zone > b.1)) then some (dnsLen zone, zone.name) else best := by
  have hfits : (decide (name = lower zone.dnsName) || ('.' :: lower zone.dnsName).isSuffixOf name) = true := by
    simpa using h.2
  simp only [better, if_neg h.1, hfits, Bool.true_and, dnsLen]
  rfl

theorem better_of_not_fits {name : Str} {best : Option (Nat × Str)} {zone : ManagedZone} (h : ¬ Fits name zone) :
    better name best zone = best := by
  unfold better
  split
  · rfl
  · rename_i hpublic
    have hfits : (decide (name = lower zone.dnsName) || ('.' :: lower zone.dnsName).isSuffixOf name) = false := by
      rw [Bool.eq_false_iff]
      intro hfits
      exact h ⟨hpublic, by simpa using hfits⟩
    simp [hfits]

/-- One more zone. -/
theorem Best.step {name : Str} {zones : List ManagedZone} {best : Option (Nat × Str)} (h : Best name zones best)
    (zone : ManagedZone) : Best name (zones ++ [zone]) (better name best zone) := by
  by_cases hfits : Fits name zone
  · rw [better_of_fits hfits]
    cases best with
    | none =>
      -- it is the first that fits
      refine ⟨zone, ⟨by simp, hfits, fun z hz hz' => ?_⟩, rfl, rfl⟩
      rcases List.mem_append.1 hz with hz | hz
      · exact absurd hz' (h z hz)
      · rw [List.mem_singleton.1 hz]
    | some b =>
      obtain ⟨z, hz, hlen, hname⟩ := h
      simp only [Option.all_some, decide_eq_true_eq]
      split
      · rename_i hlonger
        refine ⟨zone, ⟨by simp, hfits, fun z' hz' hfits' => ?_⟩, rfl, rfl⟩
        rcases List.mem_append.1 hz' with hz' | hz'
        · have := hz.longest z' hz' hfits'
          omega
        · rw [List.mem_singleton.1 hz']
      · rename_i hlonger
        refine ⟨z, ⟨List.mem_append_left _ hz.mem, hz.fits, fun z' hz' hfits' => ?_⟩, hlen, hname⟩
        rcases List.mem_append.1 hz' with hz' | hz'
        · exact hz.longest z' hz' hfits'
        · rw [List.mem_singleton.1 hz']
          omega
  · rw [better_of_not_fits hfits]
    have hother : ∀ z ∈ zones ++ [zone], Fits name z → z ∈ zones := by
      intro z hz hz'
      rcases List.mem_append.1 hz with hz | hz
      · exact hz
      · exact absurd (List.mem_singleton.1 hz ▸ hz') hfits
    cases best with
    | none => exact fun z hz hz' => h z (hother z hz hz') hz'
    | some b =>
      obtain ⟨z, hz, hlen, hname⟩ := h
      exact ⟨z, ⟨List.mem_append_left _ hz.mem, hz.fits, fun z' hz' hfits' => hz.longest z' (hother z' hz' hfits') hfits'⟩,
        hlen, hname⟩

theorem best_foldl {name : Str} (more : List ManagedZone) : ∀ {zones : List ManagedZone} {best : Option (Nat × Str)},
    Best name zones best → Best name (zones ++ more) (more.foldl (better name) best) := by
  induction more with
  | nil => intro zones best h; simpa using h
  | cons zone more ih =>
    intro zones best h
    have hstep := ih (h.step zone)
    rwa [List.append_assoc] at hstep

/-! ### The loop -/

def getZones (cfg : GoogleCloudDnsConfig) (pageToken : Option Str) : M ManagedZones :=
  exchange .get "GET" (zonesPath cfg) (Req.zones pageToken)

/-- The token of the next page; an empty one is none. -/
def nextToken (_ : Option Str) (body : ManagedZones) : Option (Option Str) :=
  match body.nextPageToken with
  | some t => if t.isEmpty then none else some (some t)
  | none => none

def paging (cfg : GoogleCloudDnsConfig) (fqdn : Str) : Paging Req Req.Doc (Option Str) ManagedZones Str where
  get := getZones cfg
  request := Req.zones
  first := none
  next := nextToken
  maxPages := 50
  built bodies
    | .ok found => ∃ zone, Longest (absolute fqdn) (bodies.flatMap (·.managedZones)) zone ∧ zone.name = found
    | .error e => e = .zoneNotFound fqdn ∧ ∀ zone ∈ bodies.flatMap (·.managedZones), ¬ Fits (absolute fqdn) zone
  loop := listFrom cfg fqdn (absolute fqdn) maxPages none none

theorem listFrom_eq (cfg : GoogleCloudDnsConfig) (fqdn name : Str) (left : Nat) (pageToken : Option Str)
    (best : Option (Nat × Str)) :
    listFrom cfg fqdn name (left + 1) pageToken best = getZones cfg pageToken >>= fun body =>
      afterPage (fun left => listFrom cfg fqdn name (left + 1)) (found fqdn)
        (.api s!"{provider} zone listing exceeded {maxPages} pages") left (body.managedZones.foldl (better name) best)
        (nextToken pageToken body) := by
  rw [listFrom]
  refine congrArg (getZones cfg pageToken >>= ·) (funext fun body => ?_)
  simp only [nextToken]
  cases body.nextPageToken with
  | none => rfl
  | some t => cases t <;> cases left <;> rfl

theorem asksFor_getZones (cfg : GoogleCloudDnsConfig) (token : Option Str) :
    AsksFor (Req.zones token) (getZones cfg token) := by
  have hsettle : ∀ (response : Response ManagedZones) t x,
      (settle "GET" (zonesPath cfg) response).run.Runs t x → ∀ t', asked (t ++ t') = asked t' := by
    intro response t x hrun t'
    unfold settle at hrun
    split at hrun
    · obtain ⟨rfl, -⟩ := Fut.runs_done.1 hrun
      rfl
    · split at hrun
      · rcases Fut.runs_run_bind.1 hrun with ⟨e, hforget, rfl⟩ | ⟨t₁, _, t₂, hforget, hthrow, rfl⟩
        · obtain ⟨_, _, _, hdone⟩ := Fut.runs_await.1 hforget
          cases (Fut.runs_done.1 hdone).2
        · obtain ⟨_, _, rfl, hdone⟩ := Fut.runs_await.1 hforget
          obtain ⟨rfl, -⟩ := Fut.runs_done.1 hdone
          obtain ⟨rfl, -⟩ := Fut.runs_done.1 hthrow
          rfl
      · obtain ⟨rfl, -⟩ := Fut.runs_done.1 hrun
        rfl
  have hrest : AsksFor (Req.zones token) (sendRetrying .get (Req.zones token) >>= settle "GET" (zonesPath cfg) : M ManagedZones) :=
    (asksFor_sendRetrying .get (Req.zones token)).bind hsettle
  intro t x hrun
  rcases Fut.runs_run_bind.1 hrun with ⟨e, htoken, rfl⟩ | ⟨t₁, _, t₂, htoken, hsend, rfl⟩
  · obtain ⟨_, t', rfl, hdone⟩ := Fut.runs_await.1 htoken
    obtain ⟨rfl, -⟩ := Fut.runs_done.1 hdone
    exact ⟨[], List.nil_prefix, nofun, fun _ => rfl⟩
  · obtain ⟨_, t', rfl, hdone⟩ := Fut.runs_await.1 htoken
    obtain ⟨rfl, -⟩ := Fut.runs_done.1 hdone
    exact hrest t₂ x hsend

theorem built_found (cfg : GoogleCloudDnsConfig) (fqdn : Str) (bodies : List ManagedZones) :
    (paging cfg fqdn).built bodies
      (found fqdn ((bodies.flatMap (·.managedZones)).foldl (better (absolute fqdn)) none)) := by
  have hbest : Best (absolute fqdn) (bodies.flatMap (·.managedZones))
      ((bodies.flatMap (·.managedZones)).foldl (better (absolute fqdn)) none) := by
    have hnone : Best (absolute fqdn) [] none := fun z hz => absurd hz (by simp)
    exact best_foldl _ hnone
  cases hfold : (bodies.flatMap (·.managedZones)).foldl (better (absolute fqdn)) none with
  | none =>
    rw [hfold] at hbest
    exact ⟨rfl, hbest⟩
  | some b =>
    rw [hfold] at hbest
    obtain ⟨z, hz, -, hname⟩ := hbest
    exact ⟨z, hz, hname⟩

theorem allOrNothing (cfg : GoogleCloudDnsConfig) (fqdn : Str) : AllOrNothing (paging cfg fqdn) := by
  have hstart : (paging cfg fqdn).loop =
      (fun left => listFrom cfg fqdn (absolute fqdn) (left + 1)) 49 (paging cfg fqdn).first none := rfl
  refine allOrNothing_of_loop (asksFor_getZones cfg) (listFrom_eq cfg fqdn (absolute fqdn)) hstart rfl fun bodies => ?_
  rw [← List.foldl_flatMap]
  exact built_found cfg fqdn bodies

end GoogleCloudDns

/-! ## The four listings -/

/-- **Paged listings are all-or-nothing and end**, whatever the server answers. -/
theorem listings_allOrNothing :
    (∀ cfg search, AllOrNothing (Bunny.paging cfg search)) ∧
    (∀ zone fqdn, AllOrNothing (DigitalOcean.paging zone fqdn)) ∧
    (∀ zone rname, AllOrNothing (Infomaniak.paging zone rname)) ∧
    (∀ cfg fqdn, AllOrNothing (GoogleCloudDns.paging cfg fqdn)) :=
  ⟨Bunny.allOrNothing, DigitalOcean.allOrNothing, Infomaniak.allOrNothing, GoogleCloudDns.allOrNothing⟩

end Cheti
