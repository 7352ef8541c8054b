import Cheti.Solver
/-!
# The production driver: `InstantAcmeDriver` (src/solver.rs:209-325)

| here | there |
| --- | --- |
| `Authorization.challenge`  | `AuthorizationHandle::challenge`: the first challenge of a type |
| `Pass`                     | what `order.authorizations()` yields, from the first authorization to the last |
| `pendingChallenge`         | `InstantAcmeDriver::pending_challenge` (solver.rs:252-285) |
| `collectFrom`              | the loop of `InstantAcmeDriver::collect` (solver.rs:235-248) |
| `nextDns01`                | `next_dns01` (solver.rs:289-294) |
| `targetsOf`, `readyLoop`, `setReady` | `set_ready` (solver.rs:296-323) |

The authorizations are read twice, and nothing ties the two passes together: the second may be in another
order, shorter or longer, or name a challenge twice. So `set_ready` looks for the URLs it was asked for, and
takes one off its list for each challenge it sets ready. The list is a multiset to it (`swapRemove_perm`), and
what it does is one statement about three multisets: the URLs asked for, those of the second pass, and those
set ready (`Loop.ok_iff`, `Loop.exact`, `readyLoop_le`).
-/

namespace Cheti.InstantAcme

open Fut Solver

/-! ## ACME -/

inductive AuthorizationStatus where
  | pending | valid | invalid | revoked | expired | deactivated
deriving DecidableEq, Repr

/-- `{other:?}` -/
def AuthorizationStatus.debug : AuthorizationStatus → String
  | .pending => "Pending"
  | .valid => "Valid"
  | .invalid => "Invalid"
  | .revoked => "Revoked"
  | .expired => "Expired"
  | .deactivated => "Deactivated"

inductive Identifier where
  | dns (domain : Str)
  /-- Every other one, with the text of its `Debug`. -/
  | other (debug : String)
deriving DecidableEq, Repr

inductive ChallengeType where
  | dns01 | http01 | tlsAlpn01 | other
deriving DecidableEq, Repr

structure Challenge where
  kind : ChallengeType
  url : Str
  /-- `key_authorization().dns_value()` -/
  dnsValue : Str
  /-- `key_authorization().digest()` -/
  digest : List UInt8
deriving DecidableEq, Repr

structure Authorization where
  status : AuthorizationStatus
  identifier : Identifier
  challenges : List Challenge
deriving DecidableEq, Repr

def Authorization.challenge (authz : Authorization) (kind : ChallengeType) : Option Challenge :=
  authz.challenges.find? (·.kind = kind)

/-- One reading of the authorizations of an order; an error is given by its text. -/
abbrev Pass := List (Except String Authorization)

/-! ## The driver -/

structure InstantAcmeDriver where
  queue : Option (List (Except DnsError Dns01Challenge))
  challengeUrls : List Str

def InstantAcmeDriver.new : InstantAcmeDriver := ⟨none, []⟩

def pendingChallenge (result : Except String Authorization) (challengeUrls : List Str) :
    Except DnsError (Option Dns01Challenge) × List Str :=
  match result with
  | .error e => (.error (.acme e), challengeUrls)
  | .ok authz =>
    match authz.status with
    | .valid => (.ok none, challengeUrls)
    | .pending =>
      match authz.identifier with
      | .other debug => (.error (.other s!"unsupported identifier type: {debug}"), challengeUrls)
      | .dns domain =>
        match authz.challenge .dns01 with
        | none => (.error (.noDns01Challenge domain), challengeUrls)
        | some challenge =>
          (.ok (some ⟨domain, "_acme-challenge.".toList ++ domain, challenge.dnsValue, challengeUrls.length⟩),
            challengeUrls ++ [challenge.url])
    | other => (.error (.challengeInvalid other.debug), challengeUrls)

def collectFrom : Pass → List Str → List (Except DnsError Dns01Challenge) →
    List (Except DnsError Dns01Challenge) × List Str
  | [], challengeUrls, queue => (queue, challengeUrls)
  | result :: rest, challengeUrls, queue =>
    match pendingChallenge result challengeUrls with
    | (.ok (some challenge), challengeUrls) => collectFrom rest challengeUrls (queue ++ [.ok challenge])
    | (.ok none, challengeUrls) => collectFrom rest challengeUrls queue
    | (.error e, challengeUrls) => (queue ++ [.error e], challengeUrls)

/-- The first call reads the authorizations; `pass` is what it finds. -/
def nextDns01 (pass : Pass) (d : InstantAcmeDriver) :
    Option (Except DnsError Dns01Challenge) × InstantAcmeDriver :=
  let collected := match d.queue with
    | some queue => (queue, d.challengeUrls)
    | none => collectFrom pass d.challengeUrls []
  (collected.1.head?, ⟨some collected.1.tail, collected.2⟩)

/-- `Vec::swap_remove`: the last element takes the place of the one removed. -/
def swapRemove {α : Type} (l : List α) (i : Nat) : List α :=
  match l.getLast? with
  | none => []
  | some last => (l.set i last).dropLast

inductive Call where
  | nextAuthorization
  /-- `challenge.set_ready()`, of the challenge with this URL. -/
  | setReady (url : Str)
deriving DecidableEq

abbrev Reply : Call → Type
  | .nextAuthorization => Unit
  | .setReady _ => Except String Unit

abbrev Trace := List (Ev Call Reply)
abbrev Act := Fut Unit Call Reply

def targetsOf (challengeUrls : List Str) (tokens : List Nat) : Except DnsError (List Str) :=
  tokens.mapM fun token =>
    match challengeUrls[token]? with
    | some url => .ok url
    | none => .error (.other s!"invalid challenge token {token}")

def readyLoop : Pass → List Str → Act (Except DnsError Unit)
  | [], targets =>
    .await none .nextAuthorization fun _ =>
      match targets.head? with
      | none => .done (.ok ())
      | some url => .done (.error (.other s!"challenge {url} disappeared from order"))
  | .error e :: _, _ => .await none .nextAuthorization fun _ => .done (.error (.acme e))
  | .ok authz :: rest, targets =>
    .await none .nextAuthorization fun _ =>
      match authz.challenge .dns01 with
      | none => readyLoop rest targets
      | some challenge =>
        match targets.idxOf? challenge.url with
        | none => readyLoop rest targets
        | some pos =>
          .await none (.setReady challenge.url) fun
            | .error e => .done (.error (.acme e))
            | .ok () => readyLoop rest (swapRemove targets pos)

def InstantAcmeDriver.setReady (d : InstantAcmeDriver) (tokens : List Nat) (pass : Pass) : Act (Except DnsError Unit) :=
  match targetsOf d.challengeUrls tokens with
  | .error e => .done (.error e)
  | .ok targets => readyLoop pass targets

/-! ## What it yields -/

/-- An authorization as the driver reads it. -/
inductive Reading where
  | pending (domain : Str) (challenge : Challenge)
  | valid
  | failed (e : DnsError)

def read : Except String Authorization → Reading
  | .error e => .failed (.acme e)
  | .ok ⟨.valid, _, _⟩ => .valid
  | .ok ⟨.pending, .dns domain, challenges⟩ =>
    match challenges.find? (·.kind = .dns01) with
    | some challenge => .pending domain challenge
    | none => .failed (.noDns01Challenge domain)
  | .ok ⟨.pending, .other debug, _⟩ => .failed (.other s!"unsupported identifier type: {debug}")
  | .ok ⟨status, _, _⟩ => .failed (.challengeInvalid status.debug)

def Reading.error? : Reading → Option DnsError
  | .failed e => some e
  | _ => none

def Reading.pending? : Reading → Option (Str × Challenge)
  | .pending domain challenge => some (domain, challenge)
  | _ => none

/-- The pending challenges before the first error. -/
def pendings (pass : Pass) : List (Str × Challenge) :=
  ((pass.map read).takeWhile (·.error?.isNone)).filterMap Reading.pending?

def firstError (pass : Pass) : Option DnsError := (pass.map read).findSome? Reading.error?

/-- The challenge with its token. -/
def numbered (found : (Str × Challenge) × Nat) : Except DnsError Dns01Challenge :=
  .ok ⟨found.1.1, "_acme-challenge.".toList ++ found.1.1, found.1.2.dnsValue, found.2⟩

/-- What the calls of `next_dns01` give, in order, before `None`. -/
def yields (pass : Pass) : Driver := (pendings pass).zipIdx.map numbered ++ (firstError pass).toList.map .error

theorem pendingChallenge_read (result : Except String Authorization) (urls : List Str) :
    pendingChallenge result urls = match read result with
      | .pending domain challenge =>
        (.ok (some ⟨domain, "_acme-challenge.".toList ++ domain, challenge.dnsValue, urls.length⟩), urls ++ [challenge.url])
      | .valid => (.ok none, urls)
      | .failed e => (.error e, urls) := by
  rcases result with e | ⟨status, identifier, challenges⟩
  · rfl
  · cases status <;> try rfl
    cases identifier with
    | other => rfl
    | dns domain =>
      simp only [pendingChallenge, read, Authorization.challenge]
      cases challenges.find? (·.kind = .dns01) <;> rfl

section cons

variable {result : Except String Authorization} {rest : Pass} {domain : Str} {challenge : Challenge} {e : DnsError}

theorem cons_of_pending (h : read result = .pending domain challenge) :
    pendings (result :: rest) = (domain, challenge) :: pendings rest ∧ firstError (result :: rest) = firstError rest := by
  unfold pendings firstError
  rw [List.map_cons, h]
  exact ⟨rfl, rfl⟩

theorem cons_of_valid (h : read result = .valid) :
    pendings (result :: rest) = pendings rest ∧ firstError (result :: rest) = firstError rest := by
  unfold pendings firstError
  rw [List.map_cons, h]
  exact ⟨rfl, rfl⟩

theorem cons_of_failed (h : read result = .failed e) :
    pendings (result :: rest) = [] ∧ firstError (result :: rest) = some e := by
  unfold pendings firstError
  rw [List.map_cons, h]
  exact ⟨rfl, rfl⟩

end cons

/-- One pass gives the challenges numbered from the URLs there are, then the error that ended it. -/
theorem collectFrom_eq (pass : Pass) (urls : List Str) (queue : List (Except DnsError Dns01Challenge)) :
    collectFrom pass urls queue =
      (queue ++ ((pendings pass).zipIdx urls.length).map numbered ++ (firstError pass).toList.map .error,
        urls ++ (pendings pass).map (·.2.url)) := by
  induction pass generalizing urls queue with
  | nil => simp [collectFrom, pendings, firstError]
  | cons result rest ih =>
    rw [collectFrom, pendingChallenge_read]
    cases hread : read result with
    | pending domain challenge =>
      rw [(cons_of_pending hread).1, (cons_of_pending hread).2, List.zipIdx_cons, List.map_cons, List.map_cons]
      refine (ih _ _).trans ?_
      rw [List.length_append, List.length_singleton, numbered, List.append_assoc, List.append_assoc, List.append_assoc,
        List.append_assoc]
      rfl
    | valid =>
      rw [(cons_of_valid hread).1, (cons_of_valid hread).2]
      exact ih _ _
    | failed e =>
      rw [(cons_of_failed hread).1, (cons_of_failed hread).2]
      simp

/-- `n` calls of `next_dns01`. -/
def calls (pass : Pass) : Nat → InstantAcmeDriver → List (Option (Except DnsError Dns01Challenge)) × InstantAcmeDriver
  | 0, d => ([], d)
  | n + 1, d =>
    let (result, d) := nextDns01 pass d
    let (results, d) := calls pass n d
    (result :: results, d)

theorem calls_queue (pass : Pass) (urls : List Str) (n : Nat) (queue : List (Except DnsError Dns01Challenge)) :
    calls pass n ⟨some queue, urls⟩ = ((List.range n).map (queue[·]?), ⟨some (queue.drop n), urls⟩) := by
  induction n generalizing queue with
  | zero => simp [calls]
  | succ n ih =>
    have hstep : nextDns01 pass ⟨some queue, urls⟩ = (queue.head?, ⟨some queue.tail, urls⟩) := rfl
    simp only [calls, hstep, ih, List.range_succ_eq_map, List.map_cons, List.map_map]
    have hshift : (fun i => queue.tail[i]?) = (fun i => queue[i]?) ∘ Nat.succ := by
      funext i
      exact List.getElem?_tail
    rw [hshift, List.head?_eq_getElem?, List.drop_tail]

/-- The first call reads the authorizations, and every call takes the next result. -/
theorem calls_new (pass : Pass) (n : Nat) : calls pass (n + 1) .new =
    ((List.range (n + 1)).map ((yields pass)[·]?), ⟨some ((yields pass).drop (n + 1)), (pendings pass).map (·.2.url)⟩) := by
  have hcollect : collectFrom pass [] [] = (yields pass, (pendings pass).map (·.2.url)) := by
    rw [collectFrom_eq]
    rfl
  have hfirst : calls pass (n + 1) .new = calls pass (n + 1) ⟨some (yields pass), (pendings pass).map (·.2.url)⟩ := by
    have hsame : nextDns01 pass .new = nextDns01 pass ⟨some (yields pass), (pendings pass).map (·.2.url)⟩ := by
      simp only [nextDns01, InstantAcmeDriver.new, hcollect]
    simp only [calls, hsame]
  rw [hfirst, calls_queue]

/-- The tokens of the challenges among some results. -/
def tokensOf (results : List (Option (Except DnsError Dns01Challenge))) : List Nat :=
  results.filterMap fun
    | some (.ok challenge) => some challenge.token
    | _ => none

theorem tokensOf_yields (pass : Pass) (n : Nat) :
    tokensOf ((List.range n).map ((yields pass)[·]?)) = List.range (min n (pendings pass).length) := by
  induction n with
  | zero => rfl
  | succ n ih =>
    have hsnoc : tokensOf ((List.range (n + 1)).map ((yields pass)[·]?)) =
        tokensOf ((List.range n).map ((yields pass)[·]?)) ++ tokensOf [(yields pass)[n]?] := by
      rw [List.range_succ, List.map_append]
      exact List.filterMap_append
    rw [hsnoc, ih]
    by_cases hn : n < (pendings pass).length
    · have hget : (yields pass)[n]? = some (numbered ((pendings pass)[n], n)) := by
        have hlen : n < ((pendings pass).zipIdx.map numbered).length := by simpa using hn
        rw [yields, List.getElem?_append_left hlen, List.getElem?_map, List.getElem?_zipIdx, List.getElem?_eq_getElem hn]
        simp
      have htoken : tokensOf [some (numbered ((pendings pass)[n], n))] = [n] := rfl
      rw [hget, htoken, min_eq_left (by omega), min_eq_left (by omega), List.range_succ]
    · -- past the challenges there is only the error
      have hnone : tokensOf [(yields pass)[n]?] = [] := by
        have hlen : ((pendings pass).zipIdx.map numbered).length ≤ n := by simpa using hn
        rw [yields, List.getElem?_append_right hlen]
        cases hget : ((firstError pass).toList.map Except.error : Driver)[n - ((pendings pass).zipIdx.map numbered).length]? with
        | none => rfl
        | some r =>
          obtain ⟨e, -, rfl⟩ := List.mem_map.1 (List.mem_of_getElem? hget)
          rfl
      rw [hnone, List.append_nil, min_eq_right (by omega), min_eq_right (by omega)]

/-! ## What it sets ready -/

theorem swapRemove_perm {α : Type} {l : List α} {i : Nat} {x : α} (h : l[i]? = some x) : l.Perm (x :: swapRemove l i) := by
  obtain ⟨hi, rfl⟩ := List.getElem?_eq_some_iff.1 h
  obtain ⟨front, last, rfl⟩ := (List.eq_nil_or_concat l).resolve_left (List.ne_nil_of_length_pos (by omega))
  have hswap : swapRemove (front.concat last) i = ((front.concat last).set i last).dropLast := by
    rw [swapRemove, List.concat_eq_append, List.getLast?_concat]
  simp only [List.concat_eq_append] at hi hswap ⊢
  rw [hswap]
  by_cases hlast : i < front.length
  · -- the last element goes to the place that is free
    rw [List.set_append_left _ _ hlast, List.dropLast_concat, List.getElem_append_left hlast,
      List.set_eq_take_append_cons_drop, if_pos hlast]
    have hrest : front.Perm (front[i] :: (front.take i ++ front.drop (i + 1))) := by
      rw [← List.eraseIdx_eq_take_drop_succ]
      exact (List.getElem_cons_eraseIdx_perm hlast).symm
    calc List.Perm (front ++ [last]) (last :: front) := List.perm_append_singleton last front
      List.Perm _ (last :: front[i] :: (front.take i ++ front.drop (i + 1))) := hrest.cons last
      List.Perm _ (front[i] :: last :: (front.take i ++ front.drop (i + 1))) := List.Perm.swap ..
      List.Perm _ (front[i] :: (front.take i ++ last :: front.drop (i + 1))) := List.perm_middle.symm.cons _
  · have hlen : i = front.length := by
      rw [List.length_append, List.length_singleton] at hi
      omega
    subst hlen
    simp [List.perm_append_singleton]

/-- The URLs of the challenges that were set ready, or tried to be. -/
def readied (t : Trace) : List Str :=
  t.filterMap fun e => match e.call with
    | .setReady url => some url
    | .nextAuthorization => none

/-- The ACME server did not take it. -/
def refused : Ev Call Reply → Bool
  | ⟨.setReady _, .error _⟩ => true
  | _ => false

def dns01Url? : Except String Authorization → Option Str
  | .ok authz => (authz.challenge .dns01).map Challenge.url
  | .error _ => none

/-- The URLs of the DNS-01 challenges of a pass. -/
def dns01Urls (pass : Pass) : List Str := pass.filterMap dns01Url?

/-- The API gave no error: neither for an authorization nor for a challenge. -/
def NoApiError (pass : Pass) (t : Trace) : Prop := (∀ result ∈ pass, result.isOk) ∧ ∀ e ∈ t, refused e = false

section loop

variable {authz : Authorization} {rest : Pass} {targets : List Str}

/-- A challenge that is not asked for is passed over. -/
theorem readyLoop_skip (h : ∀ challenge, authz.challenge .dns01 = some challenge → challenge.url ∉ targets) :
    readyLoop (.ok authz :: rest) targets = .await none .nextAuthorization fun _ => readyLoop rest targets := by
  rw [readyLoop]
  cases hchallenge : authz.challenge .dns01 with
  | none => rfl
  | some challenge =>
    have hnone : targets.idxOf? challenge.url = none := List.idxOf?_eq_none_iff.2 (h challenge hchallenge)
    simp only [hnone]

/-- One that is asked for is set ready, and taken off the list. -/
theorem readyLoop_take {challenge : Challenge} (hchallenge : authz.challenge .dns01 = some challenge)
    (hmem : challenge.url ∈ targets) : ∃ targets' k, targets.Perm (challenge.url :: targets') ∧
      readyLoop (.ok authz :: rest) targets =
        .await none .nextAuthorization (fun _ => .await none (.setReady challenge.url) k) ∧
      (∀ e, k (.error e) = .done (.error (.acme e))) ∧ k (.ok ()) = readyLoop rest targets' := by
  obtain ⟨pos, hpos⟩ := Option.ne_none_iff_exists'.1 (mt List.idxOf?_eq_none_iff.1 (not_not.2 hmem))
  obtain ⟨hlt, hget, -⟩ := List.idxOf?_eq_some_iff.1 hpos
  have hperm := swapRemove_perm (List.getElem?_eq_some_iff.2 ⟨hlt, hget⟩)
  rw [readyLoop]
  simp only [hchallenge, hpos]
  exact ⟨swapRemove targets pos, _, hperm, rfl, fun e => rfl, rfl⟩

theorem dns01Urls_none (h : authz.challenge .dns01 = none) : dns01Urls (.ok authz :: rest) = dns01Urls rest :=
  List.filterMap_cons_none (by rw [dns01Url?, h, Option.map_none])

theorem dns01Urls_some {challenge : Challenge} (h : authz.challenge .dns01 = some challenge) :
    dns01Urls (.ok authz :: rest) = challenge.url :: dns01Urls rest :=
  List.filterMap_cons_some (by rw [dns01Url?, h, Option.map_some])

theorem le_dns01Urls_skip (h : ∀ challenge, authz.challenge .dns01 = some challenge → challenge.url ∉ targets) :
    (targets : Multiset Str) ≤ dns01Urls (.ok authz :: rest) ↔ (targets : Multiset Str) ≤ dns01Urls rest := by
  cases hchallenge : authz.challenge .dns01 with
  | none => rw [dns01Urls_none hchallenge]
  | some challenge =>
    rw [dns01Urls_some hchallenge, ← Multiset.cons_coe]
    exact Multiset.le_cons_of_notMem (h challenge hchallenge)

end loop

theorem noApiError_next {authz : Authorization} {rest : Pass} {t : Trace} :
    NoApiError (.ok authz :: rest) (⟨.nextAuthorization, ()⟩ :: t) ↔ NoApiError rest t := by
  simp [NoApiError, refused, Except.isOk, Except.toBool]

theorem noApiError_setReady {rest : Pass} {t : Trace} {url : Str} :
    NoApiError rest (⟨.setReady url, .ok ()⟩ :: t) ↔ NoApiError rest t := by
  simp [NoApiError, refused]

/-- The runs of the loop, authorization by authorization. -/
inductive Loop : Pass → List Str → Trace → Except DnsError Unit → Prop
  | complete : Loop [] [] [⟨.nextAuthorization, ()⟩] (.ok ())
  | disappeared (url : Str) (targets : List Str) : Loop [] (url :: targets) [⟨.nextAuthorization, ()⟩]
      (.error (.other s!"challenge {url} disappeared from order"))
  | unread (e : String) (rest : Pass) (targets : List Str) :
      Loop (.error e :: rest) targets [⟨.nextAuthorization, ()⟩] (.error (.acme e))
  | skip {authz rest targets t r} (h : ∀ challenge, authz.challenge .dns01 = some challenge → challenge.url ∉ targets) :
      Loop rest targets t r → Loop (.ok authz :: rest) targets (⟨.nextAuthorization, ()⟩ :: t) r
  | refuse {authz targets challenge} (h : authz.challenge .dns01 = some challenge) (hmem : challenge.url ∈ targets)
      (e : String) (rest : Pass) : Loop (.ok authz :: rest) targets
        [⟨.nextAuthorization, ()⟩, ⟨.setReady challenge.url, .error e⟩] (.error (.acme e))
  | take {authz rest targets targets' challenge t r} (h : authz.challenge .dns01 = some challenge)
      (hperm : targets.Perm (challenge.url :: targets')) : Loop rest targets' t r →
      Loop (.ok authz :: rest) targets (⟨.nextAuthorization, ()⟩ :: ⟨.setReady challenge.url, .ok ()⟩ :: t) r

theorem loop_of_runs {pass : Pass} {targets : List Str} {t : Trace} {r : Except DnsError Unit}
    (h : (readyLoop pass targets).Runs t r) : Loop pass targets t r := by
  induction pass generalizing targets t with
  | nil =>
    rw [readyLoop] at h
    obtain ⟨-, t', rfl, h⟩ := runs_await.1 h
    cases targets with
    | nil =>
      obtain ⟨rfl, rfl⟩ := runs_done.1 h
      exact .complete
    | cons url targets =>
      obtain ⟨rfl, rfl⟩ := runs_done.1 h
      exact .disappeared url targets
  | cons result rest ih =>
    cases result with
    | error e =>
      rw [readyLoop] at h
      obtain ⟨-, t', rfl, h⟩ := runs_await.1 h
      obtain ⟨rfl, rfl⟩ := runs_done.1 h
      exact .unread e rest targets
    | ok authz =>
      by_cases hskip : ∀ challenge, authz.challenge .dns01 = some challenge → challenge.url ∉ targets
      · rw [readyLoop_skip hskip] at h
        obtain ⟨-, t', rfl, hrest⟩ := runs_await.1 h
        exact .skip hskip (ih hrest)
      · push Not at hskip
        obtain ⟨challenge, hchallenge, hmem⟩ := hskip
        obtain ⟨targets', k, hperm, hloop, herror, hok⟩ := readyLoop_take hchallenge hmem
        rw [hloop] at h
        obtain ⟨-, t', rfl, hcall⟩ := runs_await.1 h
        obtain ⟨reply, t'', rfl, hrest⟩ := runs_await.1 hcall
        cases reply with
        | error e =>
          rw [herror] at hrest
          obtain ⟨rfl, rfl⟩ := runs_done.1 hrest
          exact .refuse hchallenge hmem e rest
        | ok =>
          rw [hok] at hrest
          exact .take hchallenge hperm (ih hrest)

section run

variable {pass : Pass} {targets : List Str} {t : Trace} {r : Except DnsError Unit}

/-- **The loop succeeds iff the API gives no error and the second pass has all the URLs**, each as often as it
was asked for. -/
theorem Loop.ok_iff (h : Loop pass targets t r) :
    r = .ok () ↔ NoApiError pass t ∧ (targets : Multiset Str) ≤ dns01Urls pass := by
  induction h with
  | complete => simp [NoApiError, refused]
  | disappeared url targets =>
    have hnot : ¬ ((url :: targets : List Str) : Multiset Str) ≤ dns01Urls [] := by
      intro hle
      exact Multiset.notMem_zero url (Multiset.mem_of_le hle (by simp))
    simp [hnot]
  | unread => simp [NoApiError, Except.isOk, Except.toBool]
  | skip hskip _ ih => rw [ih, noApiError_next, le_dns01Urls_skip hskip]
  | refuse => simp [NoApiError, refused]
  | take hchallenge hperm _ ih =>
    rw [ih, noApiError_next, noApiError_setReady, dns01Urls_some hchallenge, Multiset.coe_eq_coe.2 hperm,
      ← Multiset.cons_coe, ← Multiset.cons_coe, Multiset.cons_le_cons_iff]

/-- Then these are the ones it has set ready. -/
theorem Loop.exact (h : Loop pass targets t r) (hok : r = .ok ()) : (readied t : Multiset Str) = targets := by
  induction h with
  | complete => rfl
  | skip _ _ ih => exact ih hok
  | take _ hperm _ ih =>
    rw [Multiset.coe_eq_coe.2 hperm, ← Multiset.cons_coe, ← ih hok]
    rfl
  | disappeared | unread | refuse => cases hok

end run

/-- At no point has it set ready more than it was asked for. -/
theorem readyLoop_le {pass : Pass} {targets : List Str} {t : Trace} {q : Act (Except DnsError Unit)}
    (h : (readyLoop pass targets).At t q) : (readied t : Multiset Str) ≤ targets := by
  have hnone : ∀ targets : List Str, (readied [] : Multiset Str) ≤ targets := fun _ => Multiset.zero_le _
  have hend : ∀ {r t} {q : Act (Except DnsError Unit)}, (done r).At t q → t = [] := fun h => (at_done.1 h).1
  induction pass generalizing targets t with
  | nil =>
    rw [readyLoop] at h
    obtain ⟨rfl, -⟩ | ⟨-, t', rfl, h⟩ := at_await.1 h
    · exact hnone targets
    · have ht : t' = [] := by
        cases targets with
        | nil => exact hend h
        | cons => exact hend h
      rw [ht]
      exact hnone targets
  | cons result rest ih =>
    cases result with
    | error e =>
      rw [readyLoop] at h
      obtain ⟨rfl, -⟩ | ⟨-, t', rfl, h⟩ := at_await.1 h
      · exact hnone targets
      · rw [hend h]
        exact hnone targets
    | ok authz =>
      by_cases hskip : ∀ challenge, authz.challenge .dns01 = some challenge → challenge.url ∉ targets
      · rw [readyLoop_skip hskip] at h
        obtain ⟨rfl, -⟩ | ⟨-, t', rfl, h⟩ := at_await.1 h
        · exact hnone targets
        · have hle := ih h
          exact hle
      · push Not at hskip
        obtain ⟨challenge, hchallenge, hmem⟩ := hskip
        obtain ⟨targets', k, hperm, hloop, herror, hok⟩ := readyLoop_take hchallenge hmem
        rw [hloop] at h
        have hcons : (targets : Multiset Str) = challenge.url ::ₘ targets' := Multiset.coe_eq_coe.2 hperm
        obtain ⟨rfl, -⟩ | ⟨-, t', rfl, hcall⟩ := at_await.1 h
        · exact hnone targets
        obtain ⟨rfl, -⟩ | ⟨reply, t'', rfl, hrest⟩ := at_await.1 hcall
        · exact hnone targets
        -- the answer decides what follows, but the URL was on the list
        have hle : (readied t'' : Multiset Str) ≤ targets' := by
          cases reply with
          | error e =>
            rw [herror] at hrest
            rw [hend hrest]
            exact hnone targets'
          | ok =>
            rw [hok] at hrest
            exact ih hrest
        rw [hcons]
        exact Multiset.cons_le_cons _ hle

/-! ## Tokens -/

/-- The URLs that a list of tokens asks for. -/
def asked (d : InstantAcmeDriver) (tokens : List Nat) : List Str := tokens.filterMap (d.challengeUrls[·]?)

theorem targetsOf_valid {d : InstantAcmeDriver} {tokens : List Nat} (h : ∀ token ∈ tokens, token < d.challengeUrls.length) :
    targetsOf d.challengeUrls tokens = .ok (asked d tokens) := by
  induction tokens with
  | nil => rfl
  | cons token tokens ih =>
    rw [List.forall_mem_cons] at h
    have hget := List.getElem?_eq_getElem h.1
    have hrest : targetsOf d.challengeUrls tokens = .ok (asked d tokens) := ih h.2
    have hasked : asked d (token :: tokens) = d.challengeUrls[token] :: asked d tokens := List.filterMap_cons_some hget
    unfold targetsOf at hrest ⊢
    rw [List.mapM_cons, hrest, hasked]
    simp only [hget]
    rfl

theorem setReady_valid {d : InstantAcmeDriver} {tokens : List Nat} (h : ∀ token ∈ tokens, token < d.challengeUrls.length)
    (pass : Pass) : d.setReady tokens pass = readyLoop pass (asked d tokens) := by
  rw [InstantAcmeDriver.setReady, targetsOf_valid h]

/-- What `set_ready` answers to a token that is no index. -/
def invalidToken (token : Nat) : DnsError := .other s!"invalid challenge token {token}"

theorem invalidToken_ne (token : Nat) (url : Str) :
    invalidToken token ≠ .other s!"challenge {url} disappeared from order" := by
  intro h
  rw [invalidToken, DnsError.other.injEq] at h
  have hfirst := congrArg (fun s : String => s.toList.head?) h
  have hi : (toString "invalid challenge token ").toList.head? = some 'i' := rfl
  have hc : (toString "challenge ").toList.head? = some 'c' := rfl
  simp only [String.toList_append, List.head?_append, hi, hc, Option.some_or] at hfirst
  exact absurd hfirst (by decide)

theorem Loop.ne_invalid {pass : Pass} {targets : List Str} {t : Trace} {r : Except DnsError Unit}
    (h : Loop pass targets t r) (token : Nat) : r ≠ .error (invalidToken token) := by
  induction h with
  | complete => simp
  | disappeared url => simpa using (invalidToken_ne token url).symm
  | unread | refuse => simp [invalidToken]
  | skip _ _ ih => exact ih
  | take _ _ _ ih => exact ih

/-! ## The driver as a whole -/

/-- What holds of an order of which `first` and `second` are the two readings. -/
structure SetsReadyWhatItYields (first second : Pass) : Prop where
  /-- Call after call, `next_dns01` gives the challenges in order, then the error, if any, then `None`. -/
  results : ∀ n, (calls first n .new).1 = (List.range n).map ((yields first)[·]?)
  /-- The tokens are those of the pending challenges before the error. -/
  tokens : ∀ n, tokensOf (calls first n .new).1 = List.range (min n (pendings first).length)
  /-- Each is the index of its challenge's URL. -/
  valid : ∀ n, ∀ token ∈ tokensOf (calls first n .new).1,
    (calls first n .new).2.challengeUrls[token]? = (pendings first)[token]?.map (·.2.url) ∧
      token < (calls first n .new).2.challengeUrls.length
  never_invalid : ∀ n tokens, tokens ⊆ tokensOf (calls first n .new).1 → ∀ t r,
    ((calls first n .new).2.setReady tokens second).Runs t r → ∀ token, r ≠ .error (invalidToken token)
  ok_iff : ∀ (d : InstantAcmeDriver) tokens, (∀ token ∈ tokens, token < d.challengeUrls.length) → ∀ t r,
    (d.setReady tokens second).Runs t r →
      (r = .ok () ↔ NoApiError second t ∧ (asked d tokens : Multiset Str) ≤ dns01Urls second)
  exact : ∀ (d : InstantAcmeDriver) tokens, (∀ token ∈ tokens, token < d.challengeUrls.length) → ∀ t,
    (d.setReady tokens second).Runs t (.ok ()) → (readied t : Multiset Str) = asked d tokens
  /-- At every point of a run, whatever comes of it. -/
  no_more : ∀ (d : InstantAcmeDriver) tokens, (∀ token ∈ tokens, token < d.challengeUrls.length) → ∀ t q,
    (d.setReady tokens second).At t q → (readied t : Multiset Str) ≤ asked d tokens

theorem calls_valid (pass : Pass) (n : Nat) : ∀ token ∈ tokensOf (calls pass n .new).1,
    (calls pass n .new).2.challengeUrls[token]? = (pendings pass)[token]?.map (·.2.url) ∧
      token < (calls pass n .new).2.challengeUrls.length := by
  cases n with
  | zero => exact fun token hmem => absurd hmem List.not_mem_nil
  | succ n =>
    rw [calls_new, tokensOf_yields]
    intro token hmem
    rw [List.mem_range] at hmem
    exact ⟨List.getElem?_map, by rw [List.length_map]; omega⟩

/-- **The driver sets ready exactly what it yielded**, whatever the two readings are. -/
theorem setsReadyWhatItYields (first second : Pass) : SetsReadyWhatItYields first second := by
  have hresults : ∀ n, (calls first n .new).1 = (List.range n).map ((yields first)[·]?) := by
    intro n
    cases n with
    | zero => rfl
    | succ n => rw [calls_new]
  constructor
  case results => exact hresults
  case tokens =>
    intro n
    rw [hresults, tokensOf_yields]
  case valid => exact calls_valid first
  case never_invalid =>
    intro n tokens hsub t r h
    rw [setReady_valid fun token hmem => (calls_valid first n token (hsub hmem)).2] at h
    exact (loop_of_runs h).ne_invalid
  case ok_iff =>
    intro d tokens hvalid t r h
    rw [setReady_valid hvalid] at h
    exact (loop_of_runs h).ok_iff
  case exact =>
    intro d tokens hvalid t h
    rw [setReady_valid hvalid] at h
    exact (loop_of_runs h).exact rfl
  case no_more =>
    intro d tokens hvalid t q h
    rw [setReady_valid hvalid] at h
    exact readyLoop_le h

end Cheti.InstantAcme
