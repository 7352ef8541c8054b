import Cheti.InstantAcme
/-!
# The TLS-ALPN-01 orchestrator: `TlsAlpn01Solver` (src/tls_alpn.rs)

| here | there |
| --- | --- |
| `buildChallengeCertificate` | `build_challenge_certificate` (tls_alpn.rs:83-110); what rcgen answers is a reply |
| `cleanupGuard`     | `TlsAlpn01Solver::cleanup_guard` (tls_alpn.rs:167-181) |
| `collectPending`   | the first loop of `present_all` (tls_alpn.rs:193-219) |
| `presentEach`      | its second loop (tls_alpn.rs:221-233) |
| `setReadyByUrl`    | `set_ready_by_url` (tls_alpn.rs:240-256) |
| `finalizeOrder`    | `finalize_order` (tls_alpn.rs:261-280) |
| `solveAndFinalize` | `TlsAlpn01Solver::solve_and_finalize` (tls_alpn.rs:152-160) |

Here presenting and announcing alternate: the challenge of one domain is set ready before the certificate of the
next is built. So what there is to tear down depends on where it failed. `EachAt` says what the loop has done
wherever it stands: all domains in front of the current one are presented and set ready.

Every `order.authorizations()` starts a new reading of the order, the `i`-th of them giving `order i`. The first
one collects; each `set_ready_by_url` makes one of its own.
-/

namespace Cheti.TlsAlpn

open Fut InstantAcme

inductive OrderStatus where
  | pending | ready | processing | valid | invalid
deriving DecidableEq, Repr

/-- `{status:?}` -/
def OrderStatus.debug : OrderStatus → String
  | .pending => "Pending"
  | .ready => "Ready"
  | .processing => "Processing"
  | .valid => "Valid"
  | .invalid => "Invalid"

structure ChallengeCertificate where
  certDer : List UInt8
  keyDer : List UInt8
deriving DecidableEq, Repr

inductive Call where
  | nextAuthorization
  /-- Parameters, key and signature of a challenge certificate. -/
  | selfSign (domain : Str) (digest : List UInt8)
  | present (domain : Str) (cert : ChallengeCertificate)
  | setReady (url : Str)
  | pollReady
  | finalize
  | pollCertificate
  | cleanup (domain : Str)
  | onCleanupError (domain : Str) (e : DnsError)
deriving DecidableEq

abbrev Reply : Call → Type
  | .nextAuthorization | .onCleanupError _ _ => Unit
  | .selfSign _ _ => Except DnsError ChallengeCertificate
  | .present _ _ | .cleanup _ => Except DnsError Unit
  | .setReady _ => Except String Unit
  | .pollReady => Except String OrderStatus
  | .finalize | .pollCertificate => Except String Str

abbrev Trace := List (Ev Call Reply)
abbrev Guard := CleanupGuard Call Reply Str
abbrev Act (α : Type) := Fut Guard Call Reply α

/-- A pending challenge: `(domain, digest, challenge_url)`. -/
structure Pending where
  domain : Str
  digest : List UInt8
  url : Str
deriving DecidableEq, Repr

/-- The body of the collecting loop: a challenge to push, or nothing for a valid authorization. -/
def pendingOf : Except String Authorization → Except DnsError (Option Pending)
  | .error e => .error (.acme e)
  | .ok authz =>
    match authz.status with
    | .valid => .ok none
    | .pending =>
      match authz.identifier with
      | .other debug => .error (.other s!"unsupported identifier type: {debug}")
      | .dns domain =>
        match authz.challenge .tlsAlpn01 with
        | none => .error (.other s!"no TLS-ALPN-01 challenge for {domain}")
        | some challenge => .ok (some ⟨domain, challenge.digest, challenge.url⟩)
    | other => .error (.challengeInvalid other.debug)

def collectPending (presented : Guard) : Pass → List Pending → Act (Except DnsError (List Pending))
  | [], pending => .await (some presented) .nextAuthorization fun _ => .done (.ok pending)
  | result :: rest, pending =>
    .await (some presented) .nextAuthorization fun _ =>
      match pendingOf result with
      | .error e => .done (.error e)
      | .ok none => collectPending presented rest pending
      | .ok (some p) => collectPending presented rest (pending ++ [p])

/-- It makes no suspension: rcgen is called directly. -/
def buildChallengeCertificate (domain : Str) (digest : List UInt8) : Act (Except DnsError ChallengeCertificate) :=
  if digest.length ≠ 32 then
    .done (.error (.other s!"TLS-ALPN-01 key authorization digest must be 32 bytes, got {digest.length}"))
  else .await none (.selfSign domain digest) .done

def setReadyByUrl (presented : Guard) (url : Str) : Pass → Act (Except DnsError Unit)
  | [] => .await (some presented) .nextAuthorization fun _ =>
    .done (.error (.other s!"challenge {url} disappeared from order"))
  | .error e :: _ => .await (some presented) .nextAuthorization fun _ => .done (.error (.acme e))
  | .ok authz :: rest =>
    .await (some presented) .nextAuthorization fun _ =>
      match authz.challenge .tlsAlpn01 with
      | none => setReadyByUrl presented url rest
      | some challenge =>
        if challenge.url = url then
          .await (some presented) (.setReady challenge.url) fun r => .done (r.mapError .acme)
        else setReadyByUrl presented url rest

/-- `for (domain, digest, url) in pending`; the next reading of the order is the `i`-th. The domain is pushed
before `present`, which may fail after it has installed the certificate. -/
def presentEach (order : Nat → Pass) : Nat → List Pending → Guard → Act (Except DnsError Unit × Guard)
  | _, [], presented => .done (.ok (), presented)
  | i, p :: rest, presented =>
    (buildChallengeCertificate p.domain p.digest).bind fun
      | .error e => .done (.error e, presented)
      | .ok cert =>
        .await (some (presented.push p.domain)) (.present p.domain cert) fun
          | .error e => .done (.error e, presented.push p.domain)
          | .ok () =>
            (setReadyByUrl (presented.push p.domain) p.url (order i)).bind fun
              | .error e => .done (.error e, presented.push p.domain)
              | .ok () => presentEach order (i + 1) rest (presented.push p.domain)

def presentAll (order : Nat → Pass) (presented : Guard) : Act (Except DnsError Unit × Guard) :=
  (collectPending presented (order 0) []).bind fun
    | .error e => .done (.error e, presented)
    | .ok pending => presentEach order 1 pending presented

def finalizeOrder (presented : Guard) : Act (Except DnsError (Str × Str)) :=
  .await (some presented) .pollReady fun
    | .error e => .done (.error (.acme e))
    | .ok status =>
      if status ≠ .ready then .done (.error (.unexpectedOrderStatus status.debug))
      else .await (some presented) .finalize fun
        | .error e => .done (.error (.acme e))
        | .ok key => .await (some presented) .pollCertificate fun
          | .error e => .done (.error (.acme e))
          | .ok chain => .done (.ok (chain, key))

structure TlsAlpn01Solver where
  /-- Whether an `on_cleanup_error` hook is set. -/
  onCleanupError : Bool

namespace TlsAlpn01Solver

variable (s : TlsAlpn01Solver)

/-- The closure given to the guard. -/
def cleanupDomain (domain : Str) : Fut Unit Call Reply Unit :=
  .await (some ()) (.cleanup domain) fun
    | .ok () => .done ()
    | .error e => if s.onCleanupError then .await none (.onCleanupError domain e) .done else .done ()

def cleanupGuard : Guard := .new s.cleanupDomain

/-- The `outcome` of `solve_and_finalize`, computed before any cleanup, and the guard it leaves. -/
def outcome (order : Nat → Pass) : Act (Except DnsError (Str × Str) × Guard) :=
  (presentAll order s.cleanupGuard).bind fun
    | (.ok (), presented) => (finalizeOrder presented).bind fun r => .done (r, presented)
    | (.error e, presented) => .done (.error e, presented)

def solveAndFinalize (order : Nat → Pass) : Act (Except DnsError (Str × Str)) :=
  (s.outcome order).bind fun (outcome, presented) => presented.run.bind fun _ => .done outcome

end TlsAlpn01Solver

/-! ## Reading a trace -/

inductive Stage where
  | presenting
  | finalizing
  | cleaning
deriving DecidableEq, Repr

def Call.stage : Call → Stage
  | .nextAuthorization | .selfSign _ _ | .present _ _ | .setReady _ => .presenting
  | .pollReady | .finalize | .pollCertificate => .finalizing
  | .cleanup _ | .onCleanupError _ _ => .cleaning

/-- The domain a call presents. -/
def Call.presented : Call → List Str
  | .present domain _ => [domain]
  | _ => []

/-- The domain a call tears down. -/
def Call.cleaned : Call → List Str
  | .cleanup domain => [domain]
  | _ => []

def presentReply : Ev Call Reply → Option (Str × Except DnsError Unit)
  | ⟨.present domain _, r⟩ => some (domain, r)
  | _ => none

def readyReply : Ev Call Reply → Option (Str × Except String Unit)
  | ⟨.setReady url, r⟩ => some (url, r)
  | _ => none

def cleanupReply : Ev Call Reply → Option (Str × Except DnsError Unit)
  | ⟨.cleanup domain, r⟩ => some (domain, r)
  | _ => none

/-- The calls of `present`, `set_ready` and `cleanup` in a trace, with their answers. -/
def presentReplies (t : Trace) : List (Str × Except DnsError Unit) := t.filterMap presentReply
def readyReplies (t : Trace) : List (Str × Except String Unit) := t.filterMap readyReply
def cleanupReplies (t : Trace) : List (Str × Except DnsError Unit) := t.filterMap cleanupReply

/-- The domains presented, and the domains torn down. -/
def presents (t : Trace) : List Str := (presentReplies t).map Prod.fst
def cleanups (t : Trace) : List Str := (cleanupReplies t).map Prod.fst

@[simp] theorem presentReplies_append (t u : Trace) : presentReplies (t ++ u) = presentReplies t ++ presentReplies u :=
  List.filterMap_append
@[simp] theorem readyReplies_append (t u : Trace) : readyReplies (t ++ u) = readyReplies t ++ readyReplies u :=
  List.filterMap_append
@[simp] theorem cleanupReplies_append (t u : Trace) : cleanupReplies (t ++ u) = cleanupReplies t ++ cleanupReplies u :=
  List.filterMap_append
@[simp] theorem presents_append (t u : Trace) : presents (t ++ u) = presents t ++ presents u := by simp [presents]
@[simp] theorem cleanups_append (t u : Trace) : cleanups (t ++ u) = cleanups t ++ cleanups u := by simp [cleanups]

theorem presentReplies_eq_nil {t : Trace} (h : ∀ e ∈ t, e.call.presented = []) : presentReplies t = [] := by
  refine List.filterMap_eq_nil_iff.2 fun e he => ?_
  have hcall := h e he
  obtain ⟨c, r⟩ := e
  cases c <;> first | rfl | cases hcall

theorem readyReplies_eq_nil {t : Trace} (h : ∀ e ∈ t, ∀ url, e.call ≠ .setReady url) : readyReplies t = [] := by
  refine List.filterMap_eq_nil_iff.2 fun e he => ?_
  have hcall := h e he
  obtain ⟨c, r⟩ := e
  cases c <;> first | rfl | exact absurd rfl (hcall _)

theorem cleanups_of_not_cleaning {t : Trace} (h : ∀ e ∈ t, e.call.stage ≠ .cleaning) : cleanups t = [] := by
  rw [cleanups, List.map_eq_nil_iff]
  refine List.filterMap_eq_nil_iff.2 fun e he => ?_
  have hcall := h e he
  obtain ⟨c, r⟩ := e
  cases c <;> first | rfl | exact absurd rfl hcall

theorem presents_of_cleaning {t : Trace} (h : ∀ e ∈ t, e.call.stage = .cleaning) : presents t = [] := by
  rw [presents, List.map_eq_nil_iff]
  refine presentReplies_eq_nil fun e he => ?_
  have hcall := h e he
  cases hc : e.call <;> first | rfl | (rw [hc] at hcall; cases hcall)

/-! ## Collecting -/

/-- The challenges of a reading of the order, or the first error in it. -/
def collected (pass : Pass) : Except DnsError (List Pending) := do
  let found ← pass.mapM pendingOf
  return found.reduceOption

theorem collected_cons (result : Except String Authorization) (rest : Pass) :
    collected (result :: rest) = do
      let p ← pendingOf result
      let found ← collected rest
      return p.toList ++ found := by
  unfold collected
  rw [List.mapM_cons]
  cases pendingOf result with
  | error e => rfl
  | ok p =>
    cases List.mapM pendingOf rest with
    | error e => rfl
    | ok found => cases p <;> rfl

theorem collectPending_at {presented : Guard} : ∀ {pass : Pass} {pending : List Pending} {t : Trace}
    {q : Act (Except DnsError (List Pending))}, (collectPending presented pass pending).At t q →
      (∀ e ∈ t, e.call = .nextAuthorization) ∧
      match q with
      | .await g c _ => c = .nextAuthorization ∧ g = some presented
      | .done res => res = (collected pass).map (pending ++ ·)
  | [], pending, t, q, h => by
    rcases at_await.1 h with ⟨rfl, rfl⟩ | ⟨r, t', rfl, h'⟩
    · simp
    · obtain ⟨rfl, rfl⟩ := at_done.1 h'
      refine ⟨by simp, ?_⟩
      show _ = Except.ok (pending ++ [])
      rw [List.append_nil]
  | result :: rest, pending, t, q, h => by
    rw [collectPending] at h
    rcases at_await.1 h with ⟨rfl, rfl⟩ | ⟨r, t', rfl, h'⟩
    · simp
    rw [List.forall_mem_cons]
    rw [collected_cons]
    cases hp : pendingOf result with
    | error e =>
      rw [hp] at h'
      obtain ⟨rfl, rfl⟩ := at_done.1 h'
      exact ⟨⟨rfl, by simp⟩, rfl⟩
    | ok p =>
      cases p with
      | none =>
        rw [hp] at h'
        obtain ⟨ht, hq⟩ := collectPending_at h'
        refine ⟨⟨rfl, ht⟩, ?_⟩
        cases q with
        | await g c k => exact hq
        | done res =>
          rw [hq]
          cases collected rest <;> rfl
      | some p =>
        rw [hp] at h'
        obtain ⟨ht, hq⟩ := collectPending_at h'
        refine ⟨⟨rfl, ht⟩, ?_⟩
        cases q with
        | await g c k => exact hq
        | done res =>
          rw [hq]
          cases collected rest with
          | error e => rfl
          | ok found => exact congrArg Except.ok (List.append_assoc ..)

/-! ## One domain -/

theorem buildChallengeCertificate_at {domain : Str} {digest : List UInt8} {t : Trace}
    {q : Act (Except DnsError ChallengeCertificate)} (h : (buildChallengeCertificate domain digest).At t q) :
    (∀ e ∈ t, e.call = .selfSign domain digest) ∧
    match q with
    | .await g c _ => c = .selfSign domain digest ∧ g = none
    | .done _ => True := by
  unfold buildChallengeCertificate at h
  split at h
  · obtain ⟨rfl, rfl⟩ := at_done.1 h
    simp
  · rcases at_await.1 h with ⟨rfl, rfl⟩ | ⟨r, t', rfl, h'⟩
    · simp
    · obtain ⟨rfl, rfl⟩ := at_done.1 h'
      simp

/-- What is true of `set_ready_by_url` wherever it stands after the calls `t`: it sets ready the challenge it was
asked for, once at most, and as its last call. -/
def ReadyAt (presented : Guard) (url : Str) (t : Trace) : Act (Except DnsError Unit) → Prop
  | .await g c _ => (c = .nextAuthorization ∨ c = .setReady url) ∧ g = some presented ∧ readyReplies t = []
  | .done res => res = .ok () → readyReplies t = [(url, .ok ())]

theorem ReadyAt.next {presented : Guard} {url : Str} {t : Trace} {q : Act (Except DnsError Unit)}
    (h : ReadyAt presented url t q) (r : Unit) : ReadyAt presented url (⟨.nextAuthorization, r⟩ :: t) q := by
  cases q <;> exact h

theorem setReadyByUrl_at {presented : Guard} {url : Str} : ∀ {pass : Pass} {t : Trace} {q : Act (Except DnsError Unit)},
    (setReadyByUrl presented url pass).At t q →
      (∀ e ∈ t, e.call = .nextAuthorization ∨ e.call = .setReady url) ∧ ReadyAt presented url t q
  | [], t, q, h => by
    rw [setReadyByUrl] at h
    rcases at_await.1 h with ⟨rfl, rfl⟩ | ⟨r, t', rfl, hrest⟩
    · simp [ReadyAt, readyReplies]
    · obtain ⟨rfl, rfl⟩ := at_done.1 hrest
      simp [ReadyAt]
  | .error e :: rest, t, q, h => by
    rw [setReadyByUrl] at h
    rcases at_await.1 h with ⟨rfl, rfl⟩ | ⟨r, t', rfl, hrest⟩
    · simp [ReadyAt, readyReplies]
    · obtain ⟨rfl, rfl⟩ := at_done.1 hrest
      simp [ReadyAt]
  | .ok authz :: rest, t, q, h => by
    rw [setReadyByUrl] at h
    rcases at_await.1 h with ⟨rfl, rfl⟩ | ⟨r, t', rfl, hrest⟩
    · simp [ReadyAt, readyReplies]
    -- an authorization that is passed over adds nothing
    have hnext (hpass : (setReadyByUrl presented url rest).At t' q) :
        (∀ e ∈ (⟨.nextAuthorization, r⟩ :: t' : Trace), e.call = .nextAuthorization ∨ e.call = .setReady url) ∧
          ReadyAt presented url (⟨.nextAuthorization, r⟩ :: t') q := by
      obtain ⟨ht, hq⟩ := setReadyByUrl_at hpass
      exact ⟨List.forall_mem_cons.2 ⟨Or.inl rfl, ht⟩, hq.next r⟩
    cases hchallenge : authz.challenge .tlsAlpn01 with
    | none =>
      rw [hchallenge] at hrest
      exact hnext hrest
    | some challenge =>
      rw [hchallenge] at hrest
      by_cases hurl : challenge.url = url
      · subst hurl
        simp only [if_true] at hrest
        rcases at_await.1 hrest with ⟨rfl, rfl⟩ | ⟨reply, t'', rfl, hend⟩
        · simp [ReadyAt, readyReplies, readyReply]
        · obtain ⟨rfl, rfl⟩ := at_done.1 hend
          refine ⟨by simp, ?_⟩
          cases reply with
          | error e => intro hok; cases hok
          | ok => exact fun _ => rfl
      · simp only [hurl, if_false] at hrest
        exact hnext hrest

theorem stage_of_ready {url : Str} {t : Trace} (h : ∀ e ∈ t, e.call = .nextAuthorization ∨ e.call = .setReady url) :
    ∀ e ∈ t, e.call.stage = .presenting := by
  intro e he
  rcases h e he with hc | hc <;> rw [hc] <;> rfl

theorem presentReplies_of_ready {url : Str} {t : Trace}
    (h : ∀ e ∈ t, e.call = .nextAuthorization ∨ e.call = .setReady url) : presentReplies t = [] := by
  refine presentReplies_eq_nil fun e he => ?_
  rcases h e he with hc | hc <;> rw [hc] <;> rfl

/-! ## The presenting loop -/

/-- The guard with the domains of some calls on top. -/
def guardAfter (presented : Guard) (domains : List Str) : Guard := ⟨presented.pending ++ domains, presented.cleanup⟩

def presentedOk (p : Pending) : Str × Except DnsError Unit := (p.domain, .ok ())
def readyOk (p : Pending) : Str × Except String Unit := (p.url, .ok ())

/-- What is true of the loop wherever it stands after the calls `t`: suspended, its guard holds every domain
`present` was called with, the one in flight included; and a challenge is set ready when all in front of it have
been, and its own domain is presented. -/
def EachAt (pending : List Pending) (presented : Guard) (t : Trace) : Act (Except DnsError Unit × Guard) → Prop
  | .await g c _ => c.stage = .presenting ∧ (∀ g', g = some g' → g' = guardAfter presented (presents t ++ c.presented)) ∧
      ∀ url, c = .setReady url → ∃ before p after, pending = before ++ p :: after ∧ p.url = url ∧
        presentReplies t = (before ++ [p]).map presentedOk ∧ readyReplies t = before.map readyOk
  | .done (res, presented') => presented' = guardAfter presented (presents t) ∧
      (res = .ok () → presentReplies t = pending.map presentedOk ∧ readyReplies t = pending.map readyOk)

/-- One domain more in front, presented and set ready. -/
theorem EachAt.cons {p : Pending} {rest : List Pending} {presented : Guard} {t t' : Trace}
    {q : Act (Except DnsError Unit × Guard)} (hq : EachAt rest (presented.push p.domain) t' q)
    (hpresents : presentReplies t = presentedOk p :: presentReplies t')
    (hreadies : readyReplies t = readyOk p :: readyReplies t') : EachAt (p :: rest) presented t q := by
  have hpush : ∀ domains, guardAfter (presented.push p.domain) domains = guardAfter presented (p.domain :: domains) := by
    intro domains
    simp [guardAfter, CleanupGuard.push]
  cases q with
  | await g c k =>
    obtain ⟨hc, hguard, hurl⟩ := hq
    refine ⟨hc, fun g' hg => ?_, fun url hcall => ?_⟩
    · rw [hguard g' hg, hpush, presents, presents, hpresents]
      rfl
    · obtain ⟨before, p', after, rfl, rfl, hreplies, hready⟩ := hurl url hcall
      refine ⟨p :: before, p', after, rfl, rfl, ?_, ?_⟩
      · rw [hpresents, hreplies]
        rfl
      · rw [hreadies, hready]
        rfl
  | done a =>
    obtain ⟨res, presented'⟩ := a
    obtain ⟨rfl, hall⟩ := hq
    refine ⟨?_, fun hok => ?_⟩
    · rw [hpush, presents, presents, hpresents]
      rfl
    · obtain ⟨hreplies, hready⟩ := hall hok
      rw [hpresents, hreadies, hreplies, hready]
      exact ⟨rfl, rfl⟩

/-- The calls for one domain, up to `present`, in front of those that follow. -/
theorem presentReplies_domain {t₁ : Trace} {p : Pending} (h : ∀ e ∈ t₁, e.call = .selfSign p.domain p.digest)
    (cert : ChallengeCertificate) (r : Except DnsError Unit) (t₃ : Trace) :
    presentReplies (t₁ ++ ⟨.present p.domain cert, r⟩ :: t₃) = (p.domain, r) :: presentReplies t₃ ∧
      readyReplies (t₁ ++ ⟨.present p.domain cert, r⟩ :: t₃) = readyReplies t₃ ∧
      ((∀ e ∈ t₃, e.call.stage = .presenting) →
        ∀ e ∈ t₁ ++ ⟨.present p.domain cert, r⟩ :: t₃, e.call.stage = .presenting) := by
  have hpresent : presentReplies t₁ = [] := presentReplies_eq_nil fun e he => by rw [h e he]; rfl
  have hready : readyReplies t₁ = [] := readyReplies_eq_nil fun e he url => by rw [h e he]; exact Call.noConfusion
  refine ⟨?_, ?_, fun hrest e he => ?_⟩
  · rw [presentReplies_append, hpresent, List.nil_append]
    rfl
  · rw [readyReplies_append, hready, List.nil_append]
    rfl
  · rcases List.mem_append.1 he with he | he
    · rw [h e he]
      rfl
    · rcases List.mem_cons.1 he with rfl | he
      · rfl
      · exact hrest e he

theorem presentEach_at {order : Nat → Pass} : ∀ {i : Nat} {pending : List Pending} {presented : Guard} {t : Trace}
    {q : Act (Except DnsError Unit × Guard)}, (presentEach order i pending presented).At t q →
      (∀ e ∈ t, e.call.stage = .presenting) ∧ EachAt pending presented t q
  | _, [], presented, t, q, h => by
    obtain ⟨rfl, rfl⟩ := at_done.1 h
    simp [EachAt, guardAfter, presents, presentReplies, readyReplies]
  | i, p :: rest, presented, t, q, h => by
    rw [presentEach] at h
    rcases at_bind.1 h with ⟨g, c, k, hbuild, rfl⟩ | ⟨t₁, cert, t₂, hbuild, hcert, rfl⟩
    · obtain ⟨ht, rfl, rfl⟩ := buildChallengeCertificate_at hbuild
      refine ⟨fun e he => by rw [ht e he]; rfl, rfl, ?_, ?_⟩
      · intro g' hg
        cases hg
      · intro url hc
        cases hc
    obtain ⟨hsign, -⟩ := buildChallengeCertificate_at hbuild
    cases cert with
    | error e =>
      obtain ⟨rfl, rfl⟩ := at_done.1 hcert
      have hpresent : presentReplies t₁ = [] := presentReplies_eq_nil fun e he => by rw [hsign e he]; rfl
      rw [List.append_nil]
      refine ⟨fun e he => by rw [hsign e he]; rfl, ?_, ?_⟩
      · simp [guardAfter, presents, hpresent]
      · intro hok
        cases hok
    | ok cert =>
      rcases at_await.1 hcert with ⟨rfl, rfl⟩ | ⟨reply, t₃, rfl, hpresented⟩
      · have hpresent : presentReplies t₁ = [] := presentReplies_eq_nil fun e he => by rw [hsign e he]; rfl
        rw [List.append_nil]
        refine ⟨fun e he => by rw [hsign e he]; rfl, rfl, ?_, ?_⟩
        · rintro g' ⟨⟩
          simp [guardAfter, presents, hpresent, Call.presented, CleanupGuard.push]
        · intro url hc
          cases hc
      obtain ⟨hpresents, hreadies, hstage⟩ := presentReplies_domain hsign cert reply t₃
      cases reply with
      | error e =>
        obtain ⟨rfl, rfl⟩ := at_done.1 hpresented
        refine ⟨hstage (by simp), ?_, ?_⟩
        · rw [presents, hpresents]
          rfl
        · intro hok
          cases hok
      | ok =>
        rcases at_bind.1 hpresented with ⟨g, c, k, hset, rfl⟩ | ⟨t₄, res, t₅, hset, hrest, rfl⟩
        · obtain ⟨hcalls, hc, rfl, hnone⟩ := setReadyByUrl_at hset
          have hquiet := presentReplies_of_ready hcalls
          refine ⟨hstage (stage_of_ready hcalls), ?_, ?_, ?_⟩
          · rcases hc with rfl | rfl <;> rfl
          · rintro g' ⟨⟩
            rw [presents, hpresents, hquiet]
            rcases hc with rfl | rfl <;> rfl
          · rintro url rfl
            obtain hurl : (.setReady url : Call) = .setReady p.url := hc.resolve_left (by simp)
            cases hurl
            refine ⟨[], p, rest, rfl, rfl, ?_, ?_⟩
            · rw [hpresents, hquiet]
              rfl
            · rw [hreadies, hnone]
              rfl
        obtain ⟨hcalls, hdone⟩ := setReadyByUrl_at hset
        have hquiet := presentReplies_of_ready hcalls
        cases res with
        | error e =>
          obtain ⟨rfl, rfl⟩ := at_done.1 hrest
          rw [List.append_nil] at hpresents hstage ⊢
          refine ⟨hstage (stage_of_ready hcalls), ?_, ?_⟩
          · rw [presents, hpresents, hquiet]
            rfl
          · intro hok
            cases hok
        | ok =>
          obtain ⟨hstages, hq⟩ := presentEach_at hrest
          rw [presentReplies_append t₄ t₅, hquiet, List.nil_append] at hpresents
          rw [readyReplies_append t₄ t₅, hdone rfl, List.singleton_append] at hreadies
          refine ⟨hstage fun e he => ?_, hq.cons hpresents hreadies⟩
          rcases List.mem_append.1 he with he | he
          · exact stage_of_ready hcalls e he
          · exact hstages e he

/-! ## The solve up to its outcome -/

/-- The challenge to be set ready is that of a domain that was presented last, with success; every challenge in front
of it was presented and set ready. -/
def Announced (order : Nat → Pass) (t : Trace) (url : Str) : Prop :=
  ∃ pending before p after, collected (order 0) = .ok pending ∧ pending = before ++ p :: after ∧ p.url = url ∧
    presentReplies t = (before ++ [p]).map presentedOk ∧ readyReplies t = before.map readyOk

/-- Every pending challenge was presented and set ready, in order, once. -/
def AllReady (order : Nat → Pass) (t : Trace) : Prop :=
  ∃ pending, collected (order 0) = .ok pending ∧ presentReplies t = pending.map presentedOk ∧
    readyReplies t = pending.map readyOk

def AllAt (order : Nat → Pass) (presented : Guard) (t : Trace) : Act (Except DnsError Unit × Guard) → Prop
  | .await g c _ => c.stage = .presenting ∧ (∀ g', g = some g' → g' = guardAfter presented (presents t ++ c.presented)) ∧
      ∀ url, c = .setReady url → Announced order t url
  | .done (res, presented') => presented' = guardAfter presented (presents t) ∧ (res = .ok () → AllReady order t)

theorem presentAll_at {order : Nat → Pass} {presented : Guard} {t : Trace} {q : Act (Except DnsError Unit × Guard)}
    (h : (presentAll order presented).At t q) :
    (∀ e ∈ t, e.call.stage = .presenting) ∧ AllAt order presented t q := by
  have hquiet : ∀ {t : Trace}, (∀ e ∈ t, e.call = .nextAuthorization) →
      (∀ e ∈ t, e.call.stage = .presenting) ∧ presentReplies t = [] ∧ readyReplies t = [] := by
    intro t hnext
    refine ⟨fun e he => by rw [hnext e he]; rfl, presentReplies_eq_nil fun e he => by rw [hnext e he]; rfl, ?_⟩
    exact readyReplies_eq_nil fun e he url => by rw [hnext e he]; exact Call.noConfusion
  have hsame : guardAfter presented [] = presented := by simp [guardAfter]
  rcases at_bind.1 h with ⟨g, c, k, hcollect, rfl⟩ | ⟨t₁, res, t₂, hcollect, hrest, rfl⟩
  · obtain ⟨hnext, rfl, rfl⟩ := collectPending_at hcollect
    obtain ⟨hstage, hpresent, -⟩ := hquiet hnext
    refine ⟨hstage, rfl, ?_, ?_⟩
    · rintro g' ⟨⟩
      rw [presents, hpresent]
      exact hsame.symm
    · intro url hc
      cases hc
  obtain ⟨hnext, hres⟩ := collectPending_at hcollect
  obtain ⟨hstage, hpresent, hready⟩ := hquiet hnext
  cases hcollected : collected (order 0) with
  | error e =>
    rw [hcollected] at hres
    subst hres
    obtain ⟨rfl, rfl⟩ := at_done.1 hrest
    rw [List.append_nil]
    refine ⟨hstage, ?_, ?_⟩
    · rw [presents, hpresent]
      exact hsame.symm
    · intro hok
      cases hok
  | ok pending =>
    rw [hcollected] at hres
    subst hres
    obtain ⟨hstages, hq⟩ := presentEach_at hrest
    replace hq : EachAt pending presented t₂ q := hq
    have hpresents : presentReplies (t₁ ++ t₂) = presentReplies t₂ := by rw [presentReplies_append, hpresent, List.nil_append]
    have hreadies : readyReplies (t₁ ++ t₂) = readyReplies t₂ := by rw [readyReplies_append, hready, List.nil_append]
    refine ⟨fun e he => ?_, ?_⟩
    · rcases List.mem_append.1 he with he | he
      · exact hstage e he
      · exact hstages e he
    cases q with
    | await g c k =>
      obtain ⟨hc, hguard, hurl⟩ := hq
      refine ⟨hc, fun g' hg => ?_, fun url hcall => ?_⟩
      · rw [presents, hpresents]
        exact hguard g' hg
      · obtain ⟨before, p, after, hpending, hp, hreplies, hreadied⟩ := hurl url hcall
        exact ⟨pending, before, p, after, hcollected, hpending, hp, hpresents.trans hreplies, hreadies.trans hreadied⟩
    | done a =>
      obtain ⟨res, presented'⟩ := a
      obtain ⟨rfl, hall⟩ := hq
      refine ⟨?_, fun hok => ?_⟩
      · rw [presents, presents, hpresents]
      · obtain ⟨hreplies, hreadied⟩ := hall hok
        exact ⟨pending, hcollected, hpresents.trans hreplies, hreadies.trans hreadied⟩

theorem finalizeOrder_at {presented : Guard} {t : Trace} {q : Act (Except DnsError (Str × Str))}
    (h : (finalizeOrder presented).At t q) :
    (∀ e ∈ t, e.call.stage = .finalizing) ∧
    match q with
    | .await g c _ => c.stage = .finalizing ∧ g = some presented
    | .done _ => True := by
  rcases at_await.1 h with ⟨rfl, rfl⟩ | ⟨ready, t₁, rfl, h₁⟩
  · exact ⟨by simp, rfl, rfl⟩
  rw [List.forall_mem_cons]
  cases ready with
  | error e =>
    obtain ⟨rfl, rfl⟩ := at_done.1 h₁
    exact ⟨⟨rfl, by simp⟩, trivial⟩
  | ok status =>
    by_cases hstatus : status = .ready
    · simp only [hstatus, ne_eq, not_true, if_false] at h₁
      rcases at_await.1 h₁ with ⟨rfl, rfl⟩ | ⟨key, t₂, rfl, h₂⟩
      · exact ⟨⟨rfl, by simp⟩, rfl, rfl⟩
      rw [List.forall_mem_cons]
      cases key with
      | error e =>
        obtain ⟨rfl, rfl⟩ := at_done.1 h₂
        exact ⟨⟨rfl, rfl, by simp⟩, trivial⟩
      | ok key =>
        rcases at_await.1 h₂ with ⟨rfl, rfl⟩ | ⟨chain, t₃, rfl, h₃⟩
        · exact ⟨⟨rfl, rfl, by simp⟩, rfl, rfl⟩
        cases chain <;> obtain ⟨rfl, rfl⟩ := at_done.1 h₃ <;> exact ⟨⟨rfl, rfl, by simp [Call.stage]⟩, trivial⟩
    · simp only [ne_eq, hstatus, not_false_eq_true, if_true] at h₁
      obtain ⟨rfl, rfl⟩ := at_done.1 h₁
      exact ⟨⟨rfl, by simp⟩, trivial⟩

namespace TlsAlpn01Solver

variable {s : TlsAlpn01Solver} {order : Nat → Pass}

/-- What is true of the solve before any cleanup, wherever it stands after the calls `t`. -/
def OutcomeAt (s : TlsAlpn01Solver) (order : Nat → Pass) (t : Trace) : Act (Except DnsError (Str × Str) × Guard) → Prop
  | .await g c _ => c.stage ≠ .cleaning ∧ (∀ g', g = some g' → g' = guardAfter s.cleanupGuard (presents t ++ c.presented)) ∧
      (∀ url, c = .setReady url → Announced order t url) ∧ (c.stage = .finalizing → AllReady order t)
  | .done (_, presented) => presented = guardAfter s.cleanupGuard (presents t)

theorem replies_of_finalizing {t : Trace} (h : ∀ e ∈ t, e.call.stage = .finalizing) :
    presentReplies t = [] ∧ readyReplies t = [] := by
  constructor
  · refine presentReplies_eq_nil fun e he => ?_
    have hstage := h e he
    cases hc : e.call <;> first | rfl | (rw [hc] at hstage; cases hstage)
  · refine readyReplies_eq_nil fun e he url hc => ?_
    have hstage := h e he
    rw [hc] at hstage
    cases hstage

theorem outcome_at {t : Trace} {q : Act (Except DnsError (Str × Str) × Guard)} (h : (s.outcome order).At t q) :
    (∀ e ∈ t, e.call.stage ≠ .cleaning) ∧ s.OutcomeAt order t q := by
  rcases at_bind.1 h with ⟨g, c, k, hall, rfl⟩ | ⟨t₁, ⟨res, presented⟩, t', hall, hrest, rfl⟩
  · obtain ⟨hstage, hc, hguard, hurl⟩ := presentAll_at hall
    refine ⟨fun e he => by simp [hstage e he], by simp [hc], hguard, hurl, fun hfinal => ?_⟩
    rw [hc] at hfinal
    cases hfinal
  obtain ⟨hstage, rfl, hready⟩ := presentAll_at hall
  have hstage' : ∀ e ∈ t₁, e.call.stage ≠ .cleaning := fun e he => by simp [hstage e he]
  cases res with
  | error e =>
    obtain ⟨rfl, rfl⟩ := at_done.1 hrest
    rw [List.append_nil]
    exact ⟨hstage', rfl⟩
  | ok =>
    obtain ⟨pending, hcollected, hpresents, hreadies⟩ := hready rfl
    rcases at_bind.1 hrest with ⟨g, c, k, hfinal, rfl⟩ | ⟨t₂, r, t₃, hfinal, hend, rfl⟩
    · obtain ⟨hfinalizing, hc, rfl⟩ := finalizeOrder_at hfinal
      obtain ⟨hpresent, hready⟩ := replies_of_finalizing hfinalizing
      have hnone : c.presented = [] := by cases c <;> first | rfl | cases hc
      refine ⟨fun e he => ?_, by simp [hc], ?_, ?_, ?_⟩
      · rcases List.mem_append.1 he with he | he
        · exact hstage' e he
        · simp [hfinalizing e he]
      · rintro g' ⟨⟩
        rw [hnone, List.append_nil, presents, presents, presentReplies_append, hpresent, List.append_nil]
      · rintro url rfl
        cases hc
      · intro _
        refine ⟨pending, hcollected, ?_, ?_⟩
        · rw [presentReplies_append, hpresent, List.append_nil, hpresents]
        · rw [readyReplies_append, hready, List.append_nil, hreadies]
    · obtain ⟨hfinalizing, -⟩ := finalizeOrder_at hfinal
      obtain ⟨rfl, rfl⟩ := at_done.1 hend
      obtain ⟨hpresent, -⟩ := replies_of_finalizing hfinalizing
      rw [List.append_nil]
      refine ⟨fun e he => ?_, ?_⟩
      · rcases List.mem_append.1 he with he | he
        · exact hstage' e he
        · simp [hfinalizing e he]
      · show guardAfter _ _ = guardAfter _ _
        rw [presents, presents, presentReplies_append, hpresent, List.append_nil]

/-! ## The cleanup path -/

/-- The only suspension point of the closure is the responder's `cleanup` itself. -/
theorem cleanupDomain_reports (s : TlsAlpn01Solver) (domain : Str) :
    CleanupGuard.Reports (.cleanup domain) (fun c => ∃ e, c = .onCleanupError domain e) (s.cleanupDomain domain) := by
  refine ⟨_, rfl, fun r => ?_⟩
  cases r with
  | ok u => exact Or.inl rfl
  | error e =>
    by_cases h : s.onCleanupError = true
    · exact Or.inr ⟨.onCleanupError domain e, .done, ⟨e, rfl⟩, if_pos h, fun _ => rfl⟩
    · exact Or.inl (if_neg h)

theorem cleanupDomain_runs {domain : Str} {t : Trace} (h : (s.cleanupDomain domain).Runs t ()) :
    cleanups t = [domain] ∧ ∀ e ∈ t, e.call.stage = .cleaning := by
  obtain ⟨r, t', rfl, hreports⟩ := (cleanupDomain_reports s domain).runs h
  have hreplies : cleanupReplies t' = [] := by
    refine List.filterMap_eq_nil_iff.2 fun e he => ?_
    obtain ⟨c, reply⟩ := e
    obtain ⟨e', rfl⟩ := hreports _ he
    rfl
  have hcleaned : cleanupReplies (⟨.cleanup domain, r⟩ :: t') = (domain, r) :: cleanupReplies t' := rfl
  refine ⟨by rw [cleanups, hcleaned, hreplies]; rfl, fun e he => ?_⟩
  rcases List.mem_cons.1 he with rfl | he
  · rfl
  · obtain ⟨e', heq⟩ := hreports e he
    rw [heq]
    rfl

theorem cleanupDomain_issues {domain : Str} {t : Trace} {c : Call} (h : (s.cleanupDomain domain).Issues t c) :
    c.stage = .cleaning := by
  rcases (cleanupDomain_reports s domain).issues h with rfl | ⟨e, rfl⟩ <;> rfl

/-- Whatever the responder is going to answer, the closure completes. -/
theorem cleanupDomain_answered (s : TlsAlpn01Solver) (domain : Str) (r : Except DnsError Unit) :
    ∃ t, (s.cleanupDomain domain).Runs t () ∧ cleanupReplies t = [(domain, r)] := by
  cases r with
  | ok u => exact ⟨[⟨.cleanup domain, .ok ()⟩], ⟨.ok (), rfl, rfl⟩, rfl⟩
  | error e =>
    by_cases h : s.onCleanupError = true
    · refine ⟨[⟨.cleanup domain, .error e⟩, ⟨.onCleanupError domain e, ()⟩], ⟨.error e, rfl, ?_⟩, rfl⟩
      simp only [h, if_true]
      exact ⟨(), rfl, rfl⟩
    · refine ⟨[⟨.cleanup domain, .error e⟩], ⟨.error e, rfl, ?_⟩, rfl⟩
      simp only [h, Bool.false_eq_true, if_false]
      rfl

theorem cleans_spec {domains : List Str} {t : Trace} (h : CleanupGuard.Cleans s.cleanupDomain domains t) :
    cleanups t = domains ∧ ∀ e ∈ t, e.call.stage = .cleaning := by
  induction domains generalizing t with
  | nil =>
    obtain rfl : t = [] := h
    exact ⟨rfl, by simp⟩
  | cons domain rest ih =>
    obtain ⟨t₁, t₂, h₁, h₂, rfl⟩ := h
    obtain ⟨hcleaned, hstage⟩ := cleanupDomain_runs h₁
    obtain ⟨hrest, hstages⟩ := ih h₂
    refine ⟨by rw [cleanups_append, hcleaned, hrest, List.singleton_append], fun e he => ?_⟩
    rcases List.mem_append.1 he with he | he
    · exact hstage e he
    · exact hstages e he

theorem cleans_answered (s : TlsAlpn01Solver) (answers : List (Str × Except DnsError Unit)) :
    ∃ t, CleanupGuard.Cleans s.cleanupDomain (answers.map Prod.fst) t ∧ cleanupReplies t = answers := by
  induction answers with
  | nil => exact ⟨[], rfl, rfl⟩
  | cons answer answers ih =>
    obtain ⟨t₁, h₁, hreply⟩ := cleanupDomain_answered s answer.1 answer.2
    obtain ⟨t₂, h₂, hreplies⟩ := ih
    exact ⟨t₁ ++ t₂, ⟨t₁, t₂, h₁, h₂, rfl⟩, by rw [cleanupReplies_append, hreply, hreplies, List.singleton_append]⟩

/-! ## The whole solve -/

/-- What holds of every solve, whatever the order, the responder and the ACME server do. -/
structure TearsDownWhatItPresents (s : TlsAlpn01Solver) (order : Nat → Pass) : Prop where
  /-- A challenge is set ready only when its domain has been presented. -/
  announced : ∀ t url, (s.solveAndFinalize order).Issues t (.setReady url) → Announced order t url
  /-- The order is finalized only when every challenge has been. -/
  finalized : ∀ t c, (s.solveAndFinalize order).Issues t c → c.stage = .finalizing → AllReady order t
  /-- If the challenges cannot be collected, no call but those for the authorizations is made. -/
  untouched : ∀ e, collected (order 0) = .error e → ∀ t q, (s.solveAndFinalize order).At t q →
    ∀ e ∈ t, e.call = .nextAuthorization
  /-- A solve that is not dropped is an outcome, then one cleanup for each `present`, in the same order. -/
  torn_down : ∀ t r, (s.solveAndFinalize order).Runs t r → ∃ t₁ t₂ presented, t = t₁ ++ t₂ ∧
    (s.outcome order).Runs t₁ (r, presented) ∧ (∀ e ∈ t₁, e.call.stage ≠ .cleaning) ∧
    (∀ e ∈ t₂, e.call.stage = .cleaning) ∧ cleanups t₂ = presents t₁
  /-- The result is the outcome's, whatever the cleanups return. -/
  whatever : ∀ t₁ r presented, (s.outcome order).Runs t₁ (r, presented) →
    ∀ answers : List (Str × Except DnsError Unit), answers.map Prod.fst = presents t₁ →
      ∃ t₂, (s.solveAndFinalize order).Runs (t₁ ++ t₂) r ∧ cleanupReplies t₂ = answers
  /-- Dropped while it waits for `c`, the domains it has not torn down, the one in flight included, are in the
  guard, and the spawned task tears down exactly those. -/
  dropped : ∀ t g c, (s.solveAndFinalize order).Stops t g c →
    ∃ pending, presents t ++ c.presented = cleanups t ++ pending ∧
      (∀ t', g.DroppedRuns t' → cleanups t' = pending) ∧
      ∀ answers : List (Str × Except DnsError Unit), answers.map Prod.fst = pending →
        ∃ t', g.DroppedRuns t' ∧ cleanupReplies t' = answers

theorem outcome_of_failed {e : DnsError} (he : collected (order 0) = .error e) {t : Trace}
    {q : Act (Except DnsError (Str × Str) × Guard)} (h : (s.outcome order).At t q) :
    (∀ e ∈ t, e.call = .nextAuthorization) ∧ ∀ r presented, q = .done (r, presented) → presented = s.cleanupGuard := by
  rcases at_bind.1 h with ⟨g, c, k, hall, rfl⟩ | ⟨t₁, ⟨res, presented⟩, t₂, hall, hrest, rfl⟩
  · refine ⟨?_, by simp⟩
    rcases at_bind.1 hall with ⟨g', c', k', hcollect, -⟩ | ⟨t₁, res, t₂, hcollect, hrest, rfl⟩
    · exact (collectPending_at hcollect).1
    · obtain ⟨hnext, hres⟩ := collectPending_at hcollect
      rw [he] at hres
      subst hres
      obtain ⟨-, hdone⟩ := at_done.1 hrest
      cases hdone
  · rcases runs_bind.1 hall with ⟨u₁, res', u₂, hcollect, hdone, rfl⟩
    obtain ⟨hnext, hres⟩ := collectPending_at hcollect
    rw [he] at hres
    subst hres
    obtain ⟨rfl, ⟨⟩⟩ := runs_done.1 hdone
    obtain ⟨rfl, rfl⟩ := at_done.1 hrest
    rw [List.append_nil, List.append_nil]
    refine ⟨hnext, ?_⟩
    rintro r presented ⟨⟩
    rfl

/-- **Presented before announced, and torn down whatever happens.** -/
theorem tearsDownWhatItPresents (s : TlsAlpn01Solver) (order : Nat → Pass) : s.TearsDownWhatItPresents order := by
  constructor
  case announced =>
    intro t url h
    rcases CleanupGuard.guarded_issues h with ⟨g, k, h'⟩ | ⟨t₁, t₂, r, presented, rfl, h₁, domain, -, t', h'⟩
    · exact (outcome_at h').2.2.2.1 url rfl
    · obtain ⟨-, rfl⟩ := outcome_at h₁
      cases cleanupDomain_issues h'
  case finalized =>
    intro t c h hc
    rcases CleanupGuard.guarded_issues h with ⟨g, k, h'⟩ | ⟨t₁, t₂, r, presented, rfl, h₁, domain, -, t', h'⟩
    · exact (outcome_at h').2.2.2.2 hc
    · obtain ⟨-, rfl⟩ := outcome_at h₁
      have hcleaning : c.stage = .cleaning := cleanupDomain_issues h'
      rw [hc] at hcleaning
      cases hcleaning
  case untouched =>
    intro e he t q h
    rcases at_bind.1 h with ⟨g, c, k, hbody, rfl⟩ | ⟨t₁, ⟨r, presented⟩, t₂, hbody, hrest, rfl⟩
    · exact (outcome_of_failed he hbody).1
    · -- the guard is empty, so its `run` makes no call
      obtain ⟨hnext, hguard⟩ := outcome_of_failed he hbody
      obtain rfl := hguard r presented rfl
      obtain ⟨rfl, -⟩ := at_done.1 hrest
      rwa [List.append_nil]
  case torn_down =>
    intro t r h
    obtain ⟨t₁, t₂, presented, rfl, h₁, h₂⟩ := CleanupGuard.guarded_runs.1 h
    obtain ⟨hstage, rfl⟩ := outcome_at h₁
    obtain ⟨hcleaned, hcleaning⟩ := cleans_spec h₂
    exact ⟨t₁, t₂, _, rfl, h₁, hstage, hcleaning, hcleaned⟩
  case whatever =>
    intro t₁ r presented h₁ answers hanswers
    obtain ⟨t₂, h₂, hreplies⟩ := cleans_answered s answers
    obtain ⟨-, rfl⟩ := outcome_at h₁
    rw [hanswers] at h₂
    exact ⟨t₂, CleanupGuard.guarded_runs.2 ⟨t₁, t₂, _, rfl, h₁, h₂⟩, hreplies⟩
  case dropped =>
    intro t g c h
    have hguard : ∃ pending, g = ⟨pending, s.cleanupDomain⟩ ∧ presents t ++ c.presented = cleanups t ++ pending := by
      rcases CleanupGuard.guarded_stops h with ⟨k, h'⟩ |
        ⟨t₁, t₂, t₃, r, presented, cleaned, item, rest, rfl, h₁, hitems, hcl, hstop, rfl⟩
      · obtain ⟨hstage, -, hfull, -⟩ := outcome_at h'
        refine ⟨presents t ++ c.presented, hfull g rfl, ?_⟩
        rw [cleanups_of_not_cleaning hstage, List.nil_append]
      · obtain ⟨hstage, rfl⟩ := outcome_at h₁
        obtain ⟨rfl, rfl⟩ := (cleanupDomain_reports s _).stops hstop
        obtain ⟨hcleaned, hcleaning⟩ := cleans_spec hcl
        replace hitems : presents t₁ = cleaned ++ item :: rest := hitems
        refine ⟨item :: rest, rfl, ?_⟩
        rw [List.append_nil, presents_append, cleanups_append, presents_of_cleaning hcleaning,
          cleanups_of_not_cleaning hstage, hcleaned, List.append_nil, List.nil_append, ← hitems]
        exact List.append_nil _
    obtain ⟨pending, rfl, hpending⟩ := hguard
    refine ⟨pending, hpending, fun t' ht => (cleans_spec (CleanupGuard.droppedRuns_iff.1 ht)).1, ?_⟩
    rintro answers rfl
    obtain ⟨t', ht, hreplies⟩ := cleans_answered s answers
    exact ⟨t', CleanupGuard.droppedRuns_iff.2 ht, hreplies⟩

end TlsAlpn01Solver

end Cheti.TlsAlpn
