import Cheti.Base.Optimistic
import Cheti.Providers.GoogleCloudDns
import Cheti.Sequence
/-!
# Google Cloud DNS without a common lock

The locks of `KeyedMutex` are those of one process. Between processes, what protects a record set of
Cloud DNS is that a change deletes the set exactly as it was fetched: the record set is a cell that is
updated optimistically (`rrsetCell`), the calls are tasks of `Fut.Optimistic`, and their locks do not
make anyone wait.
-/

namespace Cheti.GoogleCloudDns

open Fut (Env wp Ev)
open Fut.Optimistic
open Backend (Invocation)

/-! ## The record set as a cell -/

/-- A read reports the set that the filter of `fetch_rrset` finds; a change expects what it deletes. -/
def rrsetCell : Cell (Call Req) (Reply Req.Doc) (Option Value) where
  reports
    | ⟨.send (.rrsets _ name), .ok resp⟩ =>
      if resp.status.isSuccess then resp.body.toOption.map (List.find? (isTxtAt name)) else none
    | _ => none
  expects
    | .send (.change _ deletion _) => some deletion
    | _ => none
  commits
    | ⟨.send (.change _ _ _), .ok resp⟩ => resp.status.isSuccess
    | _ => false

/-- Getting a token fails for the transport or the credentials, never with an API error. -/
def TokenReply : (c : Call Req) → Reply Req.Doc c → Prop
  | .accessToken, r => ∀ msg, r ≠ .error (.api msg)
  | _, _ => True

/-- Cloud DNS for processes of their own. -/
def processEnv (zenv : (c : Call Req) → Reply Req.Doc c → Prop) (faulty : Bool) :
    Env (Call Req) (Reply Req.Doc) (Records Value) :=
  fun c r s s' => backend.env zenv faulty c r s s' ∧ TokenReply c r

variable {zenv : (c : Call Req) → Reply Req.Doc c → Prop} {faulty : Bool} {o : Owner} {op : Op} {v : Str}

/-- The calls that are about the record set `o` or about none. -/
def About (o : Owner) : Call Req → Prop
  | .send (.rrsets zone name) => (⟨zone, name, txt⟩ : Owner) = o
  | .send (.change zone deletion addition) => changeOwner zone deletion addition = o
  | _ => True

def valuesOf (x : Option Value) : List Str := (x.map rrdatas).getD []

def PlainSet (o : Owner) (x : Option Value) : Prop := ∀ y, x = some y → Plain o y ∧ rrdatas y ≠ []

/-- What `op v` makes of the set. -/
def Updated (o : Owner) (op : Op) (v : Str) (x y : Option Value) : Prop :=
  PlainSet o y ∧ valuesOf y = op.apply v (valuesOf x)

theorem updated_of_written {s : Records Value} {x : Option Value} (h : backend.Written op v o s x) :
    Updated o op v (s.sets o) x := by
  cases x with
  | none => exact ⟨nofun, h.symm⟩
  | some x =>
    obtain ⟨hvalues, hne, hplain, -⟩ := h
    refine ⟨fun y hy => ?_, ?_⟩
    · cases hy
      exact ⟨hplain, hne⟩
    · simpa [valuesOf, valuesAt_eq] using hvalues

/-- **A change is made if it deletes what is there, and otherwise nothing happens.** -/
theorem env_change {zone : Str} {deletion : Option Value} {addition : Option Rrset}
    {r : Except String (Response Change)} {s s' : Records Value}
    (h : backend.env zenv faulty (.send (.change zone deletion addition)) r s s') :
    (∃ resp x, r = .ok resp ∧ resp.status.isSuccess = true ∧
      s.sets (changeOwner zone deletion addition) = deletion ∧ Stores addition x ∧
      s' = s.put (changeOwner zone deletion addition) x) ∨
    rrsetCell.commits ⟨.send (.change zone deletion addition), r⟩ = false ∧ s'.sets = s.sets := by
  rcases (Backend.env_send (b := backend) rfl).1 h with ⟨resp, rfl, hs⟩ | ⟨-, hfail, rfl⟩
  · rcases hs with ⟨hdel, hsucc, -, x, hx, rfl⟩ | ⟨-, hstatus, rfl⟩
    · exact Or.inl ⟨resp, x, rfl, hsucc, hdel, hx, rfl⟩
    · refine Or.inr ⟨?_, rfl⟩
      show resp.status.isSuccess = false
      rcases hstatus with h | h <;> simp [StatusCode.isSuccess, h]
  · refine Or.inr ⟨?_, rfl⟩
    cases r with
    | error e => rfl
    | ok resp =>
      rcases Backend.failed_ok hfail with ⟨-, hreads, -⟩ | ⟨hsucc, -⟩
      · cases hreads
      · exact hsucc

/-- Nothing but a change has an effect. -/
theorem env_other {c : Call Req} {r : Reply Req.Doc c} {s s' : Records Value} (h : backend.env zenv faulty c r s s') :
    s' = s ∨ ∃ zone deletion addition, c = .send (.change zone deletion addition) := by
  cases c with
  | send q =>
    cases q with
    | zones pageToken => exact Or.inl (Backend.env_neutral (b := backend) (c := .send (.zones pageToken)) rfl h).1
    | change zone deletion addition => exact Or.inr ⟨zone, deletion, addition, rfl⟩
    | rrsets zone name =>
      rcases (Backend.env_send (b := backend) rfl).1 h with ⟨resp, -, hs⟩ | ⟨-, -, hs⟩
      · exact Or.inl hs.1
      · exact Or.inl hs
    | getChange zone id =>
      rcases (Backend.env_send (b := backend) rfl).1 h with ⟨resp, -, hs⟩ | ⟨-, -, hs⟩
      · exact Or.inl hs.1
      · exact Or.inl hs
  | lock l key => exact Or.inl h
  | unlock => exact Or.inl h
  | _ => exact Or.inl (Backend.env_neutral (b := backend) (by exact trivial) h).1

theorem rrsetCell_lawful (o : Owner) : rrsetCell.Lawful (processEnv zenv faulty) (fun s => s.sets o)
    (fun s => Function.update s.sets o none) (PlainSet o) (About o) where
  reports := by
    rintro c r s s' x habout ⟨h, -⟩ hplain hrep
    cases c with
    | send q =>
      cases q with
      | rrsets zone name =>
        obtain rfl : (⟨zone, name, txt⟩ : Owner) = o := habout
        rcases (Backend.env_send (b := backend) rfl).1 h with ⟨resp, rfl, hs⟩ | ⟨-, hfail, -⟩
        · obtain ⟨-, hsucc, rrsets, hbody, hmem, hex⟩ := hs
          simp only [rrsetCell, hsucc, hbody, if_true, Except.toOption, Option.map_some, Option.some.injEq] at hrep
          rw [← hrep]
          exact find_rrset hmem hex fun x hx => (hplain x hx).1.named
        · cases r with
          | error e => cases hrep
          | ok resp =>
            rcases Backend.failed_ok hfail with ⟨-, -, e, he⟩ | ⟨hsucc, -⟩
            · simp [rrsetCell, he, Except.toOption] at hrep
            · simp [rrsetCell, hsucc] at hrep
      | _ => cases hrep
    | _ => cases hrep
  expects := by
    rintro c r s s' habout ⟨h, -⟩ hc
    cases c with
    | send q =>
      cases q with
      | change zone deletion addition =>
        obtain rfl : changeOwner zone deletion addition = o := habout
        rcases env_change h with ⟨resp, x, -, -, hdel, -⟩ | ⟨hnot, -⟩
        · exact congrArg some hdel.symm
        · rw [hnot] at hc
          cases hc
      | _ => cases hc
    | _ => cases hc
  keeps := by
    rintro c r s s' habout ⟨h, -⟩ hc
    rcases env_other h with rfl | ⟨zone, deletion, addition, rfl⟩
    · rfl
    · rcases env_change h with ⟨resp, x, rfl, hsucc, -⟩ | ⟨-, hsets⟩
      · exact absurd (hsucc.symm.trans hc) (by simp)
      · show s'.sets o = s.sets o
        rw [hsets]
  frame := by
    rintro c r s s' habout ⟨h, -⟩
    rcases env_other h with rfl | ⟨zone, deletion, addition, rfl⟩
    · rfl
    · obtain rfl : changeOwner zone deletion addition = o := habout
      rcases env_change h with ⟨resp, x, -, -, -, -, rfl⟩ | ⟨-, hsets⟩
      · simp [Records.put]
      · simp only [hsets]

/-! ## What a call does to the cell -/

/-- The error of a change that was rejected because somebody else has changed the set. -/
def Conflict (e : DnsError) : Prop :=
  ∃ (path : Str) (response : Response Change), (response.status.asU16 = 409 ∨ response.status.asU16 = 412) ∧
    e = checkError "POST" path response

/-- How a call ends: it has made its change, or it found nothing to do, or it failed; not with a conflict if
the change was made. -/
def Ended (op : Op) (v : Str) : Except DnsError Unit → Stage (Option Value) → Prop
  | .ok (), stage => stage = .committed ∨ ∃ x, stage = .saw x ∧ op.apply v (valuesOf x) = valuesOf x
  | .error e, stage => stage = .committed → ¬ Conflict e

/-- The text of an error that a response was the reason for begins with the method. -/
theorem checkError_text {α : Type} {verb : String} {path : Str} {response : Response α} {msg : String}
    (h : checkError verb path response = .api msg) :
    ∃ rest, msg.toList = provider.toList ++ (" ".toList ++ (verb.toList ++ (" ".toList ++ rest))) := by
  unfold checkError apiError intoAuth at h
  split at h
  · cases h
  · split at h
    · cases h
      simp only [String.toList_append, List.append_assoc]
      exact ⟨_, rfl⟩
    · split at h <;>
      · cases h
        simp only [String.toList_append, List.append_assoc]
        exact ⟨_, rfl⟩

theorem conflict_api {e : DnsError} (h : Conflict e) : ∃ msg, e = .api msg := by
  obtain ⟨path, response, hstatus, rfl⟩ := h
  unfold checkError
  rw [if_neg (by omega), if_neg (by omega), if_pos hstatus]
  exact ⟨_, rfl⟩

/-- An error of a GET is not a conflict. -/
theorem not_conflict_get {α : Type} (path : Str) (response : Response α) : ¬ Conflict (checkError "GET" path response) := by
  rintro ⟨path', response', hstatus, he⟩
  obtain ⟨msg, hmsg⟩ := conflict_api ⟨path', response', hstatus, rfl⟩
  obtain ⟨rest, hrest⟩ := checkError_text hmsg
  obtain ⟨rest', hrest'⟩ := checkError_text (he.trans hmsg)
  rw [hrest] at hrest'
  have hverb := List.append_cancel_left (List.append_cancel_left hrest')
  cases hverb

theorem not_conflict_timedOut (change : Change) : ¬ Conflict (pollPolicy.timedOut change) := by
  rintro ⟨path, response, -, he⟩
  obtain ⟨rest, hrest⟩ := checkError_text he.symm
  simp only [String.toList_append, List.append_assoc] at hrest
  cases List.append_cancel_left hrest

section Calls

/-- The calls of a task whose update of the set `o` is `op v`. -/
abbrev OkCall (zenv : (c : Call Req) → Reply Req.Doc c → Prop) (faulty : Bool) (o : Owner) (op : Op) (v : Str) :
    Call Req → Stage (Option Value) → Prop :=
  rrsetCell.Ok (processEnv zenv faulty) (fun s => s.sets o) (PlainSet o) (About o) (Updated o op v)

abbrev stageEnv (zenv : (c : Call Req) → Reply Req.Doc c → Prop) (faulty : Bool) :
    Env (Call Req) (Reply Req.Doc) (Stage (Option Value)) :=
  rrsetCell.stages (processEnv zenv faulty)

variable {stage : Stage (Option Value)}

/-- A call that neither reads nor changes record sets. -/
def Idle : Call Req → Prop
  | .send (.rrsets _ _) | .send (.change _ _ _) => False
  | _ => True

theorem Idle.about {c : Call Req} (h : Idle c) (o : Owner) : About o c ∧ rrsetCell.expects c = none := by
  cases c with
  | send q =>
    cases q with
    | rrsets zone name => exact h.elim
    | change zone deletion addition => exact h.elim
    | _ => exact ⟨trivial, rfl⟩
  | _ => exact ⟨trivial, rfl⟩

theorem Idle.next {c : Call Req} (h : Idle c) (r : Reply Req.Doc c) (stage : Stage (Option Value)) :
    rrsetCell.next stage ⟨c, r⟩ = stage := by
  cases c with
  | send q =>
    cases q with
    | rrsets zone name => exact h.elim
    | change zone deletion addition => exact h.elim
    | _ => exact Cell.next_idle rfl rfl stage
  | _ => exact Cell.next_idle rfl rfl stage

theorem Idle.ok {c : Call Req} (h : Idle c) (stage : Stage (Option Value)) :
    OkCall zenv faulty o op v c stage ∧ ∀ r stage', stageEnv zenv faulty c r stage stage' → stage' = stage := by
  obtain ⟨habout, hexpects⟩ := h.about o
  refine ⟨⟨habout, fun x hx => ?_⟩, fun r stage' hr => ?_⟩
  · rw [hexpects] at hx
    cases hx
  · rw [hr.2, h.next r]

/-- Without a successful response, the task is where it was. -/
theorem next_failed {q : Req} {r : Except String (Response q.Doc)}
    (h : ∀ resp, r = .ok resp → resp.status.isSuccess = false) (stage : Stage (Option Value)) :
    rrsetCell.next stage ⟨.send q, r⟩ = stage := by
  refine Cell.next_idle ?_ ?_ stage
  · cases r with
    | error e => cases q <;> rfl
    | ok resp =>
      cases q with
      | change zone deletion addition => exact h resp rfl
      | _ => rfl
  · cases r with
    | error e => cases q <;> rfl
    | ok resp =>
      cases q with
      | rrsets zone name => simp [rrsetCell, h resp rfl]
      | _ => rfl

theorem wp_exchange_stage (method : Method) (verb : String) (path : Str) {q : Req}
    {Post : Except DnsError q.Doc → Stage (Option Value) → Prop} (hok : OkCall zenv faulty o op v (.send q) stage)
    (hsuccess : ∀ resp, resp.status.isSuccess = true → Post resp.json (rrsetCell.next stage ⟨.send q, .ok resp⟩))
    (hfailure : ∀ resp : Response q.Doc, Post (.error (checkError verb path resp)) stage)
    (herror : ∀ e, (∀ msg, e ≠ .api msg) → Post (.error e) stage) :
    wp (OkCall zenv faulty o op v) (stageEnv zenv faulty) (exchange method verb path q).run Post stage := by
  unfold exchange
  rw [Fut.wp_run_bind]
  have hidle : Idle .accessToken := trivial
  refine ⟨(hidle.ok stage).1, fun token stage₁ h₁ => ?_⟩
  obtain rfl : stage₁ = stage := h₁.2.trans (hidle.next token stage)
  obtain ⟨⟨s, s', -, htoken⟩, -⟩ := h₁
  cases token with
  | error e => exact herror e fun msg he => htoken msg (congrArg Except.error he)
  | ok token =>
    show wp _ _ (sendRetrying method q >>= fun response => settle verb path response).run Post stage₁
    rw [Fut.wp_run_bind]
    refine wp_sendRetrying hok (fun d => Idle.ok (by exact trivial) stage₁)
      (fun resp stage₂ h hr => ?_) fun r stage₂ h => ?_
    · rw [h.2]
      refine next_failed (fun resp' he => ?_) stage₁
      cases he
      by_contra hsucc
      exact StatusCode.not_throttled (by simpa using hsucc) hr
    · cases r with
      | error e =>
        obtain rfl : stage₂ = stage₁ := h.2.trans (next_failed (fun resp he => by cases he) stage₁)
        exact herror _ nofun
      | ok resp =>
        simp only [Except.mapError]
        by_cases hsucc : resp.status.isSuccess = true
        · rw [settle_success verb path hsucc, Fut.wp_run_except, h.2]
          exact hsuccess resp hsucc
        · obtain rfl : stage₂ = stage₁ :=
            h.2.trans (next_failed (fun resp' he => by cases he; simpa using hsucc) stage₁)
          unfold settle
          rw [if_neg hsucc]
          split
          · rw [Fut.wp_run_bind]
            have hforget : Idle .forgetToken := trivial
            refine wp_await_run.2 ⟨(hforget.ok stage₂).1, fun u stage₃ h₃ => ?_⟩
            obtain rfl : stage₃ = stage₂ := h₃.2.trans (hforget.next u stage₂)
            exact hfailure resp
          · exact hfailure resp

/-- A call that has fetched the set knows what is there, as far as Cloud DNS tells. -/
theorem fetchRrset_stage (cfg : GoogleCloudDnsConfig) {zone name : Str} (ho : (⟨zone, name, txt⟩ : Owner) = o) :
    wp (OkCall zenv faulty o op v) (stageEnv zenv faulty) (fetchRrset cfg zone name).run (fun r stage =>
      match r with
      | .ok x => stage = .saw x ∧ ∀ y, x = some y → isTxtAt name y = true
      | .error _ => stage = .fresh) .fresh := by
  unfold fetchRrset
  rw [Fut.wp_run_bind]
  refine wp_exchange_stage _ _ _ ⟨ho, nofun⟩ (fun resp hsucc => ?_) (fun _ => rfl) fun _ _ => rfl
  cases hbody : resp.body with
  | error e => simp [Response.json, hbody, Except.mapError, Cell.next, rrsetCell, hsucc, Except.toOption]
  | ok rrsets =>
    simp only [Response.json, hbody, Except.mapError]
    refine ⟨?_, fun y hy => List.find?_some hy⟩
    simp [Cell.next, rrsetCell, hsucc, hbody, Except.toOption]

/-- A poll is no conflict. -/
theorem fetchChange_stage (cfg : GoogleCloudDnsConfig) (zone : Str) (change : Change) :
    wp (OkCall zenv faulty o op v) (stageEnv zenv faulty) (fetchChange cfg zone change).run
      (fun r stage' => stage' = stage ∧ ∀ e, r = .error e → ¬ Conflict e) stage := by
  have hidle : Idle (.send (.getChange zone change.id)) := trivial
  refine wp_exchange_stage _ _ _ (hidle.ok stage).1 (fun resp _ => ⟨hidle.next _ stage, fun e he hconflict => ?_⟩)
    (fun resp => ⟨rfl, fun e he => ?_⟩) fun e hapi => ⟨rfl, fun e' he hconflict => ?_⟩
  · obtain ⟨msg, rfl⟩ := conflict_api hconflict
    cases hbody : resp.body <;> simp [Response.json, hbody, Except.mapError] at he
  · cases he
    exact not_conflict_get _ resp
  · cases he
    obtain ⟨msg, he⟩ := conflict_api hconflict
    exact hapi msg he

/-- A change that expects what the call has fetched. -/
theorem applyChange_stage (cfg : GoogleCloudDnsConfig) {zone : Str} {deletion : Option Value}
    {addition : Option Rrset} (ho : changeOwner zone deletion addition = o)
    (hwritten : ∀ s x, s.sets o = deletion → backend.PlainAt s o → Stores addition x → backend.Written op v o s x) :
    wp (OkCall zenv faulty o op v) (stageEnv zenv faulty) (applyChange cfg zone deletion addition).run (Ended op v)
      (.saw deletion) := by
  unfold applyChange
  rw [Fut.wp_run_bind]
  refine wp_exchange_stage _ _ _ ⟨ho, fun x hx => ?_⟩ (fun resp hsucc => ?_) (fun _ h => by cases h)
    fun _ _ h => by cases h
  · cases hx
    refine ⟨rfl, fun r s s' hr hs hplain hc => ?_⟩
    rcases env_change hr.1 with ⟨resp, x, -, -, -, hx, rfl⟩ | ⟨hnot, -⟩
    · have hs : s.sets o = deletion := hs
      have hput : (s.put (changeOwner zone deletion addition) x).sets o = x := by
        rw [ho]
        exact Function.update_self ..
      show Updated o op v deletion ((s.put (changeOwner zone deletion addition) x).sets o)
      rw [hput, ← hs]
      exact updated_of_written (hwritten s x hs (fun y hy => hplain y (hs ▸ hy)) hx)
    · rw [hnot] at hc
      cases hc
  · have hnext : rrsetCell.next (.saw deletion) ⟨.send (.change zone deletion addition), .ok resp⟩ = .committed := by
      simp [Cell.next, rrsetCell, hsucc]
    rw [hnext]
    cases hbody : resp.body with
    | error e =>
      simp only [Response.json, hbody, Except.mapError]
      rintro - hconflict
      obtain ⟨msg, he⟩ := conflict_api hconflict
      cases he
    | ok change =>
      simp only [Response.json, hbody, Except.mapError]
      have hnow : Idle .now := trivial
      refine Fut.wp_mono (wp_waitForChange_error (hnow.ok _) (fun d => Idle.ok (by exact trivial) _)
        (fun change => fetchChange_stage cfg zone change) not_conflict_timedOut change) fun r stage' h => ?_
      obtain ⟨rfl, herror⟩ := h
      cases r with
      | ok u => exact Or.inl rfl
      | error e => exact fun _ => herror e rfl

theorem presentLocked_stage (cfg : GoogleCloudDnsConfig) (zone name value : Str) :
    wp (OkCall zenv faulty ⟨zone, name, txt⟩ .present value) (stageEnv zenv faulty)
      (presentLocked cfg zone name value).run (Ended .present value) .fresh := by
  unfold presentLocked
  rw [Fut.wp_run_bind]
  refine Fut.wp_mono (fetchRrset_stage cfg rfl) fun r stage h => ?_
  cases r with
  | error e =>
    obtain rfl : stage = .fresh := h
    exact nofun
  | ok existing =>
    obtain ⟨rfl, -⟩ : stage = .saw existing ∧ _ := h
    simp only
    split
    · rename_i hholds
      exact Or.inr ⟨existing, rfl, present_apply_eq_iff.2 hholds⟩
    · rename_i hnot
      refine applyChange_stage cfg rfl fun s x hs hplain hx => ?_
      subst hs
      exact written_present cfg hplain hnot hx

theorem cleanupLocked_stage (cfg : GoogleCloudDnsConfig) (zone : Str) {name : Str} (hname : lower name = name)
    (value : Str) : wp (OkCall zenv faulty ⟨zone, name, txt⟩ .cleanup value) (stageEnv zenv faulty)
      (cleanupLocked cfg zone name value).run (Ended .cleanup value) .fresh := by
  rw [cleanupLocked_eq, Fut.wp_run_bind]
  refine Fut.wp_mono (fetchRrset_stage cfg rfl) fun r stage h => ?_
  cases r with
  | error e =>
    obtain rfl : stage = .fresh := h
    exact nofun
  | ok existing =>
    obtain ⟨rfl, hnamed⟩ : stage = .saw existing ∧ _ := h
    cases existing with
    | none => exact Or.inr ⟨none, rfl, rfl⟩
    | some existing =>
      simp only
      split
      · rename_i hlen
        refine Or.inr ⟨some existing, rfl, ?_⟩
        exact List.filter_eq_self.2 (List.length_filter_eq_length_iff.1 hlen)
      · refine applyChange_stage cfg (changeOwner_remainder cfg hname (hnamed existing rfl) _) fun s x hs hplain hx => ?_
        exact written_cleanup cfg hplain hs hx

/-- **Every call updates the set optimistically.** -/
theorem updates_prog {c : Invocation backend} {z : Str} (hzone : backend.Resolves zenv false c.cfg c.fqdn z) :
    rrsetCell.Updates (processEnv zenv faulty) (fun s => s.sets (backend.owner z (normalizeName c.fqdn)))
      (PlainSet (backend.owner z (normalizeName c.fqdn))) (About (backend.owner z (normalizeName c.fqdn)))
      (Updated (backend.owner z (normalizeName c.fqdn)) c.op c.value) (Ended c.op c.value) .fresh c.prog := by
  obtain ⟨cfg, op, fqdn, value⟩ := c
  have hneutral : ∀ c stage, backend.Neutral c → OkCall zenv faulty (backend.owner z (normalizeName fqdn)) op value c stage ∧
      ∀ r stage', stageEnv zenv faulty c r stage stage' → stage' = stage ∧ (backend.lookup c = true → zenv c r) := by
    intro c stage hc
    have hidle : Idle c := by
      cases c with
      | send q => cases q <;> trivial
      | _ => trivial
    refine ⟨(hidle.ok stage).1, fun r stage' h => ⟨h.2.trans (hidle.next r stage), ?_⟩⟩
    obtain ⟨⟨s, s', henv, -⟩, -⟩ := h
    exact (Backend.env_neutral hc henv).2.1
  have hlock : ∀ l key stage, OkCall zenv faulty (backend.owner z (normalizeName fqdn)) op value (.lock l key) stage ∧
      ∀ r stage', stageEnv zenv faulty (.lock l key) r stage stage' → stage' = stage :=
    fun l key stage => Idle.ok (by exact trivial) stage
  have hunlock : ∀ stage, OkCall zenv faulty (backend.owner z (normalizeName fqdn)) op value .unlock stage ∧
      ∀ r stage', stageEnv zenv faulty .unlock r stage stage' → stage' = stage :=
    fun stage => Idle.ok (by exact trivial) stage
  have hended : ∀ (op : Op) (e : DnsError), Ended op value (.error e) .fresh := by simp [Ended]
  cases op with
  | present =>
    have heq : (Invocation.prog (b := backend) ⟨cfg, .present, fqdn, value⟩) = (do
        ((do validateFqdn fqdn; validateAcmeValue value : Except DnsError Unit) : M Unit)
        let zone ← resolveZone cfg fqdn
        withLock locks (lockKey zone (absolute fqdn)) (presentLocked cfg zone (absolute fqdn) value) : M Unit).run := by
      simp only [Invocation.prog, Backend.run, present, lift_bind, bind_assoc]
    rw [heq]
    refine Backend.wp_call_idle hzone hneutral hlock hunlock (fun e _ => hended _ e) (fun _ => hended _) fun zone hz => ?_
    obtain rfl : zone = z := hz
    exact presentLocked_stage cfg zone (absolute fqdn) value
  | cleanup =>
    refine Backend.wp_call_idle hzone hneutral hlock hunlock (fun e _ => hended _ e) (fun _ => hended _) fun zone hz => ?_
    obtain rfl : zone = z := hz
    exact cleanupLocked_stage cfg zone (lower_absolute fqdn) value

end Calls

/-! ## Processes -/

section Processes

variable {ι : Type} {calls : ι → Invocation backend}

/-- The set operations of the calls, in the order given. -/
def applyInOrder (calls : ι → Invocation backend) (order : List ι) (values : List Str) : List Str :=
  order.foldl (fun values i => (calls i).op.apply (calls i).value values) values

theorem applied_values {order : List ι} {x y : Option Value}
    (h : Applied (fun i => Updated o (calls i).op (calls i).value) order x y) :
    valuesOf y = applyInOrder calls order (valuesOf x) := by
  induction h with
  | nil => rfl
  | snoc _ hi ih =>
    rw [hi.2, ih, applyInOrder, applyInOrder, List.foldl_append]
    rfl

/-- A value stays until it is cleaned up. -/
theorem mem_applyInOrder {order : List ι} {x : Str} {values : List Str}
    (hnot : ∀ i ∈ order, (calls i).op = .cleanup → (calls i).value ≠ x) (hx : x ∈ contents values) :
    x ∈ contents (applyInOrder calls order values) := by
  induction order generalizing values with
  | nil => exact hx
  | cons i order ih =>
    refine ih (fun j hj => hnot j (by simp [hj])) ?_
    have hi := hnot i (by simp)
    show x ∈ contents ((calls i).op.apply (calls i).value values)
    cases hop : (calls i).op with
    | present => exact mem_contents_present.2 (Or.inl hx)
    | cleanup => exact mem_contents_cleanup.2 ⟨hx, (hi hop).symm⟩

theorem mem_of_present {o₁ o₂ : List ι} {i : ι} {values : List Str} (hop : (calls i).op = .present)
    (hlater : ∀ j ∈ o₂, (calls j).op = .cleanup → (calls j).value ≠ (calls i).value) :
    (calls i).value ∈ contents (applyInOrder calls (o₁ ++ i :: o₂) values) := by
  rw [applyInOrder, List.foldl_append, List.foldl_cons, hop]
  exact mem_applyInOrder hlater (mem_contents_present.2 (Or.inr rfl))

/-- **Calls of processes that share no lock are linearizable.** Any number of calls on spellings of one name
run interleaved, none waiting for another. At every moment the set holds what the operations of the calls
whose changes were accepted make of it, in the order of acceptance, each call counted once, and nothing else
has changed. A call that ended in a conflict is not among them. So a value that was added stays unless a
cleanup of it was accepted later, and a call that returned `Ok` without a change has seen the value there, or
not there, as it wanted. -/
theorem linearizable [DecidableEq ι] {z n : Str} (hname : ∀ i, normalizeName (calls i).fqdn = n)
    (hzone : ∀ i, backend.Resolves zenv false (calls i).cfg (calls i).fqdn z)
    {s₀ : Records Value} (hs₀ : backend.PlainAt s₀ (backend.owner z n))
    {w : List (ι × Ev (Call Req) (Reply Req.Doc))} {m : Config ι Unit (Call Req) (Reply Req.Doc) (Except DnsError Unit) (Records Value)}
    (h : Steps (processEnv zenv faulty) ⟨s₀, fun i => (calls i).prog⟩ w m) :
    (rrsetCell.order w).Nodup ∧
    backend.valuesAt m.store (backend.owner z n) =
      applyInOrder calls (rrsetCell.order w) (backend.valuesAt s₀ (backend.owner z n)) ∧
    (∀ o, o ≠ backend.owner z n → m.store.sets o = s₀.sets o) ∧
    (∀ i e, m.prog i = .done (.error e) → Conflict e → i ∉ rrsetCell.order w) ∧
    (∀ i o₁ o₂, rrsetCell.order w = o₁ ++ i :: o₂ → (calls i).op = .present →
      (∀ j ∈ o₂, (calls j).op = .cleanup → (calls j).value ≠ (calls i).value) →
        (calls i).value ∈ contents (backend.valuesAt m.store (backend.owner z n))) ∧
    ∀ i, m.prog i = .done (.ok ()) → i ∉ rrsetCell.order w → ∃ w₁ e w₂ m₁, w = w₁ ++ (i, e) :: w₂ ∧
      Steps (processEnv zenv faulty) ⟨s₀, fun i => (calls i).prog⟩ w₁ m₁ ∧
      ((calls i).op = .present → (calls i).value ∈ contents (backend.valuesAt m₁.store (backend.owner z n))) ∧
      ((calls i).op = .cleanup → (calls i).value ∉ contents (backend.valuesAt m₁.store (backend.owner z n))) := by
  have hprog : ∀ i, rrsetCell.Updates (processEnv zenv faulty) (fun s => s.sets (backend.owner z n))
      (PlainSet (backend.owner z n)) (About (backend.owner z n))
      (Updated (backend.owner z n) (calls i).op (calls i).value) (Ended (calls i).op (calls i).value) .fresh
      (calls i).prog := by
    intro i
    rw [← hname i]
    exact updates_prog (hzone i)
  obtain ⟨stage, hinv⟩ := h.inv (fun _ _ _ _ hT => hT.1) (rrsetCell_lawful (backend.owner z n)) hs₀ hprog
  have hvalues := applied_values hinv.applied
  have hended : ∀ i r, m.prog i = .done r → Ended (calls i).op (calls i).value r (stage i) := by
    intro i r hr
    have hupdates := hinv.updates i
    rw [hr] at hupdates
    exact hupdates
  refine ⟨hinv.nodup, hvalues, fun o ho => ?_, fun i e hi hconflict hmem => ?_, fun i o₁ o₂ ho hop hlater => ?_,
    fun i hi hnot => ?_⟩
  · have hframe := congrFun hinv.frame o
    simpa [ho] using hframe
  · exact hended i _ hi ((hinv.committed i).2 hmem) hconflict
  · rw [ho] at hvalues
    have hmem : (calls i).value ∈ contents (valuesOf (m.store.sets (backend.owner z n))) :=
      hvalues ▸ mem_of_present hop hlater
    exact hmem
  · rcases hended i _ hi with hcommitted | ⟨x, hsaw, hsame⟩
    · exact absurd ((hinv.committed i).1 hcommitted) hnot
    · obtain ⟨w₁, e, w₂, m₁, hw, hsteps, -, hx⟩ := hinv.saw i x hsaw
      have hat : backend.valuesAt m₁.store (backend.owner z n) = valuesOf x := by
        rw [← hx]
        rfl
      refine ⟨w₁, e, w₂, m₁, hw, hsteps, fun hop => ?_, fun hop => ?_⟩ <;> rw [hat]
      · rw [hop] at hsame
        exact holds_iff.1 (present_apply_eq_iff.1 hsame)
      · rw [hop] at hsame
        rw [← holds_iff, cleanup_apply_eq_iff.1 hsame]
        simp

/-- A process that presents `x` and one that presents `y`, for one name and with the zone `a.org`. -/
def twoProcesses : Fin 2 → Invocation backend
  | 0 => ⟨⟨"project".toList, some "a.org".toList, 60⟩, .present, "_acme-challenge.a.org".toList, "x".toList⟩
  | 1 => ⟨⟨"project".toList, some "a.org".toList, 300⟩, .present, "_ACME-challenge.A.org.".toList, "y".toList⟩

theorem processEnv_of_env {c : Call Req} {r : Reply Req.Doc c} {s s' : Records Value}
    (h : backend.env zenv false c r s s') : processEnv zenv false c r s s' := by
  refine ⟨h, ?_⟩
  cases c with
  | accessToken =>
    obtain ⟨token, rfl⟩ := h.1 rfl
    exact nofun
  | _ => trivial

/-- What comes from an empty set was presented. -/
theorem exists_of_mem_applyInOrder {order : List ι} {x : Str} {values : List Str}
    (hx : x ∈ contents (applyInOrder calls order values)) : x ∈ contents values ∨ ∃ i ∈ order, (calls i).value = x := by
  induction order generalizing values with
  | nil => exact Or.inl hx
  | cons i order ih =>
    rcases ih hx with h | ⟨j, hj, hvalue⟩
    · beta_reduce at h
      cases hop : (calls i).op with
      | present =>
        rw [hop] at h
        exact (mem_contents_present.1 h).imp_right fun h => ⟨i, List.mem_cons_self, h.symm⟩
      | cleanup =>
        rw [hop] at h
        exact Or.inl (mem_contents_cleanup.1 h).1
    · exact Or.inr ⟨j, List.mem_cons_of_mem _ hj, hvalue⟩

theorem twoProcesses_accepted (i : Fin 2) : Backend.Accepted (fun _ _ => True) "a.org".toList (twoProcesses i) := by
  have hfqdn : ∀ i, validateFqdn (twoProcesses i).fqdn = .ok () := by decide
  have hvalue : ∀ i, validateAcmeValue (twoProcesses i).value = .ok () := by decide
  refine ⟨by fin_cases i <;> rfl, ?_⟩
  rintro (hf | ⟨-, hv⟩ | ⟨e, he⟩)
  · exact hf (hfqdn i)
  · exact hv (hvalue i)
  · cases he

/-- The first call of a process is for its lock. -/
theorem twoProcesses_prog : ∃ k, (twoProcesses 1).prog =
    .await (some ()) (.lock locks (lockKey "a.org".toList (absolute (twoProcesses 1).fqdn))) k := by
  have hfqdn : validateFqdn (twoProcesses 1).fqdn = .ok () := by decide
  have hvalue : validateAcmeValue (twoProcesses 1).value = .ok () := by decide
  have hzone : resolveZone (twoProcesses 1).cfg (twoProcesses 1).fqdn = liftM (.ok "a.org".toList : Except DnsError Str) := rfl
  have hprog : (twoProcesses 1).prog = (present (twoProcesses 1).cfg (twoProcesses 1).fqdn (twoProcesses 1).value).run := rfl
  rw [hprog, present, hfqdn, lift_ok_bind, hvalue, lift_ok_bind, hzone, lift_ok_bind]
  exact ⟨_, rfl⟩

/-- The second process begins before the first one, and goes on when that has ended. -/
theorem linearizable_two : ∃ e w m,
    Steps (processEnv (fun _ _ => True) false) ⟨⟨fun _ => none, 0⟩, fun i => (twoProcesses i).prog⟩ ((1, e) :: w) m ∧
    ∀ i, (∃ r, m.prog i = .done r) ∧ i ∈ rrsetCell.order ((1, e) :: w) ∧ (twoProcesses i).value ∈
      contents (backend.valuesAt m.store (backend.owner "a.org".toList "_acme-challenge.a.org".toList)) := by
  have hrun := fun (i : Fin 2) (s : Records Value) => sound.exists_run backend.lookup_answered false (twoProcesses i).cfg
    (twoProcesses i).op (twoProcesses i).fqdn (twoProcesses i).value s
  have hname : ∀ i, normalizeName (twoProcesses i).fqdn = "_acme-challenge.a.org".toList := by decide
  let s₀ : Records Value := ⟨fun _ => none, 0⟩
  have hwf₀ : backend.WF s₀ := fun _ _ _ hx => by cases hx
  obtain ⟨t₀, r₀, s₁, hrun₀, hchain₀⟩ := hrun 0 s₀
  obtain ⟨t₁, r₁, s₂, hrun₁, hchain₁⟩ := hrun 1 s₁
  -- what they do to the set, one after the other
  have hdid₀ := (twoProcesses_accepted 0).did sound hwf₀ ⟨t₀, r₀, hrun₀, hchain₀⟩
  have hdid₁ := (twoProcesses_accepted 1).did sound (hdid₀.effect.wf hwf₀) ⟨t₁, r₁, hrun₁, hchain₁⟩
  have hvalues₀ := hdid₀.values sound fun _ _ => rfl
  have hvalues₁ := hdid₁.values sound fun _ _ => rfl
  simp only [Backend.Invocation.owner, hname] at hvalues₀ hvalues₁
  have hthere : ∀ i, (twoProcesses i).value ∈
      contents (backend.valuesAt s₂ (backend.owner "a.org".toList "_acme-challenge.a.org".toList)) := by
    intro i
    rw [hvalues₁]
    fin_cases i
    · exact mem_contents_present.2 (Or.inl (hvalues₀ ▸ mem_contents_present.2 (Or.inr rfl)))
    · exact mem_contents_present.2 (Or.inr rfl)
  -- the lock changes nothing, so it may come first
  obtain ⟨k, hk⟩ := twoProcesses_prog
  have hrun₁' : (twoProcesses 1).prog.Runs t₁ r₁ := hrun₁
  rw [hk] at hrun₁'
  obtain ⟨⟨⟩, t, rfl, hrest⟩ := Fut.runs_await.1 hrun₁'
  obtain ⟨m, hm, hchain⟩ := hchain₁
  obtain rfl : m = s₁ := hm
  have hstart : Steps (processEnv (fun _ _ => True) false) ⟨s₀, fun i => (twoProcesses i).prog⟩ [] _ := .nil
  have hfree : processEnv (fun _ _ => True) false
      (.lock locks (lockKey "a.org".toList (absolute (twoProcesses 1).fqdn))) () s₀ s₀ := ⟨rfl, trivial⟩
  have hlock := hstart.snoc (.call (i := 1) hk hfree)
  have hsteps₀ := hlock.runs (i := 0) hrun₀ (hchain₀.mono fun _ _ _ _ => processEnv_of_env)
  have hsteps₁ := hsteps₀.runs (i := 1) hrest (hchain.mono fun _ _ _ _ => processEnv_of_env)
  have hzone : ∀ i, backend.Resolves (fun _ _ => True) false (twoProcesses i).cfg (twoProcesses i).fqdn "a.org".toList := by
    intro i
    fin_cases i <;> rfl
  obtain ⟨-, hvalues, -⟩ := linearizable hname hzone (hwf₀ _ (sound.owner_txt ..)) hsteps₁
  refine ⟨_, _, _, hsteps₁, fun i => ⟨?_, ?_, hthere i⟩⟩
  · fin_cases i
    · exact ⟨r₀, rfl⟩
    · exact ⟨r₁, rfl⟩
  · have hmem := hthere i
    rw [hvalues] at hmem
    obtain hnil | ⟨j, hj, hvalue⟩ := exists_of_mem_applyInOrder hmem
    · cases hnil
    · have hinj : ∀ i j, (twoProcesses j).value = (twoProcesses i).value → j = i := by decide
      obtain rfl := hinj i j hvalue
      exact hj

end Processes

end Cheti.GoogleCloudDns
