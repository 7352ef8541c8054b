import Cheti.Base.Wp
import Cheti.Providers.Rfc2136
/-!
# An update is accepted only on an authenticated answer

`check_response` looks at the response code before the signature, since some errors come unsigned. `Accepts` is what
an acceptance is: a message that answers the request, says `NoError`, and whose bytes the verifier accepts. Nothing
else makes `check_response` return (`checkResponse_ok_iff`). An error that was built from a response code without the
verifier's consent says so, except the three that cannot be verified (`checkResponse_rejected`).

The bytes come from `exchange`, which returns exactly the bytes that the first two announce (`exchange_runs`):
from a stream that ends before them it returns nothing.
-/

namespace Cheti.Rfc2136

open Fut

variable {Name Draft Signer : Type} (crates : Crates Name Draft Signer)

/-! ## The response -/

/-- The message answers the update with this id. -/
structure Message.Answers (m : Message) (requestId : UInt16) : Prop where
  id : m.id = requestId
  messageType : m.messageType = .response
  opCode : m.opCode = .update

/-- An authenticated acceptance. -/
structure Accepts (requestId : UInt16) (bytes : Bytes) (verify : Verifier) (m : Message) : Prop where
  decoded : crates.fromVec bytes = .ok m
  answers : m.Answers requestId
  noError : m.responseCode = .noError
  verified : verify bytes = .ok ()

/-- The errors of which RFC 8945 says that they cannot be verified. -/
def Message.ByDesign (m : Message) : Prop :=
  m.responseCode = .notAuth ∧
    (m.tsigError = some .badKey ∨ m.tsigError = some .badSig ∨ m.tsigError = some .badTime)

theorem Message.unverifiableByDesign_iff {m : Message} : m.unverifiableByDesign = true ↔ m.ByDesign := by
  simp [Message.unverifiableByDesign, Message.ByDesign, or_assoc]

section Response

variable {crates} {requestId : UInt16} {bytes : Bytes} {verify : Verifier} {ns : Nameserver} {m : Message}

theorem checkResponse_malformed {e : String} (h : crates.fromVec bytes = .error e) :
    checkResponse crates requestId bytes verify ns ≠ .ok () := by
  rw [checkResponse, h]
  exact nofun

theorem checkResponse_unexpected (h : crates.fromVec bytes = .ok m) (hm : ¬ m.Answers requestId) :
    checkResponse crates requestId bytes verify ns = .error (unexpectedResponse ns) := by
  rw [checkResponse, h]
  refine if_pos ?_
  by_contra hc
  push Not at hc
  exact hm ⟨hc.1, hc.2.1, hc.2.2⟩

/-- `if header does not match { return Err(..) }` for a message that answers. -/
theorem checkResponse_answers (h : crates.fromVec bytes = .ok m) (hm : m.Answers requestId) :
    checkResponse crates requestId bytes verify ns =
      if m.responseCode ≠ .noError then
        .error (rcodeError crates m.responseCode m.tsigError
          (if m.unverifiableByDesign || (verify bytes).isOk then none
            else if m.signature.isNone then some "unsigned response" else some "TSIG verification failed") ns)
      else
        match verify bytes with
        | .error e => .error (.auth s!"{provider} response from {ns.display} failed TSIG verification: {e}")
        | .ok () => .ok () := by
  rw [checkResponse, h]
  exact if_neg (by simp [hm.id, hm.messageType, hm.opCode])

theorem checkResponse_ok_iff :
    checkResponse crates requestId bytes verify ns = .ok () ↔ ∃ m, Accepts crates requestId bytes verify m := by
  constructor
  · intro hok
    cases hdec : crates.fromVec bytes with
    | error e => exact absurd hok (checkResponse_malformed hdec)
    | ok m =>
      by_cases hm : m.Answers requestId
      · rw [checkResponse_answers hdec hm] at hok
        split at hok
        · cases hok
        · rename_i hcode
          split at hok
          · cases hok
          · rename_i hverify
            exact ⟨m, hdec, hm, not_not.1 hcode, hverify⟩
      · rw [checkResponse_unexpected hdec hm] at hok
        cases hok
  · rintro ⟨m, hdec, hm, hcode, hverify⟩
    rw [checkResponse_answers hdec hm, if_neg (not_not.2 hcode), hverify]

/-- The same error, with the mark at the end of its text. -/
def Marked (reason : String) : DnsError → DnsError → Prop
  | .auth text, e => e = .auth (text ++ s!" ({reason}, not authenticated)")
  | .api text, e => e = .api (text ++ s!" ({reason}, not authenticated)")
  | _, _ => False

theorem rcodeError_marked (rcode : ResponseCode) (tsigError : Option TsigError) (reason : String) (ns : Nameserver) :
    Marked reason (rcodeError crates rcode tsigError none ns) (rcodeError crates rcode tsigError (some reason) ns) := by
  cases rcode <;> simp [rcodeError, unverifiedOf, Marked]

theorem Marked.ne {reason : String} {plain e : DnsError} (h : Marked reason plain e) : e ≠ plain := by
  have hlen : ∀ text : String, text ++ s!" ({reason}, not authenticated)" ≠ text := by
    intro text heq
    have hempty : s!" ({reason}, not authenticated)" = "" := String.append_eq_left_iff.1 heq
    simp only [String.append_eq_empty_iff] at hempty
    exact absurd hempty.2 (show ", not authenticated)" ≠ "" by decide)
  cases plain with
  | auth text =>
    rintro rfl
    exact hlen text (DnsError.auth.inj h).symm
  | api text =>
    rintro rfl
    exact hlen text (DnsError.api.inj h).symm
  | _ => exact h.elim

/-- **An error that the server reports** carries no mark iff it was verified or cannot be. -/
theorem checkResponse_rejected (verify : Verifier) (ns : Nameserver) (h : crates.fromVec bytes = .ok m) (hm : m.Answers requestId)
    (hcode : m.responseCode ≠ .noError) :
    (checkResponse crates requestId bytes verify ns = .error (rcodeError crates m.responseCode m.tsigError none ns) ↔
        verify bytes = .ok () ∨ m.ByDesign) ∧
      (¬ (verify bytes = .ok () ∨ m.ByDesign) → ∃ reason, checkResponse crates requestId bytes verify ns =
        .error (rcodeError crates m.responseCode m.tsigError (some reason) ns)) := by
  have htrusted : (m.unverifiableByDesign || (verify bytes).isOk) = true ↔ verify bytes = .ok () ∨ m.ByDesign := by
    rw [Bool.or_eq_true, Message.unverifiableByDesign_iff, or_comm]
    refine or_congr_left ?_
    cases verify bytes with
    | error e => simp [Except.isOk, Except.toBool]
    | ok u => simp [Except.isOk, Except.toBool]
  rw [checkResponse_answers h hm, if_pos hcode]
  by_cases hc : verify bytes = .ok () ∨ m.ByDesign
  · rw [if_pos (htrusted.2 hc)]
    exact ⟨iff_of_true rfl hc, fun hn => absurd hc hn⟩
  · rw [if_neg (mt htrusted.1 hc)]
    obtain ⟨reason, hreason⟩ : ∃ reason,
        (if m.signature.isNone then some "unsigned response" else some "TSIG verification failed") = some reason := by
      split
      · exact ⟨_, rfl⟩
      · exact ⟨_, rfl⟩
    rw [hreason]
    refine ⟨iff_of_false (fun heq => ?_) hc, fun _ => ⟨reason, rfl⟩⟩
    exact (rcodeError_marked _ _ reason ns).ne (Except.error.inj heq)

end Response

/-! ## The exchange -/

namespace Tcp

/-- The bytes that a call has brought. -/
def bytesOf : Ev Call Reply → Bytes
  | ⟨.read _, .ok bytes⟩ => bytes.val
  | _ => []

def received (t : List (Ev Call Reply)) : Bytes := t.flatMap bytesOf

@[simp] theorem received_nil : received [] = [] := rfl

@[simp] theorem received_cons (e : Ev Call Reply) (t : List (Ev Call Reply)) :
    received (e :: t) = bytesOf e ++ received t := List.flatMap_cons

@[simp] theorem received_append (t u : List (Ev Call Reply)) : received (t ++ u) = received t ++ received u :=
  List.flatMap_append

theorem readExact_zero (filled : Bytes) : readExact 0 filled = .done (.ok filled) := by
  rw [readExact, if_pos rfl]

/-- `read_exact` returns what it has read, and it has read as much as there was room. -/
theorem readExact_runs {room : Nat} : ∀ {filled bytes : Bytes} {t : List (Ev Call Reply)},
    (readExact room filled).Runs t (.ok bytes) → bytes = filled ++ received t ∧ (received t).length = room := by
  induction room using Nat.strong_induction_on with
  | _ room ih =>
    intro filled bytes t h
    rw [readExact] at h
    split at h
    · rename_i hroom
      obtain ⟨rfl, heq⟩ := runs_done.1 h
      rw [← Except.ok.inj heq, hroom]
      exact ⟨(List.append_nil filled).symm, rfl⟩
    · rename_i hroom
      obtain ⟨r, t', rfl, hrest⟩ := runs_await.1 h
      cases r with
      | error e => cases (runs_done.1 hrest).2
      | ok read =>
        obtain ⟨read, hread⟩ := read
        cases read with
        | nil => cases (runs_done.1 hrest).2
        | cons b read =>
          have hle : read.length + 1 ≤ room := hread
          obtain ⟨rfl, hlen⟩ := ih _ (by rw [List.length_cons]; omega) hrest
          have hbytes : received (⟨.read room, .ok ⟨b :: read, hread⟩⟩ :: t') = b :: read ++ received t' :=
            received_cons _ t'
          rw [hbytes, List.append_assoc, List.length_append, hlen, List.length_cons]
          exact ⟨rfl, by omega⟩

theorem received_writeAll {buf : Bytes} {t : List (Ev Call Reply)} {r : Except String Unit}
    (h : (writeAll buf).Runs t r) : received t = [] := by
  induction hn : buf.length using Nat.strong_induction_on generalizing buf t with
  | _ n ih =>
    cases buf with
    | nil =>
      rw [writeAll] at h
      rw [(runs_done.1 h).1]
      rfl
    | cons b buf =>
      rw [writeAll] at h
      obtain ⟨written, t', rfl, hrest⟩ := runs_await.1 h
      have hnone : received t' = [] := by
        cases written with
        | error e =>
          rw [(runs_done.1 hrest).1]
          rfl
        | ok k =>
          cases k with
          | zero =>
            rw [(runs_done.1 hrest).1]
            rfl
          | succ k =>
            refine ih _ ?_ hrest rfl
            rw [← hn, List.length_drop, List.length_cons]
            omega
      rw [received_cons, hnone]
      rfl

/-- What there is room for, in one read. -/
theorem exists_readExact (filled bytes : Bytes) :
    ∃ t, (readExact bytes.length filled).Runs t (.ok (filled ++ bytes)) ∧ received t = bytes := by
  cases bytes with
  | nil =>
    refine ⟨[], ?_, rfl⟩
    rw [List.length_nil, readExact_zero, List.append_nil]
    exact runs_done.2 ⟨rfl, rfl⟩
  | cons b bytes =>
    refine ⟨[⟨.read (b :: bytes).length, .ok ⟨b :: bytes, le_rfl⟩⟩], ?_, List.append_nil _⟩
    rw [readExact, if_neg (by simp)]
    refine runs_await.2 ⟨_, [], rfl, ?_⟩
    show (readExact ((b :: bytes).length - (b :: bytes).length) (filled ++ b :: bytes)).Runs [] _
    rw [Nat.sub_self, readExact_zero]
    exact runs_done.2 ⟨rfl, rfl⟩

theorem exists_writeAll (buf : Bytes) : ∃ t, (writeAll buf).Runs t (.ok ()) := by
  cases buf with
  | nil => exact ⟨[], by rw [writeAll]; exact runs_done.2 ⟨rfl, rfl⟩⟩
  | cons b buf =>
    refine ⟨[⟨.write (b :: buf), .ok (buf.length + 1)⟩], ?_⟩
    rw [writeAll]
    refine runs_await.2 ⟨_, [], rfl, ?_⟩
    show (writeAll (buf.drop buf.length)).Runs [] _
    rw [List.drop_length, writeAll]
    exact runs_done.2 ⟨rfl, rfl⟩

end Tcp

open Tcp

theorem runs_ioError {ns : Nameserver} {α : Type} {io : Io α} {t : List (Ev Tcp.Call Tcp.Reply)} {a : α} :
    (ioError ns io).run.Runs t (.ok a) ↔ io.Runs t (.ok a) := by
  constructor
  · intro h
    obtain ⟨t₁, r, t₂, hio, hdone, rfl⟩ := runs_bind.1 h
    obtain ⟨rfl, heq⟩ := runs_done.1 hdone
    cases r with
    | error e => cases heq
    | ok a' =>
      obtain rfl := Except.ok.inj heq
      rwa [List.append_nil]
  · intro h
    exact runs_bind.2 ⟨t, .ok a, [], h, runs_done.2 ⟨rfl, rfl⟩, (List.append_nil t).symm⟩

/-- The first two bytes of the stream announce the response, which follows. -/
def Announced (stream response : Bytes) : Prop :=
  ∃ hi lo rest, stream = hi :: lo :: (response ++ rest) ∧ response.length = 256 * hi.toNat + lo.toNat

/-- The steps of an exchange that succeeds. -/
theorem exchange_ok_iff {ns : Nameserver} {request response : Bytes} {t : List (Ev Tcp.Call Tcp.Reply)} :
    (exchange ns request).run.Runs t (.ok response) ↔ request.length ≤ 65535 ∧ ∃ t₁ t₂ t₃ length,
      (writeAll (toBeBytes request.length ++ request)).Runs t₁ (.ok ()) ∧ (readExact 2 []).Runs t₂ (.ok length) ∧
        (readExact (fromBeBytes length) []).Runs t₃ (.ok response) ∧
          t = ⟨.connect ns.host ns.port, .ok ()⟩ :: (t₁ ++ (t₂ ++ t₃)) := by
  unfold exchange
  split
  · rename_i hlong
    refine iff_of_false (fun h => ?_) (by omega)
    obtain ⟨_, _, _, hthrow, -⟩ := runs_run_bind_ok.1 h
    cases (runs_done.1 hthrow).2
  · rename_i hlong
    rw [and_iff_right (Nat.not_lt.1 hlong)]
    simp only [runs_run_bind_ok, runs_ioError]
    constructor
    · rintro ⟨t₀, _, _, hconnect, ⟨t₁, _, _, hwrite, ⟨t₂, length, t₃, hlength, hresponse, rfl⟩, rfl⟩, rfl⟩
      obtain ⟨r, t', rfl, hdone⟩ := runs_await.1 hconnect
      obtain ⟨rfl, rfl⟩ := runs_done.1 hdone
      exact ⟨t₁, t₂, t₃, length, hwrite, hlength, hresponse, rfl⟩
    · rintro ⟨t₁, t₂, t₃, length, hwrite, hlength, hresponse, rfl⟩
      have hconnect : (Fut.call (some ()) (Tcp.Call.connect ns.host ns.port) : Io Unit).Runs
          [⟨.connect ns.host ns.port, .ok ()⟩] (.ok ()) := runs_await.2 ⟨.ok (), [], rfl, runs_done.2 ⟨rfl, rfl⟩⟩
      exact ⟨_, (), _, hconnect, ⟨t₁, (), _, hwrite, ⟨t₂, length, t₃, hlength, hresponse, rfl⟩, rfl⟩, rfl⟩

/-- **What the exchange returns** is what was announced. -/
theorem exchange_runs {ns : Nameserver} {request response : Bytes} {t : List (Ev Tcp.Call Tcp.Reply)}
    (h : (exchange ns request).run.Runs t (.ok response)) :
      ∃ hi lo, received t = hi :: lo :: response ∧ response.length = 256 * hi.toNat + lo.toNat := by
  obtain ⟨-, t₁, t₂, t₃, length, hwrite, hlength, hresponse, rfl⟩ := exchange_ok_iff.1 h
  obtain ⟨rfl, htwo⟩ := readExact_runs hlength
  obtain ⟨rfl, hlen⟩ := readExact_runs hresponse
  have hnone : bytesOf (⟨.connect ns.host ns.port, .ok ()⟩ : Ev Tcp.Call Tcp.Reply) = [] := rfl
  obtain ⟨hi, lo, heq⟩ := List.length_eq_two.1 htwo
  refine ⟨hi, lo, ?_, ?_⟩
  · rw [received_cons, received_append, received_append, received_writeAll hwrite, hnone, heq]
    rfl
  · rw [List.nil_append, hlen, heq]
    simp [fromBeBytes]

theorem announced_of_prefix {t : List (Ev Tcp.Call Tcp.Reply)} {stream response : Bytes} {hi lo : UInt8}
    (h : received t = hi :: lo :: response) (hlen : response.length = 256 * hi.toNat + lo.toNat)
    (hstream : received t <+: stream) : Announced stream response := by
  obtain ⟨rest, rfl⟩ := hstream
  exact ⟨hi, lo, rest, by rw [h]; rfl, hlen⟩

/-- **A stream yields a response** iff it is as long as it announces. -/
theorem exchange_yields_iff {ns : Nameserver} {request response stream : Bytes} :
    (∃ t, (exchange ns request).run.Runs t (.ok response) ∧ received t <+: stream) ↔
      request.length ≤ 65535 ∧ Announced stream response := by
  constructor
  · rintro ⟨t, h, hstream⟩
    obtain ⟨hi, lo, hreceived, hlen⟩ := exchange_runs h
    exact ⟨(exchange_ok_iff.1 h).1, announced_of_prefix hreceived hlen hstream⟩
  · rintro ⟨hshort, hi, lo, rest, rfl, hlen⟩
    obtain ⟨t₁, hwrite⟩ := exists_writeAll (toBeBytes request.length ++ request)
    obtain ⟨t₂, hlength, htwo⟩ := exists_readExact [] [hi, lo]
    obtain ⟨t₃, hresponse, hthree⟩ := exists_readExact [] response
    have hfrom : fromBeBytes [hi, lo] = response.length := by
      rw [hlen]
      simp [fromBeBytes]
    rw [← hfrom] at hresponse
    refine ⟨_, exchange_ok_iff.2 ⟨hshort, t₁, t₂, t₃, [hi, lo], hwrite, hlength, hresponse, rfl⟩, rest, ?_⟩
    have hnone : bytesOf (⟨.connect ns.host ns.port, .ok ()⟩ : Ev Tcp.Call Tcp.Reply) = [] := rfl
    rw [received_cons, received_append, received_append, received_writeAll hwrite, hnone, htwo, hthree]
    rfl

/-! ## The update -/

/-- The bytes that a call has brought in time. -/
def deliveredBy : Ev Call Reply → Bytes
  | ⟨.tcp c, some r⟩ => bytesOf ⟨c, r⟩
  | _ => []

def delivered (t : List (Ev Call Reply)) : Bytes := t.flatMap deliveredBy

theorem delivered_append (t u : List (Ev Call Reply)) : delivered (t ++ u) = delivered t ++ delivered u :=
  List.flatMap_append

theorem timeout_runs {α : Type} {p : Fut Unit Tcp.Call Tcp.Reply α} {t : List (Ev Call Reply)} {a : α}
    (h : (timeout p).Runs t (some a)) : ∃ u, p.Runs u a ∧ delivered t = received u := by
  induction p generalizing t with
  | done b =>
    obtain ⟨rfl, heq⟩ := runs_done.1 h
    exact ⟨[], runs_done.2 ⟨rfl, Option.some.inj heq⟩, rfl⟩
  | await g c k ih =>
    rw [timeout] at h
    obtain ⟨r, t', rfl, hrest⟩ := runs_await.1 h
    cases r with
    | none => cases (runs_done.1 hrest).2
    | some r =>
      obtain ⟨u, hu, heq⟩ := ih r hrest
      refine ⟨⟨c, r⟩ :: u, runs_await.2 ⟨r, u, rfl, hu⟩, ?_⟩
      rw [received_cons, ← heq]
      rfl

/-- The answer to the signed message was an authenticated acceptance: the bytes it was read from are all that the
server has sent in time. -/
def Authenticated (message : Draft) (t : List (Ev Call Reply)) : Prop :=
  ∃ signer now request id verifier response m, Provider.signed crates message signer now = .ok (request, id, verifier) ∧
    Announced (delivered t) response ∧ Accepts crates id response verifier m

namespace Provider

variable {crates} {self : Provider Name} {t : List (Ev Call Reply)}

theorem runs_except {α : Type} {x : Except DnsError α} {a : α} : (liftM x : Act α).run.Runs t (.ok a) ↔ t = [] ∧ x = .ok a :=
  runs_done

theorem delivered_unixNow {r : Except DnsError Nat} (h : unixNow.run.Runs t r) : delivered t = [] := by
  obtain ⟨now, t', rfl, hrest⟩ := runs_await.1 h
  cases now with
  | none =>
    rw [(runs_done.1 hrest).1]
    rfl
  | some now =>
    rw [(runs_done.1 hrest).1]
    rfl

theorem sendUpdate_runs {message : Draft} (h : (self.sendUpdate crates message).run.Runs t (.ok ())) :
    Authenticated crates message t := by
  unfold sendUpdate at h
  obtain ⟨_, signer, _, hsigner, hrun₁, rfl⟩ := runs_run_bind_ok.1 h
  obtain ⟨t₂, now, _, hnow, hrun₂, rfl⟩ := runs_run_bind_ok.1 hrun₁
  obtain ⟨_, ⟨request, id, verifier⟩, _, hsigned, hrun₃, rfl⟩ := runs_run_bind_ok.1 hrun₂
  obtain ⟨t₄, response, _, hresponse, hcheck, rfl⟩ := runs_run_bind_ok.1 hrun₃
  obtain ⟨rfl, -⟩ := runs_except.1 hsigner
  obtain ⟨rfl, hrequest⟩ := runs_except.1 hsigned
  obtain ⟨rfl, hok⟩ := runs_except.1 hcheck
  obtain ⟨t₅, r, _, htimeout, hdone, rfl⟩ := runs_bind.1 hresponse
  obtain ⟨rfl, heq⟩ := runs_done.1 hdone
  cases r with
  | none => cases heq
  | some r =>
    obtain rfl : r = .ok response := heq
    obtain ⟨u, hexchange, hdelivered⟩ := timeout_runs htimeout
    obtain ⟨hi, lo, hreceived, hlen⟩ := exchange_runs hexchange
    obtain ⟨m, hm⟩ := checkResponse_ok_iff.1 hok
    refine ⟨signer, now, request, id, verifier, response, m, hrequest, ?_, hm⟩
    simp only [List.nil_append, List.append_nil, delivered_append, delivered_unixNow hnow, hdelivered, hreceived]
    exact ⟨hi, lo, [], by rw [List.append_nil], hlen⟩

theorem delivered_resolveZone {fqdn zone : Str} (h : (self.resolveZone fqdn).run.Runs t (.ok zone)) : delivered t = [] := by
  unfold resolveZone at h
  split at h
  · rw [(runs_done.1 h).1]
    rfl
  · obtain ⟨t₁, found, _, hfind, hrest, rfl⟩ := runs_run_bind_ok.1 h
    obtain ⟨_, _, _, hvalid, hpure, rfl⟩ := runs_run_bind_ok.1 hrest
    obtain ⟨rfl, -⟩ := runs_except.1 hvalid
    obtain ⟨rfl, -⟩ := runs_done.1 hpure
    obtain ⟨r, t', rfl, hdone⟩ := runs_await.1 hfind
    rw [(runs_done.1 hdone).1]
    rfl

theorem delivered_names {fqdn : Str} {names : Name × Name} (h : (self.names crates fqdn).run.Runs t (.ok names)) :
    delivered t = [] := by
  unfold Provider.names at h
  obtain ⟨t₁, zone, _, hzone, hrun₁, rfl⟩ := runs_run_bind_ok.1 h
  obtain ⟨_, zoneName, _, hparse, hrun₂, rfl⟩ := runs_run_bind_ok.1 hrun₁
  obtain ⟨_, name, t₄, hname, hrun₃, rfl⟩ := runs_run_bind_ok.1 hrun₂
  obtain ⟨rfl, -⟩ := runs_except.1 hparse
  obtain ⟨rfl, -⟩ := runs_except.1 hname
  have hrest : t₄ = [] := by
    split at hrun₃
    · obtain ⟨_, _, _, hthrow, -⟩ := runs_run_bind_ok.1 hrun₃
      cases (runs_done.1 hthrow).2
    · exact (runs_done.1 hrun₃).1
  rw [hrest, delivered_append, delivered_resolveZone hzone]
  rfl

/-- Both operations end with the update. -/
theorem update_runs {fqdn : Str} (build : Name × Name → Draft)
    (h : (do self.sendUpdate crates (build (← self.names crates fqdn)) : Act Unit).run.Runs t (.ok ())) :
    ∃ zone name, Authenticated crates (build (zone, name)) t := by
  obtain ⟨t₁, ⟨zone, name⟩, t₂, hnames, hsend, rfl⟩ := runs_run_bind_ok.1 h
  obtain ⟨signer, now, request, id, verifier, response, m, hsigned, hannounced, hm⟩ := sendUpdate_runs hsend
  refine ⟨zone, name, signer, now, request, id, verifier, response, m, hsigned, ?_, hm⟩
  rwa [delivered_append, delivered_names hnames]

theorem present_runs {fqdn value : Str} (h : (self.present crates fqdn value).run.Runs t (.ok ())) :
    ∃ zone name, Authenticated crates (crates.buildPresent zone name value self.config.ttl) t := by
  unfold present at h
  obtain ⟨_, _, _, hfqdn, hrun₁, rfl⟩ := runs_run_bind_ok.1 h
  obtain ⟨_, _, _, hvalue, hrun₂, rfl⟩ := runs_run_bind_ok.1 hrun₁
  obtain ⟨rfl, -⟩ := runs_except.1 hfqdn
  obtain ⟨rfl, -⟩ := runs_except.1 hvalue
  exact update_runs (fun names => crates.buildPresent names.1 names.2 value self.config.ttl) hrun₂

theorem cleanup_runs {fqdn value : Str} (h : (self.cleanup crates fqdn value).run.Runs t (.ok ())) :
    ∃ zone name, Authenticated crates (crates.buildCleanup zone name value) t := by
  unfold cleanup at h
  obtain ⟨_, _, _, hfqdn, hrun₁, rfl⟩ := runs_run_bind_ok.1 h
  obtain ⟨rfl, -⟩ := runs_except.1 hfqdn
  exact update_runs (fun names => crates.buildCleanup names.1 names.2 value) hrun₁

end Provider

/-- **An update is reported as accepted only on an authenticated acceptance.** -/
theorem accepted_only_if_authenticated :
    (∀ requestId bytes verify ns,
      checkResponse crates requestId bytes verify ns = .ok () ↔ ∃ m, Accepts crates requestId bytes verify m) ∧
    (∀ requestId bytes verify ns m, crates.fromVec bytes = .ok m → m.Answers requestId → m.responseCode ≠ .noError →
      (checkResponse crates requestId bytes verify ns = .error (rcodeError crates m.responseCode m.tsigError none ns) ↔
        verify bytes = .ok () ∨ m.ByDesign) ∧
      (¬ (verify bytes = .ok () ∨ m.ByDesign) → ∃ reason e,
        Marked reason (rcodeError crates m.responseCode m.tsigError none ns) e ∧
          checkResponse crates requestId bytes verify ns = .error e)) ∧
    (∀ ns request response stream,
      (∃ t, (exchange ns request).run.Runs t (.ok response) ∧ received t <+: stream) ↔
        request.length ≤ 65535 ∧ Announced stream response) ∧
    ∀ (self : Provider Name) (fqdn value : Str) (t : List (Ev Call Reply)),
      ((self.present crates fqdn value).run.Runs t (.ok ()) →
        ∃ zone name, Authenticated crates (crates.buildPresent zone name value self.config.ttl) t) ∧
      ((self.cleanup crates fqdn value).run.Runs t (.ok ()) →
        ∃ zone name, Authenticated crates (crates.buildCleanup zone name value) t) := by
  refine ⟨fun _ _ _ _ => checkResponse_ok_iff, fun requestId bytes verify ns m hdec hm hcode => ?_,
    fun _ _ _ _ => exchange_yields_iff, fun self fqdn value t => ⟨Provider.present_runs, Provider.cleanup_runs⟩⟩
  obtain ⟨hplain, hmarked⟩ := checkResponse_rejected verify ns hdec hm hcode
  refine ⟨hplain, fun hn => ?_⟩
  obtain ⟨reason, heq⟩ := hmarked hn
  exact ⟨reason, _, rcodeError_marked _ _ reason ns, heq⟩

end Cheti.Rfc2136
