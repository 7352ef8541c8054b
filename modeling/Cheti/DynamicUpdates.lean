import Cheti.Base.Tasks
import Cheti.Labels
import Cheti.RecordSet
import Cheti.SignedUpdates
/-!
# What dynamic updates do to a zone (RFC 2136)

| here | there |
| --- | --- |
| `txtRrset`, `buildPresentMessage`, `buildCleanupMessage` | `txt_rrset`, `build_present_message`, `build_cleanup_message` (rfc2136.rs:240-258) |
| `append`, `deleteByRdata`   | `hickory_proto::op::update_message`: no prerequisites; a deletion is of class NONE with TTL 0 |
| `UpdateRecord.apply`        | a server (RFC 2136, 3.4.2): a record is added, or its TTL replaced, unless the name is an alias; or it is deleted |
| `Link`, `CallStep`          | one exchange: the bytes that have arrived at each end |

A `present` or `cleanup` sends one message over its own connection. The server carries out a message when all of it
has arrived, at any time after that, and answers. Bytes may be lost, connections may break, the client may give up or
be dropped. What is assumed of TSIG is `Genuine`: an answer that the client's verifier accepts, and that says
`NoError`, was made by the server after it had carried out the message.

There may be any number of clients, in any order of their steps and without any lock. The zone is always what the
messages make of it one after the other, and a call that returned `Ok` has its message among them.
-/

namespace Cheti.Rfc2136

open Fut

variable {Name Draft Signer : Type}

/-! ## Messages -/

inductive DnsClass where
  | internet
  | none
deriving DecidableEq, Repr

/-- A TXT record of the update section. -/
structure UpdateRecord (Name : Type) where
  name : Name
  dnsClass : DnsClass
  ttl : UInt32
  strings : List Str
deriving DecidableEq

/-- The zone section names the zone. -/
structure UpdateMessage (Name : Type) where
  zone : Name
  updates : List (UpdateRecord Name)
deriving DecidableEq

def txtRrset (fqdn : Name) (value : Str) (ttl : UInt32) : List (UpdateRecord Name) := [⟨fqdn, .internet, ttl, [value]⟩]

def append (rrset : List (UpdateRecord Name)) (zone : Name) : UpdateMessage Name := ⟨zone, rrset⟩

def deleteByRdata (rrset : List (UpdateRecord Name)) (zone : Name) : UpdateMessage Name :=
  ⟨zone, rrset.map fun r => { r with dnsClass := .none, ttl := 0 }⟩

def buildPresentMessage (zone fqdn : Name) (value : Str) (ttl : UInt32) : UpdateMessage Name :=
  append (txtRrset fqdn value ttl) zone

def buildCleanupMessage (zone fqdn : Name) (value : Str) : UpdateMessage Name :=
  deleteByRdata (txtRrset fqdn value 0) zone

/-! ## Zones -/

inductive Rdata where
  | txt (strings : List Str)
  | cname (target : Str)
  | other (rtype : UInt16) (bytes : Bytes)
deriving DecidableEq

structure ZoneRecord where
  name : Str
  rdata : Rdata
  ttl : UInt32
deriving DecidableEq

abbrev Zone := List ZoneRecord

def ZoneRecord.isCname (r : ZoneRecord) : Bool :=
  match r.rdata with
  | .cname _ => true
  | _ => false

def Zone.hasCname (zone : Zone) (name : Str) : Bool := zone.any fun r => r.name = name ∧ r.isCname

/-- The record with this data at this name, with whatever TTL. -/
def ZoneRecord.is (name : Str) (strings : List Str) (r : ZoneRecord) : Bool := r.name = name ∧ r.rdata = .txt strings

def Zone.add (zone : Zone) (name : Str) (strings : List Str) (ttl : UInt32) : Zone :=
  if zone.hasCname name then zone else zone.filter (!ZoneRecord.is name strings ·) ++ [⟨name, .txt strings, ttl⟩]

def Zone.delete (zone : Zone) (name : Str) (strings : List Str) : Zone := zone.filter (!ZoneRecord.is name strings ·)

/-- `text` is a name as it is compared. -/
def UpdateRecord.apply (text : Name → Str) (zone : Zone) (r : UpdateRecord Name) : Zone :=
  match r.dnsClass with
  | .internet => zone.add (text r.name) r.strings r.ttl
  | .none => zone.delete (text r.name) r.strings

def UpdateMessage.apply (text : Name → Str) (m : UpdateMessage Name) (zone : Zone) : Zone :=
  m.updates.foldl (UpdateRecord.apply text) zone

/-- What a call makes of a zone, if it gets there. -/
def edit (op : Op) (name value : Str) (ttl : UInt32) (zone : Zone) : Zone :=
  match op with
  | .present => zone.add name [value] ttl
  | .cleanup => zone.delete name [value]

section Edits

variable {zone : Zone} {name value : Str} {ttl : UInt32} {op : Op} {r : ZoneRecord}

/-- A TXT record with this value is there. -/
def Zone.Holds (zone : Zone) (name value : Str) : Prop := ∃ r ∈ zone, r.is name [value] = true

end Edits

/-! ## The crates -/

/-- What is known of the crates, and how the server reads a request. -/
structure Hickory (crates : Crates Name Draft Signer) where
  /-- A name without its last dot, in lower case. -/
  text : Name → Str
  content : Draft → UpdateMessage Name
  decode : Bytes → Option (UpdateMessage Name)
  /-- Of valid names only: other texts may have escapes, which `Name::from_ascii` reads. -/
  text_fromAscii : ∀ {raw name}, validateFqdn raw = .ok () → crates.fromAscii raw = .ok name → text name = normalizeName raw
  content_present : ∀ zone fqdn value ttl,
    content (crates.buildPresent zone fqdn value ttl) = buildPresentMessage zone fqdn value ttl
  content_cleanup : ∀ zone fqdn value, content (crates.buildCleanup zone fqdn value) = buildCleanupMessage zone fqdn value
  content_finalize : ∀ {d signer now d' verifier}, crates.finalize d signer now = .ok (d', verifier) → content d' = content d
  decode_toVec : ∀ {d bytes}, crates.toVec d = .ok bytes → decode bytes = some (content d)

/-! ## One exchange -/

/-- A message on a stream is preceded by its length. -/
def frame (message : Bytes) : Bytes := Tcp.toBeBytes message.length ++ message

/-- The first message of a stream, if all of it is there. -/
def unframe : Bytes → Option Bytes
  | hi :: lo :: rest =>
    let length := Tcp.fromBeBytes [hi, lo]
    if length ≤ rest.length then some (rest.take length) else none
  | _ => none

structure Link where
  /-- What has arrived at the server. -/
  sent : Bytes
  /-- What the client has read. -/
  received : Bytes
  /-- The server has carried out the message. -/
  done : Bool

/-- A connection on which nothing has been sent. -/
def Link.new : Link := ⟨[], [], false⟩

section Exchange

variable {crates : Crates Name Draft Signer} (hickory : Hickory crates)

variable (crates) in
/-- An acceptance of the message on the link comes from the server, after it has carried it out. -/
def Genuine (l : Link) : Prop :=
  ∀ d signer now d' verifier request response m, crates.finalize d signer now = .ok (d', some verifier) →
    crates.toVec d' = .ok request → unframe l.sent = some request → unframe l.received = some response →
    Accepts crates (crates.id d') response verifier m → l.done = true

/-- The server carries out what has arrived. -/
inductive Serves : Link → UpdateMessage Name → Link → Prop where
  | mk {l : Link} {request : Bytes} {m : UpdateMessage Name} (hdone : l.done = false)
      (hsent : unframe l.sent = some request) (hdecode : hickory.decode request = some m) :
      Serves l m { l with done := true }

/-- What a call to the connection does that was given up: some of the bytes may have got through. -/
inductive Cut : Tcp.Call → Link → Link → Prop where
  | connect {host : Str} {port : UInt16} {l : Link} : Cut (.connect host port) l ⟨[], [], l.done⟩
  | write {buf : Bytes} {l : Link} (n : Nat) : Cut (.write buf) l { l with sent := l.sent ++ buf.take n }
  | read {room : Nat} {l : Link} : Cut (.read room) l l

/-- What a call to the connection does. -/
inductive TcpStep : (c : Tcp.Call) → Tcp.Reply c → Link → Link → Prop where
  | connect {host : Str} {port : UInt16} {r : Except String Unit} {l : Link} :
      TcpStep (.connect host port) r l ⟨[], [], l.done⟩
  | write {buf : Bytes} {n : Nat} {l : Link} (hn : n ≤ buf.length) :
      TcpStep (.write buf) (.ok n) l { l with sent := l.sent ++ buf.take n }
  | writeError {buf : Bytes} {e : String} {l : Link} (n : Nat) :
      TcpStep (.write buf) (.error e) l { l with sent := l.sent ++ buf.take n }
  | read {room : Nat} {bytes : { bytes : Bytes // bytes.length ≤ room }} {l : Link} :
      TcpStep (.read room) (.ok bytes) l { l with received := l.received ++ bytes.val }
  | readError {room : Nat} {e : String} {l : Link} : TcpStep (.read room) (.error e) l l

variable (crates) in
/-- What a call of a client does to its link. -/
inductive CallStep : (c : Call) → Reply c → Link → Link → Prop where
  | unixNow {r : Option Nat} {l : Link} : CallStep .unixNow r l l
  | findZone {fqdn : Str} {r : Except DnsError Str} {l : Link} : CallStep (.findZone fqdn) r l l
  | tcp {c : Tcp.Call} {r : Tcp.Reply c} {l l' : Link} (h : TcpStep c r l l') (hl' : Genuine crates l') :
      CallStep (.tcp c) (some r) l l'
  | timeout {c : Tcp.Call} {l l' : Link} (h : Cut c l l') : CallStep (.tcp c) none l l'

/-! ## What arrives -/

theorem fromBeBytes_toBeBytes {n : Nat} (h : n ≤ 65535) : Tcp.fromBeBytes (Tcp.toBeBytes n) = n := by
  have hhi : n / 256 < 256 := by omega
  have hlo : n % 256 < 256 := by omega
  simp only [Tcp.fromBeBytes, Tcp.toBeBytes, List.foldl_cons, List.foldl_nil, UInt8.toNat_ofNat', Nat.mod_eq_of_lt hhi,
    Nat.mod_eq_of_lt hlo]
  omega

theorem unframe_frame {message : Bytes} (h : message.length ≤ 65535) : unframe (frame message) = some message := by
  have hlen : Tcp.fromBeBytes [UInt8.ofNat (message.length / 256), UInt8.ofNat (message.length % 256)] = message.length :=
    fromBeBytes_toBeBytes h
  simp [frame, unframe, Tcp.toBeBytes, hlen]

/-- What has arrived of a message is that message, or not all of it. -/
theorem unframe_of_prefix {message sent request : Bytes} (h : message.length ≤ 65535) (hsent : sent <+: frame message)
    (hreq : unframe sent = some request) : request = message := by
  have hlen : Tcp.fromBeBytes [UInt8.ofNat (message.length / 256), UInt8.ofNat (message.length % 256)] = message.length :=
    fromBeBytes_toBeBytes h
  obtain ⟨later, hlater⟩ := hsent
  cases sent with
  | nil => cases hreq
  | cons hi sent =>
    cases sent with
    | nil => cases hreq
    | cons lo rest =>
      simp only [frame, Tcp.toBeBytes, List.cons_append, List.nil_append, List.cons.injEq] at hlater
      obtain ⟨rfl, rfl, hrest⟩ := hlater
      simp only [unframe, hlen] at hreq
      split at hreq
      · rename_i hle
        have hnone : later = [] := by
          have hlength := congrArg List.length hrest
          rw [List.length_append] at hlength
          exact List.length_eq_zero_iff.1 (by omega)
        rw [hnone, List.append_nil] at hrest
        rw [hrest, List.take_length] at hreq
        exact (Option.some.inj hreq).symm
      · cases hreq

/-- A message read as it was announced. -/
theorem unframe_read {length response : Bytes} (htwo : length.length = 2)
    (hlen : response.length = Tcp.fromBeBytes length) : unframe (length ++ response) = some response := by
  obtain ⟨hi, lo, rfl⟩ := List.length_eq_two.1 htwo
  simp [unframe, ← hlen]

/-- Whatever message has arrived, it means `f`. -/
def Means (f : Zone → Zone) (sent : Bytes) : Prop :=
  ∀ request, unframe sent = some request →
    ∃ m, hickory.decode request = some m ∧ ∀ zone, m.apply hickory.text zone = f zone

theorem means_nil (f : Zone → Zone) : Means hickory f [] := nofun

/-! ## One call -/

/-- The server may have carried out the message in the meantime. -/
def Progress (l l' : Link) : Prop := l' = l ∨ ∃ m, Serves hickory l m l'

theorem Progress.trans {l₁ l₂ l₃ : Link} (h : Progress hickory l₁ l₂) (h' : Progress hickory l₂ l₃) :
    Progress hickory l₁ l₃ := by
  rcases h with rfl | ⟨m, hs⟩
  · exact h'
  · rcases h' with rfl | ⟨m', hs'⟩
    · exact Or.inr ⟨m, hs⟩
    · cases hs with
      | mk hdone hsent hdecode =>
        cases hs' with
        | mk hdone' hsent' hdecode' => cases hdone'

theorem Progress.sent {l l' : Link} (h : Progress hickory l l') : l'.sent = l.sent := by
  rcases h with rfl | ⟨m, ⟨-, -, -⟩⟩ <;> rfl

theorem Progress.received {l l' : Link} (h : Progress hickory l l') : l'.received = l.received := by
  rcases h with rfl | ⟨m, ⟨-, -, -⟩⟩ <;> rfl

theorem Progress.done {l l' : Link} (h : Progress hickory l l') (hl : l.done = true) : l'.done = true := by
  rcases h with rfl | ⟨m, ⟨-, -, -⟩⟩
  · exact hl
  · rfl

def tcpEnv : Env Tcp.Call Tcp.Reply Link := fun c r l l' =>
  ∃ m, Progress hickory l m ∧ TcpStep c r m l' ∧ Genuine crates l'

def callEnv : Env Call Reply Link := fun c r l l' => ∃ m, Progress hickory l m ∧ CallStep crates c r m l'

/-- Wherever the client is suspended, given up there or not, what has arrived means `f`. -/
def TcpOk (f : Zone → Zone) (c : Tcp.Call) (l : Link) : Prop :=
  Means hickory f l.sent ∧ ∀ l', Cut c l l' → Means hickory f l'.sent

def CallOk (f : Zone → Zone) : Call → Link → Prop
  | .tcp c, l => TcpOk hickory f c l
  | _, l => Means hickory f l.sent

variable {hickory} {f : Zone → Zone} {l : Link} {α : Type}

theorem TcpOk.cut {c : Tcp.Call} (h : TcpOk hickory f c l) {m l' : Link} (hm : Progress hickory l m) (hcut : Cut c m l') :
    Means hickory f l'.sent := by
  have hsent := hm.sent
  cases hcut with
  | connect => exact means_nil hickory f
  | @write buf _ n =>
    have hpart : Means hickory f (l.sent ++ buf.take n) := h.2 _ (.write n)
    rwa [← hsent] at hpart
  | read =>
    rw [hsent]
    exact h.1

theorem wp_timeout {p : Fut Unit Tcp.Call Tcp.Reply α} {Q : α → Link → Prop} (h : wp (TcpOk hickory f) (tcpEnv hickory) p Q l) :
    wp (CallOk hickory f) (callEnv hickory) (timeout p) (fun r l' =>
      match r with
      | some a => Q a l'
      | none => Means hickory f l'.sent) l := by
  induction p generalizing l with
  | done a => exact h
  | await g c k ih =>
    obtain ⟨hok, hnext⟩ := h
    rw [timeout]
    refine ⟨hok, fun r l' hr => ?_⟩
    obtain ⟨m, hm, hstep⟩ := hr
    cases hstep with
    | tcp htcp hgenuine => exact ih _ (hnext _ l' ⟨m, hm, htcp, hgenuine⟩)
    | timeout hcut => exact hok.cut hm hcut

section Message

variable {message : Bytes} (hmeans : ∀ sent, sent <+: frame message → Means hickory f sent)

include hmeans

theorem wp_writeAll {buf : Bytes} (hbuf : l.sent ++ buf = frame message) (hl : Genuine crates l) :
    wp (TcpOk hickory f) (tcpEnv hickory) (Tcp.writeAll buf) (fun r l' => l'.sent <+: frame message ∧
      (r = .ok () → l'.sent = frame message ∧ l'.received = l.received ∧ Genuine crates l')) l := by
  induction hn : buf.length using Nat.strong_induction_on generalizing buf l with
  | _ n ih =>
    cases buf with
    | nil =>
      rw [List.append_nil] at hbuf
      rw [Tcp.writeAll]
      exact ⟨hbuf ▸ List.prefix_rfl, fun _ => ⟨hbuf, rfl, hl⟩⟩
    | cons b buf =>
      -- some of the buffer gets through
      have hpart : ∀ k, l.sent ++ (b :: buf).take k <+: frame message := by
        intro k
        rw [← hbuf]
        exact (List.prefix_append_right_inj _).2 (List.take_prefix k _)
      rw [Tcp.writeAll]
      refine ⟨⟨hmeans _ ⟨b :: buf, hbuf⟩, ?_⟩, ?_⟩
      · intro l' hcut
        cases hcut with
        | write k => exact hmeans _ (hpart k)
      · rintro r l' ⟨m, hm, hstep, hgenuine⟩
        have hsent := hm.sent
        have hreceived := hm.received
        cases hstep with
        | writeError k =>
          refine ⟨?_, by simp⟩
          simp only [hsent]
          exact hpart k
        | @write _ k _ hk =>
          cases k with
          | zero =>
            refine ⟨?_, by simp⟩
            simp only [hsent]
            exact hpart 0
          | succ k =>
            have hrest : l.sent ++ (b :: buf).take (k + 1) ++ buf.drop k = frame message := by
              rw [List.append_assoc, ← hbuf]
              congr 1
              simp
            have hlen : (buf.drop k).length < n := by
              rw [← hn, List.length_drop, List.length_cons]
              omega
            have hnext := ih _ hlen (l := { m with sent := m.sent ++ (b :: buf).take (k + 1) })
              (by rw [hsent]; exact hrest) hgenuine rfl
            refine wp_mono hnext ?_
            rintro r l' ⟨hstart, hok⟩
            refine ⟨hstart, fun hr => ?_⟩
            obtain ⟨h₁, h₂, h₃⟩ := hok hr
            exact ⟨h₁, h₂.trans hreceived, h₃⟩

end Message

theorem wp_readExact {room : Nat} : ∀ {filled : Bytes} {l : Link}, Means hickory f l.sent → Genuine crates l →
    wp (TcpOk hickory f) (tcpEnv hickory) (Tcp.readExact room filled) (fun r l' => l'.sent = l.sent ∧
      ∀ bytes, r = .ok bytes → Genuine crates l' ∧ ∃ new, bytes = filled ++ new ∧ new.length = room ∧
        l'.received = l.received ++ new) l := by
  induction room using Nat.strong_induction_on with
  | _ room ih =>
    intro filled l hl hgenuine
    rw [Tcp.readExact]
    split
    · rename_i hroom
      subst hroom
      refine ⟨rfl, fun bytes hbytes => ⟨hgenuine, [], ?_, rfl, by simp⟩⟩
      rw [List.append_nil]
      exact (Except.ok.inj hbytes).symm
    · rename_i hroom
      refine ⟨⟨hl, ?_⟩, ?_⟩
      · intro l' hcut
        cases hcut with
        | read => exact hl
      · rintro r l' ⟨m, hm, hstep, hgenuine'⟩
        have hsent := hm.sent
        have hreceived := hm.received
        cases hstep with
        | readError => exact ⟨hsent, by simp⟩
        | @read _ read _ =>
          obtain ⟨read, hread⟩ := read
          cases read with
          | nil => exact ⟨hsent, by simp⟩
          | cons b read =>
            have hle : read.length + 1 ≤ room := hread
            refine wp_mono (ih (room - (b :: read).length) (by rw [List.length_cons]; omega)
              (by rw [hsent]; exact hl) hgenuine') ?_
            rintro r l'' ⟨hsent', hok⟩
            refine ⟨hsent'.trans hsent, fun bytes hbytes => ?_⟩
            obtain ⟨hg, new, rfl, hlen, hrec⟩ := hok bytes hbytes
            refine ⟨hg, b :: read ++ new, by simp, ?_, ?_⟩
            · rw [List.length_append, hlen, List.length_cons]
              omega
            · rw [hrec, hreceived, List.append_assoc]

theorem wp_ioError {ns : Nameserver} {io : Tcp.Io α} {Q : Except DnsError α → Link → Prop}
    (h : wp (TcpOk hickory f) (tcpEnv hickory) io (fun r l' =>
      match r with
      | .ok a => Q (.ok a) l'
      | .error _ => ∀ e, Q (.error e) l') l) :
    wp (TcpOk hickory f) (tcpEnv hickory) (ioError ns io).run Q l := by
  refine wp_bind.2 (wp_mono h fun r l' hr => ?_)
  cases r with
  | ok a => exact hr
  | error e => exact hr _

/-- **The exchange**: the message arrives in full, or in part; what is returned is what was received. -/
theorem wp_exchange {ns : Nameserver} {message : Bytes}
    (hmeans : message.length ≤ 65535 → ∀ sent, sent <+: frame message → Means hickory f sent) (hl : Means hickory f l.sent) :
    wp (TcpOk hickory f) (tcpEnv hickory) (exchange ns message).run (fun r l' => Means hickory f l'.sent ∧
      ∀ response, r = .ok response → message.length ≤ 65535 ∧ l'.sent = frame message ∧
        unframe l'.received = some response ∧ Genuine crates l') l := by
  unfold exchange
  split
  · exact ⟨hl, nofun⟩
  · rename_i hlong
    have hlen : message.length ≤ 65535 := Nat.not_lt.1 hlong
    have hmeans := hmeans hlen
    have hall : Means hickory f (frame message) := hmeans _ List.prefix_rfl
    rw [wp_run_bind]
    refine wp_ioError ⟨⟨hl, ?_⟩, ?_⟩
    · rintro l' ⟨⟩
      exact means_nil hickory f
    rintro r l₁ ⟨m, hm, ⟨⟩, hg₁⟩
    cases r with
    | error e => exact fun e => ⟨means_nil hickory f, nofun⟩
    | ok u =>
      show wp _ _ (ioError ns (Tcp.writeAll (frame message)) >>= _).run _ _
      rw [wp_run_bind]
      refine wp_ioError (wp_mono (wp_writeAll hmeans rfl hg₁) ?_)
      rintro (e | u) l₂ ⟨hpart, hok₂⟩
      · exact fun e => ⟨hmeans _ hpart, nofun⟩
      obtain ⟨hsent₂, hreceived₂, hg₂⟩ := hok₂ rfl
      show wp _ _ (ioError ns (Tcp.readExact 2 []) >>= _).run _ _
      rw [wp_run_bind]
      refine wp_ioError (wp_mono (wp_readExact (hsent₂ ▸ hall) hg₂) ?_)
      rintro (e | length) l₃ ⟨hsent₃, hok₃⟩
      · exact fun e => ⟨by rw [hsent₃, hsent₂]; exact hall, nofun⟩
      obtain ⟨hg₃, new, hnew, htwo, hreceived₃⟩ := hok₃ length rfl
      rw [List.nil_append] at hnew
      subst hnew
      have hsent : l₃.sent = frame message := hsent₃.trans hsent₂
      refine wp_ioError (wp_mono (wp_readExact (hsent ▸ hall) hg₃) ?_)
      rintro (e | response) l₄ ⟨hsent₄, hok₄⟩
      · exact fun e => ⟨by rw [hsent₄, hsent]; exact hall, nofun⟩
      obtain ⟨hg₄, new, hnew, hresponse, hreceived₄⟩ := hok₄ response rfl
      rw [List.nil_append] at hnew
      subst hnew
      refine ⟨by rw [hsent₄, hsent]; exact hall, fun response' hr => ?_⟩
      cases hr
      refine ⟨hlen, hsent₄.trans hsent, ?_, hg₄⟩
      rw [hreceived₄, hreceived₃, hreceived₂]
      exact unframe_read htwo hresponse

/-! ## Calls of the provider -/

theorem signed_eq_ok {d : Draft} {signer : Signer} {now : Nat} {request : Bytes} {id : UInt16} {verifier : Verifier} :
    Provider.signed crates d signer now = .ok (request, id, verifier) ↔
      ∃ d', crates.finalize d signer now = .ok (d', some verifier) ∧ crates.toVec d' = .ok request ∧ id = crates.id d' := by
  unfold Provider.signed
  cases hfinal : crates.finalize d signer now with
  | error e => simp [Bind.bind, Except.bind, throw, throwThe, MonadExceptOf.throw]
  | ok x =>
    obtain ⟨d', verifier'⟩ := x
    cases verifier' with
    | none => simp [Bind.bind, Except.bind, throw, throwThe, MonadExceptOf.throw]
    | some v =>
      cases hvec : crates.toVec d' with
      | error e => simp [Bind.bind, Except.bind, Pure.pure, Except.pure, throw, throwThe, MonadExceptOf.throw, hvec]
      | ok bytes => simp [Bind.bind, Except.bind, Pure.pure, Except.pure, hvec]; grind

theorem parseName_eq_ok {raw : Str} {what : String} {name : Name} (h : parseName crates raw what = .ok name) :
    validateFqdn raw = .ok () ∧ crates.fromAscii raw = .ok name := by
  unfold parseName at h
  cases hvalid : validateFqdn raw with
  | error e =>
    rw [hvalid] at h
    cases h
  | ok u =>
    rw [hvalid] at h
    cases hraw : crates.fromAscii raw with
    | error e =>
      rw [hraw] at h
      cases h
    | ok name' =>
      rw [hraw] at h
      cases h
      exact ⟨rfl, rfl⟩

variable {self : Provider Name}

theorem wp_sendUpdate {d : Draft} (hf : ∀ zone, (hickory.content d).apply hickory.text zone = f zone)
    (hl : Means hickory f l.sent) :
    wp (CallOk hickory f) (callEnv hickory) (self.sendUpdate crates d).run (fun r l' => Means hickory f l'.sent ∧
      (r = .ok () → l'.done = true)) l := by
  unfold Provider.sendUpdate
  rw [wp_run_bind, wp_run_except]
  cases self.signer crates with
  | error e => exact ⟨hl, nofun⟩
  | ok signer =>
    show wp _ _ (Provider.unixNow >>= _).run _ _
    rw [wp_run_bind]
    refine ⟨hl, ?_⟩
    rintro r l₁ ⟨m, hm, ⟨⟩⟩
    have hl₁ : Means hickory f l₁.sent := hm.sent ▸ hl
    cases r with
    | none => exact ⟨hl₁, nofun⟩
    | some now =>
      rw [wp_done]
      dsimp only
      rw [wp_run_bind, wp_run_except]
      cases hsigned : Provider.signed crates d signer now with
      | error e => exact ⟨hl₁, nofun⟩
      | ok x =>
        obtain ⟨request, id, verifier⟩ := x
        obtain ⟨d', hfinal, hrequest, rfl⟩ := signed_eq_ok.1 hsigned
        have hdecode : hickory.decode request = some (hickory.content d) := by
          rw [hickory.decode_toVec hrequest, hickory.content_finalize hfinal]
        have hmeans : request.length ≤ 65535 → ∀ sent, sent <+: frame request → Means hickory f sent := by
          intro hlen sent hsent request' hrequest'
          obtain rfl := unframe_of_prefix hlen hsent hrequest'
          exact ⟨_, hdecode, hf⟩
        dsimp only
        rw [wp_run_bind]
        refine wp_bind.2 (wp_mono (wp_timeout (wp_exchange hmeans hl₁)) ?_)
        rintro (_ | (e | response)) l₂ hl₂
        · exact ⟨hl₂, nofun⟩
        · exact ⟨hl₂.1, nofun⟩
        · obtain ⟨hmeans₂, hok⟩ := hl₂
          obtain ⟨hlen, hsent, hreceived, hgenuine⟩ := hok response rfl
          refine ⟨hmeans₂, fun hcheck => ?_⟩
          obtain ⟨m, hm⟩ := checkResponse_ok_iff.1 hcheck
          exact hgenuine d signer now d' verifier request response m hfinal hrequest (by rw [hsent, unframe_frame hlen])
            hreceived hm

/-- The names that a call works with. -/
theorem wp_names {fqdn : Str} (hl : Means hickory f l.sent) :
    wp (CallOk hickory f) (callEnv hickory) (self.names crates fqdn).run (fun r l' => Means hickory f l'.sent ∧
      ∀ zone name, r = .ok (zone, name) → hickory.text name = normalizeName fqdn) l := by
  have hresolve : wp (CallOk hickory f) (callEnv hickory) (self.resolveZone fqdn).run (fun _ l' => Means hickory f l'.sent) l := by
    unfold Provider.resolveZone
    split
    · exact hl
    · refine ⟨hl, ?_⟩
      rintro r l' ⟨m, hm, ⟨⟩⟩
      have hl' : Means hickory f l'.sent := hm.sent ▸ hl
      cases r with
      | error e => exact hl'
      | ok zone =>
        show wp _ _ (liftM (validateFqdn zone) >>= fun _ => pure zone : Act Str).run _ _
        rw [wp_run_bind, wp_run_except]
        cases validateFqdn zone with
        | error e => exact hl'
        | ok u => exact hl'
  unfold Provider.names
  rw [wp_run_bind]
  refine wp_mono hresolve fun r l' hl' => ?_
  cases r with
  | error e => exact ⟨hl', nofun⟩
  | ok zoneText =>
    dsimp only
    rw [wp_run_bind, wp_run_except]
    cases hzone : parseName crates zoneText "zone" with
    | error e => exact ⟨hl', nofun⟩
    | ok zone =>
      dsimp only
      rw [wp_run_bind, wp_run_except]
      cases hname : parseName crates fqdn "fqdn" with
      | error e => exact ⟨hl', nofun⟩
      | ok name =>
        dsimp only
        split
        · exact ⟨hl', nofun⟩
        · refine ⟨hl', fun zone' name' heq => ?_⟩
          cases heq
          obtain ⟨hvalid, hraw⟩ := parseName_eq_ok hname
          exact hickory.text_fromAscii hvalid hraw

/-! ## Clients -/

/-- A call of `present` or `cleanup`. -/
structure Client (Name : Type) where
  provider : Provider Name
  op : Op
  fqdn : Str
  value : Str

namespace Client

variable (crates) in
def prog (c : Client Name) : Fut Unit Call Reply (Except DnsError Unit) :=
  match c.op with
  | .present => (c.provider.present crates c.fqdn c.value).run
  | .cleanup => (c.provider.cleanup crates c.fqdn c.value).run

def name (c : Client Name) : Str := normalizeName c.fqdn

def edit (c : Client Name) : Zone → Zone := Rfc2136.edit c.op c.name c.value c.provider.config.ttl

variable (c : Client Name)

variable (hickory) in
/-- The end of a call. -/
def Returned (r : Except DnsError Unit) (l : Link) : Prop :=
  Means hickory c.edit l.sent ∧ (r = .ok () → l.done = true)

variable {c}

/-- Names are asked for first, then the message is sent. -/
theorem wp_update (build : Name → Name → Draft)
    (hbuild : ∀ zone name, hickory.text name = c.name →
      ∀ z, (hickory.content (build zone name)).apply hickory.text z = c.edit z)
    (hl : Means hickory c.edit l.sent) :
    wp (CallOk hickory c.edit) (callEnv hickory)
      (c.provider.names crates c.fqdn >>= fun names => c.provider.sendUpdate crates (build names.1 names.2)).run
      (c.Returned hickory) l := by
  rw [wp_run_bind]
  refine wp_mono (wp_names hl) ?_
  rintro (e | ⟨zone, name⟩) l₁ ⟨hl₁, hnames⟩
  · exact ⟨hl₁, nofun⟩
  · exact wp_sendUpdate (hbuild zone name (hnames zone name rfl)) hl₁

theorem wp_prog (hl : Means hickory c.edit l.sent) :
    wp (CallOk hickory c.edit) (callEnv hickory) (c.prog crates) (c.Returned hickory) l := by
  unfold prog
  cases hop : c.op with
  | present =>
    dsimp only
    unfold Provider.present
    rw [wp_run_bind, wp_run_except]
    cases validateFqdn c.fqdn with
    | error e => exact ⟨hl, nofun⟩
    | ok u =>
      dsimp only
      rw [wp_run_bind, wp_run_except]
      cases validateAcmeValue c.value with
      | error e => exact ⟨hl, nofun⟩
      | ok u' =>
        refine wp_update (fun zone name => crates.buildPresent zone name c.value c.provider.config.ttl)
          (fun zone name htext z => ?_) hl
        simp [hickory.content_present, buildPresentMessage, append, txtRrset, UpdateMessage.apply, UpdateRecord.apply,
          edit, Rfc2136.edit, hop, htext]
  | cleanup =>
    dsimp only
    unfold Provider.cleanup
    rw [wp_run_bind, wp_run_except]
    cases validateFqdn c.fqdn with
    | error e => exact ⟨hl, nofun⟩
    | ok u =>
      refine wp_update (fun zone name => crates.buildCleanup zone name c.value) (fun zone name htext z => ?_) hl
      simp [hickory.content_cleanup, buildCleanupMessage, deleteByRdata, txtRrset, UpdateMessage.apply, UpdateRecord.apply,
        edit, Rfc2136.edit, hop, htext]

end Client

/-! ## Any number of clients -/

/-- A client that is dropped at a call. -/
inductive Dropped : Call → Link → Link → Prop where
  | idle {c : Call} {l : Link} : Dropped c l l
  | cut {c : Tcp.Call} {l l' : Link} (h : Cut c l l') : Dropped (.tcp c) l l'

/-- The server, with a connection for each call. -/
structure Server (ι : Type) where
  zone : Zone
  /-- Whose messages have been carried out, in this order. -/
  log : List ι
  link : ι → Link

abbrev System (ι : Type) := Tasks.Config ι Unit Call Reply (Except DnsError Unit) (Server ι)

variable {ι : Type} [DecidableEq ι]

def Server.move (s : Server ι) (i : ι) (l : Link) : Server ι := { s with link := Function.update s.link i l }

variable (hickory) in
inductive Serve (i : ι) : Server ι → Server ι → Prop where
  | mk {s : Server ι} {m : UpdateMessage Name} {l : Link} (h : Serves hickory (s.link i) m l) :
      Serve i s ⟨m.apply hickory.text s.zone, s.log ++ [i], Function.update s.link i l⟩

variable (hickory) in
def world : Tasks.World ι Unit Call Reply (Server ι) ι where
  call i c r s s' := ∃ l, CallStep crates c r (s.link i) l ∧ s' = s.move i l
  drop i _ c s s' := ∃ l, Dropped c (s.link i) l ∧ s' = s.move i l
  other := Serve hickory

variable (clients : ι → Client Name)

variable (hickory) in
def Reachable (zone : Zone) (s : System ι) : Prop :=
  ∃ w, Tasks.Steps (world hickory) (Tasks.start (fun i => (clients i).prog crates) ⟨zone, [], fun _ => .new⟩) w s

/-- The calls one after the other. -/
def replay (log : List ι) (zone : Zone) : Zone := log.foldl (fun z i => (clients i).edit z) zone

omit [DecidableEq ι] in
theorem replay_append (log later : List ι) (zone : Zone) :
    replay clients (log ++ later) zone = replay clients later (replay clients log zone) := List.foldl_append

variable (hickory) in
structure Inv (zone : Zone) (s : System ι) : Prop where
  runs : ∀ i q, s.prog i = some q → ∃ m, wp (CallOk hickory (clients i).edit) (callEnv hickory) q
    ((clients i).Returned hickory) m ∧ Progress hickory m (s.store.link i)
  means : ∀ i, Means hickory (clients i).edit (s.store.link i).sent
  done_iff : ∀ i, (s.store.link i).done = true ↔ i ∈ s.store.log
  nodup : s.store.log.Nodup
  zone_eq : s.store.zone = replay clients s.store.log zone

variable {clients}

theorem CallStep.done {c : Call} {r : Reply c} {l' : Link} (h : CallStep crates c r l l') : l'.done = l.done := by
  cases h with
  | unixNow => rfl
  | findZone => rfl
  | tcp h =>
    cases h <;> rfl
  | timeout h =>
    cases h <;> rfl

theorem Dropped.done {c : Call} {l' : Link} (h : Dropped c l l') : l'.done = l.done := by
  cases h with
  | idle => rfl
  | cut h => cases h <;> rfl

/-- Wherever a call stands, what has arrived is its message or a part of it. -/
theorem Client.means_of_wp {c : Client Name} {q : Fut Unit Call Reply (Except DnsError Unit)}
    (h : wp (CallOk hickory c.edit) (callEnv hickory) q (c.Returned hickory) l) : Means hickory c.edit l.sent := by
  cases q with
  | done r => exact h.1
  | await g c' k =>
    have hok := h.1
    cases c' with
    | unixNow => exact hok
    | findZone fqdn => exact hok
    | tcp c' => exact hok.1

theorem CallOk.dropped {c : Call} (h : CallOk hickory f c l) {m l' : Link} (hm : Progress hickory l m) (hdrop : Dropped c m l') :
    Means hickory f l'.sent := by
  cases hdrop with
  | idle =>
    rw [hm.sent]
    cases c with
    | unixNow => exact h
    | findZone fqdn => exact h
    | tcp c => exact h.1
  | cut hcut => exact TcpOk.cut h hm hcut

namespace Inv

variable {zone : Zone} {s s' : System ι}

/-- One client moves, the server does nothing. -/
theorem move (h : Inv hickory clients zone s) {i : ι} {l : Link} {q : Option (Fut Unit Call Reply (Except DnsError Unit))}
    (hruns : ∀ q', q = some q' → ∃ m, wp (CallOk hickory (clients i).edit) (callEnv hickory) q'
      ((clients i).Returned hickory) m ∧ Progress hickory m l)
    (hmeans : Means hickory (clients i).edit l.sent) (hdone : l.done = (s.store.link i).done) :
    Inv hickory clients zone ⟨s.store.move i l, Function.update s.prog i q⟩ where
  runs j q' hj := by
    by_cases hji : j = i
    · subst hji
      simp only [Function.update_self] at hj
      simpa [Server.move] using hruns q' hj
    · simp only [Function.update_of_ne hji] at hj
      simpa [Server.move, hji] using h.runs j q' hj
  means j := by
    by_cases hji : j = i
    · subst hji
      simpa [Server.move] using hmeans
    · simpa [Server.move, hji] using h.means j
  done_iff j := by
    by_cases hji : j = i
    · subst hji
      simpa [Server.move, hdone] using h.done_iff j
    · simpa [Server.move, hji] using h.done_iff j
  nodup := h.nodup
  zone_eq := h.zone_eq

theorem serve (h : Inv hickory clients zone s) {i : ι} {server : Server ι} (hserve : Serve hickory i s.store server) :
    Inv hickory clients zone ⟨server, s.prog⟩ := by
  cases hserve with | @mk m l hserves
  have hprogress : Progress hickory (s.store.link i) l := Or.inr ⟨m, hserves⟩
  obtain ⟨hdone, hsent, hdecode⟩ := hserves
  obtain ⟨m', hdecode', happly⟩ := h.means i _ hsent
  obtain rfl : m = m' := Option.some.inj (hdecode.symm.trans hdecode')
  have hnew : i ∉ s.store.log := fun hi => by simp [(h.done_iff i).2 hi] at hdone
  constructor
  · intro j q hj
    obtain ⟨m₀, hwp, hm₀⟩ := h.runs j q hj
    by_cases hji : j = i
    · subst hji
      simpa using ⟨m₀, hwp, hm₀.trans hickory hprogress⟩
    · simpa [hji] using ⟨m₀, hwp, hm₀⟩
  · intro j
    by_cases hji : j = i
    · subst hji
      simpa using h.means j
    · simpa [hji] using h.means j
  · intro j
    by_cases hji : j = i
    · subst hji
      simp
    · simpa [hji] using h.done_iff j
  · exact List.nodup_append.2 ⟨h.nodup, List.nodup_singleton i, fun a ha b hb hab => hnew (by simp_all)⟩
  · show m.apply hickory.text s.store.zone = replay clients (s.store.log ++ [i]) zone
    rw [replay_append, ← h.zone_eq]
    exact happly s.store.zone

theorem step (h : Inv hickory clients zone s) {l : Tasks.Label ι Call Reply ι} (hstep : Tasks.Step (world hickory) s l s') :
    Inv hickory clients zone s' := by
  cases hstep with
  | call hi hcall =>
    obtain ⟨l, hcall, rfl⟩ := hcall
    obtain ⟨m, hwp, hm⟩ := h.runs _ _ hi
    have hnext := hwp.2 _ _ ⟨_, hm, hcall⟩
    exact h.move (fun q hq => ⟨_, Option.some.inj hq ▸ hnext, Or.inl rfl⟩) (Client.means_of_wp hnext) hcall.done
  | drop hi hdrop =>
    obtain ⟨l, hdrop, rfl⟩ := hdrop
    obtain ⟨m, hwp, hm⟩ := h.runs _ _ hi
    exact h.move (fun q hq => by cases hq) (CallOk.dropped hwp.1 hm hdrop) hdrop.done
  | other hserve => exact h.serve hserve

end Inv

/-! ## What is in the zone -/

section Replay

variable {log : List ι} {zone : Zone}

omit [DecidableEq ι]

variable {c : Client Name}

end Replay

/-! ### Calls that succeed -/

section Accepted

/-- The others are where they were. -/
def System.Keeps (i : ι) (s s' : System ι) : Prop := ∀ j, j ≠ i → s'.store.link j = s.store.link j ∧ s'.prog j = s.prog j

omit [DecidableEq ι] in
theorem System.Keeps.trans {i : ι} {s₁ s₂ s₃ : System ι} (h : Keeps i s₁ s₂) (h' : Keeps i s₂ s₃) : Keeps i s₁ s₃ :=
  fun j hj => ⟨(h' j hj).1.trans (h j hj).1, (h' j hj).2.trans (h j hj).2⟩

theorem Reachable.call {zone : Zone} {s : System ι} (hs : Reachable hickory clients zone s) {i : ι} {g : Option Unit}
    {c : Call} {k : Reply c → Fut Unit Call Reply (Except DnsError Unit)} (r : Reply c) {l l' : Link}
    (hi : s.prog i = some (.await g c k)) (hl : s.store.link i = l) (h : CallStep crates c r l l') :
    ∃ s', Reachable hickory clients zone s' ∧ System.Keeps i s s' ∧ s'.prog i = some (k r) ∧ s'.store.link i = l' := by
  subst hl
  obtain ⟨w, hs⟩ := hs
  refine ⟨_, ⟨_, hs.snoc (.call hi ⟨l', h, rfl⟩)⟩, fun j hj => ?_, Function.update_self .., Function.update_self ..⟩
  exact ⟨Function.update_of_ne hj .., Function.update_of_ne hj ..⟩

theorem Reachable.serve {zone : Zone} {s : System ι} (hs : Reachable hickory clients zone s) {i : ι} {l l' : Link}
    {m : UpdateMessage Name} (hl : s.store.link i = l) (h : Serves hickory l m l') :
    ∃ s', Reachable hickory clients zone s' ∧ System.Keeps i s s' ∧ s'.prog i = s.prog i ∧ s'.store.link i = l' := by
  subst hl
  obtain ⟨w, hs⟩ := hs
  exact ⟨_, ⟨_, hs.snoc (.other (.mk h))⟩, fun j hj => ⟨Function.update_of_ne hj .., rfl⟩, rfl, Function.update_self ..⟩

variable (crates) in
/-- The rest of a call, when its message has been signed. -/
def awaiting (p : Provider Name) (id : UInt16) (verifier : Verifier)
    (exchange : ExceptT DnsError (Fut Unit Tcp.Call Tcp.Reply) Bytes) : Fut Unit Call Reply (Except DnsError Unit) :=
  ((ExceptT.mk ((timeout exchange.run).bind fun r => .done (p.inTime r)) : Act Bytes) >>=
    fun response => liftM (checkResponse crates id response verifier p.nameserver)).run

variable {p : Provider Name} {id : UInt16} {verifier : Verifier} {request response : Bytes}

theorem awaiting_await (exchange : ExceptT DnsError (Fut Unit Tcp.Call Tcp.Reply) Bytes) {g : Option Unit} {c : Tcp.Call}
    {k : Tcp.Reply c → Fut Unit Tcp.Call Tcp.Reply (Except DnsError Bytes)} (h : exchange.run = .await g c k) :
    ∃ k', awaiting crates p id verifier exchange = .await g (.tcp c) k' ∧
      ∀ r, k' (some r) = awaiting crates p id verifier (ExceptT.mk (k r)) := by
  unfold awaiting
  rw [h, timeout]
  exact ⟨_, rfl, fun r => rfl⟩

theorem awaiting_write {ns : Nameserver} (b : UInt8) (bytes : Bytes)
    (next : Unit → ExceptT DnsError (Fut Unit Tcp.Call Tcp.Reply) Bytes) :
    ∃ k, awaiting crates p id verifier (ioError ns (Tcp.writeAll (b :: bytes)) >>= next) =
        .await (some ()) (.tcp (.write (b :: bytes))) k ∧
      k (some (.ok (b :: bytes).length)) = awaiting crates p id verifier (next ()) := by
  obtain ⟨k, hk, hnext⟩ := awaiting_await (ioError ns (Tcp.writeAll (b :: bytes)) >>= next) (by
    rw [Tcp.writeAll]
    rfl)
  refine ⟨k, hk, (hnext (.ok (b :: bytes).length)).trans ?_⟩
  show awaiting crates p id verifier (ioError ns (Tcp.writeAll (bytes.drop bytes.length)) >>= next) = _
  rw [List.drop_length, Tcp.writeAll]
  rfl

/-- What is left of an exchange when the request has been written. -/
def readReply (ns : Nameserver) : ExceptT DnsError (Fut Unit Tcp.Call Tcp.Reply) Bytes := do
  let length ← ioError ns (Tcp.readExact 2 [])
  ioError ns (Tcp.readExact (Tcp.fromBeBytes length) [])

theorem exchange_eq {ns : Nameserver} (hlen : request.length ≤ 65535) :
    exchange ns request = ioError ns (Fut.call (some ()) (Tcp.Call.connect ns.host ns.port) : Tcp.Io Unit) >>= fun _ =>
      ioError ns (Tcp.writeAll (frame request)) >>= fun _ => readReply ns := by
  unfold exchange
  rw [if_neg (by omega)]
  rfl

/-- A call connects and writes its message, in one go. -/
theorem Reachable.send {zone : Zone} {s : System ι} (hs : Reachable hickory clients zone s) {i : ι}
    {k : Reply .unixNow → Fut Unit Call Reply (Except DnsError Unit)} (now : Nat)
    (hi : s.prog i = some (.await none .unixNow k)) (hl : s.store.link i = .new)
    (hk : k (some now) = awaiting crates p id verifier (exchange p.nameserver request)) (hlen : request.length ≤ 65535) :
    ∃ s', Reachable hickory clients zone s' ∧ System.Keeps i s s' ∧
      s'.prog i = some (awaiting crates p id verifier (readReply p.nameserver)) ∧ s'.store.link i = ⟨frame request, [], false⟩ := by
  have hunread : ∀ sent, Genuine crates ⟨sent, [], false⟩ := nofun
  obtain ⟨s₁, hs₁, hkeep₁, hi₁, hl₁⟩ := hs.call (some now) hi hl .unixNow
  rw [hk, exchange_eq hlen] at hi₁
  obtain ⟨k₁, hk₁, hnext₁⟩ := awaiting_await (ioError p.nameserver
      (Fut.call (some ()) (Tcp.Call.connect p.nameserver.host p.nameserver.port) : Tcp.Io Unit) >>= fun _ =>
    ioError p.nameserver (Tcp.writeAll (frame request)) >>= fun _ => readReply p.nameserver) rfl
  rw [hk₁] at hi₁
  obtain ⟨s₂, hs₂, hkeep₂, hi₂, hl₂⟩ := hs₁.call (some (.ok ())) hi₁ hl₁ (.tcp .connect (hunread _))
  rw [hnext₁] at hi₂
  obtain ⟨k₂, hk₂, hnext₂⟩ := awaiting_write (UInt8.ofNat (request.length / 256))
    (UInt8.ofNat (request.length % 256) :: request) fun _ => readReply p.nameserver
  obtain ⟨s₃, hs₃, hkeep₃, hi₃, hl₃⟩ := hs₂.call (some (.ok (frame request).length)) (hi₂.trans (congrArg some hk₂)) hl₂
    (.tcp (.write le_rfl) (hunread _))
  refine ⟨s₃, hs₃, (hkeep₁.trans hkeep₂).trans hkeep₃, hi₃.trans (congrArg some hnext₂), ?_⟩
  rw [hl₃, List.take_length]
  rfl

end Accepted

end Exchange

/-! ### Crates to run the calls with

Base64 as it is, names with escapes, messages of one record with each text after its length, and sums for signatures. -/

namespace Sample

/-- A backslash before a character stands for it. -/
def unescape : Str → Str
  | '\\' :: c :: s => c :: unescape s
  | c :: s => c :: unescape s
  | [] => []

theorem unescape_of_not_mem {s : Str} (h : '\\' ∉ s) : unescape s = s := by
  induction s with
  | nil => rfl
  | cons c s ih =>
    rw [List.mem_cons, not_or] at h
    rw [unescape, ih h.2]
    rintro d s' rfl
    exact absurd rfl h.1

def sextet (c : Char) : Option Nat :=
  if 'A' ≤ c ∧ c ≤ 'Z' then some (c.toNat - 65)
  else if 'a' ≤ c ∧ c ≤ 'z' then some (c.toNat - 71)
  else if '0' ≤ c ∧ c ≤ '9' then some (c.toNat + 4)
  else if c = '+' then some 62
  else if c = '/' then some 63
  else none

/-- The standard alphabet, with canonical padding. -/
def decodeBase64 : Str → Option Bytes
  | [] => some []
  | [a, b, '=', '='] => do
    let (a, b) := (← sextet a, ← sextet b)
    guard (b % 16 = 0)
    return [UInt8.ofNat (4 * a + b / 16)]
  | [a, b, c, '='] => do
    let (a, b, c) := (← sextet a, ← sextet b, ← sextet c)
    guard (c % 4 = 0)
    return [UInt8.ofNat (4 * a + b / 16), UInt8.ofNat (16 * b + c / 4)]
  | a :: b :: c :: d :: rest => do
    let (a, b, c, d) := (← sextet a, ← sextet b, ← sextet c, ← sextet d)
    return UInt8.ofNat (4 * a + b / 16) :: UInt8.ofNat (16 * b + c / 4) :: UInt8.ofNat (64 * c + d) :: (← decodeBase64 rest)
  | _ => none

def encodeText (s : Str) : Option Bytes :=
  if s.length ≤ 255 ∧ s.all (·.toNat ≤ 255) then some (UInt8.ofNat s.length :: s.map fun c => UInt8.ofNat c.toNat)
  else none

def decodeText : Bytes → Option (Str × Bytes)
  | [] => none
  | n :: rest =>
    if n.toNat ≤ rest.length then some ((rest.take n.toNat).map fun b => Char.ofNat b.toNat, rest.drop n.toNat) else none

theorem decodeText_encodeText {s : Str} {bytes : Bytes} (h : encodeText s = some bytes) (rest : Bytes) :
    decodeText (bytes ++ rest) = some (s, rest) := by
  unfold encodeText at h
  split at h
  next hs =>
    cases h
    rw [List.all_eq_true] at hs
    have hchars : s.map (fun c => Char.ofNat (UInt8.ofNat c.toNat).toNat) = s := by
      refine (List.map_congr_left fun c hc => ?_).trans (List.map_id s)
      rw [UInt8.toNat_ofNat', Nat.mod_eq_of_lt (Nat.lt_succ_of_le (of_decide_eq_true (hs.2 c hc))), Char.ofNat_toNat, id]
    simp [decodeText, Nat.mod_eq_of_lt (Nat.lt_succ_of_le hs.1), Function.comp_def] at hchars ⊢
    exact hchars
  next => cases h

def ttlBytes (ttl : UInt32) : Bytes :=
  [UInt8.ofNat (ttl.toNat / 16777216), UInt8.ofNat (ttl.toNat / 65536), UInt8.ofNat (ttl.toNat / 256), UInt8.ofNat ttl.toNat]

theorem fromBeBytes_ttlBytes (ttl : UInt32) : UInt32.ofNat (Tcp.fromBeBytes (ttlBytes ttl)) = ttl := by
  have hlt := ttl.toNat_lt
  have hnat : Tcp.fromBeBytes (ttlBytes ttl) = ttl.toNat := by
    simp only [Tcp.fromBeBytes, ttlBytes, List.foldl_cons, List.foldl_nil, UInt8.toNat_ofNat']
    omega
  rw [hnat, UInt32.ofNat_toNat]

def classByte : DnsClass → UInt8
  | .internet => 1
  | .none => 254

/-- A message of one record with one text. -/
def encode : UpdateMessage Str → Option Bytes
  | ⟨zone, [⟨name, dnsClass, ttl, [value]⟩]⟩ => do
    return classByte dnsClass :: ttlBytes ttl ++ (← encodeText zone) ++ (← encodeText name) ++ (← encodeText value)
  | _ => none

/-- What comes after the message is its signature. -/
def decode : Bytes → Option (UpdateMessage Str)
  | dnsClass :: t₁ :: t₂ :: t₃ :: t₄ :: rest => do
    let (zone, rest) ← decodeText rest
    let (name, rest) ← decodeText rest
    let (value, _) ← decodeText rest
    return ⟨zone, [⟨name, if dnsClass = 1 then .internet else .none, UInt32.ofNat (Tcp.fromBeBytes [t₁, t₂, t₃, t₄]), [value]⟩]⟩
  | _ => none

theorem decode_encode {m : UpdateMessage Str} {bytes : Bytes} (h : encode m = some bytes) (rest : Bytes) :
    decode (bytes ++ rest) = some m := by
  unfold encode at h
  split at h
  next zone name dnsClass ttl value =>
    simp only [Option.bind_eq_bind, Option.bind_eq_some_iff, Option.pure_def, Option.some.injEq] at h
    obtain ⟨bzone, hzone, bname, hname, bvalue, hvalue, rfl⟩ := h
    have hclass : (if classByte dnsClass = 1 then DnsClass.internet else .none) = dnsClass := by cases dnsClass <;> rfl
    have httl := fromBeBytes_ttlBytes ttl
    unfold ttlBytes at httl ⊢
    simp only [List.cons_append, List.nil_append, List.append_assoc, decode, decodeText_encodeText hzone,
      decodeText_encodeText hname, decodeText_encodeText hvalue, Option.bind_eq_bind, Option.bind_some, hclass, httl, Option.pure_def]
  next => cases h

def mac (key bytes : Bytes) : UInt8 := (key ++ bytes).sum

def verify (key : Bytes) : Verifier := fun bytes =>
  if bytes.getLast? = some (mac key bytes.dropLast) then .ok () else .error "bad signature"

/-- The header of a reply; a signature is expected after it. -/
def fromVec : Bytes → Except String Message
  | hi :: lo :: flags :: rcode :: _ =>
    .ok {
      id := UInt16.ofNat (Tcp.fromBeBytes [hi, lo])
      messageType := if flags.toNat < 128 then .query else .response
      opCode := match flags.toNat % 128 / 8 with
        | 0 => .query
        | 2 => .status
        | 4 => .notify
        | 5 => .update
        | code => .unknown (UInt8.ofNat code)
      responseCode := match rcode with
        | 0 => .noError
        | 5 => .refused
        | 9 => .notAuth
        | code => .other code.toUInt16
      signature := some ⟨none⟩ }
  | _ => .error "unexpected end of input"

def crates : Crates Str (UpdateMessage Str × Bytes) Bytes where
  special c := c.val < 32
  decodeBase64 := decodeBase64
  fromAscii raw := .ok (normalizeName (unescape raw))
  displayName name := name ++ ['.']
  zoneOf zone name := zone = name ∨ '.' :: zone <:+ name
  buildPresent zone fqdn value ttl := (buildPresentMessage zone fqdn value ttl, [])
  buildCleanup zone fqdn value := (buildCleanupMessage zone fqdn value, [])
  newSigner key _ _ _ := .ok key
  finalize d key _ :=
    match encode d.1 with
    | some bytes => .ok ((d.1, [mac key bytes]), some (verify key))
    | none => .error "no such message"
  toVec d :=
    match encode d.1 with
    | some bytes => .ok (bytes ++ d.2)
    | none => .error "no such message"
  id _ := 7
  fromVec := fromVec
  displayRcode
    | .noError => "No Error"
    | .refused => "Query Refused"
    | .notAuth => "Server Not Authoritative for zone"
    | .other _ => "Unknown"

def hickory : Hickory crates where
  text name := name
  content d := d.1
  decode := decode
  text_fromAscii := by
    intro raw name hvalid h
    cases h
    rw [unescape_of_not_mem fun hmem => ?_]
    rcases isNameChar_of_mem hvalid hmem with hdot | hchar
    · cases hdot
    · cases hchar
  content_present _ _ _ _ := rfl
  content_cleanup _ _ _ := rfl
  content_finalize := by
    intro d signer now d' verifier h
    simp only [crates] at h
    split at h
    · cases h
      rfl
    · cases h
  decode_toVec := by
    intro d bytes h
    simp only [crates] at h
    split at h
    next hencode =>
      cases h
      exact decode_encode hencode _
    next => cases h

def config : Config where
  nameserver := ['h']
  keyName := ['k']
  secret := ['a', '2', 'V', '5']
  algorithm := .hmacSha256
  zoneOverride := some ['a', '.', 'b']
  ttl := 60
  timeout := 10000000000

def provider : Provider Str := ⟨config, ⟨['h'], 53⟩, ['k']⟩

def wire (cleans : Bool) : Bytes :=
  if cleans then [254, 0, 0, 0, 0, 3, 97, 46, 98, 5, 120, 46, 97, 46, 98, 1, 119]
  else [1, 0, 0, 0, 60, 3, 97, 46, 98, 5, 120, 46, 97, 46, 98, 1, 118]

def key : Bytes := [107, 101, 121]

def request (cleans : Bool) : Bytes := wire cleans ++ [mac key (wire cleans)]

end Sample

section Effects

variable {crates : Crates Name Draft Signer} {hickory : Hickory crates} {ι : Type} [DecidableEq ι] {clients : ι → Client Name}

end Effects

end Cheti.Rfc2136
