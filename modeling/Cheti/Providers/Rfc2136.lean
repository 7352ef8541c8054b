import Cheti.Base.Fut
import Cheti.Base.IpAddr
import Cheti.Names
/-!
# RFC 2136 dynamic updates (src/providers/rfc2136.rs)

| here | there |
| --- | --- |
| `Nameserver`, `Nameserver.display`  | `Nameserver` and its `Display` (162-177) |
| `parseNameserver`                   | `parse_nameserver` (179-216) |
| `parseName`, `decodeSecret`         | `parse_name`, `decode_secret` (218-238) |
| `checkResponse`, `rcodeError`       | `check_response`, `rcode_error` (262-334) |
| `Provider.new`                      | `Rfc2136Provider::new` (353-362) |
| `signer`, `resolveZone`, `names`    | `signer`, `resolve_zone`, `names` (384-414) |
| `exchange`, `sendUpdate`            | `exchange`, `send_update` (416-460) |
| `present`, `cleanup`                | the same in `impl DnsProvider` (463-479) |

What the crates compute (`hickory_proto`, `data_encoding`) is in `Crates`: the verifier of a signed message is a
function of the bytes, and so is decoding. An update message is built and signed by them and is opaque here. The
connection is made of calls: a `read` gives no more than the room it was called with, and nothing only at the end
of the stream.
-/

namespace Cheti.Rfc2136

open Net

abbrev Bytes := List UInt8

def provider : String := "rfc2136"

def defaultPort : UInt16 := 53

def tsigFudge : UInt16 := 300

/-! ## `{:?}` -/

/-- A character in the `Debug` of a `str`; `special` are those that `core::unicode` takes for not printable. -/
def debugChar (special : Char → Bool) (c : Char) : Str :=
  if c = '\x00' then ['\\', '0']
  else if c = '\t' then ['\\', 't']
  else if c = '\r' then ['\\', 'r']
  else if c = '\n' then ['\\', 'n']
  else if c = '"' ∨ c = '\\' then ['\\', c]
  else if special c then "\\u\x7b".toList ++ hex c.toNat ++ ['\x7d']
  else [c]

def debugStr (special : Char → Bool) (s : Str) : Str := '"' :: s.flatMap (debugChar special) ++ ['"']

/-- The `Debug` of a `Duration`: the largest unit, and the fraction without its last zeros. -/
def debugDuration (d : Duration) : String :=
  let (unit, digits, suffix) :=
    if 1000000000 ≤ d then (1000000000, 9, "s")
    else if 1000000 ≤ d then (1000000, 6, "ms")
    else if 1000 ≤ d then (1000, 3, "µs")
    else (1, 0, "ns")
  let fraction := (dec (d % unit)).leftpad digits '0' |>.rdropWhile (· == '0')
  if fraction = [] then s!"{d / unit}{suffix}" else s!"{d / unit}.{fraction}{suffix}"

/-! ## The nameserver -/

structure Nameserver where
  host : Str
  port : UInt16
deriving DecidableEq, Repr

def Nameserver.display (ns : Nameserver) : Str :=
  if ':' ∈ ns.host then '[' :: (ns.host ++ ']' :: ':' :: dec ns.port.toNat)
  else ns.host ++ ':' :: dec ns.port.toNat

/-- `raw.strip_prefix('[').and_then(|s| s.strip_suffix(']')).unwrap_or(raw)` -/
def unbracketed (raw : Str) : Str :=
  match raw with
  | '[' :: rest => if rest.getLast? = some ']' then rest.dropLast else raw
  | _ => raw

/-- `s.rsplit_once(c)` -/
def rsplitOnce (c : Char) : Str → Option (Str × Str)
  | [] => none
  | d :: s =>
    match rsplitOnce c s with
    | some (before, after) => some (d :: before, after)
    | none => if d = c then some ([], s) else none

def invalidNameserver (special : Char → Bool) (raw : Str) : DnsError :=
  .other s!"invalid {provider} nameserver: {debugStr special raw}"

def hostAndPort (special : Char → Bool) (raw : Str) : Except DnsError (Str × UInt16) :=
  match rsplitOnce ':' raw with
  | some (host, port) =>
    match parseU16 port with
    | some port => .ok (host, port)
    | none => .error (invalidNameserver special raw)
  | none => .ok (raw, defaultPort)

/-- The end of `parse_nameserver`: a host name, with or without a port. -/
def parseHost (special : Char → Bool) (raw : Str) : Except DnsError Nameserver :=
  match hostAndPort special raw with
  | .error e => .error e
  | .ok (host, port) =>
    if port = 0 ∨ ':' ∈ host ∨ validateFqdn host ≠ .ok () then .error (invalidNameserver special raw)
    else .ok ⟨trimDots host, port⟩

def parseNameserver (special : Char → Bool) (raw : Str) : Except DnsError Nameserver :=
  let raw := trim raw
  match parseSocketAddr raw with
  | some addr =>
    if addr.port = 0 then .error (invalidNameserver special raw) else .ok ⟨addr.ip.display, addr.port⟩
  | none =>
    match parseIpAddr (unbracketed raw) with
    | some ip => .ok ⟨ip.display, defaultPort⟩
    | none => parseHost special raw

/-! ## Messages -/

inductive MessageType where
  | query
  | response
deriving DecidableEq, Repr

inductive OpCode where
  | query
  | status
  | notify
  | update
  | unknown (code : UInt8)
deriving DecidableEq, Repr

inductive ResponseCode where
  | noError
  | refused
  | notAuth
  /-- Every other one. -/
  | other (code : UInt16)
deriving DecidableEq, Repr

inductive TsigError where
  | badSig
  | badKey
  | badTime
  /-- Every other one. -/
  | other (code : UInt16)
deriving DecidableEq, Repr

/-- A TSIG record, of which only the error is read. -/
structure Tsig where
  error : Option TsigError
deriving DecidableEq, Repr

structure Message where
  id : UInt16
  messageType : MessageType
  opCode : OpCode
  responseCode : ResponseCode
  signature : Option Tsig
deriving DecidableEq, Repr

inductive TsigAlgorithm where
  | hmacSha256
  | hmacSha384
  | hmacSha512
deriving DecidableEq, Repr

/-- `TSigVerifier::verify` -/
abbrev Verifier := Bytes → Except String Unit

/-- What the crates compute. A `Draft` is an update message before it is sent. -/
structure Crates (Name Draft Signer : Type) where
  special : Char → Bool
  decodeBase64 : Str → Option Bytes
  /-- `Name::from_ascii`, then `set_fqdn(true)` -/
  fromAscii : Str → Except String Name
  displayName : Name → Str
  zoneOf : Name → Name → Bool
  /-- `build_present_message` -/
  buildPresent : Name → Name → Str → UInt32 → Draft
  /-- `build_cleanup_message` -/
  buildCleanup : Name → Name → Str → Draft
  newSigner : Bytes → TsigAlgorithm → Name → UInt16 → Except String Signer
  finalize : Draft → Signer → Nat → Except String (Draft × Option Verifier)
  toVec : Draft → Except String Bytes
  id : Draft → UInt16
  fromVec : Bytes → Except String Message
  displayRcode : ResponseCode → String

variable {Name Draft Signer : Type} (crates : Crates Name Draft Signer)

def parseName (raw : Str) (what : String) : Except DnsError Name := do
  validateFqdn raw
  match crates.fromAscii raw with
  | .ok name => return name
  | .error e => throw (.other s!"invalid {what} {debugStr crates.special raw}: {e}")

def decodeSecret (secret : Str) : Except DnsError Bytes :=
  match crates.decodeBase64 (trim secret) with
  | none => .error (.other s!"{provider} TSIG secret is not valid base64")
  | some [] => .error (.other s!"{provider} TSIG secret is empty")
  | some key => .ok key

/-! ## The response -/

def detailOf : Option TsigError → String
  | some .badSig => " (TSIG: bad signature, check the secret and algorithm)"
  | some .badKey => " (TSIG: unknown key, check the key name and algorithm)"
  | some .badTime => " (TSIG: clock skew too large between client and server)"
  | some (.other _) => " (TSIG error)"
  | none => ""

def unverifiedOf : Option String → String
  | some reason => s!" ({reason}, not authenticated)"
  | none => ""

def rcodeError (rcode : ResponseCode) (tsigError : Option TsigError) (unverified : Option String)
    (nameserver : Nameserver) : DnsError :=
  let message := s!"{provider} update rejected by {nameserver.display}: {crates.displayRcode rcode}" ++
    detailOf tsigError ++ unverifiedOf unverified
  match rcode with
  | .notAuth | .refused => .auth message
  | _ => .api message

def Message.tsigError (m : Message) : Option TsigError := m.signature.bind Tsig.error

/-- Errors that come unsigned, or with the server's clock. -/
def Message.unverifiableByDesign (m : Message) : Bool :=
  m.responseCode = .notAuth &&
    (m.tsigError = some .badKey || m.tsigError = some .badSig || m.tsigError = some .badTime)

def unexpectedResponse (nameserver : Nameserver) : DnsError :=
  .api s!"{provider} unexpected response from {nameserver.display}: not an answer to our update"

def checkResponse (requestId : UInt16) (bytes : Bytes) (verify : Verifier) (nameserver : Nameserver) :
    Except DnsError Unit :=
  match crates.fromVec bytes with
  | .error e => .error (.api s!"{provider} malformed response from {nameserver.display}: {e}")
  | .ok response =>
    if response.id ≠ requestId ∨ response.messageType ≠ .response ∨ response.opCode ≠ .update then
      .error (unexpectedResponse nameserver)
    else if response.responseCode ≠ .noError then
      let unverified :=
        if response.unverifiableByDesign || (verify bytes).isOk then none
        else if response.signature.isNone then some "unsigned response"
        else some "TSIG verification failed"
      .error (rcodeError crates response.responseCode response.tsigError unverified nameserver)
    else
      match verify bytes with
      | .error e => .error (.auth s!"{provider} response from {nameserver.display} failed TSIG verification: {e}")
      | .ok () => .ok ()

/-! ## The exchange -/

namespace Tcp

inductive Call where
  | connect (host : Str) (port : UInt16)
  | write (buf : Bytes)
  | read (room : Nat)

/-- An `io::Error` is its text. -/
abbrev Reply : Call → Type
  | .connect _ _ => Except String Unit
  | .write _ => Except String Nat
  | .read room => Except String { bytes : Bytes // bytes.length ≤ room }

abbrev Io (α : Type) := Fut Unit Call Reply (Except String α)

def writeAll : Bytes → Io Unit
  | [] => .done (.ok ())
  | b :: buf =>
    .await (some ()) (.write (b :: buf)) fun
      | .error e => .done (.error e)
      | .ok 0 => .done (.error "write zero")
      | .ok (n + 1) => writeAll (buf.drop n)
termination_by buf => buf.length
decreasing_by
  rw [List.length_drop, List.length_cons]
  omega

/-- `read_exact` with the room that is left, after the bytes `filled`. -/
def readExact (room : Nat) (filled : Bytes) : Io Bytes :=
  if room = 0 then .done (.ok filled)
  else
    .await (some ()) (.read room) fun
      | .error e => .done (.error e)
      | .ok ⟨[], _⟩ => .done (.error "early eof")
      | .ok ⟨b :: bytes, _⟩ => readExact (room - (b :: bytes).length) (filled ++ b :: bytes)
termination_by room
decreasing_by
  rw [List.length_cons]
  omega

/-- `u16::to_be_bytes` -/
def toBeBytes (n : Nat) : Bytes := [UInt8.ofNat (n / 256), UInt8.ofNat (n % 256)]

/-- `u16::from_be_bytes`, of the two bytes of a buffer of that size. -/
def fromBeBytes (bytes : Bytes) : Nat := bytes.foldl (fun n b => 256 * n + b.toNat) 0

end Tcp

/-- `.map_err(io_error)?` -/
def ioError (nameserver : Nameserver) {α : Type} (io : Tcp.Io α) : ExceptT DnsError (Fut Unit Tcp.Call Tcp.Reply) α :=
  ExceptT.mk (io.bind fun r =>
    .done (r.mapError fun e => DnsError.api s!"{provider} exchange with {nameserver.display}: {e}"))

open Tcp in
def exchange (nameserver : Nameserver) (request : Bytes) : ExceptT DnsError (Fut Unit Tcp.Call Tcp.Reply) Bytes := do
  if 65535 < request.length then throw (.other s!"{provider} update message too large")
  let framed := toBeBytes request.length ++ request
  ioError nameserver (Fut.call (some ()) (Call.connect nameserver.host nameserver.port) : Io Unit)
  ioError nameserver (writeAll framed)
  let length ← ioError nameserver (readExact 2 [])
  ioError nameserver (readExact (fromBeBytes length) [])

/-! ## The provider -/

structure Config where
  nameserver : Str
  keyName : Str
  secret : Str
  algorithm : TsigAlgorithm
  zoneOverride : Option Str
  ttl : UInt32
  timeout : Duration

structure Provider (Name : Type) where
  config : Config
  nameserver : Nameserver
  keyName : Name

inductive Call where
  | unixNow
  | findZone (fqdn : Str)
  | tcp (c : Tcp.Call)

/-- The time is none before the epoch, the reply of the connection none when the time is up first. -/
abbrev Reply : Call → Type
  | .unixNow => Option Nat
  | .findZone _ => Except DnsError Str
  | .tcp c => Option (Tcp.Reply c)

abbrev Act (α : Type) := ExceptT DnsError (Fut Unit Call Reply) α

/-- `tokio::time::timeout(..).await`: none when the time is up, and then the exchange is dropped where it stands. -/
def timeout {α : Type} : Fut Unit Tcp.Call Tcp.Reply α → Fut Unit Call Reply (Option α)
  | .done a => .done (some a)
  | .await g c k =>
    .await g (.tcp c) fun
      | none => .done none
      | some r => timeout (k r)

namespace Provider

def new (config : Config) : Except DnsError (Provider Name) := do
  let nameserver ← parseNameserver crates.special config.nameserver
  let keyName ← parseName crates config.keyName "TSIG key name"
  let _ ← decodeSecret crates config.secret
  return ⟨config, nameserver, keyName⟩

variable (self : Provider Name)

def signer : Except DnsError Signer := do
  let key ← decodeSecret crates self.config.secret
  match crates.newSigner key self.config.algorithm self.keyName tsigFudge with
  | .ok signer => return signer
  | .error e => throw (.other s!"{provider} TSIG signer: {e}")

def resolveZone (fqdn : Str) : Act Str :=
  match self.config.zoneOverride with
  | some z => return z
  | none => do
    let zone ← ExceptT.mk (Fut.call (some ()) (Call.findZone fqdn))
    validateFqdn zone
    return zone

def names (fqdn : Str) : Act (Name × Name) := do
  let zone ← parseName crates (← self.resolveZone fqdn) "zone"
  let name ← parseName crates fqdn "fqdn"
  if !crates.zoneOf zone name then throw (.other s!"fqdn {fqdn} is not within zone {crates.displayName zone}")
  return (zone, name)

/-- `.map_err(|_| ..)??` on what the timeout gives. -/
def inTime (response : Option (Except DnsError Bytes)) : Except DnsError Bytes :=
  match response with
  | none => .error (.api s!"{provider} update to {self.nameserver.display} timed out after {debugDuration self.config.timeout}")
  | some response => response

def unixNow : Act Nat :=
  ExceptT.mk (.await none .unixNow fun
    | some now => .done (.ok now)
    | none => .done (.error (.other "system clock is before the Unix epoch")))

/-- Signs the message: what is sent, its id and its verifier. -/
def signed (message : Draft) (signer : Signer) (now : Nat) : Except DnsError (Bytes × UInt16 × Verifier) := do
  let (message, verifier) ←
    match crates.finalize message signer now with
    | .error e => throw (DnsError.other s!"{provider} signing update: {e}")
    | .ok (_, none) => throw (DnsError.other s!"{provider} signing update: no verifier")
    | .ok (message, some verifier) => pure (message, verifier)
  match crates.toVec message with
  | .error e => throw (.other s!"{provider} encoding update: {e}")
  | .ok request => return (request, crates.id message, verifier)

def sendUpdate (message : Draft) : Act Unit := do
  let signer ← self.signer crates
  let now ← unixNow
  let (request, id, verifier) ← signed crates message signer now
  let response ← ExceptT.mk ((timeout (exchange self.nameserver request).run).bind fun r => .done (self.inTime r))
  checkResponse crates id response verifier self.nameserver

def present (fqdn value : Str) : Act Unit := do
  validateFqdn fqdn
  validateAcmeValue value
  let (zone, name) ← self.names crates fqdn
  self.sendUpdate crates (crates.buildPresent zone name value self.config.ttl)

def cleanup (fqdn value : Str) : Act Unit := do
  validateFqdn fqdn
  let (zone, name) ← self.names crates fqdn
  self.sendUpdate crates (crates.buildCleanup zone name value)

end Provider

end Cheti.Rfc2136
