import Cheti.CanonicalQuery
import Cheti.Names
/-!
# AWS Signature Version 4 (src/providers/route53.rs:539-685)

| here | there |
| --- | --- |
| `Target`       | what `sign_v4` reads of a `url::Url` |
| `amzDate`      | `amz_date_now` (route53.rs:553-564), of a given time |
| `canonicalUri`, `hostHeader` | `canonical_uri` (route53.rs:588-597), `host_header` (route53.rs:600-606) |
| `canonicalHeaders`, `canonicalRequest`, `stringToSign`, `signingKey`, `signV4` | the parts of `sign_v4` (route53.rs:617-685) |
| `signedRequest` | the request of `send_signed` (route53.rs:215-246) as it is sent: the HTTP client adds the `Host` header |

SHA-256 and HMAC are arbitrary functions (`Crypto`). `Server` is what AWS documents about the other side: it reads the
`Authorization` header, makes the canonical request of what it has received, and compares signatures. It derives the
key and composes the text as the client does; but it escapes the path as a whole and not segment by segment, takes the
query apart, decodes it and writes it again, and reads the headers that the `Authorization` header names.
-/

namespace Cheti.Route53

open Text

structure Crypto where
  sha256 : List UInt8 → List UInt8
  hmacSha256 (key data : List UInt8) : List UInt8

/-- Two texts with the same digest. -/
def Crypto.Collide (crypto : Crypto) (a b : List UInt8) : Prop := a ≠ b ∧ crypto.sha256 a = crypto.sha256 b

def lowerHex (n : Nat) : Char := "0123456789abcdef".toList.getD n '0'

/-- `hex::encode` -/
def hexEncode (bs : List UInt8) : Str := bs.flatMap fun b => [lowerHex (b.toNat / 16), lowerHex (b.toNat % 16)]

structure SigningCredentials where
  accessKeyId : Str
  secretAccessKey : Str
  sessionToken : Option Str

structure SigningScope where
  region : Str
  service : Str

def signingScope : SigningScope := ⟨"us-east-1".toList, "route53".toList⟩

structure Target where
  host : Str
  /-- Other than the scheme's own. -/
  port : Option Nat
  path : Str
  query : Option Str

/-- `time::OffsetDateTime::now_utc()` -/
structure DateTime where
  year : Nat
  month : Nat
  day : Nat
  hour : Nat
  minute : Nat
  second : Nat

/-- `{n:0width}` -/
def padded (width n : Nat) : Str := List.replicate (width - (Nat.toDigits 10 n).length) '0' ++ Nat.toDigits 10 n

def amzDate (now : DateTime) : Str :=
  padded 4 now.year ++ padded 2 now.month ++ padded 2 now.day ++ 'T' ::
    (padded 2 now.hour ++ padded 2 now.minute ++ padded 2 now.second ++ ['Z'])

def canonicalUri (url : Target) : Str :=
  if url.path.isEmpty then ['/'] else ['/'].intercalate ((url.path.splitOn '/').map sigv4Encode)

def hostHeader (url : Target) : Str :=
  match url.port with
  | some port => url.host ++ ':' :: Nat.toDigits 10 port
  | none => url.host

def canonicalHeaders (token : Option Str) (url : Target) (amzDate : Str) : List (Str × Str) :=
  [("host".toList, hostHeader url), ("x-amz-date".toList, amzDate)] ++
    token.toList.map fun token => ("x-amz-security-token".toList, token)

def signedHeaders (headers : List (Str × Str)) : Str := [';'].intercalate (headers.map (·.1))

/-- `format!("{name}:{}\n", value.trim())` of each. -/
def headerBlock (headers : List (Str × Str)) : Str := headers.flatMap fun h => h.1 ++ ':' :: trim h.2 ++ ['\n']

/-- `{method}\n{uri}\n{query}\n{header_block}\n{signed_headers}\n{payload_hash}` -/
def requestText (method uri query block signed hash : Str) : Str :=
  method ++ '\n' :: (uri ++ '\n' :: (query ++ '\n' :: (block ++ '\n' :: (signed ++ '\n' :: hash))))

def canonicalRequest (crypto : Crypto) (token : Option Str) (method : Str) (url : Target) (payload : List UInt8)
    (amzDate : Str) : Str :=
  let headers := canonicalHeaders token url amzDate
  requestText method (canonicalUri url) (url.query.getD []) (headerBlock headers) (signedHeaders headers)
    (hexEncode (crypto.sha256 payload))

def credentialScope (date : Str) (scope : SigningScope) : Str :=
  date ++ '/' :: (scope.region ++ '/' :: (scope.service ++ '/' :: "aws4_request".toList))

def stringToSign (crypto : Crypto) (amzDate scope request : Str) : Str :=
  "AWS4-HMAC-SHA256\n".toList ++ amzDate ++ '\n' :: scope ++ '\n' :: hexEncode (crypto.sha256 (bytes request))

def signingKey (crypto : Crypto) (secret date : Str) (scope : SigningScope) : List UInt8 :=
  let kDate := crypto.hmacSha256 (bytes ("AWS4".toList ++ secret)) (bytes date)
  let kRegion := crypto.hmacSha256 kDate (bytes scope.region)
  let kService := crypto.hmacSha256 kRegion (bytes scope.service)
  crypto.hmacSha256 kService (bytes "aws4_request".toList)

/-- `&amz_date[..8]`: the date is ASCII. -/
def signature (crypto : Crypto) (secret amzDate : Str) (scope : SigningScope) (request : Str) : Str :=
  let date := amzDate.take 8
  hexEncode (crypto.hmacSha256 (signingKey crypto secret date scope)
    (bytes (stringToSign crypto amzDate (credentialScope date scope) request)))

def authorization (accessKeyId scope signed signature : Str) : Str :=
  "AWS4-HMAC-SHA256 ".toList ++ (("Credential=".toList ++ (accessKeyId ++ '/' :: scope)) ++
    ',' :: (' ' :: ("SignedHeaders=".toList ++ signed) ++ ',' :: (' ' :: ("Signature=".toList ++ signature))))

def signV4 (crypto : Crypto) (credentials : SigningCredentials) (scope : SigningScope) (method : Str) (url : Target)
    (payload : List UInt8) (amzDate : Str) : List (Str × Str) :=
  let request := canonicalRequest crypto credentials.sessionToken method url payload amzDate
  ("x-amz-date".toList, amzDate) ::
    credentials.sessionToken.toList.map (fun token => ("x-amz-security-token".toList, token)) ++
    [("authorization".toList, authorization credentials.accessKeyId (credentialScope (amzDate.take 8) scope)
      (signedHeaders (canonicalHeaders credentials.sessionToken url amzDate))
      (signature crypto credentials.secretAccessKey amzDate scope request))]

/-- A request as it arrives. Header names are in lower case. -/
structure HttpRequest where
  method : Str
  path : Str
  query : Option Str
  headers : List (Str × Str)
  body : List UInt8

def signedRequest (crypto : Crypto) (credentials : SigningCredentials) (method : Str) (url : Target) (payload amzDate : Str) :
    HttpRequest where
  method := method
  path := url.path
  query := url.query
  headers := ("host".toList, hostHeader url) :: signV4 crypto credentials signingScope method url (bytes payload) amzDate ++
    if payload.isEmpty then [] else [("content-type".toList, "application/xml".toList)]
  body := bytes payload

/-! ## The other side -/

def HttpRequest.header (req : HttpRequest) (name : Str) : Option Str := (req.headers.find? (·.1 = name)).map (·.2)

structure Authorization where
  accessKeyId : Str
  date : Str
  scope : SigningScope
  signedHeaders : List Str
  signature : Str

def readCredential (credential : Str) : Option (Str × Str × SigningScope) :=
  match credential.splitOn '/' with
  | [accessKeyId, date, region, service, terminator] =>
    if terminator = "aws4_request".toList then some (accessKeyId, date, ⟨region, service⟩) else none
  | _ => none

def readFields : List Str → Option Authorization
  | [credential, signed, signature] => do
    let (accessKeyId, date, scope) ← (← credential.dropPrefix? "Credential=".toList) |> readCredential
    let signed ← signed.dropPrefix? "SignedHeaders=".toList
    let signature ← signature.dropPrefix? "Signature=".toList
    return ⟨accessKeyId, date, scope, signed.splitOn ';', signature⟩
  | _ => none

def readAuthorization (value : Str) : Option Authorization :=
  (value.dropPrefix? "AWS4-HMAC-SHA256 ".toList).bind fun fields =>
    readFields ((fields.splitOn ',').map (·.dropWhile (· == ' ')))

/-- The query sorted and written in one way, whatever way it came. -/
def normalizeQuery (query : Option Str) : Option Str :=
  match query with
  | none => some []
  | some query => ((pairsOf query).mapM decodePair).map canonicalQuery

/-- Which accounts there are, by their keys. -/
structure Server where
  crypto : Crypto
  scope : SigningScope
  secretOf : Str → Option Str

namespace Server

variable (server : Server)

def text (req : HttpRequest) (names : List Str) : Option Str := do
  let headers ← names.mapM fun name => (req.header name).map (name, ·)
  let query ← normalizeQuery req.query
  return requestText req.method (Url.escape (fun c => unreserved c || c == '/') req.path) query (headerBlock headers)
    ([';'].intercalate names) (hexEncode (server.crypto.sha256 req.body))

/-- The host and every `x-amz-` header have to be signed. -/
def covers (req : HttpRequest) (names : List Str) : Bool :=
  names.contains "host".toList && req.headers.all fun h => !"x-amz-".toList.isPrefixOf h.1 || names.contains h.1

def verify (req : HttpRequest) : Option Bool := do
  let auth ← (← req.header "authorization".toList) |> readAuthorization
  let amzDate ← req.header "x-amz-date".toList
  let secret ← server.secretOf auth.accessKeyId
  let request ← server.text req auth.signedHeaders
  return decide (auth.date = amzDate.take 8) && decide (auth.scope.region = server.scope.region) &&
    decide (auth.scope.service = server.scope.service) && covers req auth.signedHeaders &&
    decide (auth.signature = signature server.crypto secret amzDate auth.scope request)

end Server

/-! ## Both sides make the same text -/

/-- Escaped segment by segment, a path is escaped as a whole but for its slashes. -/
theorem intercalate_sigv4Encode (s : Str) : ['/'].intercalate ((s.splitOn '/').map sigv4Encode) =
    Url.escape (fun c => unreserved c || c == '/') s := by
  induction s with
  | nil => rfl
  | cons c s ih =>
    obtain ⟨segment, segments, hs⟩ := List.exists_cons_of_ne_nil (List.splitOn_ne_nil '/' s)
    rw [List.splitOn_cons_eq_if_modifyHead, Url.escape_cons, ← ih, hs]
    by_cases hc : c = '/'
    · subst hc
      rw [if_pos (by rfl), List.map_cons, List.map_cons, List.intercalate_cons_cons]
      rfl
    · have hkeep : (unreserved c || c == '/') = unreserved c := by simp [hc]
      have hcons : sigv4Encode (c :: segment) =
          (if unreserved c then [c] else (String.utf8EncodeChar c).flatMap Url.percentEncode) ++ sigv4Encode segment :=
        Url.escape_cons ..
      rw [if_neg (by simpa using hc), List.modifyHead_cons, List.map_cons, List.map_cons, hkeep, hcons]
      cases segments with
      | nil => simp
      | cons next rest =>
        rw [List.map_cons, List.intercalate_cons_cons, List.intercalate_cons_cons]
        simp

theorem canonicalUri_eq {url : Target} (h : url.path ≠ []) :
    canonicalUri url = Url.escape (fun c => unreserved c || c == '/') url.path := by
  rw [canonicalUri, if_neg (by simpa using h), intercalate_sigv4Encode]

/-- What was encoded is decoded. -/
theorem mapM_decodePair {pairs : List (Str × Str)} (h : Encoded pairs) :
    ∃ params, pairs.mapM decodePair = some params ∧ params.map encodePair = pairs := by
  induction pairs with
  | nil => exact ⟨[], rfl, rfl⟩
  | cons pair pairs ih =>
    obtain ⟨param, rfl⟩ := h pair List.mem_cons_self
    obtain ⟨params, hparams, hmap⟩ := ih fun p hp => h p (List.mem_cons_of_mem _ hp)
    refine ⟨param :: params, ?_, by rw [List.map_cons, hmap]⟩
    rw [List.mapM_cons, decodePair_encodePair, hparams]
    rfl

/-- A canonical query is not changed. -/
theorem normalizeQuery_canonicalQuery (params : List (Str × Str)) :
    normalizeQuery (some (canonicalQuery params)) = some (canonicalQuery params) := by
  obtain ⟨ps, hps, hmap⟩ := mapM_decodePair (encoded_sorted params)
  have hperm : (ps.map encodePair).Perm (params.map encodePair) := by
    rw [hmap]
    exact List.mergeSort_perm _ _
  have hsame : canonicalQuery ps = canonicalQuery params := congrArg join (sorted_eq_of_perm hperm)
  rw [normalizeQuery, pairsOf_canonicalQuery, hps, Option.map_some, hsame]

/-! ## The header -/

theorem lowerHex_plain : ∀ n < 16, (lowerHex n).isAlphanum = true := by decide

theorem hexEncode_plain {bs : List UInt8} {c : Char} (h : c ∈ hexEncode bs) : c.isAlphanum = true := by
  obtain ⟨b, -, hb⟩ := List.mem_flatMap.1 h
  have hlt := b.toNat_lt
  have hhigh := lowerHex_plain (b.toNat / 16) (by omega)
  have hlow := lowerHex_plain (b.toNat % 16) (by omega)
  simp only [List.mem_cons, List.not_mem_nil, or_false] at hb
  rcases hb with rfl | rfl
  · exact hhigh
  · exact hlow

/-- A separator of the header. -/
def isMark (c : Char) : Bool := c == '/' || c == ',' || c == '\n'

theorem isMark_of_isAlphanum {c : Char} (h : c.isAlphanum = true) : isMark c = false := by
  rw [← Bool.not_eq_true]
  intro hmark
  simp only [isMark, Bool.or_eq_true, beq_iff_eq] at hmark
  rcases hmark with (rfl | rfl) | rfl <;> cases h

theorem padded_plain {width n : Nat} {c : Char} (h : c ∈ padded width n) : c.isAlphanum = true := by
  rcases List.mem_append.1 h with h | h
  · rw [(List.mem_replicate.1 h).2]
    rfl
  · have hdigit := Nat.isDigit_of_mem_toDigits (by decide) (by decide) h
    simp [Char.isAlphanum, hdigit]

theorem amzDate_plain {now : DateTime} {c : Char} (h : c ∈ amzDate now) : c.isAlphanum = true := by
  simp only [amzDate, List.mem_append, List.mem_cons, List.not_mem_nil, or_false] at h
  rcases h with ((h | h) | h) | rfl | (((h | h) | h) | rfl)
  · exact padded_plain h
  · exact padded_plain h
  · exact padded_plain h
  · rfl
  · exact padded_plain h
  · exact padded_plain h
  · exact padded_plain h
  · rfl

theorem dropPrefix_append (p s : Str) : (p ++ s).dropPrefix? p = some s :=
  List.dropPrefix?_append_of_beq s (beq_self_eq_true p)

theorem not_mem_intercalate {d : Char} {names : List Str} (h : ∀ name ∈ names, d ∉ name) (hd : d ≠ ';') :
    d ∉ [';'].intercalate names := by
  induction names with
  | nil => simp [List.intercalate]
  | cons name names ih =>
    rw [List.forall_mem_cons] at h
    cases names with
    | nil => simpa using h.1
    | cons next rest =>
      rw [List.intercalate_cons_cons, List.mem_append, List.mem_append, List.mem_singleton]
      exact fun hmem => hmem.elim (fun hmem => hmem.elim h.1 hd) (ih h.2)

theorem readCredential_scope {accessKeyId date : Str} {scope : SigningScope} (hid : '/' ∉ accessKeyId) (hdate : '/' ∉ date)
    (hregion : '/' ∉ scope.region) (hservice : '/' ∉ scope.service) :
    readCredential (accessKeyId ++ '/' :: credentialScope date scope) = some (accessKeyId, date, scope) := by
  have hend : '/' ∉ "aws4_request".toList := by decide
  rw [readCredential, credentialScope, List.splitOn_append_cons_self_of_not_mem hid,
    List.splitOn_append_cons_self_of_not_mem hdate, List.splitOn_append_cons_self_of_not_mem hregion,
    List.splitOn_append_cons_self_of_not_mem hservice, List.splitOn_eq_singleton hend]
  rfl

theorem readFields_write {accessKeyId date : Str} {scope : SigningScope} {names : List Str} (signature : Str)
    (hcredential : readCredential (accessKeyId ++ '/' :: credentialScope date scope) = some (accessKeyId, date, scope))
    (hsplit : ([';'].intercalate names).splitOn ';' = names) :
    readFields ["Credential=".toList ++ (accessKeyId ++ '/' :: credentialScope date scope),
      "SignedHeaders=".toList ++ [';'].intercalate names, "Signature=".toList ++ signature] =
      some ⟨accessKeyId, date, scope, names, signature⟩ := by
  dsimp only [readFields]
  rw [dropPrefix_append, dropPrefix_append, dropPrefix_append]
  simp only [Option.bind_eq_bind, Option.bind_some, hcredential, hsplit]
  rfl

/-- The fields are separated by a comma and a blank. -/
theorem fields_split {a b c : Str} (ha : ',' ∉ a) (hb : ',' ∉ b) (hc : ',' ∉ c) (ha' : a.head? ≠ some ' ')
    (hb' : b.head? ≠ some ' ') (hc' : c.head? ≠ some ' ') :
    ((a ++ ',' :: (' ' :: b ++ ',' :: (' ' :: c))).splitOn ',').map (·.dropWhile (· == ' ')) = [a, b, c] := by
  have hkeep : ∀ {s : Str}, s.head? ≠ some ' ' → s.dropWhile (· == ' ') = s := by
    intro s hs
    cases s with
    | nil => rfl
    | cons d s =>
      rw [List.dropWhile_cons_of_neg]
      simpa using hs
  have hb₂ : ',' ∉ ' ' :: b := by simp [hb]
  have hc₂ : ',' ∉ ' ' :: c := by simp [hc]
  rw [List.splitOn_append_cons_self_of_not_mem ha, List.splitOn_append_cons_self_of_not_mem hb₂,
    List.splitOn_eq_singleton hc₂]
  simp [hkeep ha', hkeep hb', hkeep hc']

/-- **The header is read as it was written.** -/
theorem readAuthorization_authorization {accessKeyId date signature : Str} {scope : SigningScope} {names : List Str}
    (hid : ∀ c ∈ accessKeyId, isMark c = false) (hdate : ∀ c ∈ date, isMark c = false)
    (hregion : ∀ c ∈ scope.region, isMark c = false) (hservice : ∀ c ∈ scope.service, isMark c = false)
    (hsignature : ∀ c ∈ signature, isMark c = false) (hnames : ∀ name ∈ names, ';' ∉ name ∧ ',' ∉ name) (hne : names ≠ []) :
    readAuthorization (authorization accessKeyId (credentialScope date scope) ([';'].intercalate names) signature) =
      some ⟨accessKeyId, date, scope, names, signature⟩ := by
  have hslash : ∀ {s : Str}, (∀ c ∈ s, isMark c = false) → '/' ∉ s := fun h hmem => absurd (h _ hmem) (by decide)
  have hcomma : ∀ {s : Str}, (∀ c ∈ s, isMark c = false) → ',' ∉ s := fun h hmem => absurd (h _ hmem) (by decide)
  have hfirst : ',' ∉ "Credential=".toList ++ (accessKeyId ++ '/' :: credentialScope date scope) := by
    have hc₁ : ',' ∉ "Credential=".toList := by decide
    have hc₂ : ',' ∉ "aws4_request".toList := by decide
    have hc₃ : ',' ≠ '/' := by decide
    simp only [credentialScope, List.mem_append, List.mem_cons, not_or]
    exact ⟨hc₁, hcomma hid, hc₃, hcomma hdate, hc₃, hcomma hregion, hc₃, hcomma hservice, hc₃, hc₂⟩
  have hsecond : ',' ∉ "SignedHeaders=".toList ++ [';'].intercalate names := by
    have hc₁ : ',' ∉ "SignedHeaders=".toList := by decide
    rw [List.mem_append, not_or]
    exact ⟨hc₁, not_mem_intercalate (fun name hname => (hnames name hname).2) (by decide)⟩
  have hthird : ',' ∉ "Signature=".toList ++ signature := by
    have hc₁ : ',' ∉ "Signature=".toList := by decide
    rw [List.mem_append, not_or]
    exact ⟨hc₁, hcomma hsignature⟩
  have hfields := readFields_write signature
    (readCredential_scope (hslash hid) (hslash hdate) (hslash hregion) (hslash hservice))
    (List.splitOn_intercalate ';' (fun name hname => (hnames name hname).1) hne)
  rw [← fields_split hfirst hsecond hthird (by simp) (by simp) (by simp)] at hfields
  unfold readAuthorization authorization
  rw [dropPrefix_append]
  exact hfields

/-! ## Signatures that verify -/

section Verify

variable (crypto : Crypto) (credentials : SigningCredentials) (method : Str) (url : Target) (payload amzDate : Str)

/-- The headers that were signed arrive. -/
theorem header_canonical : ∀ h ∈ canonicalHeaders credentials.sessionToken url amzDate,
    (signedRequest crypto credentials method url payload amzDate).header h.1 = some h.2 := by
  intro h hmem
  obtain ⟨accessKeyId, secret, token⟩ := credentials
  cases token with
  | none =>
    simp only [canonicalHeaders, Option.toList_none, List.map_nil, List.append_nil, List.mem_cons, List.not_mem_nil,
      or_false] at hmem
    rcases hmem with rfl | rfl <;> rfl
  | some token =>
    simp only [canonicalHeaders, Option.toList_some, List.map_cons, List.map_nil, List.mem_append, List.mem_cons,
      List.not_mem_nil, or_false] at hmem
    rcases hmem with (rfl | rfl) | rfl <;> rfl

theorem header_authorization : (signedRequest crypto credentials method url payload amzDate).header "authorization".toList =
    some (authorization credentials.accessKeyId (credentialScope (amzDate.take 8) signingScope)
      (signedHeaders (canonicalHeaders credentials.sessionToken url amzDate))
      (signature crypto credentials.secretAccessKey amzDate signingScope
        (canonicalRequest crypto credentials.sessionToken method url (bytes payload) amzDate))) := by
  obtain ⟨accessKeyId, secret, token⟩ := credentials
  cases token <;> rfl

theorem covers_signed : Server.covers (signedRequest crypto credentials method url payload amzDate)
    ((canonicalHeaders credentials.sessionToken url amzDate).map (·.1)) = true := by
  obtain ⟨accessKeyId, secret, token⟩ := credentials
  cases token <;> cases payload <;> rfl

end Verify

theorem mapM_header {req : HttpRequest} {headers : List (Str × Str)} (h : ∀ x ∈ headers, req.header x.1 = some x.2) :
    (headers.map (·.1)).mapM (fun name => (req.header name).map (name, ·)) = some headers := by
  induction headers with
  | nil => rfl
  | cons x headers ih =>
    rw [List.forall_mem_cons] at h
    rw [List.map_cons, List.mapM_cons, h.1, ih h.2]
    rfl

/-- The server makes the text that was signed. -/
theorem text_signed (server : Server) (credentials : SigningCredentials) (method : Str) {url : Target} (payload amzDate : Str)
    (hpath : url.path ≠ []) (hquery : normalizeQuery url.query = some (url.query.getD [])) :
    server.text (signedRequest server.crypto credentials method url payload amzDate)
        ((canonicalHeaders credentials.sessionToken url amzDate).map (·.1)) =
      some (canonicalRequest server.crypto credentials.sessionToken method url (bytes payload) amzDate) := by
  have hheaders := mapM_header (header_canonical server.crypto credentials method url payload amzDate)
  have hsame : normalizeQuery (signedRequest server.crypto credentials method url payload amzDate).query =
      some (url.query.getD []) := hquery
  rw [Server.text, hheaders, hsame, canonicalRequest, canonicalUri_eq hpath]
  rfl

/-- What a server has to know to verify what a client signs. -/
structure Server.Knows (server : Server) (credentials : SigningCredentials) : Prop where
  scope : server.scope = signingScope
  secret : server.secretOf credentials.accessKeyId = some credentials.secretAccessKey
  /-- An access key id is letters and digits. -/
  plain : ∀ c ∈ credentials.accessKeyId, isMark c = false

/-- **What is signed verifies.** -/
theorem verify_signed {server : Server} {credentials : SigningCredentials} (h : server.Knows credentials) (method : Str)
    {url : Target} (payload : Str) (now : DateTime) (hpath : url.path ≠ [])
    (hquery : normalizeQuery url.query = some (url.query.getD [])) :
    server.verify (signedRequest server.crypto credentials method url payload (amzDate now)) = some true := by
  have hdate : ∀ c ∈ (amzDate now).take 8, isMark c = false :=
    fun c hc => isMark_of_isAlphanum (amzDate_plain (List.mem_of_mem_take hc))
  have hnames : ∀ name ∈ (canonicalHeaders credentials.sessionToken url (amzDate now)).map (·.1),
      ';' ∉ name ∧ ',' ∉ name := by
    obtain ⟨accessKeyId, secret, token⟩ := credentials
    have hthree : ∀ name ∈ ["host".toList, "x-amz-date".toList, "x-amz-security-token".toList],
        ';' ∉ name ∧ ',' ∉ name := by decide
    intro name hname
    refine hthree name ?_
    cases token with
    | none =>
      have hmem : name ∈ ["host".toList, "x-amz-date".toList] := hname
      exact List.mem_append_left ["x-amz-security-token".toList] hmem
    | some token => exact hname
  have hunmarked : ∀ {s : Str}, (s.all fun c => !isMark c) = true → ∀ c ∈ s, isMark c = false := by
    intro s hs c hc
    simpa using List.all_eq_true.1 hs c hc
  have hregion : ∀ c ∈ signingScope.region, isMark c = false := hunmarked rfl
  have hservice : ∀ c ∈ signingScope.service, isMark c = false := hunmarked rfl
  let request := canonicalRequest server.crypto credentials.sessionToken method url (bytes payload) (amzDate now)
  have hsignature : ∀ c ∈ signature server.crypto credentials.secretAccessKey (amzDate now) signingScope request,
      isMark c = false := fun c hc => isMark_of_isAlphanum (hexEncode_plain hc)
  have hread := readAuthorization_authorization h.plain hdate hregion hservice hsignature hnames
    (by simp [canonicalHeaders])
  have hamz : (signedRequest server.crypto credentials method url payload (amzDate now)).header "x-amz-date".toList =
      some (amzDate now) :=
    header_canonical server.crypto credentials method url payload (amzDate now) ("x-amz-date".toList, amzDate now)
      (List.mem_append_left _ (by simp))
  have htext := text_signed server credentials method payload (amzDate now) hpath hquery
  have hcovers := covers_signed server.crypto credentials method url payload (amzDate now)
  unfold Server.verify
  rw [header_authorization, hamz]
  simp only [Option.bind_eq_bind, Option.bind_some]
  have hsigned : readAuthorization (authorization credentials.accessKeyId
      (credentialScope ((amzDate now).take 8) signingScope)
      (signedHeaders (canonicalHeaders credentials.sessionToken url (amzDate now)))
      (signature server.crypto credentials.secretAccessKey (amzDate now) signingScope request)) = some ⟨_, _, _, _, _⟩ := hread
  rw [hsigned]
  simp only [Option.bind_some, h.secret, htext, hcovers, h.scope]
  simp [request]

/-! ## What a signature stands for -/

theorem hexEncode_injective : Function.Injective hexEncode := by
  have hdigit : ∀ m < 16, ∀ n < 16, lowerHex m = lowerHex n → m = n := by decide
  intro a
  induction a with
  | nil =>
    intro b h
    cases b with
    | nil => rfl
    | cons y b => cases h
  | cons x a ih =>
    intro b h
    cases b with
    | nil => cases h
    | cons y b =>
      simp only [hexEncode, List.flatMap_cons, List.cons_append, List.nil_append, List.cons.injEq] at h
      obtain ⟨hhigh, hlow, hrest⟩ := h
      have hx := x.toNat_lt
      have hy := y.toNat_lt
      have h₁ := hdigit (x.toNat / 16) (by omega) (y.toNat / 16) (by omega) hhigh
      have h₂ := hdigit (x.toNat % 16) (by omega) (y.toNat % 16) (by omega) hlow
      have hxy : x = y := UInt8.toNat_inj.1 (by omega)
      rw [hxy, ih hrest]

theorem escape_injective {keep : Char → Bool} (h : keep '%' = false) : Function.Injective (Url.escape keep) := by
  intro a b hab
  have hbytes := congrArg Url.percentDecode hab
  rw [Url.percentDecode_escape h, Url.percentDecode_escape h] at hbytes
  exact bytes_injective hbytes

theorem not_mem_escape {keep : Char → Bool} {d : Char} (hkeep : keep d = false) (hpercent : d ≠ '%')
    (hdigit : ∀ n < 16, Url.hexDigit n ≠ d) (s : Str) : d ∉ Url.escape keep s := by
  intro hmem
  obtain ⟨c, -, hc⟩ := List.mem_flatMap.1 hmem
  split at hc
  · rename_i hc'
    obtain rfl := List.mem_singleton.1 hc
    rw [hkeep] at hc'
    cases hc'
  · obtain ⟨b, -, hb⟩ := List.mem_flatMap.1 hc
    have hlt := b.toNat_lt
    simp only [Url.percentEncode, List.mem_cons, List.not_mem_nil, or_false] at hb
    rcases hb with rfl | rfl | rfl
    · exact hpercent rfl
    · exact hdigit (b.toNat / 16) (by omega) rfl
    · exact hdigit (b.toNat % 16) (by omega) rfl

/-- A line for each header. -/
def headerLine (h : Str × Str) : Str := h.1 ++ ':' :: trim h.2

/-- The lines of a canonical request. -/
theorem splitOn_requestText {method uri query signed hash : Str} {headers : List (Str × Str)} (hmethod : '\n' ∉ method)
    (huri : '\n' ∉ uri) (hquery : '\n' ∉ query) (hheaders : ∀ h ∈ headers, '\n' ∉ headerLine h) (hsigned : '\n' ∉ signed)
    (hhash : '\n' ∉ hash) : (requestText method uri query (headerBlock headers) signed hash).splitOn '\n' =
      method :: uri :: query :: (headers.map headerLine ++ [[], signed, hash]) := by
  have hblock : ∀ rest : Str, (headerBlock headers ++ rest).splitOn '\n' = headers.map headerLine ++ rest.splitOn '\n' := by
    intro rest
    induction headers with
    | nil => rfl
    | cons h headers ih =>
      rw [List.forall_mem_cons] at hheaders
      have hcons : headerBlock (h :: headers) ++ rest = headerLine h ++ '\n' :: (headerBlock headers ++ rest) := by
        simp [headerBlock, headerLine]
      rw [hcons, List.splitOn_append_cons_self_of_not_mem hheaders.1, ih hheaders.2]
      rfl
  have hend : ('\n' :: (signed ++ '\n' :: hash)).splitOn '\n' = [[], signed, hash] := by
    have hnil := List.splitOn_append_cons_self_of_not_mem (List.not_mem_nil (a := '\n')) (signed ++ '\n' :: hash)
    rw [List.nil_append] at hnil
    rw [hnil, List.splitOn_append_cons_self_of_not_mem hsigned, List.splitOn_eq_singleton hhash]
  rw [requestText, List.splitOn_append_cons_self_of_not_mem hmethod, List.splitOn_append_cons_self_of_not_mem huri,
    List.splitOn_append_cons_self_of_not_mem hquery, hblock, hend]

/-- What a signature is made of. The method, the URL and the token are such as an HTTP client takes. -/
structure Signing where
  method : Str
  url : Target
  token : Option Str
  payload : List UInt8
  now : DateTime
  method_line : '\n' ∉ method
  path_ne : url.path ≠ []
  query_line : '\n' ∉ url.query.getD []
  host_plain : ∀ c ∈ hostHeader url, isWhitespace c = false
  token_plain : ∀ t ∈ token, ∀ c ∈ t, isWhitespace c = false

namespace Signing

variable {crypto : Crypto} {x y : Signing}

def request (crypto : Crypto) (x : Signing) : Str :=
  canonicalRequest crypto x.token x.method x.url x.payload (amzDate x.now)

def text (crypto : Crypto) (x : Signing) : Str :=
  stringToSign crypto (amzDate x.now) (credentialScope ((amzDate x.now).take 8) signingScope) (x.request crypto)

theorem newline_plain {s : Str} (h : ∀ c ∈ s, isWhitespace c = false) : '\n' ∉ s :=
  fun hmem => absurd (h _ hmem) (by decide)

theorem newline_alphanum {s : Str} (h : ∀ c ∈ s, c.isAlphanum = true) : '\n' ∉ s :=
  fun hmem => absurd (h _ hmem) (by decide)

theorem header_plain (x : Signing) {h : Str × Str} (hmem : h ∈ canonicalHeaders x.token x.url (amzDate x.now)) :
    (∀ c ∈ h.2, isWhitespace c = false) ∧ '\n' ∉ h.1 := by
  have hnames : '\n' ∉ "host".toList ∧ '\n' ∉ "x-amz-date".toList ∧ '\n' ∉ "x-amz-security-token".toList := by decide
  rcases List.mem_append.1 hmem with hmem | hmem
  · simp only [List.mem_cons, List.not_mem_nil, or_false] at hmem
    rcases hmem with rfl | rfl
    · exact ⟨x.host_plain, hnames.1⟩
    · refine ⟨fun c hc => not_isWhitespace ?_, hnames.2.1⟩
      simp [isNameChar, amzDate_plain hc]
  · obtain ⟨t, ht, rfl⟩ := List.mem_map.1 hmem
    exact ⟨x.token_plain t (by simpa using ht), hnames.2.2⟩

/-- Nothing is trimmed. -/
theorem headerLine_eq (x : Signing) {h : Str × Str} (hmem : h ∈ canonicalHeaders x.token x.url (amzDate x.now)) :
    headerLine h = h.1 ++ ':' :: h.2 := by
  rw [headerLine, trim_of_forall (x.header_plain hmem).1]

/-- The lines of what is signed. -/
theorem request_lines (x : Signing) : (x.request crypto).splitOn '\n' =
    x.method :: canonicalUri x.url :: x.url.query.getD [] ::
      ((canonicalHeaders x.token x.url (amzDate x.now)).map headerLine ++
        [[], signedHeaders (canonicalHeaders x.token x.url (amzDate x.now)), hexEncode (crypto.sha256 x.payload)]) := by
  have huri : '\n' ∉ canonicalUri x.url := by
    rw [canonicalUri_eq x.path_ne]
    exact not_mem_escape rfl (by decide) (by decide) _
  refine splitOn_requestText x.method_line huri x.query_line (fun h hmem => ?_) ?_ ?_
  · obtain ⟨hvalue, hname⟩ := x.header_plain hmem
    rw [x.headerLine_eq hmem, List.mem_append, List.mem_cons, not_or, not_or]
    exact ⟨hname, by decide, newline_plain hvalue⟩
  · refine not_mem_intercalate (fun name hname => ?_) (by decide)
    obtain ⟨h, hmem, rfl⟩ := List.mem_map.1 hname
    exact (x.header_plain hmem).2
  · exact newline_alphanum fun c hc => hexEncode_plain hc

/-- Equal headers are those of equal hosts, times and tokens. -/
theorem headers_inj (h : (canonicalHeaders x.token x.url (amzDate x.now)).map headerLine =
    (canonicalHeaders y.token y.url (amzDate y.now)).map headerLine) :
    hostHeader x.url = hostHeader y.url ∧ amzDate x.now = amzDate y.now ∧ x.token = y.token := by
  have hlines : ∀ z : Signing, (canonicalHeaders z.token z.url (amzDate z.now)).map headerLine =
      (canonicalHeaders z.token z.url (amzDate z.now)).map fun h => h.1 ++ ':' :: h.2 :=
    fun z => List.map_congr_left fun h hmem => z.headerLine_eq hmem
  rw [hlines, hlines] at h
  simp only [canonicalHeaders, List.map_cons, List.cons_append, List.nil_append, List.cons.injEq,
    List.append_cancel_left_eq, true_and] at h
  obtain ⟨hhost, hdate, htoken⟩ := h
  refine ⟨hhost, hdate, ?_⟩
  cases hx : x.token with
  | none =>
    cases hy : y.token with
    | none => rfl
    | some u =>
      rw [hx, hy] at htoken
      cases htoken
  | some t =>
    cases hy : y.token with
    | none =>
      rw [hx, hy] at htoken
      cases htoken
    | some u =>
      rw [hx, hy] at htoken
      simp only [Option.toList_some, List.map_cons, List.map_nil, List.cons.injEq, List.append_cancel_left_eq, true_and,
        and_true] at htoken
      rw [htoken]

theorem stringToSign_eq (crypto : Crypto) (amzDate scope request : Str) : stringToSign crypto amzDate scope request =
    "AWS4-HMAC-SHA256".toList ++ '\n' :: (amzDate ++ '\n' :: (scope ++
      '\n' :: hexEncode (crypto.sha256 (bytes request)))) := by
  have hassoc : ∀ name hash : Str, name ++ ['\n'] ++ amzDate ++ '\n' :: scope ++ '\n' :: hash =
      name ++ '\n' :: (amzDate ++ '\n' :: (scope ++ '\n' :: hash)) := by simp
  exact hassoc "AWS4-HMAC-SHA256".toList _

/-- The string to sign ends with the digest of the request. -/
theorem digest_of_text (h : x.text crypto = y.text crypto) :
    crypto.sha256 (bytes (x.request crypto)) = crypto.sha256 (bytes (y.request crypto)) := by
  have hlast : ∀ z : Signing, ((z.text crypto).splitOn '\n').getLast? =
      some (hexEncode (crypto.sha256 (bytes (z.request crypto)))) := by
    intro z
    have hdate : '\n' ∉ amzDate z.now := newline_alphanum fun c hc => amzDate_plain hc
    have hscope : '\n' ∉ credentialScope ((amzDate z.now).take 8) signingScope := by
      have hrest : '\n' ∉ "/us-east-1/route53/aws4_request".toList := by decide
      intro hmem
      rcases List.mem_append.1 hmem with hmem | hmem
      · exact hdate (List.mem_of_mem_take hmem)
      · exact hrest hmem
    have hhash : '\n' ∉ hexEncode (crypto.sha256 (bytes (z.request crypto))) := newline_alphanum fun c hc => hexEncode_plain hc
    have hname : '\n' ∉ "AWS4-HMAC-SHA256".toList := by decide
    rw [text, stringToSign_eq, List.splitOn_append_cons_self_of_not_mem hname,
      List.splitOn_append_cons_self_of_not_mem hdate, List.splitOn_append_cons_self_of_not_mem hscope,
      List.splitOn_eq_singleton hhash]
    rfl
  have hsome := hlast x
  rw [h, hlast y] at hsome
  exact hexEncode_injective (Option.some.inj hsome).symm

/-- All that a request says. -/
structure Same (x y : Signing) : Prop where
  method : x.method = y.method
  path : x.url.path = y.url.path
  query : x.url.query.getD [] = y.url.query.getD []
  host : hostHeader x.url = hostHeader y.url
  now : amzDate x.now = amzDate y.now
  token : x.token = y.token
  payload : x.payload = y.payload

/-- Equal canonical requests are those of one request, but for bodies with the same digest. -/
theorem request_inj (h : x.request crypto = y.request crypto) : x.Same y ∨ crypto.Collide x.payload y.payload := by
  -- the lines are compared one by one: the last three of each text follow its headers
  have hlines := congrArg (List.splitOn '\n') h
  rw [request_lines, request_lines] at hlines
  simp only [List.cons.injEq] at hlines
  obtain ⟨hmethod, huri, hquery, hrest⟩ := hlines
  obtain ⟨hheaders, hend⟩ := List.append_inj' hrest rfl
  simp only [List.cons.injEq, true_and, and_true] at hend
  obtain ⟨hhost, hdate, htoken⟩ := headers_inj hheaders
  have hpath : x.url.path = y.url.path := by
    rw [canonicalUri_eq x.path_ne, canonicalUri_eq y.path_ne] at huri
    exact escape_injective rfl huri
  by_cases hpayload : x.payload = y.payload
  · exact Or.inl ⟨hmethod, hpath, hquery, hhost, hdate, htoken, hpayload⟩
  · exact Or.inr ⟨hpayload, hexEncode_injective hend.2⟩

end Signing

/-- **A signature stands for one request.** If two requests have the same string to sign, then they are the same
request: method, path, query, host, time, token and body; or else their bodies, or their canonical requests, are two
texts with the same digest. -/
theorem signature_binds_request {crypto : Crypto} (x y : Signing) (h : x.text crypto = y.text crypto) :
    x.Same y ∨ crypto.Collide x.payload y.payload ∨
      crypto.Collide (bytes (x.request crypto)) (bytes (y.request crypto)) := by
  by_cases hrequest : x.request crypto = y.request crypto
  · exact (Signing.request_inj hrequest).imp_right Or.inl
  · exact Or.inr (Or.inr ⟨fun hb => hrequest (bytes_injective hb), Signing.digest_of_text h⟩)

/-- A request of the API's change endpoint. -/
def changeSigning (query : Option Str) (hquery : '\n' ∉ query.getD []) : Signing where
  method := "GET".toList
  url := ⟨"route53.amazonaws.com".toList, none, "/2013-04-01/change/C1".toList, query⟩
  token := none
  payload := []
  now := ⟨2026, 1, 2, 3, 4, 5⟩
  method_line := by decide
  path_ne := by simp
  query_line := hquery
  host_plain c hc := by
    have hall : ("route53.amazonaws.com".toList.all fun c => !isWhitespace c) = true := rfl
    simpa using List.all_eq_true.1 hall c hc
  token_plain := by simp

/-- A digest of one byte. -/
def parity : Crypto where
  sha256 bs := [bs.foldl (· ^^^ ·) 0]
  hmacSha256 key data := [(key ++ data).foldl (· ^^^ ·) 0]

/-- An empty query is signed as none: neither the bodies nor the canonical requests differ. -/
theorem signature_binds_request_empty :
    (changeSigning none (by decide)).text parity = (changeSigning (some []) (by decide)).text parity ∧
      (changeSigning none (by decide)).Same (changeSigning (some []) (by decide)) := by
  have htext : (changeSigning none (by decide)).text parity = (changeSigning (some []) (by decide)).text parity := rfl
  refine ⟨htext, ?_⟩
  rcases signature_binds_request _ _ htext with hsame | ⟨hbodies, -⟩ | ⟨hrequests, -⟩
  · exact hsame
  · exact absurd rfl hbodies
  · exact absurd rfl hrequests

end Cheti.Route53
