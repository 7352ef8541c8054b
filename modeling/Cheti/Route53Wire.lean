import Cheti.Base.Xml
import Cheti.LockKeys
import Cheti.PathSegments
import Cheti.Providers.Route53
import Cheti.RequestSigning
/-!
# Route53's requests as they are sent (src/providers/route53.rs:178-256, 290-406, 445-471)

| here | there |
| --- | --- |
| `Req.verb`, `Req.path`, `Req.params`, `Req.body` | the arguments of `send` in `find_public_zone` (route53.rs:290-300), `fetch_rrset` (route53.rs:327-336), `change_rrset` (route53.rs:364-375) and `fetch_change` (route53.rs:399-403) |
| `changeBatchXml` | `change_batch_xml` (route53.rs:445-471) |
| `apiBase`        | `ROUTE53_API_BASE` (route53.rs:21) |
| `target`         | the URL of `send` (route53.rs:185-193), parsed |
| `sent`           | the request of `send_signed` (route53.rs:215-246) |

`Server.receive` is the other side: it verifies the signature, finds the resource by the path, reads the parameters and
the document. `Sendable` is what a request has to be to come through: its ids are letters and digits, and its name and
values have only characters that XML can carry. The run lemmas say that `present` and `cleanup` send no other requests:
names and values are validated, ids are normalized, and values of others come from XML documents.
-/

namespace Cheti.Route53

open Text

/-! ## What is sent -/

def Action.name : Action → Str
  | .upsert => "UPSERT".toList
  | .delete => "DELETE".toList

def xmlNamespace : Str := "https://route53.amazonaws.com/doc/2013-04-01/".toList

def recordXml (value : Str) : Str :=
  "<ResourceRecord><Value>".toList ++ Xml.escape value ++ "</Value></ResourceRecord>".toList

def changeBatchXml (action : Action) (name : Str) (set : TxtSet) : Str :=
  "<?xml version=\"1.0\" encoding=\"UTF-8\"?><ChangeResourceRecordSetsRequest xmlns=\"".toList ++ xmlNamespace ++
    "\"><ChangeBatch><Changes><Change><Action>".toList ++ action.name ++
    "</Action><ResourceRecordSet><Name>".toList ++ Xml.escape name ++
    "</Name><Type>TXT</Type><TTL>".toList ++ Nat.toDigits 10 set.ttl ++
    "</TTL><ResourceRecords>".toList ++ set.values.flatMap recordXml ++
    "</ResourceRecords></ResourceRecordSet></Change></Changes></ChangeBatch></ChangeResourceRecordSetsRequest>".toList

namespace Req

def verb : Req → Str
  | .zonesByName _ | .rrset _ _ | .getChange _ => "GET".toList
  | .change _ _ _ _ => "POST".toList

def path : Req → Str
  | .zonesByName _ => "/hostedzonesbyname".toList
  | .rrset zoneId _ => "/hostedzone/".toList ++ zoneId ++ "/rrset".toList
  | .change zoneId _ _ _ => "/hostedzone/".toList ++ zoneId ++ "/rrset/".toList
  | .getChange id => "/change/".toList ++ id

def params : Req → List (Str × Str)
  | .zonesByName dnsname => [("dnsname".toList, dnsname), ("maxitems".toList, "100".toList)]
  | .rrset _ name => [("name".toList, name), ("type".toList, "TXT".toList), ("maxitems".toList, "1".toList)]
  | .change _ _ _ _ | .getChange _ => []

def body : Req → Option Str
  | .change _ action name set => some (changeBatchXml action name set)
  | .zonesByName _ | .rrset _ _ | .getChange _ => none

end Req

/-- An API base: the host, and a path of plain segments. -/
structure ApiBase where
  host : Str
  port : Option Nat
  segments : List Str
  plain : ∀ segment ∈ segments, Url.Plain segment
  no_dots : ∀ segment ∈ segments, segment ∉ Url.singleDots ∧ segment ∉ Url.doubleDots

def target (base : ApiBase) (q : Req) : Target :=
  let rawUrl := Url.joined base.segments ++ q.path
  let query := canonicalQuery q.params
  let url := Url.parse (if query.isEmpty then rawUrl else rawUrl ++ '?' :: query)
  ⟨base.host, base.port, Url.joined url.path, url.query⟩

def sent (crypto : Crypto) (credentials : SigningCredentials) (base : ApiBase) (now : DateTime) (q : Req) : HttpRequest :=
  signedRequest crypto credentials q.verb (target base q) (q.body.getD []) (amzDate now)

/-! ## The other side -/

def param (params : List (Str × Str)) (key : String) : Option Str := (params.find? (·.1 = key.toList)).map (·.2)

/-- An element that holds only text. -/
def leaf (name : String) : List Xml.Piece → Option (Str × List Xml.Piece)
  | (.start opened _, text) :: (.stop closed, []) :: rest =>
    if opened = name.toList ∧ closed = name.toList then some (text, rest) else none
  | _ => none

def opening (name : String) : List Xml.Piece → Option (List Xml.Piece)
  | (.start opened _, []) :: rest => if opened = name.toList then some rest else none
  | _ => none

def closing (name : String) : List Xml.Piece → Option (List Xml.Piece)
  | (.stop closed, []) :: rest => if closed = name.toList then some rest else none
  | _ => none

def readNat (digits : Str) : Option Nat :=
  if digits.isEmpty || !digits.all Char.isDigit then none else some (Nat.ofDigitChars 10 digits 0)

def readAction (text : Str) : Option Action :=
  if text = "UPSERT".toList then some .upsert else if text = "DELETE".toList then some .delete else none

/-- Records up to the end of the list, at most as many as there are pieces. -/
def readRecords : Nat → List Xml.Piece → Option (List Str × List Xml.Piece)
  | 0, _ => none
  | fuel + 1, pieces =>
    match closing "ResourceRecords" pieces with
    | some rest => some ([], rest)
    | none => do
      let pieces ← opening "ResourceRecord" pieces
      let (value, pieces) ← leaf "Value" pieces
      let pieces ← closing "ResourceRecord" pieces
      let (values, rest) ← readRecords fuel pieces
      return (value :: values, rest)

def readRecordSet (pieces : List Xml.Piece) : Option ((Str × TxtSet) × List Xml.Piece) := do
  let pieces ← opening "ResourceRecordSet" pieces
  let (name, pieces) ← leaf "Name" pieces
  let (type, pieces) ← leaf "Type" pieces
  let (ttl, pieces) ← leaf "TTL" pieces
  let pieces ← opening "ResourceRecords" pieces
  let (values, pieces) ← readRecords pieces.length pieces
  let pieces ← closing "ResourceRecordSet" pieces
  let ttl ← readNat ttl
  if type = txt then some ((name, ⟨ttl, values⟩), pieces) else none

/-- A batch of one change. -/
def readBatch : List Xml.Piece → Option (Action × Str × TxtSet)
  | (.decl _, []) :: (.start root attributes, []) :: pieces =>
    if root = "ChangeResourceRecordSetsRequest".toList ∧ attributes = " xmlns=\"".toList ++ xmlNamespace ++ ['"'] then do
      let pieces ← opening "Change" (← opening "Changes" (← opening "ChangeBatch" pieces))
      let (action, pieces) ← leaf "Action" pieces
      let ((name, set), pieces) ← readRecordSet pieces
      let pieces ← closing "ChangeBatch" (← closing "Changes" (← closing "Change" pieces))
      let pieces ← closing "ChangeResourceRecordSetsRequest" pieces
      let action ← readAction action
      if pieces.isEmpty then some (action, name, set) else none
    else none
  | _ => none

def readZonesByName (params : List (Str × Str)) : Option Req :=
  if param params "maxitems" = some "100".toList then (param params "dnsname").map .zonesByName else none

def readRrset (zoneId : Str) (params : List (Str × Str)) : Option Req :=
  if param params "type" = some "TXT".toList ∧ param params "maxitems" = some "1".toList then
    (param params "name").map (.rrset zoneId)
  else none

def readChange (zoneId : Str) (body : List UInt8) : Option Req := do
  let (action, name, set) ← readBatch (← Xml.read (← ofBytes body))
  return .change zoneId action name set

def route (base : ApiBase) (req : HttpRequest) : Option Req := do
  let path ← req.path.dropPrefix? (Url.joined base.segments)
  let params ← (pairsOf (req.query.getD [])).mapM decodePair
  match Url.rawSegments path with
  | [resource] =>
    if req.method = "GET".toList ∧ resource = "hostedzonesbyname".toList then readZonesByName params else none
  | [resource, id] => if req.method = "GET".toList ∧ resource = "change".toList then some (.getChange id) else none
  | [resource, id, part] =>
    if req.method = "GET".toList ∧ resource = "hostedzone".toList ∧ part = "rrset".toList then readRrset id params else none
  | [resource, id, part, []] =>
    if req.method = "POST".toList ∧ resource = "hostedzone".toList ∧ part = "rrset".toList then readChange id req.body
    else none
  | _ => none

/-- What the server makes of a request; `none` where it is refused. -/
def Server.receive (server : Server) (base : ApiBase) (req : HttpRequest) : Option Req :=
  if server.verify req = some true then route base req else none

/-! ## The document -/

open Xml (Tag Piece)

def recordPieces (value : Str) : List Piece :=
  Xml.upTo [.start "ResourceRecord".toList [], .start "Value".toList []] value ++
    Xml.upTo [.stop "Value".toList, .stop "ResourceRecord".toList] []

/-- The change batch, piece by piece. -/
def batchPieces (action : Action) (name : Str) (set : TxtSet) : List Piece :=
  Xml.upTo [.decl "xml version=\"1.0\" encoding=\"UTF-8\"".toList,
      .start "ChangeResourceRecordSetsRequest".toList (" xmlns=\"".toList ++ xmlNamespace ++ ['"']),
      .start "ChangeBatch".toList [], .start "Changes".toList [], .start "Change".toList [],
      .start "Action".toList []] action.name ++
    Xml.upTo [.stop "Action".toList, .start "ResourceRecordSet".toList [], .start "Name".toList []] name ++
    Xml.upTo [.stop "Name".toList, .start "Type".toList []] "TXT".toList ++
    Xml.upTo [.stop "Type".toList, .start "TTL".toList []] (Nat.toDigits 10 set.ttl) ++
    Xml.upTo [.stop "TTL".toList, .start "ResourceRecords".toList []] [] ++ set.values.flatMap recordPieces ++
    Xml.upTo [.stop "ResourceRecords".toList, .stop "ResourceRecordSet".toList, .stop "Change".toList,
      .stop "Changes".toList, .stop "ChangeBatch".toList, .stop "ChangeResourceRecordSetsRequest".toList] []

theorem write_recordPieces (value : Str) : Xml.write (recordPieces value) = recordXml value := by
  have hopen : Xml.markup [.start "ResourceRecord".toList [], .start "Value".toList []] =
      "<ResourceRecord><Value>".toList := by decide +kernel
  have hclose : Xml.markup [.stop "Value".toList, .stop "ResourceRecord".toList] =
      "</Value></ResourceRecord>".toList := by decide +kernel
  rw [recordPieces, Xml.write_append, Xml.write_upTo (List.cons_ne_nil _ _), Xml.write_upTo (List.cons_ne_nil _ _), hopen,
    hclose, Xml.escape, Xml.escape, List.flatMap_nil, List.append_nil]
  rfl

theorem write_records (values : List Str) : Xml.write (values.flatMap recordPieces) = values.flatMap recordXml := by
  induction values with
  | nil => rfl
  | cons value values ih => rw [List.flatMap_cons, Xml.write_append, write_recordPieces, ih, List.flatMap_cons]

/-- Digits need no escape. -/
theorem escape_toDigits (n : Nat) : Xml.escape (Nat.toDigits 10 n) = Nat.toDigits 10 n := by
  refine Xml.escape_eq_self fun c hc r hr => ?_
  have hdigit := Nat.isDigit_of_mem_toDigits (by decide) (by decide) hc
  have hmarks : ∀ r ∈ Xml.references, r.1.isDigit = false := by decide
  rintro rfl
  rw [hmarks r hr] at hdigit
  cases hdigit

theorem write_batchPieces (action : Action) (name : Str) (set : TxtSet) :
    Xml.write (batchPieces action name set) = changeBatchXml action name set := by
  have haction : Xml.escape action.name = action.name := by cases action <;> rfl
  have hnil : Xml.escape [] = [] := rfl
  have h₁ : Xml.markup [.decl "xml version=\"1.0\" encoding=\"UTF-8\"".toList,
      .start "ChangeResourceRecordSetsRequest".toList (" xmlns=\"".toList ++ xmlNamespace ++ ['"']),
      .start "ChangeBatch".toList [], .start "Changes".toList [], .start "Change".toList [], .start "Action".toList []] =
      "<?xml version=\"1.0\" encoding=\"UTF-8\"?><ChangeResourceRecordSetsRequest xmlns=\"".toList ++ xmlNamespace ++
        "\"><ChangeBatch><Changes><Change><Action>".toList := by decide +kernel
  have h₂ : Xml.markup [.stop "Action".toList, .start "ResourceRecordSet".toList [], .start "Name".toList []] =
      "</Action><ResourceRecordSet><Name>".toList := by decide +kernel
  have h₃ : Xml.markup [.stop "Name".toList, .start "Type".toList []] ++ Xml.escape "TXT".toList ++
      Xml.markup [.stop "Type".toList, .start "TTL".toList []] = "</Name><Type>TXT</Type><TTL>".toList := by
    decide +kernel
  have h₄ : Xml.markup [.stop "TTL".toList, .start "ResourceRecords".toList []] = "</TTL><ResourceRecords>".toList := by
    decide +kernel
  have h₅ : Xml.markup [.stop "ResourceRecords".toList, .stop "ResourceRecordSet".toList, .stop "Change".toList,
      .stop "Changes".toList, .stop "ChangeBatch".toList, .stop "ChangeResourceRecordSetsRequest".toList] =
      ("</ResourceRecords></ResourceRecordSet></Change></Changes></ChangeBatch></ChangeResourceRecordSetsRequest>").toList := by
    decide +kernel
  -- an equation lemma of the definition would evaluate its literals
  delta changeBatchXml
  rw [← h₁, ← h₂, ← h₃, ← h₄, ← h₅, batchPieces, Xml.write_append, Xml.write_append, Xml.write_append, Xml.write_append,
    Xml.write_append, Xml.write_append, write_records, Xml.write_upTo (List.cons_ne_nil _ _),
    Xml.write_upTo (List.cons_ne_nil _ _), Xml.write_upTo (List.cons_ne_nil _ _), Xml.write_upTo (List.cons_ne_nil _ _),
    Xml.write_upTo (List.cons_ne_nil _ _), Xml.write_upTo (List.cons_ne_nil _ _), haction, escape_toDigits, hnil]
  simp only [List.append_assoc, List.append_nil]

/-! ## Reading the document -/

theorem opening_start (name : String) (attributes : Str) (rest : List Piece) :
    opening name ((.start name.toList attributes, []) :: rest) = some rest := if_pos rfl

theorem closing_stop (name : String) (rest : List Piece) : closing name ((.stop name.toList, []) :: rest) = some rest :=
  if_pos rfl

theorem leaf_text (name : String) (attributes text : Str) (rest : List Piece) :
    leaf name ((.start name.toList attributes, text) :: (.stop name.toList, []) :: rest) = some (text, rest) :=
  if_pos ⟨rfl, rfl⟩

theorem readNat_toDigits (n : Nat) : readNat (Nat.toDigits 10 n) = some n := by
  have hdigits : (Nat.toDigits 10 n).all Char.isDigit = true :=
    List.all_eq_true.2 fun c hc => Nat.isDigit_of_mem_toDigits (by decide) (by decide) hc
  have hne : (Nat.toDigits 10 n).isEmpty = false := by simp
  rw [readNat, hne, hdigits]
  exact congrArg some (Nat.ofDigitChars_toDigits (by decide) (by decide))

theorem readAction_name (action : Action) : readAction action.name = some action := by
  cases action <;> rfl

theorem recordPieces_append (value : Str) (rest : List Piece) : recordPieces value ++ rest =
    (.start "ResourceRecord".toList [], []) :: (.start "Value".toList [], value) :: (.stop "Value".toList, []) ::
      (.stop "ResourceRecord".toList, []) :: rest := by
  rfl

theorem readRecords_pieces (values : List Str) (rest : List Piece) {fuel : Nat} (hfuel : values.length < fuel) :
    readRecords fuel (values.flatMap recordPieces ++ (.stop "ResourceRecords".toList, []) :: rest) = some (values, rest) := by
  induction values generalizing fuel with
  | nil =>
    obtain ⟨fuel, rfl⟩ := Nat.exists_eq_add_one_of_ne_zero (Nat.ne_zero_of_lt hfuel)
    rw [List.flatMap_nil, List.nil_append, readRecords, closing_stop]
  | cons value values ih =>
    obtain ⟨fuel, rfl⟩ := Nat.exists_eq_add_one_of_ne_zero (Nat.ne_zero_of_lt hfuel)
    have hrest := ih (Nat.lt_of_succ_lt_succ hfuel)
    rw [List.flatMap_cons, List.append_assoc, recordPieces_append, readRecords]
    -- a record is not the end of the list
    have hopen : ∀ pieces, closing "ResourceRecords" ((Tag.start "ResourceRecord".toList [], []) :: pieces) = none :=
      fun pieces => rfl
    rw [hopen]
    simp only [opening_start, leaf_text, closing_stop, hrest, Option.bind_eq_bind, Option.bind_some]
    rfl

theorem length_le_flatMap (values : List Str) : values.length ≤ (values.flatMap recordPieces).length := by
  induction values with
  | nil => simp
  | cons value values ih =>
    have hpieces : (recordPieces value).length = 4 := rfl
    rw [List.flatMap_cons, List.length_append, List.length_cons, hpieces]
    omega

theorem readRecordSet_pieces (name : Str) (set : TxtSet) (rest : List Piece) :
    readRecordSet ((.start "ResourceRecordSet".toList [], []) :: (.start "Name".toList [], name) :: (.stop "Name".toList, []) ::
      (.start "Type".toList [], "TXT".toList) :: (.stop "Type".toList, []) ::
      (.start "TTL".toList [], Nat.toDigits 10 set.ttl) :: (.stop "TTL".toList, []) ::
      (.start "ResourceRecords".toList [], []) :: (set.values.flatMap recordPieces ++
        (.stop "ResourceRecords".toList, []) :: (.stop "ResourceRecordSet".toList, []) :: rest)) =
      some ((name, set), rest) := by
  have hfuel : set.values.length < (set.values.flatMap recordPieces ++
      (Tag.stop "ResourceRecords".toList, []) :: (Tag.stop "ResourceRecordSet".toList, []) :: rest).length := by
    have hle := length_le_flatMap set.values
    rw [List.length_append, List.length_cons]
    omega
  unfold readRecordSet
  simp only [opening_start, leaf_text, readRecords_pieces _ _ hfuel, closing_stop, readNat_toDigits, Option.bind_eq_bind,
    Option.bind_some]
  rfl

/-- **The change is read as it was meant.** -/
theorem readBatch_pieces (action : Action) (name : Str) (set : TxtSet) :
    readBatch (batchPieces action name set) = some (action, name, set) := by
  have hpieces : batchPieces action name set =
      (.decl "xml version=\"1.0\" encoding=\"UTF-8\"".toList, []) ::
      (.start "ChangeResourceRecordSetsRequest".toList (" xmlns=\"".toList ++ xmlNamespace ++ ['"']), []) ::
      (.start "ChangeBatch".toList [], []) :: (.start "Changes".toList [], []) :: (.start "Change".toList [], []) ::
      (.start "Action".toList [], action.name) :: (.stop "Action".toList, []) ::
      (.start "ResourceRecordSet".toList [], []) :: (.start "Name".toList [], name) :: (.stop "Name".toList, []) ::
      (.start "Type".toList [], "TXT".toList) :: (.stop "Type".toList, []) ::
      (.start "TTL".toList [], Nat.toDigits 10 set.ttl) :: (.stop "TTL".toList, []) ::
      (.start "ResourceRecords".toList [], []) :: (set.values.flatMap recordPieces ++
        (.stop "ResourceRecords".toList, []) :: (.stop "ResourceRecordSet".toList, []) ::
        [(.stop "Change".toList, []), (.stop "Changes".toList, []), (.stop "ChangeBatch".toList, []),
          (.stop "ChangeResourceRecordSetsRequest".toList, [])]) := by
    delta batchPieces
    simp only [Xml.upTo, List.cons_append, List.nil_append, List.append_assoc]
  rw [hpieces, readBatch, if_pos ⟨rfl, rfl⟩]
  simp only [opening_start, leaf_text, readRecordSet_pieces, closing_stop, readAction_name, Option.bind_eq_bind,
    Option.bind_some]
  rfl

theorem alphanum_range {c : Char} (h : c.isAlphanum = true) : 48 ≤ c.toNat ∧ c.toNat ≤ 122 := by
  simp only [Char.isAlphanum, Char.isAlpha, Char.isUpper, Char.isLower, Char.isDigit, Bool.or_eq_true, Bool.and_eq_true,
    decide_eq_true_eq, UInt32.le_iff_toNat_le] at h
  have htoNat : c.toNat = c.val.toNat := rfl
  rcases h with (h | h) | h <;> simp at h <;> omega

theorem isChar_of_range {c : Char} (h : 32 ≤ c.toNat ∧ c.toNat ≤ 126) : Xml.isChar c = true ∧ c ≠ '\r' := by
  have hval : c.toNat = c.val.toNat := rfl
  have hlow : (0x20 : UInt32) ≤ c.val := UInt32.le_iff_toNat_le.2 (by simpa [← hval] using h.1)
  have hne : ∀ n : UInt32, 126 < n.toNat → c.val ≠ n := by
    rintro n hn rfl
    omega
  constructor
  · simp [Xml.isChar, hlow, hne 0xFFFE (by decide), hne 0xFFFF (by decide)]
  · rintro rfl
    exact absurd h.1 (by decide)

theorem clean_of_range {s : Str} (h : ∀ c ∈ s, 32 ≤ c.toNat ∧ c.toNat ≤ 126) : Xml.Clean s :=
  fun c hc => isChar_of_range (h c hc)

theorem wf_recordPieces {value : Str} (h : Xml.Clean value) : ∀ piece ∈ recordPieces value, piece.1.WF ∧ Xml.Clean piece.2 := by
  have hopen : ∀ tag ∈ [Tag.start "ResourceRecord".toList [], .start "Value".toList []], tag.WF := by decide +kernel
  have hclose : ∀ tag ∈ [Tag.stop "Value".toList, .stop "ResourceRecord".toList], tag.WF := by decide +kernel
  exact List.forall_mem_append.2 ⟨Xml.wf_upTo hopen h, Xml.wf_upTo hclose (by decide)⟩

theorem wf_batchPieces (action : Action) {name : Str} {set : TxtSet} (hname : Xml.Clean name)
    (hvalues : ∀ value ∈ set.values, Xml.Clean value) :
    ∀ piece ∈ batchPieces action name set, piece.1.WF ∧ Xml.Clean piece.2 := by
  have haction : Xml.Clean action.name := by cases action <;> decide
  have httl : Xml.Clean (Nat.toDigits 10 set.ttl) := by
    refine clean_of_range fun c hc => ?_
    have hdigit := Nat.isDigit_of_mem_toDigits (by decide) (by decide) hc
    have hrange := alphanum_range (c := c) (by simp [Char.isAlphanum, hdigit])
    omega
  have hnil : Xml.Clean [] := by decide
  have htype : Xml.Clean "TXT".toList := by decide
  have h₁ : ∀ tag ∈ [Tag.decl "xml version=\"1.0\" encoding=\"UTF-8\"".toList,
      .start "ChangeResourceRecordSetsRequest".toList (" xmlns=\"".toList ++ xmlNamespace ++ ['"']),
      .start "ChangeBatch".toList [], .start "Changes".toList [], .start "Change".toList [],
      .start "Action".toList []], tag.WF := by decide +kernel
  have h₂ : ∀ tag ∈ [Tag.stop "Action".toList, .start "ResourceRecordSet".toList [], .start "Name".toList []], tag.WF := by
    decide +kernel
  have h₃ : ∀ tag ∈ [Tag.stop "Name".toList, .start "Type".toList []], tag.WF := by decide +kernel
  have h₄ : ∀ tag ∈ [Tag.stop "Type".toList, .start "TTL".toList []], tag.WF := by decide +kernel
  have h₅ : ∀ tag ∈ [Tag.stop "TTL".toList, .start "ResourceRecords".toList []], tag.WF := by decide +kernel
  have h₆ : ∀ tag ∈ [Tag.stop "ResourceRecords".toList, .stop "ResourceRecordSet".toList, .stop "Change".toList,
      .stop "Changes".toList, .stop "ChangeBatch".toList, .stop "ChangeResourceRecordSetsRequest".toList], tag.WF := by
    decide +kernel
  have hrecords : ∀ piece ∈ set.values.flatMap recordPieces, piece.1.WF ∧ Xml.Clean piece.2 := by
    intro piece hpiece
    obtain ⟨value, hvalue, hpiece⟩ := List.mem_flatMap.1 hpiece
    exact wf_recordPieces (hvalues value hvalue) piece hpiece
  delta batchPieces
  simp only [List.forall_mem_append]
  exact ⟨⟨⟨⟨⟨⟨Xml.wf_upTo h₁ haction, Xml.wf_upTo h₂ hname⟩, Xml.wf_upTo h₃ htype⟩, Xml.wf_upTo h₄ httl⟩,
    Xml.wf_upTo h₅ hnil⟩, hrecords⟩, Xml.wf_upTo h₆ hnil⟩

/-- The document of a change is read back. -/
theorem readChange_body (zoneId : Str) (action : Action) {name : Str} {set : TxtSet} (hname : Xml.Clean name)
    (hvalues : ∀ value ∈ set.values, Xml.Clean value) :
    readChange zoneId (bytes (changeBatchXml action name set)) = some (.change zoneId action name set) := by
  have hread : Xml.read (changeBatchXml action name set) = some (batchPieces action name set) := by
    rw [← write_batchPieces]
    exact Xml.read_write (wf_batchPieces action hname hvalues)
  simp only [readChange, ofBytes_bytes, hread, readBatch_pieces, Option.bind_eq_bind, Option.bind_some]
  rfl

/-! ## The URL -/

/-- What `normalize_id` accepts. -/
def ValidId (id : Str) : Prop := id ≠ [] ∧ ∀ c ∈ id, c.isAlphanum = true

theorem validId_of_normalizeId {id pfx x : Str} (h : normalizeId id pfx = some x) : ValidId x := by
  simp only [normalizeId] at h
  split at h
  · rename_i hvalid
    obtain rfl := Option.some.inj h
    simp only [Bool.and_eq_true, Bool.not_eq_true', List.isEmpty_eq_false_iff, List.all_eq_true] at hvalid
    exact ⟨hvalid.1.1, hvalid.2⟩
  · cases h

theorem plain_of_unreserved {c : Char} (h : unreserved c = true) : Url.isSlash c = false ∧ Url.inPathSet c = false := by
  have hmarks : ("/\\ \"#<>?^`\x7b\x7d".toList.all fun d => !unreserved d) = true := rfl
  have hne : ∀ d ∈ "/\\ \"#<>?^`\x7b\x7d".toList, c ≠ d := by
    rintro d hd rfl
    have hnot := List.all_eq_true.1 hmarks c hd
    rw [h] at hnot
    cases hnot
  have hrange : 45 ≤ c.toNat ∧ c.toNat ≤ 126 := by
    simp only [unreserved, Bool.or_eq_true, beq_iff_eq] at h
    rcases h with (((h | rfl) | rfl) | rfl) | rfl
    · have hrange := alphanum_range h
      omega
    all_goals decide
  have hlow : ¬ c.val < 0x20 := by
    intro hlt
    have hlt' : c.toNat < 32 := UInt32.lt_iff_toNat_lt.1 hlt
    omega
  have hhigh : ¬ 0x7E < c.val := by
    intro hlt
    have hlt' : 126 < c.toNat := UInt32.lt_iff_toNat_lt.1 hlt
    omega
  constructor
  · simp [Url.isSlash, hne '/' (by decide), hne '\\' (by decide)]
  · have hpath : " \"#<>?^`\x7b\x7d".toList.contains c = false := by
      rw [← Bool.not_eq_true, List.contains_iff_mem]
      intro hmem
      have hsubset : ∀ d ∈ " \"#<>?^`\x7b\x7d".toList, d ∈ "/\\ \"#<>?^`\x7b\x7d".toList := by simp
      exact hne c (hsubset c hmem) rfl
    simp [Url.inPathSet, hlow, hhigh]
    simpa using hpath

theorem plain_sigv4Encode (text : Str) : Url.Plain (sigv4Encode text) := by
  intro c hc
  obtain ⟨d, -, hc⟩ := List.mem_flatMap.1 hc
  by_cases hd : unreserved d = true
  · rw [if_pos hd] at hc
    obtain rfl := List.mem_singleton.1 hc
    exact plain_of_unreserved hd
  · rw [if_neg hd] at hc
    obtain ⟨b, -, hb⟩ := List.mem_flatMap.1 hc
    exact plain_percentEncode b c hb

/-- The URL parser changes nothing in a canonical query. -/
theorem canonicalQuery_kept {params : List (Str × Str)} {c : Char} (h : c ∈ canonicalQuery params) :
    c ≠ '#' ∧ Url.removed c = false ∧ Url.blank c = false := by
  have hplain : ∀ {text : Str}, c ∈ sigv4Encode text → c ≠ '#' ∧ Url.removed c = false ∧ Url.blank c = false := by
    intro text hc
    obtain ⟨hhash, -, hremoved, hblank⟩ := (plain_sigv4Encode text).ne hc
    exact ⟨hhash, hremoved, hblank⟩
  have hpairs : ∀ {pairs : List (Str × Str)}, Encoded pairs → c ∈ join pairs →
      c ≠ '#' ∧ Url.removed c = false ∧ Url.blank c = false := by
    intro pairs hencoded hc
    induction pairs with
    | nil => cases hc
    | cons pair pairs ih =>
      obtain ⟨param, rfl⟩ := hencoded pair List.mem_cons_self
      have hfirst : c ∈ writePair (encodePair param) → c ≠ '#' ∧ Url.removed c = false ∧ Url.blank c = false := by
        intro hc
        rcases List.mem_append.1 hc with hc | hc
        · exact hplain hc
        · rcases List.mem_cons.1 hc with rfl | hc
          · decide
          · exact hplain hc
      cases pairs with
      | nil => exact hfirst (by simpa [join, List.intercalate] using hc)
      | cons next rest =>
        rw [join_cons_cons, List.mem_append, List.mem_cons] at hc
        rcases hc with hc | rfl | hc
        · exact hfirst hc
        · decide
        · exact ih (fun p hp => hencoded p (List.mem_cons_of_mem _ hp)) hc
  exact hpairs (encoded_sorted params) h

/-- The parts of the path. -/
def Req.segments : Req → List Str
  | .zonesByName _ => ["hostedzonesbyname".toList]
  | .rrset zoneId _ => ["hostedzone".toList, zoneId, "rrset".toList]
  | .change zoneId _ _ _ => ["hostedzone".toList, zoneId, "rrset".toList, []]
  | .getChange id => ["change".toList, id]

theorem Req.path_eq (q : Req) : q.path = Url.joined q.segments := by
  have hzone : "/hostedzone/".toList = '/' :: ("hostedzone".toList ++ ['/']) := rfl
  have hrrset : "/rrset".toList = '/' :: "rrset".toList := rfl
  have hlist : "/rrset/".toList = '/' :: ("rrset".toList ++ ['/']) := rfl
  have hchange : "/change/".toList = '/' :: ("change".toList ++ ['/']) := rfl
  have hpair : ∀ first id : Str, '/' :: (first ++ ['/']) ++ id = Url.joined [first, id] := by simp [Url.joined]
  have hthree : ∀ first id last : Str, '/' :: (first ++ ['/']) ++ id ++ '/' :: last = Url.joined [first, id, last] := by
    simp [Url.joined]
  have hfour : ∀ first id last : Str, '/' :: (first ++ ['/']) ++ id ++ '/' :: (last ++ ['/']) =
      Url.joined [first, id, last, []] := by simp [Url.joined]
  cases q with
  | zonesByName dnsname => rfl
  | rrset zoneId name =>
    show "/hostedzone/".toList ++ zoneId ++ "/rrset".toList = Url.joined ["hostedzone".toList, zoneId, "rrset".toList]
    rw [hzone, hrrset, hthree]
  | change zoneId action name set =>
    show "/hostedzone/".toList ++ zoneId ++ "/rrset/".toList = Url.joined ["hostedzone".toList, zoneId, "rrset".toList, []]
    rw [hzone, hlist, hfour]
  | getChange id =>
    show "/change/".toList ++ id = Url.joined ["change".toList, id]
    rw [hchange, hpair]

/-- What a request has to be to come through. -/
def Req.Sendable : Req → Prop
  | .zonesByName _ => True
  | .rrset zoneId _ => ValidId zoneId
  | .change zoneId _ name set => ValidId zoneId ∧ Xml.Clean name ∧ ∀ value ∈ set.values, Xml.Clean value
  | .getChange id => ValidId id

/-- A segment that the URL parser takes as it is. -/
def Kept (segment : Str) : Prop := Url.Plain segment ∧ segment ∉ Url.singleDots ∧ segment ∉ Url.doubleDots

theorem kept_of_alphanum {segment : Str} (h : ∀ c ∈ segment, c.isAlphanum = true) : Kept segment := by
  have hdots : ∀ dots ∈ Url.singleDots ++ Url.doubleDots, dots.all Char.isAlphanum = false := by decide
  have hnot : segment ∉ Url.singleDots ++ Url.doubleDots := by
    intro hmem
    have hall := hdots segment hmem
    rw [List.all_eq_true.2 h] at hall
    cases hall
  rw [List.mem_append, not_or] at hnot
  exact ⟨fun c hc => plain_of_unreserved (by simp [unreserved, h c hc]), hnot⟩

theorem Req.Sendable.kept {q : Req} (h : q.Sendable) : ∀ segment ∈ q.segments, Kept segment := by
  have hword : ∀ {word : Str}, word.all Char.isAlphanum = true → Kept word :=
    fun hword => kept_of_alphanum (List.all_eq_true.1 hword)
  have hzone : Kept "hostedzone".toList := hword rfl
  have hrrset : Kept "rrset".toList := hword rfl
  have hend : Kept [] := hword rfl
  intro segment hsegment
  cases q with
  | zonesByName dnsname =>
    obtain rfl := List.mem_singleton.1 hsegment
    exact hword rfl
  | rrset zoneId name =>
    simp only [segments, List.mem_cons, List.not_mem_nil, or_false] at hsegment
    rcases hsegment with rfl | rfl | rfl
    · exact hzone
    · exact kept_of_alphanum h.2
    · exact hrrset
  | change zoneId action name set =>
    simp only [segments, List.mem_cons, List.not_mem_nil, or_false] at hsegment
    rcases hsegment with rfl | rfl | rfl | rfl
    · exact hzone
    · exact kept_of_alphanum h.1.2
    · exact hrrset
    · exact hend
  | getChange id =>
    simp only [segments, List.mem_cons, List.not_mem_nil, or_false] at hsegment
    rcases hsegment with rfl | rfl
    · exact hword rfl
    · exact kept_of_alphanum h.2

theorem Req.segments_ne (q : Req) : q.segments ≠ [] := by cases q <;> simp [segments]

/-- The query of a URL, which has one if there are parameters. -/
def queryOf (params : List (Str × Str)) : Option Str := if params = [] then none else some (canonicalQuery params)

theorem canonicalQuery_isEmpty (params : List (Str × Str)) : (canonicalQuery params).isEmpty = params.isEmpty := by
  cases params with
  | nil => simp [canonicalQuery, join]
  | cons param rest =>
    have hperm := decoded_perm (param :: rest)
    cases hquery : canonicalQuery (param :: rest) with
    | nil =>
      rw [hquery] at hperm
      have hlength := hperm.length_eq
      simp [pairsOf] at hlength
    | cons c query => rfl

/-- The URL is parsed into what it was made of. -/
theorem target_eq (base : ApiBase) {q : Req} (h : q.Sendable) :
    target base q = ⟨base.host, base.port, Url.joined (base.segments ++ q.segments), queryOf q.params⟩ := by
  -- `send` leaves the question mark out where the query is empty, and it is where there are no parameters
  have hraw : (if (canonicalQuery q.params).isEmpty then Url.joined base.segments ++ q.path
      else Url.joined base.segments ++ q.path ++ '?' :: canonicalQuery q.params) =
      Url.joined (base.segments ++ q.segments) ++ Url.queryText (queryOf q.params) := by
    rw [canonicalQuery_isEmpty, q.path_eq, ← Url.joined_append, queryOf]
    cases q.params with
    | nil => simp [Url.queryText]
    | cons param rest => simp [Url.queryText]
  have hquery : ∀ text ∈ queryOf q.params, ∀ c ∈ text, c ≠ '#' ∧ Url.removed c = false ∧ Url.blank c = false := by
    intro text htext c hc
    rw [queryOf] at htext
    split at htext
    · cases htext
    · obtain rfl := Option.mem_some_iff.1 htext
      exact canonicalQuery_kept hc
  have hparse := Url.parse_joined (List.append_ne_nil_of_right_ne_nil base.segments q.segments_ne)
    (List.forall_mem_append.2 ⟨base.plain, fun segment hs => (h.kept segment hs).1⟩)
    (List.forall_mem_append.2 ⟨base.no_dots, fun segment hs => (h.kept segment hs).2⟩) hquery
  unfold target
  simp only [hraw, hparse]

/-! ## What arrives -/

/-- The parameters are read in another order. -/
theorem params_of_query (params : List (Str × Str)) : ∃ read, (pairsOf ((queryOf params).getD [])).mapM decodePair = some read ∧
    read.Perm params := by
  by_cases hnil : params = []
  · subst hnil
    exact ⟨[], rfl, .refl _⟩
  · have hquery : (queryOf params).getD [] = canonicalQuery params := by simp [queryOf, hnil]
    obtain ⟨read, hread, hmap⟩ := mapM_decodePair (encoded_sorted params)
    rw [hquery, pairsOf_canonicalQuery]
    refine ⟨read, hread, ?_⟩
    have hinjective : Function.Injective encodePair := by
      intro a b hab
      have hsome := congrArg decodePair hab
      rw [decodePair_encodePair, decodePair_encodePair] at hsome
      exact Option.some.inj hsome
    have hperm : (read.map encodePair).Perm (params.map encodePair) := by
      rw [hmap]
      exact List.mergeSort_perm _ _
    exact (List.map_perm_map_iff hinjective).1 hperm

/-- A parameter is found wherever it stands. -/
theorem param_eq {read params : List (Str × Str)} (h : read.Perm params) (honce : (params.map (·.1)).Nodup) {key : String}
    {value : Str} (hmem : (key.toList, value) ∈ params) : param read key = some value := by
  unfold param
  cases hfind : read.find? (·.1 = key.toList) with
  | none =>
    have hnone := List.find?_eq_none.1 hfind _ (h.mem_iff.2 hmem)
    simp at hnone
  | some found =>
    have hkey : found.1 = key.toList := by simpa using List.find?_some hfind
    have hsame := List.inj_on_of_nodup_map honce (h.mem_iff.1 (List.mem_of_find?_eq_some hfind)) hmem hkey
    rw [hsame]
    rfl

theorem readZonesByName_params {dnsname : Str} {read : List (Str × Str)} (h : read.Perm (Req.zonesByName dnsname).params) :
    readZonesByName read = some (.zonesByName dnsname) := by
  have honce : ["dnsname".toList, "maxitems".toList].Nodup := by decide
  have hname : param read "dnsname" = some dnsname := param_eq h honce (.head _)
  have hitems : param read "maxitems" = some "100".toList := param_eq h honce (.tail _ (.head _))
  rw [readZonesByName, hname, if_pos hitems]
  rfl

theorem readRrset_params {zoneId name : Str} {read : List (Str × Str)} (h : read.Perm (Req.rrset zoneId name).params) :
    readRrset zoneId read = some (.rrset zoneId name) := by
  have honce : ["name".toList, "type".toList, "maxitems".toList].Nodup := by decide
  have hname : param read "name" = some name := param_eq h honce (.head _)
  have htype : param read "type" = some "TXT".toList := param_eq h honce (.tail _ (.head _))
  have hitems : param read "maxitems" = some "1".toList := param_eq h honce (.tail _ (.tail _ (.head _)))
  rw [readRrset, hname, if_pos ⟨htype, hitems⟩]
  rfl

/-- `ROUTE53_API_BASE` -/
def apiBase : ApiBase where
  host := "route53.amazonaws.com".toList
  port := none
  segments := ["2013-04-01".toList]
  plain segment hsegment c hc := by
    obtain rfl := List.mem_singleton.1 hsegment
    have hall : "2013-04-01".toList.all unreserved = true := rfl
    exact plain_of_unreserved (List.all_eq_true.1 hall c hc)
  no_dots := by decide

/-- The resource is found, and the request read, by the server. -/
theorem route_sent (crypto : Crypto) (credentials : SigningCredentials) (base : ApiBase) (now : DateTime) {q : Req}
    (h : q.Sendable) : route base (sent crypto credentials base now q) = some q := by
  have hpath : (sent crypto credentials base now q).path = Url.joined base.segments ++ Url.joined q.segments := by
    show (target base q).path = _
    rw [target_eq base h, Url.joined_append]
  have hquery : (sent crypto credentials base now q).query = queryOf q.params := by
    show (target base q).query = _
    rw [target_eq base h]
  obtain ⟨read, hread, hperm⟩ := params_of_query q.params
  have hsegments : Url.rawSegments (Url.joined q.segments) = q.segments :=
    Url.rawSegments_joined q.segments_ne fun segment hs => (h.kept segment hs).1
  unfold route
  rw [hpath, hquery, dropPrefix_append, hread]
  simp only [Option.bind_eq_bind, Option.bind_some, hsegments]
  cases q with
  | zonesByName dnsname => exact (if_pos ⟨rfl, rfl⟩).trans (readZonesByName_params hperm)
  | rrset zoneId name => exact (if_pos ⟨rfl, rfl, rfl⟩).trans (readRrset_params hperm)
  | change zoneId action name set =>
    exact (if_pos ⟨rfl, rfl, rfl⟩).trans (readChange_body zoneId action h.2.1 h.2.2)
  | getChange id => exact if_pos ⟨rfl, rfl⟩

/-- A request that is sent is verified and read as what it is. -/
theorem receive_sent {server : Server} {credentials : SigningCredentials} (hknows : server.Knows credentials)
    (base : ApiBase) (now : DateTime) {q : Req} (h : q.Sendable) :
    server.receive base (sent server.crypto credentials base now q) = some q := by
  have htarget := target_eq base h
  have hpath : (target base q).path ≠ [] := by
    rw [htarget]
    obtain ⟨segment, rest, hsegments⟩ := List.exists_cons_of_ne_nil q.segments_ne
    rw [Url.joined_append, hsegments, Url.joined_cons]
    simp
  have hquery : normalizeQuery (target base q).query = some ((target base q).query.getD []) := by
    rw [htarget, queryOf]
    split
    · rfl
    · exact normalizeQuery_canonicalQuery q.params
  have hverify := verify_signed hknows q.verb (q.body.getD []) now hpath hquery
  rw [Server.receive]
  exact (if_pos hverify).trans (route_sent server.crypto credentials base now h)

/-! ## What `present` and `cleanup` send -/

open Fut (Always wp wp_mono wp_run_bind)

/-- Only requests that come through are sent, and only valid ids are remembered. -/
def Asks : Call Req → Prop
  | .send q => q.Sendable
  | .cacheInsert _ zoneId => ValidId zoneId
  | _ => True

/-- What is relied on: the values of a listing can be carried by XML, and the cache gives what was put into it. -/
def Reported : (c : Call Req) → Reply Req.Doc c → Prop
  | .send (.rrset _ _), r => ∀ resp, r = .ok resp → ∀ sets, resp.body = .ok sets → ∀ set ∈ sets,
      ∀ values ∈ set.resourceRecords, ∀ value ∈ values, Xml.Clean value
  | .cacheGet _, r => ∀ zoneId ∈ r, ValidId zoneId
  | _, _ => True

/-- `p` keeps to `Asks`, and what it returns is in `Φ`. -/
def Sends {α : Type} (p : M α) (Φ : α → Prop) : Prop := Always Asks Reported p.run fun r => ∀ a, r = .ok a → Φ a

namespace Sends

variable {α β : Type} {Φ : α → Prop} {Ψ : β → Prop}

theorem pure {a : α} (h : Φ a) : Sends (Pure.pure a) Φ := by
  rintro a' ha
  cases ha
  exact h

theorem throw (e : DnsError) : Sends (MonadExcept.throw e : M α) Φ := by
  intro a ha
  cases ha

theorem lift {x : Except DnsError α} (h : ∀ a, x = .ok a → Φ a) : Sends (liftM x : M α) Φ := h

/-- What is checked holds from then on. -/
theorem checked (x : Except DnsError α) : Sends (liftM x : M α) fun a => x = .ok a := lift fun _ h => h

theorem bind {p : M α} {f : α → M β} (hp : Sends p Φ) (hf : ∀ a, Φ a → Sends (f a) Ψ) : Sends (p >>= f) Ψ := by
  rw [Sends, Always, wp_run_bind]
  refine wp_mono hp fun r _ hr => ?_
  cases r with
  | ok a => exact hf a (hr a rfl)
  | error e =>
    intro b hb
    cases hb

theorem of_only {p : M α} (h : Only Asks p) : Sends p fun _ => True :=
  wp_mono (h.antitone fun _ _ _ _ _ => trivial) fun _ _ _ _ _ => trivial

theorem sync {c : Call Req} (h : Asks c) : Sends (Cheti.sync c) (Reported c) :=
  ⟨h, fun r _ hr a ha => by cases ha; exact hr⟩

theorem withLock {l : KeyedMutex} {key : Str} {p : M α} (h : Sends p Φ) : Sends (Cheti.withLock l key p) Φ := by
  rw [Sends, Always, wp_withLock]
  exact ⟨trivial, fun _ _ _ => wp_mono h fun r _ hr => ⟨trivial, fun _ _ _ => hr⟩⟩

end Sends

theorem sends_sendLoop (cfg : Route53Config) (method : Method) (verb : String) (path : Str) {q : Req} (hq : q.Sendable)
    (left attempt : Nat) :
    Sends (sendLoop cfg method verb path q left attempt) fun resp => Reported (.send q) (.ok resp) := by
  have hretrying : Sends (sendRetrying method q : M (Response q.Doc)) fun resp => Reported (.send q) (.ok resp) := by
    refine wp_sendRetrying hq (fun d => ⟨trivial, fun _ _ _ => rfl⟩) (fun _ _ _ _ => rfl) fun r _ hr resp hresp => ?_
    obtain rfl := mapError_eq_ok.1 hresp
    exact hr
  rw [sendLoop.eq_def]
  refine hretrying.bind fun response hresponse => ?_
  by_cases hsucc : response.status.isSuccess = true
  · simp only [if_pos hsucc]
    exact .pure hresponse
  · simp only [if_neg hsucc]
    cases left with
    | zero => exact .throw _
    | succ left =>
      by_cases hthrottled : isThrottled cfg response.text = true
      · simp only [if_pos hthrottled]
        exact (Sends.of_only (Only.await (c := .sleep (retryBackoff attempt)) trivial)).bind fun _ _ =>
          sends_sendLoop cfg method verb path hq left (attempt + 1)
      · simp only [if_neg hthrottled]
        exact .throw _

theorem sends_send (cfg : Route53Config) (method : Method) (verb : String) (path : Str) {q : Req} (hq : q.Sendable) :
    Sends (send cfg method verb path q) fun doc => ∃ resp, Reported (.send q) (.ok resp) ∧ resp.body = .ok doc :=
  (sends_sendLoop cfg method verb path hq _ _).bind fun resp hresp =>
    .lift fun _ hdoc => ⟨resp, hresp, mapError_eq_ok.1 hdoc⟩

/-! ### The zone -/

theorem sends_findPublicZone (cfg : Route53Config) (candidate : Str) :
    Sends (findPublicZone cfg candidate) fun found => ∀ id ∈ found, ValidId id := by
  have hsend : (Req.zonesByName candidate).Sendable := trivial
  unfold findPublicZone
  refine (sends_send cfg _ _ _ hsend).bind fun zones _ => ?_
  split
  · exact .pure (by simp)
  · split
    · rename_i id hid
      refine .pure fun id' hid' => ?_
      obtain rfl := Option.mem_some_iff.1 hid'
      exact validId_of_normalizeId hid
    · exact .throw _
  · exact .throw _

theorem sends_firstSome {α β : Type} {lookup : α → M (Option β)} {Φ : β → Prop}
    (h : ∀ a, Sends (lookup a) fun found => ∀ b ∈ found, Φ b) (candidates : List α) :
    Sends (firstSome lookup candidates) fun found => ∀ b ∈ found, Φ b := by
  induction candidates with
  | nil => exact .pure (by simp)
  | cons candidate rest ih =>
    unfold firstSome
    refine (h candidate).bind fun found hfound => ?_
    cases found with
    | some b => exact .pure hfound
    | none => exact ih

theorem sends_resolveZone {cfg : Route53Config} (hcfg : ∀ id ∈ cfg.hostedZoneId, ValidId id) (fqdn : Str) :
    Sends (resolveZone cfg fqdn) ValidId := by
  have hlookup : Sends (lookupZone cfg fqdn (normalizeName fqdn)) ValidId := by
    refine (sends_firstSome (sends_findPublicZone cfg) _).bind fun found hfound => ?_
    cases found with
    | some id => exact .pure (hfound id rfl)
    | none => exact .throw _
  unfold resolveZone
  cases hid : cfg.hostedZoneId with
  | some id => exact .pure (hcfg id hid)
  | none =>
    unfold cached
    refine (Sends.sync (c := .cacheGet (normalizeName fqdn)) trivial).bind fun found hfound => ?_
    cases found with
    | some id => exact .pure (hfound id rfl)
    | none =>
      -- what is put into the cache is what is relied on when it is read
      exact hlookup.bind fun id hvalid =>
        (Sends.sync (c := .cacheInsert (normalizeName fqdn) id) hvalid).bind fun _ _ => .pure hvalid

/-! ### The record set -/

theorem sends_fetchRrset (cfg : Route53Config) {zoneId : Str} (hzone : ValidId zoneId) (name : Str) :
    Sends (fetchRrset cfg zoneId name) fun found => ∀ set ∈ found, ∀ value ∈ set.values, Xml.Clean value := by
  have hsend : (Req.rrset zoneId name).Sendable := hzone
  unfold fetchRrset
  refine (sends_send cfg _ _ _ hsend).bind fun sets hsets => ?_
  obtain ⟨resp, hreported, hbody⟩ := hsets
  have hclean := hreported resp rfl sets hbody
  refine .lift fun found hfound set hset => ?_
  cases hhead : sets.head? with
  | none =>
    rw [hhead] at hfound
    cases hfound
    cases hset
  | some d =>
    rw [hhead] at hfound
    simp only [txtSet] at hfound
    split at hfound
    · cases hfound
      cases hset
    · split at hfound
      · cases hfound
      · cases hfound
        obtain rfl := Option.mem_some_iff.1 hset
        intro value hvalue
        cases hrecords : d.resourceRecords with
        | none =>
          rw [hrecords] at hvalue
          cases hvalue
        | some values =>
          rw [hrecords] at hvalue
          exact hclean d (List.mem_of_mem_head? hhead) values hrecords value hvalue

theorem sends_changeRrset (cfg : Route53Config) {zoneId : Str} (hzone : ValidId zoneId) (action : Action) {name : Str}
    (hname : Xml.Clean name) {set : TxtSet} (hvalues : ∀ value ∈ set.values, Xml.Clean value) :
    Sends (changeRrset cfg zoneId action name set) fun _ => True := by
  have hsend : (Req.change zoneId action name set).Sendable := ⟨hzone, hname, hvalues⟩
  have hpoll : ∀ change, Only Asks (fetchChange cfg change) := by
    intro change
    unfold fetchChange
    split
    · exact .throw _
    · rename_i id hid
      have hget : (Req.getChange id).Sendable := validId_of_normalizeId hid
      exact only_send cfg _ _ _ hget fun _ => trivial
  exact (sends_send cfg _ _ _ hsend).bind fun change _ =>
    .of_only (.waitForChange trivial (fun _ => trivial) hpoll change)

theorem nameChar_range {c : Char} (h : isNameChar c = true) : 32 ≤ c.toNat ∧ c.toNat ≤ 126 := by
  simp only [isNameChar, Bool.or_eq_true, beq_iff_eq] at h
  rcases h with (h | rfl) | rfl
  · have hrange := alphanum_range h
    omega
  all_goals decide

theorem clean_absolute {fqdn : Str} (h : validateFqdn fqdn = .ok ()) : Xml.Clean (absolute fqdn) := by
  refine clean_of_range fun c hc => ?_
  rcases List.mem_append.1 hc with hc | hc
  · rw [← joinDots_labelsOf] at hc
    rcases mem_joinDots hc with rfl | ⟨l, hl, hc⟩
    · decide
    · exact nameChar_range (((nameOk_labelsOf h).label l hl).chars c hc)
  · obtain rfl := List.mem_singleton.1 hc
    decide

theorem clean_quote {value : Str} (h : validateAcmeValue value = .ok ()) : Xml.Clean (quote value) := by
  refine clean_of_range fun c hc => ?_
  simp only [quote, List.mem_cons, List.mem_append, List.not_mem_nil, or_false] at hc
  rcases hc with rfl | hc | rfl
  · decide
  · exact nameChar_range (List.all_eq_true.1 (nameChars_of_acme h) c hc)
  · decide

theorem sends_present {cfg : Route53Config} (hcfg : ∀ id ∈ cfg.hostedZoneId, ValidId id) (fqdn value : Str) :
    Sends (present cfg fqdn value) fun _ => True := by
  refine (Sends.checked (validateFqdn fqdn)).bind fun _ hfqdn => ?_
  refine (Sends.checked (validateAcmeValue value)).bind fun _ hvalue => ?_
  refine (sends_resolveZone hcfg fqdn).bind fun zoneId hzone => Sends.withLock ?_
  refine (sends_fetchRrset cfg hzone _).bind fun found hfound => ?_
  cases found with
  | none => exact sends_changeRrset cfg hzone _ (clean_absolute hfqdn) (by simpa using clean_quote hvalue)
  | some set =>
    by_cases hcontains : set.contains value = true
    · simp only [if_pos hcontains]
      exact .pure trivial
    · simp only [if_neg hcontains]
      -- the values of others are sent back as they were reported
      refine sends_changeRrset cfg hzone _ (clean_absolute hfqdn) fun v hv => ?_
      rcases List.mem_append.1 hv with hv | hv
      · exact hfound set rfl v hv
      · obtain rfl := List.mem_singleton.1 hv
        exact clean_quote hvalue

theorem sends_cleanup {cfg : Route53Config} (hcfg : ∀ id ∈ cfg.hostedZoneId, ValidId id) (fqdn value : Str) :
    Sends (cleanup cfg fqdn value) fun _ => True := by
  refine (Sends.checked (validateFqdn fqdn)).bind fun _ hfqdn => ?_
  refine (sends_resolveZone hcfg fqdn).bind fun zoneId hzone => Sends.withLock ?_
  refine (sends_fetchRrset cfg hzone _).bind fun found hfound => ?_
  cases found with
  | none => exact .pure trivial
  | some set =>
    have hset := hfound set rfl
    by_cases hcontains : set.contains value = true
    · simp only [if_pos hcontains]
      split
      · exact sends_changeRrset cfg hzone _ (clean_absolute hfqdn) hset
      · exact sends_changeRrset cfg hzone _ (clean_absolute hfqdn) fun v hv => hset v (List.mem_of_mem_filter hv)
    · simp only [if_neg hcontains]
      exact .pure trivial

/-- A run with such replies asks only for what it may. -/
theorem Sends.issues {α : Type} {p : M α} {Φ : α → Prop} (h : Sends p Φ) {t : List (Fut.Ev (Call Req) (Reply Req.Doc))}
    {c : Call Req} (ht : p.run.Issues t c) (hreported : ∀ e ∈ t, Reported e.call e.reply) : Asks c := by
  have hchain : Fut.Chain (fun c r (_ _ : Unit) => Reported c r) t () () := by
    clear ht
    induction t with
    | nil => rfl
    | cons e t ih =>
      rw [List.forall_mem_cons] at hreported
      exact Fut.chain_cons.2 ⟨(), hreported.1, ih hreported.2⟩
  obtain ⟨g, k, hat⟩ := ht
  exact (Fut.wp.at h hat hchain).1

/-- **Every request arrives as what it is.** Whatever `present` or `cleanup` sends, at whatever time, in whatever order of
replies: the API verifies its signature and reads from it the request that was meant, if the values that it has reported
before are such as XML can carry. -/
theorem requests_arrive {server : Server} {credentials : SigningCredentials} (hknows : server.Knows credentials)
    (base : ApiBase) (now : DateTime) {cfg : Route53Config} (hcfg : ∀ id ∈ cfg.hostedZoneId, ValidId id) {p : M Unit}
    (hp : ∃ fqdn value, p = present cfg fqdn value ∨ p = cleanup cfg fqdn value)
    {t : List (Fut.Ev (Call Req) (Reply Req.Doc))} (hreported : ∀ e ∈ t, Reported e.call e.reply) {q : Req}
    (hsend : p.run.Issues t (.send q)) :
    server.receive base (sent server.crypto credentials base now q) = some q := by
  have hsends : Sends p fun _ => True := by
    obtain ⟨fqdn, value, rfl | rfl⟩ := hp
    · exact sends_present hcfg fqdn value
    · exact sends_cleanup hcfg fqdn value
  exact receive_sent hknows base now (hsends.issues hsend hreported)

theorem issues_run_bind_left {α β : Type} {p : M α} {f : α → M β} {t : List (Fut.Ev (Call Req) (Reply Req.Doc))} {c : Call Req}
    (h : p.run.Issues t c) : (p >>= f).run.Issues t c := by
  rw [ExceptT.run_bind, Fut.bind_eq]
  exact Fut.issues_bind.2 (Or.inl h)

theorem issues_sendLoop (cfg : Route53Config) (method : Method) (verb : String) (path : Str) (q : Req) (left attempt : Nat) :
    (sendLoop cfg method verb path q left attempt).run.Issues [] (.send q) := by
  rw [sendLoop.eq_def, ExceptT.run_bind, Fut.bind_eq, sendRetrying_run, Fut.bind_assoc, sendFrom.eq_def]
  exact Fut.issues_await.2 (Or.inl ⟨rfl, rfl⟩)

theorem runs_sendLoop (cfg : Route53Config) (method : Method) (verb : String) (path : Str) {q : Req} {resp : Response q.Doc}
    (hfinal : ¬ Retryable method resp) (hsucc : resp.status.isSuccess = true) (left attempt : Nat) :
    (sendLoop cfg method verb path q left attempt).run.Runs [⟨.send q, .ok resp⟩] (.ok resp) := by
  rw [sendLoop.eq_def, ExceptT.run_bind, Fut.bind_eq, sendRetrying_run, Fut.bind_assoc, sendFrom.eq_def]
  refine Fut.runs_await.2 ⟨.ok resp, [], rfl, ?_⟩
  simp only [maxAttempts, retryDelay_eq_none hfinal]
  show Fut.Runs (ExceptT.run (if resp.status.isSuccess = true then pure resp else _)) [] _
  rw [if_pos hsucc]
  exact Fut.runs_done.2 ⟨rfl, rfl⟩

/-- The change with which a value is added to an empty record set. -/
theorem requests_arrive_change :
    let server : Server := ⟨⟨id, fun key data => key ++ data⟩, signingScope, fun _ => some "secret".toList⟩
    let credentials : SigningCredentials := ⟨"AKID".toList, "secret".toList, none⟩
    let q : Req := .change "Z1".toList .upsert "_acme-challenge.a.org.".toList ⟨60, ["\"v\"".toList]⟩
    server.receive apiBase (sent server.crypto credentials apiBase ⟨2026, 1, 2, 3, 4, 5⟩ q) = some q := by
  intro server credentials q
  let cfg : Route53Config := ⟨some "Z1".toList, 60, fun _ => none, fun _ => none⟩
  let fqdn := "_acme-challenge.a.org".toList
  let listing : Response (List ResourceRecordSet) := ⟨⟨200, "200 OK"⟩, none, none, none, [], .ok []⟩
  let t : List (Fut.Ev (Call Req) (Reply Req.Doc)) :=
    [⟨.lock locks (lockKey "Z1".toList (absolute fqdn)), ()⟩, ⟨.send (.rrset "Z1".toList (absolute fqdn)), .ok listing⟩]
  have hknows : server.Knows credentials := by
    refine ⟨rfl, rfl, fun c hc => ?_⟩
    have hall : ("AKID".toList.all fun c => !isMark c) = true := rfl
    simpa using List.all_eq_true.1 hall c hc
  have hcfg : ∀ id ∈ cfg.hostedZoneId, ValidId id := by
    intro id hid
    obtain rfl := Option.mem_some_iff.1 hid
    exact ⟨by simp, List.all_eq_true.1 (show "Z1".toList.all Char.isAlphanum = true from rfl)⟩
  have hreported : ∀ e ∈ t, Reported e.call e.reply := by
    intro e he
    simp only [t, List.mem_cons, List.not_mem_nil, or_false] at he
    rcases he with rfl | rfl
    · trivial
    · rintro resp hresp sets hsets
      cases hresp
      cases hsets
      simp
  have hlisted : (fetchRrset cfg "Z1".toList (absolute fqdn)).run.Runs
      [⟨.send (.rrset "Z1".toList (absolute fqdn)), .ok listing⟩] (.ok none) := by
    refine Fut.runs_run_bind_ok.2 ⟨_, [], [], Fut.runs_run_bind_ok.2 ⟨_, listing, [], ?_, Fut.runs_done.2 ⟨rfl, rfl⟩,
      (List.append_nil _).symm⟩, Fut.runs_done.2 ⟨rfl, rfl⟩, (List.append_nil _).symm⟩
    exact runs_sendLoop cfg _ _ _ (by simp [Retryable, listing]) rfl _ _
  have hsend : (present cfg fqdn ['v']).run.Issues t (.send q) := by
    refine Fut.issues_await.2 (Or.inr ⟨(), _, rfl, Fut.issues_bind.2 (Or.inl ?_)⟩)
    refine (issues_run_bind hlisted).2 ?_
    exact issues_run_bind_left (issues_run_bind_left (issues_sendLoop cfg .post "POST" _ q _ _))
  exact requests_arrive hknows apiBase _ hcfg ⟨fqdn, ['v'], Or.inl rfl⟩ hreported hsend

end Cheti.Route53
