import Cheti.Providers.Porkbun
/-!
# Records that will not resolve (src/providers/porkbun.rs:202-243, 377-443)

Porkbun stores a record even where it will not resolve, and only says so in the `warnings` of its answer. A
creation with such an answer has to fail, and has to take the record back by its `id`.

The answer is decoded as a whole, and one that does not decode is taken for one without warnings
(`decoded_of_none`). So everything depends on the fields beside the warning: an `id` of any other type than a
string or a `u64`, null included, or a list with an item that is not a string, and the warning is lost.
`handlesWarnings_iff` says which answers are read as they are meant.
-/

namespace Cheti.Porkbun

open Fut

/-! ## Answers -/

/-- The warning of an answer, as a string or as one item of a list. -/
inductive Warned : Option Value → Prop where
  | one {w : Str} (h : trim w ≠ []) : Warned (some (.string w))
  | many {items : List Value} {w : Str} (hw : .string w ∈ items) (h : trim w ≠ []) : Warned (some (.array items))

/-- Nothing is said, at most in blanks. -/
inductive Unwarned : Option Value → Prop where
  | absent : Unwarned none
  | null : Unwarned (some .null)
  | blank {w : Str} (h : trim w = []) : Unwarned (some (.string w))
  | blanks {items : List Value} (h : ∀ v ∈ items, ∃ w, v = .string w ∧ trim w = []) : Unwarned (some (.array items))

/-- The id that an answer gives the record: a string, or a non-negative integer. -/
def givenId : Option Value → Option Str
  | some (.string s) => some s
  | some (.number n) => if 0 ≤ n then some (toString n.toNat).toList else none
  | _ => none

/-- An `id` that is decoded: none at all, a string or a `u64`. -/
def IdReadable (id : Option Value) : Prop := ∀ v, id = some v → ∃ s, stringOrNumber v = some s

/-- Warnings that are decoded: a list only if all of it is strings. -/
def ItemsReadable (warnings : Option Value) : Prop :=
  ∀ items, warnings = some (.array items) → ∀ v ∈ items, ∃ w, v = .string w

/-- `code` and `message` are strings, null or absent. -/
def EnvelopeReadable (fs : List (Str × Value)) : Prop :=
  Value.optionalStr (Value.lookup "code" fs) ≠ none ∧ Value.optionalStr (Value.lookup "message" fs) ≠ none

/-- HTTP success, and an object that says `SUCCESS`. -/
structure Stored (resp : Response (Option Value)) (fs : List (Str × Value)) : Prop where
  success : resp.status.isSuccess = true
  body : resp.body = .ok (some (.object fs))
  status : ∃ s, Value.lookup "status" fs = some (.string s) ∧ eqIgnoreCase s "SUCCESS".toList = true

/-- This record is deleted, once or again, and no other. -/
def Deletes (zone id : Str) (t : List (Ev (Call Req) (Reply Req.Doc))) : Prop :=
  (∃ e ∈ t, e.call = .send (.delete zone id)) ∧
    ∀ e ∈ t, ∀ zone' id', e.call = .send (.delete zone' id') → zone' = zone ∧ id' = id

def NoDelete (t : List (Ev (Call Req) (Reply Req.Doc))) : Prop := ∀ e ∈ t, ∀ zone id, e.call ≠ .send (.delete zone id)

/-- What `create_record` is to make of the answer, whatever came before it and whatever the deletion is
answered with. -/
def HandlesWarnings (cfg : PorkbunConfig) (zone subdomain value : Str) (resp : Response (Option Value))
    (fs : List (Str × Value)) : Prop :=
  ∀ t r, (createRecord cfg zone subdomain value).run.Runs t r →
    (⟨.send (.create zone ⟨subdomain, txt, value, cfg.ttl⟩), .ok resp⟩ : Ev (Call Req) (Reply Req.Doc)) ∈ t →
    (Warned (Value.lookup "warnings" fs) →
      (∃ e, r = .error e) ∧ ∀ id, givenId (Value.lookup "id" fs) = some id → Deletes zone id t) ∧
    (Unwarned (Value.lookup "warnings" fs) → r = .ok () ∧ NoDelete t)

/-! ## Decoding -/

variable {fs : List (Str × Value)} {resp : Response (Option Value)} {path zone : Str}

theorem envelope_ofObject : Envelope.ofValue (.object fs) = (do
    let status ← Value.lookup "status" fs
    return ⟨← status.asStr, ← Value.optionalStr (Value.lookup "code" fs),
      ← Value.optionalStr (Value.lookup "message" fs)⟩) := by
  cases hs : Value.lookup "status" fs with
  | none => simp [Envelope.ofValue, Value.fields, hs]
  | some v => simp [Envelope.ofValue, Value.fields, hs]

/-- The field `id` with `#[serde(default, deserialize_with)]`: null is decoded like any other value. -/
def readId : Option Value → Option (Option Str)
  | none => some none
  | some v => (stringOrNumber v).map some

/-- The field `warnings` with `#[serde(default)]`. -/
def readWarnings : Option Value → Option Warnings
  | none => some .none
  | some v => Warnings.ofValue v

theorem createdRecord_ofObject : CreatedRecord.ofValue (.object fs) =
    (readId (Value.lookup "id" fs)).bind fun id =>
      (readWarnings (Value.lookup "warnings" fs)).bind fun warnings => some ⟨id, warnings⟩ := by
  have hfields : CreatedRecord.ofValue (.object fs) = (do
      let id ← match Value.lookup "id" fs with
        | none => some none
        | some v => (stringOrNumber v).map some
      let warnings ← match Value.lookup "warnings" fs with
        | none => some Warnings.none
        | some v => Warnings.ofValue v
      return ⟨id, warnings⟩) := rfl
  rw [hfields]
  cases Value.lookup "id" fs with
  | none => cases hw : Value.lookup "warnings" fs <;> simp [readId, readWarnings]
  | some v =>
    cases hv : stringOrNumber v with
    | none => simp [readId, hv]
    | some s => cases hw : Value.lookup "warnings" fs <;> simp [readId, readWarnings, hv]

theorem parseEnvelope_stored (h : Stored resp fs) (henv : EnvelopeReadable fs) :
    parseEnvelope path zone resp = .ok (.object fs) := by
  obtain ⟨s, hs, hsuccess⟩ := h.status
  obtain ⟨code, hcode⟩ := Option.ne_none_iff_exists'.1 henv.1
  obtain ⟨message, hmessage⟩ := Option.ne_none_iff_exists'.1 henv.2
  refine parseEnvelope_ok.2 ⟨h.success, h.body, ⟨s, code, message⟩, ?_, hsuccess⟩
  simp [envelope_ofObject, hs, hcode, hmessage, Value.asStr]

theorem parseEnvelope_unreadable (h : Stored resp fs) (henv : ¬ EnvelopeReadable fs) :
    ∃ e, parseEnvelope path zone resp = .error (.other e) := by
  obtain ⟨s, hs, -⟩ := h.status
  have hnone : Envelope.ofValue (.object fs) = none := by
    rw [EnvelopeReadable, not_and_or, not_not, not_not] at henv
    rcases henv with henv | henv
    · simp [envelope_ofObject, hs, henv, Value.asStr]
    · cases hcode : Value.optionalStr (Value.lookup "code" fs) <;> simp [envelope_ofObject, hs, hcode, henv, Value.asStr]
  have hlimit : resp.status.asU16 ≠ 429 := fun h429 => StatusCode.not_throttled h.success (Or.inl h429)
  rw [parseEnvelope_of_none h.body hnone, if_neg hlimit]
  exact ⟨_, rfl⟩

/-- What the answer is taken for. -/
def decoded (fs : List (Str × Value)) : CreatedRecord := (CreatedRecord.ofValue (.object fs)).getD ⟨none, .none⟩

theorem decoded_of_none (h : CreatedRecord.ofValue (.object fs) = none) : (decoded fs).warnings.intoVec = [] := by
  rw [decoded, h]
  rfl

theorem stringOrNumber_eq {v : Value} {s : Str} (h : stringOrNumber v = some s) : givenId (some v) = some s := by
  cases v with
  | string s' => exact h
  | number n =>
    obtain ⟨m, hm, rfl⟩ := Option.map_eq_some_iff.1 h
    obtain ⟨hn, -⟩ := Value.asU64_eq_some.1 hm
    cases hn
    simp [givenId]
  | _ => cases h

theorem readId_readable {id : Option Value} (h : IdReadable id) : readId id = some (givenId id) := by
  cases id with
  | none => rfl
  | some v =>
    obtain ⟨s, hs⟩ := h v rfl
    simp only [readId, hs, stringOrNumber_eq hs, Option.map_some]

theorem readId_unreadable {id : Option Value} (h : ¬ IdReadable id) : readId id = none := by
  simp only [IdReadable, not_forall, not_exists] at h
  obtain ⟨v, rfl, hne⟩ := h
  have hnone : stringOrNumber v = none := Option.eq_none_iff_forall_ne_some.2 hne
  simp [readId, hnone]

theorem mapM_asStr (ws : List Str) : (ws.map Value.string).mapM Value.asStr = some ws := by
  induction ws with
  | nil => rfl
  | cons w ws ih => simp [Value.asStr, ih]

theorem mapM_asStr_eq_none {items : List Value} (h : ¬ ∀ v ∈ items, ∃ w, v = .string w) : items.mapM Value.asStr = none := by
  induction items with
  | nil => simp at h
  | cons v items ih =>
    rw [List.forall_mem_cons, not_and_or] at h
    cases v with
    | string w =>
      have hrest := ih (h.resolve_left fun hne => hne ⟨w, rfl⟩)
      simp [Value.asStr, hrest]
    | _ => simp [Value.asStr]

theorem strings_of_readable {items : List Value} (h : ∀ v ∈ items, ∃ w, v = .string w) :
    ∃ ws : List Str, items = ws.map Value.string := by
  induction items with
  | nil => exact ⟨[], rfl⟩
  | cons v items ih =>
    rw [List.forall_mem_cons] at h
    obtain ⟨⟨w, rfl⟩, hrest⟩ := h
    obtain ⟨ws, rfl⟩ := ih hrest
    exact ⟨w :: ws, rfl⟩

theorem readWarnings_strings (ws : List Str) : readWarnings (some (.array (ws.map Value.string))) = some (.many ws) := by
  rw [readWarnings, Warnings.ofValue, mapM_asStr]
  rfl

/-- A warning that is decoded is left over when the blanks are taken out. -/
theorem readWarnings_warned {w : Option Value} (h : Warned w) (hitems : ItemsReadable w) :
    ∃ ws, readWarnings w = some ws ∧ ws.intoVec ≠ [] := by
  cases h with
  | one hw => exact ⟨_, rfl, by simpa [Warnings.intoVec] using hw⟩
  | @many items w hmem hw =>
    obtain ⟨ws, rfl⟩ := strings_of_readable (hitems items rfl)
    refine ⟨.many ws, readWarnings_strings ws, fun hnil => hw ?_⟩
    have hmem' : w ∈ ws := by simpa using hmem
    simpa using List.filter_eq_nil_iff.1 hnil w hmem'

theorem readWarnings_unreadable {w : Option Value} (h : Warned w) (hitems : ¬ ItemsReadable w) :
    readWarnings w = none := by
  cases h with
  | one => exact absurd (fun _ h => by cases h) hitems
  | @many items w hmem hw =>
    have hnone : items.mapM Value.asStr = none := by
      refine mapM_asStr_eq_none fun hall => hitems fun items' h => ?_
      cases h
      exact hall
    simp [readWarnings, Warnings.ofValue, hnone]

theorem readWarnings_unwarned {w : Option Value} (h : Unwarned w) : ∃ ws, readWarnings w = some ws ∧ ws.intoVec = [] := by
  cases h with
  | absent => exact ⟨_, rfl, rfl⟩
  | null => exact ⟨_, rfl, rfl⟩
  | blank hw => exact ⟨_, rfl, by simp [Warnings.intoVec, hw]⟩
  | @blanks items hall =>
    obtain ⟨ws, rfl⟩ := strings_of_readable fun v hv => (hall v hv).imp fun _ h => h.1
    refine ⟨.many ws, readWarnings_strings ws, List.filter_eq_nil_iff.2 fun w hw => ?_⟩
    obtain ⟨w', hw', hblank⟩ := hall (.string w) (List.mem_map_of_mem hw)
    cases hw'
    simp [hblank]

theorem decoded_warned (h : Warned (Value.lookup "warnings" fs)) (hid : IdReadable (Value.lookup "id" fs))
    (hitems : ItemsReadable (Value.lookup "warnings" fs)) :
    (decoded fs).warnings.intoVec ≠ [] ∧ (decoded fs).id = givenId (Value.lookup "id" fs) := by
  obtain ⟨ws, hws, hne⟩ := readWarnings_warned h hitems
  rw [decoded, createdRecord_ofObject, readId_readable hid, hws]
  exact ⟨hne, rfl⟩

theorem decoded_unreadable (h : Warned (Value.lookup "warnings" fs))
    (hbad : ¬ (IdReadable (Value.lookup "id" fs) ∧ ItemsReadable (Value.lookup "warnings" fs))) :
    (decoded fs).warnings.intoVec = [] := by
  refine decoded_of_none ?_
  rw [createdRecord_ofObject]
  by_cases hid : IdReadable (Value.lookup "id" fs)
  · rw [readWarnings_unreadable h fun hitems => hbad ⟨hid, hitems⟩]
    simp
  · rw [readId_unreadable hid]
    rfl

theorem decoded_unwarned (h : Unwarned (Value.lookup "warnings" fs)) : (decoded fs).warnings.intoVec = [] := by
  obtain ⟨ws, hws, hnil⟩ := readWarnings_unwarned h
  by_cases hid : IdReadable (Value.lookup "id" fs)
  · rw [decoded, createdRecord_ofObject, readId_readable hid, hws]
    exact hnil
  · refine decoded_of_none ?_
    rw [createdRecord_ofObject, readId_unreadable hid]
    rfl

/-! ## Runs -/

theorem noDelete_of_retried {body : CreateRecord} {t : List (Ev (Call Req) (Reply Req.Doc))}
    (h : Retried .post (.create zone body) t) : NoDelete t := by
  intro e he zone' id' hcall
  rcases h e he with ⟨d, hd⟩ | ⟨resp, rfl, -⟩
  · rw [hd] at hcall
    cases hcall
  · cases hcall

/-- A deletion is the request and its repetitions. -/
theorem deleteRecord_calls {id : Str} {t : List (Ev (Call Req) (Reply Req.Doc))} {r : Except DnsError Unit}
    (h : (deleteRecord zone id).run.Runs t r) :
    Deletes zone id t ∧ ∀ e ∈ t, ∀ zone' body, e.call ≠ .send (.create zone' body) := by
  obtain ⟨t₁, a, rfl, hretried, -⟩ := answered_request h
  have hcall : ∀ e ∈ t₁ ++ [⟨.send (.delete zone id), a⟩], (∃ d, e.call = .sleep d) ∨ e.call = .send (.delete zone id) := by
    intro e he
    rcases List.mem_append.1 he with he | he
    · refine (hretried e he).imp_right ?_
      rintro ⟨resp, rfl, -⟩
      rfl
    · rw [List.mem_singleton.1 he]
      exact Or.inr rfl
  refine ⟨⟨⟨_, List.mem_append_right _ List.mem_cons_self, rfl⟩, fun e he zone' id' h => ?_⟩, fun e he zone' body h => ?_⟩
  · rcases hcall e he with ⟨d, hd⟩ | hd
    · rw [hd] at h
      cases h
    · rw [hd] at h
      cases h
      exact ⟨rfl, rfl⟩
  · rcases hcall e he with ⟨d, hd⟩ | hd
    · rw [hd] at h
      cases h
    · rw [hd] at h
      cases h

/-- What follows the answer to the creation. -/
inductive Finishes (zone : Str) : Except DnsError (Option CreatedRecord) → List (Ev (Call Req) (Reply Req.Doc)) →
    Except DnsError Unit → Prop where
  | failed {e : DnsError} : Finishes zone (.error e) [] (.error e)
  | duplicate : Finishes zone (.ok none) [] (.ok ())
  | clean {record : CreatedRecord} (h : record.warnings.intoVec = []) : Finishes zone (.ok (some record)) [] (.ok ())
  | kept {record : CreatedRecord} {e : DnsError} (h : record.warnings.intoVec ≠ []) (hid : record.id = none) :
    Finishes zone (.ok (some record)) [] (.error e)
  | takenBack {record : CreatedRecord} {id : Str} {t : List (Ev (Call Req) (Reply Req.Doc))} {r : Except DnsError Unit}
    {e : DnsError} (h : record.warnings.intoVec ≠ []) (hid : record.id = some id)
    (hrun : (deleteRecord zone id).run.Runs t r) : Finishes zone (.ok (some record)) t (.error e)

theorem Finishes.no_create {outcome : Except DnsError (Option CreatedRecord)} {t : List (Ev (Call Req) (Reply Req.Doc))}
    {r : Except DnsError Unit} (h : Finishes zone outcome t r) :
    ∀ e ∈ t, ∀ zone' body, e.call ≠ .send (.create zone' body) := by
  cases h with
  | takenBack _ _ hrun => exact (deleteRecord_calls hrun).2
  | _ => simp

variable {cfg : PorkbunConfig} {subdomain value : Str} {t : List (Ev (Call Req) (Reply Req.Doc))} {r : Except DnsError Unit}

theorem createRecord_runs (h : (createRecord cfg zone subdomain value).run.Runs t r) :
    ∃ t₁ a t₂, t = t₁ ++ ⟨.send (.create zone ⟨subdomain, txt, value, cfg.ttl⟩), a⟩ :: t₂ ∧
      Retried .post (.create zone ⟨subdomain, txt, value, cfg.ttl⟩) t₁ ∧
      Finishes zone (a.mapError .http >>= fun resp => created (parseEnvelope (createPath zone) zone resp)) t₂ r := by
  rw [createRecord, ExceptT.run_bind, bind_eq] at h
  obtain ⟨t₁, res, t₂, h₁, h₂, rfl⟩ := runs_bind.1 h
  obtain ⟨t₁, a, rfl, hretried, rfl⟩ := answered_request h₁
  refine ⟨t₁, a, t₂, by simp, hretried, ?_⟩
  generalize (a.mapError .http >>= fun resp => created (parseEnvelope (createPath zone) zone resp)) = outcome at h₂ ⊢
  rcases outcome with e | _ | record
  · obtain ⟨rfl, rfl⟩ := runs_done.1 h₂
    exact .failed
  · obtain ⟨rfl, rfl⟩ := runs_done.1 h₂
    exact .duplicate
  · by_cases hnil : record.warnings.intoVec = []
    · simp only [hnil, List.isEmpty_nil, if_true] at h₂
      obtain ⟨rfl, rfl⟩ := runs_done.1 h₂
      exact .clean hnil
    · have hempty : record.warnings.intoVec.isEmpty = false := by simpa using hnil
      simp only [hempty, Bool.false_eq_true, if_false] at h₂
      cases hid : record.id with
      | none =>
        simp only [hid] at h₂
        obtain ⟨rfl, rfl⟩ := runs_done.1 h₂
        exact .kept hnil hid
      | some id =>
        simp only [hid] at h₂
        rw [ExceptT.run_bind, ExceptT.run_lift, map_eq_pure_bind, bind_eq, bind_eq, Fut.bind_assoc] at h₂
        obtain ⟨t₃, r', t₄, hrun, hrest, rfl⟩ := runs_bind.1 h₂
        obtain ⟨rfl, rfl⟩ := runs_done.1 hrest
        rw [List.append_nil]
        exact .takenBack hnil hid hrun

/-- What becomes of an answer that the creation got. -/
theorem createRecord_stored (h : (createRecord cfg zone subdomain value).run.Runs t r) (hstored : Stored resp fs)
    (hmem : (⟨.send (.create zone ⟨subdomain, txt, value, cfg.ttl⟩), .ok resp⟩ : Ev (Call Req) (Reply Req.Doc)) ∈ t) :
    ∃ t₁ t₂, t = t₁ ++ ⟨.send (.create zone ⟨subdomain, txt, value, cfg.ttl⟩), .ok resp⟩ :: t₂ ∧ NoDelete t₁ ∧
      Finishes zone (created (parseEnvelope (createPath zone) zone resp)) t₂ r := by
  obtain ⟨t₁, a, t₂, rfl, hretried, hfin⟩ := createRecord_runs h
  obtain rfl : a = .ok resp := by
    rcases List.mem_append.1 hmem with hmem | hmem
    · -- an earlier answer would have been one to retry
      rcases hretried _ hmem with ⟨d, hd⟩ | ⟨resp', he, hretry⟩
      · cases hd
      · cases he
        exact absurd (hretry.imp_right And.left) (StatusCode.not_throttled hstored.success)
    · rcases List.mem_cons.1 hmem with he | hmem
      · cases he
        rfl
      · exact absurd rfl (hfin.no_create _ hmem _ _)
  exact ⟨t₁, t₂, rfl, noDelete_of_retried hretried, hfin⟩

/-- An answer is read as it is meant. -/
def ReadAsMeant (fs : List (Str × Value)) : Prop :=
  (Warned (Value.lookup "warnings" fs) →
    EnvelopeReadable fs ∧ IdReadable (Value.lookup "id" fs) ∧ ItemsReadable (Value.lookup "warnings" fs) ∨
    ¬ EnvelopeReadable fs ∧ givenId (Value.lookup "id" fs) = none) ∧
  (Unwarned (Value.lookup "warnings" fs) → EnvelopeReadable fs)

theorem created_stored (hstored : Stored resp fs) (henv : EnvelopeReadable fs) (path zone : Str) :
    created (parseEnvelope path zone resp) = .ok (some (decoded fs)) := by
  rw [parseEnvelope_stored hstored henv]
  rfl

theorem created_unreadable (hstored : Stored resp fs) (henv : ¬ EnvelopeReadable fs) (path zone : Str) :
    ∃ e, created (parseEnvelope path zone resp) = .error e := by
  obtain ⟨e, he⟩ := parseEnvelope_unreadable hstored henv
  rw [he]
  exact ⟨e, rfl⟩

/-- The run in which the creation gets the answer at once and nothing is taken back. -/
def answeredOnce (cfg : PorkbunConfig) (zone subdomain value : Str) (resp : Response (Option Value)) :
    List (Ev (Call Req) (Reply Req.Doc)) := [⟨.send (.create zone ⟨subdomain, txt, value, cfg.ttl⟩), .ok resp⟩]

theorem runs_post (hstored : Stored resp fs) : (post (createPath zone) zone
    (Req.create zone ⟨subdomain, txt, value, cfg.ttl⟩) created).run.Runs (answeredOnce cfg zone subdomain value resp)
      (created (parseEnvelope (createPath zone) zone resp)) :=
  runs_request_final fun hretry => StatusCode.not_throttled hstored.success (hretry.imp_right And.left)

theorem runs_clean (cfg : PorkbunConfig) (zone subdomain value : Str) (hstored : Stored resp fs)
    (henv : EnvelopeReadable fs) (hnil : (decoded fs).warnings.intoVec = []) :
    (createRecord cfg zone subdomain value).run.Runs (answeredOnce cfg zone subdomain value resp) (.ok ()) := by
  rw [createRecord, ExceptT.run_bind, bind_eq]
  refine runs_bind.2 ⟨_, _, [], runs_post hstored, ?_, by simp⟩
  simp only [created_stored hstored henv, hnil, List.isEmpty_nil, if_true]
  exact runs_done.2 ⟨rfl, rfl⟩

theorem runs_unreadable (cfg : PorkbunConfig) (zone subdomain value : Str) (hstored : Stored resp fs)
    (henv : ¬ EnvelopeReadable fs) :
    ∃ e, (createRecord cfg zone subdomain value).run.Runs (answeredOnce cfg zone subdomain value resp) (.error e) := by
  obtain ⟨e, he⟩ := created_unreadable hstored henv (createPath zone) zone
  refine ⟨e, ?_⟩
  rw [createRecord, ExceptT.run_bind, bind_eq]
  refine runs_bind.2 ⟨_, _, [], runs_post hstored, ?_, by simp⟩
  simp only [he]
  exact runs_done.2 ⟨rfl, rfl⟩

theorem handlesWarnings_of (hstored : Stored resp fs) (h : ReadAsMeant fs) :
    HandlesWarnings cfg zone subdomain value resp fs := by
  intro t r hrun hmem
  obtain ⟨t₁, t₂, rfl, hbefore, hfin⟩ := createRecord_stored hrun hstored hmem
  have hcreate : ∀ {t₂ : List (Ev (Call Req) (Reply Req.Doc))} {e : Ev (Call Req) (Reply Req.Doc)} {zone' id' : Str},
      e ∈ t₁ ++ ⟨.send (.create zone ⟨subdomain, txt, value, cfg.ttl⟩), .ok resp⟩ :: t₂ →
      e.call = .send (.delete zone' id') → e ∈ t₂ := by
    intro t₂ e zone' id' he hcall
    rcases List.mem_append.1 he with he | he
    · exact absurd hcall (hbefore e he zone' id')
    · rcases List.mem_cons.1 he with rfl | he
      · cases hcall
      · exact he
  refine ⟨fun hwarned => ?_, fun hunwarned => ?_⟩
  · rcases h.1 hwarned with ⟨henv, hid, hitems⟩ | ⟨henv, hno⟩
    · obtain ⟨hne, hgiven⟩ := decoded_warned hwarned hid hitems
      rw [created_stored hstored henv] at hfin
      cases hfin with
      | clean hnil => exact absurd hnil hne
      | kept _ hnone =>
        rw [← hgiven, hnone]
        exact ⟨⟨_, rfl⟩, fun _ h => by cases h⟩
      | takenBack _ hsome hdelete =>
        refine ⟨⟨_, rfl⟩, fun id hid' => ?_⟩
        rw [← hgiven, hsome] at hid'
        cases hid'
        obtain ⟨⟨e, he, hcall⟩, honly⟩ := (deleteRecord_calls hdelete).1
        refine ⟨⟨e, List.mem_append_right _ (List.mem_cons_of_mem _ he), hcall⟩, fun e' he' zone' id' hcall' => ?_⟩
        exact honly e' (hcreate he' hcall') zone' id' hcall'
    · obtain ⟨e, he⟩ := created_unreadable hstored henv (createPath zone) zone
      rw [he] at hfin
      cases hfin
      exact ⟨⟨e, rfl⟩, fun id hid => by rw [hno] at hid; cases hid⟩
  · rw [created_stored hstored (h.2 hunwarned)] at hfin
    have hnil := decoded_unwarned hunwarned
    cases hfin with
    | clean =>
      refine ⟨rfl, fun e he zone' id' hcall => ?_⟩
      cases hcreate he hcall
    | kept hne => exact absurd hnil hne
    | takenBack hne => exact absurd hnil hne

/-- **A record that will not resolve is reported, and taken back, exactly if its answer is read as meant.** -/
theorem handlesWarnings_iff (cfg : PorkbunConfig) (zone subdomain value : Str) (hstored : Stored resp fs) :
    HandlesWarnings cfg zone subdomain value resp fs ↔ ReadAsMeant fs := by
  refine ⟨fun h => ⟨fun hwarned => ?_, fun hunwarned => ?_⟩, handlesWarnings_of hstored⟩
  · by_cases henv : EnvelopeReadable fs
    · refine Or.inl ⟨henv, ?_⟩
      by_contra hbad
      -- the warning is lost and the run ends well
      have hrun := runs_clean cfg zone subdomain value hstored henv (decoded_unreadable hwarned hbad)
      obtain ⟨⟨e, he⟩, -⟩ := (h _ _ hrun List.mem_cons_self).1 hwarned
      cases he
    · refine Or.inr ⟨henv, ?_⟩
      obtain ⟨e, hrun⟩ := runs_unreadable cfg zone subdomain value hstored henv
      by_contra hne
      obtain ⟨id, hid⟩ := Option.ne_none_iff_exists'.1 hne
      obtain ⟨ev, hev, hcall⟩ := (((h _ _ hrun List.mem_cons_self).1 hwarned).2 id hid).1
      rw [List.mem_singleton.1 hev] at hcall
      cases hcall
  · by_contra henv
    obtain ⟨e, hrun⟩ := runs_unreadable cfg zone subdomain value hstored henv
    cases ((h _ _ hrun List.mem_cons_self).2 hunwarned).1

/-- An answer with HTTP status 200. -/
def answer (fs : List (Str × Value)) : Response (Option Value) :=
  ⟨⟨200, "200 OK"⟩, none, none, none, [], .ok (some (.object fs))⟩

def success (id : List (Str × Value)) (warnings : Value) : List (Str × Value) :=
  ("status".toList, .string "SUCCESS".toList) :: ("warnings".toList, warnings) :: id

theorem stored_answer (id : List (Str × Value)) (warnings : Value) :
    Stored (answer (success id warnings)) (success id warnings) :=
  ⟨rfl, rfl, "SUCCESS".toList, rfl, rfl⟩

def anyConfig : PorkbunConfig := ⟨none, 600, fun _ => ""⟩

theorem handlesWarnings_number : HandlesWarnings anyConfig "a.org".toList "x".toList "v".toList
    (answer (success [("id".toList, .number 7)] (.string "w".toList)))
    (success [("id".toList, .number 7)] (.string "w".toList)) := by
  refine (handlesWarnings_iff _ _ _ _ (stored_answer _ _)).2
    ⟨fun _ => Or.inl ⟨⟨nofun, nofun⟩, ?_, nofun⟩, fun _ => ⟨nofun, nofun⟩⟩
  intro v hv
  cases hv
  exact ⟨_, rfl⟩

/-- With `"id": null` the warning is lost: the creation is reported as a success. -/
theorem null_id_loses_warning :
    let fs := success [("id".toList, .null)] (.array [.string "not resolving".toList])
    Stored (answer fs) fs ∧ Warned (Value.lookup "warnings" fs) ∧
      (createRecord anyConfig "a.org".toList "x".toList "v".toList).run.Runs
        (answeredOnce anyConfig "a.org".toList "x".toList "v".toList (answer fs)) (.ok ()) := by
  intro fs
  have hstored : Stored (answer fs) fs := stored_answer _ _
  exact ⟨hstored, .many List.mem_cons_self (by decide), runs_clean _ _ _ _ hstored ⟨nofun, nofun⟩ rfl⟩

end Cheti.Porkbun
