import Cheti.Listing
import Cheti.RecordSet
/-!
# Servers that keep one record for each value

An API in which records are created and deleted one by one, each with an id of its own. What a request
means is said once (`Meaning`); `RecordServer.env` is any server with that meaning: with `faulty`, a
request may fail whether or not it was carried out, and only an answer that confirms it can be relied on.
What else is known about the answers, such as those to zone lookups, is `answers`.

`hold` are the records that a call is about. `Finds` is what the listing of a call must say about them,
`wp_present` and `wp_cleanup` are then the two calls: what they leave (`Presented`, `Cleaned`) never
touches a record that is not in `hold`, and where every request succeeds they return `Ok` and do what they
are for (`Op.Exactly`).
-/

namespace Cheti

open Fut

/-- What a request asks of a server that keeps records of type `R`. -/
inductive Meaning (R ι D : Type) where
  /-- It changes nothing, and an answer shows this of the records. -/
  | reads (shows : List R → Response D → Prop)
  /-- It adds one of these records. -/
  | creates (makes : R → Prop)
  | deletes (id : ι)

structure RecordServer (Q : Type) (B : Q → Type) (R ι : Type) where
  ident : R → ι
  meaning : (q : Q) → Meaning R ι (B q)
  /-- The answer can be read, and says that the request was carried out or that there was nothing to do. -/
  confirms : (q : Q) → Response (B q) → Prop
  /-- What a call may be answered at all. -/
  answers : (c : Call Q) → Reply B c → Prop

section Rules

variable {Q : Type} {B : Q → Type} {R ι α β : Type} [DecidableEq ι] (srv : RecordServer Q B R ι)

/-- What an answered request did. -/
def Meaning.Does {D : Type} (ident : R → ι) (confirmed : Prop) (resp : Option (Response D)) (s s' : List R) :
    Meaning R ι D → Prop
  | .reads shows => s' = s ∧ ∀ a, resp = some a → shows s a
  | .creates makes => (∃ x, makes x ∧ (∀ y ∈ s, ident y ≠ ident x) ∧ s' = s ++ [x]) ∨
      s' = s ∧ (confirmed → ∃ x ∈ s, makes x)
  | .deletes id => s' = s.filter (ident · ≠ id) ∨ s' = s ∧ ¬ confirmed

/-- The request is answered, and the answer confirms it. -/
def RecordServer.Confirmed (q : Q) (r : Except String (Response (B q))) : Prop :=
  ∃ resp, r = .ok resp ∧ srv.confirms q resp

/-- The request succeeds: it is confirmed, and it was not throttled. -/
def RecordServer.Succeeds (q : Q) (r : Except String (Response (B q))) : Prop :=
  ∃ resp, r = .ok resp ∧ srv.confirms q resp ∧ ¬ (resp.status.asU16 = 429 ∨ resp.status.asU16 = 503)

def RecordServer.env (faulty : Bool) : Env (Call Q) (Reply B) (List R)
  | .send q, r, s, s' => srv.answers (.send q) r ∧ (faulty = false → srv.Succeeds q r) ∧
      (srv.meaning q).Does srv.ident (srv.Confirmed q r) r.toOption s s'
  | c, r, s, s' => srv.answers c r ∧ s' = s

variable {srv} {faulty : Bool} {s s' : List R} {hold : R → Bool}

def RecordServer.UniqueIds (srv : RecordServer Q B R ι) (s : List R) : Prop := (s.map srv.ident).Nodup

omit [DecidableEq ι] in
theorem RecordServer.UniqueIds.eq (h : srv.UniqueIds s) {x y : R} (hx : x ∈ s) (hy : y ∈ s)
    (he : srv.ident x = srv.ident y) : x = y := List.inj_on_of_nodup_map h hx hy he

omit [DecidableEq ι] in
theorem RecordServer.UniqueIds.append (h : srv.UniqueIds s) {x : R} (hx : ∀ y ∈ s, srv.ident y ≠ srv.ident x) :
    srv.UniqueIds (s ++ [x]) := by
  rw [UniqueIds, List.map_append]
  refine List.Nodup.append h (List.nodup_singleton _) ?_
  simpa [List.disjoint_singleton] using hx

/-- Every call leaves the ids unique. -/
theorem env_ids {c : Call Q} {r : Reply B c} (h : srv.env faulty c r s s') (hids : srv.UniqueIds s) : srv.UniqueIds s' := by
  cases c with
  | send q =>
    obtain ⟨-, -, h⟩ := h
    cases hq : srv.meaning q with
    | reads shows =>
      rw [hq] at h
      rwa [h.1]
    | creates makes =>
      rw [hq] at h
      rcases h with ⟨x, -, hfresh, rfl⟩ | ⟨rfl, -⟩
      · exact hids.append hfresh
      · exact hids
    | deletes id =>
      rw [hq] at h
      rcases h with rfl | ⟨rfl, -⟩
      · exact hids.sublist (List.filter_sublist.map _)
      · exact hids
  | _ => rwa [h.2]

/-- A server without failures is one that may have some. -/
theorem env_faulty {c : Call Q} {r : Reply B c} (h : srv.env faulty c r s s') : srv.env true c r s s' := by
  cases c with
  | send q => exact ⟨h.1, nofun, h.2.2⟩
  | _ => exact h

theorem env_sleep {d : Duration} {u : Unit} (h : srv.env faulty (.sleep d) u s s') : s' = s := h.2

/-! ## Requests -/

/-- A request that only reads. -/
theorem wp_reads {method : Method} {q : Q} {decode : Response (B q) → Except DnsError α}
    {shows : List R → Response (B q) → Prop} (hq : srv.meaning q = .reads shows) :
    wp (fun _ _ => True) (srv.env faulty) (request method q decode : Prog Q B α).run (fun r s' =>
      s' = s ∧ ∀ a, r = .ok a → ∃ resp, shows s resp ∧ decode resp = .ok a) s := by
  refine wp_request_inv (I := (· = s)) rfl ?_ fun d s₁ hs₁ => ⟨trivial, fun _ s' h => (env_sleep h).trans hs₁⟩
  rintro s rfl
  refine ⟨trivial, fun r s' h => ?_⟩
  obtain ⟨-, -, h⟩ := h
  rw [hq] at h
  obtain ⟨rfl, hshows⟩ := h
  refine ⟨fun e _ => ⟨rfl, nofun⟩, ?_⟩
  rintro resp rfl
  exact ⟨⟨rfl, fun a ha => ⟨resp, hshows resp rfl, ha⟩⟩, fun _ => rfl⟩

/-- Where requests succeed, there is a result. -/
theorem wp_succeeds {method : Method} {q : Q} {decode : Response (B q) → Except DnsError α}
    (hdecode : ∀ resp, srv.confirms q resp → ∃ a, decode resp = .ok a) :
    wp (fun _ _ => True) (srv.env faulty) (request method q decode : Prog Q B α).run (fun r _ =>
      faulty = false → ∃ a, r = .ok a) s := by
  refine wp_request_inv (I := fun _ => True) trivial (fun s₁ _ => ⟨trivial, fun r s' h => ?_⟩)
    fun _ _ _ => ⟨trivial, fun _ _ _ => trivial⟩
  obtain ⟨-, hsucc, -⟩ := h
  refine ⟨?_, ?_⟩
  · rintro e rfl hf
    obtain ⟨_, he, -⟩ := hsucc hf
    cases he
  · rintro resp rfl
    refine ⟨fun hf => ?_, fun _ => trivial⟩
    obtain ⟨_, he, hconf, -⟩ := hsucc hf
    cases he
    exact hdecode resp hconf

/-- A result was decoded from an answer. -/
theorem wp_answered {method : Method} {q : Q} {decode : Response (B q) → Except DnsError α} :
    wp (fun _ _ => True) (srv.env faulty) (request method q decode : Prog Q B α).run (fun r _ =>
      ∀ a, r = .ok a → ∃ resp, srv.answers (.send q) (.ok resp) ∧ decode resp = .ok a) s := by
  refine wp_request_inv (I := fun _ => True) trivial (fun s₁ _ => ⟨trivial, fun r s' h => ⟨fun _ _ => nofun, ?_⟩⟩)
    fun _ _ _ => ⟨trivial, fun _ _ _ => trivial⟩
  rintro resp rfl
  exact ⟨fun a ha => ⟨resp, h.1, ha⟩, fun _ => trivial⟩

variable (srv) in
/-- A part of a call that changes nothing, and what its result is. -/
def Reads (faulty : Bool) (p : Prog Q B α) (A : α → Prop) : Prop :=
  ∀ s, wp (fun _ _ => True) (srv.env faulty) p.run (fun r s' => s' = s ∧ ∀ a, r = .ok a → A a) s

/-- It may come first. -/
theorem Reads.before {p : Prog Q B α} {A : α → Prop} {f : α → Prog Q B β} {Post : Except DnsError β → List R → Prop}
    (hp : Reads srv faulty p A) (hf : ∀ a, A a → wp (fun _ _ => True) (srv.env faulty) (f a).run Post s)
    (herror : ∀ e, Post (.error e) s) : wp (fun _ _ => True) (srv.env faulty) (p >>= f).run Post s := by
  rw [wp_run_bind]
  refine wp_mono (hp s) ?_
  rintro r s' ⟨rfl, hr⟩
  cases r with
  | error e => exact herror e
  | ok a => exact hf a (hr a rfl)

theorem Reads.bind {p : Prog Q B α} {A : α → Prop} {f : α → Prog Q B β} {A' : β → Prop} (hp : Reads srv faulty p A)
    (hf : ∀ a, A a → Reads srv faulty (f a) A') : Reads srv faulty (p >>= f) A' :=
  fun s => hp.before (fun a ha => hf a ha s) fun _ => ⟨rfl, nofun⟩

theorem Reads.pure {a : α} {A : α → Prop} (h : A a) : Reads srv faulty (Pure.pure a : Prog Q B α) A :=
  fun _ => ⟨rfl, fun _ he => by cases he; exact h⟩

theorem Reads.lift (x : Except DnsError α) : Reads srv faulty (liftM x : Prog Q B α) (x = .ok ·) := fun _ => ⟨rfl, fun _ h => h⟩

theorem Reads.findZone (fqdn : Str) : Reads srv faulty (Cheti.findZone fqdn) fun zone =>
    srv.answers (.findZone fqdn) (.ok zone) := by
  refine fun s => ⟨trivial, fun r s' h => ⟨h.2, ?_⟩⟩
  rintro zone rfl
  exact h.1

theorem Reads.sync {c : Call Q} (hc : ∀ q, c ≠ .send q) : Reads srv faulty (Cheti.sync c : Prog Q B _) (srv.answers c) := by
  refine fun s => ⟨trivial, fun r s' h => ?_⟩
  cases c with
  | send q => exact absurd rfl (hc q)
  | _ =>
    refine ⟨h.2, fun a ha => ?_⟩
    cases ha
    exact h.1

theorem Reads.cached {name : Str} {find : Prog Q B Str} {A : Str → Prop} (hfind : Reads srv faulty find A)
    (hcache : ∀ z, srv.answers (.cacheGet name) (some z) → A z) : Reads srv faulty (Cheti.cached name find) A := by
  refine (Reads.sync nofun).bind fun found hfound => ?_
  cases found with
  | some z => exact .pure (hcache z hfound)
  | none => exact hfind.bind fun z hz => (Reads.sync nofun).bind fun _ _ => .pure hz

/-- A lock is taken and released around the rest of the call. -/
theorem wp_locked {l : KeyedMutex} {key : Str} {body : Prog Q B α} {Post : Except DnsError α → List R → Prop}
    (h : wp (fun _ _ => True) (srv.env faulty) body.run Post s) :
    wp (fun _ _ => True) (srv.env faulty) (withLock l key body).run Post s := by
  refine wp_withLock.2 ⟨trivial, fun _ s₁ h₁ => ?_⟩
  obtain rfl : s₁ = s := h₁.2
  refine wp_mono h fun r s₂ hpost => ⟨trivial, fun _ s₃ h₃ => ?_⟩
  obtain rfl : s₃ = s₂ := h₃.2
  exact hpost

variable (srv) in
/-- Records that are held were added, and all others are as they were. -/
structure Added (hold : R → Bool) (s s' : List R) (added : List R) : Prop where
  eq : s' = s ++ added
  held : ∀ x ∈ added, hold x = true
  ids : srv.UniqueIds s'

omit [DecidableEq ι] in
theorem Added.snoc {added : List R} {x : R} (h : Added srv hold s s' added) (hx : hold x = true)
    (hfresh : ∀ y ∈ s', srv.ident y ≠ srv.ident x) : Added srv hold s (s' ++ [x]) (added ++ [x]) where
  eq := by rw [h.eq, List.append_assoc]
  held y hy := by
    rcases List.mem_append.1 hy with hy | hy
    · exact h.held y hy
    · rwa [List.mem_singleton.1 hy]
  ids := h.ids.append hfresh

variable (srv) in
/-- What a creation of a held record leaves. With failures there may be several attempts. -/
structure Created (faulty : Bool) (hold : R → Bool) (s : List R) (r : Except DnsError α) (s' : List R) : Prop where
  added : ∃ added, Added srv hold s s' added ∧ (faulty = false → added.length ≤ 1)
  there : ∀ a, r = .ok a → ∃ x ∈ s', hold x = true
  succeeds : faulty = false → ∃ a, r = .ok a

omit [DecidableEq ι] in
/-- Only whether there is a result counts. -/
theorem Created.congr {r : Except DnsError α} {r' : Except DnsError β} (h : Created srv faulty hold s r s')
    (hr : (∃ a, r = .ok a) ↔ ∃ b, r' = .ok b) : Created srv faulty hold s r' s' where
  added := h.added
  there b hb := by
    obtain ⟨a, ha⟩ := hr.2 ⟨b, hb⟩
    exact h.there a ha
  succeeds hf := hr.1 (h.succeeds hf)

/-- **A creation with its retries.** Each attempt may add a record; where every request succeeds there is
only one attempt. -/
theorem wp_creates {method : Method} {q : Q} {decode : Response (B q) → Except DnsError α} {makes : R → Prop}
    (hq : srv.meaning q = .creates makes) (hmakes : ∀ x, makes x → hold x = true)
    (hdecode : ∀ resp, (∃ a, decode resp = .ok a) ↔ srv.confirms q resp) (hids : srv.UniqueIds s) :
    wp (fun _ _ => True) (srv.env faulty) (request method q decode : Prog Q B α).run (Created srv faulty hold s) s := by
  refine wp_request_inv (I := fun s₁ => ∃ added, Added srv hold s s₁ added ∧ (faulty = false → added = []))
    ⟨[], ⟨by simp, by simp, hids⟩, fun _ => rfl⟩ ?_ ?_
  · rintro s₁ ⟨added, hadded, hnone⟩
    refine ⟨trivial, fun r s' h => ?_⟩
    obtain ⟨-, hsucc, h⟩ := h
    rw [hq] at h
    have hstep : (∃ added', Added srv hold s s' added' ∧ (faulty = false → added'.length ≤ 1)) ∧
        (srv.Confirmed q r → ∃ x ∈ s', hold x = true) := by
      rcases h with ⟨x, hx, hfresh, rfl⟩ | ⟨rfl, hthere⟩
      · refine ⟨⟨added ++ [x], hadded.snoc (hmakes x hx) hfresh, fun hf => by simp [hnone hf]⟩, fun _ => ?_⟩
        exact ⟨x, by simp, hmakes x hx⟩
      · refine ⟨⟨added, hadded, fun hf => by simp [hnone hf]⟩, fun hc => ?_⟩
        obtain ⟨x, hx, hm⟩ := hthere hc
        exact ⟨x, hx, hmakes x hm⟩
    obtain ⟨⟨added', hadded', hone⟩, hheld⟩ := hstep
    refine ⟨?_, ?_⟩
    · rintro e rfl
      refine ⟨⟨added', hadded', hone⟩, nofun, fun hf => ?_⟩
      obtain ⟨_, he, -⟩ := hsucc hf
      cases he
    · rintro resp rfl
      have hresp : faulty = false → srv.confirms q resp ∧ ¬ Retryable method resp := by
        intro hf
        obtain ⟨_, he, hconf, hthrottled⟩ := hsucc hf
        cases he
        exact ⟨hconf, fun hretry => hthrottled (hretry.imp_right And.left)⟩
      refine ⟨⟨⟨added', hadded', hone⟩, fun a ha => hheld ⟨resp, rfl, (hdecode resp).1 ⟨a, ha⟩⟩,
        fun hf => (hdecode resp).2 (hresp hf).1⟩, fun hretry => ⟨added', hadded', fun hf => ?_⟩⟩
      exact absurd hretry (hresp hf).2
  · rintro d s₁ hs₁
    refine ⟨trivial, fun _ s' h => ?_⟩
    rwa [env_sleep h]

/-- A deletion with its retries. -/
theorem wp_deletes {method : Method} {q : Q} {decode : Response (B q) → Except DnsError α} {id : ι}
    (hq : srv.meaning q = .deletes id) (hdecode : ∀ resp, (∃ a, decode resp = .ok a) ↔ srv.confirms q resp) :
    wp (fun _ _ => True) (srv.env faulty) (request method q decode : Prog Q B α).run (fun r s' =>
      (s' = s ∨ s' = s.filter (srv.ident · ≠ id)) ∧ (∀ a, r = .ok a → s' = s.filter (srv.ident · ≠ id)) ∧
      (faulty = false → ∃ a, r = .ok a)) s := by
  have hagain : (s.filter (srv.ident · ≠ id)).filter (srv.ident · ≠ id) = s.filter (srv.ident · ≠ id) := by
    simp [List.filter_filter]
  have hdeletes : wp (fun _ _ => True) (srv.env faulty) (request method q decode : Prog Q B α).run (fun r s' =>
      (s' = s ∨ s' = s.filter (srv.ident · ≠ id)) ∧ ∀ a, r = .ok a → s' = s.filter (srv.ident · ≠ id)) s := by
    refine wp_request_inv (I := fun s₁ => s₁ = s ∨ s₁ = s.filter (srv.ident · ≠ id)) (Or.inl rfl) ?_ ?_
    · intro s₁ hs₁
      refine ⟨trivial, fun r s' h => ?_⟩
      obtain ⟨-, -, h⟩ := h
      rw [hq] at h
      have hstep : (s' = s ∨ s' = s.filter (srv.ident · ≠ id)) ∧
          (srv.Confirmed q r → s' = s.filter (srv.ident · ≠ id)) := by
        rcases h with rfl | ⟨rfl, hnot⟩
        · rcases hs₁ with rfl | rfl
          · exact ⟨Or.inr rfl, fun _ => rfl⟩
          · rw [hagain]
            exact ⟨Or.inr rfl, fun _ => rfl⟩
        · exact ⟨hs₁, fun hc => absurd hc hnot⟩
      refine ⟨fun e _ => ⟨hstep.1, nofun⟩, ?_⟩
      rintro resp rfl
      exact ⟨⟨hstep.1, fun a ha => hstep.2 ⟨resp, rfl, (hdecode resp).1 ⟨a, ha⟩⟩⟩, fun _ => hstep.1⟩
    · intro d s₁ hs₁
      refine ⟨trivial, fun _ s' h => ?_⟩
      rwa [env_sleep h]
  refine wp_mono (hdeletes.and (wp_succeeds fun resp => (hdecode resp).2)) ?_
  rintro r s' ⟨⟨hstep, hgone⟩, hok⟩
  exact ⟨hstep, hgone, hok⟩

/-! ## The calls -/

variable (srv) in
/-- No record is touched that is not in `hold`. -/
structure Untouched (hold : R → Bool) (s s' : List R) : Prop where
  ids : srv.UniqueIds s'
  others : s'.filter (!hold ·) = s.filter (!hold ·)

omit [DecidableEq ι] in
theorem Untouched.refl (hids : srv.UniqueIds s) : Untouched srv hold s s := ⟨hids, rfl⟩

omit [DecidableEq ι] in
theorem Added.untouched {added : List R} (h : Added srv hold s s' added) : Untouched srv hold s s' where
  ids := h.ids
  others := by
    have hnone : added.filter (!hold ·) = [] := by
      rw [List.filter_eq_nil_iff]
      intro x hx
      simp [h.held x hx]
    rw [h.eq, List.filter_append, hnone, List.append_nil]

theorem Untouched.delete {s₁ : List R} (h : Untouched srv hold s s₁) {x : R} (hx : x ∈ s₁) (hheld : hold x = true) :
    Untouched srv hold s (s₁.filter (srv.ident · ≠ srv.ident x)) where
  ids := h.ids.sublist (List.filter_sublist.map _)
  others := by
    rw [← h.others, List.filter_filter]
    refine List.filter_congr fun y hy => ?_
    by_cases he : srv.ident y = srv.ident x
    · rw [h.ids.eq hy hx he]
      simp [hheld]
    · simp [he]

variable (srv) in
/-- What a `present` of the records in `hold` leaves. -/
structure Presented (hold : R → Bool) (s : List R) (r : Except DnsError Unit) (s' : List R) : Prop where
  untouched : Untouched srv hold s s'
  there : r = .ok () → ∃ x ∈ s', hold x = true

variable (srv) in
/-- What a `cleanup` of the records in `hold` leaves. -/
structure Cleaned (hold : R → Bool) (s : List R) (r : Except DnsError Unit) (s' : List R) : Prop where
  untouched : Untouched srv hold s s'
  fewer : s'.Sublist s
  gone : r = .ok () → ∀ x ∈ s', hold x = false

variable (srv) in
def Op.Promises (hold : R → Bool) (s : List R) (r : Except DnsError Unit) (s' : List R) : Op → Prop
  | .present => Presented srv hold s r s'
  | .cleanup => Cleaned srv hold s r s'

/-- What a call is for: `present` adds one record where none is held, and none otherwise; `cleanup` removes all that
are held. -/
def Op.Exactly (hold : R → Bool) (s : List R) (r : Except DnsError Unit) (s' : List R) : Op → Prop
  | .present => r = .ok () ∧ if s.any hold then s' = s else ∃ x, hold x = true ∧ s' = s ++ [x]
  | .cleanup => r = .ok () ∧ s' = s.filter (!hold ·)

variable (srv) in
/-- What a call has done at its end, `sure` being that nothing went wrong. -/
structure Outcome (sure : Prop) (op : Op) (hold : R → Bool) (s : List R) (r : Except DnsError Unit) (s' : List R) :
    Prop where
  promises : op.Promises srv hold s r s'
  exact : sure → op.Exactly hold s r s'

variable (srv) in
/-- The ids are those of held records. -/
def Sound (hold : R → Bool) (s : List R) (ids : List ι) : Prop := ∀ i ∈ ids, ∃ x ∈ s, hold x = true ∧ srv.ident x = i

variable (srv) in
/-- And none is missing. -/
def Complete (hold : R → Bool) (s : List R) (ids : List ι) : Prop := ∀ x ∈ s, hold x = true → srv.ident x ∈ ids

variable (srv) in
/-- A listing, of whose entries `matching` are those of the held records. Where `listed`, and no request fails, there
is one. -/
def Finds (faulty : Bool) (hold : R → Bool) (listed : List R → Prop) (list : Prog Q B (List β)) (matching : β → Bool)
    (id : β → ι) : Prop :=
  ∀ s, wp (fun _ _ => True) (srv.env faulty) list.run (fun r s' => s' = s ∧
    (∀ found, r = .ok found → Sound srv hold s ((found.filter matching).map id) ∧
      Complete srv hold s ((found.filter matching).map id)) ∧
    (faulty = false → listed s → ∃ found, r = .ok found)) s

/-- The listing has the records of a name, in any order, and the caller tests the value. -/
theorem finds_of_perm {here : R → Bool} {doc : R → β} {listed : List R → Prop} {list : Prog Q B (List β)}
    {matching : β → Bool} {id : β → ι}
    (hlist : ∀ s, wp (fun _ _ => True) (srv.env faulty) list.run (fun r s' => s' = s ∧
      (∀ found, r = .ok found → found.Perm ((s.filter here).map doc)) ∧
      (faulty = false → listed s → ∃ found, r = .ok found)) s)
    (hhold : ∀ x, hold x = (here x && matching (doc x))) (hid : ∀ x, here x = true → id (doc x) = srv.ident x) :
    Finds srv faulty hold listed list matching id := by
  intro s
  refine wp_mono (hlist s) ?_
  rintro r s' ⟨rfl, hr, hsure⟩
  refine ⟨rfl, fun found hfound => ?_, hsure⟩
  have hperm := hr found hfound
  constructor
  · intro i hi
    obtain ⟨b, hb, rfl⟩ := List.mem_map.1 hi
    obtain ⟨hb, hm⟩ := List.mem_filter.1 hb
    obtain ⟨x, hx, rfl⟩ := List.mem_map.1 (hperm.mem_iff.1 hb)
    obtain ⟨hx, hhere⟩ := List.mem_filter.1 hx
    exact ⟨x, hx, by rw [hhold, hhere, hm]; rfl, (hid x hhere).symm⟩
  · intro x hx hheld
    rw [hhold, Bool.and_eq_true] at hheld
    have hmem : doc x ∈ found := hperm.mem_iff.2 (List.mem_map_of_mem (List.mem_filter.2 ⟨hx, hheld.1⟩))
    rw [← hid x hheld.1]
    exact List.mem_map_of_mem (List.mem_filter.2 ⟨hmem, hheld.2⟩)

omit [DecidableEq ι] in
theorem any_of_finds {found : List β} {matching : β → Bool} {id : β → ι}
    (hsound : Sound srv hold s ((found.filter matching).map id))
    (hcomplete : Complete srv hold s ((found.filter matching).map id)) : found.any matching = s.any hold := by
  rw [Bool.eq_iff_iff, List.any_eq_true, List.any_eq_true]
  constructor
  · rintro ⟨b, hb, hm⟩
    obtain ⟨x, hx, hheld, -⟩ := hsound (id b) (List.mem_map_of_mem (List.mem_filter.2 ⟨hb, hm⟩))
    exact ⟨x, hx, hheld⟩
  · rintro ⟨x, hx, hheld⟩
    obtain ⟨b, hb, -⟩ := List.mem_map.1 (hcomplete x hx hheld)
    exact ⟨b, (List.mem_filter.1 hb).1, (List.mem_filter.1 hb).2⟩

omit [DecidableEq ι] in
/-- A call may be refused, or fail before it has changed anything. -/
theorem Outcome.refused {sure : Prop} (op : Op) (hids : srv.UniqueIds s) (hsure : ¬ sure) (e : DnsError) :
    Outcome srv sure op hold s (.error e) s := by
  refine ⟨?_, fun h => absurd h hsure⟩
  cases op with
  | present => exact ⟨.refl hids, nofun⟩
  | cleanup => exact ⟨.refl hids, .refl _, nofun⟩

omit [DecidableEq ι] in
/-- Nothing was held before, so what is held now was added. -/
theorem Created.outcome {r : Except DnsError Unit} (h : Created srv faulty hold s r s') (hany : s.any hold = false) :
    Outcome srv (faulty = false) .present hold s r s' := by
  obtain ⟨added, hadded, hone⟩ := h.added
  refine ⟨⟨hadded.untouched, h.there ()⟩, fun hf => ?_⟩
  obtain ⟨u, rfl⟩ := h.succeeds hf
  refine ⟨rfl, ?_⟩
  rw [hany, if_neg (by simp)]
  obtain ⟨x, hx, hheld⟩ := h.there u rfl
  rw [hadded.eq] at hx ⊢
  rcases List.mem_append.1 hx with hx | hx
  · exact absurd hheld (List.any_eq_false.1 hany x hx)
  · have hlen : added.length = 1 := le_antisymm (hone hf) (List.length_pos_of_mem hx)
    obtain ⟨y, rfl⟩ := List.length_eq_one_iff.1 hlen
    exact ⟨y, hadded.held y (by simp), rfl⟩

/-- **`present`**, once it is known whether the value is there. -/
theorem wp_present_if {there : Bool} {create : Prog Q B Unit} (hthere : there = s.any hold) (hids : srv.UniqueIds s)
    (hcreate : wp (fun _ _ => True) (srv.env faulty) create.run (Created srv faulty hold s) s) :
    wp (fun _ _ => True) (srv.env faulty) (if there then return else create : Prog Q B Unit).run
      (Outcome srv (faulty = false) .present hold s) s := by
  cases hany : s.any hold with
  | true =>
    rw [hthere, hany]
    exact ⟨⟨.refl hids, fun _ => by simpa using hany⟩, fun _ => ⟨rfl, by simp [hany]⟩⟩
  | false =>
    rw [hthere, hany]
    exact wp_mono hcreate fun r s' h => h.outcome hany

omit [DecidableEq ι] in
theorem Outcome.mono {sure sure' : Prop} {op : Op} {r : Except DnsError Unit} (h : Outcome srv sure op hold s r s')
    (hsure : sure' → sure) : Outcome srv sure' op hold s r s' :=
  ⟨h.promises, fun h' => h.exact (hsure h')⟩

/-- **`present`**: the listing, and a creation where it does not have the value. -/
theorem wp_present {listed : List R → Prop} {list : Prog Q B (List β)} {matching : β → Bool} {id : β → ι}
    {create : Prog Q B Unit} (hlist : Finds srv faulty hold listed list matching id) (hids : srv.UniqueIds s)
    (hcreate : wp (fun _ _ => True) (srv.env faulty) create.run (Created srv faulty hold s) s) :
    wp (fun _ _ => True) (srv.env faulty) (do
      let existing ← list
      if existing.any matching then return else create : Prog Q B Unit).run
      (Outcome srv (faulty = false ∧ listed s) .present hold s) s := by
  rw [wp_run_bind]
  refine wp_mono (hlist s) ?_
  rintro r s₁ ⟨rfl, hfound, hsure⟩
  cases r with
  | error e =>
    refine .refused .present hids (fun ⟨hf, hlisted⟩ => ?_) e
    obtain ⟨found, he⟩ := hsure hf hlisted
    cases he
  | ok found =>
    obtain ⟨hsound, hcomplete⟩ := hfound found rfl
    exact wp_mono (wp_present_if (any_of_finds hsound hcomplete) hids hcreate) fun r s' h => h.mono And.left

variable (srv) in
/-- A deletion of one entry, which may fail whether or not it was carried out. -/
def Deletes (faulty : Bool) (delete : β → Prog Q B Unit) (id : β → ι) : Prop :=
  ∀ b s, wp (fun _ _ => True) (srv.env faulty) (delete b).run (fun r s' =>
    (s' = s ∨ s' = s.filter (srv.ident · ≠ id b)) ∧ (∀ a, r = .ok a → s' = s.filter (srv.ident · ≠ id b)) ∧
    (faulty = false → ∃ a, r = .ok a)) s

/-- Deleting what was listed: only held records go, and in the end those that were listed are gone. -/
theorem wp_deleteEach {delete : β → Prog Q B Unit} {id : β → ι} (hdelete : Deletes srv faulty delete id)
    (hids : srv.UniqueIds s) : ∀ (l : List β) (s₁ : List R), Untouched srv hold s s₁ → s₁.Sublist s →
      Sound srv hold s (l.map id) → wp (fun _ _ => True) (srv.env faulty) (deleteEach delete l).run (fun r s' =>
        Untouched srv hold s s' ∧ s'.Sublist s₁ ∧ (r = .ok () → ∀ x ∈ s', srv.ident x ∉ l.map id) ∧
        (faulty = false → r = .ok ())) s₁
  | [], s₁, hkept, _, _ => ⟨hkept, .refl _, by simp, fun _ => rfl⟩
  | b :: l, s₁, hkept, hsub, hsound => by
    have hfilter : Untouched srv hold s (s₁.filter (srv.ident · ≠ id b)) := by
      by_cases hb : ∃ x ∈ s₁, srv.ident x = id b
      · obtain ⟨x, hx, hid⟩ := hb
        obtain ⟨y, hy, hheld, hidy⟩ := hsound (id b) (by simp)
        obtain rfl := hids.eq (hsub.subset hx) hy (hid.trans hidy.symm)
        rw [← hid]
        exact hkept.delete hx hheld
      · -- it went under an entry before this one
        have hnone : s₁.filter (srv.ident · ≠ id b) = s₁ := by
          rw [List.filter_eq_self]
          intro x hx
          simpa using fun he => hb ⟨x, hx, he⟩
        rwa [hnone]
    rw [deleteEach, wp_run_bind]
    refine wp_mono (hdelete b s₁) ?_
    rintro r s₂ ⟨hstep, hgone, hok⟩
    have hkept₂ : Untouched srv hold s s₂ := by
      rcases hstep with rfl | rfl
      · exact hkept
      · exact hfilter
    have hsub₂ : s₂.Sublist s₁ := by
      rcases hstep with rfl | rfl
      · exact .refl _
      · exact List.filter_sublist
    cases r with
    | error e =>
      refine ⟨hkept₂, hsub₂, nofun, fun hf => ?_⟩
      obtain ⟨u, he⟩ := hok hf
      cases he
    | ok u =>
      have hrest : Sound srv hold s (l.map id) := fun i hi => hsound i (List.mem_cons_of_mem _ hi)
      refine wp_mono (wp_deleteEach hdelete hids l s₂ hkept₂ (hsub₂.trans hsub) hrest) ?_
      rintro r s' ⟨hkept', hsub', hgone', hok'⟩
      refine ⟨hkept', hsub'.trans hsub₂, fun hr x hx => ?_, hok'⟩
      rw [List.map_cons, List.mem_cons, not_or]
      refine ⟨?_, hgone' hr x hx⟩
      have hx₂ := hsub'.subset hx
      rw [hgone u rfl] at hx₂
      simpa using (List.mem_filter.1 hx₂).2

/-- The listing shows some of the held records: they are what `cleanup` deletes. -/
theorem wp_cleanup_listed {list : Prog Q B (List β)} {matching : β → Bool} {id : β → ι} {delete : β → Prog Q B Unit}
    {Listed : List ι → Prop} {sure : Prop} (hlist : wp (fun _ _ => True) (srv.env faulty) list.run (fun r s' => s' = s ∧
      (∀ found, r = .ok found → Sound srv hold s ((found.filter matching).map id) ∧
        Listed ((found.filter matching).map id)) ∧ (faulty = false → sure → ∃ found, r = .ok found)) s)
    (hdelete : Deletes srv faulty delete id) (hids : srv.UniqueIds s) :
    wp (fun _ _ => True) (srv.env faulty) (do
      let existing ← list
      deleteEach delete (existing.filter matching) : Prog Q B Unit).run (fun r s' => Untouched srv hold s s' ∧
        s'.Sublist s ∧ (r = .ok () → ∃ ids, Listed ids ∧ ∀ x ∈ s', srv.ident x ∉ ids) ∧
        (faulty = false → sure → r = .ok ())) s := by
  rw [wp_run_bind]
  refine wp_mono hlist ?_
  rintro r s₁ ⟨rfl, hfound, hsure⟩
  cases r with
  | error e =>
    refine ⟨.refl hids, .refl _, nofun, fun hf hs => ?_⟩
    obtain ⟨found, he⟩ := hsure hf hs
    cases he
  | ok found =>
    obtain ⟨hsound, hlisted⟩ := hfound found rfl
    refine wp_mono (wp_deleteEach hdelete hids _ _ (.refl hids) (.refl _) hsound) ?_
    rintro r s' ⟨hkept, hsub, hgone, hok⟩
    exact ⟨hkept, hsub, fun hr => ⟨_, hlisted, hgone hr⟩, fun hf _ => hok hf⟩

omit [DecidableEq ι] in
/-- Nothing that is held is left, so the others are all there is. -/
theorem Cleaned.outcome {sure : Prop} {r : Except DnsError Unit} (h : Cleaned srv hold s r s') (hsure : sure → r = .ok ()) :
    Outcome srv sure .cleanup hold s r s' := by
  refine ⟨h, fun hs => ⟨hsure hs, ?_⟩⟩
  rw [← h.untouched.others, eq_comm, List.filter_eq_self]
  intro x hx
  simp [h.gone (hsure hs) x hx]

/-- **`cleanup`**: the listing, and a deletion of each record that has the value. -/
theorem wp_cleanup {listed : List R → Prop} {list : Prog Q B (List β)} {matching : β → Bool} {id : β → ι}
    {delete : β → Prog Q B Unit} (hlist : Finds srv faulty hold listed list matching id)
    (hdelete : Deletes srv faulty delete id) (hids : srv.UniqueIds s) :
    wp (fun _ _ => True) (srv.env faulty) (do
      let existing ← list
      deleteEach delete (existing.filter matching) : Prog Q B Unit).run
      (Outcome srv (faulty = false ∧ listed s) .cleanup hold s) s := by
  refine wp_mono (wp_cleanup_listed (hlist s) hdelete hids) ?_
  rintro r s' ⟨hkept, hsub, hgone, hok⟩
  have hcleaned : Cleaned srv hold s r s' := by
    refine ⟨hkept, hsub, fun hr x hx => ?_⟩
    obtain ⟨ids, hcomplete, hnone⟩ := hgone hr
    rw [← Bool.not_eq_true]
    exact fun hheld => hnone x hx (hcomplete x (hsub.subset hx) hheld)
  exact hcleaned.outcome fun ⟨hf, hlisted⟩ => hok hf hlisted

end Rules

end Cheti
