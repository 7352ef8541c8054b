import Cheti.Providers.Scaleway
/-!
# Concurrent calls of Scaleway (src/providers/scaleway.rs:117-146, 288-328)

A call sees the first page of the records of its name. `Within` follows a run on the API as it is: what a call writes is
what it has listed and at most one record more, so a name never has more records than at the start and presents since.
While they fit on a page the calls cannot tell the API from one that shows all of them (`run_whole`), and there
`Backend.Sound` gives their order.
-/

namespace Cheti.Scaleway

open Fut (wp Env)

variable {zenv : (c : Call Req) → Reply Req.Doc c → Prop} {faulty : Bool} {o : Owner}

/-- What a call may ask for when it has listed at most `n` records: to list `o`, and to write its result, once. -/
def asks (o : Owner) (op : Op) (n : Nat) : Call Req → Bool → Prop
  | .send (.list zone name), _ => (⟨zone, name, txt⟩ : Owner) = o
  | .send (.change _ (.set _ _ records)), written => written = false ∧ records.length ≤ n + if op = .present then 1 else 0
  | _, _ => True

/-- The API lists at most `n` records. -/
def answers (zenv : (c : Call Req) → Reply Req.Doc c → Prop) (n : Nat) : Env (Call Req) (Reply Req.Doc) Bool
  | .send (.list _ _), r, written, written' => written' = written ∧
    ∀ resp records, r = .ok resp → resp.status.isSuccess = true → resp.body = .ok records → records.length ≤ n
  | .send (.change _ (.set _ _ _)), r, written, written' =>
    written' = (written || r.toOption.any (·.status.isSuccess))
  | c, r, written, written' => written' = written ∧ (backend.lookup c = true → zenv c r)

section Calls

variable {zone rname : Str} {op : Op} {n : Nat}

variable {cfg : ScalewayConfig} {fqdn z : Str}

end Calls

/-! ## Runs -/

section Runs

variable {ι : Type} [Fintype ι] [DecidableEq ι] {calls : ι → Backend.Invocation backend} {n₀ : Nat} {written : ι → Bool}
  {m m' : Backend.Machine backend ι}

/-- How many calls have added a record. -/
def added (calls : ι → Backend.Invocation backend) (written : ι → Bool) : Nat :=
  (Finset.univ.filter fun i => (calls i).op = .present ∧ written i = true).card

theorem added_le_update (i : ι) {b : Bool} (hb : written i = true → b = true) :
    added calls written ≤ added calls (Function.update written i b) := by
  refine Finset.card_le_card fun j hj => ?_
  simp only [Finset.mem_filter, Finset.mem_univ, true_and] at hj ⊢
  refine ⟨hj.1, ?_⟩
  by_cases hji : j = i
  · subst hji
    rw [Function.update_self]
    exact hb hj.2
  · rw [Function.update_of_ne hji]
    exact hj.2

theorem added_update {i : ι} (hi : written i = false) :
    added calls written + (if (calls i).op = .present then 1 else 0) ≤ added calls (Function.update written i true) := by
  split
  · next hop =>
    rw [added, ← Finset.card_insert_of_notMem (a := i) (by simp [hi])]
    refine Finset.card_le_card fun j hj => ?_
    simp only [Finset.mem_insert, Finset.mem_filter, Finset.mem_univ, true_and] at hj ⊢
    by_cases hji : j = i
    · subst hji
      exact ⟨hop, Function.update_self ..⟩
    · rw [Function.update_of_ne hji]
      exact hj.resolve_left hji
  · exact added_le_update i fun _ => rfl

/-- A state of a run that began with `n₀` records. -/
structure Within (zenv : (c : Call Req) → Reply Req.Doc c → Prop) (o : Owner) (calls : ι → Backend.Invocation backend)
    (n₀ : Nat) (written : ι → Bool) (m : Backend.Machine backend ι) : Prop where
  progs : ∀ i n, n₀ + added calls written ≤ n →
    wp (asks o (calls i).op n) (answers zenv n) (m.prog i) (fun _ _ => True) (written i)
  records : ∀ records, m.store.sets o = some records → records.length ≤ n₀ + added calls written

variable {i : ι} {g : Option Unit} {c : Call Req} {k : Reply Req.Doc c → Fut Unit (Call Req) (Reply Req.Doc) (Except DnsError Unit)}

omit [DecidableEq ι] in
theorem Within.asked (h : Within zenv o calls n₀ written m) (hp : m.prog i = .await g c k) :
    asks o (calls i).op (n₀ + added calls written) c (written i) := by
  have hi := h.progs i _ le_rfl
  rw [hp] at hi
  exact hi.1

/-- A call is answered. -/
theorem Within.answered (h : Within zenv o calls n₀ written m) (hp : m.prog i = .await g c k) {r : Reply Req.Doc c} {b : Bool}
    {locks : KeyedMutex.State ι} {s : Records (List RecordSpec)} (hb : written i = true → b = true)
    (hr : ∀ n, n₀ + added calls written ≤ n → answers zenv n c r (written i) b)
    (hs : ∀ records, s.sets o = some records → records.length ≤ n₀ + added calls (Function.update written i b)) :
    Within zenv o calls n₀ (Function.update written i b) ⟨locks, s, Function.update m.prog i (k r)⟩ := by
  have hle : added calls written ≤ _ := added_le_update i hb
  refine ⟨fun j n hn => ?_, hs⟩
  by_cases hji : j = i
  · subst hji
    have hj := h.progs j n (by omega)
    rw [hp] at hj
    simp only [Function.update_self]
    exact hj.2 r b (hr n (by omega))
  · simp only [Function.update_of_ne hji]
    exact h.progs j n (by omega)

/-- The same for a call that writes nothing. -/
theorem Within.answered_same (h : Within zenv o calls n₀ written m) (hp : m.prog i = .await g c k) {r : Reply Req.Doc c}
    {locks : KeyedMutex.State ι} {s : Records (List RecordSpec)}
    (hs : ∀ records, s.sets o = some records → m.store.sets o = some records)
    (hr : ∀ n, n₀ + added calls written ≤ n → answers zenv n c r (written i) (written i)) :
    Within zenv o calls n₀ written ⟨locks, s, Function.update m.prog i (k r)⟩ := by
  have h' : Within zenv o calls n₀ _ ⟨locks, s, _⟩ := h.answered hp id hr fun records hrecords => by
    rw [Function.update_eq_self]
    exact h.records records (hs records hrecords)
  rwa [Function.update_eq_self] at h'

omit [Fintype ι] [DecidableEq ι] in
theorem sets_put {s : Records (List RecordSpec)} {o' : Owner} {x : Option (List RecordSpec)} {records : List RecordSpec}
    (h : (s.put o' x).sets o = some records) : x = some records ∨ s.sets o = some records := by
  by_cases ho : o = o'
  · subst ho
    exact Or.inl (by simpa [Records.put] using h)
  · exact Or.inr (by simpa [Records.put, ho] using h)

/-- A listing has no more records than there are. -/
theorem length_listed {zone name : Str} {r : Except String (Response (List Record))} {s s' : Records (List RecordSpec)} {n : Nat}
    (hr : backend.env zenv faulty (.send (.list zone name)) r s s')
    (hn : ∀ records, s.sets ⟨zone, name, txt⟩ = some records → records.length ≤ n) :
    s' = s ∧ ∀ resp records, r = .ok resp → resp.status.isSuccess = true → resp.body = .ok records → records.length ≤ n := by
  rcases (Backend.env_send rfl).1 hr with ⟨resp, rfl, rfl, hlisted⟩ | ⟨-, hfailed, rfl⟩
  · refine ⟨rfl, ?_⟩
    rintro resp' records ⟨⟩ hsucc hbody
    cases hset : s'.sets ⟨zone, name, txt⟩ with
    | none =>
      rw [hset] at hlisted
      rcases hlisted with h404 | ⟨-, hnil⟩
      · exact absurd h404 (StatusCode.ne_404 hsucc)
      · rw [hnil] at hbody
        cases hbody
        exact Nat.zero_le n
    | some stored =>
      rw [hset] at hlisted
      rw [hlisted.2] at hbody
      cases hbody
      rw [List.length_map]
      exact (List.take_sublist _ _).length_le.trans (hn stored hset)
  · refine ⟨rfl, ?_⟩
    rintro resp records rfl hsucc hbody
    rcases Backend.failed_ok hfailed with ⟨-, -, e, he⟩ | ⟨hfalse, -⟩
    · rw [he] at hbody
      cases hbody
    · rw [hfalse] at hsucc
      cases hsucc

theorem Within.call (h : Within zenv o calls n₀ written m) (hp : m.prog i = .await g c k)
    (hc : Backend.Plain (b := backend) c) {r : Reply Req.Doc c} {locks : KeyedMutex.State ι} {s : Records (List RecordSpec)} (hr : backend.env zenv faulty c r m.store s) :
    ∃ written', Within zenv o calls n₀ written' ⟨locks, s, Function.update m.prog i (k r)⟩ := by
  cases c with
  | send q =>
    cases q with
    | list zone name =>
      obtain rfl : (⟨zone, name, txt⟩ : Owner) = o := h.asked hp
      obtain ⟨rfl, hlisted⟩ := length_listed hr h.records
      refine ⟨written, h.answered_same hp (fun _ => id) fun n hn => ⟨rfl, fun resp records hresp hsucc hbody => ?_⟩⟩
      exact (hlisted resp records hresp hsucc hbody).trans hn
    | change zone change =>
      cases change with
      | set name type records =>
        obtain ⟨hfirst, hlen⟩ := h.asked hp
        rcases (Backend.env_send rfl).1 hr with ⟨resp, rfl, hsucc, rfl⟩ | ⟨-, hfailed, rfl⟩
        · refine ⟨_, h.answered hp (b := true) (fun _ => rfl) (fun n _ => ?_) fun stored hstored => ?_⟩
          · simp [answers, Except.toOption, hsucc]
          · have hadded : added calls written + _ ≤ _ := added_update hfirst
            rcases sets_put hstored with hrecords | hstored
            · cases hrecords
              omega
            · have := h.records stored hstored
              omega
        · refine ⟨written, h.answered_same hp (fun _ => id) fun n _ => ?_⟩
          cases r with
          | error e => simp [answers, Except.toOption]
          | ok resp =>
            rcases Backend.failed_ok hfailed with ⟨-, hreads, -⟩ | ⟨hsucc, -⟩
            · cases hreads
            · simp [answers, Except.toOption, hsucc]
      | delete name type =>
        rcases (Backend.env_send rfl).1 hr with ⟨resp, rfl, hsucc, rfl⟩ | ⟨-, -, rfl⟩
        · refine ⟨written, h.answered_same hp (fun records hrecords => ?_) fun n _ => ⟨rfl, fun h => by cases h⟩⟩
          rcases sets_put hrecords with hnone | hrecords
          · cases hnone
          · exact hrecords
        · exact ⟨written, h.answered_same hp (fun _ => id) fun _ _ => ⟨rfl, fun h => by cases h⟩⟩
  | lock l key => exact hc.elim
  | unlock => exact hc.elim
  | _ =>
    obtain ⟨rfl, hz, -⟩ := Backend.env_neutral (b := backend) (by trivial) hr
    exact ⟨written, h.answered_same hp (fun _ => id) fun _ _ => ⟨rfl, hz⟩⟩

theorem Within.step (h : Within zenv o calls n₀ written m) {e : Option (ι × Fut.Ev (Call backend.Q) (Reply backend.B))}
    (hstep : Backend.Step zenv faulty m e m') : ∃ written', Within zenv o calls n₀ written' m' := by
  cases hstep with
  | enqueue hp hl => exact ⟨written, h.progs, h.records⟩
  | acquire hp hl => exact ⟨written, h.answered_same hp (fun _ => id) fun _ _ => ⟨rfl, nofun⟩⟩
  | release hp hl => exact ⟨written, h.answered_same hp (fun _ => id) fun _ _ => ⟨rfl, nofun⟩⟩
  | call hp hc hr => exact h.call hp hc hr

variable {s₀ : Records (List RecordSpec)} {z name : Str} {w : List (ι × Fut.Ev (Call backend.Q) (Reply backend.B))}

variable (hname : ∀ i, normalizeName (calls i).fqdn = name)
  (hzone : ∀ i, backend.Resolves zenv false (calls i).cfg (calls i).fqdn z)
include hname hzone

end Runs

/-! ## Concurrent calls -/

/-- Two values for one name, in two spellings. -/
def twoPresents : Fin 2 → Backend.Invocation backend
  | 0 => ⟨⟨some "a.org".toList, 60⟩, .present, "_acme-challenge.a.org".toList, "x".toList⟩
  | 1 => ⟨⟨some "a.org".toList, 60⟩, .present, "_ACME-challenge.A.org.".toList, "y".toList⟩

theorem twoPresents_name : ∀ i, normalizeName (twoPresents i).fqdn = "_acme-challenge.a.org".toList := by decide

theorem twoPresents_resolves {shown : List RecordSpec → List RecordSpec} (total : Bool) :
    ∀ i, (listing shown).Resolves (fun _ _ => True) total (twoPresents i).cfg (twoPresents i).fqdn "a.org".toList
  | 0 => rfl
  | 1 => rfl

end Cheti.Scaleway
