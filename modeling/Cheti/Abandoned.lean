import Cheti.ReadMergeWrite
/-!
# Requests of calls that are gone

A call can end while its write is on the way: its future is dropped, or the client stops waiting. The
lock is free again, and the API may still carry the request out, once, at any later moment or never.
`Late` is the state of the API with such a request, `lateEnv` how it answers the calls after it.

While no later call has read the set, the request may as well have been carried out at once
(`runsAll_early`), and what the later calls promise holds. Afterwards it need not: the set that is written
is as old as the call that is gone.
-/

namespace Cheti.Backend

open Fut

variable {b : Backend}

/-- The records, a request that is still on the way, and whether a call has read or written since. -/
structure Late (b : Backend) where
  store : Records b.Set
  pending : Option b.Q
  read : Bool

/-- The request may be carried out now; where not `late`, only while nothing was read. -/
inductive Delivered (late : Bool) : Late b → Late b → Prop where
  | never (st : Late b) : Delivered late st st
  | now {st : Late b} {q : b.Q} {resp : Response (b.B q)} {s' : Records b.Set} (hq : st.pending = some q)
      (hwhen : late = true ∨ st.read = false) (hs : b.serves q resp st.store s') :
      Delivered late st ⟨s', none, st.read⟩

def aboutRecords : Call b.Q → Bool
  | .send q => !b.aboutZones q
  | _ => false

/-- The requests of the later calls may fail without effect. -/
def lateEnv (zenv : (c : Call b.Q) → Reply b.B c → Prop) (late : Bool) : Env (Call b.Q) (Reply b.B) (Late b) :=
  fun c r st st' => ∃ m s', Delivered late st m ∧ b.env zenv true c r m.store s' ∧
    st' = ⟨s', m.pending, m.read || aboutRecords c⟩

variable {zenv : (c : Call b.Q) → Reply b.B c → Prop} {late : Bool} {z n : Str} {q : b.Q} {s s₀ : Records b.Set}

/-- A call on the name `n`, begun when the records were `s`, that is gone when they are `s₀` and whose
request `q` is on the way. -/
structure Abandoned (zenv : (c : Call b.Q) → Reply b.B c → Prop) (z n : Str) (c : Invocation b) (s s₀ : Records b.Set)
    (q : b.Q) : Prop where
  name : normalizeName c.fqdn = n
  zone : b.Resolves zenv false c.cfg c.fqdn z
  records : b.aboutZones q = false
  issued : ∃ t, c.prog.Issues t (.send q) ∧ Chain (b.env zenv true) t s s₀

/-! ## Where the request comes from -/

theorem env_trivial {c : Call b.Q} {r : Reply b.B c} {s s' : Records b.Set} {faulty : Bool}
    (h : b.env zenv faulty c r s s') : b.env (fun _ _ => True) true c r s s' := by
  cases c with
  | send q' =>
    simp only [env] at h ⊢
    split at h
    · rename_i hq
      rw [if_pos hq]
      exact ⟨trivial, h.2⟩
    · rename_i hq
      rw [if_neg hq]
      exact h.imp_right fun h => ⟨trivial, h.2⟩
  | findZone fqdn => exact ⟨trivial, h.2⟩
  | cacheGet name => exact ⟨trivial, h.2⟩
  | accessToken => exact ⟨by simp, h.2⟩
  | _ => exact h

/-- Every call can be answered without an effect. -/
theorem env_quiet (c : Call b.Q) (s : Records b.Set) : ∃ r, b.env (fun _ _ => True) true c r s s := by
  cases c with
  | send q' =>
    refine ⟨.error "", ?_⟩
    by_cases hq : b.aboutZones q' = true
    · simp [env, hq]
    · simp [env, hq, Failed]
  | findZone fqdn => exact ⟨.ok [], trivial, rfl⟩
  | cacheGet name => exact ⟨none, trivial, rfl⟩
  | accessToken => exact ⟨.ok [], by simp, rfl⟩
  | now => exact ⟨(0 : Nat), rfl⟩
  | lock l key => exact ⟨(), rfl⟩
  | unlock => exact ⟨(), rfl⟩
  | sleep d => exact ⟨(), rfl⟩
  | cacheInsert name zone => exact ⟨(), rfl⟩
  | forgetToken => exact ⟨(), rfl⟩

/-- It was issued with the lock, by what the call does to its set. -/
theorem Abandoned.body (hb : b.Sound) {c : Invocation b} (h : Abandoned zenv z n c s s₀ q) :
    ∃ body t, b.BodyOk c.op c.value (b.owner z n) body ∧ body.run.Issues t (.send q) ∧
      Chain (b.env zenv true) t s s₀ := by
  obtain ⟨t, hissues, hchain⟩ := h.issued
  obtain ⟨pre, heq, hpre⟩ := hb.prelude h.zone c.op c.value
  have hlookup : ∀ c, b.Neutral c → b.Neutral c ∧
      ∀ r s', b.env zenv true c r s s' → s' = s ∧ (b.lookup c = true → zenv c r) := by
    refine fun c hc => ⟨hc, fun r s' hr => ?_⟩
    obtain ⟨hs', hz, -⟩ := env_neutral hc hr
    exact ⟨hs', hz⟩
  have hwp : wp (fun c _ => b.Neutral c) (b.env zenv true) pre.run _ s := wp_of_always hpre hlookup
  unfold Invocation.prog at hissues
  rw [heq, ExceptT.run_bind, bind_eq, issues_bind] at hissues
  rcases hissues with ⟨g, k, hat⟩ | ⟨t₁, x, t₂, hrun, hrest, rfl⟩
  · -- before the lock, only the zone is looked up
    have hneutral : b.aboutZones q = true := (hwp.at hat hchain).1
    rw [h.records] at hneutral
    cases hneutral
  · obtain ⟨s₁, hchain₁, hchain₂⟩ := chain_append.1 hchain
    obtain ⟨rfl, hx⟩ := hwp.of_runs hrun hchain₁
    cases x with
    | error e => exact absurd hrest issues_done
    | ok x =>
      obtain ⟨-, hbody⟩ := hx
      rw [h.name] at hbody
      have hlock : (withLock b.locks x.1 x.2).run = .await (some ()) (.lock b.locks x.1) fun _ =>
          x.2.run.bind fun r => .await none .unlock fun _ => .done r := rfl
      simp only [hlock] at hrest
      rcases issues_await.1 hrest with ⟨-, hne⟩ | ⟨r, t₃, rfl, hinside⟩
      · cases hne
      · obtain ⟨s₂, hs₂, hchain₃⟩ := hchain₂
        obtain rfl : s₂ = s₁ := hs₂
        rcases issues_bind.1 hinside with hissues | ⟨t₄, r', t₅, hrun', hunlock, rfl⟩
        · exact ⟨x.2, t₃, hbody, hissues, hchain₃⟩
        · rcases issues_await.1 hunlock with ⟨-, hne⟩ | ⟨_, t₆, -, hdone⟩
          · cases hne
          · exact absurd hdone issues_done

/-- **What the request does when it is carried out at once**: what the call that is gone was to do. -/
theorem Abandoned.post (hb : b.Sound) (hs : b.WF s) {c : Invocation b} (h : Abandoned zenv z n c s s₀ q)
    {resp : Response (b.B q)} {s₁ : Records b.Set} (hserved : b.serves q resp s₀ s₁) :
    ∃ r, b.Post c.op c.value (b.owner z n) true s r s₁ := by
  obtain ⟨body, t, hbody, ⟨g, k, hat⟩, hchain⟩ := h.body hb
  have hwp := hbody.post (fun _ _ => True) true s (hs _ (hb.owner_txt ..))
  have hnext := (hwp.at hat (hchain.mono fun _ _ _ _ => env_trivial)).2 (.ok resp) s₁
    ((env_send h.records).2 (Or.inl ⟨resp, rfl, hserved⟩))
  -- whatever the call would do next can fail without effect
  obtain ⟨t', r, hrun, hquiet⟩ := exists_quiet_run env_quiet (k (.ok resp)) s₁
  exact ⟨r, hnext.of_runs hrun hquiet⟩

/-- And if it never is: nothing, or what the call has done before. -/
theorem Abandoned.wf (hb : b.Sound) (hs : b.WF s) {c : Invocation b} (h : Abandoned zenv z n c s s₀ q) : b.WF s₀ := by
  obtain ⟨body, t, hbody, ⟨g, k, hat⟩, hchain⟩ := h.body hb
  have hwp := hbody.post (fun _ _ => True) true s (hs _ (hb.owner_txt ..))
  obtain ⟨t', r, hrun, hquiet⟩ := exists_quiet_run env_quiet (.await g (.send q) k) s₀
  have hpost := (hwp.at hat (hchain.mono fun _ _ _ _ => env_trivial)).of_runs hrun hquiet
  exact (effect_of_post hpost).wf hs

/-! ## A request that is carried out before anything is read -/

/-- The records with the request carried out, or not. -/
def Served (b : Backend) (q : b.Q) (s s' : Records b.Set) : Prop := s' = s ∨ ∃ resp, b.serves q resp s s'

theorem Abandoned.served_wf (hb : b.Sound) (hs : b.WF s) {c : Invocation b} (h : Abandoned zenv z n c s s₀ q)
    {s₁ : Records b.Set} (h₁ : b.Served q s₀ s₁) : b.WF s₁ := by
  rcases h₁ with rfl | ⟨resp, hserved⟩
  · exact h.wf hb hs
  · obtain ⟨r, hpost⟩ := h.post hb hs hserved
    exact (effect_of_post hpost).wf hs

/-- The request can no longer be carried out. -/
def Late.Settled (st : Late b) : Prop := st.pending = none ∨ st.read = true

/-- Nothing was read yet. -/
structure Late.Early (q : b.Q) (s : Records b.Set) (st : Late b) : Prop where
  store : st.store = s
  pending : st.pending = some q
  read : st.read = false

theorem Delivered.settled {st st' : Late b} (h : Delivered false st st') (hst : st.Settled) : st' = st := by
  cases h with
  | never => rfl
  | now hq hwhen hs =>
    rcases hst with hnone | hread
    · rw [hnone] at hq
      cases hq
    · simp [hread] at hwhen

theorem Delivered.early {st st' : Late b} (h : Delivered false st st') (hst : st.Early q s) :
    st' = st ∨ st'.Settled ∧ ∃ resp, b.serves q resp s st'.store := by
  cases h with
  | never => exact Or.inl rfl
  | @now q' resp s' hq hwhen hs =>
    rw [hst.pending] at hq
    cases hq
    rw [hst.store] at hs
    exact Or.inr ⟨Or.inl rfl, resp, hs⟩

theorem lateEnv_settled {c : Call b.Q} {r : Reply b.B c} {st st' : Late b} (h : lateEnv zenv false c r st st')
    (hst : st.Settled) : b.env zenv true c r st.store st'.store ∧ st'.Settled := by
  obtain ⟨m, s', hm, hr, rfl⟩ := h
  obtain rfl := hm.settled hst
  refine ⟨hr, hst.imp_right fun hread => ?_⟩
  simp [hread]

theorem chain_settled : ∀ {t : List (Ev (Call b.Q) (Reply b.B))} {st st' : Late b}, Chain (lateEnv zenv false) t st st' →
    st.Settled → Chain (b.env zenv true) t st.store st'.store ∧ st'.Settled
  | [], st, st', h, hst => by
    obtain rfl : st = st' := h
    exact ⟨rfl, hst⟩
  | e :: t, st, st', h, hst => by
    obtain ⟨m, he, ht⟩ := h
    obtain ⟨hr, hm⟩ := lateEnv_settled he hst
    obtain ⟨hrest, hst'⟩ := chain_settled ht hm
    exact ⟨⟨_, hr, hrest⟩, hst'⟩

/-- A call that is not about records is answered alike in every state. -/
theorem env_of_not_records {c : Call b.Q} {r : Reply b.B c} {s s' : Records b.Set} {faulty : Bool}
    (hc : aboutRecords c = false) (h : b.env zenv faulty c r s s') : s' = s ∧ ∀ s₁, b.env zenv faulty c r s₁ s₁ := by
  cases c with
  | send q' =>
    have hq : b.aboutZones q' = true := by simpa [aboutRecords] using hc
    obtain ⟨hs, -, hall⟩ := env_neutral (c := .send q') hq h
    exact ⟨hs, hall⟩
  | lock l key => exact ⟨h, fun _ => rfl⟩
  | unlock => exact ⟨h, fun _ => rfl⟩
  | _ =>
    obtain ⟨hs, -, hall⟩ := env_neutral (by exact trivial) h
    exact ⟨hs, hall⟩

/-- **As if it had been carried out at once, or never.** -/
theorem chain_early : ∀ {t : List (Ev (Call b.Q) (Reply b.B))} {st st' : Late b}, Chain (lateEnv zenv false) t st st' →
    st.Early q s → (st'.Early q s ∧ ∀ s₁, Chain (b.env zenv true) t s₁ s₁) ∨
      st'.Settled ∧ ∃ s₁, b.Served q s s₁ ∧ Chain (b.env zenv true) t s₁ st'.store
  | [], st, st', h, hst => by
    obtain rfl : st = st' := h
    exact Or.inl ⟨hst, fun _ => rfl⟩
  | e :: t, st, st', h, hst => by
    obtain ⟨m, ⟨m', s', hm, hr, rfl⟩, ht⟩ := h
    rcases hm.early hst with rfl | ⟨hsettled, resp, hserved⟩
    · cases hc : aboutRecords e.call with
      | true =>
        -- this is the first request about records, and nothing was carried out before it
        obtain ⟨hrest, hst'⟩ := chain_settled ht (Or.inr (by simp [hc]))
        rw [hst.store] at hr
        exact Or.inr ⟨hst', s, Or.inl rfl, _, hr, hrest⟩
      | false =>
        obtain ⟨rfl, hall⟩ := env_of_not_records hc hr
        have hearly : Late.Early q s ⟨m'.store, m'.pending, m'.read || aboutRecords e.call⟩ :=
          ⟨hst.store, hst.pending, by simp [hst.read, hc]⟩
        rcases chain_early ht hearly with ⟨hst', hrest⟩ | ⟨hst', s₁, hs₁, hrest⟩
        · exact Or.inl ⟨hst', fun s₁ => ⟨s₁, hall s₁, hrest s₁⟩⟩
        · exact Or.inr ⟨hst', s₁, hs₁, s₁, hall s₁, hrest⟩
    · have hsettled' : Late.Settled ⟨s', m'.pending, m'.read || aboutRecords e.call⟩ :=
        hsettled.imp_right fun hread => by simp [hread]
      obtain ⟨hrest, hst'⟩ := chain_settled ht hsettled'
      exact Or.inr ⟨hst', m'.store, Or.inr ⟨resp, hserved⟩, s', hr, hrest⟩

theorem runsAll_settled {l : List (Fut Unit (Call b.Q) (Reply b.B) (Except DnsError Unit) × Except DnsError Unit)}
    {st st' : Late b} (h : RunsAll (lateEnv zenv false) l st st') (hst : st.Settled) :
    RunsAll (b.env zenv true) l st.store st'.store ∧ st'.Settled := by
  induction h with
  | nil st => exact ⟨.nil _, hst⟩
  | cons hrun hc _ ih =>
    obtain ⟨hchain, hst₁⟩ := chain_settled hc hst
    obtain ⟨hrest, hst'⟩ := ih hst₁
    exact ⟨.cons hrun hchain hrest, hst'⟩

theorem runsAll_early {l : List (Fut Unit (Call b.Q) (Reply b.B) (Except DnsError Unit) × Except DnsError Unit)}
    {st st' : Late b} (h : RunsAll (lateEnv zenv false) l st st') (hst : st.Early q s) :
    (st'.Early q s ∧ ∀ s₁, RunsAll (b.env zenv true) l s₁ s₁) ∨
      st'.Settled ∧ ∃ s₁, b.Served q s s₁ ∧ RunsAll (b.env zenv true) l s₁ st'.store := by
  induction h with
  | nil st => exact Or.inl ⟨hst, fun s₁ => .nil s₁⟩
  | cons hrun hc hrest ih =>
    rcases chain_early hc hst with ⟨hst₁, hchain⟩ | ⟨hst₁, s₁, hs₁, hchain⟩
    · rcases ih hst₁ with ⟨hst', hall⟩ | ⟨hst', s₁, hs₁, hrest'⟩
      · exact Or.inl ⟨hst', fun s₁ => .cons hrun (hchain s₁) (hall s₁)⟩
      · exact Or.inr ⟨hst', s₁, hs₁, .cons hrun (hchain s₁) hrest'⟩
    · obtain ⟨hrest', hst'⟩ := runsAll_settled hrest hst₁
      exact Or.inr ⟨hst', s₁, hs₁, .cons hrun hchain hrest'⟩

/-! ## What the later calls promise -/

/-- A call on the name `n`, in the zone `z`. -/
structure OnName (zenv : (c : Call b.Q) → Reply b.B c → Prop) (z n : Str) (c : Invocation b) : Prop where
  name : normalizeName c.fqdn = n
  zone : b.Resolves zenv false c.cfg c.fqdn z

abbrev progs (calls : List (Invocation b × Except DnsError Unit)) :
    List (Fut Unit (Call b.Q) (Reply b.B) (Except DnsError Unit) × Except DnsError Unit) :=
  calls.map fun c => (c.1.prog, c.2)

/-- A value that was presented and not cleaned up since is there; one that was cleaned up and not presented
since is not. -/
def Kept (calls : List (Invocation b × Except DnsError Unit)) (values : List Str) : Prop :=
  ∀ before c since, calls = before ++ (c, .ok ()) :: since →
    (c.op = .present → (∀ c' ∈ since, c'.1.op = .cleanup → c'.1.value ≠ c.value) → c.value ∈ contents values) ∧
    (c.op = .cleanup → (∀ c' ∈ since, c'.1.op = .present → c'.1.value ≠ c.value) → c.value ∉ contents values)

theorem runsAll_append {l₁ l₂ : List (Fut Unit (Call b.Q) (Reply b.B) (Except DnsError Unit) × Except DnsError Unit)}
    {faulty : Bool} {s s' : Records b.Set} (h : RunsAll (b.env zenv faulty) (l₁ ++ l₂) s s') :
    ∃ m, RunsAll (b.env zenv faulty) l₁ s m ∧ RunsAll (b.env zenv faulty) l₂ m s' := by
  induction l₁ generalizing s with
  | nil => exact ⟨s, .nil s, h⟩
  | cons p l₁ ih =>
    cases h with
    | cons hrun hc hrest =>
      obtain ⟨m, h₁, h₂⟩ := ih hrest
      exact ⟨m, .cons hrun hc h₁, h₂⟩

section Calls

variable (hb : b.Sound) {faulty : Bool} {s' : Records b.Set}
include hb

theorem runsAll_keeps {calls : List (Invocation b × Except DnsError Unit)}
    (hcalls : ∀ c ∈ calls, OnName zenv z n c.1) (h : RunsAll (b.env zenv faulty) (progs calls) s s') (hs : b.WF s) :
    b.WF s' ∧ ∀ x,
      ((∀ c ∈ calls, c.1.op = .cleanup → c.1.value ≠ x) → x ∈ contents (b.valuesAt s (b.owner z n)) →
        x ∈ contents (b.valuesAt s' (b.owner z n))) ∧
      ((∀ c ∈ calls, c.1.op = .present → c.1.value ≠ x) → x ∉ contents (b.valuesAt s (b.owner z n)) →
        x ∉ contents (b.valuesAt s' (b.owner z n))) := by
  induction calls generalizing s with
  | nil =>
    cases h
    exact ⟨hs, fun x => ⟨fun _ hx => hx, fun _ hx => hx⟩⟩
  | cons c calls ih =>
    cases h with
    | cons hrun hc hrest =>
      have hcall := hcalls c (by simp)
      have heff := (hb.effect_of_run hcall.name hcall.zone hs hrun hc).1
      obtain ⟨hwf, hkeep⟩ := ih (fun c' hc' => hcalls c' (by simp [hc'])) hrest (heff.wf hs)
      refine ⟨hwf, fun x => ⟨fun hnot hx => ?_, fun hnot hx => ?_⟩⟩
      · exact (hkeep x).1 (fun c' hc' => hnot c' (by simp [hc'])) (heff.mem_of_mem hb (hnot c (by simp)) hx)
      · exact (hkeep x).2 (fun c' hc' => hnot c' (by simp [hc'])) (heff.not_mem_of_not_mem hb (hnot c (by simp)) hx)

theorem kept_of_runsAll {calls : List (Invocation b × Except DnsError Unit)}
    (hcalls : ∀ c ∈ calls, OnName zenv z n c.1) (h : RunsAll (b.env zenv faulty) (progs calls) s s') (hs : b.WF s) :
    Kept calls (b.valuesAt s' (b.owner z n)) := by
  rintro before c since rfl
  rw [progs, List.map_append] at h
  obtain ⟨m, hbefore, hsince⟩ := runsAll_append h
  have hm := (runsAll_keeps hb (fun c' hc' => hcalls c' (by simp [hc'])) hbefore hs).1
  cases hsince with
  | cons hrun hc hrest =>
    have hcall := hcalls (c, .ok ()) (by simp)
    obtain ⟨heff, hpost⟩ := hb.effect_of_run hcall.name hcall.zone hm hrun hc
    have hpost := hpost rfl
    have hkeep := (runsAll_keeps hb (fun c' hc' => hcalls c' (by simp [hc'])) hrest (heff.wf hm)).2 c.value
    refine ⟨fun hop hnot => hkeep.1 hnot ?_, fun hop hnot => hkeep.2 hnot ?_⟩
    · simp only [hop] at hpost
      exact mem_of_present_ok hb hpost
    · simp only [hop] at hpost
      exact not_mem_of_cleanup_ok hb hpost

end Calls

/-- **A call that is gone cannot undo later ones**: whatever the call, the calls after it and the moment at
which its request is carried out, as far as `late` allows. -/
def NotClobbered (b : Backend) (late : Bool) : Prop :=
  ∀ (zenv : (c : Call b.Q) → Reply b.B c → Prop) (z n : Str) (c : Invocation b) (q : b.Q) (s s₀ : Records b.Set)
    (calls : List (Invocation b × Except DnsError Unit)) (st st' : Late b),
    b.WF s → Abandoned zenv z n c s s₀ q → (∀ c' ∈ calls, OnName zenv z n c'.1) →
    RunsAll (lateEnv zenv late) (progs calls) ⟨s₀, some q, false⟩ st → Delivered late st st' →
    Kept calls (b.valuesAt st'.store (b.owner z n))

theorem Sound.notClobbered (hb : b.Sound) : NotClobbered b false := by
  intro zenv z n c q s s₀ calls st st' hs habandoned hcalls hruns hlast
  have hstart : Late.Early q s₀ (⟨s₀, some q, false⟩ : Late b) := ⟨rfl, rfl, rfl⟩
  suffices ∃ s₁, b.Served q s₀ s₁ ∧ RunsAll (b.env zenv true) (progs calls) s₁ st'.store by
    obtain ⟨s₁, hs₁, hruns₁⟩ := this
    exact kept_of_runsAll hb hcalls hruns₁ (habandoned.served_wf hb hs hs₁)
  rcases runsAll_early hruns hstart with ⟨hst, hall⟩ | ⟨hst, s₁, hs₁, hruns₁⟩
  · -- no call has read anything, so all of them ran on what there is in the end
    refine ⟨st'.store, ?_, hall _⟩
    rcases hlast.early hst with rfl | ⟨-, hserved⟩
    · exact Or.inl hst.store
    · exact Or.inr hserved
  · rw [hlast.settled hst]
    exact ⟨s₁, hs₁, hruns₁⟩

/-! ## A request that is carried out late -/

theorem Resolves.weaken {cfg : b.Config} {fqdn : Str} (h : b.Resolves zenv true cfg fqdn z) :
    b.Resolves zenv false cfg fqdn z := by
  refine wp_mono h fun r _ hr => ?_
  cases r with
  | ok zone => exact hr
  | error e => cases hr

theorem env_faulty {c : Call b.Q} {r : Reply b.B c} {s s' : Records b.Set} (h : b.env zenv false c r s s') :
    b.env zenv true c r s s' := by
  cases c with
  | send q' =>
    by_cases hq : b.aboutZones q' = true
    · simpa [env, hq] using h
    · have hq : b.aboutZones q' = false := by simpa using hq
      exact (env_send hq).2 (Or.inl (((env_send hq).1 h).resolve_right (by simp)))
  | accessToken => exact ⟨by simp, h.2⟩
  | _ => exact h

/-- Only a request about records changes them. -/
theorem env_changes {e : Ev (Call b.Q) (Reply b.B)} {s m : Records b.Set} (h : b.env zenv false e.call e.reply s m)
    (hne : m ≠ s) : ∃ q resp, e.call = .send q ∧ b.aboutZones q = false ∧ b.serves q resp s m := by
  obtain ⟨c, r⟩ := e
  cases hc : aboutRecords c with
  | false => exact absurd (env_of_not_records hc h).1 hne
  | true =>
    cases c with
    | send q' =>
      have hq : b.aboutZones q' = false := by simpa [aboutRecords] using hc
      obtain ⟨resp, -, hs⟩ := ((env_send hq).1 h).resolve_right (by simp)
      exact ⟨q', resp, rfl, hq, hs⟩
    | _ => cases hc

/-- The request may stay on the way. -/
theorem chain_waiting {pending : Option b.Q} : ∀ {t : List (Ev (Call b.Q) (Reply b.B))} {s s' : Records b.Set},
    Chain (b.env zenv true) t s s' → ∀ read, ∃ read', Chain (lateEnv zenv late) t ⟨s, pending, read⟩ ⟨s', pending, read'⟩
  | [], s, s', h, read => by
    obtain rfl : s = s' := h
    exact ⟨read, rfl⟩
  | e :: t, s, s', h, read => by
    obtain ⟨m, he, ht⟩ := h
    obtain ⟨read', hrest⟩ := chain_waiting ht (read || aboutRecords e.call)
    exact ⟨read', _, ⟨_, m, .never _, he, rfl⟩, hrest⟩

/-- **A cleanup that is carried out late.** The value is there, and its cleanup is on the way when a
`present` of it finds it and returns `Ok`. -/
theorem Sound.clobbers (hb : b.Sound) (hz : ∀ c, b.lookup c = true → ∃ r, zenv c r) {present cleanup : Invocation b}
    (hp : Accepted zenv z present) (hc : Accepted zenv z cleanup) (hpop : present.op = .present)
    (hcop : cleanup.op = .cleanup) (hvalue : cleanup.value = present.value) (hpname : normalizeName present.fqdn = n)
    (hcname : normalizeName cleanup.fqdn = n) :
    ∃ q s st st', b.WF s ∧ present.value ∈ contents (b.valuesAt s (b.owner z n)) ∧ Abandoned zenv z n cleanup s s q ∧
      RunsAll (lateEnv zenv true) (progs [(present, .ok ())]) ⟨s, some q, false⟩ st ∧ Delivered true st st' ∧
      present.value ∉ contents (b.valuesAt st'.store (b.owner z n)) := by
  -- the value is presented in an empty zone
  have hempty : b.WF (⟨fun _ => none, 0⟩ : Records b.Set) := fun _ _ _ hx => by cases hx
  obtain ⟨t₀, r₀, s, hrun₀, hchain₀⟩ := hb.exists_run hz false present.cfg present.op present.fqdn present.value
    (⟨fun _ => none, 0⟩ : Records b.Set)
  have hdid₀ := hp.did hb hempty ⟨t₀, r₀, hrun₀, hchain₀⟩
  have hs : b.WF s := hdid₀.effect.wf hempty
  rw [hpop, Invocation.owner, hpname] at hdid₀
  have hholds : holds present.value (b.valuesAt s (b.owner z n)) = true := by
    rw [hdid₀.values hb (by simp [valuesAt]), present_apply]
    split
    · assumption
    · exact holds_append_quote _ _
  -- the cleanup would take it away, with a first request that changes the records
  obtain ⟨t₁, r₁, s₁, hrun₁, hchain₁⟩ := hb.exists_run hz false cleanup.cfg cleanup.op cleanup.fqdn cleanup.value s
  have hdid₁ := hc.did hb hs ⟨t₁, r₁, hrun₁, hchain₁⟩
  rw [hcop, Invocation.owner, hcname, hvalue] at hdid₁
  have hchanged : s₁ ≠ s := by
    have hne : Op.cleanup.apply present.value (b.valuesAt s (b.owner z n)) ≠ b.valuesAt s (b.owner z n) := by
      rw [Ne, cleanup_apply_eq_iff, hholds]
      simp
    intro he
    have hwrites := hdid₁.writes.2 hne
    rw [he] at hwrites
    omega
  obtain ⟨t, e, t', m, rfl, hchain, hchange, hm⟩ := hchain₁.first_change hchanged
  obtain ⟨q, resp, hq, hrecords, hserved⟩ := env_changes hchange hm
  have habandoned : Abandoned zenv z n cleanup s s q :=
    ⟨hcname, hc.zone.weaken, hrecords, t, hq ▸ hrun₁.issues, hchain.mono fun _ _ _ _ => env_faulty⟩
  -- meanwhile a present finds the value
  obtain ⟨t₂, r₂, s₂, hrun₂, hchain₂⟩ := hb.exists_run hz false present.cfg present.op present.fqdn present.value s
  have hpost₂ : r₂ = .ok () ∧ s₂ = s := by
    rcases wp.of_runs (hb.call_wp hp.zone present.op present.value (hs _ (hb.owner_txt ..))) hrun₂ hchain₂ with
      hpost | ⟨hrefused, -⟩
    · rw [hpop, hpname] at hpost
      rcases hpost with ⟨-, hr, hs'⟩ | ⟨hne, -⟩ | ⟨hf, -⟩
      · exact ⟨hr, hs'⟩
      · exact absurd (present_apply_eq_iff.2 hholds) hne
      · cases hf
    · rcases hrefused with htotal | hrefused
      · cases htotal
      · exact absurd hrefused hp.accepted
  obtain ⟨rfl, rfl⟩ := hpost₂
  have hwaiting : ∃ read, Chain (lateEnv zenv true) t₂ ⟨s₂, some q, false⟩ ⟨s₂, some q, read⟩ :=
    chain_waiting (hchain₂.mono fun _ _ _ _ => env_faulty) false
  obtain ⟨read, hlate⟩ := hwaiting
  refine ⟨q, s₂, _, _, hs, holds_iff.1 hholds, habandoned, .cons hrun₂ hlate (.nil _),
    .now rfl (Or.inl rfl) hserved, ?_⟩
  obtain ⟨r, hpost⟩ := habandoned.post hb hs hserved
  rw [hcop, hvalue] at hpost
  rcases hpost with ⟨-, -, hs'⟩ | ⟨-, -, x, hx, hw⟩ | ⟨-, -, hs'⟩
  · exact absurd hs' hm
  · show present.value ∉ contents (b.valuesAt m (b.owner z n))
    rw [hx, valuesAt_written hw, contents_map_canonical hb]
    exact fun hmem => (mem_contents_cleanup.1 hmem).2 rfl
  · exact absurd hs' hm

end Cheti.Backend

namespace Cheti.Rmw

open Backend Fut

/-- A provider that is configured with the zone `a.org`. -/
def configured : (p : Rmw) → p.backend.Config
  | .gandi => instanceWithTtl 60
  | .desec => ⟨some "a.org".toList, 3600⟩
  | .powerDns => ⟨"localhost".toList, some "a.org".toList, 60, fun _ => none⟩
  | .route53 => ⟨some "a.org".toList, 60, fun _ => none, fun _ => none⟩
  | .googleCloudDns => ⟨"project".toList, some "a.org".toList, 60⟩

/-- deSEC is asked for its zone all the same. -/
def configuredZone : (p : Rmw) → (c : Call p.backend.Q) → Reply p.backend.B c → Prop
  | .desec, .send (.domain _), r => r = .ok ⟨⟨200, ""⟩, none, none, none, [], .ok ⟨"a.org".toList, none⟩⟩
  | _, _, _ => True

theorem exists_configuredZone (p : Rmw) (c : Call p.backend.Q) (hc : p.backend.lookup c = true) :
    ∃ r, configuredZone p c r := by
  cases p with
  | desec =>
    cases c with
    | send q =>
      cases q with
      | domain zone => exact ⟨_, rfl⟩
      | _ => exact ⟨.error "", trivial⟩
    | findZone fqdn => exact ⟨.ok [], trivial⟩
    | cacheGet name => exact ⟨none, trivial⟩
    | _ => cases hc
  | _ =>
    cases c with
    | send q => exact ⟨.error "", trivial⟩
    | findZone fqdn => exact ⟨.ok [], trivial⟩
    | cacheGet name => exact ⟨none, trivial⟩
    | _ => cases hc

theorem configured_resolves (p : Rmw) (fqdn : Str) :
    p.backend.Resolves (configuredZone p) true p.configured fqdn "a.org".toList := by
  cases p with
  | desec =>
    refine wp_request rfl (fun d => ⟨trivial, fun _ _ _ => rfl⟩) (fun _ _ _ _ => rfl) (fun e _ hr => ?_)
      fun resp _ hr => ?_
    · cases hr rfl
    · cases hr rfl
      rfl
  | _ => rfl

/-- `op` of the value `x`. -/
def invocation (p : Rmw) (op : Op) : Invocation p.backend := ⟨p.configured, op, "_acme-challenge.a.org".toList, "x".toList⟩

theorem invocation_accepted (p : Rmw) (op : Op) : Accepted (configuredZone p) "a.org".toList (p.invocation op) := by
  have hvalid : Valid "a.org".toList (p.invocation op) :=
    ⟨by show validateFqdn "_acme-challenge.a.org".toList = .ok (); decide,
      by show validateAcmeValue "x".toList = .ok (); decide, Or.inr ⟨"_acme-challenge".toList, by
        show normalizeName "_acme-challenge.a.org".toList = _; decide⟩⟩
  exact hvalid.accepted (configured_resolves p _)

/-- **When a call that is gone cannot undo later ones**: where its request is carried out, if at all, before a
later call has read the set. -/
theorem notClobbered_iff (p : Rmw) (late : Bool) : NotClobbered p.backend late ↔ late = false := by
  refine ⟨fun h => ?_, ?_⟩
  · by_contra hlate
    obtain rfl : late = true := by simpa using hlate
    obtain ⟨q, s, st, st', hs, -, habandoned, hruns, hdelivered, hnot⟩ := p.sound.clobbers p.exists_configuredZone
      (p.invocation_accepted .present) (p.invocation_accepted .cleanup) rfl rfl rfl rfl rfl
    have hcalls : ∀ c ∈ [(p.invocation .present, (.ok () : Except DnsError Unit))],
        OnName (configuredZone p) "a.org".toList (normalizeName "_acme-challenge.a.org".toList) c.1 := by
      intro c hc
      rw [List.mem_singleton.1 hc]
      exact ⟨rfl, (p.invocation_accepted .present).zone.weaken⟩
    have hkept := h _ _ _ _ q s s _ st st' hs habandoned hcalls hruns hdelivered [] _ [] rfl
    exact hnot (hkept.1 rfl nofun)
  · rintro rfl
    exact p.sound.notClobbered

/-- The `DELETE` of a Gandi cleanup that was cancelled arrives after `present` has found the value and
returned `Ok`. -/
theorem gandi_delete_clobbers : ∃ q s st st', (backend .gandi).WF s ∧
    "x".toList ∈ contents ((backend .gandi).valuesAt s
      ((backend .gandi).owner "a.org".toList "_acme-challenge.a.org".toList)) ∧
    Abandoned (configuredZone .gandi) "a.org".toList "_acme-challenge.a.org".toList (invocation .gandi .cleanup) s s q ∧
    RunsAll (lateEnv (configuredZone .gandi) true) (progs [(invocation .gandi .present, .ok ())]) ⟨s, some q, false⟩ st ∧
    Delivered true st st' ∧
    "x".toList ∉ contents ((backend .gandi).valuesAt st'.store
      ((backend .gandi).owner "a.org".toList "_acme-challenge.a.org".toList)) := by
  have hname : normalizeName "_acme-challenge.a.org".toList = "_acme-challenge.a.org".toList := by decide
  exact (sound .gandi).clobbers (exists_configuredZone .gandi) (invocation_accepted .gandi .present)
    (invocation_accepted .gandi .cleanup) rfl rfl rfl hname hname

end Cheti.Rmw
