import Cheti.Base.Rely
import Cheti.Providers.Hetzner
/-!
# Hetzner's actions, whoever else is at work

Hetzner adds and removes single values by actions that it carries out some time later (`Job`). Any number of calls,
of any number of processes, make their requests in any order; the lock of one process does not bind the others, and
is not used here. A request may fail and still have created its job, a call may give up waiting or be dropped, and
its job be carried out after that.

A value is decided by the jobs that mention it (`Api.Settled`): this is stable, whatever anybody does, so that what
a call has found or done holds when it returns.

| here | the API |
| --- | --- |
| `Api.sets`       | the TXT record sets; one without values does not exist |
| `Job`, `Serve`   | `add_records` and `remove_records`: one value is added or taken away, unless the TTL that was sent is not that of the set |
| `serves`         | `GET` of a set and of an action, `POST` of an action |
-/

namespace Cheti

open Fut Fut.Tasks

/-- Waiting, with what is known of a change kept up to date: `J change s` while others are at work. -/
theorem wp_waitFrom_known {Q χ S : Type} {B : Q → Type} {ok : Call Q → S → Prop} {H : Env (Call Q) (Reply B) S}
    {policy : PollPolicy χ} {poll : χ → Prog Q B χ} {J : χ → S → Prop} {Post : Except DnsError Unit → S → Prop}
    (hnow : ∀ change s, J change s → ok .now s ∧ ∀ r s', H .now r s s' → J change s')
    (hsleep : ∀ d change s, J change s → ok (.sleep d) s ∧ ∀ u s', H (.sleep d) u s s' → J change s')
    (hpoll : ∀ change s, J change s → wp ok H (poll change).run (fun r s' => ∀ next, r = .ok next → J next s') s)
    (hsync : ∀ change s, J change s → policy.inSync change = true → Post (.ok ()) s)
    (herror : ∀ e s, Post (.error e) s) (deadline : Duration) (left : Nat) (change : χ) {s : S} (hs : J change s) :
    wp ok H (waitFrom policy poll deadline left change).run Post s := by
  induction left generalizing change s with
  | zero =>
    rw [wp_waitFrom_iff]
    split
    · rename_i h
      exact hsync change s hs h
    · refine ⟨(hnow change s hs).1, fun now s₁ h₁ => ?_⟩
      split <;> exact herror _ _
  | succ left ih =>
    rw [wp_waitFrom_iff]
    split
    · rename_i h
      exact hsync change s hs h
    · refine ⟨(hnow change s hs).1, fun now s₁ h₁ => ?_⟩
      have hs₁ := (hnow change s hs).2 now s₁ h₁
      split
      · exact herror _ _
      · refine ⟨(hsleep _ change s₁ hs₁).1, fun u s₂ h₂ => ?_⟩
        refine wp_mono (hpoll change s₂ ((hsleep _ change s₁ hs₁).2 u s₂ h₂)) fun r s₃ h₃ => ?_
        cases r with
        | error e => exact herror e s₃
        | ok next => exact ih next (h₃ next rfl)

namespace Hetzner

/-! ## The API -/

structure TxtSet where
  ttl : Nat
  values : List Str
deriving DecidableEq

inductive Status where
  | running
  | success
  | error
deriving DecidableEq, Repr

structure Job where
  owner : Str × Str
  op : Op
  value : Str
  ttl : Option Nat
  status : Status
deriving DecidableEq

def Job.as (job : Job) (status : Status) : Job := { job with status := status }

/-- What a job makes of its record set. -/
def Job.apply (defaultTtl : Nat) (job : Job) (old : Option TxtSet) : Option TxtSet :=
  match job.op.apply job.value (old.elim [] TxtSet.values) with
  | [] => none
  | values => some ⟨(old.map TxtSet.ttl).getD (job.ttl.getD defaultTtl), values⟩

/-- A job has its place in the list for its id. -/
structure Api where
  sets : Str × Str → Option TxtSet
  jobs : List Job
  /-- The jobs that were carried out, in this order. -/
  log : List Nat

namespace Api

variable (s : Api)

def valuesAt (o : Str × Str) : List Str := (s.sets o).elim [] TxtSet.values

def create (job : Job) : Api := { s with jobs := s.jobs ++ [job] }

def mark (id : Nat) (job : Job) (status : Status) : Api := { s with jobs := s.jobs.set id (job.as status) }

def carryOut (defaultTtl id : Nat) (job : Job) : Api :=
  { s.mark id job .success with
    sets := Function.update s.sets job.owner (job.apply defaultTtl (s.sets job.owner)), log := s.log ++ [id] }

/-- Some job that was carried out did this. -/
def Did (op : Op) (o : Str × Str) (v : Str) : Prop :=
  ∃ id ∈ s.log, ∃ job, s.jobs[id]? = some job ∧ job.op = op ∧ job.owner = o ∧ job.value = v

/-- The value is there, or not, as `op` leaves it, unless some job has done the contrary. -/
def Settled (op : Op) (o : Str × Str) (v : Str) : Prop :=
  (∀ op', s.Did op' o v → op' = op) → (v ∈ contents (s.valuesAt o) ↔ op = .present)

end Api

/-- A job ends, whoever waits for it. -/
inductive Serve (defaultTtl : Nat) : Api → Api → Prop where
  | succeeds {s : Api} {id : Nat} {job : Job} (hjob : s.jobs[id]? = some job) (hrun : job.status = .running)
      (httl : ∀ set ttl, s.sets job.owner = some set → job.ttl = some ttl → set.ttl = ttl) :
      Serve defaultTtl s (s.carryOut defaultTtl id job)
  | fails {s : Api} {id : Nat} {job : Job} (hjob : s.jobs[id]? = some job) (hrun : job.status = .running) :
      Serve defaultTtl s (s.mark id job .error)

def actionName : Op → Str
  | .present => "add_records".toList
  | .cleanup => "remove_records".toList

/-- The job that a request asks for. -/
def jobOf (zone rname action : Str) (body : HetznerRecordsWrite) : Option Job :=
  match body.records with
  | [record] =>
    if action = actionName .present then some ⟨(zone, rname), .present, unquote record.value, body.ttl, .running⟩
    else if action = actionName .cleanup then some ⟨(zone, rname), .cleanup, unquote record.value, body.ttl, .running⟩
    else none
  | _ => none

/-- How an action is reported. -/
def Job.Reported (job : Job) (action : HetznerAction) : Prop :=
  (action.status = "success".toList ↔ job.status = .success) ∧ (action.status = "error".toList ↔ job.status = .error)

variable (zenv : Str → Except String (Response HetznerZones) → Prop) (defaultTtl : Nat)

def serves : (q : Req) → Response q.Doc → Api → Api → Prop
  | .zones name, resp, s, s' => zenv name (.ok resp) ∧ s' = s
  | .rrset zone rname, resp, s, s' => s' = s ∧
    match s.sets (zone, rname) with
    | none => resp.status.asU16 = 404
    | some set => resp.status.isSuccess = true ∧ resp.body = .ok ⟨set.values.map HetznerRecord.mk⟩
  | .action zone rname action body, resp, s, s' => ∃ job, jobOf zone rname action body = some job ∧
    (s' = s.create job ∨ Serve defaultTtl (s.create job) s') ∧ resp.status.isSuccess = true ∧
    ∃ job' answer, s'.jobs[s.jobs.length]? = some job' ∧ resp.body = .ok answer ∧ answer.id = s.jobs.length ∧
      job'.Reported answer
  | .getAction id, resp, s, s' => s' = s ∧ resp.status.isSuccess = true ∧
    ∃ job answer, s.jobs[id]? = some job ∧ resp.body = .ok answer ∧ answer.id = id ∧ job.Reported answer

/-- An answer that says nothing about the request. -/
def Failed : (q : Req) → Except String (Response q.Doc) → Prop
  | .zones name, r => zenv name r
  | .rrset _ _, r => ∀ resp, r = .ok resp → resp.status.asU16 ≠ 404 ∧ (resp.status.isSuccess = true → ∃ e, resp.body = .error e)
  | _, r => ∀ resp, r = .ok resp → resp.status.isSuccess = true → ∃ e, resp.body = .error e

/-- A request without an answer: it may have been received. -/
def Tried : Req → Api → Api → Prop
  | .action zone rname action body, s, s' => s' = s ∨ ∃ job, jobOf zone rname action body = some job ∧ s' = s.create job
  | _, s, s' => s' = s

def env : Env (Call Req) (Reply Req.Doc) Api
  | .send q, r, s, s' => (∃ resp, r = .ok resp ∧ serves zenv defaultTtl q resp s s') ∨ Failed zenv q r ∧ Tried q s s'
  | _, _, s, s' => s' = s

def abandons : Call Req → Api → Api → Prop
  | .send q, s, s' => Tried q s s'
  | _, s, s' => s' = s

/-- A call may be dropped wherever it is; the server does its work by itself. -/
def world {ι : Type} : Tasks.World ι Unit (Call Req) (Reply Req.Doc) Api Unit where
  call _ := env zenv defaultTtl
  drop _ _ := abandons
  other _ := Serve defaultTtl

/-! ## Clients -/

/-- The calls with which a zone is looked up. -/
def Lookup : Call Req → Prop
  | .send (.zones _) | .sleep _ => True
  | _ => False

def Answered : (c : Call Req) → Reply Req.Doc c → Prop
  | .send (.zones name), r => zenv name r
  | _, _ => True

/-- A call of `present` or `cleanup`, and the zone of its name. -/
structure Client where
  cfg : HetznerConfig
  op : Op
  fqdn : Str
  value : Str
  zone : Str

namespace Client

def prog (c : Client) : Fut Unit (Call Req) (Reply Req.Doc) (Except DnsError Unit) :=
  match c.op with
  | .present => (present c.cfg c.fqdn c.value).run
  | .cleanup => (cleanup c.cfg c.fqdn c.value).run

/-- Where the value belongs. -/
def owner (c : Client) : Str × Str := (c.zone, (relativeName (lower c.fqdn) c.zone).toOption.getD [])

/-- With its lookups answered by `zenv`, the zone is the one it finds. -/
def Resolves (c : Client) : Prop :=
  Always Lookup (Answered zenv) (resolveZone c.cfg c.fqdn).run fun r => ∀ z, r = .ok z → z = c.zone

/-- The job is one that the call asks for. -/
structure Asks (c : Client) (job : Job) : Prop where
  op : job.op = c.op
  owner : job.owner = c.owner
  value : job.value = c.value

/-- Of the requests that create jobs, it makes only its own. -/
def Own (c : Client) : Call Req → Prop
  | .send (.action zone rname action body) =>
    (zone, rname) = c.owner ∧ action = actionName c.op ∧ body.records = [⟨quote c.value⟩]
  | _ => True

end Client

/-! ## What may happen -/

section Evolution

variable {zenv defaultTtl} {ι : Type} (clients : ι → Client) {s s' : Api}

structure Inv (s : Api) : Prop where
  /-- Every job is some client's. -/
  asked : ∀ job ∈ s.jobs, ∃ i, (clients i).Asks job
  valid : ∀ id ∈ s.log, id < s.jobs.length
  success_iff : ∀ (id : Nat) (job : Job), s.jobs[id]? = some job → (job.status = .success ↔ id ∈ s.log)
  nodup : s.log.Nodup
  settled : ∀ op o v, s.Did op o v → s.Settled op o v

/-- The jobs stay what they are, but for their status. -/
def SameJobs (s s' : Api) : Prop := ∀ (id : Nat) (job : Job), s.jobs[id]? = some job → ∃ status, s'.jobs[id]? = some (job.as status)

structure Evolves (s s' : Api) : Prop where
  inv : Inv clients s → Inv clients s'
  jobs : SameJobs s s'
  settled : ∀ op o v, s.Settled op o v → s'.Settled op o v
  /-- The values that no call is about. -/
  others : Inv clients s → ∀ o v, (∀ i, ¬ ((clients i).owner = o ∧ (clients i).value = v)) →
    (v ∈ contents (s'.valuesAt o) ↔ v ∈ contents (s.valuesAt o))
  /-- A record set that nothing is removed from. -/
  kept : Inv clients s → ∀ o set, (∀ i, (clients i).owner = o → (clients i).op = .present) → s.sets o = some set →
    ∃ set', s'.sets o = some set' ∧ set'.ttl = set.ttl ∧ set.values <+: set'.values

variable {clients}

theorem Evolves.refl (s : Api) : Evolves clients s s :=
  ⟨id, fun _ job h => ⟨job.status, h⟩, fun _ _ _ h => h, fun _ _ _ _ => Iff.rfl,
    fun _ _ set _ h => ⟨set, h, rfl, List.prefix_refl _⟩⟩

theorem Evolves.trans {s₁ s₂ s₃ : Api} (h : Evolves clients s₁ s₂) (h' : Evolves clients s₂ s₃) :
    Evolves clients s₁ s₃ where
  inv hinv := h'.inv (h.inv hinv)
  jobs id job hjob := by
    obtain ⟨status, hstatus⟩ := h.jobs id job hjob
    exact h'.jobs id (job.as status) hstatus
  settled op o v hs := h'.settled op o v (h.settled op o v hs)
  others hinv o v hnone := (h'.others (h.inv hinv) o v hnone).trans (h.others hinv o v hnone)
  kept hinv o set hnone hset := by
    obtain ⟨set₂, hset₂, httl₂, hpre₂⟩ := h.kept hinv o set hnone hset
    obtain ⟨set₃, hset₃, httl₃, hpre₃⟩ := h'.kept (h.inv hinv) o set₂ hnone hset₂
    exact ⟨set₃, hset₃, httl₃.trans httl₂, hpre₂.trans hpre₃⟩

/-- What was done stays done. -/
theorem Api.Did.mono {op : Op} {o : Str × Str} {v : Str} (h : s.Did op o v) (hlog : s.log ⊆ s'.log)
    (hjobs : SameJobs s s') : s'.Did op o v := by
  obtain ⟨id, hid, job, hjob, rfl, rfl, rfl⟩ := h
  obtain ⟨status, hstatus⟩ := hjobs id job hjob
  exact ⟨id, hlog hid, _, hstatus, rfl, rfl, rfl⟩

/-- What was done with the jobs of the log was done before. -/
theorem Api.Did.of_sameJobs {op : Op} {o : Str × Str} {v : Str} {id : Nat} {job' : Job} (hjobs : SameJobs s s')
    (hvalid : ∀ id ∈ s.log, id < s.jobs.length) (hid : id ∈ s.log) (hjob' : s'.jobs[id]? = some job') (hop : job'.op = op)
    (ho : job'.owner = o) (hv : job'.value = v) : s.Did op o v := by
  obtain ⟨job, hjob⟩ : ∃ job, s.jobs[id]? = some job := ⟨_, List.getElem?_eq_getElem (hvalid id hid)⟩
  obtain ⟨status, hstatus⟩ := hjobs id job hjob
  obtain rfl : job.as status = job' := Option.some.inj (hstatus.symm.trans hjob')
  exact ⟨id, hid, job, hjob, hop, ho, hv⟩

/-- Nothing is carried out: the jobs of the log, and the record sets, are the same. -/
theorem evolves_of_sets_eq (hsets : s'.sets = s.sets) (hlog : s'.log = s.log) (hjobs : SameJobs s s')
    (hasked : Inv clients s → ∀ job ∈ s'.jobs, ∃ i, (clients i).Asks job)
    (hlength : s.jobs.length ≤ s'.jobs.length)
    (hsuccess : Inv clients s → ∀ (id : Nat) (job : Job), s'.jobs[id]? = some job → (job.status = .success ↔ id ∈ s.log)) :
    Evolves clients s s' := by
  have hvalues : ∀ o, s'.valuesAt o = s.valuesAt o := fun o => by rw [Api.valuesAt, hsets, Api.valuesAt]
  have hsettled : ∀ op o v, s.Settled op o v → s'.Settled op o v := by
    intro op o v hs hdid
    rw [hvalues]
    exact hs fun op' h => hdid op' (h.mono (fun _ hid => hlog ▸ hid) hjobs)
  refine ⟨fun hinv => ⟨hasked hinv, fun id hid => ?_, fun id job hjob => ?_, ?_, ?_⟩, hjobs, hsettled,
    fun _ o v _ => by rw [hvalues], fun _ o set _ hset => ⟨set, by rw [hsets, hset], rfl, List.prefix_refl _⟩⟩
  · exact lt_of_lt_of_le (hinv.valid id (hlog ▸ hid)) hlength
  · rw [hlog]
    exact hsuccess hinv id job hjob
  · rw [hlog]
    exact hinv.nodup
  · rintro op o v ⟨id, hid, job, hjob, hop, ho, hv⟩
    exact hsettled op o v (hinv.settled op o v (.of_sameJobs hjobs hinv.valid (hlog ▸ hid) hjob hop ho hv))

theorem evolves_create {job : Job} {i : ι} (hi : (clients i).Asks job) (hrun : job.status = .running) :
    Evolves clients s (s.create job) := by
  have hold : ∀ {id : Nat} {j : Job}, s.jobs[id]? = some j → (s.create job).jobs[id]? = some j := by
    intro id j hj
    rw [Api.create, List.getElem?_append_left (List.getElem?_eq_some_iff.1 hj).1]
    exact hj
  refine evolves_of_sets_eq rfl rfl (fun id j hj => ⟨j.status, hold hj⟩) (fun hinv j hj => ?_) (by simp [Api.create])
    fun hinv id j hj => ?_
  · rcases List.mem_append.1 hj with hj | hj
    · exact hinv.asked j hj
    · exact ⟨i, List.mem_singleton.1 hj ▸ hi⟩
  · rcases Nat.lt_or_ge id s.jobs.length with hlt | hge
    · rw [Api.create, List.getElem?_append_left hlt] at hj
      exact hinv.success_iff id j hj
    · have hnot : id ∉ s.log := fun hid => absurd (hinv.valid id hid) (by omega)
      rw [Api.create, List.getElem?_append_right hge] at hj
      have hmem : j ∈ [job] := List.mem_of_getElem? hj
      rw [List.mem_singleton.1 hmem]
      simp [hrun, hnot]

section Mark

variable {id : Nat} {job : Job} (hjob : s.jobs[id]? = some job)

include hjob

theorem jobs_mark (status : Status) {id' : Nat} : (s.mark id job status).jobs[id']? =
    if id' = id then some (job.as status) else s.jobs[id']? := by
  have hlt : id < s.jobs.length := (List.getElem?_eq_some_iff.1 hjob).1
  rw [Api.mark, List.getElem?_set]
  by_cases h : id = id'
  · subst h
    simp [hlt]
  · simp [h, Ne.symm h]

theorem sameJobs_mark (status : Status) : SameJobs s (s.mark id job status) := by
  intro id' job' hjob'
  rw [jobs_mark hjob]
  by_cases h : id' = id
  · subst h
    obtain rfl : job = job' := Option.some.inj (hjob.symm.trans hjob')
    exact ⟨status, by simp⟩
  · exact ⟨job'.status, by rwa [if_neg h]⟩

theorem asked_mark (status : Status) (hinv : Inv clients s) : ∀ job' ∈ (s.mark id job status).jobs, ∃ i, (clients i).Asks job' := by
  intro job' hjob'
  rcases List.mem_or_eq_of_mem_set hjob' with hmem | rfl
  · exact hinv.asked job' hmem
  · obtain ⟨i, hi⟩ := hinv.asked job (List.mem_of_getElem? hjob)
    exact ⟨i, hi.op, hi.owner, hi.value⟩

end Mark

/-! ### A job is carried out -/

theorem mem_contents_apply {op : Op} {v w : Str} {values : List Str} :
    w ∈ contents (op.apply v values) ↔ if w = v then op = .present else w ∈ contents values := by
  cases op with
  | present =>
    rw [mem_contents_present]
    split <;> simp_all
  | cleanup =>
    rw [mem_contents_cleanup]
    split <;> simp_all

theorem values_apply (job : Job) (old : Option TxtSet) :
    (job.apply defaultTtl old).elim [] TxtSet.values = job.op.apply job.value (old.elim [] TxtSet.values) := by
  unfold Job.apply
  split
  · rename_i h
    exact h.symm
  · rfl

theorem sets_carryOut {id : Nat} {job : Job} {o : Str × Str} : (s.carryOut defaultTtl id job).sets o =
    if o = job.owner then job.apply defaultTtl (s.sets job.owner) else s.sets o := Function.update_apply ..

theorem mem_carryOut {id : Nat} {job : Job} {o : Str × Str} {v : Str} :
    v ∈ contents ((s.carryOut defaultTtl id job).valuesAt o) ↔
      if job.owner = o ∧ job.value = v then job.op = .present else v ∈ contents (s.valuesAt o) := by
  by_cases ho : job.owner = o
  · subst ho
    have hvalues : (s.carryOut defaultTtl id job).valuesAt job.owner = job.op.apply job.value (s.valuesAt job.owner) := by
      rw [Api.valuesAt, sets_carryOut, if_pos rfl, values_apply, Api.valuesAt]
    rw [hvalues, mem_contents_apply]
    simp [eq_comm]
  · have hvalues : (s.carryOut defaultTtl id job).valuesAt o = s.valuesAt o := by
      rw [Api.valuesAt, sets_carryOut, if_neg (Ne.symm ho), Api.valuesAt]
    rw [hvalues, if_neg (fun h => ho h.1)]

/-- A value that is added stays in the set, at its end, and so does the TTL. -/
theorem apply_present {job : Job} (hop : job.op = .present) (set : TxtSet) :
    ∃ set', job.apply defaultTtl (some set) = some set' ∧ set'.ttl = set.ttl ∧ set.values <+: set'.values := by
  have hfront : set.values <+: Op.present.apply job.value set.values := by
    rw [present_apply]
    split
    · exact List.prefix_refl _
    · exact List.prefix_append _ _
  unfold Job.apply
  rw [hop]
  split
  · rename_i h
    have hthere : job.value ∈ contents (Op.present.apply job.value set.values) := mem_contents_present.2 (Or.inr rfl)
    rw [show Op.present.apply job.value set.values = [] from h] at hthere
    cases hthere
  · exact ⟨_, rfl, rfl, hfront⟩

theorem settled_carryOut {id : Nat} {job : Job} (hjob : s.jobs[id]? = some job) {op : Op} {o : Str × Str} {v : Str}
    (h : s.Settled op o v) : (s.carryOut defaultTtl id job).Settled op o v := by
  intro hdid
  rw [mem_carryOut]
  split
  · rename_i heq
    have hop : job.op = op := by
      refine hdid job.op ⟨id, by simp [Api.carryOut], job.as .success, ?_, rfl, heq.1, heq.2⟩
      exact (jobs_mark hjob .success).trans (if_pos rfl)
    rw [hop]
  · exact h fun op' hop' => hdid op' (hop'.mono (List.subset_append_left _ _) (sameJobs_mark hjob .success))

theorem evolves_carryOut {id : Nat} {job : Job} (hjob : s.jobs[id]? = some job) (hrun : job.status = .running) :
    Evolves clients s (s.carryOut defaultTtl id job) where
  inv hinv := by
    have hnew : id ∉ s.log := by
      rw [← hinv.success_iff id job hjob, hrun]
      nofun
    refine ⟨asked_mark hjob .success hinv, fun id' hid' => ?_, fun id' job' hjob' => ?_, ?_, ?_⟩
    · have hlt : id < s.jobs.length := (List.getElem?_eq_some_iff.1 hjob).1
      rcases List.mem_append.1 hid' with hid' | hid'
      · simpa [Api.carryOut, Api.mark] using hinv.valid id' hid'
      · simpa [Api.carryOut, Api.mark, List.mem_singleton.1 hid'] using hlt
    · have hmark := (jobs_mark hjob .success).symm.trans hjob'
      by_cases h : id' = id
      · subst h
        rw [if_pos rfl] at hmark
        cases hmark
        simp [Api.carryOut, Job.as]
      · rw [if_neg h] at hmark
        simpa [Api.carryOut, h] using hinv.success_iff id' job' hmark
    · exact List.nodup_append.2 ⟨hinv.nodup, List.nodup_singleton id, fun a ha b hb hab => hnew (by simp_all)⟩
    · rintro op o v ⟨id', hid', job', hjob', hop, ho, hv⟩
      rcases List.mem_append.1 hid' with hid' | hid'
      · exact settled_carryOut hjob (hinv.settled op o v (.of_sameJobs (sameJobs_mark hjob .success) hinv.valid hid' hjob' hop ho hv))
      · obtain rfl := List.mem_singleton.1 hid'
        have hmark := (jobs_mark hjob .success).symm.trans hjob'
        rw [if_pos rfl] at hmark
        cases hmark
        subst hop ho hv
        intro _
        rw [mem_carryOut, if_pos ⟨rfl, rfl⟩]
        rfl
  jobs := sameJobs_mark hjob .success
  settled _ _ _ := settled_carryOut hjob
  others hinv o v hnone := by
    obtain ⟨i, hi⟩ := hinv.asked job (List.mem_of_getElem? hjob)
    rw [mem_carryOut, if_neg]
    rintro ⟨ho, hv⟩
    exact hnone i ⟨hi.owner.symm.trans ho, hi.value.symm.trans hv⟩
  kept hinv o set hnone hset := by
    obtain ⟨i, hi⟩ := hinv.asked job (List.mem_of_getElem? hjob)
    rw [sets_carryOut]
    split
    · rename_i ho
      subst ho
      rw [hset]
      exact apply_present (hi.op.trans (hnone i hi.owner.symm)) set
    · exact ⟨set, hset, rfl, List.prefix_refl _⟩

theorem evolves_serve (h : Serve defaultTtl s s') : Evolves clients s s' := by
  cases h with
  | succeeds hjob hrun httl => exact evolves_carryOut hjob hrun
  | @fails id job hjob hrun =>
    refine evolves_of_sets_eq rfl rfl (sameJobs_mark hjob .error) (asked_mark hjob .error) (by simp [Api.mark]) ?_
    intro hinv id' job' hjob'
    rw [jobs_mark hjob] at hjob'
    split at hjob'
    · rename_i hid
      subst hid
      cases hjob'
      have hnot := hinv.success_iff id' job hjob
      simpa [Job.as, hrun] using hnot
    · exact hinv.success_iff id' job' hjob'

/-! ### Requests -/

theorem jobOf_own {c : Client} {zone rname action : Str} {body : HetznerRecordsWrite} {job : Job}
    (hown : c.Own (.send (.action zone rname action body))) (hjob : jobOf zone rname action body = some job) :
    c.Asks job ∧ job.status = .running := by
  obtain ⟨howner, rfl, hrecords⟩ := hown
  unfold jobOf at hjob
  rw [hrecords] at hjob
  cases hop : c.op with
  | present =>
    simp only [hop, if_true] at hjob
    cases hjob
    exact ⟨⟨hop.symm, howner, unquote_quote _⟩, rfl⟩
  | cleanup =>
    have hne : actionName .cleanup ≠ actionName .present := by decide
    simp only [hop, if_neg hne, if_true] at hjob
    cases hjob
    exact ⟨⟨hop.symm, howner, unquote_quote _⟩, rfl⟩

theorem evolves_tried {i : ι} {q : Req} (hown : (clients i).Own (.send q)) (h : Tried q s s') : Evolves clients s s' := by
  cases q with
  | action zone rname action body =>
    rcases h with rfl | ⟨job, hjob, rfl⟩
    · exact .refl s'
    · obtain ⟨hasks, hrun⟩ := jobOf_own hown hjob
      exact evolves_create hasks hrun
  | zones name =>
    obtain rfl : s' = s := h
    exact .refl s'
  | rrset zone rname =>
    obtain rfl : s' = s := h
    exact .refl s'
  | getAction id =>
    obtain rfl : s' = s := h
    exact .refl s'

theorem evolves_call {i : ι} {c : Call Req} {r : Reply Req.Doc c} (hown : (clients i).Own c)
    (h : env zenv defaultTtl c r s s') : Evolves clients s s' := by
  cases c with
  | send q =>
    rcases h with ⟨resp, -, h⟩ | ⟨-, h⟩
    · cases q with
      | action zone rname action body =>
        obtain ⟨job, hjob, hs, -⟩ := h
        obtain ⟨hasks, hrun⟩ := jobOf_own hown hjob
        have hcreate : Evolves clients s (s.create job) := evolves_create hasks hrun
        rcases hs with rfl | hs
        · exact hcreate
        · exact hcreate.trans (evolves_serve hs)
      | zones name =>
        obtain rfl : s' = s := h.2
        exact .refl s'
      | rrset zone rname =>
        obtain rfl : s' = s := h.1
        exact .refl s'
      | getAction id =>
        obtain rfl : s' = s := h.1
        exact .refl s'
    · exact evolves_tried hown h
  | _ =>
    obtain rfl : s' = s := h
    exact .refl s'

theorem evolves_abandons {i : ι} {c : Call Req} (hown : (clients i).Own c) (h : abandons c s s') : Evolves clients s s' := by
  cases c with
  | send q => exact evolves_tried hown h
  | _ =>
    obtain rfl : s' = s := h
    exact .refl s'

theorem interference : Interference (world zenv defaultTtl) (fun i => (clients i).Own) (Evolves clients) where
  refl := .refl
  trans := .trans
  call := evolves_call
  drop := evolves_abandons
  other := evolves_serve

/-! ## One call -/

section Calls

variable {c : Client} (hc : ∃ i, clients i = c)

variable (zenv defaultTtl clients) in
/-- The calls of a client among the others. -/
abbrev rely : Env (Call Req) (Reply Req.Doc) Api := relyEnv (Evolves clients) (env zenv defaultTtl)

include hc in
theorem evolves_rely {call : Call Req} {r : Reply Req.Doc call} (h : rely zenv defaultTtl clients call r s s')
    (hown : c.Own call) : Evolves clients s s' := by
  obtain ⟨i, rfl⟩ := hc
  obtain ⟨m, hm, hr⟩ := h
  exact hm.trans (evolves_call hown hr)

/-- What a read shows. -/
def Shows (zone rname v : Str) (existing : Option (List Str)) (s : Api) : Prop :=
  (existing.any fun values => values.any (· = v)) = true ↔ v ∈ contents (s.valuesAt (zone, rname))

include hc in
theorem wp_fetchExisting (zone rname v : Str) (hs : Inv clients s) :
    wp (fun call _ => c.Own call) (rely zenv defaultTtl clients) (fetchExisting zone rname).run
      (fun r s' => Inv clients s' ∧ ∀ existing, r = .ok existing → Shows zone rname v existing s') s := by
  refine wp_request_inv (I := Inv clients) hs (fun s hs => ⟨trivial, fun r s' hr => ?_⟩) fun d s hs => ⟨trivial, fun u s' hu => ?_⟩
  · have hs' : Inv clients s' := (evolves_rely hc hr trivial).inv hs
    refine ⟨fun e _ => ⟨hs', nofun⟩, fun resp hresp => ⟨⟨hs', fun existing hex => ?_⟩, fun _ => hs'⟩⟩
    obtain ⟨m, -, ⟨resp', heq, hserved⟩ | ⟨hfailed, -⟩⟩ := hr
    · obtain rfl : resp' = resp := Except.ok.inj (heq.symm.trans hresp)
      obtain ⟨rfl, hset⟩ := hserved
      rw [Shows, Api.valuesAt]
      cases hsets : s'.sets (zone, rname) with
      | none =>
        rw [hsets] at hset
        rw [if_pos hset] at hex
        cases hex
        simp [contents]
      | some set =>
        rw [hsets] at hset
        simp only [StatusCode.ne_404 hset.1, if_false, check_ok hset.1, ok_bind, Response.json_ok hset.2] at hex
        cases hex
        simp [contents]
    · obtain ⟨h404, hbody⟩ := hfailed resp hresp
      rw [if_neg h404] at hex
      cases hsucc : resp.status.isSuccess with
      | true =>
        obtain ⟨e, he⟩ := hbody hsucc
        simp only [check_ok hsucc, ok_bind, Response.json_error he] at hex
        cases hex
      | false =>
        rw [check_error hsucc] at hex
        cases hex
  · exact (evolves_rely hc hu trivial).inv hs

variable (clients) in
/-- What is known of an action of the call: it is the call's own, and if it has succeeded its work is done. -/
structure Watched (c : Client) (action : HetznerAction) (s : Api) : Prop where
  inv : Inv clients s
  own : ∃ job, s.jobs[action.id]? = some job ∧ c.Asks job
  done : action.status = "success".toList → s.Settled c.op c.owner c.value

theorem Client.Asks.as {job : Job} (h : c.Asks job) (status : Status) : c.Asks (job.as status) := ⟨h.op, h.owner, h.value⟩

theorem Watched.evolves {action : HetznerAction} (h : Watched clients c action s) (hs : Evolves clients s s') :
    Watched clients c action s' where
  inv := hs.inv h.inv
  own := by
    obtain ⟨job, hjob, hasks⟩ := h.own
    obtain ⟨status, hstatus⟩ := hs.jobs _ job hjob
    exact ⟨_, hstatus, hasks.as status⟩
  done hsucc := hs.settled _ _ _ (h.done hsucc)

/-- An action as it was just reported. -/
theorem watched_of_reported {action : HetznerAction} {job : Job} (hinv : Inv clients s)
    (hjob : s.jobs[action.id]? = some job) (hasks : c.Asks job) (hreported : job.Reported action) :
    Watched clients c action s where
  inv := hinv
  own := ⟨job, hjob, hasks⟩
  done hsucc := by
    have hid : action.id ∈ s.log := (hinv.success_iff _ job hjob).1 (hreported.1.1 hsucc)
    exact hinv.settled _ _ _ ⟨_, hid, job, hjob, hasks.op, hasks.owner, hasks.value⟩

theorem decode_action {resp : Response HetznerAction} {e : DnsError} {action : HetznerAction} :
    (do check resp.status.isSuccess e; resp.json) = .ok action ↔ resp.status.isSuccess = true ∧ resp.body = .ok action := by
  simp [bind_eq_ok, check_eq_ok, Response.json_eq_ok]

/-- An action that was read from an answer that is none. -/
theorem not_failed {resp : Response HetznerAction} {e : DnsError} {action : HetznerAction}
    (h : (do check resp.status.isSuccess e; resp.json) = .ok action)
    (hfailed : resp.status.isSuccess = true → ∃ e, resp.body = .error e) : False := by
  obtain ⟨hsucc, hbody⟩ := decode_action.1 h
  obtain ⟨e', he⟩ := hfailed hsucc
  rw [hbody] at he
  cases he

/-- The state of the job that a request has created, whether or not it was carried out at once. -/
theorem asks_created {zone rname action : Str} {body : HetznerRecordsWrite} {job job' : Job}
    (hown : c.Own (.send (.action zone rname action body))) (hjob : jobOf zone rname action body = some job)
    (hs : s' = s.create job ∨ Serve defaultTtl (s.create job) s') (hjob' : s'.jobs[s.jobs.length]? = some job') :
    c.Asks job' := by
  have hasks := (jobOf_own hown hjob).1
  have hnew : (s.create job).jobs[s.jobs.length]? = some job := by simp [Api.create]
  rcases hs with rfl | hs
  · obtain rfl : job = job' := Option.some.inj (hnew.symm.trans hjob')
    exact hasks
  · have hsame : SameJobs (s.create job) s' := by
      cases hs with
      | succeeds h hrun httl => exact sameJobs_mark h .success
      | fails h hrun => exact sameJobs_mark h .error
    obtain ⟨status, hstatus⟩ := hsame _ job hnew
    obtain rfl : job.as status = job' := Option.some.inj (hstatus.symm.trans hjob')
    exact hasks.as status

include hc in
theorem wp_startAction {zone rname : Str} (howner : (zone, rname) = c.owner) (ttl : Option Nat) (e : Response HetznerAction → DnsError)
    (hs : Inv clients s) :
    wp (fun call _ => c.Own call) (rely zenv defaultTtl clients)
      (request .post (Req.action zone rname (actionName c.op) ⟨ttl, [⟨quote c.value⟩]⟩) fun response => do
        check response.status.isSuccess (e response)
        response.json : M HetznerAction).run
      (fun r s' => ∀ action, r = .ok action → Watched clients c action s') s := by
  have hown : c.Own (.send (.action zone rname (actionName c.op) ⟨ttl, [⟨quote c.value⟩]⟩)) := ⟨howner, rfl, rfl⟩
  refine wp_request_inv (I := Inv clients) hs (fun s hs => ⟨hown, fun r s' hr => ?_⟩) fun d s hs => ⟨trivial, fun u s' hu => ?_⟩
  · have hs' : Inv clients s' := (evolves_rely hc hr hown).inv hs
    refine ⟨nofun, fun resp hresp => ⟨fun action haction => ?_, fun _ => hs'⟩⟩
    obtain ⟨m, -, ⟨resp', heq, job, hjob, hserve, -, job', answer, hjob', hbody, hid, hreported⟩ | ⟨hfailed, -⟩⟩ := hr
    · obtain rfl : resp' = resp := Except.ok.inj (heq.symm.trans hresp)
      obtain rfl : answer = action := Except.ok.inj (hbody.symm.trans (decode_action.1 haction).2)
      rw [← hid] at hjob'
      exact watched_of_reported hs' hjob' (asks_created hown hjob hserve (hid ▸ hjob')) hreported
    · exact (not_failed haction (hfailed resp hresp)).elim
  · exact (evolves_rely hc hu trivial).inv hs

include hc in
theorem wp_fetchAction {action : HetznerAction} (hs : Watched clients c action s) :
    wp (fun call _ => c.Own call) (rely zenv defaultTtl clients) (fetchAction action.id).run
      (fun r s' => ∀ next, r = .ok next → Watched clients c next s') s := by
  refine wp_request_inv (I := Watched clients c action) hs (fun s hs => ⟨trivial, fun r s' hr => ?_⟩)
    fun d s hs => ⟨trivial, fun u s' hu => ?_⟩
  · have hs' : Watched clients c action s' := hs.evolves (evolves_rely hc hr trivial)
    refine ⟨nofun, fun resp hresp => ⟨fun next hnext => ?_, fun _ => hs'⟩⟩
    obtain ⟨m, -, ⟨resp', heq, rfl, -, job, answer, hjob, hbody, hid, hreported⟩ | ⟨hfailed, -⟩⟩ := hr
    · obtain rfl : resp' = resp := Except.ok.inj (heq.symm.trans hresp)
      obtain rfl : answer = next := Except.ok.inj (hbody.symm.trans (decode_action.1 hnext).2)
      obtain ⟨job', hjob', hasks⟩ := hs'.own
      obtain rfl : job = job' := Option.some.inj (hjob.symm.trans hjob')
      exact watched_of_reported hs'.inv (hid ▸ hjob) hasks hreported
    · exact (not_failed hnext (hfailed resp hresp)).elim
  · exact hs.evolves (evolves_rely hc hu trivial)

/-- The end of a call. -/
def Returned (c : Client) (r : Except DnsError Unit) (s : Api) : Prop := r = .ok () → s.Settled c.op c.owner c.value

include hc in
theorem wp_waitForAction {action : HetznerAction} (hs : Watched clients c action s) :
    wp (fun call _ => c.Own call) (rely zenv defaultTtl clients) (waitForAction action).run (Returned c) s := by
  have hsettled : ∀ {a a' : HetznerAction}, settled a = .ok a' → a' = a := by
    intro a a' h
    unfold settled at h
    split at h
    · cases h
    · exact (Except.ok.inj h).symm
  unfold waitForAction
  rw [wp_run_bind]
  refine wp_sync_run.2 ⟨trivial, fun start s₁ h₁ => ?_⟩
  have hs₁ := hs.evolves (evolves_rely hc h₁ trivial)
  dsimp only
  rw [wp_run_bind, wp_run_except]
  cases haction : settled action with
  | error e => exact nofun
  | ok action' =>
    obtain rfl := hsettled haction
    refine wp_waitFrom_known (J := Watched clients c) (fun change s h => ⟨trivial, fun r s' hr => ?_⟩)
      (fun d change s h => ⟨trivial, fun u s' hu => ?_⟩) (fun change s h => ?_) (fun change s h hsync _ => ?_)
      (fun e s => nofun) _ _ _ hs₁
    · exact h.evolves (evolves_rely hc hr trivial)
    · exact h.evolves (evolves_rely hc hu trivial)
    · rw [wp_run_bind]
      refine wp_mono (wp_fetchAction hc h) fun r s' hr => ?_
      cases r with
      | error e => exact nofun
      | ok next =>
        dsimp only
        rw [wp_run_except]
        intro next' hnext
        obtain rfl := hsettled hnext
        exact hr next' rfl
    · exact h.done (of_decide_eq_true hsync)

include hc in
theorem wp_runRecordsAction {zone rname : Str} (howner : (zone, rname) = c.owner) (ttl : Option Nat) (hs : Inv clients s) :
    wp (fun call _ => c.Own call) (rely zenv defaultTtl clients)
      (runRecordsAction zone rname (actionName c.op) c.value ttl).run (Returned c) s := by
  unfold runRecordsAction
  rw [wp_run_bind]
  refine wp_mono (wp_startAction hc howner ttl _ hs) fun r s' hr => ?_
  cases r with
  | error e => exact nofun
  | ok action => exact wp_waitForAction hc (hr action rfl)

include hc in
theorem wp_presentLocked {zone rname : Str} (howner : (zone, rname) = c.owner) (hop : c.op = .present) (hs : Inv clients s) :
    wp (fun call _ => c.Own call) (rely zenv defaultTtl clients) (presentLocked c.cfg zone rname c.value).run (Returned c) s := by
  have hrun : ∀ ttl s, Inv clients s → wp (fun call _ => c.Own call) (rely zenv defaultTtl clients)
      (runRecordsAction zone rname (actionName c.op) c.value ttl).run (Returned c) s :=
    fun ttl s hs => wp_runRecordsAction hc howner ttl hs
  rw [hop] at hrun
  unfold presentLocked
  rw [wp_run_bind]
  refine wp_mono (wp_fetchExisting hc zone rname c.value hs) ?_
  rintro r s₁ ⟨hs₁, hshows⟩
  cases r with
  | error e => exact nofun
  | ok existing =>
    have hshows := hshows existing rfl
    cases existing with
    | none => exact hrun _ s₁ hs₁
    | some values =>
      dsimp only
      split
      · rename_i hthere
        intro _ _
        rw [hop, ← howner]
        exact iff_of_true (hshows.1 hthere) rfl
      · exact hrun _ s₁ hs₁

include hc in
theorem wp_cleanupLocked {zone rname : Str} (howner : (zone, rname) = c.owner) (hop : c.op = .cleanup) (hs : Inv clients s) :
    wp (fun call _ => c.Own call) (rely zenv defaultTtl clients) (cleanupLocked zone rname c.value).run (Returned c) s := by
  unfold cleanupLocked
  rw [wp_run_bind]
  refine wp_mono (wp_fetchExisting hc zone rname c.value hs) ?_
  rintro r s₁ ⟨hs₁, hshows⟩
  cases r with
  | error e => exact nofun
  | ok existing =>
    have hshows := hshows existing rfl
    dsimp only
    split
    · have hrun : wp (fun call _ => c.Own call) (rely zenv defaultTtl clients)
          (runRecordsAction zone rname (actionName c.op) c.value none).run (Returned c) s₁ :=
        wp_runRecordsAction hc howner none hs₁
      rwa [hop] at hrun
    · rename_i hthere
      intro _ _
      rw [hop, ← howner]
      exact iff_of_false (fun hmem => hthere (hshows.2 hmem)) nofun

include hc in
/-- The zone is looked up, then the body runs with the lock. -/
theorem wp_placed (hzone : c.Resolves zenv) {body : Str → Str → M Unit}
    (hbody : ∀ zone rname s, (zone, rname) = c.owner → Inv clients s →
      wp (fun call _ => c.Own call) (rely zenv defaultTtl clients) (body zone rname).run (Returned c) s)
    (hs : Inv clients s) :
    wp (fun call _ => c.Own call) (rely zenv defaultTtl clients) (do
      let zone ← resolveZone c.cfg c.fqdn
      let rname ← relativeName (lower c.fqdn) zone
      withLock locks (lockKey zone rname) (body zone rname) : M Unit).run (Returned c) s := by
  have hown : ∀ call, Lookup call → c.Own call := by
    intro call hcall
    cases call with
    | send q =>
      cases q with
      | zones name => trivial
      | _ => cases hcall
    | _ => trivial
  have hlookup : ∀ call r s s', Lookup call → env zenv defaultTtl call r s s' → Evolves clients s s' ∧ Answered zenv call r := by
    intro call r s s' hcall henv
    refine ⟨evolves_rely hc ⟨s, .refl s, henv⟩ (hown call hcall), ?_⟩
    cases call with
    | send q =>
      cases q with
      | zones name =>
        rcases henv with ⟨resp, rfl, hserved⟩ | ⟨hfailed, -⟩
        · exact hserved.1
        · exact hfailed
      | _ => cases hcall
    | _ => trivial
  rw [wp_run_bind]
  refine wp_mono (wp_rely_of_always .refl .trans hzone hown hlookup s) ?_
  rintro r s₁ ⟨hs₁, hr⟩
  cases r with
  | error e => exact nofun
  | ok zone =>
    obtain rfl := hr zone rfl
    dsimp only
    rw [wp_run_bind, wp_run_except]
    cases hrname : relativeName (lower c.fqdn) c.zone with
    | error e => exact nofun
    | ok rname =>
      refine wp_withLock.2 ⟨trivial, fun u s₂ h₂ => ?_⟩
      have howner : (c.zone, rname) = c.owner := by rw [Client.owner, hrname]; rfl
      refine wp_mono (hbody c.zone rname s₂ howner ((evolves_rely hc h₂ trivial).inv (hs₁.inv hs))) fun r s₃ h₃ => ?_
      exact ⟨trivial, fun u s₄ h₄ hr => (evolves_rely hc h₄ trivial).settled _ _ _ (h₃ hr)⟩

include hc in
/-- **One call among any others.** -/
theorem wp_prog (hzone : c.Resolves zenv) (hs : Inv clients s) :
    wp (fun call _ => c.Own call) (rely zenv defaultTtl clients) c.prog (Returned c) s := by
  unfold Client.prog
  cases hop : c.op with
  | present =>
    dsimp only
    unfold present
    rw [wp_run_bind, wp_run_except]
    cases validateFqdn c.fqdn with
    | error e => exact nofun
    | ok u =>
      dsimp only
      rw [wp_run_bind, wp_run_except]
      cases validateAcmeValue c.value with
      | error e => exact nofun
      | ok u => exact wp_placed hc hzone (fun zone rname s howner hs => wp_presentLocked hc howner hop hs) hs
  | cleanup =>
    dsimp only
    unfold cleanup
    rw [wp_run_bind, wp_run_except]
    cases validateFqdn c.fqdn with
    | error e => exact nofun
    | ok u => exact wp_placed hc hzone (fun zone rname s howner hs => wp_cleanupLocked hc howner hop hs) hs

end Calls

/-! ## Any number of calls -/

variable {s₀ : Api}

theorem inv_start (hjobs : s₀.jobs = []) (hlog : s₀.log = []) : Inv clients s₀ := by
  refine ⟨?_, ?_, ?_, ?_, ?_⟩
  · simp [hjobs]
  · simp [hlog]
  · simp [hjobs]
  · simp [hlog]
  · rintro op o v ⟨id, hid, -⟩
    simp [hlog] at hid

/-- **Actions lose nothing.** Any number of calls of any number of processes, each dropped or given up anywhere,
their requests in any order and failing or not, their actions carried out at any later time or not at all. -/
theorem actions_lose_nothing [DecidableEq ι] (hzone : ∀ i, (clients i).Resolves zenv) (hjobs : s₀.jobs = []) (hlog : s₀.log = [])
    {w : List (Label ι (Call Req) (Reply Req.Doc) Unit)} {cfg : Config ι Unit (Call Req) (Reply Req.Doc) (Except DnsError Unit) Api}
    (h : Steps (world zenv defaultTtl) (start (fun i => (clients i).prog) s₀) w cfg) :
    let s := cfg.store
    -- an action is carried out once, and only for a call that asked for it
    s.log.Nodup ∧ (∀ op o v, s.Did op o v → ∃ i, (clients i).op = op ∧ (clients i).owner = o ∧ (clients i).value = v) ∧
    -- what a call that succeeded was for is so, unless an action has done the contrary
    (∀ i, cfg.prog i = some (.done (.ok ())) →
      (∀ op, s.Did op (clients i).owner (clients i).value → op = (clients i).op) →
      ((clients i).value ∈ contents (s.valuesAt (clients i).owner) ↔ (clients i).op = .present)) ∧
    -- values that no call is about stay as they are
    (∀ o v, (∀ i, ¬ ((clients i).owner = o ∧ (clients i).value = v)) →
      (v ∈ contents (s.valuesAt o) ↔ v ∈ contents (s₀.valuesAt o))) ∧
    -- and a set that nothing is removed from keeps its values and its TTL
    ∀ o set, (∀ i, (clients i).owner = o → (clients i).op = .present) → s₀.sets o = some set →
      ∃ set', s.sets o = some set' ∧ set'.ttl = set.ttl ∧ set.values <+: set'.values := by
  have hinv₀ : Inv clients s₀ := inv_start hjobs hlog
  have hp : ∀ i, wp (fun call _ => (clients i).Own call) (rely zenv defaultTtl clients) (clients i).prog
      (Returned (clients i)) s₀ := fun i => wp_prog ⟨i, rfl⟩ (hzone i) hinv₀
  have hstore := h.store interference hp
  have hinv := hstore.inv hinv₀
  refine ⟨hinv.nodup, ?_, fun i hi => ?_, hstore.others hinv₀, hstore.kept hinv₀⟩
  · rintro op o v ⟨id, -, job, hjob, rfl, rfl, rfl⟩
    obtain ⟨i, hi⟩ := hinv.asked job (List.mem_of_getElem? hjob)
    exact ⟨i, hi.op.symm, hi.owner.symm, hi.value.symm⟩
  · obtain ⟨m, hwp, hm⟩ := h.resumes interference hp hi
    exact hm.settled _ _ _ (hwp rfl)

/-- Two processes that add a value each, at one name of the zone `a.org`. -/
def sampleClient (i : Bool) : Client :=
  ⟨⟨some "a.org".toList, 60⟩, .present, "_acme-challenge.a.org".toList, (if i then "x" else "y").toList, "a.org".toList⟩

/-- The name and the zone, as the API knows them. -/
abbrev sampleOwner : Str × Str := ("a.org".toList, "_acme-challenge".toList)

/-- What is left to do for a call that has found no record set. -/
def sampleRest (value : Str) : Fut Unit (Call Req) (Reply Req.Doc) (Except DnsError Unit) :=
  (runRecordsAction sampleOwner.1 sampleOwner.2 "add_records".toList value (some 60)).run.bind
    fun r => .await none .unlock fun _ => .done r

theorem sampleClient_prog (i : Bool) : (sampleClient i).prog = (withLock locks (lockKey sampleOwner.1 sampleOwner.2)
    (presentLocked ⟨some "a.org".toList, 60⟩ sampleOwner.1 sampleOwner.2 (sampleClient i).value)).run := by
  have hfqdn : validateFqdn "_acme-challenge.a.org".toList = .ok () := by decide
  have hvalue : validateAcmeValue (sampleClient i).value = .ok () := by cases i <;> decide
  have hzone : resolveZone ⟨some "a.org".toList, 60⟩ "_acme-challenge.a.org".toList = liftM (.ok "a.org".toList : Except DnsError Str) :=
    rfl
  have hname : relativeName (lower "_acme-challenge.a.org".toList) "a.org".toList = .ok sampleOwner.2 := by decide
  show (present ⟨some "a.org".toList, 60⟩ "_acme-challenge.a.org".toList (sampleClient i).value).run = _
  rw [present, hfqdn, lift_ok_bind, hvalue, lift_ok_bind, hzone, lift_ok_bind, hname, lift_ok_bind]

/-- Both may find that there is none. -/
theorem sample_read (i : Bool) : ∃ t, (sampleClient i).prog.At t (sampleRest (sampleClient i).value) ∧
    ∀ s, s.sets sampleOwner = none → Chain (env (fun _ _ => True) 3600) t s s := by
  let missing : Response HetznerRrset := ⟨⟨404, ""⟩, none, none, none, [], .error ""⟩
  have hread : (presentLocked ⟨some "a.org".toList, 60⟩ sampleOwner.1 sampleOwner.2 (sampleClient i).value).run.At
      [⟨.send (.rrset sampleOwner.1 sampleOwner.2), .ok missing⟩]
      (runRecordsAction sampleOwner.1 sampleOwner.2 "add_records".toList (sampleClient i).value (some 60)).run := by
    unfold presentLocked
    rw [ExceptT.run_bind, bind_eq]
    exact at_bind.2 (Or.inr ⟨_, _, [], runs_request_final (by simp [Retryable, missing]), at_nil.2 rfl, rfl⟩)
  rw [sampleClient_prog]
  refine ⟨⟨.lock locks (lockKey sampleOwner.1 sampleOwner.2), ()⟩ :: _, ⟨(), rfl, hread.bind _⟩, fun s hs => ⟨s, rfl, s, ?_, rfl⟩⟩
  exact Or.inl ⟨missing, rfl, rfl, by rw [hs]⟩

/-- The job that adds a value. -/
abbrev sampleJob (value : Str) : Job := ⟨sampleOwner, .present, value, some 60, .running⟩

/-- The value may be added at once, if the set has the TTL that is sent, or is not there. -/
theorem sample_add (i : Bool) {s : Api} (hs : ∀ set, s.sets sampleOwner = some set → set.ttl = 60) :
    may (env (fun _ _ => True) 3600) (sampleRest (sampleClient i).value) (fun r s' => r = .ok () ∧
      s' = (s.create (sampleJob (sampleClient i).value)).carryOut 3600 s.jobs.length (sampleJob (sampleClient i).value)) s := by
  have hjob : jobOf sampleOwner.1 sampleOwner.2 "add_records".toList ⟨some 60, [⟨quote (sampleClient i).value⟩]⟩ =
      some (sampleJob (sampleClient i).value) := by cases i <;> decide
  have hstatus : "success".toList ≠ "error".toList := by decide
  let done : HetznerAction := ⟨s.jobs.length, [], "success".toList, none⟩
  have hadd : env (fun _ _ => True) 3600 (.send (.action sampleOwner.1 sampleOwner.2 "add_records".toList
      ⟨some 60, [⟨quote (sampleClient i).value⟩]⟩)) (.ok ⟨⟨201, ""⟩, none, none, none, [], .ok done⟩) s
      ((s.create (sampleJob (sampleClient i).value)).carryOut 3600 s.jobs.length (sampleJob (sampleClient i).value)) := by
    refine Or.inl ⟨_, rfl, _, hjob, Or.inr (.succeeds (by simp [Api.create]) rfl ?_), rfl,
      (sampleJob (sampleClient i).value).as .success, done, by simp [Api.carryOut, Api.mark, Api.create], rfl, rfl,
      iff_of_true rfl rfl, iff_of_false hstatus fun h => by cases h⟩
    rintro set ttl hset hjob
    cases hjob
    exact hs set hset
  refine may_bind.2 (may_run_bind.2 (may_request hadd (by simp [Retryable]) ?_))
  refine ⟨(0 : Nat), _, rfl, ?_⟩
  show may _ (waitFrom _ _ _ _ done).run _ _
  have hsync : actionPolicy.inSync done = true := by simp [actionPolicy, done]
  rw [waitFrom.eq_def]
  simp only [hsync, if_true]
  exact ⟨(), _, rfl, rfl, rfl⟩

/-- Both processes look for the record set before either of them adds its value. -/
theorem actions_lose_nothing_added : ∃ w cfg,
    Steps (world (fun _ _ => True) 3600) (start (fun i => (sampleClient i).prog) ⟨fun _ => none, [], []⟩) w cfg ∧
      ∀ i, cfg.prog i = some (.done (.ok ())) ∧ (sampleClient i).value ∈ contents (cfg.store.valuesAt sampleOwner) := by
  let s₀ : Api := ⟨fun _ => none, [], []⟩
  let s₁ : Api := (s₀.create (sampleJob (sampleClient true).value)).carryOut 3600 0 (sampleJob (sampleClient true).value)
  have hset : ∀ set, s₁.sets sampleOwner = some set → set.ttl = 60 := by
    intro set hset
    have hput : s₁.sets sampleOwner = (sampleJob (sampleClient true).value).apply 3600 none := by
      simp [s₁, s₀, Api.carryOut, Api.create]
    rw [hput] at hset
    cases hset
    rfl
  obtain ⟨t, hat, hchain⟩ := sample_read true
  obtain ⟨t', hat', hchain'⟩ := sample_read false
  obtain ⟨u, r, _, hrun, hc, rfl, rfl⟩ := (sample_add true (s := s₀) nofun).exists_run
  obtain ⟨u', r', _, hrun', hc', rfl, rfl⟩ := (sample_add false hset).exists_run
  have hnil : Steps (world (fun _ _ => True) 3600) (start (fun i => (sampleClient i).prog) s₀) [] _ := .nil
  have hread := hnil.run (i := true) rfl hat (hchain s₀ rfl)
  have hread' := hread.run (i := false) rfl hat' (hchain' s₀ rfl)
  have hadd := hread'.run (i := true) rfl hrun hc
  have hend := hadd.run (i := false) rfl hrun' hc'
  have hzone : ∀ i, (sampleClient i).Resolves (fun _ _ => True) := fun i z h => (Except.ok.inj h).symm
  obtain ⟨-, hdid, hok, -⟩ := actions_lose_nothing hzone rfl rfl hend
  have howner : ∀ i, (sampleClient i).owner = sampleOwner := by decide
  refine ⟨_, _, hend, fun i => ⟨by cases i <;> rfl, ?_⟩⟩
  rw [← howner i]
  refine (hok i (by cases i <;> rfl) fun op hop => ?_).2 rfl
  obtain ⟨-, rfl, -⟩ := hdid op _ _ hop
  rfl

end Evolution

end Hetzner

end Cheti
