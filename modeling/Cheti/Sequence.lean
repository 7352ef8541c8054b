import Cheti.Interleaving
/-!
# What calls do to the record sets

`Effect` is what a call may have done by its end, whatever it returned: nothing, or the one write of the
changed set. From it follow the facts about calls that run one after the other. Where no request fails,
a call does exactly what it is for: `Did`, and a sequence of calls refines the operations on lists of
values (`Serially.refines`).
-/

namespace Cheti.Backend

open Fut (Chain Ev)

variable {b : Backend} {op : Op} {v : Str} {o : Owner} {faulty : Bool} {s s' : Records b.Set}

theorem valuesAt_put (s : Records b.Set) (o : Owner) (x : Option b.Set) :
    b.valuesAt (s.put o x) o = (x.map b.values).getD [] := by
  simp [valuesAt, Records.put]

theorem sets_put_of_ne {o' : Owner} (h : o' ≠ o) (s : Records b.Set) (x : Option b.Set) :
    (s.put o x).sets o' = s.sets o' := by
  simp [Records.put, h]

theorem sets_put_self (s : Records b.Set) (o : Owner) (x : Option b.Set) : (s.put o x).sets o = x := by
  simp [Records.put]

theorem valuesAt_written {x : Option b.Set} (h : b.Written op v o s x) :
    b.valuesAt (s.put o x) o = (op.apply v (b.valuesAt s o)).map b.canonical := by
  rw [valuesAt_put]
  cases x with
  | none =>
    have hnil : op.apply v (b.valuesAt s o) = [] := h
    rw [hnil]
    rfl
  | some x => exact h.1

/-! ## The effect of one call -/

def Effect (b : Backend) (op : Op) (v : Str) (o : Owner) (s s' : Records b.Set) : Prop :=
  s' = s ∨ ∃ x, s' = s.put o x ∧ b.Written op v o s x

theorem effect_of_post {r : Except DnsError Unit} (h : b.Post op v o faulty s r s') : b.Effect op v o s s' := by
  rcases h with ⟨-, -, hs⟩ | ⟨-, -, x, hs, hx⟩ | ⟨-, -, hs⟩
  · exact Or.inl hs
  · exact Or.inr ⟨x, hs, hx⟩
  · exact Or.inl hs

theorem Effect.frame (h : b.Effect op v o s s') {o' : Owner} (ho : o' ≠ o) : s'.sets o' = s.sets o' := by
  rcases h with rfl | ⟨x, rfl, -⟩
  · rfl
  · exact sets_put_of_ne ho s x

theorem Effect.wf (h : b.Effect op v o s s') (hs : b.WF s) : b.WF s' := by
  rcases h with rfl | ⟨x, rfl, hx⟩
  · exact hs
  · intro o' htype y hy
    by_cases ho : o' = o
    · subst ho
      rw [sets_put_self] at hy
      subst hy
      exact ⟨hx.2.2.1, hx.2.1⟩
    · rw [sets_put_of_ne ho] at hy
      exact hs o' htype y hy

theorem contents_map_canonical (hb : b.Sound) (values : List Str) :
    contents (values.map b.canonical) = contents values := by
  simp [contents, hb.unquote_canonical]

theorem Effect.contents_eq (hb : b.Sound) (h : b.Effect op v o s s') :
    contents (b.valuesAt s' o) = contents (b.valuesAt s o) ∨
      contents (b.valuesAt s' o) = contents (op.apply v (b.valuesAt s o)) := by
  rcases h with rfl | ⟨x, rfl, hx⟩
  · exact Or.inl rfl
  · rw [valuesAt_written hx]
    exact Or.inr (contents_map_canonical hb _)

/-- A call does nothing to a value other than its own. -/
theorem Effect.mem_of_ne (hb : b.Sound) (h : b.Effect op v o s s') {x : Str} (hx : x ≠ v) :
    x ∈ contents (b.valuesAt s' o) ↔ x ∈ contents (b.valuesAt s o) := by
  rcases h.contents_eq hb with he | he
  · rw [he]
  · rw [he]
    cases op with
    | present => simp [mem_contents_present, hx]
    | cleanup => simp [mem_contents_cleanup, hx]

/-- Only a cleanup takes its value away. -/
theorem Effect.mem_of_mem (hb : b.Sound) (h : b.Effect op v o s s') {x : Str}
    (hop : op = .cleanup → v ≠ x) (hx : x ∈ contents (b.valuesAt s o)) : x ∈ contents (b.valuesAt s' o) := by
  by_cases hv : x = v
  · subst hv
    cases op with
    | cleanup => exact absurd rfl (hop rfl)
    | present =>
      rcases h.contents_eq hb with he | he
      · rwa [he]
      · rw [he]
        exact mem_contents_present.2 (Or.inl hx)
  · exact (h.mem_of_ne hb hv).2 hx

theorem mem_of_present_ok (hb : b.Sound) (h : b.Post .present v o faulty s (.ok ()) s') :
    v ∈ contents (b.valuesAt s' o) := by
  rcases h with ⟨heq, -, rfl⟩ | ⟨-, -, x, rfl, hx⟩ | ⟨-, ⟨e, he⟩, -⟩
  · exact holds_iff.1 (present_apply_eq_iff.1 heq)
  · rw [valuesAt_written hx, contents_map_canonical hb]
    exact mem_contents_present.2 (Or.inr rfl)
  · cases he

/-- Only a present puts its value there. -/
theorem Effect.not_mem_of_not_mem (hb : b.Sound) (h : b.Effect op v o s s') {x : Str}
    (hop : op = .present → v ≠ x) (hx : x ∉ contents (b.valuesAt s o)) : x ∉ contents (b.valuesAt s' o) := by
  by_cases hv : x = v
  · subst hv
    cases op with
    | present => exact absurd rfl (hop rfl)
    | cleanup =>
      rcases h.contents_eq hb with he | he
      · rwa [he]
      · rw [he]
        exact fun hmem => hx (mem_contents_cleanup.1 hmem).1
  · exact fun hmem => hx ((h.mem_of_ne hb hv).1 hmem)

theorem not_mem_of_cleanup_ok (hb : b.Sound) (h : b.Post .cleanup v o faulty s (.ok ()) s') :
    v ∉ contents (b.valuesAt s' o) := by
  rcases h with ⟨heq, -, rfl⟩ | ⟨-, -, x, rfl, hx⟩ | ⟨-, ⟨e, he⟩, -⟩
  · rw [← holds_iff, cleanup_apply_eq_iff.1 heq]
    simp
  · rw [valuesAt_written hx, contents_map_canonical hb]
    exact fun hmem => (mem_contents_cleanup.1 hmem).2 rfl
  · cases he

/-! ## Calls one after the other -/

/-- What a call did, and that it is what it should do if it returned `Ok`. -/
theorem Sound.effect_of_run (hb : b.Sound) {zenv : (c : Call b.Q) → Reply b.B c → Prop} {z n : Str} {c : Invocation b}
    (hname : normalizeName c.fqdn = n) (hzone : b.Resolves zenv false c.cfg c.fqdn z)
    {t : List (Ev (Call b.Q) (Reply b.B))} {r : Except DnsError Unit} (hs : b.WF s) (hrun : c.prog.Runs t r)
    (hc : Chain (b.env zenv faulty) t s s') :
    b.Effect c.op c.value (b.owner z n) s s' ∧
      (r = .ok () → b.Post c.op c.value (b.owner z n) faulty s (.ok ()) s') := by
  have h := Fut.wp.of_runs (hb.call_wp hzone c.op c.value (hs _ (hb.owner_txt ..))) hrun hc
  rw [hname] at h
  rcases h with hpost | ⟨-, ⟨e, he⟩, rfl⟩
  · exact ⟨effect_of_post hpost, fun hok => hok ▸ hpost⟩
  · exact ⟨Or.inl rfl, fun hok => by rw [he] at hok; cases hok⟩

section Serially

variable {ι : Type} {zenv : (c : Call b.Q) → Reply b.B c → Prop} {calls : ι → Invocation b}
  {res : ι → Except DnsError Unit} {z n : Str}

theorem Serially.append {o₁ o₂ : List ι} (h : Serially zenv faulty calls res (o₁ ++ o₂) s s') :
    ∃ m, Serially zenv faulty calls res o₁ s m ∧ Serially zenv faulty calls res o₂ m s' := by
  induction o₁ generalizing s with
  | nil => exact ⟨s, .nil s, h⟩
  | cons i o₁ ih =>
    cases h with
    | cons hrun hc hrest =>
      obtain ⟨m, h₁, h₂⟩ := ih hrest
      exact ⟨m, .cons hrun hc h₁, h₂⟩

variable (hb : b.Sound) (hname : ∀ i, normalizeName (calls i).fqdn = n)
  (hzone : ∀ i, b.Resolves zenv false (calls i).cfg (calls i).fqdn z)

include hb hname hzone

/-- Over a whole run: the sets stay well formed, the other names are left alone, and a value stays
where no call cleans it up. -/
theorem Serially.run {order : List ι} (h : Serially zenv faulty calls res order s s') (hs : b.WF s) :
    b.WF s' ∧ (∀ o', o' ≠ b.owner z n → s'.sets o' = s.sets o') ∧
      (∀ x, (∀ i ∈ order, (calls i).op = .cleanup → (calls i).value ≠ x) →
        x ∈ contents (b.valuesAt s (b.owner z n)) → x ∈ contents (b.valuesAt s' (b.owner z n))) := by
  induction h with
  | nil s => exact ⟨hs, fun _ _ => rfl, fun _ _ hx => hx⟩
  | @cons i rest t s s₁ s' hrun hc _ ih =>
    have heff := (hb.effect_of_run (hname i) (hzone i) hs hrun hc).1
    obtain ⟨hwf, hframe, hkeep⟩ := ih (heff.wf hs)
    refine ⟨hwf, fun o' ho => (hframe o' ho).trans (heff.frame ho), fun x hx hmem => ?_⟩
    exact hkeep x (fun j hj => hx j (by simp [hj])) (heff.mem_of_mem hb (hx i (by simp)) hmem)

/-- A value that a call has put there stays, unless a later call cleans it up. -/
theorem Serially.present {o₁ o₂ : List ι} {i : ι} (h : Serially zenv faulty calls res (o₁ ++ i :: o₂) s s')
    (hs : b.WF s) (hop : (calls i).op = .present) (hres : res i = .ok ())
    (hlater : ∀ j ∈ o₂, (calls j).op = .cleanup → (calls j).value ≠ (calls i).value) :
    (calls i).value ∈ contents (b.valuesAt s' (b.owner z n)) := by
  obtain ⟨m, h₁, h₂⟩ := h.append
  have hm := (Serially.run hb hname hzone h₁ hs).1
  cases h₂ with
  | cons hrun hc hrest =>
    obtain ⟨heff, hpost⟩ := hb.effect_of_run (hname i) (hzone i) hm hrun hc
    have hpost := hpost hres
    rw [hop] at hpost
    exact (Serially.run hb hname hzone hrest (heff.wf hm)).2.2 _ hlater (mem_of_present_ok hb hpost)

end Serially

/-! ## Calls whose requests succeed -/

/-- The values in the store are as the provider would write them back. -/
def Canonical (b : Backend) (s : Records b.Set) : Prop :=
  ∀ o, o.rtype = txt → ∀ w ∈ b.valuesAt s o, b.canonical w = w

/-- A call that did what it is for. -/
def Did (b : Backend) (op : Op) (v : Str) (o : Owner) (s s' : Records b.Set) : Prop :=
  (op.apply v (b.valuesAt s o) = b.valuesAt s o ∧ s' = s) ∨
  (op.apply v (b.valuesAt s o) ≠ b.valuesAt s o ∧ ∃ x, s' = s.put o x ∧ b.Written op v o s x)

theorem did_of_post {r : Except DnsError Unit} (h : b.Post op v o false s r s') : b.Did op v o s s' := by
  rcases h with ⟨heq, -, hs⟩ | ⟨hne, -, hx⟩ | ⟨hf, -⟩
  · exact Or.inl ⟨heq, hs⟩
  · exact Or.inr ⟨hne, hx⟩
  · cases hf

theorem Did.effect (h : b.Did op v o s s') : b.Effect op v o s s' := by
  rcases h with ⟨-, hs⟩ | ⟨-, hx⟩
  · exact Or.inl hs
  · exact Or.inr hx

/-- Nothing is sent if there is nothing to do, and one write otherwise. -/
theorem Did.writes (h : b.Did op v o s s') :
    (op.apply v (b.valuesAt s o) = b.valuesAt s o → s' = s) ∧
      (op.apply v (b.valuesAt s o) ≠ b.valuesAt s o → s'.writes = s.writes + 1) := by
  rcases h with ⟨heq, hs⟩ | ⟨hne, x, rfl, -⟩
  · exact ⟨fun _ => hs, fun hne => absurd heq hne⟩
  · exact ⟨fun heq => absurd heq hne, fun _ => rfl⟩

theorem canonical_apply (hb : b.Sound) {values : List Str} (h : ∀ w ∈ values, b.canonical w = w) :
    ∀ w ∈ op.apply v values, b.canonical w = w := by
  intro w hw
  cases op with
  | present =>
    rw [present_apply] at hw
    split at hw
    · exact h w hw
    · rcases List.mem_append.1 hw with hw | hw
      · exact h w hw
      · obtain rfl : w = quote v := by simpa using hw
        exact hb.canonical_quote v
  | cleanup =>
    rw [cleanup_apply] at hw
    exact h w (List.mem_filter.1 hw).1

/-- **The values become what the operation makes of them**; those that stay are not even rewritten. -/
theorem Did.values (hb : b.Sound) (h : b.Did op v o s s') (hc : ∀ w ∈ b.valuesAt s o, b.canonical w = w) :
    b.valuesAt s' o = op.apply v (b.valuesAt s o) := by
  rcases h with ⟨heq, rfl⟩ | ⟨-, x, rfl, hx⟩
  · exact heq.symm
  · rw [valuesAt_written hx]
    conv_rhs => rw [← List.map_id (op.apply v (b.valuesAt s o))]
    exact List.map_congr_left (canonical_apply hb hc)

theorem Did.frame (h : b.Did op v o s s') {o' : Owner} (ho : o' ≠ o) : s'.sets o' = s.sets o' := h.effect.frame ho

theorem Did.ttl (h : b.Did op v o s s') (hb : b.keepsTtl = true) {x y : b.Set} (hx : s.sets o = some x)
    (hy : s'.sets o = some y) : b.ttl y = b.ttl x := by
  rcases h with ⟨-, rfl⟩ | ⟨-, x', rfl, hw⟩
  · rw [hx] at hy
    cases hy
    rfl
  · rw [sets_put_self] at hy
    subst hy
    exact hw.2.2.2 hb x hx

/-- The operations on record sets as lists of values. -/
def act (op : Op) (v : Str) (o : Owner) (m : Owner → List Str) : Owner → List Str :=
  Function.update m o (op.apply v (m o))

theorem Did.refines (hb : b.Sound) (h : b.Did op v o s s') (ho : o.rtype = txt) (hc : b.Canonical s) :
    b.valuesAt s' = act op v o (b.valuesAt s) := by
  funext o'
  by_cases ho' : o' = o
  · subst ho'
    simpa [act] using h.values hb (hc o' ho)
  · simp [act, ho', valuesAt, h.frame ho']

theorem Did.canonical (hb : b.Sound) (h : b.Did op v o s s') (ho : o.rtype = txt) (hc : b.Canonical s) :
    b.Canonical s' := by
  intro o' ho' w hw
  rw [h.refines hb ho hc] at hw
  by_cases hoo : o' = o
  · subst hoo
    exact canonical_apply hb (hc o' ho') w (by simpa [act] using hw)
  · exact hc o' ho' w (by simpa [act, hoo] using hw)

/-- Repeating a call changes nothing. -/
theorem Did.again (hb : b.Sound) (h : b.Did op v o s s') (ho : o.rtype = txt) (hc : b.Canonical s)
    {s'' : Records b.Set} (h' : b.Did op v o s' s'') : s'' = s' := by
  refine h'.writes.1 ?_
  rw [h.values hb (hc o ho)]
  exact apply_apply op v _

/-- A cleanup takes back what the present before it added. -/
theorem Did.undo (hb : b.Sound) (h : b.Did .present v o s s') (ho : o.rtype = txt) (hc : b.Canonical s)
    (hv : holds v (b.valuesAt s o) = false) {s'' : Records b.Set} (h' : b.Did .cleanup v o s' s'') :
    b.valuesAt s'' o = b.valuesAt s o := by
  rw [h'.values hb (h.canonical hb ho hc o ho), h.values hb (hc o ho)]
  exact cleanup_present hv

section

variable {ι : Type} {zenv : (c : Call b.Q) → Reply b.B c → Prop} {calls : ι → Invocation b}
  {res : ι → Except DnsError Unit} {z : Str}

/-- A call that is accepted, on a name of the zone `z`. -/
structure Accepted (zenv : (c : Call b.Q) → Reply b.B c → Prop) (z : Str) (c : Invocation b) : Prop where
  zone : b.Resolves zenv true c.cfg c.fqdn z
  accepted : ¬ b.Refused c.op c.fqdn c.value z

/-- The owner of the record set that a call is about. -/
def Invocation.owner (z : Str) (c : Invocation b) : Owner := b.owner z (normalizeName c.fqdn)

/-- The call runs to its end, with no request failing, and takes `s` to `s'`. -/
def Invocation.Ends (zenv : (c : Call b.Q) → Reply b.B c → Prop) (c : Invocation b) (s s' : Records b.Set) : Prop :=
  ∃ t r, c.prog.Runs t r ∧ Chain (b.env zenv false) t s s'

theorem Accepted.did (hb : b.Sound) {c : Invocation b} (hc : Accepted zenv z c) (hs : b.WF s)
    (h : c.Ends zenv s s') : b.Did c.op c.value (c.owner z) s s' := by
  obtain ⟨t, r, hrun, hchain⟩ := h
  rcases Fut.wp.of_runs (hb.call_wp hc.zone c.op c.value (hs _ (hb.owner_txt ..))) hrun hchain with hpost | ⟨hrefused, -, -⟩
  · exact did_of_post hpost
  · rcases hrefused with htotal | hrefused
    · cases htotal
    · exact absurd hrefused hc.accepted

/-- Without polling, a call that is accepted returns `Ok`. -/
theorem Accepted.exists_ok (hb : b.Sound) (hpolls : b.polls = false) (hz : ∀ c, b.lookup c = true → ∃ r, zenv c r)
    {c : Invocation b} (hc : Accepted zenv z c) (hs : b.WF s) :
    ∃ t s', c.prog.Runs t (.ok ()) ∧ Chain (b.env zenv false) t s s' ∧ b.WF s' := by
  obtain ⟨t, r, s', hrun, hchain⟩ := hb.exists_run hz false c.cfg c.op c.fqdn c.value s
  have hwf := (hc.did hb hs ⟨t, r, hrun, hchain⟩).effect.wf hs
  rcases Fut.wp.of_runs (hb.call_wp hc.zone c.op c.value (hs _ (hb.owner_txt ..))) hrun hchain with hpost | ⟨hrefused, -, -⟩
  · rcases hpost with ⟨-, rfl, -⟩ | ⟨-, hr, -⟩ | ⟨hf, -⟩
    · exact ⟨t, s', hrun, hchain, hwf⟩
    · obtain rfl : r = .ok () := hr.resolve_right (by simp [hpolls])
      exact ⟨t, s', hrun, hchain, hwf⟩
    · cases hf
  · rcases hrefused with htotal | hrefused
    · cases htotal
    · exact absurd hrefused hc.accepted

/-- **A sequence of calls refines the operations on lists of values.** -/
theorem Serially.refines (hb : b.Sound) (hcalls : ∀ i, Accepted zenv z (calls i)) {order : List ι}
    (h : Serially zenv false calls res order s s') (hs : b.WF s) (hc : b.Canonical s) :
    b.WF s' ∧ b.Canonical s' ∧
      b.valuesAt s' = order.foldl (fun m i => act (calls i).op (calls i).value ((calls i).owner z) m) (b.valuesAt s) := by
  induction h with
  | nil s => exact ⟨hs, hc, rfl⟩
  | @cons i rest t s s₁ s' hrun hchain _ ih =>
    have hdid := (hcalls i).did hb hs ⟨t, _, hrun, hchain⟩
    have ho : ((calls i).owner z).rtype = txt := hb.owner_txt ..
    obtain ⟨hwf, hcan, hvalues⟩ := ih (hdid.effect.wf hs) (hdid.canonical hb ho hc)
    refine ⟨hwf, hcan, ?_⟩
    rw [hvalues, hdid.refines hb ho hc]
    rfl

end

end Cheti.Backend
