import Cheti.Names
/-!
# The zone of a name (src/dns/zone.rs)

| here | there |
| --- | --- |
| `Resolver`, `sharedResolver` as an argument | `TokioResolver::lookup` with `RecordType::SOA`, `shared_resolver` (zone.rs:11-21) |
| `walkUp`, `findZone` | `find_zone` (zone.rs:31-55), its loop |
| `splitOnce`          | `str::split_once` |

`find_zone` asks for the SOA record of the name, then of the name without its first label, and so on, and
takes the first name for which the answer is not empty. An answer may be there because the name is an
alias, and then has no SOA record of that name. `findZone_closest_iff` says when the result is the closest
enclosing zone all the same: when no alias comes before it.
-/

namespace Cheti.Dns

inductive RecordType where
  | soa
  | cname
  | other (code : Nat)
deriving DecidableEq

structure Record where
  owner : Str
  rtype : RecordType
deriving DecidableEq

/-- The answers to an SOA query for a name, or why there are none. -/
abbrev Resolver := Str → Except String (List Record)

def splitOnce (c : Char) : Str → Option (Str × Str)
  | [] => none
  | x :: s => if x = c then some ([], s) else (splitOnce c s).map fun p => (x :: p.1, p.2)

/-- The lookup succeeds, and its answer is not empty. -/
def Answered (resolver : Resolver) (name : Str) : Bool :=
  match resolver name with
  | .ok answers => !answers.isEmpty
  | .error _ => false

/-- One iteration of the loop: a result, or the next candidate. -/
def iteration (resolver : Resolver) (fqdn candidate : Str) : Except DnsError Str ⊕ Str :=
  if candidate.isEmpty || !candidate.contains '.' then .inl (.error (.zoneNotFound fqdn))
  else if Answered resolver candidate then .inl (.ok candidate)
  else
    match splitOnce '.' candidate with
    | none => .inl (.error (.zoneNotFound fqdn))
    | some (_, rest) =>
      if rest.isEmpty || rest.head? == some '.' then .inl (.error (.zoneNotFound fqdn)) else .inr rest

/-- The loop, for at most `fuel` iterations. -/
def walkUp (resolver : Resolver) (fqdn : Str) : Nat → Str → Option (Except DnsError Str)
  | 0, _ => none
  | fuel + 1, candidate =>
    match iteration resolver fqdn candidate with
    | .inl r => some r
    | .inr rest => walkUp resolver fqdn fuel rest

def findZone (sharedResolver : Except DnsError Resolver) (fqdn : Str) (fuel : Nat) : Option (Except DnsError Str) :=
  match sharedResolver with
  | .error e => some (.error e)
  | .ok resolver => walkUp resolver fqdn fuel (trimDots fqdn)

/-! ## Termination -/

theorem count_splitOnce {c : Char} : ∀ {s first rest : Str}, splitOnce c s = some (first, rest) →
    rest.count c < s.count c
  | x :: s, first, rest, h => by
    unfold splitOnce at h
    split at h
    · rename_i hx
      cases h
      simp [hx]
    · rename_i hx
      obtain ⟨⟨first', rest'⟩, hs, he⟩ := Option.map_eq_some_iff.1 h
      cases he
      have := count_splitOnce hs
      simpa [hx] using this

theorem count_iteration {resolver : Resolver} {fqdn candidate rest : Str}
    (h : iteration resolver fqdn candidate = .inr rest) : rest.count '.' < candidate.count '.' := by
  unfold iteration at h
  split at h
  · cases h
  · split at h
    · cases h
    · split at h
      · cases h
      · rename_i hsplit
        split at h
        · cases h
        · cases h
          exact count_splitOnce hsplit

/-- Every candidate has a dot less than the one before, so the loop ends. -/
theorem walkUp_terminates (resolver : Resolver) (fqdn : Str) :
    ∀ (n : Nat) (candidate : Str), candidate.count '.' < n →
      ∃ r, ∀ fuel, n ≤ fuel → walkUp resolver fqdn fuel candidate = some r
  | n + 1, candidate, hcount => by
    cases hi : iteration resolver fqdn candidate with
    | inl r =>
      refine ⟨r, fun fuel hfuel => ?_⟩
      obtain ⟨m, rfl⟩ := Nat.exists_eq_add_of_le' (Nat.le_of_add_left_le hfuel)
      simp [walkUp, hi]
    | inr rest =>
      have hrest : rest.count '.' < n := Nat.lt_of_lt_of_le (count_iteration hi) (Nat.le_of_lt_succ hcount)
      obtain ⟨r, hr⟩ := walkUp_terminates resolver fqdn n rest hrest
      refine ⟨r, fun fuel hfuel => ?_⟩
      obtain ⟨m, rfl⟩ := Nat.exists_eq_add_of_le' (Nat.le_of_add_left_le hfuel)
      simp only [walkUp, hi]
      exact hr m (Nat.le_of_succ_le_succ hfuel)

/-! ## The result -/

/-- What a walk over the candidates makes of the first that is answered. -/
def firstAnswered (resolver : Resolver) (fqdn : Str) (labels : List Str) : Except DnsError Str :=
  match (suffixes labels).find? (Answered resolver) with
  | some zone => .ok zone
  | none => .error (.zoneNotFound fqdn)

theorem splitOnce_append {c : Char} : ∀ {l : Str} (s : Str), c ∉ l → splitOnce c (l ++ c :: s) = some (l, s)
  | [], s, _ => by simp [splitOnce]
  | x :: l, s, h => by
    have hx : x ≠ c := fun he => h (by simp [he])
    have hl : c ∉ l := fun hc => h (List.mem_cons_of_mem _ hc)
    simp [splitOnce, hx, splitOnce_append s hl]

/-- The loop goes through the suffixes of the name. -/
theorem walkUp_joinDots (resolver : Resolver) (fqdn : Str) :
    ∀ (labels : List Str), IsLabels labels → ∀ fuel, labels.length ≤ fuel →
      walkUp resolver fqdn fuel (joinDots labels) = some (firstAnswered resolver fqdn labels)
  | [], h, _, _ => absurd rfl h.ne_nil
  | [l], h, fuel + 1, _ => by
    have hl : ¬ ('.' ∈ l) := h.dotless l (by simp)
    simp [walkUp, iteration, joinDots, firstAnswered, suffixes, hl]
  | l :: l' :: rest, h, fuel + 1, hfuel => by
    have hrest : IsLabels (l' :: rest) := h.tail
    have hl : '.' ∉ l := h.dotless l (by simp)
    obtain ⟨x, s, hxs, hx⟩ := head_joinDots hrest
    have hname : joinDots (l :: l' :: rest) = l ++ '.' :: joinDots (l' :: rest) := joinDots_cons l l' rest
    have hcand : ((joinDots (l :: l' :: rest)).isEmpty || !(joinDots (l :: l' :: rest)).contains '.') = false := by
      simp [hname]
    cases ha : Answered resolver (joinDots (l :: l' :: rest)) with
    | true =>
      have hstep : iteration resolver fqdn (joinDots (l :: l' :: rest)) = .inl (.ok (joinDots (l :: l' :: rest))) := by
        simp only [iteration, hcand, ha, Bool.false_eq_true, if_false, if_true]
      simp [walkUp, hstep, firstAnswered, suffixes, ha]
    | false =>
      have hstep : iteration resolver fqdn (joinDots (l :: l' :: rest)) = .inr (joinDots (l' :: rest)) := by
        simp only [iteration, hcand, ha]
        rw [hname, splitOnce_append _ hl]
        simp [hxs, hx]
      have hfirst : firstAnswered resolver fqdn (l :: l' :: rest) = firstAnswered resolver fqdn (l' :: rest) := by
        simp [firstAnswered, suffixes, ha]
      rw [walkUp, hstep, hfirst]
      exact walkUp_joinDots resolver fqdn (l' :: rest) hrest fuel (Nat.le_of_succ_le_succ hfuel)

/-- The name without its trailing dots and its first `k` labels. -/
def suffixAt (fqdn : Str) (k : Nat) : Str := joinDots (((trimDots fqdn).splitOn '.').drop k)

/-- It has at least two labels. -/
def IsSuffix (fqdn : Str) (k : Nat) : Prop := k + 2 ≤ ((trimDots fqdn).splitOn '.').length

/-- The answer for the name has an SOA record that the name owns. -/
def OwnSoa (resolver : Resolver) (name : Str) : Prop :=
  ∃ answers, resolver name = .ok answers ∧ ∃ r ∈ answers, r.rtype = .soa ∧ normalizeName r.owner = normalizeName name

theorem OwnSoa.answered {resolver : Resolver} {name : Str} (h : OwnSoa resolver name) : Answered resolver name = true := by
  obtain ⟨answers, hok, r, hr, -⟩ := h
  have hne : answers ≠ [] := List.ne_nil_of_mem hr
  simp [Answered, hok, hne]

/-- The result is the closest enclosing zone. -/
structure Closest (resolver : Resolver) (fqdn : Str) (r : Except DnsError Str) : Prop where
  found : ∀ z, r = .ok z → ∃ k, IsSuffix fqdn k ∧ z = suffixAt fqdn k ∧ OwnSoa resolver z ∧
    ∀ j < k, ¬ OwnSoa resolver (suffixAt fqdn j)
  notFound : r = .error (.zoneNotFound fqdn) ↔ ∀ k, IsSuffix fqdn k → ¬ OwnSoa resolver (suffixAt fqdn k)

/-- A suffix that is answered has an SOA record of its own, or a longer one has. -/
def NoAliasBefore (resolver : Resolver) (fqdn : Str) : Prop :=
  ∀ k, IsSuffix fqdn k → Answered resolver (suffixAt fqdn k) = true →
    OwnSoa resolver (suffixAt fqdn k) ∨ ∃ j < k, OwnSoa resolver (suffixAt fqdn j)

theorem suffixAt_of_lt {fqdn : Str} {k : Nat} (h : k < (suffixes ((trimDots fqdn).splitOn '.')).length) :
    IsSuffix fqdn k ∧ (suffixes ((trimDots fqdn).splitOn '.'))[k] = suffixAt fqdn k := by
  have hget := getElem?_suffixes ((trimDots fqdn).splitOn '.') k
  rw [List.getElem?_eq_getElem h] at hget
  split at hget
  · rename_i hk
    exact ⟨hk, Option.some.inj hget⟩
  · cases hget

theorem suffixAt_mem {fqdn : Str} {k : Nat} (h : IsSuffix fqdn k) :
    suffixAt fqdn k ∈ suffixes ((trimDots fqdn).splitOn '.') := by
  refine List.mem_of_getElem? (i := k) ?_
  exact (getElem?_suffixes _ k).trans (if_pos h)

/-- The first suffix that is answered, in terms of positions. -/
theorem firstAnswered_cases (resolver : Resolver) (fqdn : Str) :
    (∃ k, IsSuffix fqdn k ∧ Answered resolver (suffixAt fqdn k) = true ∧
      (∀ j < k, Answered resolver (suffixAt fqdn j) = false) ∧
      firstAnswered resolver fqdn ((trimDots fqdn).splitOn '.') = .ok (suffixAt fqdn k)) ∨
    ((∀ k, IsSuffix fqdn k → Answered resolver (suffixAt fqdn k) = false) ∧
      firstAnswered resolver fqdn ((trimDots fqdn).splitOn '.') = .error (.zoneNotFound fqdn)) := by
  unfold firstAnswered
  cases hfind : (suffixes ((trimDots fqdn).splitOn '.')).find? (Answered resolver) with
  | some z =>
    obtain ⟨hans, k, hk, rfl, hbefore⟩ := List.find?_eq_some_iff_getElem.1 hfind
    have hz := suffixAt_of_lt hk
    refine Or.inl ⟨k, hz.1, hz.2 ▸ hans, fun j hj => ?_, by rw [hz.2]⟩
    have hj' := hbefore j hj
    rw [(suffixAt_of_lt (hj.trans hk)).2] at hj'
    simpa using hj'
  | none =>
    refine Or.inr ⟨fun k hk => ?_, rfl⟩
    simpa using List.find?_eq_none.1 hfind _ (suffixAt_mem hk)

theorem closest_firstAnswered_iff (resolver : Resolver) (fqdn : Str) :
    Closest resolver fqdn (firstAnswered resolver fqdn ((trimDots fqdn).splitOn '.')) ↔ NoAliasBefore resolver fqdn := by
  rcases firstAnswered_cases resolver fqdn with ⟨k, hk, hans, hbefore, hr⟩ | ⟨hnone, hr⟩
  · have hearlier : ∀ j < k, ¬ OwnSoa resolver (suffixAt fqdn j) := fun j hj hown => by
      simpa [hbefore j hj] using hown.answered
    rw [hr]
    constructor
    · intro h i hi hansi
      by_cases hik : i < k
      · rw [hbefore i hik] at hansi
        cases hansi
      · obtain ⟨k', -, hk', hown, -⟩ := h.found _ rfl
        rcases Nat.lt_or_eq_of_le (Nat.le_of_not_lt hik) with hlt | rfl
        · exact Or.inr ⟨k, hlt, hown⟩
        · exact Or.inl hown
    · intro h
      have hown : OwnSoa resolver (suffixAt fqdn k) :=
        (h k hk hans).resolve_right fun ⟨j, hj, hown⟩ => hearlier j hj hown
      refine ⟨fun z hz => ?_, ?_⟩
      · cases hz
        exact ⟨k, hk, rfl, hown, hearlier⟩
      · simp only [reduceCtorEq, false_iff, not_forall, not_not]
        exact ⟨k, hk, hown⟩
  · have hno : ∀ k, IsSuffix fqdn k → ¬ OwnSoa resolver (suffixAt fqdn k) := fun k hk hown => by
      simpa [hnone k hk] using hown.answered
    rw [hr]
    refine iff_of_true ⟨nofun, iff_of_true rfl hno⟩ fun k hk hans => ?_
    rw [hnone k hk] at hans
    cases hans

/-- No label is empty, apart from what trailing dots make. -/
def NoEmptyLabels (fqdn : Str) : Prop := trimDots fqdn = [] ∨ ∀ l ∈ (trimDots fqdn).splitOn '.', l ≠ []

theorem findZone_eq {resolver : Resolver} {fqdn : Str} (h : NoEmptyLabels fqdn) {fuel : Nat}
    (hfuel : (trimDots fqdn).count '.' < fuel) :
    findZone (.ok resolver) fqdn fuel = some (firstAnswered resolver fqdn ((trimDots fqdn).splitOn '.')) := by
  rcases h with h | h
  · obtain ⟨n, rfl⟩ := Nat.exists_eq_add_of_lt hfuel
    simp [findZone, walkUp, iteration, firstAnswered, suffixes, h]
  · have hlabels : IsLabels ((trimDots fqdn).splitOn '.') := ⟨List.splitOn_ne_nil _ _, dotless_splitOn _, h⟩
    have hwalk := walkUp_joinDots resolver fqdn _ hlabels fuel (by rw [length_splitOn]; exact hfuel)
    rwa [joinDots_splitOn] at hwalk

/-- **The closest enclosing zone.** Whatever the resolver answers, `find_zone` ends, after at most one
lookup for each dot of the name; and its result is the closest enclosing zone exactly when no suffix of the
name that is longer than it is answered without an SOA record of its own, as an alias is. -/
theorem findZone_closest_iff (resolver : Resolver) (fqdn : Str) :
    ∃ r, (∀ fuel, (trimDots fqdn).count '.' < fuel → findZone (.ok resolver) fqdn fuel = some r) ∧
      (NoEmptyLabels fqdn → (Closest resolver fqdn r ↔ NoAliasBefore resolver fqdn)) := by
  obtain ⟨r, hr⟩ := walkUp_terminates resolver fqdn _ (trimDots fqdn) (Nat.lt_succ_self _)
  refine ⟨r, hr, fun h => ?_⟩
  have hfirst : some r = some (firstAnswered resolver fqdn ((trimDots fqdn).splitOn '.')) :=
    (hr _ le_rfl).symm.trans (findZone_eq h (Nat.lt_succ_self _))
  rw [Option.some.inj hfirst]
  exact closest_firstAnswered_iff resolver fqdn

/-! ## Aliases -/

/-- An answer as a resolver gives it: the name's SOA record; or its alias and the answer for the target. -/
inductive Answer : Str → List Record → Prop where
  | empty (name : Str) : Answer name []
  | soa (name : Str) : Answer name [⟨name, .soa⟩]
  | alias {name target : Str} {answers : List Record} (h : Answer target answers) :
      Answer name (⟨name, .cname⟩ :: answers)

/-- `www.a.org` is an alias of the zone `a.org`. -/
def wwwResolver : Resolver := fun name =>
  if name = "www.a.org".toList then .ok [⟨"www.a.org".toList, .cname⟩, ⟨"a.org".toList, .soa⟩]
  else if name = "a.org".toList then .ok [⟨"a.org".toList, .soa⟩]
  else .error "no such name"

theorem wwwResolver_answer {name : Str} {answers : List Record} (h : wwwResolver name = .ok answers) :
    Answer name answers := by
  unfold wwwResolver at h
  split at h
  · rename_i hname
    cases h
    exact hname ▸ .alias (.soa _)
  · split at h
    · rename_i hname
      cases h
      exact hname ▸ .soa _
    · cases h

theorem wwwResolver_own : OwnSoa wwwResolver "a.org".toList := ⟨_, rfl, ⟨"a.org".toList, .soa⟩, by decide, by decide⟩

/-- `_acme-challenge.a.org` is not answered: the walk goes up to the zone. -/
theorem findZone_closest_iff_parent :
    let fqdn := "_acme-challenge.a.org.".toList
    NoEmptyLabels fqdn ∧ ∃ r, findZone (.ok wwwResolver) fqdn 3 = some r ∧ r = .ok "a.org".toList ∧
      Closest wwwResolver fqdn r := by
  intro fqdn
  have hlabels : NoEmptyLabels fqdn := Or.inr (by decide)
  refine ⟨hlabels, ?_⟩
  obtain ⟨r, hr, hiff⟩ := findZone_closest_iff wwwResolver fqdn
  have hfound : findZone (.ok wwwResolver) fqdn 3 = some (.ok "a.org".toList) := by decide
  have hr₃ := hr 3 (by decide)
  refine ⟨r, hr₃, Option.some.inj (hr₃.symm.trans hfound), (hiff hlabels).2 fun k hk hans => ?_⟩
  have hk2 : k = 0 ∨ k = 1 := by
    have h3 : ((trimDots fqdn).splitOn '.').length = 3 := by decide
    unfold IsSuffix at hk
    omega
  rcases hk2 with rfl | rfl
  · exact absurd hans (by decide)
  · exact Or.inl wwwResolver_own

/-- The zone of `www.a.org` is `a.org`, but `find_zone` takes the alias for a zone. -/
theorem findZone_takes_alias : (∀ name answers, wwwResolver name = .ok answers → Answer name answers) ∧
    findZone (.ok wwwResolver) "www.a.org".toList 3 = some (.ok "www.a.org".toList) ∧
    ¬ OwnSoa wwwResolver "www.a.org".toList ∧ OwnSoa wwwResolver "a.org".toList := by
  refine ⟨fun _ _ => wwwResolver_answer, by decide, ?_, wwwResolver_own⟩
  rintro ⟨answers, hok, r, hr, hsoa, hown⟩
  cases hok
  revert hsoa hown
  rcases List.mem_cons.1 hr with rfl | hr
  · decide
  · rw [List.mem_singleton.1 hr]
    decide

end Cheti.Dns
