import Cheti.Base.Wp
import Cheti.Labels
import Cheti.Solver
/-!
# Waiting for a record to be visible (src/dns/propagation.rs)

| here | there |
| --- | --- |
| `Ask`, `Answer`          | what `poll_until_all_confirm` awaits: the checks, the clock, sleeps |
| `askAll`                 | its `for target in pending` loop |
| `pollUntilAllConfirm`    | `poll_until_all_confirm` (propagation.rs:53-88), its outer loop `pollFrom` |
| `servesValue`            | `serves_value` (propagation.rs:90-100) on the answer of the lookup |

The outer loop of the source is bounded by the clock only. Here it is given a number of rounds, and `none`
is its result when it would begin one more. Targets are any type; where a target has to be told from an
equal one, it comes with its place in the list.
-/

namespace Cheti.Propagation

open Fut (Env Chain wp wp_await wp_bind wp_done)
open Solver (PropagationTiming)

/-! ## Polling -/

inductive Ask (T : Type) where
  /-- `check(&target).await` -/
  | check (target : T)
  /-- `Instant::now()` -/
  | now
  | sleep (d : Duration)

abbrev Answer {T : Type} : Ask T → Type
  | .check _ => Bool
  | .now => Duration
  | .sleep _ => Unit

variable {T : Type}

/-- Every pending target is asked, and those that do not confirm are pushed to `still_pending`. -/
def askAll (stillPending : List T) : List T → Fut Unit (Ask T) Answer (List T)
  | [] => .done stillPending
  | target :: pending => .await (some ()) (.check target) fun confirmed =>
      askAll (if !confirmed then stillPending ++ [target] else stillPending) pending

def pollFrom (fqdn : Str) (timing : PropagationTiming) (start : Duration) :
    Nat → List T → Fut Unit (Ask T) Answer (Option (Except DnsError Unit))
  | 0, _ => .done none
  | rounds + 1, pending =>
    (askAll [] pending).bind fun pending =>
      if pending.isEmpty then .done (some (.ok ()))
      else .await none .now fun now =>
        if now - start ≥ timing.timeout then
          .done (some (.error (.propagationTimeout fqdn (timing.timeout / secs 1))))
        else .await (some ()) (.sleep timing.interval) fun _ => pollFrom fqdn timing start rounds pending

def pollUntilAllConfirm (rounds : Nat) (targets : List T) (fqdn : Str) (timing : PropagationTiming) :
    Fut Unit (Ask T) Answer (Option (Except DnsError Unit)) :=
  .await none .now fun start => pollFrom fqdn timing start rounds targets

/-! ## What is asked, and when -/

/-- A target with its place in the list. -/
abbrev Slot (T : Type) := T × Nat

structure World (T : Type) where
  now : Duration
  /-- The checks made and what came back, the earliest first. -/
  log : List (Slot T × Bool)
  /-- When the last of them was answered. -/
  answered : Duration

/-- How often the target at place `p` has been asked. -/
def asked (p : Nat) (log : List (Slot T × Bool)) : Nat := (log.map (·.1.2)).count p

/-- The target at place `p` gives `answer p n` the `n`th time (from 0) it is asked. A check takes any time, the
clock never goes back, and a sleep lasts at least as long as it should. -/
def world (answer : Nat → Nat → Bool) : Env (Ask (Slot T)) Answer (World T)
  | .check target, b, w, w' => b = answer target.2 (asked target.2 w.log) ∧ w'.log = w.log ++ [(target, b)] ∧
      w.now ≤ w'.now ∧ w'.answered = w'.now
  | .now, t, w, w' => t = w.now ∧ w.now ≤ w'.now ∧ w'.log = w.log ∧ w'.answered = w.answered
  | .sleep d, _, w, w' => w.now + d ≤ w'.now ∧ w'.log = w.log ∧ w'.answered = w.answered

/-- The targets that have answered `false` each of the first `k` times. -/
def unconfirmed (targets : List T) (answer : Nat → Nat → Bool) (k : Nat) : List (Slot T) :=
  targets.zipIdx.filter fun target => (List.range k).all fun j => !answer target.2 j

/-- Round `k` (from 0): each target not yet confirmed is asked once, in the order of the list. -/
def round (targets : List T) (answer : Nat → Nat → Bool) (k : Nat) : List (Slot T × Bool) :=
  (unconfirmed targets answer k).map fun target => (target, answer target.2 k)

section Rounds

variable {targets : List T} {answer : Nat → Nat → Bool} {k : Nat}

@[simp] theorem mem_unconfirmed {target : Slot T} :
    target ∈ unconfirmed targets answer k ↔ target ∈ targets.zipIdx ∧ ∀ j < k, answer target.2 j = false := by
  simp [unconfirmed]

@[simp] theorem unconfirmed_zero : unconfirmed targets answer 0 = targets.zipIdx := by
  simp [unconfirmed]

/-- A round leaves those that answered `false` in it too. -/
theorem unconfirmed_succ :
    unconfirmed targets answer (k + 1) = (unconfirmed targets answer k).filter fun target => !answer target.2 k := by
  simp only [unconfirmed, List.filter_filter, List.range_succ, List.all_append, List.all_cons, List.all_nil,
    Bool.and_true]
  congr 1
  funext target
  exact Bool.and_comm _ _

theorem nodup_places : ((unconfirmed targets answer k).map Prod.snd).Nodup := by
  refine List.Nodup.sublist (List.filter_sublist.map Prod.snd) ?_
  rw [List.zipIdx_map_snd]
  exact List.nodup_range'

theorem asked_append (p : Nat) (log log' : List (Slot T × Bool)) : asked p (log ++ log') = asked p log + asked p log' := by
  simp [asked]

theorem asked_round {target : Slot T} (h : target ∈ unconfirmed targets answer k) :
    asked target.2 (round targets answer k) = 1 := by
  have hplaces : (round targets answer k).map (·.1.2) = (unconfirmed targets answer k).map Prod.snd := by
    simp [round]
  rw [asked, hplaces]
  exact List.count_eq_one_of_mem nodup_places (List.mem_map_of_mem h)

/-- A target that is still pending has been asked once in every round. -/
theorem asked_rounds {target : Slot T} : ∀ {k : Nat}, target ∈ unconfirmed targets answer k →
    asked target.2 ((List.range k).flatMap (round targets answer)) = k
  | 0, _ => by simp [asked]
  | k + 1, h => by
    have hbefore : target ∈ unconfirmed targets answer k := by
      rw [unconfirmed_succ] at h
      exact List.mem_of_mem_filter h
    rw [List.range_succ, List.flatMap_append, asked_append, asked_rounds hbefore]
    simp [asked_round hbefore]

theorem wp_askAll (k : Nat) : ∀ (pending still : List (Slot T)) (w : World T), (pending.map Prod.snd).Nodup →
    (∀ target ∈ pending, asked target.2 w.log = k) →
    wp (fun _ _ => True) (world answer) (askAll still pending) (fun l w' =>
      l = still ++ pending.filter (fun target => !answer target.2 k) ∧
      w'.log = w.log ++ pending.map (fun target => (target, answer target.2 k)) ∧
      w.now ≤ w'.now ∧ (pending ≠ [] ∨ w.answered = w.now → w'.answered = w'.now)) w
  | [], still, w, _, _ => by simp [askAll]
  | target :: pending, still, w, hnodup, hasked => by
    rw [askAll, wp_await]
    refine ⟨trivial, ?_⟩
    rintro b w₁ ⟨rfl, hlog, hnow, hanswered⟩
    rw [List.map_cons, List.nodup_cons] at hnodup
    have hb : asked target.2 w.log = k := hasked target List.mem_cons_self
    -- the others have not been asked in between
    have hasked₁ : ∀ t ∈ pending, asked t.2 w₁.log = k := by
      intro t ht
      have hne : target.2 ≠ t.2 := fun he => hnodup.1 (he ▸ List.mem_map_of_mem ht)
      rw [hlog, asked_append, hasked t (List.mem_cons_of_mem _ ht)]
      simp [asked, hne]
    refine Fut.wp_mono (wp_askAll k pending _ w₁ hnodup.2 hasked₁) ?_
    rintro l w' ⟨rfl, hlog', hnow', hanswered'⟩
    rw [hb]
    refine ⟨?_, ?_, hnow.trans hnow', fun _ => hanswered' (Or.inr hanswered)⟩
    · cases hk : answer target.2 k <;> simp [hk]
    · rw [hlog', hlog, hb]
      simp

theorem unconfirmed_eq_nil :
    unconfirmed targets answer k = [] ↔ ∀ p < targets.length, ∃ j < k, answer p j = true := by
  rw [List.eq_nil_iff_forall_not_mem]
  constructor
  · intro h p hp
    by_contra hne
    push Not at hne
    refine h (targets[p], p) (mem_unconfirmed.2 ⟨?_, fun j hj => by simpa using hne j hj⟩)
    rw [List.mem_zipIdx_iff_getElem?]
    exact List.getElem?_eq_getElem hp
  · rintro h ⟨target, p⟩ hmem
    obtain ⟨hmem, hfalse⟩ := mem_unconfirmed.1 hmem
    obtain ⟨j, hj, htrue⟩ := h p (List.snd_lt_of_mem_zipIdx hmem)
    have hj' := hfalse j hj
    simp only [htrue, Bool.true_eq_false] at hj'

end Rounds

/-! ## The loop -/

section Loop

variable {targets : List T} {answer : Nat → Nat → Bool} {fqdn : Str} {timing : PropagationTiming}
  {start : Duration} {limit : Nat}

/-- Before round `k`: what has been asked, that it was not enough, and how far the clock is. -/
structure Waiting (targets : List T) (answer : Nat → Nat → Bool) (timing : PropagationTiming) (start : Duration)
    (k : Nat) (w : World T) : Prop where
  log : w.log = (List.range k).flatMap (round targets answer)
  pending : ∀ m, 0 < m → m ≤ k → unconfirmed targets answer m ≠ []
  slept : start + k * timing.interval ≤ w.now
  early : 0 < timing.interval → k * timing.interval < timing.timeout + timing.interval

/-- After `n` rounds, the last one. -/
structure Ended (targets : List T) (answer : Nat → Nat → Bool) (fqdn : Str) (timing : PropagationTiming)
    (start : Duration) (limit n : Nat) (result : Option (Except DnsError Unit)) (w : World T) : Prop where
  log : w.log = (List.range n).flatMap (round targets answer)
  ok : result = some (.ok ()) ↔ ∃ m, 0 < m ∧ m ≤ n ∧ unconfirmed targets answer m = []
  error : ∀ e, result = some (.error e) → e = .propagationTimeout fqdn (timing.timeout / secs 1) ∧
    start + timing.timeout ≤ w.answered ∧ unconfirmed targets answer n ≠ []
  within : n ≤ limit ∧ (0 < limit → 0 < n)
  unfinished : result = none → n = limit
  bounded : 0 < timing.interval → n ≤ 1 + timing.timeout ⌈/⌉ timing.interval ∧
    (result = none → n ≤ timing.timeout ⌈/⌉ timing.interval)

/-- A wait of `k` intervals, the last of them begun before the timeout. -/
theorem le_ceilDiv {k interval timeout : Nat} (hpos : 0 < interval) (h : k * interval < timeout + interval) :
    k ≤ timeout ⌈/⌉ interval := by
  have hceil : timeout ≤ interval * (timeout ⌈/⌉ interval) := (ceilDiv_le_iff_le_mul hpos).1 le_rfl
  by_contra hlt
  have hmul : interval * (timeout ⌈/⌉ interval + 1) ≤ interval * k := Nat.mul_le_mul_left _ (by omega)
  rw [Nat.mul_succ] at hmul
  rw [Nat.mul_comm] at h
  omega

/-- One more interval, begun before the timeout. -/
theorem early_succ {k interval timeout start now : Nat} (hslept : start + k * interval ≤ now)
    (h : ¬ now - start ≥ timeout) : (k + 1) * interval < timeout + interval := by
  rw [Nat.succ_mul]
  omega

theorem slept_succ {k interval start now later : Nat} (hslept : start + k * interval ≤ now)
    (h : now + interval ≤ later) : start + (k + 1) * interval ≤ later := by
  rw [Nat.succ_mul]
  omega

theorem Waiting.bounded {k : Nat} {w : World T} (h : Waiting targets answer timing start k w)
    (hpos : 0 < timing.interval) : k ≤ timing.timeout ⌈/⌉ timing.interval := le_ceilDiv hpos (h.early hpos)

theorem wp_pollFrom : ∀ (rounds k : Nat) (w : World T), k + rounds = limit →
    Waiting targets answer timing start k w →
    wp (fun _ _ => True) (world answer) (pollFrom fqdn timing start rounds (unconfirmed targets answer k))
      (fun result w' => ∃ n, Ended targets answer fqdn timing start limit n result w') w
  | 0, k, w, hlimit, h => by
    refine ⟨k, h.log, ?_, nofun, by omega, fun _ => hlimit, fun hpos => ?_⟩
    · simp only [reduceCtorEq, false_iff]
      rintro ⟨m, hm, hmk, hnil⟩
      exact h.pending m hm hmk hnil
    · exact ⟨(h.bounded hpos).trans (Nat.le_add_left _ _), fun _ => h.bounded hpos⟩
  | rounds + 1, k, w, hlimit, h => by
    rw [pollFrom, wp_bind]
    have hasked : ∀ target ∈ unconfirmed targets answer k, asked target.2 w.log = k := by
      intro target ht
      rw [h.log]
      exact asked_rounds ht
    refine Fut.wp_mono (wp_askAll k _ [] w nodup_places hasked) ?_
    rintro l w₁ ⟨rfl, hlog, hnow, hanswered⟩
    rw [List.nil_append, ← unconfirmed_succ]
    have hlog₁ : w₁.log = (List.range (k + 1)).flatMap (round targets answer) := by
      rw [hlog, h.log, List.range_succ, List.flatMap_append]
      simp [round]
    have hbounded : 0 < timing.interval → k + 1 ≤ 1 + timing.timeout ⌈/⌉ timing.interval := by
      intro hpos
      have := h.bounded hpos
      omega
    by_cases hnil : unconfirmed targets answer (k + 1) = []
    · rw [if_pos (by simp [hnil])]
      refine ⟨k + 1, hlog₁, ?_, nofun, by omega, nofun, fun hpos => ⟨hbounded hpos, nofun⟩⟩
      exact ⟨fun _ => ⟨k + 1, Nat.succ_pos k, le_rfl, hnil⟩, fun _ => rfl⟩
    · rw [if_neg (by simpa using hnil)]
      have hpending : ∀ m, 0 < m → m ≤ k + 1 → unconfirmed targets answer m ≠ [] := by
        intro m hm hmk
        rcases Nat.lt_or_eq_of_le hmk with hlt | rfl
        · exact h.pending m hm (by omega)
        · exact hnil
      -- some target is pending after the round, so it was asked in it
      have hsome : unconfirmed targets answer k ≠ [] := by
        intro he
        rw [unconfirmed_succ, he] at hnil
        exact hnil rfl
      have hat : w₁.answered = w₁.now := hanswered (Or.inl hsome)
      refine ⟨trivial, ?_⟩
      rintro now w₂ ⟨rfl, hnow₂, hlog₂, hat₂⟩
      by_cases hlate : w₁.now - start ≥ timing.timeout
      · simp only [if_pos hlate]
        refine ⟨k + 1, hlog₂.trans hlog₁, ?_, ?_, by omega, nofun,
          fun hpos => ⟨hbounded hpos, nofun⟩⟩
        · simp only [Option.some.injEq, reduceCtorEq, false_iff]
          rintro ⟨m, hm, hmk, hm'⟩
          exact hpending m hm hmk hm'
        · rintro e he
          cases he
          have hstart : start ≤ w₁.now := (Nat.le_add_right _ _).trans (h.slept.trans hnow)
          refine ⟨rfl, ?_, hnil⟩
          rw [hat₂, hat, Nat.add_comm]
          exact (Nat.le_sub_iff_add_le hstart).1 hlate
      · simp only [if_neg hlate]
        refine ⟨trivial, ?_⟩
        rintro _ w₃ ⟨hnow₃, hlog₃, -⟩
        have hslept : start + k * timing.interval ≤ w₁.now := h.slept.trans hnow
        refine wp_pollFrom rounds (k + 1) w₃ (by omega) ⟨?_, hpending, ?_, fun hpos => ?_⟩
        · exact hlog₃.trans (hlog₂.trans hlog₁)
        · exact slept_succ (hslept.trans hnow₂) hnow₃
        · exact early_succ hslept hlate

/-- **Polling waits for every target and asks none needlessly.** In every run, `n` rounds were made in which
exactly the targets without a `true` answer so far were asked, once each and in order. -/
theorem pollUntilAllConfirm_asks (targets : List T) (answer : Nat → Nat → Bool) (fqdn : Str)
    (timing : PropagationTiming) (limit : Nat) (start : Duration) {t : List (Fut.Ev (Ask (Slot T)) Answer)}
    {result : Option (Except DnsError Unit)} {w : World T}
    (hrun : (pollUntilAllConfirm limit targets.zipIdx fqdn timing).Runs t result)
    (hchain : Chain (world answer) t ⟨start, [], start⟩ w) :
    ∃ n, w.log = (List.range n).flatMap (round targets answer) ∧ n ≤ limit ∧ (0 < limit → 0 < n) ∧
      (result = some (.ok ()) ↔ ∃ m, 0 < m ∧ m ≤ n ∧ ∀ p < targets.length, ∃ j < m, answer p j = true) ∧
      (∀ e, result = some (.error e) → e = .propagationTimeout fqdn (timing.timeout / secs 1) ∧
        start + timing.timeout ≤ w.answered ∧ ∃ p < targets.length, ∀ j < n, answer p j = false) ∧
      (result = none → n = limit) ∧
      (0 < timing.interval → n ≤ 1 + timing.timeout ⌈/⌉ timing.interval ∧
        (1 + timing.timeout ⌈/⌉ timing.interval ≤ limit → result ≠ none)) := by
  have hwp : wp (fun _ _ => True) (world answer) (pollUntilAllConfirm limit targets.zipIdx fqdn timing)
      (fun result w' => ∃ n, Ended targets answer fqdn timing start limit n result w') ⟨start, [], start⟩ := by
    refine ⟨trivial, ?_⟩
    rintro _ w₁ ⟨rfl, hnow, hlog, -⟩
    have hall : unconfirmed targets answer 0 = targets.zipIdx := unconfirmed_zero
    rw [← hall]
    exact wp_pollFrom limit 0 w₁ (Nat.zero_add _) ⟨by simp [hlog], by omega, by simpa using hnow,
      fun hpos => by simpa using Nat.add_pos_right _ hpos⟩
  obtain ⟨n, h⟩ := hwp.of_runs hrun hchain
  refine ⟨n, h.log, h.within.1, h.within.2, ?_, fun e he => ?_, h.unfinished, fun hpos => ⟨(h.bounded hpos).1, ?_⟩⟩
  · simp only [h.ok, unconfirmed_eq_nil]
  · obtain ⟨hmsg, hlate, hpending⟩ := h.error e he
    refine ⟨hmsg, hlate, ?_⟩
    rw [Ne, unconfirmed_eq_nil] at hpending
    push Not at hpending
    simpa using hpending
  · intro hlimit hnone
    have hn := h.unfinished hnone
    have hle := (h.bounded hpos).2 hnone
    rw [hn] at hle
    exact absurd (hlimit.trans hle) (by simp)

/-- The world answers every call. -/
theorem world_answers (answer : Nat → Nat → Bool) :
    ∀ (c : Ask (Slot T)) (w : World T), ∃ r w', world answer c r w w'
  | .check target, w => ⟨_, ⟨w.now, w.log ++ [(target, _)], w.now⟩, rfl, rfl, le_rfl, rfl⟩
  | .now, w => ⟨w.now, w, rfl, le_rfl, rfl, rfl⟩
  | .sleep d, w => ⟨(), ⟨w.now + d, w.log, w.answered⟩, le_rfl, rfl, rfl⟩

/-- The test's two nameservers, of which the second confirms at the third poll. -/
theorem pollUntilAllConfirm_asks_lagging :
    ∃ (t : List (Fut.Ev (Ask (Slot String)) Answer)) (result : Option (Except DnsError Unit)) (w : World String) (n : Nat),
      (pollUntilAllConfirm 61 ["ns1", "ns2"].zipIdx [] ⟨secs 60, secs 1⟩).Runs t result ∧
      Chain (world fun p j => decide (2 * p ≤ j)) t ⟨0, [], 0⟩ w ∧
      w.log = (List.range n).flatMap (round ["ns1", "ns2"] fun p j => decide (2 * p ≤ j)) ∧ 0 < n ∧ n ≤ 61 := by
  obtain ⟨t, result, w, hrun, hchain⟩ := Fut.exists_run (world_answers fun p j => decide (2 * p ≤ j))
    (pollUntilAllConfirm 61 ["ns1", "ns2"].zipIdx [] ⟨secs 60, secs 1⟩) ⟨0, [], 0⟩
  obtain ⟨n, hlog, hlimit, hpos, -⟩ := pollUntilAllConfirm_asks _ _ _ _ _ _ hrun hchain
  exact ⟨t, result, w, n, hrun, hchain, hlog, hpos (by decide), hlimit⟩

end Loop

/-! ## Which records count -/

inductive RData where
  /-- The character-strings of a TXT record. -/
  | txt (txtData : List ByteArray)
  | other (code : Nat)

/-- The closure of `serves_value`, for the answer of `resolver.lookup(fqdn, RecordType::TXT)`. -/
def servesValue (response : Except String (List RData)) (expected : Str) : Bool :=
  match response with
  | .error _ => false
  | .ok answers => answers.any fun
    | .txt txtData => txtData.any fun data => (String.fromUTF8? data).any (· == String.ofList expected)
    | .other _ => false

/-- Each character-string in double quotes, separated by one space. -/
def presentation (strings : List Str) : Str := [' '].intercalate (strings.map quote)

/-- A TXT record of these character-strings. -/
def txtRecord (strings : List Str) : RData := .txt (strings.map fun s => (String.ofList s).toUTF8)

theorem fromUTF8_utf8Encode (s : Str) : String.fromUTF8? s.utf8Encode = some (String.ofList s) := by
  rw [← String.toByteArray_ofList, String.fromUTF8?, dif_pos (String.isValidUTF8 _)]
  rfl

/-- A record counts if one of its character-strings is the value. -/
theorem servesValue_iff {strings : List Str} {v : Str} :
    servesValue (.ok [txtRecord strings]) v = true ↔ v ∈ strings := by
  simp [servesValue, txtRecord, fromUTF8_utf8Encode, String.ofList_inj]

/-- The presentation form is one quoted text. -/
theorem presentation_cons (s : Str) : ∀ (rest : List Str),
    presentation (s :: rest) = quote (['"', ' ', '"'].intercalate (s :: rest))
  | [] => by simp [presentation]
  | s' :: rest => by
    have ih := presentation_cons s' rest
    rw [presentation] at ih ⊢
    rw [List.map_cons, List.map_cons, List.intercalate_cons_cons, ← List.map_cons, ih, List.intercalate_cons_cons]
    simp [quote]

/-- A value without quotes is the text of a record of one character-string only. -/
theorem intercalate_eq_iff {v : Str} (hv : '"' ∉ v) : ∀ {s : Str} {rest : List Str},
    ['"', ' ', '"'].intercalate (s :: rest) = v ↔ rest = [] ∧ s = v
  | s, [] => by simp
  | s, s' :: rest => by
    rw [List.intercalate_cons_cons]
    refine ⟨fun h => absurd ?_ hv, fun h => absurd h.1 (by simp)⟩
    simp [← h]

theorem no_quote_of_acme {v : Str} (h : validateAcmeValue v = .ok ()) : '"' ∉ v := by
  intro hmem
  have hchar := List.all_eq_true.1 (nameChars_of_acme h) _ hmem
  revert hchar
  decide

/-- **Counting a record as the providers do.** They agree on a record of one character-string, and on a record
none of whose character-strings is the value by itself; on every other record they disagree. -/
theorem servesValue_unquote_iff {strings : List Str} {v : Str} (hv : validateAcmeValue v = .ok ()) :
    ((servesValue (.ok [txtRecord strings]) v = true ↔ unquote (presentation strings) = v) ∧
      (strings.flatten ≠ v → servesValue (.ok [txtRecord strings]) v = false)) ↔
      strings.length = 1 ∨ v ∉ strings := by
  have hserves : servesValue (.ok [txtRecord strings]) v = false ↔ v ∉ strings := by
    rw [← servesValue_iff, Bool.not_eq_true]
  rw [servesValue_iff, hserves]
  cases strings with
  | nil =>
    have hne : v ≠ [] := by
      rintro rfl
      exact absurd hv (by decide)
    have hempty : unquote (presentation []) = [] := by decide
    simp [hempty, hne.symm]
  | cons s rest =>
    rw [presentation_cons, unquote_quote, intercalate_eq_iff (no_quote_of_acme hv)]
    cases rest with
    | nil =>
      simp only [List.mem_singleton, true_and, List.flatten_singleton, List.length_singleton, true_or, iff_true]
      exact ⟨eq_comm, fun hne he => hne he.symm⟩
    | cons s' rest =>
      simp only [reduceCtorEq, false_and, iff_false, List.length_cons, Nat.add_eq_right, Nat.add_eq_zero_iff,
        one_ne_zero, and_false, false_or]
      exact ⟨And.left, fun h => ⟨h, fun _ => h⟩⟩

theorem servesValue_unquote_iff_single :
    ((servesValue (.ok [txtRecord ["tok".toList]]) "tok".toList = true ↔
        unquote (presentation ["tok".toList]) = "tok".toList) ∧
      (["tok".toList].flatten ≠ "tok".toList → servesValue (.ok [txtRecord ["tok".toList]]) "tok".toList = false)) ↔
      ["tok".toList].length = 1 ∨ "tok".toList ∉ ["tok".toList] := servesValue_unquote_iff (by decide)

/-- The content of the record is `tokrest`, and it is counted as serving `tok`. -/
theorem servesValue_counts_part :
    validateAcmeValue "tok".toList = .ok () ∧
      servesValue (.ok [txtRecord ["tok".toList, "rest".toList]]) "tok".toList = true ∧
      unquote (presentation ["tok".toList, "rest".toList]) ≠ "tok".toList ∧
      ["tok".toList, "rest".toList].flatten ≠ "tok".toList :=
  ⟨by decide, servesValue_iff.2 (by decide), by decide, by decide⟩

end Cheti.Propagation
