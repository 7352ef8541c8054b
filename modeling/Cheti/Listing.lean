import Cheti.Http
/-!
# Loops over requests

The loops that several providers share, with what they do to a single record left as a parameter.

| here | there |
| --- | --- |
| `firstSome`   | the walks of `resolve_zone` over candidate zones (powerdns.rs:167-178, infomaniak.rs:151-163, route53.rs:275-283, hetzner.rs:139-144) |
| `cached`      | `zone_cache`, `zone_id_cache`: the lookup of `resolve_zone` (powerdns.rs:160-175, infomaniak.rs:144-160, route53.rs:268-281) and `resolve_zone_id` (cloudflare.rs:163-193) |
| `readPages`   | `list_zones` (bunny.rs:168-203), `list_matching_records` (digitalocean.rs:150-198), `list_txt_records` (infomaniak.rs:196-233) |
| `deleteEach`  | the loop of `cleanup` in the providers that keep one record for each value |
| `maxByKey`    | `Iterator::max_by_key` |

`Only P p` says that `p` makes only calls in `P`, whatever the answers are.
-/

namespace Cheti

variable {Q : Type} {B : Q → Type} {α β : Type}

/-- The candidates are looked up in order; the first that is found is the result. -/
def firstSome (lookup : α → Prog Q B (Option β)) : List α → Prog Q B (Option β)
  | [] => return none
  | candidate :: rest => do
    match ← lookup candidate with
    | some b => return some b
    | none => firstSome lookup rest

/-- What was found for `name` earlier, or what `find` finds, remembered. -/
def cached (name : Str) (find : Prog Q B Str) : Prog Q B Str := do
  match ← (sync (.cacheGet name) : Prog Q B (Option Str)) with
  | some found => return found
  | none =>
    let found ← find
    sync (.cacheInsert name found)
    return found

/-- What one page of a listing says. -/
structure Page (α : Type) where
  items : List α
  /-- Where there are more pages: the error if no more of them may be read. -/
  more : Option DnsError

/-- The pages from `page` on, at most `left` of them after that one. -/
def readPages (fetch : Nat → Prog Q B (Page α)) : Nat → Nat → List α → Prog Q B (List α)
  | left, page, items => do
    let p ← fetch page
    match p.more with
    | none => return items ++ p.items
    | some e =>
      match left with
      | 0 => throw e
      | left + 1 => readPages fetch left (page + 1) (items ++ p.items)

def deleteEach (delete : α → Prog Q B Unit) : List α → Prog Q B Unit
  | [] => return
  | record :: rest => do
    delete record
    deleteEach delete rest

/-- Of the elements with the largest key, the last. -/
def maxByKey (key : α → Nat) (l : List α) : Option α :=
  l.foldl (fun best a => match best with
    | none => some a
    | some b => if key b ≤ key a then some a else some b) none

/-! ## Which calls are made -/

open Fut

def Only (P : Call Q → Prop) (p : Prog Q B α) : Prop := Always P (fun _ _ => True) p.run fun _ => True

namespace Only

variable {P : Call Q → Prop}

theorem pure (a : α) : Only P (Pure.pure a : Prog Q B α) := trivial

theorem throw (e : DnsError) : Only P (MonadExcept.throw e : Prog Q B α) := trivial

theorem lift (x : Except DnsError α) : Only P (liftM x : Prog Q B α) := trivial

theorem bind {p : Prog Q B α} {f : α → Prog Q B β} (hp : Only P p) (hf : ∀ a, Only P (f a)) : Only P (p >>= f) :=
  always_run_bind hp hf

/-- Whatever comes of it, the function goes on. -/
theorem attempt {p : Fut Unit (Call Q) (Reply B) α} (h : Always P (fun _ _ => True) p fun _ => True) :
    Only P (ExceptT.lift p : Prog Q B α) := by
  have hrun : (ExceptT.lift p : Prog Q B α).run = p.bind fun a => .done (.ok a) := rfl
  rw [Only, Always, hrun, wp_bind]
  exact wp_mono h fun _ _ _ => trivial

theorem sync {c : Call Q} (h : P c) : Only P (Cheti.sync c : Prog Q B _) := ⟨h, fun _ _ _ => trivial⟩

theorem await {c : Call Q} (h : P c) : Only P (Cheti.await c : Prog Q B _) := ⟨h, fun _ _ _ => trivial⟩

theorem findZone {fqdn : Str} (h : P (.findZone fqdn)) : Only P (Cheti.findZone fqdn : Prog Q B _) :=
  ⟨h, fun _ _ _ => trivial⟩

/-- The zone that was found, if it is valid. -/
theorem foundZone {fqdn : Str} {valid : Str → Except DnsError Unit} (h : P (.findZone fqdn)) :
    Only P (do let zone ← Cheti.findZone fqdn; valid zone; return zone : Prog Q B Str) :=
  (findZone h).bind fun zone => (lift (valid zone)).bind fun _ => .pure zone

theorem accessToken (h : P .accessToken) : Only P (Cheti.accessToken : Prog Q B _) := ⟨h, fun _ _ _ => trivial⟩

theorem sendRetrying {method : Method} {q : Q} (hsend : P (.send q)) (hsleep : ∀ d, P (.sleep d)) :
    Only P (Cheti.sendRetrying method q : Prog Q B _) :=
  wp_sendRetrying hsend (fun d => ⟨hsleep d, fun _ _ _ => rfl⟩) (fun _ _ _ _ => rfl) fun _ _ _ => trivial

theorem request {method : Method} {q : Q} {decode : Response (B q) → Except DnsError α} (hsend : P (.send q))
    (hsleep : ∀ d, P (.sleep d)) : Only P (Cheti.request method q decode : Prog Q B α) :=
  (sendRetrying hsend hsleep).bind fun _ => .lift _

theorem cached {name : Str} {find : Prog Q B Str} (hget : P (.cacheGet name)) (hinsert : ∀ z, P (.cacheInsert name z))
    (hfind : Only P find) : Only P (Cheti.cached name find) := by
  refine (sync hget).bind fun
    | some z => .pure z
    | none => hfind.bind fun z => (sync (hinsert z)).bind fun _ => .pure z

theorem firstSome {lookup : α → Prog Q B (Option β)} (h : ∀ a, Only P (lookup a)) :
    ∀ l, Only P (Cheti.firstSome lookup l)
  | [] => .pure none
  | a :: l => (h a).bind fun
    | some b => .pure (some b)
    | none => firstSome h l

theorem readPages {fetch : Nat → Prog Q B (Page α)} (h : ∀ page, Only P (fetch page)) (left page : Nat)
    (items : List α) : Only P (Cheti.readPages fetch left page items) := by
  induction left generalizing page items with
  | zero =>
    rw [Cheti.readPages.eq_def]
    refine (h page).bind fun p => ?_
    cases p.more with
    | none => exact .pure _
    | some e => exact .throw e
  | succ left ih =>
    rw [Cheti.readPages.eq_def]
    refine (h page).bind fun p => ?_
    cases p.more with
    | none => exact .pure _
    | some e => exact ih (page + 1) _

theorem mem_run {p : Prog Q B α} (h : Only P p) {t : List (Ev (Call Q) (Reply B))} {r : Except DnsError α}
    (hrun : p.run.Runs t r) {e : Ev (Call Q) (Reply B)} (he : e ∈ t) : P e.call := by
  obtain ⟨t₁, t₂, rfl⟩ := List.append_of_mem he
  obtain ⟨g, k, hat⟩ := hrun.issues
  have hchain : ∀ t : List (Ev (Call Q) (Reply B)), Chain (fun _ _ _ _ => True) t () () := fun t => by
    induction t with
    | nil => rfl
    | cons e t ih => exact ⟨(), trivial, ih⟩
  exact (wp.at h hat (hchain t₁)).1

end Only

/-! ## What the pages add up to -/

section Pages

variable {S : Type} {ok : Call Q → S → Prop} {H : Env (Call Q) (Reply B) S} {s : S}

theorem flatten_drop (chunks : List (List α)) (page : Nat) :
    (chunks.drop page).flatten = chunks.getD page [] ++ (chunks.drop (page + 1)).flatten := by
  by_cases hpage : page < chunks.length
  · have hget : chunks.getD page [] = chunks[page] := by simp [hpage]
    rw [hget, List.drop_eq_getElem_cons hpage, List.flatten_cons]
  · have hlen : chunks.length ≤ page := by omega
    simp [List.drop_eq_nil_of_le hlen, List.drop_eq_nil_of_le (Nat.le_succ_of_le hlen), hlen]

/-- Where the pages are the `chunks`, the first being page 1, and the last one says so, all that is left of
them is read; where every page comes (`sure`) and there are not too many, there is a result. -/
theorem wp_readPages {fetch : Nat → Prog Q B (Page α)} (chunks : List (List α)) (sure : Prop)
    (hfetch : ∀ page, wp ok H (fetch (page + 1)).run (fun r s' => s' = s ∧ (∀ p, r = .ok p →
      p.items = chunks.getD page [] ∧ (p.more = none ↔ chunks.length ≤ page + 1)) ∧ (sure → ∃ p, r = .ok p)) s) :
    ∀ left page items, wp ok H (readPages fetch left (page + 1) items).run (fun r s' => s' = s ∧
      (∀ l, r = .ok l → l = items ++ (chunks.drop page).flatten) ∧
      (sure → chunks.length ≤ page + left + 1 → ∃ l, r = .ok l)) s := by
  intro left page items
  rw [readPages.eq_def, wp_run_bind]
  refine wp_mono (hfetch page) ?_
  rintro r s' ⟨hs, hr, hsure⟩
  cases r with
  | error e =>
    refine ⟨hs, nofun, fun h _ => ?_⟩
    obtain ⟨p, hp⟩ := hsure h
    cases hp
  | ok p =>
    obtain ⟨hitems, hlast⟩ := hr p rfl
    cases hmore : p.more with
    | none =>
      have hrest : (chunks.drop (page + 1)) = [] := List.drop_eq_nil_of_le (hlast.1 hmore)
      simp [hmore, flatten_drop chunks page, hrest, hitems, hs]
    | some e =>
      have hpage : ¬ chunks.length ≤ page + 1 := fun h => by simp [hlast.2 h] at hmore
      cases left with
      | zero =>
        simp only [hmore, hs]
        exact ⟨rfl, nofun, fun _ hlen => absurd hlen hpage⟩
      | succ left =>
        simp only [hmore, hs]
        refine wp_mono (wp_readPages chunks sure hfetch left (page + 1) (items ++ p.items)) ?_
        rintro r s' ⟨rfl, hr, hok⟩
        refine ⟨rfl, fun l hl => ?_, fun h hlen => hok h (by omega)⟩
        rw [hr l hl, hitems, flatten_drop chunks page, List.append_assoc]

/-- A listing that is answered throughout and is not too long is read whole. -/
theorem wp_readPages_all {fetch : Nat → Prog Q B (Page α)} (chunks : List (List α)) {left : Nat}
    (hfetch : ∀ page, wp ok H (fetch (page + 1)).run (fun r s' => s' = s ∧ ∃ p, r = .ok p ∧
      p.items = chunks.getD page [] ∧ (p.more = none ↔ chunks.length ≤ page + 1)) s)
    (hleft : chunks.length ≤ left + 1) :
    wp ok H (readPages fetch left 1 []).run (fun r s' => s' = s ∧ r = .ok chunks.flatten) s := by
  refine wp_mono (wp_readPages chunks True (fun page => wp_mono (hfetch page) ?_) left 0 []) ?_
  · rintro r s' ⟨hs, p, rfl, hp⟩
    refine ⟨hs, fun p' hp' => ?_, fun _ => ⟨p, rfl⟩⟩
    cases hp'
    exact hp
  · rintro r s' ⟨hs, hall, hok⟩
    obtain ⟨l, rfl⟩ := hok trivial (by omega)
    exact ⟨hs, congrArg Except.ok (hall l rfl)⟩

end Pages

/-! ## The greatest of a list -/

section Greatest

variable {key : α → Nat}

theorem maxByKey_concat (l : List α) (a : α) : maxByKey key (l ++ [a]) =
    match maxByKey key l with
    | none => some a
    | some b => if key b ≤ key a then some a else some b := by
  simp [maxByKey, List.foldl_append]

theorem maxByKey_eq_none {l : List α} : maxByKey key l = none ↔ l = [] := by
  induction l using List.reverseRecOn with
  | nil => simp [maxByKey]
  | append_singleton l a _ =>
    rw [maxByKey_concat]
    cases maxByKey key l with
    | none => simp
    | some b =>
      simp only [List.append_eq_nil_iff, List.cons_ne_nil, and_false, iff_false]
      split <;> simp

theorem maxByKey_eq_some {l : List α} : ∀ {a : α}, maxByKey key l = some a → a ∈ l ∧ ∀ b ∈ l, key b ≤ key a := by
  induction l using List.reverseRecOn with
  | nil => simp [maxByKey]
  | append_singleton l x ih =>
    intro a ha
    rw [maxByKey_concat] at ha
    cases hl : maxByKey key l with
    | none =>
      rw [hl] at ha
      cases ha
      simp [maxByKey_eq_none.1 hl]
    | some b =>
      obtain ⟨hb, hmax⟩ := ih hl
      rw [hl] at ha
      dsimp only at ha
      split at ha
      case isTrue hle =>
        cases ha
        refine ⟨by simp, fun c hc => ?_⟩
        rcases List.mem_append.1 hc with hc | hc
        · exact (hmax c hc).trans hle
        · rw [List.mem_singleton.1 hc]
      case isFalse hlt =>
        cases ha
        refine ⟨List.mem_append_left _ hb, fun c hc => ?_⟩
        rcases List.mem_append.1 hc with hc | hc
        · exact hmax c hc
        · rw [List.mem_singleton.1 hc]
          omega

end Greatest

end Cheti
