import Cheti.AccountStore
import Cheti.Base.Optimistic
/-!
# Concurrent saves (src/account_store.rs:65-129)

Any number of `save` calls of one process interleave, call by call; every call may fail, and the process may stop
anywhere, so what holds is said of every reachable state.

Between two calls a save is at a `Point`, and `Move` says once what a call can do to it. A save touches no file but
the store path and its own temp file (`Move.frame`), so what it `Owns` stays as it is while the others move, as long
as no two saves have the same number. They have different ones while at most 2^64 of them have taken one:
`saves_expose_whole_files`. The counter then starts over, and `wrapped_counter_exposes_partial_file` is a run in which
a save publishes the temp file that another one has just created.
-/

namespace Cheti.AccountStore

open Fut Fut.Optimistic

/-! ## Temp paths -/

section TempPath

variable (pid : Nat) (path : Path)

theorem withFileName_inj {a b : Str} (h : path.withFileName a = path.withFileName b) : a = b := by
  simpa [Path.withFileName] using h

theorem tempPath_inj {n m : UInt64} (h : tempPath pid path n = tempPath pid path m) : n = m := by
  have hname := List.append_cancel_left (withFileName_inj path h)
  have htext : toString n = toString m := by simpa [String.toList_inj] using hname
  exact UInt64.toNat_inj.1 (Nat.repr_inj.1 htext)

theorem components_of_fileName {p : Path} {name : Str} (h : p.fileName = some name) :
    p.components = p.components.dropLast ++ [.normal name] := by
  have hlast : p.components.getLast? = some (.normal name) := by
    unfold Path.fileName at h
    split at h
    · rename_i name' hlast
      cases h
      exact hlast
    · cases h
  exact (List.dropLast_append_getLast? _ hlast).symm

theorem tempPath_ne (n : UInt64) : tempPath pid path n ≠ path := by
  intro h
  have hcomponents := congrArg Path.components h
  cases hname : path.fileName with
  | none =>
    have hlen := congrArg List.length hcomponents
    simp [tempPath, Path.withFileName, hname] at hlen
  | some name =>
    rw [components_of_fileName hname] at hcomponents
    simp [tempPath, Path.withFileName, hname] at hcomponents

end TempPath

/-! ## Where a save is -/

inductive Point where
  | making (dir : Path)
  | naming
  | creating (n : UInt64)
  /-- The first `k` bytes are written. -/
  | writing (n : UInt64) (k : Nat)
  | syncing (n : UInt64)
  | publishing (n : UInt64)
  /-- An error is being taken back. The temp file was created and has this content, or was never created. -/
  | removing (n : UInt64) (created : Option Bytes) (e : DnsError)
  /-- `owned`: what is at the temp path, if the save created a file there. -/
  | finished (number : Option UInt64) (owned : Option (Option Bytes)) (r : Except DnsError Unit)

namespace Point

def number : Point → Option UInt64
  | making _ | naming => none
  | creating n | writing n _ | syncing n | publishing n | removing n _ _ => some n
  | finished number _ _ => number

variable (pid : Nat) (store : FileAccountStore) (bytes : Bytes)

/-- What the save has made of its temp file, once it has created it. -/
def owned : Point → Option (Option Bytes)
  | making _ | naming | creating _ => none
  | writing _ k => some (some (bytes.take k))
  | syncing _ | publishing _ => some (some bytes)
  | removing _ created _ => created.map some
  | finished _ owned _ => owned

/-- With `k` bytes written, the save goes on writing or is ready to sync. -/
def advance (n : UInt64) (k : Nat) : Point := if k < bytes.length then writing n k else syncing n

/-- What follows when `k` bytes are written. -/
def rest (n : UInt64) (k : Nat) : Act (Except DnsError Unit) :=
  let tmp := tempPath pid store.path n
  ((writeAll tmp (bytes.drop k)).bind (syncAfter tmp)).bind (store.publish tmp)

/-- What is left to do. -/
def prog : Point → Act (Except DnsError Unit)
  | making dir => .await none (.createDirAll dir) fun
    | .error e => .done (.error (.storage s!"create parent {dir.display}: {e}"))
    | .ok () => store.replace pid bytes
  | naming => store.replace pid bytes
  | creating n => (writePrivate (tempPath pid store.path n) bytes).bind (store.publish (tempPath pid store.path n))
  | writing n k =>
    let tmp := tempPath pid store.path n
    .await none (.write tmp (bytes.drop k)) fun
      | .error e => FileAccountStore.rollback tmp (writeError tmp e)
      | .ok 0 => FileAccountStore.rollback tmp (writeError tmp writeZero)
      | .ok (m + 1) => rest pid store bytes n (k + m + 1)
  | syncing n => .await none (.syncAll (tempPath pid store.path n)) (store.publish (tempPath pid store.path n))
  | publishing n => store.publish (tempPath pid store.path n) (.ok ())
  | removing n _ e => FileAccountStore.rollback (tempPath pid store.path n) e
  | finished _ _ r => .done r

variable {pid store bytes}

theorem rest_eq (n : UInt64) (k : Nat) : rest pid store bytes n k = (advance bytes n k).prog pid store bytes := by
  unfold rest advance
  split
  · rename_i hk
    simp only [prog]
    generalize hdrop : bytes.drop k = left
    cases left with
    | nil => exact absurd (List.drop_eq_nil_iff.1 hdrop) (Nat.not_le_of_lt hk)
    | cons b left =>
      rw [writeAll, await_bind, await_bind]
      congr 1
      funext r
      cases r with
      | error e => rfl
      | ok n =>
        cases n with
        | zero => rfl
        | succ m =>
          have hnext : left.drop m = bytes.drop (k + m + 1) := by
            rw [Nat.add_assoc, ← List.drop_drop, hdrop, List.drop_succ_cons]
          simp only [hnext]
          rfl
  · rename_i hk
    simp only [prog, List.drop_eq_nil_of_le (Nat.le_of_not_lt hk)]
    rw [writeAll]
    rfl

variable (pid store bytes)

/-- Every way a save can go on, with the call it makes and the reply it gets. -/
inductive Move : Point → Ev Call Reply → Point → Prop where
  | made (dir : Path) : Move (making dir) ⟨.createDirAll dir, .ok ()⟩ naming
  | notMade (dir : Path) (e : IoError) : Move (making dir) ⟨.createDirAll dir, .error e⟩
      (finished none none (.error (.storage s!"create parent {dir.display}: {e}")))
  | named (n : UInt64) : Move naming ⟨.fetchAdd, n⟩ (creating n)
  | created (n : UInt64) : Move (creating n) ⟨.createNew (tempPath pid store.path n), .ok ()⟩ (advance bytes n 0)
  | refused (n : UInt64) (e : IoError) : Move (creating n) ⟨.createNew (tempPath pid store.path n), .error e⟩
      (removing n none (writeError (tempPath pid store.path n) e))
  | wrote (n : UInt64) (k m : Nat) : Move (writing n k)
      ⟨.write (tempPath pid store.path n) (bytes.drop k), .ok (m + 1)⟩ (advance bytes n (k + m + 1))
  | wroteNothing (n : UInt64) (k : Nat) : Move (writing n k)
      ⟨.write (tempPath pid store.path n) (bytes.drop k), .ok 0⟩
      (removing n (some (bytes.take k)) (writeError (tempPath pid store.path n) writeZero))
  | notWritten (n : UInt64) (k : Nat) (e : IoError) : Move (writing n k)
      ⟨.write (tempPath pid store.path n) (bytes.drop k), .error e⟩
      (removing n (some (bytes.take k)) (writeError (tempPath pid store.path n) e))
  | synced (n : UInt64) : Move (syncing n) ⟨.syncAll (tempPath pid store.path n), .ok ()⟩ (publishing n)
  | notSynced (n : UInt64) (e : IoError) : Move (syncing n) ⟨.syncAll (tempPath pid store.path n), .error e⟩
      (removing n (some bytes) (writeError (tempPath pid store.path n) e))
  | renamed (n : UInt64) : Move (publishing n) ⟨.rename (tempPath pid store.path n) store.path, .ok ()⟩
      (finished (some n) (some none) (.ok ()))
  | notRenamed (n : UInt64) (e : IoError) : Move (publishing n)
      ⟨.rename (tempPath pid store.path n) store.path, .error e⟩
      (removing n (some bytes) (renameError (tempPath pid store.path n) store.path e))
  | removed (n : UInt64) (created : Option Bytes) (e : DnsError) : Move (removing n created e)
      ⟨.removeFile (tempPath pid store.path n), .ok ()⟩ (finished (some n) (created.map fun _ => none) (.error e))
  | notRemoved (n : UInt64) (created : Option Bytes) (e : DnsError) (e' : IoError) : Move (removing n created e)
      ⟨.removeFile (tempPath pid store.path n), .error e'⟩ (finished (some n) (created.map some) (.error e))

variable {pid store bytes}

/-- A call of the program is a move. -/
theorem exists_move {p : Point} {g : Option Unit} {c : Call} {k : Reply c → Act (Except DnsError Unit)}
    (h : p.prog pid store bytes = .await g c k) (r : Reply c) :
    ∃ p', Move pid store bytes p ⟨c, r⟩ p' ∧ k r = p'.prog pid store bytes := by
  cases p with
  | making dir =>
    cases h
    cases r with
    | error e => exact ⟨_, .notMade dir e, rfl⟩
    | ok u => exact ⟨_, .made dir, rfl⟩
  | naming =>
    cases h
    exact ⟨_, .named r, rfl⟩
  | creating n =>
    cases h
    cases r with
    | error e => exact ⟨_, .refused n e, rfl⟩
    | ok u => exact ⟨_, .created n, rest_eq n 0⟩
  | writing n k =>
    cases h
    cases r with
    | error e => exact ⟨_, .notWritten n k e, rfl⟩
    | ok count =>
      cases count with
      | zero => exact ⟨_, .wroteNothing n k, rfl⟩
      | succ m => exact ⟨_, .wrote n k m, rest_eq n _⟩
  | syncing n =>
    cases h
    cases r with
    | error e => exact ⟨_, .notSynced n e, rfl⟩
    | ok u => exact ⟨_, .synced n, rfl⟩
  | publishing n =>
    cases h
    cases r with
    | error e => exact ⟨_, .notRenamed n e, rfl⟩
    | ok u => exact ⟨_, .renamed n, rfl⟩
  | removing n created e =>
    cases h
    cases r with
    | error e' => exact ⟨_, .notRemoved n created e e', rfl⟩
    | ok u => exact ⟨_, .removed n created e, rfl⟩
  | finished number owned r => cases h

/-- A move is a call of the program. -/
theorem Move.prog_eq {p p' : Point} {e : Ev Call Reply} (h : Move pid store bytes p e p') :
    ∃ k, p.prog pid store bytes = .await none e.call k ∧ k e.reply = p'.prog pid store bytes := by
  cases h with
  | created n => exact ⟨_, rfl, rest_eq n 0⟩
  | wrote n k m => exact ⟨_, rfl, rest_eq n _⟩
  | _ => exact ⟨_, rfl, rfl⟩

/-! ## What a move does to the files -/

variable (pid store bytes) in
/-- The temp file that the save has created is as the save left it. -/
def Owns (p : Point) (s : World) : Prop :=
  ∀ n content, p.number = some n → p.owned bytes = some content → s.files (tempPath pid store.path n) = content

@[simp] theorem advance_number (n : UInt64) (k : Nat) : (advance bytes n k).number = some n := by
  unfold advance
  split <;> rfl

@[simp] theorem advance_owned (n : UInt64) (k : Nat) :
    (advance bytes n k).owned bytes = some (some (bytes.take k)) := by
  unfold advance
  split
  · rfl
  · rename_i hk
    rw [List.take_of_length_le (Nat.le_of_not_lt hk)]
    rfl

end Point

/-- The temp file a call is about. -/
def Call.target : Call → Option Path
  | .createNew p | .write p _ | .syncAll p | .rename p _ | .removeFile p => some p
  | .createDirAll _ | .fetchAdd | .read _ => none

/-- A rename that was made. -/
def renames : Ev Call Reply → Bool
  | ⟨.rename _ _, .ok ()⟩ => true
  | _ => false

namespace Point.Move

open World

variable {pid : Nat} {store : FileAccountStore} {bytes : Bytes} {p p' : Point} {e : Ev Call Reply} {strict : Bool}
  {s s' : World}

/-- A number is given once, and is that of the counter. -/
theorem number_cases (h : Move pid store bytes p e p') (he : env strict e.call e.reply s s') :
    (e.call ≠ .fetchAdd ∧ p'.number = p.number ∧ s'.counter = s.counter) ∨
      (e.call = .fetchAdd ∧ p.number = none ∧ p'.number = some s.counter ∧ s'.counter = s.counter + 1) := by
  have happend : ∀ q buf, (s.append q buf).counter = s.counter := by
    intro q buf
    unfold World.append
    split <;> rfl
  cases h with
  | named n =>
    obtain ⟨rfl, rfl⟩ := he
    exact Or.inr ⟨rfl, rfl, rfl, rfl⟩
  | created n =>
    obtain ⟨-, rfl⟩ := he
    exact Or.inl ⟨nofun, advance_number n 0, rfl⟩
  | wrote n k m =>
    obtain ⟨-, rfl⟩ := he
    exact Or.inl ⟨nofun, advance_number n _, happend _ _⟩
  | wroteNothing n k =>
    obtain ⟨-, rfl⟩ := he
    exact Or.inl ⟨nofun, rfl, happend _ _⟩
  | renamed n =>
    obtain ⟨content, -, rfl⟩ := he
    exact Or.inl ⟨nofun, rfl, rfl⟩
  | removed n created e =>
    obtain ⟨-, rfl⟩ := he
    exact Or.inl ⟨nofun, rfl, rfl⟩
  | notRemoved n created e e' =>
    obtain ⟨-, rfl⟩ := he
    exact Or.inl ⟨nofun, rfl, rfl⟩
  | _ =>
    obtain rfl : s' = s := he
    exact Or.inl ⟨nofun, rfl, rfl⟩

/-- **Frame**: a save touches its own temp file, and the store path by a rename. -/
theorem frame (h : Move pid store bytes p e p') (he : env strict e.call e.reply s s') {q : Path}
    (hpath : renames e = true → q ≠ store.path) (htmp : ∀ n, p'.number = some n → q ≠ tempPath pid store.path n) :
    s'.files q = s.files q := by
  cases h with
  | named n =>
    obtain ⟨rfl, rfl⟩ := he
    rfl
  | created n =>
    obtain ⟨-, rfl⟩ := he
    exact put_of_ne (htmp n (advance_number n 0)) _
  | wrote n k m =>
    obtain ⟨-, rfl⟩ := he
    exact append_of_ne (htmp n (advance_number n _)) _
  | wroteNothing n k =>
    obtain ⟨-, rfl⟩ := he
    exact append_of_ne (htmp n rfl) _
  | renamed n =>
    obtain ⟨content, -, rfl⟩ := he
    exact (put_of_ne (hpath rfl) _).trans (put_of_ne (htmp n rfl) _)
  | removed n created e =>
    obtain ⟨-, rfl⟩ := he
    exact put_of_ne (htmp n rfl) _
  | notRemoved n created e e' =>
    obtain ⟨-, rfl⟩ := he
    rfl
  | _ =>
    obtain rfl : s' = s := he
    rfl

/-- A save knows what is in its temp file. -/
theorem owns (h : Move pid store bytes p e p') (he : env strict e.call e.reply s s')
    (hp : p.Owns pid store bytes s) : p'.Owns pid store bytes s' := by
  intro n content hn hcontent
  cases h with
  | made dir => cases hcontent
  | notMade dir e => cases hcontent
  | named m => cases hcontent
  | refused m e => cases hcontent
  | created m =>
    obtain ⟨-, rfl⟩ := he
    cases (advance_number m 0).symm.trans hn
    cases (advance_owned n 0).symm.trans hcontent
    exact put_self _ _
  | wrote m k j =>
    obtain ⟨-, rfl⟩ := he
    cases (advance_number m _).symm.trans hn
    cases (advance_owned n _).symm.trans hcontent
    have htake : bytes.take (k + j + 1) = bytes.take k ++ (bytes.drop k).take (j + 1) := by
      rw [Nat.add_assoc, List.take_add]
    rw [append_self, hp n (some (bytes.take k)) rfl rfl, htake]
    rfl
  | wroteNothing m k =>
    obtain ⟨-, rfl⟩ := he
    cases hn
    cases hcontent
    rw [append_self, hp n (some (bytes.take k)) rfl rfl]
    simp
  | notWritten m k e =>
    obtain rfl : s' = s := he
    cases hn
    exact hp n content rfl hcontent
  | synced m =>
    obtain rfl : s' = s := he
    cases hn
    exact hp n content rfl hcontent
  | notSynced m e =>
    obtain rfl : s' = s := he
    cases hn
    exact hp n content rfl hcontent
  | renamed m =>
    obtain ⟨bytes', -, rfl⟩ := he
    cases hn
    cases hcontent
    rw [put_of_ne (tempPath_ne pid store.path n), put_self]
  | notRenamed m e =>
    obtain rfl : s' = s := he
    cases hn
    exact hp n content rfl hcontent
  | removed m created e =>
    obtain ⟨-, rfl⟩ := he
    cases hn
    obtain ⟨-, -, rfl⟩ := Option.map_eq_some_iff.1 hcontent
    exact put_self _ _
  | notRemoved m created e e' =>
    obtain ⟨-, rfl⟩ := he
    cases hn
    exact hp n content rfl hcontent

/-- What is published is whole. -/
theorem publishes (h : Move pid store bytes p e p') (he : env strict e.call e.reply s s')
    (hp : p.Owns pid store bytes s) (hrename : renames e = true) : s'.files store.path = some bytes := by
  cases h with
  | renamed n =>
    obtain ⟨content, hcontent, rfl⟩ := he
    rw [hp n (some bytes) rfl rfl] at hcontent
    cases hcontent
    exact put_self _ _
  | _ => cases hrename

theorem target_eq (h : Move pid store bytes p e p') {q : Path} (hq : e.call.target = some q) :
    ∃ n, p'.number = some n ∧ q = tempPath pid store.path n := by
  cases h with
  | made dir => cases hq
  | notMade dir e => cases hq
  | named n => cases hq
  | created n => exact ⟨n, advance_number n 0, (Option.some.inj hq).symm⟩
  | wrote n k m => exact ⟨n, advance_number n _, (Option.some.inj hq).symm⟩
  | _ n => exact ⟨n, rfl, (Option.some.inj hq).symm⟩

/-- A temp file that was created is accounted for from then on. -/
theorem owned_ne_none (h : Move pid store bytes p e p')
    (hp : p.owned bytes ≠ none ∨ ∃ q, e = ⟨.createNew q, .ok ()⟩) : p'.owned bytes ≠ none := by
  cases h with
  | created n => simp
  | wrote n k m => simp
  | removed n created e =>
    obtain hp | ⟨q, hq⟩ := hp
    · simpa [owned] using hp
    · cases hq
  | notRemoved n created e e' =>
    obtain hp | ⟨q, hq⟩ := hp
    · exact hp
    · cases hq
  | made dir | notMade dir e | named n | refused n e =>
    obtain hp | ⟨q, hq⟩ := hp
    · exact absurd rfl hp
    · cases hq
  | _ => simp [owned]

/-- A save that returns leaves no temp file, if what exists can be removed. -/
theorem leaves_none (h : Move pid store bytes p e p') (he : env true e.call e.reply s s')
    (hp : p.Owns pid store bytes s) {number : Option UInt64} {content : Option Bytes} {r : Except DnsError Unit}
    (hfinished : p' = finished number (some content) r) : content = none := by
  cases h with
  | created n =>
    unfold advance at hfinished
    split at hfinished <;> cases hfinished
  | wrote n k m =>
    unfold advance at hfinished
    split at hfinished <;> cases hfinished
  | renamed n =>
    cases hfinished
    rfl
  | removed n created e =>
    simp only [finished.injEq] at hfinished
    obtain ⟨-, -, rfl⟩ := Option.map_eq_some_iff.1 hfinished.2.1
    rfl
  | notRemoved n created e e' =>
    simp only [finished.injEq] at hfinished
    rw [← hp n content rfl hfinished.2.1]
    exact he.1 rfl
  | _ => cases hfinished

/-- `Ok` is returned after the rename. -/
theorem renames_of_ok (h : Move pid store bytes p e p') {number : Option UInt64} {content : Option (Option Bytes)}
    (hok : p' = finished number content (.ok ())) : renames e = true := by
  cases h with
  | created n =>
    unfold advance at hok
    split at hok <;> cases hok
  | wrote n k m =>
    unfold advance at hok
    split at hok <;> cases hok
  | renamed n => rfl
  | _ => cases hok

end Point.Move

/-! ## The saves -/

section Saves

variable {ι Credentials : Type}

/-- How many saves have taken a number. -/
def fetches (w : List (ι × Ev Call Reply)) : Nat := w.countP fun x => decide (x.2.call = .fetchAdd)

/-- The saves that have renamed their temp file, in that order. -/
def renamers (w : List (ι × Ev Call Reply)) : List ι := (w.filter fun x => renames x.2).map Prod.fst

/-- What a save writes, where its credentials can be serialized. -/
def Serde.payload (serde : Serde Credentials) (c : Credentials) : Bytes := (serde.toVec c).toOption.getD []

variable (serde : Serde Credentials) (pid : Nat) (store : FileAccountStore)

/-- The point a save starts from. -/
def startPoint (c : Credentials) : Point :=
  match serde.toVec c with
  | .error e => .finished none none (.error (.storage s!"serialize account credentials: {e}"))
  | .ok _ =>
    match store.path.parent with
    | none => .finished none none (.error (.storage s!"account store path has no parent: {store.path.display}"))
    | some parent => if parent.isEmpty then .naming else .making parent

theorem startPoint_prog (c : Credentials) :
    store.save serde pid c = (startPoint serde store c).prog pid store (serde.payload c) := by
  unfold FileAccountStore.save startPoint
  cases hbytes : serde.toVec c with
  | error e => rfl
  | ok bytes =>
    have hpayload : serde.payload c = bytes := by simp [Serde.payload, hbytes, Except.toOption]
    rw [hpayload]
    cases store.path.parent with
    | none => rfl
    | some parent =>
      simp only
      split <;> rfl

theorem startPoint_fresh (c : Credentials) :
    (startPoint serde store c).number = none ∧ (∀ bytes, (startPoint serde store c).owned bytes = none) ∧
      ∀ number owned, startPoint serde store c ≠ .finished number owned (.ok ()) := by
  unfold startPoint
  split
  · exact ⟨rfl, fun _ => rfl, nofun⟩
  · split
    · exact ⟨rfl, fun _ => rfl, nofun⟩
    · split
      · exact ⟨rfl, fun _ => rfl, nofun⟩
      · exact ⟨rfl, fun _ => rfl, nofun⟩

abbrev Saves := Config ι Unit Call Reply (Except DnsError Unit) World

variable (strict : Bool) (cred : ι → Credentials) (s₀ : World)

/-- What the store path holds after these calls. -/
def held (w : List (ι × Ev Call Reply)) : Option Bytes :=
  match (renamers w).getLast? with
  | none => s₀.files store.path
  | some i => some (serde.payload (cred i))

/-- Where the saves are after the calls `w`, and what the files have to do with it. -/
structure Inv (w : List (ι × Ev Call Reply)) (cfg : Saves (ι := ι)) (point : ι → Point) : Prop where
  prog : ∀ i, cfg.prog i = (point i).prog pid store (serde.payload (cred i))
  idle : ∀ i e, serde.toVec (cred i) = .error e → ∃ r, point i = .finished none none r
  counter : cfg.store.counter = s₀.counter + UInt64.ofNat (fetches w)
  numbered : ∀ i n, (point i).number = some n → ∃ k < fetches w, n = s₀.counter + UInt64.ofNat k
  distinct : ∀ i j n, (point i).number = some n → (point j).number = some n → i = j
  owns : ∀ i, (point i).Owns pid store (serde.payload (cred i)) cfg.store
  content : cfg.store.files store.path = held serde store cred s₀ w
  ok : ∀ i number owned, point i = .finished number owned (.ok ()) → i ∈ renamers w
  renamed : ∀ i ∈ renamers w, (point i).number ≠ none
  target : ∀ i e q, (i, e) ∈ w → e.call.target = some q → ∃ n, (point i).number = some n ∧ q = tempPath pid store.path n
  created : ∀ i q, (i, ⟨.createNew q, .ok ()⟩) ∈ w → (point i).owned (serde.payload (cred i)) ≠ none
  gone : strict = true → ∀ i number content r, point i = .finished number (some content) r → content = none

variable {serde pid store strict cred s₀}

theorem Inv.serialized {w : List (ι × Ev Call Reply)} {cfg : Saves (ι := ι)} {point : ι → Point}
    (h : Inv serde pid store strict cred s₀ w cfg point) {i : ι} (hi : (point i).number ≠ none) :
    serde.toVec (cred i) = .ok (serde.payload (cred i)) := by
  cases hbytes : serde.toVec (cred i) with
  | error e =>
    obtain ⟨r, hr⟩ := h.idle i e hbytes
    rw [hr] at hi
    exact absurd rfl hi
  | ok bytes => simp [Serde.payload, hbytes, Except.toOption]

theorem inv_init : Inv serde pid store strict cred s₀ [] ⟨s₀, fun i => store.save serde pid (cred i)⟩
    fun i => startPoint serde store (cred i) where
  prog i := startPoint_prog serde pid store (cred i)
  idle i e he := by
    unfold startPoint
    rw [he]
    exact ⟨_, rfl⟩
  counter := by simp [fetches]
  numbered i n hn := by
    rw [(startPoint_fresh serde store (cred i)).1] at hn
    cases hn
  distinct i j n hn _ := by
    rw [(startPoint_fresh serde store (cred i)).1] at hn
    cases hn
  owns i n content hn _ := by
    rw [(startPoint_fresh serde store (cred i)).1] at hn
    cases hn
  content := rfl
  ok i number owned h := absurd h ((startPoint_fresh serde store (cred i)).2.2 number owned)
  renamed i hi := by cases hi
  target i e q hi := by cases hi
  created i q hi := by cases hi
  gone _ i number content r h := by
    have howned := (startPoint_fresh serde store (cred i)).2.1 []
    rw [h] at howned
    cases howned

theorem fetches_snoc (w : List (ι × Ev Call Reply)) (i : ι) (e : Ev Call Reply) :
    fetches (w ++ [(i, e)]) = fetches w + if e.call = .fetchAdd then 1 else 0 := by
  simp [fetches, List.countP_append, List.countP_cons]

theorem fetches_le_snoc (w : List (ι × Ev Call Reply)) (i : ι) (e : Ev Call Reply) :
    fetches w ≤ fetches (w ++ [(i, e)]) := by
  rw [fetches_snoc]
  exact Nat.le_add_right _ _

theorem renamers_snoc (w : List (ι × Ev Call Reply)) (i : ι) (e : Ev Call Reply) :
    renamers (w ++ [(i, e)]) = renamers w ++ if renames e then [i] else [] := by
  unfold renamers
  rw [List.filter_append, List.map_append]
  cases h : renames e <;> simp [h]

/-- The next number is new while fewer than 2^64 were taken. -/
theorem fresh_number {c : UInt64} {k n : Nat} (hk : k < n) (hn : n < 2 ^ 64) :
    c + UInt64.ofNat k ≠ c + UInt64.ofNat n := by
  intro h
  have heq := congrArg UInt64.toNat (add_left_cancel h)
  rw [UInt64.toNat_ofNat_of_lt' (lt_trans hk hn), UInt64.toNat_ofNat_of_lt' hn] at heq
  omega

theorem target_of_renames {e : Ev Call Reply} (h : renames e = true) : ∃ q, e.call.target = some q := by
  unfold renames at h
  split at h
  · exact ⟨_, rfl⟩
  · cases h

theorem Point.eq_finished {p : Point} {bytes : Bytes} {r : Except DnsError Unit} (h : p.prog pid store bytes = .done r) :
    ∃ number owned, p = .finished number owned r := by
  cases p with
  | finished number owned r' =>
    cases h
    exact ⟨number, owned, rfl⟩
  | _ => cases h

/-- Reading a file that holds what credentials were serialized to. -/
theorem load_of_content {c : Credentials} {bytes : Bytes} (hround : serde.fromSlice bytes = .ok c) {s : World}
    (hs : s.files store.path = some bytes) {t : List (Ev Call Reply)} {r : Except DnsError (Option Credentials)} {s' : World}
    (hrun : (store.load serde).Runs t r) (hchain : Chain (env strict) t s s') :
    r = .ok (some c) ∨ ∃ e : IoError, e.notFound = false ∧ t = [⟨.read store.path, .error e⟩] := by
  unfold FileAccountStore.load at hrun
  obtain ⟨reply, t', rfl, hrest⟩ := runs_await.1 hrun
  obtain ⟨m, hm, -⟩ := hchain
  cases reply with
  | ok got =>
    obtain ⟨hgot, -⟩ := hm
    rw [hs] at hgot
    cases hgot
    simp only [hround] at hrest
    obtain ⟨-, rfl⟩ := runs_done.1 hrest
    exact Or.inl rfl
  | error e =>
    have hfound : e.notFound = false := by
      by_contra hne
      have hnone : s.files store.path = none := hm.1 (by simpa using hne)
      rw [hs] at hnone
      cases hnone
    simp only [hfound] at hrest
    obtain ⟨rfl, -⟩ := runs_done.1 hrest
    exact Or.inr ⟨e, hfound, rfl⟩

variable (serde pid store strict cred s₀)

/-- What holds in a state that the saves have reached by the calls `w`. -/
structure NeverPartial (w : List (ι × Ev Call Reply)) (cfg : Saves (ι := ι)) : Prop where
  /-- The store path is as it was at first, or holds all that one of the saves has serialized. -/
  whole : cfg.store.files store.path = s₀.files store.path ∨
    ∃ i bytes, serde.toVec (cred i) = .ok bytes ∧ cfg.store.files store.path = some bytes
  renamed : ∀ i, cfg.prog i = .done (.ok ()) → i ∈ renamers w
  /-- If serde reads what it has written, the last save to rename is what `load` reads, where it can read at all. -/
  readBack : (∀ c bytes, serde.toVec c = .ok bytes → serde.fromSlice bytes = .ok c) →
    ∀ i, cfg.prog i = .done (.ok ()) → (renamers w).getLast? = some i →
      ∀ t r s', (store.load serde).Runs t r → Chain (env strict) t cfg.store s' →
        r = .ok (some (cred i)) ∨ ∃ e : IoError, e.notFound = false ∧ t = [⟨.read store.path, .error e⟩]
  /-- No two saves create, write, sync, rename or remove the same temp file. -/
  apart : ∀ i j e e' q, (i, e) ∈ w → (j, e') ∈ w → e.call.target = some q → e'.call.target = some q → i = j
  /-- A save that has returned has left no temp file that it created, if what exists can be removed. -/
  clean : strict = true → ∀ i r q, cfg.prog i = .done r → (i, ⟨.createNew q, .ok ()⟩) ∈ w → cfg.store.files q = none

variable {serde pid store strict cred s₀}

theorem Inv.neverPartial {w : List (ι × Ev Call Reply)} {cfg : Saves (ι := ι)} {point : ι → Point}
    (h : Inv serde pid store strict cred s₀ w cfg point) : NeverPartial serde store strict cred s₀ w cfg where
  whole := by
    have hcontent := h.content
    unfold held at hcontent
    split at hcontent
    · exact Or.inl hcontent
    · rename_i i hlast
      exact Or.inr ⟨i, _, h.serialized (h.renamed i (List.mem_of_getLast? hlast)), hcontent⟩
  renamed i hok := by
    obtain ⟨number, owned, hpoint⟩ := Point.eq_finished ((h.prog i).symm.trans hok)
    exact h.ok i number owned hpoint
  readBack hround i _ hlast t r s' hrun hchain := by
    have hcontent := h.content
    unfold held at hcontent
    rw [hlast] at hcontent
    have hbytes := h.serialized (h.renamed i (List.mem_of_getLast? hlast))
    exact load_of_content (hround _ _ hbytes) hcontent hrun hchain
  apart i j e e' q hi hj hq hq' := by
    obtain ⟨n, hn, rfl⟩ := h.target i e q hi hq
    obtain ⟨m, hm, heq⟩ := h.target j e' _ hj hq'
    obtain rfl := tempPath_inj pid store.path heq
    exact h.distinct i j n hn hm
  clean hstrict i r q hdone hcreated := by
    obtain ⟨number, owned, hpoint⟩ := Point.eq_finished ((h.prog i).symm.trans hdone)
    obtain ⟨n, hn, rfl⟩ := h.target i _ q hcreated rfl
    obtain ⟨content, howned⟩ := Option.ne_none_iff_exists'.1 (h.created i _ hcreated)
    rw [h.owns i n content hn howned]
    rw [hpoint] at howned
    obtain rfl : owned = some content := howned
    exact h.gone hstrict i number content r hpoint

section Step

variable {w : List (ι × Ev Call Reply)} {cfg : Saves (ι := ι)} {point : ι → Point} {i : ι} {e : Ev Call Reply}
  {p' : Point} {s' : World}

/-- A new number is nobody else's. -/
theorem Inv.number_apart (h : Inv serde pid store strict cred s₀ w cfg point)
    (hmove : (point i).Move pid store (serde.payload (cred i)) e p') (he : env strict e.call e.reply cfg.store s')
    (hfew : fetches (w ++ [(i, e)]) ≤ 2 ^ 64) {j : ι} {n : UInt64} (hj : j ≠ i) (hn : (point j).number = some n) :
    p'.number ≠ some n := by
  intro hn'
  rcases hmove.number_cases he with ⟨-, heq, -⟩ | ⟨hfetch, -, hnew, -⟩
  · exact hj (h.distinct j i n hn (heq ▸ hn'))
  · obtain ⟨k, hk, rfl⟩ := h.numbered j n hn
    rw [hnew, h.counter] at hn'
    rw [fetches_snoc, if_pos hfetch] at hfew
    exact fresh_number hk (by omega) (Option.some.inj hn').symm

theorem Inv.counter_step (h : Inv serde pid store strict cred s₀ w cfg point)
    (hmove : (point i).Move pid store (serde.payload (cred i)) e p') (he : env strict e.call e.reply cfg.store s') :
    s'.counter = s₀.counter + UInt64.ofNat (fetches (w ++ [(i, e)])) := by
  rw [fetches_snoc]
  rcases hmove.number_cases he with ⟨hfetch, -, hcounter⟩ | ⟨hfetch, -, -, hcounter⟩
  · rw [if_neg hfetch, hcounter]
    exact h.counter
  · rw [if_pos hfetch, hcounter, h.counter, UInt64.ofNat_add, add_assoc]
    rfl

/-- The store path changes by a rename only. -/
theorem Inv.content_step (h : Inv serde pid store strict cred s₀ w cfg point)
    (hmove : (point i).Move pid store (serde.payload (cred i)) e p') (he : env strict e.call e.reply cfg.store s') :
    s'.files store.path = held serde store cred s₀ (w ++ [(i, e)]) := by
  unfold held
  rw [renamers_snoc]
  by_cases hrename : renames e = true
  · rw [if_pos hrename, List.getLast?_concat]
    exact hmove.publishes he (h.owns i) hrename
  · rw [if_neg hrename, List.append_nil]
    refine (hmove.frame he (fun hr => absurd hr hrename) fun n _ => ?_).trans h.content
    exact (tempPath_ne pid store.path n).symm

variable [DecidableEq ι]

/-- A number stays. -/
theorem Inv.number_kept (hmove : (point i).Move pid store (serde.payload (cred i)) e p')
    (he : env strict e.call e.reply cfg.store s') {j : ι} {n : UInt64} (hn : (point j).number = some n) :
    (Function.update point i p' j).number = some n := by
  by_cases hj : j = i
  · subst hj
    rw [Function.update_self]
    rcases hmove.number_cases he with ⟨-, heq, -⟩ | ⟨-, hnone, -⟩
    · rw [heq, hn]
    · rw [hn] at hnone
      cases hnone
  · rw [Function.update_of_ne hj, hn]

theorem Inv.numbered_step (h : Inv serde pid store strict cred s₀ w cfg point)
    (hmove : (point i).Move pid store (serde.payload (cred i)) e p') (he : env strict e.call e.reply cfg.store s')
    (j : ι) (n : UInt64) (hn : (Function.update point i p' j).number = some n) :
    ∃ k < fetches (w ++ [(i, e)]), n = s₀.counter + UInt64.ofNat k := by
  have hold : ∀ j n, (point j).number = some n →
      ∃ k < fetches (w ++ [(i, e)]), n = s₀.counter + UInt64.ofNat k := fun j n hn => by
    obtain ⟨k, hk, hn⟩ := h.numbered j n hn
    exact ⟨k, hk.trans_le (fetches_le_snoc w i e), hn⟩
  by_cases hj : j = i
  · subst hj
    rw [Function.update_self] at hn
    rcases hmove.number_cases he with ⟨-, heq, -⟩ | ⟨hfetch, -, hnew, -⟩
    · exact hold j n (heq ▸ hn)
    · rw [hnew, h.counter] at hn
      rw [fetches_snoc, if_pos hfetch]
      exact ⟨fetches w, Nat.lt_succ_self _, (Option.some.inj hn).symm⟩
  · rw [Function.update_of_ne hj] at hn
    exact hold j n hn

theorem Inv.distinct_step (h : Inv serde pid store strict cred s₀ w cfg point)
    (hmove : (point i).Move pid store (serde.payload (cred i)) e p') (he : env strict e.call e.reply cfg.store s')
    (hfew : fetches (w ++ [(i, e)]) ≤ 2 ^ 64) (a b : ι) (n : UInt64)
    (ha : (Function.update point i p' a).number = some n) (hb : (Function.update point i p' b).number = some n) :
    a = b := by
  by_cases hai : a = i
  · by_cases hbi : b = i
    · rw [hai, hbi]
    · rw [hai, Function.update_self] at ha
      rw [Function.update_of_ne hbi] at hb
      exact absurd ha (h.number_apart hmove he hfew hbi hb)
  · rw [Function.update_of_ne hai] at ha
    by_cases hbi : b = i
    · rw [hbi, Function.update_self] at hb
      exact absurd hb (h.number_apart hmove he hfew hai ha)
    · rw [Function.update_of_ne hbi] at hb
      exact h.distinct a b n ha hb

/-- The others' temp files are not touched. -/
theorem Inv.owns_step (h : Inv serde pid store strict cred s₀ w cfg point)
    (hmove : (point i).Move pid store (serde.payload (cred i)) e p') (he : env strict e.call e.reply cfg.store s')
    (hfew : fetches (w ++ [(i, e)]) ≤ 2 ^ 64) (j : ι) :
    (Function.update point i p' j).Owns pid store (serde.payload (cred j)) s' := by
  by_cases hj : j = i
  · subst hj
    rw [Function.update_self]
    exact hmove.owns he (h.owns j)
  · rw [Function.update_of_ne hj]
    intro n content hn hcontent
    rw [hmove.frame he (fun _ => tempPath_ne pid store.path n), h.owns j n content hn hcontent]
    intro m hm heq
    obtain rfl := tempPath_inj pid store.path heq
    exact h.number_apart hmove he hfew hj hn hm

theorem Inv.renamed_step (h : Inv serde pid store strict cred s₀ w cfg point)
    (hmove : (point i).Move pid store (serde.payload (cred i)) e p') (he : env strict e.call e.reply cfg.store s')
    (j : ι) (hj : j ∈ renamers (w ++ [(i, e)])) : (Function.update point i p' j).number ≠ none := by
  rw [renamers_snoc, List.mem_append] at hj
  rcases hj with hj | hj
  · obtain ⟨n, hn⟩ := Option.ne_none_iff_exists'.1 (h.renamed j hj)
    rw [number_kept hmove he hn]
    exact Option.some_ne_none n
  · split at hj
    · rename_i hrename
      obtain rfl := List.mem_singleton.1 hj
      obtain ⟨q, hq⟩ := target_of_renames hrename
      obtain ⟨n, hn, -⟩ := hmove.target_eq hq
      rw [Function.update_self, hn]
      exact Option.some_ne_none n
    · cases hj

theorem Inv.created_step (h : Inv serde pid store strict cred s₀ w cfg point)
    (hmove : (point i).Move pid store (serde.payload (cred i)) e p') (j : ι) (q : Path)
    (hj : (j, ⟨.createNew q, .ok ()⟩) ∈ w ++ [(i, e)]) :
    (Function.update point i p' j).owned (serde.payload (cred j)) ≠ none := by
  rw [List.mem_append, List.mem_singleton] at hj
  by_cases hji : j = i
  · subst hji
    rw [Function.update_self]
    refine hmove.owned_ne_none (hj.imp (h.created j q) ?_)
    intro heq
    exact ⟨q, (Prod.mk.inj heq).2.symm⟩
  · rw [Function.update_of_ne hji]
    rcases hj with hj | hj
    · exact h.created j q hj
    · exact absurd (Prod.mk.inj hj).1 hji

end Step

variable [DecidableEq ι]

/-- **One call** of any save keeps the invariant, as long as the numbers last. -/
theorem Inv.step {w : List (ι × Ev Call Reply)} {cfg cfg' : Saves (ι := ι)} {point : ι → Point} {i : ι}
    {e : Ev Call Reply} (h : Inv serde pid store strict cred s₀ w cfg point) (hs : Step (env strict) cfg i e cfg')
    (hfew : fetches (w ++ [(i, e)]) ≤ 2 ^ 64) :
    ∃ p', Inv serde pid store strict cred s₀ (w ++ [(i, e)]) cfg' (Function.update point i p') := by
  obtain ⟨hp, he⟩ := hs
  rename_i g c k r s'
  obtain ⟨p', hmove, hk⟩ := Point.exists_move ((h.prog i).symm.trans hp) r
  refine ⟨p', ?_⟩
  exact {
    prog := by
      intro j
      by_cases hj : j = i
      · subst hj
        rw [Function.update_self]
        exact (Function.update_self ..).trans hk
      · rw [Function.update_of_ne hj]
        exact (Function.update_of_ne hj ..).trans (h.prog j)
    idle := by
      intro j e' hbytes
      by_cases hj : j = i
      · subst hj
        obtain ⟨r', hr'⟩ := h.idle j e' hbytes
        rw [hr'] at hmove
        cases hmove
      · rw [Function.update_of_ne hj]
        exact h.idle j e' hbytes
    counter := h.counter_step hmove he
    numbered := h.numbered_step hmove he
    distinct := h.distinct_step hmove he hfew
    owns := h.owns_step hmove he hfew
    content := h.content_step hmove he
    ok := by
      intro j number owned hok
      rw [renamers_snoc, List.mem_append]
      by_cases hj : j = i
      · subst hj
        rw [Function.update_self] at hok
        rw [if_pos (hmove.renames_of_ok hok)]
        exact Or.inr List.mem_cons_self
      · rw [Function.update_of_ne hj] at hok
        exact Or.inl (h.ok j number owned hok)
    renamed := h.renamed_step hmove he
    target := by
      intro j e' q hj hq
      rw [List.mem_append, List.mem_singleton] at hj
      rcases hj with hj | hj
      · obtain ⟨n, hn, hq⟩ := h.target j e' q hj hq
        exact ⟨n, number_kept hmove he hn, hq⟩
      · cases hj
        rw [Function.update_self]
        exact hmove.target_eq hq
    created := h.created_step hmove
    gone := by
      intro hstrict j number content r' hfinished
      by_cases hj : j = i
      · subst hj hstrict
        rw [Function.update_self] at hfinished
        exact hmove.leaves_none he (h.owns j) hfinished
      · rw [Function.update_of_ne hj] at hfinished
        exact h.gone hstrict j number content r' hfinished }

/-- **Every run** keeps it. -/
theorem inv_of_steps {w : List (ι × Ev Call Reply)} {cfg : Saves (ι := ι)}
    (h : Steps (env strict) ⟨s₀, fun i => store.save serde pid (cred i)⟩ w cfg) (hfew : fetches w ≤ 2 ^ 64) :
    ∃ point, Inv serde pid store strict cred s₀ w cfg point := by
  induction h with
  | nil => exact ⟨_, inv_init⟩
  | snoc h hs ih =>
    obtain ⟨point, hinv⟩ := ih (le_trans (fetches_le_snoc _ _ _) hfew)
    obtain ⟨p', hinv'⟩ := hinv.step hs hfew
    exact ⟨_, hinv'⟩

end Saves

/-! ## A store, and one byte that is its credentials -/

section Wrapped

def accountPath : Path := ⟨false, [.normal "account.json".toList]⟩

def oneByte : Serde Unit := ⟨fun _ => .ok [1], fun _ => .ok ()⟩

/-- No file, and the counter of a new process. -/
def emptyDisk : World := ⟨fun _ => none, 0⟩

/-- Any number of saves that have not begun. -/
def idleSaves : Saves (ι := Nat) := ⟨emptyDisk, fun _ => (⟨accountPath⟩ : FileAccountStore).save oneByte 7 ()⟩

abbrev savePoint (p : Point) : Act (Except DnsError Unit) := p.prog 7 ⟨accountPath⟩ [1]

abbrev SaveMove : Point → Ev Call Reply → Point → Prop := Point.Move 7 ⟨accountPath⟩ [1]

theorem idleSaves_prog (i : Nat) : idleSaves.prog i = savePoint .naming :=
  startPoint_prog oneByte 7 ⟨accountPath⟩ ()

theorem steps_move {w : List (Nat × Ev Call Reply)} {cfg : Saves (ι := Nat)} (h : Steps (env false) idleSaves w cfg)
    {i : Nat} {p p' : Point} {e : Ev Call Reply} (hp : cfg.prog i = savePoint p) (hm : SaveMove p e p') (s' : World)
    (he : env false e.call e.reply cfg.store s') :
    Steps (env false) idleSaves (w ++ [(i, e)]) ⟨s', Function.update cfg.prog i (savePoint p')⟩ := by
  obtain ⟨k, hprog, hk⟩ := hm.prog_eq
  rw [savePoint, ← hk]
  exact .snoc h (.call (hp.trans hprog) he)

/-- A state from which the saves from `next` on have not begun, and the save `0` is ready to rename. -/
structure Ready (files : Path → Option Bytes) (counter : UInt64) (next : Nat) (w : List (Nat × Ev Call Reply))
    (cfg : Saves (ι := Nat)) : Prop where
  steps : Steps (env false) idleSaves w cfg
  store : cfg.store = ⟨files, counter⟩
  first : cfg.prog 0 = savePoint (.publishing 0)
  idle : ∀ i, next ≤ i → cfg.prog i = savePoint .naming

variable {files : Path → Option Bytes} {counter : UInt64} {next : Nat} {w : List (Nat × Ev Call Reply)}
  {cfg : Saves (ι := Nat)}

/-- The save `next` takes a number and tries to create its temp file. -/
theorem Ready.named (h : Ready files counter next w cfg) : ∃ w' cfg',
    Steps (env false) idleSaves w' cfg' ∧ cfg'.store = ⟨files, counter + 1⟩ ∧
      cfg'.prog = Function.update cfg.prog next (savePoint (.creating counter)) := by
  have hn : env false .fetchAdd counter cfg.store ⟨files, counter + 1⟩ := by
    rw [h.store]
    exact ⟨rfl, rfl⟩
  exact ⟨_, _, steps_move h.steps (h.idle next le_rfl) (.named counter) _ hn, rfl, rfl⟩

/-- A save that fails to create its temp file: it may or may not manage to remove it. -/
theorem Ready.fails (h : Ready files counter next w cfg) (hnext : 0 < next) (files' : Path → Option Bytes)
    {r : Except IoError Unit}
    (hr : env false (.removeFile (tempPath 7 accountPath counter)) r ⟨files, counter + 1⟩ ⟨files', counter + 1⟩) :
    ∃ w' cfg', Ready files' (counter + 1) (next + 1) w' cfg' := by
  obtain ⟨w₁, cfg₁, h₁, hstore, hprog⟩ := h.named
  let refused : IoError := ⟨false, "Too many open files (os error 24)"⟩
  have hp₁ : cfg₁.prog next = savePoint (.creating counter) := by
    rw [hprog]
    exact Function.update_self ..
  have h₂ := steps_move h₁ hp₁ (.refused counter refused) cfg₁.store rfl
  rw [hstore] at h₂
  have hmove : ∃ p', SaveMove (.removing counter none (writeError (tempPath 7 accountPath counter) refused))
      ⟨.removeFile (tempPath 7 accountPath counter), r⟩ p' := by
    cases r with
    | ok u => exact ⟨_, .removed _ _ _⟩
    | error e => exact ⟨_, .notRemoved _ _ _ e⟩
  obtain ⟨p', hmove⟩ := hmove
  have h₃ := steps_move h₂ (Function.update_self ..) hmove _ hr
  refine ⟨_, _, h₃, rfl, ?_, fun i hi => ?_⟩
  · have hne : (0 : Nat) ≠ next := by omega
    simp only [Function.update_of_ne hne, hprog]
    exact h.first
  · have hne : i ≠ next := by omega
    simp only [Function.update_of_ne hne, hprog]
    exact h.idle i (by omega)

/-- As many saves as it takes to move the counter on. -/
theorem Ready.advance (h : Ready files counter next w cfg) (hnext : 0 < next) (k : Nat) :
    ∃ w' cfg', Ready files (counter + UInt64.ofNat k) (next + k) w' cfg' := by
  induction k with
  | zero => exact ⟨w, cfg, by simpa using h⟩
  | succ k ih =>
    obtain ⟨w', cfg', h'⟩ := ih
    obtain ⟨w'', cfg'', h''⟩ := h'.fails (by omega) _ (r := .error ⟨true, "No such file or directory (os error 2)"⟩)
      ⟨nofun, rfl⟩
    refine ⟨w'', cfg'', ?_⟩
    rw [UInt64.ofNat_add, ← add_assoc]
    exact h''

abbrev firstTemp : Path := tempPath 7 accountPath 0

/-- A save that has not begun takes its number and creates, writes and syncs its temp file. -/
theorem steps_sync (i : Nat) (n : UInt64) {w : List (Nat × Ev Call Reply)} {prog : Nat → Act (Except DnsError Unit)}
    (h : Steps (env false) idleSaves w ⟨⟨files, n⟩, prog⟩) (hi : prog i = savePoint .naming)
    (hnone : files (tempPath 7 accountPath n) = none) :
    ∃ w', Steps (env false) idleSaves w' ⟨⟨Function.update files (tempPath 7 accountPath n) (some [1]), n + 1⟩,
        Function.update prog i (savePoint (.publishing n))⟩ ∧
      fetches w' = fetches w + 1 ∧ renamers w' = renamers w := by
  let s₁ : World := ⟨files, n + 1⟩
  let s₂ := s₁.put (tempPath 7 accountPath n) (some [])
  let s₃ := s₂.append (tempPath 7 accountPath n) [1]
  have h₁ := steps_move h hi (.named n) s₁ ⟨rfl, rfl⟩
  have h₂ := steps_move h₁ (Function.update_self ..) (.created n) s₂ ⟨hnone, rfl⟩
  have h₃ := steps_move h₂ (Function.update_self ..) (.wrote n 0 0) s₃ ⟨le_rfl, rfl⟩
  have h₄ := steps_move h₃ (Function.update_self ..) (.synced n) s₃ rfl
  have hs₃ : s₃ = ⟨Function.update files (tempPath 7 accountPath n) (some [1]), n + 1⟩ := by
    simp [s₃, World.append, s₂, World.put, s₁]
  simp only [hs₃, Function.update_idem] at h₄
  refine ⟨_, h₄, ?_, ?_⟩
  · simp [fetches]
  · simp [renamers, renames]

/-- The save `0` has written and synced its temp file. -/
theorem exists_synced : ∃ w, Steps (env false) idleSaves w
      ⟨⟨Function.update emptyDisk.files firstTemp (some [1]), 1⟩,
        Function.update idleSaves.prog 0 (savePoint (.publishing 0))⟩ ∧
    fetches w = 1 ∧ renamers w = [] :=
  steps_sync 0 0 .nil (idleSaves_prog 0) rfl

theorem exists_ready : ∃ files w cfg, Ready files 1 1 w cfg ∧ files firstTemp = some [1] := by
  obtain ⟨w, h, -, -⟩ := exists_synced
  refine ⟨_, w, _, ⟨h, rfl, by simp, fun i hi => ?_⟩, Function.update_self ..⟩
  have hne : i ≠ 0 := by omega
  simp only [Function.update_of_ne hne]
  exact idleSaves_prog i

end Wrapped

/-- **The saves of a process never expose a partial file**, as long as the process has numbered at most 2^64 of
them. -/
theorem saves_expose_whole_files {ι Credentials : Type} [DecidableEq ι] (serde : Serde Credentials) (pid : Nat)
    (store : FileAccountStore) (strict : Bool) (cred : ι → Credentials) (s₀ : World) (w : List (ι × Ev Call Reply))
    (cfg : Saves (ι := ι)) (h : Steps (env strict) ⟨s₀, fun i => store.save serde pid (cred i)⟩ w cfg)
    (hfew : fetches w ≤ 2 ^ 64) : NeverPartial serde store strict cred s₀ w cfg := by
  obtain ⟨point, hinv⟩ := inv_of_steps h hfew
  exact hinv.neverPartial

/-- Two saves: the second one begins when the first one has synced its temp file, and renames before it. -/
theorem saves_expose_whole_files_two : ∃ w cfg, Steps (env false) idleSaves w cfg ∧ fetches w ≤ 2 ^ 64 ∧
    renamers w = [1, 0] ∧ NeverPartial oneByte ⟨accountPath⟩ false (fun _ : Nat => ()) emptyDisk w cfg := by
  have hne : tempPath 7 accountPath 1 ≠ firstTemp := fun h => absurd (tempPath_inj _ _ h) (by decide)
  have hkept : firstTemp ≠ accountPath := tempPath_ne 7 accountPath 0
  obtain ⟨w₁, h₁, hf₁, hr₁⟩ := exists_synced
  obtain ⟨w₂, h₂, hf₂, hr₂⟩ := steps_sync 1 1 h₁
    ((Function.update_of_ne one_ne_zero ..).trans (idleSaves_prog 1)) (Function.update_of_ne hne ..)
  have h₃ := steps_move h₂ (Function.update_self ..) (.renamed 1) _ ⟨[1], by simp, rfl⟩
  have h₄ := steps_move h₃ (i := 0) (p := .publishing 0) (by simp) (.renamed 0) _
    ⟨[1], by simp [World.put, Function.update_of_ne hkept, Function.update_of_ne hne.symm], rfl⟩
  let renamed (n : UInt64) : Ev Call Reply := ⟨.rename (tempPath 7 accountPath n) accountPath, .ok ()⟩
  have hfew : fetches (w₂ ++ [(1, renamed 1)] ++ [(0, renamed 0)]) ≤ 2 ^ 64 := by
    rw [fetches_snoc, fetches_snoc, hf₂, hf₁]
    decide
  refine ⟨_, _, h₄, hfew, ?_, saves_expose_whole_files oneByte 7 ⟨accountPath⟩ false (fun _ => ()) emptyDisk _ _ h₄ hfew⟩
  rw [renamers_snoc, renamers_snoc, hr₂, hr₁]
  rfl

/-- **The counter starts over.** The first save has synced its temp file. After 2^64 - 1 more, a save with the same
number is refused and removes that file; after as many again, a third one creates it anew. Then the first save
renames what the third one has not yet written. -/
theorem wrapped_counter_exposes_partial_file :
    idleSaves.store.files accountPath = none ∧ oneByte.toVec () = .ok [1] ∧
      ∃ w cfg, Steps (env false) idleSaves w cfg ∧ cfg.store.files accountPath = some [] := by
  have hwrap : (1 : UInt64) + UInt64.ofNat (2 ^ 64 - 1) = 0 := by decide
  obtain ⟨files, w, cfg, h, hfirst⟩ := exists_ready
  obtain ⟨w₁, cfg₁, h₁⟩ := h.advance Nat.one_pos (2 ^ 64 - 1)
  rw [hwrap] at h₁
  obtain ⟨w₂, cfg₂, h₂⟩ := h₁.fails (by omega) (Function.update files firstTemp none) (r := .ok ())
    ⟨by simp [hfirst], rfl⟩
  obtain ⟨w₃, cfg₃, h₃⟩ := h₂.advance (by omega) (2 ^ 64 - 1)
  rw [zero_add, hwrap] at h₃
  obtain ⟨w₄, cfg₄, h₄, hstore, hprog⟩ := h₃.named
  have hp₄ : cfg₄.prog _ = savePoint (.creating 0) := (congrFun hprog _).trans (Function.update_self ..)
  have h₅ := steps_move h₄ hp₄ (.created 0) (cfg₄.store.put firstTemp (some []))
    ⟨by rw [hstore]; exact Function.update_self firstTemp none files, rfl⟩
  refine ⟨rfl, rfl, _, _, steps_move (i := 0) h₅ ?_ (.renamed 0) _ ⟨[], World.put_self _ _, rfl⟩, World.put_self _ _⟩
  have hne : (0 : Nat) ≠ 1 + (2 ^ 64 - 1) + 1 + (2 ^ 64 - 1) := by decide
  simp only [Function.update_of_ne hne, hprog]
  exact h₃.first

end Cheti.AccountStore
