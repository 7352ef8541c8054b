import Cheti.Base.Wp
import Cheti.Error
/-!
# `FileAccountStore` (src/account_store.rs)

| here | there |
| --- | --- |
| `Path`, `parent`, `fileName`, `withFileName` | the functions of `std::path` that the store calls, on Unix paths |
| `Call`, `Reply`, `env`  | the calls of `std::fs` and the process-wide `COUNTER`, over files as a map from paths to bytes |
| `Serde`                 | `serde_json::to_vec` and `from_slice` at `AccountCredentials` |
| `load`                  | `FileAccountStore::load` (account_store.rs:48-63) |
| `tempPath`, `uniqueTempPath` | `unique_temp_path` (account_store.rs:103-111) |
| `writeAll`              | `Write::write_all`: as many calls of `write` as it takes |
| `writePrivate`          | `write_private` (account_store.rs:116-129) |
| `save`                  | `FileAccountStore::save` (account_store.rs:65-98) |

Every call may fail. A `write` may take a first part of the buffer only, `rename` replaces its target at once, and
directories are not in the map.

An error of `save` takes back what it did by the name of the temp file, not by what it created. So if there is a file
at that name, which `create_new` refuses to open, the rollback removes it: `error_changes_nothing_iff`.
-/

namespace Cheti.AccountStore

open Fut

/-! ## Paths -/

inductive Component where
  | curDir
  | parentDir
  | normal (name : Str)
deriving DecidableEq, Repr

def Component.display : Component → String
  | .curDir => "."
  | .parentDir => ".."
  | .normal name => String.ofList name

structure Path where
  absolute : Bool
  components : List Component
deriving DecidableEq, Repr

namespace Path

def display (p : Path) : String :=
  (if p.absolute then "/" else "") ++ String.intercalate "/" (p.components.map Component.display)

/-- `None` for the root and for the empty path. -/
def parent (p : Path) : Option Path :=
  if p.components = [] then none else some { p with components := p.components.dropLast }

def fileName (p : Path) : Option Str :=
  match p.components.getLast? with
  | some (.normal name) => some name
  | _ => none

def withFileName (p : Path) (name : Str) : Path :=
  { p with components := (if p.fileName.isSome then p.components.dropLast else p.components) ++ [.normal name] }

/-- `as_os_str().is_empty()` -/
def isEmpty (p : Path) : Bool := !p.absolute && p.components.isEmpty

end Path

/-! ## The file system -/

abbrev Bytes := List UInt8

structure IoError where
  /-- `e.kind() == ErrorKind::NotFound` -/
  notFound : Bool
  text : String
deriving DecidableEq, Repr

instance : ToString IoError := ⟨IoError.text⟩

inductive Call where
  | createDirAll (dir : Path)
  /-- `COUNTER.fetch_add(1)` -/
  | fetchAdd
  | createNew (path : Path)
  | write (path : Path) (buf : Bytes)
  | syncAll (path : Path)
  | rename (source target : Path)
  | removeFile (path : Path)
  | read (path : Path)
deriving DecidableEq

abbrev Reply : Call → Type
  | .fetchAdd => UInt64
  | .write _ _ => Except IoError Nat
  | .read _ => Except IoError Bytes
  | _ => Except IoError Unit

abbrev Act (α : Type) := Fut Unit Call Reply α

/-- The files, and the counter of the process. -/
structure World where
  files : Path → Option Bytes
  counter : UInt64

namespace World

variable (s : World)

def put (p : Path) (content : Option Bytes) : World := { s with files := Function.update s.files p content }

/-- Bytes for a file that was unlinked are not at any path. -/
def append (p : Path) (bytes : Bytes) : World :=
  match s.files p with
  | some old => s.put p (some (old ++ bytes))
  | none => s

end World

/-- What the calls do. With `strict`, removing a file that exists succeeds. -/
def env (strict : Bool) : Env Call Reply World
  | .createDirAll _, _, s, s' => s' = s
  | .fetchAdd, n, s, s' => n = s.counter ∧ s' = { s with counter := s.counter + 1 }
  | .createNew p, .ok (), s, s' => s.files p = none ∧ s' = s.put p (some [])
  | .createNew _, .error _, s, s' => s' = s
  | .write p buf, .ok n, s, s' => n ≤ buf.length ∧ s' = s.append p (buf.take n)
  | .write _ _, .error _, s, s' => s' = s
  | .syncAll _, _, s, s' => s' = s
  | .rename source target, .ok (), s, s' =>
    ∃ content, s.files source = some content ∧ s' = (s.put source none).put target (some content)
  | .rename _ _, .error _, s, s' => s' = s
  | .removeFile p, .ok (), s, s' => s.files p ≠ none ∧ s' = s.put p none
  | .removeFile p, .error _, s, s' => (strict = true → s.files p = none) ∧ s' = s
  | .read p, .ok bytes, s, s' => s.files p = some bytes ∧ s' = s
  | .read p, .error e, s, s' => (e.notFound = true → s.files p = none) ∧ s' = s

/-! ## The store -/

structure Serde (Credentials : Type) where
  toVec : Credentials → Except String Bytes
  fromSlice : Bytes → Except String Credentials

structure FileAccountStore where
  path : Path

/-- The temp file of the call with number `n`. -/
def tempPath (pid : Nat) (path : Path) (n : UInt64) : Path :=
  path.withFileName (path.fileName.getD [] ++ s!".{pid}.{n}.tmp".toList)

def uniqueTempPath (pid : Nat) (path : Path) : Act Path := .await none .fetchAdd fun n => .done (tempPath pid path n)

/-- `ErrorKind::WriteZero` -/
def writeZero : IoError := ⟨false, "failed to write whole buffer"⟩

def writeAll (path : Path) : Bytes → Act (Except IoError Unit)
  | [] => .done (.ok ())
  | b :: bytes =>
    .await none (.write path (b :: bytes)) fun
      | .error e => .done (.error e)
      | .ok 0 => .done (.error writeZero)
      | .ok (n + 1) => writeAll path (bytes.drop n)
termination_by bytes => bytes.length
decreasing_by
  rw [List.length_drop, List.length_cons]
  omega

/-- `file.write_all(bytes)?; file.sync_all()`, with the outcome of `write_all`. -/
def syncAfter (path : Path) : Except IoError Unit → Act (Except IoError Unit)
  | .error e => .done (.error e)
  | .ok () => .await none (.syncAll path) .done

def writePrivate (path : Path) (bytes : Bytes) : Act (Except IoError Unit) :=
  .await none (.createNew path) fun
    | .error e => .done (.error e)
    | .ok () => (writeAll path bytes).bind (syncAfter path)

def writeError (tmp : Path) (e : IoError) : DnsError := .storage s!"write {tmp.display}: {e}"

def renameError (tmp path : Path) (e : IoError) : DnsError := .storage s!"rename {tmp.display} -> {path.display}: {e}"

namespace FileAccountStore

variable {Credentials : Type} (serde : Serde Credentials) (pid : Nat) (store : FileAccountStore)

def load : Act (Except DnsError (Option Credentials)) :=
  .await none (.read store.path) fun
    | .ok bytes =>
      match serde.fromSlice bytes with
      | .ok creds => .done (.ok (some creds))
      | .error e => .done (.error (.storage s!"parse account store {store.path.display}: {e}"))
    | .error e =>
      if e.notFound then .done (.ok none)
      else .done (.error (.storage s!"read account store {store.path.display}: {e}"))

/-- `let _ = std::fs::remove_file(&tmp);` and the error. -/
def rollback (tmp : Path) (e : DnsError) : Act (Except DnsError Unit) :=
  .await none (.removeFile tmp) fun _ => .done (.error e)

/-- What follows `write_private`. -/
def publish (tmp : Path) : Except IoError Unit → Act (Except DnsError Unit)
  | .error e => rollback tmp (writeError tmp e)
  | .ok () =>
    .await none (.rename tmp store.path) fun
      | .error e => rollback tmp (renameError tmp store.path e)
      | .ok () => .done (.ok ())

/-- What follows `create_dir_all`. -/
def replace (bytes : Bytes) : Act (Except DnsError Unit) :=
  (uniqueTempPath pid store.path).bind fun tmp => (writePrivate tmp bytes).bind (store.publish tmp)

def save (credentials : Credentials) : Act (Except DnsError Unit) :=
  match serde.toVec credentials with
  | .error e => .done (.error (.storage s!"serialize account credentials: {e}"))
  | .ok bytes =>
    match store.path.parent with
    | none => .done (.error (.storage s!"account store path has no parent: {store.path.display}"))
    | some parent =>
      if parent.isEmpty then store.replace pid bytes
      else .await none (.createDirAll parent) fun
        | .error e => .done (.error (.storage s!"create parent {parent.display}: {e}"))
        | .ok () => store.replace pid bytes

end FileAccountStore

/-! ## A failed save -/

/-- The two states differ at most at `tmp`. -/
def World.Apart (tmp : Path) (s s' : World) : Prop := ∀ q, q ≠ tmp → s'.files q = s.files q

namespace World

variable {s s₁ s₂ : World} {tmp : Path}

theorem put_of_ne {p q : Path} (h : q ≠ p) (content : Option Bytes) : (s.put p content).files q = s.files q :=
  Function.update_of_ne h _ _

@[simp] theorem put_self (p : Path) (content : Option Bytes) : (s.put p content).files p = content :=
  Function.update_self _ _ _

theorem append_of_ne {p q : Path} (h : q ≠ p) (bytes : Bytes) : (s.append p bytes).files q = s.files q := by
  unfold append
  split
  · exact put_of_ne h _
  · rfl

theorem append_self (p : Path) (bytes : Bytes) : (s.append p bytes).files p = (s.files p).map (· ++ bytes) := by
  unfold append
  split
  · rename_i old hold
    simp [hold]
  · rename_i hnone
    simp [hnone]

theorem Apart.put (h : Apart tmp s s₁) (content : Option Bytes) : Apart tmp s (s₁.put tmp content) :=
  fun q hq => (put_of_ne hq content).trans (h q hq)

theorem Apart.append (h : Apart tmp s s₁) (bytes : Bytes) : Apart tmp s (s₁.append tmp bytes) :=
  fun q hq => (append_of_ne hq bytes).trans (h q hq)

theorem Apart.eq_of_none (h : Apart tmp s s₁) (hs : s.files tmp = none) (hs₁ : s₁.files tmp = none) :
    s₁.files = s.files := by
  funext q
  by_cases hq : q = tmp
  · rw [hq, hs, hs₁]
  · exact h q hq

end World

/-- An error, and the files are as they were. -/
def Undone (s : World) (r : Except DnsError Unit) (s' : World) : Prop := ∀ e, r = .error e → s'.files = s.files

section Rollback

open World

variable {s s₁ : World} {tmp : Path}

/-- Writing touches the temp file only. -/
theorem wp_writeAll (bytes : Bytes) (h : Apart tmp s s₁) :
    wp (fun _ _ => True) (env true) (writeAll tmp bytes) (fun _ => Apart tmp s) s₁ := by
  induction hlen : bytes.length using Nat.strong_induction_on generalizing bytes s₁ with
  | _ len ih =>
    cases bytes with
    | nil =>
      rw [writeAll]
      exact h
    | cons b bytes =>
      rw [writeAll]
      refine ⟨trivial, fun r s₂ hr => ?_⟩
      match r, hr with
      | .error e, hr =>
        obtain rfl : s₂ = s₁ := hr
        exact h
      | .ok 0, hr =>
        obtain ⟨-, rfl⟩ := hr
        exact h.append _
      | .ok (n + 1), hr =>
        obtain ⟨-, rfl⟩ := hr
        refine ih _ ?_ (bytes.drop n) (h.append _) rfl
        rw [← hlen, List.length_drop, List.length_cons]
        omega

theorem wp_writePrivate (bytes : Bytes) (h : Apart tmp s s₁) :
    wp (fun _ _ => True) (env true) (writePrivate tmp bytes) (fun _ => Apart tmp s) s₁ := by
  refine ⟨trivial, fun r s₂ hr => ?_⟩
  match r, hr with
  | .error e, hr =>
    obtain rfl : s₂ = s₁ := hr
    exact h
  | .ok (), hr =>
    obtain ⟨-, rfl⟩ := hr
    refine wp_bind.2 (wp_mono (wp_writeAll bytes (h.put _)) fun r s₃ h₃ => ?_)
    cases r with
    | error e => exact h₃
    | ok u =>
      refine ⟨trivial, fun r s₄ h₄ => ?_⟩
      obtain rfl : s₄ = s₃ := h₄
      exact h₃

/-- The rollback takes everything back, if the temp file was not there before. -/
theorem wp_rollback (hs : s.files tmp = none) (h : Apart tmp s s₁) (e : DnsError) :
    wp (fun _ _ => True) (env true) (FileAccountStore.rollback tmp e) (Undone s) s₁ := by
  refine ⟨trivial, fun r s₂ hr => ?_⟩
  rintro - -
  match r, hr with
  | .error _, hr =>
    obtain ⟨hgone, rfl⟩ := hr
    exact h.eq_of_none hs (hgone rfl)
  | .ok (), hr =>
    obtain ⟨-, rfl⟩ := hr
    exact (h.put none).eq_of_none hs (put_self _ _)

theorem wp_publish (store : FileAccountStore) (hs : s.files tmp = none) (h : Apart tmp s s₁) (r : Except IoError Unit) :
    wp (fun _ _ => True) (env true) (store.publish tmp r) (Undone s) s₁ := by
  cases r with
  | error e => exact wp_rollback hs h _
  | ok u =>
    refine ⟨trivial, fun r s₂ hr => ?_⟩
    match r, hr with
    | .error e, hr =>
      obtain rfl : s₂ = s₁ := hr
      exact wp_rollback hs h _
    | .ok (), _ =>
      rintro e he
      cases he

theorem wp_replace (pid : Nat) (store : FileAccountStore) (bytes : Bytes)
    (hs : s.files (tempPath pid store.path s.counter) = none) :
    wp (fun _ _ => True) (env true) (store.replace pid bytes) (Undone s) s := by
  refine ⟨trivial, fun n s₁ hn => ?_⟩
  obtain ⟨rfl, rfl⟩ := hn
  show wp _ _ ((writePrivate (tempPath pid store.path s.counter) bytes).bind (store.publish _)) _ _
  refine wp_bind.2 (wp_mono (wp_writePrivate bytes (s := s) fun _ _ => rfl) fun r s₂ h₂ => ?_)
  exact wp_publish store hs h₂ r

end Rollback

namespace FileAccountStore

variable {Credentials : Type} (serde : Serde Credentials) (pid : Nat) (store : FileAccountStore)

theorem wp_save (credentials : Credentials) {s : World}
    (hs : ∀ bytes, serde.toVec credentials = .ok bytes → store.path.parent ≠ none →
      s.files (tempPath pid store.path s.counter) = none) :
    wp (fun _ _ => True) (env true) (store.save serde pid credentials) (Undone s) s := by
  unfold save
  split
  · exact fun _ _ => rfl
  · rename_i bytes hbytes
    split
    · exact fun _ _ => rfl
    · rename_i parent hparent
      have hfree := hs bytes hbytes (by simp [hparent])
      split
      · exact wp_replace pid store bytes hfree
      · refine ⟨trivial, fun r s₁ hr => ?_⟩
        obtain rfl : s₁ = s := by cases r <;> exact hr
        cases r with
        | error e => exact fun _ _ => rfl
        | ok u => exact wp_replace pid store bytes hfree

/-- The temp file cannot be created, and is removed. -/
theorem runs_replace_refused (bytes : Bytes) (n : UInt64) (e : IoError) :
    (store.replace pid bytes).Runs
      [⟨.fetchAdd, n⟩, ⟨.createNew (tempPath pid store.path n), .error e⟩, ⟨.removeFile (tempPath pid store.path n), .ok ()⟩]
      (.error (writeError (tempPath pid store.path n) e)) :=
  ⟨n, rfl, .error e, rfl, .ok (), rfl, rfl⟩

/-- A file at the temp path is refused, and then removed. -/
theorem exists_removing_run {credentials : Credentials} {bytes : Bytes} (hbytes : serde.toVec credentials = .ok bytes)
    (hparent : store.path.parent ≠ none) {s : World} (hs : s.files (tempPath pid store.path s.counter) ≠ none) :
    ∃ t e s', (store.save serde pid credentials).Runs t (.error e) ∧ Chain (env true) t s s' ∧
      s'.files (tempPath pid store.path s.counter) = none := by
  obtain ⟨parent, hparent⟩ := Option.ne_none_iff_exists'.1 hparent
  let tmp := tempPath pid store.path s.counter
  let refused : IoError := ⟨false, "File exists (os error 17)"⟩
  let s₁ : World := { s with counter := s.counter + 1 }
  let t : List (Ev Call Reply) := [⟨.fetchAdd, s.counter⟩, ⟨.createNew tmp, .error refused⟩, ⟨.removeFile tmp, .ok ()⟩]
  have hchain : Chain (env true) t s (s₁.put tmp none) := ⟨s₁, ⟨rfl, rfl⟩, s₁, rfl, _, ⟨hs, rfl⟩, rfl⟩
  have hrun : (store.replace pid bytes).Runs t (.error (writeError tmp refused)) :=
    runs_replace_refused pid store bytes s.counter refused
  by_cases hempty : parent.isEmpty = true
  · refine ⟨t, writeError tmp refused, s₁.put tmp none, ?_, hchain, World.put_self _ _⟩
    simp only [save, hbytes, hparent, if_pos hempty]
    exact hrun
  · refine ⟨⟨.createDirAll parent, .ok ()⟩ :: t, writeError tmp refused, s₁.put tmp none, ?_, ⟨s, rfl, hchain⟩,
      World.put_self _ _⟩
    simp only [save, hbytes, hparent, if_neg hempty]
    exact runs_await.2 ⟨.ok (), t, rfl, hrun⟩

end FileAccountStore

/-- **A failed save changes no file if and only if no file was at its temp path**, where it gets as far as
to a temp path. -/
theorem error_changes_nothing_iff {Credentials : Type} (serde : Serde Credentials) (pid : Nat) (store : FileAccountStore)
    (credentials : Credentials) (s : World) :
    (∀ t e s', (store.save serde pid credentials).Runs t (.error e) → Chain (env true) t s s' → s'.files = s.files) ↔
      ∀ bytes, serde.toVec credentials = .ok bytes → store.path.parent ≠ none →
        s.files (tempPath pid store.path s.counter) = none := by
  constructor
  · intro h bytes hbytes hparent
    by_contra hs
    obtain ⟨t, e, s', hrun, hchain, hgone⟩ := FileAccountStore.exists_removing_run serde pid store hbytes hparent hs
    rw [h t e s' hrun hchain] at hgone
    exact hs hgone
  · intro h t e s' hrun hchain
    exact (FileAccountStore.wp_save serde pid store credentials h).of_runs hrun hchain e rfl

/-- `account.json`, the process 7, and a file with one byte at `account.json.7.0.tmp`. -/
theorem planted_file_removed :
    let path : Path := ⟨false, [.normal "account.json".toList]⟩
    let planted : Path := ⟨false, [.normal "account.json.7.0.tmp".toList]⟩
    let serde : Serde Unit := ⟨fun _ => .ok [1], fun _ => .ok ()⟩
    let s : World := ⟨Function.update (fun _ => none) planted (some [0]), 0⟩
    ∃ t e s', ((⟨path⟩ : FileAccountStore).save serde 7 ()).Runs t (.error e) ∧ Chain (env true) t s s' ∧
      s.files planted = some [0] ∧ s'.files planted = none := by
  intro path planted serde s
  have htemp : tempPath 7 path 0 = planted := by decide
  have hs : s.files planted = some [0] := Function.update_self planted (some [0]) fun _ => none
  have hvec : serde.toVec () = .ok [1] := rfl
  have hused : s.files (tempPath 7 path s.counter) ≠ none := by
    show s.files (tempPath 7 path 0) ≠ none
    rw [htemp, hs]
    exact Option.some_ne_none _
  obtain ⟨t, e, s', hrun, hchain, hgone⟩ :=
    FileAccountStore.exists_removing_run serde 7 ⟨path⟩ hvec (by decide) hused
  refine ⟨t, e, s', hrun, hchain, hs, ?_⟩
  rw [← htemp]
  exact hgone

end Cheti.AccountStore
