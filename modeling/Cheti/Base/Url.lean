import Cheti.Base.Utf8
/-!
# Paths of URLs

How the WHATWG standard reads what follows the host of an `https` URL: tabs and newlines are taken out, blanks
are taken off the end, `#` and `?` end the path, a backslash is a slash, and dot segments are resolved, also
when their dots are written as `%2e`. A percent sign is left as it is, so what was escaped before stays so.

`parse_segment` is the reading of a path with one segment of which only the characters are known. Whether the
segment is a dot segment is then the only question left: `resolve` pushes every other one (`resolve_cons`).
-/

namespace Url

/-! ## Percent-encoding -/

def hexDigit (n : Nat) : Char := "0123456789ABCDEF".toList.getD n '0'

def hexValue (c : Char) : Option Nat :=
  if '0' ≤ c ∧ c ≤ '9' then some (c.toNat - 48)
  else if 'A' ≤ c ∧ c ≤ 'F' then some (c.toNat - 55)
  else if 'a' ≤ c ∧ c ≤ 'f' then some (c.toNat - 87)
  else none

def percentEncode (b : UInt8) : Str := ['%', hexDigit (b.toNat / 16), hexDigit (b.toNat % 16)]

/-- The bytes a text stands for. A percent sign that two digits do not follow stands for itself. -/
def percentDecode : Str → List UInt8
  | [] => []
  | '%' :: high :: low :: rest =>
    match hexValue high, hexValue low with
    | some h, some l => UInt8.ofNat (16 * h + l) :: percentDecode rest
    | _, _ => String.utf8EncodeChar '%' ++ percentDecode (high :: low :: rest)
  | c :: rest => String.utf8EncodeChar c ++ percentDecode rest

theorem hexValue_hexDigit : ∀ n < 16, hexValue (hexDigit n) = some n := by decide

theorem percentDecode_percentEncode (b : UInt8) (rest : Str) :
    percentDecode (percentEncode b ++ rest) = b :: percentDecode rest := by
  have hlt := b.toNat_lt
  have hhigh := hexValue_hexDigit (b.toNat / 16) (by omega)
  have hlow := hexValue_hexDigit (b.toNat % 16) (by omega)
  have hbyte : 16 * (b.toNat / 16) + b.toNat % 16 = b.toNat := Nat.div_add_mod ..
  simp only [percentEncode, List.cons_append, List.nil_append]
  rw [percentDecode, hhigh, hlow]
  show UInt8.ofNat (16 * (b.toNat / 16) + b.toNat % 16) :: percentDecode rest = b :: percentDecode rest
  rw [hbyte, UInt8.ofNat_toNat]

theorem percentDecode_cons {c : Char} (h : c ≠ '%') (rest : Str) :
    percentDecode (c :: rest) = String.utf8EncodeChar c ++ percentDecode rest := by
  rw [percentDecode]
  intro high low rest' hc
  exact absurd hc h

theorem percentDecode_flatMap (bs : List UInt8) (rest : Str) :
    percentDecode (bs.flatMap percentEncode ++ rest) = bs ++ percentDecode rest := by
  induction bs with
  | nil => rfl
  | cons b bs ih => rw [List.flatMap_cons, List.append_assoc, percentDecode_percentEncode, ih, List.cons_append]

/-- The text with every character percent-encoded but those to keep. -/
def escape (keep : Char → Bool) (s : Str) : Str :=
  s.flatMap fun c => if keep c then [c] else (String.utf8EncodeChar c).flatMap percentEncode

theorem escape_cons (keep : Char → Bool) (c : Char) (s : Str) :
    escape keep (c :: s) = (if keep c then [c] else (String.utf8EncodeChar c).flatMap percentEncode) ++ escape keep s :=
  List.flatMap_cons

/-- What is escaped can be read back, if percent signs are escaped too. -/
theorem percentDecode_escape {keep : Char → Bool} (h : keep '%' = false) (s : Str) :
    percentDecode (escape keep s) = Text.bytes s := by
  induction s with
  | nil => rfl
  | cons c s ih =>
    have hbytes : Text.bytes (c :: s) = String.utf8EncodeChar c ++ Text.bytes s := List.flatMap_cons
    rw [escape_cons, hbytes, ← ih]
    split
    · rename_i hkeep
      refine percentDecode_cons ?_ _
      rintro rfl
      rw [h] at hkeep
      cases hkeep
    · rw [percentDecode_flatMap]

/-! ## The parser -/

/-- Taken out wherever it stands. -/
def removed (c : Char) : Bool := c == '\t' || c == '\n' || c == '\r'

/-- Taken off the end. -/
def blank (c : Char) : Bool := c.val ≤ 0x20

def isSlash (c : Char) : Bool := c == '/' || c == '\\'

theorem isSlash_slash : isSlash '/' = true := rfl

/-- The path percent-encode set. -/
def inPathSet (c : Char) : Bool := c.val < 0x20 || 0x7E < c.val || " \"#<>?^`\x7b\x7d".toList.contains c

def singleDots : List Str := [".", "%2e", "%2E"].map String.toList

def doubleDots : List Str :=
  ["..", ".%2e", ".%2E", "%2e.", "%2E.", "%2e%2e", "%2e%2E", "%2E%2e", "%2E%2E"].map String.toList

/-- A segment as it stands in the parsed path. -/
def write (segment : Str) : Str :=
  segment.flatMap fun c => if inPathSet c then (String.utf8EncodeChar c).flatMap percentEncode else [c]

/-- The path after a segment that a slash follows. -/
def close (path : List Str) (segment : Str) : List Str :=
  if segment ∈ doubleDots then path.dropLast else if segment ∈ singleDots then path else path ++ [segment]

/-- The path after segments of which the last ends it. A dot segment at the end leaves an empty one. -/
def resolve (path : List Str) : List Str → List Str
  | [] => path
  | [last] => if last ∈ singleDots ++ doubleDots then close path last ++ [[]] else close path last
  | segment :: next :: rest => resolve (close path segment) (next :: rest)

/-- A text up to a character, and what follows it. -/
def cut (c : Char) (s : Str) : Str × Option Str := (s.takeWhile (· != c), (s.dropWhile (· != c)).tail?)

def clean (input : Str) : Str := (input.rdropWhile blank).filter (!removed ·)

def pathText (input : Str) : Str := (cut '?' (cut '#' (clean input)).1).1

/-- The segments as they are written, without the slash a path begins with. -/
def rawSegments : Str → List Str
  | [] => [[]]
  | c :: rest => if isSlash c then rest.splitOnP isSlash else (c :: rest).splitOnP isSlash

structure Parsed where
  path : List Str
  query : Option Str
  fragment : Option Str
deriving DecidableEq, Repr

/-- What follows the host. The query and the fragment are given as they are written: what the parser escapes in
them changes neither. -/
def parse (input : Str) : Parsed where
  path := resolve [] ((rawSegments (pathText input)).map write)
  query := (cut '?' (cut '#' (clean input)).1).2
  fragment := (cut '#' (clean input)).2

/-! ## Dot segments -/

theorem resolve_cons {path : List Str} {segment : Str} (h1 : segment ∉ singleDots) (h2 : segment ∉ doubleDots)
    (rest : List Str) : resolve path (segment :: rest) = resolve (path ++ [segment]) rest := by
  have hclose : close path segment = path ++ [segment] := by rw [close, if_neg h2, if_neg h1]
  cases rest with
  | nil =>
    have hdots : segment ∉ singleDots ++ doubleDots := by simp [h1, h2]
    simp only [resolve, if_neg hdots, hclose]
  | cons next rest => rw [resolve, hclose]

theorem resolve_append (first : List Str) {rest : List Str} (hne : rest ≠ []) (path : List Str) :
    resolve path (first ++ rest) = resolve (first.foldl close path) rest := by
  induction first generalizing path with
  | nil => rfl
  | cons segment first ih =>
    obtain ⟨next, tail, hnext⟩ := List.exists_cons_of_ne_nil (List.append_ne_nil_of_right_ne_nil first hne)
    rw [List.cons_append, hnext, resolve, ← hnext, ih, List.foldl_cons]

/-- What stands before two segments is out of reach of the second. -/
theorem resolve_pair {segment : Str} (h1 : segment ∉ singleDots) (h2 : segment ∉ doubleDots) (last : Str)
    (path : List Str) : resolve path [segment, last] = path ++ resolve [] [segment, last] := by
  rw [resolve_cons h1 h2, resolve_cons h1 h2, List.nil_append]
  simp only [resolve, close]
  split_ifs <;> simp

/-- The decoded bytes tell the dot segments. -/
theorem percentDecode_singleDots : ∀ segment ∈ singleDots, percentDecode segment = Text.bytes ['.'] := by decide

theorem percentDecode_doubleDots : ∀ segment ∈ doubleDots, percentDecode segment = Text.bytes ['.', '.'] := by decide

/-! ## One segment in a path -/

/-- Neither the end of a segment nor anything the parser rewrites. -/
def Plain (segment : Str) : Prop := ∀ c ∈ segment, isSlash c = false ∧ inPathSet c = false

theorem Plain.write_eq {segment : Str} (h : Plain segment) : write segment = segment := by
  unfold write
  have hkept : ∀ c ∈ segment,
      (if inPathSet c then (String.utf8EncodeChar c).flatMap percentEncode else [c]) = [c] := by
    intro c hc
    simp [(h c hc).2]
  rw [List.flatMap_congr hkept]
  exact List.flatMap_singleton' segment

theorem Plain.ne {segment : Str} (h : Plain segment) {c : Char} (hc : c ∈ segment) :
    c ≠ '#' ∧ c ≠ '?' ∧ removed c = false ∧ blank c = false := by
  have hset := (h c hc).2
  refine ⟨?_, ?_, ?_, ?_⟩
  · rintro rfl
    exact absurd hset (by decide)
  · rintro rfl
    exact absurd hset (by decide)
  · rw [← Bool.not_eq_true]
    intro hremoved
    simp only [removed, Bool.or_eq_true, beq_iff_eq] at hremoved
    rcases hremoved with (rfl | rfl) | rfl <;> exact absurd hset (by decide)
  · rw [← Bool.not_eq_true]
    intro hblank
    simp only [blank, decide_eq_true_eq] at hblank
    simp only [inPathSet, Bool.or_eq_false_iff, decide_eq_false_iff_not] at hset
    have hspace : c = ' ' := by
      apply Char.ext
      apply UInt32.toNat_inj.1
      have hle := UInt32.le_iff_toNat_le.1 hblank
      have hge := mt UInt32.lt_iff_toNat_lt.2 hset.1.1
      have h20 : (0x20 : UInt32).toNat = 32 := rfl
      have hsp : (' ').val.toNat = 32 := rfl
      omega
    rw [hspace] at hset
    exact absurd hset.2 (by decide)

theorem rdropWhile_append {p : Char → Bool} {x : Str} (hx : x.rdropWhile p = x) (y : Str) :
    (x ++ y).rdropWhile p = x ++ y.rdropWhile p := by
  rw [List.rdropWhile, List.reverse_append, List.dropWhile_append]
  split
  · rename_i hall
    have hnil : y.rdropWhile p = [] := by rw [List.rdropWhile, List.isEmpty_iff.1 hall, List.reverse_nil]
    rw [hnil, List.append_nil]
    exact hx
  · rw [List.reverse_append, List.reverse_reverse, List.rdropWhile]

/-- Nothing is taken off a segment: the end of the input is that of what follows it. -/
theorem clean_segment (before after : Str) {segment : Str} (h : Plain segment) :
    clean (before ++ '/' :: segment ++ after) = before.filter (!removed ·) ++ '/' :: segment ++ clean after := by
  have hlast : (before ++ '/' :: segment).rdropWhile blank = before ++ '/' :: segment := by
    refine List.rdropWhile_eq_self_iff.2 fun hne => ?_
    rw [List.getLast_append_of_ne_nil hne (List.cons_ne_nil _ _)]
    rcases List.mem_cons.1 (List.getLast_mem (List.cons_ne_nil '/' segment)) with heq | hmem
    · rw [heq]
      decide
    · rw [(h.ne hmem).2.2.2]
      decide
  have hkept : ('/' :: segment).filter (!removed ·) = '/' :: segment := by
    refine List.filter_eq_self.2 fun c hc => ?_
    rcases List.mem_cons.1 hc with rfl | hmem
    · rfl
    · rw [(h.ne hmem).2.2.1]
      rfl
  rw [clean, rdropWhile_append hlast, List.filter_append, List.filter_append, hkept, clean]

theorem cut_append {c : Char} {x : Str} (h : c ∉ x) (y : Str) : cut c (x ++ y) = (x ++ (cut c y).1, (cut c y).2) := by
  have hne : ∀ d ∈ x, (d != c) = true := by
    intro d hd
    rw [bne_iff_ne]
    rintro rfl
    exact h hd
  rw [cut, List.takeWhile_append_of_pos hne, List.dropWhile_append_of_pos hne]
  rfl

/-- The segments in front of a slash, without the one it opens. -/
theorem rawSegments_append (before rest : Str) :
    rawSegments (before ++ '/' :: rest) = (rawSegments (before ++ ['/'])).dropLast ++ rest.splitOnP isSlash := by
  cases before with
  | nil => simp [rawSegments, isSlash_slash]
  | cons c before =>
    simp only [List.cons_append, rawSegments]
    split
    · rw [List.splitOnP_append_cons _ _ isSlash_slash, List.splitOnP_append_cons _ _ isSlash_slash]
      simp
    · rw [← List.cons_append, ← List.cons_append, List.splitOnP_append_cons _ _ isSlash_slash,
        List.splitOnP_append_cons _ _ isSlash_slash]
      simp

/-- Up to the segment there is only path. -/
theorem pathText_segment {before segment : Str} (after : Str) (hin : '?' ∉ before ∧ '#' ∉ before) (h : Plain segment) :
    pathText (before ++ '/' :: segment ++ after) =
        before.filter (!removed ·) ++ '/' :: (segment ++ pathText after) ∧
      (parse (before ++ '/' :: segment ++ after)).query = (parse after).query ∧
      (parse (before ++ '/' :: segment ++ after)).fragment = (parse after).fragment := by
  have hclear : ∀ c, c = '?' ∨ c = '#' → c ∉ before.filter (!removed ·) ++ '/' :: segment := by
    intro c hc hmem
    rw [List.mem_append, List.mem_cons] at hmem
    rcases hmem with hmem | rfl | hmem
    · have hbefore := List.mem_of_mem_filter hmem
      rcases hc with rfl | rfl
      · exact hin.1 hbefore
      · exact hin.2 hbefore
    · exact absurd hc (by decide)
    · rcases hc with rfl | rfl
      · exact (h.ne hmem).2.1 rfl
      · exact (h.ne hmem).1 rfl
  have hclean := clean_segment before after h
  have hhash := cut_append (hclear '#' (Or.inr rfl)) (clean after)
  have hquery := cut_append (hclear '?' (Or.inl rfl)) (cut '#' (clean after)).1
  simp only [pathText, parse, hclean, hhash, hquery]
  simp

/-! ## Templates -/

/-- Segments as a path is written. -/
def joined (segments : List Str) : Str := segments.flatMap ('/' :: ·)

theorem joined_cons (segment : Str) (segments : List Str) :
    joined (segment :: segments) = '/' :: (segment ++ joined segments) :=
  List.flatMap_cons

theorem joined_append (first last : List Str) : joined (first ++ last) = joined first ++ joined last := List.flatMap_append

/-- The segments of what follows. -/
def further (after : Str) : List Str := if pathText after = [] then [] else (rawSegments (pathText after)).map write

/-- A path with a place for one segment. What stands before it is a path, and what follows ends the segment and
does not climb over what stands before. -/
structure Template where
  before : Str
  after : Str
  in_path : '?' ∉ before ∧ '#' ∉ before
  ends : ∀ c ∈ (pathText after).head?, isSlash c = true
  stays : ∀ path, resolve path (further after) = path ++ resolve [] (further after)

namespace Template

variable (t : Template) {segment : Str}

def fill (segment : Str) : Str := t.before ++ '/' :: segment ++ t.after

/-- The segments before the place, which are those of a path that ends with the slash in front of it. -/
def parents : List Str := (parse (t.before ++ ['/'])).path.dropLast

/-- The segments after the place. -/
def children : List Str := resolve [] (further t.after)

theorem splitOnP_segment (h : Plain segment) :
    ((segment ++ pathText t.after).splitOnP isSlash).map write = segment :: further t.after := by
  have hone : segment.splitOnP isSlash = [segment] := List.splitOnP_eq_singleton fun c hc => (h c hc).1
  have hends := t.ends
  unfold further
  cases hafter : pathText t.after with
  | nil => rw [List.append_nil, hone, if_pos rfl, List.map_singleton, h.write_eq]
  | cons c rest =>
    have hslash : isSlash c = true := hends c (by rw [hafter]; rfl)
    rw [List.splitOnP_append_cons _ _ hslash, hone, if_neg (List.cons_ne_nil _ _), rawSegments, if_pos hslash,
      List.map_append, List.map_singleton, h.write_eq, List.singleton_append]

theorem parents_eq : t.parents =
    ((rawSegments (t.before.filter (!removed ·) ++ ['/'])).dropLast.map write).foldl close [] := by
  have hnone : Plain [] := fun c hc => absurd hc List.not_mem_nil
  have hopen : pathText (t.before ++ ['/']) = t.before.filter (!removed ·) ++ ['/'] := by
    have hpath := (pathText_segment [] t.in_path hnone).1
    rwa [List.append_nil] at hpath
  have hraw := rawSegments_append (t.before.filter (!removed ·)) []
  -- the empty segment after the slash is pushed as every other one
  rw [parents, parse, hopen, hraw, List.splitOnP_nil, List.map_append, List.map_singleton, hnone.write_eq,
    resolve_append _ (List.cons_ne_nil _ _), resolve_cons (by decide) (by decide), resolve, List.dropLast_concat,
    List.dropLast_concat]

/-- **The reading of a path with a segment in its place.** -/
theorem parse_fill (h : Plain segment) : parse (t.fill segment) =
    ⟨resolve t.parents (segment :: further t.after), (parse t.after).query, (parse t.after).fragment⟩ := by
  obtain ⟨hpath, hquery, hfragment⟩ := pathText_segment t.after t.in_path h
  have hsegments : (parse (t.fill segment)).path = resolve t.parents (segment :: further t.after) := by
    rw [parse, fill, hpath, rawSegments_append, List.map_append, t.splitOnP_segment h,
      resolve_append _ (List.cons_ne_nil _ _), parents_eq]
  rw [← hsegments, ← hquery, ← hfragment]
  rfl

/-! ## Templates of plain segments -/

theorem joined_kept {segments : List Str} (h : ∀ segment ∈ segments, Plain segment) {c : Char} (hc : c ∈ joined segments) :
    c ≠ '#' ∧ c ≠ '?' ∧ removed c = false ∧ blank c = false := by
  obtain ⟨segment, hmem, hc⟩ := List.mem_flatMap.1 hc
  rcases List.mem_cons.1 hc with rfl | hc
  · decide
  · exact (h segment hmem).ne hc

theorem pathText_joined {segments : List Str} (h : ∀ segment ∈ segments, Plain segment) {query : Str}
    (hquery : ∀ c ∈ query.head?, c = '?') : pathText (joined segments ++ query) = joined segments := by
  have hblank : (joined segments).rdropWhile blank = joined segments := by
    refine List.rdropWhile_eq_self_iff.2 fun hne => ?_
    rw [(joined_kept h (List.getLast_mem hne)).2.2.2]
    decide
  have hremoved : (joined segments).filter (!removed ·) = joined segments := by
    refine List.filter_eq_self.2 fun c hc => ?_
    rw [(joined_kept h hc).2.2.1]
    rfl
  have hend : (cut '?' (cut '#' (clean query)).1).1 = [] := by
    cases query with
    | nil => rfl
    | cons c query =>
      obtain rfl := hquery c rfl
      have hclean : clean ('?' :: query) = '?' :: clean query := by
        have hmark : ['?'].rdropWhile blank = ['?'] := rfl
        have happend := rdropWhile_append hmark query
        rw [List.singleton_append, List.singleton_append] at happend
        rw [clean, happend]
        exact List.filter_cons_of_pos rfl
      rw [hclean]
      rfl
  rw [pathText, clean, rdropWhile_append hblank, List.filter_append, hremoved,
    cut_append fun hc => (joined_kept h hc).1 rfl, cut_append fun hc => (joined_kept h hc).2.1 rfl, ← clean, hend,
    List.append_nil]

theorem splitOnP_joined {segment : Str} {segments : List Str} (h : ∀ x ∈ segment :: segments, Plain x) :
    (segment ++ joined segments).splitOnP isSlash = segment :: segments := by
  induction segments generalizing segment with
  | nil =>
    rw [joined, List.flatMap_nil, List.append_nil]
    exact List.splitOnP_eq_singleton fun c hc => (h segment List.mem_cons_self c hc).1
  | cons next segments ih =>
    have hone : segment.splitOnP isSlash = [segment] :=
      List.splitOnP_eq_singleton fun c hc => (h segment List.mem_cons_self c hc).1
    rw [joined_cons, List.splitOnP_append_cons _ _ isSlash_slash, hone, ih fun x hx => h x (List.mem_cons_of_mem _ hx),
      List.singleton_append]

theorem further_joined {segments : List Str} (h : ∀ segment ∈ segments, Plain segment) {query : Str}
    (hquery : ∀ c ∈ query.head?, c = '?') : further (joined segments ++ query) = segments := by
  rw [further, pathText_joined h hquery]
  cases segments with
  | nil => rfl
  | cons segment segments =>
    have hwrite : (segment :: segments).map write = segment :: segments :=
      (List.map_congr_left fun x hx => (h x hx).write_eq).trans (List.map_id _)
    rw [joined_cons, if_neg (List.cons_ne_nil _ _), rawSegments, if_pos isSlash_slash, splitOnP_joined h, hwrite]

/-- The template `base/first/…/{}/last/…?query`. -/
def ofSegments (base : Str) (first last : List Str) (query : Str) (hbase : '?' ∉ base ∧ '#' ∉ base)
    (hfirst : ∀ segment ∈ first, Plain segment) (hlast : ∀ segment ∈ last, Plain segment)
    (hstays : ∀ path, resolve path last = path ++ resolve [] last) (hquery : ∀ c ∈ query.head?, c = '?') : Template where
  before := base ++ joined first
  after := joined last ++ query
  in_path := by
    rw [List.mem_append, List.mem_append, not_or, not_or]
    exact ⟨⟨hbase.1, fun hc => (joined_kept hfirst hc).2.1 rfl⟩, hbase.2, fun hc => (joined_kept hfirst hc).1 rfl⟩
  ends := by
    rw [pathText_joined hlast hquery]
    intro c hc
    cases last with
    | nil => cases hc
    | cons segment last =>
      rw [joined_cons, List.head?_cons, Option.mem_some_iff] at hc
      rw [← hc]
      exact isSlash_slash
  stays := by rwa [further_joined hlast hquery]

end Template

/-! ## Plain segments and a query -/

theorem clean_eq_self {input : Str} (h : ∀ c ∈ input, removed c = false ∧ blank c = false) : clean input = input := by
  have hend : input.rdropWhile blank = input := by
    refine List.rdropWhile_eq_self_iff.2 fun hne => ?_
    rw [(h _ (List.getLast_mem hne)).2]
    decide
  rw [clean, hend]
  refine List.filter_eq_self.2 fun c hc => ?_
  rw [(h c hc).1]
  rfl

theorem resolve_plain {segments : List Str} (h : ∀ segment ∈ segments, segment ∉ singleDots ∧ segment ∉ doubleDots)
    (path : List Str) : resolve path segments = path ++ segments := by
  induction segments generalizing path with
  | nil => rw [resolve, List.append_nil]
  | cons segment segments ih =>
    rw [List.forall_mem_cons] at h
    rw [resolve_cons h.1.1 h.1.2, ih h.2, List.append_assoc, List.singleton_append]

theorem rawSegments_joined {segments : List Str} (hne : segments ≠ []) (hplain : ∀ segment ∈ segments, Plain segment) :
    rawSegments (joined segments) = segments := by
  obtain ⟨segment, rest, rfl⟩ := List.exists_cons_of_ne_nil hne
  rw [joined_cons, rawSegments, if_pos isSlash_slash, Template.splitOnP_joined hplain]

/-- How a query is written, if there is one. -/
def queryText (query : Option Str) : Str := query.elim [] ('?' :: ·)

/-- Plain segments and a query are read as they are written. -/
theorem parse_joined {segments : List Str} (hne : segments ≠ []) (hplain : ∀ segment ∈ segments, Plain segment)
    (hdots : ∀ segment ∈ segments, segment ∉ singleDots ∧ segment ∉ doubleDots) {query : Option Str}
    (hquery : ∀ q ∈ query, ∀ c ∈ q, c ≠ '#' ∧ removed c = false ∧ blank c = false) :
    parse (joined segments ++ queryText query) = ⟨segments, query, none⟩ := by
  have hmark : ∀ c ∈ (queryText query).head?, c = '?' := by
    intro c hc
    cases query with
    | none => cases hc
    | some q => exact (Option.mem_some_iff.1 hc).symm
  have hkept : ∀ c ∈ joined segments ++ queryText query, c ≠ '#' ∧ removed c = false ∧ blank c = false := by
    intro c hc
    rcases List.mem_append.1 hc with hc | hc
    · obtain ⟨hhash, -, hremoved, hblank⟩ := Template.joined_kept hplain hc
      exact ⟨hhash, hremoved, hblank⟩
    · cases query with
      | none => cases hc
      | some q =>
        rcases List.mem_cons.1 hc with rfl | hc
        · decide
        · exact hquery q rfl c hc
  have hclean := clean_eq_self fun c hc => (hkept c hc).2
  have hfragment : cut '#' (joined segments ++ queryText query) = (joined segments ++ queryText query, none) := by
    have happend := cut_append (fun hc => (hkept _ hc).1 rfl) ([] : Str)
    rwa [List.append_nil, show cut '#' [] = ([], none) from rfl, List.append_nil] at happend
  have hpath := Template.pathText_joined hplain hmark
  have hcut : (cut '?' (joined segments ++ queryText query)).2 = query := by
    rw [cut_append fun hc => (Template.joined_kept hplain hc).2.1 rfl]
    cases query <;> rfl
  have hsegments : (rawSegments (joined segments)).map write = segments := by
    have hwrite : segments.map write = segments :=
      (List.map_congr_left fun x hx => (hplain x hx).write_eq).trans (List.map_id _)
    rwa [rawSegments_joined hne hplain]
  rw [parse, hpath, hsegments, resolve_plain hdots, List.nil_append, hclean, hfragment, hcut]

end Url
