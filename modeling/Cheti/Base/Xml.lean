import Cheti.Base.Prim
/-!
# XML documents

The part of XML 1.0 that messages between programs use: elements with attributes, text with the five predefined
references, and a declaration; no comments, no CDATA, no other references. A document is read as a list of tags,
each with the text that follows it. A literal carriage return is read as a line feed, as the standard asks for, so a
text with one in it is not read back as it was (`read_write`).
-/

namespace Xml

/-! ## Text -/

/-- `Char` of the standard. -/
def isChar (c : Char) : Bool :=
  c == '\t' || c == '\n' || c == '\r' || (decide (0x20 ≤ c.val) && c.val != 0xFFFE && c.val != 0xFFFF)

/-- The predefined references. -/
def references : List (Char × Str) :=
  [('<', "lt".toList), ('>', "gt".toList), ('&', "amp".toList), ('\'', "apos".toList), ('"', "quot".toList)]

def escapeChar (c : Char) : Str :=
  match references.find? (·.1 = c) with
  | some (_, name) => '&' :: name ++ [';']
  | none => [c]

def escape (s : Str) : Str := s.flatMap escapeChar

/-- What follows an `&`: a name, a semicolon, and text. -/
def readReference (part : Str) : Option Str := do
  let (c, _) ← references.find? (·.2 = part.takeWhile (· != ';'))
  let text ← (part.dropWhile (· != ';')).tail?
  return c :: text

def unescape (s : Str) : Option Str :=
  match s.splitOn '&' with
  | [] => some []
  | text :: parts => (parts.mapM readReference).map fun texts => text ++ texts.flatten

theorem splitOn_append_left {d : Char} {t : Str} (ht : d ∉ t) (s : Str) :
    (t ++ s).splitOn d = (s.splitOn d).modifyHead (t ++ ·) := by
  induction t with
  | nil => cases hs : s.splitOn d <;> simp [hs]
  | cons c t ih =>
    rw [List.mem_cons, not_or] at ht
    have hstep : (c :: (t ++ s)).splitOn d = ((t ++ s).splitOn d).modifyHead (c :: ·) := by
      simp [List.splitOn_cons_eq_if_modifyHead, Ne.symm ht.1]
    rw [List.cons_append, hstep, ih ht.2]
    cases s.splitOn d <;> simp

theorem splitOn_cons_self (d : Char) (s : Str) : (d :: s).splitOn d = [] :: s.splitOn d := by
  simp [List.splitOn_cons_eq_if_modifyHead]

theorem unescape_cons {c : Char} (hc : c ≠ '&') (s : Str) : unescape (c :: s) = (unescape s).map (c :: ·) := by
  unfold unescape
  have hsplit : (c :: s).splitOn '&' = (s.splitOn '&').modifyHead (c :: ·) :=
    splitOn_append_left (t := [c]) (by simpa using hc.symm) s
  rw [hsplit]
  cases hs : s.splitOn '&' with
  | nil => exact absurd hs (List.splitOnP_ne_nil _ s)
  | cons text parts => simp [Function.comp_def]

theorem unescape_reference {c : Char} {name : Str} (h : references.find? (·.2 = name) = some (c, name))
    (hname : '&' ∉ name ∧ ';' ∉ name) (s : Str) : unescape ('&' :: name ++ ';' :: s) = (unescape s).map (c :: ·) := by
  unfold unescape
  have hsplit : ('&' :: name ++ ';' :: s).splitOn '&' = [] :: (s.splitOn '&').modifyHead ((name ++ [';']) ++ ·) := by
    have hmark : '&' ∉ name ++ [';'] := by simp [hname.1]
    rw [← splitOn_append_left hmark, List.append_assoc, List.singleton_append, List.cons_append, splitOn_cons_self]
  rw [hsplit]
  cases hs : s.splitOn '&' with
  | nil => exact absurd hs (List.splitOnP_ne_nil _ s)
  | cons text parts =>
    have hne : ∀ d ∈ name, (d != ';') = true := by
      intro d hd
      rw [bne_iff_ne]
      rintro rfl
      exact hname.2 hd
    have hread : readReference (name ++ ';' :: text) = some (c :: text) := by
      unfold readReference
      rw [List.takeWhile_append_of_pos hne, List.dropWhile_append_of_pos hne]
      simp [h]
    simp only [List.modifyHead_cons, List.append_assoc, List.singleton_append, List.mapM_cons, hread]
    cases parts.mapM readReference <;> simp

/-- **What is escaped is read back.** -/
theorem unescape_escape (s : Str) : unescape (escape s) = some s := by
  induction s with
  | nil => rfl
  | cons c s ih =>
    have hcons : escape (c :: s) = escapeChar c ++ escape s := List.flatMap_cons
    rw [hcons, escapeChar]
    cases hfind : references.find? (·.1 = c) with
    | none =>
      have hc : c ≠ '&' := by
        rintro rfl
        cases hfind
      rw [List.singleton_append, unescape_cons hc, ih]
      rfl
    | some found =>
      have hmem := List.mem_of_find?_eq_some hfind
      have hname : ∀ r ∈ references, references.find? (·.2 = r.2) = some (r.1, r.2) ∧ '&' ∉ r.2 ∧ ';' ∉ r.2 := by decide
      obtain ⟨hback, hand, hsemi⟩ := hname found hmem
      have hc : found.1 = c := by simpa using List.find?_some hfind
      obtain ⟨c', name⟩ := found
      subst hc
      have hparts := unescape_reference hback ⟨hand, hsemi⟩ (escape s)
      simp only [List.append_assoc, List.cons_append, List.nil_append] at hparts ⊢
      rw [hparts, ih]
      rfl

theorem escape_eq_self {s : Str} (h : ∀ c ∈ s, ∀ r ∈ references, r.1 ≠ c) : escape s = s := by
  have hkept : ∀ c ∈ s, escapeChar c = [c] := by
    intro c hc
    have hnone : references.find? (·.1 = c) = none := by
      simpa [List.find?_eq_none] using h c hc
    rw [escapeChar, hnone]
  rw [escape, List.flatMap_congr hkept]
  exact List.flatMap_singleton' s

/-- No markup is left in it. -/
theorem not_mem_escape {c : Char} (hc : c = '<' ∨ c = '>') (s : Str) : c ∉ escape s := by
  intro hmem
  obtain ⟨d, -, hd⟩ := List.mem_flatMap.1 hmem
  rw [escapeChar] at hd
  split at hd
  · rename_i name hfind
    have hnone : ∀ r ∈ references, '<' ∉ '&' :: r.2 ++ [';'] ∧ '>' ∉ '&' :: r.2 ++ [';'] := by decide
    obtain ⟨hlt, hgt⟩ := hnone _ (List.mem_of_find?_eq_some hfind)
    rcases hc with rfl | rfl
    · exact hlt hd
    · exact hgt hd
  · rename_i hfind
    obtain rfl := List.mem_singleton.1 hd
    rcases hc with rfl | rfl <;> cases hfind

/-! ## Tags -/

inductive Tag where
  /-- `<?…?>` -/
  | decl (body : Str)
  /-- `<name …>`, with what follows the name as it is written. -/
  | start (name attributes : Str)
  | stop (name : Str)
deriving DecidableEq, Repr

namespace Tag

def write : Tag → Str
  | .decl body => '?' :: body ++ ['?']
  | .start name attributes => name ++ attributes
  | .stop name => '/' :: name

def read : Str → Option Tag
  | '?' :: rest => if rest.getLast? = some '?' then some (.decl rest.dropLast) else none
  | '/' :: name => some (.stop name)
  | '!' :: _ => none
  | body => if body.getLast? = some '/' then none
    else some (.start (body.takeWhile (· != ' ')) (body.dropWhile (· != ' ')))

end Tag

/-- A tag and the text that follows it. -/
abbrev Piece := Tag × Str

def Piece.write (piece : Piece) : Str := '<' :: piece.1.write ++ '>' :: escape piece.2

def write (pieces : List Piece) : Str := pieces.flatMap Piece.write

def markup (tags : List Tag) : Str := tags.flatMap fun tag => '<' :: tag.write ++ ['>']

/-- Tags with no text between them, and a text after the last. -/
def upTo : List Tag → Str → List Piece
  | [], _ => []
  | [tag], text => [(tag, text)]
  | tag :: next :: rest, text => (tag, []) :: upTo (next :: rest) text

theorem write_append (first rest : List Piece) : write (first ++ rest) = write first ++ write rest := List.flatMap_append

theorem write_upTo {tags : List Tag} (h : tags ≠ []) (text : Str) : write (upTo tags text) = markup tags ++ escape text := by
  induction tags with
  | nil => exact absurd rfl h
  | cons tag tags ih =>
    cases tags with
    | nil => simp [upTo, write, markup, Piece.write]
    | cons next rest =>
      have hcons : write (upTo (tag :: next :: rest) text) = Piece.write (tag, []) ++ write (upTo (next :: rest) text) :=
        List.flatMap_cons
      rw [hcons, ih (List.cons_ne_nil _ _)]
      simp [markup, Piece.write, escape]

def readPiece (part : Str) : Option Piece := do
  let text ← (part.dropWhile (· != '>')).tail?
  let tag ← Tag.read (part.takeWhile (· != '>'))
  let text ← unescape text
  return (tag, text)

/-- `\r\n` and `\r` are read as `\n`. -/
def lineEnds : Str → Str
  | [] => []
  | '\r' :: '\n' :: rest => '\n' :: lineEnds rest
  | '\r' :: rest => '\n' :: lineEnds rest
  | c :: rest => c :: lineEnds rest

def read (document : Str) : Option (List Piece) :=
  if document.all isChar then
    match (lineEnds document).splitOn '<' with
    | [] :: parts => parts.mapM readPiece
    | _ => none
  else none

/-! ## Reading back what was written -/

/-- A tag that is read as it is written. -/
def Tag.WF (tag : Tag) : Prop :=
  Tag.read tag.write = some tag ∧ ∀ c ∈ tag.write, isChar c = true ∧ c ≠ '<' ∧ c ≠ '>' ∧ c ≠ '\r'

instance (tag : Tag) : Decidable tag.WF := @instDecidableAnd _ _ inferInstance (List.decidableBAll _ _)

def Clean (text : Str) : Prop := ∀ c ∈ text, isChar c = true ∧ c ≠ '\r'

instance (text : Str) : Decidable (Clean text) := List.decidableBAll _ text

theorem wf_upTo {tags : List Tag} {text : Str} (htags : ∀ tag ∈ tags, tag.WF) (htext : Clean text) :
    ∀ piece ∈ upTo tags text, piece.1.WF ∧ Clean piece.2 := by
  induction tags with
  | nil =>
    intro piece hpiece
    cases hpiece
  | cons tag tags ih =>
    rw [List.forall_mem_cons] at htags
    cases tags with
    | nil => simpa [upTo] using ⟨htags.1, htext⟩
    | cons next rest =>
      intro piece hpiece
      rcases List.mem_cons.1 hpiece with rfl | hpiece
      · exact ⟨htags.1, fun c hc => absurd hc List.not_mem_nil⟩
      · exact ih htags.2 piece hpiece

theorem clean_escape {text : Str} (h : Clean text) : Clean (escape text) := by
  intro c hc
  obtain ⟨d, hd, hmem⟩ := List.mem_flatMap.1 hc
  rw [escapeChar] at hmem
  split at hmem
  · rename_i name hfind
    have hclean : ∀ r ∈ references, Clean ('&' :: r.2 ++ [';']) := by decide
    exact hclean _ (List.mem_of_find?_eq_some hfind) c hmem
  · obtain rfl := List.mem_singleton.1 hmem
    exact h c hd

theorem lineEnds_clean {text : Str} (h : Clean text) : lineEnds text = text := by
  induction text with
  | nil => rfl
  | cons c text ih =>
    have hc := (h c List.mem_cons_self).2
    rw [lineEnds]
    · rw [ih fun d hd => h d (List.mem_cons_of_mem _ hd)]
    · rintro rest rfl
      exact fun _ => hc rfl
    · exact hc

theorem splitOn_write {parts : List Str} (h : ∀ part ∈ parts, '<' ∉ part) :
    (parts.flatMap ('<' :: ·)).splitOn '<' = [] :: parts := by
  induction parts with
  | nil => rfl
  | cons part parts ih =>
    rw [List.forall_mem_cons] at h
    rw [List.flatMap_cons, List.cons_append, splitOn_cons_self, splitOn_append_left h.1, ih h.2]
    simp

theorem readPiece_write {piece : Piece} (h : piece.1.WF) :
    readPiece (piece.1.write ++ '>' :: escape piece.2) = some piece := by
  have hne : ∀ c ∈ piece.1.write, (c != '>') = true := fun c hc => bne_iff_ne.2 (h.2 c hc).2.2.1
  unfold readPiece
  rw [List.takeWhile_append_of_pos hne, List.dropWhile_append_of_pos hne]
  simp [h.1, unescape_escape]

/-- **A document is read as it was written**, if its texts have only characters of XML and no carriage return. -/
theorem read_write {pieces : List Piece} (h : ∀ piece ∈ pieces, piece.1.WF ∧ Clean piece.2) :
    read (write pieces) = some pieces := by
  have hclean : Clean (write pieces) := by
    intro c hc
    obtain ⟨piece, hpiece, hc⟩ := List.mem_flatMap.1 hc
    obtain ⟨htag, htext⟩ := h piece hpiece
    simp only [Piece.write, List.mem_append, List.mem_cons] at hc
    rcases hc with (rfl | hc) | rfl | hc
    · decide
    · exact ⟨(htag.2 c hc).1, (htag.2 c hc).2.2.2⟩
    · decide
    · exact clean_escape htext c hc
  have hall : (write pieces).all isChar = true := List.all_eq_true.2 fun c hc => (hclean c hc).1
  have hparts : write pieces = (pieces.map fun piece => piece.1.write ++ '>' :: escape piece.2).flatMap ('<' :: ·) := by
    rw [List.flatMap_map]
    rfl
  have hmarkup : ∀ part ∈ pieces.map fun piece => piece.1.write ++ '>' :: escape piece.2, '<' ∉ part := by
    intro part hpart
    obtain ⟨piece, hpiece, rfl⟩ := List.mem_map.1 hpart
    simp only [List.mem_append, List.mem_cons, not_or]
    exact ⟨fun hmem => ((h piece hpiece).1.2 _ hmem).2.1 rfl, by decide, not_mem_escape (Or.inl rfl) _⟩
  have hsplit := splitOn_write hmarkup
  rw [read, if_pos hall, lineEnds_clean hclean, hparts, hsplit]
  clear hall hparts hmarkup hsplit hclean
  dsimp only
  induction pieces with
  | nil => rfl
  | cons piece pieces ih =>
    rw [List.forall_mem_cons] at h
    rw [List.map_cons, List.mapM_cons, readPiece_write h.1.1, ih h.2]
    rfl

end Xml
