import Cheti.Base.Prim
/-!
# Text as bytes

The UTF-8 bytes of a text, and slices of it by byte positions. A byte below 128 is a character of its own,
wherever it stands (`utf8EncodeChar_ascii`), so what follows it is text again (`dropBytes_after_ascii`). The
boundaries that `str::is_char_boundary` finds by looking at one byte are the lengths of the text's first parts
(`isCharBoundary_iff`), and no two neighbours are further apart than four bytes (`exists_boundary_above`).
-/

namespace Text

def bytes (s : Str) : List UInt8 := s.flatMap String.utf8EncodeChar

/-- `s[n..]`; nothing where `n` is not a character boundary, or is past the end. -/
def dropBytes : Str → Nat → Option Str
  | s, 0 => some s
  | [], _ + 1 => none
  | c :: s, n => if c.utf8Size ≤ n then dropBytes s (n - c.utf8Size) else none

theorem utf8Len_cons (c : Char) (s : Str) : utf8Len (c :: s) = c.utf8Size + utf8Len s := by
  simp [utf8Len]

theorem length_bytes (s : Str) : (bytes s).length = utf8Len s := by
  induction s with
  | nil => rfl
  | cons c s ih =>
    have hcons : bytes (c :: s) = String.utf8EncodeChar c ++ bytes s := List.flatMap_cons
    rw [hcons, List.length_append, String.length_utf8EncodeChar, ih, utf8Len_cons]

theorem bytes_injective {s t : Str} (h : bytes s = bytes t) : s = t := by
  have hencode : s.utf8Encode = t.utf8Encode := congrArg List.toByteArray h
  rw [← String.toByteArray_ofList, ← String.toByteArray_ofList, String.toByteArray_inj] at hencode
  exact String.ofList_injective hencode

/-- The text with these bytes. -/
def ofBytes (bs : List UInt8) : Option Str := (String.fromUTF8? bs.toByteArray).map String.toList

theorem ofBytes_bytes (s : Str) : ofBytes (bytes s) = some s := by
  have hbytes : (bytes s).toByteArray = (String.ofList s).toByteArray := by
    rw [String.toByteArray_ofList]
    rfl
  rw [ofBytes, hbytes, String.fromUTF8?, dif_pos (String.ofList s).isValidUTF8]
  exact congrArg some String.toList_ofList

/-- A byte below 128 is the whole of a character. -/
theorem utf8EncodeChar_ascii {c : Char} {b : UInt8} (h : b ∈ String.utf8EncodeChar c) (hb : b.toNat < 128) :
    c.utf8Size = 1 := by
  have hge : ∀ n : Nat, 128 ≤ n → n < 256 → ¬ (UInt8.ofNat n).toNat < 128 := by
    intro n hn hlt
    rw [UInt8.toNat_ofNat_of_lt' hlt]
    omega
  unfold String.utf8EncodeChar at h
  by_cases h1 : c.val.toNat ≤ 0x7f
  · exact if_pos (UInt32.le_iff_toNat_le.2 h1)
  · -- every byte of a longer encoding has its high bit set
    exfalso
    simp only [h1, if_false] at h
    split at h
    · simp only [List.mem_cons, List.not_mem_nil, or_false] at h
      rcases h with rfl | rfl
      · exact hge _ (by omega) (by omega) hb
      · exact hge _ (by omega) (by omega) hb
    · split at h
      · simp only [List.mem_cons, List.not_mem_nil, or_false] at h
        rcases h with rfl | rfl | rfl
        · exact hge _ (by omega) (by omega) hb
        · exact hge _ (by omega) (by omega) hb
        · exact hge _ (by omega) (by omega) hb
      · simp only [List.mem_cons, List.not_mem_nil, or_false] at h
        rcases h with rfl | rfl | rfl | rfl
        · exact hge _ (by omega) (by omega) hb
        · exact hge _ (by omega) (by omega) hb
        · exact hge _ (by omega) (by omega) hb
        · exact hge _ (by omega) (by omega) hb

/-- What follows an ASCII byte starts at a character boundary. -/
theorem dropBytes_after_ascii {b : UInt8} (hb : b.toNat < 128) : ∀ {s : Str} {i : Nat}, (bytes s)[i]? = some b →
    ∃ rest, dropBytes s (i + 1) = some rest
  | [], i, h => by cases h
  | c :: s, i, h => by
    have hcons : bytes (c :: s) = String.utf8EncodeChar c ++ bytes s := List.flatMap_cons
    rw [hcons] at h
    by_cases hi : i < c.utf8Size
    · rw [List.getElem?_append_left (by simpa using hi)] at h
      have hsize : c.utf8Size = 1 := utf8EncodeChar_ascii (List.mem_of_getElem? h) hb
      obtain rfl : i = 0 := by omega
      exact ⟨s, by simp [dropBytes, hsize]⟩
    · rw [List.getElem?_append_right (by simpa using hi), String.length_utf8EncodeChar] at h
      obtain ⟨rest, hrest⟩ := dropBytes_after_ascii hb h
      have hnext : i + 1 - c.utf8Size = i - c.utf8Size + 1 := by omega
      refine ⟨rest, ?_⟩
      rw [dropBytes, if_pos (by omega), hnext, hrest]
      exact Nat.succ_ne_zero i

/-! ## Boundaries -/

/-- `(b as i8) >= -0x40`: the byte does not continue a character. -/
def isLead (b : UInt8) : Bool := b < 0x80 || 0xC0 ≤ b

/-- `str::is_char_boundary` -/
def isCharBoundary (s : Str) (i : Nat) : Bool :=
  i == 0 || if utf8Len s ≤ i then i == utf8Len s else isLead ((bytes s).getD i 0)

theorem isLead_ofNat {n : Nat} (h : n < 256) : isLead (UInt8.ofNat n) = true ↔ n < 128 ∨ 192 ≤ n := by
  simp [isLead, UInt8.lt_iff_toNat_lt, UInt8.le_iff_toNat_le, Nat.mod_eq_of_lt h]

/-- The first byte of a character does not continue one, and the others do. -/
theorem utf8EncodeChar_lead (c : Char) :
    ∃ b rest, String.utf8EncodeChar c = b :: rest ∧ isLead b = true ∧ ∀ x ∈ rest, isLead x = false := by
  have hval : c.val.toNat < 0x110000 := by
    have := c.valid
    simp only [UInt32.isValidChar, Nat.isValidChar] at this
    omega
  have hcont : ∀ n, isLead (UInt8.ofNat (n % 64 + 128)) = false := by
    intro n
    rw [Bool.eq_false_iff]
    intro h
    have := (isLead_ofNat (by omega)).1 h
    omega
  unfold String.utf8EncodeChar
  simp only
  split
  · exact ⟨_, _, rfl, (isLead_ofNat (by omega)).2 (by omega), by simp⟩
  · split
    · exact ⟨_, _, rfl, (isLead_ofNat (by omega)).2 (by omega), List.forall_mem_singleton.2 (hcont _)⟩
    · split
      · exact ⟨_, _, rfl, (isLead_ofNat (by omega)).2 (by omega),
          List.forall_mem_cons.2 ⟨hcont _, List.forall_mem_singleton.2 (hcont _)⟩⟩
      · exact ⟨_, _, rfl, (isLead_ofNat (by omega)).2 (by omega),
          List.forall_mem_cons.2 ⟨hcont _, List.forall_mem_cons.2 ⟨hcont _, List.forall_mem_singleton.2 (hcont _)⟩⟩⟩

theorem isLead_head (s : Str) (h : s ≠ []) : isLead ((bytes s).getD 0 0) = true := by
  cases s with
  | nil => exact absurd rfl h
  | cons c s =>
    obtain ⟨b, rest, hc, hb, -⟩ := utf8EncodeChar_lead c
    have hcons : bytes (c :: s) = b :: (rest ++ bytes s) := by
      rw [show bytes (c :: s) = String.utf8EncodeChar c ++ bytes s from List.flatMap_cons, hc]
      rfl
    rw [hcons]
    exact hb

theorem isCharBoundary_inside {c : Char} {s : Str} {i : Nat} (h0 : i ≠ 0) (hi : i < c.utf8Size) :
    isCharBoundary (c :: s) i = false := by
  obtain ⟨b, rest, hc, -, hrest⟩ := utf8EncodeChar_lead c
  have hlen : rest.length + 1 = c.utf8Size := by
    rw [← String.length_utf8EncodeChar, hc, List.length_cons]
  have hcons : bytes (c :: s) = b :: (rest ++ bytes s) := by
    rw [show bytes (c :: s) = String.utf8EncodeChar c ++ bytes s from List.flatMap_cons, hc]
    rfl
  obtain ⟨j, rfl⟩ := Nat.exists_eq_succ_of_ne_zero h0
  have hbyte : (bytes (c :: s)).getD (j + 1) 0 ∈ rest := by
    rw [hcons, List.getD_cons_succ, List.getD_append _ _ _ _ (by omega), List.getD_eq_getElem _ _ (by omega)]
    exact List.getElem_mem _
  have hnot : ¬ utf8Len (c :: s) ≤ j + 1 := by
    rw [utf8Len_cons]
    omega
  rw [isCharBoundary, if_neg hnot, hrest _ hbyte]
  rfl

theorem isCharBoundary_after {c : Char} {s : Str} {i : Nat} (hi : c.utf8Size ≤ i) :
    isCharBoundary (c :: s) i = isCharBoundary s (i - c.utf8Size) := by
  have hpos := c.utf8Size_pos
  have hi0 : (i == 0) = false := by simp; omega
  by_cases hend : utf8Len (c :: s) ≤ i
  · have hend' : utf8Len s ≤ i - c.utf8Size := by
      rw [utf8Len_cons] at hend
      omega
    rw [isCharBoundary, isCharBoundary, hi0, if_pos hend, if_pos hend', utf8Len_cons, Bool.eq_iff_iff]
    simp only [Bool.or_eq_true, beq_iff_eq, Bool.false_eq_true, false_or]
    omega
  · have hend' : ¬ utf8Len s ≤ i - c.utf8Size := by
      rw [utf8Len_cons] at hend
      omega
    have hbyte : (bytes (c :: s)).getD i 0 = (bytes s).getD (i - c.utf8Size) 0 := by
      rw [show bytes (c :: s) = String.utf8EncodeChar c ++ bytes s from List.flatMap_cons,
        List.getD_append_right _ _ _ _ (by simpa using hi), String.length_utf8EncodeChar]
    rw [isCharBoundary, isCharBoundary, hi0, if_neg hend, if_neg hend', hbyte, Bool.false_or]
    by_cases h0 : i - c.utf8Size = 0
    · -- the next character starts here
      rw [h0, isLead_head s (by rintro rfl; simp [utf8Len] at hend'), Bool.or_true]
    · simp [h0]

/-- A boundary is where a first part of the text ends. -/
theorem isCharBoundary_iff {s : Str} {i : Nat} :
    isCharBoundary s i = true ↔ ∃ first rest, s = first ++ rest ∧ utf8Len first = i := by
  induction s generalizing i with
  | nil =>
    constructor
    · intro h
      have h0 : i = 0 := by simpa [isCharBoundary, utf8Len] using h
      exact ⟨[], [], rfl, h0.symm⟩
    · rintro ⟨first, rest, h, rfl⟩
      rw [(List.append_eq_nil_iff.1 h.symm).1]
      rfl
  | cons c s ih =>
    by_cases hi : c.utf8Size ≤ i
    · rw [isCharBoundary_after hi, ih]
      constructor
      · rintro ⟨first, rest, rfl, hlen⟩
        refine ⟨c :: first, rest, rfl, ?_⟩
        rw [utf8Len_cons]
        omega
      · rintro ⟨first, rest, h, rfl⟩
        cases first with
        | nil => exact absurd hi (Nat.not_le_of_lt c.utf8Size_pos)
        | cons d first =>
          obtain ⟨rfl, rfl⟩ := List.cons.inj h
          exact ⟨first, rest, rfl, by rw [utf8Len_cons]; omega⟩
    · by_cases h0 : i = 0
      · subst h0
        exact ⟨fun _ => ⟨[], c :: s, rfl, rfl⟩, fun _ => rfl⟩
      · rw [isCharBoundary_inside h0 (by omega)]
        refine ⟨nofun, ?_⟩
        rintro ⟨first, rest, h, rfl⟩
        cases first with
        | nil => exact absurd rfl h0
        | cons d first =>
          obtain ⟨rfl, -⟩ := List.cons.inj h
          rw [utf8Len_cons] at hi
          omega

/-- Above a boundary that is not the end, there is one at most four bytes further. -/
theorem exists_boundary_above {s : Str} {i : Nat} (h : isCharBoundary s i = true) (hi : i < utf8Len s) :
    ∃ j, isCharBoundary s j = true ∧ i < j ∧ j ≤ i + 4 := by
  obtain ⟨first, rest, rfl, rfl⟩ := isCharBoundary_iff.1 h
  cases rest with
  | nil => simp at hi
  | cons c rest =>
    have hlen : utf8Len (first ++ [c]) = utf8Len first + c.utf8Size := by simp [utf8Len]
    refine ⟨utf8Len (first ++ [c]), isCharBoundary_iff.2 ⟨first ++ [c], rest, by simp, rfl⟩, ?_, ?_⟩
    · rw [hlen]
      exact Nat.lt_add_of_pos_right c.utf8Size_pos
    · rw [hlen]
      exact Nat.add_le_add_left c.utf8Size_le_four _

/-! ## ASCII text -/

theorem utf8Len_of_ascii {s : Str} (h : ∀ c ∈ s, c.utf8Size = 1) : utf8Len s = s.length := by
  induction s with
  | nil => rfl
  | cons c s ih =>
    rw [List.forall_mem_cons] at h
    rw [utf8Len_cons, h.1, ih h.2, List.length_cons]
    omega

theorem bytes_of_ascii {s : Str} (h : ∀ c ∈ s, c.utf8Size = 1) : bytes s = s.map fun c => c.val.toUInt8 := by
  induction s with
  | nil => rfl
  | cons c s ih =>
    rw [List.forall_mem_cons] at h
    have hcons : bytes (c :: s) = String.utf8EncodeChar c ++ bytes s := List.flatMap_cons
    rw [hcons, String.utf8EncodeChar_eq_singleton h.1, ih h.2]
    rfl

theorem dropBytes_of_ascii : ∀ {s : Str} {n : Nat}, (∀ c ∈ s, c.utf8Size = 1) → n ≤ s.length →
    dropBytes s n = some (s.drop n)
  | s, 0, _, _ => by cases s <;> rfl
  | [], n + 1, _, hn => absurd hn (by simp)
  | c :: s, n + 1, h, hn => by
    rw [List.forall_mem_cons] at h
    rw [dropBytes, if_pos (by omega), h.1, Nat.add_sub_cancel, List.drop_succ_cons]
    · exact dropBytes_of_ascii h.2 (by simpa using hn)
    · exact Nat.succ_ne_zero n

/-- A character of one byte is that byte. -/
theorem toUInt8_eq_iff {c d : Char} (hc : c.utf8Size = 1) (hd : d.utf8Size = 1) :
    c.val.toUInt8 = d.val.toUInt8 ↔ c = d := by
  have hsmall : ∀ {c : Char}, c.utf8Size = 1 → c.val.toNat < 256 := by
    intro c hc
    have hle : c.val.toNat ≤ 127 := UInt32.le_iff_toNat_le.1 (Char.utf8Size_eq_one_iff.1 hc)
    omega
  constructor
  · intro h
    have hval := congrArg UInt8.toNat h
    rw [UInt32.toNat_toUInt8, UInt32.toNat_toUInt8, Nat.mod_eq_of_lt (hsmall hc), Nat.mod_eq_of_lt (hsmall hd)] at hval
    exact Char.ext (UInt32.toNat_inj.1 hval)
  · rintro rfl
    rfl

end Text
