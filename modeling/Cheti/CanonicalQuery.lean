import Cheti.Base.Url
/-!
# The canonical query of SigV4 (src/providers/route53.rs:56-62, 566-584)

| here | there |
| --- | --- |
| `unreserved`     | the characters that `SIGV4_ENCODE` leaves as they are (route53.rs:58-62) |
| `sigv4Encode`    | `utf8_percent_encode(.., SIGV4_ENCODE)` |
| `pairLe`         | the order of `(String, String)`: by the bytes of the first, then by those of the second |
| `canonicalQuery` | `canonical_query` (route53.rs:568-584) |

The pairs are sorted after they are encoded. Neither `&` nor `=` can stand in an encoded text, so the query can be
taken apart again (`pairsOf_join`), and what it is taken apart into is the sorted list: one string for each multiset of
parameters, and one multiset for each string (`canonicalQuery_canonical`).
-/

namespace Cheti.Route53

open Text

def unreserved (c : Char) : Bool := c.isAlphanum || c == '-' || c == '_' || c == '.' || c == '~'

def sigv4Encode (s : Str) : Str := Url.escape unreserved s

def pairLe (a b : Str × Str) : Prop := bytes a.1 < bytes b.1 ∨ a.1 = b.1 ∧ bytes a.2 ≤ bytes b.2

instance : DecidableRel pairLe := fun _ _ => inferInstanceAs (Decidable (_ ∨ _ ∧ _))

def encodePair (param : Str × Str) : Str × Str := (sigv4Encode param.1, sigv4Encode param.2)

/-- `format!("{k}={v}")` -/
def writePair (pair : Str × Str) : Str := pair.1 ++ '=' :: pair.2

/-- `.map(|(k, v)| format!("{k}={v}")).collect::<Vec<_>>().join("&")` -/
def join (pairs : List (Str × Str)) : Str := ['&'].intercalate (pairs.map writePair)

def canonicalQuery (params : List (Str × Str)) : Str :=
  let encoded := params.map encodePair
  join (encoded.mergeSort fun a b => decide (pairLe a b))

/-! ## Reading a query -/

/-- A part up to its first `=`, and what follows it. -/
def readPair (part : Str) : Str × Str := (part.takeWhile (· != '='), (part.dropWhile (· != '=')).drop 1)

def pairsOf (query : Str) : List (Str × Str) := if query = [] then [] else (query.splitOn '&').map readPair

def decodePair (pair : Str × Str) : Option (Str × Str) := do
  let key ← ofBytes (Url.percentDecode pair.1)
  let value ← ofBytes (Url.percentDecode pair.2)
  return (key, value)

def isUpperHex (c : Char) : Bool := "0123456789ABCDEF".toList.contains c

/-- Only unreserved characters, escapes in upper case, and the two separators. -/
def wellWritten : Str → Bool
  | [] => true
  | '%' :: high :: low :: rest => isUpperHex high && isUpperHex low && wellWritten rest
  | c :: rest => (unreserved c || c == '=' || c == '&') && wellWritten rest

/-! ## The order -/

theorem pairLe_trans {a b c : Str × Str} (h : pairLe a b) (h' : pairLe b c) : pairLe a c := by
  rcases h with h | ⟨h1, h2⟩
  · rcases h' with h' | ⟨h1', -⟩
    · exact Or.inl (List.lt_trans h h')
    · exact Or.inl (h1' ▸ h)
  · rcases h' with h' | ⟨h1', h2'⟩
    · exact Or.inl (h1 ▸ h')
    · exact Or.inr ⟨h1.trans h1', List.le_trans h2 h2'⟩

theorem pairLe_total (a b : Str × Str) : pairLe a b ∨ pairLe b a := by
  rcases Std.lt_trichotomy (bytes a.1) (bytes b.1) with h | h | h
  · exact Or.inl (Or.inl h)
  · have heq := bytes_injective h
    exact (List.le_total (bytes a.2) (bytes b.2)).imp (fun h => Or.inr ⟨heq, h⟩) fun h => Or.inr ⟨heq.symm, h⟩
  · exact Or.inr (Or.inl h)

theorem pairLe_antisymm {a b : Str × Str} (h : pairLe a b) (h' : pairLe b a) : a = b := by
  rcases h with h | ⟨h1, h2⟩
  · rcases h' with h' | ⟨h1', -⟩
    · exact absurd (List.lt_trans h h') (List.lt_irrefl _)
    · rw [h1'] at h
      exact absurd h (List.lt_irrefl _)
  · rcases h' with h' | ⟨-, h2'⟩
    · rw [h1] at h'
      exact absurd h' (List.lt_irrefl _)
    · exact Prod.ext h1 (bytes_injective (List.le_antisymm h2 h2'))

abbrev sorted (pairs : List (Str × Str)) : List (Str × Str) := pairs.mergeSort fun a b => decide (pairLe a b)

theorem sorted_pairwise (pairs : List (Str × Str)) : (sorted pairs).Pairwise pairLe := by
  have h : (sorted pairs).Pairwise fun a b => decide (pairLe a b) = true := by
    refine List.pairwise_mergeSort (fun a b c hab hbc => ?_) (fun a b => ?_) pairs
    · exact decide_eq_true (pairLe_trans (of_decide_eq_true hab) (of_decide_eq_true hbc))
    · simpa using pairLe_total a b
  exact h.imp of_decide_eq_true

/-- Sorting is a normal form. -/
theorem sorted_eq_of_perm {a b : List (Str × Str)} (h : a.Perm b) : sorted a = sorted b := by
  have hperm : (sorted a).Perm (sorted b) := (List.mergeSort_perm a _).trans (h.trans (List.mergeSort_perm b _).symm)
  exact hperm.eq_of_pairwise (fun _ _ _ _ => pairLe_antisymm) (sorted_pairwise a) (sorted_pairwise b)

/-! ## What is encoded -/

theorem wellWritten_cons {c : Char} (h : (unreserved c || c == '=' || c == '&') = true) (rest : Str) :
    wellWritten (c :: rest) = wellWritten rest := by
  rw [wellWritten, h, Bool.true_and]
  rintro high low rest' rfl
  exact absurd h (by decide)

theorem wellWritten_percentEncode (b : UInt8) (rest : Str) :
    wellWritten (Url.percentEncode b ++ rest) = wellWritten rest := by
  have hdigit : ∀ n < 16, isUpperHex (Url.hexDigit n) = true := by decide
  have hlt := b.toNat_lt
  show (isUpperHex (Url.hexDigit (b.toNat / 16)) && isUpperHex (Url.hexDigit (b.toNat % 16)) && wellWritten rest) = _
  rw [hdigit _ (by omega), hdigit _ (by omega)]
  rfl

theorem wellWritten_flatMap (bs : List UInt8) (rest : Str) :
    wellWritten (bs.flatMap Url.percentEncode ++ rest) = wellWritten rest := by
  induction bs with
  | nil => rfl
  | cons b bs ih => rw [List.flatMap_cons, List.append_assoc, wellWritten_percentEncode, ih]

theorem wellWritten_encode (s rest : Str) : wellWritten (sigv4Encode s ++ rest) = wellWritten rest := by
  induction s with
  | nil => rfl
  | cons c s ih =>
    rw [sigv4Encode, Url.escape_cons, List.append_assoc]
    split
    · rename_i hc
      exact (wellWritten_cons (by simp [hc]) _).trans ih
    · exact (wellWritten_flatMap _ _).trans ih

/-- The separators are escaped wherever they stand in a key or a value. -/
theorem not_mem_encode {d : Char} (hd : d = '=' ∨ d = '&') (s : Str) : d ∉ sigv4Encode s := by
  have hdigit : ∀ n < 16, Url.hexDigit n ≠ '=' ∧ Url.hexDigit n ≠ '&' := by decide
  intro hmem
  obtain ⟨c, -, hc⟩ := List.mem_flatMap.1 hmem
  split at hc
  · rename_i hkeep
    obtain rfl := List.mem_singleton.1 hc
    rcases hd with rfl | rfl <;> cases hkeep
  · obtain ⟨b, -, hb⟩ := List.mem_flatMap.1 hc
    have hlt := b.toNat_lt
    have hhigh := hdigit (b.toNat / 16) (by omega)
    have hlow := hdigit (b.toNat % 16) (by omega)
    simp only [Url.percentEncode, List.mem_cons, List.not_mem_nil, or_false] at hb
    rcases hb with rfl | rfl | rfl
    · rcases hd with hd | hd <;> cases hd
    · exact hd.elim hhigh.1 hhigh.2
    · exact hd.elim hlow.1 hlow.2

theorem decodePair_encodePair (param : Str × Str) : decodePair (encodePair param) = some param := by
  have hdecode : ∀ s, ofBytes (Url.percentDecode (sigv4Encode s)) = some s := by
    intro s
    rw [sigv4Encode, Url.percentDecode_escape rfl, ofBytes_bytes]
  simp [decodePair, encodePair, hdecode]

/-! ## Taking the query apart -/

/-- What `canonical_query` joins. -/
def Encoded (pairs : List (Str × Str)) : Prop := ∀ pair ∈ pairs, ∃ param, pair = encodePair param

theorem readPair_writePair (param : Str × Str) : readPair (writePair (encodePair param)) = encodePair param := by
  have hkey : ∀ c ∈ sigv4Encode param.1, (c != '=') = true := by
    intro c hc
    rw [bne_iff_ne]
    rintro rfl
    exact not_mem_encode (Or.inl rfl) _ hc
  simp only [readPair, writePair, encodePair]
  rw [List.takeWhile_append_of_pos hkey, List.dropWhile_append_of_pos hkey]
  simp

theorem pairsOf_join {pairs : List (Str × Str)} (h : Encoded pairs) : pairsOf (join pairs) = pairs := by
  cases pairs with
  | nil => rfl
  | cons pair rest =>
    have hne : join (pair :: rest) ≠ [] := by
      cases rest <;> simp [join, List.intercalate, writePair]
    have hsep : ∀ part ∈ (pair :: rest).map writePair, '&' ∉ part := by
      intro part hpart
      obtain ⟨p, hp, rfl⟩ := List.mem_map.1 hpart
      obtain ⟨param, rfl⟩ := h p hp
      simp only [writePair, encodePair, List.mem_append, List.mem_cons]
      rintro (hmem | hmem | hmem)
      · exact not_mem_encode (Or.inr rfl) _ hmem
      · cases hmem
      · exact not_mem_encode (Or.inr rfl) _ hmem
    rw [pairsOf, if_neg hne, join, List.splitOn_intercalate '&' hsep (by simp), List.map_map]
    refine (List.map_congr_left fun p hp => ?_).trans (List.map_id _)
    obtain ⟨param, rfl⟩ := h p hp
    exact readPair_writePair param

theorem encoded_sorted (params : List (Str × Str)) : Encoded (sorted (params.map encodePair)) := by
  intro pair hpair
  obtain ⟨param, -, rfl⟩ := List.mem_map.1 ((List.mergeSort_perm _ _).mem_iff.1 hpair)
  exact ⟨param, rfl⟩

theorem pairsOf_canonicalQuery (params : List (Str × Str)) :
    pairsOf (canonicalQuery params) = sorted (params.map encodePair) := pairsOf_join (encoded_sorted params)

theorem wellWritten_writePair (param : Str × Str) (rest : Str) :
    wellWritten (writePair (encodePair param) ++ rest) = wellWritten rest := by
  rw [writePair, encodePair, List.append_assoc, wellWritten_encode, List.cons_append, wellWritten_cons (by decide),
    wellWritten_encode]

theorem join_cons_cons (pair next : Str × Str) (rest : List (Str × Str)) :
    join (pair :: next :: rest) = writePair pair ++ '&' :: join (next :: rest) := by
  simp [join, List.intercalate]

theorem wellWritten_join : ∀ {pairs : List (Str × Str)}, Encoded pairs → wellWritten (join pairs) = true
  | [], _ => rfl
  | [pair], h => by
    obtain ⟨param, rfl⟩ := h pair List.mem_cons_self
    have hjoin : join [encodePair param] = writePair (encodePair param) ++ [] := by simp [join, List.intercalate]
    rw [hjoin, wellWritten_writePair]
    rfl
  | pair :: next :: rest, h => by
    obtain ⟨param, rfl⟩ := h pair List.mem_cons_self
    rw [join_cons_cons, wellWritten_writePair, wellWritten_cons (by decide)]
    exact wellWritten_join fun p hp => h p (List.mem_cons_of_mem _ hp)

/-- Taken apart and decoded, the query is the parameters again, in some order. -/
theorem decoded_perm (params : List (Str × Str)) :
    ((pairsOf (canonicalQuery params)).map decodePair).Perm (params.map some) := by
  have hdecode : (params.map encodePair).map decodePair = params.map some := by
    rw [List.map_map]
    exact List.map_congr_left fun param _ => decodePair_encodePair param
  rw [pairsOf_canonicalQuery, ← hdecode]
  exact (List.mergeSort_perm _ _).map decodePair

theorem perm_iff_canonicalQuery_eq (a b : List (Str × Str)) : a.Perm b ↔ canonicalQuery a = canonicalQuery b := by
  constructor
  · intro h
    exact congrArg join (sorted_eq_of_perm (h.map encodePair))
  · intro h
    have hmap : (a.map some).Perm (b.map some) := (decoded_perm a).symm.trans (h ▸ decoded_perm b)
    exact (List.map_perm_map_iff (Option.some_injective _)).1 hmap

/-- **The canonical query is canonical and lossless.** -/
theorem canonicalQuery_canonical :
    (∀ a b : List (Str × Str), a.Perm b ↔ canonicalQuery a = canonicalQuery b) ∧
      ∀ params : List (Str × Str),
        wellWritten (canonicalQuery params) = true ∧
        (pairsOf (canonicalQuery params)).Perm (params.map encodePair) ∧
        (pairsOf (canonicalQuery params)).Pairwise pairLe ∧
        ((pairsOf (canonicalQuery params)).map decodePair).Perm (params.map some) ∧
        (canonicalQuery params = [] ↔ params = []) := by
  refine ⟨perm_iff_canonicalQuery_eq, fun params => ⟨wellWritten_join (encoded_sorted params), ?_, ?_, ?_, ?_⟩⟩
  · rw [pairsOf_canonicalQuery]
    exact List.mergeSort_perm _ _
  · rw [pairsOf_canonicalQuery]
    exact sorted_pairwise _
  · exact decoded_perm params
  · constructor
    · intro h
      have hperm := decoded_perm params
      rw [h] at hperm
      simpa using hperm.nil_eq
    · rintro rfl
      simp [canonicalQuery, join]

example : canonicalQuery [("name".toList, "a b*.example.com.".toList)] = "name=a%20b%2A.example.com.".toList := by
  decide +kernel

end Cheti.Route53
