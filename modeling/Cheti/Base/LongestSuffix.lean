import Mathlib
/-!
# The entry with the longest suffix of a name

Entries have labels, and an entry matches a name if its labels are a suffix of the name's. `Longest` is a
match than which none has more labels. It is what three searches find: the one that drops labels from the
front of the name until there is an entry (`Longest.of_first`), the one that takes the greatest match by a
key that grows with the labels (`Longest.of_key`), and, where nothing else matches, any (`Longest.of_only`).
-/

namespace LongestSuffix

variable {Z L : Type*} (labels : Z → List L) (zones : List Z) (name : List L)

structure Longest (z : Z) : Prop where
  mem : z ∈ zones
  suffix : labels z <:+ name
  longest : ∀ z' ∈ zones, labels z' <:+ name → (labels z').length ≤ (labels z).length

def NoMatch : Prop := ∀ z ∈ zones, ¬ labels z <:+ name

variable {labels zones name} {z z' : Z}

/-- Where no two entries have the same labels there is at most one. -/
theorem Longest.unique (hdistinct : (zones.map labels).Nodup) (h : Longest labels zones name z)
    (h' : Longest labels zones name z') : z' = z := by
  have hlength : (labels z').length = (labels z).length :=
    le_antisymm (h.longest z' h'.mem h'.suffix) (h'.longest z h.mem h.suffix)
  have hsuffix : labels z' <:+ labels z := List.suffix_of_suffix_length_le h'.suffix h.suffix hlength.le
  exact List.inj_on_of_nodup_map hdistinct h'.mem h.mem (hsuffix.eq_of_length hlength)

theorem Longest.of_only (hz : z ∈ zones) (hsuffix : labels z <:+ name)
    (honly : ∀ z' ∈ zones, labels z' <:+ name → z' = z) : Longest labels zones name z where
  mem := hz
  suffix := hsuffix
  longest z' hz' hs' := by rw [honly z' hz' hs']

/-- The search that drops labels. -/
theorem Longest.of_first {k : ℕ} (hz : z ∈ zones) (hk : labels z = name.drop k)
    (hfirst : ∀ j < k, ∀ z' ∈ zones, labels z' ≠ name.drop j) : Longest labels zones name z where
  mem := hz
  suffix := hk ▸ List.drop_suffix k name
  longest z' hz' hs' := by
    by_contra hlonger
    have hdrop := List.suffix_iff_eq_drop.1 hs'
    refine hfirst (name.length - (labels z').length) ?_ z' hz' hdrop
    have hle := hs'.length_le
    rw [hk, List.length_drop] at hlonger
    omega

/-- It has looked at every suffix. -/
theorem NoMatch.of_forall (h : ∀ k, ∀ z ∈ zones, labels z ≠ name.drop k) : NoMatch labels zones name :=
  fun z hz hs => h _ z hz (List.suffix_iff_eq_drop.1 hs)

/-- The search for the greatest key, where of two matches the one with more labels has the greater key. -/
theorem Longest.of_key (key : Z → ℕ) (hkey : ∀ z z', labels z <:+ labels z' → (labels z).length < (labels z').length →
      key z < key z')
    (hz : z ∈ zones) (hsuffix : labels z <:+ name) (hmax : ∀ z' ∈ zones, labels z' <:+ name → key z' ≤ key z) :
    Longest labels zones name z where
  mem := hz
  suffix := hsuffix
  longest z' hz' hs' := by
    by_contra hlonger
    rw [not_le] at hlonger
    have hlt := hkey z z' (List.suffix_of_suffix_length_le hsuffix hs' hlonger.le) hlonger
    exact absurd (hmax z' hz' hs') (not_le.2 hlt)

end LongestSuffix
