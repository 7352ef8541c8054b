import Cheti.Names
/-!
# What `present` and `cleanup` mean

The purpose of a provider, apart from any API: a TXT record set is the list of its values in
presentation format, and a value holds `v` if it unquotes to `v`. `present v` makes sure that some
value holds `v`, `cleanup v` that none does, and neither touches the others. `Op.apply` is this
meaning; that the providers have it is proved against their code.
-/

namespace Cheti

def txt : Str := "TXT".toList

inductive Op where
  | present
  | cleanup
deriving DecidableEq, Repr

/-- Some value of the set holds `v`. -/
def holds (v : Str) (values : List Str) : Bool := values.any (unquote · = v)

def Op.apply : Op → Str → List Str → List Str
  | .present, v, values => if holds v values then values else values ++ [quote v]
  | .cleanup, v, values => values.filter (unquote · ≠ v)

theorem present_apply (v : Str) (values : List Str) :
    Op.present.apply v values = if holds v values then values else values ++ [quote v] := rfl

theorem cleanup_apply (v : Str) (values : List Str) :
    Op.cleanup.apply v values = values.filter (unquote · ≠ v) := rfl

/-- The values of a set without their quotes. -/
def contents (values : List Str) : List Str := values.map unquote

theorem holds_iff {v : Str} {values : List Str} : holds v values = true ↔ v ∈ contents values := by
  simp [holds, contents]

theorem holds_append_quote (v : Str) (values : List Str) : holds v (values ++ [quote v]) = true := by
  simp [holds]

theorem holds_filter_ne (v : Str) (values : List Str) : holds v (values.filter (unquote · ≠ v)) = false := by
  simp [holds]

theorem filter_ne_of_not_holds {v : Str} {values : List Str} (h : holds v values = false) :
    values.filter (unquote · ≠ v) = values := by
  rw [List.filter_eq_self]
  intro x hx
  simp only [holds, List.any_eq_false] at h
  simpa using h x hx

/-- A cleanup changes the set iff some value holds `v`. -/
theorem cleanup_apply_eq_iff {v : Str} {values : List Str} :
    Op.cleanup.apply v values = values ↔ holds v values = false := by
  refine ⟨fun h => ?_, filter_ne_of_not_holds⟩
  rw [← h]
  exact holds_filter_ne v values

/-- A present changes the set iff no value holds `v`. -/
theorem present_apply_eq_iff {v : Str} {values : List Str} :
    Op.present.apply v values = values ↔ holds v values = true := by
  rw [present_apply]
  split <;> simp_all

/-- Repeating a call changes nothing. -/
theorem apply_apply (op : Op) (v : Str) (values : List Str) :
    op.apply v (op.apply v values) = op.apply v values := by
  cases op with
  | present =>
    rw [present_apply_eq_iff, present_apply]
    split
    · assumption
    · exact holds_append_quote v values
  | cleanup => exact cleanup_apply_eq_iff.2 (holds_filter_ne v values)

/-- A cleanup undoes the present of a value that was not there. -/
theorem cleanup_present {v : Str} {values : List Str} (h : holds v values = false) :
    Op.cleanup.apply v (Op.present.apply v values) = values := by
  have hpresent : Op.present.apply v values = values ++ [quote v] := by simp [present_apply, h]
  have hkeep := filter_ne_of_not_holds h
  rw [hpresent, cleanup_apply, List.filter_append, hkeep]
  simp

/-! ## Contents -/

theorem mem_contents_present {v w : Str} {values : List Str} :
    w ∈ contents (Op.present.apply v values) ↔ w ∈ contents values ∨ w = v := by
  rw [present_apply]
  split
  · rename_i h
    constructor
    · exact Or.inl
    · rintro (h' | rfl)
      · exact h'
      · exact holds_iff.1 h
  · simp [contents]

theorem mem_contents_cleanup {v w : Str} {values : List Str} :
    w ∈ contents (Op.cleanup.apply v values) ↔ w ∈ contents values ∧ w ≠ v := by
  simp only [contents, cleanup_apply, List.mem_map, List.mem_filter, decide_eq_true_eq]
  constructor
  · rintro ⟨x, ⟨hx, hne⟩, rfl⟩; exact ⟨⟨x, hx, rfl⟩, hne⟩
  · rintro ⟨⟨x, hx, rfl⟩, hne⟩; exact ⟨x, ⟨hx, hne⟩, rfl⟩

end Cheti
