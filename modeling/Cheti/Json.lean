import Cheti.Base.Prim
/-!
# JSON documents (`serde_json::Value`)

What the providers read out of a document: a field by name, a value of one type, and the fields of a
struct as serde's derived decoders take them.
-/

namespace Cheti

inductive Value where
  | null
  | bool (b : Bool)
  | number (n : Int)
  /-- A number that is not an integer, as its text. -/
  | float (text : Str)
  | string (s : Str)
  | array (values : List Value)
  | object (fields : List (Str × Value))

namespace Value

def lookup (key : String) (fields : List (Str × Value)) : Option Value :=
  (fields.find? fun f => f.1 = key.toList).map (·.2)

/-- `value[key]`: null where there is no such field. -/
def get (key : String) : Value → Value
  | object fields => (lookup key fields).getD null
  | _ => null

def asStr : Value → Option Str
  | string s => some s
  | _ => none

def asU64 : Value → Option Nat
  | number n => if 0 ≤ n ∧ n < 2 ^ 64 then some n.toNat else none
  | _ => none

def asArray : Value → Option (List Value)
  | array values => some values
  | _ => none

/-- The fields of a struct, each `none` where it is missing: from an object by name, from an array by
position. -/
def fields (names : List String) : Value → Option (List (Option Value))
  | object fs => some (names.map fun name => lookup name fs)
  | array vs => if vs.length ≤ names.length then some ((List.range names.length).map fun i => vs[i]?) else none
  | _ => none

/-- A field of type `Option<String>` with `#[serde(default)]`. -/
def optionalStr : Option Value → Option (Option Str)
  | none | some null => some none
  | some v => v.asStr.map some

theorem asU64_eq_some {v : Value} {n : Nat} : v.asU64 = some n ↔ v = .number n ∧ n < 2 ^ 64 := by
  constructor
  · intro h
    cases v with
    | number m =>
      simp only [asU64] at h
      split at h
      · rename_i hm
        cases h
        rw [Int.toNat_of_nonneg hm.1]
        exact ⟨rfl, by omega⟩
      · cases h
    | _ => cases h
  · rintro ⟨rfl, h⟩
    have hn : (0 : Int) ≤ n ∧ (n : Int) < 2 ^ 64 := ⟨Int.natCast_nonneg n, by exact_mod_cast h⟩
    simp only [asU64, if_pos hn, Int.toNat_natCast]

end Value

end Cheti
