import Mathlib
/-!
# Text and time

Text is the list of its characters, so that prefixes, suffixes and cuts are list operations. What
counts bytes goes through `utf8Len`. Durations and instants are natural numbers of nanoseconds.
-/

abbrev Str := List Char

instance (priority := high) : ToString Str := ⟨String.ofList⟩

namespace Text

/-- Length in bytes of the UTF-8 encoding. -/
def utf8Len (s : Str) : Nat := (s.map Char.utf8Size).sum

end Text

/-- A `std::time::Duration`, or an `Instant` counted from some origin. -/
abbrev Duration := Nat

def secs (n : Nat) : Duration := n * 1000000000
