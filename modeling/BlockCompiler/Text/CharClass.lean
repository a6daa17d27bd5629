/-!
# Character classes

A class of characters is a list of code point ranges. The modules beside this one give the classes
that the text forms need, each named for its property.
-/

namespace BlockCompiler.Text

/-- A class of characters, as code point ranges with both ends included. -/
structure CharClass where
  ranges : List (Nat × Nat)

namespace CharClass

def contains (k : CharClass) (c : Char) : Bool :=
  k.ranges.any fun r => decide (r.1 ≤ c.toNat) && decide (c.toNat ≤ r.2)

theorem contains_iff {k : CharClass} {c : Char} :
    k.contains c ↔ ∃ r ∈ k.ranges, r.1 ≤ c.toNat ∧ c.toNat ≤ r.2 := by
  simp [contains]

end CharClass

end BlockCompiler.Text
