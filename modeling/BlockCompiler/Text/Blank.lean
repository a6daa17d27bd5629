import BlockCompiler.Text.CharClass

/-!
# Blank characters

The characters with the property White_Space.
-/

namespace BlockCompiler.Text

def blank : CharClass where
  ranges :=
    [(0x9, 0xD), (0x20, 0x20), (0x85, 0x85), (0xA0, 0xA0), (0x1680, 0x1680), (0x2000, 0x200A),
     (0x2028, 0x2029), (0x202F, 0x202F), (0x205F, 0x205F), (0x3000, 0x3000)]

/-- Tab, line feed, carriage return and space are blank. -/
theorem blank_contains_of_isWhitespace {c : Char} (h : c.isWhitespace) : blank.contains c := by
  simp only [Char.isWhitespace, Bool.or_eq_true, decide_eq_true_eq] at h
  rcases h with ((rfl | rfl) | rfl) | rfl <;> decide

end BlockCompiler.Text
