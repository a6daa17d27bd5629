/-!
# Lines and pieces

Cutting text at a separator character, and trimming what stands at its end.
-/

namespace BlockCompiler.Text

/-- The pieces of a text between the places where `sep` stands; one more piece than separators. -/
def pieces (sep : Char) : List Char → List (List Char)
  | [] => [[]]
  | c :: cs => if c = sep then [] :: pieces sep cs else (pieces sep cs).modifyHead (c :: ·)

/-- The text without the characters at its end that satisfy `p`. -/
def trimEnd (p : Char → Bool) (cs : List Char) : List Char :=
  (cs.reverse.dropWhile p).reverse

/-- A line without the carriage return at its end. -/
def dropReturn (line : List Char) : List Char :=
  if line.getLast? = some '\r' then line.dropLast else line

/-- The text before its first line feed. A carriage return belongs to the line feed it precedes. -/
def firstLine (cs : List Char) : List Char :=
  let line := cs.takeWhile (· ≠ '\n')
  if '\n' ∈ cs then dropReturn line else line

@[simp] theorem pieces_nil (sep : Char) : pieces sep [] = [[]] := rfl

theorem pieces_ne_nil (sep : Char) (cs : List Char) : pieces sep cs ≠ [] := by
  induction cs with
  | nil => simp
  | cons c cs ih =>
    rw [pieces]
    split
    · simp
    · simpa using ih

end BlockCompiler.Text
