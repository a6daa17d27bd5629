import BlockCompiler.Text.Line

/-!
# Qualified names

A path is a non-empty list of segments: the modules that lead to a name, and the name. People read
it with dots between the segments; target code, which has one flat name space, joins them with
underscores.
-/

namespace BlockCompiler

@[ext]
structure Path where
  segments : List String
  segments_ne_nil : segments ≠ []
deriving DecidableEq

namespace Path

def ofSegments? (segments : List String) : Option Path :=
  if h : segments = [] then none else some ⟨segments, h⟩

/-- The path of one segment, whatever characters it holds. -/
def single (name : String) : Path :=
  ⟨[name], by simp⟩

instance : Inhabited Path := ⟨single ""⟩

/-- Reads a dotted path. Empty pieces are skipped; a text of nothing but dots is no path. -/
def ofDotted? (s : String) : Option Path :=
  ofSegments? (((Text.pieces '.' s.toList).filter (!·.isEmpty)).map String.ofList)

def child (p : Path) (name : String) : Path :=
  ⟨p.segments ++ [name], by simp⟩

/-- The last segment. -/
def name (p : Path) : String :=
  p.segments.getLast p.segments_ne_nil

/-- The path without its last segment, if anything is left. -/
def parent? (p : Path) : Option Path :=
  ofSegments? p.segments.dropLast

def dotted (p : Path) : String :=
  ".".intercalate p.segments

/-- The name in target code. Different paths can have one link name: `a_b.c` and `a.b_c` do. -/
def linkName (p : Path) : String :=
  "_".intercalate p.segments

theorem ofSegments?_eq_some_iff {segments : List String} {p : Path} :
    ofSegments? segments = some p ↔ segments = p.segments := by
  rw [ofSegments?]
  split
  case isTrue h =>
    subst h
    simpa using p.segments_ne_nil
  case isFalse h =>
    rw [Option.some_inj, Path.ext_iff]

theorem ofSegments?_eq_none_iff {segments : List String} :
    ofSegments? segments = none ↔ segments = [] := by
  rw [ofSegments?]
  split
  case isTrue h => simp [h]
  case isFalse h => simp [h]

@[simp] theorem segments_single (name : String) : (single name).segments = [name] := rfl

@[simp] theorem segments_child (p : Path) (name : String) :
    (p.child name).segments = p.segments ++ [name] := rfl

@[simp] theorem name_child (p : Path) (n : String) : (p.child n).name = n := by
  simp [name, child]

theorem parent?_child (p : Path) (n : String) : (p.child n).parent? = some p := by
  simp [parent?, ofSegments?, p.segments_ne_nil]

theorem child_inj {p q : Path} {m n : String} : p.child m = q.child n ↔ p = q ∧ m = n := by
  constructor
  · intro h
    have hs := congrArg segments h
    simp only [segments_child] at hs
    obtain ⟨hp, hn⟩ := List.append_inj' hs rfl
    exact ⟨Path.ext hp, by simpa using hn⟩
  · rintro ⟨rfl, rfl⟩
    rfl

end Path

end BlockCompiler
