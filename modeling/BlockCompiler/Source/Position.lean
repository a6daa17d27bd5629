/-!
# Source positions

A span is a half-open range of offsets into source text. Trees carry a tag at every node; a tag may
tell the span the node was read from.
-/

namespace BlockCompiler

structure Span where
  start : Nat
  stop : Nat
deriving DecidableEq

namespace Span

instance : Inhabited Span := ⟨⟨0, 0⟩⟩

/-- The span of a single offset. -/
def single (offset : Nat) : Span :=
  ⟨offset, offset + 1⟩

/-- The least span that covers both. -/
def union (a b : Span) : Span :=
  ⟨min a.start b.start, max a.stop b.stop⟩

/-- The number of offsets covered; a span that ends before it starts covers none. -/
def length (s : Span) : Nat :=
  s.stop - s.start

def isEmpty (s : Span) : Bool :=
  s.length == 0

def render (s : Span) : String :=
  toString s.start ++ ".." ++ toString s.stop

end Span

/-- Tags that may know where their node stands in the source. -/
class Located (τ : Type) where
  span? : τ → Option Span

/-- Trees built without source text have no positions. -/
instance : Located Unit := ⟨fun _ => none⟩

instance : Located Span := ⟨some⟩

end BlockCompiler
