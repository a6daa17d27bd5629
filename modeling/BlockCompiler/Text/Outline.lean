/-!
# Outlines

A tree of labels, drawn with one line per node. Rules connect each node with its children.
-/

namespace BlockCompiler.Text

/-- A label with the outlines that stand below it. -/
inductive Outline where
  | node (label : String) (children : List Outline)

namespace Outline

/-- How a child hangs on its parent: the rule before its label and the margin of what is below. -/
structure Branch where
  rule : String
  margin : String

def middle : Branch := ⟨"├─ ", "│  "⟩

def last : Branch := ⟨"└─ ", "   "⟩

mutual

/-- One line for each node: the label behind its rule, then the children behind the margin. -/
def lines (rule margin : String) : Outline → List String
  | .node label children => (rule ++ label) :: linesAll margin children

/-- The children of one node, the last of which closes the rule. -/
def linesAll (margin : String) : List Outline → List String
  | [] => []
  | o :: os =>
    let branch := if os.isEmpty then last else middle
    lines (margin ++ branch.rule) (margin ++ branch.margin) o ++ linesAll margin os

end

/-- The outline from the page's left edge. -/
def draw (o : Outline) : String :=
  String.join ((o.lines "" "").map (· ++ "\n"))

end Outline

end BlockCompiler.Text
