import BlockCompiler.Source.Render
import BlockCompiler.Text.Blank
import BlockCompiler.Text.Line
import BlockCompiler.Text.Outline

/-!
# Source outlines

The outline of a program has one tree for each declaration. A node is labelled by what it does, and
its parts stand below it. Both blocks of a branch are listed, also when one is empty.
-/

namespace BlockCompiler

open Text (Outline)

variable {τ : Type}

namespace Expr

mutual

def outline : Expr τ → Outline
  | bareCall _ name args => .node ("APPLY " ++ name) (outlineAll args)
  | call _ path args => .node ("CALL " ++ path.dotted) (outlineAll args)
  | binary _ op lhs rhs => .node op.symbol [outline lhs, outline rhs]
  | neg _ operand => .node "-" [outline operand]
  | ascribed _ ty inner => .node (":: " ++ ty.render) [outline inner]
  | lit _ value => .node value.render []
  | var _ name => .node name []

def outlineAll : List (Expr τ) → List Outline
  | [] => []
  | e :: es => outline e :: outlineAll es

end

end Expr

namespace Stmt

mutual

def outline : Stmt τ → Outline
  | branch _ test thn els =>
    .node "IF" [test.outline, .node "THEN" (outlineAll thn), .node "ELSE" (outlineAll els)]
  | loop _ test body => .node "WHILE" [test.outline, .node "DO" (outlineAll body)]
  | effect _ value => .node "EFFECT" [value.outline]
  | ret _ value => .node "RETURN" (value.map Expr.outline).toList

def outlineAll : List (Stmt τ) → List Outline
  | [] => []
  | s :: ss => outline s :: outlineAll ss

end

end Stmt

namespace Decl

/-- A function is labelled by the first line of its text without the colon that opens its body,
any other declaration by its text without the blanks at its end. -/
def outlineLabel (d : Decl τ) : String :=
  let text := d.render.toList
  String.ofList <| match d with
    | function .. => Text.trimEnd (· = ':') (Text.firstLine text)
    | type .. | imports .. => Text.trimEnd Text.blank.contains text

def outline (d : Decl τ) : Outline :=
  .node d.outlineLabel <| match d with
    | function _ decl => Stmt.outlineAll decl.body
    | type .. | imports .. => []

end Decl

/-- The outlines of all declarations, one below the other. -/
def Program.drawing (p : Program τ) : String :=
  String.join (p.decls.map fun d => d.outline.draw)

end BlockCompiler
