import BlockCompiler.Source.Program
import BlockCompiler.Text.Quoted

/-!
# Source text

The canonical text of a tree: one statement a line, four blanks for each level of nesting. Only
operators that are operands of operators stand in parentheses.
-/

namespace BlockCompiler

variable {τ : Type}

def Literal.render : Literal → String
  | bool value => if value then "true" else "false"
  | int value => toString value
  | str value => Text.quoted value

namespace Expr

/-- The text of an operand: an operator inside an operator is put in parentheses. -/
def operandText (e : Expr τ) (text : String) : String :=
  if e.isBinary then "(" ++ text ++ ")" else text

mutual

def render : Expr τ → String
  | bareCall _ name args => name ++ "(" ++ ", ".intercalate (renderAll args) ++ ")"
  | call _ path args => path.dotted ++ "(" ++ ", ".intercalate (renderAll args) ++ ")"
  | binary _ op lhs rhs =>
    operandText lhs (render lhs) ++ " " ++ op.symbol ++ " " ++ operandText rhs (render rhs)
  | neg _ operand => "-" ++ operandText operand (render operand)
  | ascribed _ ty inner => "(" ++ render inner ++ " :: " ++ ty.render ++ ")"
  | lit _ value => value.render
  | var _ name => name

def renderAll : List (Expr τ) → List String
  | [] => []
  | e :: es => render e :: renderAll es

end

@[simp] theorem renderAll_eq_map (es : List (Expr τ)) : renderAll es = es.map render := by
  induction es with
  | nil => simp [renderAll]
  | cons e es ih => simp [renderAll, ih]

end Expr

namespace Stmt

/-- The blanks before a statement that is nested `depth` levels deep. -/
def indent (depth : Nat) : String :=
  String.ofList (List.replicate (4 * depth) ' ')

mutual

def render (depth : Nat) : Stmt τ → String
  | branch _ test thn els =>
    indent depth ++ "if " ++ test.render ++ ":\n" ++ renderAll (depth + 1) thn ++
      if els.isEmpty then "" else indent depth ++ "else:\n" ++ renderAll (depth + 1) els
  | loop _ test body =>
    indent depth ++ "while " ++ test.render ++ ":\n" ++ renderAll (depth + 1) body
  | effect _ value => indent depth ++ value.render ++ "\n"
  | ret _ none => indent depth ++ "return\n"
  | ret _ (some value) => indent depth ++ "return " ++ value.render ++ "\n"

def renderAll (depth : Nat) : List (Stmt τ) → String
  | [] => ""
  | s :: ss => render depth s ++ renderAll depth ss

end

end Stmt

/-- The mark in front of what is defined elsewhere. -/
def externalMark (isExternal : Bool) : String :=
  if isExternal then "@External " else ""

def Signature.render (s : Signature) : String :=
  String.join (s.params.map fun p => p.ty.render ++ " -> " ++ p.name ++ " -> ") ++ s.result.render

def Func.render (f : Func τ) : String :=
  externalMark f.isExternal ++ f.name ++ " :: " ++ f.signature.render ++
    if f.body.isEmpty then "\n" else ":\n" ++ Stmt.renderAll 1 f.body

def Decl.render : Decl τ → String
  | function _ decl => decl.render
  | type _ decl => externalMark decl.isExternal ++ "type " ++ decl.name ++ "\n"
  | imports _ module => "import " ++ module.dotted ++ "\n"

def Program.render (p : Program τ) : String :=
  "module " ++ p.module.dotted ++ "\n" ++ String.join (p.decls.map fun d => "\n" ++ d.render)

end BlockCompiler
