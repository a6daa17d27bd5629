import BlockCompiler.Emission.Frame

/-!
# Code for expressions

The value of an expression is a constant or a register. Operands and arguments are computed from
left to right. Between a type and the unknown type, values are converted to and from pointers.
-/

namespace BlockCompiler

open Target

variable {τ : Type}

/-- The instruction that turns a value of one target type into the other, if there is one. -/
def Target.Ty.conversion? : Target.Ty → Target.Ty → Option (Operand → Reg → Instr)
  | .int _, .ptr | .bool, .ptr => some fun value dest => .intToPtr dest value
  | .ptr, .int w => some fun value dest => .ptrToInt dest value (.int w)
  | .ptr, .bool => some fun value dest => .ptrToInt dest value .bool
  | _, _ => none

/-- Converts a value, unless both types are held alike. -/
def Emit.coerce (f : Frame) (value : Operand) (source dest : Ty) : Emit Operand :=
  if source.target f.width = dest.target f.width then pure value
  else
    match (source.target f.width).conversion? (dest.target f.width) with
    | some instr => Emit.define (instr value)
    | none => Emit.fail (.noConversion source dest value)

/-- The bytes of a string in memory, up to the zero that ends them. -/
def stringData (s : String) : List UInt8 :=
  s.toUTF8.data.toList ++ [0]

/-- Copies a string into a slot of its own. The slot is reserved once, on entry, so that a literal
in a loop uses one slot. -/
def Emit.stringLiteral (s : String) : Emit Operand := do
  let slot ← Emit.fresh
  Emit.hoist (.alloca slot (stringData s).length)
  Emit.push (.store slot (stringData s))
  Emit.define (.bitcast · slot)

def BinOp.instr (op : BinOp) (lhs rhs : Operand) (dest : Reg) : Instr :=
  match op with
  | arith op => .arith dest op lhs rhs
  | compare op => .compare dest op lhs rhs

/-- Calls a function. `args` computes the arguments for its parameters. A function that returns
nothing leaves no register. -/
def Emit.call (f : Frame) (path : Path) (args : List Param → Emit (List Operand)) :
    Emit (Option Reg) :=
  match f.scope.function? path with
  | none => Emit.fail (.missingCallee path)
  | some symbol => do
    let args ← args symbol.decl.params
    if symbol.decl.result = .void then
      Emit.push (.call none path.linkName args)
      return none
    else
      let dest ← Emit.fresh
      Emit.push (.call (some dest) path.linkName args)
      return some dest

namespace Expr

/-- The type an expression carries. -/
def carriedType (e : Expr τ) : Emit Ty :=
  match e.ascribedType? with
  | some ty => pure ty
  | none => Emit.fail (.untyped e.untagged)

mutual

/-- Emits the code that computes an expression, and tells where its value is. -/
def emit (f : Frame) : Expr τ → Emit Operand
  | ascribed _ _ (lit _ (.bool value)) => pure (.bool value)
  | ascribed _ _ (lit _ (.int value)) => pure (.int (f.width.wrap value))
  | ascribed _ _ (lit _ (.str value)) => Emit.stringLiteral value
  | ascribed _ _ (var _ name) =>
    match f.register? name with
    | some r => pure (.reg r)
    | none => Emit.fail (.noRegister name)
  | ascribed _ _ (binary _ op lhs rhs) => do
    let lhsType ← lhs.carriedType
    let rhsType ← rhs.carriedType
    let x ← emit f lhs
    let y ← emit f rhs
    if lhsType = .any ∨ rhsType = .any then
      let x ← Emit.coerce f x lhsType .any
      let y ← Emit.coerce f y rhsType .any
      Emit.define (op.instr x y)
    else Emit.define (op.instr x y)
  | ascribed _ _ (neg _ operand) =>
    if operand.ascribedType? = some .int then do
      let x ← emit f operand
      Emit.define (.neg · x)
    else Emit.fail (.negatedNonInteger operand.untagged)
  | ascribed _ ty (call _ path args) => do
    match ← Emit.call f path (emitArgs f args) with
    | some r => return .reg r
    | none => Emit.fail (.noResult path ty)
  | ascribed _ _ (bareCall _ name _) => Emit.fail (.bareCall name)
  | ascribed tag ty (ascribed tag' ty' inner) =>
    Emit.fail (.doublyTyped (ascribed tag ty (ascribed tag' ty' inner)).untagged)
  | e => Emit.fail (.untyped e.untagged)

/-- The arguments of a call, converted to the types of the parameters, as far as both reach. -/
def emitArgs (f : Frame) : List (Expr τ) → List Param → Emit (List Operand)
  | arg :: args, param :: params => do
    let ty ← arg.carriedType
    let value ← emit f arg
    let value ← Emit.coerce f value ty param.ty
    return value :: (← emitArgs f args params)
  | _, _ => return []

end

/-- Emits an expression whose value is not used. Only here may a call return nothing. -/
def emitEffect (f : Frame) : Expr τ → Emit Unit
  | ascribed _ _ (call _ path args) => do
    let _ ← Emit.call f path (emitArgs f args)
  | e => do
    let _ ← e.emit f

end Expr

end BlockCompiler
