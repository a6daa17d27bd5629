import BlockCompiler.Source.Operator
import BlockCompiler.Target.Width

/-!
# Target code

A function body is a list of basic blocks over numbered registers. A block is a run of instructions
that ends in one terminator, and only terminators transfer control. Each register is meant to be
written by one instruction.
-/

namespace BlockCompiler.Target

inductive Ty where
  | bool
  | int (width : Width)
  | ptr
  | void
deriving DecidableEq

/-- A register, by its number. Numbers have no bound here. Kept in 32-bit words they mean the same, as
long as a function has fewer than 2^32 registers. -/
structure Reg where
  index : Nat
deriving DecidableEq

/-- A block, by its number. What is said of the numbers of registers holds of these too. -/
structure BlockId where
  index : Nat
deriving DecidableEq

inductive Operand where
  | reg (r : Reg)
  | int (value : Int)
  | bool (value : Bool)
deriving DecidableEq

inductive Instr where
  | arith (dest : Reg) (op : ArithOp) (lhs rhs : Operand)
  | compare (dest : Reg) (op : CompareOp) (lhs rhs : Operand)
  | neg (dest : Reg) (operand : Operand)
  | call (dest? : Option Reg) (callee : String) (args : List Operand)
  /-- Reserves that many bytes of memory. -/
  | alloca (dest : Reg) (length : Nat)
  | store (ptr : Reg) (data : List UInt8)
  | bitcast (dest : Reg) (value : Reg)
  | intToPtr (dest : Reg) (value : Operand)
  | ptrToInt (dest : Reg) (value : Operand) (ty : Ty)
deriving DecidableEq

inductive Terminator where
  | jump (target : BlockId)
  | branch (test : Operand) (thn els : BlockId)
  | ret (value? : Option Operand)
  | unreachable
deriving DecidableEq

/-- The blocks a terminator may pass control to. -/
def Terminator.successors : Terminator → List BlockId
  | jump target => [target]
  | branch _ thn els => [thn, els]
  | ret _ | unreachable => []

structure Block where
  id : BlockId
  label : String
  instrs : List Instr
  terminator : Terminator
deriving DecidableEq

structure Body where
  /-- The registers that hold the arguments on entry. -/
  args : List Reg
  blocks : List Block
deriving DecidableEq

structure Function where
  name : String
  params : List Ty
  result : Ty
  /-- The body; a function without one is declared here and defined elsewhere. -/
  body? : Option Body
deriving DecidableEq

namespace Function

def isDeclaration (f : Function) : Bool :=
  f.body?.isNone

def blocks (f : Function) : List Block :=
  (f.body?.map Body.blocks).getD []

end Function

structure Module where
  name : String
  width : Width
  /-- The names of the module's opaque types. -/
  types : List String
  functions : List Function
deriving DecidableEq

/-- The first function of that name. -/
def Module.function? (m : Module) (name : String) : Option Function :=
  m.functions.find? (·.name = name)

end BlockCompiler.Target
