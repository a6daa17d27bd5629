import BlockCompiler.Source.Operator
import BlockCompiler.Target.Width

/-!
# Values and effects

What source programs and target code have in common when they run. Values are machine words, truth
values and pointers. A run may call functions, trap in a division, or get stuck where an operation
meets a value it is not for. Conversions to and from pointers, the contents of memory and the answers
of called functions are left open: they are given by a world.
-/

namespace BlockCompiler

open Target

/-- A value, given the width of words and the type of pointers. -/
inductive Value (w : Width) (P : Type) where
  | int (v : BitVec w.bits)
  | bool (v : Bool)
  | ptr (p : P)
deriving DecidableEq

structure Call (w : Width) (P : Type) where
  /-- The link name of the function that is called. -/
  callee : String
  args : List (Value w P)
deriving DecidableEq

/-- The calls made so far, the first one first. -/
abbrev History (w : Width) (P : Type) :=
  List (Call w P)

structure World (w : Width) (P : Type) where
  /-- The pointer to memory with these bytes. -/
  pointer : List UInt8 → P
  ofInt : BitVec w.bits → P
  ofBool : Bool → P
  toInt : P → BitVec w.bits
  toBool : P → Bool
  /-- What a function answers, which may depend on all calls before. -/
  answer : History w P → String → List (Value w P) → Value w P

/-- Why a run does not go on. -/
inductive Halt (w : Width) (P : Type) where
  /-- A division by zero, after these calls. -/
  | trapped (calls : History w P)
  /-- An operation met a value it is not for. -/
  | stuck
deriving DecidableEq

/-- How the run of a function ends. -/
inductive Ending (w : Width) (P : Type) where
  | returned (value? : Option (Value w P))
  /-- The end of a body that should have returned a value was reached. -/
  | fellOff
  | trapped
deriving DecidableEq

/-- Computations that make calls and may halt. -/
abbrev Exec (w : Width) (P : Type) :=
  StateT (History w P) (Except (Halt w P))

variable {w : Width} {P : Type} {α : Type}

namespace Exec

def stuck : Exec w P α :=
  fun _ => .error .stuck

def trap : Exec w P α :=
  fun calls => .error (.trapped calls)

/-- Gets stuck unless there is a value. -/
def require : Option α → Exec w P α
  | none => stuck
  | some a => pure a

end Exec

namespace World

/-- Calls a function. -/
def call (world : World w P) (callee : String) (args : List (Value w P)) : Exec w P (Value w P) :=
  fun calls => .ok (world.answer calls callee args, calls ++ [⟨callee, args⟩])

/-- A word or a truth value as a pointer. -/
def box (world : World w P) : Value w P → Option (Value w P)
  | .int v => some (.ptr (world.ofInt v))
  | .bool v => some (.ptr (world.ofBool v))
  | .ptr _ => none

def unboxInt (world : World w P) : Value w P → Option (Value w P)
  | .ptr p => some (.int (world.toInt p))
  | .int _ | .bool _ => none

def unboxBool (world : World w P) : Value w P → Option (Value w P)
  | .ptr p => some (.bool (world.toBool p))
  | .int _ | .bool _ => none

end World

/-- Arithmetic on words of a fixed size, which wraps around. There is no quotient by zero. -/
def ArithOp.onWords {n : Nat} (op : ArithOp) (x y : BitVec n) : Option (BitVec n) :=
  match op with
  | mul => some (x * y)
  | div => if y = 0 then none else some (x.sdiv y)
  | rem => if y = 0 then none else some (x.srem y)
  | add => some (x + y)
  | sub => some (x - y)

namespace CompareOp

/-- Words are compared as signed numbers. -/
def onWords {n : Nat} (op : CompareOp) (x y : BitVec n) : Bool :=
  match op with
  | lt => x.slt y
  | le => x.sle y
  | gt => y.slt x
  | ge => y.sle x
  | eq => x = y
  | ne => x ≠ y

/-- Other values can only be compared for equality. -/
def onOthers [DecidableEq α] (op : CompareOp) (x y : α) : Option Bool :=
  match op with
  | eq => some (x = y)
  | ne => some (x ≠ y)
  | lt | le | gt | ge => none

end CompareOp

namespace Value

def arith (op : ArithOp) : Value w P → Value w P → Exec w P (Value w P)
  | int x, int y =>
    match op.onWords x y with
    | some v => pure (int v)
    | none => Exec.trap
  | _, _ => Exec.stuck

def compare [DecidableEq P] (op : CompareOp) : Value w P → Value w P → Exec w P (Value w P)
  | int x, int y => pure (bool (op.onWords x y))
  | bool x, bool y => bool <$> Exec.require (op.onOthers x y)
  | ptr x, ptr y => bool <$> Exec.require (op.onOthers x y)
  | _, _ => Exec.stuck

def binary [DecidableEq P] : BinOp → Value w P → Value w P → Exec w P (Value w P)
  | .arith op => arith op
  | .compare op => compare op

def negate : Value w P → Option (Value w P)
  | int v => some (int (-v))
  | bool _ | ptr _ => none

end Value

end BlockCompiler
