/-!
# Operators

Binary operators of the source language are either arithmetic or comparisons. The target code has
an instruction for each.
-/

namespace BlockCompiler

inductive ArithOp where
  | mul
  | div
  | rem
  | add
  | sub
deriving DecidableEq

inductive CompareOp where
  | lt
  | le
  | gt
  | ge
  | eq
  | ne
deriving DecidableEq

inductive BinOp where
  | arith (op : ArithOp)
  | compare (op : CompareOp)
deriving DecidableEq

def ArithOp.symbol : ArithOp → String
  | mul => "*"
  | div => "/"
  | rem => "%"
  | add => "+"
  | sub => "-"

def CompareOp.symbol : CompareOp → String
  | lt => "<"
  | le => "<="
  | gt => ">"
  | ge => ">="
  | eq => "=="
  | ne => "!="

/-- Whether the comparison is for equality, and so is open to values of every type. -/
def CompareOp.isEquality : CompareOp → Bool
  | eq | ne => true
  | lt | le | gt | ge => false

def BinOp.symbol : BinOp → String
  | arith op => op.symbol
  | compare op => op.symbol

end BlockCompiler
