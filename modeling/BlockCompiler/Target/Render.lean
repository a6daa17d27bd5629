import BlockCompiler.Target.Code
import BlockCompiler.Text.Bytes

/-!
# Target text

The text of target code: one line for each instruction, block header and declaration.
-/

namespace BlockCompiler

namespace Target

def Ty.render : Ty → String
  | bool => "i1"
  | int width => "i" ++ toString width.bits
  | ptr => "ptr"
  | void => "void"

def Reg.render (r : Reg) : String :=
  "%" ++ toString r.index

def BlockId.render (b : BlockId) : String :=
  "bb" ++ toString b.index

def Operand.render : Operand → String
  | reg r => r.render
  | int value => toString value
  | bool value => if value then "true" else "false"

end Target

def ArithOp.mnemonic : ArithOp → String
  | add => "add"
  | sub => "sub"
  | mul => "mul"
  | div => "sdiv"
  | rem => "srem"

def CompareOp.mnemonic : CompareOp → String
  | eq => "eq"
  | ne => "ne"
  | lt => "slt"
  | le => "sle"
  | gt => "sgt"
  | ge => "sge"

namespace Target

/-- The register an instruction writes, in front of what it computes. -/
def Reg.assign (dest : Reg) (value : String) : String :=
  dest.render ++ " = " ++ value

def Instr.render : Instr → String
  | arith dest op lhs rhs =>
    dest.assign (op.mnemonic ++ " " ++ lhs.render ++ ", " ++ rhs.render)
  | compare dest op lhs rhs =>
    dest.assign ("icmp " ++ op.mnemonic ++ " " ++ lhs.render ++ ", " ++ rhs.render)
  | neg dest operand => dest.assign ("neg " ++ operand.render)
  | call dest? callee args =>
    let text := "call @" ++ callee ++ "(" ++ ", ".intercalate (args.map Operand.render) ++ ")"
    match dest? with
    | some dest => dest.assign text
    | none => text
  | alloca dest length => dest.assign ("alloca [" ++ toString length ++ " x i8]")
  | store ptr data => "store c\"" ++ Text.bytesText data ++ "\", " ++ ptr.render
  | bitcast dest value => dest.assign ("bitcast " ++ value.render ++ " to ptr")
  | intToPtr dest value => dest.assign ("inttoptr " ++ value.render ++ " to ptr")
  | ptrToInt dest value ty => dest.assign ("ptrtoint " ++ value.render ++ " to " ++ ty.render)

def Terminator.render : Terminator → String
  | jump target => "br " ++ target.render
  | branch test thn els => "br " ++ test.render ++ ", " ++ thn.render ++ ", " ++ els.render
  | ret none => "ret void"
  | ret (some value) => "ret " ++ value.render
  | unreachable => "unreachable"

def Block.render (b : Block) : String :=
  b.id.render ++ ": ; " ++ b.label ++ "\n" ++
    String.join (b.instrs.map fun i => "  " ++ i.render ++ "\n") ++
    "  " ++ b.terminator.render ++ "\n"

def Function.render (f : Function) : String :=
  let head (params : List String) : String :=
    f.result.render ++ " @" ++ f.name ++ "(" ++ ", ".intercalate params ++ ")"
  match f.body? with
  | none => "declare " ++ head (f.params.map Ty.render) ++ "\n"
  | some body =>
    let args := List.zipWith (fun ty r => ty.render ++ " " ++ r.render) f.params body.args
    "define " ++ head args ++ " \x7b\n" ++ String.join (body.blocks.map Block.render) ++ "\x7d\n"

def Module.render (m : Module) : String :=
  "; module " ++ m.name ++ "\n" ++
    String.join (m.types.map fun t => "%" ++ t ++ " = type opaque\n") ++
    String.join (m.functions.map fun f => "\n" ++ f.render)

end Target

end BlockCompiler
