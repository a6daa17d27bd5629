import BlockCompiler.Emission.Value

/-!
# Code for statements

Branches and loops become blocks. The block in which the arms of a branch meet again is created by
the first arm that reaches its end. Statements after a closed block are skipped.
-/

namespace BlockCompiler

open Target

variable {τ : Type}

/-- Ends an arm of a branch. An arm that is still open jumps to the meeting block, and creates it if
no arm has. -/
def Emit.joinArm (merge? : Option BlockId) : Emit (Option BlockId) := do
  if ← Emit.isOpen then
    let merge ← match merge? with
      | some merge => pure merge
      | none => Emit.create "merge"
    Emit.terminate (.jump merge)
    return some merge
  else return merge?

namespace Stmt

mutual

def emit (f : Frame) : Stmt τ → Emit Unit
  | branch _ test thn els => do
    let test ← test.emit f
    let thenBlock ← Emit.create "then"
    let elseBlock ← Emit.create "else"
    Emit.terminate (.branch test thenBlock elseBlock)
    Emit.moveTo thenBlock
    emitAll f thn
    let merge? ← Emit.joinArm none
    Emit.moveTo elseBlock
    emitAll f els
    let merge? ← Emit.joinArm merge?
    match merge? with
    | some merge => Emit.moveTo merge
    | none => return ()
  | loop _ test body => do
    let header ← Emit.create "loop.header"
    Emit.terminate (.jump header)
    Emit.moveTo header
    let test ← test.emit f
    let bodyBlock ← Emit.create "loop.body"
    let exit ← Emit.create "loop.exit"
    Emit.terminate (.branch test bodyBlock exit)
    Emit.moveTo bodyBlock
    emitAll f body
    Emit.closeWith (.jump header)
    Emit.moveTo exit
  | effect _ value => value.emitEffect f
  | ret _ none => Emit.terminate (.ret none)
  | ret _ (some value) => do
    let ty ← value.carriedType
    if ty = .void then
      value.emitEffect f
      Emit.terminate (.ret none)
    else
      let x ← value.emit f
      let x ← Emit.coerce f x ty f.signature.result
      Emit.terminate (.ret (some x))

/-- Emits a block of statements, up to the first that cannot be reached. -/
def emitAll (f : Frame) : List (Stmt τ) → Emit Unit
  | [] => return ()
  | s :: ss => do
    if ← Emit.isOpen then
      emit f s
      emitAll f ss
    else Emit.report .deadCodeSkipped

end

end Stmt

end BlockCompiler
