import BlockCompiler.Emission.Statement

/-!
# Code for modules

A module declares the functions it imports and the external functions of the program, and defines
the others. Every visible type is declared. Distinct paths may share a link name; each repeated name
is reported.
-/

namespace BlockCompiler

open Target

variable {τ : Type}

/-- The function at `path` without a body. -/
def Signature.declaration (w : Width) (path : Path) (sig : Signature) : Function :=
  ⟨path.linkName, sig.params.map (·.ty.target w), sig.result.target w, none⟩

/-- Emits a whole body from its entry block on. A body whose end is reached returns, if there is
nothing to return. -/
def Func.emitBody (f : Func τ) (frame : Frame) : Emit Unit := do
  let entry ← Emit.create "entry"
  Emit.moveTo entry
  Stmt.emitAll frame f.body
  Emit.closeWith (if frame.signature.result = .void then .ret none else .unreachable)

/-- The definition of a function, under the link name of `path`. -/
def Func.emit (s : Scope) (w : Width) (path : Path) (f : Func τ) :
    Traced EmissionFault Function := do
  let frame : Frame := ⟨s, w, f.signature⟩
  let (_, b) ← (f.emitBody frame).run { Builder.empty with nextReg := frame.args.length }
  let blocks ← b.finish.mapError EmissionFault.builder
  Traced.report (.functionEmitted path blocks.length)
  return { f.signature.declaration w path with body? := some ⟨frame.args, blocks⟩ }

/-- The elements that occur earlier in the list or in `seen`, once for each such occurrence. -/
def repeatsAfter (seen : List String) : List String → List String
  | [] => []
  | x :: xs => if x ∈ seen then x :: repeatsAfter seen xs else repeatsAfter (x :: seen) xs

/-- Reports every link name that is used again. -/
def Target.Module.collisions (m : Module) : List Event :=
  (repeatsAfter [] (m.functions.map (·.name))).map .functionCollision ++
    (repeatsAfter [] m.types).map .typeCollision

/-- The module of a program whose expressions carry their types. -/
def Program.emit (s : Scope) (w : Width) (p : Program τ) : Traced EmissionFault Module := do
  let imported := s.functions.imported.map fun (path, symbol) => symbol.decl.declaration w path
  let external := (p.functions.filter (·.isExternal)).map fun f =>
    f.signature.declaration w (p.module.child f.name)
  let defined ← (p.functions.filter (!·.isExternal)).mapM fun f =>
    f.emit s w (p.module.child f.name)
  let module : Module :=
    { name := p.module.linkName
      width := w
      types := s.types.toList.map fun entry => entry.1.linkName
      functions := imported ++ external ++ defined }
  module.collisions.forM Traced.report
  Traced.report (.moduleEmitted module.functions.length)
  return module

end BlockCompiler
