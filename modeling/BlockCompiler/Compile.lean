import BlockCompiler.Diagnostic
import BlockCompiler.Emission.Module
import BlockCompiler.Typing.Check

/-!
# Compilation

A program is compiled in five steps: its scope is built, its names are resolved, its types are
checked, its expressions are ascribed their types, and code is emitted. The first error ends it.
-/

namespace BlockCompiler

inductive CompileError where
  | scope (error : ScopeError)
  | resolve (error : ResolveError)
  | check (error : CheckError)
  | ascription (fault : AscriptionFault)
  | emission (fault : EmissionFault)
deriving DecidableEq

def CompileError.diagnostic : CompileError → Diagnostic
  | scope error => error.diagnostic
  | resolve error => error.diagnostic
  | check error => error.diagnostic
  | ascription fault => .ofFault fault.message
  | emission fault => .ofFault fault.message

structure Compilation where
  /-- The scope under which other modules may import this one. -/
  scope : Scope
  module : Target.Module

/-- The event of a finished scope. -/
def Scope.built (s : Scope) : Event :=
  .scopeBuilt s.functions.size s.types.size s.imports.size

variable {τ : Type} [Located τ]

/-- Compiles one module, with integers of width `w` and imports from `lib`. -/
def compile (lib : Library) (w : Target.Width) (p : Program τ) :
    Traced CompileError Compilation := do
  let s ← (Scope.ofProgram lib p).mapError CompileError.scope
  Traced.report s.built
  let resolved ← (p.resolve s).mapError .resolve
  (resolved.check s).mapError .check
  let typed ← (resolved.addTypes s).mapError CompileError.ascription
  let module ← (typed.emit s w).mapError .emission
  Traced.report (.compiled p.module)
  return ⟨s, module⟩

end BlockCompiler
