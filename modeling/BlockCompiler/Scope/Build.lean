import BlockCompiler.Scope.Basic

/-!
# Scopes of programs

The scope of a program is built from its declarations in order. A name can be declared once in a
module, be it for a function or for a type, and every imported module must be in the library.
-/

namespace BlockCompiler

inductive ScopeError where
  | duplicate (name : String) (span? previous? : Option Span)
  | missingModule (module : Path) (span? : Option Span)
deriving DecidableEq

namespace Scope

variable {τ : Type} [Located τ]

/-- Adds the declarations to a scope. `seen` lists the names declared so far, with the span of each
declaration. -/
def addAll (lib : Library) (s : Scope) (seen : List (String × Option Span)) :
    List (Decl τ) → Except ScopeError Scope
  | [] => .ok s
  | .imports tag module :: decls =>
    match lib module with
    | none => .error (.missingModule module (Located.span? tag))
    | some imported => addAll lib (s.importModule module imported) seen decls
  | .function tag decl :: decls =>
    match seen.lookup decl.name with
    | some previous? => .error (.duplicate decl.name (Located.span? tag) previous?)
    | none => addAll lib (s.declareFunction decl) ((decl.name, Located.span? tag) :: seen) decls
  | .type tag decl :: decls =>
    match seen.lookup decl.name with
    | some previous? => .error (.duplicate decl.name (Located.span? tag) previous?)
    | none => addAll lib (s.declareType decl) ((decl.name, Located.span? tag) :: seen) decls

/-- The scope of a program whose imports are found in `lib`. -/
def ofProgram (lib : Library) (p : Program τ) : Except ScopeError Scope :=
  addAll lib (empty p.module) [] p.decls

end Scope

end BlockCompiler
