import BlockCompiler.Scope.Table
import BlockCompiler.Source.Program

/-!
# Scopes

The scope of a module holds every symbol that is visible in it: what it declares and what the
modules it imports declare. A library finds the scopes of modules that can be imported.
-/

namespace BlockCompiler

@[ext]
structure Scope where
  module : Path
  imports : Std.ExtTreeSet Path
  functions : Table Signature
  types : Table Unit

/-- The scopes of the modules that can be imported. -/
abbrev Library :=
  Path → Option Scope

namespace Library

def empty : Library :=
  fun _ => none

/-- The library in which `path` leads to `scope`, whatever it led to before. -/
def register (lib : Library) (path : Path) (scope : Scope) : Library :=
  fun p => if p = path then some scope else lib p

end Library

namespace Scope

/-- The scope of a module before its first declaration. -/
def empty (module : Path) : Scope :=
  ⟨module, ∅, ∅, ∅⟩

def function? (s : Scope) (path : Path) : Option (Symbol Signature) :=
  s.functions[path]?

def type? (s : Scope) (path : Path) : Option (Symbol Unit) :=
  s.types[path]?

def isImported (s : Scope) (module : Path) : Bool :=
  s.imports.contains module

variable {τ : Type}

def declareFunction (s : Scope) (f : Func τ) : Scope :=
  { s with functions := s.functions.declare (s.module.child f.name) f.signature f.isExternal }

def declareType (s : Scope) (t : TypeDecl) : Scope :=
  { s with types := s.types.declare (s.module.child t.name) () t.isExternal }

/-- Adds the module that was found under `path` to the imports. -/
def importModule (s : Scope) (path : Path) (imported : Scope) : Scope :=
  { s with
    imports := s.imports.insert path
    functions := s.functions.addExports imported.module imported.functions
    types := s.types.addExports imported.module imported.types }

end Scope

end BlockCompiler
