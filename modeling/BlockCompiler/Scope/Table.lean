import BlockCompiler.Name.Order

/-!
# Symbol tables

A table gives the symbols of one kind that are visible in a module, by path and in path order. What
a symbol declares is of type `δ`.
-/

namespace BlockCompiler

/-- Where a symbol was declared. -/
inductive Origin where
  | own
  | imported (module : Path)
deriving DecidableEq

structure Symbol (δ : Type) where
  decl : δ
  isExternal : Bool
  origin : Origin
deriving DecidableEq

namespace Symbol

variable {δ : Type}

def isOwn (s : Symbol δ) : Bool :=
  s.origin = .own

/-- Whether the symbol's definition is found when modules are linked. -/
def isLinked (s : Symbol δ) : Bool :=
  !s.isOwn || s.isExternal

end Symbol

abbrev Table (δ : Type) :=
  Std.ExtTreeMap Path (Symbol δ)

namespace Table

variable {δ : Type}

/-- The symbols the module declares itself. -/
def own (t : Table δ) : List (Path × Symbol δ) :=
  t.toList.filter fun entry => entry.2.isOwn

/-- The symbols that come from imported modules. -/
def imported (t : Table δ) : List (Path × Symbol δ) :=
  t.toList.filter fun entry => !entry.2.isOwn

/-- The module's own symbols that are defined elsewhere. -/
def external (t : Table δ) : List (Path × Symbol δ) :=
  t.own.filter fun entry => entry.2.isExternal

/-- Adds one of the module's own symbols, in place of any symbol at that path. -/
def declare (t : Table δ) (path : Path) (decl : δ) (isExternal : Bool) : Table δ :=
  t.insert path ⟨decl, isExternal, .own⟩

/-- Adds an exported symbol under its path, unless that path is taken. -/
def addExport (module : Path) (t : Table δ) (entry : Path × Symbol δ) : Table δ :=
  t.insertIfNew entry.1 { entry.2 with origin := .imported module }

/-- Adds what another module declares itself. What it imported in turn stays out. -/
def addExports (t : Table δ) (module : Path) (exporter : Table δ) : Table δ :=
  (own exporter).foldl (addExport module) t

end Table

end BlockCompiler
