import BlockCompiler.Compile

/-!
# Sessions

A session takes a program through the steps of compilation one at a time, in any order. A step that
fails leaves the session as it was.
-/

namespace BlockCompiler

structure Session (τ : Type) where
  scope : Scope
  current : Program τ
  /-- The program before the last step that replaced it. -/
  previous : Program τ

namespace Session

variable {τ : Type}

def start (scope : Scope) (p : Program τ) : Session τ :=
  ⟨scope, p, p⟩

def advance (s : Session τ) (p : Program τ) : Session τ :=
  { s with current := p, previous := s.current }

/-- Whether the last step that replaced the program left it the same, tags included. -/
def isUnchanged [DecidableEq τ] (s : Session τ) : Bool :=
  s.current = s.previous

def addTypes (s : Session τ) : Except CompileError (Session τ) :=
  ((s.current.addTypes s.scope).map s.advance).mapError .ascription

def emit (s : Session τ) (w : Target.Width) : Except CompileError Target.Module :=
  (s.current.emit s.scope w).outcome.mapError .emission

variable [Located τ]

/-- Builds the scope anew from the current program. -/
def rescope (s : Session τ) (lib : Library) : Except CompileError (Session τ) :=
  ((Scope.ofProgram lib s.current).map fun scope => { s with scope }).mapError .scope

def resolve (s : Session τ) : Except CompileError (Session τ) :=
  ((s.current.resolve s.scope).outcome.map s.advance).mapError .resolve

def check (s : Session τ) : Except CompileError Unit :=
  (s.current.check s.scope).outcome.mapError .check

end Session

end BlockCompiler
