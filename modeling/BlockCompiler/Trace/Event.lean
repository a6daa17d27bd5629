import BlockCompiler.Name.Path

/-!
# Events

What the compiler reports while it works, one event for each thing done.
-/

namespace BlockCompiler

inductive Level where
  | trace
  | debug
  | info
  | warn
deriving DecidableEq

def Level.render : Level → String
  | trace => "TRACE"
  | debug => "DEBUG"
  | info => "INFO"
  | warn => "WARN"

inductive Event where
  /-- A scope is complete, with so many functions, types and imported modules. -/
  | scopeBuilt (functions types imports : Nat)
  | callResolved (name : String) (path : Path)
  | functionChecked (name : String)
  /-- The rest of a block cannot be reached and is not emitted. -/
  | deadCodeSkipped
  | functionEmitted (path : Path) (blocks : Nat)
  | functionCollision (linkName : String)
  | typeCollision (linkName : String)
  | moduleEmitted (functions : Nat)
  | compiled (module : Path)
deriving DecidableEq

namespace Event

def level : Event → Level
  | callResolved .. | deadCodeSkipped | functionEmitted .. => .trace
  | scopeBuilt .. | functionChecked _ | moduleEmitted _ => .debug
  | compiled _ => .info
  | functionCollision _ | typeCollision _ => .warn

def message : Event → String
  | scopeBuilt .. => "built environment"
  | callResolved .. => "resolved call"
  | functionChecked _ => "type checked"
  | deadCodeSkipped => "skipping statements after a terminator"
  | functionEmitted .. => "lowered function"
  | functionCollision _ => "two functions share a mangled name"
  | typeCollision _ => "two types share a mangled name"
  | moduleEmitted _ => "lowered module"
  | compiled _ => "compilation successful"

/-- The particulars of an event, each under its name. -/
def fields : Event → List (String × String)
  | scopeBuilt functions types imports =>
    [("functions", toString functions), ("types", toString types), ("imports", toString imports)]
  | callResolved name path => [("name", name), ("path", path.dotted)]
  | functionChecked name => [("function", name)]
  | deadCodeSkipped => []
  | functionEmitted path blocks => [("function", path.dotted), ("blocks", toString blocks)]
  | functionCollision linkName | typeCollision linkName => [("symbol", linkName)]
  | moduleEmitted functions => [("functions", toString functions)]
  | compiled module => [("module", module.dotted)]

end Event

end BlockCompiler
