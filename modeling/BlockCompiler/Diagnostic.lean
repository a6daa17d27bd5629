import BlockCompiler.Emission.Fault
import BlockCompiler.Resolution
import BlockCompiler.Scope.Build
import BlockCompiler.Source.Render
import BlockCompiler.Typing.Ascription
import BlockCompiler.Typing.Infer

/-!
# Diagnostics

How errors are put to the user: a message, perhaps a code and a help text, and labels on the source.
Faults are errors of the compiler itself and point at no source.
-/

namespace BlockCompiler

structure Label where
  text : String
  span : Span
deriving DecidableEq

structure Diagnostic where
  message : String
  code? : Option String := none
  help? : Option String := none
  labels : List Label := []
deriving DecidableEq

namespace Diagnostic

/-- The label on a span, if the span is known. -/
def labelAt (text : String) (span? : Option Span) : List Label :=
  (span?.map (Label.mk text)).toList

/-- A fault in the compiler. -/
def ofFault (cause : String) : Diagnostic where
  message := "Internal compiler error: " ++ cause
  code? := some "cinder::internal"
  help? := some "This is a bug in the compiler, not in the compiled program"

end Diagnostic

/-- A text between backquotes. -/
def tick (s : String) : String :=
  "`" ++ s ++ "`"

def CheckFault.message : CheckFault → String
  | bareCall name => "call to unresolved name " ++ tick name ++ " reached type checking"
  | missingCallee path => "call to " ++ tick path.dotted ++ " is missing from the environment"
  | wrongAscription inner ascribed actual =>
    tick inner.render ++ " is annotated with " ++ ascribed.render ++ ", but has type " ++
      actual.render
  | unboundVariable name => "variable " ++ tick name ++ " was not checked by resolution"

def AscriptionFault.message : AscriptionFault → String
  | bareCall name => "call to unresolved name " ++ tick name ++ " reached type resolution"
  | missingCallee path => "call to " ++ tick path.dotted ++ " is missing from the environment"
  | arity path expected actual =>
    tick path.dotted ++ " called with " ++ toString actual ++ " arguments instead of " ++
      toString expected
  | argument param path actual =>
    "argument " ++ tick param.name ++ " of " ++ tick path.dotted ++ " has type " ++ actual.render ++
      ", expected " ++ param.ty.render
  | operand op expected actual =>
    "operand of " ++ tick op.symbol ++ " has type " ++ actual.render ++ ", expected " ++
      expected.render
  | negated actual =>
    "operand of unary " ++ tick "-" ++ " has type " ++ actual.render ++ ", expected " ++
      Ty.int.render
  | unboundVariable name => "variable " ++ tick name ++ " reached type resolution unbound"

def EmissionFault.message : EmissionFault → String
  | untyped expr => "expression " ++ tick expr.render ++ " reached lowering without a type"
  | doublyTyped expr => "doubly wrapped expression " ++ tick expr.render
  | bareCall name => "call to unresolved name " ++ tick name ++ " reached lowering"
  | missingCallee path => tick path.dotted ++ " is missing from the environment"
  | noResult path ty =>
    "result of " ++ tick path.dotted ++ " used as a value, but it is " ++ ty.render
  | noRegister name => "variable " ++ tick name ++ " has no register"
  | negatedNonInteger operand => "negation of non-integer " ++ tick operand.render
  | noConversion source dest value =>
    "no conversion from " ++ source.render ++ " to " ++ dest.render ++ " for " ++ tick value.render
  | builder cause => cause.message

open Diagnostic

def ScopeError.diagnostic : ScopeError → Diagnostic
  | duplicate name span? previous? =>
    { message := tick name ++ " is declared more than once"
      labels := labelAt "redeclared here" span? ++ labelAt "first declared here" previous? }
  | missingModule module span? =>
    { message :=
        "The module " ++ tick module.dotted ++ " is imported, but its environment was not provided"
      help? := some "Modules must be compiled in dependency order"
      labels := labelAt "this import" span? }

def ResolveError.diagnostic : ResolveError → Diagnostic
  | undeclared name span? =>
    { message := tick name ++ " is not declared"
      labels := labelAt "not found in this scope" span? }
  | ambiguous name candidates span? =>
    { message := tick name ++ " is ambiguous"
      help? := some <| "It is exported by each of: [" ++
        ", ".intercalate (candidates.map fun p => Text.quoted p.dotted) ++ "]"
      labels := labelAt "ambiguous name" span? }
  | missingImport module span? =>
    { message :=
        "The module " ++ tick module.dotted ++ " is imported, but missing from the environment"
      labels := labelAt "this import" span? }

def CheckError.diagnostic : CheckError → Diagnostic
  | mismatch construct expected actual span? =>
    { message := "Mismatched types in " ++ construct.describe ++ ": expected " ++ expected.render ++
        ", found " ++ actual.render
      labels := labelAt "here" span? }
  | arity callee expected actual span? =>
    { message := tick callee.dotted ++ " takes " ++ toString expected ++ " argument(s), but " ++
        toString actual ++ " were supplied"
      labels := labelAt "in this call" span? }
  | voidParameter function name span? =>
    { message := "Parameter " ++ tick name ++ " of " ++ tick function ++ " has type Void"
      help? := some "Parameters must carry a value"
      labels := labelAt "in this declaration" span? }
  | fault cause => ofFault cause.message

end BlockCompiler
