import BlockCompiler.Source.Position
import BlockCompiler.Source.Stmt

/-!
# Programs

A program is one module: its path and its declarations. A function's signature lists its parameters
and the type of its result, which may be left open.
-/

namespace BlockCompiler

structure Param where
  ty : Ty
  name : String
deriving DecidableEq

structure Signature where
  params : List Param
  /-- The declared result; a function that declares none returns nothing. -/
  result? : Option Ty
deriving DecidableEq

namespace Signature

def result (s : Signature) : Ty :=
  s.result?.getD .void

/-- The reserved name under which the result stands at the end of a slot list. -/
def resultName : String := "#return"

/-- The signature as one list: the parameters, then the result under its reserved name. -/
def slots (s : Signature) : List Param :=
  s.params ++ (s.result?.map (⟨·, resultName⟩)).toList

/-- Reads a slot list. Only a last slot of the reserved name is the result. -/
def ofSlots (slots : List Param) : Signature :=
  match slots.getLast? with
  | none => ⟨[], none⟩
  | some last =>
    if last.name = resultName then ⟨slots.dropLast, some last.ty⟩ else ⟨slots, none⟩

theorem slots_ofSlots (l : List Param) : (ofSlots l).slots = l := by
  unfold ofSlots
  split
  · next h => simp [slots, List.getLast?_eq_none_iff.1 h]
  · next last h =>
    split
    · next hn =>
      obtain ⟨init, rfl⟩ := List.getLast?_eq_some_iff.1 h
      cases last
      simp_all [slots]
    · simp [slots]

/-- The type of a parameter. The last parameter of a name hides those before it. -/
def typeOf? (s : Signature) (name : String) : Option Ty :=
  (s.params.reverse.find? (·.name = name)).map Param.ty

end Signature

structure Func (τ : Type) where
  name : String
  /-- Defined elsewhere; a body, if there is one, is not compiled. -/
  isExternal : Bool
  signature : Signature
  body : List (Stmt τ)
deriving DecidableEq

/-- A type without visible structure. -/
structure TypeDecl where
  name : String
  isExternal : Bool
deriving DecidableEq

inductive Decl (τ : Type) where
  | function (tag : τ) (decl : Func τ)
  | type (tag : τ) (decl : TypeDecl)
  | imports (tag : τ) (module : Path)
deriving DecidableEq

namespace Decl

variable {τ : Type}

def tag : Decl τ → τ
  | function t _ | type t _ | imports t _ => t

/-- The name a declaration introduces; an import introduces none. -/
def name? : Decl τ → Option String
  | function _ f => some f.name
  | type _ t => some t.name
  | imports _ _ => none

def function? : Decl τ → Option (Func τ)
  | function _ f => some f
  | _ => none

def import? : Decl τ → Option (Path × τ)
  | imports t m => some (m, t)
  | _ => none

end Decl

structure Program (τ : Type) where
  module : Path
  decls : List (Decl τ)
deriving DecidableEq

namespace Program

variable {τ : Type}

def functions (p : Program τ) : List (Func τ) :=
  p.decls.filterMap Decl.function?

/-- The imported modules, each with the tag of its declaration. -/
def imports (p : Program τ) : List (Path × τ) :=
  p.decls.filterMap Decl.import?

end Program

end BlockCompiler
