import BlockCompiler.Proofs.Stages
import BlockCompiler.Proofs.Visible

/-!
# Linkage

A module that imports another one declares the functions of that module as they stand there. The
functions that a module declares lie under its path, so no other import can take their place.
-/

namespace BlockCompiler

open Target

namespace Table

variable {δ : Type} {t : Table δ} {module : Path}

/-- What the table holds as the module's own lies under the path of the module. -/
def OwnUnder (module : Path) (t : Table δ) : Prop :=
  ∀ path symbol, t[path]? = some symbol → symbol.isOwn → ∃ name, path = module.child name

private theorem OwnUnder.declare (h : t.OwnUnder module) (name : String) (decl : δ)
    (isExternal : Bool) :
    (t.declare (module.child name) decl isExternal).OwnUnder module := by
  intro path symbol hs ho
  rw [getElem?_declare] at hs
  split at hs
  · next hpath => exact ⟨name, hpath.symm⟩
  · exact h path symbol hs ho

private theorem OwnUnder.addExports (h : t.OwnUnder module) (exporter : Path) (exports : Table δ) :
    (t.addExports exporter exports).OwnUnder module := by
  intro path symbol hs ho
  rw [getElem?_addExports] at hs
  rcases Option.or_eq_some_iff.1 hs with hs | ⟨_, hs⟩
  · exact h path symbol hs ho
  · obtain ⟨_, _, _, rfl⟩ := (exports.exported?_eq_some_iff path).1 hs
    cases ho

end Table

namespace Scope

/-- What a module declares itself lies under its path. -/
structure OwnUnder (s : Scope) : Prop where
  functions : s.functions.OwnUnder s.module
  types : s.types.OwnUnder s.module

private theorem OwnUnder.enter {τ : Type} {s : Scope} (h : s.OwnUnder) (lib : Library)
    (d : Decl τ) :
    (s.enter lib d).OwnUnder := by
  cases d with
  | function tag f => exact ⟨h.functions.declare f.name _ _, h.types⟩
  | type tag decl => exact ⟨h.functions, h.types.declare decl.name _ _⟩
  | imports tag module =>
    cases hl : lib module with
    | none => simpa [Scope.enter, hl] using h
    | some imported =>
      simp only [Scope.enter, hl, Option.elim_some]
      exact ⟨h.functions.addExports _ _, h.types.addExports _ _⟩

private theorem ownUnder_empty (module : Path) : (empty module).OwnUnder :=
  ⟨by simp [Table.OwnUnder, empty], by simp [Table.OwnUnder, empty]⟩

/-- The scopes that are made for programs. -/
inductive Built : Scope → Prop where
  | ofProgram {τ : Type} [Located τ] {lib : Library} {p : Program τ} {s : Scope}
      (h : Scope.ofProgram lib p = .ok s) : Built s

theorem Built.ownUnder {s : Scope} (h : s.Built) : s.OwnUnder := by
  obtain ⟨h⟩ := h
  obtain ⟨_, _, rfl⟩ := ofProgram_eq_ok_iff.1 h
  exact List.foldlRecOn _ _ (ownUnder_empty _) fun s hs d _ => hs.enter _ d

end Scope

namespace Library

/-- Every scope of the library was made for a program, and is found under the path of its module. -/
structure Coherent (lib : Library) : Prop where
  built : ∀ {path : Path} {scope : Scope}, lib path = some scope → scope.Built
  module_eq : ∀ {path : Path} {scope : Scope}, lib path = some scope → scope.module = path

theorem coherent_empty : empty.Coherent :=
  ⟨nofun, nofun⟩

variable {lib : Library}

theorem Coherent.register (h : lib.Coherent) {scope : Scope} (hscope : scope.Built) :
    (lib.register scope.module scope).Coherent := by
  have hfound : ∀ {path : Path} {found : Scope},
      lib.register scope.module scope path = some found →
        found.Built ∧ found.module = path := by
    intro path found hf
    unfold Library.register at hf
    split at hf
    · next hpath =>
      cases hf
      exact ⟨hscope, hpath.symm⟩
    · exact ⟨h.built hf, h.module_eq hf⟩
  exact ⟨fun hf => (hfound hf).1, fun hf => (hfound hf).2⟩

/-- A function under the path of a module is offered by that module only. -/
private theorem Coherent.eq_of_function? (h : lib.Coherent) {module found : Path} {name : String}
    {symbol : Symbol Signature} (hs : lib.function? (module.child name) found = some symbol) :
    found = module := by
  obtain ⟨scope, hl, _, hs', ho, _⟩ := function?_eq_some_iff.1 hs
  obtain ⟨_, hpath⟩ := (h.built hl).ownUnder.functions _ _ hs' ho
  rw [h.module_eq hl] at hpath
  exact (Path.child_inj.1 hpath).1.symm

end Library

variable {τ : Type} [Located τ] {lib : Library}

/-- An imported module's own functions are visible as that module declares them. -/
theorem Scope.function?_of_import {p : Program τ} {s scope : Scope} (h : ofProgram lib p = .ok s)
    (hlib : lib.Coherent) {module : Path} (hl : lib module = some scope) {tag : τ}
    (himp : (module, tag) ∈ p.imports) (hne : p.module ≠ module) {name : String}
    {symbol : Symbol Signature} (hs : scope.function? (module.child name) = some symbol)
    (ho : symbol.isOwn) :
    s.function? (module.child name) = some { symbol with origin := .imported module } := by
  have hoffer : lib.function? (module.child name) module =
      some { symbol with origin := .imported module } :=
    Library.function?_eq_some_iff.2 ⟨scope, hl, symbol, hs, ho, by rw [hlib.module_eq hl]⟩
  have hnot : ∀ f ∈ p.functions, p.module.child f.name ≠ module.child name :=
    fun f _ hpath => hne (Path.child_inj.1 hpath).1
  rw [function?_imported h hnot]
  -- Whichever import comes first with a function there, it is an import of this module.
  have hsome : (p.imports.findSome? (lib.function? (module.child name) ·.1)).isSome := by
    rw [List.findSome?_isSome_iff]
    exact ⟨_, himp, by rw [hoffer]; rfl⟩
  obtain ⟨found, hfound⟩ := Option.isSome_iff_exists.1 hsome
  obtain ⟨entry, _, hentry⟩ := List.exists_of_findSome?_eq_some hfound
  rw [hfound, ← hentry, hlib.eq_of_function? hentry, hoffer]

/-- Modules that are compiled apart agree on signatures. If `b` imports `a`, another module, from a
library that leads to the scope that the compilation of `a` gave, then for every function of `a` the
module of `b` has a declaration of its link name, with the parameters and the result that the function
has in the module of `a`. -/
theorem compile_signatures_agree {σ : Type} [Located σ] {libA : Library} {w : Width} {a : Program σ}
    {b : Program τ} {ra rb : Compilation} (ha : (compile libA w a).outcome = .ok ra)
    (hb : (compile lib w b).outcome = .ok rb) (hlib : lib.Coherent)
    (hreg : lib a.module = some ra.scope) (himp : ∃ tag, (a.module, tag) ∈ b.imports)
    (hne : b.module ≠ a.module) :
    ∀ f ∈ a.functions,
      ∃ g ∈ ra.module.functions, f.EmittedAs ra.scope w (a.module.child f.name) g ∧
        ∃ d ∈ rb.module.functions, d.body? = none ∧ d.name = (a.module.child f.name).linkName ∧
          d.params = g.params ∧ d.result = g.result := by
  intro f hf
  obtain ⟨_, _, ha⟩ := compile_eq_ok_iff.1 ha
  obtain ⟨_, _, hb⟩ := compile_eq_ok_iff.1 hb
  obtain ⟨tag, himp⟩ := himp
  obtain ⟨g, hg, hto⟩ := ha.exists_emittedAs hf
  have hvisible := Scope.function?_of_import hb.scope hlib hreg himp hne
    (Scope.function?_own ha.scope hf) rfl
  have hdecl := hto.eq_declaration
  exact ⟨g, hg, hto, f.signature.declaration w (a.module.child f.name),
    hb.declaration_mem hvisible rfl, rfl, rfl, (congrArg Function.params hdecl).symm,
    (congrArg Function.result hdecl).symm⟩

/-- A module with an external function, a function that is defined, and one with no declared result. -/
def measuring : Program Unit :=
  ⟨.single "units",
    [.function () ⟨"read", true, ⟨[⟨.str, "label"⟩], some .any⟩, []⟩,
     .function () ⟨"scale", false, ⟨[⟨.int, "n"⟩, ⟨.any, "by"⟩], some .int⟩,
      [.ret () (some (.neg () (.var () "n")))]⟩,
     .function () ⟨"reset", false, ⟨[⟨.bool, "hard"⟩], none⟩, []⟩]⟩

/-- A program that calls two functions of another module, and has one of the same name as a third. -/
def reporting : Program Unit :=
  ⟨.single "report",
    [.imports () (.single "units"),
     .function () ⟨"reset", false, ⟨[], some .int⟩,
      [.ret () (some (.bareCall () "scale"
        [.lit () (.int 3), .bareCall () "read" [.lit () (.str "factor")]]))]⟩]⟩

theorem compile_signatures_agree_reporting :
    ∃ ra rb, (compile Library.empty .w32 measuring).outcome = .ok ra ∧
      (compile (Library.empty.register ra.scope.module ra.scope) .w32 reporting).outcome = .ok rb ∧
      (Library.empty.register ra.scope.module ra.scope).Coherent ∧
      ∀ f ∈ measuring.functions,
        ∃ g ∈ ra.module.functions,
          f.EmittedAs ra.scope .w32 (measuring.module.child f.name) g ∧
          ∃ d ∈ rb.module.functions, d.body? = none ∧
            d.name = (measuring.module.child f.name).linkName ∧
            d.params = g.params ∧ d.result = g.result := by
  obtain ⟨rb, h⟩ := Outcome.exists_eq_ok
    (x := (compile Library.empty .w32 measuring).outcome >>= fun ra =>
      (compile (Library.empty.register ra.scope.module ra.scope) .w32 reporting).outcome)
    (by decide +kernel)
  obtain ⟨ra, ha, hb⟩ := Outcome.bind_eq_ok.1 h
  obtain ⟨_, _, hra⟩ := compile_eq_ok_iff.1 ha
  have hlib := Library.coherent_empty.register (.ofProgram hra.scope)
  have hreg : Library.empty.register ra.scope.module ra.scope measuring.module = some ra.scope :=
    if_pos (Scope.module_ofProgram hra.scope).symm
  exact ⟨ra, rb, ha, hb, hlib,
    compile_signatures_agree ha hb hlib hreg ⟨(), by decide⟩ (by decide)⟩

end BlockCompiler
