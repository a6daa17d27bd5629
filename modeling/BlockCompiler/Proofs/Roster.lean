import BlockCompiler.Proofs.Separate
import Mathlib.Data.List.Perm.Basic

/-!
# The functions of a module

A module has one function for each function that is visible in the program: first the imported ones,
then those that the program only declares, then those that it defines. No function is left out, and
none stands there twice.
-/

namespace BlockCompiler

open Target

variable {τ : Type} {s : Scope} {w : Width} {p : Program τ}

/-- `g` stands for the visible function at `path`: it has the link name of the path and the signature
that the scope holds, and a body unless the function is linked. -/
def Target.Function.StandsFor (s : Scope) (w : Width) (path : Path) (g : Function) : Prop :=
  ∃ symbol, s.function? path = some symbol ∧ g.name = path.linkName ∧
    g.params = symbol.decl.params.map (·.ty.target w) ∧ g.result = symbol.decl.result.target w ∧
    (g.body?.isSome ↔ symbol.isLinked = false)

namespace Program

/-- The paths of the functions that the program declares and does not define. -/
def externalPaths (p : Program τ) : List Path :=
  (p.functions.filter (·.isExternal)).map (p.module.child ·.name)

/-- The paths of the functions that the program defines. -/
def definedPaths (p : Program τ) : List Path :=
  (p.functions.filter (!·.isExternal)).map (p.module.child ·.name)

/-- The paths of the functions of a module, as they follow each other there. -/
def roster (s : Scope) (p : Program τ) : List Path :=
  s.functions.imported.map Prod.fst ++ p.externalPaths ++ p.definedPaths

/-- External or not, each function of the program is listed once. -/
private theorem perm_ownPaths (p : Program τ) :
    (p.externalPaths ++ p.definedPaths).Perm (p.functions.map (p.module.child ·.name)) := by
  rw [externalPaths, definedPaths, ← List.map_append]
  exact (List.filter_append_perm _ _).map _

private theorem mem_ownPaths {path : Path} :
    path ∈ p.externalPaths ++ p.definedPaths ↔ ∃ f ∈ p.functions, p.module.child f.name = path := by
  rw [p.perm_ownPaths.mem_iff, List.mem_map]

end Program

variable [Located τ] {lib : Library}

/-- Every function of the program has a path of its own. -/
private theorem Scope.nodup_ownPaths (h : ofProgram lib p = .ok s) :
    (p.externalPaths ++ p.definedPaths).Nodup := by
  have hpaths : p.functions.map (p.module.child ·.name) =
      (p.functions.map Func.name).map p.module.child := by
    rw [List.map_map]
    rfl
  rw [p.perm_ownPaths.nodup_iff, hpaths]
  exact (nodup_functions h).map fun m n hmn => (Path.child_inj.1 hmn).2

theorem Scope.nodup_roster (h : ofProgram lib p = .ok s) : (p.roster s).Nodup := by
  have himported : (s.functions.imported.map Prod.fst).Nodup := by
    refine s.functions.pairwise_importedPaths.imp ?_
    rintro a _ hlt rfl
    simp at hlt
  rw [Program.roster, List.append_assoc, List.nodup_append]
  refine ⟨himported, nodup_ownPaths h, ?_⟩
  rintro path himp _ hown rfl
  obtain ⟨symbol, hs, hno⟩ := (s.functions.mem_importedPaths path).1 himp
  obtain ⟨f, hf, rfl⟩ := Program.mem_ownPaths.1 hown
  have hs' := function?_own h hf
  rw [function?, hs] at hs'
  cases hs'
  cases hno

/-- The roster lists exactly the visible functions. -/
theorem Scope.mem_roster_iff (h : ofProgram lib p = .ok s) {path : Path} :
    path ∈ p.roster s ↔ (s.function? path).isSome := by
  rw [Program.roster, List.append_assoc, List.mem_append, Table.mem_importedPaths,
    Program.mem_ownPaths]
  constructor
  · rintro (⟨symbol, hs, _⟩ | ⟨f, hf, rfl⟩)
    · exact Option.isSome_of_eq_some hs
    · rw [function?_own h hf]
      rfl
  · intro hsome
    obtain ⟨symbol, hs⟩ := Option.isSome_iff_exists.1 hsome
    cases visible_of_ofProgram h hs with
    | own hf => exact .inr ⟨_, hf, rfl⟩
    | imported => exact .inl ⟨_, hs, rfl⟩

namespace Target.Function.StandsFor

omit [Located τ]

/-- A declaration stands for a function that is linked. -/
private theorem declaration {path : Path} {symbol : Symbol Signature}
    (hs : s.function? path = some symbol) (hl : symbol.isLinked) :
    StandsFor s w path (symbol.decl.declaration w path) :=
  ⟨symbol, hs, rfl, rfl, rfl, by simp [Signature.declaration, hl]⟩

/-- A definition stands for a function that the program defines. -/
private theorem definition {path : Path} {f : Func τ} (hs : s.function? path = some f.symbol)
    (hext : f.isExternal = false) (blocks : List Block) :
    StandsFor s w path (f.definition w path blocks) :=
  ⟨f.symbol, hs, rfl, rfl, rfl,
    by simp [Func.definition, Func.symbol, Symbol.isLinked, Symbol.isOwn, hext]⟩

end Target.Function.StandsFor

/-- The functions of a module, one by one, stand for the paths of the roster. -/
theorem Scope.forall₂_standsFor (h : ofProgram lib p = .ok s) {defined : List Function}
    (hd : List.Forall₂ (fun f g => f.Yields s w (p.module.child f.name) g)
      (p.functions.filter (!·.isExternal)) defined) :
    List.Forall₂ (Function.StandsFor s w) (p.roster s) (p.target s w defined).functions := by
  have himported : List.Forall₂ (Function.StandsFor s w) (s.functions.imported.map Prod.fst)
      (s.importedDeclarations w) := by
    rw [Scope.importedDeclarations, List.forall₂_map_left_iff, List.forall₂_map_right_iff,
      List.forall₂_same]
    rintro ⟨path, symbol⟩ hentry
    obtain ⟨hs, hno⟩ := (s.functions.mem_imported path).1 hentry
    exact .declaration hs (by simp [Symbol.isLinked, hno])
  have hexternal : List.Forall₂ (Function.StandsFor s w) p.externalPaths
      (p.externalDeclarations w) := by
    rw [Program.externalPaths, Program.externalDeclarations, List.forall₂_map_left_iff,
      List.forall₂_map_right_iff, List.forall₂_same]
    intro f hf
    obtain ⟨hf, hext⟩ := List.mem_filter.1 hf
    exact .declaration (function?_own h hf) (by simp [Func.symbol, Symbol.isLinked, hext])
  have hdefined : List.Forall₂ (Function.StandsFor s w) p.definedPaths defined := by
    rw [Program.definedPaths, List.forall₂_map_left_iff]
    refine forall₂_imp_of_mem hd ?_
    intro f hf g hg
    obtain ⟨hf, hext⟩ : f ∈ p.functions ∧ f.isExternal = false := by simpa using hf
    obtain ⟨blocks, rfl⟩ := hg.exists_definition
    exact .definition (function?_own h hf) hext blocks
  rw [Program.functions_target]
  exact List.rel_append (List.rel_append himported hexternal) hdefined

/-- Every visible function is emitted once. The module has a declaration for each imported function,
in path order, then one for each external function of the program, then a definition for each of its
other functions, both in the order of the program. The paths of these functions are without
repetition those of all visible functions, and each function stands for its path. -/
theorem compile_roster {r : Compilation} (h : (compile lib w p).outcome = .ok r) :
    (∃ defined, r.module.functions =
          r.scope.importedDeclarations w ++ p.externalDeclarations w ++ defined ∧
        List.Forall₂ (fun f g => f.Yields r.scope w (p.module.child f.name) g)
          (p.functions.filter (!·.isExternal)) defined) ∧
      (r.scope.functions.imported.map Prod.fst).Pairwise (compare · · = .lt) ∧
      (∀ path, path ∈ r.scope.functions.imported.map Prod.fst ↔
        ∃ symbol, r.scope.function? path = some symbol ∧ symbol.isOwn = false) ∧
      (p.roster r.scope).Nodup ∧
      (∀ path, path ∈ p.roster r.scope ↔ (r.scope.function? path).isSome) ∧
      List.Forall₂ (Function.StandsFor r.scope w) (p.roster r.scope) r.module.functions := by
  obtain ⟨hs, _, defined, hdefined, hm⟩ := compile_eq_ok_iff_yields.1 h
  have hstands := Scope.forall₂_standsFor hs hdefined
  rw [← hm] at hstands
  exact ⟨⟨defined, by rw [hm, Program.functions_target], hdefined⟩, Table.pairwise_importedPaths _,
    fun path => Table.mem_importedPaths _ path, Scope.nodup_roster hs,
    fun path => Scope.mem_roster_iff hs, hstands⟩

/-- A module that declares a function and will declare it anew. -/
def olderProgram : Program Unit :=
  ⟨.single "m",
    [.function () ⟨"f", true, ⟨[⟨.int, "n"⟩], some .int⟩, []⟩,
     .function () ⟨"log", true, ⟨[⟨.str, "line"⟩], none⟩, []⟩]⟩

def older : Scope :=
  olderProgram.decls.foldl (Scope.enter Library.empty) (Scope.empty olderProgram.module)

/-- A program that imports the older state of its own module, twice, and declares one of the functions
anew between the two. -/
def renewing : Program Unit :=
  ⟨.single "m",
    [.imports () (.single "m"),
     .function () ⟨"f", false, ⟨[⟨.str, "line"⟩], some .int⟩,
      [.effect () (.bareCall () "log" [.var () "line"]), .ret () (some (.bareCall () "zero" []))]⟩,
     .imports () (.single "m"),
     .function () ⟨"zero", true, ⟨[], some .int⟩, []⟩]⟩

theorem compile_roster_renewing :
    ∃ r, (compile (Library.empty.register (.single "m") older) .w32 renewing).outcome = .ok r ∧
      renewing.roster r.scope = ["log", "zero", "f"].map (Path.single "m").child ∧
      (∃ defined, r.module.functions =
            r.scope.importedDeclarations .w32 ++ renewing.externalDeclarations .w32 ++ defined ∧
          List.Forall₂ (fun f g => f.Yields r.scope .w32 (renewing.module.child f.name) g)
            (renewing.functions.filter (!·.isExternal)) defined) ∧
        (r.scope.functions.imported.map Prod.fst).Pairwise (compare · · = .lt) ∧
        (∀ path, path ∈ r.scope.functions.imported.map Prod.fst ↔
          ∃ symbol, r.scope.function? path = some symbol ∧ symbol.isOwn = false) ∧
        (renewing.roster r.scope).Nodup ∧
        (∀ path, path ∈ renewing.roster r.scope ↔ (r.scope.function? path).isSome) ∧
        List.Forall₂ (Function.StandsFor r.scope .w32) (renewing.roster r.scope)
          r.module.functions := by
  obtain ⟨r, hr, hroster⟩ := Outcome.exists_of_map_eq_ok
    (x := (compile (Library.empty.register (.single "m") older) .w32 renewing).outcome)
    (g := fun r => renewing.roster r.scope)
    (b := ["log", "zero", "f"].map (Path.single "m").child) (by decide +kernel)
  exact ⟨r, hr, hroster, compile_roster hr⟩

end BlockCompiler
