import BlockCompiler.Proofs.Weakening
import Mathlib.Data.List.Sort

/-!
# One more import

An import at the end of a program leaves everything visible as it was. If none of the names that the
program calls gets a further meaning by it, the module keeps all its functions in their order, and gets
declarations of the functions that were not visible before.
-/

namespace BlockCompiler

open Target

namespace Table

variable {δ : Type} (t : Table δ)

/-- Whether a symbol comes before another one in path order. -/
def Before (entry entry' : Path × Symbol δ) : Prop :=
  compare entry.1 entry'.1 = .lt

instance : Std.Asymm (Before : Path × Symbol δ → Path × Symbol δ → Prop) where
  asymm entry entry' hlt := by
    rw [Before, Std.OrientedCmp.gt_of_lt hlt]
    exact nofun

private theorem pairwise_own : t.own.Pairwise Before :=
  Std.ExtTreeMap.ordered_keys_toList.filter _

private theorem pairwise_imported : t.imported.Pairwise Before :=
  Std.ExtTreeMap.ordered_keys_toList.filter _

variable (module : Path) (exporter : Table δ)

/-- Among what is imported after one more import, the symbols whose paths were taken are those that
were imported before. -/
private theorem imported_addExports_taken :
    ((t.addExports module exporter).imported.filter fun entry => t[entry.1]?.isSome) = t.imported := by
  refine ((pairwise_imported _).filter _).eq_of_mem_iff t.pairwise_imported ?_
  rintro ⟨path, symbol⟩
  rw [List.mem_filter, mem_imported, mem_imported, getElem?_addExports]
  cases t[path]? with
  | none => simp
  | some symbol' => simp

/-- The other ones are what the imported module declares. -/
private theorem imported_addExports_new :
    ((t.addExports module exporter).imported.filter fun entry => t[entry.1]?.isNone) =
      (exporter.own.filter fun entry => t[entry.1]?.isNone).map fun entry =>
        (entry.1, { entry.2 with origin := .imported module }) := by
  have hnew : ((exporter.own.filter fun entry => t[entry.1]?.isNone).map fun entry =>
      (entry.1, ({ entry.2 with origin := .imported module } : Symbol δ))).Pairwise Before :=
    List.pairwise_map.2 (exporter.pairwise_own.filter _)
  refine ((pairwise_imported _).filter _).eq_of_mem_iff hnew ?_
  rintro ⟨path, symbol⟩
  rw [List.mem_filter, mem_imported, getElem?_addExports]
  constructor
  · rintro ⟨⟨hexported, _⟩, hnone⟩
    rw [Option.isNone_iff_eq_none.1 hnone, Option.none_or] at hexported
    obtain ⟨symbol', hs, ho, rfl⟩ := (exporter.exported?_eq_some_iff path).1 hexported
    exact List.mem_map.2 ⟨_, List.mem_filter.2 ⟨(exporter.mem_own path).2 ⟨hs, ho⟩, hnone⟩, rfl⟩
  · intro hentry
    obtain ⟨⟨path, symbol'⟩, hmem, heq⟩ := List.mem_map.1 hentry
    cases heq
    obtain ⟨hown, hnone⟩ := List.mem_filter.1 hmem
    obtain ⟨hs, ho⟩ := (exporter.mem_own path).1 hown
    refine ⟨⟨?_, rfl⟩, hnone⟩
    rw [Option.isNone_iff_eq_none.1 hnone, Option.none_or]
    exact (exporter.exported?_eq_some_iff path).2 ⟨symbol', hs, ho, rfl⟩

end Table

namespace Scope

variable (s : Scope) (module : Path) (imported : Scope)

section Declarations

variable (w : Width)

/-- The declarations of what `imported` declares and `s` does not see. -/
def newDeclarations : List Function :=
  (imported.functions.own.filter fun entry => (s.function? entry.1).isNone).map fun entry =>
    entry.2.decl.declaration w entry.1

/-- The declarations from before an import are among those after it, in their order. -/
theorem sublist_importedDeclarations :
    (s.importedDeclarations w).Sublist ((s.importModule module imported).importedDeclarations w) := by
  rw [importedDeclarations, ← s.functions.imported_addExports_taken imported.module imported.functions]
  exact List.filter_sublist.map _

/-- An import adds declarations of what was not visible. -/
theorem perm_importedDeclarations :
    ((s.importModule module imported).importedDeclarations w).Perm
      (s.newDeclarations imported w ++ s.importedDeclarations w) := by
  have hsplit := List.filter_append_perm (fun entry => s.functions[entry.1]?.isNone)
    (s.functions.addExports imported.module imported.functions).imported
  simp only [Option.not_isNone] at hsplit
  rw [Table.imported_addExports_new, Table.imported_addExports_taken] at hsplit
  have hdecls := hsplit.symm.map fun entry => entry.2.decl.declaration w entry.1
  rw [List.map_append, List.map_map] at hdecls
  exact hdecls

end Declarations

theorem widens_importModule : s.Widens (s.importModule module imported) := by
  intro path symbol hs
  rw [function?_importModule, hs, Option.some_or]

/-- An import declares no function in the place of the module. -/
private theorem declaresFunction_importModule (path : Path) :
    (s.importModule module imported).declaresFunction path = s.declaresFunction path := by
  rw [declaresFunction, declaresFunction, function?_importModule]
  cases s.function? path with
  | some symbol => rfl
  | none =>
    rw [Option.none_or]
    cases hs : imported.functions.exported? path imported.module with
    | none => rfl
    | some symbol =>
      obtain ⟨_, _, _, rfl⟩ := (imported.functions.exported?_eq_some_iff path).1 hs
      rfl

variable {s imported} {name : String}

/-- A name keeps its meaning if the module declares it, or the import offers no new function of that
name. -/
theorem candidates_importModule
    (h : s.declaresFunction (s.module.child name) = false → ∀ path symbol,
      imported.function? path = some symbol → symbol.isOwn → path.name = name →
        (s.function? path).isSome) :
    (s.importModule module imported).candidates name = s.candidates name := by
  have hmodule : (s.importModule module imported).module = s.module := rfl
  rw [candidates, candidates, hmodule, declaresFunction_importModule]
  cases hd : s.declaresFunction (s.module.child name) with
  | true => rfl
  | false =>
    have htaken := s.functions.imported_addExports_taken imported.module imported.functions
    rw [← htaken, List.filter_map, List.filter_map, List.filter_filter]
    refine congrArg (List.map Prod.fst) (List.filter_congr ?_)
    rintro ⟨path, symbol⟩ hentry
    obtain ⟨hs, _⟩ := (Table.mem_imported _ path).1 hentry
    rw [← function?, function?_importModule, Option.or_eq_some_iff] at hs
    have hvisible : path.name = name → (s.function? path).isSome := by
      intro hname
      rcases hs with hs | ⟨_, hs⟩
      · exact Option.isSome_of_eq_some hs
      · obtain ⟨symbol', hs, ho, _⟩ := (imported.functions.exported?_eq_some_iff path).1 hs
        exact h hd path symbol' hs ho hname
    by_cases hname : path.name = name
    · have hsome : s.functions[path]?.isSome := hvisible hname
      simp only [Function.comp_apply, hname, hsome, decide_true, Bool.and_true]
    · simp [hname]

end Scope

namespace Program

variable {τ : Type}

/-- The program with one more import at its end. -/
def importing (p : Program τ) (tag : τ) (module : Path) : Program τ :=
  { p with decls := p.decls ++ [.imports tag module] }

/-- The names by which the functions of a program call functions other than by path. -/
def bareNames (p : Program τ) : List String :=
  p.functions.flatMap Func.bareNames

theorem functions_importing (p : Program τ) (tag : τ) (module : Path) :
    (p.importing tag module).functions = p.functions := by
  simp [importing, functions, Decl.function?]

theorem externalDeclarations_importing (p : Program τ) (tag : τ) (module : Path) (w : Width) :
    (p.importing tag module).externalDeclarations w = p.externalDeclarations w := by
  rw [externalDeclarations, functions_importing]
  rfl

end Program

variable {τ : Type} [Located τ] {lib : Library} {w : Width} {p : Program τ}

theorem Scope.ofProgram_importing {s imported : Scope} (h : ofProgram lib p = .ok s) {module : Path}
    (hl : lib module = some imported) (tag : τ) :
    ofProgram lib (p.importing tag module) = .ok (s.importModule module imported) := by
  obtain ⟨hnames, hfound, rfl⟩ := ofProgram_eq_ok_iff.1 h
  refine ofProgram_eq_ok_iff.2 ⟨?_, ?_, ?_⟩
  · have hsame :
        (p.importing tag module).decls.filterMap Decl.name? = p.decls.filterMap Decl.name? := by
      simp [Program.importing, List.filterMap_cons, Decl.name?]
    rwa [hsame]
  · have himports : (p.importing tag module).imports = p.imports ++ [(module, tag)] := by
      simp [Program.importing, Program.imports, Decl.import?]
    rw [himports, List.forall_mem_append]
    exact ⟨hfound, by simp [hl]⟩
  · rw [Program.importing, List.foldl_append, List.foldl_cons, List.foldl_nil, enter, hl,
      Option.elim_some]

/-- A program whose names keep their meaning is compiled with one more import, to a module with the
same definitions. All functions stay as they are, in their order, and what is added are declarations
of the functions of the imported module that were not visible before. -/
theorem compile_importing {r : Compilation} (h : (compile lib w p).outcome = .ok r) {module : Path}
    {imported : Scope} (hl : lib module = some imported) (tag : τ)
    (hfresh : ∀ name ∈ p.bareNames, (∀ f ∈ p.functions, f.name ≠ name) →
      ∀ path symbol, imported.function? path = some symbol → symbol.isOwn → path.name = name →
        (r.scope.function? path).isSome) :
    ∃ r', (compile lib w (p.importing tag module)).outcome = .ok r' ∧
      r.module.functions.Sublist r'.module.functions ∧
      r'.module.definitions = r.module.definitions ∧
      r'.module.functions.Perm (r.scope.newDeclarations imported w ++ r.module.functions) := by
  obtain ⟨hs, helab, defined, hdefined, hm⟩ := compile_eq_ok_iff_yields.1 h
  have hwidens := r.scope.widens_importModule module imported
  have hnames : ∀ f ∈ p.functions, ∀ name ∈ f.bareNames,
      (r.scope.importModule module imported).candidates name = r.scope.candidates name := by
    intro f hf name hname
    refine Scope.candidates_importModule module fun hno => hfresh name ?_ ?_
    · exact List.mem_flatMap.2 ⟨f, hf, hname⟩
    · rintro f' hf' rfl
      rw [Scope.module_ofProgram hs, Scope.declaresFunction, Scope.function?_own hs hf'] at hno
      cases hno
  have hfunctions := p.functions_importing tag module
  have hbodies : ∀ g ∈ defined, g.isDeclaration = false := by
    intro g hg
    obtain ⟨f, _, hyields⟩ := exists_left_of_forall₂ hdefined hg
    obtain ⟨blocks, rfl⟩ := hyields.exists_definition
    rfl
  refine ⟨⟨r.scope.importModule module imported,
    (p.importing tag module).target (r.scope.importModule module imported) w defined⟩,
    compile_eq_ok_iff_yields.2 ⟨Scope.ofProgram_importing hs hl tag, ?_, defined, ?_, rfl⟩, ?_, ?_, ?_⟩
  · rw [hfunctions]
    intro f hf
    obtain ⟨f', hf'⟩ := helab f hf
    exact ⟨f', hf'.widen hwidens (hnames f hf)⟩
  · rw [hfunctions]
    refine forall₂_imp_of_mem hdefined ?_
    intro f hf g hg
    exact hg.widen hwidens (hnames f (List.mem_of_mem_filter hf))
  · rw [hm, Program.functions_target, Program.functions_target, p.externalDeclarations_importing]
    exact ((r.scope.sublist_importedDeclarations module imported w).append_right _).append_right _
  · rw [hm, Program.definitions_target _ hbodies, Program.definitions_target _ hbodies]
  · rw [hm, Program.functions_target, Program.functions_target, p.externalDeclarations_importing,
      ← List.append_assoc, ← List.append_assoc]
    exact ((r.scope.perm_importedDeclarations module imported w).append_right _).append_right _

def baseProgram : Program Unit :=
  ⟨.single "base", [.function () ⟨"log", true, ⟨[⟨.any, "x"⟩], none⟩, []⟩]⟩

def toolsProgram : Program Unit :=
  ⟨.single "tools",
    [.function () ⟨"show", true, ⟨[⟨.str, "line"⟩], none⟩, []⟩,
     .function () ⟨"trim", true, ⟨[⟨.str, "line"⟩], some .str⟩, []⟩]⟩

def tools : Scope :=
  toolsProgram.decls.foldl (Scope.enter Library.empty) (Scope.empty toolsProgram.module)

/-- A library of the two modules. -/
def toolbox : Library :=
  (Library.empty.register (.single "base")
    (baseProgram.decls.foldl (Scope.enter Library.empty) (Scope.empty baseProgram.module))).register
      (.single "tools") tools

/-- A program that calls a function of one module of the toolbox, and one of its own that has the name
of a function of the other module. -/
def showing : Program Unit :=
  ⟨.single "m",
    [.imports () (.single "base"),
     .function () ⟨"show", true, ⟨[⟨.any, "x"⟩], some .int⟩, []⟩,
     .function () ⟨"main", false, ⟨[⟨.int, "n"⟩], none⟩,
      [.effect () (.bareCall () "log" [.bareCall () "show" [.neg () (.var () "n")]])]⟩]⟩

theorem compile_importing_showing :
    ∃ r r', (compile toolbox .w64 showing).outcome = .ok r ∧
      (compile toolbox .w64 (showing.importing () (.single "tools"))).outcome = .ok r' ∧
      r.module.functions.Sublist r'.module.functions ∧
      r'.module.definitions = r.module.definitions ∧
      (r.scope.newDeclarations tools .w64).map Function.name = ["tools_show", "tools_trim"] ∧
      r'.module.functions.Perm (r.scope.newDeclarations tools .w64 ++ r.module.functions) := by
  obtain ⟨r, hr, hnew⟩ := Outcome.exists_of_map_eq_ok
    (x := (compile toolbox .w64 showing).outcome)
    (g := fun r => (r.scope.newDeclarations tools .w64).map Function.name)
    (b := ["tools_show", "tools_trim"]) (by decide +kernel)
  have hfound : toolbox (.single "tools") = some tools := by
    rw [toolbox, Library.register, if_pos rfl]
  have hcalled : ∀ name ∈ showing.bareNames, name = "log" ∨ ∃ f ∈ showing.functions, f.name = name := by
    decide
  have htools : ∀ entry ∈ tools.functions.own, entry.1.name ≠ "log" := by
    decide +kernel
  obtain ⟨r', hr', hsub, hdefs, hperm⟩ := compile_importing hr hfound () (by
    intro name hname hno path symbol hs ho hpath
    rcases hcalled name hname with rfl | ⟨f, hf, hfn⟩
    · exact absurd hpath (htools (path, symbol) ((tools.functions.mem_own path).2 ⟨hs, ho⟩))
    · exact absurd hfn (hno f hf))
  exact ⟨r, r', hr, hr', hsub, hdefs, hnew, hperm⟩

end BlockCompiler
