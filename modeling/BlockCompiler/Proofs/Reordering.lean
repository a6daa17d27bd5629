import BlockCompiler.Proofs.Linkage
import BlockCompiler.Proofs.Roster
import Mathlib.Data.List.Pairwise
import Mathlib.Data.List.Perm.Basic

/-!
# The order of declarations

Any two declarations of a program can change places. They add to different parts of the scope, or to
different paths, or one is an import that leaves what the other declares as it is; and two imports never
offer different functions at one path, if modules are found under their own paths. So the scope does
not depend on the order, and since functions are compiled apart, neither does what becomes of them.
-/

namespace BlockCompiler

open Target

variable {τ : Type}

namespace Table

variable {δ : Type} (t : Table δ)

private theorem declare_comm {path path' : Path} (hne : path ≠ path') (decl decl' : δ)
    (ext ext' : Bool) :
    (t.declare path decl ext).declare path' decl' ext' =
      (t.declare path' decl' ext').declare path decl ext := by
  refine Std.ExtTreeMap.ext_getElem? fun q => ?_
  simp only [getElem?_declare]
  by_cases hq : path = q
  · subst hq
    simp [hne.symm]
  · simp [hq]

/-- A declaration prevails over an import, before it and after it. -/
private theorem declare_addExports (path : Path) (decl : δ) (ext : Bool) (module : Path)
    (exporter : Table δ) :
    (t.declare path decl ext).addExports module exporter =
      (t.addExports module exporter).declare path decl ext := by
  refine Std.ExtTreeMap.ext_getElem? fun q => ?_
  simp only [getElem?_declare, getElem?_addExports]
  by_cases hq : path = q <;> simp [hq]

/-- Two imports can change places if they agree wherever both offer something. -/
private theorem addExports_comm {module module' : Path} {exporter exporter' : Table δ}
    (h : ∀ path, (exporter.exported? path module).isSome → (exporter'.exported? path module').isSome →
      exporter.exported? path module = exporter'.exported? path module') :
    (t.addExports module exporter).addExports module' exporter' =
      (t.addExports module' exporter').addExports module exporter := by
  refine Std.ExtTreeMap.ext_getElem? fun q => ?_
  simp only [getElem?_addExports, Option.or_assoc]
  congr 1
  cases hx : exporter.exported? q module with
  | none => simp
  | some symbol =>
    cases hy : exporter'.exported? q module' with
    | none => simp
    | some symbol' =>
      have heq := h q (by simp [hx]) (by simp [hy])
      rw [hx, hy] at heq
      simpa using heq

/-- What is offered lies under the path of the module that offers it. -/
private theorem OwnUnder.of_exported {module module' path : Path} (h : t.OwnUnder module)
    (hs : (t.exported? path module').isSome) : ∃ name, path = module.child name := by
  obtain ⟨_, hs⟩ := Option.isSome_iff_exists.1 hs
  obtain ⟨symbol, hs, ho, _⟩ := (t.exported?_eq_some_iff path).1 hs
  exact h path symbol hs ho

end Table

namespace Library.Coherent

variable {lib : Library}

/-- Two modules of the library that have a function or a type at one path are the same. -/
private theorem scope_eq (h : lib.Coherent) {m m' : Path} {s s' : Scope} (hs : lib m = some s)
    (hs' : lib m' = some s') {path : Path} (hp : ∃ name, path = s.module.child name)
    (hp' : ∃ name, path = s'.module.child name) : s = s' := by
  obtain ⟨name, rfl⟩ := hp
  obtain ⟨name', hp'⟩ := hp'
  have hm : m = m' := by
    rw [← h.module_eq hs, ← h.module_eq hs']
    exact (Path.child_inj.1 hp').1
  rw [hm, hs'] at hs
  exact (Option.some.inj hs).symm

/-- Two imports can change places. -/
private theorem importModule_comm (h : lib.Coherent) {m m' : Path} {i i' : Scope}
    (hi : lib m = some i) (hi' : lib m' = some i') (s : Scope) :
    (s.importModule m i).importModule m' i' = (s.importModule m' i').importModule m i := by
  have hunder := (h.built hi).ownUnder
  have hunder' := (h.built hi').ownUnder
  refine Scope.ext rfl ?_ ?_ ?_
  · refine Std.ExtTreeSet.ext_mem fun q => ?_
    simp only [Scope.importModule, Std.ExtTreeSet.mem_insert]
    exact or_left_comm
  · refine Table.addExports_comm _ fun path hx hx' => ?_
    cases h.scope_eq hi hi' (hunder.functions.of_exported _ hx) (hunder'.functions.of_exported _ hx')
    rfl
  · refine Table.addExports_comm _ fun path hx hx' => ?_
    cases h.scope_eq hi hi' (hunder.types.of_exported _ hx) (hunder'.types.of_exported _ hx')
    rfl

end Library.Coherent

namespace Scope

variable {lib : Library}

/-- An import changes places with a declaration that is none. -/
private theorem enter_imports_comm (s : Scope) (tag : τ) (module : Path) {d : Decl τ}
    (hd : d.import? = none) :
    (s.enter lib (.imports tag module)).enter lib d =
      (s.enter lib d).enter lib (.imports tag module) := by
  cases hl : lib module with
  | none => simp [enter, hl]
  | some imported =>
    cases d with
    | imports => cases hd
    | function tag' f =>
      simp only [enter, hl, Option.elim_some]
      exact Scope.ext rfl rfl (Table.declare_addExports ..).symm rfl
    | type tag' decl =>
      simp only [enter, hl, Option.elim_some]
      exact Scope.ext rfl rfl rfl (Table.declare_addExports ..).symm

/-- Declarations of different names can change places. -/
private theorem enter_comm (hlib : lib.Coherent) (s : Scope) {d d' : Decl τ}
    (hne : ∀ name, d.name? = some name → ∀ name', d'.name? = some name' → name ≠ name') :
    (s.enter lib d).enter lib d' = (s.enter lib d').enter lib d := by
  have hpath : ∀ {name name' : String}, name ≠ name' →
      s.module.child name ≠ s.module.child name' :=
    fun hne he => hne (Path.child_inj.1 he).2
  cases d with
  | imports tag module =>
    cases d' with
    | imports tag' module' =>
      cases hl : lib module with
      | none => simp [enter, hl]
      | some imported =>
        cases hl' : lib module' with
        | none => simp [enter, hl, hl']
        | some imported' =>
          simp only [enter, hl, hl', Option.elim_some]
          exact hlib.importModule_comm hl hl' s
    | function | type => exact enter_imports_comm s tag module rfl
  | function tag f =>
    cases d' with
    | imports tag' module' => exact (enter_imports_comm s tag' module' rfl).symm
    | function tag' f' =>
      have hne := hpath (hne f.name rfl f'.name rfl)
      exact Scope.ext rfl rfl (Table.declare_comm _ hne ..) rfl
    | type tag' decl' => rfl
  | type tag decl =>
    cases d' with
    | imports tag' module' => exact (enter_imports_comm s tag' module' rfl).symm
    | function tag' f' => rfl
    | type tag' decl' =>
      have hne := hpath (hne decl.name rfl decl'.name rfl)
      exact Scope.ext rfl rfl rfl (Table.declare_comm _ hne ..)

variable [Located τ] {p p' : Program τ}

/-- Programs of the same declarations have the same scope. -/
private theorem ofProgram_perm (hlib : lib.Coherent) (hmodule : p'.module = p.module)
    (hp : p'.decls.Perm p.decls) {s : Scope} (h : ofProgram lib p = .ok s) :
    ofProgram lib p' = .ok s := by
  obtain ⟨hnodup, hfound, rfl⟩ := ofProgram_eq_ok_iff.1 h
  have hcomm : ∀ d ∈ p.decls, ∀ d' ∈ p.decls, ∀ s : Scope,
      (s.enter lib d).enter lib d' = (s.enter lib d').enter lib d := by
    have hsymm : Std.Symm fun d d' : Decl τ => ∀ s : Scope,
        (s.enter lib d).enter lib d' = (s.enter lib d').enter lib d :=
      ⟨fun d d' hs s => (hs s).symm⟩
    refine List.Pairwise.forall_of_forall (fun d _ s => rfl) ?_
    exact (List.pairwise_filterMap.1 hnodup).imp fun hne s => enter_comm hlib s hne
  refine ofProgram_eq_ok_iff.2 ⟨?_, ?_, ?_⟩
  · exact (hp.filterMap _).nodup_iff.2 hnodup
  · intro entry hentry
    exact hfound entry ((hp.filterMap _).mem_iff.1 hentry)
  · rw [hmodule]
    exact hp.symm.foldl_eq' hcomm _

end Scope

variable [Located τ] {lib : Library} {w : Width} {p p' : Program τ}

/-- Programs of the same declarations are compiled alike. -/
theorem exists_compile_perm (hlib : lib.Coherent) (hmodule : p'.module = p.module)
    (hp : p'.decls.Perm p.decls) {r : Compilation} (h : (compile lib w p).outcome = .ok r) :
    ∃ m, (compile lib w p').outcome = .ok ⟨r.scope, m⟩ ∧ m.types = r.module.types ∧
      ∃ rest rest', r.module.functions = r.scope.importedDeclarations w ++ rest ∧
        m.functions = r.scope.importedDeclarations w ++ rest' ∧ rest'.Perm rest := by
  obtain ⟨hs, helab, defined, hdefined, hm⟩ := compile_eq_ok_iff_yields.1 h
  have hfuncs : p'.functions.Perm p.functions := hp.filterMap _
  have hexternal : (p'.externalDeclarations w).Perm (p.externalDeclarations w) := by
    rw [Program.externalDeclarations, hmodule]
    exact (hfuncs.filter _).map _
  obtain ⟨defined', hdefined', hdefs⟩ := List.perm_comp_forall₂ (hfuncs.filter _) hdefined
  refine ⟨p'.target r.scope w defined', compile_eq_ok_iff_yields.2 ⟨?_, ?_, defined', ?_, rfl⟩, ?_,
    p.externalDeclarations w ++ defined, p'.externalDeclarations w ++ defined', ?_, ?_, ?_⟩
  · exact Scope.ofProgram_perm hlib hmodule hp hs
  · exact fun f hf => helab f (hfuncs.mem_iff.1 hf)
  · rw [hmodule]
    exact hdefined'
  · rw [hm]
    rfl
  · rw [hm, Program.functions_target, List.append_assoc]
  · rw [Program.functions_target, List.append_assoc]
  · exact hexternal.append hdefs

/-- The order of declarations does not matter. Let modules be found in the library under their own
paths. A program whose declarations are those of another, in any order, is compiled just when the other
is. Then their scopes and the types of their modules are the same, and so are the functions up to their
order, the declarations of imported functions coming first and in the same order. -/
theorem compile_perm (hlib : lib.Coherent) (hmodule : p'.module = p.module)
    (hp : p'.decls.Perm p.decls) :
    ((∃ r', (compile lib w p').outcome = .ok r') ↔ ∃ r, (compile lib w p).outcome = .ok r) ∧
      ∀ r r', (compile lib w p).outcome = .ok r → (compile lib w p').outcome = .ok r' →
        r'.scope = r.scope ∧ r'.module.types = r.module.types ∧
          ∃ rest rest', r.module.functions = r.scope.importedDeclarations w ++ rest ∧
            r'.module.functions = r.scope.importedDeclarations w ++ rest' ∧ rest'.Perm rest := by
  refine ⟨⟨?_, ?_⟩, ?_⟩
  · rintro ⟨r', h'⟩
    obtain ⟨m, h, _⟩ := exists_compile_perm hlib hmodule.symm hp.symm h'
    exact ⟨_, h⟩
  · rintro ⟨r, h⟩
    obtain ⟨m, h', _⟩ := exists_compile_perm hlib hmodule hp h
    exact ⟨_, h'⟩
  · intro r r' h h'
    obtain ⟨m, hm, htypes, hfunctions⟩ := exists_compile_perm hlib hmodule hp h
    rw [hm] at h'
    cases h'
    exact ⟨rfl, htypes, hfunctions⟩

theorem built_older : older.Built := by
  have h : Scope.ofProgram Library.empty olderProgram = .ok older :=
    Scope.ofProgram_eq_ok_iff.2
      ⟨by decide, by simp [olderProgram, Program.imports, Decl.import?], rfl⟩
  exact .ofProgram h

/-- The program `renewing` from its end to its beginning. -/
def reversed : Program Unit :=
  ⟨renewing.module, renewing.decls.reverse⟩

theorem compile_perm_reversed :
    (Library.empty.register older.module older).Coherent ∧ reversed.decls.Perm renewing.decls ∧
      ∃ r r', (compile (Library.empty.register older.module older) .w64 renewing).outcome = .ok r ∧
        (compile (Library.empty.register older.module older) .w64 reversed).outcome = .ok r' ∧
        r'.scope = r.scope ∧ r'.module.types = r.module.types ∧
          ∃ rest rest', r.module.functions = r.scope.importedDeclarations .w64 ++ rest ∧
            r'.module.functions = r.scope.importedDeclarations .w64 ++ rest' ∧ rest'.Perm rest := by
  have hlib := Library.coherent_empty.register built_older
  have hmodule : reversed.module = renewing.module := rfl
  have hp : reversed.decls.Perm renewing.decls := List.reverse_perm _
  obtain ⟨r, hr⟩ := Outcome.exists_eq_ok
    (x := (compile (Library.empty.register older.module older) .w64 renewing).outcome)
    (by decide +kernel)
  obtain ⟨hiff, hsame⟩ := compile_perm (w := .w64) hlib hmodule hp
  obtain ⟨r', hr'⟩ := hiff.2 ⟨r, hr⟩
  exact ⟨hlib, hp, r, r', hr, hr', hsame r r' hr hr'⟩

end BlockCompiler
