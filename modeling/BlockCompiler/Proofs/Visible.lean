import BlockCompiler.Scope.Build
import Mathlib.Data.List.Nodup

/-!
# Visible symbols

The scope of a program holds the functions and types that the program declares and, at every other
path, what the first import that has a symbol of its own there offers. So every visible function is
declared by the program, or by a module that the program imports.
-/

namespace BlockCompiler

variable {τ : Type}

/-- Where a visible function comes from: from the functions `fs` of the module itself, or from the
own functions of a module of the library. -/
inductive Visible (lib : Library) (module : Path) (fs : List (Func τ)) :
    Path → Symbol Signature → Prop where
  | own {f : Func τ} (hf : f ∈ fs) :
      Visible lib module fs (module.child f.name) ⟨f.signature, f.isExternal, .own⟩
  | imported {found path : Path} {scope : Scope} {symbol : Symbol Signature}
      (hl : lib found = some scope) (hs : scope.function? path = some symbol) (ho : symbol.isOwn) :
      Visible lib module fs path { symbol with origin := .imported scope.module }

namespace Table

variable {δ : Type} (t : Table δ) (path : Path)

/-- What a module with this table offers at `path` to the modules that import it. -/
def exported? (module : Path) : Option (Symbol δ) :=
  (t[path]?.filter Symbol.isOwn).map ({ · with origin := .imported module })

theorem exported?_eq_some_iff {module : Path} {symbol : Symbol δ} :
    t.exported? path module = some symbol ↔
      ∃ symbol', t[path]? = some symbol' ∧ symbol'.isOwn ∧
        { symbol' with origin := .imported module } = symbol := by
  simp [exported?, Option.map_eq_some_iff, Option.filter_eq_some_iff, and_assoc]

theorem getElem?_declare (path' : Path) (decl : δ) (isExternal : Bool) :
    (t.declare path' decl isExternal)[path]? =
      if path' = path then some ⟨decl, isExternal, .own⟩ else t[path]? := by
  simp only [declare, Std.ExtTreeMap.getElem?_insert, Std.compare_eq_iff_eq]

private theorem getElem?_addExport (module : Path) (entry : Path × Symbol δ) :
    (addExport module t entry)[path]? =
      t[path]?.or
        (if entry.1 = path then some { entry.2 with origin := .imported module } else none) := by
  simp only [addExport, Std.ExtTreeMap.getElem?_insertIfNew, Std.compare_eq_iff_eq]
  by_cases he : entry.1 = path
  · subst he
    cases ht : t[entry.1]? with
    | none =>
      have hmem : entry.1 ∉ t := by
        simp [← Std.ExtTreeMap.isSome_getElem?_iff_mem, ht]
      simp [hmem]
    | some symbol =>
      have hmem : entry.1 ∈ t := by
        simp [← Std.ExtTreeMap.isSome_getElem?_iff_mem, ht]
      simp [hmem]
  · simp [he]

private theorem getElem?_foldl_addExport (module : Path) (l : List (Path × Symbol δ)) :
    (l.foldl (addExport module) t)[path]? =
      t[path]?.or ((l.find? (·.1 = path)).map ({ ·.2 with origin := .imported module })) := by
  induction l generalizing t with
  | nil => simp
  | cons entry l ih =>
    rw [List.foldl_cons, ih, getElem?_addExport, Option.or_assoc]
    by_cases he : entry.1 = path <;> simp [he]

theorem mem_own {symbol : Symbol δ} :
    (path, symbol) ∈ t.own ↔ t[path]? = some symbol ∧ symbol.isOwn := by
  simp [own, Std.ExtTreeMap.mem_toList_iff_getElem?_eq_some]

private theorem find?_own :
    t.own.find? (·.1 = path) = (t[path]?.filter Symbol.isOwn).map (path, ·) := by
  cases hf : t.own.find? (·.1 = path) with
  | some entry =>
    obtain ⟨hs, ho⟩ := (t.mem_own entry.1).1 (List.mem_of_find?_eq_some hf)
    have hpath : entry.1 = path := by simpa using List.find?_some hf
    subst hpath
    simp [hs, ho, Option.filter]
  | none =>
    rw [List.find?_eq_none] at hf
    cases hs : t[path]? with
    | none => rfl
    | some symbol =>
      have hno : symbol.isOwn = false := by
        by_contra ho
        exact hf (path, symbol) ((t.mem_own path).2 ⟨hs, by simpa using ho⟩) (by simp)
      simp [hno, Option.filter]

theorem mem_imported {symbol : Symbol δ} :
    (path, symbol) ∈ t.imported ↔ t[path]? = some symbol ∧ symbol.isOwn = false := by
  simp [imported, Std.ExtTreeMap.mem_toList_iff_getElem?_eq_some]

theorem mem_importedPaths :
    path ∈ t.imported.map Prod.fst ↔ ∃ symbol, t[path]? = some symbol ∧ symbol.isOwn = false := by
  simp [mem_imported]

/-- Imported symbols are listed in path order. -/
theorem pairwise_importedPaths : (t.imported.map Prod.fst).Pairwise (compare · · = .lt) := by
  rw [List.pairwise_map]
  exact Std.ExtTreeMap.ordered_keys_toList.filter _

/-- An import leaves what is there, and adds what the imported module offers. -/
theorem getElem?_addExports (module : Path) (exporter : Table δ) :
    (t.addExports module exporter)[path]? = t[path]?.or (exporter.exported? path module) := by
  rw [addExports, getElem?_foldl_addExport, find?_own, Option.map_map]
  rfl

end Table

/-- The symbol under which a module declares the function. -/
def Func.symbol (f : Func τ) : Symbol Signature :=
  ⟨f.signature, f.isExternal, .own⟩

def Decl.type? : Decl τ → Option TypeDecl
  | type _ t => some t
  | _ => none

/-- The symbol under which a module declares the type. -/
def TypeDecl.symbol (t : TypeDecl) : Symbol Unit :=
  ⟨(), t.isExternal, .own⟩

namespace Library

variable {δ : Type} {lib : Library} {path module : Path}

/-- What a program that imports `module` is offered at `path`, of the symbols in one table of the
module's scope. -/
def offered? (lib : Library) (table : Scope → Table δ) (path module : Path) : Option (Symbol δ) :=
  (lib module).bind fun scope => (table scope).exported? path scope.module

def function? (lib : Library) : Path → Path → Option (Symbol Signature) :=
  lib.offered? Scope.functions

def type? (lib : Library) : Path → Path → Option (Symbol Unit) :=
  lib.offered? Scope.types

theorem function?_eq_some_iff {symbol : Symbol Signature} :
    lib.function? path module = some symbol ↔
      ∃ scope, lib module = some scope ∧ ∃ symbol', scope.function? path = some symbol' ∧
        symbol'.isOwn ∧ { symbol' with origin := .imported scope.module } = symbol := by
  simp only [function?, offered?, Option.bind_eq_some_iff, Table.exported?_eq_some_iff,
    Scope.function?]

end Library

namespace Scope

theorem function?_importModule (s : Scope) (module : Path) (imported : Scope) (path : Path) :
    (s.importModule module imported).function? path =
      (s.function? path).or (imported.functions.exported? path imported.module) :=
  s.functions.getElem?_addExports path _ _

variable {lib : Library}

/-- The scope after one more declaration. An import that is not found adds nothing. -/
def enter (lib : Library) (s : Scope) : Decl τ → Scope
  | .imports _ module => (lib module).elim s (s.importModule module)
  | .function _ f => s.declareFunction f
  | .type _ decl => s.declareType decl

@[simp] theorem module_empty (module : Path) : (empty module).module = module := rfl

@[simp] theorem module_enter (s : Scope) (d : Decl τ) :
    (s.enter lib d).module = s.module := by
  cases d with
  | function | type => rfl
  | imports tag module => cases hl : lib module <;> simp [enter, hl, importModule]

@[simp] theorem module_foldl_enter (s : Scope) (decls : List (Decl τ)) :
    (decls.foldl (enter lib) s).module = s.module := by
  induction decls generalizing s with
  | nil => rfl
  | cons d decls ih => rw [List.foldl_cons, ih, module_enter]

/-- A kind of symbol: the table in which a scope keeps such symbols, and the declarations that introduce
one, with its name. -/
structure SymbolKind (τ δ : Type) where
  table : Scope → Table δ
  introduces? : Decl τ → Option (String × Symbol δ)
  name?_eq : ∀ {d : Decl τ} {name : String} {symbol : Symbol δ},
    introduces? d = some (name, symbol) → d.name? = some name
  table_empty : ∀ module, table (empty module) = ∅
  table_importModule : ∀ s module imported,
    table (s.importModule module imported) = (table s).addExports imported.module (table imported)
  table_enter : ∀ lib s {d : Decl τ}, d.import? = none →
    table (s.enter lib d) = (introduces? d).elim (table s) fun entry =>
      (table s).insert (s.module.child entry.1) entry.2

namespace SymbolKind

def functions : SymbolKind τ Signature where
  table := Scope.functions
  introduces? d := d.function?.map fun f => (f.name, f.symbol)
  name?_eq {d name symbol} h := by
    cases d <;> simp_all [Decl.function?, Decl.name?]
  table_empty _ := rfl
  table_importModule _ _ _ := rfl
  table_enter lib s d h := by
    cases d with
    | function | type => rfl
    | imports => cases h

def types : SymbolKind τ Unit where
  table := Scope.types
  introduces? d := d.type?.map fun t => (t.name, t.symbol)
  name?_eq {d name symbol} h := by
    cases d <;> simp_all [Decl.type?, Decl.name?]
  table_empty _ := rfl
  table_importModule _ _ _ := rfl
  table_enter lib s d h := by
    cases d with
    | function | type => rfl
    | imports => cases h

variable {δ : Type} (k : SymbolKind τ δ)

private theorem getElem?_enter_imports (s : Scope) (tag : τ) (module path : Path) :
    (k.table (s.enter lib (.imports tag module)))[path]? =
      (k.table s)[path]?.or (lib.offered? k.table path module) := by
  cases hl : lib module with
  | none => simp [enter, Library.offered?, hl]
  | some imported =>
    simp only [enter, Library.offered?, hl, Option.elim_some, Option.bind_some, k.table_importModule,
      Table.getElem?_addExports]

/-- At a path where nothing is declared, a symbol that is there stays, and otherwise the first import
decides that offers something. -/
private theorem getElem?_foldl {s : Scope} {path : Path} {decls : List (Decl τ)}
    (hnew : ∀ d ∈ decls, ∀ name symbol, k.introduces? d = some (name, symbol) →
      s.module.child name ≠ path) :
    (k.table (decls.foldl (enter lib) s))[path]? =
      (k.table s)[path]?.or
        ((decls.filterMap Decl.import?).findSome? (lib.offered? k.table path ·.1)) := by
  induction decls generalizing s with
  | nil => simp
  | cons d decls ih =>
    obtain ⟨hd, hdecls⟩ := List.forall_mem_cons.1 hnew
    rw [List.foldl_cons, ih (by simpa using hdecls)]
    cases himp : d.import? with
    | some entry =>
      obtain ⟨tag, module, rfl⟩ : ∃ tag module, d = .imports tag module := by
        cases d <;> simp_all [Decl.import?]
      rw [k.getElem?_enter_imports, Option.or_assoc]
      congr 1
      simp only [Decl.import?, List.filterMap_cons, List.findSome?_cons]
      cases lib.offered? k.table path module <;> rfl
    | none =>
      rw [k.table_enter lib s himp, List.filterMap_cons_none himp]
      cases hk : k.introduces? d with
      | none => rfl
      | some entry =>
        have hne := hd entry.1 entry.2 hk
        simp [Std.ExtTreeMap.getElem?_insert, hne]

end SymbolKind

variable [Located τ]

/-- `Adds lib s seen decls s'`: the declarations lead from the scope `s`, in which the names `seen` are
taken, to the scope `s'`. -/
inductive Adds (lib : Library) :
    Scope → List (String × Option Span) → List (Decl τ) → Scope → Prop where
  | nil (s : Scope) (seen : List (String × Option Span)) : Adds lib s seen [] s
  | imports {s s' imported : Scope} {seen : List (String × Option Span)} {decls : List (Decl τ)}
      (tag : τ) {module : Path} (found : lib module = some imported)
      (rest : Adds lib (s.importModule module imported) seen decls s') :
      Adds lib s seen (.imports tag module :: decls) s'
  | function {s s' : Scope} {seen : List (String × Option Span)} {decls : List (Decl τ)} (tag : τ)
      {f : Func τ} (new : seen.lookup f.name = none)
      (rest : Adds lib (s.declareFunction f) ((f.name, Located.span? tag) :: seen) decls s') :
      Adds lib s seen (.function tag f :: decls) s'
  | type {s s' : Scope} {seen : List (String × Option Span)} {decls : List (Decl τ)} (tag : τ)
      {decl : TypeDecl} (new : seen.lookup decl.name = none)
      (rest : Adds lib (s.declareType decl) ((decl.name, Located.span? tag) :: seen) decls s') :
      Adds lib s seen (.type tag decl :: decls) s'

private theorem adds_of_addAll {s s' : Scope} {seen : List (String × Option Span)}
    {decls : List (Decl τ)} (h : addAll lib s seen decls = .ok s') : Adds lib s seen decls s' := by
  induction decls generalizing s seen with
  | nil =>
    cases h
    exact .nil _ _
  | cons d decls ih =>
    cases d with
    | imports tag module =>
      simp only [addAll] at h
      split at h
      · cases h
      · next imported found => exact .imports tag found (ih h)
    | function tag f =>
      simp only [addAll] at h
      split at h
      · cases h
      · next new => exact .function tag new (ih h)
    | type tag decl =>
      simp only [addAll] at h
      split at h
      · cases h
      · next new => exact .type tag new (ih h)

omit [Located τ] in
/-- Names are new, one after the other, if the first is new and the rest is new after it. -/
private theorem nodup_names_cons_iff {seen : List (String × Option Span)} {name : String}
    {names : List String} (span? : Option Span) :
    ((name :: names).Nodup ∧ ∀ n ∈ name :: names, seen.lookup n = none) ↔
      seen.lookup name = none ∧
        names.Nodup ∧ ∀ n ∈ names, ((name, span?) :: seen).lookup n = none := by
  simp only [List.nodup_cons, List.forall_mem_cons, List.lookup_eq_none_iff, bne_iff_ne]
  constructor
  · rintro ⟨⟨hno, hnodup⟩, hname, hnames⟩
    exact ⟨hname, hnodup, fun n hn => ⟨fun he => hno (he ▸ hn), hnames n hn⟩⟩
  · rintro ⟨hname, hnodup, hnames⟩
    exact ⟨⟨fun hn => (hnames name hn).1 rfl, hnodup⟩, hname, fun n hn => (hnames n hn).2⟩

namespace Adds

variable {s s' : Scope} {seen : List (String × Option Span)} {decls : List (Decl τ)}

private theorem isImported_iff (h : Adds lib s seen decls s') {module : Path} :
    s'.isImported module ↔
      s.isImported module ∨ ∃ tag, (module, tag) ∈ decls.filterMap Decl.import? := by
  induction h with
  | nil => simp
  | @imports s _ _ _ _ tag module' _ _ ih =>
    rw [ih]
    simp only [isImported, importModule, Std.ExtTreeSet.contains_insert, Bool.or_eq_true, beq_iff_eq,
      Std.compare_eq_iff_eq, Decl.import?, List.filterMap_cons, List.mem_cons, Prod.mk.injEq,
      exists_or, exists_and_left, exists_eq, and_true, eq_comm (a := module), or_assoc, or_left_comm]
  | function _ _ _ ih | type _ _ _ ih => exact ih

/-- No name is declared twice. -/
private theorem nodup_names (h : Adds lib s seen decls s') :
    (decls.filterMap Decl.name?).Nodup ∧
      ∀ name ∈ decls.filterMap Decl.name?, seen.lookup name = none := by
  induction h with
  | nil => simp
  | imports _ _ _ ih => exact ih
  | function _ new _ ih | type _ new _ ih => exact (nodup_names_cons_iff _).2 ⟨new, ih⟩

private theorem found (h : Adds lib s seen decls s') :
    ∀ entry ∈ decls.filterMap Decl.import?, (lib entry.1).isSome := by
  induction h with
  | nil => simp
  | imports _ found _ ih => exact List.forall_mem_cons.2 ⟨Option.isSome_of_eq_some found, ih⟩
  | function _ _ _ ih | type _ _ _ ih => exact ih

end Adds

/-- Declarations are added one after the other, if their names are new and all imports are found. -/
private theorem addAll_of_new {s : Scope} {seen : List (String × Option Span)}
    {decls : List (Decl τ)} (hnew : (decls.filterMap Decl.name?).Nodup ∧
      ∀ name ∈ decls.filterMap Decl.name?, seen.lookup name = none)
    (hfound : ∀ entry ∈ decls.filterMap Decl.import?, (lib entry.1).isSome) :
    addAll lib s seen decls = .ok (decls.foldl (enter lib) s) := by
  induction decls generalizing s seen with
  | nil => rfl
  | cons d decls ih =>
    cases d with
    | imports tag module =>
      obtain ⟨hmodule, hfound⟩ := List.forall_mem_cons.1 hfound
      obtain ⟨imported, himported⟩ := Option.isSome_iff_exists.1 hmodule
      simp only [addAll, himported, ih hnew hfound, List.foldl_cons, enter, Option.elim_some]
    | function tag f =>
      obtain ⟨hname, hnew⟩ := (nodup_names_cons_iff (Located.span? tag)).1 hnew
      simp only [addAll, hname, ih hnew hfound, List.foldl_cons, enter]
    | type tag decl =>
      obtain ⟨hname, hnew⟩ := (nodup_names_cons_iff (Located.span? tag)).1 hnew
      simp only [addAll, hname, ih hnew hfound, List.foldl_cons, enter]

variable {p : Program τ} {s : Scope} {path : Path}

/-- A program has a scope just when it declares no name twice and all its imports are found, and the
scope is then what its declarations add up to. -/
theorem ofProgram_eq_ok_iff :
    ofProgram lib p = .ok s ↔ (p.decls.filterMap Decl.name?).Nodup ∧
      (∀ entry ∈ p.imports, (lib entry.1).isSome) ∧ s = p.decls.foldl (enter lib) (empty p.module) := by
  constructor
  · intro h
    have hadds := adds_of_addAll h
    refine ⟨hadds.nodup_names.1, hadds.found, ?_⟩
    rw [ofProgram, addAll_of_new hadds.nodup_names hadds.found] at h
    exact (Except.ok.inj h).symm
  · rintro ⟨hnodup, hfound, rfl⟩
    exact addAll_of_new ⟨hnodup, fun _ _ => rfl⟩ hfound

theorem module_ofProgram (h : ofProgram lib p = .ok s) : s.module = p.module := by
  obtain ⟨_, _, rfl⟩ := ofProgram_eq_ok_iff.1 h
  exact module_foldl_enter _ _

/-- Exactly the imports of the program are recorded. -/
theorem isImported_iff (h : ofProgram lib p = .ok s) {module : Path} :
    s.isImported module ↔ ∃ tag, (module, tag) ∈ p.imports := by
  have hempty : (empty p.module).isImported module = false := by
    simp [isImported, empty]
  rw [(adds_of_addAll h).isImported_iff, hempty]
  simp [Program.imports]

theorem nodup_functions (h : ofProgram lib p = .ok s) : (p.functions.map Func.name).Nodup := by
  have hname : ∀ (d : Decl τ) (name : String), d.function?.map Func.name = some name →
      d.name? = some name := by
    intro d name hd
    cases d with
    | function | type | imports => simp_all [Decl.function?, Decl.name?]
  have hnames := (adds_of_addAll h).nodup_names.1
  rw [Program.functions, List.map_filterMap, List.Nodup, List.pairwise_filterMap]
  refine (List.pairwise_filterMap.1 hnames).imp ?_
  intro d d' hne name hn name' hn'
  exact hne name (hname d name hn) name' (hname d' name' hn')

namespace SymbolKind

variable {δ : Type} (k : SymbolKind τ δ)

/-- A symbol that the program introduces is visible as it was declared. -/
theorem getElem?_own (h : ofProgram lib p = .ok s) {d : Decl τ} (hd : d ∈ p.decls) {name : String}
    {symbol : Symbol δ} (hk : k.introduces? d = some (name, symbol)) :
    (k.table s)[p.module.child name]? = some symbol := by
  obtain ⟨hnames, _, rfl⟩ := ofProgram_eq_ok_iff.1 h
  obtain ⟨before, later, hsplit⟩ := List.append_of_mem hd
  have himp : d.import? = none := by
    have hname := k.name?_eq hk
    cases d <;> simp_all [Decl.name?, Decl.import?]
  have hlater : ∀ d' ∈ later, ∀ name' symbol', k.introduces? d' = some (name', symbol') →
      p.module.child name' ≠ p.module.child name := by
    rw [hsplit, List.filterMap_append, List.filterMap_cons_some (k.name?_eq hk)] at hnames
    have hnot := (List.nodup_cons.1 (List.nodup_append.1 hnames).2.1).1
    rintro d' hd' name' symbol' hk' he
    cases (Path.child_inj.1 he).2
    exact hnot (List.mem_filterMap.2 ⟨d', hd', k.name?_eq hk'⟩)
  rw [hsplit, List.foldl_append, List.foldl_cons, k.getElem?_foldl (by simpa using hlater),
    k.table_enter lib _ himp, hk]
  simp

theorem getElem?_imported (h : ofProgram lib p = .ok s)
    (hne : ∀ d ∈ p.decls, ∀ name symbol, k.introduces? d = some (name, symbol) →
      p.module.child name ≠ path) :
    (k.table s)[path]? = p.imports.findSome? (lib.offered? k.table path ·.1) := by
  obtain ⟨_, _, rfl⟩ := ofProgram_eq_ok_iff.1 h
  rw [k.getElem?_foldl hne, k.table_empty]
  simp [Program.imports]

end SymbolKind

/-- A function of the program is visible as it was declared. -/
theorem function?_own (h : ofProgram lib p = .ok s) {f : Func τ} (hf : f ∈ p.functions) :
    s.function? (p.module.child f.name) = some f.symbol := by
  obtain ⟨d, hd, hdf⟩ := List.mem_filterMap.1 hf
  exact SymbolKind.functions.getElem?_own h hd (by simp [SymbolKind.functions, hdf])

/-- Where the program declares nothing, the first import decides that offers something. -/
theorem function?_imported (h : ofProgram lib p = .ok s)
    (hne : ∀ f ∈ p.functions, p.module.child f.name ≠ path) :
    s.function? path = p.imports.findSome? (lib.function? path ·.1) := by
  refine SymbolKind.functions.getElem?_imported h fun d hd name symbol hk => ?_
  obtain ⟨f, hdf, hf⟩ := Option.map_eq_some_iff.1 hk
  cases hf
  exact hne f (List.mem_filterMap.2 ⟨d, hd, hdf⟩)

theorem visible_of_ofProgram (h : ofProgram lib p = .ok s) {symbol : Symbol Signature}
    (hs : s.function? path = some symbol) : Visible lib p.module p.functions path symbol := by
  by_cases hown : ∃ f ∈ p.functions, p.module.child f.name = path
  · obtain ⟨f, hf, rfl⟩ := hown
    rw [function?_own h hf] at hs
    cases hs
    exact .own hf
  · rw [function?_imported h (by simpa using hown)] at hs
    obtain ⟨entry, _, hentry⟩ := List.exists_of_findSome?_eq_some hs
    obtain ⟨scope, hl, symbol', hs', ho, rfl⟩ := Library.function?_eq_some_iff.1 hentry
    exact .imported hl hs' ho

end Scope

end BlockCompiler
