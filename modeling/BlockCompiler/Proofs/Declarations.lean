import BlockCompiler.Proofs.Visible

/-!
# Declarations and visible symbols

A program has a scope unless one of its declarations takes a name that is taken, or imports a module
that is not there; the first such declaration is reported. The scope shows what the program declares
and what the modules that it imports declare themselves, and nothing else.
-/

namespace BlockCompiler

variable {τ : Type}

namespace Decl

/-- A declaration that cannot follow the declarations `earlier`: it introduces a name that one of them
has introduced, or imports a module that is not in the library. -/
inductive Offends (lib : Library) (earlier : List (Decl τ)) : Decl τ → Prop where
  | taken {d previous : Decl τ} {name : String} (h : d.name? = some name)
      (hmem : previous ∈ earlier) (hname : previous.name? = some name) : Offends lib earlier d
  | missing (tag : τ) {module : Path} (h : lib module = none) :
      Offends lib earlier (.imports tag module)

/-- None of the declarations offends. -/
def AllFit (lib : Library) (decls : List (Decl τ)) : Prop :=
  ∀ earlier d later, decls = earlier ++ d :: later → ¬ d.Offends lib earlier

section Reports

variable [Located τ]

/-- The error for a declaration that offends. A name that is taken was introduced by one declaration
before, and both are pointed at. -/
inductive ReportedAs (earlier : List (Decl τ)) : Decl τ → ScopeError → Prop where
  | duplicate {d previous : Decl τ} {name : String} (h : d.name? = some name)
      (hone : earlier.filter (·.name? = some name) = [previous]) :
      ReportedAs earlier d (.duplicate name (Located.span? d.tag) (Located.span? previous.tag))
  | missingModule (tag : τ) (module : Path) :
      ReportedAs earlier (.imports tag module) (.missingModule module (Located.span? tag))

/-- The names that were introduced, the last one first, each with the span of its declaration. -/
def noted (decls : List (Decl τ)) : List (String × Option Span) :=
  (decls.filterMap fun d => d.name?.map (·, Located.span? d.tag)).reverse

private theorem noted_concat (decls : List (Decl τ)) (d : Decl τ) :
    noted (decls ++ [d]) = (d.name?.map (·, Located.span? d.tag)).toList ++ noted decls := by
  cases hn : d.name? <;> simp [noted, hn]

private theorem mem_noted {decls : List (Decl τ)} {name : String} {span? : Option Span} :
    (name, span?) ∈ noted decls ↔
      ∃ d ∈ decls, d.name? = some name ∧ Located.span? d.tag = span? := by
  simp [noted]

private theorem lookup_noted_eq_none_iff {decls : List (Decl τ)} {name : String} :
    (noted decls).lookup name = none ↔ ∀ d ∈ decls, d.name? ≠ some name := by
  rw [List.lookup_eq_none_iff]
  constructor
  · intro h d hd hn
    simpa using h (name, Located.span? d.tag) (mem_noted.2 ⟨d, hd, hn, rfl⟩)
  · rintro h ⟨name', span?⟩ hmem
    obtain ⟨d, hd, hn, _⟩ := mem_noted.1 hmem
    rw [bne_iff_ne]
    rintro rfl
    exact h d hd hn

private theorem exists_of_lookup_noted {decls : List (Decl τ)} {name : String} {span? : Option Span}
    (h : (noted decls).lookup name = some span?) :
    ∃ d ∈ decls, d.name? = some name ∧ Located.span? d.tag = span? := by
  obtain ⟨before, later, heq, _⟩ := List.lookup_eq_some_iff.1 h
  exact mem_noted.1 (heq ▸ by simp)

end Reports

namespace AllFit

variable {lib : Library} {decls : List (Decl τ)}

private theorem nil : AllFit lib ([] : List (Decl τ)) := by
  intro earlier d later h
  simp at h

private theorem concat (h : AllFit lib decls) {d : Decl τ} (hd : ¬ d.Offends lib decls) :
    AllFit lib (decls ++ [d]) := by
  intro earlier d' later heq
  -- either the list is split at `d`, or `decls` is split in the same way
  rcases List.eq_nil_or_concat later with rfl | ⟨later, last, rfl⟩
  · obtain ⟨rfl, he⟩ := List.append_inj' heq rfl
    cases he
    exact hd
  · have heq : decls ++ [d] = (earlier ++ d' :: later) ++ [last] := by simpa using heq
    exact h earlier d' later (List.append_inj' heq rfl).1

/-- A name is introduced once at most. -/
private theorem filter_name?_eq (h : AllFit lib decls) {d : Decl τ} (hd : d ∈ decls) {name : String}
    (hn : d.name? = some name) : decls.filter (·.name? = some name) = [d] := by
  obtain ⟨before, later, rfl⟩ := List.append_of_mem hd
  have hbefore : before.filter (·.name? = some name) = [] := by
    rw [List.filter_eq_nil_iff]
    intro previous hmem hname
    exact h before d later rfl (.taken hn hmem (by simpa using hname))
  have hlater : later.filter (·.name? = some name) = [] := by
    rw [List.filter_eq_nil_iff]
    intro d' hmem hname
    obtain ⟨mid, rest, rfl⟩ := List.append_of_mem hmem
    refine h (before ++ d :: mid) d' rest (by simp) (.taken (by simpa using hname) ?_ hn)
    simp
  rw [List.filter_append, List.filter_cons_of_pos (by simpa using hn), hbefore, hlater]
  rfl

end AllFit

/-- The error `e` reports the first declaration in `decls` that offends, when `earlier` go before. -/
def FirstOffence [Located τ] (lib : Library) (earlier decls : List (Decl τ)) (e : ScopeError) : Prop :=
  ∃ more d later, decls = more ++ d :: later ∧ d.Offends lib (earlier ++ more) ∧
    AllFit lib (earlier ++ more) ∧ d.ReportedAs (earlier ++ more) e

private theorem FirstOffence.cons [Located τ] {lib : Library} {earlier decls : List (Decl τ)}
    {d : Decl τ} {e : ScopeError} (h : FirstOffence lib (earlier ++ [d]) decls e) :
    FirstOffence lib earlier (d :: decls) e := by
  obtain ⟨more, d', later, rfl, h⟩ := h
  rw [List.append_assoc, List.singleton_append] at h
  exact ⟨d :: more, d', later, rfl, h⟩

end Decl

namespace Scope

variable [Located τ] {lib : Library}

/-- A declaration that introduces a name is refused if the name is taken. -/
private theorem addAll_cons_of_name {d : Decl τ} {name : String} (hd : d.name? = some name)
    (s : Scope) (seen : List (String × Option Span)) (decls : List (Decl τ)) :
    addAll lib s seen (d :: decls) = match seen.lookup name with
      | some previous? => .error (.duplicate name (Located.span? d.tag) previous?)
      | none => addAll lib (s.enter lib d) ((name, Located.span? d.tag) :: seen) decls := by
  cases d with
  | function tag f =>
    cases hd
    rfl
  | type tag t =>
    cases hd
    rfl
  | imports tag module => cases hd

private theorem firstOffence_of_addAll {s : Scope} {earlier decls : List (Decl τ)} {e : ScopeError}
    (hfit : Decl.AllFit lib earlier) (h : addAll lib s (Decl.noted earlier) decls = .error e) :
    Decl.FirstOffence lib earlier decls e := by
  -- at each step the declaration that fits joins `earlier`, whose names are the ones taken
  induction decls generalizing s earlier with
  | nil => cases h
  | cons d decls ih =>
    cases hn : d.name? with
    | none =>
      obtain ⟨tag, module, rfl⟩ : ∃ tag module, d = .imports tag module := by
        cases d <;> simp_all [Decl.name?]
      simp only [addAll] at h
      split at h
      · next hnone =>
        cases h
        exact ⟨[], _, decls, rfl, .missing tag hnone, by simpa using hfit, .missingModule tag module⟩
      · next imported hl =>
        refine (ih (hfit.concat ?_) (by simpa [Decl.noted_concat, Decl.name?] using h)).cons
        intro hoffends
        cases hoffends with
        | taken hname => cases hname
        | missing _ hnone =>
          rw [hl] at hnone
          cases hnone
    | some name =>
      rw [addAll_cons_of_name hn] at h
      split at h
      · next previous? hlookup =>
        cases h
        obtain ⟨previous, hmem, hname, rfl⟩ := Decl.exists_of_lookup_noted hlookup
        refine ⟨[], d, decls, rfl, .taken hn (by simpa using hmem) hname, by simpa using hfit, ?_⟩
        exact .duplicate hn (by simpa using hfit.filter_name?_eq hmem hname)
      · next hlookup =>
        refine (ih (hfit.concat ?_) (by simpa [Decl.noted_concat, hn] using h)).cons
        intro hoffends
        cases hoffends with
        | taken hname hmem hprevious =>
          rw [hn] at hname
          cases hname
          exact Decl.lookup_noted_eq_none_iff.1 hlookup _ hmem hprevious
        | missing => cases hn

variable {p : Program τ} {s : Scope}

/-- If a program has a scope, then none of its declarations offends. -/
theorem allFit_of_ofProgram (h : ofProgram lib p = .ok s) : Decl.AllFit lib p.decls := by
  obtain ⟨hnames, hfound, _⟩ := ofProgram_eq_ok_iff.1 h
  intro earlier d later hsplit hoffends
  cases hoffends with
  | taken hname hmem hprevious =>
    rw [hsplit, List.filterMap_append, List.filterMap_cons_some hname] at hnames
    exact (List.nodup_append.1 hnames).2.2 _ (List.mem_filterMap.2 ⟨_, hmem, hprevious⟩) _
      List.mem_cons_self rfl
  | @missing tag module hnone =>
    have hmem : (module, tag) ∈ p.imports :=
      List.mem_filterMap.2 ⟨.imports tag module, by simp [hsplit], rfl⟩
    simpa [hnone] using hfound _ hmem

theorem firstOffence_of_ofProgram {e : ScopeError} (h : ofProgram lib p = .error e) :
    Decl.FirstOffence lib [] p.decls e :=
  firstOffence_of_addAll .nil h

omit [Located τ] in
theorem mem_imports_iff {module : Path} {tag : τ} :
    (module, tag) ∈ p.imports ↔ .imports tag module ∈ p.decls := by
  rw [Program.imports, List.mem_filterMap]
  constructor
  · rintro ⟨d, hd, himp⟩
    cases d <;> cases himp
    exact hd
  · exact fun h => ⟨_, h, rfl⟩

namespace SymbolKind

omit [Located τ] in
theorem functions_introduces?_iff {d : Decl τ} {name : String} {symbol : Symbol Signature} :
    functions.introduces? d = some (name, symbol) ↔
      ∃ tag f, d = .function tag f ∧ f.name = name ∧ f.symbol = symbol := by
  cases d <;> simp [functions, Decl.function?]

omit [Located τ] in
theorem types_introduces?_iff {d : Decl τ} {name : String} {symbol : Symbol Unit} :
    types.introduces? d = some (name, symbol) ↔
      ∃ tag t, d = .type tag t ∧ t.name = name ∧ t.symbol = symbol := by
  cases d <;> simp [types, Decl.type?]

/-- What an imported module has from elsewhere is not visible. -/
theorem getElem?_hidden {δ : Type} (k : SymbolKind τ δ) (h : ofProgram lib p = .ok s) {path : Path}
    (hne : ∀ d ∈ p.decls, ∀ name symbol, k.introduces? d = some (name, symbol) →
      p.module.child name ≠ path)
    (hhidden : ∀ tag module scope symbol, .imports tag module ∈ p.decls → lib module = some scope →
      (k.table scope)[path]? = some symbol → symbol.isOwn = false) :
    (k.table s)[path]? = none := by
  rw [k.getElem?_imported h hne, List.findSome?_eq_none_iff]
  rintro ⟨module, tag⟩ hmem
  rw [Library.offered?, Option.bind_eq_none_iff]
  intro scope hl
  rw [Option.eq_none_iff_forall_ne_some]
  intro symbol hsymbol
  obtain ⟨symbol', hs, ho, _⟩ := (Table.exported?_eq_some_iff _ path).1 hsymbol
  rw [hhidden tag module scope symbol' (mem_imports_iff.1 hmem) hl hs] at ho
  cases ho

end SymbolKind

/-- The scope of a program holds exactly the symbols that are visible in it. There is one unless some
declaration takes a name that an earlier one has taken, or imports a module that is not in the library,
and the first such declaration is reported. In the scope stand, as they were declared, the functions and
types of the program; at any other path stands what the first import offers that has a symbol of its own
there. So what an imported module has from elsewhere is not visible. -/
theorem ofProgram_exact (lib : Library) (p : Program τ) :
    ((∃ e, ofProgram lib p = .error e) ↔
        ∃ earlier d later, p.decls = earlier ++ d :: later ∧ d.Offends lib earlier) ∧
      (∀ e, ofProgram lib p = .error e →
        ∃ earlier d later, p.decls = earlier ++ d :: later ∧ d.Offends lib earlier ∧
          Decl.AllFit lib earlier ∧ d.ReportedAs earlier e) ∧
      ∀ s, ofProgram lib p = .ok s →
        (∀ tag f, .function tag f ∈ p.decls →
          s.function? (p.module.child f.name) = some ⟨f.signature, f.isExternal, .own⟩) ∧
        (∀ path, (∀ tag f, .function tag f ∈ p.decls → p.module.child f.name ≠ path) →
          s.function? path = p.imports.findSome? (lib.function? path ·.1) ∧
          ((∀ tag module scope symbol, .imports tag module ∈ p.decls → lib module = some scope →
            scope.function? path = some symbol → symbol.isOwn = false) → s.function? path = none)) ∧
        (∀ tag t, .type tag t ∈ p.decls →
          s.type? (p.module.child t.name) = some ⟨(), t.isExternal, .own⟩) ∧
        (∀ path, (∀ tag t, .type tag t ∈ p.decls → p.module.child t.name ≠ path) →
          s.type? path = p.imports.findSome? (lib.type? path ·.1) ∧
          ((∀ tag module scope symbol, .imports tag module ∈ p.decls → lib module = some scope →
            scope.type? path = some symbol → symbol.isOwn = false) → s.type? path = none)) ∧
        ∀ module, s.isImported module ↔ ∃ tag, .imports tag module ∈ p.decls := by
  have hfirst : ∀ e, ofProgram lib p = .error e →
      ∃ earlier d later, p.decls = earlier ++ d :: later ∧ d.Offends lib earlier ∧
        Decl.AllFit lib earlier ∧ d.ReportedAs earlier e :=
    fun e he => firstOffence_of_ofProgram he
  refine ⟨⟨?_, ?_⟩, hfirst, ?_⟩
  · rintro ⟨e, he⟩
    obtain ⟨earlier, d, later, hsplit, hoffends, _⟩ := hfirst e he
    exact ⟨earlier, d, later, hsplit, hoffends⟩
  · rintro ⟨earlier, d, later, hsplit, hoffends⟩
    cases h : ofProgram lib p with
    | error e => exact ⟨e, rfl⟩
    | ok s => exact absurd hoffends (allFit_of_ofProgram h earlier d later hsplit)
  · intro s h
    refine ⟨?_, ?_, ?_, ?_, ?_⟩
    · intro tag f hf
      exact SymbolKind.functions.getElem?_own h hf rfl
    · intro path hne
      have hne' : ∀ d ∈ p.decls, ∀ name symbol,
          SymbolKind.functions.introduces? d = some (name, symbol) → p.module.child name ≠ path := by
        rintro d hd _ _ hk
        obtain ⟨tag, f, rfl, rfl, _⟩ := SymbolKind.functions_introduces?_iff.1 hk
        exact hne tag f hd
      exact ⟨SymbolKind.functions.getElem?_imported h hne', SymbolKind.functions.getElem?_hidden h hne'⟩
    · intro tag t ht
      exact SymbolKind.types.getElem?_own h ht rfl
    · intro path hne
      have hne' : ∀ d ∈ p.decls, ∀ name symbol,
          SymbolKind.types.introduces? d = some (name, symbol) → p.module.child name ≠ path := by
        rintro d hd _ _ hk
        obtain ⟨tag, t, rfl, rfl, _⟩ := SymbolKind.types_introduces?_iff.1 hk
        exact hne tag t hd
      exact ⟨SymbolKind.types.getElem?_imported h hne', SymbolKind.types.getElem?_hidden h hne'⟩
    · intro module
      simp only [isImported_iff h, mem_imports_iff]

end Scope

end BlockCompiler
