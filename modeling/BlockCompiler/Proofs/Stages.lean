import BlockCompiler.Compile
import BlockCompiler.Proofs.Bodies

/-!
# The stages of a compilation

A compilation that succeeds is a chain of successful stages. Function by function, it takes each
body through resolution, checking and the addition of types to emission, and the functions that are
defined in the module are those of the program, in order.
-/

namespace BlockCompiler

open Target

variable {τ : Type} {s : Scope} {w : Width}

namespace Target

/-- The functions of a module that have a body. -/
def Module.definitions (m : Module) : List Function :=
  m.functions.filter (!·.isDeclaration)

namespace Builder

/-- The builder in which a body with `n` parameters is begun. -/
def start (n : Nat) : Builder :=
  ⟨[⟨"entry", [], none⟩], some ⟨0⟩, n⟩

theorem isOpen_start (n : Nat) : (start n).isOpen := rfl

theorem finishBlock_eq_ok_iff {i : Nat} {block : OpenBlock} {done : Block} :
    finishBlock i block = .ok done ↔
      ∃ t, block.terminator? = some t ∧ done = ⟨⟨i⟩, block.label, block.instrs, t⟩ := by
  unfold finishBlock
  cases block.terminator? with
  | none => simp
  | some t => simp [eq_comm]

/-- A builder is finished just when all its blocks are closed, and then it yields these blocks. -/
theorem finish_eq_ok_iff {b : Builder} {blocks : List Block} :
    b.finish = .ok blocks ↔ b.blocks.length = blocks.length ∧
      ∀ (i : Nat) (block : OpenBlock), b.blocks[i]? = some block →
        ∃ t, block.terminator? = some t ∧
          blocks[i]? = some ⟨⟨i⟩, block.label, block.instrs, t⟩ := by
  unfold finish
  rw [Outcome.mapM_eq_ok, List.forall₂_iff_get]
  simp only [List.length_zipIdx, List.get_eq_getElem, List.getElem_zipIdx, Nat.zero_add,
    finishBlock_eq_ok_iff]
  constructor
  · intro h
    obtain ⟨hlen, h⟩ := h
    refine ⟨hlen, ?_⟩
    intro i block hb
    obtain ⟨hi, rfl⟩ := List.getElem?_eq_some_iff.1 hb
    obtain ⟨t, ht, hd⟩ := h i hi (by omega)
    exact ⟨t, ht, by rw [List.getElem?_eq_getElem (by omega), hd]⟩
  · intro h
    obtain ⟨hlen, h⟩ := h
    refine ⟨hlen, ?_⟩
    intro i hi hi'
    obtain ⟨t, ht, hd⟩ := h i _ (List.getElem?_eq_getElem hi)
    exact ⟨t, ht, (List.getElem?_eq_some_iff.1 hd).2⟩

/-- Every finished block is a block of the builder. -/
theorem exists_of_finish {b : Builder} {blocks : List Block} (h : b.finish = .ok blocks) {i : Nat}
    {done : Block} (hi : blocks[i]? = some done) :
    ∃ block t, b.blocks[i]? = some block ∧ block.terminator? = some t ∧
      done = ⟨⟨i⟩, block.label, block.instrs, t⟩ := by
  obtain ⟨hlen, hall⟩ := finish_eq_ok_iff.1 h
  have hlt : i < b.blocks.length := hlen ▸ (List.getElem?_eq_some_iff.1 hi).1
  obtain ⟨t, ht, hdone⟩ := hall i _ (List.getElem?_eq_getElem hlt)
  rw [hi] at hdone
  exact ⟨_, t, List.getElem?_eq_getElem hlt, ht, Option.some.inj hdone⟩

theorem exists_finish_eq_ok {b : Builder} (h : ∀ block ∈ b.blocks, block.terminator? ≠ none) :
    ∃ blocks, b.finish = .ok blocks := by
  unfold finish
  rw [Outcome.exists_mapM_eq_ok]
  intro entry hentry
  obtain ⟨t, ht⟩ := Option.ne_none_iff_exists'.1 (h entry.1 (List.fst_mem_of_mem_zipIdx hentry))
  exact ⟨_, finishBlock_eq_ok_iff.2 ⟨t, ht, rfl⟩⟩

end Builder

end Target

/-- How a body ends whose end is reached. -/
def Signature.lastTerminator (sig : Signature) : Terminator :=
  if sig.result = .void then .ret none else .unreachable

namespace Func

/-- A function that passes checking. -/
structure WellTyped (s : Scope) (f : Func τ) : Prop where
  params : ∀ param ∈ f.signature.params, param.ty ≠ .void
  body : Stmt.AllWellTyped s f.signature f.body

private theorem check_eq_ok_iff [Located τ] (tag : τ) {f : Func τ} :
    f.check s tag = .ok () ↔ f.WellTyped s := by
  unfold check
  cases hp : f.signature.params.find? (·.ty = .void) with
  | some param =>
    simp only [reduceCtorEq, false_iff]
    intro h
    have hv := List.find?_some hp
    exact h.params param (List.mem_of_find?_eq_some hp) (by simpa using hv)
  | none =>
    simp only [Stmt.checkAll_eq_ok_iff]
    rw [List.find?_eq_none] at hp
    exact ⟨fun h => ⟨by simpa using hp, h⟩, fun h => h.body⟩

/-- The frame a function is emitted in. -/
def frame (s : Scope) (w : Width) (f : Func τ) : Frame :=
  ⟨s, w, f.signature⟩

/-- The target function of a function, given its blocks. -/
def definition (w : Width) (path : Path) (f : Func τ) (blocks : List Block) : Function :=
  { f.signature.declaration w path with
    body? := some ⟨(List.range f.signature.params.length).map Reg.mk, blocks⟩ }

private theorem outcome_emitBody (f : Func τ) (n : Nat) :
    (f.emitBody (f.frame s w) { Builder.empty with nextReg := n }).outcome =
      (Stmt.emitAll (f.frame s w) f.body (.start n)).outcome >>=
        fun r => .ok ((), r.2.closeOpen f.signature.lastTerminator) := by
  unfold emitBody
  rw [Emit.outcome_bind_of_ok _ (Emit.outcome_create_add ..),
    Emit.outcome_bind_of_ok _ (Emit.outcome_moveTo ..), Emit.outcome_bind]
  simp only [Emit.outcome_closeWith]
  rfl

/-- A function is emitted by emitting its body and finishing the blocks. -/
theorem outcome_emit (f : Func τ) (path : Path) :
    (f.emit s w path).outcome =
      (Stmt.emitAll (f.frame s w) f.body (.start f.signature.params.length)).outcome >>= fun r =>
        (r.2.closeOpen f.signature.lastTerminator).finish.mapError EmissionFault.builder >>=
          fun blocks => .ok (f.definition w path blocks) := by
  have hlen : (f.frame s w).args.length = f.signature.params.length := (f.frame s w).length_args
  have hbody := outcome_emitBody (s := s) (w := w) f (f.frame s w).args.length
  rw [emit, Traced.outcome_bind]
  refine (congrArg (· >>= _) hbody).trans ?_
  rw [hlen]
  cases (Stmt.emitAll (f.frame s w) f.body (.start f.signature.params.length)).outcome with
  | error fault => rfl
  | ok r => exact Traced.outcome_bind _ _

theorem emit_eq_ok_iff {f : Func τ} {path : Path} {g : Function} :
    (f.emit s w path).outcome = .ok g ↔
      ∃ b blocks, Stmt.EmittedAll (f.frame s w) f.body (.start f.signature.params.length) b ∧
        (b.closeOpen f.signature.lastTerminator).finish = .ok blocks ∧
        g = f.definition w path blocks := by
  simp only [outcome_emit, Outcome.bind_eq_ok, Outcome.mapError_eq_ok]
  constructor
  · intro h
    obtain ⟨⟨_, b⟩, hb, blocks, hblocks, hg⟩ := h
    cases hg
    exact ⟨b, blocks, (Stmt.emitAll_eq_ok_iff _).1 hb, hblocks, rfl⟩
  · intro h
    obtain ⟨b, blocks, hb, hblocks, rfl⟩ := h
    exact ⟨((), b), (Stmt.emitAll_eq_ok_iff _).2 hb, blocks, hblocks, rfl⟩

/-- What emission makes of a function: the builder at the end of its statements, and the body. -/
structure Builds (s : Scope) (w : Width) (f : Func τ) (b : Builder) (body : Body) : Prop where
  emitted : Stmt.EmittedAll (f.frame s w) f.body (.start f.signature.params.length) b
  finish : (b.closeOpen f.signature.lastTerminator).finish = .ok body.blocks
  args : body.args = (f.frame s w).args

/-- `f'` is the well-typed function `f` with types added. -/
def Typed (s : Scope) (f f' : Func τ) : Prop :=
  ∃ typed, f' = { f with body := typed } ∧ f.WellTyped s ∧ Stmt.WrappedAll typed ∧
    Stmt.AllWellTyped s f.signature typed ∧ Stmt.SamePlainAll f.body typed

/-- What becomes of a function that is compiled: its body after resolution and after the addition of
types, the builder at the end of that body, and the finished blocks. -/
structure Compiles [Located τ] (s : Scope) (w : Width) (f : Func τ) (resolved typed : List (Stmt τ))
    (b : Builder) (blocks : List Block) : Prop where
  resolve : (Stmt.resolveAll s f.signature.params f.body).outcome = .ok resolved
  params : ∀ param ∈ f.signature.params, param.ty ≠ .void
  checked : Stmt.AllWellTyped s f.signature resolved
  wrapped : Stmt.WrappedAll typed
  wellTyped : Stmt.AllWellTyped s f.signature typed
  samePlain : Stmt.SamePlainAll resolved typed
  emitted : Stmt.EmittedAll (f.frame s w) typed (.start f.signature.params.length) b
  finish : (b.closeOpen f.signature.lastTerminator).finish = .ok blocks

/-- `g` is what becomes of `f` under the link name of `path`. -/
def CompilesTo [Located τ] (s : Scope) (w : Width) (path : Path) (f : Func τ) (g : Function) :
    Prop :=
  ∃ resolved typed b blocks, f.Compiles s w resolved typed b blocks ∧ g = f.definition w path blocks

/-- `g` is what stands for `f` in the module, under the link name of `path`: its declaration, if `f` is
external. -/
def EmittedAs [Located τ] (s : Scope) (w : Width) (path : Path) (f : Func τ) (g : Function) : Prop :=
  if f.isExternal then g = f.signature.declaration w path else f.CompilesTo s w path g

/-- Up to its body, every function is as its signature declares it. -/
theorem EmittedAs.eq_declaration [Located τ] {f : Func τ} {path : Path} {g : Function}
    (h : f.EmittedAs s w path g) : { g with body? := none } = f.signature.declaration w path := by
  unfold EmittedAs at h
  split at h
  · rw [h]
    rfl
  · obtain ⟨_, _, _, _, _, rfl⟩ := h
    rfl

end Func

namespace Program

theorem check_eq_ok_iff [Located τ] {p : Program τ} :
    (p.check s).outcome = .ok () ↔ ∀ f ∈ p.functions, f.WellTyped s := by
  have hdecl : ∀ d : Decl τ, (d.check s).outcome = .ok () ↔ ∀ f, d.function? = some f →
      f.WellTyped s := by
    intro d
    cases d with
    | function t f =>
      simp only [Decl.check, Traced.bind_eq_ok, Decl.function?, Option.some.injEq, forall_eq',
        ← Func.check_eq_ok_iff t]
      constructor
      · intro h
        obtain ⟨_, h, _⟩ := h
        exact h
      · intro h
        exact ⟨(), h, rfl⟩
    | type | imports => simp [Decl.check, Decl.function?]
  simp only [check, Traced.forM_eq_ok, hdecl, functions, List.mem_filterMap, forall_exists_index,
    and_imp]
  exact ⟨fun h f d hd hf => h d hd f hf, fun h d hd f hf => h f d hd hf⟩

/-- The module of a program, given its definitions. -/
def target (s : Scope) (w : Width) (p : Program τ) (defined : List Function) : Module where
  name := p.module.linkName
  width := w
  types := s.types.toList.map fun entry => entry.1.linkName
  functions := (s.functions.imported.map fun entry => entry.2.decl.declaration w entry.1) ++
    ((p.functions.filter (·.isExternal)).map fun f =>
      f.signature.declaration w (p.module.child f.name)) ++ defined

/-- A program is emitted by emitting its functions that are not external. -/
theorem outcome_emit (s : Scope) (w : Width) (p : Program τ) :
    (p.emit s w).outcome =
      (((p.functions.filter (!·.isExternal)).mapM fun f =>
        f.emit s w (p.module.child f.name) : Traced EmissionFault (List Function)).outcome >>=
          fun defined => .ok (p.target s w defined)) := by
  have hevents : ∀ events : List Event,
      (events.forM Traced.report : Traced EmissionFault Unit).outcome = .ok () := by
    intro events
    rw [Traced.forM_eq_ok]
    intro event _
    rfl
  rw [emit, Traced.outcome_bind]
  congr 1
  funext defined
  rw [Traced.outcome_bind, hevents]
  rfl

theorem emit_eq_ok_iff {p : Program τ} {m : Module} :
    (p.emit s w).outcome = .ok m ↔
      ∃ defined, List.Forall₂ (fun f g => (f.emit s w (p.module.child f.name)).outcome = .ok g)
          (p.functions.filter (!·.isExternal)) defined ∧ m = p.target s w defined := by
  rw [outcome_emit, Outcome.bind_eq_ok]
  simp only [Traced.mapM_eq_ok, Except.ok.injEq, eq_comm (b := m)]

/-- Only what is given as a definition has a body. -/
theorem definitions_target (p : Program τ) {defined : List Function}
    (h : ∀ g ∈ defined, g.isDeclaration = false) : (p.target s w defined).definitions = defined := by
  have hdecl : ∀ (path : Path) (sig : Signature), (sig.declaration w path).isDeclaration := by
    intro path sig
    rfl
  have hdefs : defined.filter (!·.isDeclaration) = defined := by
    rw [List.filter_eq_self]
    intro g hg
    rw [h g hg]
    rfl
  simp [Module.definitions, target, List.filter_append, List.filter_map, Function.comp_def, hdecl,
    hdefs]

private theorem definitions_of_emit {p : Program τ} {m : Module}
    (h : (p.emit s w).outcome = .ok m) :
    List.Forall₂ (fun f g => (f.emit s w (p.module.child f.name)).outcome = .ok g)
      (p.functions.filter (!·.isExternal)) m.definitions := by
  obtain ⟨defined, hdefined, rfl⟩ := emit_eq_ok_iff.1 h
  rwa [definitions_target]
  intro g hg
  obtain ⟨f, _, hemit⟩ := exists_left_of_forall₂ hdefined hg
  obtain ⟨_, _, _, _, rfl⟩ := Func.emit_eq_ok_iff.1 hemit
  rfl

/-- The definitions of the module were built for the functions of the program that are not external. -/
theorem forall₂_builds_of_emit {p : Program τ} {m : Module} (h : (p.emit s w).outcome = .ok m) :
    List.Forall₂ (fun f g => ∃ b body, g.body? = some body ∧ f.Builds s w b body)
      (p.functions.filter (!·.isExternal)) m.definitions := by
  refine (definitions_of_emit h).imp ?_
  intro f g hemit
  obtain ⟨b, blocks, hb, hblocks, rfl⟩ := Func.emit_eq_ok_iff.1 hemit
  exact ⟨b, _, rfl, hb, hblocks, rfl⟩

/-- Every body of the module was built for a function of the program. -/
theorem builds_of_emit {p : Program τ} {m : Module} (h : (p.emit s w).outcome = .ok m) {g : Function}
    {body : Body} (hg : g ∈ m.functions) (hbody : g.body? = some body) :
    ∃ f ∈ p.functions, f.isExternal = false ∧ ∃ b, f.Builds s w b body := by
  have hdef : g ∈ m.definitions :=
    List.mem_filter.2 ⟨hg, by simp [Function.isDeclaration, hbody]⟩
  obtain ⟨f, hf, b, _, hbody', hb⟩ := exists_left_of_forall₂ (forall₂_builds_of_emit h) hdef
  obtain ⟨hf, hext⟩ := List.mem_filter.1 hf
  cases hbody.symm.trans hbody'
  exact ⟨f, hf, by simpa using hext, b, hb⟩

end Program

/-- A program that is accepted: its names are resolved in its scope, and it is well typed. -/
structure Accepted [Located τ] (lib : Library) (p : Program τ) (s : Scope) (resolved : Program τ) :
    Prop where
  scope : Scope.ofProgram lib p = .ok s
  resolve : (p.resolve s).outcome = .ok resolved
  check : (resolved.check s).outcome = .ok ()

/-- What the stages of a compilation hand on when it succeeds. -/
structure Compiles [Located τ] (lib : Library) (w : Width) (p : Program τ) (s : Scope)
    (resolved typed : Program τ) (m : Module) : Prop extends Accepted lib p s resolved where
  addTypes : resolved.addTypes s = .ok typed
  emit : (typed.emit s w).outcome = .ok m

theorem compile_eq_ok_iff [Located τ] {lib : Library} {p : Program τ} {r : Compilation} :
    (compile lib w p).outcome = .ok r ↔
      ∃ resolved typed, Compiles lib w p r.scope resolved typed r.module := by
  unfold compile
  simp only [Traced.bind_eq_ok]
  constructor
  · intro h
    obtain ⟨s, hs, _, _, resolved, hresolved, _, hcheck, typed, htyped, m, hm, _, _, hr⟩ := h
    cases hr
    exact ⟨resolved, typed, ⟨Outcome.mapError_eq_ok.1 hs, Outcome.mapError_eq_ok.1 hresolved,
      Outcome.mapError_eq_ok.1 hcheck⟩, Outcome.mapError_eq_ok.1 htyped, Outcome.mapError_eq_ok.1 hm⟩
  · intro h
    obtain ⟨resolved, typed, h⟩ := h
    exact ⟨_, Outcome.mapError_eq_ok.2 h.scope, (), rfl, _, Outcome.mapError_eq_ok.2 h.resolve, (),
      Outcome.mapError_eq_ok.2 h.check, _, Outcome.mapError_eq_ok.2 h.addTypes, _,
      Outcome.mapError_eq_ok.2 h.emit, (), rfl, rfl⟩

/-- Where a compilation fails: in the first stage that gives an error. -/
inductive Fails [Located τ] (lib : Library) (w : Width) (p : Program τ) : CompileError → Prop where
  | scope {e : ScopeError} (h : Scope.ofProgram lib p = .error e) : Fails lib w p (.scope e)
  | resolve {s : Scope} {e : ResolveError} (scope : Scope.ofProgram lib p = .ok s)
      (h : (p.resolve s).outcome = .error e) : Fails lib w p (.resolve e)
  | check {s : Scope} {resolved : Program τ} {e : CheckError} (scope : Scope.ofProgram lib p = .ok s)
      (resolve : (p.resolve s).outcome = .ok resolved)
      (h : (resolved.check s).outcome = .error e) : Fails lib w p (.check e)
  | ascription {s : Scope} {resolved : Program τ} {fault : AscriptionFault}
      (accepted : Accepted lib p s resolved) (h : resolved.addTypes s = .error fault) :
      Fails lib w p (.ascription fault)
  | emission {s : Scope} {resolved typed : Program τ} {fault : EmissionFault}
      (accepted : Accepted lib p s resolved) (addTypes : resolved.addTypes s = .ok typed)
      (h : (typed.emit s w).outcome = .error fault) : Fails lib w p (.emission fault)

theorem fails_of_compile [Located τ] {lib : Library} {p : Program τ} {e : CompileError}
    (h : (compile lib w p).outcome = .error e) : Fails lib w p e := by
  rw [compile, Traced.bind_eq_error] at h
  rcases h with h | ⟨s, hs, h⟩
  · obtain ⟨_, herror, rfl⟩ := Outcome.mapError_eq_error.1 h
    exact .scope herror
  have hs := Outcome.mapError_eq_ok.1 hs
  rw [Traced.outcome_bind_of_ok _ rfl, Traced.bind_eq_error] at h
  rcases h with h | ⟨resolved, hresolved, h⟩
  · obtain ⟨_, herror, rfl⟩ := Outcome.mapError_eq_error.1 h
    exact .resolve hs herror
  have hresolved := Outcome.mapError_eq_ok.1 hresolved
  rw [Traced.bind_eq_error] at h
  rcases h with h | ⟨_, hcheck, h⟩
  · obtain ⟨_, herror, rfl⟩ := Outcome.mapError_eq_error.1 h
    exact .check hs hresolved herror
  have hacc : Accepted lib p s resolved := ⟨hs, hresolved, Outcome.mapError_eq_ok.1 hcheck⟩
  rw [Traced.bind_eq_error] at h
  rcases h with h | ⟨typed, htyped, h⟩
  · obtain ⟨_, herror, rfl⟩ := Outcome.mapError_eq_error.1 h
    exact .ascription hacc herror
  have htyped := Outcome.mapError_eq_ok.1 htyped
  rw [Traced.bind_eq_error] at h
  rcases h with h | ⟨_, _, h⟩
  · obtain ⟨_, herror, rfl⟩ := Outcome.mapError_eq_error.1 h
    exact .emission hacc htyped herror
  · cases h

namespace Accepted

variable [Located τ] {lib : Library} {p resolved typed : Program τ}

theorem passes_resolve (h : Accepted lib p s resolved) :
    p.Passes (fun sig body body' => (Stmt.resolveAll s sig.params body).outcome = .ok body')
      resolved :=
  (Program.resolve_eq_ok_iff.1 h.resolve).2

/-- Every function of the program is among the resolved ones, up to its body. -/
theorem exists_resolved (h : Accepted lib p s resolved) {f : Func τ} (hf : f ∈ p.functions) :
    ∃ f' ∈ resolved.functions, f'.head = f.head := by
  have hheads := Func.heads_of_passes h.passes_resolve.functions
  rw [← List.mem_map, hheads]
  exact List.mem_map_of_mem hf

/-- Types can be added to every accepted program. -/
theorem exists_addTypes (h : Accepted lib p s resolved) : ∃ typed, resolved.addTypes s = .ok typed := by
  have hdecl : ∀ d ∈ resolved.decls, ∃ d', d.addTypes s = .ok d' := by
    intro d hd
    cases d with
    | function t f =>
      have hf : f ∈ resolved.functions := List.mem_filterMap.2 ⟨_, hd, rfl⟩
      obtain ⟨body, hbody, _⟩ := (Program.check_eq_ok_iff.1 h.check f hf).body.addTypes
      rw [Decl.addTypes, Outcome.ok_bind _ hbody]
      exact ⟨_, rfl⟩
    | type | imports => exact ⟨_, rfl⟩
  obtain ⟨decls, hdecls⟩ := Outcome.exists_mapM_eq_ok.2 hdecl
  rw [Program.addTypes, Outcome.ok_bind _ hdecls]
  exact ⟨_, rfl⟩

theorem functions_typed (h : Accepted lib p s resolved) (ht : resolved.addTypes s = .ok typed) :
    List.Forall₂ (Func.Typed s) resolved.functions typed.functions := by
  have hpass := (Program.addTypes_eq_ok_iff.1 ht).functions
  have hwell := Program.check_eq_ok_iff.1 h.check
  rw [List.forall₂_iff_get] at hpass ⊢
  refine ⟨hpass.1, ?_⟩
  intro i hi hi'
  obtain ⟨body, hbody, hf⟩ := hpass.2 i hi hi'
  have hwell := hwell _ (List.get_mem resolved.functions ⟨i, hi⟩)
  obtain ⟨typed', htyped', hw, ht, hp⟩ := hwell.body.addTypes
  rw [htyped'] at hbody
  cases hbody
  exact ⟨_, hf, hwell, hw, ht, hp⟩

/-- What is left of a compilation is emission. -/
theorem outcome_compile (h : Accepted lib p s resolved) (ht : resolved.addTypes s = .ok typed)
    (w : Width) :
    (compile lib w p).outcome =
      (typed.emit s w).outcome.mapError CompileError.emission >>= fun m => .ok ⟨s, m⟩ := by
  unfold compile
  rw [Traced.outcome_bind_of_ok _ (Outcome.mapError_eq_ok.2 h.scope),
    Traced.outcome_bind_of_ok _ rfl,
    Traced.outcome_bind_of_ok _ (Outcome.mapError_eq_ok.2 h.resolve),
    Traced.outcome_bind_of_ok _ (Outcome.mapError_eq_ok.2 h.check),
    Traced.outcome_bind_of_ok _ (Outcome.mapError_eq_ok.2 ht), Traced.outcome_bind]
  rfl

end Accepted

namespace Compiles

variable [Located τ] {lib : Library} {p resolved typed : Program τ} {m : Module}

theorem passes_addTypes (h : Compiles lib w p s resolved typed m) :
    resolved.Passes (fun sig body body' => Stmt.addTypesAll s sig body = .ok body') typed :=
  Program.addTypes_eq_ok_iff.1 h.addTypes

theorem typed_module (h : Compiles lib w p s resolved typed m) : typed.module = p.module :=
  h.passes_addTypes.module_eq.trans h.passes_resolve.module_eq

private theorem exists_typed (h : Compiles lib w p s resolved typed m) {f : Func τ}
    (hf : f ∈ p.functions) :
    ∃ f' ∈ typed.functions, f'.head = f.head := by
  obtain ⟨f₁, hf₁, hhead⟩ := h.exists_resolved hf
  have hheads := Func.heads_of_passes h.passes_addTypes.functions
  rw [← List.mem_map, hheads, ← hhead]
  exact List.mem_map_of_mem hf₁

/-- The definitions of the module are the functions of the program that are not external. -/
theorem definitions (h : Compiles lib w p s resolved typed m) :
    List.Forall₂ (fun f g => f.CompilesTo s w (p.module.child f.name) g)
      (p.functions.filter (!·.isExternal)) m.definitions := by
  have hresolve := List.rel_filter (p := fun f => !f.isExternal) (q := fun f => !f.isExternal)
    (fun f f' hf => by obtain ⟨_, _, rfl⟩ := hf; exact Iff.rfl)
    h.passes_resolve.functions
  have htypes := List.rel_filter (p := fun f => !f.isExternal) (q := fun f => !f.isExternal)
    (fun f f' hf => by obtain ⟨_, rfl, _⟩ := hf; exact Iff.rfl) (h.functions_typed h.addTypes)
  have hemit := Program.definitions_of_emit h.emit
  refine (forall₂_comp (forall₂_comp hresolve htypes) hemit).imp ?_
  intro f g hf
  obtain ⟨_, ⟨_, ⟨body, hbody, rfl⟩, body', rfl, hwell, hw, ht, hp⟩, hemit⟩ := hf
  obtain ⟨b, blocks, hb, hblocks, rfl⟩ := Func.emit_eq_ok_iff.1 hemit
  rw [h.typed_module]
  exact ⟨body, body', b, blocks, ⟨hbody, hwell.params, hwell.body, hw, ht, hp, hb, hblocks⟩, rfl⟩

/-- Every function of the program stands in the module. -/
theorem exists_emittedAs (h : Compiles lib w p s resolved typed m) {f : Func τ}
    (hf : f ∈ p.functions) : ∃ g ∈ m.functions, f.EmittedAs s w (p.module.child f.name) g := by
  unfold Func.EmittedAs
  split
  · next hext =>
    obtain ⟨f', hf', hhead⟩ := h.exists_typed hf
    obtain ⟨hname, hext', hsig⟩ := Func.head_eq_iff.1 hhead
    obtain ⟨_, _, hm⟩ := Program.emit_eq_ok_iff.1 h.emit
    refine ⟨_, ?_, rfl⟩
    rw [hm, ← hname, ← hsig, ← h.typed_module]
    refine List.mem_append_left _ (List.mem_append_right _ (List.mem_map.2 ⟨f', ?_, rfl⟩))
    exact List.mem_filter.2 ⟨hf', by rw [hext', hext]⟩
  · next hext =>
    have hmem : f ∈ p.functions.filter (!·.isExternal) :=
      List.mem_filter.2 ⟨hf, by simp [hext]⟩
    obtain ⟨g, hg, hto⟩ := exists_right_of_forall₂ h.definitions hmem
    exact ⟨g, (List.mem_filter.1 hg).1, hto⟩

/-- Every imported function is declared in the module. -/
theorem declaration_mem (h : Compiles lib w p s resolved typed m) {path : Path}
    {symbol : Symbol Signature} (hs : s.function? path = some symbol) (ho : symbol.isOwn = false) :
    symbol.decl.declaration w path ∈ m.functions := by
  obtain ⟨_, _, hm⟩ := Program.emit_eq_ok_iff.1 h.emit
  rw [hm]
  refine List.mem_append_left _ (List.mem_append_left _ (List.mem_map.2 ⟨(path, symbol), ?_, rfl⟩))
  exact List.mem_filter.2 ⟨Std.ExtTreeMap.mem_toList_iff_getElem?_eq_some.2 hs, by simp [ho]⟩

end Compiles

end BlockCompiler
