import BlockCompiler.Proofs.Quiet
import BlockCompiler.Proofs.Roster
import Mathlib.Data.Set.Card

/-!
# Warnings about link names

The only warnings of a compilation are about link names that are used again, and they are those of the
emitted module. A module has one function for each visible path, and so the warnings count the paths
that share a name.
-/

namespace BlockCompiler

open Target

variable {τ : Type}

/-- The event is a warning with this message, about this link name. -/
def Event.Warns (message symbol : String) (e : Event) : Prop :=
  e.level = .warn ∧ e.message = message ∧ e.fields = [("symbol", symbol)]

instance (message symbol : String) : DecidablePred (Event.Warns message symbol) :=
  fun e => inferInstanceAs
    (Decidable (e.level = .warn ∧ e.message = message ∧ e.fields = [("symbol", symbol)]))

/-- Of the occurrences of an element, all but the first are repeats, and all if it was seen before. -/
private theorem count_repeatsAfter (seen l : List String) (x : String) :
    (repeatsAfter seen l).count x = if x ∈ seen then l.count x else l.count x - 1 := by
  induction l generalizing seen with
  | nil => simp [repeatsAfter]
  | cons y l ih =>
    rw [repeatsAfter]
    by_cases hy : y ∈ seen
    · rw [if_pos hy, List.count_cons, List.count_cons, ih]
      by_cases hx : x ∈ seen
      · simp only [if_pos hx]
      · have hne : y ≠ x := fun he => hx (he ▸ hy)
        simp [hx, hne]
    · rw [if_neg hy, ih, List.count_cons]
      by_cases he : y = x
      · subst he
        simp [hy]
      · simp [he, Ne.symm he]

private theorem repeatsAfter_nil_eq_nil_iff {l : List String} :
    repeatsAfter [] l = [] ↔ l.Nodup := by
  simp only [List.eq_nil_iff_forall_not_mem, ← List.count_eq_zero, count_repeatsAfter,
    List.nodup_iff_count_le_one, List.not_mem_nil, if_false, Nat.sub_eq_zero_iff_le]

/-- How often a link name occurs is how many paths share it. -/
theorem count_map_linkName {paths : List Path} (h : paths.Nodup) (name : String) :
    (paths.map Path.linkName).count name = {path | path ∈ paths ∧ path.linkName = name}.ncard := by
  have hset : {path | path ∈ paths ∧ path.linkName = name} =
      ((paths.filter (·.linkName = name)).toFinset : Set Path) := by
    ext path
    simp
  rw [hset, Set.ncard_coe_finset, List.toFinset_card_of_nodup (h.filter _), List.count_eq_countP,
    List.countP_map, List.countP_eq_length_filter]
  rfl

theorem nodup_map_linkName_iff {paths : List Path} (h : paths.Nodup) :
    (paths.map Path.linkName).Nodup ↔ Set.InjOn Path.linkName {path | path ∈ paths} := by
  rw [List.nodup_map_iff_inj_on h]
  exact ⟨fun hinj x hx y hy => hinj x hx y hy, fun hinj x hx y hy => hinj hx hy⟩

namespace Table

variable {δ : Type} (t : Table δ)

theorem mem_paths_iff {path : Path} : path ∈ t.toList.map Prod.fst ↔ t[path]?.isSome := by
  simp

theorem nodup_paths : (t.toList.map Prod.fst).Nodup := by
  rw [List.Nodup, List.pairwise_map]
  refine Std.ExtTreeMap.ordered_keys_toList.imp ?_
  intro entry entry' hlt he
  simp [he] at hlt

end Table

namespace Target.Module

private theorem level_of_mem_collisions {m : Module} {e : Event} (h : e ∈ m.collisions) :
    e.level = .warn := by
  rcases List.mem_append.1 h with h | h <;> obtain ⟨_, _, rfl⟩ := List.mem_map.1 h <;> rfl

private theorem filter_collisions (m : Module) :
    m.collisions.filter (·.level = .warn) = m.collisions := by
  rw [List.filter_eq_self]
  intro e he
  simpa using level_of_mem_collisions he

theorem count_functionCollision (m : Module) (name : String) :
    m.collisions.count (.functionCollision name) = (m.functions.map (·.name)).count name - 1 := by
  have htypes : Event.functionCollision name ∉ (repeatsAfter [] m.types).map Event.typeCollision := by
    simp
  rw [collisions, List.count_append, List.count_eq_zero.2 htypes,
    List.count_map_of_injective _ _ fun _ _ => Event.functionCollision.inj, count_repeatsAfter]
  simp

theorem count_typeCollision (m : Module) (name : String) :
    m.collisions.count (.typeCollision name) = m.types.count name - 1 := by
  have hfunctions : Event.typeCollision name ∉
      (repeatsAfter [] (m.functions.map (·.name))).map Event.functionCollision := by
    simp
  rw [collisions, List.count_append, List.count_eq_zero.2 hfunctions,
    List.count_map_of_injective _ _ fun _ _ => Event.typeCollision.inj, count_repeatsAfter]
  simp

theorem collisions_eq_nil_iff {m : Module} :
    m.collisions = [] ↔ (m.functions.map (·.name)).Nodup ∧ m.types.Nodup := by
  rw [collisions, List.append_eq_nil_iff, List.map_eq_nil_iff, List.map_eq_nil_iff,
    repeatsAfter_nil_eq_nil_iff, repeatsAfter_nil_eq_nil_iff]

end Target.Module

namespace Event

theorem warns_functions_iff {name : String} {e : Event} :
    e.Warns "two functions share a mangled name" name ↔ e = .functionCollision name := by
  cases e <;> simp [Warns, level, message, fields]

theorem warns_types_iff {name : String} {e : Event} :
    e.Warns "two types share a mangled name" name ↔ e = .typeCollision name := by
  cases e <;> simp [Warns, level, message, fields]

/-- Warnings are about collisions only. -/
private theorem level_eq_warn_iff {e : Event} : e.level = .warn ↔
    ∃ name, e.Warns "two functions share a mangled name" name ∨
      e.Warns "two types share a mangled name" name := by
  simp only [warns_functions_iff, warns_types_iff]
  cases e <;> simp [level]

theorem countP_warns {message name : String} {e : Event}
    (h : ∀ e' : Event, e'.Warns message name ↔ e' = e) (log : List Event) :
    log.countP (Warns message name) = log.count e := by
  rw [List.count_eq_countP]
  apply List.countP_congr
  intro e' _
  simp [h e']

end Event

variable {s : Scope} {w : Width}

/-- Emission warns of what collides in the module, and of nothing else. -/
private theorem Program.warnings_emit {p : Program τ} {m : Module}
    (h : (p.emit s w).outcome = .ok m) :
    (p.emit s w).warnings = m.collisions := by
  rw [emit] at h ⊢
  obtain ⟨defined, hdefined, h⟩ := Traced.bind_eq_ok.1 h
  obtain ⟨⟨⟩, hevents, h⟩ := Traced.bind_eq_ok.1 h
  cases h
  have hquiet : Traced.warnings _ = [] :=
    Traced.quiet_mapM (fun f => f.quiet_emit s w (p.module.child f.name))
      (p.functions.filter (!·.isExternal))
  rw [Traced.warnings_bind_of_ok _ hdefined, hquiet, List.nil_append,
    Traced.warnings_bind_of_ok _ hevents, Traced.warnings, Traced.log_forM_report,
    Module.filter_collisions]
  exact List.append_nil _

section Compile

variable [Located τ] {lib : Library} {p : Program τ} {r : Compilation}

/-- The warnings of a compilation are the collisions in its module. -/
theorem warnings_compile (h : (compile lib w p).outcome = .ok r) :
    (compile lib w p).warnings = r.module.collisions := by
  obtain ⟨resolved, typed, h⟩ := compile_eq_ok_iff.1 h
  have hresolve : ((p.resolve r.scope).mapError CompileError.resolve).warnings = [] :=
    p.quiet_resolve r.scope
  have hcheck : ((resolved.check r.scope).mapError CompileError.check).warnings = [] :=
    resolved.quiet_check r.scope
  have hemit : ((typed.emit r.scope w).mapError CompileError.emission).warnings =
      r.module.collisions := Program.warnings_emit h.emit
  unfold compile
  rw [Traced.warnings_bind_of_ok _ (Outcome.mapError_eq_ok.2 h.scope),
    Traced.warnings_bind_of_ok _ rfl,
    Traced.warnings_bind_of_ok _ (Outcome.mapError_eq_ok.2 h.resolve), hresolve,
    Traced.warnings_bind_of_ok _ (Outcome.mapError_eq_ok.2 h.check), hcheck,
    Traced.warnings_bind_of_ok _ (Outcome.mapError_eq_ok.2 h.addTypes),
    Traced.warnings_bind_of_ok _ (Outcome.mapError_eq_ok.2 h.emit), hemit]
  exact List.append_nil _

theorem quiet_compile_iff : (compile lib w p).warnings = [] ↔
    ∀ e ∈ (compile lib w p).log, ∀ name, ¬e.Warns "two functions share a mangled name" name ∧
      ¬e.Warns "two types share a mangled name" name := by
  simp only [Traced.warnings, List.filter_eq_nil_iff, decide_eq_true_iff, Event.level_eq_warn_iff,
    not_exists, not_or]

/-- The functions of the module have the link names of the visible functions. -/
theorem map_name_compile (h : (compile lib w p).outcome = .ok r) :
    r.module.functions.map (·.name) = (p.roster r.scope).map Path.linkName := by
  obtain ⟨hs, _, defined, hdefined, hm⟩ := compile_eq_ok_iff_yields.1 h
  have hstands := Scope.forall₂_standsFor hs hdefined
  rw [← hm] at hstands
  rw [← List.forall₂_eq_eq_eq, List.forall₂_map_left_iff, List.forall₂_map_right_iff]
  exact hstands.flip.imp fun g path hg => hg.choose_spec.2.1

theorem types_compile (h : (compile lib w p).outcome = .ok r) :
    r.module.types = (r.scope.types.toList.map Prod.fst).map Path.linkName := by
  obtain ⟨_, _, _, _, hm⟩ := compile_eq_ok_iff_yields.1 h
  rw [hm, List.map_map]
  rfl

/-- A compilation warns of every link name that visible functions share, once for each function but
one, and likewise of the link names of types. So there is no warning just if no two visible functions
and no two visible types share a link name. -/
theorem compile_warns (h : (compile lib w p).outcome = .ok r) :
    (∀ name, (compile lib w p).log.countP (Event.Warns "two functions share a mangled name" name) =
        {path | (r.scope.function? path).isSome ∧ path.linkName = name}.ncard - 1) ∧
      (∀ name, (compile lib w p).log.countP (Event.Warns "two types share a mangled name" name) =
        {path | (r.scope.type? path).isSome ∧ path.linkName = name}.ncard - 1) ∧
      ((∀ e ∈ (compile lib w p).log, ∀ name, ¬e.Warns "two functions share a mangled name" name ∧
          ¬e.Warns "two types share a mangled name" name) ↔
        Set.InjOn Path.linkName {path | (r.scope.function? path).isSome} ∧
          Set.InjOn Path.linkName {path | (r.scope.type? path).isSome}) := by
  have hs : Scope.ofProgram lib p = .ok r.scope := (compile_eq_ok_iff_yields.1 h).1
  have hroster := Scope.nodup_roster hs
  have htypes := r.scope.types.nodup_paths
  refine ⟨?_, ?_, ?_⟩
  · intro name
    have hcount := count_map_linkName hroster name
    simp only [Scope.mem_roster_iff hs] at hcount
    rw [Event.countP_warns fun _ => Event.warns_functions_iff, ← Traced.count_warnings rfl,
      warnings_compile h, Module.count_functionCollision, map_name_compile h, hcount]
  · intro name
    have hcount := count_map_linkName htypes name
    simp only [Table.mem_paths_iff] at hcount
    rw [Event.countP_warns fun _ => Event.warns_types_iff, ← Traced.count_warnings rfl,
      warnings_compile h, Module.count_typeCollision, types_compile h, hcount]
    rfl
  · have hinj := nodup_map_linkName_iff hroster
    have hinj' := nodup_map_linkName_iff htypes
    simp only [Scope.mem_roster_iff hs] at hinj
    simp only [Table.mem_paths_iff] at hinj'
    rw [← quiet_compile_iff, warnings_compile h, Module.collisions_eq_nil_iff, map_name_compile h,
      types_compile h, hinj, hinj']
    rfl

end Compile

/-- A module with one function and one type. -/
def offering (module : Path) : Scope :=
  ((Scope.empty module).declareFunction (⟨"c", true, ⟨[], none⟩, []⟩ : Func Unit)).declareType
    ⟨"T", true⟩

/-- A program that sees three functions and three types, each under one link name. -/
def crowded : Program Unit :=
  ⟨.single "a",
    [.imports () (.single "a_b"), .imports () ((Path.single "a").child "b"),
     .function () ⟨"b_c", false, ⟨[], none⟩,
      [.effect () (.call () ((Path.single "a_b").child "c") [])]⟩,
     .type () ⟨"b_T", false⟩]⟩

def crowdedLibrary : Library :=
  (Library.empty.register (.single "a_b") (offering (.single "a_b"))).register
    ((Path.single "a").child "b") (offering ((Path.single "a").child "b"))

theorem compile_warns_crowded :
    ∃ r, (compile crowdedLibrary .w64 crowded).outcome = .ok r ∧
      (compile crowdedLibrary .w64 crowded).log.countP
        (Event.Warns "two functions share a mangled name" "a_b_c") = 2 ∧
      (∀ name, (compile crowdedLibrary .w64 crowded).log.countP
            (Event.Warns "two functions share a mangled name" name) =
          {path | (r.scope.function? path).isSome ∧ path.linkName = name}.ncard - 1) ∧
        (∀ name, (compile crowdedLibrary .w64 crowded).log.countP
            (Event.Warns "two types share a mangled name" name) =
          {path | (r.scope.type? path).isSome ∧ path.linkName = name}.ncard - 1) ∧
        ((∀ e ∈ (compile crowdedLibrary .w64 crowded).log, ∀ name,
            ¬e.Warns "two functions share a mangled name" name ∧
              ¬e.Warns "two types share a mangled name" name) ↔
          Set.InjOn Path.linkName {path | (r.scope.function? path).isSome} ∧
            Set.InjOn Path.linkName {path | (r.scope.type? path).isSome}) := by
  obtain ⟨r, hr⟩ := Outcome.exists_eq_ok
    (x := (compile crowdedLibrary .w64 crowded).outcome) (by decide +kernel)
  exact ⟨r, hr, by decide +kernel, compile_warns hr⟩

end BlockCompiler
