import BlockCompiler.Proofs.Nodes
import BlockCompiler.Proofs.Readable.Words
import BlockCompiler.Source.Render
import BlockCompiler.Source.Tags

/-!
# Expressions can be read back

The text of an expression tells the expression, whatever its tags. More than that, it can be told
where the text ends in a longer text, as long as no name, number or argument list could go on there.
-/

namespace BlockCompiler

open Text

variable {σ τ : Type}

namespace Expr

/-- The name or number in the node itself is written as such. -/
def isSpelled : Expr τ → Bool
  | bareCall _ name _ | var _ name => isName name
  | call _ path _ => decide (2 ≤ path.segments.length) && path.segments.all isName
  | lit _ (.int v) => decide (0 ≤ v)
  | lit .. | binary .. | neg .. | ascribed .. => true

/-- All names are names and all numbers are numbers. -/
def Readable (e : Expr τ) : Prop :=
  ∀ node ∈ e.nodes, node.isSpelled

instance (e : Expr τ) : Decidable e.Readable :=
  inferInstanceAs (Decidable (∀ node ∈ e.nodes, node.isSpelled = true))

/-- The text of an expression, as characters. -/
def chars (e : Expr τ) : List Char :=
  e.render.toList

/-- The text of an expression as an operand. -/
def operandChars (e : Expr τ) : List Char :=
  (e.operandText e.render).toList

/-- The text of arguments after the first, and of the end of the list. -/
def moreChars (args : List (Expr τ)) : List Char :=
  args.flatMap (fun arg => ',' :: ' ' :: arg.chars) ++ [')']

/-- The text of the arguments of a call. -/
def argChars : List (Expr τ) → List Char
  | [] => [')']
  | arg :: args => arg.chars ++ moreChars args

section Untagged

variable (t : τ)

private theorem untagged_binary (op : BinOp) (lhs rhs : Expr τ) :
    (binary t op lhs rhs).untagged = binary () op lhs.untagged rhs.untagged := rfl

private theorem untagged_neg (operand : Expr τ) :
    (neg t operand).untagged = neg () operand.untagged := rfl

private theorem untagged_ascribed (ty : Ty) (inner : Expr τ) :
    (ascribed t ty inner).untagged = ascribed () ty inner.untagged := rfl

end Untagged

section Chars

private theorem argChars_eq (args : List (Expr τ)) :
    argChars args = (", ".intercalate (renderAll args)).toList ++ [')'] := by
  rw [renderAll_eq_map]
  cases args with
  | nil => rfl
  | cons arg args =>
    rw [argChars]
    induction args generalizing arg with
    | nil => simp [moreChars, chars]
    | cons arg' args ih =>
      have hmore : moreChars (arg' :: args) = ',' :: ' ' :: (arg'.chars ++ moreChars args) := by
        simp [moreChars]
      rw [hmore, ih arg']
      simp [chars, String.intercalate_cons_cons]

variable (t : τ)

private theorem chars_bareCall (name : String) (args : List (Expr τ)) :
    (bareCall t name args).chars = name.toList ++ '(' :: argChars args := by
  simp [chars, render, argChars_eq]

private theorem chars_call (path : Path) (args : List (Expr τ)) :
    (call t path args).chars = dotted path.segments ++ '(' :: argChars args := by
  simp [chars, render, argChars_eq, Path.dotted, dotted]

theorem chars_binary (op : BinOp) (lhs rhs : Expr τ) :
    (binary t op lhs rhs).chars =
      lhs.operandChars ++ ' ' :: (op.symbol.toList ++ ' ' :: rhs.operandChars) := by
  simp [chars, render, operandChars]

private theorem chars_neg (operand : Expr τ) :
    (neg t operand).chars = '-' :: operand.operandChars := by
  simp [chars, render, operandChars]

private theorem chars_ascribed (ty : Ty) (inner : Expr τ) :
    (ascribed t ty inner).chars =
      '(' :: (inner.chars ++ ' ' :: ':' :: ':' :: ' ' :: (ty.render.toList ++ [')'])) := by
  simp [chars, render]

private theorem operandChars_binary (op : BinOp) (lhs rhs : Expr τ) :
    (binary t op lhs rhs).operandChars = '(' :: ((binary t op lhs rhs).chars ++ [')']) := by
  simp [operandChars, operandText, isBinary, chars]

theorem operandChars_of_isBinary_eq_false {e : Expr τ} (h : e.isBinary = false) :
    e.operandChars = e.chars := by
  simp [operandChars, operandText, h, chars]

end Chars

/-- What kind of operand begins with a character. -/
inductive Lead where
  | word
  | number
  | quote
  | minus
  | paren
  | other
deriving DecidableEq

def Lead.ofChar (c : Char) : Lead :=
  if isNameStart c then .word
  else if c.isDigit then .number
  else if c = '\x22' then .quote
  else if c = '-' then .minus
  else if c = '(' then .paren
  else .other

def lead : Expr τ → Lead
  | bareCall .. | call .. | var .. | lit _ (.bool _) => .word
  | lit _ (.int _) => .number
  | lit _ (.str _) => .quote
  | neg .. => .minus
  | binary .. | ascribed .. => .paren

/-- The path that a call, a variable or a truth value begins with, and the arguments of a call. -/
def word? : Expr τ → Option (List String × Option (List (Expr τ)))
  | bareCall _ name args => some ([name], some args)
  | call _ path args => some (path.segments, some args)
  | var _ name => some ([name], none)
  | lit _ (.bool v) => some ([if v then "true" else "false"], none)
  | _ => none

def callChars : Option (List (Expr τ)) → List Char
  | some args => '(' :: argChars args
  | none => []

theorem Readable.isSpelled {e : Expr τ} (h : e.Readable) : e.isSpelled :=
  h e e.mem_nodes_self

section Words

variable {e : Expr τ} {segments : List String} {args? : Option (List (Expr τ))}

theorem exists_word?_iff :
    (∃ segments args?, e.word? = some (segments, args?)) ↔ e.lead = .word := by
  cases e with
  | lit t v => cases v <;> simp [word?, lead]
  | _ => simp [word?, lead]

theorem chars_of_word? (h : e.word? = some (segments, args?)) :
    e.operandChars = dotted segments ++ callChars args? := by
  cases e with
  | bareCall t name args =>
    cases h
    rw [operandChars_of_isBinary_eq_false rfl, chars_bareCall, dotted_cons]
    simp [dottedTail, callChars]
  | call t path args =>
    cases h
    rw [operandChars_of_isBinary_eq_false rfl, chars_call]
    rfl
  | var t name =>
    cases h
    rw [operandChars_of_isBinary_eq_false rfl, dotted_cons]
    simp [chars, render, dottedTail, callChars]
  | lit t v =>
    cases v with
    | bool v =>
      cases h
      rw [operandChars_of_isBinary_eq_false rfl, dotted_cons]
      simp [chars, render, Literal.render, dottedTail, callChars]
    | int | str => cases h
  | binary | neg | ascribed => cases h

theorem forall_mem_word? (hs : e.isSpelled) (h : e.word? = some (segments, args?)) :
    segments ≠ [] ∧ ∀ s ∈ segments, isWord s ∧ s ∉ keywords := by
  have hname : ∀ s, isName s → isWord s ∧ s ∉ keywords := by
    intro s hs
    rw [isName_iff] at hs
    exact ⟨hs.1, fun hk => hs.2 (.tail _ (.tail _ hk))⟩
  cases e with
  | bareCall t name args | var t name =>
    cases h
    exact ⟨by simp, List.forall_mem_singleton.2 (hname name hs)⟩
  | call t path args =>
    cases h
    simp only [Expr.isSpelled, Bool.and_eq_true, List.all_eq_true] at hs
    exact ⟨path.segments_ne_nil, fun s hmem => hname s (hs.2 s hmem)⟩
  | lit t v =>
    cases v with
    | bool v =>
      cases h
      cases v <;> exact ⟨by simp, List.forall_mem_singleton.2 (by decide +kernel)⟩
    | int | str => cases h
  | binary | neg | ascribed => cases h

end Words

/-- The text of a number that is not negative. -/
private theorem chars_int (t : τ) (n : Nat) :
    (lit t (.int n)).operandChars = Nat.toDigits 10 n := by
  rw [operandChars_of_isBinary_eq_false rfl, chars, render, Literal.render]
  change (Nat.repr n).toList = _
  rw [Nat.repr_eq_ofList_toDigits, String.toList_ofList]

private theorem chars_str (t : τ) (v : String) :
    (lit t (.str v)).operandChars = (quoted v).toList := by
  rw [operandChars_of_isBinary_eq_false rfl, chars, render, Literal.render]

private theorem exists_eq_int {t : τ} {v : Int} (h : (lit t (.int v)).isSpelled) :
    ∃ n : Nat, v = n :=
  Int.eq_ofNat_of_zero_le (of_decide_eq_true h)

/-- The first character of an operand tells its kind. -/
theorem exists_operandChars {e : Expr τ} (h : e.isSpelled) :
    ∃ c cs, e.operandChars = c :: cs ∧ Lead.ofChar c = e.lead := by
  by_cases hword : e.lead = .word
  · obtain ⟨segments, args?, hw⟩ := exists_word?_iff.2 hword
    obtain ⟨hne, hsegments⟩ := forall_mem_word? h hw
    obtain ⟨s, segments, rfl⟩ := List.exists_cons_of_ne_nil hne
    obtain ⟨c, cs, hs, hc⟩ := exists_of_isWord (hsegments s (.head _)).1
    refine ⟨c, cs ++ (dottedTail segments ++ callChars args?), ?_, ?_⟩
    · rw [chars_of_word? hw, dotted_cons, hs]
      simp
    · rw [hword, Lead.ofChar, if_pos hc]
  · cases e with
    | bareCall | call | var => simp [lead] at hword
    | binary t op lhs rhs =>
      rw [operandChars_binary]
      exact ⟨_, _, rfl, rfl⟩
    | neg t operand =>
      rw [operandChars_of_isBinary_eq_false rfl, chars_neg]
      exact ⟨_, _, rfl, rfl⟩
    | ascribed t ty inner =>
      rw [operandChars_of_isBinary_eq_false rfl, chars_ascribed]
      exact ⟨_, _, rfl, rfl⟩
    | lit t v =>
      cases v with
      | bool => simp [lead] at hword
      | int v =>
        obtain ⟨n, rfl⟩ := exists_eq_int h
        obtain ⟨c, cs, hcs⟩ := List.exists_cons_of_ne_nil (Nat.toDigits_ne_nil (n := n) (b := 10))
        have hdigit : c.isDigit :=
          Nat.isDigit_of_mem_toDigits (b := 10) (n := n) (by decide) (by decide) (by simp [hcs])
        refine ⟨c, cs, by rw [chars_int, hcs], ?_⟩
        simp [Lead.ofChar, isNameStart_of_isDigit hdigit, hdigit, lead]
      | str v =>
        rw [chars_str, quoted]
        simp only [String.toList_ofList, List.cons_append]
        exact ⟨_, _, rfl, rfl⟩

/-- No operand goes on with the text: neither a name, a number or a path, nor a list of arguments. -/
def Stops (r : List Char) : Prop :=
  Halts (fun c => isPathPart c || c == '(') r

/-- The text goes on with no operator either. -/
structure Ends (r : List Char) : Prop where
  stops : Stops r
  noOperator : ∀ c rest, r = ' ' :: c :: rest → c = ':'

/-- Wherever the text of the expression stands, it tells the expression and where its text ends. -/
structure Unambiguous (τ : Type) (e : Expr σ) : Prop where
  operand : ∀ {e' : Expr τ} {r r' : List Char}, e'.Readable → Stops r → Stops r' →
    e.operandChars ++ r = e'.operandChars ++ r' → e.untagged = e'.untagged ∧ r = r'
  whole : ∀ {e' : Expr τ} {r r' : List Char}, e'.Readable → Ends r → Ends r' →
    e.chars ++ r = e'.chars ++ r' → e.untagged = e'.untagged ∧ r = r'

private theorem Ends.of_cons {c : Char} {r : List Char} (hc : (isPathPart c || c == '(') = false)
    (hblank : c ≠ ' ') : Ends (c :: r) where
  stops := halts_cons hc
  noOperator _ _ h := absurd (List.cons.inj h).1 hblank

private theorem ends_paren (r : List Char) : Ends (')' :: r) :=
  .of_cons (by decide) (by decide)

theorem ends_colon (r : List Char) : Ends (':' :: r) :=
  .of_cons (by decide) (by decide)

theorem ends_newline (r : List Char) : Ends ('\n' :: r) :=
  .of_cons (by decide) (by decide)

private theorem ends_ascription (r : List Char) : Ends (' ' :: ':' :: r) where
  stops := halts_cons (by decide)
  noOperator c rest h := by
    cases h
    rfl

theorem halts_callChars (args? : Option (List (Expr τ))) {r : List Char} (hr : Stops r) :
    Halts isPathPart (callChars args? ++ r) := by
  cases args? with
  | none => exact hr.imp fun c hc => by simp [hc]
  | some args => exact halts_cons (by decide)

/-- An operator is no end. -/
private theorem not_ends_operator (op : BinOp) (r : List Char) :
    ¬Ends (' ' :: (op.symbol.toList ++ ' ' :: r)) := by
  intro h
  rcases op with op | op <;> cases op <;> exact absurd (h.noOperator _ _ rfl) (by decide)

theorem stops_operator (op : BinOp) (r : List Char) :
    Stops (' ' :: (op.symbol.toList ++ ' ' :: r)) :=
  halts_cons (by decide)

private theorem symbol_inj {op op' : BinOp} {r r' : List Char}
    (h : op.symbol.toList ++ ' ' :: r = op'.symbol.toList ++ ' ' :: r') : op = op' ∧ r = r' := by
  have hblank : ∀ op : BinOp, ∀ c ∈ op.symbol.toList, (c != ' ') = true := by
    intro op
    rw [← List.all_eq_true]
    rcases op with op | op <;> cases op <;> rfl
  have hinj : ∀ op op' : BinOp, op.symbol = op'.symbol → op = op' := by
    rintro (op | op) (op' | op') <;> cases op <;> cases op' <;>
      simp [BinOp.symbol, ArithOp.symbol, CompareOp.symbol]
  obtain ⟨hs, hr⟩ := append_inj_of_halts (hblank op) (hblank op') (halts_cons rfl) (halts_cons rfl) h
  exact ⟨hinj op op' (String.toList_inj.1 hs), (List.cons.inj hr).2⟩

private theorem tyRender_inj {ty ty' : Ty} {r r' : List Char}
    (h : ty.render.toList ++ ')' :: r = ty'.render.toList ++ ')' :: r') : ty = ty' ∧ r = r' := by
  have hparen : ∀ ty : Ty, ∀ c ∈ ty.render.toList, (c != ')') = true := by
    intro ty
    rw [← List.all_eq_true]
    cases ty <;> rfl
  have hinj : ∀ ty ty' : Ty, ty.render = ty'.render → ty = ty' := by
    intro ty ty'
    cases ty <;> cases ty' <;> simp [Ty.render]
  obtain ⟨hs, hr⟩ := append_inj_of_halts (hparen ty) (hparen ty') (halts_cons rfl) (halts_cons rfl) h
  exact ⟨hinj ty ty' (String.toList_inj.1 hs), (List.cons.inj hr).2⟩

section Readable

variable {t : τ} {e lhs rhs : Expr τ} {op : BinOp}

theorem Readable.left (h : (binary t op lhs rhs).Readable) : lhs.Readable :=
  fun node hmem => h node (by simp [nodes, hmem])

private theorem Readable.right (h : (binary t op lhs rhs).Readable) : rhs.Readable :=
  fun node hmem => h node (by simp [nodes, hmem])

private theorem Readable.negated (h : (neg t e).Readable) : e.Readable :=
  fun node hmem => h node (by simp [nodes, hmem])

private theorem Readable.inner {ty : Ty} (h : (ascribed t ty e).Readable) : e.Readable :=
  fun node hmem => h node (by simp [nodes, hmem])

private theorem Readable.args {args : List (Expr τ)} {segments : List String}
    (hw : e.word? = some (segments, some args)) (h : e.Readable) : ∀ arg ∈ args, arg.Readable := by
  intro arg harg node hnode
  have hall := nodes_subset_all (mem_nodesAll harg) hnode
  cases e with
  | bareCall | call =>
    cases hw
    exact h node (by simp [nodes, hall])
  | lit t v => cases v <;> cases hw
  | binary | neg | ascribed | var => cases hw

/-- No expression begins with a character that begins no operand. -/
theorem Readable.exists_chars (h : e.Readable) :
    ∃ c cs, e.chars = c :: cs ∧ Lead.ofChar c ≠ .other := by
  have hoperand : ∀ {e : Expr τ}, e.isSpelled →
      ∃ c cs, e.operandChars = c :: cs ∧ Lead.ofChar c ≠ .other := by
    intro e he
    obtain ⟨c, cs, hcs, hlead⟩ := exists_operandChars he
    refine ⟨c, cs, hcs, ?_⟩
    rw [hlead]
    cases e with
    | lit t v => cases v <;> simp [lead]
    | _ => simp [lead]
  cases hb : e.isBinary with
  | false =>
    rw [← operandChars_of_isBinary_eq_false hb]
    exact hoperand h.isSpelled
  | true =>
    cases e with
    | binary t op lhs rhs =>
      obtain ⟨c, cs, hcs, hlead⟩ := hoperand h.left.isSpelled
      rw [chars_binary, hcs]
      exact ⟨c, _, rfl, hlead⟩
    | _ => cases hb

end Readable

private theorem lead_eq {e : Expr σ} {e' : Expr τ} {r r' : List Char} (h : e.isSpelled)
    (h' : e'.isSpelled) (heq : e.operandChars ++ r = e'.operandChars ++ r') : e.lead = e'.lead := by
  obtain ⟨c, cs, hcs, hlead⟩ := exists_operandChars h
  obtain ⟨c', cs', hcs', hlead'⟩ := exists_operandChars h'
  rw [hcs, hcs', List.cons_append, List.cons_append, List.cons.injEq] at heq
  rw [← hlead, ← hlead', heq.1]

section Args

variable {args : List (Expr σ)} {args' : List (Expr τ)} {r r' : List Char}

private theorem ends_moreChars (args : List (Expr τ)) (r : List Char) :
    Ends (moreChars args ++ r) := by
  cases args with
  | nil => exact ends_paren _
  | cons arg args => exact .of_cons (by decide) (by decide)

private theorem moreChars_inj (h : ∀ arg ∈ args, arg.Unambiguous τ)
    (h' : ∀ arg ∈ args', arg.Readable) (heq : moreChars args ++ r = moreChars args' ++ r') :
    args.map untagged = args'.map untagged ∧ r = r' := by
  induction args generalizing args' with
  | nil =>
    cases args' with
    | nil => simpa [moreChars] using heq
    | cons arg' args' => simp [moreChars] at heq
  | cons arg args ih =>
    cases args' with
    | nil => simp [moreChars] at heq
    | cons arg' args' =>
      rw [List.forall_mem_cons] at h h'
      have hmore : arg.chars ++ (moreChars args ++ r) = arg'.chars ++ (moreChars args' ++ r') := by
        simpa [moreChars] using heq
      obtain ⟨harg, hmore⟩ := h.1.whole h'.1 (ends_moreChars _ _) (ends_moreChars _ _) hmore
      obtain ⟨hargs, hr⟩ := ih h.2 h'.2 hmore
      exact ⟨by simp [harg, hargs], hr⟩

private theorem argChars_inj (h : ∀ arg ∈ args, arg.Unambiguous τ)
    (hread : ∀ arg ∈ args, arg.Readable) (h' : ∀ arg ∈ args', arg.Readable)
    (heq : argChars args ++ r = argChars args' ++ r') :
    args.map untagged = args'.map untagged ∧ r = r' := by
  -- an argument does not begin with the parenthesis that closes an empty list
  have hparen : ∀ {ρ : Type} {arg : Expr ρ} {l l' : List Char}, arg.Readable →
      arg.chars ++ l ≠ ')' :: l' := by
    intro ρ arg l l' harg hl
    obtain ⟨c, cs, hcs, hlead⟩ := harg.exists_chars
    rw [hcs, List.cons_append, List.cons.injEq] at hl
    rw [hl.1] at hlead
    exact hlead rfl
  cases args with
  | nil =>
    cases args' with
    | nil => simpa [argChars] using heq
    | cons arg' args' =>
      rw [argChars, argChars, List.append_assoc] at heq
      exact absurd heq.symm (hparen (h' arg' (.head _)))
  | cons arg args =>
    cases args' with
    | nil =>
      rw [argChars, argChars, List.append_assoc] at heq
      exact absurd heq (hparen (hread arg (.head _)))
    | cons arg' args' => exact moreChars_inj h h' (by simpa [moreChars, argChars] using heq)

end Args

/-- The expression with a path and, if it is a call, arguments. -/
def ofWord? : List String → Option (List (Expr Unit)) → Option (Expr Unit)
  | [s], none =>
    some <| if s = "true" then lit () (.bool true)
      else if s = "false" then lit () (.bool false) else var () s
  | [name], some args => some (bareCall () name args)
  | s :: s' :: segments, some args => some (call () ⟨s :: s' :: segments, by simp⟩ args)
  | _, _ => none

/-- What begins with a word is told by its path and its arguments. -/
private theorem ofWord?_word? {e : Expr τ} {segments : List String} {args? : Option (List (Expr τ))}
    (h : e.isSpelled) (hw : e.word? = some (segments, args?)) :
    ofWord? segments (args?.map (·.map untagged)) = some e.untagged := by
  cases e with
  | bareCall t name args =>
    cases hw
    simp [ofWord?, untagged]
  | call t path args =>
    cases hw
    simp only [Expr.isSpelled, Bool.and_eq_true, decide_eq_true_eq] at h
    obtain ⟨_ | ⟨s, _ | ⟨s', segments⟩⟩, hne⟩ := path
    · simp at hne
    · simp at h
    · simp [ofWord?, untagged]
  | var t name =>
    cases hw
    have hname := (isName_iff.1 h).2
    have htrue : name ≠ "true" := fun hn => hname (hn ▸ .head _)
    have hfalse : name ≠ "false" := fun hn => hname (hn ▸ .tail _ (.head _))
    simp [ofWord?, untagged, htrue, hfalse]
  | lit t v =>
    cases v with
    | bool v =>
      cases hw
      cases v <;> rfl
    | int | str => cases hw
  | binary | neg | ascribed => cases hw

/-- An expression that begins with a word, given its arguments. -/
private theorem operand_of_word? {e : Expr σ} {segments : List String}
    {args? : Option (List (Expr σ))} (h : e.Readable) (hw : e.word? = some (segments, args?))
    (hargs : ∀ args, args? = some args → ∀ arg ∈ args, arg.Unambiguous τ) {e' : Expr τ}
    {r r' : List Char} (h' : e'.Readable) (hr : Stops r) (hr' : Stops r')
    (heq : e.operandChars ++ r = e'.operandChars ++ r') : e.untagged = e'.untagged ∧ r = r' := by
  have hlead := lead_eq h.isSpelled h'.isSpelled heq
  rw [exists_word?_iff.1 ⟨segments, args?, hw⟩] at hlead
  obtain ⟨segments', args?', hw'⟩ := exists_word?_iff.2 hlead.symm
  obtain ⟨hne, hwords⟩ := forall_mem_word? h.isSpelled hw
  obtain ⟨hne', hwords'⟩ := forall_mem_word? h'.isSpelled hw'
  rw [chars_of_word? hw, chars_of_word? hw', List.append_assoc, List.append_assoc] at heq
  obtain ⟨rfl, hrest⟩ := dotted_append_inj (fun s hs => (hwords s hs).1)
    (fun s hs => (hwords' s hs).1) hne hne' (halts_callChars args? hr) (halts_callChars args?' hr') heq
  cases args? with
  | none =>
    cases args?' with
    | none =>
      have hread := ofWord?_word? h.isSpelled hw
      have hread' := ofWord?_word? h'.isSpelled hw'
      exact ⟨Option.some.inj (hread.symm.trans hread'), hrest⟩
    | some args' =>
      have hstop := hr '(' (by rw [show r = _ from hrest]; rfl)
      cases hstop
  | some args =>
    cases args?' with
    | none =>
      have hstop := hr' '(' (by rw [show r' = _ from hrest.symm]; rfl)
      cases hstop
    | some args' =>
      simp only [callChars, List.cons_append, List.cons.injEq, true_and] at hrest
      obtain ⟨hargs, hr⟩ := argChars_inj (hargs args rfl) (h.args hw) (h'.args hw') hrest
      have hread := ofWord?_word? h.isSpelled hw
      have hread' := ofWord?_word? h'.isSpelled hw'
      rw [Option.map_some, hargs] at hread
      exact ⟨Option.some.inj (hread.symm.trans hread'), hr⟩

namespace Unambiguous

/-- What is no operator is written as an operand is. -/
private theorem of_operand {e : Expr σ} (hb : e.isBinary = false)
    (h : ∀ {e' : Expr τ} {r r' : List Char}, e'.Readable → Stops r → Stops r' →
      e.operandChars ++ r = e'.operandChars ++ r' → e.untagged = e'.untagged ∧ r = r') :
    e.Unambiguous τ where
  operand := h
  whole {e' r r'} h' hr hr' heq := by
    rw [← operandChars_of_isBinary_eq_false hb] at heq
    cases hb' : e'.isBinary with
    | false =>
      rw [← operandChars_of_isBinary_eq_false hb'] at heq
      exact h h' hr.stops hr'.stops heq
    | true =>
      -- the text would be the left operand of `e'`, and go on with an operator
      cases e' with
      | binary t' op' lhs' rhs' =>
        simp only [chars_binary, List.cons_append, List.append_assoc] at heq
        obtain ⟨-, rfl⟩ := h h'.left hr.stops (stops_operator op' _) heq
        exact absurd hr (not_ends_operator op' _)
      | _ => cases hb'

private theorem whole_binary {t : σ} {op : BinOp} {lhs rhs : Expr σ} (hl : lhs.Unambiguous τ)
    (hr : rhs.Unambiguous τ) {e' : Expr τ} {r r' : List Char} (h' : e'.Readable) (hend : Ends r)
    (hend' : Ends r') (heq : (binary t op lhs rhs).chars ++ r = e'.chars ++ r') :
    (binary t op lhs rhs).untagged = e'.untagged ∧ r = r' := by
  simp only [chars_binary, List.append_assoc, List.cons_append] at heq
  cases hb' : e'.isBinary with
  | false =>
    rw [← operandChars_of_isBinary_eq_false hb'] at heq
    obtain ⟨-, rfl⟩ := hl.operand h' (stops_operator op _) hend'.stops heq
    exact absurd hend' (not_ends_operator op _)
  | true =>
    cases e' with
    | binary t' op' lhs' rhs' =>
      simp only [chars_binary, List.append_assoc, List.cons_append] at heq
      obtain ⟨hlhs, hrest⟩ := hl.operand h'.left (stops_operator op _) (stops_operator op' _) heq
      obtain ⟨rfl, hoperand⟩ := symbol_inj (List.cons.inj hrest).2
      obtain ⟨hrhs, hr⟩ := hr.operand h'.right hend.stops hend'.stops hoperand
      exact ⟨by rw [untagged_binary, untagged_binary, hlhs, hrhs], hr⟩
    | _ => cases hb'

/-- In parentheses stands an operator or an ascription, and the end of the inner text tells which. -/
private theorem operand_paren {x : Expr σ} {m : List Char}
    (hx : ∀ {e' : Expr τ} {r' : List Char}, e'.Readable → Ends r' → x.chars ++ m = e'.chars ++ r' →
      x.untagged = e'.untagged ∧ m = r') {e' : Expr τ} {r' : List Char} (h' : e'.Readable)
    (hlead : e'.lead = .paren) (heq : '(' :: (x.chars ++ m) = e'.operandChars ++ r') :
    (x.untagged = e'.untagged ∧ m = ')' :: r') ∨
      ∃ t' ty' inner', e' = ascribed t' ty' inner' ∧ x.untagged = inner'.untagged ∧
        m = ' ' :: ':' :: ':' :: ' ' :: (ty'.render.toList ++ ')' :: r') := by
  cases e' with
  | binary t' op' lhs' rhs' =>
    simp only [operandChars_binary, List.cons_append, List.append_assoc, List.cons.injEq, true_and]
      at heq
    exact .inl (hx h' (ends_paren _) heq)
  | ascribed t' ty' inner' =>
    rw [operandChars_of_isBinary_eq_false rfl] at heq
    simp only [chars_ascribed, List.cons_append, List.append_assoc, List.cons.injEq, true_and] at heq
    obtain ⟨hinner, hm⟩ := hx h'.inner (ends_ascription _) heq
    exact .inr ⟨t', ty', inner', rfl, hinner, hm⟩
  | lit t' v' => cases v' <;> cases hlead
  | bareCall | call | var | neg => cases hlead

private theorem binary {t : σ} {op : BinOp} {lhs rhs : Expr σ}
    (h : (Expr.binary t op lhs rhs).Readable) (hl : lhs.Unambiguous τ) (hr : rhs.Unambiguous τ) :
    (Expr.binary t op lhs rhs).Unambiguous τ where
  whole := whole_binary hl hr
  operand {e' r r'} h' _ _ heq := by
    have hlead := lead_eq h.isSpelled h'.isSpelled heq
    simp only [operandChars_binary, List.cons_append, List.append_assoc] at heq
    rcases operand_paren (fun hread => whole_binary hl hr hread (ends_paren _)) h' hlead.symm heq
      with ⟨he, hm⟩ | ⟨_, _, _, rfl, _, hm⟩
    · exact ⟨he, (List.cons.inj hm).2⟩
    · exact absurd (List.cons.inj hm).1 (by decide)

private theorem ascribed {t : σ} {ty : Ty} {inner : Expr σ}
    (h : (Expr.ascribed t ty inner).Readable) (hi : inner.Unambiguous τ) :
    (Expr.ascribed t ty inner).Unambiguous τ := by
  apply of_operand rfl
  intro e' r r' h' _ _ heq
  have hlead := lead_eq h.isSpelled h'.isSpelled heq
  rw [operandChars_of_isBinary_eq_false rfl] at heq
  simp only [chars_ascribed, List.cons_append, List.append_assoc] at heq
  rcases operand_paren (fun hread => hi.whole hread (ends_ascription _)) h' hlead.symm heq with
    ⟨_, hm⟩ | ⟨t', ty', inner', rfl, hinner, hm⟩
  · exact absurd (List.cons.inj hm).1 (by decide)
  · simp only [List.cons.injEq, true_and] at hm
    obtain ⟨rfl, hr⟩ := tyRender_inj hm
    exact ⟨by rw [untagged_ascribed, untagged_ascribed, hinner], hr⟩

private theorem neg {t : σ} {operand : Expr σ} (h : (Expr.neg t operand).Readable)
    (ho : operand.Unambiguous τ) : (Expr.neg t operand).Unambiguous τ := by
  apply of_operand rfl
  intro e' r r' h' hr hr' heq
  have hlead := lead_eq h.isSpelled h'.isSpelled heq
  cases e' with
  | neg t' operand' =>
    rw [operandChars_of_isBinary_eq_false rfl, operandChars_of_isBinary_eq_false rfl, chars_neg,
      chars_neg, List.cons_append, List.cons_append, List.cons.injEq] at heq
    obtain ⟨hoperand, hrest⟩ := ho.operand h'.negated hr hr' heq.2
    exact ⟨by rw [untagged_neg, untagged_neg, hoperand], hrest⟩
  | lit t' v' => cases v' <;> cases hlead
  | bareCall | call | var | binary | ascribed => cases hlead

private theorem int {t : σ} {v : Int} (h : (lit t (.int v)).Readable) :
    (lit t (.int v)).Unambiguous τ := by
  apply of_operand rfl
  intro e' r r' h' hr hr' heq
  have hlead := lead_eq h.isSpelled h'.isSpelled heq
  cases e' with
  | lit t' v' =>
    cases v' with
    | int v' =>
      obtain ⟨n, rfl⟩ := exists_eq_int h.isSpelled
      obtain ⟨n', rfl⟩ := exists_eq_int h'.isSpelled
      rw [chars_int, chars_int] at heq
      have hdigits : ∀ n, ∀ c ∈ Nat.toDigits 10 n, c.isDigit :=
        fun n c hc => Nat.isDigit_of_mem_toDigits (by decide) (by decide) hc
      have hhalts : ∀ {r : List Char}, Stops r → Halts Char.isDigit r :=
        fun hr => hr.imp fun c hc => by simp [isPathPart, isNamePart, hc]
      obtain ⟨hd, hrest⟩ := append_inj_of_halts (hdigits n) (hdigits n') (hhalts hr) (hhalts hr') heq
      have hn : n = n' := by
        simpa [Nat.ofDigitChars_ten_toDigits] using congrArg (Nat.ofDigitChars 10 · 0) hd
      rw [hn]
      exact ⟨rfl, hrest⟩
    | bool | str => cases hlead
  | bareCall | call | var | neg | binary | ascribed => cases hlead

private theorem str {t : σ} {v : String} (h : (lit t (.str v)).Readable) :
    (lit t (.str v)).Unambiguous τ := by
  apply of_operand rfl
  intro e' r r' h' hr hr' heq
  have hlead := lead_eq h.isSpelled h'.isSpelled heq
  cases e' with
  | lit t' v' =>
    cases v' with
    | str v' =>
      rw [chars_str, chars_str] at heq
      obtain ⟨rfl, hrest⟩ := quoted_inj heq
      exact ⟨rfl, hrest⟩
    | bool | int => cases hlead
  | bareCall | call | var | neg | binary | ascribed => cases hlead

/-- An expression that begins with a word, given its arguments. -/
private theorem word {e : Expr σ} {segments : List String} {args? : Option (List (Expr σ))}
    (h : e.Readable) (hw : e.word? = some (segments, args?))
    (hargs : ∀ args, args? = some args → ∀ arg ∈ args, arg.Unambiguous τ) : e.Unambiguous τ := by
  have hb : e.isBinary = false := by
    cases e <;> first | rfl | cases hw
  exact of_operand hb (operand_of_word? h hw hargs)

end Unambiguous

mutual

/-- By induction on the one expression; the other one is told by its first character to be of the same
kind, and its parts by what follows them. -/
theorem unambiguous : ∀ e : Expr σ, e.Readable → e.Unambiguous τ
  | bareCall _ _ args, h | call _ _ args, h => .word h rfl fun _ hargs => by
    cases hargs
    exact unambiguousAll args (h.args rfl)
  | binary _ _ lhs rhs, h => .binary h (unambiguous lhs h.left) (unambiguous rhs h.right)
  | neg _ operand, h => .neg h (unambiguous operand h.negated)
  | ascribed _ _ inner, h => .ascribed h (unambiguous inner h.inner)
  | lit _ (.bool _), h | var .., h => .word h rfl nofun
  | lit _ (.int _), h => .int h
  | lit _ (.str _), h => .str h

private theorem unambiguousAll :
    ∀ es : List (Expr σ), (∀ e ∈ es, e.Readable) → ∀ e ∈ es, e.Unambiguous τ
  | [], _ => nofun
  | e :: es, h => by
    rw [List.forall_mem_cons] at h ⊢
    exact ⟨unambiguous e h.1, unambiguousAll es h.2⟩

end

/-- Two expressions before the same mark are told by the text up to it. -/
theorem Readable.append_cons_inj {e : Expr σ} {e' : Expr τ} (h : e.Readable) (h' : e'.Readable)
    {c : Char} (hc : ∀ r, Ends (c :: r)) {r r' : List Char}
    (heq : e.chars ++ c :: r = e'.chars ++ c :: r') : e.untagged = e'.untagged ∧ r = r' := by
  obtain ⟨he, hrest⟩ := (unambiguous e h).whole h' (hc r) (hc r') heq
  exact ⟨he, (List.cons.inj hrest).2⟩

end Expr

end BlockCompiler
