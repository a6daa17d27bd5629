import BlockCompiler.Proofs.Readable.Operands
import BlockCompiler.Proofs.Registers

/-!
# Target code can be read back

The text of a function tells the function. A line tells its instruction by the register in front, if
there is one, and the word that follows. The last line of a block is a terminator, and no instruction
begins like one.
-/

namespace BlockCompiler

open Text

namespace Target

variable {r r' : List Char}

/-- The word for what an instruction does. -/
inductive Opcode where
  | arith (op : ArithOp)
  | compare
  | neg
  | call
  | alloca
  | store
  | bitcast
  | intToPtr
  | ptrToInt

namespace Opcode

def text : Opcode → String
  | arith op => op.mnemonic
  | compare => "icmp"
  | neg => "neg"
  | call => "call"
  | alloca => "alloca"
  | store => "store"
  | bitcast => "bitcast"
  | intToPtr => "inttoptr"
  | ptrToInt => "ptrtoint"

def ofText? : String → Option Opcode
  | "add" => some (arith .add)
  | "sub" => some (arith .sub)
  | "mul" => some (arith .mul)
  | "sdiv" => some (arith .div)
  | "srem" => some (arith .rem)
  | "icmp" => some compare
  | "neg" => some neg
  | "call" => some call
  | "alloca" => some alloca
  | "store" => some store
  | "bitcast" => some bitcast
  | "inttoptr" => some intToPtr
  | "ptrtoint" => some ptrToInt
  | _ => none

private theorem ofText?_text (o : Opcode) : ofText? o.text = some o := by
  cases o with
  | arith op => cases op <;> rfl
  | _ => rfl

private theorem isLower_of_mem_text (o : Opcode) : ∀ c ∈ o.text.toList, c.isLower := by
  rw [← List.all_eq_true]
  cases o with
  | arith op => cases op <;> rfl
  | _ => rfl

/-- An opcode ends at the blank after it. -/
private theorem text_inj {o o' : Opcode}
    (heq : o.text.toList ++ (" ".toList ++ r) = o'.text.toList ++ (" ".toList ++ r')) :
    o = o' ∧ r = r' := by
  have hhalts (l : List Char) : Halts Char.isLower (" ".toList ++ l) := halts_cons (by decide)
  obtain ⟨ho, hr⟩ := append_inj_of_halts o.isLower_of_mem_text o'.isLower_of_mem_text (hhalts r)
    (hhalts r') heq
  have hread := congrArg ofText? (String.toList_inj.1 ho)
  rw [ofText?_text, ofText?_text] at hread
  exact ⟨Option.some.inj hread, List.append_cancel_left hr⟩

end Opcode

private theorem told_compareOp : Told CompareOp.mnemonic := by
  intro op op' r r' _ _ heq
  cases op <;> cases op' <;> simp [CompareOp.mnemonic] at heq <;> exact ⟨rfl, heq⟩

namespace Instr

def opcode : Instr → Opcode
  | arith _ op _ _ => .arith op
  | compare .. => .compare
  | neg .. => .neg
  | call .. => .call
  | alloca .. => .alloca
  | store .. => .store
  | bitcast .. => .bitcast
  | intToPtr .. => .intToPtr
  | ptrToInt .. => .ptrToInt

/-- The text after the opcode. -/
def tail : Instr → String
  | arith _ _ lhs rhs => lhs.render ++ ", " ++ rhs.render
  | compare _ op lhs rhs => op.mnemonic ++ " " ++ lhs.render ++ ", " ++ rhs.render
  | neg _ operand => operand.render
  | call _ callee args => "@" ++ callee ++ "(" ++ ", ".intercalate (args.map Operand.render) ++ ")"
  | alloca _ length => "[" ++ toString length ++ " x i8]"
  | store ptr data => "c\"" ++ bytesText data ++ "\", " ++ ptr.render
  | bitcast _ value => value.render ++ " to ptr"
  | intToPtr _ value => value.render ++ " to ptr"
  | ptrToInt _ value ty => value.render ++ " to " ++ ty.render

/-- The text before the opcode. -/
def destText : Option Reg → String
  | some dest => dest.render ++ " = "
  | none => ""

private theorem toList_render (i : Instr) : i.render.toList =
    (destText i.dest?).toList ++ (i.opcode.text.toList ++ (" ".toList ++ i.tail.toList)) := by
  cases i with
  | call dest? callee args =>
    cases dest? <;> simp [render, Reg.assign, destText, Instr.dest?, opcode, Opcode.text, tail]
  | _ => simp [render, Reg.assign, destText, Instr.dest?, opcode, Opcode.text, tail]

/-- The register in front is there or the opcode begins the line, which is no register. -/
private theorem destText_inj {d d' : Option Reg} {o o' : Opcode}
    (heq : (destText d).toList ++ (o.text.toList ++ r) =
      (destText d').toList ++ (o'.text.toList ++ r')) :
    d = d' ∧ o.text.toList ++ r = o'.text.toList ++ r' := by
  have hreg (dest : Reg) (o : Opcode) (l l' : List Char) :
      (destText (some dest)).toList ++ l ≠ o.text.toList ++ l' := by
    have hpercent : (destText (some dest)).toList = '%' :: (toString dest.index ++ " = ").toList := by
      simp [destText, Reg.render]
    rw [hpercent]
    cases o with
    | arith op => cases op <;> simp [Opcode.text, ArithOp.mnemonic]
    | _ => simp [Opcode.text]
  cases d with
  | none =>
    cases d' with
    | none => exact ⟨rfl, heq⟩
    | some dest' => exact absurd heq.symm (hreg dest' o _ _)
  | some dest =>
    cases d' with
    | none => exact absurd heq (hreg dest o' _ _)
    | some dest' =>
      rw [destText, destText, String.toList_append, String.toList_append, List.append_assoc,
        List.append_assoc] at heq
      obtain ⟨rfl, hrest⟩ := told_reg.before (by decide) heq
      exact ⟨rfl, hrest⟩

def callee? : Instr → Option String
  | call _ callee _ => some callee
  | _ => none

/-- The name of the function that is called, if there is one, ends where its arguments begin. -/
def Legible (i : Instr) : Prop :=
  ∀ callee ∈ i.callee?, '(' ∉ callee.toList

instance (i : Instr) : Decidable i.Legible :=
  inferInstanceAs (Decidable (∀ callee ∈ i.callee?, '(' ∉ callee.toList))

/-- Where opcodes are the same, what follows is of one form, and its parts are told from the left. -/
private theorem tail_inj {i i' : Instr} (h : i.Legible) (h' : i'.Legible)
    (hdest : i.dest? = i'.dest?) (hop : i.opcode = i'.opcode)
    (heq : i.tail.toList ++ ("\n".toList ++ r) = i'.tail.toList ++ ("\n".toList ++ r')) :
    i = i' ∧ r = r' := by
  cases i with
  | arith dest op lhs rhs =>
    cases i' with
    | arith dest' op' lhs' rhs' =>
      cases hop
      cases hdest
      simp only [tail, String.toList_append, List.append_assoc] at heq
      obtain ⟨rfl, hrest⟩ := told_operand.before (by decide) heq
      obtain ⟨rfl, hmore⟩ := told_operand.before (by decide) hrest
      exact ⟨rfl, hmore⟩
    | _ => cases hop
  | compare dest op lhs rhs =>
    cases i' with
    | compare dest' op' lhs' rhs' =>
      cases hdest
      simp only [tail, String.toList_append, List.append_assoc] at heq
      obtain ⟨rfl, hrest⟩ := told_compareOp.before (by decide) heq
      obtain ⟨rfl, hmore⟩ := told_operand.before (by decide) hrest
      obtain ⟨rfl, hend⟩ := told_operand.before (by decide) hmore
      exact ⟨rfl, hend⟩
    | _ => cases hop
  | neg dest operand =>
    cases i' with
    | neg dest' operand' =>
      cases hdest
      obtain ⟨rfl, hrest⟩ := told_operand.before (by decide) heq
      exact ⟨rfl, hrest⟩
    | _ => cases hop
  | call dest? callee args =>
    cases i' with
    | call dest?' callee' args' =>
      cases hdest
      simp only [tail, String.toList_append, List.append_assoc, List.append_cancel_left_eq] at heq
      obtain ⟨rfl, hrest⟩ := append_cons_inj_of_notMem (h callee rfl) (h' callee' rfl) heq
      obtain ⟨rfl, hmore⟩ := told_operand.list (fun x => x.render_ne_cons (by decide)) hrest
      exact ⟨rfl, List.append_cancel_left hmore⟩
    | _ => cases hop
  | alloca dest length =>
    cases i' with
    | alloca dest' length' =>
      cases hdest
      simp only [tail, String.toList_append, List.append_assoc, List.append_cancel_left_eq] at heq
      obtain ⟨rfl, hrest⟩ := told_nat.before (by decide) heq
      exact ⟨rfl, List.append_cancel_left hrest⟩
    | _ => cases hop
  | store ptr data =>
    cases i' with
    | store ptr' data' =>
      simp only [tail, String.toList_append, List.append_assoc, List.append_cancel_left_eq] at heq
      obtain ⟨rfl, hrest⟩ := bytesText_inj heq
      obtain ⟨rfl, hmore⟩ := told_reg.before (by decide) (List.append_cancel_left hrest)
      exact ⟨rfl, hmore⟩
    | _ => cases hop
  | bitcast dest value =>
    cases i' with
    | bitcast dest' value' =>
      cases hdest
      simp only [tail, String.toList_append, List.append_assoc] at heq
      obtain ⟨rfl, hrest⟩ := told_reg.before (by decide) heq
      exact ⟨rfl, List.append_cancel_left hrest⟩
    | _ => cases hop
  | intToPtr dest value =>
    cases i' with
    | intToPtr dest' value' =>
      cases hdest
      simp only [tail, String.toList_append, List.append_assoc] at heq
      obtain ⟨rfl, hrest⟩ := told_operand.before (by decide) heq
      exact ⟨rfl, List.append_cancel_left hrest⟩
    | _ => cases hop
  | ptrToInt dest value ty =>
    cases i' with
    | ptrToInt dest' value' ty' =>
      cases hdest
      simp only [tail, String.toList_append, List.append_assoc] at heq
      obtain ⟨rfl, hrest⟩ := told_operand.before (by decide) heq
      obtain ⟨rfl, hmore⟩ := told_ty.before (by decide) hrest
      exact ⟨rfl, hmore⟩
    | _ => cases hop

/-- The line of an instruction tells the instruction. -/
private theorem render_inj {i i' : Instr} (h : i.Legible) (h' : i'.Legible)
    (heq : i.render.toList ++ ("\n".toList ++ r) = i'.render.toList ++ ("\n".toList ++ r')) :
    i = i' ∧ r = r' := by
  rw [toList_render, toList_render] at heq
  simp only [List.append_assoc] at heq
  obtain ⟨hdest, hline⟩ := destText_inj heq
  obtain ⟨hop, htail⟩ := Opcode.text_inj hline
  exact tail_inj h h' hdest hop htail

private theorem head?_render (i : Instr) :
    ∃ c ∈ ['%', 'c', 's'], i.render.toList.head? = some c := by
  cases hdest : i.dest? with
  | some dest => exact ⟨'%', by decide, by simp [toList_render, hdest, destText, Reg.render]⟩
  | none =>
    cases i with
    | call dest? callee args =>
      cases hdest
      exact ⟨'c', by decide, by simp [render]⟩
    | store ptr data => exact ⟨'s', by decide, by simp [render]⟩
    | _ => cases hdest

end Instr

namespace Terminator

/-- The letter a terminator begins with. -/
def letter : Terminator → Char
  | jump _ | branch .. => 'b'
  | ret _ => 'r'
  | unreachable => 'u'

private theorem head?_render (t : Terminator) : t.render.toList.head? = some t.letter := by
  cases t with
  | ret value? => cases value? <;> simp [render, letter]
  | _ => simp [render, letter]

private theorem letter_eq_of_append_eq {t : Terminator} {s : String} {c : Char}
    (hs : s.toList.head? = some c) (heq : t.render.toList ++ r = s.toList ++ r') :
    t.letter = c := by
  have hhead := congrArg List.head? heq
  rw [List.head?_append, List.head?_append, t.head?_render, hs] at hhead
  exact Option.some.inj hhead

/-- No instruction begins like a terminator. -/
private theorem render_ne_instr (t : Terminator) (i : Instr) (l l' : List Char) :
    t.render.toList ++ l ≠ i.render.toList ++ l' := by
  intro heq
  obtain ⟨c, hc, hhead⟩ := i.head?_render
  have hletter : t.letter ∈ ['%', 'c', 's'] := letter_eq_of_append_eq hhead heq ▸ hc
  cases t <;> simp [letter] at hletter

private theorem ret_inj {value? value?' : Option Operand}
    (heq : (ret value?).render.toList ++ ("\n".toList ++ r) =
      (ret value?').render.toList ++ ("\n".toList ++ r')) : value? = value?' ∧ r = r' := by
  have hvoid (x : Operand) (l l' : List Char) :
      (ret none).render.toList ++ l ≠ (ret (some x)).render.toList ++ l' := by
    intro heq
    simp only [render, String.toList_append, List.append_assoc] at heq
    have hvoid : "ret void".toList = "ret ".toList ++ "void".toList := rfl
    rw [hvoid, List.append_assoc] at heq
    exact x.render_ne_cons (c := 'v') (by decide) l' _ (List.append_cancel_left heq).symm
  cases value? with
  | none =>
    cases value?' with
    | none => exact ⟨rfl, List.append_cancel_left (List.append_cancel_left heq)⟩
    | some x' => exact absurd heq (hvoid x' _ _)
  | some x =>
    cases value?' with
    | none => exact absurd heq.symm (hvoid x _ _)
    | some x' =>
      simp only [render, String.toList_append, List.append_assoc, List.append_cancel_left_eq] at heq
      obtain ⟨rfl, hend⟩ := told_operand.before (by decide) heq
      exact ⟨rfl, hend⟩

/-- A jump names a block where a branch has its test. -/
private theorem jump_ne_branch (target thn els : BlockId) (test : Operand) (l l' : List Char) :
    (jump target).render.toList ++ l ≠ (branch test thn els).render.toList ++ l' := by
  intro heq
  simp only [render, BlockId.render, String.toList_append, List.append_assoc,
    List.append_cancel_left_eq] at heq
  exact test.render_ne_cons (c := 'b') (by decide) _ _ heq.symm

/-- The line of a terminator tells the terminator. -/
private theorem render_inj {t t' : Terminator}
    (heq : t.render.toList ++ ("\n".toList ++ r) = t'.render.toList ++ ("\n".toList ++ r')) :
    t = t' ∧ r = r' := by
  have hletter : t.letter = t'.letter := letter_eq_of_append_eq t'.head?_render heq
  cases t with
  | jump target =>
    cases t' with
    | jump target' =>
      simp only [render, String.toList_append, List.append_assoc, List.append_cancel_left_eq] at heq
      obtain ⟨rfl, hend⟩ := told_blockId.before (by decide) heq
      exact ⟨rfl, hend⟩
    | branch test' thn' els' => exact absurd heq (jump_ne_branch _ _ _ _ _ _)
    | _ => simp [letter] at hletter
  | branch test thn els =>
    cases t' with
    | branch test' thn' els' =>
      simp only [render, String.toList_append, List.append_assoc, List.append_cancel_left_eq] at heq
      obtain ⟨rfl, hrest⟩ := told_operand.before (by decide) heq
      obtain ⟨rfl, hmore⟩ := told_blockId.before (by decide) hrest
      obtain ⟨rfl, hend⟩ := told_blockId.before (by decide) hmore
      exact ⟨rfl, hend⟩
    | jump target' => exact absurd heq.symm (jump_ne_branch _ _ _ _ _ _)
    | _ => simp [letter] at hletter
  | ret value? =>
    cases t' with
    | ret value?' =>
      obtain ⟨rfl, hend⟩ := ret_inj heq
      exact ⟨rfl, hend⟩
    | _ => simp [letter] at hletter
  | unreachable =>
    cases t' with
    | unreachable => exact ⟨rfl, List.append_cancel_left (List.append_cancel_left heq)⟩
    | _ => simp [letter] at hletter

end Terminator

/-- The text of a block after its first line. -/
def linesText (instrs : List Instr) (t : Terminator) : String :=
  String.join (instrs.map fun i => "  " ++ i.render ++ "\n") ++ ("  " ++ (t.render ++ "\n"))

private theorem toList_linesText_cons (i : Instr) (is : List Instr) (t : Terminator) :
    (linesText (i :: is) t).toList =
      "  ".toList ++ (i.render.toList ++ ("\n".toList ++ (linesText is t).toList)) := by
  simp [linesText]

/-- The instructions of a block end at its terminator. -/
private theorem linesText_inj {is is' : List Instr} {t t' : Terminator} (h : ∀ i ∈ is, i.Legible)
    (h' : ∀ i ∈ is', i.Legible)
    (heq : (linesText is t).toList ++ r = (linesText is' t').toList ++ r') :
    is = is' ∧ t = t' ∧ r = r' := by
  have hnil (t : Terminator) (l : List Char) : (linesText [] t).toList ++ l =
      "  ".toList ++ (t.render.toList ++ ("\n".toList ++ l)) := by
    simp [linesText]
  induction is generalizing is' with
  | nil =>
    cases is' with
    | nil =>
      rw [hnil, hnil] at heq
      exact ⟨rfl, Terminator.render_inj (List.append_cancel_left heq)⟩
    | cons i' is' =>
      rw [hnil, toList_linesText_cons, List.append_assoc, List.append_assoc] at heq
      exact absurd (List.append_cancel_left heq) (t.render_ne_instr i' _ _)
  | cons i is ih =>
    rw [List.forall_mem_cons] at h
    rw [toList_linesText_cons, List.append_assoc, List.append_assoc, List.append_assoc] at heq
    cases is' with
    | nil =>
      rw [hnil] at heq
      exact absurd (List.append_cancel_left heq).symm (t'.render_ne_instr i _ _)
    | cons i' is' =>
      rw [List.forall_mem_cons] at h'
      rw [toList_linesText_cons, List.append_assoc, List.append_assoc, List.append_assoc] at heq
      obtain ⟨rfl, hrest⟩ := Instr.render_inj h.1 h'.1 (List.append_cancel_left heq)
      obtain ⟨rfl, rfl, hr⟩ := ih h.2 h'.2 hrest
      exact ⟨rfl, rfl, hr⟩

namespace Block

/-- The label ends with its line, and names end where arguments begin. -/
structure Legible (b : Block) : Prop where
  label : '\n' ∉ b.label.toList
  instrs : ∀ i ∈ b.instrs, i.Legible

instance (b : Block) : Decidable b.Legible :=
  decidable_of_iff ('\n' ∉ b.label.toList ∧ ∀ i ∈ b.instrs, i.Legible)
    ⟨fun h => ⟨h.1, h.2⟩, fun h => ⟨h.label, h.instrs⟩⟩

private theorem toList_render (b : Block) : b.render.toList =
    b.id.render.toList ++ (": ; ".toList ++ (b.label.toList ++ ("\n".toList ++
      (linesText b.instrs b.terminator).toList))) := by
  simp [render, linesText]

private theorem render_inj {b b' : Block} (h : b.Legible) (h' : b'.Legible)
    (heq : b.render.toList ++ r = b'.render.toList ++ r') : b = b' ∧ r = r' := by
  simp only [toList_render, List.append_assoc] at heq
  obtain ⟨hid, hrest⟩ := told_blockId.before (by decide) heq
  obtain ⟨hlabel, hlines⟩ := append_cons_inj_of_notMem h.label h'.label hrest
  obtain ⟨hinstrs, hterminator, hr⟩ := linesText_inj h.instrs h'.instrs hlines
  cases b
  cases b'
  cases hid
  cases hlabel
  cases hinstrs
  cases hterminator
  exact ⟨rfl, hr⟩

/-- Blocks end at the brace. -/
private theorem joined_inj {bs bs' : List Block} (h : ∀ b ∈ bs, b.Legible)
    (h' : ∀ b ∈ bs', b.Legible) (heq : (String.join (bs.map render)).toList ++ '\x7d' :: r =
      (String.join (bs'.map render)).toList ++ '\x7d' :: r') : bs = bs' ∧ r = r' := by
  have hbrace (b : Block) (l l' : List Char) : b.render.toList ++ l ≠ '\x7d' :: l' := by
    simp [toList_render, BlockId.render]
  induction bs generalizing bs' with
  | nil =>
    cases bs' with
    | nil => simpa using heq
    | cons b' bs' =>
      rw [List.map_cons, String.join_cons, String.toList_append, List.append_assoc] at heq
      exact absurd heq.symm (hbrace b' _ _)
  | cons b bs ih =>
    rw [List.map_cons, String.join_cons, String.toList_append, List.append_assoc] at heq
    cases bs' with
    | nil => exact absurd heq (hbrace b _ _)
    | cons b' bs' =>
      rw [List.map_cons, String.join_cons, String.toList_append, List.append_assoc] at heq
      rw [List.forall_mem_cons] at h h'
      obtain ⟨rfl, hrest⟩ := render_inj h.1 h'.1 heq
      obtain ⟨rfl, hr⟩ := ih h.2 h'.2 hrest
      exact ⟨rfl, hr⟩

end Block

namespace Function

/-- The result, the name and the parameters of a function in parentheses. -/
def headText (f : Function) (params : List String) : String :=
  f.result.render ++ " @" ++ f.name ++ "(" ++ ", ".intercalate params ++ ")"

/-- A parameter with the register of its argument. -/
def paramText (param : Ty × Reg) : String :=
  param.1.render ++ " " ++ param.2.render

/-- Names have no opening parenthesis, labels no line feed, and there is an argument for each
parameter. All other characters can be told. -/
structure Legible (f : Function) : Prop where
  name : '(' ∉ f.name.toList
  arity : ∀ body ∈ f.body?, body.args.length = f.params.length
  blocks : ∀ b ∈ f.blocks, b.Legible

instance (f : Function) : Decidable f.Legible :=
  decidable_of_iff ('(' ∉ f.name.toList ∧ (∀ body ∈ f.body?, body.args.length = f.params.length) ∧
      ∀ b ∈ f.blocks, b.Legible)
    ⟨fun h => ⟨h.1, h.2.1, h.2.2⟩, fun h => ⟨h.name, h.arity, h.blocks⟩⟩

section

variable {f f' : Function}

private theorem toList_render_declared (h : f.body? = none) : f.render.toList =
    "declare ".toList ++ ((f.headText (f.params.map Ty.render)).toList ++ "\n".toList) := by
  simp [render, headText, h]

private theorem toList_render_defined {body : Body} (h : f.body? = some body) : f.render.toList =
    "define ".toList ++ ((f.headText ((f.params.zip body.args).map paramText)).toList ++
      (" \x7b\n".toList ++
        ((String.join (body.blocks.map Block.render)).toList ++ "\x7d\n".toList))) := by
  have hparams : List.zipWith (fun ty r => Ty.render ty ++ " " ++ Reg.render r) f.params body.args =
      (f.params.zip body.args).map paramText := by
    rw [List.map_zip_eq_zipWith]
    rfl
  simp [render, headText, h, hparams]

/-- The text up to the closing parenthesis tells the signature. -/
private theorem headText_inj {α : Type} {render : α → String} (hrender : Told render)
    (hstart : ∀ a l l', (render a).toList ++ l ≠ ')' :: l') {params params' : List α}
    (h : f.Legible) (h' : f'.Legible)
    (heq : (f.headText (params.map render)).toList ++ r =
      (f'.headText (params'.map render)).toList ++ r') :
    f.result = f'.result ∧ f.name = f'.name ∧ params = params' ∧ r = r' := by
  simp only [headText, String.toList_append, List.append_assoc] at heq
  obtain ⟨hresult, hrest⟩ := told_ty.before (by decide) heq
  obtain ⟨hname, hmore⟩ := append_cons_inj_of_notMem h.name h'.name hrest
  obtain ⟨hparams, hr⟩ := hrender.list hstart hmore
  exact ⟨hresult, hname, hparams, hr⟩

theorem declared_inj (h : f.Legible) (h' : f'.Legible) (hbody : f.body? = none)
    (hbody' : f'.body? = none) (heq : f.render.toList = f'.render.toList) : f = f' := by
  rw [toList_render_declared hbody, toList_render_declared hbody'] at heq
  obtain ⟨hresult, hname, hparams, -⟩ := headText_inj told_ty Ty.render_ne_paren h h'
    (List.append_cancel_left heq)
  cases f
  cases f'
  simp_all

theorem defined_inj {body body' : Body} (h : f.Legible) (h' : f'.Legible) (hbody : f.body? = some body)
    (hbody' : f'.body? = some body') (heq : f.render.toList = f'.render.toList) : f = f' := by
  have hblocks : ∀ b ∈ body.blocks, b.Legible := by
    simpa [Function.blocks, hbody] using h.blocks
  have hblocks' : ∀ b ∈ body'.blocks, b.Legible := by
    simpa [Function.blocks, hbody'] using h'.blocks
  have hparen (param : Ty × Reg) (l l' : List Char) : (paramText param).toList ++ l ≠ ')' :: l' := by
    rw [paramText, String.toList_append, String.toList_append, List.append_assoc, List.append_assoc]
    exact param.1.render_ne_paren _ _
  rw [toList_render_defined hbody, toList_render_defined hbody'] at heq
  obtain ⟨hresult, hname, hzip, hrest⟩ := headText_inj (told_ty.pair told_reg) hparen h h'
    (List.append_cancel_left heq)
  obtain ⟨hsame, -⟩ := Block.joined_inj hblocks hblocks' (List.append_cancel_left hrest)
  -- the pairs tell both lists, since these are of one length
  have hunzip := congrArg List.unzip hzip
  rw [List.unzip_zip (h.arity body hbody).symm, List.unzip_zip (h'.arity body' hbody').symm] at hunzip
  obtain ⟨hparams, hargs⟩ := Prod.mk.inj hunzip
  cases f
  cases f'
  cases body
  cases body'
  simp_all

theorem body?_eq_none_of_render_eq (heq : f.render.toList = f'.render.toList) (hbody : f.body? = none) :
    f'.body? = none := by
  cases hbody' : f'.body? with
  | none => rfl
  | some body' =>
    rw [toList_render_declared hbody, toList_render_defined hbody'] at heq
    simp at heq

end

/-- Two functions have the same text only if they are the same in all their parts. -/
theorem render_eq_iff {f g : Function} (hf : f.Legible) (hg : g.Legible) :
    f.render = g.render ↔ f = g := by
  constructor
  · intro heq
    have hchars := congrArg String.toList heq
    cases hbody : f.body? with
    | none => exact declared_inj hf hg hbody (body?_eq_none_of_render_eq hchars hbody) hchars
    | some body =>
      cases hbody' : g.body? with
      | none =>
        have hnone := body?_eq_none_of_render_eq hchars.symm hbody'
        cases hbody.symm.trans hnone
      | some body' => exact defined_inj hf hg hbody hbody' hchars
  · rintro rfl
    rfl

/-- A function that keeps some bytes and hands them on, with a line of every kind. -/
def keeping (data : List UInt8) : Function where
  name := "m_f"
  params := [.int .w64, .bool]
  result := .int .w32
  body? := some
    { args := [⟨0⟩, ⟨1⟩]
      blocks :=
        [⟨⟨0⟩, "entry: ; bb1", [.alloca ⟨2⟩ 4, .store ⟨2⟩ data, .bitcast ⟨3⟩ ⟨2⟩,
            .call (some ⟨4⟩) "m_g" [.reg ⟨3⟩, .int (-1), .bool true],
            .ptrToInt ⟨5⟩ (.reg ⟨4⟩) (.int .w32), .compare ⟨6⟩ .lt (.reg ⟨5⟩) (.int 10)],
          .branch (.reg ⟨6⟩) ⟨1⟩ ⟨2⟩⟩,
        ⟨⟨1⟩, "", [.intToPtr ⟨7⟩ (.bool false), .call none "" [.reg ⟨7⟩]], .jump ⟨3⟩⟩,
        ⟨⟨2⟩, "  ret void", [.neg ⟨8⟩ (.reg ⟨5⟩), .arith ⟨9⟩ .rem (.reg ⟨8⟩) (.int 7)],
          .ret (some (.reg ⟨9⟩))⟩,
        ⟨⟨3⟩, "\x7d", [], .unreachable⟩, ⟨⟨4⟩, "dead", [], .ret none⟩] }

/-- The byte 1 is not shown as the four characters of its escape are. -/
theorem render_eq_iff_keeping :
    (keeping [0x01]).Legible ∧ (keeping [0x5C, 0x78, 0x30, 0x31]).Legible ∧
      (keeping [0x01]).render ≠ (keeping [0x5C, 0x78, 0x30, 0x31]).render := by
  have hbyte : (keeping [0x01]).Legible := by decide +kernel
  have hchars : (keeping [0x5C, 0x78, 0x30, 0x31]).Legible := by decide +kernel
  have hne : keeping [0x01] ≠ keeping [0x5C, 0x78, 0x30, 0x31] := by decide +kernel
  exact ⟨hbyte, hchars, fun heq => hne ((render_eq_iff hbyte hchars).1 heq)⟩

end Function

end Target

end BlockCompiler
