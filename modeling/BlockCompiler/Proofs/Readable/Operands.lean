import BlockCompiler.Proofs.Readable.Words
import BlockCompiler.Target.Render
import Std.Data.String.ToInt

/-!
# Operands can be read back

The smallest parts of target text can be told apart from what follows them. A number ends where no
digit follows, and so does a register or a block. Stored bytes end at the closing quote, and a list in
parentheses ends at the closing one.
-/

namespace BlockCompiler

namespace Text

def isNumberPart (c : Char) : Bool :=
  c.isDigit || c == '-'

/-- A text tells what it is the text of. It tells where it ends too, unless a number goes on there. -/
def Told {α : Type} (render : α → String) : Prop :=
  ∀ {a a' : α} {r r' : List Char}, Halts isNumberPart r → Halts isNumberPart r' →
    (render a).toList ++ r = (render a').toList ++ r' → a = a' ∧ r = r'

section Told

variable {α β : Type} {render : α → String} {r r' : List Char}

/-- A separator that is no part of a number ends a text. -/
theorem Told.before (h : Told render) {sep : String}
    (hsep : (sep.toList.head?.any fun c => !isNumberPart c) = true) {a a' : α}
    (heq : (render a).toList ++ (sep.toList ++ r) = (render a').toList ++ (sep.toList ++ r')) :
    a = a' ∧ r = r' := by
  have hhalts (l : List Char) : Halts isNumberPart (sep.toList ++ l) := by
    cases hcs : sep.toList with
    | nil => simp [hcs] at hsep
    | cons c cs => exact halts_cons (by simpa [hcs] using hsep)
  obtain ⟨ha, hr⟩ := h (hhalts r) (hhalts r') heq
  exact ⟨ha, List.append_cancel_left hr⟩

/-- A fixed text in front changes nothing. -/
private theorem Told.labelled (h : Told render) (label : String) {f : β → α}
    (hf : ∀ b b', f b = f b' → b = b') : Told fun b => label ++ render (f b) := by
  intro b b' r r' hr hr' heq
  simp only [String.toList_append, List.append_assoc, List.append_cancel_left_eq] at heq
  obtain ⟨hb, hrest⟩ := h hr hr' heq
  exact ⟨hf b b' hb, hrest⟩

theorem Told.pair {render' : β → String} (h : Told render) (h' : Told render') :
    Told fun p : α × β => render p.1 ++ " " ++ render' p.2 := by
  intro p p' r r' hr hr' heq
  simp only [String.toList_append, List.append_assoc] at heq
  obtain ⟨ha, hrest⟩ := h.before (by decide) heq
  obtain ⟨hb, hrest⟩ := h' hr hr' hrest
  exact ⟨Prod.ext ha hb, hrest⟩

/-- The text after an item of a list. -/
def afterItem (render : α → String) (r : List Char) : List α → List Char
  | [] => ')' :: r
  | a :: as => ',' :: ' ' :: ((", ".intercalate ((a :: as).map render)).toList ++ ')' :: r)

private theorem intercalate_cons_append (a : α) (as : List α) (r : List Char) :
    (", ".intercalate ((a :: as).map render)).toList ++ ')' :: r =
      (render a).toList ++ afterItem render r as := by
  cases as with
  | nil => simp [afterItem]
  | cons b as => simp [afterItem, String.intercalate_cons_cons]

private theorem halts_afterItem (r : List Char) (as : List α) :
    Halts isNumberPart (afterItem render r as) := by
  cases as <;> exact halts_cons (by decide)

/-- A list ends at its parenthesis, if no item begins with one. -/
theorem Told.list (h : Told render) (hstart : ∀ a l l', (render a).toList ++ l ≠ ')' :: l')
    {as as' : List α}
    (heq : (", ".intercalate (as.map render)).toList ++ ')' :: r =
      (", ".intercalate (as'.map render)).toList ++ ')' :: r') : as = as' ∧ r = r' := by
  induction as generalizing as' with
  | nil =>
    cases as' with
    | nil => simpa using heq
    | cons a' as' =>
      rw [intercalate_cons_append] at heq
      exact absurd heq.symm (hstart a' _ _)
  | cons a as ih =>
    cases as' with
    | nil =>
      rw [intercalate_cons_append] at heq
      exact absurd heq (hstart a _ _)
    | cons a' as' =>
      rw [intercalate_cons_append, intercalate_cons_append] at heq
      obtain ⟨rfl, hrest⟩ := h (halts_afterItem _ _) (halts_afterItem _ _) heq
      -- one more item follows in both lists or in neither
      cases as with
      | nil =>
        cases as' with
        | nil => exact ⟨rfl, (List.cons.inj hrest).2⟩
        | cons b' as' => simp [afterItem] at hrest
      | cons b as =>
        cases as' with
        | nil => simp [afterItem] at hrest
        | cons b' as' =>
          obtain ⟨hmore, hr⟩ := ih (List.cons.inj (List.cons.inj hrest).2).2
          exact ⟨by rw [hmore], hr⟩

end Told

section Numbers

private theorem isNumberPart_of_mem_repr (n : Nat) : ∀ c ∈ n.repr.toList, isNumberPart c := by
  intro c hc
  rw [Nat.repr_eq_ofList_toDigits, String.toList_ofList] at hc
  have hdigit : c.isDigit := Nat.isDigit_of_mem_toDigits (by decide) (by decide) hc
  simp [isNumberPart, hdigit]

theorem told_nat : Told (toString : Nat → String) := by
  intro n n' r r' hr hr' heq
  obtain ⟨hchars, hrest⟩ := append_inj_of_halts (isNumberPart_of_mem_repr n)
    (isNumberPart_of_mem_repr n') hr hr' heq
  exact ⟨Nat.repr_inj.1 (String.toList_inj.1 hchars), hrest⟩

private theorem isNumberPart_of_mem_toString (v : Int) :
    ∀ c ∈ (toString v).toList, isNumberPart c := by
  rw [Int.toString_eq_repr, Int.repr_eq_if]
  split
  · exact isNumberPart_of_mem_repr _
  · have hminus : ∀ c ∈ "-".toList, isNumberPart c := by
      rw [← List.all_eq_true]
      rfl
    rw [String.toList_append, List.forall_mem_append]
    exact ⟨hminus, isNumberPart_of_mem_repr _⟩

private theorem exists_toString (v : Int) :
    ∃ c cs, (toString v).toList = c :: cs ∧ isNumberPart c := by
  have hne : (toString v).toList ≠ [] := by
    rw [Int.toString_eq_repr, Int.repr_eq_if]
    split
    · rw [Nat.repr_eq_ofList_toDigits, String.toList_ofList]
      exact Nat.toDigits_ne_nil
    · simp
  obtain ⟨c, cs, hcs⟩ := List.exists_cons_of_ne_nil hne
  exact ⟨c, cs, hcs, isNumberPart_of_mem_toString v c (hcs ▸ .head _)⟩

private theorem told_int : Told (toString : Int → String) := by
  intro v v' r r' hr hr' heq
  obtain ⟨hchars, hrest⟩ := append_inj_of_halts (isNumberPart_of_mem_toString v)
    (isNumberPart_of_mem_toString v') hr hr' heq
  exact ⟨Int.repr_inj.1 (String.toList_inj.1 hchars), hrest⟩

end Numbers

section Bytes

/-- The byte that a backslash and `c` stand for. -/
def unescapeByte? : Char → Option Nat
  | 't' => some 0x09
  | 'n' => some 0x0A
  | 'r' => some 0x0D
  | '\x22' => some 0x22
  | '\x27' => some 0x27
  | '\\' => some 0x5C
  | _ => none

/-- The three ways in which a byte stands between quotes. -/
inductive ByteAs (b : UInt8) : List Char → Prop where
  | shown {c : Char} (hc : c.toNat = b.toNat) (hquote : c ≠ '\x22') (hback : c ≠ '\\') : ByteAs b [c]
  | escaped {x : Char} (h : unescapeByte? x = some b.toNat) : ByteAs b ['\\', x]
  | hex : ByteAs b ['\\', 'x', hexDigit (b.toNat / 16), hexDigit b.toNat]

private theorem byteAs_byteText (b : UInt8) : ByteAs b (byteText b) := by
  unfold byteText
  split
  · next h => exact .escaped (congrArg some h.symm)
  · next h => exact .escaped (congrArg some h.symm)
  · next h => exact .escaped (congrArg some h.symm)
  · next h => exact .escaped (congrArg some h.symm)
  · next h => exact .escaped (congrArg some h.symm)
  · next h => exact .escaped (congrArg some h.symm)
  · next hquote _ hback =>
    split
    · next hrange =>
      have hvalid : b.toNat.isValidChar := .inl (by omega)
      have hchar : (Char.ofNat b.toNat).toNat = b.toNat := by
        rw [Char.ofNat, dif_pos hvalid]
        rfl
      apply ByteAs.shown hchar
      · intro h
        rw [h] at hchar
        exact hquote hchar.symm
      · intro h
        rw [h] at hchar
        exact hback hchar.symm
    · exact .hex

/-- No byte begins with the closing quote. -/
private theorem ByteAs.ne_quote {b : UInt8} {l r r' : List Char} (h : ByteAs b l) :
    l ++ r ≠ '\x22' :: r' := by
  cases h with
  | shown _ hquote _ => simp [hquote]
  | escaped _ | hex => simp

/-- A byte ends by itself. -/
private theorem ByteAs.inj {b b' : UInt8} {l l' r r' : List Char} (h : ByteAs b l)
    (h' : ByteAs b' l') (heq : l ++ r = l' ++ r') : b = b' ∧ r = r' := by
  cases h with
  | shown hc _ hback =>
    cases h' with
    | shown hc' _ _ =>
      obtain ⟨rfl, hr⟩ := List.cons.inj heq
      exact ⟨UInt8.toNat_inj.1 (hc.symm.trans hc'), hr⟩
    | escaped _ | hex => simp [hback] at heq
  | @escaped x h =>
    cases h' with
    | shown _ _ hback' => simp [Ne.symm hback'] at heq
    | escaped h' =>
      simp only [List.cons_append, List.nil_append, List.cons.injEq, true_and] at heq
      obtain ⟨rfl, hr⟩ := heq
      exact ⟨UInt8.toNat_inj.1 (Option.some.inj (h.symm.trans h')), hr⟩
    | hex =>
      simp only [List.cons_append, List.cons.injEq, true_and] at heq
      rw [heq.1] at h
      cases h
  | hex =>
    cases h' with
    | shown _ _ hback' => simp [Ne.symm hback'] at heq
    | escaped h' =>
      simp only [List.cons_append, List.cons.injEq, true_and] at heq
      rw [← heq.1] at h'
      cases h'
    | hex =>
      simp only [List.cons_append, List.nil_append, List.cons.injEq, true_and] at heq
      obtain ⟨hhigh, hlow, hr⟩ := heq
      have hhigh := digitChar_inj _ (Nat.mod_lt _ (by decide)) _ (Nat.mod_lt _ (by decide)) hhigh
      have hlow := digitChar_inj _ (Nat.mod_lt _ (by decide)) _ (Nat.mod_lt _ (by decide)) hlow
      have hb := b.toNat_lt
      have hb' := b'.toNat_lt
      exact ⟨UInt8.toNat_inj.1 (by omega), hr⟩

/-- Stored bytes end at the closing quote. -/
theorem bytesText_inj {bs bs' : List UInt8} {r r' : List Char}
    (heq : (bytesText bs).toList ++ '\x22' :: r = (bytesText bs').toList ++ '\x22' :: r') :
    bs = bs' ∧ r = r' := by
  rw [bytesText, bytesText, String.toList_ofList, String.toList_ofList] at heq
  induction bs generalizing bs' with
  | nil =>
    cases bs' with
    | nil => simpa using heq
    | cons b' bs' =>
      rw [List.flatMap_cons, List.append_assoc] at heq
      exact absurd heq.symm (byteAs_byteText b').ne_quote
  | cons b bs ih =>
    rw [List.flatMap_cons, List.append_assoc] at heq
    cases bs' with
    | nil => exact absurd heq (byteAs_byteText b).ne_quote
    | cons b' bs' =>
      rw [List.flatMap_cons, List.append_assoc] at heq
      obtain ⟨rfl, hrest⟩ := (byteAs_byteText b).inj (byteAs_byteText b') heq
      obtain ⟨rfl, hr⟩ := ih hrest
      exact ⟨rfl, hr⟩

end Bytes

end Text

namespace Target

open Text

theorem told_reg : Told Reg.render :=
  told_nat.labelled "%" fun r r' h => by cases r; cases r'; exact congrArg Reg.mk h

theorem told_blockId : Told BlockId.render :=
  told_nat.labelled "bb" fun b b' h => by cases b; cases b'; exact congrArg BlockId.mk h

private theorem Ty.toList_render (ty : Ty) : ty.render.toList =
    match ty with
    | bool => ['i', '1']
    | int .w32 => ['i', '3', '2']
    | int .w64 => ['i', '6', '4']
    | ptr => ['p', 't', 'r']
    | void => ['v', 'o', 'i', 'd'] := by
  rcases ty with _ | (_ | _) | _ | _ <;> rfl

/-- No type begins with the whole text of another. -/
theorem told_ty : Told Ty.render := by
  intro ty ty' r r' _ _ heq
  rw [Ty.toList_render, Ty.toList_render] at heq
  rcases ty with _ | (_ | _) | _ | _ <;> rcases ty' with _ | (_ | _) | _ | _ <;> simp at heq <;>
    exact ⟨rfl, heq⟩

namespace Operand

/-- What an operand can begin with: each kind has characters of its own. -/
inductive Starts : Operand → Char → Prop where
  | reg (r : Reg) : Starts (.reg r) '%'
  | int (v : Int) {c : Char} (h : isNumberPart c) : Starts (.int v) c
  | true : Starts (.bool true) 't'
  | false : Starts (.bool false) 'f'

private theorem exists_render (x : Operand) : ∃ c cs, x.render.toList = c :: cs ∧ x.Starts c := by
  cases x with
  | reg r => exact ⟨_, _, String.toList_append, .reg r⟩
  | int v =>
    obtain ⟨c, cs, hcs, hc⟩ := exists_toString v
    exact ⟨c, cs, hcs, .int v hc⟩
  | bool b =>
    cases b with
    | true => exact ⟨_, _, rfl, .true⟩
    | false => exact ⟨_, _, rfl, .false⟩

private theorem starts_of_append_eq {x : Operand} {c : Char} {l l' : List Char}
    (h : x.render.toList ++ l = c :: l') : x.Starts c := by
  obtain ⟨d, ds, hds, hd⟩ := x.exists_render
  rw [hds, List.cons_append, List.cons.injEq] at h
  exact h.1 ▸ hd

end Operand

theorem told_operand : Told Operand.render := by
  intro x x' r r' hr hr' heq
  obtain ⟨c, cs, hcs, hc⟩ := x.exists_render
  have hc' : x'.Starts c := Operand.starts_of_append_eq (heq.symm.trans (by rw [hcs]; rfl))
  -- the first character tells the kind
  cases hc with
  | reg q =>
    cases hc' with
    | reg q' =>
      obtain ⟨rfl, hrest⟩ := told_reg hr hr' heq
      exact ⟨rfl, hrest⟩
    | int v' h => cases h
  | int v h =>
    cases hc' with
    | int v' _ =>
      obtain ⟨rfl, hrest⟩ := told_int hr hr' heq
      exact ⟨rfl, hrest⟩
    | _ => cases h
  | true =>
    cases hc' with
    | true => exact ⟨rfl, List.append_cancel_left heq⟩
    | int v' h => cases h
  | false =>
    cases hc' with
    | false => exact ⟨rfl, List.append_cancel_left heq⟩
    | int v' h => cases h

theorem Operand.render_ne_cons (x : Operand) {c : Char}
    (hc : isNumberPart c = false ∧ c ∉ ['%', 't', 'f']) (l l' : List Char) :
    x.render.toList ++ l ≠ c :: l' := by
  intro heq
  cases starts_of_append_eq heq with
  | int v h =>
    rw [hc.1] at h
    cases h
  | _ => exact absurd hc.2 (by decide)

theorem Ty.render_ne_paren (ty : Ty) (l l' : List Char) : ty.render.toList ++ l ≠ ')' :: l' := by
  rw [Ty.toList_render]
  rcases ty with _ | (_ | _) | _ | _ <;> simp

end Target

end BlockCompiler
