import BlockCompiler.Proofs.Readable.Expressions
import BlockCompiler.Proofs.Skeleton

/-!
# Statements can be read back

The text of a block tells its statements, whatever their tags. The first word of a line tells the
kind of its statement, and the blanks before it tell which block it belongs to.
-/

namespace BlockCompiler

open Text

variable {σ τ : Type}

private theorem isWord_of_mem_keywords : ∀ k ∈ keywords, isWord k := by
  decide +kernel

/-- The first word of a text is told by where it ends. -/
private theorem word_inj {s s' : String} {r r' : List Char} (h : isWord s) (h' : isWord s')
    (hr : Halts isNamePart r) (hr' : Halts isNamePart r') (heq : s.toList ++ r = s'.toList ++ r') :
    s = s' := by
  have hchars := append_inj_of_halts (isNamePart_of_isWord h) (isNamePart_of_isWord h') hr hr' heq
  exact String.toList_inj.1 hchars.1

namespace Expr

section Keywords

variable {e : Expr τ} {k : String} {c : Char} {r l : List Char}

private theorem operandChars_ne_keyword (h : e.isSpelled) (hk : k ∈ keywords)
    (hc : isNamePart c = false) (hr : Stops r) : e.operandChars ++ r ≠ k.toList ++ c :: l := by
  intro heq
  have hkword := isWord_of_mem_keywords k hk
  -- a word begins the operand, and it would be the keyword
  have hlead : e.lead = .word := by
    obtain ⟨d, ds, hds, hd⟩ := exists_operandChars h
    obtain ⟨d', ds', hds', hd'⟩ := exists_of_isWord hkword
    rw [hds, hds', List.cons_append, List.cons_append, List.cons.injEq] at heq
    rw [← hd, heq.1, Lead.ofChar, if_pos hd']
  obtain ⟨segments, args?, hw⟩ := exists_word?_iff.2 hlead
  obtain ⟨hne, hwords⟩ := forall_mem_word? h hw
  obtain ⟨s, segments, rfl⟩ := List.exists_cons_of_ne_nil hne
  have hhalts : Halts isNamePart (callChars args? ++ r) :=
    (halts_callChars args? hr).imp fun c hc => by simp [isPathPart, hc]
  rw [chars_of_word? hw, dotted_cons, List.append_assoc, List.append_assoc] at heq
  have hs := hwords s (.head _)
  have hsk := word_inj hs.1 hkword (halts_dottedTail hhalts) (halts_cons hc) heq
  exact hs.2 (hsk ▸ hk)

/-- The words that begin statements begin no expression. -/
private theorem Readable.ne_keyword (h : e.Readable) (hk : k ∈ keywords) (hc : isNamePart c = false)
    (hr : Stops r) : e.chars ++ r ≠ k.toList ++ c :: l := by
  cases hb : e.isBinary with
  | false =>
    rw [← operandChars_of_isBinary_eq_false hb]
    exact operandChars_ne_keyword h.isSpelled hk hc hr
  | true =>
    cases e with
    | binary t op lhs rhs =>
      simp only [chars_binary, List.append_assoc, List.cons_append]
      exact operandChars_ne_keyword h.left.isSpelled hk hc (stops_operator op _)
    | _ => cases hb

end Keywords

end Expr

namespace Stmt

def blanks (depth : Nat) : List Char :=
  List.replicate (4 * depth) ' '

/-- The text of a block, as characters. -/
def blockChars (depth : Nat) (sts : List (Stmt τ)) : List Char :=
  (renderAll depth sts).toList

def elseChars (depth : Nat) (els : List (Stmt τ)) : List Char :=
  if els = [] then []
  else blanks depth ++ ("else".toList ++ ':' :: '\n' :: blockChars (depth + 1) els)

/-- The text of a statement after the blanks in front of it. -/
def lineChars (depth : Nat) : Stmt τ → List Char
  | branch _ test thn els =>
    "if".toList ++ ' ' :: (test.chars ++ ':' :: '\n' ::
      (blockChars (depth + 1) thn ++ elseChars depth els))
  | loop _ test body =>
    "while".toList ++ ' ' :: (test.chars ++ ':' :: '\n' :: blockChars (depth + 1) body)
  | effect _ value => value.chars ++ ['\n']
  | ret _ none => "return".toList ++ ['\n']
  | ret _ (some value) => "return".toList ++ ' ' :: (value.chars ++ ['\n'])

section Lines

variable (depth : Nat) (t : τ) (value : Expr τ)

private theorem lineChars_branch (thn els : List (Stmt τ)) :
    (branch t value thn els).lineChars depth = "if".toList ++ ' ' :: (value.chars ++ ':' :: '\n' ::
      (blockChars (depth + 1) thn ++ elseChars depth els)) := rfl

private theorem lineChars_loop (body : List (Stmt τ)) :
    (loop t value body).lineChars depth =
      "while".toList ++ ' ' :: (value.chars ++ ':' :: '\n' :: blockChars (depth + 1) body) := rfl

private theorem lineChars_effect : (effect t value).lineChars depth = value.chars ++ ['\n'] := rfl

private theorem lineChars_bareRet : (ret t none).lineChars depth = "return".toList ++ ['\n'] := rfl

private theorem lineChars_ret :
    (ret t (some value)).lineChars depth = "return".toList ++ ' ' :: (value.chars ++ ['\n']) := rfl

end Lines

private theorem toList_render (depth : Nat) (st : Stmt τ) :
    (st.render depth).toList = blanks depth ++ st.lineChars depth := by
  cases st with
  | branch t test thn els =>
    cases els with
    | nil =>
      simp only [render, indent, String.toList_append, String.toList_ofList, List.append_assoc]
      rfl
    | cons st sts =>
      simp only [render, indent, List.isEmpty_cons, Bool.false_eq_true, if_false,
        String.toList_append, String.toList_ofList, List.append_assoc]
      rfl
  | loop t test body =>
    simp only [render, indent, String.toList_append, String.toList_ofList, List.append_assoc]
    rfl
  | effect t value =>
    simp only [render, indent, String.toList_append, String.toList_ofList, List.append_assoc]
    rfl
  | ret t value =>
    cases value with
    | none =>
      simp only [render, indent, String.toList_append, String.toList_ofList]
      rfl
    | some value =>
      simp only [render, indent, String.toList_append, String.toList_ofList, List.append_assoc]
      rfl

private theorem blockChars_cons (depth : Nat) (st : Stmt τ) (sts : List (Stmt τ)) :
    blockChars depth (st :: sts) = blanks depth ++ (st.lineChars depth ++ blockChars depth sts) := by
  rw [blockChars, renderAll, String.toList_append, toList_render, List.append_assoc]
  rfl

/-- All names and numbers in the statement are written as such. -/
def Readable (st : Stmt τ) : Prop :=
  ∀ e ∈ st.exprs, e.Readable

/-- The word that begins the line of the statement, unless that is an expression. -/
def keyword? : Stmt τ → Option String
  | branch .. => some "if"
  | loop .. => some "while"
  | ret .. => some "return"
  | effect .. => none

section Keywords

variable {st : Stmt τ} {k : String} {r : List Char} (depth : Nat)

private theorem mem_keywords (h : st.keyword? = some k) : k ∈ keywords ∧ k ≠ "else" := by
  cases st <;> cases h <;> decide

private theorem exists_lineChars (h : st.keyword? = some k) :
    ∃ c l, st.lineChars depth = k.toList ++ c :: l ∧ isNamePart c = false := by
  cases st with
  | branch | loop =>
    cases h
    exact ⟨_, _, rfl, by decide⟩
  | ret t value =>
    cases h
    cases value <;> exact ⟨_, _, rfl, by decide⟩
  | effect => cases h

/-- A line that begins with a keyword is of a statement with that keyword. -/
private theorem Readable.keyword?_eq (h : st.Readable) (hk : k ∈ keywords) {c : Char}
    (hc : isNamePart c = false) {l : List Char} (heq : st.lineChars depth ++ r = k.toList ++ c :: l) :
    st.keyword? = some k := by
  cases hst : st.keyword? with
  | none =>
    cases st with
    | effect t value =>
      have hvalue : value.Readable := h value (.head _)
      rw [lineChars_effect, List.append_assoc] at heq
      exact absurd heq (hvalue.ne_keyword hk hc (Expr.ends_newline r).stops)
    | _ => cases hst
  | some k' =>
    obtain ⟨c', l', hline, hc'⟩ := exists_lineChars depth hst
    rw [hline, List.append_assoc] at heq
    have hkk := word_inj (isWord_of_mem_keywords k' (mem_keywords hst).1)
      (isWord_of_mem_keywords k hk) (halts_cons hc') (halts_cons hc) heq
    rw [hkk]

private theorem Readable.keyword?_congr {st' : Stmt σ} {r' : List Char} (h : st.Readable)
    (h' : st'.Readable) (heq : st.lineChars depth ++ r = st'.lineChars depth ++ r') :
    st.keyword? = st'.keyword? := by
  cases hst' : st'.keyword? with
  | some k =>
    obtain ⟨c, l, hline, hc⟩ := exists_lineChars depth hst'
    rw [hline, List.append_assoc] at heq
    exact h.keyword?_eq depth (mem_keywords hst').1 hc heq
  | none =>
    cases hst : st.keyword? with
    | none => rfl
    | some k =>
      obtain ⟨c, l, hline, hc⟩ := exists_lineChars depth hst
      rw [hline, List.append_assoc] at heq
      rw [h'.keyword?_eq depth (mem_keywords hst).1 hc heq.symm] at hst'
      cases hst'

/-- No line begins with a blank. -/
private theorem Readable.exists_lineChars (h : st.Readable) :
    ∃ c l, st.lineChars depth = c :: l ∧ c ≠ ' ' := by
  cases hst : st.keyword? with
  | some k =>
    obtain ⟨c, l, hline, _⟩ := Stmt.exists_lineChars depth hst
    obtain ⟨d, ds, hk, hd⟩ := exists_of_isWord (isWord_of_mem_keywords k (mem_keywords hst).1)
    refine ⟨d, ds ++ c :: l, by rw [hline, hk]; rfl, ?_⟩
    rintro rfl
    cases hd
  | none =>
    cases st with
    | effect t value =>
      obtain ⟨c, cs, hcs, hlead⟩ := Expr.Readable.exists_chars (h value (.head _))
      refine ⟨c, cs ++ ['\n'], by rw [lineChars_effect, hcs]; rfl, ?_⟩
      rintro rfl
      exact hlead rfl
    | _ => cases hst

end Keywords

/-- The text is at its end or goes on less than `depth` levels deep. -/
def Dedents (depth : Nat) (r : List Char) : Prop :=
  r = [] ∨ ¬blanks depth <+: r

/-- The text does not go on with anything that belongs to a statement at this depth. -/
structure Follows (depth : Nat) (r : List Char) : Prop where
  dedents : Dedents (depth + 1) r
  noElse : ∀ l, r ≠ blanks depth ++ ("else".toList ++ ':' :: l)

private theorem blanks_succ (depth : Nat) :
    blanks (depth + 1) = blanks depth ++ [' ', ' ', ' ', ' '] := by
  rw [blanks, Nat.mul_succ, List.replicate_add]
  rfl

private theorem dedents_blanks {depth : Nat} {c : Char} (hc : c ≠ ' ') (l : List Char) :
    Dedents (depth + 1) (blanks depth ++ c :: l) := by
  right
  rw [blanks_succ, List.prefix_append_right_inj]
  rintro ⟨m, hm⟩
  exact hc (List.cons.inj hm).1.symm

private theorem Dedents.succ {depth : Nat} {r : List Char} (h : Dedents depth r) :
    Dedents (depth + 1) r := by
  refine h.imp_right fun hno hpre => hno ?_
  rw [blanks_succ] at hpre
  exact (List.prefix_append _ _).trans hpre

/-- After a statement there is the rest of its block, or the text goes on less deep. -/
private theorem follows_blockChars {depth : Nat} {sts : List (Stmt τ)} {r : List Char}
    (h : ∀ e ∈ exprsAll sts, e.Readable) (hr : Dedents depth r) :
    Follows depth (blockChars depth sts ++ r) := by
  cases sts with
  | nil =>
    refine ⟨hr.succ, ?_⟩
    rintro l rfl
    rcases hr with hnil | hno
    · simp at hnil
    · exact hno (List.prefix_append _ _)
  | cons st sts =>
    have hst : st.Readable := fun e he => h e (List.mem_append_left _ he)
    rw [blockChars_cons, List.append_assoc, List.append_assoc]
    constructor
    · obtain ⟨c, l, hline, hc⟩ := hst.exists_lineChars depth
      rw [hline]
      exact dedents_blanks hc _
    · intro l heq
      have hkey := hst.keyword?_eq depth (k := "else") (by decide) (by decide)
        (List.append_cancel_left heq)
      exact (mem_keywords hkey).2 rfl

/-- The part after `else` is there if and only if it is not empty. -/
private theorem elseChars_inj {depth : Nat} {els : List (Stmt σ)} {els' : List (Stmt τ)}
    {r r' : List Char}
    (hels : ∀ {l l' : List Char}, Dedents (depth + 1) l → Dedents (depth + 1) l' →
      blockChars (depth + 1) els ++ l = blockChars (depth + 1) els' ++ l' →
      els.map untagged = els'.map untagged ∧ l = l')
    (hr : Follows depth r) (hr' : Follows depth r')
    (heq : elseChars depth els ++ r = elseChars depth els' ++ r') :
    els.map untagged = els'.map untagged ∧ r = r' := by
  unfold elseChars at heq
  split at heq
  · next hnil =>
    subst hnil
    split at heq
    · next hnil' =>
      subst hnil'
      exact ⟨rfl, heq⟩
    · exact absurd (by simpa using heq) (hr.noElse _)
  · split at heq
    · exact absurd (by simpa using heq.symm) (hr'.noElse _)
    · simp only [List.append_assoc, List.cons_append, List.append_cancel_left_eq, List.cons.injEq,
        true_and] at heq
      exact hels hr.dedents hr'.dedents heq

private theorem dedents_elseChars {depth : Nat} {els : List (Stmt τ)} {r : List Char}
    (hr : Follows depth r) : Dedents (depth + 1) (elseChars depth els ++ r) := by
  unfold elseChars
  split
  · exact hr.dedents
  · rw [List.append_assoc]
    exact dedents_blanks (c := 'e') (by decide) _

/-- Where the text goes on less deep, there is no statement. -/
private theorem ne_blockChars_cons {depth : Nat} {st : Stmt τ} {sts : List (Stmt τ)}
    {r r' : List Char} (h : st.Readable) (hr : Dedents depth r) :
    r ≠ blockChars depth (st :: sts) ++ r' := by
  rintro rfl
  obtain ⟨c, l, hline, _⟩ := h.exists_lineChars depth
  rw [blockChars_cons, hline, List.append_assoc] at hr
  rcases hr with hnil | hno
  · simp at hnil
  · exact hno (List.prefix_append _ _)

mutual

/-- The line of a statement, with its blocks, tells the statement and where its text ends. -/
private theorem lineChars_inj : ∀ (st : Stmt σ) {st' : Stmt τ} {depth : Nat} {r r' : List Char},
    st.Readable → st'.Readable → Follows depth r → Follows depth r' →
    st.lineChars depth ++ r = st'.lineChars depth ++ r' → st.untagged = st'.untagged ∧ r = r'
  | branch t test thn els, st', depth, r, r', h, h', hr, hr', heq => by
    have hkey := h.keyword?_congr depth h' heq
    cases st' with
    | branch t' test' thn' els' =>
      simp only [Readable, exprs, List.forall_mem_cons, List.forall_mem_append] at h h'
      obtain ⟨htest, hthn, hels⟩ := h
      obtain ⟨htest', hthn', hels'⟩ := h'
      simp only [lineChars_branch, List.append_assoc, List.cons_append, List.append_cancel_left_eq,
        List.cons.injEq, true_and] at heq
      obtain ⟨heqtest, hrest⟩ := htest.append_cons_inj htest' Expr.ends_colon heq
      -- the first block ends where the text goes on less deep, with `else` or after the statement
      obtain ⟨heqthn, hrest⟩ := blockChars_inj thn hthn hthn' (dedents_elseChars hr)
        (dedents_elseChars hr') (List.cons.inj hrest).2
      obtain ⟨heqels, hrest⟩ := elseChars_inj (blockChars_inj els hels hels') hr hr' hrest
      exact ⟨by simp [heqtest, heqthn, heqels], hrest⟩
    | _ => simp [keyword?] at hkey
  | loop t test body, st', depth, r, r', h, h', hr, hr', heq => by
    have hkey := h.keyword?_congr depth h' heq
    cases st' with
    | loop t' test' body' =>
      simp only [Readable, exprs, List.forall_mem_cons] at h h'
      simp only [lineChars_loop, List.append_assoc, List.cons_append, List.append_cancel_left_eq,
        List.cons.injEq, true_and] at heq
      obtain ⟨heqtest, hrest⟩ := h.1.append_cons_inj h'.1 Expr.ends_colon heq
      obtain ⟨heqbody, hrest⟩ := blockChars_inj body h.2 h'.2 hr.dedents hr'.dedents
        (List.cons.inj hrest).2
      exact ⟨by simp [heqtest, heqbody], hrest⟩
    | _ => simp [keyword?] at hkey
  | effect t value, st', depth, r, r', h, h', hr, hr', heq => by
    have hkey := h.keyword?_congr depth h' heq
    cases st' with
    | effect t' value' =>
      simp only [Readable, exprs, List.forall_mem_singleton] at h h'
      simp only [lineChars_effect, List.append_assoc, List.cons_append, List.nil_append] at heq
      obtain ⟨heqvalue, hrest⟩ := h.append_cons_inj h' Expr.ends_newline heq
      exact ⟨by simp [heqvalue], hrest⟩
    | _ => simp [keyword?] at hkey
  | ret t value, st', depth, r, r', h, h', hr, hr', heq => by
    have hkey := h.keyword?_congr depth h' heq
    cases st' with
    | ret t' value' =>
      cases value with
      | none =>
        cases value' with
        | none => simpa [lineChars_bareRet] using heq
        | some value' => simp [lineChars_bareRet, lineChars_ret] at heq
      | some value =>
        cases value' with
        | none => simp [lineChars_bareRet, lineChars_ret] at heq
        | some value' =>
          simp only [Readable, exprs, List.forall_mem_singleton] at h h'
          simp only [lineChars_ret, List.append_assoc, List.cons_append, List.nil_append,
            List.append_cancel_left_eq, List.cons.injEq, true_and] at heq
          obtain ⟨heqvalue, hrest⟩ := h.append_cons_inj h' Expr.ends_newline heq
          exact ⟨by simp [heqvalue], hrest⟩
    | _ => simp [keyword?] at hkey

theorem blockChars_inj : ∀ (sts : List (Stmt σ)) {sts' : List (Stmt τ)} {depth : Nat}
    {r r' : List Char}, (∀ e ∈ exprsAll sts, e.Readable) → (∀ e ∈ exprsAll sts', e.Readable) →
    Dedents depth r → Dedents depth r' → blockChars depth sts ++ r = blockChars depth sts' ++ r' →
    sts.map untagged = sts'.map untagged ∧ r = r'
  | [], sts', depth, r, r', _, h', hr, _, heq => by
    cases sts' with
    | nil => exact ⟨rfl, heq⟩
    | cons st' sts' =>
      rw [exprsAll, List.forall_mem_append] at h'
      exact absurd heq (ne_blockChars_cons h'.1 hr)
  | st :: sts, sts', depth, r, r', h, h', hr, hr', heq => by
    rw [exprsAll, List.forall_mem_append] at h
    cases sts' with
    | nil => exact absurd heq.symm (ne_blockChars_cons h.1 hr')
    | cons st' sts' =>
      rw [exprsAll, List.forall_mem_append] at h'
      rw [blockChars_cons, blockChars_cons] at heq
      simp only [List.append_assoc, List.append_cancel_left_eq] at heq
      obtain ⟨heqst, hrest⟩ := lineChars_inj st h.1 h'.1 (follows_blockChars h.2 hr)
        (follows_blockChars h'.2 hr') heq
      obtain ⟨heqsts, hrest⟩ := blockChars_inj sts h.2 h'.2 hr hr' hrest
      exact ⟨by simp [heqst, heqsts], hrest⟩

end

end Stmt

/-- Two blocks with the same text, and two expressions with the same text, differ in their tags at
most, if all names in them are names and no number is negative. -/
theorem untagged_eq_of_render_eq :
    (∀ (depth : Nat) (sts : List (Stmt σ)) (sts' : List (Stmt τ)),
      (∀ e ∈ Stmt.exprsAll sts, e.Readable) → (∀ e ∈ Stmt.exprsAll sts', e.Readable) →
      Stmt.renderAll depth sts = Stmt.renderAll depth sts' →
      sts.map Stmt.untagged = sts'.map Stmt.untagged) ∧
    ∀ (e : Expr σ) (e' : Expr τ), e.Readable → e'.Readable → e.render = e'.render →
      e.untagged = e'.untagged := by
  constructor
  · intro depth sts sts' h h' heq
    have hchars : Stmt.blockChars depth sts ++ [] = Stmt.blockChars depth sts' ++ [] := by
      rw [Stmt.blockChars, heq, Stmt.blockChars]
    exact (Stmt.blockChars_inj sts h h' (.inl rfl) (.inl rfl) hchars).1
  · intro e e' h h' heq
    have hends : Expr.Ends [] := ⟨nofun, nofun⟩
    have hchars : e.chars ++ [] = e'.chars ++ [] := by
      rw [Expr.chars, heq, Expr.chars]
    exact ((Expr.unambiguous e h).whole h' hends hends hchars).1

/-- Nested blocks with an `else` that could be taken for that of the block around it, and a text with
quotes and lines. -/
def layered : List (Stmt Nat) :=
  [.branch 0 (.binary 1 (.compare .lt) (.neg 2 (.lit 3 (.int 1))) (.var 4 "x"))
    [.branch 5 (.var 6 "y") [] [.ret 7 none]]
    [.loop 8 (.ascribed 9 .bool (.lit 10 (.bool true)))
      [.effect 11 (.call 12 ((Path.single "m").child "f")
        [.lit 13 (.str "\"else:\n\""), .bareCall 14 "elsewhere" []])]],
   .ret 15 (some (.neg 16 (.binary 17 (.arith .sub) (.var 18 "x") (.neg 19 (.var 20 "x")))))]

theorem untagged_eq_of_render_eq_layered :
    (∀ e ∈ Stmt.exprsAll layered, e.Readable) ∧
      (∀ e ∈ Stmt.exprsAll (layered.map (Stmt.retag (· + 1))), e.Readable) ∧
      Stmt.renderAll 1 layered = Stmt.renderAll 1 (layered.map (Stmt.retag (· + 1))) ∧
      layered.map Stmt.untagged = (layered.map (Stmt.retag (· + 1))).map Stmt.untagged := by
  have h : ∀ e ∈ Stmt.exprsAll layered, e.Readable := by
    decide +kernel
  have h' : ∀ e ∈ Stmt.exprsAll (layered.map (Stmt.retag (· + 1))), e.Readable := by
    decide +kernel
  have heq : Stmt.renderAll 1 layered = Stmt.renderAll 1 (layered.map (Stmt.retag (· + 1))) := by
    decide +kernel
  exact ⟨h, h', heq, untagged_eq_of_render_eq.1 1 _ _ h h' heq⟩

end BlockCompiler
