import BlockCompiler.Name.Path
import BlockCompiler.Text.Quoted

/-!
# Words in running text

The smallest parts of source text can be told apart from what follows them: a run of characters of
one kind up to the first of another kind, a quoted text up to its closing quote, and a dotted path up
to the first character that is in no path.
-/

namespace BlockCompiler.Text

/-- The text does not begin with a character of the class `p`. -/
def Halts (p : Char → Bool) (r : List Char) : Prop :=
  ∀ c ∈ r.head?, p c = false

section Halts

variable {p q : Char → Bool} {c : Char} {l l' r r' : List Char}

theorem halts_cons (h : p c = false) : Halts p (c :: r) := by
  intro d hd
  cases hd
  exact h

theorem Halts.imp (h : Halts p r) (hpq : ∀ c, q c → p c) : Halts q r := by
  intro c hc
  have hp := h c hc
  cases hq : q c with
  | false => rfl
  | true => rw [hpq c hq] at hp; cases hp

private theorem Halts.takeWhile_eq_nil (h : Halts p r) : r.takeWhile p = [] := by
  cases r with
  | nil => rfl
  | cons c r => simp [h c rfl]

/-- A run of characters of one kind ends where another kind begins. -/
theorem append_inj_of_halts (hl : ∀ c ∈ l, p c) (hl' : ∀ c ∈ l', p c) (hr : Halts p r)
    (hr' : Halts p r') (h : l ++ r = l' ++ r') : l = l' ∧ r = r' := by
  have htake := congrArg (List.takeWhile p) h
  rw [List.takeWhile_append_of_pos hl, List.takeWhile_append_of_pos hl', hr.takeWhile_eq_nil,
    hr'.takeWhile_eq_nil, List.append_nil, List.append_nil] at htake
  subst htake
  exact ⟨rfl, List.append_cancel_left h⟩

/-- A text without a certain character ends where that character stands. -/
theorem append_cons_inj_of_notMem {s s' : String} (h : c ∉ s.toList) (h' : c ∉ s'.toList)
    (heq : s.toList ++ c :: r = s'.toList ++ c :: r') : s = s' ∧ r = r' := by
  have hother {s : String} (h : c ∉ s.toList) : ∀ d ∈ s.toList, (d != c) = true := by
    intro d hd
    rw [bne_iff_ne]
    rintro rfl
    exact h hd
  obtain ⟨hs, hr⟩ := append_inj_of_halts (hother h) (hother h') (halts_cons (by simp))
    (halts_cons (by simp)) heq
  exact ⟨String.toList_inj.1 hs, (List.cons.inj hr).2⟩

end Halts

section Digits

theorem digitChar_inj : ∀ m < 16, ∀ n < 16, m.digitChar = n.digitChar → m = n := by
  decide

private theorem digitChar_ne_brace : ∀ n < 16, n.digitChar ≠ '\x7d' := by
  decide

private theorem brace_notMem_toDigits (n : Nat) : '\x7d' ∉ Nat.toDigits 16 n := by
  induction n using Nat.strongRecOn with
  | ind n ih =>
    rw [Nat.toDigits_eq_if (by decide)]
    split
    · next hlt =>
      rw [List.mem_singleton]
      exact (digitChar_ne_brace n hlt).symm
    · next hge =>
      rw [List.mem_append, List.mem_singleton, not_or]
      exact ⟨ih (n / 16) (by omega), (digitChar_ne_brace _ (Nat.mod_lt n (by decide))).symm⟩

private theorem toDigits_inj {m n : Nat} (h : Nat.toDigits 16 m = Nat.toDigits 16 n) : m = n := by
  induction m using Nat.strongRecOn generalizing n with
  | ind m ih =>
    rw [Nat.toDigits_eq_if (by decide), Nat.toDigits_eq_if (n := n) (by decide)] at h
    -- a single digit has nothing before it, and there is something before the last of many
    split at h <;> split at h
    · next hm hn => exact digitChar_inj m hm n hn (List.singleton_inj.1 h)
    · have hnil := (List.append_inj' (show [] ++ [m.digitChar] = _ from h) rfl).1
      exact absurd hnil.symm Nat.toDigits_ne_nil
    · have hnil := (List.append_inj' (show _ = [] ++ [n.digitChar] from h) rfl).1
      exact absurd hnil Nat.toDigits_ne_nil
    · obtain ⟨hinit, hlast⟩ := List.append_inj' h rfl
      have hdiv := ih (m / 16) (by omega) hinit
      have hmod := digitChar_inj _ (Nat.mod_lt m (by decide)) _ (Nat.mod_lt n (by decide))
        (List.singleton_inj.1 hlast)
      omega

end Digits

/-- The character that a backslash and `c` stand for. -/
def unescape? : Char → Option Char
  | '\x22' => some '\x22'
  | '\\' => some '\\'
  | 't' => some '\t'
  | 'n' => some '\n'
  | 'r' => some '\r'
  | '0' => some '\x00'
  | _ => none

/-- The three ways in which a character stands between quotes. -/
inductive QuotedAs (c : Char) : List Char → Prop where
  | shown (hquote : c ≠ '\x22') (hback : c ≠ '\\') : QuotedAs c [c]
  | escaped {x : Char} (h : unescape? x = some c) : QuotedAs c ['\\', x]
  | codePoint : QuotedAs c (codePoint c)

private theorem quotedAs_quoteChar (c : Char) : QuotedAs c (quoteChar c) := by
  unfold quoteChar
  split
  · exact .escaped rfl
  · exact .escaped rfl
  · exact .escaped rfl
  · exact .escaped rfl
  · exact .escaped rfl
  · exact .escaped rfl
  · next hquote hback _ _ _ _ =>
    split
    · exact .shown hquote hback
    · exact .codePoint

/-- No character begins with the closing quote. -/
private theorem QuotedAs.ne_quote {c : Char} {l r r' : List Char} (h : QuotedAs c l) :
    l ++ r ≠ '\x22' :: r' := by
  cases h with
  | shown hquote _ => simp [hquote]
  | escaped _ | codePoint => simp [Text.codePoint]

/-- The digits of a code point end at the closing brace. -/
private theorem codePoint_inj {c c' : Char} {r r' : List Char}
    (h : codePoint c ++ r = codePoint c' ++ r') : c = c' ∧ r = r' := by
  simp only [codePoint, List.cons_append, List.append_assoc, List.cons.injEq, true_and,
    List.nil_append] at h
  have hdigits : ∀ n, ∀ d ∈ Nat.toDigits 16 n, (d != '\x7d') = true := by
    intro n d hd
    rw [bne_iff_ne]
    rintro rfl
    exact brace_notMem_toDigits n hd
  obtain ⟨hd, hr⟩ := append_inj_of_halts (hdigits _) (hdigits _) (halts_cons rfl) (halts_cons rfl) h
  exact ⟨Char.toNat_inj.1 (toDigits_inj hd), (List.cons.inj hr).2⟩

/-- A quoted character ends by itself. -/
private theorem QuotedAs.inj {c c' : Char} {l l' r r' : List Char} (h : QuotedAs c l)
    (h' : QuotedAs c' l') (heq : l ++ r = l' ++ r') : c = c' ∧ r = r' := by
  cases h with
  | shown _ hback =>
    cases h' with
    | shown _ _ => simpa using heq
    | escaped _ | codePoint => simp [Text.codePoint, hback] at heq
  | @escaped x h =>
    cases h' with
    | shown _ hback' => simp [Ne.symm hback'] at heq
    | @escaped x' h' =>
      simp only [List.cons_append, List.nil_append, List.cons.injEq, true_and] at heq
      obtain ⟨rfl, hr⟩ := heq
      exact ⟨Option.some.inj (h.symm.trans h'), hr⟩
    | codePoint =>
      simp only [Text.codePoint, List.cons_append, List.cons.injEq, true_and] at heq
      rw [heq.1] at h
      cases h
  | codePoint =>
    cases h' with
    | shown _ hback' => simp [Text.codePoint, Ne.symm hback'] at heq
    | @escaped x' h' =>
      simp only [Text.codePoint, List.cons_append, List.cons.injEq, true_and] at heq
      rw [← heq.1] at h'
      cases h'
    | codePoint => exact codePoint_inj heq

private theorem flatMap_quoteChar_inj {cs cs' r r' : List Char}
    (h : cs.flatMap quoteChar ++ '\x22' :: r = cs'.flatMap quoteChar ++ '\x22' :: r') :
    cs = cs' ∧ r = r' := by
  induction cs generalizing cs' with
  | nil =>
    cases cs' with
    | nil => simpa using h
    | cons c' cs' =>
      rw [List.flatMap_cons, List.append_assoc] at h
      exact absurd h.symm (quotedAs_quoteChar c').ne_quote
  | cons c cs ih =>
    cases cs' with
    | nil =>
      rw [List.flatMap_cons, List.append_assoc] at h
      exact absurd h (quotedAs_quoteChar c).ne_quote
    | cons c' cs' =>
      rw [List.flatMap_cons, List.flatMap_cons, List.append_assoc, List.append_assoc] at h
      obtain ⟨rfl, hrest⟩ := (quotedAs_quoteChar c).inj (quotedAs_quoteChar c') h
      obtain ⟨rfl, hr⟩ := ih hrest
      exact ⟨rfl, hr⟩

/-- A quoted text ends at its closing quote, and tells the text. -/
theorem quoted_inj {s s' : String} {r r' : List Char}
    (h : (quoted s).toList ++ r = (quoted s').toList ++ r') : s = s' ∧ r = r' := by
  simp only [quoted, String.toList_ofList, List.cons_append, List.append_assoc, List.cons.injEq,
    true_and, List.nil_append] at h
  obtain ⟨hs, hr⟩ := flatMap_quoteChar_inj h
  exact ⟨String.toList_inj.1 hs, hr⟩

/-- The characters a name can begin with. All that is beyond ASCII counts as a letter. -/
def isNameStart (c : Char) : Bool :=
  c.isAlpha || c == '_' || decide (128 ≤ c.toNat)

def isNamePart (c : Char) : Bool :=
  isNameStart c || c.isDigit

def isPathPart (c : Char) : Bool :=
  isNamePart c || c == '.'

def isWord (s : String) : Bool :=
  match s.toList with
  | [] => false
  | c :: cs => isNameStart c && cs.all isNamePart

/-- The words that begin the lines of statements. -/
def keywords : List String :=
  ["if", "else", "while", "return"]

/-- The words that are no names. -/
def reserved : List String :=
  "true" :: "false" :: keywords

def isName (s : String) : Bool :=
  isWord s && !reserved.contains s

theorem isNameStart_of_isDigit {c : Char} (h : c.isDigit) : isNameStart c = false := by
  have hrange : 48 ≤ c.toNat ∧ c.toNat ≤ 57 := by
    simpa [Char.isDigit, UInt32.le_iff_toNat_le] using h
  have hne : c ≠ '_' := by
    rintro rfl
    cases h
  have halpha : c.isAlpha = false := by
    delta Char.isAlpha Char.isUpper Char.isLower
    simp only [UInt32.le_iff_toNat_le, Bool.or_eq_false_iff, ← Bool.decide_and,
      decide_eq_false_iff_not]
    change ¬(65 ≤ c.toNat ∧ c.toNat ≤ 90) ∧ ¬(97 ≤ c.toNat ∧ c.toNat ≤ 122)
    omega
  simp only [isNameStart, halpha, Bool.false_or, Bool.or_eq_false_iff, beq_eq_false_iff_ne,
    decide_eq_false_iff_not]
  exact ⟨hne, by omega⟩

section Words

variable {s : String}

theorem isName_iff : isName s ↔ isWord s ∧ s ∉ reserved := by
  simp [isName]

theorem exists_of_isWord (h : isWord s) : ∃ c cs, s.toList = c :: cs ∧ isNameStart c := by
  unfold isWord at h
  split at h
  · cases h
  · next c cs hs =>
    rw [Bool.and_eq_true] at h
    exact ⟨c, cs, hs, h.1⟩

theorem isNamePart_of_isWord (h : isWord s) : ∀ c ∈ s.toList, isNamePart c := by
  unfold isWord at h
  split at h
  · cases h
  · next c cs hs =>
    rw [Bool.and_eq_true, List.all_eq_true] at h
    rw [hs, List.forall_mem_cons]
    exact ⟨by simp [isNamePart, h.1], h.2⟩

end Words

/-- Segments with dots between them. -/
def dotted (segments : List String) : List Char :=
  ['.'].intercalate (segments.map String.toList)

/-- What follows the first of the segments. -/
def dottedTail (segments : List String) : List Char :=
  if segments = [] then [] else '.' :: dotted segments

theorem dotted_cons (s : String) (segments : List String) :
    dotted (s :: segments) = s.toList ++ dottedTail segments := by
  cases segments <;> simp [dotted, dottedTail]

section Dotted

variable {s : String} {segments segments' : List String} {r r' : List Char}

theorem halts_dottedTail (hr : Halts isNamePart r) :
    Halts isNamePart (dottedTail segments ++ r) := by
  unfold dottedTail
  split
  · exact hr
  · exact halts_cons (by decide)

private theorem isPathPart_of_mem_dotted (h : ∀ s ∈ segments, isWord s) :
    ∀ c ∈ dotted segments, isPathPart c := by
  induction segments with
  | nil => simp [dotted]
  | cons s segments ih =>
    rw [List.forall_mem_cons] at h
    rw [dotted_cons, List.forall_mem_append]
    constructor
    · intro c hc
      simp [isPathPart, isNamePart_of_isWord h.1 c hc]
    · unfold dottedTail
      split
      · simp
      · exact List.forall_mem_cons.2 ⟨rfl, ih h.2⟩

private theorem dotted_inj (h : ∀ s ∈ segments, isWord s) (h' : ∀ s ∈ segments', isWord s)
    (hne : segments ≠ []) (hne' : segments' ≠ []) (heq : dotted segments = dotted segments') :
    segments = segments' := by
  have hdot : ∀ {segments : List String}, (∀ s ∈ segments, isWord s) →
      ∀ l ∈ segments.map String.toList, '.' ∉ l := by
    intro segments h l hl hmem
    obtain ⟨s, hs, rfl⟩ := List.mem_map.1 hl
    exact absurd (isNamePart_of_isWord (h s hs) _ hmem) (by decide)
  have hsplit := congrArg (List.splitOn '.') heq
  unfold dotted at hsplit
  rw [List.splitOn_intercalate _ (hdot h) (by simpa),
    List.splitOn_intercalate _ (hdot h') (by simpa)] at hsplit
  exact (List.map_inj_right fun _ _ => String.toList_inj.1).1 hsplit

/-- A dotted path ends where no path goes on. -/
theorem dotted_append_inj (h : ∀ s ∈ segments, isWord s) (h' : ∀ s ∈ segments', isWord s)
    (hne : segments ≠ []) (hne' : segments' ≠ []) (hr : Halts isPathPart r)
    (hr' : Halts isPathPart r') (heq : dotted segments ++ r = dotted segments' ++ r') :
    segments = segments' ∧ r = r' := by
  obtain ⟨hd, hrest⟩ := append_inj_of_halts (isPathPart_of_mem_dotted h)
    (isPathPart_of_mem_dotted h') hr hr' heq
  exact ⟨dotted_inj h h' hne hne' hd, hrest⟩

end Dotted

end BlockCompiler.Text
