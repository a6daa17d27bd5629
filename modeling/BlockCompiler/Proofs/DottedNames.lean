import BlockCompiler.Proofs.FlatNames

/-!
# Dotted names

Writing a path with dots keeps every segment as it is; reading a text drops its empty pieces. The
two are inverse on the paths whose segments are neither empty nor hold a dot, and every text that is
a path at all is read as one of these.
-/

namespace BlockCompiler

namespace Text

variable {sep c : Char} {cs piece : List Char} {rest : List (List Char)}

/-- The pieces of a text that are not empty. -/
def fullPieces (sep : Char) (cs : List Char) : List (List Char) :=
  (pieces sep cs).filter (!·.isEmpty)

/-- Whether a piece is over: a separator comes next, or nothing. -/
def endsPiece (sep : Char) : List Char → Bool
  | [] => true
  | c :: _ => c == sep

/-- The text without the separators that stand before another one or at the end. -/
def squeeze (sep : Char) : List Char → List Char
  | [] => []
  | c :: cs => if c = sep ∧ endsPiece sep cs then squeeze sep cs else c :: squeeze sep cs

/-- The text without its empty pieces: no separator is left at either end or next to another. -/
def dropEmptyPieces (sep : Char) (cs : List Char) : List Char :=
  squeeze sep (cs.dropWhile (· == sep))

private theorem pieces_cons_self (sep : Char) (cs : List Char) :
    pieces sep (sep :: cs) = [] :: pieces sep cs := by
  rw [pieces, if_pos rfl]

private theorem pieces_cons_of_ne (hc : c ≠ sep) (h : pieces sep cs = piece :: rest) :
    pieces sep (c :: cs) = (c :: piece) :: rest := by
  rw [pieces, if_neg hc, h, List.modifyHead_cons]

/-- A character opens a piece of its own if it is a separator, and else joins the first piece. -/
private theorem pieces_cons_cases (h : pieces sep (c :: cs) = piece :: rest) :
    ∃ first rest', pieces sep cs = first :: rest' ∧
      (c = sep ∧ piece = [] ∧ rest = first :: rest' ∨
        c ≠ sep ∧ piece = c :: first ∧ rest = rest') := by
  obtain ⟨first, rest', hcs⟩ := List.exists_cons_of_ne_nil (pieces_ne_nil sep cs)
  use first, rest', hcs
  by_cases hc : c = sep
  · subst hc
    rw [pieces_cons_self, hcs] at h
    obtain ⟨hpiece, hrest⟩ := List.cons_eq_cons.1 h
    exact .inl ⟨rfl, hpiece.symm, hrest.symm⟩
  · rw [pieces_cons_of_ne hc hcs] at h
    obtain ⟨hpiece, hrest⟩ := List.cons_eq_cons.1 h
    exact .inr ⟨hc, hpiece.symm, hrest.symm⟩

private theorem notMem_of_mem_pieces (h : piece ∈ pieces sep cs) : sep ∉ piece := by
  induction cs generalizing piece with
  | nil =>
    obtain rfl : piece = [] := by simpa using h
    exact List.not_mem_nil
  | cons c cs ih =>
    obtain ⟨first, rest, hcs⟩ := List.exists_cons_of_ne_nil (pieces_ne_nil sep cs)
    by_cases hc : c = sep
    · subst hc
      rw [pieces_cons_self] at h
      rcases List.mem_cons.1 h with rfl | hmem
      · exact List.not_mem_nil
      · exact ih hmem
    · rw [pieces_cons_of_ne hc hcs] at h
      rcases List.mem_cons.1 h with rfl | hmem
      · have hfirst : sep ∉ first := ih (hcs ▸ List.mem_cons_self)
        exact List.not_mem_cons_of_ne_of_not_mem (Ne.symm hc) hfirst
      · exact ih (hcs ▸ List.mem_cons_of_mem _ hmem)

private theorem endsPiece_iff (h : pieces sep cs = piece :: rest) :
    endsPiece sep cs ↔ piece = [] := by
  cases cs with
  | nil =>
    obtain ⟨rfl, -⟩ := List.cons_eq_cons.1 h
    exact ⟨fun _ => rfl, fun _ => rfl⟩
  | cons c cs =>
    obtain ⟨first, rest', -, ⟨rfl, rfl, -⟩ | ⟨hc, rfl, -⟩⟩ := pieces_cons_cases h
    · simp [endsPiece]
    · simp [endsPiece, hc]

private theorem mem_fullPieces :
    piece ∈ fullPieces sep cs ↔ piece ∈ pieces sep cs ∧ piece ≠ [] := by
  simp [fullPieces]

private theorem of_mem_fullPieces (h : piece ∈ fullPieces sep cs) : piece ≠ [] ∧ sep ∉ piece :=
  ⟨(mem_fullPieces.1 h).2, notMem_of_mem_pieces (mem_fullPieces.1 h).1⟩

private theorem fullPieces_cons_self (sep : Char) (cs : List Char) :
    fullPieces sep (sep :: cs) = fullPieces sep cs := by
  rw [fullPieces, pieces_cons_self]
  rfl

private theorem fullPieces_dropWhile (sep : Char) (cs : List Char) :
    fullPieces sep (cs.dropWhile (· == sep)) = fullPieces sep cs := by
  induction cs with
  | nil => rfl
  | cons c cs ih =>
    by_cases hc : c = sep
    · subst hc
      rw [List.dropWhile_cons_of_pos (by simp), ih, fullPieces_cons_self]
    · rw [List.dropWhile_cons_of_neg (by simpa using hc)]

/-- Only separators stand in a text without full pieces. -/
private theorem fullPieces_eq_nil_iff : fullPieces sep cs = [] ↔ ∀ c ∈ cs, c = sep := by
  induction cs with
  | nil => simp [fullPieces]
  | cons c cs ih =>
    by_cases hc : c = sep
    · subst hc
      rw [fullPieces_cons_self, ih, List.forall_mem_cons]
      simp
    · obtain ⟨first, rest, hcs⟩ := List.exists_cons_of_ne_nil (pieces_ne_nil sep cs)
      rw [fullPieces, pieces_cons_of_ne hc hcs]
      simp [hc]

/-- Full pieces joined with separators are found again. -/
private theorem fullPieces_intercalate {texts : List (List Char)}
    (h : ∀ text ∈ texts, text ≠ [] ∧ sep ∉ text) :
    fullPieces sep ([sep].intercalate texts) = texts := by
  cases texts with
  | nil => rfl
  | cons text texts =>
    have hpieces : pieces sep ([sep].intercalate (text :: texts)) = text :: texts := by
      rw [pieces_eq_splitOn]
      exact List.splitOn_intercalate sep (fun t ht => (h t ht).2) (List.cons_ne_nil _ _)
    rw [fullPieces, hpieces, List.filter_eq_self]
    intro t ht
    simpa using (h t ht).1

/-- Squeezing keeps the first piece, empty or not, and of the others those that are full. -/
private theorem squeeze_eq_intercalate (h : pieces sep cs = piece :: rest) :
    squeeze sep cs = [sep].intercalate (piece :: rest.filter (!·.isEmpty)) := by
  induction cs generalizing piece rest with
  | nil =>
    obtain ⟨rfl, rfl⟩ := List.cons_eq_cons.1 h
    rfl
  | cons c cs ih =>
    obtain ⟨first, rest', hcs, ⟨rfl, rfl, rfl⟩ | ⟨hc, rfl, rfl⟩⟩ := pieces_cons_cases h
    · -- The separator stays if the piece after it is full, and that piece is then kept too.
      have hends := endsPiece_iff hcs
      rw [squeeze, ih hcs]
      by_cases hfirst : first = []
      · rw [if_pos ⟨rfl, hends.2 hfirst⟩, hfirst]
        rfl
      · rw [if_neg fun hsep => hfirst (hends.1 hsep.2),
          List.filter_cons_of_pos (by simpa using hfirst)]
        rfl
    · rw [squeeze, if_neg fun hsep => hc hsep.1, ih hcs]
      cases rest.filter (!·.isEmpty) <;> simp [List.intercalate_cons_cons]

/-- Cutting the text, leaving out the empty pieces and joining the others gives the same text. -/
private theorem dropEmptyPieces_eq_intercalate (sep : Char) (cs : List Char) :
    dropEmptyPieces sep cs = [sep].intercalate (fullPieces sep cs) := by
  rw [dropEmptyPieces, ← fullPieces_dropWhile]
  cases hcs : cs.dropWhile (· == sep) with
  | nil => rfl
  | cons c cs' =>
    have hc : c ≠ sep := by
      have hhead := List.head?_dropWhile_not (· == sep) cs
      simpa [hcs] using hhead
    obtain ⟨first, rest, hcs'⟩ := List.exists_cons_of_ne_nil (pieces_ne_nil sep cs')
    have hpieces := pieces_cons_of_ne hc hcs'
    rw [squeeze_eq_intercalate hpieces, fullPieces, hpieces, List.filter_cons_of_pos rfl]

end Text

namespace Path

variable {p : Path} {s : String}

/-- No segment is empty or holds a dot. -/
def Dottable (p : Path) : Prop :=
  ∀ segment ∈ p.segments, segment ≠ "" ∧ '.' ∉ segment.toList

private theorem toList_dotted (p : Path) :
    p.dotted.toList = ['.'].intercalate (p.segments.map String.toList) := by
  rw [dotted, String.toList_intercalate]
  rfl

/-- The segments of a path read from a text are the full pieces of the text. -/
private theorem ofDotted?_eq_some_iff_fullPieces :
    ofDotted? s = some p ↔ Text.fullPieces '.' s.toList = p.segments.map String.toList := by
  rw [ofDotted?, ofSegments?_eq_some_iff, ← Text.fullPieces]
  constructor
  · intro h
    rw [← h, List.map_map]
    simp [Function.comp_def]
  · intro h
    rw [h, List.map_map]
    simp [Function.comp_def]

private theorem dottable_iff :
    p.Dottable ↔ ∀ text ∈ p.segments.map String.toList, text ≠ [] ∧ '.' ∉ text := by
  simp [Dottable]

private theorem Dottable.fullPieces_dotted (h : p.Dottable) :
    Text.fullPieces '.' p.dotted.toList = p.segments.map String.toList := by
  rw [toList_dotted]
  exact Text.fullPieces_intercalate (dottable_iff.1 h)

private theorem dottable_of_ofDotted? (h : ofDotted? s = some p) : p.Dottable := by
  rw [dottable_iff, ← ofDotted?_eq_some_iff_fullPieces.1 h]
  intro text htext
  exact Text.of_mem_fullPieces htext

theorem ofDotted?_dotted_eq_some_iff (p : Path) : ofDotted? p.dotted = some p ↔ p.Dottable := by
  constructor
  · exact dottable_of_ofDotted?
  · intro h
    exact ofDotted?_eq_some_iff_fullPieces.2 h.fullPieces_dotted

theorem ofDotted?_eq_some_iff (s : String) (p : Path) :
    ofDotted? s = some p ↔
      p.Dottable ∧ String.ofList (Text.dropEmptyPieces '.' s.toList) = p.dotted := by
  rw [← String.toList_inj, String.toList_ofList, Text.dropEmptyPieces_eq_intercalate]
  constructor
  · intro h
    have hpieces := ofDotted?_eq_some_iff_fullPieces.1 h
    exact ⟨dottable_of_ofDotted? h, by rw [hpieces, toList_dotted]⟩
  · rintro ⟨hp, hdots⟩
    -- What is left of the text has the full pieces the text has.
    rw [ofDotted?_eq_some_iff_fullPieces]
    calc Text.fullPieces '.' s.toList
        = Text.fullPieces '.' (['.'].intercalate (Text.fullPieces '.' s.toList)) :=
          (Text.fullPieces_intercalate fun _ => Text.of_mem_fullPieces).symm
      _ = Text.fullPieces '.' p.dotted.toList := by rw [hdots]
      _ = p.segments.map String.toList := hp.fullPieces_dotted

theorem ofDotted?_eq_none_iff (s : String) : ofDotted? s = none ↔ ∀ c ∈ s.toList, c = '.' := by
  rw [ofDotted?, ofSegments?_eq_none_iff, List.map_eq_nil_iff, ← Text.fullPieces,
    Text.fullPieces_eq_nil_iff]

/-- The dotted form of a path is read as the path if and only if no segment is empty or holds a dot.
Every path that is read from a text is of this kind, and its dotted form is the text without its
empty pieces. A text is no path if and only if there is nothing but dots in it. -/
theorem dotted_roundTrip :
    (∀ p : Path, ofDotted? p.dotted = some p ↔ p.Dottable) ∧
      (∀ (s : String) (p : Path), ofDotted? s = some p ↔
        p.Dottable ∧ String.ofList (Text.dropEmptyPieces '.' s.toList) = p.dotted) ∧
      ∀ s : String, ofDotted? s = none ↔ ∀ c ∈ s.toList, c = '.' :=
  ⟨ofDotted?_dotted_eq_some_iff, ofDotted?_eq_some_iff, ofDotted?_eq_none_iff⟩

/-- A dot inside a segment is read as the end of one. -/
example : ofDotted? (single "a.b").dotted = some ((single "a").child "b") := by
  decide +kernel

end Path

end BlockCompiler
