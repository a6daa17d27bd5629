import BlockCompiler.Name.Path
import Mathlib.Data.Set.Function

/-!
# Flat names

A path becomes flat when its segments are joined with a separator. A segment may hold the separator
itself, so a flat name tells the pieces between separators and not which of them made up a segment.
-/

namespace BlockCompiler

namespace Text

variable {sep : Char} {cs : List Char}

theorem pieces_eq_splitOn (sep : Char) (cs : List Char) : pieces sep cs = cs.splitOn sep := by
  induction cs with
  | nil => rfl
  | cons c cs ih =>
    rw [pieces, ih, List.splitOn, List.splitOn, List.splitOnP_cons_eq_if_modifyHead]
    simp only [beq_iff_eq]

/-- The pieces tell the text they were cut from. -/
private theorem pieces_inj {cs' : List Char} : pieces sep cs = pieces sep cs' ↔ cs = cs' := by
  constructor
  · intro h
    have hjoin := congrArg [sep].intercalate h
    rwa [pieces_eq_splitOn, pieces_eq_splitOn, List.intercalate_splitOn,
      List.intercalate_splitOn] at hjoin
  · rintro rfl
    rfl

private theorem pieces_of_notMem (h : sep ∉ cs) : pieces sep cs = [cs] := by
  rw [pieces_eq_splitOn, List.splitOn_eq_singleton h]

/-- A separator cuts a text in two, and each part falls into its own pieces. -/
private theorem pieces_append_cons (sep : Char) (l r : List Char) :
    pieces sep (l ++ sep :: r) = pieces sep l ++ pieces sep r := by
  simp only [pieces_eq_splitOn, List.splitOn_append_cons_self]

/-- Joining texts and cutting the whole is cutting each of the texts. -/
private theorem pieces_intercalate (sep : Char) {texts : List (List Char)} (h : texts ≠ []) :
    pieces sep ([sep].intercalate texts) = texts.flatMap (pieces sep) := by
  induction texts with
  | nil => exact absurd rfl h
  | cons text texts ih =>
    cases texts with
    | nil => simp
    | cons text' texts =>
      rw [List.intercalate_cons_cons, List.append_assoc, List.singleton_append,
        pieces_append_cons, ih (List.cons_ne_nil _ _)]
      rfl

end Text

namespace Path

/-- The segments of a path, each cut at its underscores. -/
def linkPieces (p : Path) : List (List Char) :=
  p.segments.flatMap fun s => Text.pieces '_' s.toList

private theorem pieces_linkName (p : Path) : Text.pieces '_' p.linkName.toList = p.linkPieces := by
  have hne : p.segments.map String.toList ≠ [] := by
    simpa using p.segments_ne_nil
  calc Text.pieces '_' p.linkName.toList
      = Text.pieces '_' (['_'].intercalate (p.segments.map String.toList)) := by
        rw [linkName, String.toList_intercalate]
        rfl
    _ = (p.segments.map String.toList).flatMap (Text.pieces '_') :=
        Text.pieces_intercalate '_' hne
    _ = p.linkPieces := by
        rw [List.flatMap_map, linkPieces]

private theorem linkPieces_of_notMem {p : Path} (h : ∀ s ∈ p.segments, '_' ∉ s.toList) :
    p.linkPieces = p.segments.map String.toList := by
  have hpieces : p.segments.map (fun s => Text.pieces '_' s.toList) =
      p.segments.map fun s => [s.toList] :=
    List.map_congr_left fun s hs => Text.pieces_of_notMem (h s hs)
  rw [linkPieces, List.flatMap_def, hpieces, ← List.flatMap_def, List.map_eq_flatMap]

theorem linkName_eq_iff (a b : Path) : a.linkName = b.linkName ↔ a.linkPieces = b.linkPieces := by
  rw [← pieces_linkName, ← pieces_linkName, Text.pieces_inj, String.toList_inj]

theorem injOn_linkName : Set.InjOn linkName {p | ∀ s ∈ p.segments, '_' ∉ s.toList} := by
  intro a ha b hb h
  have hpieces := (linkName_eq_iff a b).1 h
  rw [linkPieces_of_notMem ha, linkPieces_of_notMem hb] at hpieces
  exact Path.ext ((List.map_inj_right fun _ _ => String.toList_inj.1).1 hpieces)

/-- Two paths have one link name if and only if the pieces of their segments between underscores are
the same. So no two paths without underscores have one link name. -/
theorem linkName_collisions :
    (∀ a b : Path, a.linkName = b.linkName ↔ a.linkPieces = b.linkPieces) ∧
      Set.InjOn linkName {p | ∀ s ∈ p.segments, '_' ∉ s.toList} :=
  ⟨linkName_eq_iff, injOn_linkName⟩

/-- An underscore may stand at the end of one segment or at the beginning of the next. -/
example : (⟨["a_", "b"], by simp⟩ : Path).linkName =
    (⟨["a", "_b"], by simp⟩ : Path).linkName := by
  decide +kernel

end Path

end BlockCompiler
