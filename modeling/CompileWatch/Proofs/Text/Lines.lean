import CompileWatch.Text.Lines

/-!
# Texts that are made of lines

A text can be made of lines in two ways: a line feed behind each of them, or one
between any two. Either way the lines are read back, but for a carriage return at
the end of a line, which is taken for a part of the ending (`lines_ended`), and for
empty lines at the end where nothing stands behind them (`lines_intercalate`).
-/

namespace CompileWatch.Text

/-- A line as it is read from the one that was written. -/
def withoutReturn (line : String) : String := String.ofList (dropCarriageReturn line.toList)

theorem linesOfPieces_concat (last : List Char) : ∀ pieces : List (List Char),
    linesOfPieces (pieces ++ [last]) =
      pieces.map dropCarriageReturn ++ if last.isEmpty then [] else [last]
  | [] => rfl
  | piece :: rest => by
      have hcons : linesOfPieces (piece :: (rest ++ [last])) =
          dropCarriageReturn piece :: linesOfPieces (rest ++ [last]) := by
        cases rest <;> rfl
      rw [List.cons_append, hcons, linesOfPieces_concat last rest]
      rfl

/-- The line feeds of a text end its lines. -/
theorem splitOn_ended : ∀ {texts : List String}, (∀ t ∈ texts, '\n' ∉ t.toList) →
    (String.join (texts.map (· ++ "\n"))).toList.splitOn '\n' = texts.map String.toList ++ [[]]
  | [], _ => rfl
  | text :: rest, h => by
      obtain ⟨htext, hrest⟩ := List.forall_mem_cons.1 h
      rw [List.map_cons, String.join_cons, String.toList_append, String.toList_append,
        List.append_assoc]
      show (text.toList ++ '\n' :: (String.join (rest.map (· ++ "\n"))).toList).splitOn '\n' = _
      rw [List.splitOn_append_cons_self, List.splitOn_eq_singleton htext, splitOn_ended hrest]
      rfl

theorem lines_ended {texts : List String} (h : ∀ t ∈ texts, '\n' ∉ t.toList) :
    lines (String.join (texts.map (· ++ "\n"))) = texts.map withoutReturn := by
  rw [lines, splitOn_ended h, linesOfPieces_concat, List.isEmpty_nil, if_pos rfl, List.append_nil,
    List.map_map, List.map_map]
  rfl

theorem withoutReturn_eq_self {line : String} (h : line.toList.getLast? ≠ some '\r') :
    withoutReturn line = line := by
  rw [withoutReturn, dropCarriageReturn, if_neg h, String.ofList_toList]

theorem splitOn_intercalate {texts : List String} (hne : texts ≠ [])
    (h : ∀ t ∈ texts, '\n' ∉ t.toList) :
    ("\n".intercalate texts).toList.splitOn '\n' = texts.map String.toList := by
  have hpieces : ∀ piece ∈ texts.map String.toList, '\n' ∉ piece := List.forall_mem_map.2 h
  rw [String.toList_intercalate]
  exact List.splitOn_intercalate _ hpieces (by simpa using hne)

/-- Lines that hold something, and have no carriage return at their ends, are read back from a text
in which line feeds stand between them. -/
theorem lines_intercalate {texts : List String} (hfull : ∀ t ∈ texts, t ≠ "")
    (hbreak : ∀ t ∈ texts, '\n' ∉ t.toList) (hend : ∀ t ∈ texts, t.toList.getLast? ≠ some '\r') :
    lines ("\n".intercalate texts) = texts := by
  rcases List.eq_nil_or_concat texts with rfl | ⟨front, last, rfl⟩
  · rfl
  · rw [List.concat_eq_append] at hfull hbreak hend ⊢
    have hlast : last.toList.isEmpty = false := by
      simpa using hfull last List.mem_concat_self
    have hfront : front.map (withoutReturn ·) = front := by
      refine (List.map_congr_left fun text ht => ?_).trans (List.map_id _)
      exact withoutReturn_eq_self (hend text (List.mem_append_left _ ht))
    rw [lines, splitOn_intercalate (by simp) hbreak, List.map_append, List.map_singleton,
      linesOfPieces_concat, hlast, if_neg (by decide), List.map_append, List.map_map, List.map_map]
    show front.map (withoutReturn ·) ++ [String.ofList last.toList] = _
    rw [hfront, String.ofList_toList]

end CompileWatch.Text
