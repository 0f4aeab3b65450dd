import CompileWatch.Proofs.Path.Joining

/-!
# Parents of paths

A parent is spelled as its path is, up to the last segment that holds a
component. Read back, it has the components of the path but for the last one.
The empty parent of a relative path is the exception: that of `.` has no
components, and neither has the path, as far as a file system is concerned.
-/

namespace CompileWatch.Path

theorem joinSegments_append {before after : List Segment} (hb : before ≠ []) (ha : after ≠ []) :
    joinSegments (before ++ after) = joinSegments before ++ '/' :: joinSegments after := by
  induction before with
  | nil => exact absurd rfl hb
  | cons segment rest ih =>
      cases rest with
      | nil =>
          cases after with
          | nil => exact absurd rfl ha
          | cons next more => simp [joinSegments]
      | cons other rest =>
          have ih := ih (List.cons_ne_nil _ _)
          simp only [joinSegments, List.cons_append, List.intercalate_cons_cons] at ih ⊢
          rw [ih]
          simp

theorem toList_text (p : Path) : p.text.toList = p.anchor ++ joinSegments p.segments := by
  rw [joinSegments, segments, List.intercalate_splitOn]
  unfold anchor
  fun_cases splitAnchor p.text.toList with
  | case1 => simp
  | case2 => simp
  | case3 => simp
  | case4 => simp

theorem anchor_cases (p : Path) : p.anchor = ['/'] ∨ p.anchor = ['.'] ∨ p.anchor = [] := by
  unfold anchor
  fun_cases splitAnchor p.text.toList with
  | case1 => exact .inl rfl
  | case2 => exact .inr (.inl rfl)
  | case3 => exact .inr (.inl rfl)
  | case4 => exact .inr (.inr rfl)

theorem filterMap_void {segments : List Segment} (h : ∀ segment ∈ segments, isVoid segment = true) :
    segments.filterMap componentOfSegment? = [] :=
  List.filterMap_eq_nil_iff.2 fun segment hs => by rw [componentOfSegment?, if_pos (h segment hs)]

/-- The segments around the last one that is not void, and the void ones before that. -/
theorem segments_split {p : Path} {last : Segment} {before : List Segment}
    (h : p.segments.reverse.dropWhile isVoid = last :: before) :
    ∃ kept : List Segment, ∃ c, kept = (before.dropWhile isVoid).reverse ∧ c ≠ .current ∧
      ∃ rest, p.segments = kept ++ rest ∧ rest ≠ [] ∧
        rest.filterMap componentOfSegment? = [c] := by
  have hlast : isVoid last = false := by
    have := List.head?_dropWhile_not isVoid p.segments.reverse
    rw [h] at this
    simpa using this
  obtain ⟨c, hc, hcurrent⟩ : ∃ c, componentOfSegment? last = some c ∧ c ≠ .current := by
    rw [componentOfSegment?, if_neg (by simp [hlast])]
    split
    · exact ⟨_, rfl, by decide⟩
    · exact ⟨_, rfl, Component.noConfusion⟩
  refine ⟨_, c, rfl, hcurrent, (before.takeWhile isVoid).reverse ++
    last :: (p.segments.reverse.takeWhile isVoid).reverse, ?_, by simp, ?_⟩
  · have hbefore : before.reverse =
        (before.dropWhile isVoid).reverse ++ (before.takeWhile isVoid).reverse := by
      rw [← List.reverse_append, List.takeWhile_append_dropWhile]
    calc p.segments
      _ = (p.segments.reverse.takeWhile isVoid ++ last :: before).reverse := by
          rw [← h, List.takeWhile_append_dropWhile, List.reverse_reverse]
      _ = _ := by
          rw [List.reverse_append, List.reverse_cons, hbefore]
          simp
  · have hvoid : ∀ segments : List Segment,
        (segments.takeWhile isVoid).reverse.filterMap componentOfSegment? = [] := fun segments =>
      filterMap_void fun segment hs =>
        List.all_eq_true.1 List.all_takeWhile segment (List.mem_reverse.1 hs)
    rw [List.filterMap_append, hvoid, List.filterMap_cons_some hc, hvoid]
    rfl

theorem components_of_parent {p parent : Path} (h : p.parent? = some parent) :
    parent.text = "" ∨ ∃ c, c ≠ .current ∧ p.components = parent.components ++ [c] := by
  unfold parent? at h
  split at h
  · next last before hlast =>
    cases h
    obtain ⟨kept, c, hkept, hcurrent, rest, hsegments, hrest, hc⟩ := segments_split hlast
    rw [← hkept]
    cases kept with
    | nil =>
        -- nothing but the anchor is left
        have hcomponents : p.components = (componentOfAnchor? p.anchor).toList ++ [c] := by
          rw [components, hsegments, List.nil_append, hc]
        rw [hcomponents, joinSegments, List.intercalate_nil, List.append_nil]
        rcases p.anchor_cases with ha | ha | ha
        · exact .inr ⟨c, hcurrent, by rw [ha]; rfl⟩
        · exact .inr ⟨c, hcurrent, by rw [ha]; rfl⟩
        · exact .inl (by rw [ha])
    | cons first more =>
        have hslash : ∀ segment ∈ rest, '/' ∉ segment := fun segment hs =>
          slash_not_mem_of_mem_splitOn (hsegments ▸ List.mem_append_right _ hs)
        have htext := p.toList_text
        rw [hsegments, joinSegments_append (List.cons_ne_nil _ _) hrest, ← List.append_assoc] at htext
        by_cases hempty : p.anchor ++ joinSegments (first :: more) = []
        · exact .inl (by rw [hempty])
        · refine .inr ⟨c, hcurrent, ?_⟩
          have hsplit : (joinSegments rest).splitOn '/' = rest :=
            List.splitOn_intercalate _ hslash hrest
          rw [components_eq, htext, componentsOf_append_slash hempty, hsplit, hc, components_eq,
            String.toList_ofList]
  · split at h
    · cases h
      exact .inl rfl
    · cases h

end CompileWatch.Path
