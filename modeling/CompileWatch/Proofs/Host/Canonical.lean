import CompileWatch.Host.Config
import CompileWatch.Proofs.Storage.Switched

/-!
# Canonical names

Where letter case does not count, a front end tells files apart by their canonical
names, and a store in memory by its keys. The one lower-cases the path as it was
written, the other first drops its dots and spare separators. Both come to the same
because no slash is seen through when a text is lower-cased: a canonical name has
the components of the path, each in lower case (`components_lowerCase`), and a key
has those of the canonical name but for a leading dot (`key_eq_key_iff_canonical`).

So two paths of one canonical name are one path to the store, and only an error can
tell which of them was asked for (`Agree`).
-/

namespace CompileWatch

/-! ## Lower case between slashes -/

theorem Text.splitOn_lowerAfter (body : List Char) :
    (lowerAfter [] body).splitOn '/' = (body.splitOn '/').map (lowerAfter []) := by
  have hword : ∀ word : List Char, '/' ∉ word →
      (lowerAfter [] word).splitOn '/' = (word.splitOn '/').map (lowerAfter []) := by
    intro word hword
    rw [List.splitOn_eq_singleton hword,
      List.splitOn_eq_singleton fun h => hword (mem_of_mem_lowerAfter (by decide) h)]
    rfl
  by_cases hslash : '/' ∈ body
  · obtain ⟨word, rest, rfl, hfirst⟩ := List.eq_append_cons_of_mem hslash
    rw [lowerAfter_append_slash, List.splitOn_append_cons_self, List.splitOn_append_cons_self,
      List.map_append, hword word hfirst, splitOn_lowerAfter rest]
  · exact hword body hslash
termination_by body.length

namespace Path

/-- A segment in lower case is the same marks, or another name. -/
theorem componentOfSegment?_lowerAfter (segment : Segment) :
    componentOfSegment? (Text.lowerAfter [] segment) =
      (componentOfSegment? segment).map Component.lowered := by
  have hmarks : ∀ marks : Segment, marks ∈ [[], ['.'], ['.', '.']] →
      (Text.lowerAfter [] segment = marks ↔ segment = marks) := by
    intro marks hm
    have hlow : ∀ marks ∈ [[], ['.'], ['.', '.']], ∀ mark ∈ marks, mark.toNat < 0x61 := by simp
    have hsame : ∀ marks ∈ [[], ['.'], ['.', '.']], Text.lowerAfter [] marks = marks := by
      decide +kernel
    refine ⟨Text.eq_of_lowerAfter (hlow marks hm), ?_⟩
    rintro rfl
    exact hsame _ hm
  have hvoid : isVoid (Text.lowerAfter [] segment) = isVoid segment := by
    simp only [isVoid, hmarks [] (by decide), hmarks ['.'] (by decide)]
  unfold componentOfSegment?
  rw [hvoid]
  split
  · rfl
  · simp only [hmarks ['.', '.'] (by decide)]
    split
    · rfl
    · simp [Component.lowered, Text.lowerCase]

/-- Lower-casing a path as it was written lower-cases each of its components. -/
theorem components_lowerCase (p : Path) :
    (⟨Text.lowerCase p.text⟩ : Path).components = p.components.map Component.lowered := by
  have hbody : ∀ body : List Char,
      ((Text.lowerAfter [] body).splitOn '/').filterMap componentOfSegment? =
        ((body.splitOn '/').filterMap componentOfSegment?).map Component.lowered := by
    intro body
    rw [Text.splitOn_lowerAfter, List.filterMap_map, List.map_filterMap]
    exact List.filterMap_congr fun segment _ => componentOfSegment?_lowerAfter segment
  have hslash : ∀ body, Text.lowerAfter [] ('/' :: body) = '/' :: Text.lowerAfter [] body :=
    fun body => Text.lowerAfter_append_slash body [] []
  rw [components_eq, components_eq]
  show componentsOf (Text.lowerCase p.text).toList = _
  rw [Text.lowerCase, String.toList_ofList]
  generalize p.text.toList = t
  unfold componentsOf
  fun_cases splitAnchor t with
  | case1 body =>
      rw [hslash]
      exact congrArg (.root :: ·) (hbody body)
  | case2 => decide +kernel
  | case3 body =>
      have hdot : Text.lowerAfter [] ('.' :: '/' :: body) = '.' :: '/' :: Text.lowerAfter [] body :=
        Text.lowerAfter_append_slash body ['.'] []
      rw [hdot, List.map_append, ← hbody, hslash]
      rfl
  | case4 _ hroot hdot hcurrent =>
      -- an anchor of the lower-case form would have been one before
      have hanchor : splitAnchor (Text.lowerAfter [] t) = ([], Text.lowerAfter [] t) := by
        unfold splitAnchor
        split
        · next h =>
          obtain ⟨rest, rfl, -⟩ := Text.eq_cons_of_lowerAfter (by decide) h
          exact absurd rfl (hroot rest)
        · next h => exact absurd (Text.eq_of_lowerAfter (by simp) h) hdot
        · next h =>
          obtain ⟨rest, rfl, hrest⟩ := Text.eq_cons_of_lowerAfter (by decide) h
          obtain ⟨rest, rfl, -⟩ := Text.eq_cons_of_lowerAfter (by decide) hrest.symm
          exact absurd rfl (hcurrent rest)
        · rfl
      rw [hanchor]
      exact hbody t

end Path

namespace Memory

open CompileWatch.Path

/-! ## One canonical name, one key -/

variable {env : HostEnvironment} {p q : Path}

theorem components_canonical (henv : env.caseSensitive = false) (p : Path) :
    (env.canonicalFileName p).components = p.components.map Component.lowered := by
  rw [HostEnvironment.canonicalFileName, henv, if_neg (by decide), components_lowerCase]

/-- A key is known by the canonical name, less a leading dot. -/
theorem normal_eq_canonical (henv : env.caseSensitive = false) (p : Path) :
    folding.normal p = (env.canonicalFileName p).components.filter (· ≠ .current) := by
  have hcurrent : ∀ c : Component, c.lowered = .current ↔ c = .current := by
    intro c
    cases c <;> simp [Component.lowered]
  have hkept : folding.kept = Component.lowered := rfl
  rw [components_canonical henv, List.filter_map, Handle.normal, hkept]
  exact congrArg _ (List.filter_congr fun c _ => by simp [hcurrent c])

theorem key_eq_key_iff_canonical (henv : env.caseSensitive = false) :
    folding.key p = folding.key q ↔
      (env.canonicalFileName p).components.filter (· ≠ .current) =
        (env.canonicalFileName q).components.filter (· ≠ .current) := by
  rw [key_eq_key_iff, normal_eq_canonical henv, normal_eq_canonical henv]

/-! ## One key, one file -/

/-- Whether two answers agree, but for the path that an error tells. -/
inductive Agree (p q : Path) : Except FsError α → Except FsError α → Prop
  | ok (value) : Agree p q (.ok value) (.ok value)
  | notFound : Agree p q (.error (.notFound p)) (.error (.notFound q))
  | isDirectory : Agree p q (.error (.other s!"cannot write {p.text}: is a directory"))
      (.error (.other s!"cannot write {q.text}: is a directory"))

/-- Whether two paths are one to a store: it answers alike of both, and an edit of the one leaves it
as the same edit of the other does. -/
structure SameFile (h : Handle) (p q : Path) (s : Store) : Prop where
  contains : h.contains p s = h.contains q s
  isDir : h.isDir p s = h.isDir q s
  read : Agree p q (h.read p s) (h.read q s)
  list : Agree p q (h.list p s) (h.list q s)
  modified : Agree p q (h.modified p s) (h.modified q s)
  insert : ∀ content, after (h.insert p content) s = after (h.insert q content) s
  write : ∀ content, Agree p q (answer (h.write p content) s) (answer (h.write q content) s) ∧
    after (h.write p content) s = after (h.write q content) s
  touch : Agree p q (answer (h.touch p) s) (answer (h.touch q) s) ∧
    after (h.touch p) s = after (h.touch q) s
  remove : Agree p q (answer (h.remove p) s) (answer (h.remove q) s) ∧
    after (h.remove p) s = after (h.remove q) s

theorem sameFile_of_key {h : Handle} (hkey : h.key p = h.key q) (s : Store) : SameFile h p q s where
  contains := by simp only [Handle.contains, Handle.isDir, hkey]
  isDir := by rw [Handle.isDir, hkey, Handle.isDir]
  read := by
    unfold Handle.read
    rw [hkey]
    cases s.files.find? (h.key q) with
    | some file => exact .ok _
    | none => exact .notFound
  list := by
    unfold Handle.list
    rw [hkey]
    cases s.children (h.key q) with
    | nil => exact .notFound
    | cons => exact .ok _
  modified := by
    unfold Handle.modified
    rw [hkey]
    cases s.files.find? (h.key q) with
    | some file => exact .ok _
    | none => exact .notFound
  insert content := by
    show s.put (h.key p) content = s.put (h.key q) content
    rw [hkey]
  write content := by
    show Agree p q (h.write p content s).1 (h.write q content s).1 ∧
      (h.write p content s).2 = (h.write q content s).2
    have hdir : h.isDir p s = h.isDir q s := by rw [Handle.isDir, hkey, Handle.isDir]
    unfold Handle.write
    rw [hdir]
    split
    · exact ⟨.isDirectory, rfl⟩
    · refine ⟨.ok _, ?_⟩
      show s.put (h.key p) content = s.put (h.key q) content
      rw [hkey]
  touch := by
    show Agree p q (h.touch p s).1 (h.touch q s).1 ∧ (h.touch p s).2 = (h.touch q s).2
    unfold Handle.touch
    rw [hkey]
    cases s.files.find? (h.key q) with
    | some file => exact ⟨.ok _, rfl⟩
    | none => exact ⟨.notFound, rfl⟩
  remove := by
    show Agree p q (h.remove p s).1 (h.remove q s).1 ∧ (h.remove p s).2 = (h.remove q s).2
    unfold Handle.remove
    rw [hkey]
    split
    · exact ⟨.ok _, rfl⟩
    · exact ⟨.notFound, rfl⟩

/-- Two paths of one canonical name, where letter case does not count, are one path to every store
that is used without regard to letter case. -/
theorem sameFile_of_canonical (henv : env.caseSensitive = false)
    (hpq : (env.canonicalFileName p).same (env.canonicalFileName q) = true) (s : Store) :
    SameFile folding p q s :=
  sameFile_of_key ((key_eq_key_iff_canonical henv).2 (by rw [same_iff.1 hpq])) s

/-- A capital sigma at the end of a word, followed by a dot that is passed over or by nothing. -/
theorem sameFile_of_canonical_sigma :
    let env : HostEnvironment := ⟨⟨"/p"⟩, .lf, false⟩
    let p : Path := ⟨"/P//ΑΣ/./İ.ts"⟩
    let q : Path := ⟨"/p/ας/i̇.TS/"⟩
    let s := folding.withFiles [(p, "x")]
    env.caseSensitive = false ∧
      (env.canonicalFileName p).same (env.canonicalFileName q) = true ∧
      SameFile folding p q s ∧ folding.read q s = .ok "x" ∧ p.text ≠ q.text := by
  intro env p q s
  have hpq : (env.canonicalFileName p).same (env.canonicalFileName q) = true := by decide +kernel
  exact ⟨rfl, hpq, sameFile_of_canonical rfl hpq s, by decide +kernel, by decide +kernel⟩

end Memory

end CompileWatch
