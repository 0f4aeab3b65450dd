import CompileWatch.Proofs.Path.Parents
import Mathlib.Data.List.Basic

/-!
# Paths below other paths

The plainest spelling of a list of components can be taken apart and put
together where the list can. What is below a base is spelled by the components
after those of the base (`stripPrefix?_ofComponents`), and joined to another path
it adds just these (`components_join_steps`). One component more is one join more
(`join_child`), so a directory and its entries are spelled alike.
-/

namespace CompileWatch.Path

/-- The texts of steps, which are the segments between their slashes. -/
def texts (steps : List Component) : List Segment := steps.map fun c => c.text.toList

theorem toList_ofComponents_root (rest : List Component) :
    (ofComponents (.root :: rest)).text.toList = '/' :: joinSegments (texts rest) := by
  show ("/" ++ "/".intercalate (rest.map Component.text)).toList = _
  rw [String.toList_append, toList_texts]
  rfl

theorem toList_ofComponents {first : Component} {rest : List Component} (hfirst : first ≠ .root) :
    (ofComponents (first :: rest)).text.toList = joinSegments (texts (first :: rest)) := by
  unfold ofComponents
  split
  · next heq => exact absurd (List.cons.inj heq).1 hfirst
  · exact toList_texts (first :: rest)

section Steps

variable {steps : List Component} (h : ∀ c ∈ steps, c.isStep = true)

include h

theorem isVoid_texts : ∀ segment ∈ texts steps, isVoid segment = false := by
  intro segment hs
  obtain ⟨c, hc, rfl⟩ := List.mem_map.1 hs
  obtain ⟨-, hne, hdot, -⟩ := segment_of_isStep (h c hc)
  simp [isVoid, hne, hdot]

theorem dropComponents_texts (n : Nat) : dropComponents n (texts steps) = texts (steps.drop n) := by
  induction steps generalizing n with
  | nil => simp [texts, dropComponents]
  | cons c rest ih =>
      have hvoid : isVoid c.text.toList = false := isVoid_texts h _ (by simp [texts])
      cases n with
      | zero => simp [texts, dropComponents, hvoid]
      | succ n =>
          have hrest := ih (fun d hd => h d (List.mem_cons_of_mem c hd)) n
          simpa [texts, dropComponents, hvoid] using hrest

theorem dropVoidEnd_texts : dropVoidEnd (texts steps) = texts steps := by
  have hkept : (texts steps).reverse.dropWhile isVoid = (texts steps).reverse := by
    cases hr : (texts steps).reverse with
    | nil => rfl
    | cons last before =>
        have hlast := isVoid_texts h last (List.mem_reverse.1 (hr ▸ List.mem_cons_self))
        rw [List.dropWhile_cons, hlast, if_neg (by decide)]
  rw [dropVoidEnd, hkept, List.reverse_reverse]

theorem toList_ofComponents_steps :
    (ofComponents steps).text.toList = joinSegments (texts steps) := by
  unfold ofComponents
  split
  · next rest => exact absurd (h .root List.mem_cons_self) (by decide)
  · exact toList_texts steps

theorem ofComponents_steps :
    (⟨String.ofList (joinSegments (texts steps))⟩ : Path) = ofComponents steps := by
  rw [← toList_ofComponents_steps h, String.ofList_toList]

theorem splitOn_joined (hne : steps ≠ []) :
    (joinSegments (texts steps)).splitOn '/' = texts steps := by
  have hslash : ∀ segment ∈ texts steps, '/' ∉ segment := by
    intro segment hs
    obtain ⟨d, hd, rfl⟩ := List.mem_map.1 hs
    exact (segment_of_isStep (h d hd)).1
  rw [joinSegments, List.splitOn_intercalate _ hslash (by simpa [texts] using hne)]

/-- The segments that a text with these steps is cut into hold no others. -/
theorem dropVoidEnd_dropComponents (n : Nat) :
    dropVoidEnd (dropComponents n ((joinSegments (texts steps)).splitOn '/')) =
      texts (steps.drop n) := by
  have hdrop : ∀ c ∈ steps.drop n, c.isStep = true := fun c hc => h c (List.mem_of_mem_drop hc)
  cases steps with
  | nil => cases n <;> rfl
  | cons c rest =>
      rw [splitOn_joined h (List.cons_ne_nil c rest), dropComponents_texts h,
        dropVoidEnd_texts hdrop]

theorem dropVoidEnd_splitOn : dropVoidEnd ((joinSegments (texts steps)).splitOn '/') =
    texts steps := by
  cases steps with
  | nil => rfl
  | cons c rest => rw [splitOn_joined h (List.cons_ne_nil c rest), dropVoidEnd_texts h]

/-- Steps have no anchor: a text with one would be read back with a root or a dot. -/
theorem splitAnchor_steps :
    splitAnchor (joinSegments (texts steps)) = ([], joinSegments (texts steps)) := by
  have hread : componentsOf (joinSegments (texts steps)) = steps := by
    rw [← toList_ofComponents_steps h, ← components_eq,
      components_ofComponents (spelled_of_steps h)]
  have hcurrent : .current ∉ componentsOf (joinSegments (texts steps)) :=
    fun hmem => absurd (h _ (hread ▸ hmem)) (by decide)
  have hroot : .root ∉ componentsOf (joinSegments (texts steps)) :=
    fun hmem => absurd (h _ (hread ▸ hmem)) (by decide)
  rw [current_mem_componentsOf] at hcurrent
  generalize joinSegments (texts steps) = t at hcurrent hroot
  unfold splitAnchor
  split
  · next body => exact absurd (componentsOf_slash body ▸ List.mem_cons_self) hroot
  · exact absurd (.inl rfl) hcurrent
  · next body => exact absurd (.inr ⟨body, rfl⟩) hcurrent
  · rfl

theorem isAbsolute_steps : (ofComponents steps).isAbsolute = false := by
  have hanchor := splitAnchor_steps h
  rw [isAbsolute, toList_ofComponents_steps h, beq_eq_false_iff_ne]
  intro hhead
  obtain ⟨rest, hrest⟩ := List.head?_eq_some_iff.1 hhead
  rw [hrest] at hanchor
  cases hanchor

/-- A relative path adds its own components to those of the path that it is joined to. -/
theorem components_join_steps (p : Path) :
    (p.join (ofComponents steps)).components = p.components ++ steps := by
  have hrelative := isAbsolute_steps h
  by_cases hp : p.text = ""
  · have hjoined : p.join (ofComponents steps) = ofComponents steps := by
      simp [join, hrelative, hp]
    rw [hjoined, components_ofComponents (spelled_of_steps h), components_eq p, hp]
    rfl
  · rw [components_join_relative hp hrelative, toList_ofComponents_steps h]
    exact congrArg (_ ++ ·) (splitOn_texts h)

end Steps

/-! ## Taking a base away -/

theorem anchor_root (rest : List Component) : (ofComponents (.root :: rest)).anchor = ['/'] := by
  rw [anchor, toList_ofComponents_root]
  rfl

theorem segments_root (rest : List Component) :
    (ofComponents (.root :: rest)).segments = (joinSegments (texts rest)).splitOn '/' := by
  rw [segments, toList_ofComponents_root]
  rfl

section Steps

variable {steps : List Component} (h : ∀ c ∈ steps, c.isStep = true)

include h

theorem anchor_steps : (ofComponents steps).anchor = [] := by
  rw [anchor, toList_ofComponents_steps h, splitAnchor_steps h]

theorem segments_steps :
    (ofComponents steps).segments = (joinSegments (texts steps)).splitOn '/' := by
  rw [segments, toList_ofComponents_steps h, splitAnchor_steps h]

end Steps

/-- What is left of a plainest spelling below a base is a plainest spelling. -/
theorem stripPrefix?_ofComponents {cs : List Component} {base : Path} (hs : Spelled cs)
    (hcurrent : .current ∉ cs) (hbase : base.components <+: cs) (hne : base.components ≠ []) :
    (ofComponents cs).stripPrefix? base =
      some (ofComponents (cs.drop base.components.length)) := by
  have hstarts : (ofComponents cs).startsWith base = true := by
    rw [startsWith, components_ofComponents hs]
    exact List.isPrefixOf_iff_prefix.2 hbase
  obtain ⟨n, hn⟩ : ∃ n, base.components.length = n + 1 :=
    Nat.exists_eq_succ_of_ne_zero fun hzero => hne (List.eq_nil_of_length_eq_zero hzero)
  rw [stripPrefix?, hstarts, hn]
  cases cs with
  | nil => exact absurd (List.prefix_nil.1 hbase) hne
  | cons first rest =>
      have hrest := hs.2
      rcases hs.1 with rfl | rfl | hfirst
      · -- the anchor holds one of the components
        have hdrop : ∀ c ∈ rest.drop n, c.isStep = true :=
          fun c hc => hrest c (List.mem_of_mem_drop hc)
        rw [List.drop_succ_cons, ← ofComponents_steps hdrop, ← dropVoidEnd_dropComponents hrest,
          ← segments_root]
        simp [anchor_root]
      · exact absurd List.mem_cons_self hcurrent
      · have hsteps : ∀ c ∈ first :: rest, c.isStep = true :=
          List.forall_mem_cons.2 ⟨hfirst, hrest⟩
        have hdrop : ∀ c ∈ (first :: rest).drop (n + 1), c.isStep = true :=
          fun c hc => hsteps c (List.mem_of_mem_drop hc)
        rw [← ofComponents_steps hdrop, ← dropVoidEnd_dropComponents hsteps,
          ← segments_steps hsteps]
        simp [anchor_steps hsteps]

/-- A base without components takes nothing away. -/
theorem stripPrefix?_of_nil {cs : List Component} {base : Path} (hs : Spelled cs)
    (hcurrent : .current ∉ cs) (hbase : base.components = []) :
    (ofComponents cs).stripPrefix? base = some (ofComponents cs) := by
  have hstarts : (ofComponents cs).startsWith base = true := by
    rw [startsWith, hbase]
    rfl
  rw [stripPrefix?, hstarts, hbase]
  show some (⟨String.ofList (_ ++ joinSegments (dropVoidEnd _))⟩ : Path) = _
  cases cs with
  | nil => rfl
  | cons first rest =>
      have hrest := hs.2
      rcases hs.1 with rfl | rfl | hfirst
      · rw [anchor_root, segments_root, dropVoidEnd_splitOn hrest, List.singleton_append,
          ← toList_ofComponents_root, String.ofList_toList]
      · exact absurd List.mem_cons_self hcurrent
      · have hsteps : ∀ c ∈ first :: rest, c.isStep = true :=
          List.forall_mem_cons.2 ⟨hfirst, hrest⟩
        rw [anchor_steps hsteps, segments_steps hsteps, dropVoidEnd_splitOn hsteps,
          List.nil_append, ofComponents_steps hsteps]

/-! ## Entries -/

/-- Texts of components other than the root, joined, end in none of the slashes between them. -/
theorem getLast?_texts {cs : List Component} (hne : cs ≠ [])
    (h : ∀ c ∈ cs, c = .current ∨ c.isStep = true) :
    joinSegments (texts cs) ≠ [] ∧ (joinSegments (texts cs)).getLast? ≠ some '/' := by
  obtain ⟨before, last, rfl⟩ := (List.eq_nil_or_concat cs).resolve_left hne
  rw [List.concat_eq_append] at h ⊢
  obtain ⟨hlast, hslash⟩ : last.text.toList ≠ [] ∧ '/' ∉ last.text.toList := by
    rcases h last (by simp) with rfl | hstep
    · decide
    · exact ⟨(segment_of_isStep hstep).2.1, (segment_of_isStep hstep).1⟩
  obtain ⟨front, hfront⟩ : ∃ front,
      joinSegments (texts (before ++ [last])) = front ++ last.text.toList := by
    cases before with
    | nil => exact ⟨[], by simp [texts, joinSegments]⟩
    | cons first rest =>
        rw [texts, List.map_append, joinSegments_append (by simp) (by simp)]
        exact ⟨joinSegments (texts (first :: rest)) ++ ['/'], by simp [texts, joinSegments]⟩
  rw [hfront]
  refine ⟨by simp [hlast], ?_⟩
  rw [List.getLast?_append_of_ne_nil _ hlast]
  exact fun heq => hslash (List.mem_of_getLast? heq)

/-- A step is joined behind a separator to a text that does not end in one. -/
theorem join_step {p : Path} {c : Component} (hc : c.isStep = true) (hp : p.text.toList ≠ [])
    (hend : p.text.toList.getLast? ≠ some '/') :
    (p.join ⟨c.text⟩).text.toList = p.text.toList ++ '/' :: c.text.toList := by
  have hne : p.text ≠ "" := fun heq => hp (String.toList_eq_nil_iff.2 heq)
  obtain ⟨front, hfront | hfront, hjoined⟩ := toList_join hne (isAbsolute_of_isStep hc)
  · rw [hjoined, hfront]
  · rw [hfront, List.getLast?_concat] at hend
    exact absurd rfl hend

theorem texts_concat {cs : List Component} (hne : cs ≠ []) (c : Component) :
    joinSegments (texts (cs ++ [c])) = joinSegments (texts cs) ++ '/' :: c.text.toList := by
  rw [texts, List.map_append, joinSegments_append (by simpa using hne) (by simp)]
  simp [joinSegments, texts]

theorem Spelled.of_prefix {cs ds : List Component} (h : Spelled cs) (hp : ds <+: cs) :
    Spelled ds := by
  obtain ⟨rest, rfl⟩ := hp
  cases ds with
  | nil => trivial
  | cons first way => exact ⟨h.1, fun c hc => h.2 c (List.mem_append_left rest hc)⟩

/-- The plainest spelling of a directory, joined with the name of an entry. -/
theorem join_child {cs : List Component} {c : Component} (h : Spelled (cs ++ [c])) :
    (ofComponents cs).join ⟨c.text⟩ = ofComponents (cs ++ [c]) := by
  suffices htext : ((ofComponents cs).join ⟨c.text⟩).text.toList =
      (ofComponents (cs ++ [c])).text.toList from
    congrArg Path.mk (String.toList_injective htext)
  cases cs with
  | nil =>
      rcases h.1 with rfl | rfl | hc
      · decide
      · decide
      · have hroot : c ≠ .root := fun heq => absurd (heq ▸ hc) (by decide)
        rw [List.nil_append, toList_ofComponents hroot, join, isAbsolute_of_isStep hc,
          if_neg (by decide), if_pos (by decide)]
        simp [texts, joinSegments, ofComponents]
  | cons first rest =>
      obtain ⟨hfirst, hrest⟩ := h
      have hc : c.isStep = true := hrest c (by simp)
      have hsteps : ∀ d ∈ rest, d.isStep = true := fun d hd => hrest d (List.mem_append_left _ hd)
      rw [List.cons_append]
      by_cases hroot : first = .root
      · subst hroot
        cases rest with
        | nil =>
            have hjoined : (ofComponents [.root]).join ⟨c.text⟩ = ⟨"/" ++ c.text⟩ := by
              rw [join, isAbsolute_of_isStep hc, if_neg (by decide), if_pos (by decide)]
              rfl
            rw [hjoined, toList_ofComponents_root]
            simp [texts, joinSegments]
        | cons second rest =>
            obtain ⟨hne, hlast⟩ := getLast?_texts (List.cons_ne_nil second rest)
              fun d hd => .inr (hsteps d hd)
            rw [toList_ofComponents_root, texts_concat (List.cons_ne_nil _ _), join_step hc,
              toList_ofComponents_root, List.cons_append]
            · rw [toList_ofComponents_root]
              exact List.cons_ne_nil _ _
            · rw [toList_ofComponents_root, List.getLast?_cons_of_ne_nil hne]
              exact hlast
      · have hplain : ∀ d ∈ first :: rest, d = .current ∨ d.isStep = true :=
          List.forall_mem_cons.2 ⟨hfirst.resolve_left hroot, fun d hd => .inr (hsteps d hd)⟩
        obtain ⟨hne, hlast⟩ := getLast?_texts (List.cons_ne_nil first rest) hplain
        rw [toList_ofComponents hroot, ← List.cons_append, texts_concat (List.cons_ne_nil _ _),
          join_step hc, toList_ofComponents hroot]
        · rw [toList_ofComponents hroot]
          exact hne
        · rw [toList_ofComponents hroot]
          exact hlast

end CompileWatch.Path
