import CompileWatch.Path.Order

/-!
# Components of joined paths

A path is a text, and everything that is said of it is said of its components,
so each way of putting a text together needs to be known by the components it
gives. A text has an anchor and a body, and the body is cut at its slashes: what
is added after a slash therefore adds its own component and changes none
(`components_join`), and the plainest spelling of a list of components is read
back as that list (`components_ofComponents`).
-/

namespace CompileWatch

/-- Whether a component can stand anywhere in a path: two dots can, and so can every name that a
segment between slashes may hold. -/
def Component.isStep : Component → Bool
  | .parent => true
  | .name text => !text.toList.contains '/' && text ∉ ["", ".", ".."]
  | _ => false

/-- Only short names are dots. -/
theorem Component.isStep_of_length {name : String} (hslash : '/' ∉ name.toList)
    (hlong : 2 < name.length) : (Component.name name).isStep = true := by
  have hne : ∀ short : String, short.length ≤ 2 → name ≠ short := by
    rintro short hshort rfl
    omega
  simp [isStep, hslash, hne "" (by decide), hne "." (by decide), hne ".." (by decide)]

namespace Path

/-! ## Segments -/

theorem slash_not_mem_of_mem_splitOn {segment body : List Char} (h : segment ∈ body.splitOn '/') :
    '/' ∉ segment := by
  induction body generalizing segment with
  | nil =>
      rw [List.splitOn_nil, List.mem_singleton] at h
      simp [h]
  | cons c rest ih =>
      rw [List.splitOn_cons_eq_if_modifyHead] at h
      split at h
      · rcases List.mem_cons.1 h with rfl | h
        · simp
        · exact ih h
      · next hc =>
        cases hs : rest.splitOn '/' with
        | nil => exact absurd hs (List.splitOn_ne_nil _ _)
        | cons first others =>
            rw [hs] at h ih
            rcases List.mem_cons.1 h with rfl | h
            · have hfirst := ih List.mem_cons_self
              simp only [List.mem_cons, not_or]
              exact ⟨fun he => hc (beq_iff_eq.2 he.symm), hfirst⟩
            · exact ih (List.mem_cons_of_mem _ h)

theorem isStep_of_segment {segment : List Char} {c : Component} (hs : '/' ∉ segment)
    (h : componentOfSegment? segment = some c) : c.isStep = true := by
  unfold componentOfSegment? at h
  split at h
  · cases h
  · next hvoid =>
    split at h
    · cases h
      rfl
    · next hdots =>
      cases h
      have hvoid : segment ≠ [] ∧ segment ≠ ['.'] := by simpa [isVoid] using hvoid
      have htext : ∀ text : String, segment ≠ text.toList → String.ofList segment ≠ text :=
        fun text hne heq => hne (by rw [← heq, String.toList_ofList])
      simp only [Component.isStep, String.toList_ofList, Bool.and_eq_true, Bool.not_eq_true',
        List.contains_eq_mem, decide_eq_false_iff_not, decide_eq_true_eq, List.mem_cons,
        List.not_mem_nil, or_false, not_or]
      exact ⟨hs, htext "" hvoid.1, htext "." hvoid.2, htext ".." hdots⟩

theorem segment_of_isStep {c : Component} (h : c.isStep = true) :
    '/' ∉ c.text.toList ∧ c.text.toList ≠ [] ∧ c.text.toList ≠ ['.'] ∧
      componentOfSegment? c.text.toList = some c := by
  cases c with
  | root => cases h
  | current => cases h
  | parent => decide
  | name text =>
      simp only [Component.isStep, Bool.and_eq_true, Bool.not_eq_true', List.contains_eq_mem,
        decide_eq_false_iff_not, decide_eq_true_eq, List.mem_cons, List.not_mem_nil, or_false,
        not_or] at h
      obtain ⟨hslash, hempty, hdot, hdots⟩ := h
      have hne : ∀ other : String, text ≠ other → text.toList ≠ other.toList :=
        fun other hne heq => hne (String.toList_injective heq)
      have hvoid : isVoid text.toList = false := by
        simp only [isVoid, Bool.or_eq_false_iff, decide_eq_false_iff_not]
        exact ⟨hne "" hempty, hne "." hdot⟩
      refine ⟨hslash, hne "" hempty, hne "." hdot, ?_⟩
      show componentOfSegment? text.toList = _
      have hname : text.toList ≠ ['.', '.'] := hne ".." hdots
      rw [componentOfSegment?, hvoid, if_neg (by decide), if_neg hname, String.ofList_toList]

/-! ## Texts with more behind them -/

/-- More behind a slash leaves the anchor of a text as it is. -/
theorem splitAnchor_append_slash {t : List Char} (ht : t ≠ []) (rest : List Char) :
    splitAnchor (t ++ '/' :: rest) = ((splitAnchor t).1, (splitAnchor t).2 ++ '/' :: rest) := by
  fun_cases splitAnchor t with
  | case1 => rfl
  | case2 => rfl
  | case3 => rfl
  | case4 _ hroot hdot hcurrent =>
      -- a body without anchor gets one only from what stands at its very start
      cases t with
      | nil => exact absurd rfl ht
      | cons c body =>
          show splitAnchor (c :: (body ++ '/' :: rest)) = ([], c :: (body ++ '/' :: rest))
          unfold splitAnchor
          split
          · next h => exact absurd (by rw [(List.cons.inj h).1]) (hroot body)
          · next h => simp at h
          · next h =>
            obtain ⟨hc, hbody⟩ := List.cons.inj h
            cases body with
            | nil => exact absurd (by rw [hc]) hdot
            | cons d body => exact absurd (by rw [hc, (List.cons.inj hbody).1]) (hcurrent body)
          · rfl

def componentsOf (t : List Char) : List Component :=
  (componentOfAnchor? (splitAnchor t).1).toList ++
    ((splitAnchor t).2.splitOn '/').filterMap componentOfSegment?

theorem components_eq (p : Path) : p.components = componentsOf p.text.toList := rfl

theorem componentsOf_append_slash {t : List Char} (ht : t ≠ []) (rest : List Char) :
    componentsOf (t ++ '/' :: rest) =
      componentsOf t ++ (rest.splitOn '/').filterMap componentOfSegment? := by
  simp only [componentsOf, splitAnchor_append_slash ht, List.splitOn_append_cons_self,
    List.filterMap_append, List.append_assoc]

theorem componentsOf_slash (rest : List Char) :
    componentsOf ('/' :: rest) = .root :: (rest.splitOn '/').filterMap componentOfSegment? := rfl

theorem componentsOf_step {c : Component} (h : c.isStep = true) :
    componentsOf c.text.toList = [c] := by
  obtain ⟨hslash, hne, hdot, hc⟩ := segment_of_isStep h
  have hanchor : splitAnchor c.text.toList = ([], c.text.toList) := by
    unfold splitAnchor
    split
    · next heq => exact absurd (heq ▸ List.mem_cons_self) hslash
    · next heq => exact absurd heq hdot
    · next heq => exact absurd (heq ▸ List.mem_cons_of_mem _ List.mem_cons_self) hslash
    · rfl
  rw [componentsOf, hanchor, List.splitOn_eq_singleton hslash]
  simp [componentOfAnchor?, hc]

theorem isAbsolute_of_isStep {c : Component} (h : c.isStep = true) :
    (⟨c.text⟩ : Path).isAbsolute = false := by
  rw [isAbsolute, beq_eq_false_iff_ne]
  intro hhead
  obtain ⟨rest, heq⟩ := List.head?_eq_some_iff.1 hhead
  exact (segment_of_isStep h).1 (heq ▸ List.mem_cons_self)

/-- A relative path is joined behind one separator, which may be there already. -/
theorem toList_join {p q : Path} (hp : p.text ≠ "") (hq : q.isAbsolute = false) :
    ∃ front, (p.text.toList = front ∨ p.text.toList = front ++ ['/']) ∧
      (p.join q).text.toList = front ++ '/' :: q.text.toList := by
  rw [join, hq, if_neg (by decide)]
  split
  · next hend =>
    rw [Bool.or_eq_true, beq_iff_eq] at hend
    rcases hend with hempty | hlast
    · exact absurd (String.isEmpty_iff.1 hempty) hp
    · obtain ⟨front, hfront⟩ := List.getLast?_eq_some_iff.1 hlast
      exact ⟨front, .inr hfront, by rw [String.toList_append, hfront, List.append_assoc]; rfl⟩
  · exact ⟨p.text.toList, .inl rfl, by simp⟩

/-- A relative path adds the components of its text to those of the path that it is joined to. -/
theorem components_join_relative {p q : Path} (hp : p.text ≠ "") (hq : q.isAbsolute = false) :
    (p.join q).components =
      p.components ++ (q.text.toList.splitOn '/').filterMap componentOfSegment? := by
  obtain ⟨front, hfront, hjoined⟩ := toList_join hp hq
  rw [components_eq, hjoined, components_eq p]
  rcases hfront with hfront | hfront
  · rw [hfront, componentsOf_append_slash]
    rw [← hfront, Ne, String.toList_eq_nil_iff]
    exact hp
  · rw [hfront]
    cases front with
    | nil => rfl
    | cons d front =>
        rw [componentsOf_append_slash (by simp), componentsOf_append_slash (by simp)]
        simp [componentOfSegment?, isVoid]

theorem filterMap_step {c : Component} (h : c.isStep = true) :
    (c.text.toList.splitOn '/').filterMap componentOfSegment? = [c] := by
  obtain ⟨hslash, -, -, hc⟩ := segment_of_isStep h
  rw [List.splitOn_eq_singleton hslash]
  simp [hc]

theorem components_join (p : Path) {c : Component} (h : c.isStep = true) :
    (p.join ⟨c.text⟩).components = p.components ++ [c] := by
  have hrelative := isAbsolute_of_isStep h
  by_cases hp : p.text = ""
  · have hjoined : p.join ⟨c.text⟩ = ⟨c.text⟩ := by simp [join, hrelative, hp]
    rw [hjoined, components_eq p, hp]
    exact componentsOf_step h
  · rw [components_join_relative hp hrelative, filterMap_step h]

theorem components_name {name : String} (h : (Component.name name).isStep = true) :
    (⟨name⟩ : Path).components = [.name name] :=
  componentsOf_step (c := .name name) h

theorem components_join_name (p : Path) {name : String} (h : (Component.name name).isStep = true) :
    (p.join ⟨name⟩).components = p.components ++ [.name name] :=
  components_join p (c := .name name) h

/-! ## Plainest spellings -/

/-- Whether a list of components can be read off a path: only the first can be more than a step. -/
def Spelled : List Component → Prop
  | [] => True
  | first :: rest =>
    (first = .root ∨ first = .current ∨ first.isStep = true) ∧ ∀ c ∈ rest, c.isStep = true

theorem isStep_of_mem_segments {p : Path} {c : Component}
    (h : c ∈ p.segments.filterMap componentOfSegment?) : c.isStep = true := by
  obtain ⟨segment, hs, hc⟩ := List.mem_filterMap.1 h
  exact isStep_of_segment (slash_not_mem_of_mem_splitOn hs) hc

theorem spelled_of_steps {steps : List Component} (h : ∀ c ∈ steps, c.isStep = true) :
    Spelled steps := by
  cases steps with
  | nil => trivial
  | cons first rest =>
      exact ⟨.inr (.inr (h first List.mem_cons_self)), fun c hc => h c (List.mem_cons_of_mem _ hc)⟩

theorem spelled_components (p : Path) : Spelled p.components := by
  have hsteps : ∀ c ∈ p.segments.filterMap componentOfSegment?, c.isStep = true :=
    fun c => isStep_of_mem_segments
  unfold components
  generalize p.segments.filterMap componentOfSegment? = steps at hsteps
  unfold componentOfAnchor?
  split
  · exact ⟨.inl rfl, hsteps⟩
  · exact ⟨.inr (.inl rfl), hsteps⟩
  · exact spelled_of_steps hsteps

theorem filterMap_texts : ∀ {steps : List Component}, (∀ c ∈ steps, c.isStep = true) →
    (steps.map fun c => c.text.toList).filterMap componentOfSegment? = steps
  | [], _ => rfl
  | first :: rest, h => by
      rw [List.map_cons,
        List.filterMap_cons_some (segment_of_isStep (h first List.mem_cons_self)).2.2.2,
        filterMap_texts fun c hc => h c (List.mem_cons_of_mem _ hc)]

theorem splitOn_texts {steps : List Component} (h : ∀ c ∈ steps, c.isStep = true) :
    ((['/'].intercalate (steps.map fun c => c.text.toList)).splitOn '/').filterMap
      componentOfSegment? = steps := by
  cases steps with
  | nil => rfl
  | cons first rest =>
      rw [List.splitOn_intercalate _ (fun text ht => ?_) (by simp), filterMap_texts h]
      obtain ⟨c, hc, rfl⟩ := List.mem_map.1 ht
      exact (segment_of_isStep (h c hc)).1

theorem toList_texts (steps : List Component) :
    ("/".intercalate (steps.map Component.text)).toList =
      ['/'].intercalate (steps.map fun c => c.text.toList) := by
  rw [String.toList_intercalate, List.map_map]
  rfl

theorem components_ofComponents {cs : List Component} (h : Spelled cs) :
    (ofComponents cs).components = cs := by
  rw [components_eq]
  fun_cases ofComponents cs with
  | case1 rest =>
      show componentsOf ("/" ++ "/".intercalate (rest.map Component.text)).toList = _
      rw [String.toList_append, toList_texts]
      show componentsOf ('/' :: ['/'].intercalate _) = _
      rw [componentsOf_slash, splitOn_texts h.2]
  | case2 cs hroot =>
      rw [toList_texts]
      match cs, h with
      | [], _ => rfl
      | first :: rest, ⟨hfirst, hrest⟩ =>
        have halone : first.text.toList ≠ [] ∧ componentsOf first.text.toList = [first] := by
          rcases hfirst with rfl | rfl | hstep
          · exact absurd rfl (hroot rest)
          · decide
          · exact ⟨(segment_of_isStep hstep).2.1, componentsOf_step hstep⟩
        cases rest with
        | nil =>
            show componentsOf (['/'].intercalate [first.text.toList]) = _
            rw [List.intercalate_singleton]
            exact halone.2
        | cons second rest =>
            rw [List.map_cons, List.intercalate_cons_of_ne_nil (by simp), List.append_assoc]
            show componentsOf (first.text.toList ++ '/' :: ['/'].intercalate _) = _
            rw [componentsOf_append_slash halone.1, splitOn_texts hrest, halone.2]
            rfl

theorem Spelled.filter {cs : List Component} (h : Spelled cs) (keep : Component → Bool) :
    Spelled (cs.filter keep) := by
  cases cs with
  | nil => trivial
  | cons first rest =>
      have hrest : ∀ c ∈ rest.filter keep, c.isStep = true := fun c hc => h.2 c (List.mem_filter.1 hc).1
      rw [List.filter_cons]
      split
      · exact ⟨h.1, hrest⟩
      · exact spelled_of_steps hrest

/-! ## Characters -/

theorem mem_of_mem_splitOn {separator : Char} {segment body : List Char}
    (h : segment ∈ body.splitOn separator) {d : Char} (hd : d ∈ segment) : d ∈ body := by
  induction body generalizing segment with
  | nil =>
      rw [List.splitOn_nil, List.mem_singleton] at h
      exact h ▸ hd
  | cons c rest ih =>
      rw [List.splitOn_cons_eq_if_modifyHead] at h
      split at h
      · rcases List.mem_cons.1 h with rfl | h
        · cases hd
        · exact List.mem_cons_of_mem _ (ih h hd)
      · cases hs : rest.splitOn separator with
        | nil => exact absurd hs (List.splitOn_ne_nil _ _)
        | cons first others =>
            rw [hs] at h ih
            rcases List.mem_cons.1 h with rfl | h
            · rcases List.mem_cons.1 hd with rfl | hd
              · exact List.mem_cons_self
              · exact List.mem_cons_of_mem _ (ih List.mem_cons_self hd)
            · exact List.mem_cons_of_mem _ (ih (List.mem_cons_of_mem _ h) hd)

theorem mem_text_of_mem_components {p : Path} {c : Component} (h : c ∈ p.components) {d : Char}
    (hd : d ∈ c.text.toList) : d ∈ p.text.toList := by
  have hparts : ∀ t : List Char, (∀ e ∈ (splitAnchor t).1, e ∈ t) ∧ ∀ e ∈ (splitAnchor t).2, e ∈ t := by
    intro t
    fun_cases splitAnchor t <;> simp_all
  obtain ⟨hanchor, hbody⟩ := hparts p.text.toList
  rcases List.mem_append.1 h with h | h
  · refine hanchor d ?_
    rw [Option.mem_toList] at h
    change componentOfAnchor? (splitAnchor p.text.toList).1 = some c at h
    unfold componentOfAnchor? at h
    split at h
    · next heq => cases h; exact heq ▸ hd
    · next heq => cases h; exact heq ▸ hd
    · cases h
  · obtain ⟨segment, hs, hc⟩ := List.mem_filterMap.1 h
    refine hbody d (mem_of_mem_splitOn hs ?_)
    unfold componentOfSegment? at hc
    split at hc
    · cases hc
    · split at hc
      · next heq => cases hc; exact heq ▸ hd
      · cases hc
        rwa [← String.toList_ofList (l := segment)]

theorem mem_texts {d : Char} : ∀ {steps : List Component},
    d ∈ ("/".intercalate (steps.map Component.text)).toList →
      d = '/' ∨ ∃ c ∈ steps, d ∈ c.text.toList
  | [], h => by cases h
  | [c], h => .inr ⟨c, List.mem_singleton_self c, by simpa using h⟩
  | c :: e :: rest, h => by
      rw [toList_texts, List.map_cons, List.intercalate_cons_of_ne_nil (by simp), ← toList_texts]
        at h
      rcases List.mem_append.1 h with h | h
      · rcases List.mem_append.1 h with h | h
        · exact .inr ⟨c, List.mem_cons_self, h⟩
        · exact .inl (List.mem_singleton.1 h)
      · rcases mem_texts h with h | ⟨f, hf, h⟩
        · exact .inl h
        · exact .inr ⟨f, List.mem_cons_of_mem _ hf, h⟩

theorem mem_text_ofComponents {cs : List Component} {d : Char}
    (h : d ∈ (ofComponents cs).text.toList) : d = '/' ∨ ∃ c ∈ cs, d ∈ c.text.toList := by
  revert h
  fun_cases ofComponents cs with
  | case1 rest =>
      intro h
      rw [String.toList_append] at h
      rcases List.mem_append.1 h with h | h
      · exact .inl (List.mem_singleton.1 h)
      · rcases mem_texts h with h | ⟨c, hc, h⟩
        · exact .inl h
        · exact .inr ⟨c, List.mem_cons_of_mem _ hc, h⟩
  | case2 => exact mem_texts

/-- A leading dot is the only dot that is a component. -/
theorem current_mem_componentsOf {t : List Char} :
    .current ∈ componentsOf t ↔ t = ['.'] ∨ ∃ rest, t = '.' :: '/' :: rest := by
  have hsteps : .current ∉ ((splitAnchor t).2.splitOn '/').filterMap componentOfSegment? := by
    intro h
    obtain ⟨segment, hs, hc⟩ := List.mem_filterMap.1 h
    cases isStep_of_segment (slash_not_mem_of_mem_splitOn hs) hc
  rw [componentsOf, List.mem_append, or_iff_left hsteps]
  fun_cases splitAnchor t with
  | case1 => simp [componentOfAnchor?]
  | case2 => simp [componentOfAnchor?]
  | case3 => simp [componentOfAnchor?]
  | case4 body _ hdot hcurrent =>
      simp only [componentOfAnchor?, Option.toList_none, List.not_mem_nil, false_iff, not_or,
        not_exists]
      exact ⟨hdot, hcurrent⟩

/-! ## File names -/

theorem mem_intercalate {d : Char} {separator : List Char} : ∀ {parts : List (List Char)},
    d ∈ separator.intercalate parts → d ∈ separator ∨ ∃ part ∈ parts, d ∈ part
  | [], h => by simp at h
  | [part], h => .inr ⟨part, List.mem_singleton_self _, by simpa using h⟩
  | part :: next :: rest, h => by
      rw [List.intercalate_cons_cons] at h
      simp only [List.mem_append] at h
      rcases h with (h | h) | h
      · exact .inr ⟨part, List.mem_cons_self, h⟩
      · exact .inl h
      · rcases mem_intercalate h with h | ⟨other, hother, h⟩
        · exact .inl h
        · exact .inr ⟨other, List.mem_cons_of_mem _ hother, h⟩

theorem slash_not_mem_stem {name : String} (h : '/' ∉ name.toList) :
    '/' ∉ (splitExtension name).1.toList := by
  unfold splitExtension
  split
  · next last first rest hsplit =>
    dsimp only
    split
    · exact h
    · rw [String.toList_ofList]
      intro hmem
      rcases mem_intercalate hmem with hdot | ⟨part, hpart, hmem⟩
      · exact absurd hdot (by decide)
      · have hpart : part ∈ (name.toList.splitOn '.').reverse :=
          hsplit ▸ List.mem_cons_of_mem _ (List.mem_reverse.1 hpart)
        exact h (mem_of_mem_splitOn (List.mem_reverse.1 hpart) hmem)
  · exact h

/-- A joined path ends as the text that was joined to it. -/
theorem suffix_join (p : Path) {q : Path} {ending : List Char} (h : ending <:+ q.text.toList) :
    ending <:+ (p.join q).text.toList := by
  unfold join
  split
  · exact h
  · split
    · exact h.trans (String.toList_append ▸ List.suffix_append _ _)
    · exact h.trans (String.toList_append ▸ List.suffix_append _ _)

/-- What follows the last slash of a text is the name of the file, if it is long enough. -/
theorem fileName?_of_slash {p : Path} (front : List Char) {name : List Char} (hslash : '/' ∉ name)
    (hlong : 2 < name.length) (h : p.text.toList = front ++ '/' :: name) :
    p.fileName? = some (String.ofList name) := by
  have hstep : (Component.name (String.ofList name)).isStep = true :=
    Component.isStep_of_length (by rwa [String.toList_ofList]) (by rwa [String.length_ofList])
  have hsegments := filterMap_step hstep
  rw [Component.text, String.toList_ofList] at hsegments
  rw [fileName?, components_eq, h]
  cases front with
  | nil =>
      rw [List.nil_append, componentsOf_slash, hsegments]
      rfl
  | cons d front =>
      rw [componentsOf_append_slash (by simp), hsegments, List.getLast?_concat]

/-- A path whose text ends in three characters or more without a slash has a name with this end. -/
theorem exists_fileName? {p : Path} {ending : List Char} (hslash : '/' ∉ ending)
    (hlong : 2 < ending.length) (h : ending <:+ p.text.toList) :
    ∃ name, p.fileName? = some name ∧ ending <:+ name.toList := by
  obtain ⟨front, hfront⟩ := h
  have hname : ∀ back : List Char, '/' ∉ back → '/' ∉ back ++ ending ∧
      2 < (back ++ ending).length ∧ ending <:+ (String.ofList (back ++ ending)).toList := by
    intro back hback
    refine ⟨by simp [hback, hslash], ?_, ?_⟩
    · rw [List.length_append]
      omega
    · rw [String.toList_ofList]
      exact List.suffix_append _ _
  by_cases hmem : '/' ∈ front
  · obtain ⟨back, rest, hsplit, hback⟩ := List.eq_append_cons_of_mem (List.mem_reverse.2 hmem)
    obtain ⟨hslash, hlong, hending⟩ := hname back.reverse (by simpa using hback)
    refine ⟨_, fileName?_of_slash rest.reverse hslash hlong ?_, hending⟩
    rw [← hfront, ← List.reverse_reverse front, hsplit]
    simp
  · obtain ⟨hslash, hlong, hending⟩ := hname front hmem
    have hstep : (Component.name (String.ofList (front ++ ending))).isStep = true :=
      Component.isStep_of_length (by rwa [String.toList_ofList]) (by rwa [String.length_ofList])
    have hp : p = ⟨String.ofList (front ++ ending)⟩ := by rw [hfront, String.ofList_toList]
    refine ⟨_, ?_, hending⟩
    rw [hp, fileName?, components_name hstep]
    rfl

theorem isStep_of_fileName? {p : Path} {name : String} (h : p.fileName? = some name) :
    (Component.name name).isStep = true := by
  unfold fileName? at h
  split at h
  · next text hlast =>
    cases h
    have hmem := List.mem_of_getLast? hlast
    have hspelled := spelled_components p
    cases hc : p.components with
    | nil => rw [hc] at hmem; cases hmem
    | cons first rest =>
        rw [hc] at hmem hspelled
        rcases List.mem_cons.1 hmem with rfl | hmem
        · rcases hspelled.1 with h | h | h
          · cases h
          · cases h
          · exact h
        · exact hspelled.2 _ hmem
  · cases h

end Path

end CompileWatch
