import CompileWatch.Proofs.Path.Parents
import CompileWatch.Proofs.Storage.Keys

/-!
# Places of paths

The place of a path in memory is what its key is known by. It can be told from
the components of the path, one by one (`place_eq`): inner dots go, and a handle
that folds letter case folds each name by itself, since the lower-case form of a
text is made of those of the parts between its slashes.

So the places of a path and of its parent are related as the paths are, whatever
the spelling and the letter case, and this is all that is needed to know which
files stand in each other's way.
-/

namespace CompileWatch

open CompileWatch.Path

namespace Component

/-- A component with its name in lower case. -/
def lowered : Component → Component
  | .name text => .name (Text.lowerCase text)
  | c => c

theorem text_lowered (c : Component) : c.lowered.text = Text.lowerCase c.text := by
  cases c with
  | name text => rfl
  | root => decide +kernel
  | current => decide +kernel
  | parent => decide +kernel

theorem lowered_lowered (c : Component) : c.lowered.lowered = c.lowered := by
  cases c with
  | name text => exact congrArg name (Text.lowerCase_lowerCase text)
  | root => rfl
  | current => rfl
  | parent => rfl

theorem isStep_lowered {c : Component} (h : c.isStep = true) : c.lowered.isStep = true := by
  cases c with
  | parent => rfl
  | root => cases h
  | current => cases h
  | name text =>
      have hmarks : ∀ marks : String, (∀ mark ∈ marks.toList, mark.toNat < 0x61) →
          text ≠ marks → Text.lowerCase text ≠ marks :=
        fun marks hm hne heq => hne (Text.eq_of_lowerCase hm heq)
      simp only [isStep, lowered, Bool.and_eq_true, Bool.not_eq_true', List.contains_eq_mem,
        decide_eq_false_iff_not, decide_eq_true_eq, List.mem_cons, List.not_mem_nil, or_false,
        not_or] at h ⊢
      obtain ⟨hslash, hempty, hdot, hdots⟩ := h
      refine ⟨fun hmem => hslash ?_, hmarks "" (by simp) hempty, hmarks "." (by simp) hdot,
        hmarks ".." (by simp) hdots⟩
      rw [Text.lowerCase, String.toList_ofList] at hmem
      exact Text.mem_of_mem_lowerAfter (by decide) hmem

end Component

theorem lowerCase_texts : ∀ cs : List Component,
    Text.lowerCase ("/".intercalate (cs.map Component.text)) =
      "/".intercalate ((cs.map Component.lowered).map Component.text)
  | [] => rfl
  | [c] => by
      simp only [List.map_cons, List.map_nil, String.intercalate_singleton]
      exact (Component.text_lowered c).symm
  | c :: d :: rest => by
      have ih := lowerCase_texts (d :: rest)
      simp only [List.map_cons, String.intercalate_cons_cons] at ih ⊢
      rw [Text.lowerCase_append_slash, ih, Component.text_lowered c]

theorem lowerCase_ofComponents (cs : List Component) :
    Text.lowerCase (ofComponents cs).text = (ofComponents (cs.map Component.lowered)).text := by
  have hroot : Text.lowerCase "/" = "/" := by decide +kernel
  fun_cases ofComponents cs with
  | case1 rest =>
      have hslash := Text.lowerCase_append_slash "" ("/".intercalate (rest.map Component.text))
      rw [String.empty_append] at hslash
      rw [hslash, lowerCase_texts]
      rfl
  | case2 cs hne =>
      have hne' : ∀ rest, cs.map Component.lowered ≠ .root :: rest := by
        intro rest heq
        cases cs with
        | nil => cases heq
        | cons c more =>
            cases c with
            | root => exact hne more rfl
            | current => cases heq
            | parent => cases heq
            | name text => cases heq
      rw [lowerCase_texts]
      unfold ofComponents
      split
      · next heq => exact absurd heq (hne' _)
      · rfl

theorem Path.Spelled.lowered {cs : List Component} (h : Spelled cs) :
    Spelled (cs.map Component.lowered) := by
  cases cs with
  | nil => trivial
  | cons first rest =>
      refine ⟨?_, List.forall_mem_map.2 fun c hc => Component.isStep_lowered (h.2 c hc)⟩
      rcases h.1 with rfl | rfl | hfirst
      · exact .inl rfl
      · exact .inr (.inl rfl)
      · exact .inr (.inr (Component.isStep_lowered hfirst))

namespace Memory

/-! ## Places, by components -/

/-- A component as it stands in the keys of a handle. -/
def Handle.kept (h : Handle) (c : Component) : Component := if h.caseSensitive then c else c.lowered

namespace Handle

variable (h : Handle)

theorem place_eq (p : Path) :
    h.place p = (p.components.filter (· ≠ .current)).map h.kept := by
  have hspelled : Spelled (p.components.filter (· ≠ .current)) := (spelled_components p).filter _
  unfold place key
  cases hcase : h.caseSensitive with
  | true =>
      have hkept : h.kept = id := funext fun c => if_pos hcase
      rw [if_pos rfl, components_plain, hkept, List.map_id]
  | false =>
      have hkept : h.kept = Component.lowered := funext fun c => if_neg (by rw [hcase]; decide)
      rw [if_neg (by decide), plain, lowerCase_ofComponents, hkept]
      exact components_ofComponents (Spelled.lowered hspelled)

theorem key_eq (p : Path) : h.key p = ofComponents (h.place p) := by
  have hspelled : Spelled (p.components.filter (· ≠ .current)) := (spelled_components p).filter _
  unfold place key
  split
  · rw [components_plain]
    rfl
  · rw [plain, lowerCase_ofComponents, components_ofComponents hspelled.lowered]

theorem place_append {p q : Path} {c : Component} (hc : c ≠ .current)
    (hp : p.components = q.components ++ [c]) : h.place p = h.place q ++ [h.kept c] := by
  rw [h.place_eq, h.place_eq, hp, List.filter_append, List.map_append]
  simp [hc]

theorem place_join (dir : Path) {name : String} (hname : (Component.name name).isStep = true) :
    h.place (dir.join ⟨name⟩) = h.place dir ++ [h.kept (.name name)] :=
  h.place_append Component.noConfusion (components_join_name dir hname)

/-- The directory of a path, as its parent spells it, has the empty place or that above the path. -/
theorem place_parent (p : Path) :
    h.place (p.parent?.getD ⟨""⟩) = [] ∨ ∃ c, h.place p = h.place (p.parent?.getD ⟨""⟩) ++ [c] := by
  have hempty : h.place ⟨""⟩ = [] := by
    rw [h.place_eq]
    rfl
  cases hparent : p.parent? with
  | none => exact .inl hempty
  | some parent =>
      rcases components_of_parent hparent with htext | ⟨c, hc, hp⟩
      · have hp : parent = ⟨""⟩ := congrArg Path.mk htext
        exact .inl (by rw [Option.getD_some, hp, hempty])
      · exact .inr ⟨_, h.place_append hc hp⟩

end Handle

/-! ## Places below others -/

def Below (above place : List Component) : Prop := ∃ c rest, place = above ++ c :: rest

theorem Below.of_prefix {above mid place : List Component} (hp : above <+: mid)
    (h : Below mid place) : Below above place := by
  obtain ⟨way, rfl⟩ := hp
  obtain ⟨c, rest, rfl⟩ := h
  cases way with
  | nil => exact ⟨c, rest, by rw [List.append_nil]⟩
  | cons d way => exact ⟨d, way ++ c :: rest, by simp⟩

theorem below_iff {above place : List Component} :
    Below above place ↔ above <+: place ∧ place ≠ above := by
  constructor
  · rintro ⟨c, rest, rfl⟩
    exact ⟨List.prefix_append _ _, by simp⟩
  · rintro ⟨⟨way, rfl⟩, hne⟩
    cases way with
    | nil => exact absurd (List.append_nil _) hne
    | cons c rest => exact ⟨c, rest, rfl⟩

end Memory

end CompileWatch
