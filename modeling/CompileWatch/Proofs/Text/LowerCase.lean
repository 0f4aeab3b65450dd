import CompileWatch.Text.LowerCase

/-!
# What lower-casing leaves

A text that has been lower-cased is not changed by lower-casing it again, and
neither is any part of it (`isLower_of_mem_lowerAfter`). This cannot be seen from
the definition: it says that no letter is the lower-case form of another and has
one itself, which is a property of the case data and is checked run against run
(`caseRuns_miss`). The marks that paths are made of are kept as well, and come
from nowhere else (`eq_cons_of_lowerAfter`).
-/

namespace CompileWatch.Text

/-- Whether a character is its own lower-case form wherever it stands. -/
def IsLower (c : Char) : Prop := c ≠ 'Σ' ∧ lowerChar c = [c]

instance (c : Char) : Decidable (IsLower c) := inferInstanceAs (Decidable (_ ∧ _))

namespace CaseRun

def low (run : CaseRun) : Nat := (run.first + run.offset).toNat

def high (run : CaseRun) : Nat := (run.last + run.offset).toNat

/-- Whether no form that a run gives is listed by another run. -/
def misses (run other : CaseRun) : Bool :=
  run.high.blt other.first || other.last.blt run.low ||
    ((run.first == run.last || run.step == 2) && other.step == 2 &&
      (run.low + other.first) % 2 == 1)

/-- Whether the forms that a run gives are characters that are no marks. -/
def isSound (run : CaseRun) : Bool :=
  0x61 ≤ run.first + run.offset &&
    (run.last + run.offset < 0xD800 ||
      (0xE000 ≤ run.first + run.offset && run.last + run.offset < 0x110000))

/-- The dotted capital I, which is lower-cased by itself. -/
def dottedI : CaseRun := ⟨0x130, 0x130, 1, 0⟩

variable {run other : CaseRun} {code : Nat} {d : Char}

theorem map?_eq_some (hs : run.isSound = true) (h : run.map? code = some d) :
    run.first ≤ code ∧ code ≤ run.last ∧ (code - run.first) % run.step = 0 ∧
      (d.toNat : Int) = code + run.offset := by
  unfold map? at h
  split at h
  · next hc =>
    simp only [Bool.and_eq_true, decide_eq_true_eq, beq_iff_eq] at hc
    obtain ⟨⟨hfirst, hlast⟩, hstep⟩ := hc
    refine ⟨hfirst, hlast, hstep, ?_⟩
    simp only [isSound, Bool.and_eq_true, Bool.or_eq_true, decide_eq_true_eq] at hs
    have hvalid : (code + run.offset).toNat.isValidChar := by
      unfold Nat.isValidChar
      omega
    cases h
    rw [Char.ofNat, dif_pos hvalid]
    show (((code + run.offset).toNat : Nat) : Int) = _
    omega
  · cases h

theorem map?_of_misses (hs : run.isSound = true) (hm : run.misses other = true)
    (h : run.map? code = some d) : other.map? d.toNat = none := by
  obtain ⟨hfirst, hlast, hstep, hd⟩ := map?_eq_some hs h
  simp only [isSound, Bool.and_eq_true, decide_eq_true_eq] at hs
  have hlow : (0 : Int) ≤ run.first + run.offset := by omega
  unfold map?
  rw [if_neg]
  simp only [misses, low, high, Nat.blt_eq, Bool.or_eq_true, Bool.and_eq_true, decide_eq_true_eq,
    beq_iff_eq] at hm ⊢
  rintro ⟨⟨hlow, hhigh⟩, hother⟩
  rcases hm with (hm | hm) | ⟨⟨hrun, htwo⟩, hodd⟩
  · omega
  · omega
  · rw [htwo] at hother
    rcases hrun with hone | hrun
    · omega
    · rw [hrun] at hstep
      omega

end CaseRun

/-- The forms that are not given by runs, and the slash, which has no case. -/
theorem isLower_of_mem_forms {c : Char} (h : c ∈ ['i', '\u0307', 'ς', 'σ', '/']) : IsLower c := by
  have hforms : (['i', '\u0307', 'ς', 'σ', '/'].all fun c => decide (IsLower c)) = true := by
    decide +kernel
  exact of_decide_eq_true (List.all_eq_true.1 hforms c h)

theorem findSome?_capitalSigma : caseRuns.findSome? (·.map? 'Σ'.toNat) ≠ none := by decide +kernel

theorem caseRuns_sound : caseRuns.all CaseRun.isSound = true := by decide +kernel

/-- No lower-case form has a lower-case form of its own. -/
theorem caseRuns_miss :
    (caseRuns.all fun run => (CaseRun.dottedI :: caseRuns).all run.misses) = true := by
  decide +kernel

/-! ## Characters -/

variable {c d : Char}

theorem isLower_of_map? {run : CaseRun} (hr : run ∈ caseRuns) {code : Nat}
    (h : run.map? code = some d) : IsLower d := by
  have hs := List.all_eq_true.1 caseRuns_sound run hr
  have hmiss := List.all_eq_true.1 (List.all_eq_true.1 caseRuns_miss run hr)
  have hnone : caseRuns.findSome? (·.map? d.toNat) = none := List.findSome?_eq_none_iff.2
    fun other ho => CaseRun.map?_of_misses hs (hmiss other (List.mem_cons_of_mem _ ho)) h
  refine ⟨?_, ?_⟩
  · rintro rfl
    exact findSome?_capitalSigma hnone
  · have hdot : d ≠ 'İ' := by
      rintro rfl
      have := CaseRun.map?_of_misses hs (hmiss _ List.mem_cons_self) h
      revert this
      decide
    rw [lowerChar, if_neg hdot, hnone]
    rfl

theorem isLower_of_mem_lowerChar (h : d ∈ lowerChar c) : IsLower d := by
  unfold lowerChar at h
  split at h
  · simp only [List.mem_cons, List.not_mem_nil, or_false] at h
    rcases h with rfl | rfl
    · exact isLower_of_mem_forms (by decide)
    · exact isLower_of_mem_forms (by decide)
  · next hdot =>
    rw [List.mem_singleton] at h
    cases hf : caseRuns.findSome? (·.map? c.toNat) with
    | some image =>
        rw [hf] at h
        obtain ⟨run, hr, hm⟩ := List.exists_of_findSome?_eq_some hf
        exact h ▸ isLower_of_map? hr hm
    | none =>
        rw [hf] at h
        refine h ▸ ⟨?_, ?_⟩
        · rintro rfl
          exact findSome?_capitalSigma hf
        · rw [Option.getD_none, lowerChar, if_neg hdot, hf]
          rfl

theorem lowerChar_ne_nil (c : Char) : lowerChar c ≠ [] := by
  unfold lowerChar
  split <;> exact List.cons_ne_nil _ _

/-- Marks and digits come from themselves alone. -/
theorem lowerChar_of_mem (h : d ∈ lowerChar c) (hd : d.toNat < 0x61) : c = d ∧ lowerChar c = [d] := by
  unfold lowerChar at h ⊢
  split at h
  · simp only [List.mem_cons, List.not_mem_nil, or_false] at h
    rcases h with rfl | rfl
    · exact absurd hd (by decide)
    · exact absurd hd (by decide)
  · next hdot =>
    rw [if_neg hdot]
    rw [List.mem_singleton] at h
    cases hf : caseRuns.findSome? (·.map? c.toNat) with
    | some image =>
        rw [hf] at h
        obtain ⟨run, hr, hm⟩ := List.exists_of_findSome?_eq_some hf
        have hs := List.all_eq_true.1 caseRuns_sound run hr
        obtain ⟨hfirst, _, _, himage⟩ := CaseRun.map?_eq_some hs hm
        simp only [CaseRun.isSound, Bool.and_eq_true, decide_eq_true_eq] at hs
        rw [h] at hd
        simp only [Option.getD_some] at hd
        omega
    | none =>
        rw [hf] at h
        exact ⟨h.symm, by rw [h]⟩

/-! ## Texts -/

theorem lowerAfter_cons (before : List Char) (c : Char) (rest : List Char) :
    lowerAfter before (c :: rest) =
      (if c = 'Σ' then [if meetsCased before && !meetsCased rest then 'ς' else 'σ'] else lowerChar c) ++
        lowerAfter (c :: before) rest := rfl

theorem isLower_of_mem_lowerAfter {cs : List Char} :
    ∀ {before : List Char}, d ∈ lowerAfter before cs → IsLower d := by
  induction cs with
  | nil => intro _ h; cases h
  | cons c rest ih =>
      intro before h
      rw [lowerAfter_cons] at h
      rcases List.mem_append.1 h with h | h
      · split at h
        · rw [List.mem_singleton] at h
          split at h
          · exact h ▸ isLower_of_mem_forms (by decide)
          · exact h ▸ isLower_of_mem_forms (by decide)
        · exact isLower_of_mem_lowerChar h
      · exact ih h

theorem lowerAfter_eq_self : ∀ {cs before : List Char}, (∀ c ∈ cs, IsLower c) →
    lowerAfter before cs = cs
  | [], _, _ => rfl
  | c :: rest, before, h => by
      obtain ⟨hsigma, hc⟩ := h c List.mem_cons_self
      rw [lowerAfter_cons, if_neg hsigma, hc,
        lowerAfter_eq_self fun d hd => h d (List.mem_cons_of_mem _ hd)]
      rfl

theorem lowerCase_eq_self {text : String} (h : ∀ c ∈ text.toList, IsLower c) :
    lowerCase text = text := by
  rw [lowerCase, lowerAfter_eq_self h, String.ofList_toList]

theorem lowerCase_lowerCase (text : String) : lowerCase (lowerCase text) = lowerCase text := by
  refine lowerCase_eq_self fun c hc => ?_
  rw [lowerCase, String.toList_ofList] at hc
  exact isLower_of_mem_lowerAfter hc

/-- A mark at the start of a lower-case form has been there before. -/
theorem eq_cons_of_lowerAfter {mark : Char} (hm : mark.toNat < 0x61) {text before tail : List Char}
    (h : lowerAfter before text = mark :: tail) :
    ∃ rest, text = mark :: rest ∧ tail = lowerAfter (mark :: before) rest := by
  cases text with
  | nil => cases h
  | cons c rest =>
      rw [lowerAfter_cons] at h
      split at h
      · have hmark : mark ∈ ['ς', 'σ'] := by
          rw [← (List.cons.inj h).1]
          split <;> decide
        revert hmark hm
        simp only [List.mem_cons, List.not_mem_nil, or_false]
        rintro hm (rfl | rfl)
        · exact absurd hm (by decide)
        · exact absurd hm (by decide)
      · have hmem : mark ∈ lowerChar c := by
          cases hl : lowerChar c with
          | nil => exact absurd hl (lowerChar_ne_nil c)
          | cons first more =>
              rw [hl] at h
              exact (List.cons.inj h).1 ▸ List.mem_cons_self
        obtain ⟨rfl, hone⟩ := lowerChar_of_mem hmem hm
        rw [hone] at h
        exact ⟨rest, rfl, (List.cons.inj h).2.symm⟩

theorem eq_nil_of_lowerAfter {text before : List Char} (h : lowerAfter before text = []) :
    text = [] := by
  cases text with
  | nil => rfl
  | cons c rest =>
      rw [lowerAfter_cons, List.append_eq_nil_iff] at h
      split at h
      · cases h.1
      · exact absurd h.1 (lowerChar_ne_nil c)

/-- A lower-case form made of marks alone is that of the marks. -/
theorem eq_of_lowerAfter : ∀ {marks text before : List Char}, (∀ mark ∈ marks, mark.toNat < 0x61) →
    lowerAfter before text = marks → text = marks
  | [], _, _, _, h => eq_nil_of_lowerAfter h
  | mark :: marks, _, _, hm, h => by
      obtain ⟨tail, rfl, htail⟩ := eq_cons_of_lowerAfter (hm mark List.mem_cons_self) h
      rw [eq_of_lowerAfter (fun other ho => hm other (List.mem_cons_of_mem _ ho)) htail.symm]

theorem eq_of_lowerCase {text marks : String} (hm : ∀ mark ∈ marks.toList, mark.toNat < 0x61)
    (h : lowerCase text = marks) : text = marks := by
  rw [← String.toList_inj] at h ⊢
  rw [lowerCase, String.toList_ofList] at h
  exact eq_of_lowerAfter hm h

theorem mem_of_mem_lowerAfter {mark : Char} (hm : mark.toNat < 0x61) {text : List Char} :
    ∀ {before : List Char}, mark ∈ lowerAfter before text → mark ∈ text := by
  induction text with
  | nil => exact fun h => h
  | cons c rest ih =>
      intro before h
      rw [lowerAfter_cons, List.mem_append] at h
      rcases h with h | h
      · split at h
        · have hmark : mark = 'ς' ∨ mark = 'σ' := by
            split at h
            · exact .inl (List.mem_singleton.1 h)
            · exact .inr (List.mem_singleton.1 h)
          rcases hmark with rfl | rfl
          · exact absurd hm (by decide)
          · exact absurd hm (by decide)
        · obtain ⟨rfl, _⟩ := lowerChar_of_mem h hm
          exact List.mem_cons_self
      · exact List.mem_cons_of_mem c (ih h)

/-! ## Words end at a slash

The final form of sigma is the only thing that makes the lower-case form of a
text differ from those of its parts. A slash has no case and is not passed over,
so no character sees beyond it. -/

theorem meetsCased_slash (before after : List Char) :
    meetsCased (before ++ '/' :: after) = meetsCased before := by
  induction before with
  | nil => rfl
  | cons c rest ih =>
      unfold meetsCased at ih ⊢
      cases hc : isCaseIgnorable c with
      | true =>
          rw [List.cons_append, List.dropWhile_cons_of_pos hc, List.dropWhile_cons_of_pos hc]
          exact ih
      | false =>
          rw [List.cons_append, List.dropWhile_cons_of_neg (by simp [hc]),
            List.dropWhile_cons_of_neg (by simp [hc])]

theorem lowerAfter_slash_before (earlier text : List Char) : ∀ before : List Char,
    lowerAfter (before ++ '/' :: earlier) text = lowerAfter before text := by
  induction text with
  | nil => exact fun _ => rfl
  | cons c rest ih =>
      intro before
      rw [lowerAfter_cons, lowerAfter_cons, meetsCased_slash, ← List.cons_append, ih]

theorem lowerAfter_append_slash (rest text : List Char) : ∀ before : List Char,
    lowerAfter before (text ++ '/' :: rest) = lowerAfter before text ++ '/' :: lowerAfter [] rest := by
  induction text with
  | nil =>
      intro before
      have hslash : lowerChar '/' = ['/'] := (isLower_of_mem_forms (by decide)).2
      have hrest := lowerAfter_slash_before before rest []
      rw [List.nil_append] at hrest
      have hnil : lowerAfter before [] = [] := rfl
      rw [hnil, List.nil_append, List.nil_append, lowerAfter_cons, if_neg (by decide), hslash, hrest]
      rfl
  | cons c text ih =>
      intro before
      rw [List.cons_append, lowerAfter_cons, lowerAfter_cons, meetsCased_slash, ih, List.append_assoc]

theorem lowerCase_append_slash (text rest : String) :
    lowerCase (text ++ "/" ++ rest) = lowerCase text ++ "/" ++ lowerCase rest := by
  rw [lowerCase, String.toList_append, String.toList_append, List.append_assoc]
  show String.ofList (lowerAfter [] (text.toList ++ '/' :: rest.toList)) = _
  rw [lowerAfter_append_slash, String.ofList_append, ← List.singleton_append, String.ofList_append,
    ← String.append_assoc]
  rfl

end CompileWatch.Text
