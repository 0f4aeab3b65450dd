import CompileWatch.Config.File
import CompileWatch.Proofs.Document.Fields
import Mathlib.Tactic.MkIffOfInductiveProp
import Mathlib.Tactic.Tauto

/-!
# Options, known and unknown

The options of a configuration file are read in two passes. The first takes out
targets and module systems whose names are not known, which leaves all other
options where they stand (`dropRejected_object`). The second reads the options
that are left and passes over the keys that are no options. Neither pass looks at
what the other takes away: a name is rejected under a known key only
(`isRejected_of_not_isOption`), and all options that are left can be read
(`exists_decodeKey?`). So a file is read as if it held nothing else
(`exists_decode`).
-/

namespace CompileWatch.Config

open Document

/-! ## Options of the declared shape -/

/-- Whether the value of an option has the shape that is declared for it. A target and a module
system may have any name, and a key that is not known any value. -/
@[mk_iff]
structure OptionShaped (key : String) (value : Document) : Prop where
  name : key ∈ ["target", "module"] → ∃ name, value = .text name
  path : key ∈ ["outDir", "rootDir", "configFilePath"] → value = .null ∨ ∃ path, value = .text path
  flag : key ∈ ["strict", "noImplicitAny", "declaration", "sourceMap", "noEmitOnError"] →
    ∃ flag, value = .bool flag
  newLine : key = "newLine" → value = .null ∨
    ∃ line : NewLine, value = .text line.name ∨ value = .object [(line.name, .null)]

/-- The key and the value of an option, if it is that of the given key and its name is not known. -/
def rejection? (key : String) (known : String → Bool) (f : String × Document) :
    Option (String × String) :=
  match f.2 with
  | .text value => if f.1 = key && !known value then some (key, value) else none
  | _ => none

def rejectedTarget? : String × Document → Option (String × String) :=
  rejection? "target" fun name => (ScriptTarget.ofName? name).isSome

def rejectedModule? : String × Document → Option (String × String) :=
  rejection? "module" fun name => (ModuleKind.ofName? name).isSome

def isRejected (f : String × Document) : Bool :=
  (rejectedTarget? f).isSome || (rejectedModule? f).isSome

def isOption (f : String × Document) : Bool := CompilerOptions.keys.contains f.1

/-! ## Names that are not known -/

section Rejected

variable {key : String} {known : String → Bool} {options : List (String × Document)}

theorem rejection?_eq_some {f : String × Document} {rejected : String × String} :
    rejection? key known f = some rejected ↔
      ∃ value, f = (key, .text value) ∧ known value = false ∧ rejected = (key, value) := by
  obtain ⟨k, document⟩ := f
  constructor
  · intro h
    unfold rejection? at h
    split at h
    · next value heq =>
      obtain rfl : document = .text value := heq
      split at h
      · next hwrong =>
        obtain ⟨rfl, hknown⟩ : k = key ∧ known value = false := by simpa using hwrong
        exact ⟨value, rfl, hknown, (Option.some.inj h).symm⟩
      · cases h
    · cases h
  · rintro ⟨value, heq, hknown, rfl⟩
    cases heq
    simp [rejection?, hknown]

theorem rejection?_of_ne {f : String × Document} (h : f.1 ≠ key) :
    rejection? key known f = none := by
  rw [Option.eq_none_iff_forall_ne_some]
  intro rejected hrejected
  obtain ⟨value, rfl, -⟩ := rejection?_eq_some.1 hrejected
  exact h rfl

theorem rejectedValue?_eq_some (h : Ascending options) {value : String} :
    rejectedValue? (.object options) key known = some value ↔
      (key, .text value) ∈ options ∧ known value = false := by
  rw [← field?_eq_some_iff h]
  unfold rejectedValue?
  cases hfield : (Document.object options).field? key with
  | none => simp
  | some document =>
      cases document with
      | text name =>
          cases hknown : known name with
          | true => simpa [hknown] using fun heq : name = value => heq ▸ hknown
          | false => simpa [hknown] using fun heq : name = value => heq ▸ hknown
      | _ => simp

/-- Takes out the value of one named option, if its name is not known. -/
def dropOne (kept : Document × List (String × String)) (option : String × (String → Bool)) :
    Document × List (String × String) :=
  match rejectedValue? kept.1 option.1 option.2 with
  | some value => (kept.1.eraseField option.1, kept.2 ++ [(option.1, value)])
  | none => kept

theorem dropRejected_eq (document : Document) :
    dropRejected document = namedOptions.foldl dropOne (document, []) := rfl

theorem dropOne_object (h : Ascending options) (key : String) (known : String → Bool)
    (rejected : List (String × String)) :
    dropOne (.object options, rejected) (key, known) =
      (.object (options.filter fun f => (rejection? key known f).isNone),
        rejected ++ options.filterMap (rejection? key known)) := by
  unfold dropOne
  dsimp only
  cases hvalue : rejectedValue? (.object options) key known with
  | none =>
      have hnone : ∀ f ∈ options, rejection? key known f = none := by
        intro f hf
        rw [Option.eq_none_iff_forall_ne_some]
        intro rejected hrejected
        obtain ⟨value, rfl, hknown, -⟩ := rejection?_eq_some.1 hrejected
        rw [(rejectedValue?_eq_some h).2 ⟨hf, hknown⟩] at hvalue
        cases hvalue
      have hkept : options.filter (fun f => (rejection? key known f).isNone) = options :=
        List.filter_eq_self.2 fun f hf => by rw [hnone f hf]; rfl
      rw [hkept, List.filterMap_eq_nil_iff.2 hnone, List.append_nil]
  | some value =>
      obtain ⟨hmem, hknown⟩ := (rejectedValue?_eq_some h).1 hvalue
      have hrejected : rejection? key known (key, .text value) = some (key, value) :=
        rejection?_eq_some.2 ⟨value, rfl, hknown, rfl⟩
      obtain ⟨before, later, rfl⟩ := List.append_of_mem hmem
      have hother : ∀ f ∈ before ++ later, f.1 ≠ key := by
        have hdistinct := h.distinct
        rw [List.pairwise_append, List.pairwise_cons] at hdistinct
        intro f hf
        rcases List.mem_append.1 hf with hf | hf
        · exact hdistinct.2.2 f hf _ List.mem_cons_self
        · exact (hdistinct.2.1.1 f hf).symm
      obtain ⟨hbefore, hlater⟩ := List.forall_mem_append.1 hother
      have hnone : ∀ fs : List (String × Document), (∀ f ∈ fs, f.1 ≠ key) →
          fs.filter (fun f => (rejection? key known f).isNone) = fs ∧
            fs.filter (fun f => f.1 != key) = fs ∧ fs.filterMap (rejection? key known) = [] := by
        intro fs hfs
        refine ⟨List.filter_eq_self.2 fun f hf => ?_, List.filter_eq_self.2 fun f hf => ?_,
          List.filterMap_eq_nil_iff.2 fun f hf => rejection?_of_ne (hfs f hf)⟩
        · rw [rejection?_of_ne (hfs f hf)]
          rfl
        · simpa using hfs f hf
      simp [eraseField, List.filter_append, List.filterMap_append, hrejected, hnone before hbefore,
        hnone later hlater]

/-- Only targets and module systems are rejected, and only those that are there. -/
theorem dropRejected_object (h : Ascending options) :
    dropRejected (.object options) =
      (.object (options.filter (!isRejected ·)),
        options.filterMap rejectedTarget? ++ options.filterMap rejectedModule?) := by
  have hkept : (options.filter fun f => (rejectedTarget? f).isNone).filter
      (fun f => (rejectedModule? f).isNone) = options.filter (!isRejected ·) := by
    rw [List.filter_filter]
    refine List.filter_congr fun f _ => ?_
    rw [isRejected]
    cases rejectedTarget? f <;> cases rejectedModule? f <;> rfl
  -- a name that was taken out first is that of a target
  have hmodules : (options.filter fun f => (rejectedTarget? f).isNone).filterMap rejectedModule? =
      options.filterMap rejectedModule? := by
    rw [List.filterMap_filter]
    refine List.filterMap_congr fun f _ => ?_
    split
    · rfl
    · next hsome =>
      rw [Bool.not_eq_true, ← Option.not_isSome, Bool.not_eq_false'] at hsome
      obtain ⟨rejected, hrejected⟩ := Option.isSome_iff_exists.1 hsome
      obtain ⟨value, rfl, -⟩ := rejection?_eq_some.1 hrejected
      exact (rejection?_of_ne (show "target" ≠ "module" by decide)).symm
  rw [dropRejected_eq, namedOptions, List.foldl_cons, List.foldl_cons, List.foldl_nil,
    dropOne_object h, dropOne_object (h.filter _)]
  exact Prod.ext (congrArg Document.object hkept) (congrArg (_ ++ ·) hmodules)

end Rejected

/-! ## Reading options -/

theorem decodeKey?_unknown {key : String} (hkey : key ∉ CompilerOptions.keys)
    (o : CompilerOptions) (value : Document) : o.decodeKey? key value = .ok none := by
  unfold CompilerOptions.decodeKey?
  split
  case h_12 => rfl
  all_goals exact absurd (by decide) hkey

theorem decodeNamed_of_eq_some {α : Type} {key name : String} {ofName? : String → Option α}
    {value : α} (h : ofName? name = some value) :
    CompilerOptions.decodeNamed key ofName? (.text name) = .ok value := by
  simp [CompilerOptions.decodeNamed, expectText, h, bind, Except.bind]

theorem exists_decodeNamed {α : Type} {key name : String} {ofName? : String → Option α}
    (hkept : rejection? key (fun name => (ofName? name).isSome) (key, .text name) = none) :
    ∃ value, CompilerOptions.decodeNamed key ofName? (.text name) = .ok value := by
  cases hname : ofName? name with
  | none =>
      rw [rejection?_eq_some.2 ⟨name, rfl, by rw [hname]; rfl, rfl⟩] at hkept
      cases hkept
  | some value => exact ⟨value, decodeNamed_of_eq_some hname⟩

theorem exists_decodePath {value : Document} (h : value = .null ∨ ∃ path, value = .text path) :
    ∃ path, value.expectOptional CompilerOptions.decodePath = .ok path := by
  rcases h with rfl | ⟨path, rfl⟩
  · exact ⟨none, rfl⟩
  · exact ⟨some ⟨path⟩, rfl⟩

theorem exists_decodeNewLine {value : Document} (h : value = .null ∨
    ∃ line : NewLine, value = .text line.name ∨ value = .object [(line.name, .null)]) :
    ∃ line, value.expectOptional CompilerOptions.decodeNewLine = .ok line := by
  rcases h with rfl | ⟨line, rfl | rfl⟩
  · exact ⟨none, rfl⟩
  · exact ⟨some line, by cases line <;> rfl⟩
  · exact ⟨some line, by cases line <;> rfl⟩

/-- An option of the declared shape whose name is known can be read. -/
theorem exists_decodeKey? {f : String × Document} (hshaped : OptionShaped f.1 f.2)
    (hkept : isRejected f = false) (hoption : isOption f = true) (o : CompilerOptions) :
    ∃ next, o.decodeKey? f.1 f.2 = .ok (some next) := by
  obtain ⟨key, value⟩ := f
  obtain ⟨htarget, hmodule⟩ : rejectedTarget? (key, value) = none ∧
      rejectedModule? (key, value) = none := by simpa [isRejected] using hkept
  have hkey : key ∈ CompilerOptions.keys := by simpa [isOption] using hoption
  have hread : ∀ {β : Type} {x : Except ShapeError β} {set : β → CompilerOptions},
      (∃ read, x = .ok read) → ∃ next, (fun read => some (set read)) <$> x = .ok (some next) := by
    rintro _ _ set ⟨read, rfl⟩
    exact ⟨set read, rfl⟩
  change OptionShaped key value at hshaped
  have hgroup : key ∈ ["target", "module"] ∨ key ∈ ["outDir", "rootDir", "configFilePath"] ∨
      key ∈ ["strict", "noImplicitAny", "declaration", "sourceMap", "noEmitOnError"] ∨
      key = "newLine" := by
    simp only [CompilerOptions.keys, List.mem_cons, List.not_mem_nil, or_false] at hkey ⊢
    tauto
  rcases hgroup with hname | hpath | hflag | rfl
  · obtain ⟨name, rfl⟩ := hshaped.name hname
    simp only [List.mem_cons, List.not_mem_nil, or_false] at hname
    rcases hname with rfl | rfl
    · exact hread (exists_decodeNamed htarget)
    · exact hread (exists_decodeNamed hmodule)
  · have hvalue := exists_decodePath (hshaped.path hpath)
    simp only [List.mem_cons, List.not_mem_nil, or_false] at hpath
    rcases hpath with rfl | rfl | rfl <;> exact hread hvalue
  · obtain ⟨flag, rfl⟩ := hshaped.flag hflag
    simp only [List.mem_cons, List.not_mem_nil, or_false] at hflag
    rcases hflag with rfl | rfl | rfl | rfl | rfl <;> exact ⟨_, rfl⟩
  · exact hread (exists_decodeNewLine (hshaped.newLine rfl))

/-- A key that is no option is one of no target and no module system. -/
theorem isRejected_of_not_isOption {f : String × Document} (h : isOption f = false) :
    isRejected f = false := by
  have hne : ∀ key ∈ CompilerOptions.keys, f.1 ≠ key := by
    rintro key hkey rfl
    rw [isOption, List.contains_iff_mem.2 hkey] at h
    cases h
  rw [isRejected, rejectedTarget?, rejectedModule?, rejection?_of_ne (hne "target" (by decide)),
    rejection?_of_ne (hne "module" (by decide))]
  rfl

/-- What is rejected is no key that is not known. -/
theorem filter_not_isOption (options : List (String × Document)) :
    (options.filter (!isRejected ·)).filter (!isOption ·) = options.filter (!isOption ·) := by
  rw [List.filter_filter]
  refine List.filter_congr fun f _ => ?_
  cases hoption : isOption f with
  | true => rfl
  | false => rw [isRejected_of_not_isOption hoption]; rfl

/-- Reads one option more. Nothing inside its value is passed over. -/
def readOption (o : CompilerOptions) (key : String) (value : Document) :
    Except ShapeError (Option (RecordReading CompilerOptions)) := do
  return (← o.decodeKey? key value).map fun read => (read, [])

theorem decode_object (options : List (String × Document)) :
    CompilerOptions.decode (.object options) =
      options.foldlM (readField readOption) ({}, []) := by
  show (Document.object options).expectRecord _ CompilerOptions.keys readOption {} = _
  rw [expectRecord_object]

/-- The options of a file: those that are understood are read, and the other keys are told. -/
theorem exists_decode {options : List (String × Document)}
    (hshaped : ∀ f ∈ options, OptionShaped f.1 f.2) :
    ∃ o, CompilerOptions.decode (.object (options.filter (!isRejected ·))) =
        .ok (o, (options.filter (!isOption ·)).map (·.1)) ∧
      CompilerOptions.decode (.object (options.filter fun f => isOption f && !isRejected f)) =
        .ok (o, []) := by
  have hreads : ∀ f ∈ options.filter (!isRejected ·),
      Reads readOption (Option.guard isOption f) [] f := by
    intro f hf
    obtain ⟨hf, hkept⟩ := List.mem_filter.1 hf
    unfold Option.guard
    cases hoption : isOption f with
    | true =>
        intro o
        obtain ⟨next, hnext⟩ := exists_decodeKey? (hshaped f hf) (by simpa using hkept) hoption o
        have hread : readOption o f.1 f.2 = .ok (some (next, [])) := by
          unfold readOption
          rw [hnext]
          rfl
        exact ⟨next, hread, hread⟩
    | false =>
        intro o
        unfold readOption
        rw [decodeKey?_unknown (by simpa [isOption] using hoption)]
        rfl
  obtain ⟨o, hall, hplain⟩ := exists_record (Option.guard isOption) (fun _ => [])
    (({} : CompilerOptions), []) [] hreads
  rw [passedOver_guard, filter_not_isOption] at hall
  rw [List.filterMap_eq_filter, List.filter_filter] at hplain
  exact ⟨o, (decode_object _).trans hall, (decode_object _).trans hplain⟩

end CompileWatch.Config
