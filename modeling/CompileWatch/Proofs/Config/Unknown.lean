import CompileWatch.Config.Load
import CompileWatch.Proofs.Config.Options
import CompileWatch.Proofs.Effect

/-!
# Configuration that is not understood

A configuration file may say more than this program understands: it may have
further keys, at both of its levels, and it may name targets and module systems
that are not known here. None of this changes what is understood. A file means
what the part of it means that is understood (`understood`), and all that was
passed over is told in a fixed order (`unknown_configuration_reported`).

At each of the two levels a file goes through two passes: names are taken out
(`dropUnsupported_object`), and what is left is read (`exists_decodeFile`). What is
understood of a file goes through both as it is (`dropUnsupported_understood`).
-/

namespace CompileWatch

namespace Document

/-- The fields of an object; other documents have none. -/
def fields : Document → List (String × Document)
  | .object fields => fields
  | _ => []

/-- An object with its fields changed. -/
def mapFields (change : List (String × Document) → List (String × Document)) :
    Document → Document
  | .object fields => .object (change fields)
  | other => other

end Document

namespace Config

open Document

/-! ## Files of the declared shape -/

/-- Whether the value of a key of a configuration file has its shape. -/
structure FieldShaped (key : String) (value : Document) : Prop where
  files : key = "files" → ∃ names : List String, value = .array (names.map .text)
  options : key = "compilerOptions" →
    ∃ options, value = .object options ∧ ∀ f ∈ options, OptionShaped f.1 f.2

def Shaped (document : Document) : Prop :=
  ∃ fields, document = .object fields ∧ ∀ f ∈ fields, FieldShaped f.1 f.2

/-! ## What is understood -/

/-- A field of a configuration file without what is not understood in it. -/
def understoodField? (f : String × Document) : Option (String × Document) :=
  if f.1 = "compilerOptions" then
    some (f.1, f.2.mapFields (·.filter fun option => isOption option && !isRejected option))
  else if f.1 = "files" then some f
  else none

/-- The part of a configuration file that is understood. -/
def understood : Document → Document := mapFields (·.filterMap understoodField?)

/-! ## What is passed over -/

/-- The names that are not known: that of the target, and then that of the module system. -/
def rejections (document : Document) : List (String × String) :=
  let options := ((document.field? "compilerOptions").map Document.fields).getD []
  options.filterMap rejectedTarget? ++ options.filterMap rejectedModule?

/-- The keys that are not known, those of options where the options stand. -/
def unknownKeys (document : Document) : List String :=
  document.fields.flatMap fun f =>
    if f.1 = "compilerOptions" then
      (f.2.fields.filter (!isOption ·)).map fun option => s!"compilerOptions.{option.1}"
    else if f.1 = "files" then []
    else [f.1]

/-! ## Taking names out -/

/-- A field of a configuration file without the names that are not known. -/
def supportedField (f : String × Document) : String × Document :=
  if f.1 = "compilerOptions" then (f.1, f.2.mapFields (·.filter (!isRejected ·))) else f

theorem dropUnsupported_object {fields : List (String × Document)}
    (hordered : Ordered (.object fields)) :
    dropUnsupported (.object fields) =
      (.object (fields.map supportedField), rejections (.object fields)) := by
  obtain ⟨hfields, hvalues⟩ := ordered_object_iff.1 hordered
  by_cases hoptions :
      ∃ options, (Document.object fields).field? "compilerOptions" = some (.object options)
  · obtain ⟨options, hfield⟩ := hoptions
    have hmem := (field?_eq_some_iff hfields).1 hfield
    obtain ⟨hoptions, -⟩ := ordered_object_iff.1 (hvalues _ hmem)
    have hset : setField "compilerOptions" (.object (options.filter (!isRejected ·))) fields =
        fields.map supportedField := by
      rw [setField_of_mem hfields ⟨_, hmem, rfl⟩]
      refine List.map_congr_left fun f hf => ?_
      unfold supportedField
      split
      · next heq =>
        have hvalue := field?_of_mem hfields hf heq
        rw [hfield] at hvalue
        rw [heq, ← Option.some.inj hvalue]
        rfl
      · rfl
    unfold dropUnsupported rejections
    rw [hfield]
    dsimp only
    rw [dropRejected_object hoptions, ← hset]
    rfl
  · have hother : ∀ f ∈ fields, supportedField f = f := by
      rintro ⟨key, value⟩ hf
      unfold supportedField
      split
      · next hkey =>
        have hfield := field?_of_mem hfields hf hkey
        cases value with
        | object options => exact absurd ⟨options, hfield⟩ hoptions
        | _ => rfl
      · rfl
    have hnone : ((((Document.object fields).field? "compilerOptions").map
        Document.fields).getD []) = [] := by
      cases hfield : (Document.object fields).field? "compilerOptions" with
      | none => rfl
      | some value =>
          cases value with
          | object options => exact absurd ⟨options, hfield⟩ hoptions
          | _ => rfl
    have hdrop : dropUnsupported (.object fields) = (.object fields, []) := by
      unfold dropUnsupported
      split
      · next hfield => exact absurd ⟨_, hfield⟩ hoptions
      · rfl
    unfold rejections
    rw [hdrop, hnone, List.map_congr_left hother, List.map_id']
    rfl

/-! ## Reading files -/

/-- A field of a configuration file without the keys that are not known. -/
def plainField? (f : String × Document) : Option (String × Document) :=
  if f.1 = "compilerOptions" then some (f.1, f.2.mapFields (·.filter isOption))
  else if f.1 = "files" then some f
  else none

/-- The keys inside the value of a field that are not known. -/
def innerKeys (f : String × Document) : List String :=
  if f.1 = "compilerOptions" then (f.2.fields.filter (!isOption ·)).map (·.1) else []

theorem decodeFile_object (fields : List (String × Document)) :
    decodeFile (.object fields) = fields.foldlM (readField decodeFileKey?) ({}, []) := by
  show (Document.object fields).expectRecord _ fileKeys decodeFileKey? {} = _
  rw [expectRecord_object]

theorem supportedField_of_ne {f : String × Document} (h : f.1 ≠ "compilerOptions") :
    supportedField f = f := if_neg h

theorem innerKeys_supported (f : String × Document) :
    innerKeys (supportedField f) = innerKeys f := by
  obtain ⟨key, value⟩ := f
  by_cases hkey : key = "compilerOptions"
  · subst hkey
    cases value with
    | object options =>
        exact congrArg (List.map (·.1)) (filter_not_isOption options)
    | _ => rfl
  · rw [supportedField_of_ne hkey]

theorem plainField?_supported (f : String × Document) :
    plainField? (supportedField f) = understoodField? f := by
  obtain ⟨key, value⟩ := f
  by_cases hkey : key = "compilerOptions"
  · subst hkey
    cases value with
    | object options =>
        have hfilter : (options.filter (!isRejected ·)).filter isOption =
            options.filter fun f => isOption f && !isRejected f := List.filter_filter
        exact congrArg (fun kept => some ("compilerOptions", Document.object kept)) hfilter
    | _ => rfl
  · rw [supportedField_of_ne hkey, plainField?, understoodField?, if_neg hkey, if_neg hkey]

theorem mapM_decodePath (names : List String) :
    (names.map Document.text).mapM CompilerOptions.decodePath = .ok (names.map Path.mk) := by
  induction names with
  | nil => rfl
  | cons name rest ih =>
      rw [List.map_cons, List.mapM_cons, ih]
      rfl

/-- A field of the declared shape does to what was read so far what is understood of it does. -/
theorem reads_supported {f : String × Document} (hshaped : FieldShaped f.1 f.2) :
    Reads decodeFileKey? (plainField? (supportedField f)) (innerKeys (supportedField f))
      (supportedField f) := by
  rw [plainField?_supported, innerKeys_supported]
  obtain ⟨key, value⟩ := f
  by_cases hoptions : key = "compilerOptions"
  · subst hoptions
    obtain ⟨options, hvalue, hoptions⟩ := hshaped.options rfl
    obtain rfl : value = .object options := hvalue
    obtain ⟨o, hall, hplain⟩ := exists_decode hoptions
    intro content
    refine ⟨{ content with compilerOptions := o }, ?_, ?_⟩
    · show (CompilerOptions.decode (.object (options.filter (!isRejected ·))) >>= fun _ => _) = _
      rw [hall]
      rfl
    · show (CompilerOptions.decode
        (.object (options.filter fun f => isOption f && !isRejected f)) >>= fun _ => _) = _
      rw [hplain]
      rfl
  · rw [supportedField_of_ne hoptions]
    by_cases hfiles : key = "files"
    · subst hfiles
      obtain ⟨names, hvalue⟩ := hshaped.files rfl
      obtain rfl : value = .array (names.map .text) := hvalue
      intro content
      have hread : decodeFileKey? content "files" (.array (names.map .text)) =
          .ok (some ({ content with files := names.map Path.mk }, [])) := by
        show ((names.map Document.text).mapM CompilerOptions.decodePath >>= fun _ => _) = _
        rw [mapM_decodePath]
        rfl
      exact ⟨_, hread, hread⟩
    · rw [understoodField?, if_neg hoptions, if_neg hfiles]
      intro content
      unfold decodeFileKey?
      split
      · next heq => exact absurd heq hoptions
      · next heq => exact absurd heq hfiles
      · rfl

section Fields

variable {fields : List (String × Document)}

theorem passedOver_fields (fields : List (String × Document)) :
    (fields.map supportedField).flatMap (passedOver plainField? innerKeys) =
      unknownKeys (.object fields) := by
  rw [List.flatMap_map]
  refine List.flatMap_congr fun f _ => ?_
  have hkey : (supportedField f).1 = f.1 := by
    unfold supportedField
    split <;> rfl
  rw [passedOver, plainField?_supported, innerKeys_supported, hkey, understoodField?, innerKeys]
  by_cases hoptions : f.1 = "compilerOptions"
  · rw [if_pos hoptions, if_pos hoptions, if_pos hoptions, List.map_map, hoptions]
    rfl
  · rw [if_neg hoptions, if_neg hoptions, if_neg hoptions]
    by_cases hfiles : f.1 = "files"
    · rw [if_pos hfiles, if_pos hfiles]
      rfl
    · rw [if_neg hfiles, if_neg hfiles]
      rfl

/-- A file of the declared shape is read, and so is what is understood of it, to the same end. -/
theorem exists_decodeFile (hshaped : ∀ f ∈ fields, FieldShaped f.1 f.2) :
    ∃ content, decodeFile (.object (fields.map supportedField)) =
        .ok (content, unknownKeys (.object fields)) ∧
      decodeFile (.object (fields.filterMap understoodField?)) = .ok (content, []) := by
  have hreads : ∀ g ∈ fields.map supportedField,
      Reads decodeFileKey? (plainField? g) (innerKeys g) g :=
    List.forall_mem_map.2 fun f hf => reads_supported (hshaped f hf)
  have hunderstood : plainField? ∘ supportedField = understoodField? :=
    funext plainField?_supported
  obtain ⟨content, hall, hplain⟩ :=
    exists_record plainField? innerKeys (({} : FileContent), []) [] hreads
  rw [passedOver_fields] at hall
  rw [List.filterMap_map, hunderstood] at hplain
  exact ⟨content, (decodeFile_object _).trans hall, (decodeFile_object _).trans hplain⟩

end Fields

/-! ## What is understood is understood again -/

theorem understoodField?_key {f g : String × Document} (h : understoodField? f = some g) :
    g.1 = f.1 := by
  unfold understoodField? at h
  split at h
  · rw [← Option.some.inj h]
  · split at h
    · rw [← Option.some.inj h]
    · cases h

/-- What is understood of a field: the options that are, or the files as they are. -/
theorem understoodField?_cases {f g : String × Document} (hshaped : FieldShaped f.1 f.2)
    (h : understoodField? f = some g) :
    (∃ options, f = ("compilerOptions", .object options) ∧
      g = ("compilerOptions", .object (options.filter fun o => isOption o && !isRejected o))) ∨
    f.1 = "files" ∧ f = g := by
  obtain ⟨key, value⟩ := f
  unfold understoodField? at h
  split at h
  · next hkey =>
    obtain ⟨options, hvalue, -⟩ := hshaped.options hkey
    obtain rfl : key = "compilerOptions" := hkey
    obtain rfl : value = .object options := hvalue
    exact .inl ⟨options, rfl, (Option.some.inj h).symm⟩
  · split at h
    · next hfiles => exact .inr ⟨hfiles, Option.some.inj h⟩
    · cases h

theorem ordered_understood {f g : String × Document} (hshaped : FieldShaped f.1 f.2)
    (hordered : Ordered f.2) (h : understoodField? f = some g) : Ordered g.2 := by
  rcases understoodField?_cases hshaped h with ⟨options, rfl, rfl⟩ | ⟨-, rfl⟩
  · obtain ⟨hoptions, hvalues⟩ := ordered_object_iff.1 hordered
    exact .object (hoptions.filter _) fun o ho => hvalues o (List.mem_filter.1 ho).1
  · exact hordered

theorem not_isRejected_of_understood {f g : String × Document} (hshaped : FieldShaped f.1 f.2)
    (h : understoodField? f = some g) (hkey : g.1 = "compilerOptions") :
    ∀ o ∈ g.2.fields, isRejected o = false := by
  rcases understoodField?_cases hshaped h with ⟨options, rfl, rfl⟩ | ⟨hfiles, rfl⟩
  · intro o ho
    have hkept := (List.mem_filter.1 ho).2
    rw [Bool.and_eq_true, Bool.not_eq_true'] at hkept
    exact hkept.2
  · rw [hkey] at hfiles
    exact absurd hfiles (by decide)

theorem supportedField_of_not_isRejected {f : String × Document}
    (h : f.1 = "compilerOptions" → ∀ o ∈ f.2.fields, isRejected o = false) :
    supportedField f = f := by
  obtain ⟨key, value⟩ := f
  unfold supportedField
  split
  · next hkey =>
    have hvalue : value.mapFields (·.filter (!isRejected ·)) = value := by
      cases value with
      | object options =>
          refine congrArg Document.object (List.filter_eq_self.2 fun o ho => ?_)
          rw [h hkey o ho]
          rfl
      | _ => rfl
    exact congrArg (key, ·) hvalue
  · rfl

/-- No name is taken out of what is understood. -/
theorem dropUnsupported_understood {fields : List (String × Document)}
    (hordered : Ordered (.object fields)) (hshaped : ∀ f ∈ fields, FieldShaped f.1 f.2) :
    dropUnsupported (understood (.object fields)) = (understood (.object fields), []) := by
  obtain ⟨hfields, hvalues⟩ := ordered_object_iff.1 hordered
  have hleft : ∀ g ∈ fields.filterMap understoodField?,
      ∃ f ∈ fields, understoodField? f = some g := fun g hg => List.mem_filterMap.1 hg
  have hascending : Ascending (fields.filterMap understoodField?) :=
    hfields.filterMap fun _ _ => understoodField?_key
  have hknown : ∀ g ∈ fields.filterMap understoodField?, g.1 = "compilerOptions" →
      ∀ o ∈ g.2.fields, isRejected o = false := by
    intro g hg
    obtain ⟨f, hf, hfg⟩ := hleft g hg
    exact not_isRejected_of_understood (hshaped f hf) hfg
  have hdrop := dropUnsupported_object <| .object hascending fun g hg => by
    obtain ⟨f, hf, hfg⟩ := hleft g hg
    exact ordered_understood (hshaped f hf) (hvalues f hf) hfg
  have hnames : rejections (understood (.object fields)) = [] := by
    have hnone : ∀ o ∈ (((understood (.object fields)).field? "compilerOptions").map
        Document.fields).getD [], isRejected o = false := by
      cases hfield : (understood (.object fields)).field? "compilerOptions" with
      | none => exact List.forall_mem_nil _
      | some value => exact hknown _ ((field?_eq_some_iff hascending).1 hfield) rfl
    have hrejection : ∀ o, isRejected o = false →
        rejectedTarget? o = none ∧ rejectedModule? o = none := fun o ho => by
      simpa [isRejected] using ho
    unfold rejections
    dsimp only
    rw [List.filterMap_eq_nil_iff.2 fun o ho => (hrejection o (hnone o ho)).1,
      List.filterMap_eq_nil_iff.2 fun o ho => (hrejection o (hnone o ho)).2]
    rfl
  have hsame : (fields.filterMap understoodField?).map supportedField =
      fields.filterMap understoodField? := by
    rw [List.map_congr_left fun g hg => supportedField_of_not_isRejected (hknown g hg),
      List.map_id']
  rw [hsame] at hdrop
  exact hdrop.trans (congrArg (_, ·) hnames)

/-! ## Loading -/

section Loading

variable {document : Document} {content : FileContent} {rejected : List (String × String)}
  {unknown : List String}

/-- A configuration as it comes from what was read and what was passed over. -/
def loaded (content : FileContent) (rejected : List (String × String)) (unknown : List String)
    (file root : Path) : LoadedConfig where
  options :=
    { content.compilerOptions with
      outDir := content.compilerOptions.outDir.map root.join
      rootDir := content.compilerOptions.rootDir.map root.join
      configFilePath := some file }
  files := content.files.map root.join
  warnings := rejected.map (fun (key, value) => valueWarning file key value) ++
    unknown.map (keyWarning file)

theorem ofDocument_eq_loaded {supported : Document}
    (hdrop : dropUnsupported document = (supported, rejected))
    (hdecode : decodeFile supported = .ok (content, unknown)) (file root : Path) :
    ofDocument document file root = .ok (loaded content rejected unknown file root) := by
  unfold ofDocument
  rw [hdrop]
  dsimp only
  rw [hdecode]
  rfl

theorem ofText_of_ofDocument {text : String} (hread : Json5.read text = .ok document)
    {file root : Path} {config : LoadedConfig} (h : ofDocument document file root = .ok config) :
    ofText text file root = .ok config := by
  unfold ofText
  rw [hread]
  dsimp only
  rw [h]
  rfl

theorem answer_parse_of_ofText {σ : Type} {text : String} {file root : Path}
    {config : LoadedConfig} (h : ofText text file root = .ok config) (w : World σ) :
    answer (parse text file root) w = .ok config := by
  unfold parse
  rw [h]
  rfl

end Loading

/-- A configuration file of the declared shape always loads, whatever it says besides. The outcome
is that of what is understood of it, and what was passed over is reported: the target and the module
system whose names are not known, each with its name, and then each key that is not known, in the
order of the keys. What is understood is not reported. -/
theorem unknown_configuration_reported {document : Document} (hordered : document.Ordered)
    (hshaped : Shaped document) (file root : Path) :
    ∃ config plain, ofDocument document file root = .ok config ∧
      ofDocument (understood document) file root = .ok plain ∧
      config.options = plain.options ∧ config.files = plain.files ∧ plain.warnings = [] ∧
      config.warnings =
        (rejections document).map (fun (key, value) => valueWarning file key value) ++
          (unknownKeys document).map (keyWarning file) ∧
      ∀ text, Json5.read text = .ok document → ofText text file root = .ok config ∧
        ∀ {σ : Type} (w : World σ), answer (parse text file root) w = .ok config := by
  obtain ⟨fields, rfl, hfields⟩ := hshaped
  obtain ⟨content, hall, hplain⟩ := exists_decodeFile hfields
  have hconfig := ofDocument_eq_loaded (dropUnsupported_object hordered) hall file root
  have hunderstood :=
    ofDocument_eq_loaded (dropUnsupported_understood hordered hfields) hplain file root
  refine ⟨_, _, hconfig, hunderstood, rfl, rfl, rfl, rfl, fun text hread => ?_⟩
  have htext := ofText_of_ofDocument hread hconfig
  exact ⟨htext, fun w => answer_parse_of_ofText htext w⟩

/-- A file with a target from elsewhere, a misspelt option and a key of another tool. -/
def misspelt : Document := .object
  [("compilerOptions", .object
    [("module", .text "esnext"), ("strct", .array [.bool true]), ("strict", .bool true),
      ("target", .text "ES9")]),
   ("extends", .object [("target", .text "ES9")]),
   ("files", .array [.text "a.ts"])]

theorem unknown_configuration_reported_misspelt :
    misspelt.Ordered ∧ Shaped misspelt ∧
      ∃ config, ofDocument misspelt ⟨"/p/c.json"⟩ ⟨"/p"⟩ = .ok config ∧
        config.options =
          { module := .esNext, strict := true, configFilePath := some ⟨"/p/c.json"⟩ } ∧
        config.files = [⟨"/p/a.ts"⟩] ∧
        config.warnings =
          [⟨"compilerOptions.target", ⟨"/p/c.json"⟩, some "ES9", none⟩,
           ⟨"compilerOptions.strct", ⟨"/p/c.json"⟩, none, some "strict"⟩,
           ⟨"extends", ⟨"/p/c.json"⟩, none, none⟩] := by
  have hordered : misspelt.Ordered := by
    simp only [misspelt, ordered_object_iff, ordered_array_iff, List.forall_mem_cons,
      List.not_mem_nil, false_imp_iff, implies_true, and_true, Ordered.text, Ordered.bool,
      Ascending]
    decide
  have hshaped : Shaped misspelt := by
    refine ⟨_, rfl, List.forall_mem_cons.2 ⟨⟨by simp, fun _ => ⟨_, rfl, ?_⟩⟩,
      List.forall_mem_cons.2 ⟨⟨by simp, by simp⟩,
        List.forall_mem_singleton.2 ⟨fun _ => ⟨["a.ts"], rfl⟩, by simp⟩⟩⟩⟩
    simp only [List.forall_mem_cons, optionShaped_iff]
    simp
  obtain ⟨config, _, hconfig, -, -, -, -, hwarnings, -⟩ :=
    unknown_configuration_reported hordered hshaped ⟨"/p/c.json"⟩ ⟨"/p"⟩
  have hread : (ofDocument misspelt ⟨"/p/c.json"⟩ ⟨"/p"⟩).toOption.map
      (fun config => (config.options, config.files)) =
        some ({ module := .esNext, strict := true, configFilePath := some ⟨"/p/c.json"⟩ },
          [⟨"/p/a.ts"⟩]) := by decide +kernel
  rw [hconfig] at hread
  have hsame := Option.some.inj hread
  exact ⟨hordered, hshaped, config, hconfig, congrArg Prod.fst hsame, congrArg Prod.snd hsame,
    hwarnings.trans (by decide +kernel)⟩

end Config

end CompileWatch
