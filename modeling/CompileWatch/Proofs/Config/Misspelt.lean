import CompileWatch.Proofs.Config.EditDistance
import CompileWatch.Proofs.Config.Unknown
import Mathlib.Data.List.Forall2

/-!
# Misspelt keys

Every key of a configuration file that is not known is answered with a warning, and
the warning suggests the first of the known keys that are nearest to it, if one or two
edits of single bytes turn the one into the other (`suggest_answers`).

What is compared is not the key but what follows the last dot of the path that leads
to it. For a key without dots that is the key. A key with dots is answered as if it
were its own last piece: `my.outdir` is taken for a misspelt `outDir`, and `strict.`
for no key at all (`dotted_key_is_cut`). Which keys a file is told of depends on its
fields alone, and on nothing that stands in the values of other keys
(`unknown_of_decodeFile`).
-/

namespace CompileWatch.Config

open Document

/-! ## The nearest key -/

/-- Whether so many insertions, deletions and substitutions of single bytes turn one text into
another. -/
def Turns (n : Nat) (a b : String) : Prop := Edits n a.toUTF8.data.toList b.toUTF8.data.toList

/-- Whether a known key is the first of those that are nearest to a key, and is one or two edits
away. -/
def Meant (key candidate : String) : Prop :=
  ∃ n before after, suggestedKeys = before ++ candidate :: after ∧ (n = 1 ∨ n = 2) ∧
    Turns n key candidate ∧ (∀ other ∈ before, ∀ m, Turns m key other → n < m) ∧
    ∀ other ∈ candidate :: after, ∀ m, Turns m key other → n ≤ m

/-- Whether a suggestion is the key that was meant, and there is none if none was. -/
def Answers (suggestion : Option String) (key : String) : Prop :=
  ∀ candidate, suggestion = some candidate ↔ Meant key candidate

theorem turns_keyDistance (a b : String) : Turns (keyDistance a b) a b :=
  (isLeast_editDistance _ _).1

theorem keyDistance_le {n : Nat} {a b : String} (h : Turns n a b) : keyDistance a b ≤ n :=
  (isLeast_editDistance _ _).2 h

/-- Whether a candidate is nearer than all before it and as near as all after it. -/
def IsNearest (key : String) (candidates : List String) (candidate : String) (n : Nat) : Prop :=
  ∃ before after, candidates = before ++ candidate :: after ∧ keyDistance key candidate = n ∧
    (∀ other ∈ before, n < keyDistance key other) ∧ ∀ other ∈ after, n ≤ keyDistance key other

section Nearest

variable {key candidate : String} {candidates : List String} {n : Nat}

theorem IsNearest.le (h : IsNearest key candidates candidate n) :
    ∀ other ∈ candidates, n ≤ keyDistance key other := by
  obtain ⟨before, after, rfl, hn, hbefore, hafter⟩ := h
  intro other ho
  rcases List.mem_append.1 ho with ho | ho
  · exact Nat.le_of_lt (hbefore other ho)
  · rcases List.mem_cons.1 ho with rfl | ho
    · exact Nat.le_of_eq hn.symm
    · exact hafter other ho

theorem IsNearest.mem (h : IsNearest key candidates candidate n) : candidate ∈ candidates := by
  obtain ⟨before, after, rfl, -⟩ := h
  simp

theorem isNearest_cons_iff {first : String} : IsNearest key (first :: candidates) candidate n ↔
    (candidate = first ∧ keyDistance key first = n ∧
        ∀ other ∈ candidates, n ≤ keyDistance key other) ∨
      (IsNearest key candidates candidate n ∧ n < keyDistance key first) := by
  constructor
  · rintro ⟨before, after, hsplit, hn, hbefore, hafter⟩
    cases before with
    | nil =>
        obtain ⟨rfl, rfl⟩ := List.cons.inj hsplit
        exact .inl ⟨rfl, hn, hafter⟩
    | cons head before =>
        obtain ⟨rfl, rfl⟩ := List.cons.inj hsplit
        obtain ⟨hfirst, hbefore⟩ := List.forall_mem_cons.1 hbefore
        exact .inr ⟨⟨before, after, rfl, hn, hbefore, hafter⟩, hfirst⟩
  · rintro (⟨rfl, hn, hrest⟩ | ⟨⟨before, after, rfl, hn, hbefore, hafter⟩, hfirst⟩)
    · exact ⟨[], candidates, rfl, hn, List.forall_mem_nil _, hrest⟩
    · exact ⟨first :: before, after, rfl, hn, List.forall_mem_cons.2 ⟨hfirst, hbefore⟩, hafter⟩

theorem eq_nil_of_nearest_eq_none (h : nearest key candidates = none) : candidates = [] := by
  cases candidates with
  | nil => rfl
  | cons first rest =>
      unfold nearest at h
      dsimp only at h
      split at h
      · split at h <;> cases h
      · cases h

theorem nearest_eq_some_iff : nearest key candidates = some (candidate, n) ↔
    IsNearest key candidates candidate n := by
  induction candidates generalizing candidate n with
  | nil =>
      constructor
      · intro h
        cases h
      · intro h
        cases h.mem
  | cons first rest ih =>
      rw [isNearest_cons_iff, ← ih, nearest]
      cases hrest : nearest key rest with
      | none =>
          simp [eq_nil_of_nearest_eq_none hrest, eq_comm]
      | some found =>
          obtain ⟨other, least⟩ := found
          have hother := ih.1 hrest
          dsimp only
          split
          · next hlt =>
            -- the first candidate is farther than one that follows it
            have hnot : ¬ ∀ o ∈ rest, keyDistance key first ≤ keyDistance key o := by
              intro hall
              have hle := hall other hother.mem
              obtain ⟨_, _, _, hleast, _⟩ := hother
              omega
            constructor
            · intro heq
              cases heq
              exact .inr ⟨rfl, hlt⟩
            · rintro (⟨-, rfl, hall⟩ | ⟨heq, -⟩)
              · exact absurd hall hnot
              · exact heq
          · next hge =>
            constructor
            · intro heq
              cases heq
              exact .inl ⟨rfl, rfl, fun o ho =>
                Nat.le_trans (Nat.le_of_not_lt hge) (hother.le o ho)⟩
            · rintro (⟨rfl, rfl, -⟩ | ⟨heq, hlt⟩)
              · rfl
              · cases heq
                exact absurd hlt hge

/-- What is suggested for a key is what was meant by it. -/
theorem suggest_answers (key : String) : Answers (suggest key) key := by
  intro candidate
  have hsuggest : suggest key = some candidate ↔
      ∃ n, (n = 1 ∨ n = 2) ∧ IsNearest key suggestedKeys candidate n := by
    unfold suggest
    cases hnearest : nearest key suggestedKeys with
    | none =>
        simp [← nearest_eq_some_iff, hnearest]
    | some found =>
        obtain ⟨other, least⟩ := found
        simp only [← nearest_eq_some_iff, hnearest, Option.some.injEq, Prod.mk.injEq]
        constructor
        · intro h
          split at h
          · next hbound =>
            simp only [Bool.and_eq_true, decide_eq_true_eq] at hbound
            exact ⟨least, by omega, Option.some.inj h, rfl⟩
          · cases h
        · rintro ⟨n, hn, rfl, rfl⟩
          rw [if_pos (by rcases hn with rfl | rfl <;> rfl)]
  rw [hsuggest]
  constructor
  · rintro ⟨n, hn, before, after, hsplit, rfl, hbefore, hafter⟩
    refine ⟨_, before, after, hsplit, hn, turns_keyDistance key candidate,
      fun other ho m hm => Nat.lt_of_lt_of_le (hbefore other ho) (keyDistance_le hm),
      fun other ho m hm => ?_⟩
    rcases List.mem_cons.1 ho with rfl | ho
    · exact keyDistance_le hm
    · exact Nat.le_trans (hafter other ho) (keyDistance_le hm)
  · rintro ⟨n, before, after, hsplit, hn, hturns, hbefore, hafter⟩
    have hleast : keyDistance key candidate = n := Nat.le_antisymm (keyDistance_le hturns)
      (hafter candidate List.mem_cons_self _ (turns_keyDistance key candidate))
    exact ⟨n, hn, before, after, hsplit, hleast,
      fun other ho => hbefore other ho _ (turns_keyDistance key other),
      fun other ho => hafter other (List.mem_cons_of_mem _ ho) _ (turns_keyDistance key other)⟩

end Nearest

/-! ## Keys that are not known -/

/-- A key of a configuration file that is not known, and what leads to the object that it stands in:
the key or the place of the options, or nothing at the top of the file. -/
structure StrayKey where
  outer : Option String
  key : String
deriving DecidableEq, Repr

def StrayKey.path : StrayKey → String
  | ⟨none, key⟩ => key
  | ⟨some outer, key⟩ => s!"{outer}.{key}"

/-- The keys among some options that are no options. -/
def strayOptions (outer : String) (options : Document) : List StrayKey :=
  (options.fields.filter (!isOption ·)).map fun option => ⟨some outer, option.1⟩

/-- The keys of a configuration file that are not known, in the order in which they are met. A file
may be written as an array, in which the options come first. -/
def strayKeys : Document → List StrayKey
  | .object fields => fields.flatMap fun f =>
    if f.1 = "compilerOptions" then strayOptions f.1 f.2
    else if f.1 = "files" then []
    else [⟨none, f.1⟩]
  | .array (options :: _) => strayOptions "0" options
  | _ => []

/-! ## What is told of a record -/

section Telling

variable {α : Type}

/-- What is told on the way is told in order. -/
theorem foldlM_tells {β ι : Type} {f : α × List β → ι → Except ShapeError (α × List β)}
    {told : ι → List β} {last : α × List β} : ∀ {xs : List ι} {reading : α × List β},
      (∀ x ∈ xs, ∀ reading next, f reading x = .ok next → next.2 = reading.2 ++ told x) →
      xs.foldlM f reading = .ok last → last.2 = reading.2 ++ xs.flatMap told
  | [], reading, _, h => by
      cases h
      simp
  | x :: rest, reading, htold, h => by
      obtain ⟨hx, hrest⟩ := List.forall_mem_cons.1 htold
      rw [List.foldlM_cons] at h
      obtain ⟨next, hnext, h⟩ := of_bind_eq_ok h
      rw [foldlM_tells hrest h, hx reading next hnext, List.flatMap_cons, List.append_assoc]

variable {kind : String} {known : List String} {start record : α} {unknown : List String}
  {step : α → String → Document → Except ShapeError (Option (RecordReading α))}
  {plain? : String × Document → Option (String × Document)}
  {inner : String × Document → List String}

/-- Whether a step passes over the fields of which nothing is left and reads all others, with the
same keys passed over inside their values whatever was read before. -/
def Tells (step : α → String → Document → Except ShapeError (Option (RecordReading α)))
    (plain? : String × Document → Option (String × Document))
    (inner : String × Document → List String) : Prop :=
  ∀ record f read, step record f.1 f.2 = .ok read →
    (plain? f = none ∧ read = none) ∨
      ((plain? f).isSome = true ∧ ∃ next, read = some (next, inner f))

theorem unknown_of_object {fields : List (String × Document)} (hstep : Tells step plain? inner)
    (h : (Document.object fields).expectRecord kind known step start = .ok (record, unknown)) :
    unknown = fields.flatMap (passedOver plain? inner) := by
  rw [expectRecord_object] at h
  refine foldlM_tells (fun f _ reading next hnext => ?_) h
  obtain ⟨read, hread, hnext⟩ := of_bind_eq_ok hnext
  rcases hstep _ _ _ hread with ⟨hplain, rfl⟩ | ⟨hplain, record, rfl⟩
  · cases hnext
    rw [passedOver, hplain]
    rfl
  · cases hnext
    rw [passedOver, if_pos hplain]

/-- In an array the keys inside a value stand below its place. -/
theorem unknown_of_array {items : List Document} (hstep : Tells step plain? inner)
    (h : (Document.array items).expectRecord kind known step start = .ok (record, unknown)) :
    unknown = (known.zip items).zipIdx.flatMap fun entry =>
      if (plain? entry.1).isSome then (inner entry.1).map fun k => s!"{entry.2}.{k}" else [] := by
  obtain ⟨reading, hreading, h⟩ := of_bind_eq_ok h
  split at h
  · cases h
  · cases h
    refine foldlM_tells (fun entry _ reading next hnext => ?_) hreading
    obtain ⟨⟨key, value⟩, place⟩ := entry
    obtain ⟨read, hread, hnext⟩ := of_bind_eq_ok hnext
    rcases hstep _ (key, value) _ hread with ⟨hplain, rfl⟩ | ⟨hplain, record, rfl⟩
    · cases hnext
      simp [hplain]
    · cases hnext
      rw [if_pos hplain]

end Telling

/-! ## What is told of a file -/

/-- An option is read under its key, and a key that is no option is passed over. -/
theorem tells_readOption : Tells readOption (Option.guard isOption) fun _ => [] := by
  rintro o ⟨key, value⟩ read h
  obtain ⟨option, hoption, h⟩ := of_bind_eq_ok h
  cases h
  by_cases hkey : key ∈ CompilerOptions.keys
  · have hsome : ∃ next, option = some next := by
      simp only [CompilerOptions.keys, List.mem_cons, List.not_mem_nil, or_false] at hkey
      rcases hkey with rfl | rfl | rfl | rfl | rfl | rfl | rfl | rfl | rfl | rfl | rfl
      all_goals
        obtain ⟨_, -, rfl⟩ := of_map_eq_ok hoption
        exact ⟨_, rfl⟩
    obtain ⟨next, rfl⟩ := hsome
    exact .inr ⟨by simpa [Option.guard, isOption] using hkey, next, rfl⟩
  · rw [decodeKey?_unknown hkey] at hoption
    cases hoption
    exact .inl ⟨by simpa [Option.guard, isOption] using hkey, rfl⟩

theorem unknown_of_decode {options : Document} {o : CompilerOptions} {unknown : List String}
    (h : CompilerOptions.decode options = .ok (o, unknown)) :
    unknown = (options.fields.filter (!isOption ·)).map (·.1) := by
  cases options with
  | object fields =>
      rw [unknown_of_object tells_readOption h, passedOver_guard]
      rfl
  | array items =>
      rw [unknown_of_array tells_readOption h]
      simp [Document.fields]
  | null | bool _ | integer _ | number _ | text _ => cases h

theorem tells_decodeFileKey? : Tells decodeFileKey? plainField? innerKeys := by
  rintro content ⟨key, value⟩ read h
  unfold decodeFileKey? at h
  split at h
  · next hkey =>
    obtain rfl : key = "compilerOptions" := hkey
    obtain ⟨⟨options, unknown⟩, hoptions, h⟩ := of_bind_eq_ok h
    cases h
    exact .inr ⟨rfl, _, by rw [unknown_of_decode hoptions]; rfl⟩
  · next hkey =>
    obtain rfl : key = "files" := hkey
    obtain ⟨files, -, h⟩ := of_bind_eq_ok h
    cases h
    exact .inr ⟨rfl, _, rfl⟩
  · next hoptions hfiles =>
    cases h
    exact .inl ⟨by rw [plainField?, if_neg hoptions, if_neg hfiles], rfl⟩

theorem paths_strayOptions (outer : String) (options : Document) :
    (strayOptions outer options).map StrayKey.path =
      (options.fields.filter (!isOption ·)).map fun option => s!"{outer}.{option.1}" := by
  rw [strayOptions, List.map_map]
  rfl

theorem paths_strayKeys (fields : List (String × Document)) :
    (strayKeys (.object fields)).map StrayKey.path = unknownKeys (.object fields) := by
  rw [strayKeys, List.map_flatMap]
  refine List.flatMap_congr fun f _ => ?_
  split
  · next hkey =>
    rw [paths_strayOptions, hkey]
    rfl
  · split <;> rfl

/-- The keys that a file is told of are those that are not known, whatever else it holds. -/
theorem unknown_of_decodeFile {document supported : Document} {rejected : List (String × String)}
    {content : FileContent} {unknown : List String} (hordered : document.Ordered)
    (hdrop : dropUnsupported document = (supported, rejected))
    (h : decodeFile supported = .ok (content, unknown)) :
    unknown = (strayKeys document).map StrayKey.path := by
  cases document with
  | object fields =>
      rw [dropUnsupported_object hordered] at hdrop
      obtain ⟨rfl, -⟩ := Prod.mk.inj hdrop
      rw [unknown_of_object tells_decodeFileKey? h, passedOver_fields, paths_strayKeys]
  | array items =>
      cases hdrop
      rw [unknown_of_array tells_decodeFileKey? h]
      cases items with
      | nil => rfl
      | cons options rest =>
          -- the options come first, and the list of files after them has no keys
          have hplace : Nat.repr 0 = toString "0" := rfl
          rw [strayKeys, paths_strayOptions]
          cases rest <;> simp [fileKeys, plainField?, innerKeys, hplace]
  | null | bool _ | integer _ | number _ | text _ =>
      cases hdrop
      cases h

/-! ## What is suggested -/

theorem lastKey_append (outer key : String) : lastKey s!"{outer}.{key}" = lastKey key := by
  have hpath : (s!"{outer}.{key}").toList = outer.toList ++ '.' :: key.toList := by
    simp [toString]
  obtain ⟨last, hlast⟩ := Option.ne_none_iff_exists'.1
    (mt List.getLast?_eq_none_iff.1 (List.splitOn_ne_nil '.' key.toList))
  rw [lastKey, lastKey, hpath, List.splitOn_append_cons_self, List.getLast?_append, hlast,
    Option.some_or]

theorem lastKey_path (stray : StrayKey) : lastKey stray.path = lastKey stray.key := by
  obtain ⟨outer | outer, key⟩ := stray
  · rfl
  · exact lastKey_append outer key

theorem lastKey_of_not_mem {key : String} (h : '.' ∉ key.toList) : lastKey key = key := by
  rw [lastKey, List.splitOn_eq_singleton h]
  exact String.ofList_toList

/-- Whether a warning tells of a key, with the known key that is meant by what follows its last dot.
For a key without dots that is what is meant by the key itself. -/
structure AnsweredBy (file : Path) (stray : StrayKey) (warning : ConfigWarning) : Prop where
  key : warning.key = stray.path
  file : warning.file = file
  suggestion : Answers warning.suggestion (lastKey stray.key)
  undotted : '.' ∉ stray.key.toList → Answers warning.suggestion stray.key

theorem answeredBy_keyWarning (file : Path) (stray : StrayKey) :
    AnsweredBy file stray (keyWarning file stray.path) := by
  have hlast : Answers (keyWarning file stray.path).suggestion (lastKey stray.key) := by
    rw [← lastKey_path]
    exact suggest_answers _
  refine ⟨rfl, rfl, hlast, fun hdot => ?_⟩
  rwa [lastKey_of_not_mem hdot] at hlast

section Loaded

variable {text : String} {file root : Path} {config : LoadedConfig}

theorem exists_document_of_ofText (h : ofText text file root = .ok config) :
    ∃ document, Json5.read text = .ok document ∧ ofDocument document file root = .ok config := by
  unfold ofText at h
  split at h
  · cases h
  · next document hread =>
    refine ⟨document, hread, ?_⟩
    cases hof : ofDocument document file root with
    | error e =>
        rw [hof] at h
        cases h
    | ok other =>
        rw [hof] at h
        cases h
        rfl

theorem loaded_of_ofDocument {document : Document}
    (h : ofDocument document file root = .ok config) :
    ∃ supported rejected content unknown, dropUnsupported document = (supported, rejected) ∧
      decodeFile supported = .ok (content, unknown) ∧
      config = loaded content rejected unknown file root := by
  unfold ofDocument at h
  obtain ⟨⟨content, unknown⟩, hdecode, h⟩ := of_bind_eq_ok h
  cases h
  exact ⟨_, _, content, unknown, rfl, hdecode, rfl⟩

theorem keyWarnings_loaded (content : FileContent) (rejected : List (String × String))
    (unknown : List String) :
    (loaded content rejected unknown file root).warnings.filter (·.value.isNone) =
      unknown.map (keyWarning file) := by
  have hkeys : (unknown.map (keyWarning file)).filter (·.value.isNone) =
      unknown.map (keyWarning file) := by
    simp [List.filter_eq_self, keyWarning]
  rw [loaded, List.filter_append, hkeys, List.filter_map, List.filter_eq_nil_iff.2]
  · rfl
  · exact fun _ _ => Bool.false_ne_true

/-- When a configuration loads, each key in it that is not known is told of, in the order in which
they are met. Suggested is the first of the known keys that are nearest to what follows the last dot
of the key, if one or two edits of single bytes away, and nothing otherwise. -/
theorem misspelt_keys_answered (h : ofText text file root = .ok config) :
    ∃ document, Json5.read text = .ok document ∧
      List.Forall₂ (AnsweredBy file) (strayKeys document)
        (config.warnings.filter (·.value.isNone)) := by
  obtain ⟨document, hread, hof⟩ := exists_document_of_ofText h
  obtain ⟨supported, rejected, content, unknown, hdrop, hdecode, rfl⟩ := loaded_of_ofDocument hof
  refine ⟨document, hread, ?_⟩
  rw [keyWarnings_loaded, unknown_of_decodeFile (Json5.ordered_of_read hread) hdrop hdecode,
    List.map_map, List.forall₂_map_right_iff]
  exact List.forall₂_same.2 fun stray _ => answeredBy_keyWarning file stray

end Loaded

/-- A file with a misspelt key, and with two keys that hold dots. -/
def dottedKeys : String :=
  "\x7bcompilerOptions: \x7b'strict.': true, 'my.outdir': 1\x7d, fils: []\x7d"

theorem misspelt_keys_answered_dotted : ∃ config document,
    ofText dottedKeys ⟨"/p/c.json"⟩ ⟨"/p"⟩ = .ok config ∧ Json5.read dottedKeys = .ok document ∧
      strayKeys document = [⟨some "compilerOptions", "my.outdir"⟩,
        ⟨some "compilerOptions", "strict."⟩, ⟨none, "fils"⟩] ∧
      List.Forall₂ (AnsweredBy ⟨"/p/c.json"⟩) (strayKeys document)
        (config.warnings.filter (·.value.isNone)) := by
  have hload : (ofText dottedKeys ⟨"/p/c.json"⟩ ⟨"/p"⟩).toOption.isSome = true := by
    decide +kernel
  have hstray : (Json5.read dottedKeys).toOption.map strayKeys =
      some [⟨some "compilerOptions", "my.outdir"⟩, ⟨some "compilerOptions", "strict."⟩,
        ⟨none, "fils"⟩] := by
    decide +kernel
  cases hconfig : ofText dottedKeys ⟨"/p/c.json"⟩ ⟨"/p"⟩ with
  | error e =>
      rw [hconfig] at hload
      cases hload
  | ok config =>
      obtain ⟨document, hread, hanswered⟩ := misspelt_keys_answered hconfig
      rw [hread] at hstray
      exact ⟨config, document, rfl, hread, Option.some.inj hstray, hanswered⟩

/-- For a key that ends in a dot nothing is suggested, though a single edit makes it an option. -/
theorem dotted_key_is_cut : ∃ config,
    ofText dottedKeys ⟨"/p/c.json"⟩ ⟨"/p"⟩ = .ok config ∧
      ⟨"compilerOptions.strict.", ⟨"/p/c.json"⟩, none, none⟩ ∈ config.warnings ∧
      Meant "strict." "strict" ∧ ¬ Answers none "strict." := by
  have hwarnings : (ofText dottedKeys ⟨"/p/c.json"⟩ ⟨"/p"⟩).toOption.map (·.warnings) =
      some [⟨"compilerOptions.my.outdir", ⟨"/p/c.json"⟩, none, some "outDir"⟩,
        ⟨"compilerOptions.strict.", ⟨"/p/c.json"⟩, none, none⟩,
        ⟨"fils", ⟨"/p/c.json"⟩, none, some "files"⟩] := by
    decide +kernel
  have hmeant : Meant "strict." "strict" :=
    (suggest_answers "strict." "strict").1 (by decide +kernel)
  cases hconfig : ofText dottedKeys ⟨"/p/c.json"⟩ ⟨"/p"⟩ with
  | error e =>
      rw [hconfig] at hwarnings
      cases hwarnings
  | ok config =>
      rw [hconfig] at hwarnings
      refine ⟨config, rfl, ?_, hmeant, fun h => ?_⟩
      · rw [show config.warnings = _ from Option.some.inj hwarnings]
        simp
      · cases (h "strict").2 hmeant

end CompileWatch.Config
