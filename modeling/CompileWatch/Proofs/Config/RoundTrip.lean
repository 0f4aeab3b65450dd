import CompileWatch.Proofs.Config.Unknown

/-!
# Options written and read again

Options are written with the names by which targets, module systems and line
terminators are known, and read whatever the letter case, so each name must be
read as what it was written for. Absent values are written as null, which no value
is written as (`expectOptional_ofOption`). So options that are written are read
back as they were (`decode_encode`), and nothing is rejected on the way.

A configuration file with the options of a project moves its folders below the
root, once: a path that has been joined to an absolute root stays as it is when it
is joined to it again.
-/

namespace CompileWatch

theorem ScriptTarget.ofName?_name (target : ScriptTarget) : ofName? target.name = some target := by
  cases target <;> decide +kernel

theorem ModuleKind.ofName?_name (kind : ModuleKind) : ofName? kind.name = some kind := by
  cases kind <;> decide +kernel

/-- What is written of an optional value is read back, if the value itself is and is not written as
null. -/
theorem Document.expectOptional_ofOption {α : Type} {read : Document → Except ShapeError α}
    {encode : α → Document} (hread : ∀ a, read (encode a) = .ok a) (hnull : ∀ a, encode a ≠ .null)
    (value : Option α) : (ofOption encode value).expectOptional read = .ok value := by
  cases value with
  | none => rfl
  | some a =>
      have hvalue : (encode a).expectOptional read = some <$> read (encode a) := by
        cases hdocument : encode a with
        | null => exact absurd hdocument (hnull a)
        | _ => rfl
      show (encode a).expectOptional read = _
      rw [hvalue, hread]
      rfl

namespace Path

theorem join_of_isAbsolute {p q : Path} (hq : q.isAbsolute = true) : p.join q = q := if_pos hq

theorem isAbsolute_join {p : Path} (hp : p.isAbsolute = true) (q : Path) :
    (p.join q).isAbsolute = true := by
  have happend : ∀ text : String, (⟨p.text ++ text⟩ : Path).isAbsolute = true := by
    intro text
    unfold isAbsolute at hp ⊢
    rw [beq_iff_eq] at hp ⊢
    obtain ⟨rest, hrest⟩ := List.head?_eq_some_iff.1 hp
    rw [String.toList_append, hrest]
    rfl
  unfold join
  split
  · next hq => exact hq
  · split
    · exact happend q.text
    · rw [String.append_assoc]
      exact happend ("/" ++ q.text)

theorem map_join_join {root : Path} (hroot : root.isAbsolute = true) (path : Option Path) :
    (path.map root.join).map root.join = path.map root.join := by
  rw [Option.map_map]
  exact congrArg (path.map ·) (funext fun p => join_of_isAbsolute (isAbsolute_join hroot p))

end Path

namespace CompilerOptions

open Document Config

/-- The options as an object, its keys in order. -/
theorem encode_eq (o : CompilerOptions) : o.encode = .object
    [("configFilePath", .ofOption encodePath o.configFilePath),
     ("declaration", .bool o.declaration),
     ("module", .text o.module.name),
     ("newLine", .ofOption (.text ·.name) o.newLine),
     ("noEmitOnError", .bool o.noEmitOnError),
     ("noImplicitAny", .bool o.noImplicitAny),
     ("outDir", .ofOption encodePath o.outDir),
     ("rootDir", .ofOption encodePath o.rootDir),
     ("sourceMap", .bool o.sourceMap),
     ("strict", .bool o.strict),
     ("target", .text o.target.name)] := rfl

theorem expectOptional_encodePath (path : Option Path) :
    (Document.ofOption encodePath path).expectOptional decodePath = .ok path :=
  expectOptional_ofOption (fun p => (rfl : decodePath (encodePath p) = .ok p))
    (fun _ heq => by cases heq) path

theorem expectOptional_newLine (line : Option NewLine) :
    (Document.ofOption (fun n : NewLine => .text n.name) line).expectOptional decodeNewLine =
      .ok line :=
  expectOptional_ofOption (fun n => by cases n <;> rfl) (fun _ heq => by cases heq) line

theorem decode_encode (o : CompilerOptions) : decode o.encode = .ok (o, []) := by
  rw [encode_eq, decode_object]
  simp only [List.foldlM_cons, List.foldlM_nil, readField, readOption, decodeKey?, expectBool,
    expectOptional_encodePath, expectOptional_newLine,
    decodeNamed_of_eq_some (ScriptTarget.ofName?_name _),
    decodeNamed_of_eq_some (ModuleKind.ofName?_name _)]
  rfl

theorem dropRejected_encode (o : CompilerOptions) : dropRejected o.encode = (o.encode, []) := by
  have htarget : rejectedValue? o.encode "target" (fun name => (ScriptTarget.ofName? name).isSome) =
      none := by
    unfold rejectedValue?
    rw [show o.encode.field? "target" = some (.text o.target.name) from rfl]
    simp [ScriptTarget.ofName?_name]
  have hmodule : rejectedValue? o.encode "module" (fun name => (ModuleKind.ofName? name).isSome) =
      none := by
    unfold rejectedValue?
    rw [show o.encode.field? "module" = some (.text o.module.name) from rfl]
    simp [ModuleKind.ofName?_name]
  rw [dropRejected_eq, namedOptions, List.foldl_cons, List.foldl_cons, List.foldl_nil, dropOne,
    dropOne]
  dsimp only
  rw [htarget]
  dsimp only
  rw [hmodule]

/-- A configuration file with nothing but options. -/
def inFile (o : CompilerOptions) : Document := .ofFields [("compilerOptions", o.encode)]

/-- Options as they come from a configuration file: with their folders seen from the root, and with
the file. -/
def fromFile (o : CompilerOptions) (file root : Path) : CompilerOptions :=
  { o with
    outDir := o.outDir.map root.join
    rootDir := o.rootDir.map root.join
    configFilePath := some file }

theorem dropUnsupported_inFile (o : CompilerOptions) :
    dropUnsupported o.inFile = (o.inFile, []) := by
  obtain ⟨options, hoptions⟩ : ∃ options, o.encode = .object options := ⟨_, o.encode_eq⟩
  have hdrop := o.dropRejected_encode
  unfold inFile
  rw [hoptions] at hdrop ⊢
  show (Document.object (setField "compilerOptions" (dropRejected (.object options)).1 _),
    (dropRejected (.object options)).2) = _
  rw [hdrop]
  rfl

theorem decodeFile_inFile (o : CompilerOptions) :
    decodeFile o.inFile = .ok (⟨o, []⟩, []) := by
  have hread : readField decodeFileKey? ({}, []) ("compilerOptions", o.encode) =
      .ok (⟨o, []⟩, []) := by
    show ((CompilerOptions.decode o.encode >>= fun _ => _) >>= fun _ => _) = _
    rw [decode_encode]
    rfl
  refine (decodeFile_object [("compilerOptions", o.encode)]).trans ?_
  rw [List.foldlM_cons, hread]
  rfl

theorem ofDocument_inFile (o : CompilerOptions) (file root : Path) :
    ofDocument o.inFile file root = .ok ⟨o.fromFile file root, [], []⟩ :=
  ofDocument_eq_loaded o.dropUnsupported_inFile o.decodeFile_inFile file root

theorem fromFile_fromFile (o : CompilerOptions) (file : Path) {root : Path}
    (hroot : root.isAbsolute = true) :
    (o.fromFile file root).fromFile file root = o.fromFile file root := by
  simp only [fromFile, Path.map_join_join hroot]

/-- Options that are written are read back as they were. From a configuration file they come with
their folders below the root and with the file, with nothing to report, and so they do when they
are written to that file again, as long as the root is absolute. -/
theorem options_round_trip (o : CompilerOptions) (file root : Path) :
    decode o.encode = .ok (o, []) ∧
      ofDocument o.inFile file root = .ok ⟨o.fromFile file root, [], []⟩ ∧
      (root.isAbsolute = true →
        ofDocument (o.fromFile file root).inFile file root =
          .ok ⟨o.fromFile file root, [], []⟩) ∧
      ∀ text, Json5.read text = .ok o.inFile →
        ofText text file root = .ok ⟨o.fromFile file root, [], []⟩ ∧
        ∀ {σ : Type} (w : World σ),
          answer (parse text file root) w = .ok ⟨o.fromFile file root, [], []⟩ := by
  refine ⟨o.decode_encode, o.ofDocument_inFile file root, fun hroot => ?_, fun text hread => ?_⟩
  · rw [ofDocument_inFile, fromFile_fromFile o file hroot]
  · have htext := ofText_of_ofDocument hread (o.ofDocument_inFile file root)
    exact ⟨htext, fun w => answer_parse_of_ofText htext w⟩

/-- Options with one folder in the project and one elsewhere. -/
def folders : CompilerOptions :=
  { target := .esNext, module := .none, outDir := some ⟨"dist"⟩, rootDir := some ⟨"/src"⟩,
    sourceMap := true, newLine := some .crlf, configFilePath := some ⟨"old.json"⟩ }

theorem options_round_trip_folders :
    (⟨"/p"⟩ : Path).isAbsolute = true ∧
      folders.fromFile ⟨"/p/c.json"⟩ ⟨"/p"⟩ =
        { folders with outDir := some ⟨"/p/dist"⟩, configFilePath := some ⟨"/p/c.json"⟩ } ∧
      ofDocument (folders.fromFile ⟨"/p/c.json"⟩ ⟨"/p"⟩).inFile ⟨"/p/c.json"⟩ ⟨"/p"⟩ =
        .ok ⟨folders.fromFile ⟨"/p/c.json"⟩ ⟨"/p"⟩, [], []⟩ := by
  have hroot : (⟨"/p"⟩ : Path).isAbsolute = true := by decide +kernel
  obtain ⟨-, -, hagain, -⟩ := options_round_trip folders ⟨"/p/c.json"⟩ ⟨"/p"⟩
  exact ⟨hroot, by decide +kernel, hagain hroot⟩

end CompilerOptions

end CompileWatch
