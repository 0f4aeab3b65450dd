import CompileWatch.Proofs.Looking
import CompileWatch.Proofs.Shell.Words
import CompileWatch.Storage.Remote

/-!
# Paths in commands

The commands on files are rows of items, most of them plain words or quoted paths, so
that each is read as the same tokens for all paths but for the words of the paths
themselves. These are all the commands that a remote file system ever sends
(`looks_onlyCommands`), and in none of them is a path more than a literal word
(`paths_are_literal_words`).
-/

namespace CompileWatch.Shell

/-! ## Commands on files -/

/-- What the commands on files hold besides paths and what belongs to a shell. -/
def fixedWords : List String :=
  ["test", "-e", "-d", "-f", "-L", "cat", "ls", "-1A", "stat", "-c", "%Y", "%m", "mkdir", "-p",
    "mktemp", "chmod", "644", "mv", "rm", "exit", "\x7b", "\x7d"]

theorem reads_fixed {text : String} (h : text ∈ fixedWords) : Reads text [plainWord text] := by
  have hordinary : ∀ text ∈ fixedWords,
      text.toList ≠ [] ∧ text.toList.all isOrdinary = true := by decide +kernel
  exact reads_plain (hordinary text h).1 (hordinary text h).2

theorem reads_and : Reads "&&" [.operator "&&"] := reads_complete fun _ _ _ => rfl

theorem reads_or : Reads "||" [.operator "||"] := reads_complete fun _ _ _ => rfl

/-- The word for the fresh file of a write. -/
def freshFile : Token := .word [.parameter "tmp" true]

theorem reads_freshFile : Reads "\"$tmp\"" [freshFile] :=
  reads_word [] fun before _ _ => by
    rw [List.append_nil]
    rfl

/-- What a write is read as. -/
def writeTokens (dir fresh target : String) : List Token :=
  [plainWord "mkdir", plainWord "-p", literal dir, .operator "&&",
    .word ("tmp=".toList.map .plain ++ [.output [plainWord "mktemp", literal fresh] false]),
    .operator "&&", plainWord "\x7b", plainWord "cat", .operator ">", freshFile, .operator "&&",
    plainWord "chmod", plainWord "644", freshFile, .operator "&&",
    plainWord "mv", plainWord "-f", freshFile, literal target, .operator ";", plainWord "\x7d",
    .operator "||", plainWord "\x7b", plainWord "rm", plainWord "-f", freshFile, .operator ";",
    plainWord "exit", plainWord "1", .operator ";", plainWord "\x7d"]

/-- What a question for a time is read as. -/
def timeTokens (path : String) : List Token :=
  let silent := [.stream "2", .operator ">", plainWord "/dev/null"]
  [plainWord "stat", plainWord "-c", plainWord "%Y", literal path] ++ silent ++ [.operator "||"] ++
    [plainWord "stat", plainWord "-f", plainWord "%m", literal path] ++ silent

theorem reads_test {flag : String} (hflag : flag ∈ fixedWords) (path : Path) :
    Reads (test flag path) [plainWord "test", plainWord flag, literal path.text] :=
  reads_intercalate _ (by simp) (.cons (reads_fixed (by decide)) (.cons (reads_fixed hflag)
    (.cons (reads_quote path.text) .nil)))

theorem reads_printFile (path : Path) :
    Reads (printFile path) [plainWord "cat", literal path.text] :=
  reads_intercalate _ (by simp) (.cons (reads_fixed (by decide)) (.cons (reads_quote path.text) .nil))

theorem reads_listNames (path : Path) :
    Reads (listNames path) [plainWord "ls", plainWord "-1A", literal path.text] :=
  reads_intercalate _ (by simp) (.cons (reads_fixed (by decide)) (.cons (reads_fixed (by decide))
    (.cons (reads_quote path.text) .nil)))

theorem reads_printModified (path : Path) : Reads (printModified path) (timeTokens path.text) := by
  have hsilent : Reads "2>/dev/null" [.stream "2", .operator ">", plainWord "/dev/null"] :=
    reads_word [.stream "2", .operator ">"] fun before _ _ => by
      rw [List.append_cons]
      rfl
  refine reads_intercalate
    [[_], [_], [_], [_], [_, _, _], [_], [_], [_], [_], [_], [_, _, _]] (by simp) ?_
  simp only [List.forall₂_cons, List.Forall₂.nil, and_true]
  exact ⟨reads_fixed (by decide), reads_fixed (by decide), reads_fixed (by decide),
    reads_quote path.text, hsilent, reads_or, reads_fixed (by decide), reads_fixed (by decide),
    reads_fixed (by decide), reads_quote path.text, hsilent⟩

theorem reads_writeFile (path : Path) : Reads (writeFile path)
    (writeTokens path.directory.text (path.directory.join freshTemplate).text path.text) := by
  have hfixed : ∀ text ∈ fixedWords, Reads text [plainWord text] := fun _ => reads_fixed
  have hmake : Reads
      ("tmp=$(" ++ ("mktemp" ++ " " ++ quotePath (path.directory.join freshTemplate)) ++ ")")
      [.word ("tmp=".toList.map .plain ++ [.output
        [plainWord "mktemp", literal (path.directory.join freshTemplate).text] false])] :=
    reads_output (fun _ _ _ => rfl) ((hfixed "mktemp" (by decide)).append (reads_quote _))
      (by simp)
  have hinto : Reads ">" [.operator ">"] := reads_operator [] fun before _ _ => by
    rw [List.append_nil]
    rfl
  have hmoved : Reads (quotePath path ++ ";") [literal path.text, .operator ";"] :=
    reads_operator [literal path.text] fun before depth outer => by
      have hend : Reader.step { Reader.between before depth outer with
          word := some (path.text.toList.map .quoted) } ';' = some { Reader.between
            (before ++ [literal path.text]) depth outer with mode := .operator ';' } := by
        rw [Reader.step_of_end rfl (.inr rfl), Reader.endBefore_word (.inr (by decide))]
        rfl
      have hsemicolon : ";".toList = [';'] := rfl
      rw [String.toList_append, List.foldlM_append, quotePath, foldlM_quote, Option.bind_eq_bind,
        Option.bind_some, hsemicolon, List.foldlM_cons, hend]
      rfl
  have hdropped : Reads "\"$tmp\";" [freshFile, .operator ";"] :=
    reads_operator [freshFile] fun _ _ _ => rfl
  have hone : Reads "1;" [plainWord "1", .operator ";"] :=
    reads_operator [plainWord "1"] fun _ _ _ => rfl
  have hitems : writeFile path = " ".intercalate ["mkdir", "-p", quotePath path.directory, "&&",
      "tmp=$(" ++ ("mktemp" ++ " " ++ quotePath (path.directory.join freshTemplate)) ++ ")", "&&",
      "\x7b", "cat", ">", "\"$tmp\"", "&&", "chmod", "644", "\"$tmp\"", "&&",
      "mv", "-f", "\"$tmp\"", quotePath path ++ ";", "\x7d", "||",
      "\x7b", "rm", "-f", "\"$tmp\";", "exit", "1;", "\x7d"] := by
    simp [writeFile, ← String.toList_inj]
  rw [hitems]
  refine reads_intercalate [[_], [_], [_], [_], [_], [_], [_], [_], [_], [_], [_], [_],
    [_], [_], [_], [_], [_], [_], [_, _], [_], [_], [_], [_], [_], [_, _], [_], [_, _], [_]]
    (by simp) ?_
  simp only [List.forall₂_cons, List.Forall₂.nil, and_true]
  exact ⟨hfixed _ (by decide), hfixed _ (by decide), reads_quote _, reads_and, hmake, reads_and,
    hfixed _ (by decide), hfixed _ (by decide), hinto, reads_freshFile, reads_and,
    hfixed _ (by decide), hfixed _ (by decide), reads_freshFile, reads_and,
    hfixed _ (by decide), hfixed _ (by decide), reads_freshFile, hmoved, hfixed _ (by decide),
    reads_or, hfixed _ (by decide), hfixed _ (by decide), hfixed _ (by decide), hdropped,
    hfixed _ (by decide), hone, hfixed _ (by decide)⟩

/-! ## What is sent -/

/-- The properties of a path that are asked for. -/
def testFlags : List String := ["-e", "-d", "-f", "-L"]

/-- All commands for a path. -/
def commands (path : Path) : List String :=
  testFlags.map (test · path) ++
    [printFile path, listNames path, printModified path, writeFile path]

/-- Whether all that was sent so far are commands on files. -/
def OnlyCommands (c : Remote.Connection) : Prop :=
  ∀ call ∈ c.calls, ∃ path, call.command ∈ commands path

theorem keeps_run {command : String} (path : Path) (h : command ∈ commands path) (input : String) :
    Keeps OnlyCommands (Remote.run command input) := by
  intro c hc
  have hcalled : ∀ call ∈ c.calls ++ [⟨c.destination, command, input⟩],
      ∃ path, call.command ∈ commands path := by
    intro call hcall
    rcases List.mem_append.1 hcall with hold | hnew
    · exact hc call hold
    · rw [List.mem_singleton.1 hnew]
      exact ⟨path, h⟩
  show OnlyCommands (Remote.run command input c).2
  unfold Remote.run
  split
  · exact hc
  · dsimp only
    split <;> exact hcalled

theorem keeps_test {flag : String} (h : flag ∈ testFlags) (path : Path) :
    Keeps OnlyCommands (Remote.test flag path) :=
  (keeps_run path (List.mem_append_left _ (List.mem_map_of_mem h)) "").bind fun _ => .pure _

theorem looks_onlyCommands : Remote.storage.Looks OnlyCommands where
  contains := keeps_test (by decide)
  isDir := keeps_test (by decide)
  isSymlink := keeps_test (by decide)
  read path := by
    refine (keeps_test (by decide) path).bind fun there => ?_
    cases there with
    | true => exact keeps_run path (by simp [commands]) ""
    | false => exact .pure _
  list path := by
    refine (keeps_test (by decide) path).bind fun there => ?_
    cases there with
    | true => exact (keeps_run path (by simp [commands]) "").bind fun _ => .pure _
    | false => exact .pure _

theorem keeps_write (path : Path) (content : String) :
    Keeps OnlyCommands (Remote.storage.write path content) :=
  (keeps_run path (by simp [commands]) content).bind fun _ => .pure _

theorem keeps_modified (path : Path) : Keeps OnlyCommands (Remote.storage.modified path) := by
  refine (keeps_run path (by simp [commands]) "").bind fun output => ?_
  split
  · exact .pure _
  · split <;> exact .pure _

/-- No part of a path is more than itself to the shell that is sent a command. Wherever a word may
begin, and whatever ends it, a quoted path is read as the one word that stands for its text. So the
commands on files, which are all that is sent, are read as the same words and operators for every
path, but for the words of the path, its directory and the fresh file. -/
theorem paths_are_literal_words :
    (∀ (path : Path) (r : Reader) (follow : List Char), r.MayBegin → EndsWord follow →
      (literal path.text).literal? = some path.text ∧
        r.read ((quotePath path).toList ++ follow) =
          (r.begun.emit (literal path.text)).read follow) ∧
    (∀ path : Path,
      (∀ flag ∈ testFlags, tokens? (test flag path) =
        some [plainWord "test", plainWord flag, literal path.text]) ∧
      tokens? (printFile path) = some [plainWord "cat", literal path.text] ∧
      tokens? (listNames path) = some [plainWord "ls", plainWord "-1A", literal path.text] ∧
      tokens? (printModified path) = some (timeTokens path.text) ∧
      tokens? (writeFile path) = some (writeTokens path.directory.text
        (path.directory.join freshTemplate).text path.text)) ∧
    Remote.storage.Looks OnlyCommands ∧
      ∀ path, Keeps OnlyCommands (Remote.storage.modified path) ∧
        ∀ content, Keeps OnlyCommands (Remote.storage.write path content) := by
  refine ⟨fun path r follow hr hf => ⟨literal?_literal path.text,
    read_quote path.text hr hf⟩, fun path => ⟨fun flag hflag => ?_,
    tokens?_of_reads (reads_printFile path), tokens?_of_reads (reads_listNames path),
    tokens?_of_reads (reads_printModified path), tokens?_of_reads (reads_writeFile path)⟩,
    looks_onlyCommands, fun path => ⟨keeps_modified path, keeps_write path⟩⟩
  have hfixed : ∀ flag ∈ testFlags, flag ∈ fixedWords := by decide
  exact tokens?_of_reads (reads_test (hfixed flag hflag) path)

/-- A path of quotes, an operator, an expansion and a line end, between two operators. -/
theorem paths_are_literal_words_hostile :
    let r : Reader := ⟨[plainWord "cat"], none, 0, [], .operator '>'⟩
    r.MayBegin ∧ EndsWord [';'] ∧
      r.read ((quotePath ⟨"it's $(x); \n\\ #"⟩).toList ++ [';']) =
        some [plainWord "cat", .operator ">", literal "it's $(x); \n\\ #", .operator ";"] ∧
      "-L" ∈ testFlags ∧ tokens? (test "-L" ⟨"'"⟩) =
        some [plainWord "test", plainWord "-L", literal "'"] :=
  have hbegin : Reader.MayBegin ⟨[plainWord "cat"], none, 0, [], .operator '>'⟩ :=
    ⟨rfl, .inr (.inr ⟨'>', rfl⟩)⟩
  have hends : EndsWord [';'] := .inr rfl
  ⟨hbegin, hends, (paths_are_literal_words.1 _ _ _ hbegin hends).2, by decide,
    (paths_are_literal_words.2.1 ⟨"'"⟩).1 "-L" (by decide)⟩

end CompileWatch.Shell
