import CompileWatch.FrontEnd.LineChecker
import CompileWatch.Proofs.Storage.Places

/-!
# Where the line checker writes

Every artifact of a source is a file in one directory: the output directory, or
else the one that the source is in. Its name is a plain one, so its place is one
step below that of the directory. Hence an artifact can only stand above another
one by standing above the source of that other one as well.
-/

namespace CompileWatch

open CompileWatch.Path Memory

theorem below_concat_iff {above place : List Component} {c : Component} :
    Below above (place ++ [c]) ↔ above <+: place := by
  rw [below_iff, List.prefix_concat_iff]
  constructor
  · rintro ⟨heq | hp, hne⟩
    · exact absurd heq.symm hne
    · exact hp
  · refine fun hp => ⟨.inr hp, fun heq => ?_⟩
    have hlength := hp.length_le
    rw [← heq, List.length_append, List.length_singleton] at hlength
    omega

namespace LineChecker

theorem isStep_output (file : Path) {ending : String} (hlong : 2 < ending.length)
    (hslash : '/' ∉ ending.toList) :
    (Component.name (file.fileStem?.getD "" ++ ending)).isStep = true := by
  have hstem : '/' ∉ (file.fileStem?.getD "").toList := by
    unfold fileStem?
    cases hname : file.fileName? with
    | none => simp
    | some name => exact slash_not_mem_stem (segment_of_isStep (isStep_of_fileName? hname)).1
  refine Component.isStep_of_length ?_ ?_
  · simp [hstem, hslash]
  · rw [String.length_append]
    omega

/-- The directory that the artifacts of a file are written to. -/
def outputDir (options : CompilerOptions) (file : Path) : Path :=
  options.outDir.getD (file.parent?.getD ⟨""⟩)

variable {options : CompilerOptions} {file file' : Path} {text text' : String} {a b : Artifact}

theorem path_of_mem_artifacts (ha : a ∈ artifacts options file text) :
    ∃ name, (Component.name name).isStep = true ∧ a.path = (outputDir options file).join ⟨name⟩ := by
  simp only [artifacts, List.mem_append, List.mem_singleton] at ha
  rcases ha with (rfl | ha) | ha
  · exact ⟨_, isStep_output file (by decide) (by decide), rfl⟩
  · split at ha
    · obtain rfl := List.mem_singleton.1 ha
      exact ⟨_, isStep_output file (by decide) (by decide), rfl⟩
    · cases ha
  · split at ha
    · obtain rfl := List.mem_singleton.1 ha
      exact ⟨_, isStep_output file (by decide) (by decide), rfl⟩
    · cases ha

theorem place_of_mem_artifacts (h : Handle) (ha : a ∈ artifacts options file text) :
    ∃ c, h.place a.path = h.place (outputDir options file) ++ [c] := by
  obtain ⟨name, hname, hpath⟩ := path_of_mem_artifacts ha
  exact ⟨_, hpath ▸ h.place_join _ hname⟩

/-- An artifact that stands above another one stands above its source. -/
theorem below_of_mem_artifacts {h : Handle} (ha : a ∈ artifacts options file text)
    (hb : b ∈ artifacts options file' text') (hbelow : Below (h.place a.path) (h.place b.path)) :
    Below (h.place a.path) (h.place file') := by
  obtain ⟨c, hc⟩ := place_of_mem_artifacts h ha
  obtain ⟨d, hd⟩ := place_of_mem_artifacts h hb
  rw [hd, below_concat_iff] at hbelow
  cases hout : options.outDir with
  | some outDir =>
      -- both artifacts are in the same directory
      have hlength := hbelow.length_le
      rw [hc, outputDir, outputDir, hout, List.length_append, List.length_singleton] at hlength
      simp only [Option.getD_some] at hlength
      omega
  | none =>
      rw [outputDir, hout, Option.getD_none] at hbelow
      rcases h.place_parent file' with hroot | ⟨e, he⟩
      · rw [hroot, List.prefix_nil, hc] at hbelow
        exact absurd hbelow (by simp)
      · rw [he, below_concat_iff]
        exact hbelow

end LineChecker

end CompileWatch
