import CompileWatch.Proofs.Sources.Disk
import CompileWatch.Proofs.Sources.Memory
import CompileWatch.Proofs.Storage.Trees
import CompileWatch.Storage.Volume

/-!
# The sources of a project are found exactly

A volume is a store in memory or a tree on disk. Every volume that comes about is
sound: whatever is done to it, no key in memory has an inner dot, and the names in
a directory on disk differ and can be spelled (`sound_play`). So each directory that
a search enters leads one step down, the search comes to its end, and what it finds
is what the directories that it reaches list (`sources_exact`).

Whether a file is found once is another matter. It is, as long as no two directories
that are reached have one place. A store in memory that is edited through the handle
it is used with tells its directories apart, and so does a disk (`kept_play`). If
letter case stops counting when files are there, two directories can lead to the same
files, which are then found once for each (`source_found_twice`).
-/

namespace CompileWatch

namespace Volume

open Memory (Handle Edit Store)

/-- Whether a volume is as volumes are: no file in memory is kept under a path with an inner dot, and
the names in a directory on disk differ and can stand in a path. -/
def Sound : Volume → Prop
  | memory _ s => s.Plain
  | disk t _ => t.root.isNamed = true

/-- Whether the files of a volume are where it looks for them: in memory, under the keys of its
handle. -/
def Kept : Volume → Prop
  | memory h s => h.Keyed s
  | disk t _ => t.root.isNamed = true

/-- Where a path leads: to the components of its key in memory, and to its own on disk. -/
def place : Volume → Path → List Component
  | memory h _ => h.place
  | disk _ _ => Path.components

/-- How much there is below a directory. -/
def weight : Volume → Path → Nat
  | memory h s => h.weight s
  | disk t _ => Disk.weight t

theorem Kept.sound : ∀ {v : Volume}, v.Kept → v.Sound
  | memory _ _, hv => hv.plain
  | disk _ _, hv => hv

theorem kept_empty (h : Handle) : (memory h .empty).Kept ∧ (disk .empty 0).Kept :=
  ⟨h.keyed_empty, Disk.isNamed_empty⟩

/-! ## What is done to volumes -/

/-- An edit of a volume, as others make it. -/
def edit : Edit → StateM Volume (Except FsError Unit)
  | .insert path content => insert path content
  | .write path content => storage.write path content
  | .touch path => touch path
  | .remove path => remove path

/-- What is done to a disk beside the edits that a store knows too. -/
inductive DiskEdit where
  | link (path : Path) (destination : String)
  | directories (path : Path)
  | overwrite (path : Path) (bytes : ByteArray)

def DiskEdit.perform : DiskEdit → StateM Disk.Tree (Except FsError Unit)
  | link path destination => Disk.makeLink path destination
  | directories path => Disk.makeDirectoriesAt path
  | overwrite path bytes => Disk.overwrite path bytes

/-- What can be done to a volume: it is edited, or letter case counts otherwise from then on. -/
inductive Step where
  | edit (edit : Edit)
  | onDisk (edit : DiskEdit)
  | switch (handle : Handle)

def Step.isEdit : Step → Bool
  | switch _ => false
  | _ => true

def Step.act : Step → Volume → Volume
  | edit e, v => after (Volume.edit e) v
  | onDisk e, disk t edits => disk (after e.perform t) edits
  | switch handle, memory _ s => memory handle s
  | _, v => v

-- a type that mentions a run is not to be computed
@[irreducible]
def play (steps : List Step) (v : Volume) : Volume := steps.foldl (fun v step => step.act v) v

theorem after_edit_memory (e : Edit) (h : Handle) (s : Store) :
    after (edit e) (memory h s) = memory h (e.change h s) := by
  cases e <;> rfl

theorem exists_after_edit_disk (e : Edit) {t : Disk.Tree} (ht : t.root.isNamed = true)
    (edits : Nat) : ∃ t' edits', after (edit e) (disk t edits) = disk t' edits' ∧
      t'.root.isNamed = true := by
  cases e with
  | insert path content =>
      have hwritten : (Disk.write path content t).2.root.isNamed = true :=
        Disk.isNamed_writeUnless ht _ path content
      have hinsert : after (insert path content) (disk t edits) =
          ((Disk.write path content t).1.toOption.map fun _ =>
            (stamp path (Disk.write path content t).2 edits).2).getD
              (disk (Disk.write path content t).2 edits) := by
        unfold after insert
        dsimp only [StateT.run]
        cases Disk.write path content t with
        | mk answer t' => cases answer <;> rfl
      rw [edit, hinsert]
      cases (Disk.write path content t).1.toOption with
      | none => exact ⟨_, _, rfl, hwritten⟩
      | some _ => exact ⟨_, _, rfl, Disk.isNamed_setModified hwritten path _⟩
  | write path content => exact ⟨_, _, rfl, Disk.isNamed_writeUnless ht _ path content⟩
  | touch path => exact ⟨_, _, rfl, Disk.isNamed_setModified ht path _⟩
  | remove path => exact ⟨_, _, rfl, Disk.isNamed_remove ht path⟩

theorem DiskEdit.isNamed (e : DiskEdit) {t : Disk.Tree} (ht : t.root.isNamed = true) :
    (after e.perform t).root.isNamed = true := by
  cases e with
  | link path destination => exact Disk.isNamed_makeLink ht path destination
  | directories path => exact Disk.isNamed_makeDirectoriesAt ht path
  | overwrite path bytes => exact Disk.isNamed_overwrite ht path bytes

theorem Kept.edit (e : Edit) : ∀ {v : Volume}, v.Kept → (after (Volume.edit e) v).Kept
  | memory h s, hv => by
      rw [after_edit_memory]
      exact Handle.Keyed.edit hv e
  | disk t edits, hv => by
      obtain ⟨t', edits', hafter, ht'⟩ := exists_after_edit_disk e hv edits
      rw [hafter]
      exact ht'

theorem Kept.onDisk (e : DiskEdit) : ∀ {v : Volume}, v.Kept → ((Step.onDisk e).act v).Kept
  | memory _ _, hv => hv
  | disk _ _, hv => e.isNamed hv

theorem Sound.act : ∀ (step : Step) {v : Volume}, v.Sound → (step.act v).Sound
  | .switch _, memory _ _, hv => hv
  | .switch _, disk _ _, hv => hv
  | .onDisk _, memory _ _, hv => hv
  | .onDisk e, disk _ _, hv => e.isNamed hv
  | .edit e, memory h s, hv => by
      rw [Step.act, after_edit_memory]
      exact Store.Plain.edit hv h e
  | .edit e, disk t edits, hv => by
      have hkept : (disk t edits).Kept := hv
      exact (hkept.edit e).sound

/-- A volume stays sound, whatever is done to it. -/
theorem sound_play (steps : List Step) {v : Volume} (hv : v.Sound) : (play steps v).Sound := by
  rw [play]
  exact List.foldlRecOn steps _ hv fun _ hs step _ => hs.act step

/-- A volume that is only edited, through the handle it is used with, looks where its files are. -/
theorem kept_play {steps : List Step} (hsteps : ∀ step ∈ steps, step.isEdit = true) {v : Volume}
    (hv : v.Kept) : (play steps v).Kept := by
  rw [play]
  refine List.foldlRecOn steps _ hv fun u hu step hm => ?_
  cases step with
  | edit e => exact hu.edit e
  | onDisk e => exact hu.onDisk e
  | switch handle => cases hsteps _ hm

/-! ## Searches -/

theorem looks_storage (P : Volume → Prop) : storage.Looks P := by
  constructor <;> rintro _ (⟨h, s⟩ | ⟨t, edits⟩) hv <;> exact hv

theorem storage_lists {v : Volume} (hv : v.Kept) : storage.Lists (· = v) v.place := by
  cases v with
  | memory h s =>
      refine ⟨looks_storage _, ?_, ?_⟩
      · rintro dir _ entries rfl
        exact h.storage_lists.ascending dir s entries hv
      · rintro dir _ entries rfl
        exact h.storage_lists.below dir s entries hv
  | disk t edits =>
      refine ⟨looks_storage _, ?_, ?_⟩
      · rintro dir _ entries rfl
        exact Disk.storage_lists.ascending dir t entries hv
      · rintro dir _ entries rfl
        exact Disk.storage_lists.below dir t entries hv

variable {v : Volume} (hv : v.Sound)

include hv

theorem storage_descends : storage.Descends v v.place := by
  cases v with
  | memory h s =>
      have hd := Handle.storage_descends (h := h) hv
      exact ⟨hd.spelled, hd.placed, hd.distinct, hd.apart⟩
  | disk t edits => exact (storage_lists (v := disk t edits) hv).descends

theorem storage_bounded : storage.Bounded v v.weight := by
  cases v with
  | memory h s =>
      have hb := Handle.storage_bounded (h := h) hv
      exact ⟨hb.pos, hb.below, hb.extent⟩
  | disk t n =>
      have hb := Disk.storage_bounded hv
      exact ⟨hb.pos, hb.below, hb.extent⟩

end Volume

namespace Sources

open CompileWatch.Path

/-- On every volume and whatever directories cannot be listed, the search for sources comes to its
end. It gives the sources below the root in path order, and what is lost to a directory that cannot
be listed lies below it. Where no two directories that are reached have one place, no source is
given twice, and all that lies below a directory that cannot be listed is lost. That is so of a
volume that has only been edited through the handle it is used with. -/
theorem sources_exact {w : World Volume} (hw : w.store.Sound) (refusals : Path → Option FsError)
    (root : Path) (extension : String) (outDir : Option Path) :
    let storage := Volume.storage.refusing refusals
    let query : Query := ⟨extension, outDir.map root.join⟩
    let sources := answer (collect storage root extension outDir) w
    let all := answer (collect Volume.storage root extension outDir) w
    let place := w.store.place
    (∃ found, Searched storage query w.store [root] [] found ∧ sources = sort found) ∧
      sources.Pairwise (compare · · ≠ .gt) ∧
      (∀ file, file ∈ sources ↔ IsSource storage query w.store root file) ∧
      (∀ file ∈ all, file ∉ sources → ∃ dir, Reached Volume.storage query w.store root dir ∧
        refusals dir ≠ none ∧ place dir <+: file.components) ∧
      (OneWay Volume.storage query w.store place root →
        sources.Pairwise (compare · · = .lt) ∧
        ∀ file, file ∈ sources ↔ file ∈ all ∧
          ∀ dir, Reached Volume.storage query w.store root dir → refusals dir ≠ none →
            ¬ place dir <+: file.components) ∧
      ∀ (start : Volume) steps, start.Kept → (∀ step ∈ steps, step.isEdit = true) →
        w.store = start.play steps → OneWay Volume.storage query w.store place root := by
  intro storage query sources all place
  have hdescends := Volume.storage_descends hw
  have hbounded := Volume.storage_bounded hw
  have hlooks := Volume.looks_storage (· = w.store)
  have hsearched : ∃ found, Searched storage query w.store [root] [] found ∧ sources = sort found :=
    searched_collect (hlooks.refusing refusals) (hbounded.refusing refusals) root extension outDir
  have hmem : ∀ file, file ∈ sources ↔ IsSource storage query w.store root file :=
    fun file => mem_collect_iff (hlooks.refusing refusals) (hbounded.refusing refusals)
  have hall : ∀ file, file ∈ all ↔ IsSource Volume.storage query w.store root file :=
    fun file => mem_collect_iff hlooks hbounded
  refine ⟨hsearched, pairwise_sort _, hmem, fun file hfile hlost => ?_, fun hone => ⟨?_, ?_⟩,
    fun start steps hstart hsteps hplay => ?_⟩
  · exact ((hall file).1 hfile).lost hdescends fun hsource => hlost ((hmem file).2 hsource)
  · obtain ⟨found, hfound, hsorted⟩ := hsearched
    rw [hsorted]
    refine ascending_sort (hfound.distinct (hdescends.refusing refusals) (hone.refusing refusals)
      (List.forall_mem_singleton.2 .refl) (.single place root))
  · intro file
    rw [hmem, hall]
    exact isSource_refusing_iff hdescends hone
  · have hkept : w.store.Kept := hplay ▸ Volume.kept_play hsteps hstart
    exact oneWay_of_lists (Volume.storage_lists hkept) root

/-- What makes a project with an output folder, a dependency and a folder that will not be listed. -/
def mixedSteps : List Volume.Step :=
  [.edit (.insert ⟨"/p/b.ts"⟩ ""), .edit (.write ⟨"/p/a/c.ts"⟩ ""), .edit (.write ⟨"/p/a/c.md"⟩ ""),
    .edit (.insert ⟨"/p/dist/b.d.ts"⟩ ""), .edit (.insert ⟨"/p/node_modules/m/m.d.ts"⟩ ""),
    .edit (.write ⟨"/p/lost/d.ts"⟩ ""), .edit (.write ⟨"/p/e.ts"⟩ ""), .edit (.touch ⟨"/p/./b.ts"⟩),
    .edit (.remove ⟨"/p//e.ts"⟩)]

def mixed : World Volume := ⟨(Volume.memory Memory.exact .empty).play mixedSteps, []⟩

def lostFolder (dir : Path) : Option FsError :=
  if dir = ⟨"/p/lost"⟩ then some (.permissionDenied dir) else none

theorem sources_exact_mixed :
    mixed.store.Sound ∧
      answer (collect (Volume.storage.refusing lostFolder) ⟨"/p"⟩ "ts" (some ⟨"dist"⟩)) mixed =
        [⟨"/p/a/c.ts"⟩, ⟨"/p/b.ts"⟩] ∧
      OneWay Volume.storage ⟨"ts", some ⟨"/p/dist"⟩⟩ mixed.store mixed.store.place ⟨"/p"⟩ ∧
      ¬ IsSource (Volume.storage.refusing lostFolder) ⟨"ts", some ⟨"/p/dist"⟩⟩ mixed.store ⟨"/p"⟩
        ⟨"/p/lost/d.ts"⟩ := by
  have hempty : (Volume.memory Memory.exact .empty).Kept := (Volume.kept_empty Memory.exact).1
  have hedits : ∀ step ∈ mixedSteps, step.isEdit = true := by decide
  have hsources : answer (collect (Volume.storage.refusing lostFolder) ⟨"/p"⟩ "ts" (some ⟨"dist"⟩))
      mixed = [⟨"/p/a/c.ts"⟩, ⟨"/p/b.ts"⟩] := by decide +kernel
  have hsound : mixed.store.Sound := Volume.sound_play mixedSteps hempty.sound
  obtain ⟨_, _, hmem, _, _, hone⟩ := sources_exact hsound lostFolder ⟨"/p"⟩ "ts" (some ⟨"dist"⟩)
  refine ⟨hsound, hsources, hone _ mixedSteps hempty hedits rfl, fun hsource => ?_⟩
  have hfound := (hmem ⟨"/p/lost/d.ts"⟩).2 hsource
  rw [hsources] at hfound
  exact absurd hfound (by decide)

def twinFiles : List (Path × String) := [(⟨"/P/b.ts"⟩, ""), (⟨"/p/a.ts"⟩, "")]

/-- Two folders whose names differ in letter case, when it does not count any more: both lead to the
files of one of them. -/
def twins : World Volume :=
  ⟨(Volume.memory Memory.exact (Memory.exact.withFiles twinFiles)).play [.switch Memory.folding], []⟩

theorem source_found_twice :
    twins.store.Sound ∧ (Memory.exact.withFiles twinFiles).IsTree ∧
      answer (collect Volume.storage ⟨"/"⟩ "ts" none) twins = [⟨"/p/a.ts"⟩, ⟨"/p/a.ts"⟩] ∧
      ¬ (answer (collect Volume.storage ⟨"/"⟩ "ts" none) twins).Pairwise (compare · · = .lt) := by
  have hfilled : (Volume.memory Memory.exact (Memory.exact.withFiles twinFiles)).Kept :=
    Memory.exact.keyed_withFiles twinFiles
  have hsources : answer (collect Volume.storage ⟨"/"⟩ "ts" none) twins =
      [⟨"/p/a.ts"⟩, ⟨"/p/a.ts"⟩] := by decide +kernel
  have hsound : twins.store.Sound := Volume.sound_play [.switch Memory.folding] hfilled.sound
  refine ⟨hsound, Memory.Store.isTree_iff.2 (by decide +kernel), hsources, ?_⟩
  rw [hsources]
  decide +kernel

end Sources

end CompileWatch
