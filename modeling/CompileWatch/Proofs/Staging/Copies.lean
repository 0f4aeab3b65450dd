import CompileWatch.Proofs.Path.Stripping
import CompileWatch.Proofs.Storage.Trees
import CompileWatch.Proofs.Storage.Writing
import CompileWatch.Staging

/-!
# Copies of a directory

A staging run lists directories and writes files to one and the same file system.
Over files in memory the copies are not in the way of the run as long as source
and destination lie apart (`Clear`): what is asked about the source is answered as
before the first copy, and no copy makes a directory where another is to be
written.

So the store is known, at every moment of the run, by the files that were copied
so far (`copied`), and one more file copied is one more of them (`copyFile_run`).
-/

namespace CompileWatch.Memory

open CompileWatch.Path

/-- Whether a directory can be copied to a destination: files form a tree, and those below the
directory are where the handle looks for them; neither directory lies within the other, and none
stands where a file is to be written. -/
structure Clear (h : Handle) (s : Store) (source destination : Path) : Prop where
  keyed : ∀ k ∈ s.files.keys, source.components <+: k.components → (h.key k).same k = true
  tree : s.IsTree
  settled : h.place source = source.components
  isDir : h.isDir source s = true
  apart : ¬ h.place source <+: h.place destination ∧ ¬ h.place destination <+: h.place source
  free : ∀ rest, s.Holds (source.components ++ rest) →
    h.isDir (destination.join (ofComponents rest)) s = false

/-- It is enough to look at the files there are. -/
theorem clear_iff {h : Handle} {s : Store} {source destination : Path} :
    Clear h s source destination ↔
      (∀ k ∈ s.files.keys, source.components <+: k.components → (h.key k).same k = true) ∧
      (∀ k ∈ s.files.keys, ∀ l ∈ s.files.keys, ¬ Below k.components l.components) ∧
      h.place source = source.components ∧ h.isDir source s = true ∧
      (¬ h.place source <+: h.place destination ∧ ¬ h.place destination <+: h.place source) ∧
      ∀ k ∈ s.files.keys, source.components <+: k.components →
        h.isDir (destination.join (ofComponents (k.components.drop source.components.length))) s =
          false := by
  constructor
  · intro hc
    refine ⟨hc.keyed, Store.isTree_iff.1 hc.tree, hc.settled, hc.isDir, hc.apart, ?_⟩
    rintro k hk ⟨rest, hrest⟩
    rw [← hrest, List.drop_left]
    exact hc.free rest ⟨k, hk, hrest.symm⟩
  · rintro ⟨hkeyed, htree, hsettled, hdir, hapart, hfree⟩
    refine ⟨hkeyed, Store.isTree_iff.2 htree, hsettled, hdir, hapart, ?_⟩
    rintro rest ⟨k, hk, hrest⟩
    have hfree := hfree k hk (hrest ▸ List.prefix_append _ _)
    rwa [hrest, List.drop_left] at hfree

instance (h : Handle) (s : Store) (source destination : Path) :
    Decidable (Clear h s source destination) := decidable_of_iff _ clear_iff.symm

/-- Whether a path is that of a file below a directory, as listings spell it. -/
def Store.FileBelow (s : Store) (source file : Path) : Prop :=
  ∃ rest, s.Holds (source.components ++ rest) ∧ file = ofComponents (source.components ++ rest)

/-- Where a file below a source goes. -/
def target (source destination file : Path) : Path :=
  destination.join (ofComponents (file.components.drop source.components.length))

/-- What is written for a file below a source. -/
def copy (h : Handle) (s : Store) (source destination file : Path) : Artifact :=
  ⟨target source destination file, (s.text? (h.key file)).getD ""⟩

/-- The store after some files below a source were copied. -/
def copied (h : Handle) (s : Store) (source destination : Path) (files : List Path) : Store :=
  s.lay h (files.map (copy h s source destination))

variable {h : Handle} {s : Store} {source destination : Path}

theorem copied_concat (files : List Path) (file : Path) :
    copied h s source destination (files ++ [file]) =
      (copied h s source destination files).put (h.key (target source destination file))
        ((s.text? (h.key file)).getD "") := by
  simp [copied, Store.lay, copy]

theorem Store.Holds.components {place : List Component} (hheld : s.Holds place) :
    (ofComponents place).components = place := components_ofComponents hheld.spelled

theorem target_held {rest : List Component} (hheld : s.Holds (source.components ++ rest)) :
    target source destination (ofComponents (source.components ++ rest)) =
      destination.join (ofComponents rest) := by
  rw [target, hheld.components, List.drop_left]

namespace Clear

variable (hc : Clear h s source destination)

include hc

theorem components_ne_nil : source.components ≠ [] := by
  intro hnil
  apply hc.apart.1
  rw [hc.settled, hnil]
  exact List.nil_prefix

section Held

variable {rest : List Component} (hheld : s.Holds (source.components ++ rest))

include hheld

theorem settled_held : ∀ c ∈ source.components ++ rest, h.Settled c := by
  obtain ⟨k, hk, hplace⟩ := hheld
  rw [← hplace]
  exact same_key_iff.1 (hc.keyed k hk (hplace ▸ List.prefix_append _ _))

/-- A path on the way to a file, as listings spell it, has its components for its place. -/
theorem place_of_prefix {cs : List Component} (hp : cs <+: source.components ++ rest) :
    h.place (ofComponents cs) = cs := by
  have hcomponents := components_ofComponents (hheld.spelled.of_prefix hp)
  have hsame : (h.key (ofComponents cs)).same (ofComponents cs) = true :=
    same_key_iff.2 fun c hm => hc.settled_held hheld c (hp.subset (hcomponents ▸ hm))
  exact (same_iff.1 hsame).trans hcomponents

theorem place_held :
    h.place (ofComponents (source.components ++ rest)) = source.components ++ rest :=
  hc.place_of_prefix hheld (List.prefix_refl _)

theorem read_held :
    ∃ text, h.read (ofComponents (source.components ++ rest)) s = .ok text ∧
      s.text? (h.key (ofComponents (source.components ++ rest))) = some text := by
  have hplace := hc.place_held hheld
  obtain ⟨text, htext⟩ := Handle.exists_read_iff.2
    (show s.Holds (h.normal _) from h.place_eq _ ▸ hplace ▸ hheld)
  exact ⟨text, htext, read_eq_ok_iff.1 htext⟩

theorem isStep_held : ∀ c ∈ rest, c.isStep = true := by
  have hspelled := hheld.spelled
  obtain ⟨first, more, hsource⟩ := List.exists_cons_of_ne_nil hc.components_ne_nil
  rw [hsource] at hspelled
  exact fun c hmem => hspelled.2 c (List.mem_append_right more hmem)

theorem components_target : (destination.join (ofComponents rest)).components =
    destination.components ++ rest :=
  components_join_steps (hc.isStep_held hheld) destination

/-- A file keeps its components on the way to the destination, whether letter case counts or not. -/
theorem place_target : h.place (destination.join (ofComponents rest)) =
    h.place destination ++ rest := by
  have hplace := hc.place_held hheld
  rw [h.place_eq, hheld.components, List.filter_append, List.map_append, ← h.place_eq,
    hc.settled] at hplace
  rw [h.place_eq, hc.components_target hheld, List.filter_append, List.map_append, ← h.place_eq,
    List.append_cancel_left hplace]

theorem stripPrefix?_held : (ofComponents (source.components ++ rest)).stripPrefix? source =
    some (ofComponents rest) := by
  have hcurrent : .current ∉ source.components ++ rest :=
    fun hmem => (hc.settled_held hheld _ hmem).1 rfl
  rw [stripPrefix?_ofComponents (hheld.spelled) hcurrent (List.prefix_append _ _)
    hc.components_ne_nil, List.drop_left]

end Held

/-! ## What copies leave alone -/

/-- Nothing at or below the source is where a copy goes. -/
theorem not_target {place rest : List Component} (hbelow : source.components <+: place) :
    place ≠ h.place destination ++ rest := by
  rintro rfl
  rw [← hc.settled] at hbelow
  exact (List.prefix_or_prefix_of_prefix hbelow (List.prefix_append _ _)).elim hc.apart.1
    hc.apart.2

variable {files : List Path} (hfiles : ∀ file ∈ files, s.FileBelow source file)

include hfiles

/-- Copies add files at their targets, and change none elsewhere. -/
theorem added : Added
    (fun place => ∃ rest, s.Holds (source.components ++ rest) ∧ place = h.place destination ++ rest)
    s (copied h s source destination files) := by
  refine (Added.refl _ s).lay (List.forall_mem_map.2 fun file hfile => ?_)
  obtain ⟨rest, hheld, rfl⟩ := hfiles file hfile
  refine ⟨rest, hheld, ?_⟩
  rw [copy, target_held hheld, hc.place_target hheld]

section Source

variable {path : Path} (hpath : source.components <+: h.place path)

include hpath

theorem isDir_copied : h.isDir path (copied h s source destination files) = h.isDir path s := by
  refine (hc.added hfiles).wider.isDir_eq ?_
  rintro _ ⟨rest, _, rfl⟩ hbelow
  exact absurd rfl (hc.not_target (hpath.trans (below_iff.1 hbelow).1))

theorem list_copied : h.list path (copied h s source destination files) = h.list path s := by
  unfold Handle.list Store.children
  rw [(hc.added hfiles).childNames_eq]
  rintro _ ⟨rest, _, rfl⟩ hbelow
  exact hc.not_target (hpath.trans (below_iff.1 hbelow).1) rfl

theorem read_copied : h.read path (copied h s source destination files) = h.read path s := by
  unfold Handle.read
  rw [(hc.added hfiles).find?_eq]
  rintro _ ⟨rest, _, rfl⟩
  exact hc.not_target hpath

end Source

/-- No copy makes a directory where another is to be written: it would lie below a file. -/
theorem isDir_target {rest : List Component} (hheld : s.Holds (source.components ++ rest)) :
    h.isDir (destination.join (ofComponents rest)) (copied h s source destination files) =
      false := by
  rw [(hc.added hfiles).wider.isDir_eq, hc.free rest hheld]
  rintro _ ⟨other, hother, rfl⟩ hbelow
  rw [hc.place_target hheld] at hbelow
  obtain ⟨c, way, heq⟩ := hbelow
  rw [List.append_assoc] at heq
  rw [List.append_cancel_left heq] at hother
  exact absurd ⟨c, way, (List.append_assoc _ _ _).symm⟩ (hc.tree _ _ hheld hother)

/-- A copy has the text of its file, whatever was copied before and after. -/
theorem text?_target {rest : List Component} (hheld : s.Holds (source.components ++ rest))
    (hmem : ofComponents (source.components ++ rest) ∈ files) :
    (copied h s source destination files).text? (h.key (destination.join (ofComponents rest))) =
      s.text? (h.key (ofComponents (source.components ++ rest))) := by
  obtain ⟨text, -, htext⟩ := hc.read_held hheld
  induction files using List.reverseRecOn with
  | nil => cases hmem
  | append_singleton files file ih =>
      obtain ⟨hbefore, hfile⟩ := List.forall_mem_append.1 hfiles
      obtain ⟨other, hother, rfl⟩ := hfile file (List.mem_singleton_self file)
      rw [copied_concat, Store.text?_put, target_held hother]
      by_cases hrest : other = rest
      · rw [hrest, if_pos (same_iff.2 rfl), htext]
        rfl
      · have hne : ¬ (h.key (destination.join (ofComponents other))).same
            (h.key (destination.join (ofComponents rest))) = true := by
          intro hsame
          have hplace := same_iff.1 hsame
          change h.place _ = h.place _ at hplace
          rw [hc.place_target hother, hc.place_target hheld] at hplace
          exact hrest (List.append_cancel_left hplace)
        rw [if_neg hne]
        refine ih hbefore ((List.mem_append.1 hmem).resolve_right fun heq => ?_)
        have hsame := congrArg Path.components (List.mem_singleton.1 heq)
        rw [hheld.components, hother.components] at hsame
        exact hrest (List.append_cancel_left hsame).symm

/-! ## One file, and the files among the entries of a directory -/

theorem copyFile_run {file : Path} (hfile : s.FileBelow source file) :
    answer (Staging.copyFile h.storage file (target source destination file))
        (copied h s source destination files) = .ok () ∧
      after (Staging.copyFile h.storage file (target source destination file))
        (copied h s source destination files) =
          copied h s source destination (files ++ [file]) := by
  obtain ⟨rest, hheld, rfl⟩ := hfile
  obtain ⟨text, hread, htext⟩ := hc.read_held hheld
  have hbelow : source.components <+: h.place (ofComponents (source.components ++ rest)) := by
    rw [hc.place_held hheld]
    exact List.prefix_append _ _
  rw [copied_concat, htext, target_held hheld]
  unfold Staging.copyFile
  rw [answer_bind, after_bind]
  have hanswer : answer (h.storage.read (ofComponents (source.components ++ rest)))
      (copied h s source destination files) = .ok text :=
    (hc.read_copied hfiles hbelow).trans hread
  have hafter : after (h.storage.read (ofComponents (source.components ++ rest)))
      (copied h s source destination files) = copied h s source destination files := rfl
  rw [hanswer, hafter]
  dsimp only
  rw [answer_bind, after_bind]
  unfold answer after
  rw [h.write_run, hc.isDir_target hfiles hheld, if_neg (by decide)]
  exact ⟨rfl, rfl⟩

omit hfiles in
/-- The entries of a directory: the files are copied, the directories are to be entered. -/
theorem copyEntries_run : ∀ (entries dirs : List Path) {files : List Path},
    (∀ file ∈ files, s.FileBelow source file) →
    (∀ entry ∈ entries, source.components <+: h.place entry ∧
      (h.isDir entry s = false → s.FileBelow source entry)) →
    answer (Staging.copyEntries h.storage source destination entries dirs
        (files.map (target source destination))) (copied h s source destination files) =
      .ok ((entries.filter (h.isDir · s)).reverse ++ dirs,
        (files ++ entries.filter (!h.isDir · s)).map (target source destination)) ∧
    after (Staging.copyEntries h.storage source destination entries dirs
        (files.map (target source destination))) (copied h s source destination files) =
      copied h s source destination (files ++ entries.filter (!h.isDir · s))
  | [], dirs, files, _, _ => by
      rw [List.filter_nil, List.filter_nil, List.append_nil]
      exact ⟨rfl, rfl⟩
  | entry :: rest, dirs, files, hfiles, hentries => by
      obtain ⟨⟨hbelow, hfile⟩, hrest⟩ := List.forall_mem_cons.1 hentries
      have hasked : answer (h.storage.isDir entry) (copied h s source destination files) =
          h.isDir entry s := hc.isDir_copied hfiles hbelow
      have hkept : after (h.storage.isDir entry) (copied h s source destination files) =
          copied h s source destination files := rfl
      unfold Staging.copyEntries
      rw [answer_bind, after_bind, hasked, hkept]
      cases hdir : h.isDir entry s with
      | true =>
          have hrun := copyEntries_run rest (entry :: dirs) hfiles hrest
          rw [List.filter_cons_of_pos (p := (h.isDir · s)) hdir,
            List.filter_cons_of_neg (p := (!h.isDir · s)) (by simp [hdir]), List.reverse_cons,
            List.append_assoc]
          exact hrun
      | false =>
          obtain ⟨way, hheld, hentry⟩ := hfile hdir
          have hstrip : entry.stripPrefix? source = some (ofComponents way) :=
            hentry ▸ hc.stripPrefix?_held hheld
          have htarget : target source destination entry = destination.join (ofComponents way) :=
            hentry ▸ target_held hheld
          have hcopy := hc.copyFile_run hfiles (hfile hdir)
          have hmore : ∀ file ∈ files ++ [entry], s.FileBelow source file :=
            List.forall_mem_append.2 ⟨hfiles, List.forall_mem_singleton.2 (hfile hdir)⟩
          have hrun := copyEntries_run rest dirs hmore hrest
          rw [List.map_append, List.map_singleton] at hrun
          rw [List.filter_cons_of_neg (p := (h.isDir · s)) (by simp [hdir]),
            List.filter_cons_of_pos (p := (!h.isDir · s)) (by simp [hdir]), List.append_cons]
          rw [if_neg (by decide), hstrip]
          dsimp only
          rw [answer_bind, after_bind, ← htarget, hcopy.1, hcopy.2]
          exact hrun

end Clear

end CompileWatch.Memory
