import CompileWatch.Proofs.Staging.Tours

/-!
# Successful staging runs

Nothing is assumed here about where the destination of a staging run lies: it may be
apart from the source, around it, or within it, where the run meets files that it has
written itself. What a run does is then told step by step, in the order of its steps.
A run that succeeds is a derivation of `Copies`, which counts the directories that are
entered and gives the files written (`exists_copies_of_stage`, `Copies.stage`).

The steps carry what is known of every file that is copied: it lies somewhere below
the source, and it goes to the same place below the destination (`Follows`).
-/

namespace CompileWatch.Memory

open CompileWatch.Path

/-! ## Entries of directories below the source -/

section Entries

variable {h : Handle} {s t : Store} {dir entry : Path}

theorem Handle.ListsEntry.of_kept (hl : h.ListsEntry s dir entry)
    (hkept : ∀ place, s.Holds place → t.Holds place) : h.ListsEntry t dir entry := by
  obtain ⟨c, rest, hheld, hentry⟩ := listsEntry_iff_holds.1 hl
  exact listsEntry_iff_holds.2 ⟨c, rest, hkept _ hheld, hentry⟩

theorem settled_of_mem_place {p : Path} {c : Component} (hc : c ∈ h.place p) : h.Settled c :=
  settled_of_mem_key (p := p) hc

/-- A place is read as it stands: its components are those of a key. -/
theorem kept_place (h : Handle) (p : Path) :
    ((h.place p).filter (· ≠ .current)).map h.kept = h.place p := by
  have hkey := h.place_key p
  rw [h.place_eq (h.key p)] at hkey
  exact hkey

theorem place_ofComponents (h : Handle) {cs : List Component} (hs : Spelled cs) :
    h.place (ofComponents cs) = (cs.filter (· ≠ .current)).map h.kept := by
  rw [h.place_eq, components_ofComponents hs]

section Listed

variable (hl : h.ListsEntry s dir entry)

include hl

theorem Handle.ListsEntry.place_prefix : h.place dir <+: h.place entry := by
  obtain ⟨c, rest, hheld, rfl⟩ := listsEntry_iff_holds.1 hl
  rw [place_ofComponents h (hheld.spelled.of_prefix ⟨rest, by simp⟩), List.filter_append,
    List.map_append, kept_place]
  exact List.prefix_append _ _

/-- A dot can be listed only first of all, where it is a directory. -/
theorem Handle.ListsEntry.exists_spelled (hfile : h.isDir entry s = false) :
    ∃ c, Spelled (h.place dir ++ [c]) ∧ .current ∉ h.place dir ++ [c] ∧
      entry = ofComponents (h.place dir ++ [c]) := by
  obtain ⟨c, rest, hheld, rfl⟩ := listsEntry_iff_holds.1 hl
  have hspelled : Spelled (h.place dir ++ [c]) := hheld.spelled.of_prefix ⟨rest, by simp⟩
  have hdir : .current ∉ h.place dir := fun hmem => (settled_of_mem_place hmem).1 rfl
  refine ⟨c, hspelled, ?_, rfl⟩
  intro hmem
  rcases List.mem_append.1 hmem with hmem | hmem
  · exact hdir hmem
  obtain rfl : Component.current = c := List.mem_singleton.1 hmem
  cases hplace : h.place dir with
  | cons first more =>
      rw [hplace] at hspelled
      exact absurd (hspelled.2 .current (by simp)) (by decide)
  | nil =>
      rw [hplace] at hfile hheld
      have hbelow : h.isDir (ofComponents ([] ++ [.current])) s = true := by
        refine Handle.isDir_iff.2 ⟨_, hheld, ?_⟩
        rw [place_ofComponents h (hplace ▸ hspelled)]
        exact ⟨_, _, rfl⟩
      rw [hbelow] at hfile
      cases hfile

end Listed

/-- Where a file below a source goes: its place below the destination is that below the source. A
source without components lets an absolute path pass as it is, and joined to a destination it stands
for itself. -/
structure Follows (h : Handle) (source destination file target : Path) : Prop where
  spelled : source.components = h.place source
  way : ∃ way, h.place file = h.place source ++ way ∧
    (h.place target = h.place destination ++ way ∨ h.place source = [] ∧ target = file)

theorem isPrefix_of_stripPrefix? {p base relative : Path} (h : p.stripPrefix? base = some relative) :
    base.components <+: p.components := by
  unfold stripPrefix? at h
  split at h
  · cases h
  · next hstarts =>
    rw [Bool.not_eq_true', Bool.not_eq_false] at hstarts
    exact List.isPrefixOf_iff_prefix.1 hstarts

theorem place_join_steps (destination : Path) {steps : List Component}
    (hsteps : ∀ c ∈ steps, c.isStep = true) : h.place (destination.join (ofComponents steps)) =
      h.place destination ++ (steps.filter (· ≠ .current)).map h.kept := by
  rw [h.place_eq, components_join_steps hsteps, List.filter_append, List.map_append, ← h.place_eq]

/-- The components of a base that a listed file begins with are those of its place. -/
theorem components_eq_place {source : Path} {c : Component}
    (hdir : h.place source <+: h.place dir) (hcurrent : .current ∉ h.place dir ++ [c])
    (hp : source.components <+: h.place dir ++ [c]) : source.components = h.place source := by
  have hplace := h.place_eq source
  rcases List.prefix_concat_iff.1 hp with heq | hp
  · -- so long a source would have a place as long, and the directory does not reach so far
    have hkept : source.components.filter (· ≠ .current) = source.components := by
      refine List.filter_eq_self.2 fun d hd => decide_eq_true ?_
      intro hcur
      exact hcurrent (heq ▸ hcur ▸ hd)
    have hlength := hdir.length_le
    rw [hplace, hkept, List.length_map, heq, List.length_append, List.length_singleton] at hlength
    omega
  · have hsettled : ∀ d ∈ source.components, h.Settled d :=
      fun d hd => settled_of_mem_place (hp.subset hd)
    exact (same_iff.1 (same_key_iff.2 hsettled)).symm

/-- A file that stands in a listing at or below the source, and from which the source can be
stripped, is copied to where it belongs. -/
theorem Handle.ListsEntry.follows {source destination relative : Path}
    (hl : h.ListsEntry s dir entry) (hdir : h.place source <+: h.place dir)
    (hfile : h.isDir entry s = false) (hstrip : entry.stripPrefix? source = some relative) :
    Follows h source destination entry (destination.join relative) := by
  obtain ⟨c, hspelled, hcurrent, rfl⟩ := hl.exists_spelled hfile
  have hp := isPrefix_of_stripPrefix? hstrip
  rw [components_ofComponents hspelled] at hp
  have hsource := components_eq_place hdir hcurrent hp
  refine ⟨hsource, ?_⟩
  rw [place_ofComponents h hspelled]
  by_cases hempty : source.components = []
  · rw [stripPrefix?_of_nil hspelled hcurrent hempty] at hstrip
    cases hstrip
    refine ⟨_, by rw [← hsource, hempty, List.nil_append], ?_⟩
    generalize h.place dir ++ [c] = cs at hspelled hcurrent
    cases cs with
    | nil => exact .inl (place_join_steps destination (List.forall_mem_nil _))
    | cons first rest =>
        rcases hspelled.1 with rfl | rfl | hfirst
        · refine .inr ⟨hsource ▸ hempty, if_pos ?_⟩
          rw [isAbsolute, toList_ofComponents_root]
          rfl
        · exact absurd List.mem_cons_self hcurrent
        · exact .inl (place_join_steps destination (List.forall_mem_cons.2 ⟨hfirst, hspelled.2⟩))
  · rw [stripPrefix?_ofComponents hspelled hcurrent hp hempty] at hstrip
    cases hstrip
    obtain ⟨steps, hsteps⟩ := hp
    rw [← hsteps, List.drop_left, List.filter_append, List.map_append, ← h.place_eq]
    refine ⟨_, rfl, .inl (place_join_steps destination ?_)⟩
    obtain ⟨first, more, hcons⟩ := List.exists_cons_of_ne_nil hempty
    rw [← hsteps, hcons] at hspelled
    exact fun d hd => hspelled.2 d (List.mem_append_right more hd)

end Entries

/-! ## Runs, step by step -/

/-- The rest of a run that has some entries of a directory still to go through. -/
def copyFrom (h : Handle) (source destination : Path) (fuel : Nat)
    (entries pending written : List Path) : StateM Store (Except StageError (List Path)) := do
  match ← Staging.copyEntries h.storage source destination entries pending written with
  | .error e => return .error e
  | .ok (pending, written) =>
    Staging.copyTree h.storage source destination fuel pending written

section Steps

variable (h : Handle) (source destination : Path) (fuel : Nat) (s : Store)

theorem run_copyTree_cons (dir : Path) (pending written : List Path) :
    (Staging.copyTree h.storage source destination (fuel + 1) (dir :: pending) written).run s =
      match h.list dir s with
      | .error e => (.error (.cannotList dir e), s)
      | .ok entries => (copyFrom h source destination fuel entries pending written).run s := by
  have hlist : (h.storage.list dir).run s = (h.list dir s, s) := rfl
  rw [Staging.copyTree, StateT.run_bind, hlist]
  cases h.list dir s with
  | error e => rfl
  | ok entries => rfl

theorem run_copyFrom_nil (pending written : List Path) :
    (copyFrom h source destination fuel [] pending written).run s =
      (Staging.copyTree h.storage source destination fuel pending written).run s := rfl

/-- How a storage in memory refuses to write in the place of a directory. -/
def inTheWay (target : Path) : StageError :=
  .cannotWrite target (.other s!"cannot write {target.text}: is a directory")

theorem run_copyFile (file target : Path) :
    (Staging.copyFile h.storage file target).run s =
      match h.read file s with
      | .error e => (.error (.cannotRead file e), s)
      | .ok text => if h.isDir target s then (.error (inTheWay target), s)
        else (.ok (), s.put (h.key target) text) := by
  have hread : (h.storage.read file).run s = (h.read file s, s) := rfl
  rw [Staging.copyFile, StateT.run_bind, hread]
  cases h.read file s with
  | error e => rfl
  | ok text =>
      show (h.storage.write target text >>= fun written =>
        pure (written.mapError (StageError.cannotWrite target))).run s =
          if h.isDir target s then (.error (inTheWay target), s)
          else (.ok (), s.put (h.key target) text)
      rw [StateT.run_bind, h.write_run]
      cases h.isDir target s with
      | true => rfl
      | false => rfl

/-- One entry: a directory is put before the others, a file is copied or the run is over. -/
theorem run_copyFrom_cons (entry : Path) (rest pending written : List Path) :
    (copyFrom h source destination fuel (entry :: rest) pending written).run s =
      if h.isDir entry s then
        (copyFrom h source destination fuel rest (entry :: pending) written).run s
      else match entry.stripPrefix? source with
        | none => (.error (.escapes entry source), s)
        | some relative => match h.read entry s with
          | .error e => (.error (.cannotRead entry e), s)
          | .ok text =>
            if h.isDir (destination.join relative) s then
              (.error (inTheWay (destination.join relative)), s)
            else
              (copyFrom h source destination fuel rest pending
                (written ++ [destination.join relative])).run
                (s.put (h.key (destination.join relative)) text) := by
  have hisDir : (h.storage.isDir entry).run s = (h.isDir entry s, s) := rfl
  rw [copyFrom, Staging.copyEntries, bind_assoc, StateT.run_bind, hisDir]
  cases hdir : h.isDir entry s with
  | true => rfl
  | false =>
      cases entry.stripPrefix? source with
      | none => rfl
      | some relative =>
          have hcopy := run_copyFile h s entry (destination.join relative)
          simp only [Bool.false_eq_true, if_false]
          show (((Staging.copyFile h.storage entry (destination.join relative) >>= _) >>= _).run
            s) = _
          rw [bind_assoc, StateT.run_bind, hcopy]
          cases h.read entry s with
          | error e => rfl
          | ok text =>
              cases h.isDir (destination.join relative) s with
              | true => rfl
              | false => rfl

end Steps

/-! ## Runs that succeed -/

/-- A run that succeeds, from some entries of a directory and some directories still to be entered:
how many directories it enters, and the files it writes one after the other. -/
inductive Copies (h : Handle) (source destination : Path) :
    Nat → List Path → List Path → Store → List Artifact → Prop
  | done (s : Store) : Copies h source destination 0 [] [] s []
  | enter {n : Nat} {dir : Path} {pending entries : List Path} {s : Store} {made : List Artifact}
    (hbelow : h.place source <+: h.place dir) (hl : h.list dir s = .ok entries)
    (hrest : Copies h source destination n entries pending s made) :
    Copies h source destination (n + 1) [] (dir :: pending) s made
  | directory {n : Nat} {entry : Path} {rest pending : List Path} {s : Store} {made : List Artifact}
    (hbelow : h.place source <+: h.place entry) (hdir : h.isDir entry s = true)
    (hrest : Copies h source destination n rest (entry :: pending) s made) :
    Copies h source destination n (entry :: rest) pending s made
  | file {n : Nat} {entry relative : Path} {text : String} {rest pending : List Path} {s : Store}
    {made : List Artifact} (hfile : h.isDir entry s = false)
    (hstrip : entry.stripPrefix? source = some relative)
    (hfollows : Follows h source destination entry (destination.join relative))
    (hread : h.read entry s = .ok text) (hfree : h.isDir (destination.join relative) s = false)
    (hrest : Copies h source destination n rest pending
      (s.put (h.key (destination.join relative)) text) made) :
    Copies h source destination n (entry :: rest) pending s
      (⟨destination.join relative, text⟩ :: made)

section Succeeding

variable {h : Handle} {source destination : Path}

/-- What a derivation says is what the run does, whenever it may enter enough directories. -/
theorem Copies.run_eq {n : Nat} {entries pending : List Path} {s : Store} {made : List Artifact}
    (hrun : Copies h source destination n entries pending s made) :
    ∀ {fuel : Nat}, n ≤ fuel → ∀ written : List Path,
      (copyFrom h source destination fuel entries pending written).run s =
        (.ok (written ++ made.map (·.path)), s.lay h made) := by
  induction hrun with
  | done s =>
      intro fuel _ written
      rw [run_copyFrom_nil, List.map_nil, List.append_nil]
      cases fuel with
      | zero => rfl
      | succ fuel => rfl
  | enter hbelow hl hrest ih =>
      intro fuel hle written
      obtain ⟨fuel, rfl⟩ := Nat.exists_eq_succ_of_ne_zero (show fuel ≠ 0 by omega)
      rw [run_copyFrom_nil, run_copyTree_cons, hl]
      exact ih (by omega) written
  | directory hbelow hdir hrest ih =>
      intro fuel hle written
      rw [run_copyFrom_cons, if_pos hdir]
      exact ih hle written
  | @file n entry relative text rest pending s made hfile hstrip hfollows hread hfree hrest ih =>
      intro fuel hle written
      rw [run_copyFrom_cons, hfile, if_neg (by decide), hstrip]
      dsimp only
      rw [hread]
      dsimp only
      rw [hfree, if_neg (by decide), ih hle, List.append_assoc]
      rfl

/-- Whether all entries stand in listings of directories at or below the source. -/
def AllListed (h : Handle) (s : Store) (source : Path) (entries : List Path) : Prop :=
  ∀ entry ∈ entries, ∃ dir, h.place source <+: h.place dir ∧ h.ListsEntry s dir entry

theorem AllListed.put {s : Store} {entries : List Path} (hlisted : AllListed h s source entries)
    (key : Path) (content : String) : AllListed h (s.put key content) source entries := by
  intro entry he
  obtain ⟨dir, hdir, hl⟩ := hlisted entry he
  exact ⟨dir, hdir, hl.of_kept fun place hheld => Store.holds_put.2 (.inr hheld)⟩

theorem exists_copies {all : List Path} {t : Store} : ∀ (fuel : Nat) (entries : List Path)
    {pending written : List Path} {s : Store}, AllListed h s source entries →
    (∀ dir ∈ pending, h.place source <+: h.place dir) →
    (copyFrom h source destination fuel entries pending written).run s = (.ok all, t) →
    ∃ n ≤ fuel, ∃ made, Copies h source destination n entries pending s made ∧
      all = written ++ made.map (·.path) ∧ t = s.lay h made
  | fuel, [], [], written, s, _, _, hrun => by
      rw [(Copies.done s).run_eq (Nat.zero_le fuel)] at hrun
      cases hrun
      exact ⟨0, Nat.zero_le fuel, [], .done s, rfl, rfl⟩
  | 0, [], dir :: pending, written, s, _, _, hrun => by
      rw [run_copyFrom_nil] at hrun
      cases hrun
  | fuel + 1, [], dir :: pending, written, s, _, hpending, hrun => by
      rw [run_copyFrom_nil, run_copyTree_cons] at hrun
      cases hl : h.list dir s with
      | error e =>
          rw [hl] at hrun
          cases hrun
      | ok entries =>
          rw [hl] at hrun
          obtain ⟨hbelow, hpending⟩ := List.forall_mem_cons.1 hpending
          have hlisted : AllListed h s source entries :=
            fun entry he => ⟨dir, hbelow, entries, hl, he⟩
          obtain ⟨n, hle, made, hcopies, hall, ht⟩ :=
            exists_copies fuel entries hlisted hpending hrun
          exact ⟨n + 1, by omega, made, .enter hbelow hl hcopies, hall, ht⟩
  | fuel, entry :: rest, pending, written, s, hlisted, hpending, hrun => by
      obtain ⟨⟨dir, hdir, hl⟩, hrest⟩ := List.forall_mem_cons.1 hlisted
      have hbelow := hdir.trans hl.place_prefix
      rw [run_copyFrom_cons] at hrun
      split at hrun
      · next hisDir =>
        have hpending : ∀ dir ∈ entry :: pending, h.place source <+: h.place dir :=
          List.forall_mem_cons.2 ⟨hbelow, hpending⟩
        obtain ⟨n, hle, made, hcopies, hall, ht⟩ := exists_copies fuel rest hrest hpending hrun
        exact ⟨n, hle, made, .directory hbelow hisDir hcopies, hall, ht⟩
      · next hfile =>
        rw [Bool.not_eq_true] at hfile
        split at hrun
        · cases hrun
        · next relative hstrip =>
          split at hrun
          · cases hrun
          · next text hread =>
            split at hrun
            · cases hrun
            · next hfree =>
              rw [Bool.not_eq_true] at hfree
              obtain ⟨n, hle, made, hcopies, hall, ht⟩ := exists_copies fuel rest
                (AllListed.put hrest _ text) hpending hrun
              refine ⟨n, hle, ⟨_, text⟩ :: made, .file hfile hstrip
                (hl.follows hdir hfile hstrip) hread hfree hcopies, ?_, ht⟩
              rw [hall, List.append_assoc]
              rfl

section Stage

variable {w : World Store} {root dest : Path} {limit : Nat} (hdir : h.isDir source w.store = true)

include hdir

/-- What a derivation says of a source is what staging it does. -/
theorem Copies.stage {n : Nat} {made : List Artifact}
    (hrun : Copies h source (root.join dest) n [] [source] w.store made) (hle : n ≤ limit) :
    answer (Staging.stage limit h.storage source root dest) w =
        .ok ⟨root.join dest, sort (made.map (·.path))⟩ ∧
      (after (Staging.stage limit h.storage source root dest) w).store = w.store.lay h made := by
  have hcopied := hrun.run_eq hle []
  rw [run_copyFrom_nil, List.nil_append] at hcopied
  obtain ⟨hanswer, hstore⟩ := stage_of_isDir hdir (congrArg Prod.fst hcopied)
  exact ⟨hanswer, hstore.trans (congrArg Prod.snd hcopied)⟩

/-- Staging a directory succeeds by a derivation. -/
theorem exists_copies_of_stage {result : StageResult}
    (hok : answer (Staging.stage limit h.storage source root dest) w = .ok result) :
    ∃ n ≤ limit, ∃ made, Copies h source (root.join dest) n [] [source] w.store made ∧
      result = ⟨root.join dest, sort (made.map (·.path))⟩ := by
  rw [(stage_eq_of_isDir hdir).1] at hok
  cases hcopied : (Staging.copyTree h.storage source (root.join dest) limit [source] []).run
    w.store with
  | mk copied t =>
      have hanswer : answer (Staging.copyTree h.storage source (root.join dest) limit [source] [])
          w.store = copied := congrArg Prod.fst hcopied
      rw [hanswer] at hok
      cases copied with
      | error e => cases hok
      | ok all =>
          cases hok
          rw [← run_copyFrom_nil] at hcopied
          obtain ⟨n, hle, made, hrun, rfl, -⟩ := exists_copies limit []
            (fun _ he => absurd he List.not_mem_nil)
            (List.forall_mem_singleton.2 (List.prefix_refl _)) hcopied
          exact ⟨n, hle, made, hrun, rfl⟩

end Stage

end Succeeding

end CompileWatch.Memory
