import CompileWatch.Proofs.Effect
import CompileWatch.Proofs.Storage.Making

/-!
# Writes that happen completely or not at all

A write first makes what is missing of the directory of its path. From there on it
either leaves every item as it is, whichever of its steps fails, or it changes one
entry, the one that the path names, to a file with the new content
(`write_all_or_nothing`). A link that the path names is replaced, and what it led to
stays.

What was written is read back, with one exception. If the entry is a link and the
names before it lead to their directory through that very link, then they lead
nowhere once a file is in its place.
-/

namespace CompileWatch.Disk

variable {t done : Tree} {path : Path} {dir : Position} {name : String}

/-! ## Replacing a file -/

/-- Whether a tree came out of another by putting a file into the place of what a path names there,
which is no directory. -/
structure Replaced (path : Path) (content : String) (dir : Position) (name : String)
    (t done : Tree) : Prop where
  names : Names t.layout path dir name
  slash : endsInSlash path.text = false
  free : t.layout (dir ++ [name]) ≠ some .directory
  filled : ∃ time, done.look (dir ++ [name]) = some (.file content.toUTF8 time)
  kept : ∀ place, place ≠ dir ++ [name] → done.look place = t.look place

theorem of_rename {target : Path} (h : rename dir name target t = .ok done) :
    ∃ (spot : Spot) (last : String) (node : Node),
      locateTarget t target = .ok ⟨spot, some last, false⟩ ∧
        t.root.nodeAt? (dir ++ [name]) = some node ∧
        t.layout (spot.position ++ [last]) ≠ some .directory ∧
        done = (t.erase dir name).put spot.position last node := by
  unfold rename at h
  dsimp only at h
  split at h
  · cases h
  · obtain ⟨⟨spot, last?, slash⟩, htarget, h⟩ := of_bind_eq_ok h
    dsimp only at h
    split at h
    · cases h
    · cases h
    · next last node hnode =>
      split at h
      · cases h
      · next hslash =>
        split at h
        · cases h
        · next hchild =>
          cases h
          rw [Bool.not_eq_true] at hslash
          subst hslash
          refine ⟨spot, last, node, htarget, hnode, fun hlayout => ?_, rfl⟩
          rw [(names_of_locateTarget htarget).1.layout_child] at hlayout
          obtain ⟨child, hc, hshape⟩ := Option.map_eq_some_iff.1 hlayout
          obtain ⟨nodes, rfl⟩ := Node.item_eq_directory.1 (Item.shape_eq_directory.1 hshape)
          exact hchild nodes hc

section Fresh

variable {built : Tree} {above : Position} {fresh : String}

/-- A file that is added is on no way to a directory. -/
theorem Names.of_added (hfresh : fresh ≠ "/") (hfree : t.look (above ++ [fresh]) = none)
    (hfile : built.layout (above ++ [fresh]) = some .file)
    (hkept : ∀ place, place ≠ above ++ [fresh] → built.look place = t.look place)
    (hn : Names built.layout path dir name) : Names t.layout path dir name := by
  have hwithout : built.layout.without (above ++ [fresh]) = t.layout := by
    funext place
    unfold Layout.without
    split
    · next heq => rw [heq, Tree.layout, hfree]; rfl
    · next hne => rw [Tree.layout, hkept place hne]; rfl
  have hhome : homeOn t.layout = homeOn built.layout := homeOn_eq hfresh fun place hplace => by
    rw [← hwithout, Layout.without_of_ne hplace]
  have hdir : dir ≠ above ++ [fresh] := by
    rintro rfl
    have hdirectory := hn.directory
    rw [hfile] at hdirectory
    cases hdirectory
  refine ⟨hn.text, hn.last, hn.entry, ?_, ?_⟩
  · rw [hhome, ← hwithout]
    refine (hn.route.without hn.directory (by rw [hfile]; simp)).resolve_right ?_
    rintro ⟨⟨target, hlink⟩, -⟩
    rw [hfile] at hlink
    cases hlink
  · rw [← hwithout, Layout.without_of_ne hdir, hn.directory]

end Fresh

/-- The place of the fresh file of a directory. -/
def freshPlace (spot : Spot) : Position := spot.position ++ [freshName spot.here.entries]

/-- A tree with a fresh file in a directory. -/
def withFresh (t : Tree) (spot : Spot) (bytes : ByteArray) (time : Timestamp) : Tree :=
  t.put spot.position (freshName spot.here.entries) (.file bytes time)

section WithFresh

variable {spot : Spot} (bytes : ByteArray) (time : Timestamp) (hspot : spot.StandsIn t)
  (hnodes : ∃ nodes, spot.here = .directory nodes)

include hspot hnodes

theorem look_withFresh (place : Position) : (withFresh t spot bytes time).look place =
    if place = freshPlace spot then some (.file bytes time) else t.look place := by
  obtain ⟨nodes, hnodes⟩ := hnodes
  refine look_put ?_ ?_ rfl place
  · rw [hspot.layout, hnodes]
    rfl
  · rw [Tree.layout, look_freshName hspot]
    simp

theorem layout_withFresh : (withFresh t spot bytes time).layout (freshPlace spot) = some .file := by
  rw [Tree.layout, look_withFresh bytes time hspot hnodes, if_pos rfl]
  rfl

/-- Without its fresh file a tree looks as before. -/
theorem look_erase_withFresh :
    ((withFresh t spot bytes time).erase spot.position (freshName spot.here.entries)).look =
      t.look := by
  have hlook := look_withFresh bytes time hspot hnodes
  have hdir : (withFresh t spot bytes time).layout spot.position = some .directory := by
    obtain ⟨nodes, hnodes⟩ := hnodes
    rw [Tree.layout, hlook, if_neg (by simp [freshPlace]), hspot.look, hnodes]
    rfl
  have hfile := layout_withFresh bytes time hspot hnodes
  rw [freshPlace] at hfile
  funext place
  rw [look_erase hdir (by rw [hfile]; simp)]
  split
  · next heq => rw [heq, look_freshName hspot]
  · next hne => exact (hlook place).trans (if_neg hne)

end WithFresh

section Replacing

variable {spot : Spot} {time : Timestamp} {content : String}
  {refused : WriteStep → Option SystemError} (hspot : spot.StandsIn t)
  (hnodes : ∃ nodes, spot.here = .directory nodes)

include hspot hnodes

theorem replaced_of_rename
    (h : rename spot.position (freshName spot.here.entries) path
      (withFresh t spot content.toUTF8 time) = .ok done) :
    ∃ dir name, Replaced path content dir name t done := by
  obtain ⟨target, last, node, htarget, hnode, hfree, rfl⟩ := of_rename h
  obtain ⟨-, hnames, hslash⟩ := names_of_locateTarget htarget
  have hlook := look_withFresh content.toUTF8 time hspot hnodes
  have herased := look_erase_withFresh content.toUTF8 time hspot hnodes
  obtain rfl : node = .file content.toUTF8 time := by
    have hitem := hlook (freshPlace spot)
    rw [if_pos rfl, Tree.look, Node.look, freshPlace, hnode] at hitem
    cases node with
    | file bytes time => cases hitem; rfl
    | directory nodes => cases hitem
    | link target => cases hitem
  have hnames : Names t.layout path target.position last :=
    hnames.of_added (fun heq => absurd (heq ▸ isStep_freshName spot.here.entries) (by decide))
      (look_freshName hspot) (layout_withFresh content.toUTF8 time hspot hnodes)
      fun place hplace => (hlook place).trans (if_neg hplace)
  have hfree : t.layout (target.position ++ [last]) ≠ some .directory := by
    by_cases heq : target.position ++ [last] = freshPlace spot
    · rw [heq, Tree.layout, freshPlace, look_freshName hspot]
      simp
    · rwa [Tree.layout, hlook, if_neg heq] at hfree
  have hput : ∀ place, (((withFresh t spot content.toUTF8 time).erase spot.position
      (freshName spot.here.entries)).put target.position last (.file content.toUTF8 time)).look
        place = if place = target.position ++ [last] then some (.file content.toUTF8 time)
          else t.look place := by
    intro place
    rw [look_put (by rw [Tree.layout, herased]; exact hnames.directory)
      (by rw [Tree.layout, herased]; exact hfree) rfl, herased]
    rfl
  exact ⟨_, _, hnames, hslash, hfree, ⟨time, (hput _).trans (if_pos rfl)⟩,
    fun place hplace => (hput place).trans (if_neg hplace)⟩

theorem look_of_replaceFrom_error {e : SystemError}
    (h : replaceFrom refused spot path content t = (.error e, done)) : done.look = t.look := by
  unfold replaceFrom at h
  dsimp only at h
  split at h
  · cases h
  · cases h
    exact look_erase_withFresh (t := { t with clock := t.clock + 1 }) _ _ hspot hnodes

theorem replaced_of_replaceFrom (h : replaceFrom refused spot path content t = (.ok (), done)) :
    ∃ dir name, Replaced path content dir name t done := by
  unfold replaceFrom at h
  dsimp only at h
  split at h
  · next moved hmoved =>
    cases h
    split at hmoved
    · cases hmoved
    · obtain ⟨dir, name, hreplaced⟩ :=
        replaced_of_rename (t := { t with clock := t.clock + 1 }) hspot hnodes hmoved
      exact ⟨dir, name, hreplaced.names, hreplaced.slash, hreplaced.free, hreplaced.filled,
        hreplaced.kept⟩
  · cases h

end Replacing

/-! ## Reading back -/

theorem fromUTF8?_toUTF8 (text : String) : String.fromUTF8? text.toUTF8 = some text := by
  have hvalid : text.toUTF8.IsValidUTF8 := text.isValidUTF8
  rw [String.fromUTF8?, dif_pos hvalid]
  rfl

namespace Replaced

variable {content : String} (hr : Replaced path content dir name t done)

include hr

theorem layout_kept {place : Position} (hplace : place ≠ dir ++ [name]) :
    done.layout place = t.layout place := by
  rw [Tree.layout, hr.kept place hplace]
  rfl

theorem layout_filled : done.layout (dir ++ [name]) = some .file := by
  obtain ⟨time, hfilled⟩ := hr.filled
  rw [Tree.layout, hfilled]
  rfl

theorem homeOn_without : homeOn (t.layout.without (dir ++ [name])) = homeOn t.layout :=
  homeOn_eq hr.names.ne_slash fun _ => Layout.without_of_ne

theorem homeOn_done : homeOn done.layout = homeOn t.layout :=
  homeOn_eq hr.names.ne_slash fun _ => hr.layout_kept

/-- The names before the last lead to their directory without its entry, or there was a link. -/
theorem names_without_or : Names (t.layout.without (dir ++ [name])) path dir name ∨
    (∃ target, t.layout (dir ++ [name]) = some (.link target)) ∧
      ∀ place, ¬ Leads done.layout true path place := by
  rcases hr.names.route.without hr.names.directory hr.free with hroute | ⟨hlink, hcut⟩
  · refine .inl ⟨hr.names.text, hr.names.last, hr.names.entry, hr.homeOn_without ▸ hroute, ?_⟩
    exact (Layout.without_of_ne (by simp)).trans hr.names.directory
  · refine .inr ⟨hlink, fun place hleads => ?_⟩
    have hroute := hleads.2
    rw [hr.homeOn_done, steps, hr.slash, if_neg (by decide), hr.names.pieces_eq] at hroute
    exact hcut done.layout (fun _ => hr.layout_kept) hr.layout_filled true [name] place (by simp)
      hroute

theorem read_of_names_without (hn : Names (t.layout.without (dir ++ [name])) path dir name) :
    read done path = .ok content := by
  have hnames : Names done.layout path dir name := by
    refine hn.mono (fun place shape hshape => ?_) (hr.homeOn_done.trans hr.homeOn_without.symm)
    by_cases heq : place = dir ++ [name]
    · rw [Layout.without, if_pos heq] at hshape
      cases hshape
    · rw [Layout.without_of_ne heq] at hshape
      rw [hr.layout_kept heq, hshape]
  obtain ⟨time, hfilled⟩ := hr.filled
  exact read_eq_ok_iff.2 ⟨_, _, time, hnames.leads_file hr.layout_filled hr.slash, hfilled,
    fromUTF8?_toUTF8 content⟩

/-- What was written is read back if the way to the directory does not pass through the entry. -/
theorem read_iff :
    read done path = .ok content ↔ Names (t.layout.without (dir ++ [name])) path dir name := by
  refine ⟨fun hread => ?_, hr.read_of_names_without⟩
  refine hr.names_without_or.resolve_right fun ⟨_, hlost⟩ => ?_
  obtain ⟨place, _, _, hleads, _⟩ := read_eq_ok_iff.1 hread
  exact hlost place hleads

theorem read_of_no_link (hlink : ∀ target, t.layout (dir ++ [name]) ≠ some (.link target)) :
    read done path = .ok content := by
  refine hr.read_of_names_without (hr.names_without_or.resolve_right ?_)
  rintro ⟨⟨target, htarget⟩, _⟩
  exact hlink target htarget

end Replaced

/-! ## Writing -/

theorem prepared_enterDirectory (refused : WriteStep → Option SystemError) (path : Path)
    (t : Tree) : Prepared path t (enterDirectory refused path t).2 := by
  unfold enterDirectory
  split
  · exact .refl path t
  · exact prepared_makeDirectories path t

theorem of_enterDirectory {refused : WriteStep → Option SystemError} {spot : Spot} {made : Tree}
    (h : enterDirectory refused path t = (.ok spot, made)) :
    spot.StandsIn made ∧ ∃ nodes, spot.here = .directory nodes := by
  unfold enterDirectory at h
  split at h
  · cases h
  · obtain ⟨hentered, rfl⟩ := Prod.mk.inj h
    obtain ⟨_, -, hentered⟩ := of_bind_eq_ok hentered
    obtain ⟨found, hlocate, hentered⟩ := of_bind_eq_ok hentered
    split at hentered
    · next nodes hhere =>
      cases hentered
      exact ⟨(roams_standing _).locate hlocate, nodes, hhere⟩
    · cases hentered

/-- A write fails with the tree as it was prepared, or it replaces what its path names. -/
theorem of_writeUnless {refused : WriteStep → Option SystemError} {content : String}
    {result : Except FsError Unit} (h : writeUnless refused path content t = (result, done)) :
    ∃ prepared, Prepared path.directory t prepared ∧
      ((∃ e, result = .error e ∧ done.look = prepared.look) ∨
        (result = .ok () ∧ ∃ dir name, Replaced path content dir name prepared done)) := by
  have hprepared := prepared_enterDirectory refused path.directory t
  refine ⟨_, hprepared, ?_⟩
  unfold writeUnless at h
  dsimp only at h
  split at h
  · next e prepared hentered =>
    cases h
    exact .inl ⟨_, rfl, by rw [hentered]⟩
  · next spot prepared hentered =>
    obtain ⟨hspot, hnodes⟩ := of_enterDirectory hentered
    rw [hentered]
    split at h
    · cases h
      exact .inl ⟨_, rfl, rfl⟩
    · cases hreplace : replaceFrom refused spot path content prepared with
      | mk replaced last =>
        rw [hreplace] at h
        cases h
        cases replaced with
        | error e => exact .inl ⟨_, rfl, look_of_replaceFrom_error hspot hnodes hreplace⟩
        | ok u => exact .inr ⟨rfl, replaced_of_replaceFrom hspot hnodes hreplace⟩

/-- A write happens completely or not at all, whichever of its steps the system refuses. Apart from
missing directories above its path, which it may have made, it changes nothing if it fails. If it
succeeds, the entry that the path names is a file with the content, also if it was a link before,
and nothing else has changed. The content is then read back just if the names before the last one
lead to their directory without that entry, and they do unless it was a link. -/
theorem write_all_or_nothing (refused : WriteStep → Option SystemError) (path : Path)
    (content : String) (t : Tree) :
    let done := after (writeUnless refused path content) t
    ∃ prepared, Prepared path.directory t prepared ∧
      match answer (writeUnless refused path content) t with
      | .error _ => done.look = prepared.look
      | .ok () => ∃ dir name, Replaced path content dir name prepared done ∧
          (read done path = .ok content ↔
            Names (prepared.layout.without (dir ++ [name])) path dir name) ∧
          ((∀ target, prepared.layout (dir ++ [name]) ≠ some (.link target)) →
            read done path = .ok content) := by
  intro done
  have hwrite : writeUnless refused path content t =
      (answer (writeUnless refused path content) t, done) := rfl
  obtain ⟨prepared, hprepared, hcase⟩ := of_writeUnless hwrite
  refine ⟨prepared, hprepared, ?_⟩
  rcases hcase with ⟨e, hanswer, hlook⟩ | ⟨hanswer, dir, name, hreplaced⟩
  · rw [hanswer]
    exact hlook
  · rw [hanswer]
    exact ⟨dir, name, hreplaced, hreplaced.read_iff, hreplaced.read_of_no_link⟩

/-! ## A link to its own directory -/

theorem startOf_relative {text : String} {spot : Spot} (h : text.startsWith "/" = false) :
    startOf t text spot = spot := if_neg (Bool.eq_false_iff.1 h)

/-- A path names its last name in the directory to which the names before lead. -/
theorem locateTarget_eq {t : Tree} {path : Path} {dir : Spot} {entries : Entries} {last : String}
    (hcheck : checkText path.text = .ok ()) (hlast : (pieces path.text).getLast? = some last)
    (hwalk : walk t true linkLimit (startOf t path.text t.home) (pieces path.text).dropLast = .ok dir)
    (hdir : dir.here = .directory entries) (hname : (last = "." || last = "..") = false)
    (hshort : ¬ nameLimit < last.utf8ByteSize) :
    locateTarget t path = .ok ⟨dir, some last, endsInSlash path.text⟩ := by
  unfold locateTarget
  simp only [hcheck, hlast, hwalk, hdir, hname, hshort, bind, Except.bind, if_false,
    Bool.false_eq_true]

/-- A working directory with a link to itself. -/
def selfLinked : Tree := Tree.empty.put homePosition "l" (.link ".")

/-- A link to its own directory leads there. -/
theorem walk_own_link {t : Tree} {spot : Spot} (hdown : t.home.down? "l" = some spot)
    (hlink : spot.here = .link ".") : walk t true linkLimit t.home ["l"] = .ok t.home := by
  have hsteps : steps "." = ["."] := by decide +kernel
  rw [walk, if_neg (by decide), if_neg (by decide), if_neg (by decide +kernel), hdown]
  simp only [hlink]
  show walk t true 39 (startOf t "." t.home) (steps "." ++ []) = _
  rw [startOf_relative (by decide +kernel), hsteps, List.append_nil, walk, if_pos rfl, walk]

theorem locate_selfLinked : locate selfLinked ⟨"l"⟩ = .ok selfLinked.home := by
  have hsteps : steps "l" = ["l"] := by decide +kernel
  have hcheck : checkText "l" = .ok () := by decide +kernel
  unfold locate
  rw [hcheck, hsteps, startOf_relative (by decide +kernel)]
  exact walk_own_link rfl rfl

theorem makeDirectories_selfLinked : makeDirectories ⟨"l"⟩ selfLinked = (.ok (), selfLinked) := by
  have hpieces : pieces "l" = ["l"] := by decide +kernel
  have htarget : locateTarget selfLinked ⟨"l"⟩ = .ok ⟨selfLinked.home, some "l", endsInSlash "l"⟩ := by
    refine locateTarget_eq (by decide +kernel) (by rw [hpieces]; rfl) ?_ rfl (by decide) (by decide +kernel)
    rw [hpieces, startOf_relative (by decide +kernel)]
    exact walk.eq_1 ..
  have hmake : makeDirectory ⟨"l"⟩ selfLinked = .error .alreadyExists := by
    unfold makeDirectory
    rw [htarget]
    rfl
  have hdir : isDir selfLinked ⟨"l"⟩ = true := by
    unfold isDir
    rw [locate_selfLinked]
    rfl
  unfold makeDirectories makeMissing
  rw [hmake, if_neg (by decide +kernel)]
  dsimp only
  rw [hdir, if_pos rfl]

theorem enterDirectory_selfLinked :
    enterDirectory (fun _ => none) ⟨"l"⟩ selfLinked = (.ok selfLinked.home, selfLinked) := by
  unfold enterDirectory
  dsimp only
  rw [makeDirectories_selfLinked]
  dsimp only
  rw [locate_selfLinked]
  rfl

/-- What is left when a file has taken the place of the link. -/
def unlinked : Tree := ⟨(Tree.empty.put homePosition "l" (.file "c".toUTF8 1)).root, 1⟩

theorem replaceFrom_selfLinked :
    replaceFrom (fun _ => none) selfLinked.home ⟨"l/l"⟩ "c" selfLinked = (.ok (), unlinked) := by
  have hfresh : freshName selfLinked.home.here.entries = ".tmp0" := by decide +kernel
  have hpieces : pieces "l/l" = ["l", "l"] := by decide +kernel
  have hslash : endsInSlash "l/l" = false := by decide +kernel
  let built : Tree := Tree.put ⟨selfLinked.root, 1⟩ homePosition ".tmp0" (.file "c".toUTF8 1)
  have htarget : locateTarget built ⟨"l/l"⟩ = .ok ⟨built.home, some "l", false⟩ := by
    rw [← hslash]
    refine locateTarget_eq (by decide +kernel) (by rw [hpieces]; rfl) ?_ rfl (by decide)
      (by decide +kernel)
    rw [hpieces, startOf_relative (by decide +kernel)]
    exact walk_own_link rfl rfl
  have hrename : rename homePosition ".tmp0" ⟨"l/l"⟩ built = .ok unlinked := by
    unfold rename
    rw [htarget, if_neg (by decide +kernel)]
    rfl
  unfold replaceFrom
  rw [hfresh]
  dsimp only
  split
  · next done hmoved =>
    have hdone : rename homePosition ".tmp0" ⟨"l/l"⟩ built = .ok done := hmoved
    cases hdone.symm.trans hrename
    rfl
  · next e hmoved =>
    have herror : rename homePosition ".tmp0" ⟨"l/l"⟩ built = .error e := hmoved
    cases herror.symm.trans hrename

/-- The way to the directory of the path passes through the link that the write replaces. -/
theorem written_through_own_link :
    answer (write ⟨"l/l"⟩ "c") selfLinked = .ok () ∧
      read (after (write ⟨"l/l"⟩ "c") selfLinked) ⟨"l/l"⟩ =
        .error (SystemError.notDirectory.about ⟨"l/l"⟩) := by
  have hdir : Path.directory ⟨"l/l"⟩ = ⟨"l"⟩ := by decide +kernel
  have hwrite : (write ⟨"l/l"⟩ "c").run selfLinked = (.ok (), unlinked) := by
    show writeUnless _ _ _ _ = _
    unfold writeUnless
    dsimp only
    rw [hdir, enterDirectory_selfLinked]
    dsimp only
    rw [replaceFrom_selfLinked]
    rfl
  refine ⟨congrArg Prod.fst hwrite, ?_⟩
  show read ((write ⟨"l/l"⟩ "c").run selfLinked).2 _ = _
  rw [hwrite]
  have hlocate : locate unlinked ⟨"l/l"⟩ = .error .notDirectory := by
    have hsteps : steps "l/l" = ["l", "l"] := by decide +kernel
    have hcheck : checkText "l/l" = .ok () := by decide +kernel
    unfold locate
    rw [hcheck, hsteps, startOf_relative (by decide +kernel)]
    show walk unlinked true linkLimit unlinked.home ["l", "l"] = _
    rw [walk, if_neg (by decide), if_neg (by decide), if_neg (by decide +kernel)]
    rfl
  unfold read
  rw [hlocate]

end CompileWatch.Disk
