import CompileWatch.Proofs.Staging.Runs
import Mathlib.Data.List.MinMax

/-!
# Staging twice

Whether a second run does again what the first one did depends on what the first
one has left below the source. As long as nothing below the source has another text
than before, the second run meets the same files, and what it writes is there already
(`Copies.again`). That is so if no copy came to lie below the source, and also if the
source is its own destination.

A destination strictly below the source is different: the copies are files below the
source themselves, so the next run copies the copies. The longest path that a run has
written leads the next one to a longer path (`Copies.exists_longer`), and so no run
over such a source is ever repeated (`staged_again`, `staged_copies_are_staged`).
-/

namespace CompileWatch.Memory

open CompileWatch.Path

variable {h : Handle} {s t u : Store} {source destination path : Path} {n : Nat}
  {entries pending : List Path} {made : List Artifact}

/-- What lies on the way to a place has its components for its place. -/
theorem place_of_leading {cs : List Component} (hp : cs <+: h.place path) :
    h.place (ofComponents cs) = cs := by
  have hcomponents : (ofComponents cs).components = cs :=
    components_ofComponents (Spelled.of_prefix (spelled_components (h.key path)) hp)
  have hsettled : ∀ c ∈ (ofComponents cs).components, h.Settled c :=
    fun c hc => settled_of_mem_place (hp.subset (hcomponents ▸ hc))
  exact (same_iff.1 (same_key_iff.2 hsettled)).trans hcomponents

/-! ## The same texts below a place -/

/-- Whether two stores have the same texts at a place and below. -/
def AlikeBelow (above : List Component) (s t : Store) : Prop :=
  ∀ key : Path, above <+: key.components → t.text? key = s.text? key

theorem Store.holds_iff_text? {key : Path} : s.Holds key.components ↔ (s.text? key).isSome := by
  rw [holds_iff, text?, Option.isSome_map]
  rfl

theorem Store.text?_congr {p q : Path} (hpq : p.components = q.components) :
    s.text? p = s.text? q := by
  rw [text?, text?, Table.find?_congr _ (same_iff.2 hpq)]

theorem read_eq_iff :
    h.read path t = h.read path s ↔ t.text? (h.key path) = s.text? (h.key path) := by
  have hread : ∀ v : Store, h.read path v =
      (v.text? (h.key path)).elim (.error (.notFound path)) .ok := by
    intro v
    unfold Handle.read Store.text?
    cases v.files.find? (h.key path) with
    | none => rfl
    | some file => rfl
  rw [hread, hread]
  cases t.text? (h.key path) with
  | none => cases s.text? (h.key path) <;> simp
  | some text => cases s.text? (h.key path) <;> simp

theorem isDir_put_eq_false {key : Path} {content : String} :
    h.isDir path (s.put key content) = false ↔
      h.isDir path s = false ∧ ¬ Below (h.place path) key.components := by
  rw [← Bool.not_eq_true, ← Bool.not_eq_true, ← not_or, not_iff_not, Handle.isDir_iff,
    Handle.isDir_iff]
  constructor
  · intro ⟨file, hheld, hbelow⟩
    rcases Store.holds_put.1 hheld with rfl | hheld
    · exact .inr hbelow
    · exact .inl ⟨file, hheld, hbelow⟩
  · intro hdir
    rcases hdir with ⟨file, hheld, hbelow⟩ | hbelow
    · exact ⟨file, Store.holds_put.2 (.inr hheld), hbelow⟩
    · exact ⟨_, Store.holds_put.2 (.inl rfl), hbelow⟩

theorem Store.holds_lay {place : List Component} : (s.lay h made).Holds place ↔
    s.Holds place ∨ ∃ a ∈ made, place = h.place a.path := by
  induction made generalizing s with
  | nil => simp [Store.lay]
  | cons a rest ih =>
      show ((s.put (h.key a.path) a.content).lay h rest).Holds place ↔ _
      rw [ih, Store.holds_put, List.exists_mem_cons_iff]
      exact or_assoc.trans or_left_comm

theorem isDir_lay_eq_false : h.isDir path (s.lay h made) = false ↔
    h.isDir path s = false ∧ ∀ a ∈ made, ¬ Below (h.place path) (h.place a.path) := by
  induction made generalizing s with
  | nil => simp [Store.lay]
  | cons a rest ih =>
      show h.isDir path ((s.put (h.key a.path) a.content).lay h rest) = false ↔ _
      rw [ih, isDir_put_eq_false, List.forall_mem_cons, and_assoc]
      rfl

namespace AlikeBelow

variable {above : List Component}

theorem refl (above : List Component) (s : Store) : AlikeBelow above s s := fun _ _ => rfl

theorem trans (hst : AlikeBelow above s t) (htu : AlikeBelow above t u) : AlikeBelow above s u :=
  fun key hkey => (htu key hkey).trans (hst key hkey)

theorem put (hst : AlikeBelow above s t) (key : Path) (content : String) :
    AlikeBelow above (s.put key content) (t.put key content) := by
  intro other hother
  rw [Store.text?_put, Store.text?_put, hst other hother]

theorem put_elsewhere {key : Path} (hkey : ¬ above <+: key.components) (content : String) :
    AlikeBelow above s (s.put key content) := by
  intro other hother
  have hne : ¬ key.same other = true := fun hsame => hkey (same_iff.1 hsame ▸ hother)
  rw [Store.text?_put, if_neg hne]

theorem put_again {key : Path} {content : String} (htext : s.text? key = some content) :
    AlikeBelow above s (s.put key content) := by
  intro other _
  rw [Store.text?_put]
  split
  · next hsame => rw [← Store.text?_congr (same_iff.1 hsame), htext]
  · rfl

variable (hst : AlikeBelow above s t)

include hst

theorem holds_iff {place : List Component} (hp : above <+: place) :
    t.Holds place ↔ s.Holds place := by
  have hkeyed : ∀ {v v' : Store}, (∀ key : Path, above <+: key.components →
      v'.text? key = v.text? key) → v.Holds place → v'.Holds place := by
    intro v v' hsame hv
    obtain ⟨k, hk, rfl⟩ := hv
    rw [Store.holds_iff_text?, hsame k hp, ← Store.holds_iff_text?]
    exact ⟨k, hk, rfl⟩
  exact ⟨hkeyed fun key hkey => (hst key hkey).symm, hkeyed hst⟩

variable (hpath : above <+: h.place path)

include hpath

theorem isDir_eq : h.isDir path t = h.isDir path s := by
  rw [Bool.eq_iff_iff, Handle.isDir_iff, Handle.isDir_iff]
  refine exists_congr fun file => and_congr_left fun hbelow => ?_
  exact hst.holds_iff (hpath.trans (below_iff.1 hbelow).1)

theorem list_eq : h.list path t = h.list path s := by
  have hnames : t.childNames (h.key path) = s.childNames (h.key path) :=
    Store.childNames_congr fun place hbelow =>
      hst.holds_iff (hpath.trans (below_iff.1 hbelow).1)
  unfold Handle.list Store.children
  rw [hnames]

theorem read_eq : h.read path t = h.read path s := read_eq_iff.2 (hst _ hpath)

end AlikeBelow

theorem laid_of_not_key {key : Path} (hkey : ¬ (h.key key).same key = true) :
    laid h key made = none := by
  induction made with
  | nil => rfl
  | cons a rest ih =>
      have hne : ¬ (h.key a.path).same key = true := by
        intro hsame
        refine hkey (same_key_iff.2 fun c hc => ?_)
        rw [← same_iff.1 hsame] at hc
        exact settled_of_mem_key hc
      rw [laid, ih, if_neg hne, Option.none_or]

/-- Whether the texts of all files at and below a path are as they were, as far as a handle can
tell. -/
def KeepsTexts (h : Handle) (path : Path) (s t : Store) : Prop :=
  ∀ file, h.place path <+: h.place file → h.read file t = h.read file s

/-- What is written through a handle can be told through it. -/
theorem KeepsTexts.alike (hkept : KeepsTexts h path s (s.lay h made)) :
    AlikeBelow (h.place path) s (s.lay h made) := by
  intro key hkey
  by_cases hsame : (h.key key).same key = true
  · have hplace : h.place key = key.components := same_iff.1 hsame
    have htext := read_eq_iff.1 (hkept key (hplace.symm ▸ hkey))
    rwa [Store.text?_congr hplace, Store.text?_congr hplace] at htext
  · rw [Store.text?_lay, laid_of_not_key hsame, Option.none_or]

/-! ## Copies that leave the source as it is -/

/-- Whether files copied to a destination come to lie outside the source, or the source is copied to
itself. -/
def SparesSource (h : Handle) (source destination : Path) (made : List Artifact) : Prop :=
  h.place source = h.place destination ∨ ∀ a ∈ made, ¬ h.place source <+: h.place a.path

theorem SparesSource.tail {a : Artifact} (hspares : SparesSource h source destination (a :: made)) :
    SparesSource h source destination made :=
  hspares.imp_right fun hout b hb => hout b (List.mem_cons_of_mem a hb)

/-- One copy: below the source it can only be a file that is copied to itself. -/
theorem SparesSource.alike_put {file target : Path} {text : String}
    (hspares : SparesSource h source destination (⟨target, text⟩ :: made))
    (hfollows : Follows h source destination file target) (hread : h.read file s = .ok text) :
    AlikeBelow (h.place source) s (s.put (h.key target) text) := by
  rcases hspares with hself | hout
  · have hplace : h.place target = h.place file := by
      obtain ⟨way, hfile, htarget⟩ := hfollows.way
      rcases htarget with htarget | ⟨-, rfl⟩
      · rw [htarget, hfile, hself]
      · rfl
    refine .put_again ?_
    rw [Store.text?_congr hplace]
    exact read_eq_ok_iff.1 hread
  · exact .put_elsewhere (hout _ List.mem_cons_self) text

namespace Copies

/-- No file is written in the place of a directory that was there at first. -/
theorem isDir_eq_false (hrun : Copies h source destination n entries pending s made) :
    ∀ a ∈ made, h.isDir a.path s = false := by
  induction hrun with
  | done s => exact List.forall_mem_nil _
  | enter _ _ _ ih => exact ih
  | directory _ _ _ ih => exact ih
  | @file n entry relative text rest pending s made _ _ _ _ hfree _ ih =>
      exact List.forall_mem_cons.2 ⟨hfree, fun a ha => (isDir_put_eq_false.1 (ih a ha)).1⟩

theorem alike_lay (hrun : Copies h source destination n entries pending s made)
    (hspares : SparesSource h source destination made) :
    AlikeBelow (h.place source) s (s.lay h made) := by
  induction hrun with
  | done s => exact .refl _ s
  | enter _ _ _ ih => exact ih hspares
  | directory _ _ _ ih => exact ih hspares
  | file _ _ hfollows hread _ _ ih =>
      exact (hspares.alike_put hfollows hread).trans (ih hspares.tail)

/-! ## Runs that are repeated -/

/-- What is written comes from files that the run has met, and that were no directories at first. -/
theorem exists_way (hrun : Copies h source destination n entries pending s made) :
    ∀ a ∈ made, ∃ way, (h.place a.path = h.place destination ++ way ∨ h.place source = []) ∧
      (s.lay h made).Holds (h.place source ++ way) ∧
        ∀ place, s.Holds place → ¬ Below (h.place source ++ way) place := by
  induction hrun with
  | done s => exact List.forall_mem_nil _
  | enter _ _ _ ih => exact ih
  | directory _ _ _ ih => exact ih
  | @file n entry relative text rest pending s made hfile _ hfollows hread _ _ ih =>
      refine List.forall_mem_cons.2 ⟨?_, fun a ha => ?_⟩
      · obtain ⟨way, hentry, htarget⟩ := hfollows.way
        refine ⟨way, htarget.imp_right And.left, ?_, fun place hheld hbelow => ?_⟩
        · rw [← hentry, h.place_eq]
          exact Store.holds_lay.2 (.inl (Handle.exists_read_iff.1 ⟨text, hread⟩))
        · rw [← hentry] at hbelow
          rw [Handle.isDir_iff.2 ⟨place, hheld, hbelow⟩] at hfile
          cases hfile
      · obtain ⟨way, hplace, hheld, hleaf⟩ := ih a ha
        exact ⟨way, hplace, hheld, fun place hheld => hleaf place (Store.holds_put.2 (.inr hheld))⟩

/-- Of two files that are written, none lies below the other, if nothing new came to lie below the
source. -/
theorem not_below (hrun : Copies h source destination n entries pending s made)
    (halike : AlikeBelow (h.place source) s (s.lay h made)) :
    ∀ a ∈ made, ∀ b ∈ made, ¬ Below (h.place a.path) (h.place b.path) := by
  intro a ha b hb hbelow
  obtain ⟨way, hplace, -, hleaf⟩ := hrun.exists_way a ha
  obtain ⟨way', hplace', hheld', -⟩ := hrun.exists_way b hb
  by_cases hsource : h.place source = []
  · -- all files lie below the source, so what is written was there at first
    have hheld : s.Holds (h.place b.path) :=
      (halike.holds_iff (hsource ▸ List.nil_prefix)).1 (Store.holds_lay.2 (.inr ⟨b, hb, rfl⟩))
    have hfree := hrun.isDir_eq_false a ha
    rw [Handle.isDir_iff.2 ⟨_, hheld, hbelow⟩] at hfree
    cases hfree
  · rw [hplace.resolve_right hsource, hplace'.resolve_right hsource] at hbelow
    obtain ⟨c, rest, heq⟩ := hbelow
    rw [List.append_assoc] at heq
    refine hleaf _ ((halike.holds_iff (List.prefix_append _ _)).1 hheld') ⟨c, rest, ?_⟩
    rw [List.append_assoc, List.append_cancel_left heq]

/-- A run is repeated from any store that has the same texts below the source, and no directory
where a file is to be written. -/
theorem again (hrun : Copies h source destination n entries pending s made)
    (happart : ∀ a ∈ made, ∀ b ∈ made, ¬ Below (h.place a.path) (h.place b.path))
    (halike : AlikeBelow (h.place source) s u) (hfree : ∀ a ∈ made, h.isDir a.path u = false) :
    Copies h source destination n entries pending u made := by
  induction hrun generalizing u with
  | done s => exact .done u
  | enter hbelow hl _ ih =>
      exact .enter hbelow ((halike.list_eq hbelow).trans hl) (ih happart halike hfree)
  | directory hbelow hdir _ ih =>
      exact .directory hbelow ((halike.isDir_eq hbelow).trans hdir) (ih happart halike hfree)
  | @file n entry relative text rest pending s made hfile hstrip hfollows hread _ _ ih =>
      obtain ⟨hfreeHere, hfreeLater⟩ := List.forall_mem_cons.1 hfree
      have hentry : h.place source <+: h.place entry := by
        obtain ⟨way, hway, -⟩ := hfollows.way
        exact hway ▸ List.prefix_append _ _
      refine .file ((halike.isDir_eq hentry).trans hfile) hstrip hfollows
        ((halike.read_eq hentry).trans hread) hfreeHere (ih ?_ (halike.put _ text) ?_)
      · exact fun a ha b hb => happart a (List.mem_cons_of_mem _ ha) b (List.mem_cons_of_mem _ hb)
      · intro a ha
        have hnot := happart a (List.mem_cons_of_mem _ ha) _ List.mem_cons_self
        exact isDir_put_eq_false.2 ⟨hfreeLater a ha, hnot⟩

/-! ## Copies that are copied -/

/-- A run that has something to enter or to go through writes a file: no directory is empty. -/
theorem made_ne_nil (hrun : Copies h source destination n entries pending s made)
    (htodo : entries ≠ [] ∨ pending ≠ []) : made ≠ [] := by
  induction hrun with
  | done s => simp at htodo
  | enter _ hl _ ih => exact ih (.inl (Handle.list_eq_ok_iff.1 hl).2)
  | directory _ _ _ ih => exact ih (.inr (List.cons_ne_nil _ _))
  | file _ _ _ _ _ _ _ => exact List.cons_ne_nil _ _

section Within

variable (hrun : Copies h source destination n entries pending s made)
  (hsource : h.place source ≠ [])

include hrun hsource

theorem below_destination : ∀ a ∈ made, h.place destination <+: h.place a.path := by
  induction hrun with
  | done s => exact List.forall_mem_nil _
  | enter _ _ _ ih => exact ih
  | directory _ _ _ ih => exact ih
  | file _ _ hfollows _ _ _ ih =>
      refine List.forall_mem_cons.2 ⟨?_, ih⟩
      obtain ⟨way, -, htarget | ⟨hnil, -⟩⟩ := hfollows.way
      · rw [htarget]
        exact List.prefix_append _ _
      · exact absurd hnil hsource

/-- On a run to a destination strictly below the source, a file that is still to be come across is
copied to a longer path, unless one as long is written before and puts a directory in its place. -/
theorem exists_longer (hwithin : Below (h.place source) (h.place destination)) {file : Path}
    (hheld : s.Holds (h.place file)) (hfile : h.isDir file s = false)
    (hlead : (∃ entry ∈ entries, h.place entry <+: h.place file) ∨
      ∃ dir ∈ pending, Below (h.place dir) (h.place file)) :
    ∃ a ∈ made, (h.place file).length < (h.place a.path).length := by
  induction hrun with
  | done s => simp at hlead
  | @enter n dir pending entries s made _ hl _ ih =>
      refine ih hheld hfile ?_
      rcases hlead with ⟨entry, he, -⟩ | ⟨d, hd, hbelow⟩
      · cases he
      rcases List.mem_cons.1 hd with rfl | hd
      · obtain ⟨c, rest, hplace⟩ := hbelow
        have hlists : h.ListsEntry s d (ofComponents (h.place d ++ [c])) :=
          Handle.listsEntry_iff_holds.2 ⟨c, rest, hplace ▸ hheld, rfl⟩
        obtain ⟨listed, hlisted, hmem⟩ := hlists
        rw [hl] at hlisted
        cases hlisted
        have hahead : h.place d ++ [c] <+: h.place file := ⟨rest, by rw [hplace]; simp⟩
        exact .inl ⟨_, hmem, by rw [place_of_leading hahead]; exact hahead⟩
      · exact .inr ⟨d, hd, hbelow⟩
  | @directory n entry rest pending s made _ hdir _ ih =>
      refine ih hheld hfile ?_
      rcases hlead with ⟨e, he, hahead⟩ | ⟨d, hd, hbelow⟩
      · rcases List.mem_cons.1 he with rfl | he
        · refine .inr ⟨e, List.mem_cons_self, below_iff.2 ⟨hahead, fun heq => ?_⟩⟩
          obtain ⟨place, hplace, hbelow⟩ := Handle.isDir_iff.1 hdir
          rw [Handle.isDir_iff.2 ⟨place, hplace, heq ▸ hbelow⟩] at hfile
          cases hfile
        · exact .inl ⟨e, he, hahead⟩
      · exact .inr ⟨d, List.mem_cons_of_mem _ hd, hbelow⟩
  | @file n entry relative text rest pending s made hentry _ hfollows _ _ _ ih =>
      by_cases hlong : (h.place file).length < (h.place (destination.join relative)).length
      · exact ⟨_, List.mem_cons_self, hlong⟩
      have hlater : (∃ e ∈ rest, h.place e <+: h.place file) ∨
          ∃ dir ∈ pending, Below (h.place dir) (h.place file) := by
        rcases hlead with ⟨e, he, hahead⟩ | hlead
        · rcases List.mem_cons.1 he with rfl | he
          · -- it is this file, and the copy is longer
            have hplace : h.place file = h.place e := by
              by_contra hne
              rw [Handle.isDir_iff.2 ⟨_, hheld, below_iff.2 ⟨hahead, hne⟩⟩] at hentry
              cases hentry
            obtain ⟨way, hway, htarget | ⟨hnil, -⟩⟩ := hfollows.way
            · obtain ⟨c, more, hdestination⟩ := hwithin
              rw [hplace, hway, htarget, hdestination] at hlong
              simp only [List.length_append, List.length_cons] at hlong
              omega
            · exact absurd hnil hsource
          · exact .inl ⟨e, he, hahead⟩
        · exact .inr hlead
      have hfree : ¬ Below (h.place file) (h.place (destination.join relative)) := by
        intro ⟨c, more, hplace⟩
        rw [hplace, List.length_append, List.length_cons] at hlong
        omega
      obtain ⟨a, ha, hlonger⟩ := ih (Store.holds_put.2 (.inr hheld))
        (isDir_put_eq_false.2 ⟨hfile, hfree⟩) hlater
      exact ⟨a, List.mem_cons_of_mem _ ha, hlonger⟩

end Within

end Copies

theorem exists_longest (hne : made ≠ []) :
    ∃ a ∈ made, ∀ b ∈ made, (h.place b.path).length ≤ (h.place a.path).length := by
  let length (a : Artifact) : Nat := (h.place a.path).length
  cases hlongest : made.argmax length with
  | none => exact absurd (List.argmax_eq_none.1 hlongest) hne
  | some a =>
      have hmost : ∀ b ∈ made, length b ≤ length a :=
        fun b hb => List.le_of_mem_argmax hb hlongest
      exact ⟨a, List.argmax_mem hlongest, hmost⟩

/-! ## The whole run -/

section Stage

variable {w : World Store} {root dest : Path} {limit : Nat}

/-- A source stays a directory, whatever is written. -/
theorem isDir_lay (hdir : h.isDir path s = true) : h.isDir path (s.lay h made) = true := by
  by_contra hfile
  rw [Bool.not_eq_true, isDir_lay_eq_false, hdir] at hfile
  cases hfile.1

/-- The copies of a run to a destination strictly below its source are copied by the next run, the
longest of them to a path that no run before has written. -/
theorem staged_copies_are_staged {m : Nat} {again : List Artifact}
    (hfirst : Copies h source destination n [] [source] s made)
    (hsecond : Copies h source destination m [] [source] (s.lay h made) again)
    (hsource : h.place source ≠ []) (hwithin : Below (h.place source) (h.place destination)) :
    ∃ b ∈ again, ∀ a ∈ made, (h.place a.path).length < (h.place b.path).length := by
  have hne : made ≠ [] := hfirst.made_ne_nil (.inr (List.cons_ne_nil _ _))
  obtain ⟨a, ha, hlongest⟩ := exists_longest (h := h) hne
  have hheld : (s.lay h made).Holds (h.place a.path) := Store.holds_lay.2 (.inr ⟨a, ha, rfl⟩)
  have hfile : h.isDir a.path (s.lay h made) = false := by
    refine isDir_lay_eq_false.2 ⟨hfirst.isDir_eq_false a ha, fun b hb hbelow => ?_⟩
    obtain ⟨c, rest, hplace⟩ := hbelow
    have hle := hlongest b hb
    rw [hplace, List.length_append, List.length_cons] at hle
    omega
  have hbelow : Below (h.place source) (h.place a.path) := by
    obtain ⟨c, rest, hdestination⟩ := hwithin
    obtain ⟨way, hway⟩ := hfirst.below_destination hsource a ha
    exact ⟨c, rest ++ way, by rw [← hway, hdestination]; simp⟩
  obtain ⟨b, hb, hlonger⟩ := hsecond.exists_longer hsource hwithin hheld hfile
    (.inr ⟨source, List.mem_singleton_self source, hbelow⟩)
  exact ⟨b, hb, fun other hother => (hlongest other hother).trans_lt hlonger⟩

/-- A run that staged a directory can be repeated if it left the texts at and below the source as
they were: the second run writes the same files and changes no text. This is so if the run wrote
nothing there, and also if the source is its own destination. But a run to a destination strictly
below the source can never be repeated, however many directories the second one may enter. -/
theorem staged_again {result : StageResult} (hdir : h.isDir source w.store = true)
    (hok : answer (Staging.stage limit h.storage source root dest) w = .ok result) :
    let run := Staging.stage limit h.storage source root dest
    (KeepsTexts h source w.store (after run w).store →
      answer run (after run w) = .ok result ∧
        ∀ path, h.read path (after run (after run w)).store = h.read path (after run w).store) ∧
    ((h.place source = h.place (root.join dest) ∨
        ∀ path ∈ result.written, ¬ h.place source <+: h.place path) →
      KeepsTexts h source w.store (after run w).store) ∧
    (h.place source ≠ [] → Below (h.place source) (h.place (root.join dest)) →
      ∀ limit', answer (Staging.stage limit' h.storage source root dest) (after run w) ≠
        .ok result) := by
  intro run
  obtain ⟨n, hle, made, hcopies, rfl⟩ := exists_copies_of_stage hdir hok
  have hstore : (after run w).store = w.store.lay h made := (hcopies.stage hdir hle).2
  have hdir' : h.isDir source (after run w).store = true := hstore ▸ isDir_lay hdir
  refine ⟨fun hkept => ?_, fun hout => ?_, fun hsource hwithin limit' hok' => ?_⟩
  · rw [hstore] at hkept
    have halike := hkept.alike
    have happart := hcopies.not_below halike
    have hagain : Copies h source (root.join dest) n [] [source] (after run w).store made := by
      refine hcopies.again happart (hstore ▸ halike) fun a ha => ?_
      rw [hstore, isDir_lay_eq_false]
      exact ⟨hcopies.isDir_eq_false a ha, happart a ha⟩
    obtain ⟨hanswer, hstore'⟩ := hagain.stage hdir' hle
    refine ⟨hanswer, fun path => read_eq_iff.2 ?_⟩
    rw [hstore', hstore, Store.text?_lay_lay]
  · have hspares : SparesSource h source (root.join dest) made :=
      hout.imp_right fun hout a ha => hout a.path (mem_sort.2 (List.mem_map_of_mem ha))
    intro file hfile
    rw [hstore]
    exact (hcopies.alike_lay hspares).read_eq hfile
  · obtain ⟨m, -, again, hcopies', heq⟩ := exists_copies_of_stage hdir' hok'
    rw [hstore] at hcopies'
    obtain ⟨b, hb, hlonger⟩ := staged_copies_are_staged hcopies hcopies' hsource hwithin
    have hwritten : sort (made.map (·.path)) = sort (again.map (·.path)) :=
      congrArg StageResult.written heq
    have hmem : b.path ∈ sort (made.map (·.path)) :=
      hwritten ▸ mem_sort.2 (List.mem_map_of_mem hb)
    obtain ⟨a, ha, hsame⟩ := List.mem_map.1 (mem_sort.1 hmem)
    have hlt := hlonger a ha
    rw [hsame] at hlt
    omega

end Stage

/-- A directory that is staged to a place apart from it, twice. -/
theorem staged_again_site :
    let run := Staging.stage 100 exact.storage ⟨"/site"⟩ ⟨"/"⟩ ⟨"out"⟩
    let result : StageResult := ⟨⟨"/out"⟩, [⟨"/out/img/logo"⟩, ⟨"/out/page"⟩]⟩
    exact.isDir ⟨"/site"⟩ site.store = true ∧ answer run site = .ok result ∧
      answer run (after run site) = .ok result ∧
      exact.read ⟨"/out/page"⟩ (after run (after run site)).store =
        exact.read ⟨"/out/page"⟩ (after run site).store := by
  intro run result
  have hdir : exact.isDir ⟨"/site"⟩ site.store = true := by decide +kernel
  have hok : answer run site = .ok result := by decide +kernel
  have hout : ∀ path ∈ result.written, ¬ exact.place ⟨"/site"⟩ <+: exact.place path := by
    decide +kernel
  obtain ⟨hrepeats, hkeeps, -⟩ := staged_again hdir hok
  obtain ⟨hanswer, hread⟩ := hrepeats (hkeeps (.inr hout))
  exact ⟨hdir, hok, hanswer, hread ⟨"/out/page"⟩⟩

/-- A project with one file, which is staged to a folder of the project. -/
def ownFolder : World Store := ⟨exact.withFiles [(⟨"/p/a.txt"⟩, "x")], []⟩

/-- The second run finds the copy that the first one made, and copies it. -/
theorem own_folder_grows :
    let run := Staging.stage 100 exact.storage ⟨"/p"⟩ ⟨"/p"⟩ ⟨"dist"⟩
    answer run ownFolder = .ok ⟨⟨"/p/dist"⟩, [⟨"/p/dist/a.txt"⟩]⟩ ∧
      answer run (after run ownFolder) =
        .ok ⟨⟨"/p/dist"⟩, [⟨"/p/dist/a.txt"⟩, ⟨"/p/dist/dist/a.txt"⟩]⟩ ∧
      exact.contains ⟨"/p/dist/dist/a.txt"⟩ (after run ownFolder).store = false ∧
      exact.read ⟨"/p/dist/dist/a.txt"⟩ (after run (after run ownFolder)).store = .ok "x" := by
  decide +kernel

end CompileWatch.Memory
