import CompileWatch.Proofs.Sources.Ascending
import Mathlib.Algebra.GroupWithZero.Nat
import Mathlib.Algebra.Order.BigOperators.Group.List
import Mathlib.Algebra.Order.Group.Nat
import Mathlib.Data.List.Nodup
import Mathlib.Logic.Relation

/-!
# What a search finds

A search that meets a file system standing still goes through a graph: a listed
directory leads to those of its entries that are directories of their own, no
links, and not left out (`Leads`). The sources are the files listed in the
directories that the root leads to (`IsSource`).

The search itself is a loop on pending directories, which `Searched` describes
without a bound on its rounds. What it finds is what the pending directories lead
to, round by round (`Searched.mem_iff`): a directory that is listed hands its
sources to its entries, and one that cannot be listed has none. That the loop
comes to an end is another matter. It does if every directory weighs more than
all it leads to (`Storage.Bounded`), and the fuel of a search covers the weight of
its root (`searched_search`).

Where the places of entries tell them apart, each directory is reached in one way,
so a directory that is refused is on the way to just what lies below it
(`isSource_refusing_iff`).
-/

namespace CompileWatch

variable {σ : Type}

namespace Sources

open CompileWatch.Path

/-- Whether a directory is neither the output folder nor a folder of dependencies or of version
control. -/
def Admitted (outDir : Option Path) (dir : Path) : Prop :=
  (∀ out ∈ outDir, dir.components ≠ out.components) ∧
    dir.fileName? ≠ some "node_modules" ∧ dir.fileName? ≠ some ".git"

theorem enters_iff {query : Query} {dir : Path} :
    query.enters dir = true ↔ Admitted query.outDir dir := by
  unfold Query.enters Admitted skippedNames
  rw [Bool.and_eq_true]
  refine and_congr ?_ ?_
  · cases query.outDir with
    | none => simp
    | some out => simp [← same_iff]
  · cases dir.fileName? with
    | none => simp
    | some name => simp

section Graph

variable (storage : Storage σ) (query : Query) (s : σ)

def opens (entry : Path) : Bool :=
  answer (storage.isDir entry) s && !answer (storage.isSymlink entry) s && query.enters entry

def hits (entry : Path) : Bool := !answer (storage.isDir entry) s && query.wants entry

/-- Whether a listing of a directory leads to another: an entry that is a directory, no link and
admitted. -/
def Leads (dir entry : Path) : Prop :=
  ∃ entries, answer (storage.list dir) s = .ok entries ∧ entry ∈ entries ∧
    answer (storage.isDir entry) s = true ∧ answer (storage.isSymlink entry) s = false ∧
    Admitted query.outDir entry

/-- Whether a directory is reached from another through listed ones. -/
def Reached : Path → Path → Prop := Relation.ReflTransGen (Leads storage query s)

/-- Whether a path is listed in a directory that is reached, is no directory and bears the
extension. -/
def IsSource (root file : Path) : Prop :=
  ∃ dir entries, Reached storage query s root dir ∧ answer (storage.list dir) s = .ok entries ∧
    file ∈ entries ∧ answer (storage.isDir file) s = false ∧
    file.extension? = some query.extension

/-- The rounds of a search from what is pending and found to its result. -/
inductive Searched : List Path → List Path → List Path → Prop
  | done (found) : Searched [] found found
  | lost {dir pending found result e} : answer (storage.list dir) s = .error e →
      Searched pending found result → Searched (dir :: pending) found result
  | listed {dir pending found result entries} : answer (storage.list dir) s = .ok entries →
      Searched ((entries.filter (opens storage query s)).reverse ++ pending)
        (found ++ entries.filter (hits storage query s)) result →
      Searched (dir :: pending) found result

end Graph

section

variable {storage : Storage σ} {query : Query} {s : σ}

theorem opens_iff {entry : Path} : opens storage query s entry = true ↔
    answer (storage.isDir entry) s = true ∧ answer (storage.isSymlink entry) s = false ∧
      Admitted query.outDir entry := by
  rw [opens, Bool.and_eq_true, Bool.and_eq_true, Bool.not_eq_true', enters_iff, and_assoc]

theorem hits_iff {entry : Path} : hits storage query s entry = true ↔
    answer (storage.isDir entry) s = false ∧ entry.extension? = some query.extension := by
  rw [hits, Bool.and_eq_true, Bool.not_eq_true', Query.wants, decide_eq_true_eq]

theorem leads_iff {dir : Path} {entries : List Path}
    (hl : answer (storage.list dir) s = .ok entries) {entry : Path} :
    Leads storage query s dir entry ↔ entry ∈ entries.filter (opens storage query s) := by
  rw [List.mem_filter, opens_iff]
  constructor
  · rintro ⟨listed, hlisted, h⟩
    cases hl.symm.trans hlisted
    exact h
  · exact fun h => ⟨entries, hl, h⟩

theorem isSource_iff_of_list {dir : Path} {entries : List Path}
    (hl : answer (storage.list dir) s = .ok entries) {file : Path} :
    IsSource storage query s dir file ↔ file ∈ entries.filter (hits storage query s) ∨
      ∃ entry ∈ entries.filter (opens storage query s), IsSource storage query s entry file := by
  constructor
  · rintro ⟨last, listed, hreached, hlast, hfile⟩
    rcases hreached.cases_head with rfl | ⟨entry, hleads, hreached⟩
    · cases hl.symm.trans hlast
      exact .inl (List.mem_filter.2 ⟨hfile.1, hits_iff.2 hfile.2⟩)
    · exact .inr ⟨entry, (leads_iff hl).1 hleads, last, listed, hreached, hlast, hfile⟩
  · rintro (hfile | ⟨entry, hentry, last, listed, hreached, hfile⟩)
    · obtain ⟨hmem, hhits⟩ := List.mem_filter.1 hfile
      exact ⟨dir, entries, .refl, hl, hmem, hits_iff.1 hhits⟩
    · exact ⟨last, listed, hreached.head ((leads_iff hl).2 hentry), hfile⟩

theorem not_isSource_of_list {dir : Path} {e : FsError}
    (hl : answer (storage.list dir) s = .error e) (file : Path) :
    ¬ IsSource storage query s dir file := by
  rintro ⟨last, listed, hreached, hlast, _⟩
  rcases hreached.cases_head with rfl | ⟨_, ⟨_, hlisted, _⟩, _⟩
  · cases hl.symm.trans hlast
  · cases hl.symm.trans hlisted

/-- A search adds the sources of what is pending. -/
theorem Searched.mem_iff {pending found result : List Path}
    (h : Searched storage query s pending found result) {file : Path} :
    file ∈ result ↔ file ∈ found ∨ ∃ dir ∈ pending, IsSource storage query s dir file := by
  induction h with
  | done found => simp
  | lost hl _ ih => simp [ih, not_isSource_of_list hl]
  | listed hl _ ih =>
      rw [ih]
      simp only [List.mem_append, List.mem_reverse, List.mem_cons, or_and_right, exists_or,
        exists_eq_left, isSource_iff_of_list hl, or_assoc]

/-! ## Searches come to an end -/

theorem answer_classify (h : storage.Looks (· = s)) : ∀ entries : List Path,
    answer (classify storage query entries) s =
      (entries.filter (opens storage query s), entries.filter (hits storage query s))
  | [] => rfl
  | entry :: rest => by
      have hdir : after (storage.isDir entry) s = s := h.isDir entry s rfl
      have hlink : after (storage.isSymlink entry) s = s := h.isSymlink entry s rfl
      rw [answer_classify_cons, hdir]
      dsimp only
      rw [hlink, answer_classify h rest, List.filter_cons, List.filter_cons]
      cases hd : answer (storage.isDir entry) s with
      | true =>
          rw [opens, hits, hd, if_pos rfl, Bool.true_and, Bool.not_true, Bool.false_and]
          dsimp only
          split <;> rfl
      | false =>
          rw [opens, hits, hd, if_neg (by decide), Bool.false_and, Bool.false_and, Bool.not_false,
            Bool.true_and]
          dsimp only
          split <;> rfl

end

end Sources

/-- What is counted for one element at most. -/
theorem sum_ite_le {α : Type} (p : α → Prop) [DecidablePred p] (n : Nat) :
    ∀ {l : List α}, l.Pairwise (fun a b => p a → ¬ p b) →
      (l.map fun a => if p a then n else 0).sum ≤ n
  | [], _ => Nat.zero_le n
  | a :: rest, h => by
      obtain ⟨ha, hrest⟩ := List.pairwise_cons.1 h
      rw [List.map_cons, List.sum_cons]
      split
      · next hp =>
        have hothers : ∀ m ∈ rest.map fun b => if p b then n else 0, m = 0 := by
          intro m hm
          obtain ⟨b, hb, rfl⟩ := List.mem_map.1 hm
          exact if_neg (ha b hb hp)
        rw [List.sum_eq_zero hothers, Nat.add_zero]
      · rw [Nat.zero_add]
        exact sum_ite_le p n hrest

/-- A weight of directories by which each one weighs more than all the directories among its
entries that are no links. -/
structure Storage.Bounded (storage : Storage σ) (s : σ) (weight : Path → Nat) : Prop where
  pos : ∀ dir, 0 < weight dir
  below : ∀ dir entries, answer (storage.list dir) s = .ok entries →
    ((entries.filter fun entry => answer (storage.isDir entry) s &&
      !answer (storage.isSymlink entry) s).map weight).sum < weight dir
  extent : ∀ dir, weight dir ≤ storage.extent s

namespace Sources

open CompileWatch.Path

section

variable {storage : Storage σ} {s : σ} {weight : Path → Nat}

theorem sum_opens_lt (hb : storage.Bounded s weight) (query : Query) {dir : Path}
    {entries : List Path} (hl : answer (storage.list dir) s = .ok entries) :
    ((entries.filter (opens storage query s)).map weight).sum < weight dir := by
  have hfewer : (entries.filter (opens storage query s)).Sublist (entries.filter fun entry =>
      answer (storage.isDir entry) s && !answer (storage.isSymlink entry) s) :=
    List.monotone_filter_right entries fun entry hopens => by
      rw [opens, Bool.and_eq_true] at hopens
      exact hopens.1
  exact ((hfewer.map weight).sum_le_sum fun _ _ => Nat.zero_le _).trans_lt (hb.below dir entries hl)

/-- The rounds of a search whose fuel covers the weight of what is pending. -/
theorem searched_search (hlooks : storage.Looks (· = s)) (hb : storage.Bounded s weight)
    (query : Query) : ∀ (fuel : Nat) (pending found : List Path) (w : World σ), w.store = s →
      (pending.map weight).sum ≤ fuel →
        Searched storage query s pending found (answer (search storage query fuel pending found) w)
  | 0, [], found, _, _, _ => .done found
  | 0, dir :: pending, _, _, _, hsum => by
      have := hb.pos dir
      rw [List.map_cons, List.sum_cons] at hsum
      omega
  | _ + 1, [], found, _, _, _ => .done found
  | fuel + 1, dir :: pending, found, w, hw, hsum => by
      have hlisted : after (storage.list dir) s = s := hlooks.list dir s rfl
      have hpos := hb.pos dir
      rw [List.map_cons, List.sum_cons] at hsum
      unfold search
      rw [answer_bind, Exec.answer_onStore, Exec.after_onStore, hw]
      cases ha : answer (storage.list dir) s with
      | error e =>
          exact .lost ha (searched_search hlooks hb query fuel _ _ _ hlisted (by omega))
      | ok entries =>
          have hlight := sum_opens_lt hb query ha
          refine .listed ha ?_
          rw [answer_bind, Exec.answer_onStore, Exec.after_onStore, hlisted,
            answer_classify hlooks entries]
          refine searched_search hlooks hb query fuel _ _ _
            (keeps_classify hlooks query entries _ rfl) ?_
          rw [List.map_append, List.sum_append, List.map_reverse, List.sum_reverse]
          omega

end

section

variable {storage : Storage σ} {weight : Path → Nat} {w : World σ}
  (hlooks : storage.Looks (· = w.store)) (hb : storage.Bounded w.store weight)

include hlooks hb

/-- A collection is the sorted result of a search that has come to its end. -/
theorem searched_collect (root : Path) (extension : String) (outDir : Option Path) :
    ∃ found, Searched storage ⟨extension, outDir.map root.join⟩ w.store [root] [] found ∧
      answer (collect storage root extension outDir) w = sort found := by
  refine ⟨_, searched_search hlooks hb ⟨extension, outDir.map root.join⟩ (storage.extent w.store)
    [root] [] w rfl ?_, rfl⟩
  simpa using hb.extent root

theorem mem_collect_iff {root : Path} {extension : String} {outDir : Option Path} {file : Path} :
    file ∈ answer (collect storage root extension outDir) w ↔
      IsSource storage ⟨extension, outDir.map root.join⟩ w.store root file := by
  obtain ⟨found, hfound, heq⟩ := searched_collect hlooks hb root extension outDir
  rw [heq, mem_sort, hfound.mem_iff]
  simp

end

end Sources

/-! ## One way to each directory -/

/-- A storage that lists, in one of its states, entries one step below the place of the directory.
That is how they are spelled, and their own places are one step below it as well, but these need not
be as they are spelled. -/
structure Storage.Descends (storage : Storage σ) (s : σ) (place : Path → List Component) : Prop where
  spelled : ∀ dir entries, answer (storage.list dir) s = .ok entries → ∀ entry ∈ entries,
    ∃ c, entry.components = place dir ++ [c]
  placed : ∀ dir entries, answer (storage.list dir) s = .ok entries → ∀ entry ∈ entries,
    ∃ c, place entry = place dir ++ [c]
  distinct : ∀ dir entries, answer (storage.list dir) s = .ok entries →
    entries.Pairwise fun d e => d.components ≠ e.components
  apart : ∀ dir entries, answer (storage.list dir) s = .ok entries → ∀ d ∈ entries, ∀ f ∈ entries,
    answer (storage.isDir d) s = true → answer (storage.isDir f) s = false → place d ≠ f.components

theorem Storage.Lists.descends {storage : Storage σ} {s : σ} {place : Path → List Component}
    (h : storage.Lists (· = s) place) : storage.Descends s place := by
  have hdistinct : ∀ dir entries, answer (storage.list dir) s = .ok entries →
      entries.Pairwise fun d e => d.components ≠ e.components :=
    fun dir entries hl => Path.distinct_of_ascending (h.ascending dir s entries rfl hl)
  refine ⟨fun dir entries hl entry he => (h.below dir s entries rfl hl entry he).2,
    fun dir entries hl entry he => ?_, hdistinct, fun dir entries hl d hd f hf hdir hfile heq => ?_⟩
  · obtain ⟨hplace, hbelow⟩ := h.below dir s entries rfl hl entry he
    rwa [hplace]
  · rw [(h.below dir s entries rfl hl d hd).1] at heq
    have hnodup : (entries.map Path.components).Nodup :=
      List.pairwise_map.2 (hdistinct dir entries hl)
    rw [List.inj_on_of_nodup_map hnodup hd hf heq, hfile] at hdir
    cases hdir

namespace Sources

/-- Whether no two directories that a search reaches have one place. -/
def OneWay (storage : Storage σ) (query : Query) (s : σ) (place : Path → List Component)
    (root : Path) : Prop :=
  ∀ dir other, Reached storage query s root dir → Reached storage query s root other →
    place other = place dir → other = dir

section Ways

variable {storage : Storage σ} {query : Query} {s : σ} {place : Path → List Component}

section Descends

variable (h : storage.Descends s place)

include h

theorem Leads.placed {dir entry : Path} (hl : Leads storage query s dir entry) :
    ∃ c, place entry = place dir ++ [c] := by
  obtain ⟨entries, hlist, hmem, _⟩ := hl
  exact h.placed dir entries hlist entry hmem

theorem Reached.place_prefix {dir below : Path} (hr : Reached storage query s dir below) :
    place dir <+: place below := by
  induction hr with
  | refl => exact List.prefix_refl _
  | tail _ hl ih =>
      obtain ⟨c, hc⟩ := hl.placed h
      exact hc ▸ ih.trans (List.prefix_append _ _)

/-- No file that is found stands at the place of a directory that is reached. -/
theorem OneWay.place_ne {root dir last file : Path} (hone : OneWay storage query s place root)
    (hd : Reached storage query s root dir) (hr : Reached storage query s root last)
    {entries : List Path} (hl : answer (storage.list last) s = .ok entries) (hmem : file ∈ entries)
    (hfile : answer (storage.isDir file) s = false) : place dir ≠ file.components := by
  intro heq
  obtain ⟨c, hc⟩ := h.spelled last entries hl file hmem
  rcases hd.cases_tail with rfl | ⟨d, hd, hleads⟩
  · have hlonger := (hr.place_prefix h).length_le
    rw [heq, hc, List.length_append, List.length_singleton] at hlonger
    omega
  · obtain ⟨c', hc'⟩ := hleads.placed h
    have hsame : place d = place last := List.append_inj_left' (hc'.symm.trans (heq.trans hc)) rfl
    obtain rfl := hone last d hr hd hsame
    obtain ⟨listed, hlisted, hentry, hdir, _⟩ := hleads
    cases hl.symm.trans hlisted
    exact h.apart d entries hl dir hentry file hmem hdir hfile heq

/-- Where there is one way to each directory, each is entered once, so no file is found twice. -/
theorem Searched.distinct {root : Path} (hone : OneWay storage query s place root)
    {pending found result : List Path} (hs : Searched storage query s pending found result)
    (hreached : ∀ dir ∈ pending, Reached storage query s root dir)
    (hsep : Separate place pending found) :
    result.Pairwise fun f g => f.components ≠ g.components := by
  induction hs with
  | done found => exact hsep.files
  | lost _ _ ih => exact ih (fun dir hd => hreached dir (List.mem_cons_of_mem _ hd)) hsep.drop
  | @listed dir pending found result entries hl _ ih =>
      have hdir := hreached dir List.mem_cons_self
      have hopens : ∀ d ∈ entries.filter (opens storage query s), Reached storage query s root d :=
        fun d hd => hdir.tail ((leads_iff hl).2 hd)
      have hfile : ∀ f ∈ entries.filter (hits storage query s),
          f ∈ entries ∧ answer (storage.isDir f) s = false := by
        intro f hf
        obtain ⟨hmem, hhits⟩ := List.mem_filter.1 hf
        exact ⟨hmem, (hits_iff.1 hhits).1⟩
      refine ih (fun d hd => ?_) (hsep.replace
        (fun d hd => h.placed dir entries hl d (List.mem_filter.1 hd).1)
        (fun f hf => h.spelled dir entries hl f (hfile f hf).1) ?_
        ((h.distinct dir entries hl).filter _) fun d hd f hf => ?_)
      · rcases List.mem_append.1 hd with hd | hd
        · exact hopens d (List.mem_reverse.1 hd)
        · exact hreached d (List.mem_cons_of_mem _ hd)
      · refine ((h.distinct dir entries hl).filter _).imp_of_mem fun {d e} hd he hne heq => hne ?_
        rw [hone e d (hopens e he) (hopens d hd) heq]
      · exact hone.place_ne h (hopens d hd) hdir hl (hfile f hf).1 (hfile f hf).2

end Descends

section Lists

variable (h : storage.Lists (· = s) place)

include h

theorem Leads.place_eq {dir entry : Path} (hl : Leads storage query s dir entry) :
    place entry = entry.components ∧ ∃ c, place entry = place dir ++ [c] := by
  obtain ⟨entries, hlist, hmem, _⟩ := id hl
  exact ⟨(h.below dir s entries rfl hlist entry hmem).1, hl.placed h.descends⟩

/-- Places that are spelled out tell directories apart. -/
theorem oneWay_of_lists (root : Path) : OneWay storage query s place root := by
  intro dir other hd
  have hroot : ∀ {d e : Path}, Reached storage query s root d → Leads storage query s d e →
      place e ≠ place root := by
    intro d e hd hl heq
    obtain ⟨c, hc⟩ := hl.placed h.descends
    have hlonger := (hd.place_prefix h.descends).length_le
    rw [← heq, hc, List.length_append, List.length_singleton] at hlonger
    omega
  induction hd generalizing other with
  | refl =>
      intro ho heq
      rcases ho.cases_tail with rfl | ⟨d, hd, hl⟩
      · rfl
      · exact absurd heq (hroot hd hl)
  | tail hd hl ih =>
      intro ho heq
      rcases ho.cases_tail with rfl | ⟨d, hd', hl'⟩
      · exact absurd heq.symm (hroot hd hl)
      · obtain ⟨hplace, c, hc⟩ := hl.place_eq h
        obtain ⟨hplace', c', hc'⟩ := hl'.place_eq h
        rw [hc, hc'] at heq
        obtain rfl := ih d hd' (List.append_inj_left' heq rfl)
        obtain ⟨entries, hlist, hmem, _⟩ := hl
        obtain ⟨entries', hlist', hmem', _⟩ := hl'
        cases hlist.symm.trans hlist'
        have hnodup : (entries.map Path.components).Nodup :=
          List.pairwise_map.2 (h.descends.distinct d entries hlist)
        refine List.inj_on_of_nodup_map hnodup hmem' hmem ?_
        rw [← hplace, ← hplace', hc, hc', heq]

end Lists

end Ways

end Sources

/-! ## Directories that cannot be listed -/

/-- A storage in which the listing of some directories fails. -/
def Storage.refusing (refusals : Path → Option FsError) (inside : Storage σ) : Storage σ where
  contains := inside.contains
  isDir := inside.isDir
  isSymlink := inside.isSymlink
  read := inside.read
  write := inside.write
  list dir := match refusals dir with
    | some e => pure (.error e)
    | none => inside.list dir
  modified := inside.modified
  caseSensitive := inside.caseSensitive
  extent := inside.extent

section Refusing

variable {inside : Storage σ} {refusals : Path → Option FsError} {s : σ}
  {place : Path → List Component}

theorem answer_list_refusing {dir : Path} {entries : List Path} :
    answer ((inside.refusing refusals).list dir) s = .ok entries ↔
      refusals dir = none ∧ answer (inside.list dir) s = .ok entries := by
  have hlist : (inside.refusing refusals).list dir = match refusals dir with
    | some e => pure (.error e)
    | none => inside.list dir := rfl
  rw [hlist]
  cases refusals dir with
  | none => simp
  | some e => exact iff_of_false (fun h => by cases h) (fun h => by cases h.1)

theorem Storage.Looks.refusing {P : σ → Prop} (h : inside.Looks P)
    (refusals : Path → Option FsError) : (inside.refusing refusals).Looks P where
  contains := h.contains
  isDir := h.isDir
  isSymlink := h.isSymlink
  read := h.read
  list dir := by
    unfold Storage.refusing
    dsimp only
    split
    · exact Keeps.pure _
    · exact h.list dir

theorem Storage.Lists.refusing {I : σ → Prop} (h : inside.Lists I place)
    (refusals : Path → Option FsError) : (inside.refusing refusals).Lists I place where
  looks := h.looks.refusing refusals
  ascending dir s entries hs hl := h.ascending dir s entries hs (answer_list_refusing.1 hl).2
  below dir s entries hs hl := h.below dir s entries hs (answer_list_refusing.1 hl).2

theorem Storage.Descends.refusing (h : inside.Descends s place)
    (refusals : Path → Option FsError) : (inside.refusing refusals).Descends s place where
  spelled dir entries hl := h.spelled dir entries (answer_list_refusing.1 hl).2
  placed dir entries hl := h.placed dir entries (answer_list_refusing.1 hl).2
  distinct dir entries hl := h.distinct dir entries (answer_list_refusing.1 hl).2
  apart dir entries hl := h.apart dir entries (answer_list_refusing.1 hl).2

theorem Storage.Bounded.refusing {weight : Path → Nat} (h : inside.Bounded s weight)
    (refusals : Path → Option FsError) : (inside.refusing refusals).Bounded s weight where
  pos := h.pos
  below dir entries hl := h.below dir entries (answer_list_refusing.1 hl).2
  extent := h.extent

namespace Sources

variable {query : Query}

theorem leads_refusing_iff {dir entry : Path} :
    Leads (inside.refusing refusals) query s dir entry ↔
      refusals dir = none ∧ Leads inside query s dir entry := by
  simp only [Leads, answer_list_refusing, and_assoc, exists_and_left]
  rfl

theorem Reached.of_refusing {root dir : Path}
    (h : Reached (inside.refusing refusals) query s root dir) : Reached inside query s root dir :=
  Relation.ReflTransGen.mono (fun _ _ hl => (leads_refusing_iff.1 hl).2) _ _ h

theorem OneWay.refusing {root : Path} (h : OneWay inside query s place root)
    (refusals : Path → Option FsError) : OneWay (inside.refusing refusals) query s place root :=
  fun dir other hd ho => h dir other hd.of_refusing ho.of_refusing

variable (h : inside.Descends s place)

include h

theorem Reached.refusing {root dir : Path} (hd : Reached inside query s root dir)
    (haccepted : ∀ above, Reached inside query s root above → place above <+: place dir →
      refusals above = none) : Reached (inside.refusing refusals) query s root dir := by
  induction hd with
  | refl => exact .refl
  | @tail d e hd hl ih =>
      obtain ⟨c, hc⟩ := hl.placed h
      have hup : place d <+: place e := hc ▸ List.prefix_append _ _
      exact (ih fun above ha hp => haccepted above ha (hp.trans hup)).tail
        (leads_refusing_iff.2 ⟨haccepted d hd hup, hl⟩)

/-- What a search no longer finds lies below a directory on the way that is refused. -/
theorem IsSource.lost {root file : Path} (hf : IsSource inside query s root file)
    (hlost : ¬ IsSource (inside.refusing refusals) query s root file) :
    ∃ dir, Reached inside query s root dir ∧ refusals dir ≠ none ∧
      place dir <+: file.components := by
  obtain ⟨last, entries, hreached, hlist, hmem, hfile⟩ := hf
  by_contra hnone
  push Not at hnone
  obtain ⟨c, hc⟩ := h.spelled last entries hlist file hmem
  have haccepted : ∀ dir, Reached inside query s root dir → place dir <+: place last →
      refusals dir = none := by
    intro dir hd hp
    by_contra hrefused
    exact hnone dir hd hrefused (hc ▸ hp.trans (List.prefix_append _ _))
  exact hlost ⟨last, entries, hreached.refusing h haccepted,
    answer_list_refusing.2 ⟨haccepted last hreached (List.prefix_refl _), hlist⟩, hmem, hfile⟩

variable {root : Path} (hone : OneWay inside query s place root)

include hone

/-- A directory that is reached lies above another only if it is on the way there. -/
theorem Reached.on_way {dir above : Path}
    (hd : Reached (inside.refusing refusals) query s root dir)
    (ha : Reached inside query s root above) (hp : place above <+: place dir) :
    Reached (inside.refusing refusals) query s above dir := by
  induction hd with
  | refl =>
      have heq := hp.eq_of_length_le (ha.place_prefix h).length_le
      rw [hone root above .refl ha heq]
      exact .refl
  | @tail d e hd hl ih =>
      obtain ⟨c, hc⟩ := (leads_refusing_iff.1 hl).2.placed h
      rw [hc] at hp
      rcases List.prefix_concat_iff.1 hp with heq | hp
      · have he := Reached.of_refusing (hd.tail hl)
        rw [hone above e ha he (hc.trans heq.symm)]
        exact .refl
      · exact (ih hp).tail hl

/-- A refused directory loses the sources below it, and no others. -/
theorem isSource_refusing_iff {file : Path} :
    IsSource (inside.refusing refusals) query s root file ↔
      IsSource inside query s root file ∧
        ∀ dir, Reached inside query s root dir → refusals dir ≠ none →
          ¬ place dir <+: file.components := by
  constructor
  · rintro ⟨last, entries, hreached, hlist, hmem, hdir, hext⟩
    obtain ⟨haccepted, hlist⟩ := answer_list_refusing.1 hlist
    refine ⟨⟨last, entries, hreached.of_refusing, hlist, hmem, hdir, hext⟩, ?_⟩
    intro dir hd hrefused hp
    obtain ⟨c, hc⟩ := h.spelled last entries hlist file hmem
    rw [hc] at hp
    rcases List.prefix_concat_iff.1 hp with heq | hp
    · exact hone.place_ne h hd hreached.of_refusing hlist hmem hdir (heq.trans hc.symm)
    · rcases (hreached.on_way h hone hd hp).cases_head with rfl | ⟨_, hl, _⟩
      · exact hrefused haccepted
      · exact hrefused (leads_refusing_iff.1 hl).1
  · rintro ⟨hsource, hspared⟩
    by_contra hlost
    obtain ⟨dir, hd, hrefused, hp⟩ := hsource.lost h hlost
    exact hspared dir hd hrefused hp

end Sources

end Refusing

end CompileWatch
