import CompileWatch.Proofs.Path.Joining
import CompileWatch.Proofs.Storage.Edits
import CompileWatch.Proofs.Text.LowerCase

/-!
# The keys of files in memory

A handle keeps each file under the key of its path, and a key is its own key
(`same_key_key`). What makes a path its own key can be told from each of its
components alone (`same_key_iff`): a key has no inner dots, and if the handle
folds letter case it has no capitals. All that lies above a key is therefore its
own key as well, which is what lets a directory be recognised in the keys of the
files below it.
-/

namespace CompileWatch.Memory

open CompileWatch.Path

theorem components_plain (p : Path) :
    (plain p).components = p.components.filter (· ≠ .current) :=
  components_ofComponents ((spelled_components p).filter _)

/-- Whether a component can stand in a key of a handle. -/
def Handle.Settled (h : Handle) (c : Component) : Prop :=
  c ≠ .current ∧ (h.caseSensitive = false → ∀ d ∈ c.text.toList, Text.IsLower d)

variable {h : Handle} {p q : Path}

theorem plain_same (hc : ∀ c ∈ p.components, c ≠ .current) :
    (plain p).components = p.components := by
  rw [components_plain]
  exact List.filter_eq_self.2 fun c hm => decide_eq_true (hc c hm)

theorem current_not_mem_lowered (hp : .current ∉ p.components) :
    .current ∉ (⟨Text.lowerCase p.text⟩ : Path).components := by
  rw [components_eq, current_mem_componentsOf] at hp ⊢
  show ¬ ((Text.lowerCase p.text).toList = ['.'] ∨ _)
  rw [Text.lowerCase, String.toList_ofList]
  rintro (hdot | ⟨tail, hdot⟩)
  · obtain ⟨rest, ht, hrest⟩ := Text.eq_cons_of_lowerAfter (by decide) hdot
    rw [Text.eq_nil_of_lowerAfter hrest.symm] at ht
    exact hp (.inl ht)
  · obtain ⟨rest, ht, hrest⟩ := Text.eq_cons_of_lowerAfter (by decide) hdot
    obtain ⟨rest, rfl, _⟩ := Text.eq_cons_of_lowerAfter (by decide) hrest.symm
    exact hp (.inr ⟨rest, ht⟩)

theorem settled_of_mem_key {c : Component} (hc : c ∈ (h.key p).components) : h.Settled c := by
  have hplain : .current ∉ (plain p).components := by
    rw [components_plain]
    simp
  unfold Handle.key at hc
  split at hc
  · next hexact =>
    refine ⟨fun heq => hplain (heq ▸ hc), fun hfold => ?_⟩
    rw [hexact] at hfold
    cases hfold
  · refine ⟨fun heq => current_not_mem_lowered hplain (heq ▸ hc), fun _ d hd => ?_⟩
    have hmem := mem_text_of_mem_components hc hd
    rw [Text.lowerCase, String.toList_ofList] at hmem
    exact Text.isLower_of_mem_lowerAfter hmem

theorem key_of_settled (hp : ∀ c ∈ p.components, h.Settled c) : h.key p = plain p := by
  unfold Handle.key
  split
  · rfl
  · next hfold =>
    rw [Bool.not_eq_true] at hfold
    rw [Text.lowerCase_eq_self fun d hd => ?_]
    rcases mem_text_ofComponents hd with rfl | ⟨c, hc, hd⟩
    · decide +kernel
    · exact (hp c (List.mem_filter.1 hc).1).2 hfold d hd

/-- A path is its own key just when each of its components can stand in a key. -/
theorem same_key_iff : (h.key p).same p = true ↔ ∀ c ∈ p.components, h.Settled c := by
  rw [same_iff]
  constructor
  · exact fun heq c hc => settled_of_mem_key (p := p) (heq ▸ hc)
  · intro hp
    rw [key_of_settled hp, plain_same fun c hc => (hp c hc).1]

theorem same_key_key (h : Handle) (p : Path) : (h.key (h.key p)).same (h.key p) = true :=
  same_key_iff.2 fun _ hc => settled_of_mem_key hc

theorem same_key_above (hq : (h.key q).same q = true) (hpq : p.components <+: q.components) :
    (h.key p).same p = true :=
  same_key_iff.2 fun c hc => same_key_iff.1 hq c (hpq.subset hc)

/-- Where the file of a path lies, as a handle sees it. -/
def Handle.place (h : Handle) (path : Path) : List Component := (h.key path).components

theorem Handle.place_key (h : Handle) (p : Path) : h.place (h.key p) = h.place p :=
  same_iff.1 (same_key_key h p)

theorem current_not_mem_key (h : Handle) (p : Path) : .current ∉ (h.key p).components :=
  fun hc => (settled_of_mem_key hc).1 rfl

/-! ## Stores -/

/-- Whether all files are kept under keys of a handle. -/
def Handle.Keyed (h : Handle) (s : Store) : Prop := ∀ k ∈ s.files.keys, (h.key k).same k = true

/-- Whether no file is kept under a path with an inner dot. Handles that do not agree on letter case
agree on this, so it holds of every store there is. -/
def Store.Plain (s : Store) : Prop := ∀ k ∈ s.files.keys, .current ∉ k.components

theorem Handle.keyed_empty (h : Handle) : h.Keyed .empty := fun k hk => by cases hk

theorem Handle.Keyed.plain {s : Store} (hs : h.Keyed s) : s.Plain :=
  fun k hk hc => (same_key_iff.1 (hs k hk) _ hc).1 rfl

section Edited

variable {P : Path → Prop} (hkey : ∀ path, P (h.key path)) {s : Store}
  (hs : ∀ k ∈ s.files.keys, P k)

include hkey hs

theorem keys_put (path : Path) (content : String) :
    ∀ k ∈ (s.put (h.key path) content).files.keys, P k := by
  intro k hk
  change k ∈ (s.files.set (h.key path) _).keys at hk
  cases hc : s.files.contains (h.key path) with
  | true =>
      rw [Table.keys_set_of_contains _ hc] at hk
      exact hs k hk
  | false =>
      rcases (Table.mem_keys_set _ hc).1 hk with rfl | hk
      · exact hkey path
      · exact hs k hk

/-- What is true of the keys of a handle stays true of all files that are edited through it. -/
theorem keys_edit (edit : Edit) : ∀ k ∈ (edit.change h s).files.keys, P k := by
  cases edit with
  | insert path content => exact keys_put hkey hs path content
  | write path content =>
      show ∀ k ∈ (h.write path content s).2.files.keys, P k
      unfold Handle.write
      split
      · exact hs
      · exact keys_put hkey hs path content
  | touch path =>
      show ∀ k ∈ (h.touch path s).2.files.keys, P k
      unfold Handle.touch
      split
      · exact keys_put hkey hs path _
      · exact hs
  | remove path =>
      show ∀ k ∈ (h.remove path s).2.files.keys, P k
      unfold Handle.remove
      split
      · exact fun k hk => hs k ((List.filter_sublist.map _).subset hk)
      · exact hs

end Edited

theorem Handle.Keyed.put {s : Store} (hs : h.Keyed s) (path : Path) (content : String) :
    h.Keyed (s.put (h.key path) content) := keys_put (same_key_key h) hs path content

theorem Handle.Keyed.edit {s : Store} (hs : h.Keyed s) (edit : Edit) : h.Keyed (edit.change h s) :=
  keys_edit (same_key_key h) hs edit

theorem Store.Plain.edit {s : Store} (hs : s.Plain) (h : Handle) (edit : Edit) :
    (edit.change h s).Plain := keys_edit (current_not_mem_key h) hs edit

theorem Handle.keyed_withFiles (h : Handle) (files : List (Path × String)) :
    h.Keyed (h.withFiles files) := by
  have hfold : ∀ (files : List (Path × String)) (s : Store), h.Keyed s →
      h.Keyed (files.foldl (fun s file => (h.insert file.1 file.2 s).2) s) := by
    intro files
    induction files with
    | nil => exact fun _ hs => hs
    | cons file rest ih => exact fun s hs => ih _ (hs.put file.1 file.2)
  exact hfold files .empty h.keyed_empty

end CompileWatch.Memory
