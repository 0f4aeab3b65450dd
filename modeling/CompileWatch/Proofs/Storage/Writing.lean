import CompileWatch.Output
import CompileWatch.Proofs.Storage.Frames

/-!
# Writing artifacts

Builds and sessions write artifacts in order until a write is refused
(`writeEach`). Over files in memory this lays down some first artifacts, and
whether a write is refused depends on the directories of the store alone. So the
same artifacts are laid down, and the same write is refused, in every wider store
in which nothing new stands in the way of a write (`Writes`).

Artifacts that are laid down twice leave the texts that they left the first time.
-/

namespace CompileWatch

open CompileWatch.Path Memory

namespace Memory

variable {h : Handle} {s t : Store} {W : List Component → Prop}

/-! ## Artifacts laid down -/

/-- The store with artifacts written to it in order, whatever stands in their way. -/
def Store.lay (h : Handle) (artifacts : List Artifact) (s : Store) : Store :=
  artifacts.foldl (fun s a => s.put (h.key a.path) a.content) s

/-- The texts of the files of a store, by key. -/
def Store.text? (s : Store) (key : Path) : Option String := (s.files.find? key).map (·.content)

/-- The text that artifacts, laid down in order, give to the file under a key. -/
def laid (h : Handle) (key : Path) : List Artifact → Option String
  | [] => none
  | a :: rest => (laid h key rest).or (if (h.key a.path).same key then some a.content else none)

theorem Store.text?_put (key q : Path) (content : String) :
    (s.put key content).text? q = if key.same q then some content else s.text? q := by
  rw [text?, find?_put]
  split <;> rfl

theorem Store.text?_lay (key : Path) : ∀ (artifacts : List Artifact) (s : Store),
    (s.lay h artifacts).text? key = (laid h key artifacts).or (s.text? key)
  | [], _ => rfl
  | a :: rest, s => by
      have ih := text?_lay key rest (s.put (h.key a.path) a.content)
      rw [lay, List.foldl_cons, ← lay, ih, text?_put, laid, Option.or_assoc]
      split <;> rfl

theorem Store.lay_append (artifacts more : List Artifact) (s : Store) :
    s.lay h (artifacts ++ more) = (s.lay h artifacts).lay h more := List.foldl_append

/-- Artifacts laid down again leave all texts as they are. -/
theorem Store.text?_lay_lay (artifacts : List Artifact) (s : Store) (key : Path) :
    ((s.lay h artifacts).lay h artifacts).text? key = (s.lay h artifacts).text? key := by
  rw [text?_lay, text?_lay, ← Option.or_assoc, Option.or_self]

theorem Added.lay (ha : Added W s t) {artifacts : List Artifact}
    (hW : ∀ a ∈ artifacts, W (h.place a.path)) : Added W s (t.lay h artifacts) := by
  induction artifacts generalizing t with
  | nil => exact ha
  | cons a rest ih =>
      exact ih (ha.put (hW a List.mem_cons_self) a.content) fun b hb =>
        hW b (List.mem_cons_of_mem a hb)

/-! ## Artifacts written until one is refused -/

end Memory

/-- Writes artifacts in order until one fails, and gives the paths written. -/
def writeEach {σ : Type} (storage : Storage σ) :
    List Artifact → StateM σ (Except HostError (List Path))
  | [] => pure (.ok [])
  | a :: rest => do
    match ← storage.write a.path a.content with
    | .error e => return .error (.write a.path e)
    | .ok () => return (← writeEach storage rest).map (a.path :: ·)

/-- Writes that were refused. -/
def Call.isRefused : Call → Bool
  | write _ made => !made
  | _ => false

namespace Memory

/-- What a run of `writeEach` over files in memory does, and does again in every wider store in which
nothing new stands in the way of a write: it lays down some first artifacts, and tries to write one
more unless these are all. -/
structure Writes (h : Handle) (artifacts : List Artifact) (s : Traced Store) (made : List Artifact)
    (tried : List (Path × Bool)) : Prop where
  mem_artifacts : ∀ path b, (path, b) ∈ tried → ∃ a ∈ artifacts, a.path = path
  mem_tried : ∀ a ∈ made, (a.path, true) ∈ tried
  again : ∀ (W : List Component → Prop) (t : Traced Store), Wider W s.inner t.inner →
    (∀ path b, (path, b) ∈ tried → ∀ place, W place → (Call.write path b).Spared h s.inner place) →
    answer (writeEach (Traced.storage h.storage) artifacts) t =
        answer (writeEach (Traced.storage h.storage) artifacts) s ∧
      after (writeEach (Traced.storage h.storage) artifacts) t =
        ⟨t.inner.lay h made, t.calls ++ tried.map fun (path, b) => Call.write path b⟩

section Writing

variable (h : Handle) (a : Artifact) (rest : List Artifact) (t : Traced Store)

/-- The store after a write that was made, and that is kept as a call. -/
def laidOne : Traced Store :=
  ⟨t.inner.put (h.key a.path) a.content, t.calls ++ [.write a.path true]⟩

theorem traced_write_run : ((Traced.storage h.storage).write a.path a.content).run t =
    if h.isDir a.path t.inner then
      (.error (.other s!"cannot write {a.path.text}: is a directory"),
        ⟨t.inner, t.calls ++ [.write a.path false]⟩)
    else (.ok (), laidOne h a t) := by
  have hrun : ((Traced.storage h.storage).write a.path a.content).run t =
      (answer (h.storage.write a.path a.content) t.inner,
        ⟨after (h.storage.write a.path a.content) t.inner,
          t.calls ++ [.write a.path (answer (h.storage.write a.path a.content) t.inner).isOk]⟩) := rfl
  rw [hrun]
  unfold answer after
  rw [h.write_run]
  cases h.isDir a.path t.inner with
  | true => rfl
  | false => rfl

variable {h a t}

theorem writeEach_refused (hd : h.isDir a.path t.inner = true) :
    answer (writeEach (Traced.storage h.storage) (a :: rest)) t =
        .error (.write a.path (.other s!"cannot write {a.path.text}: is a directory")) ∧
      after (writeEach (Traced.storage h.storage) (a :: rest)) t =
        ⟨t.inner, t.calls ++ [.write a.path false]⟩ := by
  unfold writeEach
  rw [answer_bind, after_bind]
  unfold answer after
  rw [traced_write_run, if_pos hd]
  exact ⟨rfl, rfl⟩

theorem writeEach_made (hd : h.isDir a.path t.inner = false) :
    answer (writeEach (Traced.storage h.storage) (a :: rest)) t =
        (answer (writeEach (Traced.storage h.storage) rest) (laidOne h a t)).map (a.path :: ·) ∧
      after (writeEach (Traced.storage h.storage) (a :: rest)) t =
        after (writeEach (Traced.storage h.storage) rest) (laidOne h a t) := by
  rw [writeEach, answer_bind, after_bind]
  unfold answer after
  rw [traced_write_run, if_neg (by rw [hd]; decide)]
  exact ⟨rfl, rfl⟩

end Writing

theorem exists_writes (h : Handle) : ∀ (artifacts : List Artifact) (s : Traced Store),
    ∃ made tried, Writes h artifacts s made tried
  | [], s => by
      refine ⟨[], [], by simp, by simp, fun W t _ _ => ⟨rfl, ?_⟩⟩
      rw [List.map_nil, List.append_nil]
      rfl
  | a :: rest, s => by
      cases hd : h.isDir a.path s.inner with
      | true =>
          refine ⟨[], [(a.path, false)], by simp, by simp, fun W t hw _ => ?_⟩
          obtain ⟨hanswer, hafter⟩ := writeEach_refused rest (hw.isDir_of_isDir hd)
          exact ⟨hanswer.trans (writeEach_refused rest hd).1.symm, hafter⟩
      | false =>
          obtain ⟨made, tried, hmade⟩ := exists_writes h rest (laidOne h a s)
          refine ⟨a :: made, (a.path, true) :: tried, ?_, ?_, fun W t hw hspared => ?_⟩
          · intro path b hb
            rcases List.mem_cons.1 hb with heq | hb
            · exact ⟨a, List.mem_cons_self, (congrArg Prod.fst heq).symm⟩
            · obtain ⟨c, hc, hpath⟩ := hmade.mem_artifacts path b hb
              exact ⟨c, List.mem_cons_of_mem a hc, hpath⟩
          · exact List.forall_mem_cons.2
              ⟨List.mem_cons_self, fun b hb => List.mem_cons_of_mem _ (hmade.mem_tried b hb)⟩
          · have hdt : h.isDir a.path t.inner = false :=
              (hw.isDir_eq (hspared _ _ List.mem_cons_self)).trans hd
            have hkept : ∀ place, s.inner.Holds place → (laidOne h a s).inner.Holds place :=
              fun place hs => Store.holds_put.2 (.inr hs)
            obtain ⟨hanswer, hafter⟩ := hmade.again W (laidOne h a t) (hw.put_put _ _ _) (by
              intro path b hb place hW hbelow
              have hs := hspared path b (List.mem_cons_of_mem _ hb) place hW hbelow
              obtain ⟨file, hfile, hin⟩ := Handle.isDir_iff.1 hs
              exact Handle.isDir_iff.2 ⟨file, hkept file hfile, hin⟩)
            rw [(writeEach_made rest hdt).1, (writeEach_made rest hdt).2,
              (writeEach_made rest hd).1, hanswer, hafter]
            refine ⟨rfl, ?_⟩
            rw [List.map_cons, List.append_cons]
            rfl

/-- A run of `writeEach` as it happens in the store that it is known from. -/
theorem Writes.after_eq {artifacts made : List Artifact} {s : Traced Store}
    {tried : List (Path × Bool)} (hw : Writes h artifacts s made tried) :
    after (writeEach (Traced.storage h.storage) artifacts) s =
      ⟨s.inner.lay h made, s.calls ++ tried.map fun (path, b) => Call.write path b⟩ :=
  (hw.again (fun _ => False) s ⟨fun _ hs => hs, fun _ hs => .inl hs⟩
    fun _ _ _ _ hW => hW.elim).2

/-! ## Writes that are not refused -/

/-- Whether no directory is in the way of artifacts that are written in order. -/
def Writable (h : Handle) : List Artifact → Store → Prop
  | [], _ => True
  | a :: rest, s => h.isDir a.path s = false ∧ Writable h rest (s.put (h.key a.path) a.content)

theorem writable_append {more : List Artifact} : ∀ {artifacts : List Artifact} {s : Store},
    Writable h (artifacts ++ more) s ↔ Writable h artifacts s ∧ Writable h more (s.lay h artifacts)
  | [], _ => iff_of_eq (true_and _).symm
  | a :: rest, s => by
      rw [List.cons_append, Writable, writable_append, Writable, and_assoc]
      rfl

theorem Writable.writeEach_eq : ∀ {artifacts : List Artifact} {t : Traced Store},
    Writable h artifacts t.inner →
      answer (writeEach (Traced.storage h.storage) artifacts) t = .ok (artifacts.map (·.path)) ∧
        after (writeEach (Traced.storage h.storage) artifacts) t =
          ⟨t.inner.lay h artifacts, t.calls ++ artifacts.map fun a => .write a.path true⟩
  | [], t, _ => ⟨rfl, congrArg (Traced.mk t.inner) (List.append_nil t.calls).symm⟩
  | a :: rest, t, hw => by
      obtain ⟨hanswer, hafter⟩ := writeEach_eq (t := laidOne h a t) hw.2
      rw [(writeEach_made rest hw.1).1, (writeEach_made rest hw.1).2, hanswer, hafter]
      refine ⟨rfl, ?_⟩
      rw [List.map_cons, List.append_cons]
      rfl

theorem writable_or_refused : ∀ (artifacts : List Artifact) (t : Traced Store),
    Writable h artifacts t.inner ∨
      ∃ call ∈ (after (writeEach (Traced.storage h.storage) artifacts) t).calls,
        call.isRefused = true
  | [], _ => .inl trivial
  | a :: rest, t => by
      cases hd : h.isDir a.path t.inner with
      | true =>
          rw [(writeEach_refused rest hd).2]
          exact .inr ⟨.write a.path false, by simp, rfl⟩
      | false =>
          rw [(writeEach_made rest hd).2]
          exact (writable_or_refused rest (laidOne h a t)).imp_left fun hrest => ⟨hd, hrest⟩

end Memory

end CompileWatch
