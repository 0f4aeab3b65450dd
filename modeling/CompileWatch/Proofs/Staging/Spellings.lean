import CompileWatch.Proofs.Staging.Repeated

/-!
# Spellings of a staged source

A store knows a source by its key, and lists its entries as their keys are spelled. A
staging run takes the source, as it was spelled by the caller, away from these entries.
That goes well for every spelling with the components of the key, and then the run is
that of the key (`Copies.respell`). A source that begins with a dot, or that has
capitals where letter case does not count, is a directory as well. But its first file
is taken for one that escapes it, and so nothing of it is ever staged
(`staged_iff_plainly_spelled`).
-/

namespace CompileWatch.Memory

open CompileWatch.Path

variable {h : Handle} {s : Store} {source destination : Path} {n : Nat}
  {entries pending : List Path} {made : List Artifact}

/-! ## Spellings with the same components -/

theorem key_key (h : Handle) (p : Path) : h.key (h.key p) = h.key p := by
  rw [h.key_eq (h.key p), h.place_key, ← h.key_eq]

theorem stripPrefix?_congr {base base' : Path} (hsame : base'.components = base.components)
    (p : Path) : p.stripPrefix? base' = p.stripPrefix? base := by
  unfold stripPrefix? startsWith
  rw [hsame]

theorem Follows.respell {source' file target : Path} (hsame : source'.components = source.components)
    (hfollows : Follows h source destination file target) :
    Follows h source' destination file target := by
  have hplace : h.place source' = h.place source := by rw [h.place_eq, h.place_eq, hsame]
  obtain ⟨hspelled, hway⟩ := hfollows
  rw [← hplace] at hspelled hway
  exact ⟨hsame.trans hspelled, hway⟩

theorem Copies.respell {source' : Path} (hsame : source'.components = source.components)
    (hrun : Copies h source destination n entries pending s made) :
    Copies h source' destination n entries pending s made := by
  have hplace : h.place source' = h.place source := by rw [h.place_eq, h.place_eq, hsame]
  induction hrun with
  | done s => exact .done s
  | enter hbelow hl _ ih =>
      rw [← hplace] at hbelow
      exact .enter hbelow hl ih
  | directory hbelow hdir _ ih =>
      rw [← hplace] at hbelow
      exact .directory hbelow hdir ih
  | file hfile hstrip hfollows hread hfree _ ih =>
      exact .file hfile ((stripPrefix?_congr hsame _).trans hstrip) (hfollows.respell hsame) hread
        hfree ih

/-- A run that copies a file has a source that is spelled as its key is. -/
theorem Copies.spelled (hrun : Copies h source destination n entries pending s made)
    (hne : made ≠ []) : source.components = h.place source := by
  induction hrun with
  | done s => exact absurd rfl hne
  | enter _ _ _ ih => exact ih hne
  | directory _ _ _ ih => exact ih hne
  | file _ _ hfollows _ _ _ _ => exact hfollows.spelled

/-- To enter a directory is to enter its key. -/
theorem Copies.enter_key_iff :
    Copies h source destination n [] [h.key source] s made ↔
      Copies h source destination n [] [source] s made := by
  have hlist : ∀ entries, h.list (h.key source) s = .ok entries ↔ h.list source s = .ok entries := by
    intro entries
    rw [Handle.list_eq_ok_iff, Handle.list_eq_ok_iff, key_key]
  constructor
  · intro hrun
    cases hrun with
    | enter hbelow hl hrest =>
        rw [Handle.place_key] at hbelow
        exact .enter hbelow ((hlist _).1 hl) hrest
  · intro hrun
    cases hrun with
    | enter _ hl hrest =>
        have hbelow : h.place source <+: h.place (h.key source) :=
          ⟨[], by rw [List.append_nil, Handle.place_key]⟩
        exact .enter hbelow ((hlist _).2 hl) hrest

theorem Copies.of_key_iff (hsame : source.components = h.place source) :
    Copies h (h.key source) destination n [] [h.key source] s made ↔
      Copies h source destination n [] [source] s made := by
  have hkey : (h.key source).components = source.components := hsame.symm
  calc Copies h (h.key source) destination n [] [h.key source] s made
    _ ↔ Copies h source destination n [] [h.key source] s made :=
      ⟨Copies.respell hkey.symm, Copies.respell hkey⟩
    _ ↔ Copies h source destination n [] [source] s made := Copies.enter_key_iff

/-! ## Sources that are not spelled as their keys -/

/-- Where a source cannot be taken away from its entries, a run goes down from one directory to the
next until it comes to a file, or until it has entered too many of them. It writes nothing. -/
theorem run_copyFrom_of_ne (hne : source.components ≠ h.place source) (destination : Path) :
    ∀ (fuel : Nat) (entries pending written : List Path), AllListed h s source entries →
    (∀ dir ∈ pending, h.place source <+: h.place dir ∧ h.isDir dir s = true) →
    entries ≠ [] ∨ pending ≠ [] →
    (∃ entry, (copyFrom h source destination fuel entries pending written).run s =
        (.error (.escapes entry source), s)) ∨
      (copyFrom h source destination fuel entries pending written).run s =
          (.error .tooManyDirectories, s) ∧
        (s.Plain → ∀ next, (entries.reverse ++ pending).head? = some next →
          fuel + (h.place next).length < s.depth)
  | _, [], [], _, _, _, htodo => by simp at htodo
  | 0, [], dir :: pending, _, _, hpending, _ => by
      refine .inr ⟨by rw [run_copyFrom_nil]; rfl, fun _ next hnext => ?_⟩
      obtain rfl : dir = next := by simpa using hnext
      rw [Nat.zero_add]
      exact Handle.length_place_lt (hpending dir List.mem_cons_self).2
  | fuel + 1, [], dir :: pending, written, _, hpending, _ => by
      obtain ⟨⟨hbelow, hdir⟩, hpending⟩ := List.forall_mem_cons.1 hpending
      obtain ⟨entries, hl⟩ := Handle.exists_list_iff_isDir.2 hdir
      have hlisted : AllListed h s source entries := fun entry he => ⟨dir, hbelow, entries, hl, he⟩
      have hsome : entries ≠ [] := (Handle.list_eq_ok_iff.1 hl).2
      rw [run_copyFrom_nil, run_copyTree_cons, hl]
      refine (run_copyFrom_of_ne hne destination fuel entries pending written hlisted hpending
        (.inl hsome)).imp_right ?_
      intro ⟨hrun, hdeep⟩
      refine ⟨hrun, fun hs next hnext => ?_⟩
      obtain rfl : dir = next := by simpa using hnext
      -- the latest entry is the directory that is entered next
      have hlast : (entries.reverse ++ pending).head? = some (entries.getLast hsome) := by
        rw [List.head?_append_of_ne_nil _ (by simpa using hsome), List.head?_reverse,
          List.getLast?_eq_some_getLast hsome]
      obtain ⟨c, hc⟩ := (Handle.storage_descends hs).placed dir entries hl _ (List.getLast_mem hsome)
      have hdeep := hdeep hs _ hlast
      rw [hc, List.length_append, List.length_singleton] at hdeep
      omega
  | fuel, entry :: rest, pending, written, hlisted, hpending, _ => by
      obtain ⟨⟨dir, hdir, hl⟩, hrest⟩ := List.forall_mem_cons.1 hlisted
      rw [run_copyFrom_cons]
      cases hisDir : h.isDir entry s with
      | true =>
          have hpending : ∀ dir ∈ entry :: pending,
              h.place source <+: h.place dir ∧ h.isDir dir s = true :=
            List.forall_mem_cons.2 ⟨⟨hdir.trans hl.place_prefix, hisDir⟩, hpending⟩
          rw [if_pos rfl, List.reverse_cons, List.append_assoc]
          exact run_copyFrom_of_ne hne destination fuel rest (entry :: pending) written hrest
            hpending (.inr (List.cons_ne_nil entry pending))
      | false =>
          rw [if_neg (by decide)]
          cases hstrip : entry.stripPrefix? source with
          | none => exact .inl ⟨entry, rfl⟩
          | some relative =>
              have hfollows : Follows h source destination entry (destination.join relative) :=
                hl.follows hdir hisDir hstrip
              exact absurd hfollows.spelled hne

/-! ## The whole run -/

section Stage

variable {w : World Store} {root dest : Path} {limit : Nat}

/-- A run that fails without a write, as the answer of the whole. -/
theorem failed_stage {e : StageError} (hdir : h.isDir source w.store = true)
    (hrun : (copyFrom h source (root.join dest) limit [] [source] []).run w.store =
      (.error e, w.store)) :
    answer (Staging.stage limit h.storage source root dest) w = .error e ∧
      (after (Staging.stage limit h.storage source root dest) w).store = w.store := by
  rw [run_copyFrom_nil] at hrun
  have hanswer : answer (Staging.copyTree h.storage source (root.join dest) limit [source] [])
      w.store = .error e := congrArg Prod.fst hrun
  have hstore : after (Staging.copyTree h.storage source (root.join dest) limit [source] [])
      w.store = w.store := congrArg Prod.snd hrun
  rw [(stage_eq_of_isDir hdir).1, (stage_eq_of_isDir hdir).2, hanswer, hstore]
  exact ⟨rfl, rfl⟩

/-- A directory is staged under a spelling just if it is staged under its key and the spelling has
the components of the key, and then to the same result. Under any other spelling nothing is written: the
run ends with the first file it comes to, which it takes for one that escapes the source, or it has
entered too many directories before. It has to enter no more of them than the longest key has
components. -/
theorem staged_iff_plainly_spelled (hdir : h.isDir source w.store = true) (limit : Nat)
    (root dest : Path) :
    let run (source : Path) := Staging.stage limit h.storage source root dest
    (∀ result, answer (run source) w = .ok result ↔
      source.components = h.place source ∧ answer (run (h.key source)) w = .ok result) ∧
    (∀ result, answer (run source) w = .ok result →
      (after (run source) w).store = (after (run (h.key source)) w).store) ∧
    (source.components ≠ h.place source →
      (after (run source) w).store = w.store ∧
      ((∃ entry, answer (run source) w = .error (.escapes entry source)) ∨
        answer (run source) w = .error .tooManyDirectories) ∧
      (w.store.Plain → w.store.depth ≤ limit →
        ∃ entry, answer (run source) w = .error (.escapes entry source))) := by
  intro run
  have hkey : h.isDir (h.key source) w.store = true := by
    rw [Handle.isDir, key_key]
    exact hdir
  have hsame : ∀ {n made}, source.components = h.place source →
      (Copies h (h.key source) (root.join dest) n [] [h.key source] w.store made ↔
        Copies h source (root.join dest) n [] [source] w.store made) := Copies.of_key_iff
  refine ⟨fun result => ⟨fun hok => ?_, fun ⟨hspelled, hok⟩ => ?_⟩, fun result hok => ?_,
    fun hne => ?_⟩
  · obtain ⟨n, hle, made, hcopies, rfl⟩ := exists_copies_of_stage hdir hok
    have hspelled := hcopies.spelled (hcopies.made_ne_nil (.inr (List.cons_ne_nil _ _)))
    exact ⟨hspelled, (((hsame hspelled).2 hcopies).stage hkey hle).1⟩
  · obtain ⟨n, hle, made, hcopies, rfl⟩ := exists_copies_of_stage hkey hok
    exact (((hsame hspelled).1 hcopies).stage hdir hle).1
  · obtain ⟨n, hle, made, hcopies, rfl⟩ := exists_copies_of_stage hdir hok
    have hspelled := hcopies.spelled (hcopies.made_ne_nil (.inr (List.cons_ne_nil _ _)))
    rw [(hcopies.stage hdir hle).2, (((hsame hspelled).2 hcopies).stage hkey hle).2]
  · have hends := run_copyFrom_of_ne hne (root.join dest) limit [] [source] []
      (fun _ he => absurd he List.not_mem_nil)
      (List.forall_mem_singleton.2 ⟨List.prefix_refl _, hdir⟩) (.inr (List.cons_ne_nil _ _))
    rcases hends with ⟨entry, hrun⟩ | ⟨hrun, hdeep⟩
    · obtain ⟨hanswer, hstore⟩ := failed_stage hdir hrun
      exact ⟨hstore, .inl ⟨entry, hanswer⟩, fun _ _ => ⟨entry, hanswer⟩⟩
    · obtain ⟨hanswer, hstore⟩ := failed_stage hdir hrun
      refine ⟨hstore, .inr hanswer, fun hs hlimit => ?_⟩
      have hdeep := hdeep hs source rfl
      omega

end Stage

/-- A slash and a dot at the end change no component. -/
theorem staged_iff_plainly_spelled_site :
    let result : StageResult := ⟨⟨"/out"⟩, [⟨"/out/img/logo"⟩, ⟨"/out/page"⟩]⟩
    exact.isDir ⟨"//site/."⟩ site.store = true ∧
      answer (Staging.stage 100 exact.storage ⟨"/site"⟩ ⟨"/"⟩ ⟨"out"⟩) site = .ok result ∧
      answer (Staging.stage 100 exact.storage ⟨"//site/."⟩ ⟨"/"⟩ ⟨"out"⟩) site = .ok result := by
  intro result
  have hdir : exact.isDir ⟨"//site/."⟩ site.store = true := by decide +kernel
  have hkey : exact.key ⟨"//site/."⟩ = ⟨"/site"⟩ := by decide +kernel
  have hok : answer (Staging.stage 100 exact.storage ⟨"/site"⟩ ⟨"/"⟩ ⟨"out"⟩) site = .ok result := by
    decide +kernel
  have hspelled : (⟨"//site/."⟩ : Path).components = exact.place ⟨"//site/."⟩ := by decide +kernel
  refine ⟨hdir, hok, ?_⟩
  rw [← hkey] at hok
  exact ((staged_iff_plainly_spelled hdir 100 ⟨"/"⟩ ⟨"out"⟩).1 result).2 ⟨hspelled, hok⟩

/-- A leading dot, and a capital where letter case does not count: both are directories, and their
files are said to escape them. -/
theorem existing_source_escapes :
    let dotted : World Store := ⟨exact.withFiles [(⟨"src/a.txt"⟩, "x")], []⟩
    let folded : World Store := ⟨folding.withFiles [(⟨"/src/a.txt"⟩, "x")], []⟩
    exact.isDir ⟨"./src"⟩ dotted.store = true ∧
      answer (Staging.stage 100 exact.storage ⟨"./src"⟩ ⟨"/out"⟩ ⟨"d"⟩) dotted =
        .error (.escapes ⟨"src/a.txt"⟩ ⟨"./src"⟩) ∧
      answer (Staging.stage 100 exact.storage (exact.key ⟨"./src"⟩) ⟨"/out"⟩ ⟨"d"⟩) dotted =
        .ok ⟨⟨"/out/d"⟩, [⟨"/out/d/a.txt"⟩]⟩ ∧
      folding.isDir ⟨"/Src"⟩ folded.store = true ∧
      answer (Staging.stage 100 folding.storage ⟨"/Src"⟩ ⟨"/out"⟩ ⟨"d"⟩) folded =
        .error (.escapes ⟨"/src/a.txt"⟩ ⟨"/Src"⟩) ∧
      answer (Staging.stage 100 folding.storage (folding.key ⟨"/Src"⟩) ⟨"/out"⟩ ⟨"d"⟩) folded =
        .ok ⟨⟨"/out/d"⟩, [⟨"/out/d/a.txt"⟩]⟩ := by
  decide +kernel

end CompileWatch.Memory
