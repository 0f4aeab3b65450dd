import CompileWatch.Proofs.Looking

/-!
# Traced storages

A traced storage answers as the one inside it does and keeps a list of all calls
made to it, earliest first. The list tells what an action has asked, and so also
what it can have learned: an action that acts on files through a storage alone
does the same wherever its calls are answered in the same way.

`Asks` says this of actions that make calls of some kinds only, none of which
changes a state. They come to the same answer, by the same calls, in every state
that answers these calls as the first one did. What else is different between
the two states cannot matter.
-/

namespace CompileWatch

/-- A call of a storage. A write is kept with whether it was made. -/
inductive Call where
  | contains (path : Path)
  | isDir (path : Path)
  | isSymlink (path : Path)
  | read (path : Path)
  | write (path : Path) (made : Bool)
  | list (path : Path)
  | modified (path : Path)
deriving DecidableEq

namespace Call

def path : Call → Path
  | contains path | isDir path | isSymlink path | read path | write path _ | list path
  | modified path => path

/-- Calls that leave the files as they are. -/
def IsLook : Call → Prop
  | write _ _ => False
  | _ => True

/-- Questions after single files. -/
def IsProbe : Call → Prop
  | contains _ | read _ => True
  | _ => False

instance : DecidablePred IsProbe
  | contains _ | read _ => .isTrue trivial
  | isDir _ | isSymlink _ | write _ _ | list _ | modified _ => .isFalse id

/-- Writes that were made. -/
def isMade : Call → Bool
  | write _ made => made
  | _ => false

variable {σ : Type}

/-- Whether a call is answered alike in two states. -/
def Alike (inside : Storage σ) (s t : σ) : Call → Prop
  | contains path => answer (inside.contains path) t = answer (inside.contains path) s
  | isDir path => answer (inside.isDir path) t = answer (inside.isDir path) s
  | isSymlink path => answer (inside.isSymlink path) t = answer (inside.isSymlink path) s
  | read path => answer (inside.read path) t = answer (inside.read path) s
  | write path _ =>
    ∀ content, answer (inside.write path content) t = answer (inside.write path content) s
  | list path => answer (inside.list path) t = answer (inside.list path) s
  | modified path => answer (inside.modified path) t = answer (inside.modified path) s

theorem Alike.refl (inside : Storage σ) (s : σ) (call : Call) : call.Alike inside s s := by
  cases call <;> first | rfl | exact fun _ => rfl

end Call

/-- A state, and the calls that have been made, the earliest first. -/
structure Traced (σ : Type) where
  inner : σ
  calls : List Call := []

namespace Traced

variable {σ α : Type}

def traced (call : α → Call) (action : StateM σ α) : StateM (Traced σ) α := fun t =>
  let (answer, inner) := action.run t.inner
  (answer, ⟨inner, t.calls ++ [call answer]⟩)

/-- A storage whose calls are kept. -/
def storage (inside : Storage σ) : Storage (Traced σ) where
  contains path := traced (fun _ => .contains path) (inside.contains path)
  isDir path := traced (fun _ => .isDir path) (inside.isDir path)
  isSymlink path := traced (fun _ => .isSymlink path) (inside.isSymlink path)
  read path := traced (fun _ => .read path) (inside.read path)
  write path content := traced (fun answer => .write path answer.isOk) (inside.write path content)
  list path := traced (fun _ => .list path) (inside.list path)
  modified path := traced (fun _ => .modified path) (inside.modified path)
  caseSensitive t := inside.caseSensitive t.inner
  extent t := inside.extent t.inner

@[simp]
theorem after_traced (call : α → Call) (action : StateM σ α) (t : Traced σ) :
    after (traced call action) t =
      ⟨after action t.inner, t.calls ++ [call (answer action t.inner)]⟩ := rfl

end Traced

namespace Traced

variable {σ α : Type}

theorem projects_traced (call : α → Call) (action : StateM σ α) :
    Projects inner (traced call action) action := fun _ => ⟨rfl, rfl⟩

theorem keeps_traced {P : σ → Prop} {action : StateM σ α} (h : Keeps P action) (call : α → Call) :
    Keeps (fun t => P t.inner) (traced call action) := fun t ht => h t.inner ht

theorem looks_inner {inside : Storage σ} {P : σ → Prop} (h : inside.Looks P) :
    (storage inside).Looks fun t => P t.inner where
  contains path := keeps_traced (h.contains path) _
  isDir path := keeps_traced (h.isDir path) _
  isSymlink path := keeps_traced (h.isSymlink path) _
  read path := keeps_traced (h.read path) _
  list path := keeps_traced (h.list path) _

/-- The world without its trace. -/
def forget (w : World (Traced σ)) : World σ := ⟨w.store.inner, w.journal⟩

theorem projects_onStore {x : StateM (Traced σ) α} {y : StateM σ α} (h : Projects inner x y) :
    Projects forget (Exec.onStore x) (Exec.onStore y) := fun w =>
  ⟨(h w.store).1, congrArg (World.mk · w.journal) (h w.store).2⟩

/-! ## Traced searches -/

variable (inside : Storage σ) (query : Sources.Query)

theorem projects_classify : ∀ entries,
    Projects inner (Sources.classify (storage inside) query entries)
      (Sources.classify inside query entries)
  | [] => .pure _
  | entry :: rest => by
      have hdir : Projects inner ((storage inside).isDir entry) (inside.isDir entry) :=
        projects_traced _ _
      have hlink : Projects inner ((storage inside).isSymlink entry) (inside.isSymlink entry) :=
        projects_traced _ _
      refine hdir.bind fun isDir => ?_
      cases isDir with
      | false => exact (projects_classify rest).bind fun _ => .pure _
      | true => exact hlink.bind fun _ => (projects_classify rest).bind fun _ => .pure _

theorem projects_search : ∀ fuel pending found,
    Projects forget (Sources.search (storage inside) query fuel pending found)
      (Sources.search inside query fuel pending found)
  | 0, _, _ => .pure _
  | _ + 1, [], _ => .pure _
  | fuel + 1, dir :: pending, found => by
      have hlist : Projects inner ((storage inside).list dir) (inside.list dir) :=
        projects_traced _ _
      refine (projects_onStore hlist).bind fun listed => ?_
      cases listed with
      | error e =>
          have hwarn : Projects forget (Exec.warn "cannot list directory" : Exec (Traced σ) Unit)
              (Exec.warn "cannot list directory") := fun _ => ⟨rfl, rfl⟩
          exact hwarn.bind fun _ => projects_search fuel _ _
      | ok entries =>
          exact (projects_onStore (projects_classify inside query entries)).bind fun _ =>
            projects_search fuel _ _

/-- A search that is traced finds what it finds without. -/
theorem answer_collect (root : Path) (extension : String) (outDir : Option Path)
    (w : World (Traced σ)) :
    answer (Sources.collect (storage inside) root extension outDir) w =
      answer (Sources.collect inside root extension outDir) (forget w) :=
  congrArg Path.sort (projects_search inside _ _ [root] [] w).1

end Traced

/-! ## Actions that only ask -/

section Asks

variable {σ τ α β : Type} (inside : Storage σ) (may : Call → Prop) (store : τ → Traced σ)

/-- In a state, an action makes some calls and no others, all of the kinds that it may make; and it
does the same in all states that answer these calls alike. -/
structure AsksJust (x : StateM τ α) (a : τ) (asked : List Call) : Prop where
  allowed : ∀ call ∈ asked, may call
  again : ∀ b, (∀ call ∈ asked, call.Alike inside (store a).inner (store b).inner) →
    answer x b = answer x a ∧ store (after x b) = ⟨(store b).inner, (store b).calls ++ asked⟩

/-- An action whose answer rests on the answers to its calls. -/
def Asks (x : StateM τ α) : Prop := ∀ a, ∃ asked, AsksJust inside may store x a asked

variable {inside may store} {x : StateM τ α}

theorem AsksJust.store_after {a : τ} {asked : List Call} (h : AsksJust inside may store x a asked) :
    store (after x a) = ⟨(store a).inner, (store a).calls ++ asked⟩ :=
  (h.again a fun call _ => .refl inside _ call).2

namespace Asks

/-- An action that makes no call and leaves the state alone, whatever it reports. -/
theorem silent (answered : α) (h : ∀ a, answer x a = answered ∧ store (after x a) = store a) :
    Asks inside may store x := by
  refine fun a => ⟨[], ⟨by simp, fun b _ => ⟨?_, ?_⟩⟩⟩
  · rw [(h a).1, (h b).1]
  · rw [(h b).2, List.append_nil]

protected theorem pure (answered : α) : Asks inside may store (pure answered : StateM τ α) :=
  silent answered fun _ => ⟨rfl, rfl⟩

protected theorem bind {f : α → StateM τ β} (hx : Asks inside may store x)
    (hf : ∀ answered, Asks inside may store (f answered)) : Asks inside may store (x >>= f) := by
  intro a
  obtain ⟨first, hfirst⟩ := hx a
  obtain ⟨second, hsecond⟩ := hf (answer x a) (after x a)
  refine ⟨first ++ second, ⟨fun call hc => ?_, fun b hb => ?_⟩⟩
  · exact (List.mem_append.1 hc).elim (hfirst.allowed call) (hsecond.allowed call)
  · obtain ⟨hx, hb'⟩ := hfirst.again b fun call hc => hb call (List.mem_append_left _ hc)
    -- the second action starts from the same two states, with more calls made
    have halike : ∀ call ∈ second,
        call.Alike inside (store (after x a)).inner (store (after x b)).inner := by
      intro call hc
      rw [hfirst.store_after, hb']
      exact hb call (List.mem_append_right _ hc)
    obtain ⟨hf, hb''⟩ := hsecond.again (after x b) halike
    rw [answer_bind, answer_bind, after_bind, hx]
    refine ⟨hf, ?_⟩
    rw [hb'', hb', List.append_assoc]

theorem onStore {x : StateM (Traced σ) α} (hx : Asks inside may id x) :
    Asks inside may World.store (Exec.onStore x) := by
  intro a
  obtain ⟨asked, h⟩ := hx a.store
  exact ⟨asked, ⟨h.allowed, fun b hb => h.again b.store hb⟩⟩

theorem report (level : LogLevel) (message : String) :
    Asks inside may World.store (Exec.report level message) :=
  silent () fun _ => ⟨rfl, rfl⟩

theorem traced {action : StateM σ α} (call : Call) (hmay : may call)
    (hstill : ∀ s, after action s = s)
    (halike : ∀ s t, call.Alike inside s t → answer action t = answer action s) :
    Asks inside may id (Traced.traced (fun _ => call) action) := by
  refine fun a => ⟨[call], ⟨fun other ho => ?_, fun b hb => ⟨?_, ?_⟩⟩⟩
  · rw [List.mem_singleton.1 ho]
    exact hmay
  · exact halike _ _ (hb call (List.mem_singleton_self call))
  · show (⟨after action b.inner, b.calls ++ [call]⟩ : Traced σ) = _
    rw [hstill]
    rfl

end Asks

end Asks

section Looks

variable {σ : Type} {inside : Storage σ} {may : Call → Prop}

/-- No look at the files of a storage changes its state. -/
def Storage.Still (storage : Storage σ) : Prop := ∀ s, storage.Looks (· = s)

variable (hstill : inside.Still) (path : Path)

include hstill

theorem Storage.Still.asks_contains (hmay : may (.contains path)) :
    Asks inside may id ((Traced.storage inside).contains path) :=
  .traced _ hmay (fun s => (hstill s).contains path s rfl) fun _ _ h => h

theorem Storage.Still.asks_read (hmay : may (.read path)) :
    Asks inside may id ((Traced.storage inside).read path) :=
  .traced _ hmay (fun s => (hstill s).read path s rfl) fun _ _ h => h

end Looks

end CompileWatch
