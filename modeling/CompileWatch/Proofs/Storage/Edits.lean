import CompileWatch.Proofs.Effect
import CompileWatch.Storage.Memory

/-!
# Files in memory and their edits

What the operations of a store in memory do to its files, and the edits that
others make. An edit goes through a handle of its own, which need not agree on
letter case with the handle of a session.
-/

namespace CompileWatch.Memory

open CompileWatch.Path

/-- What others do to files in memory. -/
inductive Edit where
  | insert (path : Path) (content : String)
  | write (path : Path) (content : String)
  | touch (path : Path)
  | remove (path : Path)

namespace Edit

def change (h : Handle) : Edit → Store → Store
  | insert path content, s => after (h.insert path content) s
  | write path content, s => after (h.write path content) s
  | touch path, s => after (h.touch path) s
  | remove path, s => after (h.remove path) s

end Edit

/-- The file that a path names. -/
def Handle.file? (h : Handle) (s : Store) (path : Path) : Option File := s.files.find? (h.key path)

theorem Handle.key_congr (h : Handle) {p q : Path} (hpq : p.same q = true) : h.key p = h.key q := by
  have : plain p = plain q := by rw [plain, plain, same_iff.1 hpq]
  simp only [key, this]

theorem Handle.toOption_modified (h : Handle) (s : Store) (path : Path) :
    (h.modified path s).toOption = (h.file? s path).map (·.modified) := by
  unfold Handle.modified Handle.file?
  cases s.files.find? (h.key path) <;> rfl

theorem Handle.toOption_read (h : Handle) (s : Store) (path : Path) :
    (h.read path s).toOption = (h.file? s path).map (·.content) := by
  unfold Handle.read Handle.file?
  cases s.files.find? (h.key path) <;> rfl

namespace Store

variable (s : Store) (key q : Path)

theorem find?_put (content : String) : (s.put key content).files.find? q =
    if key.same q then some ⟨content, s.clock + 1⟩ else s.files.find? q := by
  rw [put, Table.find?_set]

theorem find?_remove : (s.erase key).files.find? q =
    if key.same q then none else s.files.find? q := by
  rw [erase, Table.find?_erase]

end Store

end CompileWatch.Memory
