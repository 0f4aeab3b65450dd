import CompileWatch.Document.Json5.Reader
import CompileWatch.Document.Shape
import CompileWatch.Proofs.Effect
import Mathlib.Data.List.Basic

/-!
# Fields of objects

An object has each key once, in ascending order (`Ascending`), and in a document
this holds at every depth (`Ordered`), however it was built and whatever text it
was read from (`Json5.ordered_of_read`). To enter a key that is there already is
therefore to change its value where it stands (`setField_of_mem`). An object that is
made of fields in any order has them in the order of their keys (`exists_ofFields`).

A record is read from an object field by field. What it takes from the known keys
does not depend on what stands between them (`exists_record`).
-/

namespace CompileWatch

namespace Document

/-- Whether the keys of some fields go up. -/
def Ascending (fields : List (String × Document)) : Prop :=
  fields.Pairwise fun f g => compare f.1 g.1 = .lt

/-- Whether all objects in a document have ascending keys. -/
inductive Ordered : Document → Prop
  | null : Ordered .null
  | bool (value) : Ordered (.bool value)
  | integer (value) : Ordered (.integer value)
  | number (value) : Ordered (.number value)
  | text (value) : Ordered (.text value)
  | array {items} : (∀ item ∈ items, Ordered item) → Ordered (.array items)
  | object {fields} : Ascending fields → (∀ f ∈ fields, Ordered f.2) → Ordered (.object fields)

theorem ordered_array_iff {items : List Document} :
    Ordered (.array items) ↔ ∀ item ∈ items, Ordered item := by
  constructor
  · rintro (_ | _ | _ | _ | _ | hitems)
    exact hitems
  · exact .array

theorem ordered_object_iff {fields : List (String × Document)} :
    Ordered (.object fields) ↔ Ascending fields ∧ ∀ f ∈ fields, Ordered f.2 := by
  constructor
  · rintro (_ | _ | _ | _ | _ | _ | ⟨hfields, hvalues⟩)
    exact ⟨hfields, hvalues⟩
  · exact fun h => .object h.1 h.2

variable {key : String} {value : Document} {fields : List (String × Document)}

theorem Ascending.distinct (h : Ascending fields) : fields.Pairwise fun f g => f.1 ≠ g.1 :=
  h.imp fun hlt heq => absurd (heq ▸ hlt) (by simp)

/-- Fields that go up still do so when some are left out and values are changed. -/
theorem Ascending.filterMap (h : Ascending fields)
    {change : String × Document → Option (String × Document)}
    (hkey : ∀ f g, change f = some g → g.1 = f.1) : Ascending (fields.filterMap change) :=
  List.Pairwise.filterMap change (fun f g hlt f' hf g' hg => by
    rw [hkey f f' hf, hkey g g' hg]
    exact hlt) h

theorem Ascending.filter (h : Ascending fields) (keep : String × Document → Bool) :
    Ascending (fields.filter keep) := List.Pairwise.filter keep h

theorem field?_eq_some_iff (h : Ascending fields) :
    (Document.object fields).field? key = some value ↔ (key, value) ∈ fields := by
  rw [field?, Option.map_eq_some_iff]
  constructor
  · rintro ⟨f, hf, rfl⟩
    have hkey : f.1 = key := by simpa using List.find?_some hf
    exact hkey ▸ List.mem_of_find?_eq_some hf
  · intro hmem
    induction fields with
    | nil => cases hmem
    | cons f rest ih =>
        obtain ⟨hfirst, hrest⟩ := List.pairwise_cons.1 h.distinct
        rcases List.mem_cons.1 hmem with rfl | hmem
        · exact ⟨_, List.find?_cons_of_pos (beq_self_eq_true key), rfl⟩
        · rw [List.find?_cons_of_neg (by simpa using hfirst _ hmem)]
          exact ih (List.pairwise_cons.1 h).2 hmem

theorem field?_of_mem (h : Ascending fields) {f : String × Document} (hf : f ∈ fields)
    (hkey : f.1 = key) : (Document.object fields).field? key = some f.2 := by
  subst hkey
  exact (field?_eq_some_iff h).2 hf

/-! ## Entering a field -/

theorem mem_setField {f : String × Document} (hf : f ∈ setField key value fields) :
    f = (key, value) ∨ f ∈ fields := by
  fun_induction setField key value fields with
  | case1 => exact .inl (List.mem_singleton.1 hf)
  | case2 k old rest hlt => exact List.mem_cons.1 hf
  | case3 k old rest heq =>
      rw [Std.LawfulEqOrd.eq_of_compare heq]
      exact (List.mem_cons.1 hf).imp_right (List.mem_cons_of_mem _)
  | case4 k old rest hgt ih =>
      rcases List.mem_cons.1 hf with rfl | hf
      · exact .inr List.mem_cons_self
      · exact (ih hf).imp_right (List.mem_cons_of_mem _)

theorem ascending_setField (h : Ascending fields) : Ascending (setField key value fields) := by
  fun_induction setField key value fields with
  | case1 => exact List.pairwise_singleton _ _
  | case2 k old rest hlt =>
      refine List.pairwise_cons.2 ⟨List.forall_mem_cons.2 ⟨hlt, fun f hf => ?_⟩, h⟩
      exact Std.TransCmp.lt_trans hlt ((List.pairwise_cons.1 h).1 f hf)
  | case3 k old rest heq => exact List.pairwise_cons.2 (List.pairwise_cons.1 h)
  | case4 k old rest hgt ih =>
      obtain ⟨hfirst, hrest⟩ := List.pairwise_cons.1 h
      refine List.pairwise_cons.2 ⟨fun f hf => ?_, ih hrest⟩
      rcases mem_setField hf with rfl | hf
      · exact Std.OrientedCmp.lt_of_gt hgt
      · exact hfirst f hf

/-- A key that is there keeps its place, and its value is replaced. -/
theorem setField_of_mem (h : Ascending fields) (hkey : ∃ f ∈ fields, f.1 = key) :
    setField key value fields = fields.map fun f => if f.1 = key then (key, value) else f := by
  fun_induction setField key value fields with
  | case1 =>
      obtain ⟨f, hf, -⟩ := hkey
      cases hf
  | case2 k old rest hlt =>
      obtain ⟨f, hf, rfl⟩ := hkey
      rcases List.mem_cons.1 hf with rfl | hf
      · exact absurd hlt (by simp)
      · have hgt := Std.OrientedCmp.gt_of_lt ((List.pairwise_cons.1 h).1 f hf)
        rw [hlt] at hgt
        cases hgt
  | case3 k old rest heq =>
      obtain rfl := Std.LawfulEqOrd.eq_of_compare heq
      have hrest : ∀ f ∈ rest, (if f.1 = key then (key, value) else f) = f := fun f hf =>
        if_neg ((List.pairwise_cons.1 h.distinct).1 f hf).symm
      rw [List.map_cons, if_pos rfl, List.map_congr_left hrest, List.map_id']
  | case4 k old rest hgt ih =>
      have hne : k ≠ key := by
        rintro rfl
        exact absurd hgt (by simp)
      obtain ⟨f, hf, hkey⟩ := hkey
      have hmem : ∃ f ∈ rest, f.1 = key := by
        rcases List.mem_cons.1 hf with rfl | hf
        · exact absurd hkey hne
        · exact ⟨f, hf, hkey⟩
      rw [List.map_cons, if_neg hne, ih (List.pairwise_cons.1 h).2 hmem]

/-- An object made of fields in any order has nothing but those fields, in the order of their
keys. -/
theorem exists_ofFields (fields : List (String × Document)) :
    ∃ sorted, ofFields fields = .object sorted ∧ Ascending sorted ∧ ∀ f ∈ sorted, f ∈ fields := by
  have hfold : ∀ (fields sorted : List (String × Document)), Ascending sorted →
      ∃ last, fields.foldl (fun sorted f => setField f.1 f.2 sorted) sorted = last ∧
        Ascending last ∧ ∀ f ∈ last, f ∈ sorted ∨ f ∈ fields := by
    intro fields
    induction fields with
    | nil => exact fun sorted hsorted => ⟨sorted, rfl, hsorted, fun f hf => .inl hf⟩
    | cons g rest ih =>
        intro sorted hsorted
        obtain ⟨last, hlast, hascending, hmem⟩ := ih _ (ascending_setField hsorted)
        refine ⟨last, hlast, hascending, fun f hf => ?_⟩
        rcases hmem f hf with hset | hrest
        · rcases mem_setField hset with rfl | hsorted
          · exact .inr List.mem_cons_self
          · exact .inl hsorted
        · exact .inr (List.mem_cons_of_mem _ hrest)
  obtain ⟨last, hlast, hascending, hmem⟩ := hfold fields [] .nil
  exact ⟨last, congrArg _ hlast, hascending, fun f hf => (hmem f hf).resolve_left List.not_mem_nil⟩

theorem ordered_ofFields (h : ∀ f ∈ fields, Ordered f.2) : Ordered (ofFields fields) := by
  obtain ⟨sorted, heq, hascending, hmem⟩ := exists_ofFields fields
  rw [heq]
  exact .object hascending fun f hf => h f (hmem f hf)

theorem setField_of_above (h : ∀ f ∈ fields, compare f.1 key = .lt) :
    setField key value fields = fields ++ [(key, value)] := by
  induction fields with
  | nil => rfl
  | cons f rest ih =>
      obtain ⟨hfirst, hrest⟩ := List.forall_mem_cons.1 h
      rw [setField, Std.OrientedCmp.gt_of_lt hfirst]
      dsimp only
      rw [ih hrest, List.cons_append]

/-- Fields that go up stay as they are. -/
theorem ofFields_of_ascending (h : Ascending fields) : ofFields fields = .object fields := by
  have hfold : ∀ (rest sorted : List (String × Document)), Ascending (sorted ++ rest) →
      rest.foldl (fun sorted f => setField f.1 f.2 sorted) sorted = sorted ++ rest := by
    intro rest
    induction rest with
    | nil => exact fun sorted _ => (List.append_nil sorted).symm
    | cons f rest ih =>
        intro sorted hsorted
        have habove : ∀ g ∈ sorted, compare g.1 f.1 = .lt := fun g hg =>
          (List.pairwise_append.1 hsorted).2.2 g hg f List.mem_cons_self
        rw [List.foldl_cons, setField_of_above habove, ih _ (by simpa using hsorted),
          List.append_assoc, List.singleton_append]
  exact congrArg _ (hfold fields [] h)

/-! ## Reading records -/

section Records

variable {α : Type} {step : α → String → Document → Except ShapeError (Option (RecordReading α))}
  (plain? : String × Document → Option (String × Document))
  (inner : String × Document → List String)

/-- Whether a field is passed over, which leaves nothing of it, or it does to every record what is
left of it does. Inside its value some keys are passed over then. -/
def Reads (step : α → String → Document → Except ShapeError (Option (RecordReading α)))
    (left : Option (String × Document)) (inner : List String) (f : String × Document) : Prop :=
  match left with
  | none => ∀ record, step record f.1 f.2 = .ok none
  | some g => ∀ record, ∃ next, step record f.1 f.2 = .ok (some (next, inner)) ∧
      step record g.1 g.2 = .ok (some (next, []))

/-- The keys that are passed over with a field. -/
def passedOver (f : String × Document) : List String :=
  if (plain? f).isSome then (inner f).map fun k => s!"{f.1}.{k}" else [f.1]

theorem passedOver_guard (keep : String × Document → Bool) (fields : List (String × Document)) :
    fields.flatMap (passedOver (Option.guard keep) fun _ => []) =
      (fields.filter (!keep ·)).map (·.1) := by
  induction fields with
  | nil => rfl
  | cons f rest ih =>
      rw [List.flatMap_cons, ih, passedOver]
      cases hkeep : keep f <;> simp [hkeep]

/-- One field more of a record. -/
def readField (step : α → String → Document → Except ShapeError (Option (RecordReading α)))
    (reading : RecordReading α) (f : String × Document) : Except ShapeError (RecordReading α) := do
  match ← step reading.1 f.1 f.2 with
  | some (record, inner) => .ok (record, reading.2 ++ inner.map fun k => s!"{f.1}.{k}")
  | none => .ok (reading.1, reading.2 ++ [f.1])

theorem expectRecord_object (kind : String) (known : List String) (start : α) :
    (Document.object fields).expectRecord kind known step start =
      fields.foldlM (readField step) (start, []) := rfl

/-- A record is that of the fields that are known, and what is passed over is told in order. -/
theorem exists_record : ∀ {fields : List (String × Document)} (reading : RecordReading α)
    (unknown : List String), (∀ f ∈ fields, Reads step (plain? f) (inner f) f) →
    ∃ record,
      fields.foldlM (readField step) reading =
        .ok (record, reading.2 ++ fields.flatMap (passedOver plain? inner)) ∧
      (fields.filterMap plain?).foldlM (readField step) (reading.1, unknown) = .ok (record, unknown)
  | [], reading, unknown, _ => ⟨reading.1, by simp [pure, Except.pure], rfl⟩
  | f :: rest, reading, unknown, h => by
      obtain ⟨hfirst, hrest⟩ := List.forall_mem_cons.1 h
      cases hplain : plain? f with
      | none =>
          rw [hplain] at hfirst
          have hread : readField step reading f = .ok (reading.1, reading.2 ++ [f.1]) := by
            unfold readField
            rw [hfirst]
            rfl
          obtain ⟨record, hall, hleft⟩ :=
            exists_record (reading.1, reading.2 ++ [f.1]) unknown hrest
          refine ⟨record, ?_, ?_⟩
          · rw [List.foldlM_cons, hread, List.flatMap_cons, passedOver, hplain, ← List.append_assoc]
            exact hall
          · rw [List.filterMap_cons_none hplain]
            exact hleft
      | some g =>
          rw [hplain] at hfirst
          obtain ⟨next, hstep, hplainly⟩ := hfirst reading.1
          have hread : readField step reading f =
              .ok (next, reading.2 ++ (inner f).map fun k => s!"{f.1}.{k}") := by
            unfold readField
            rw [hstep]
            rfl
          have hleft : readField step (reading.1, unknown) g = .ok (next, unknown) := by
            unfold readField
            rw [hplainly]
            exact congrArg (fun keys => Except.ok (next, keys)) (List.append_nil unknown)
          obtain ⟨record, hall, hplain'⟩ := exists_record
            (next, reading.2 ++ (inner f).map fun k => s!"{f.1}.{k}") unknown hrest
          refine ⟨record, ?_, ?_⟩
          · rw [List.foldlM_cons, hread, List.flatMap_cons, passedOver, hplain, ← List.append_assoc]
            exact hall
          · rw [List.filterMap_cons_some hplain, List.foldlM_cons, hleft]
            exact hplain'

end Records

end Document

/-! ## What texts spell -/

namespace Json5

open Document

theorem ordered_readLiteral {literal : List Char} {document : Document}
    (h : readLiteral literal = .ok document) : Ordered document := by
  unfold readLiteral at h
  split at h
  · obtain ⟨value, -, rfl⟩ := of_map_eq_ok h
    exact .integer value
  · obtain ⟨value, -, rfl⟩ := of_map_eq_ok h
    cases value with
    | none => exact .null
    | some value => exact .number value

mutual

theorem ordered_document : ∀ {spelling : Spelling} {document : Document},
    spelling.document = .ok document → Ordered document
  | .null, _, h => by
      rw [Spelling.document] at h
      cases h
      exact .null
  | .bool value, _, h => by
      rw [Spelling.document] at h
      cases h
      exact .bool value
  | .text pieces, _, h => by
      rw [Spelling.document] at h
      obtain ⟨value, -, rfl⟩ := of_map_eq_ok h
      exact .text value
  | .number literal, _, h => by
      rw [Spelling.document] at h
      exact ordered_readLiteral h
  | .array items, _, h => by
      rw [Spelling.document] at h
      obtain ⟨read, hread, rfl⟩ := of_map_eq_ok h
      exact .array (ordered_documents hread)
  | .object fields, _, h => by
      rw [Spelling.document] at h
      obtain ⟨read, hread, rfl⟩ := of_map_eq_ok h
      exact ordered_ofFields (ordered_fieldDocuments hread)

theorem ordered_documents : ∀ {items : List Spelling} {read : List Document},
    documents items = .ok read → ∀ document ∈ read, Ordered document
  | [], _, h => by
      rw [documents] at h
      cases h
      exact List.forall_mem_nil _
  | item :: rest, _, h => by
      rw [documents] at h
      cases hitem : item.document with
      | error e =>
          rw [hitem] at h
          cases h
      | ok first =>
          rw [hitem] at h
          obtain ⟨read, hread, rfl⟩ := of_map_eq_ok (x := documents rest) (f := (first :: ·)) h
          exact List.forall_mem_cons.2 ⟨ordered_document hitem, ordered_documents hread⟩

theorem ordered_fieldDocuments : ∀ {fields : List (List Piece × Spelling)}
    {read : List (String × Document)}, fieldDocuments fields = .ok read →
      ∀ f ∈ read, Ordered f.2
  | [], _, h => by
      rw [fieldDocuments] at h
      cases h
      exact List.forall_mem_nil _
  | (key, value) :: rest, _, h => by
      rw [fieldDocuments] at h
      cases hname : readText key with
      | error e =>
          rw [hname] at h
          cases h
      | ok name =>
          cases hvalue : value.document with
          | error e =>
              rw [hname, hvalue] at h
              cases h
          | ok document =>
              rw [hname, hvalue] at h
              obtain ⟨read, hread, rfl⟩ := of_map_eq_ok (x := fieldDocuments rest)
                (f := ((name, document) :: ·)) h
              exact List.forall_mem_cons.2 ⟨ordered_document hvalue, ordered_fieldDocuments hread⟩

end

/-- Whatever a text spells, the keys of its objects go up. -/
theorem ordered_of_read {text : String} {document : Document} (h : read text = .ok document) :
    Ordered document := by
  unfold read at h
  split at h
  · exact ordered_document h
  · cases h

end Json5

end CompileWatch
