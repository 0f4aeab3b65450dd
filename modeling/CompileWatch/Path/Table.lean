import CompileWatch.Path.Order

/-!
# Tables keyed by paths

A finite map from paths to values, in path order. Paths with the same
components are one key, and the table keeps the spelling under which the key
was first entered.

What an operation does to a table is said by what it does to `find?`: each has
an equation for the value of any path afterwards.
-/

namespace CompileWatch.Path

/-- Keys with their values, in strictly ascending path order. -/
structure Table (α : Type) where
  rows : List (Key × α)
  sorted : rows.Pairwise fun e f => compare e.1 f.1 = .lt

namespace Table

variable {α : Type}

def empty : Table α := ⟨[], .nil⟩

instance : Inhabited (Table α) := ⟨empty⟩

/-- The row of a key among given ones, replaced or entered at its place. -/
def setIn (k : Key) (value : α) : List (Key × α) → List (Key × α)
  | [] => [(k, value)]
  | (l, old) :: rest =>
    match compare k l with
    | .lt => (k, value) :: (l, old) :: rest
    | .eq => (l, value) :: rest
    | .gt => (l, old) :: setIn k value rest

theorem lt_of_mem_setIn {m k : Key} {value : α} {rows : List (Key × α)}
    (hl : ∀ e ∈ rows, compare m e.1 = .lt) (hk : compare m k = .lt) :
    ∀ e ∈ setIn k value rows, compare m e.1 = .lt := by
  induction rows with
  | nil => simpa [setIn] using hk
  | cons e rest ih =>
    obtain ⟨r, old⟩ := e
    intro f hf
    simp only [setIn] at hf
    split at hf
    · rcases List.mem_cons.1 hf with rfl | hf
      · exact hk
      · exact hl f hf
    · rcases List.mem_cons.1 hf with rfl | hf
      · exact hl (r, old) List.mem_cons_self
      · exact hl f (List.mem_cons_of_mem _ hf)
    · rcases List.mem_cons.1 hf with rfl | hf
      · exact hl (r, old) List.mem_cons_self
      · exact ih (fun g hg => hl g (List.mem_cons_of_mem _ hg)) f hf

theorem sorted_setIn (k : Key) (value : α) {rows : List (Key × α)}
    (h : rows.Pairwise fun e f => compare e.1 f.1 = .lt) :
    (setIn k value rows).Pairwise fun e f => compare e.1 f.1 = .lt := by
  induction rows with
  | nil => simp [setIn]
  | cons e rest ih =>
    obtain ⟨l, old⟩ := e
    rw [List.pairwise_cons] at h
    simp only [setIn]
    split
    · next hkl =>
      refine List.pairwise_cons.2 ⟨?_, List.pairwise_cons.2 h⟩
      intro f hf
      rcases List.mem_cons.1 hf with rfl | hf
      · exact hkl
      · exact Std.TransCmp.lt_trans hkl (h.1 f hf)
    · exact List.pairwise_cons.2 h
    · next hkl =>
      exact List.pairwise_cons.2
        ⟨lt_of_mem_setIn h.1 (Std.OrientedCmp.lt_of_gt hkl), ih h.2⟩

/-- Gives a path a value. A key that is there keeps its spelling. -/
def set (t : Table α) (p : Path) (value : α) : Table α :=
  ⟨setIn (.of p) value t.rows, sorted_setIn (.of p) value t.sorted⟩

/-- The value of a key among given rows. -/
def findIn (k : Key) (rows : List (Key × α)) : Option α :=
  (rows.find? fun e => compare e.1 k == .eq).map (·.2)

/-- The value of a path. -/
def find? (t : Table α) (p : Path) : Option α := findIn (.of p) t.rows

def contains (t : Table α) (p : Path) : Bool := (t.find? p).isSome

/-- Gives a path a value only if it has none. -/
def setNew (t : Table α) (p : Path) (value : α) : Table α :=
  if t.contains p then t else t.set p value

/-- Keeps the rows that pass a test. -/
def filter (t : Table α) (keep : Key × α → Bool) : Table α :=
  ⟨t.rows.filter keep, t.sorted.filter _⟩

def erase (t : Table α) (p : Path) : Table α :=
  let k := Key.of p
  t.filter fun e => compare e.1 k != .eq

/-- Paths with their values, in path order, the paths as first spelled. -/
def entries (t : Table α) : List (Path × α) := t.rows.map fun e => (e.1.path, e.2)

/-- The paths in path order, as first spelled. -/
def keys (t : Table α) : List Path := t.rows.map (·.1.path)

def values (t : Table α) : List α := t.rows.map (·.2)

def size (t : Table α) : Nat := t.rows.length

def isEmpty (t : Table α) : Bool := t.rows.isEmpty

/-! ## Looking up after a change -/

theorem findIn_congr {k l : Key} (h : compare k l = .eq) (rows : List (Key × α)) :
    findIn k rows = findIn l rows := by
  have : (fun e : Key × α => compare e.1 k == .eq) = fun e => compare e.1 l == .eq :=
    funext fun e => by rw [Std.TransCmp.congr_right h]
  simp only [findIn, this]

theorem find?_congr (t : Table α) {p q : Path} (h : p.same q = true) : t.find? p = t.find? q :=
  findIn_congr (Key.compare_of (k := .of p) |>.2 h) t.rows

theorem findIn_setIn (k l : Key) (value : α) (rows : List (Key × α)) :
    findIn l (setIn k value rows) = if compare k l = .eq then some value else findIn l rows := by
  induction rows with
  | nil => by_cases h : compare k l = .eq <;> simp [findIn, setIn, h]
  | cons e rest ih =>
    obtain ⟨m, old⟩ := e
    simp only [findIn, setIn] at ih ⊢
    split
    · by_cases h : compare k l = .eq <;> simp [h]
    · next hkm =>
      rw [Std.TransCmp.congr_left hkm]
      by_cases h : compare m l = .eq <;> simp [h]
    · next hkm =>
      by_cases h : compare m l = .eq
      · have : compare k l = .gt := Std.TransCmp.congr_right h ▸ hkm
        simp [h, this]
      · simpa [h] using ih

theorem find?_set (t : Table α) (p q : Path) (value : α) :
    (t.set p value).find? q = if p.same q then some value else t.find? q := by
  have h := findIn_setIn (.of p) (.of q) value t.rows
  simp only [Key.compare_of] at h
  exact h

theorem find?_setNew (t : Table α) (p q : Path) (value : α) :
    (t.setNew p value).find? q =
      if p.same q then some ((t.find? p).getD value) else t.find? q := by
  unfold setNew contains
  split
  · next h =>
    obtain ⟨old, hold⟩ := Option.isSome_iff_exists.1 h
    split
    · next hpq => rw [← t.find?_congr hpq, hold, Option.getD_some]
    · rfl
  · next h =>
    rw [Option.not_isSome_iff_eq_none.1 h, find?_set, Option.getD_none]

theorem findIn_filter_ne (k l : Key) (rows : List (Key × α)) :
    findIn l (rows.filter fun e => compare e.1 k != .eq) =
      if compare k l = .eq then none else findIn l rows := by
  simp only [findIn, List.find?_filter]
  induction rows with
  | nil => simp
  | cons e rest ih =>
    by_cases h : compare e.1 l = .eq
    · by_cases hk : compare k l = .eq
      · have : compare e.1 k = .eq := Std.TransCmp.congr_right hk ▸ h
        simpa [h, hk, this] using ih
      · have : compare e.1 k ≠ .eq := fun he => hk (Std.TransCmp.congr_left he ▸ h)
        simp [h, hk, this]
    · simpa [h] using ih

theorem find?_erase (t : Table α) (p q : Path) :
    (t.erase p).find? q = if p.same q then none else t.find? q := by
  have h := findIn_filter_ne (.of p) (.of q) t.rows
  simp only [Key.compare_of] at h
  exact h

/-! ## The keys

A table has its keys in strictly ascending order, so a table whose keys are
those of another, whatever the order, has them in the same order. -/

theorem pairwise_keys (t : Table α) : t.keys.Pairwise fun p q => compare p q = .lt := by
  simpa only [keys, List.pairwise_map, Key.compare_def] using t.sorted

theorem keys_eq (t : Table α) : t.keys = (t.rows.map (·.1)).map Key.path := by
  rw [List.map_map]
  rfl

theorem not_lt_self (p : Path) : compare p p ≠ .lt := by
  rw [compare_eq_iff.2 rfl]
  decide

/-- Two ascending lists of paths with the same members are the same. -/
theorem eq_of_mem_iff {l m : List Path} (hl : l.Pairwise fun p q => compare p q = .lt)
    (hm : m.Pairwise fun p q => compare p q = .lt) (h : ∀ p, p ∈ l ↔ p ∈ m) : l = m := by
  have nodup {n : List Path} (hn : n.Pairwise fun p q => compare p q = .lt) : n.Nodup := by
    refine hn.imp fun {p q} hpq heq => ?_
    rw [heq] at hpq
    exact not_lt_self q hpq
  refine List.Perm.eq_of_pairwise (fun p q _ _ hpq hqp => ?_) hl hm
    ((List.perm_ext_iff_of_nodup (nodup hl) (nodup hm)).2 h)
  exact absurd (Std.TransCmp.lt_trans hpq hqp) (not_lt_self p)

/-- No key has two spellings in a table. -/
theorem eq_of_mem_keys {t : Table α} {p q : Path} (hp : p ∈ t.keys) (hq : q ∈ t.keys)
    (h : p.same q = true) : p = q := by
  have h : compare p q = .eq := same_iff_compare.1 h
  have hpq : compare p q ≠ .lt := by rw [h]; decide
  have hqp : compare q p ≠ .lt := by rw [Std.OrientedCmp.eq_comm.1 h]; decide
  have hs := t.pairwise_keys
  generalize t.keys = keys at hp hq hs
  induction keys with
  | nil => cases hp
  | cons r rest ih =>
    rw [List.pairwise_cons] at hs
    rcases List.mem_cons.1 hp with rfl | hp'
    · rcases List.mem_cons.1 hq with rfl | hq'
      · rfl
      · exact absurd (hs.1 q hq') hpq
    · rcases List.mem_cons.1 hq with rfl | hq'
      · exact absurd (hs.1 p hp') hqp
      · exact ih hp' hq' hs.2

theorem contains_iff (t : Table α) (p : Path) :
    t.contains p = true ↔ ∃ q ∈ t.keys, q.same p = true := by
  simp only [same_iff_compare, contains, find?, findIn, Option.isSome_map, List.find?_isSome, beq_iff_eq, keys,
    List.mem_map, Key.compare_def, Key.path_of]
  constructor
  · rintro ⟨e, he, h⟩
    exact ⟨_, ⟨e, he, rfl⟩, h⟩
  · rintro ⟨_, ⟨e, he, rfl⟩, h⟩
    exact ⟨e, he, h⟩

theorem contains_of_mem_keys {t : Table α} {p : Path} (h : p ∈ t.keys) : t.contains p = true :=
  (t.contains_iff p).2 ⟨p, h, same_self p⟩

theorem keysIn_setIn_of_mem {k : Key} (value : α) {rows : List (Key × α)}
    (hs : rows.Pairwise fun e f => compare e.1 f.1 = .lt) (h : ∃ e ∈ rows, compare e.1 k = .eq) :
    (setIn k value rows).map (·.1) = rows.map (·.1) := by
  induction rows with
  | nil => simp at h
  | cons e rest ih =>
    obtain ⟨l, old⟩ := e
    rw [List.pairwise_cons] at hs
    obtain ⟨f, hf, hfk⟩ := h
    simp only [setIn]
    split
    · next hkl =>
      -- the key stands before the first row, so no row has it
      rcases List.mem_cons.1 hf with rfl | hf
      · rw [Std.OrientedCmp.eq_comm.1 hfk] at hkl
        cases hkl
      · have := Std.TransCmp.lt_trans hkl (hs.1 f hf)
        rw [Std.OrientedCmp.eq_comm.1 hfk] at this
        cases this
    · rfl
    · next hkl =>
      rcases List.mem_cons.1 hf with rfl | hf
      · rw [Std.OrientedCmp.eq_comm.1 hfk] at hkl
        cases hkl
      · rw [List.map_cons, List.map_cons, ih hs.2 ⟨f, hf, hfk⟩]

/-- A key that is there keeps its spelling. -/
theorem keys_set_of_contains {t : Table α} {p : Path} (value : α) (h : t.contains p = true) :
    (t.set p value).keys = t.keys := by
  obtain ⟨q, hq, hqp⟩ := (t.contains_iff p).1 h
  obtain ⟨e, he, rfl⟩ := List.mem_map.1 hq
  have := keysIn_setIn_of_mem (k := .of p) value t.sorted ⟨e, he, Key.compare_of.2 hqp⟩
  rw [keys_eq, keys_eq, set, this]

theorem mem_keysIn_setIn {k l : Key} (value : α) {rows : List (Key × α)}
    (h : ∀ e ∈ rows, compare e.1 k ≠ .eq) :
    l ∈ (setIn k value rows).map (·.1) ↔ l = k ∨ l ∈ rows.map (·.1) := by
  induction rows with
  | nil => simp [setIn]
  | cons e rest ih =>
    obtain ⟨m, old⟩ := e
    have ih := ih fun f hf => h f (List.mem_cons_of_mem _ hf)
    simp only [setIn]
    split
    · simp
    · next hkm => exact absurd (Std.OrientedCmp.eq_comm.1 hkm) (h _ List.mem_cons_self)
    · simp only [List.map_cons, List.mem_cons, ih, or_left_comm]

/-- A new key is entered as it is spelled. -/
theorem mem_keys_set {t : Table α} {p q : Path} (value : α) (h : t.contains p = false) :
    q ∈ (t.set p value).keys ↔ q = p ∨ q ∈ t.keys := by
  have hne : ∀ e ∈ t.rows, compare e.1 (.of p) ≠ .eq := by
    intro e he heq
    have : t.contains p = true :=
      (t.contains_iff p).2 ⟨e.1.path, List.mem_map.2 ⟨e, he, rfl⟩, Key.compare_of.1 heq⟩
    rw [h] at this
    cases this
  simp only [keys_eq, set, List.mem_map (f := Key.path), mem_keysIn_setIn value hne]
  constructor
  · rintro ⟨k, rfl | hk, rfl⟩
    · exact .inl rfl
    · exact .inr ⟨k, hk, rfl⟩
  · rintro (rfl | ⟨k, hk, rfl⟩)
    · exact ⟨.of q, .inl rfl, rfl⟩
    · exact ⟨k, .inr hk, rfl⟩

theorem keys_setNew (t : Table α) (p : Path) (value : α) :
    (t.setNew p value).keys = (t.set p value).keys := by
  unfold setNew
  split
  · next h => exact (keys_set_of_contains value h).symm
  · rfl

/-- Tables with the same keys have the same keys after a path is given values in both. -/
theorem keys_set_congr {β : Type} {t : Table α} {u : Table β} (h : t.keys = u.keys) (p : Path)
    (value : α) (other : β) : (t.set p value).keys = (u.set p other).keys := by
  have hc : t.contains p = u.contains p := by
    rw [Bool.eq_iff_iff, contains_iff, contains_iff, h]
  cases ht : t.contains p with
  | true => rw [keys_set_of_contains value ht, keys_set_of_contains other (hc ▸ ht), h]
  | false =>
    refine eq_of_mem_iff (pairwise_keys _) (pairwise_keys _) fun q => ?_
    rw [mem_keys_set value ht, mem_keys_set other (hc ▸ ht), h]

/-! ## The rows

Each key has one row, so looking a path up finds the row of its key and no other. -/

theorem findIn_of_mem {rows : List (Key × α)}
    (hs : rows.Pairwise fun e f => compare e.1 f.1 = .lt) {e : Key × α} (he : e ∈ rows) {k : Key}
    (hk : compare e.1 k = .eq) : findIn k rows = some e.2 := by
  induction rows with
  | nil => cases he
  | cons f rest ih =>
    rw [List.pairwise_cons] at hs
    rcases List.mem_cons.1 he with rfl | he
    · simp [findIn, hk]
    · have hlt : compare f.1 k = .lt := Std.TransCmp.congr_right hk ▸ hs.1 e he
      have := ih hs.2 he
      simpa [findIn, hlt] using this

theorem find?_eq_some_iff {t : Table α} {p : Path} {value : α} :
    t.find? p = some value ↔ ∃ e ∈ t.rows, e.1.path.same p = true ∧ e.2 = value := by
  constructor
  · intro h
    obtain ⟨e, he, rfl⟩ := Option.map_eq_some_iff.1 h
    have hp := List.find?_some he
    rw [beq_iff_eq, Key.compare_of] at hp
    exact ⟨e, List.mem_of_find?_eq_some he, hp, rfl⟩
  · rintro ⟨e, he, hp, rfl⟩
    exact findIn_of_mem t.sorted he (Key.compare_of.2 hp)

theorem find?_of_mem {t : Table α} {e : Key × α} (he : e ∈ t.rows) :
    t.find? e.1.path = some e.2 :=
  find?_eq_some_iff.2 ⟨e, he, same_self e.1.path, rfl⟩

theorem mem_values_iff {t : Table α} {value : α} :
    value ∈ t.values ↔ ∃ p, t.find? p = some value := by
  simp only [values, find?_eq_some_iff, List.mem_map]
  constructor
  · rintro ⟨e, he, rfl⟩
    exact ⟨e.1.path, e, he, same_self _, rfl⟩
  · rintro ⟨_, e, he, -, rfl⟩
    exact ⟨e, he, rfl⟩

/-- A table is known by its keys and their values. -/
theorem eq_of_find?_eq {t u : Table α} (hk : t.keys = u.keys) (h : ∀ p, t.find? p = u.find? p) :
    t = u := by
  have hrows : t.rows = u.rows := by
    refine List.ext_getElem ?_ fun i hi hi' => ?_
    · simpa [keys] using congrArg List.length hk
    · have hpath : t.rows[i].1.path = u.rows[i].1.path := by
        simpa [keys, hi, hi'] using congrArg (·[i]?) hk
      have hvalue := find?_of_mem (List.getElem_mem hi)
      rw [hpath, h, find?_of_mem (List.getElem_mem hi'), Option.some.injEq] at hvalue
      exact Prod.ext (Key.eq_of_path hpath) hvalue.symm
  cases t
  cases u
  cases hrows
  rfl

/-- The values that are kept by a test of values are those that pass it. -/
theorem find?_filter (t : Table α) (keep : α → Bool) (p : Path) :
    (t.filter fun e => keep e.2).find? p = (t.find? p).filter keep := by
  ext value
  simp only [Option.filter_eq_some_iff, find?_eq_some_iff, filter, List.mem_filter]
  constructor
  · rintro ⟨e, ⟨he, hk⟩, hp, rfl⟩
    exact ⟨⟨e, he, hp, rfl⟩, hk⟩
  · rintro ⟨⟨e, he, hp, rfl⟩, hk⟩
    exact ⟨e, ⟨he, hk⟩, hp, rfl⟩

end Table

end CompileWatch.Path
