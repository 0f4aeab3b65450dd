import CompileWatch.Document.Json.Reader
import CompileWatch.Document.Json.Writer
import CompileWatch.Proofs.Document.Fields
import Mathlib.Data.List.TakeDrop

/-!
# Reading back what was written

A document without doubles, whose integers fit words of 64 bits, is written on one
line without control characters (`Lossless.unbroken`), and is read back from that line
(`parse?_render`). What stands behind a value decides where it ends only if the
value is a number, so every reader is shown to stop before a comma, a closing bracket
or the end of the text (`Ends`). The fuel of the readers never runs out, as each of
them passes over a character before it calls another.
-/

namespace CompileWatch.Json

open Document Decimal

/-! ## Digits -/

/-- Whether no number goes on here: at the end, a comma or a closing bracket. -/
inductive Ends : List Char → Prop
  | nil : Ends []
  | comma (rest) : Ends (',' :: rest)
  | bracket (rest) : Ends (']' :: rest)
  | brace (rest) : Ends ('\x7d' :: rest)

theorem head?_toDigits (n : Nat) (h : (Nat.toDigits 10 n).head? = some '0') : n = 0 := by
  induction n using Nat.strongRecOn with
  | ind n ih =>
      rcases Nat.lt_or_ge n 10 with hlt | hge
      · have hdigit : ∀ d < 10, [Nat.digitChar d].head? = some '0' → d = 0 := by decide
        rw [Nat.toDigits_of_lt_base hlt] at h
        exact hdigit n hlt h
      · rw [Nat.toDigits_of_base_le (by decide) hge, List.head?_append_of_ne_nil _
          Nat.toDigits_ne_nil] at h
        have hzero := ih (n / 10) (by omega) h
        omega

theorem isDigit_of_mem_toDigits {n : Nat} {c : Char} (h : c ∈ Nat.toDigits 10 n) :
    c.isDigit = true := Nat.isDigit_of_mem_toDigits (by decide) (by decide) h

theorem ne_of_isDigit {c d : Char} (hc : c.isDigit = true) (hd : d.isDigit = false) : c ≠ d := by
  rintro rfl
  rw [hc] at hd
  cases hd

theorem exists_digit (n : Nat) : ∃ c cs, Nat.toDigits 10 n = c :: cs ∧ c.isDigit = true := by
  obtain ⟨c, cs, hdigits⟩ := List.exists_cons_of_ne_nil (Nat.toDigits_ne_nil (n := n) (b := 10))
  exact ⟨c, cs, hdigits, isDigit_of_mem_toDigits (hdigits ▸ List.mem_cons_self)⟩

variable {rest : List Char}

theorem spanDigits_toDigits (n : Nat) (hrest : Ends rest) :
    spanDigits (Nat.toDigits 10 n ++ rest) = (Nat.toDigits 10 n, rest) := by
  have hstop : rest.takeWhile Char.isDigit = [] ∧ rest.dropWhile Char.isDigit = rest := by
    cases hrest <;> exact ⟨rfl, rfl⟩
  have hdigits : ∀ c ∈ Nat.toDigits 10 n, c.isDigit = true := fun c => isDigit_of_mem_toDigits
  rw [spanDigits, List.span_eq_takeWhile_dropWhile, List.takeWhile_append_of_pos hdigits,
    List.dropWhile_append_of_pos hdigits, hstop.1, hstop.2, List.append_nil]

theorem decimalNumber_toDigits (n : Nat) : decimalNumber (Nat.toDigits 10 n) = n :=
  Nat.ofDigitChars_ten_toDigits

/-- A whole number that fits is read as an integer. -/
theorem readUnsigned_toDigits (negative : Bool) {n : Nat} (hrest : Ends rest)
    (hfits : (if negative then 0 < n && n ≤ 0x8000000000000000 else n < wordLimit) = true) :
    readUnsigned negative (Nat.toDigits 10 n ++ rest) =
      some (.integer (if negative then -n else n), rest) := by
  have hzeros : ((Nat.toDigits 10 n).isEmpty ||
      (Nat.toDigits 10 n).head? = some '0' && 1 < (Nat.toDigits 10 n).length) = false := by
    rw [List.isEmpty_eq_false_iff.2 Nat.toDigits_ne_nil, Bool.false_or, Bool.and_eq_false_imp]
    intro hhead
    rw [head?_toDigits n (of_decide_eq_true hhead)]
    rfl
  have hfraction : readFraction rest = some ([], rest) := by
    cases hrest <;> rfl
  have hexponent : readExponent rest = some (none, rest) := by
    cases hrest <;> rfl
  unfold readUnsigned
  rw [spanDigits_toDigits n hrest]
  dsimp only
  rw [hzeros, hfraction, decimalNumber_toDigits]
  simp only [Option.bind_eq_bind, Option.bind_some, hexponent]
  rw [hfits]
  rfl

/-! ## Strings -/

/-- A character is escaped by a letter of its own or by its number, or stands for itself. -/
theorem escapeChar_cases (c : Char) :
    (∃ letter, escapeChar c = ['\\', letter] ∧ shortEscape? letter = some c ∧
        0x20 ≤ letter.toNat) ∨
      (escapeChar c =
          ['\\', 'u', '0', '0', Nat.digitChar (c.toNat / 16), Nat.digitChar (c.toNat % 16)] ∧
        c.toNat < 0x20) ∨
      (escapeChar c = [c] ∧ c ≠ '"' ∧ c ≠ '\\' ∧ 0x20 ≤ c.toNat) := by
  unfold escapeChar
  split
  · next h =>
    rcases (Bool.or_eq_true ..).mp h with h | h <;> obtain rfl := of_decide_eq_true h
    all_goals exact .inl ⟨_, rfl, rfl, by decide⟩
  · next hself =>
    split
    · next h => exact .inl ⟨_, rfl, h ▸ rfl, by decide⟩
    split
    · next h => exact .inl ⟨_, rfl, h ▸ rfl, by decide⟩
    split
    · next h => exact .inl ⟨_, rfl, h ▸ rfl, by decide⟩
    split
    · next h => exact .inl ⟨_, rfl, h ▸ rfl, by decide⟩
    split
    · next h => exact .inl ⟨_, rfl, h ▸ rfl, by decide⟩
    split
    · next h => exact .inr (.inl ⟨rfl, h⟩)
    · next h =>
      simp only [Bool.or_eq_true, decide_eq_true_eq, not_or] at hself
      exact .inr (.inr ⟨rfl, hself.1, hself.2, Nat.le_of_not_lt h⟩)

/-- Whether a piece of a string stands for a character. -/
def Piece.Spells : Piece → Char → Prop
  | .char d, c => d = c
  | .unit code, c => code < 0x20 ∧ Char.ofNat code = c

theorem combinePieces_cons {piece : Piece} {c : Char} (h : piece.Spells c) (pieces : List Piece) :
    combinePieces (piece :: pieces) = (combinePieces pieces).map (c :: ·) := by
  cases piece with
  | char d =>
      obtain rfl : d = c := h
      rfl
  | unit code =>
      obtain ⟨hcode, rfl⟩ := h
      have hlead : isLeadUnit code = false := by simp [isLeadUnit]; omega
      have htrail : isTrailUnit code = false := by simp [isTrailUnit]; omega
      rcases pieces with _ | ⟨_ | _, pieces⟩ <;> simp [combinePieces, hlead, htrail]

theorem readPieces_letter {letter c : Char} (h : shortEscape? letter = some c)
    (tail : List Char) : readPieces ('\\' :: letter :: tail) =
      (readPieces tail).map fun (pieces, after) => (.char c :: pieces, after) := by
  have hletter : letter ≠ 'u' := by
    rintro rfl
    cases h
  rw [readPieces, h, Option.map_eq_bind]
  · rfl
  · intro a b c d rest hu
    exact absurd hu hletter

theorem hexNumber?_control : ∀ n < 0x20,
    hexNumber? ['0', '0', Nat.digitChar (n / 16), Nat.digitChar (n % 16)] = some n := by decide

/-- What a character is escaped to is read as one piece, which stands for it. -/
theorem readPieces_escapeChar (c : Char) : ∃ piece : Piece, piece.Spells c ∧ ∀ tail,
    readPieces (escapeChar c ++ tail) =
      (readPieces tail).map fun (pieces, after) => (piece :: pieces, after) := by
  obtain ⟨letter, hescape, hletter, -⟩ | ⟨hescape, hcontrol⟩ | ⟨hescape, hquote, hslash, hplain⟩ :=
    escapeChar_cases c
  · exact ⟨.char c, rfl, fun tail => hescape ▸ readPieces_letter hletter tail⟩
  · refine ⟨.unit c.toNat, ⟨hcontrol, Char.ofNat_toNat c⟩, fun tail => ?_⟩
    rw [hescape]
    show readPieces ('\\' :: 'u' :: '0' :: '0' :: _ :: _ :: tail) = _
    rw [readPieces, hexNumber?_control _ hcontrol, Option.map_eq_bind]
    rfl
  · refine ⟨.char c, rfl, fun tail => ?_⟩
    have hread : ¬ (decide (c = '\\') || decide (c.toNat < 0x20)) = true := by
      simp [hslash, hplain]
    rw [hescape, List.singleton_append, readPieces, if_neg hread]
    · exact hquote
    · exact fun _ _ _ _ _ h => absurd h hslash
    · exact fun _ _ h => absurd h hslash

theorem exists_pieces (after : List Char) : ∀ chars : List Char, ∃ pieces,
    readPieces (chars.flatMap escapeChar ++ '"' :: after) = some (pieces, after) ∧
      combinePieces pieces = some chars
  | [] => ⟨[], rfl, rfl⟩
  | c :: rest => by
      obtain ⟨piece, hspells, hread⟩ := readPieces_escapeChar c
      obtain ⟨pieces, hpieces, hcombine⟩ := exists_pieces after rest
      refine ⟨piece :: pieces, ?_, ?_⟩
      · rw [List.flatMap_cons, List.append_assoc, hread, hpieces]
        rfl
      · rw [combinePieces_cons hspells, hcombine]
        rfl

theorem readText_escaped (text : String) (after : List Char) :
    readText (text.toList.flatMap escapeChar ++ '"' :: after) = some (text, after) := by
  obtain ⟨pieces, hread, hcombine⟩ := exists_pieces after text.toList
  rw [readText, hread, Option.bind_eq_bind, Option.bind_some]
  dsimp only
  rw [hcombine, Option.bind_eq_bind, Option.bind_some, String.ofList_toList]

/-! ## Documents -/

/-- Whether nothing of a document is lost when it is written: it has no doubles, its integers fit
words of 64 bits, with a sign or without, and the keys of its objects go up. -/
inductive Lossless : Document → Prop
  | null : Lossless .null
  | bool (value) : Lossless (.bool value)
  | integer {value : Int} : -0x8000000000000000 ≤ value → value < wordLimit →
      Lossless (.integer value)
  | text (value) : Lossless (.text value)
  | array {items} : (∀ item ∈ items, Lossless item) → Lossless (.array items)
  | object {fields} : Ascending fields → (∀ f ∈ fields, Lossless f.2) → Lossless (.object fields)

theorem lossless_ofFields {fields : List (String × Document)} (h : ∀ f ∈ fields, Lossless f.2) :
    Lossless (ofFields fields) := by
  obtain ⟨sorted, heq, hascending, hmem⟩ := exists_ofFields fields
  rw [heq]
  exact .object hascending fun f hf => h f (hmem f hf)

theorem isJsonBlank_of_isDigit {c : Char} (h : c.isDigit = true) : isJsonBlank c = false := by
  simp [isJsonBlank, ne_of_isDigit h (d := ' ') rfl, ne_of_isDigit h (d := '\t') rfl,
    ne_of_isDigit h (d := '\n') rfl, ne_of_isDigit h (d := '\r') rfl]

@[simp]
theorem write_null : write .null = "null".toList := rfl

@[simp]
theorem write_true : write (.bool true) = "true".toList := rfl

@[simp]
theorem write_false : write (.bool false) = "false".toList := rfl

@[simp]
theorem write_integer (value : Int) : write (.integer value) = writeInteger value := rfl

@[simp]
theorem write_text (text : String) : write (.text text) = writeText text := rfl

@[simp]
theorem write_array (items : List Document) :
    write (.array items) = '[' :: (writeItems items ++ [']']) := rfl

@[simp]
theorem write_object (fields : List (String × Document)) :
    write (.object fields) = '\x7b' :: (writeFields fields ++ ['\x7d']) := rfl

/-- What is written of a document begins with no blank, and with nothing that ends an array. -/
theorem write_begins {document : Document} (h : Lossless document) : ∃ c cs,
    write document = c :: cs ∧ isJsonBlank c = false ∧ c ≠ ']' := by
  cases h with
  | null => exact ⟨_, _, rfl, rfl, by decide⟩
  | bool value => cases value <;> exact ⟨_, _, rfl, rfl, by decide⟩
  | text value => exact ⟨_, _, write_text value, rfl, by decide⟩
  | array hitems => exact ⟨_, _, write_array _, rfl, by decide⟩
  | object hascending hfields => exact ⟨_, _, write_object _, rfl, by decide⟩
  | @integer value hlow hhigh =>
      rw [write_integer, writeInteger]
      split
      · exact ⟨_, _, rfl, rfl, by decide⟩
      · obtain ⟨c, cs, hdigits, hc⟩ := exists_digit value.natAbs
        exact ⟨c, cs, hdigits, isJsonBlank_of_isDigit hc, ne_of_isDigit hc rfl⟩

theorem skipBlank_cons {c : Char} (h : isJsonBlank c = false) (cs : List Char) :
    skipBlank (c :: cs) = c :: cs := List.dropWhile_cons_of_neg (by simp [h])

section Equations

variable (fuel : Nat) (cs : List Char)

theorem readValue_minus : readValue (fuel + 1) ('-' :: cs) = readUnsigned true cs := rfl

theorem readValue_quote : readValue (fuel + 1) ('"' :: cs) =
    (readText cs).map fun (value, after) => (.text value, after) := rfl

theorem readValue_bracket : readValue (fuel + 1) ('[' :: cs) =
    match skipBlank cs with
    | ']' :: after => some (.array [], after)
    | _ => (readItems fuel cs).map fun (items, after) => (.array items, after) := rfl

theorem readValue_brace : readValue (fuel + 1) ('\x7b' :: cs) =
    match skipBlank cs with
    | '\x7d' :: after => some (.object [], after)
    | _ => (readFields fuel cs).map fun (fields, after) => (.ofFields fields, after) := rfl

theorem readValue_digit {c : Char} (h : c.isDigit = true) :
    readValue (fuel + 1) (c :: cs) = readUnsigned false (c :: cs) := by
  rw [readValue, skipBlank_cons (isJsonBlank_of_isDigit h)]
  split
  all_goals first
    | rfl
    | next heq =>
      obtain ⟨rfl, -⟩ := List.cons.inj heq
      exact absurd h (by decide)

variable {fuel cs}

theorem readItems_comma {item : Document} {more : List Char}
    (h : readValue fuel cs = some (item, ',' :: more)) : readItems (fuel + 1) cs =
      (readItems fuel more).map fun (items, after) => (item :: items, after) := by
  rw [readItems, h]
  rfl

theorem readItems_bracket {item : Document} {after : List Char}
    (h : readValue fuel cs = some (item, ']' :: after)) :
    readItems (fuel + 1) cs = some ([item], after) := by
  rw [readItems, h]
  rfl

variable {key : String} {value : Document} {afterKey : List Char}

theorem readFields_value (hkey : readText cs = some (key, ':' :: afterKey)) :
    readFields (fuel + 1) ('"' :: cs) =
      (readValue fuel afterKey).bind fun (value, afterValue) =>
        match skipBlank afterValue with
        | ',' :: more =>
          (readFields fuel more).map fun (fields, after) => ((key, value) :: fields, after)
        | '\x7d' :: after => some ([(key, value)], after)
        | _ => none := by
  show (readText cs).bind _ = _
  rw [hkey]
  rfl

theorem readFields_comma {more : List Char} (hkey : readText cs = some (key, ':' :: afterKey))
    (h : readValue fuel afterKey = some (value, ',' :: more)) : readFields (fuel + 1) ('"' :: cs) =
      (readFields fuel more).map fun (fields, after) => ((key, value) :: fields, after) := by
  rw [readFields_value hkey, h]
  rfl

theorem readFields_brace {after : List Char} (hkey : readText cs = some (key, ':' :: afterKey))
    (h : readValue fuel afterKey = some (value, '\x7d' :: after)) :
    readFields (fuel + 1) ('"' :: cs) = some ([(key, value)], after) := by
  rw [readFields_value hkey, h]
  rfl

end Equations

theorem writeText_append (text : String) (cs : List Char) :
    writeText text ++ cs = '"' :: (text.toList.flatMap escapeChar ++ '"' :: cs) := by
  simp [writeText]

theorem writeItems_cons (item : Document) {more : List Document} (h : more ≠ []) :
    writeItems (item :: more) = write item ++ ',' :: writeItems more := by
  cases more with
  | nil => exact absurd rfl h
  | cons next more => rw [writeItems]; simp

theorem writeFields_cons (key : String) (value : Document) {more : List (String × Document)}
    (h : more ≠ []) : writeFields ((key, value) :: more) =
      writeText key ++ ':' :: (write value ++ ',' :: writeFields more) := by
  cases more with
  | nil => exact absurd rfl h
  | cons next more => rw [writeFields]; simp

/-- Whether a document is read back from what is written of it, whatever follows. -/
def ReadsBack (document : Document) : Prop :=
  ∀ fuel rest, (write document).length < fuel → Ends rest →
    readValue fuel (write document ++ rest) = some (document, rest)

/-- The reader of a document has fuel for its first step. -/
theorem readsBack_of_succ {document : Document}
    (h : ∀ fuel rest, (write document).length ≤ fuel → Ends rest →
      readValue (fuel + 1) (write document ++ rest) = some (document, rest)) :
    ReadsBack document
  | 0, _, hfuel, _ => absurd hfuel (Nat.not_lt_zero _)
  | fuel + 1, rest, hfuel, hrest => h fuel rest (Nat.le_of_lt_succ hfuel) hrest

theorem readsBack_integer {value : Int} (hlow : -0x8000000000000000 ≤ value)
    (hhigh : value < wordLimit) : ReadsBack (.integer value) := by
  refine readsBack_of_succ fun fuel rest _ hrest => ?_
  rw [write_integer, writeInteger]
  split
  · next hneg =>
    have hfits : (decide (0 < value.natAbs) &&
        decide (value.natAbs ≤ 0x8000000000000000)) = true := by
      rw [Bool.and_eq_true, decide_eq_true_eq, decide_eq_true_eq]
      omega
    have hvalue : -(value.natAbs : Int) = value := by omega
    rw [List.cons_append, readValue_minus, readUnsigned_toDigits true hrest hfits, if_pos rfl,
      hvalue]
  · next hneg =>
    obtain ⟨c, cs, hdigits, hc⟩ := exists_digit value.natAbs
    have hfits : decide (value.natAbs < wordLimit) = true := by
      rw [decide_eq_true_eq]
      omega
    have hvalue : (value.natAbs : Int) = value := by omega
    have hread := readUnsigned_toDigits false hrest hfits
    rw [hdigits, List.cons_append] at hread ⊢
    rw [readValue_digit fuel _ hc, hread, if_neg Bool.false_ne_true, hvalue]

theorem readsBack_text (text : String) : ReadsBack (.text text) := by
  refine readsBack_of_succ fun fuel rest _ _ => ?_
  rw [write_text, writeText, List.cons_append, List.append_assoc, List.singleton_append,
    readValue_quote, readText_escaped]
  rfl

/-- Items that are each read back are read back together. -/
theorem readItems_written : ∀ {items : List Document}, items ≠ [] →
    (∀ item ∈ items, ReadsBack item) → ∀ fuel rest, (writeItems items).length + 1 < fuel →
      readItems fuel (writeItems items ++ ']' :: rest) = some (items, rest)
  | [], hne, _, _, _, _ => absurd rfl hne
  | _ :: _, _, _, 0, _, hfuel => absurd hfuel (Nat.not_lt_zero _)
  | [item], _, hitems, fuel + 1, rest, hfuel => by
      rw [writeItems] at hfuel ⊢
      exact readItems_bracket (hitems item List.mem_cons_self fuel _ (by omega) (.bracket rest))
  | item :: next :: more, _, hitems, fuel + 1, rest, hfuel => by
      obtain ⟨hitem, hmore⟩ := List.forall_mem_cons.1 hitems
      have hcons := List.cons_ne_nil next more
      rw [writeItems_cons item hcons, List.length_append, List.length_cons] at hfuel
      rw [writeItems_cons item hcons, List.append_assoc, List.cons_append,
        readItems_comma (hitem fuel _ (by omega) (.comma _)),
        readItems_written hcons hmore fuel rest (by omega)]
      rfl

/-- Fields whose values are each read back are read back together. -/
theorem readFields_written : ∀ {fields : List (String × Document)}, fields ≠ [] →
    (∀ f ∈ fields, ReadsBack f.2) → ∀ fuel rest, (writeFields fields).length + 1 < fuel →
      readFields fuel (writeFields fields ++ '\x7d' :: rest) = some (fields, rest)
  | [], hne, _, _, _, _ => absurd rfl hne
  | _ :: _, _, _, 0, _, hfuel => absurd hfuel (Nat.not_lt_zero _)
  | [(key, value)], _, hfields, fuel + 1, rest, hfuel => by
      have hvalue : ReadsBack value := hfields _ List.mem_cons_self
      rw [writeFields, List.length_append, List.length_cons] at hfuel
      rw [writeFields, List.append_assoc, List.cons_append, writeText_append]
      exact readFields_brace (readText_escaped key _) (hvalue fuel _ (by omega) (.brace rest))
  | (key, value) :: next :: more, _, hfields, fuel + 1, rest, hfuel => by
      obtain ⟨hvalue, hmore⟩ : ReadsBack value ∧ ∀ f ∈ next :: more, ReadsBack f.2 :=
        List.forall_mem_cons.1 hfields
      have hcons := List.cons_ne_nil next more
      rw [writeFields_cons key value hcons] at hfuel ⊢
      simp only [List.length_append, List.length_cons] at hfuel
      rw [List.append_assoc, List.cons_append, List.append_assoc, List.cons_append,
        writeText_append, readFields_comma (readText_escaped key _)
          (hvalue fuel _ (by omega) (.comma _)),
        readFields_written hcons hmore fuel rest (by omega)]
      rfl

theorem readsBack_array {items : List Document} (hlossless : ∀ item ∈ items, Lossless item)
    (hitems : ∀ item ∈ items, ReadsBack item) : ReadsBack (.array items) := by
  refine readsBack_of_succ fun fuel rest hfuel _ => ?_
  rw [write_array, List.length_cons, List.length_append, List.length_singleton] at hfuel
  rw [write_array, List.cons_append, List.append_assoc, List.singleton_append, readValue_bracket]
  cases items with
  | nil => rfl
  | cons first more =>
      obtain ⟨c, cs, hbegins, hblank, hbracket⟩ := write_begins (hlossless first List.mem_cons_self)
      have hread := readItems_written (List.cons_ne_nil first more) hitems fuel rest (by omega)
      have hhead : ∃ cs, writeItems (first :: more) ++ ']' :: rest = c :: cs := by
        cases more <;> simp [writeItems, hbegins]
      obtain ⟨cs, hcs⟩ := hhead
      rw [hread, hcs, skipBlank_cons hblank]
      split
      · next heq => exact absurd (List.cons.inj heq).1 hbracket
      · rfl

theorem readsBack_object {fields : List (String × Document)} (hascending : Ascending fields)
    (hfields : ∀ f ∈ fields, ReadsBack f.2) : ReadsBack (.object fields) := by
  refine readsBack_of_succ fun fuel rest hfuel _ => ?_
  rw [write_object, List.length_cons, List.length_append, List.length_singleton] at hfuel
  rw [write_object, List.cons_append, List.append_assoc, List.singleton_append, readValue_brace]
  cases fields with
  | nil => rfl
  | cons first more =>
      have hread := readFields_written (List.cons_ne_nil first more) hfields fuel rest (by omega)
      have hhead : ∃ cs, writeFields (first :: more) ++ '\x7d' :: rest = '"' :: cs := by
        cases more <;> simp [writeFields, writeText]
      obtain ⟨cs, hcs⟩ := hhead
      rw [hread, hcs, skipBlank_cons rfl]
      exact congrArg (fun object => some (object, rest)) (ofFields_of_ascending hascending)

/-- A document of which nothing is lost is read back, whatever follows. -/
theorem Lossless.readsBack {document : Document} (h : Lossless document) : ReadsBack document := by
  induction h with
  | null =>
      exact readsBack_of_succ fun _ _ _ _ => rfl
  | bool value =>
      refine readsBack_of_succ fun fuel rest _ _ => ?_
      cases value <;> rfl
  | integer hlow hhigh => exact readsBack_integer hlow hhigh
  | text value => exact readsBack_text value
  | array hlossless hitems => exact readsBack_array hlossless hitems
  | object hascending hlossless hfields => exact readsBack_object hascending hfields

/-- The line of a document of which nothing is lost is read as that document. -/
theorem parse?_render {document : Document} (h : Lossless document) :
    parse? (render document) = some document := by
  have hfuel : (write document).length < (render document).length + 1 := by
    rw [render, String.length_ofList]
    exact Nat.lt_succ_self _
  have hread := h.readsBack _ [] hfuel .nil
  rw [List.append_nil] at hread
  rw [parse?]
  nth_rewrite 2 [render]
  rw [String.toList_ofList, hread]
  rfl

/-! ## The characters of a line -/

/-- Whether none of some characters is a control character, as those that end lines are. -/
def Unbroken (cs : List Char) : Prop := ∀ c ∈ cs, 0x20 ≤ c.toNat

@[simp]
theorem unbroken_nil : Unbroken [] := List.forall_mem_nil _

@[simp]
theorem unbroken_cons {c : Char} {cs : List Char} :
    Unbroken (c :: cs) ↔ 0x20 ≤ c.toNat ∧ Unbroken cs := List.forall_mem_cons

@[simp]
theorem unbroken_append {cs ds : List Char} :
    Unbroken (cs ++ ds) ↔ Unbroken cs ∧ Unbroken ds := List.forall_mem_append

theorem unbroken_escapeChar (c : Char) : Unbroken (escapeChar c) := by
  have hdigits : ∀ n < 0x20, 0x20 ≤ (Nat.digitChar (n / 16)).toNat ∧
      0x20 ≤ (Nat.digitChar (n % 16)).toNat := by decide
  obtain ⟨letter, hescape, -, hletter⟩ | ⟨hescape, hcontrol⟩ | ⟨hescape, -, -, hplain⟩ :=
    escapeChar_cases c
  · simpa [hescape] using hletter
  · simpa [hescape] using hdigits c.toNat hcontrol
  · simpa [hescape] using hplain

theorem unbroken_writeText (text : String) : Unbroken (writeText text) := by
  have hescaped : Unbroken (text.toList.flatMap escapeChar) := fun d hd => by
    obtain ⟨c, -, hd⟩ := List.mem_flatMap.1 hd
    exact unbroken_escapeChar c d hd
  simpa [writeText] using hescaped

theorem unbroken_toDigits (n : Nat) : Unbroken (Nat.toDigits 10 n) := fun c hc => by
  have hdigit := isDigit_of_mem_toDigits hc
  rw [Char.isDigit, Bool.and_eq_true, decide_eq_true_eq, decide_eq_true_eq] at hdigit
  exact Nat.le_trans (by decide) (UInt32.le_iff_toNat_le.1 hdigit.1)

theorem unbroken_writeItems : ∀ {items : List Document},
    (∀ item ∈ items, Unbroken (write item)) → Unbroken (writeItems items)
  | [], _ => unbroken_nil
  | [item], h => h item List.mem_cons_self
  | item :: next :: more, h => by
      obtain ⟨hitem, hmore⟩ := List.forall_mem_cons.1 h
      rw [writeItems_cons item (List.cons_ne_nil _ _)]
      simp [hitem, unbroken_writeItems hmore]

theorem unbroken_writeFields : ∀ {fields : List (String × Document)},
    (∀ f ∈ fields, Unbroken (write f.2)) → Unbroken (writeFields fields)
  | [], _ => unbroken_nil
  | [(key, value)], h => by
      have hvalue : Unbroken (write value) := h _ List.mem_cons_self
      simp [writeFields, unbroken_writeText, hvalue]
  | (key, value) :: next :: more, h => by
      obtain ⟨hvalue, hmore⟩ : Unbroken (write value) ∧ ∀ f ∈ next :: more, Unbroken (write f.2) :=
        List.forall_mem_cons.1 h
      rw [writeFields_cons key value (List.cons_ne_nil _ _)]
      simp [unbroken_writeText, hvalue, unbroken_writeFields hmore]

/-- No line break and no other control character is written. -/
theorem Lossless.unbroken {document : Document} (h : Lossless document) :
    Unbroken (write document) := by
  induction h with
  | null => simp
  | bool value => cases value <;> simp
  | @integer value hlow hhigh =>
      rw [write_integer, writeInteger]
      split <;> simp [unbroken_toDigits]
  | text value => exact unbroken_writeText value
  | array _ hitems => simp [unbroken_writeItems hitems]
  | object _ _ hfields => simp [unbroken_writeFields hfields]

end CompileWatch.Json
