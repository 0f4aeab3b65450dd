import CompileWatch.Proofs.Shell.Reading
import Mathlib.Data.List.Forall2

/-!
# Words and items of commands

Wherever a word may begin, a quoted text is read as one word that stands for the text
and for nothing else (`read_quote`). The induction is on the text and carries the mode
between single quotes: a character other than a quote stays in it, and a quote leaves
it, is taken as it is after a backslash, and comes back.

Commands are put together from items with blanks between them. An item is read by
itself (`Reads`), whatever came before it, and so is a row of items
(`reads_intercalate`).
-/

namespace CompileWatch.Shell

/-! ## Steps -/

/-- Whether a word that has been read ends here. -/
def EndsWord : List Char → Prop
  | [] => True
  | c :: _ => isBlank c = true ∨ isOperator c = true

namespace Reader

variable {tokens : List Token} {depth : Nat} {outer : List Outer} {pieces : List Piece}

/-- A reader that has read some tokens and may begin a word. -/
def between (tokens : List Token) (depth : Nat) (outer : List Outer) : Reader :=
  { tokens, depth, outer }

/-- Whether the next character may begin a word. -/
structure MayBegin (r : Reader) : Prop where
  word : r.word = none
  mode : r.mode = .plain ∨ r.mode = .opened ∨ ∃ first, r.mode = .operator first

/-- A reader when a word begins, which is the end of an operator that could have gone on. -/
def begun (r : Reader) : Reader :=
  match r.mode with
  | .operator first => (r.emit (.operator (String.ofList [first]))).back false
  | _ => r.back false

theorem read_append {r next : Reader} {before : List Char} (h : before.foldlM step r = some next)
    (rest : List Char) : r.read (before ++ rest) = next.read rest := by
  rw [read, List.foldlM_append, h]
  rfl

theorem read_blank (rest : List Char) : (between tokens depth outer).read (' ' :: rest) =
    (between tokens depth outer).read rest := rfl

theorem read_congr {r other : Reader} {c : Char} (h : r.step c = other.step c) (rest : List Char) :
    r.read (c :: rest) = other.read (c :: rest) := by
  rw [read, read, List.foldlM_cons, List.foldlM_cons, h]

theorem step_of_end {r : Reader} {c : Char} (hr : r.mode = .plain)
    (hc : isBlank c = true ∨ isOperator c = true) :
    r.step c = some (if isBlank c then r.endWord else (r.endBefore c).operator c) := by
  have hc : c ∈ " \t&|;<>()\n".toList := by simpa [isBlank, isOperator, or_assoc] using hc
  rw [step, hr]
  simp only [String.reduceToList, List.mem_cons, List.not_mem_nil, or_false] at hc
  rcases hc with rfl | rfl | rfl | rfl | rfl | rfl | rfl | rfl | rfl | rfl <;> rfl

theorem begun_eq {r : Reader} (hr : r.MayBegin) :
    r.begun = between r.begun.tokens r.begun.depth r.begun.outer := by
  obtain ⟨tokens, word, depth, outer, mode⟩ := r
  obtain ⟨hword, hmode⟩ := hr
  cases hword
  rcases hmode with h | h | ⟨first, h⟩ <;> cases h <;> rfl

theorem read_begun {r : Reader} (hr : r.MayBegin) (rest : List Char) :
    r.read ('\'' :: rest) = r.begun.read ('\'' :: rest) := by
  refine read_congr ?_ rest
  obtain ⟨tokens, word, depth, outer, mode⟩ := r
  obtain ⟨-, hmode⟩ := hr
  rcases hmode with h | h | ⟨first, h⟩ <;> cases h
  · rfl
  · rfl
  · simp [step, goesOn, begun, stepBack, back, emit]

/-- A word is over before an operator, unless it is the number of a stream that is redirected. -/
theorem endBefore_word {c : Char} (hword : number? pieces = none ∨ c ≠ '<' ∧ c ≠ '>') :
    ({ between tokens depth outer with word := some pieces } : Reader).endBefore c =
      between (tokens ++ [.word pieces]) depth outer := by
  rw [endBefore]
  split
  · next number hnumber =>
    rcases hword with hnone | hne
    · exact absurd (hnumber.symm.trans hnone) nofun
    · rw [if_neg (by simp [hne])]
      rfl
  · rfl

theorem read_word {follow : List Char} (hf : EndsWord follow)
    (hword : number? pieces = none ∨ ∀ c ∈ follow.head?, c ≠ '<' ∧ c ≠ '>') :
    { between tokens depth outer with word := some pieces }.read follow =
      (between (tokens ++ [.word pieces]) depth outer).read follow := by
  cases follow with
  | nil => cases outer <;> rfl
  | cons c rest =>
      refine read_congr ?_ rest
      rw [step_of_end rfl hf, step_of_end rfl hf, endBefore_word (hword.imp_right fun h => h c rfl)]
      rfl

end Reader

/-- What extends a word by one piece for each character extends it by them all. -/
theorem foldlM_spelled {mode : Mode} {spell : Char → List Char} {piece : Char → Piece}
    {cs : List Char} (h : ∀ c ∈ cs, ∀ (r : Reader) (pieces : List Piece), r.mode = mode →
      r.word = some pieces → (spell c).foldlM Reader.step r =
        some { r with word := some (pieces ++ [piece c]) }) :
    ∀ (r : Reader) (pieces : List Piece), r.mode = mode → r.word = some pieces →
      (cs.flatMap spell).foldlM Reader.step r =
        some { r with word := some (pieces ++ cs.map piece) } := by
  induction cs with
  | nil =>
      rintro r pieces - hword
      rw [List.map_nil, List.append_nil, ← hword]
      rfl
  | cons c cs ih =>
      intro r pieces hmode hword
      have hrest := ih (fun d hd => h d (List.mem_cons_of_mem c hd))
        { r with word := some (pieces ++ [piece c]) } _ hmode rfl
      rw [List.append_assoc] at hrest
      rw [List.flatMap_cons, List.foldlM_append, h c List.mem_cons_self r pieces hmode hword]
      exact hrest

/-! ## Quoted texts -/

/-- Between single quotes the text of a character is read as the character. -/
theorem foldlM_quoteChar (c : Char) (r : Reader) (pieces : List Piece) (hmode : r.mode = .single)
    (hword : r.word = some pieces) : (quoteChar c).foldlM Reader.step r =
      some { r with word := some (pieces ++ [.quoted c]) } := by
  unfold quoteChar
  split
  · next heq =>
    subst heq
    simp [Reader.step, Reader.stepPlain, Reader.extend, Reader.back, hmode, hword]
  · next hne => simp [Reader.step, Reader.extend, hmode, hword, hne]

section Quoting

variable (text : String) (tokens : List Token) (depth : Nat) (outer : List Outer)

/-- A quoted text is a word in the making of nothing but its characters. -/
theorem foldlM_quote : (quote text).toList.foldlM Reader.step (.between tokens depth outer) =
    some { Reader.between tokens depth outer with word := some (text.toList.map .quoted) } := by
  rw [quote, String.toList_ofList, ← List.singleton_append, List.foldlM_append]
  show (text.toList.flatMap quoteChar ++ ['\'']).foldlM Reader.step
    { Reader.between tokens depth outer with word := some [], mode := .single } = _
  rw [List.foldlM_append, foldlM_spelled (fun c _ => foldlM_quoteChar c) _ [] rfl rfl]
  rfl

theorem number?_quoted (cs : List Char) : number? (cs.map .quoted) = none := by
  cases cs with
  | nil => rfl
  | cons c cs => simp [number?]

theorem literal?_literal : (literal text).literal? = some text := by
  have hchars : ∀ cs : List Char, (cs.map Piece.quoted).mapM Piece.char? = some cs := by
    intro cs
    induction cs with
    | nil => rfl
    | cons c cs ih => simp [Piece.char?, ih]
  rw [literal, Token.literal?, hchars, Option.map_some, String.ofList_toList]

theorem read_quote {r : Reader} (hr : r.MayBegin) {follow : List Char} (hf : EndsWord follow) :
    r.read ((quote text).toList ++ follow) = (r.begun.emit (literal text)).read follow := by
  have hquote : ∃ rest, (quote text).toList ++ follow = '\'' :: rest := by
    rw [quote, String.toList_ofList]
    exact ⟨_, rfl⟩
  obtain ⟨rest, hrest⟩ := hquote
  rw [hrest, Reader.read_begun hr, ← hrest, Reader.begun_eq hr,
    Reader.read_append (foldlM_quote text _ _ _)]
  exact Reader.read_word hf (.inl (number?_quoted text.toList))

end Quoting

/-! ## Items of commands -/

/-- Whether an item of a command ends here. -/
def EndsItem : List Char → Prop
  | [] => True
  | c :: _ => c = ' ' ∨ c = ')'

/-- Whether a text is read as tokens wherever a word may begin. -/
def Reads (text : String) (tokens : List Token) : Prop :=
  ∀ before depth outer follow, EndsItem follow →
    (Reader.between before depth outer).read (text.toList ++ follow) =
      (Reader.between (before ++ tokens) depth outer).read follow

theorem EndsItem.endsWord {follow : List Char} (hf : EndsItem follow) : EndsWord follow := by
  cases follow with
  | nil => trivial
  | cons c rest =>
      rcases hf with rfl | rfl
      · exact .inl rfl
      · exact .inr rfl

theorem EndsItem.head_ne {follow : List Char} (hf : EndsItem follow) :
    ∀ c ∈ follow.head?, c ≠ '<' ∧ c ≠ '>' := by
  intro c hc
  cases follow with
  | nil => cases hc
  | cons d rest =>
      cases hc
      rcases hf with rfl | rfl <;> decide

theorem reads_quote (text : String) : Reads (quote text) [literal text] :=
  fun _ _ _ _ hf => read_quote text ⟨rfl, .inl rfl⟩ hf.endsWord

/-- A text that leads up to the end of a word is read as what was complete before, and the word. -/
theorem reads_word {text : String} (tokens : List Token) {pieces : List Piece}
    (h : ∀ before depth outer, text.toList.foldlM Reader.step (.between before depth outer) =
      some { Reader.between (before ++ tokens) depth outer with word := some pieces }) :
    Reads text (tokens ++ [.word pieces]) := by
  intro before depth outer follow hf
  rw [Reader.read_append (h before depth outer), ← List.append_assoc]
  exact Reader.read_word hf.endsWord (.inr hf.head_ne)

/-- Likewise for an operator that could go on. -/
theorem reads_operator {text : String} (tokens : List Token) {first : Char}
    (h : ∀ before depth outer, text.toList.foldlM Reader.step (.between before depth outer) =
      some { Reader.between (before ++ tokens) depth outer with mode := .operator first }) :
    Reads text (tokens ++ [.operator (String.ofList [first])]) := by
  intro before depth outer follow hf
  rw [Reader.read_append (h before depth outer), ← List.append_assoc]
  cases follow with
  | nil => cases outer <;> rfl
  | cons c rest =>
      refine Reader.read_congr ?_ rest
      have hends : goesOn first c = false ∧ c ≠ '<' := by
        rcases hf with rfl | rfl <;> simp [goesOn]
      show (if goesOn first c then _ else if first = '<' && c = '<' then _ else _) = _
      rw [hends.1, if_neg (by decide), if_neg (by simp [hends.2])]
      rfl

/-- Likewise for what is complete. -/
theorem reads_complete {text : String} {tokens : List Token}
    (h : ∀ before depth outer, text.toList.foldlM Reader.step (.between before depth outer) =
      some (.between (before ++ tokens) depth outer)) : Reads text tokens :=
  fun before depth outer follow _ => Reader.read_append (h before depth outer) follow

/-- Whether a character outside quotes is a part of any word that it stands in. -/
def isOrdinary (c : Char) : Bool :=
  !isBlank c && !isOperator c && !(['\'', '"', '\\', '$', backQuote, '#'].contains c)

theorem step_ordinary {c : Char} (hc : isOrdinary c = true) {r : Reader} (hr : r.mode = .plain) :
    r.step c = some (r.extend [.plain c]) := by
  simp only [isOrdinary, Bool.and_eq_true, Bool.not_eq_true', List.contains_cons, List.contains_nil,
    Bool.or_false, Bool.or_eq_false_iff, beq_eq_false_iff_ne] at hc
  simp [Reader.step, Reader.stepPlain, hr, hc]

/-- A word without anything special in it is read as it is. -/
theorem reads_plain {text : String} (hne : text.toList ≠ [])
    (h : text.toList.all isOrdinary = true) : Reads text [plainWord text] := by
  refine reads_word [] fun before depth outer => ?_
  obtain ⟨c, cs, htext⟩ := List.exists_cons_of_ne_nil hne
  rw [htext] at h ⊢
  obtain ⟨hc, hcs⟩ := List.forall_mem_cons.1 (List.all_eq_true.1 h)
  have hspelled : ∀ d ∈ cs, ∀ (r : Reader) (pieces : List Piece), r.mode = .plain →
      r.word = some pieces →
        [d].foldlM Reader.step r = some { r with word := some (pieces ++ [.plain d]) } := by
    intro d hd r pieces hmode hword
    rw [List.foldlM_cons, step_ordinary (hcs d hd) hmode]
    simp [Reader.extend, hword]
  have hrest := foldlM_spelled hspelled
    { Reader.between (before ++ []) depth outer with word := some [.plain c] } _ rfl rfl
  rw [List.flatMap_singleton', List.append_nil] at hrest
  rw [List.foldlM_cons, step_ordinary hc rfl, List.append_nil]
  exact hrest

/-- Items with a blank between them are read one after the other. -/
theorem Reads.append {a b : String} {ts us : List Token} (ha : Reads a ts) (hb : Reads b us) :
    Reads (a ++ " " ++ b) (ts ++ us) := by
  intro before depth outer follow hf
  have htext : (a ++ " " ++ b).toList ++ follow = a.toList ++ ' ' :: (b.toList ++ follow) := by simp
  rw [htext, ha before depth outer _ (show EndsItem (' ' :: _) from .inl rfl)]
  rw [Reader.read_blank, hb _ depth outer follow hf, List.append_assoc]

theorem reads_intercalate {items : List String} (tokens : List (List Token)) (hne : items ≠ [])
    (h : List.Forall₂ Reads items tokens) : Reads (" ".intercalate items) tokens.flatten := by
  induction h with
  | nil => exact absurd rfl hne
  | @cons a ts rest tss ha hrest ih =>
      cases hrest with
      | nil => simpa using ha
      | @cons b us rest tss hb hrest =>
          have hjoin :
              " ".intercalate (a :: b :: rest) = a ++ " " ++ " ".intercalate (b :: rest) := by simp
          rw [hjoin]
          exact ha.append (ih (by simp))

/-- A command in parentheses after a dollar is read by itself and becomes a part of its word. -/
theorem reads_output {lead inner : String} {pieces : List Piece} {tokens : List Token}
    (hlead : ∀ before depth outer, lead.toList.foldlM Reader.step (.between before depth outer) =
      some ⟨[], none, 0, ⟨before, pieces, depth, false⟩ :: outer, .opened⟩)
    (hinner : Reads inner tokens) (hopen : inner.toList.head? ≠ some '(') :
    Reads (lead ++ inner ++ ")") [.word (pieces ++ [.output tokens false])] := by
  intro before depth outer follow hf
  have htext : (lead ++ inner ++ ")").toList ++ follow =
      lead.toList ++ (inner.toList ++ ')' :: follow) := by simp
  rw [htext, Reader.read_append (hlead before depth outer)]
  cases hrest : inner.toList ++ ')' :: follow with
  | nil => simp at hrest
  | cons c rest =>
      have hc : c ≠ '(' := by
        rintro rfl
        cases hi : inner.toList with
        | nil => rw [hi] at hrest; cases hrest
        | cons d more => rw [hi] at hrest hopen; cases hrest; exact hopen rfl
      have hfirst : Reader.step ⟨[], none, 0, ⟨before, pieces, depth, false⟩ :: outer, .opened⟩ c =
          Reader.step (.between [] 0 (⟨before, pieces, depth, false⟩ :: outer)) c := if_neg hc
      have hclosed : EndsItem (')' :: follow) := .inr rfl
      rw [Reader.read_congr hfirst, ← hrest, hinner [] 0 _ _ hclosed]
      exact Reader.read_word hf.endsWord (.inr hf.head_ne)

theorem tokens?_of_reads {command : String} {tokens : List Token} (h : Reads command tokens) :
    tokens? command = some tokens := by
  have hread := h [] 0 [] [] trivial
  rw [List.append_nil] at hread
  exact hread

end CompileWatch.Shell
