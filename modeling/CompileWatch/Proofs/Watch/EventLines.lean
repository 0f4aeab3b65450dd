import CompileWatch.Proofs.Document.Json
import CompileWatch.Proofs.Text.Lines
import CompileWatch.Watch.Event

/-!
# The lines of the events

Each event is one line, whatever texts it holds: their line breaks and other control
characters are escaped, so that the line has none, and the event is read back from the
line (`recoverable`). The lines of any events can therefore be put together with line
feeds between them, and the events are got back from the lines of that text
(`event_stream_recoverable`).

An object keeps its fields in the order of their keys, so the command and the tag stand
among the fields of the event. They are looked up like these, and the tag decides which
others are looked for (`decode?_encode`).
-/

namespace CompileWatch.WatchEvent

open Document Json Decimal

/-- Whether the counts of an event fit words of 64 bits. -/
def Fits : WatchEvent → Prop
  | watchStarted _ files => files < wordLimit
  | fileChanged _ version => version < wordLimit
  | _ => True

/-- The lines of events with line feeds between them. -/
def stream (events : List WatchEvent) : String := "\n".intercalate (events.map line)

/-- Whether the line of an event is an object on a line of its own that says which command and
which kind of event it comes from, and the event is read back from it. -/
structure Recoverable (e : WatchEvent) : Prop where
  unbroken : Unbroken e.line.toList
  parsed : ∃ fields, parse? e.line = some (.object fields) ∧
    (Document.object fields).field? "command" = some (.text "watch") ∧
    (Document.object fields).field? "event" = some (.text e.tag)
  read : ofLine? e.line = some e

/-! ## One event -/

theorem textsField?_of_field? {document : Document} {key : String} {texts : List String}
    (h : document.field? key = some (.array (texts.map .text))) :
    textsField? document key = some texts := by
  rw [textsField?, h]
  dsimp only
  clear h
  induction texts with
  | nil => rfl
  | cons text rest ih =>
      rw [List.map_cons, List.mapM_cons, ih]
      rfl

/-- An event is read back from its object. -/
theorem decode?_encode (e : WatchEvent) : decode? e.encode = some e := by
  cases e with
  | emitted path artifacts emitSkipped =>
      have hartifacts : textsField? (emitted path artifacts emitSkipped).encode "artifacts" =
          some artifacts := textsField?_of_field? rfl
      show (textsField? (emitted path artifacts emitSkipped).encode "artifacts").bind _ = _
      rw [hartifacts]
      rfl
  | watchStarted | fileChanged | diagnostic | error | shutdown => rfl

theorem lossless_count {n : Nat} (h : n < wordLimit) : Lossless (.integer n) :=
  .integer (by omega) (by omega)

theorem lossless_encode {e : WatchEvent} (h : e.Fits) : Lossless e.encode := by
  have hfields : ∀ f ∈ e.fields, Lossless f.2 := by
    cases e with
    | watchStarted root files => simp [fields, Lossless.text, lossless_count h]
    | fileChanged path version => simp [fields, Lossless.text, lossless_count h]
    | emitted path artifacts emitSkipped =>
        have hartifacts : Lossless (.array (artifacts.map .text)) :=
          .array (List.forall_mem_map.2 fun artifact _ => .text artifact)
        simp [fields, Lossless.text, Lossless.bool, hartifacts]
    | diagnostic | error | shutdown => simp [fields, Lossless.text]
  exact lossless_ofFields
    (List.forall_mem_cons.2 ⟨.text _, List.forall_mem_cons.2 ⟨.text _, hfields⟩⟩)

/-- Every event is told by its line. -/
theorem recoverable {e : WatchEvent} (h : e.Fits) : Recoverable e := by
  have hlossless := lossless_encode h
  have hparse : parse? e.line = some e.encode := parse?_render hlossless
  refine ⟨?_, ⟨_, hparse, ?_, ?_⟩, ?_⟩
  · rw [line, render, String.toList_ofList]
    exact hlossless.unbroken
  · cases e <;> rfl
  · cases e <;> rfl
  · rw [ofLine?, hparse, Option.bind_some, decode?_encode]

namespace Recoverable

variable {e f : WatchEvent}

theorem line_injective (he : Recoverable e) (hf : Recoverable f) (h : e.line = f.line) : e = f := by
  have hread := he.read
  rw [h, hf.read] at hread
  exact (Option.some.inj hread).symm

theorem not_mem_line (h : Recoverable e) {c : Char} (hc : c.toNat < 0x20) : c ∉ e.line.toList :=
  fun hmem => absurd hc (Nat.not_lt_of_le (h.unbroken c hmem))

theorem line_ne_empty (h : Recoverable e) : e.line ≠ "" := by
  intro hempty
  have hread := h.read
  rw [hempty] at hread
  cases hread

end Recoverable

/-! ## Streams of events -/

section Streams

variable {events : List WatchEvent}

theorem mapM_ofLine? (h : ∀ e ∈ events, Recoverable e) :
    (events.map line).mapM ofLine? = some events := by
  induction events with
  | nil => rfl
  | cons e rest ih =>
      obtain ⟨he, hrest⟩ := List.forall_mem_cons.1 h
      rw [List.map_cons, List.mapM_cons, he.read, ih hrest]
      rfl

theorem lines_stream (h : ∀ e ∈ events, Recoverable e) :
    Text.lines (stream events) = events.map line := by
  refine Text.lines_intercalate ?_ ?_ ?_ <;> refine List.forall_mem_map.2 fun e he => ?_
  · exact (h e he).line_ne_empty
  · exact (h e he).not_mem_line (by decide)
  · exact fun hlast => (h e he).not_mem_line (by decide) (List.mem_of_getLast? hlast)

theorem splitOn_stream (hne : events ≠ []) (h : ∀ e ∈ events, Recoverable e) :
    ((stream events).toList.splitOn '\n').map String.ofList = events.map line := by
  have hbreak : ∀ text ∈ events.map line, '\n' ∉ text.toList :=
    List.forall_mem_map.2 fun e he => (h e he).not_mem_line (by decide)
  rw [stream, Text.splitOn_intercalate (by simpa using hne) hbreak, List.map_map]
  exact (List.map_congr_left fun text _ => String.ofList_toList).trans (List.map_id _)

/-- Events whose counts fit words of 64 bits are each told by a line of their own, and different
events by different lines. With line feeds between the lines the events are read back, from the
lines of the text, and if there are any also from what stands between its line feeds. -/
theorem event_stream_recoverable (h : ∀ e ∈ events, e.Fits) :
    (∀ e ∈ events, Recoverable e) ∧
      (∀ e ∈ events, ∀ f ∈ events, e.line = f.line → e = f) ∧
      (Text.lines (stream events)).mapM ofLine? = some events ∧
      (events ≠ [] →
        (((stream events).toList.splitOn '\n').map String.ofList).mapM ofLine? = some events) := by
  have hevents : ∀ e ∈ events, Recoverable e := fun e he => recoverable (h e he)
  refine ⟨hevents, fun e he f hf => (hevents e he).line_injective (hevents f hf), ?_, ?_⟩
  · rw [lines_stream hevents, mapM_ofLine? hevents]
  · intro hne
    rw [splitOn_stream hne hevents, mapM_ofLine? hevents]

/-- Events with every kind of character that is escaped, and with the greatest count. -/
def troubled : List WatchEvent :=
  [watchStarted "/p\n\"q\"" 0, fileChanged "\\\r\n\x00" 0xFFFFFFFFFFFFFFFF,
    emitted "\x7f\x85é" ["a\tb", "", "\x08\x0c\x1f"] true, diagnostic "\x7b\\\"\x7d\n", error "",
    shutdown]

theorem event_stream_recoverable_troubled : (∀ e ∈ troubled, e.Fits) ∧
    (∀ e ∈ troubled, Recoverable e) ∧
      (Text.lines (stream troubled)).mapM ofLine? = some troubled := by
  have hfits : ∀ e ∈ troubled, e.Fits := by simp [troubled, Fits, wordLimit]
  obtain ⟨hevents, -, hlines, -⟩ := event_stream_recoverable hfits
  exact ⟨hfits, hevents, hlines⟩

end Streams

end CompileWatch.WatchEvent
