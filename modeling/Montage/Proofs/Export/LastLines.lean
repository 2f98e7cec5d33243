import Mathlib.Data.List.DropRight
import Montage.Proofs.Export.Excerpt

/-!
Contract: a monitor keeps the end of what the engine said.

Events contribute lines, and lines without the blanks at their end are texts.
The tail is a window over these texts: a window that takes in one text more and
is cut again shows what one cut of all texts would show. Ignored events
contribute nothing and tell no position, so leaving them out changes nothing.

Owns: the texts of a stream, ignored items, and `keeps_end`.
Does not own: which percentages are reported, in `Proofs.Export.Furthest`.
-/

namespace Montage.Text

/-- Trimming drops the longest run of blanks at the end. -/
theorem trimEnd_eq_rdropWhile (cs : List Char) : trimEnd cs = cs.rdropWhile isBlank := by
  induction cs with
  | nil => rfl
  | cons c rest inductionHypothesis =>
      have behind : (c :: rest).rdropWhile isBlank =
          if rest.rdropWhile isBlank = [] then [c].rdropWhile isBlank
          else c :: rest.rdropWhile isBlank := by
        simp only [List.rdropWhile, List.reverse_cons, List.dropWhile_append, List.isEmpty_iff,
          List.reverse_eq_nil_iff]
        split <;> simp
      rw [trimEnd, inductionHypothesis, behind, List.rdropWhile_singleton]
      cases kept : rest.rdropWhile isBlank <;> simp

theorem joinWith_eq_intercalate (separator : List Char) (pieces : List (List Char)) :
    joinWith separator pieces = separator.intercalate pieces := by
  induction pieces with
  | nil => rfl
  | cons piece rest inductionHypothesis =>
      cases rest with
      | nil => simp [joinWith, List.intercalate]
      | cons next others =>
          rw [joinWith, inductionHypothesis, List.append_assoc]
          · simp [List.intercalate]
          · simp

end Montage.Text

namespace Montage.Export

open Montage.Text

/-! ## Texts -/

/-- A line without the blanks at its end. -/
def textOf (line : String) : String := String.ofList (line.toList.rdropWhile isBlank)

/-- What items contribute to the diagnostics: the texts of their lines, blank ones left out. -/
def texts (items : List StreamItem) : List String :=
  ((items.filterMap StreamItem.line?).map textOf).filter (· ≠ "")

theorem texts_cons (item : StreamItem) (rest : List StreamItem) :
    texts (item :: rest) = texts [item] ++ texts rest := by
  rw [texts, texts, texts, ← List.filter_append, ← List.map_append, ← List.filterMap_append]
  rfl

/-- Items that do not count: notices, other kinds of events, and pauses. -/
def StreamItem.isIgnored : StreamItem → Bool
  | .event (.progress _ _) => false
  | .event (.log _ _) => false
  | .event (.error line) => decide (IsNotice line)
  | .event (.other _) => true
  | .pause => true

/-! ## The window -/

/-- A window that was cut before it takes in more shows the same end. -/
theorem rtake_rtake_append {α : Type} (first second : List α) (count : Nat) :
    (first.rtake count ++ second).rtake count = (first ++ second).rtake count := by
  have cut : first.rtake count ++ second = (first ++ second).drop (first.length - count) :=
    (List.drop_append_of_le_length (Nat.sub_le ..)).symm
  rw [cut, List.rtake, List.rtake, List.drop_drop]
  congr 1
  simp only [List.length_drop, List.length_append]
  omega

theorem rtake_of_length_le {α : Type} {all : List α} {count : Nat} (short : all.length ≤ count) :
    all.rtake count = all := by
  rw [List.rtake, Nat.sub_eq_zero_of_le short, List.drop_zero]

namespace Tail

theorem trimmed_eq_textOf (line : String) : trimmed line = textOf line := by
  rw [trimmed, textOf, trimEnd_eq_rdropWhile]

/-- A line more is a text more at the end of the window, unless it is blank. -/
theorem push_lines {tail : Tail} (short : tail.lines.length ≤ capacity) (line : String) :
    (tail.push line).lines = (tail.lines ++ [textOf line].filter (· ≠ "")).rtake capacity := by
  by_cases blank : textOf line = ""
  · rw [push_of_blank (by rw [trimmed_eq_textOf, blank])]
    simp [blank, rtake_of_length_le short]
  · have shown : (textOf line).isEmpty = false := by simpa using blank
    have only : [textOf line].filter (· ≠ "") = [textOf line] := by simp [blank]
    simp only [push, trimmed_eq_textOf, shown, Bool.false_eq_true, ↓reduceIte, only]
    split
    · next full =>
        have oldest : (tail.lines ++ [textOf line]).length - capacity = 1 := by
          rw [List.length_append, List.length_singleton]
          omega
        have some : 1 ≤ tail.lines.length := by
          rw [full]
          decide
        rw [List.rtake, oldest, List.drop_append_of_le_length some]
    · next room =>
        refine (rtake_of_length_le ?_).symm
        rw [List.length_append, List.length_singleton]
        omega

/-- The excerpt is the end of the kept lines, one below the other. -/
theorem exists_front (tail : Tail) : ∃ front,
    "\n".intercalate tail.lines = front ++ tail.excerpt ∧
      tail.excerpt.length = min 200 ("\n".intercalate tail.lines).length := by
  have joined : joinWith ['\n'] (tail.lines.map String.toList) =
      ("\n".intercalate tail.lines).toList := by
    rw [joinWith_eq_intercalate, String.toList_intercalate]
    rfl
  have chars : tail.excerpt.toList = ("\n".intercalate tail.lines).toList.rtake 200 := by
    rw [excerpt, joined, String.toList_ofList]
    rfl
  refine ⟨String.ofList (("\n".intercalate tail.lines).toList.rdrop 200), ?_, ?_⟩
  · rw [← String.toList_inj, String.toList_append, String.toList_ofList, chars]
    exact (List.take_append_drop _ _).symm
  · rw [← String.length_toList, chars, List.rtake, List.length_drop, String.length_toList]
    omega

end Tail

namespace Monitor

/-! ## One event -/

theorem handle_lines {monitor : Monitor} (short : monitor.tail.lines.length ≤ Tail.capacity)
    (event : EngineEvent) : (monitor.handle event).2.tail.lines =
      (monitor.tail.lines ++ texts [.event event]).rtake Tail.capacity := by
  rw [handle_tail]
  cases contributed : lineOf? event with
  | none => simp [texts, StreamItem.line?_event, contributed, rtake_of_length_le short]
  | some line =>
      have single : texts [.event event] = [textOf line].filter (· ≠ "") := by
        simp [texts, StreamItem.line?_event, contributed]
      rw [single]
      exact Tail.push_lines short line

/-- An ignored event gets no answer and changes nothing. -/
theorem handle_of_isIgnored (monitor : Monitor) {event : EngineEvent}
    (ignored : (StreamItem.event event).isIgnored = true) :
    monitor.handle event = (none, monitor) := by
  cases event with
  | progress time line => cases ignored
  | log level line => cases ignored
  | error line =>
      have harmless : isHarmless line = true := isHarmless_iff.mpr (of_decide_eq_true ignored)
      simp [handle, lineOf?, positionOf?, harmless, Tracker.updateIfSome]
  | other line => rfl

/-! ## A stream -/

theorem follow_lines {monitor : Monitor} (short : monitor.tail.lines.length ≤ Tail.capacity)
    (items : List StreamItem) : (monitor.follow items).tail.lines =
      (monitor.tail.lines ++ texts items).rtake Tail.capacity := by
  induction items generalizing monitor with
  | nil =>
      change monitor.tail.lines = (monitor.tail.lines ++ []).rtake Tail.capacity
      rw [List.append_nil, rtake_of_length_le short]
  | cons item rest inductionHypothesis =>
      cases item with
      | pause => exact inductionHypothesis short
      | event said =>
          have lines := handle_lines short said
          have stillShort : (monitor.handle said).2.tail.lines.length ≤ Tail.capacity := by
            rw [lines, List.rtake, List.length_drop]
            omega
          rw [follow, inductionHypothesis stillShort, lines, rtake_rtake_append, texts_cons (.event said) rest,
            List.append_assoc]

/-- Following a stream is following what is left when ignored items are taken out. -/
theorem follow_heeded (monitor : Monitor) (items : List StreamItem) :
    monitor.follow (items.filter (!·.isIgnored)) = monitor.follow items ∧
      monitor.reported (items.filter (!·.isIgnored)) = monitor.reported items := by
  induction items generalizing monitor with
  | nil => exact ⟨rfl, rfl⟩
  | cons item rest inductionHypothesis =>
      cases item with
      | pause => exact inductionHypothesis monitor
      | event said =>
          cases ignored : (StreamItem.event said).isIgnored with
          | true =>
              have nothing := handle_of_isIgnored monitor ignored
              simp only [List.filter_cons, ignored, Bool.not_true, Bool.false_eq_true, ↓reduceIte,
                follow, reported, nothing, Option.toList_none, List.nil_append]
              exact inductionHypothesis monitor
          | false =>
              simp only [List.filter_cons, ignored, Bool.not_false, ↓reduceIte, follow, reported,
                inductionHypothesis (monitor.handle said).2, and_self]

/-- What a monitor keeps of a stream: the last twenty texts, and of these the last two hundred
characters for an excerpt. -/
structure KeepsEnd (total : Float) (items : List StreamItem) : Prop where
  lines : ((start total).follow items).tail.lines = (texts items).rtake 20
  /-- The excerpt begins between two characters of the lines. -/
  excerpt : ∃ front,
    "\n".intercalate ((texts items).rtake 20) =
        front ++ ((start total).follow items).tail.excerpt ∧
      ((start total).follow items).tail.excerpt.length =
        min 200 ("\n".intercalate ((texts items).rtake 20)).length
  excerpt_empty_iff : ((start total).follow items).tail.excerpt = "" ↔ texts items = []
  /-- Ignored items may be left out, or put in, anywhere. -/
  undisturbed : ∀ others : List StreamItem,
    others.filter (!·.isIgnored) = items.filter (!·.isIgnored) →
      (start total).follow others = (start total).follow items ∧
        (start total).reported others = (start total).reported items

/-- Whatever the engine says, the monitor keeps the end of it. -/
theorem keeps_end (total : Float) (items : List StreamItem) : KeepsEnd total items := by
  have noLines : (start total).tail.lines.length ≤ Tail.capacity := Nat.zero_le _
  have lines : ((start total).follow items).tail.lines = (texts items).rtake 20 :=
    follow_lines noLines items
  refine ⟨lines, ?_, ?_, ?_⟩
  · rw [← lines]
    exact Tail.exists_front _
  · have filled : (start total).tail.Filled := fun _ member => absurd member List.not_mem_nil
    rw [← String.isEmpty_iff, Tail.excerpt_isEmpty_iff (follow_filled filled items), lines,
      List.rtake, List.drop_eq_nil_iff, ← List.length_eq_zero_iff]
    omega
  · intro others same
    have left := follow_heeded (start total) others
    have right := follow_heeded (start total) items
    rw [same] at left
    exact ⟨left.1.symm.trans right.1, left.2.symm.trans right.2⟩

example : ((start 20.0).follow
    [.event (.log .info "héros.mp4"), .event (.error "No streams found"), .event (.log .error "\t"),
      .event (.other "time=00:00:10.00"), .event (.error "b")]).tail.excerpt = "héros.mp4\nb" := by
  decide +kernel

end Monitor

end Montage.Export
